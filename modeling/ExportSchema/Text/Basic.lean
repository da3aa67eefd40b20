/-!
# Texts

A text is the list of its characters: lengths and positions count code points, and every function
on it is a plain recursion on the list.

* `Text.stripWith`, `Text.stripStartWith`, `Text.stripEndWith`: drop the characters of a class at
  the ends.
* `Text.replaceFirst`: replaces the first occurrence of a pattern.
* `Text.splitWhere`, `Text.splitOn`, `Text.join`: cut at the characters of a class or at one
  character, and put the pieces back together.
-/

namespace ExportSchema

/-- A text, as the list of its characters. -/
abbrev Text := List Char

namespace Text

/-- Drop the leading characters of the class `p`. -/
def stripStartWith (p : Char → Bool) (t : Text) : Text := t.dropWhile p

/-- Drop the trailing characters of the class `p`. -/
def stripEndWith (p : Char → Bool) (t : Text) : Text := (t.reverse.dropWhile p).reverse

/-- Drop the characters of the class `p` at both ends. -/
def stripWith (p : Char → Bool) (t : Text) : Text := stripEndWith p (stripStartWith p t)

/-- The rest of `t` after the leading `head`, when `t` starts with it. -/
def after? (head t : Text) : Option Text := head.isPrefixOf? t

/-- Does `t` start with `head`? -/
def startsWith (head t : Text) : Bool := head.isPrefixOf t

/-- Does `t` end with `tail`? -/
def endsWith (tail t : Text) : Bool := tail.isSuffixOf t

/-- Does `piece` occur in the text? -/
def hasPiece (piece : Text) : Text → Bool
  | [] => piece.isEmpty
  | c :: cs => startsWith piece (c :: cs) || hasPiece piece cs

/-- Replace the first occurrence of `old` by `new`. -/
def replaceFirst (old new : Text) : Text → Text
  | [] => []
  | c :: cs =>
    match after? old (c :: cs) with
    | some rest => new ++ rest
    | none => c :: replaceFirst old new cs

/-- Replace every occurrence of the pair `a b` by the single character `b`. -/
def dropBefore (a b : Char) : Text → Text
  | [] => []
  | [c] => [c]
  | c :: d :: cs =>
    if c = a ∧ d = b then b :: dropBefore a b cs else c :: dropBefore a b (d :: cs)

/-- The first piece and the further pieces of a text cut at every character of the class `p`. -/
def pieces (p : Char → Bool) : Text → Text × List Text
  | [] => ([], [])
  | c :: cs =>
    let (first, more) := pieces p cs
    if p c then ([], first :: more) else (c :: first, more)

/-- Cut a text at every character of the class `p`; there is always at least one piece. -/
def splitWhere (p : Char → Bool) (t : Text) : List Text :=
  let (first, more) := pieces p t
  first :: more

/-- Cut a text at every `sep`. -/
def splitOn (sep : Char) (t : Text) : List Text := splitWhere (· = sep) t

/-- Put pieces together with `sep` between them. -/
def join (sep : Text) : List Text → Text
  | [] => []
  | [p] => p
  | p :: q :: ps => p ++ sep ++ join sep (q :: ps)

/-- The lower-case form of the ASCII letters of a text; other characters stay. -/
def lowerAscii (t : Text) : Text := t.map Char.toLower

/-- The pieces of a text on both sides of the first `sep`, or `none` when it has none. -/
def cut? (sep : Char) : Text → Option (Text × Text)
  | [] => none
  | c :: cs =>
    if c = sep then some ([], cs) else (cut? sep cs).map fun (a, b) => (c :: a, b)

/-- The decimal digits of a natural number. -/
def ofNat (n : Nat) : Text := Nat.toDigits 10 n

/-- The decimal text of an integer, with a minus sign when it is negative. -/
def ofInt : Int → Text
  | .ofNat n => ofNat n
  | .negSucc n => '-' :: ofNat (n + 1)

end Text

end ExportSchema
