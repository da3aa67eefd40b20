import ExportSchema.Text.Blank
import ExportSchema.Text.Digit
import ExportSchema.Text.Word

/-!
# Words, names and literals of type text

* `primitiveNames`, `nullishNames`: the keyword types.
* `isStringLiteral`, `isNumberLiteral`: the two literal forms, as classes of whole texts.
* `isBareName`, `dottedName?`: identifiers, and identifiers joined by dots.
* `unquote`: a quoted name without its quotes.
-/

namespace ExportSchema.Lexeme

open Text (isDigit isWordChar isAsciiLetter trim)

/-! ## Keywords -/

/-- The keyword types. -/
def primitiveNames : List Text :=
  ["string", "number", "boolean", "null", "undefined", "any", "unknown", "void", "never",
    "object", "bigint"].map String.toList

/-- The keyword types that a union folds into its nullable mark. -/
def nullishNames : List Text := ["null".toList, "undefined".toList]

/-- The text after a leading `readonly` and one blank, trimmed; other text stays. -/
def dropReadonly (t : Text) : Text :=
  match Text.after? "readonly ".toList t with
  | some rest => trim rest
  | none => t

/-! ## Literals -/

/-- Does the quote `q` close the text at its last character and not before? A backslash takes the
character after it along. -/
def closedBy (q : Char) : Text → Bool
  | [] => false
  | [c] => c = q
  | c :: d :: cs =>
    if c = '\\' then closedBy q cs else if c = q then false else closedBy q (d :: cs)

/-- A string literal in single or double quotes. -/
def isStringLiteral : Text → Bool
  | [] => false
  | c :: cs => (c = '"' || c = '\'') && closedBy c cs

/-- The text without a leading sign. -/
def dropSign : Text → Text
  | [] => []
  | c :: cs => if c = '+' ∨ c = '-' then cs else c :: cs

/-- Nothing, or an exponent of at least one digit. -/
def isExponent : Text → Bool
  | [] => true
  | c :: cs =>
    (c = 'e' || c = 'E') && (let digits := dropSign cs; !digits.isEmpty && digits.all isDigit)

/-- The digits of a number and its exponent: digits with at most one point among or after them, or
a point and digits. -/
def isUnsignedNumber (t : Text) : Bool :=
  let rest := t.dropWhile isDigit
  if (t.takeWhile isDigit).isEmpty then
    match rest with
    | '.' :: cs => !(cs.takeWhile isDigit).isEmpty && isExponent (cs.dropWhile isDigit)
    | _ => false
  else
    match rest with
    | '.' :: cs => isExponent (cs.dropWhile isDigit)
    | _ => isExponent rest

/-- A number literal, with an optional minus sign. -/
def isNumberLiteral : Text → Bool
  | '-' :: cs => isUnsignedNumber cs
  | t => isUnsignedNumber t

/-- A literal type: a truth value, a string or a number. -/
def isLiteral (t : Text) : Bool :=
  t = "true".toList || t = "false".toList || isStringLiteral t || isNumberLiteral t

/-! ## Names -/

/-- A character that may start a name. -/
def isNameStart (c : Char) : Bool := isAsciiLetter c || c = '_' || c = '$'

/-- A character that may stand inside a name. -/
def isNameChar (c : Char) : Bool := isWordChar c || c = '$'

/-- Is the text one name, blanks at the ends aside? -/
def isBareName (t : Text) : Bool :=
  match trim t with
  | [] => false
  | c :: cs => isNameStart c && cs.all isNameChar

/-- Read names joined by dots; `atStart` says that a name has to start here. Gives the name and
what follows it. -/
def dottedFrom (atStart : Bool) : Text → Option (Text × Text)
  | [] => if atStart then none else some ([], [])
  | c :: cs =>
    if atStart then
      if isNameStart c then (dottedFrom false cs).map fun (name, rest) => (c :: name, rest) else none
    else if isNameChar c then (dottedFrom false cs).map fun (name, rest) => (c :: name, rest)
    else if c = '.' then (dottedFrom true cs).map fun (name, rest) => (c :: name, rest)
    else some ([], c :: cs)

/-- The dotted name at the start of a text, and what follows it. -/
def dottedName? (t : Text) : Option (Text × Text) := dottedFrom true t

/-- A name without the single or double quotes around it. -/
def unquote (name : Text) : Text :=
  match name with
  | [] => []
  | [c] => [c]
  | c :: cs => if (c = '"' ∨ c = '\'') ∧ cs.getLast? = some c then cs.dropLast else c :: cs

/-- A name without the question marks after it, and whether it had one. -/
def splitOptional (name : Text) : Text × Bool :=
  (trim (Text.stripEndWith (· = '?') name), name.getLast? = some '?')

end ExportSchema.Lexeme
