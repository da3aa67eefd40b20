import ExportSchema.Text.Quoted

/-!
# Names of encodings

A detector gives the name of an encoding as code points. Half of a surrogate pair is a code point
and no character, so it stands in no text, but it may stand in such a name. An encoding is looked up
by a text without a NUL: a name that is none is refused before any encoding is looked for.

* `CodePoint`: a character, or half of a surrogate pair.
* `NameError`: why a name is refused.
* `EncodingName.key`: the text by which the encoding of a name is looked up.
-/

namespace ExportSchema

/-- A code point: a character, or half of a surrogate pair, counted from the first of the halves. -/
inductive CodePoint where
  | char (c : Char)
  | half (n : Fin 0x800)
  deriving DecidableEq, Repr

/-- Is this half of a surrogate pair? -/
def CodePoint.isHalf : CodePoint → Bool
  | char _ => false
  | half _ => true

/-- The name of an encoding, as a detector gives it. -/
abbrev EncodingName := List CodePoint

/-- Why a name is refused before any encoding is looked for. -/
inductive NameError where
  /-- From a place on there are halves of surrogate pairs: the first of them, and so many more. -/
  | halves (place : Nat) (first : Fin 0x800) (more : Nat)
  /-- It holds a NUL. -/
  | null
  deriving DecidableEq, Repr

/-- What is said of such a name. -/
def NameError.message : NameError → Text
  | halves place first 0 =>
    "'utf-8' codec can't encode character '".toList ++ Text.codeEscape (0xD800 + first) ++
      "' in position ".toList ++ Text.ofNat place ++ ": surrogates not allowed".toList
  | halves place _ (more + 1) =>
    "'utf-8' codec can't encode characters in position ".toList ++ Text.ofNat place ++
      '-' :: Text.ofNat (place + more + 1) ++ ": surrogates not allowed".toList
  | null => "embedded null character".toList

namespace EncodingName

/-- A text as a name. -/
def ofText (t : Text) : EncodingName := t.map .char

@[simp] theorem ofText_cons (c : Char) (t : Text) : ofText (c :: t) = .char c :: ofText t := rfl

/-- The text of a name, whose first code point is at `place`. -/
def textFrom (place : Nat) : EncodingName → Except NameError Text
  | [] => .ok []
  | .char c :: name => (textFrom (place + 1) name).map (c :: ·)
  | .half n :: name => .error (.halves place n (name.takeWhile CodePoint.isHalf).length)

/-- The text by which the encoding of a name is looked up. -/
def key (name : EncodingName) : Except NameError Text :=
  match textFrom 0 name with
  | .error e => .error e
  | .ok t => if t.contains '\x00' then .error .null else .ok t

end EncodingName

end ExportSchema
