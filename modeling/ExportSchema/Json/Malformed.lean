import ExportSchema.Number.Reading

/-!
# Texts that are no JSON

Reading stops at the first flaw. It is told by its kind and by what is left of the text from its
place on; the place is a line and a column, counted from one, and a number of characters.

* `Flaw`: what is wrong where reading stops.
* `Malformed`: why a text is no JSON.
* `Malformed.message`: what is said of such a text.
-/

namespace ExportSchema.Json

/-- What is wrong where reading stops. -/
inductive Flaw where
  | noValue
  | noName
  | noColon
  | noComma
  /-- The string that starts here has no end. -/
  | openString
  | controlCharacter
  /-- No escape starts with this backslash. -/
  | noEscape
  /-- This `u` has no four hexadecimal digits behind it, or the text ends with them. -/
  | noCodePoint
  /-- There is more than one value. -/
  | moreText
  | byteOrderMark
  deriving DecidableEq, Repr

/-- What is said of a flaw. -/
def Flaw.message : Flaw → Text
  | noValue => "Expecting value".toList
  | noName => "Expecting property name enclosed in double quotes".toList
  | noColon => "Expecting ':' delimiter".toList
  | noComma => "Expecting ',' delimiter".toList
  | openString => "Unterminated string starting at".toList
  | controlCharacter => "Invalid control character at".toList
  | noEscape => "Invalid \\escape".toList
  | noCodePoint => "Invalid \\uXXXX escape".toList
  | moreText => "Extra data".toList
  | byteOrderMark => "Unexpected UTF-8 BOM (decode using utf-8-sig)".toList

/-- Why a text is no JSON. -/
inductive Malformed where
  /-- It has a flaw, where `rest` is left of it. -/
  | flaw (kind : Flaw) (rest : Text)
  /-- It has an integer of so many digits, which is not converted. -/
  | tooManyDigits (count : Nat)
  deriving DecidableEq, Repr

/-- The place behind a text: its line, its column and the number of characters before it. -/
def placeBehind (before : Text) : Text :=
  "line ".toList ++ Text.ofNat (before.count '\n' + 1) ++
    " column ".toList ++ Text.ofNat ((before.reverse.takeWhile (· ≠ '\n')).length + 1) ++
    " (char ".toList ++ Text.ofNat before.length ++ [')']

/-- What is said of the text `t`. -/
def Malformed.message (t : Text) : Malformed → Text
  | flaw kind rest =>
    kind.message ++ ": ".toList ++ placeBehind (t.take (t.length - rest.length))
  | tooManyDigits count =>
    "Exceeds the limit (".toList ++ Text.ofNat Number.maxDigits ++
      " digits) for integer string conversion: value has ".toList ++ Text.ofNat count ++
      " digits; use sys.set_int_max_str_digits() to increase the limit".toList

theorem Malformed.message_flaw (kind : Flaw) (rest t : Text) :
    (flaw kind rest).message t =
      kind.message ++ ": ".toList ++ placeBehind (t.take (t.length - rest.length)) := rfl

end ExportSchema.Json
