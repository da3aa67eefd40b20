import ExportSchema.Json.Basic
import ExportSchema.Number.Decimal
import ExportSchema.Text.Quoted

/-!
# Writing JSON

* `Json.quote`: a string between double quotes. Only the quote, the backslash and the controls
  below the space are escaped.
* `Json.compact`: a value on one line, with a blank after every comma and colon.
* `Json.indented`: a value with every item on a line of its own.
-/

namespace ExportSchema.Json

/-- One character of a string. -/
def escapeChar (c : Char) : Text :=
  if c = '"' then ['\\', '"']
  else if c = '\\' then ['\\', '\\']
  else if c = '\n' then ['\\', 'n']
  else if c = '\r' then ['\\', 'r']
  else if c = '\t' then ['\\', 't']
  else if c = '\x08' then ['\\', 'b']
  else if c = '\x0c' then ['\\', 'f']
  else if c.toNat < 0x20 then '\\' :: 'u' :: Text.hexPadded 4 c.toNat
  else [c]

/-- A string between double quotes. -/
def quote (s : Text) : Text := '"' :: s.flatMap escapeChar ++ ['"']

/-- The text of a number that may be infinite or undefined. -/
def floatText : Binary64 → Text
  | .infinite true => "-Infinity".toList
  | .infinite false => "Infinity".toList
  | .nan => "NaN".toList
  | x => x.text

/-- The text of a value that has no items. -/
def scalar : Json → Text
  | null => "null".toList
  | bool true => "true".toList
  | bool false => "false".toList
  | int n => Text.ofInt n
  | float x => floatText x
  | str s => quote s
  | arr _ => "[]".toList
  | obj _ => "\x7b\x7d".toList

mutual
/-- A value on one line. -/
def compact : Json → Text
  | arr (item :: items) => '[' :: compact item ++ compactItems items
  | obj ((name, value) :: fields) =>
    '{' :: quote name ++ ": ".toList ++ compact value ++ compactFields fields
  | j => scalar j
/-- The further items of an array, and its end. -/
def compactItems : List Json → Text
  | [] => [']']
  | item :: items => ", ".toList ++ compact item ++ compactItems items
/-- The further fields of an object, and its end. -/
def compactFields : List (Text × Json) → Text
  | [] => ['}']
  | (name, value) :: fields =>
    ", ".toList ++ quote name ++ ": ".toList ++ compact value ++ compactFields fields
end

/-- A new line at a level, `width` blanks for each level. -/
def newLine (width level : Nat) : Text := '\n' :: List.replicate (width * level) ' '

mutual
/-- A value whose items stand on lines of their own, one level deeper than `level`. -/
def indentedAt (width level : Nat) : Json → Text
  | arr (item :: items) =>
    '[' :: newLine width (level + 1) ++ indentedAt width (level + 1) item ++
      indentedItems width level items
  | obj ((name, value) :: fields) =>
    '{' :: newLine width (level + 1) ++ quote name ++ ": ".toList ++
      indentedAt width (level + 1) value ++ indentedFields width level fields
  | j => scalar j
/-- The further items of an array, and its end. -/
def indentedItems (width level : Nat) : List Json → Text
  | [] => newLine width level ++ [']']
  | item :: items =>
    ',' :: newLine width (level + 1) ++ indentedAt width (level + 1) item ++
      indentedItems width level items
/-- The further fields of an object, and its end. -/
def indentedFields (width level : Nat) : List (Text × Json) → Text
  | [] => newLine width level ++ ['}']
  | (name, value) :: fields =>
    ',' :: newLine width (level + 1) ++ quote name ++ ": ".toList ++
      indentedAt width (level + 1) value ++ indentedFields width level fields
end

/-- A value with every item on a line of its own, indented by `width` blanks a level. -/
def indented (width : Nat) (j : Json) : Text := indentedAt width 0 j

end ExportSchema.Json
