import ExportSchema.Json.Basic
import ExportSchema.Number.Decimal
import ExportSchema.Text.Quoted

/-!
# Values in messages

`Json.display` shows a value inside a message: a string as it is, and any other value in one line
with its strings quoted.
-/

namespace ExportSchema.Json

mutual
/-- A value in one line. -/
def shown : Json → Text
  | null => "None".toList
  | bool true => "True".toList
  | bool false => "False".toList
  | int n => Text.ofInt n
  | float x => x.text
  | str s => Text.quoted s
  | arr items => '[' :: Text.join ", ".toList (shownItems items) ++ [']']
  | obj fields => '{' :: Text.join ", ".toList (shownFields fields) ++ ['}']
/-- The items of an array. -/
def shownItems : List Json → List Text
  | [] => []
  | j :: js => shown j :: shownItems js
/-- The fields of an object. -/
def shownFields : List (Text × Json) → List Text
  | [] => []
  | (name, j) :: fields => (Text.quoted name ++ ": ".toList ++ shown j) :: shownFields fields
end

/-- A value inside a message. -/
def display : Json → Text
  | str s => s
  | j => shown j

end ExportSchema.Json
