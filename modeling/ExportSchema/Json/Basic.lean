import ExportSchema.Fields
import ExportSchema.Number.Binary64

/-!
# JSON values

Objects keep the order of their fields, and integers are kept apart from other numbers.
-/

namespace ExportSchema

/-- A JSON value. -/
inductive Json where
  | null
  | bool (b : Bool)
  | int (n : Int)
  | float (x : Binary64)
  | str (s : Text)
  | arr (items : List Json)
  | obj (fields : List (Text × Json))
  deriving Inhabited

namespace Json

/-- A string value, from a literal. -/
def ofString (s : String) : Json := str s.toList

/-- An object whose names are literals. -/
def ofFields (fields : List (String × Json)) : Json :=
  obj (fields.map fun (name, value) => (name.toList, value))

/-- The value of a field of an object. -/
def field? (name : String) : Json → Option Json
  | obj fields => Fields.get? fields name.toList
  | _ => none

end Json

end ExportSchema
