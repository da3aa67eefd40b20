import ExportSchema.Json.Basic
import ExportSchema.Tree.Basic

/-!
# Syntax trees as JSON

A node is written as an array of its type, 1 or 0 for named or not, the places where it starts and
stops in the bytes of the source, its field or null, and the array of its children.
-/

namespace ExportSchema.Spans

/-- A field name, or none for null. -/
def fieldOf? : Json → Option (Option String)
  | .null => some none
  | .str s => some (some (String.ofList s))
  | _ => none

mutual
/-- Read a node. -/
def ofJson? : Json → Option Spans
  | .arr [.str kind, .int named, .int start, .int stop, field, .arr children] => do
    let field ← fieldOf? field
    let children ← ofJsonList? children
    return ⟨String.ofList kind, named = 1, start.toNat, stop.toNat, field, children⟩
  | _ => none
/-- Read several nodes. -/
def ofJsonList? : List Json → Option (List Spans)
  | [] => some []
  | j :: js => do
    let s ← ofJson? j
    let ss ← ofJsonList? js
    return s :: ss
end

end ExportSchema.Spans
