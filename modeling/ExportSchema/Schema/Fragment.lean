import ExportSchema.Schema.Literal
import ExportSchema.TypeNode.Basic

/-!
# The schema fragment of a type

`fragment` gives the JSON Schema fragment of a type node, construct by construct. Only two things
can go wrong, and neither for a node that was read from text: a keyword that is none, and a literal
that is no number.
-/

namespace ExportSchema.Schema

/-- Why a node has no fragment. -/
inductive FragmentError where
  | unknownPrimitive (name : Text)
  | notANumber (cause : NotANumber)
  deriving DecidableEq

/-- A field whose name is a literal. -/
def entry (name : String) (value : Json) : Text × Json := (name.toList, value)

/-- The field `type`. -/
def typeEntry (type : String) : Text × Json := entry "type" (.ofString type)

/-- The fragment of a keyword type. -/
def primitiveEntries? (name : Text) : Option (List (Text × Json)) :=
  if name = "string".toList then some [typeEntry "string"]
  else if name = "number".toList then some [typeEntry "number"]
  else if name = "boolean".toList then some [typeEntry "boolean"]
  else if name = "null".toList ∨ name = "undefined".toList ∨ name = "void".toList then
    some [typeEntry "null"]
  else if name = "any".toList ∨ name = "unknown".toList then some []
  else if name = "object".toList then some [typeEntry "object"]
  else if name = "bigint".toList then some [typeEntry "integer"]
  else if name = "never".toList then some [entry "not" (.obj [])]
  else none

/-- The fragment of a literal value. A number out of range has no JSON form and no `const`. -/
def literalEntries : LiteralValue → List (Text × Json)
  | .bool b => [typeEntry "boolean", entry "const" (.bool b)]
  | .str s => [typeEntry "string", entry "const" (.str s)]
  | .int n => [typeEntry "number", entry "const" (.int n)]
  | .float x =>
    if x.isFinite then [typeEntry "number", entry "const" (.float x)] else [typeEntry "number"]

/-- The names of the members that are not optional. -/
def requiredNames (properties : List (Property TypeNode)) : List Text :=
  (properties.filter (!·.optional)).map (·.name)

/-- The field `required`, when some member is not optional. -/
def requiredEntry (properties : List (Property TypeNode)) : List (Text × Json) :=
  match requiredNames properties with
  | [] => []
  | names => [entry "required" (.arr (names.map .str))]

/-- The mark of a nullable type. -/
def nullableEntry (nullable : Bool) : List (Text × Json) :=
  if nullable then [entry "nullable" (.bool true)] else []

mutual
/-- The fragment of a type node. -/
def fragment : TypeNode → Except FragmentError Json
  | ⟨text, nullable, shape⟩ => do
    let entries ← shapeEntries text shape
    return .obj (entries ++ nullableEntry nullable)
/-- The fields of the fragment of a construct, where `text` is the text of its node. -/
def shapeEntries (text : Text) : Shape TypeNode → Except FragmentError (List (Text × Json))
  | .primitive name =>
    match primitiveEntries? name with
    | some entries => .ok entries
    | none => .error (.unknownPrimitive name)
  | .literal raw =>
    match literalValue raw with
    | .ok value => .ok (literalEntries value)
    | .error cause => .error (.notANumber cause)
  | .verbatim raw =>
    .ok [typeEntry "string", entry "description" (.str ("type: ".toList ++ raw))]
  | .array element => do
    return [typeEntry "array", entry "items" (← fragment element)]
  | .object properties additional => do
    let members ← propertyFragments properties
    let more ← additionalEntry additional
    return [typeEntry "object", entry "properties" (.obj (Fields.ofList members))] ++
      requiredEntry properties ++ more
  | .union members => do
    return [entry "oneOf" (.arr (← fragments members))]
  | .function params returns => do
    let parameters ← paramFragments params
    let result ← fragment returns
    return [typeEntry "object", entry "description" (.str ("Function: ".toList ++ text)),
      entry "parameters" (.arr parameters), entry "returns" result]
  | .component props => componentEntries text props
/-- The fields of the fragment of a component, from its props. -/
def componentEntries (text : Text) : TypeNode → Except FragmentError (List (Text × Json))
  | ⟨_, _, .object properties additional⟩ => do
    let members ← propertyFragments properties
    let _ ← additionalEntry additional
    return [typeEntry "object", entry "description" (.str ("Component: ".toList ++ text)),
      entry "properties" (.obj (Fields.ofList members))]
  | _ => .ok [typeEntry "object", entry "tsType" (.str text)]
/-- The fragments of several types. -/
def fragments : List TypeNode → Except FragmentError (List Json)
  | [] => .ok []
  | n :: ns => do
    let j ← fragment n
    return j :: (← fragments ns)
/-- The named fragments of members. -/
def propertyFragments : List (Property TypeNode) → Except FragmentError (List (Text × Json))
  | [] => .ok []
  | p :: ps => do
    let j ← fragment p.type
    return (p.name, j) :: (← propertyFragments ps)
/-- The fragments of parameters, each with its name. -/
def paramFragments : List (Param TypeNode) → Except FragmentError (List Json)
  | [] => .ok []
  | p :: ps => do
    let j ← fragment p.type
    return .ofFields [("name", .str p.name), ("schema", j)] :: (← paramFragments ps)
/-- The field `additionalProperties` of an index signature. -/
def additionalEntry : Option TypeNode → Except FragmentError (List (Text × Json))
  | none => .ok []
  | some n => do
    return [entry "additionalProperties" (← fragment n)]
end

end ExportSchema.Schema
