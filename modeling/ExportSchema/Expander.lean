import ExportSchema.Expansion
import ExportSchema.Record

/-!
# The expander of a module

One expander serves all the types of a module. It has a record of the names that it is expanding: a
name enters the record before its declaration is looked into, and leaves it afterwards. A name that
is met while it is in the record stays verbatim.

* `Expander.expandNode`: replace names in a node, given a way to resolve them.
* `Expander.resolveDepth`: the type that a local name stands for.
* `Expander.resolve`, `Expander.expand`: what an expander answers, and the expander afterwards.
-/

namespace ExportSchema

open Expansion (Collected Place aliasText)
open Lexeme (isBareName)
open Text (trim)

/-- An expander: the local types of a module, and the names that are being expanded. -/
structure Expander where
  types : List (Text × LocalType)
  expanding : List Text

namespace Expander

/-- Work on the names that are being expanded. -/
abbrev Work := RecordT Id

/-- A way to tell what a name stands for; `none` for a name that is no local type. -/
abbrev Resolve := Text → Work (Option TypeNode)

/-! ## Replacing names -/

/-- The type that a verbatim text stands for, when it is the name of one. -/
def named? (resolve : Resolve) (raw : Text) : Work (Option TypeNode) :=
  if isBareName raw then resolve (trim raw) else return none

mutual
/-- Replace the names in a node by what they resolve to. A nullable name gives a nullable type; a
name that is all of the props of a component gives its type as it is. -/
def expandNode (resolve : Resolve) (place : Place) : TypeNode → Work TypeNode
  | ⟨text, nullable, .verbatim raw⟩ => do
    match place with
    | .outside => return ⟨text, nullable, .verbatim raw⟩
    | .insideProps =>
      match ← named? resolve raw with
      | some n => return if nullable then n.asNullable else n
      | none => return ⟨text, nullable, .verbatim raw⟩
  | ⟨text, nullable, .component ⟨propsText, propsNullable, .verbatim raw⟩⟩ => do
    let props ← named? resolve raw
    return ⟨text, nullable, .component (props.getD ⟨propsText, propsNullable, .verbatim raw⟩)⟩
  | ⟨text, nullable, .component props⟩ => do
    return ⟨text, nullable, .component (← expandNode resolve .insideProps props)⟩
  | ⟨text, nullable, .primitive name⟩ => return ⟨text, nullable, .primitive name⟩
  | ⟨text, nullable, .literal raw⟩ => return ⟨text, nullable, .literal raw⟩
  | ⟨text, nullable, .array element⟩ => do
    return ⟨text, nullable, .array (← expandNode resolve place element)⟩
  | ⟨text, nullable, .object properties additional⟩ => do
    let properties ← expandProperties resolve place properties
    let additional ← expandOption resolve place additional
    return ⟨text, nullable, .object properties additional⟩
  | ⟨text, nullable, .union members⟩ => do
    return ⟨text, nullable, .union (← expandNodes resolve place members)⟩
  | ⟨text, nullable, .function params returns⟩ => do
    let params ← expandParams resolve place params
    let returns ← expandNode resolve place returns
    return ⟨text, nullable, .function params returns⟩
/-- Replace the names in several nodes. -/
def expandNodes (resolve : Resolve) (place : Place) : List TypeNode → Work (List TypeNode)
  | [] => return []
  | n :: ns => do
    let n ← expandNode resolve place n
    let ns ← expandNodes resolve place ns
    return n :: ns
/-- Replace the names in the types of members. -/
def expandProperties (resolve : Resolve) (place : Place) :
    List (Property TypeNode) → Work (List (Property TypeNode))
  | [] => return []
  | p :: ps => do
    let type ← expandNode resolve place p.type
    let ps ← expandProperties resolve place ps
    return ⟨p.name, type, p.optional⟩ :: ps
/-- Replace the names in the types of parameters. -/
def expandParams (resolve : Resolve) (place : Place) :
    List (Param TypeNode) → Work (List (Param TypeNode))
  | [] => return []
  | p :: ps => do
    let type ← expandNode resolve place p.type
    let ps ← expandParams resolve place ps
    return ⟨p.name, type⟩ :: ps
/-- Replace the names in the type of an index signature. -/
def expandOption (resolve : Resolve) (place : Place) : Option TypeNode → Work (Option TypeNode)
  | none => return none
  | some n => do return some (← expandNode resolve place n)
end

/-! ## Local types -/

/-- A member of an interface, with the names in its type replaced. -/
def member (resolve : Resolve) (m : Member) : Work (Text × Property TypeNode) := do
  return (m.name, ⟨m.name, ← expandNode resolve .insideProps (.parse m.type), m.optional⟩)

/-- The object type of an interface: the members of its parents in order, then its own. -/
def interfaceNode (resolve : Resolve) (members : List Member) (parents : List Text) :
    Work TypeNode := do
  let inherited ← parents.foldlM (fun c parent => return c.takeOver (← resolve parent))
    (⟨[], none⟩ : Collected)
  let own ← members.mapM (member resolve)
  return .plain (membersText (members.map Member.text))
    (.object (inherited.properties.putAll own).values inherited.additional)

/-- The type of a declaration, given a way to resolve the names in it. -/
def localNode (resolve : Resolve) : LocalType → Work TypeNode
  | .interface members parents => interfaceNode resolve members parents
  | .typeAlias value => expandNode resolve .insideProps (.parse (aliasText value))

/-- The type of a name. Each step down adds a declared name to those being expanded, so `depth` need
not exceed the number of local types. -/
def resolveDepth (types : List (Text × LocalType)) : Nat → Resolve
  | depth, name => do
    match types.lookup name with
    | none => return none
    | some type =>
      if (← get).contains name then return some (.verbatim name)
      else
        match depth with
        | 0 => return some (.verbatim name)
        | depth + 1 =>
          RecordT.recording name do return some (← localNode (resolveDepth types depth) type)

/-! ## Answers -/

/-- An expander of a module that declares `ds`, with no name being expanded. -/
def fresh (ds : List Declaration) : Expander := ⟨localTypes ds, []⟩

/-- What comes of work on the names that are being expanded, and the expander afterwards. -/
def run {α : Type} (e : Expander) (work : Work α) : α × Expander :=
  let (answer, expanding) := StateT.run work e.expanding
  (answer, { e with expanding })

/-- The type of a local name, or `none` for a name that the module does not declare as a type. -/
def resolve (e : Expander) (name : Text) : Option TypeNode × Expander :=
  e.run (resolveDepth e.types e.types.length name)

/-- The type of a text, with the props of its components expanded. -/
def expand (e : Expander) (t : Text) : TypeNode × Expander :=
  e.run (expandNode (resolveDepth e.types e.types.length) .outside (.parse t))

end Expander

end ExportSchema
