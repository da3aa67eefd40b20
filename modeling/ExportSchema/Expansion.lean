import ExportSchema.Declaration
import ExportSchema.Fields
import ExportSchema.TypeNode.Parse

/-!
# Expanding component props

The props of a component are inlined from the interfaces and type aliases of the module. A name
that the module does not declare stays as it is, and a name met again while it is being expanded
stays verbatim, so that types which mention themselves come to an end.

* `expandNode`: replace names in a node, given a way to resolve them.
* `resolveDepth`, `resolve`: the type that a local name stands for.
* `expand`: the type of a text, with the props of its components expanded.
-/

namespace ExportSchema.Expansion

open Lexeme (isBareName)
open Text (trim)

/-! ## Replacing names -/

/-- Where a node stands: names are replaced inside the props of a component only. -/
inductive Place where
  | outside
  | insideProps
  deriving DecidableEq, Repr

/-- The type that a verbatim text stands for, when it is the name of one. -/
def named? (resolve : Text → Option TypeNode) (raw : Text) : Option TypeNode :=
  if isBareName raw then resolve (trim raw) else none

mutual
/-- Replace the names in a node by what they resolve to. A nullable name gives a nullable type; a
name that is all of the props of a component gives its type as it is. -/
def expandNode (resolve : Text → Option TypeNode) (place : Place) : TypeNode → TypeNode
  | ⟨text, nullable, .verbatim raw⟩ =>
    match place, named? resolve raw with
    | .insideProps, some n => if nullable then n.asNullable else n
    | _, _ => ⟨text, nullable, .verbatim raw⟩
  | ⟨text, nullable, .component ⟨propsText, propsNullable, .verbatim raw⟩⟩ =>
    ⟨text, nullable,
      .component ((named? resolve raw).getD ⟨propsText, propsNullable, .verbatim raw⟩)⟩
  | ⟨text, nullable, .component props⟩ =>
    ⟨text, nullable, .component (expandNode resolve .insideProps props)⟩
  | ⟨text, nullable, .primitive name⟩ => ⟨text, nullable, .primitive name⟩
  | ⟨text, nullable, .literal raw⟩ => ⟨text, nullable, .literal raw⟩
  | ⟨text, nullable, .array element⟩ => ⟨text, nullable, .array (expandNode resolve place element)⟩
  | ⟨text, nullable, .object properties additional⟩ =>
    ⟨text, nullable,
      .object (expandProperties resolve place properties) (expandOption resolve place additional)⟩
  | ⟨text, nullable, .union members⟩ => ⟨text, nullable, .union (expandNodes resolve place members)⟩
  | ⟨text, nullable, .function params returns⟩ =>
    ⟨text, nullable, .function (expandParams resolve place params) (expandNode resolve place returns)⟩
/-- Replace the names in several nodes. -/
def expandNodes (resolve : Text → Option TypeNode) (place : Place) : List TypeNode → List TypeNode
  | [] => []
  | n :: ns => expandNode resolve place n :: expandNodes resolve place ns
/-- Replace the names in the types of members. -/
def expandProperties (resolve : Text → Option TypeNode) (place : Place) :
    List (Property TypeNode) → List (Property TypeNode)
  | [] => []
  | p :: ps =>
    ⟨p.name, expandNode resolve place p.type, p.optional⟩ :: expandProperties resolve place ps
/-- Replace the names in the types of parameters. -/
def expandParams (resolve : Text → Option TypeNode) (place : Place) :
    List (Param TypeNode) → List (Param TypeNode)
  | [] => []
  | p :: ps => ⟨p.name, expandNode resolve place p.type⟩ :: expandParams resolve place ps
/-- Replace the names in the type of an index signature. -/
def expandOption (resolve : Text → Option TypeNode) (place : Place) :
    Option TypeNode → Option TypeNode
  | none => none
  | some n => some (expandNode resolve place n)
end

/-! ## Local types -/

/-- The members collected for an interface so far, by name, and its index type. -/
structure Collected where
  properties : Fields (Property TypeNode)
  additional : Option TypeNode

/-- Take over what a parent resolves to. Only an object type has members to inherit; its index type
wins over the ones before. -/
def Collected.takeOver (c : Collected) : Option TypeNode → Collected
  | some ⟨_, _, .object properties additional⟩ =>
    ⟨c.properties.putAll (properties.map fun p => (p.name, p)), additional.or c.additional⟩
  | _ => c

/-- The object type of an interface: the members of its parents in order, then its own. A later
member of a name takes the place of the earlier one. -/
def interfaceNode (resolve : Text → Option TypeNode) (members : List Member) (parents : List Text) :
    TypeNode :=
  let inherited : Collected :=
    parents.foldl (fun c parent => c.takeOver (resolve parent)) (⟨[], none⟩ : Collected)
  let own := members.map fun m =>
    (m.name, (⟨m.name, expandNode resolve .insideProps (.parse m.type), m.optional⟩ :
      Property TypeNode))
  .plain (membersText (members.map Member.text))
    (.object (inherited.properties.putAll own).values inherited.additional)

/-- The text of a type alias; one without text is unknown. -/
def aliasText : Option Text → Text
  | none | some [] => "unknown".toList
  | some value => value

/-- The type of a declaration, given a way to resolve the names in it. -/
def localNode (resolve : Text → Option TypeNode) : LocalType → TypeNode
  | .interface members parents => interfaceNode resolve members parents
  | .typeAlias value => expandNode resolve .insideProps (.parse (aliasText value))

/-- The type of a name, where the names of `expanding` are being expanded already and stay
verbatim. Each step down adds a declared name to them, so `depth` need not exceed the number of
local types. -/
def resolveDepth (types : List (Text × LocalType)) :
    Nat → List Text → Text → Option TypeNode
  | depth, expanding, name =>
    match types.lookup name with
    | none => none
    | some type =>
      if expanding.contains name then some (.verbatim name)
      else
        match depth with
        | 0 => some (.verbatim name)
        | depth + 1 => some (localNode (resolveDepth types depth (name :: expanding)) type)

/-- The type of a local name, or `none` for a name that the module does not declare as a type. -/
def resolve (ds : List Declaration) (name : Text) : Option TypeNode :=
  let types := localTypes ds
  resolveDepth types types.length [] name

/-- The type of a text, with the props of its components expanded. -/
def expand (ds : List Declaration) (t : Text) : TypeNode :=
  expandNode (resolve ds) .outside (.parse t)

end ExportSchema.Expansion
