import ExportSchema.Text.Basic

/-!
# Type nodes

The tree of a printed type. `Shape α` is one construct with its component types in `α`; a
`TypeNode` is a shape over type nodes, with the text it was read from and a mark that says whether
`null` or `undefined` was folded into it.

* `Shape.map`: apply a function to the components of one construct.
* `TypeNode.asNullable`: fold `null` into a node.
* `TypeNode.union?`: a union of two members or more.
-/

namespace ExportSchema

/-- A named member of an object type. -/
structure Property (α : Type) where
  name : Text
  type : α
  optional : Bool

/-- A parameter of a function type. -/
structure Param (α : Type) where
  name : Text
  type : α

/-- One construct of a type, over component types in `α`. -/
inductive Shape (α : Type) where
  /-- A keyword type such as `string`. -/
  | primitive (name : Text)
  /-- A literal type, by its source text. -/
  | literal (raw : Text)
  /-- Text that is not taken apart, such as the name of another type. -/
  | verbatim (raw : Text)
  | array (element : α)
  /-- An object type, with the value type of its index signature, if it has one. -/
  | object (properties : List (Property α)) (additional : Option α)
  | union (members : List α)
  | function (params : List (Param α)) (returns : α)
  /-- A component of the interface, by the type of its props. -/
  | component (props : α)

/-- A type, with the trimmed text it was read from. -/
structure TypeNode where
  text : Text
  /-- Was `null` or `undefined` folded into this type? -/
  nullable : Bool
  shape : Shape TypeNode

/-- Apply `f` to a member's type. -/
def Property.map {α β : Type} (f : α → β) (p : Property α) : Property β :=
  ⟨p.name, f p.type, p.optional⟩

/-- Apply `f` to a parameter's type. -/
def Param.map {α β : Type} (f : α → β) (p : Param α) : Param β := ⟨p.name, f p.type⟩

/-- Apply `f` to the components of one construct. -/
def Shape.map {α β : Type} (f : α → β) : Shape α → Shape β
  | .primitive name => .primitive name
  | .literal raw => .literal raw
  | .verbatim raw => .verbatim raw
  | .array element => .array (f element)
  | .object properties additional => .object (properties.map (·.map f)) (additional.map f)
  | .union members => .union (members.map f)
  | .function params returns => .function (params.map (·.map f)) (f returns)
  | .component props => .component (f props)

/-- The components of one construct, in order. -/
def Shape.parts {α : Type} : Shape α → List α
  | .primitive _ | .literal _ | .verbatim _ => []
  | .array element => [element]
  | .object properties additional => properties.map (·.type) ++ additional.toList
  | .union members => members
  | .function params returns => params.map (·.type) ++ [returns]
  | .component props => [props]

/-- Two functions that agree on the components of a construct map it alike. -/
theorem Shape.map_congr {α β : Type} {f g : α → β} {s : Shape α}
    (h : ∀ a ∈ s.parts, f a = g a) : s.map f = s.map g := by
  cases s with
  | primitive | literal | verbatim => rfl
  | array element => simp only [map, h element (by simp [parts])]
  | object properties additional =>
    have hp : properties.map (·.map f) = properties.map (·.map g) := by
      refine List.map_congr_left fun p hp => ?_
      simp only [Property.map]
      rw [h p.type (List.mem_append_left _ (List.mem_map_of_mem hp))]
    have ha : additional.map f = additional.map g := by
      cases additional with
      | none => rfl
      | some a => simp only [Option.map_some, h a (by simp [parts])]
    simp only [map, hp, ha]
  | union members => exact congrArg Shape.union (List.map_congr_left h)
  | function params returns =>
    have hp : params.map (·.map f) = params.map (·.map g) := by
      refine List.map_congr_left fun p hp => ?_
      simp only [Param.map]
      rw [h p.type (List.mem_append_left _ (List.mem_map_of_mem hp))]
    simp only [map, hp, h returns (by simp [parts])]
  | component props => simp only [map, h props (by simp [parts])]

namespace TypeNode

/-- A node of its own text and shape, with nothing folded into it. -/
def plain (text : Text) (shape : Shape TypeNode) : TypeNode := ⟨text, false, shape⟩

/-- Text that is not taken apart. -/
def verbatim (text : Text) : TypeNode := plain text (.verbatim text)

/-- Fold `null` into a node. -/
def asNullable (n : TypeNode) : TypeNode := { n with nullable := true }

/-- A union was asked for with fewer than two members. -/
structure TooFewMembers where
  deriving DecidableEq, Repr

/-- What is said of a union with fewer than two members. -/
def TooFewMembers.message (_ : TooFewMembers) : String := "a union needs at least two members"

/-- The union of two members or more. -/
def union? (text : Text) (nullable : Bool) (members : List TypeNode) :
    Except TooFewMembers TypeNode :=
  if members.length < 2 then .error ⟨⟩ else .ok ⟨text, nullable, .union members⟩

end TypeNode

end ExportSchema
