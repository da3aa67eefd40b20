import ExportSchema.Expander
import ExportSchema.Export
import ExportSchema.Schema.Fragment

/-!
# The document of a module

`assemble` compiles each exported binding whose type is known and puts the fragments under their
names, in order. It tells which symbols it asked for and which exports it left out.
-/

namespace ExportSchema.Document

open Schema (FragmentError fragment)

/-- What happens on the way to a document. -/
inductive Event where
  /-- The type of a symbol was asked for. -/
  | asked (symbol : Text)
  /-- An export was left out, for want of a type. -/
  | skipped (name : Text)
  deriving DecidableEq, Repr

/-- The line that reports an export that was left out. -/
def skippedLine (name : Text) : Text :=
  "Skipping export ".toList ++ Text.quoted name ++ ": no local symbol for it".toList

/-- The symbol asked about, if any. -/
def Event.asked? : Event → Option Text
  | asked symbol => some symbol
  | skipped _ => none

/-- The line reported, if any. -/
def Event.line? : Event → Option Text
  | asked _ => none
  | skipped name => some (skippedLine name)

/-- Why there is no document: the source of types failed, or a type has no fragment. -/
inductive Error (ε : Type) where
  | types (cause : ε)
  | fragment (cause : FragmentError)

/-- The symbol of a binding that can be asked about. -/
def symbolOf (b : Binding) : Option Text :=
  match b.symbol with
  | none | some [] => none
  | some s => some s

/-- The fragments of the bindings whose types are known, with their names. One expander serves all
of them. The first failure ends the work. -/
def compile {ε : Type} (typeOf : Text → Except ε (Option Text)) :
    Expander → List Binding → List Event × Except (Error ε) (List (Text × Json))
  | _, [] => ([], .ok [])
  | expander, b :: bs =>
    match symbolOf b with
    | none =>
      let (events, result) := compile typeOf expander bs
      (.skipped b.name :: events, result)
    | some symbol =>
      match typeOf symbol with
      | .error cause => ([.asked symbol], .error (.types cause))
      | .ok none =>
        let (events, result) := compile typeOf expander bs
        (.asked symbol :: .skipped b.name :: events, result)
      | .ok (some type) =>
        let (node, expander) := expander.expand type
        match fragment node with
        | .error cause => ([.asked symbol], .error (.fragment cause))
        | .ok j =>
          let (events, result) := compile typeOf expander bs
          (.asked symbol :: events, result.map ((b.name, j) :: ·))

/-- The draft that documents declare. -/
def draft : Json := .ofString "http://json-schema.org/draft-07/schema#"

/-- A document with these properties. -/
def ofProperties (properties : List (Text × Json)) : Json :=
  .ofFields [("$schema", draft), ("type", .ofString "object"),
    ("properties", .obj (Fields.ofList properties))]

/-- The document of bindings, whose types `typeOf` tells, in a module that declares `ds`. -/
def assemble {ε : Type} (typeOf : Text → Except ε (Option Text)) (ds : List Declaration)
    (bindings : List Binding) : List Event × Except (Error ε) Json :=
  let (events, result) := compile typeOf (.fresh ds) bindings
  (events, result.map ofProperties)

end ExportSchema.Document
