import ExportSchema.Declaration
import ExportSchema.Fields
import ExportSchema.Module.Inference
import ExportSchema.Number.Reading

/-!
# The types of top-level symbols

A module's symbol table holds the tree of each top-level name. `typeOf` prints the type of a symbol:
the annotation or inferred type of a variable, the signature of a function, the members of an
interface with those of its local parents, the text of a type alias, the values of an enumeration.

A name met again while its type is being told is `any`, so mutually referring initialisers come to
an end.
-/

namespace ExportSchema.Module

open Text (trim)

/-- What a top-level symbol is. -/
inductive SymbolKind where
  | var
  | function
  | classType
  | interface
  | typeAlias
  | enumType
  /-- The expression of an anonymous default export. -/
  | expression
  deriving DecidableEq, Repr

/-- A top-level symbol and the tree that declares it. -/
structure Symbol where
  kind : SymbolKind
  tree : Tree

/-- The symbols of a module, in the order of their first declarations. -/
abbrev Symbols := Fields Symbol

variable {m : Type → Type} [Monad m] [MonadExceptOf Fault m]

/-! ## Interfaces -/

/-- The member that a node of an interface body declares. -/
def interfaceMember? (infer : Infer m) (t : Tree) : m (Option Member) :=
  match t.child? .name with
  | none => pure none
  | some name =>
    let name := stripQuotes name.text
    let optional := t.hasChild .questionMark
    match t.kind with
    | .propertySignature => pure (some ⟨name, annotationText (t.child? .type), optional⟩)
    | .methodSignature => do return some ⟨name, ← signatureText infer t, optional⟩
    | _ => pure none

/-- The members that an interface declares itself. -/
def interfaceMembers (infer : Infer m) (t : Tree) : m (List Member) :=
  match t.child? .body with
  | none => pure []
  | some body => do
    let members ← body.namedChildren.mapM (interfaceMember? infer)
    return members.filterMap id

/-- The names of the parents of an interface, without type arguments. -/
def interfaceParents (t : Tree) : List Text :=
  (t.children.filter (·.kind = .extendsTypeClause)).flatMap fun clause =>
    clause.namedChildren.map fun parent => trim (parent.text.takeWhile (· ≠ '<'))

/-- The tree of a symbol that is an interface. -/
def interfaceTree? (symbols : Symbols) (name : Text) : Option Tree :=
  match symbols.get? name with
  | some ⟨.interface, t⟩ => some t
  | _ => none

/-- The members collected from a run through interfaces, and the names visited. -/
structure Visit where
  members : Fields Member
  seen : List Text

/-- Add the members of one parent, unless it is no local interface or was visited before. -/
def Visit.parent (symbols : Symbols) (visit : List Text → Tree → m Visit) (v : Visit)
    (name : Text) : m Visit :=
  match interfaceTree? symbols name with
  | none => pure v
  | some t =>
    if v.seen.contains name then pure v
    else do
      let inner ← visit (name :: v.seen) t
      return ⟨v.members.putAll inner.members, inner.seen⟩

/-- The members of an interface with those of its parents put in first, given a way to visit the
parents. `seen` are the parents visited before. -/
def mergedStep (infer : Infer m) (symbols : Symbols) (visit : List Text → Tree → m Visit)
    (seen : List Text) (t : Tree) : m Visit := do
  let inherited ← (interfaceParents t).foldlM (Visit.parent symbols visit) (⟨[], seen⟩ : Visit)
  let own ← interfaceMembers infer t
  return ⟨inherited.members.putAll (own.map fun m => (m.name, m)), inherited.seen⟩

/-- The members of an interface and of its parents, to at most `depth` parents one above the other.
Each step up adds a name to those seen, so `depth` need not exceed the number of symbols. -/
def mergedDepth (infer : Infer (Except Fault)) (symbols : Symbols) :
    Nat → List Text → Tree → Except Fault Visit
  | 0, seen, _ => .ok ⟨[], seen⟩
  | depth + 1, seen, t => mergedStep infer symbols (mergedDepth infer symbols depth) seen t

/-- The members of an interface with those of its local parents, by name. -/
def mergedMembers (infer : Infer (Except Fault)) (symbols : Symbols) (t : Tree) :
    Except Fault (Fields Member) := do
  return (← mergedDepth infer symbols (symbols.length + 1) [] t).members

/-- An interface as an object type. -/
def interfaceText (infer : Infer (Except Fault)) (symbols : Symbols) (t : Tree) :
    Except Fault Text := do
  return bracedText ((← mergedMembers infer symbols t).values.map Member.text)

/-! ## Enumerations -/

/-- The decimal text of a counter. -/
def counterText (n : Int) : Except Fault Text :=
  let text := Text.ofNat n.natAbs
  if Number.maxDigits < text.length then .error .tooManyDigits
  else .ok (if n < 0 then '-' :: text else text)

/-- The value of a member with an initialiser, and the counter after it. Only a number moves the
counter: to the next one when it reads as a decimal integer, by one otherwise. -/
def assignedValue (counter : Int) (value : Tree) : Text × Int :=
  match value.kind with
  | .number =>
    (value.text, match Number.readInt? value.text with
      | some n => n + 1
      | none => counter + 1)
  | .string => (value.text, counter)
  | _ => ("number".toList, counter)

/-- The values of the members of an enumeration, where `counter` is the next number. -/
def enumValuesFrom (counter : Int) : List Tree → Except Fault (List Text)
  | [] => .ok []
  | t :: ts =>
    match t.kind with
    | .enumAssignment =>
      match t.child? .value with
      | some value => do
        let (text, next) := assignedValue counter value
        return text :: (← enumValuesFrom next ts)
      | none => do
        let _ ← counterText counter
        return "number".toList :: (← enumValuesFrom counter ts)
    | .propertyIdentifier | .identifier => do
      let text ← counterText counter
      return text :: (← enumValuesFrom (counter + 1) ts)
    | _ => enumValuesFrom counter ts

/-- The values of an enumeration, in order. -/
def enumValues (t : Tree) : Except Fault (List Text) :=
  match t.child? .body with
  | none => .ok []
  | some body => enumValuesFrom 0 body.namedChildren

/-- An enumeration as a union of its values, each once. -/
def enumText (t : Tree) : Except Fault Text := do
  match ← enumValues t with
  | [] => return "never".toList
  | values => return Text.join " | ".toList values.eraseDups

/-! ## Symbols -/

/-- The type of a symbol, given a way to tell the types of expressions and of interfaces. -/
def symbolText (infer interface : Infer m) (s : Symbol) : m Text :=
  match s.kind with
  | .var =>
    match s.tree.child? .type, s.tree.child? .value with
    | some mark, _ => pure (annotationText (some mark))
    | none, some value => infer value
    | none, none => pure anyText
  | .function => signatureText infer s.tree
  | .classType => do return "typeof ".toList ++ (← textOf (s.tree.child? .name))
  | .interface => interface s.tree
  | .typeAlias => pure (((s.tree.child? .value).map (·.text)).getD "unknown".toList)
  | .enumType => ofExcept (enumText s.tree)
  | .expression => infer s.tree

/-- The type of a name, where the types of the names of `resolving` are being told already. Each
step down adds a declared name to them, so `depth` need not exceed the number of symbols. -/
def typeOfDepth (symbols : Symbols) : Nat → List Text → Lookup (Except Fault)
  | depth, resolving, name =>
    match symbols.get? name with
    | none => .ok none
    | some s =>
      if resolving.contains name then .ok (some anyText)
      else
        match depth with
        | 0 => .ok (some anyText)
        | depth + 1 => do
          let infer := inferType (typeOfDepth symbols depth (name :: resolving))
          return some (← symbolText infer (interfaceText infer symbols) s)

/-- The type of a top-level name; `none` for a name that is not declared. -/
def typeOf (symbols : Symbols) (name : Text) : Except Fault (Option Text) :=
  typeOfDepth symbols symbols.length [] name

end ExportSchema.Module
