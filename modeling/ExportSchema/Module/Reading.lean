import ExportSchema.Export
import ExportSchema.Module.Symbol

/-!
# Reading a module

`Module.read` goes through the top-level statements of a syntax tree in order. Each statement may
register symbols and give a declaration. The members of an interface are read when its statement is
reached, so a default value in a method sees the symbols registered up to there.
-/

namespace ExportSchema

/-- A module: its symbols and its declarations, in source order. -/
structure Module where
  symbols : Module.Symbols
  declarations : List Declaration

namespace Module

/-- The result of reading one statement: the symbols after it, and its declaration if it has one. -/
abbrev Reading := Except Fault (Symbols × Option Declaration)

/-! ## Definitions -/

/-- The names that a declaration of variables binds to single variables, with their declarators. -/
def declarators (t : Tree) : List (Text × Tree) :=
  (t.namedChildren.filter (·.kind = .variableDeclarator)).filterMap fun d =>
    match d.child? .name with
    | some name => if name.kind = .identifier then some (name.text, d) else none
    | none => none

/-- What a definition of this kind declares. -/
def symbolKind? (k : Kind) : Option SymbolKind :=
  if k.isFunction then some .function
  else if k.isClass then some .classType
  else
    match k with
    | .interfaceDeclaration => some .interface
    | .typeAliasDeclaration => some .typeAlias
    | .enumDeclaration => some .enumType
    | _ => none

/-- The declaration of a definition, and whether it can be a default export: interfaces, type
aliases and variables never are. -/
def definition (symbols : Symbols) (kind : SymbolKind) (t : Tree) :
    Except Fault (Definition × Bool) :=
  match kind with
  | .interface => do
    let members ← interfaceMembers (inferType (typeOf symbols)) t
    return (.interface members (interfaceParents t), false)
  | .typeAlias => .ok (.typeAlias ((t.child? .value).map (·.text)), false)
  | .function => .ok (.function, true)
  | .classType => .ok (.classType, true)
  | .enumType => .ok (.enumType, true)
  | .var | .expression => .ok (.variables, false)

/-- Read a definition that is not ambient. Its name is registered first. -/
def readDefinition (exported default : Bool) (symbols : Symbols) (t : Tree) : Reading :=
  if t.kind.isVariables then
    let bound := declarators t
    let symbols := bound.foldl (fun s (name, d) => s.putNew name ⟨.var, d⟩) symbols
    .ok (symbols, some (.define .variables (bound.map (·.1)) exported false))
  else
    match symbolKind? t.kind with
    | none => .ok (symbols, none)
    | some kind => do
      let names := (t.child? .name).toList.map (·.text)
      let symbols := names.foldl (fun s name => s.putNew name ⟨kind, t⟩) symbols
      let (what, mayDefault) ← definition symbols kind t
      return (symbols, some (.define what names exported (default && mayDefault)))

mutual
/-- Read a definition. An ambient one stands around another definition. -/
def readDeclaration (exported default : Bool) (symbols : Symbols) : Tree → Reading
  | ⟨.ambientDeclaration, _, _, _, children⟩ => readFirst exported default symbols children
  | t => readDefinition exported default symbols t
/-- Read definitions up to the first that gives a declaration. -/
def readFirst (exported default : Bool) (symbols : Symbols) : List Tree → Reading
  | [] => .ok (symbols, none)
  | t :: ts =>
    if !t.named then readFirst exported default symbols ts
    else
      match readDeclaration exported default symbols t with
      | .error e => .error e
      | .ok (symbols, some d) => .ok (symbols, some d)
      | .ok (symbols, none) => readFirst exported default symbols ts
end

/-! ## Export statements -/

/-- An entry of an export clause. -/
def readSpecifier (t : Tree) : Except Fault Specifier := do
  let symbol := stripQuotes (← textOf (t.child? .name))
  let name := ((t.child? .alias).map fun a => stripQuotes a.text).getD symbol
  return ⟨symbol, name, t.hasChild .typeKeyword⟩

/-- The entries that a child of an export statement gives. -/
def readSpecifiers (t : Tree) : Except Fault (List Specifier) :=
  match t.kind with
  | .exportClause => (t.namedChildren.filter (·.kind = .exportSpecifier)).mapM readSpecifier
  | .namespaceExport =>
    .ok (t.namedChildren.map fun name => ⟨stripQuotes name.text, stripQuotes name.text, false⟩)
  | _ => .ok []

/-- Read an export statement without a declaration and a default value: a clause, or the export of
a whole module, which gives no declaration. -/
def readClause (symbols : Symbols) (t : Tree) : Reading := do
  let source := (t.child? .source).map fun s => stripQuotes s.text
  let specifiers ← t.namedChildren.mapM readSpecifiers
  match specifiers.flatten with
  | [] => return (symbols, none)
  | specifiers => return (symbols, some (.clause specifiers (t.hasChild .typeKeyword) source))

/-- Read an export statement. An assignment to the exports gives no declaration. -/
def readExport (symbols : Symbols) (t : Tree) : Reading :=
  if t.hasChild .equalsSign then .ok (symbols, none)
  else
    let isDefault := t.hasChild .defaultKeyword
    match t.child? .declaration, t.child? .value, isDefault with
    | some d, _, _ => readDeclaration true isDefault symbols d
    | none, some value, true =>
      if value.kind = .identifier then .ok (symbols, some (.defaultValue (some value.text)))
      else .ok (symbols.putNew defaultName ⟨.expression, value⟩, some (.defaultValue none))
    | none, _, _ => readClause symbols t

/-! ## Modules -/

/-- Read a top-level statement. -/
def readStatement (symbols : Symbols) (t : Tree) : Reading :=
  if t.kind = .exportStatement then readExport symbols t
  else readDeclaration false false symbols t

/-- Read top-level statements in order. -/
def readAll (m : Module) : List Tree → Except Fault Module
  | [] => .ok m
  | t :: ts => do
    let (symbols, d) ← readStatement m.symbols t
    readAll ⟨symbols, m.declarations ++ d.toList⟩ ts

/-- Read a module from the root of its syntax tree. -/
def read (root : Tree) : Except Fault Module := readAll ⟨[], []⟩ root.children

end Module

end ExportSchema
