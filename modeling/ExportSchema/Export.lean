import ExportSchema.Declaration

/-!
# Exported bindings

`exportsOf` lists what a module exports, in source order. A name counts once, where it first
occurs; so a second default export is ignored. Names that are exported as types only, and the names
of a whole other module, are left out.
-/

namespace ExportSchema

/-- The name under which a default export is exported. -/
def defaultName : Text := "default".toList

/-- An exported name, and the local symbol that it stands for; a name of another module stands for
none. -/
structure Binding where
  name : Text
  symbol : Option Text
  deriving DecidableEq, Repr

/-- Is this the default export? -/
def Binding.isDefault (b : Binding) : Bool := b.name = defaultName

/-- The exported names of one declaration, each with its symbol. -/
def Declaration.exports : Declaration → List Binding
  | .define _ names exported default =>
    if !exported then []
    else if default then [⟨defaultName, some (names.head?.getD defaultName)⟩]
    else names.map fun name => ⟨name, some name⟩
  | .clause specifiers typeOnly source =>
    if typeOnly then []
    else (specifiers.filter (!·.typeOnly)).map fun s =>
      ⟨s.name, if source.isNone then some s.symbol else none⟩
  | .defaultValue symbol => [⟨defaultName, some (symbol.getD defaultName)⟩]
  | .other => []

/-- The bindings whose names are neither in `seen` nor among the bindings before them. -/
def firstOfName (seen : List Text) : List Binding → List Binding
  | [] => []
  | b :: bs =>
    if seen.contains b.name then firstOfName seen bs else b :: firstOfName (b.name :: seen) bs

/-- The exported bindings of a module. -/
def exportsOf (ds : List Declaration) : List Binding :=
  firstOfName [] (ds.flatMap Declaration.exports)

end ExportSchema
