import ExportSchema.Proofs.Export
import ExportSchema.Proofs.Module.Reading

/-!
# Default exports

A statement `export default` stands for one binding, the name `default`. The mark goes from the
words of the statement through the reader of definitions into the declaration, and the exports are
enumerated from there. Functions, classes and enumerations carry it; an interface loses it on the
way, so a default export of an interface is an export under its own name.

* `IsDefaultExport`: the statements with this mark.
* `Exports`: what such a statement exports, an expression or a definition.
* `Declaration.ExportsDefault`: a declaration that exports the name `default`, and nothing else.
* `LosesDefault`: the statement exports an interface that is not itself named `default`.

Results:
* `readAll_append`: reading statements one after the other.
* `readStatement_value`, `readStatement_definition`: how a default export is read.
* `exports_of_readStatement`: what it exports.
* `default_export_iff`: a statement exports the default, unless it names an interface.
* `default_interface_exports_name`: the interface that is exported under its own name.
-/

namespace ExportSchema

/-- The declaration exports one binding, and it is the default export. -/
def Declaration.ExportsDefault (d : Declaration) : Prop :=
  ∃ b, exportsOf [d] = [b] ∧ b.isDefault = true

theorem exportsOf_singleton (d : Declaration) : exportsOf [d] = firstOfName [] d.exports := by
  rw [exportsOf, List.flatMap_singleton]

theorem exportsDefault_of_exports {d : Declaration} {symbol : Option Text}
    (h : d.exports = [⟨defaultName, symbol⟩]) : d.ExportsDefault :=
  ⟨⟨defaultName, symbol⟩, by rw [exportsOf_singleton, h]; rfl, rfl⟩

/-- A definition without the mark `default` exports its name, if it has one. -/
theorem exportsOf_define_single (what : Definition) (name : Option Text) :
    exportsOf [.define what name.toList true false] =
      name.toList.map fun name => ⟨name, some name⟩ := by
  cases name <;> rfl

theorem exportsDefault_iff_of_names {d : Declaration} {name : Option Text}
    (h : exportsOf [d] = name.toList.map fun name => ⟨name, some name⟩) :
    d.ExportsDefault ↔ name = some defaultName := by
  unfold Declaration.ExportsDefault
  rw [h]
  cases name with
  | none => simp
  | some name => simp [Binding.isDefault]

namespace Module

variable {symbols symbols' : Symbols} {d : Option Declaration} {t u : Tree} {m : Module}

/-! ## Default exports -/

/-- A statement `export default`, which is no assignment to the exports. -/
structure IsDefaultExport (t : Tree) : Prop where
  kind : t.kind = .exportStatement
  marked : t.hasChild .defaultKeyword = true
  unassigned : t.hasChild .equalsSign = false

/-- A definition that can be exported by default. -/
def isDefinition (k : Kind) : Bool :=
  k.isFunction || k.isClass || k = .interfaceDeclaration || k = .enumDeclaration

/-- What an export statement exports: the definition in it, or else the value of an expression. -/
inductive Exports (t : Tree) : Prop
  | value {v : Tree} (hdefinition : t.child? .declaration = none) (hv : t.child? .value = some v)
  | definition {u : Tree} (hu : t.child? .declaration = some u) (hkind : isDefinition u.kind = true)

/-- The text of the name of a definition. -/
def nameText? (t : Tree) : Option Text := (t.child? .name).map (·.text)

/-- The statement exports an interface, and it is not named `default`. -/
def LosesDefault (t : Tree) : Prop :=
  ∃ u, t.child? .declaration = some u ∧ u.kind = .interfaceDeclaration ∧
    nameText? u ≠ some defaultName

/-! ## One statement -/

/-- The default export of an expression declares the name `default`. -/
theorem readStatement_value (ht : IsDefaultExport t) (hdefinition : t.child? .declaration = none)
    {v : Tree} (hv : t.child? .value = some v) (symbols : Symbols) :
    ∃ symbols' d, readStatement symbols t = .ok (symbols', some d) ∧ d.ExportsDefault := by
  unfold readStatement readExport
  rw [if_pos ht.kind, if_neg (by rw [ht.unassigned]; decide), hdefinition, hv, ht.marked]
  dsimp only
  split
  · exact ⟨_, _, rfl, exportsDefault_of_exports rfl⟩
  · exact ⟨_, _, rfl, exportsDefault_of_exports rfl⟩

theorem readDeclaration_eq {exported default : Bool} (h : u.kind ≠ .ambientDeclaration) :
    readDeclaration exported default symbols u = readDefinition exported default symbols u := by
  unfold readDeclaration
  split
  · exact absurd rfl h
  · rfl

/-- The default export of a definition is read as the definition, with both marks. -/
theorem readStatement_definition (ht : IsDefaultExport t) (hu : t.child? .declaration = some u)
    (hkind : isDefinition u.kind = true) :
    readStatement symbols t = readDefinition true true symbols u := by
  have hne : u.kind ≠ .ambientDeclaration := by
    intro heq
    rw [heq] at hkind
    cases hkind
  unfold readStatement readExport
  rw [if_pos ht.kind, if_neg (by rw [ht.unassigned]; decide), hu, ht.marked]
  exact readDeclaration_eq hne

/-- Every definition but an interface hands the mark `default` on. -/
theorem symbolKind?_of_isDefinition {k : Kind} (h : isDefinition k = true) :
    k = .interfaceDeclaration ∨ ∃ kind what, symbolKind? k = some kind ∧
      ∀ symbols t, definition symbols kind t = .ok (what, true) := by
  simp only [isDefinition, Bool.or_eq_true, decide_eq_true_eq] at h
  cases hf : k.isFunction with
  | true => exact Or.inr ⟨.function, .function, by simp [symbolKind?, hf], fun _ _ => rfl⟩
  | false =>
    cases hc : k.isClass with
    | true => exact Or.inr ⟨.classType, .classType, by simp [symbolKind?, hf, hc], fun _ _ => rfl⟩
    | false =>
      rcases h with ((h | h) | rfl) | rfl
      · rw [hf] at h
        cases h
      · rw [hc] at h
        cases h
      · exact Or.inl rfl
      · exact Or.inr ⟨.enumType, .enumType, rfl, fun _ _ => rfl⟩

theorem isVariables_of_symbolKind? {k : Kind} {kind : SymbolKind} (h : symbolKind? k = some kind) :
    k.isVariables = false := by
  unfold Kind.isVariables
  split
  · cases h
  · cases h
  · rfl

/-- What a definition declares: an interface exports its own name, any other the default. -/
theorem exports_of_readDefinition (hkind : isDefinition u.kind = true)
    (h : readDefinition true true symbols u = .ok (symbols', d)) :
    ∃ d', d = some d' ∧ (u.kind ≠ .interfaceDeclaration → d'.ExportsDefault) ∧
      (u.kind = .interfaceDeclaration →
        exportsOf [d'] = (nameText? u).toList.map fun name => ⟨name, some name⟩) := by
  unfold readDefinition at h
  rcases symbolKind?_of_isDefinition hkind with hinterface | ⟨kind, what, hk, hdefinition⟩
  · have hk : symbolKind? u.kind = some .interface := by rw [hinterface]; rfl
    rw [if_neg (by rw [isVariables_of_symbolKind? hk]; decide)] at h
    simp only [hk] at h
    obtain ⟨⟨what, mayDefault⟩, hwhat, hresult⟩ := exists_ok_of_bind h
    obtain ⟨members, -, hmembers⟩ := exists_ok_of_bind hwhat
    cases hmembers
    cases hresult
    refine ⟨_, rfl, absurd hinterface, fun _ => ?_⟩
    rw [Bool.true_and, ← Option.toList_map]
    exact exportsOf_define_single _ _
  · rw [if_neg (by rw [isVariables_of_symbolKind? hk]; decide)] at h
    simp only [hk, hdefinition] at h
    cases h
    refine ⟨_, rfl, fun _ => exportsDefault_of_exports rfl, fun hinterface => ?_⟩
    rw [hinterface] at hk
    cases hk
    obtain ⟨members, -, hmembers⟩ := exists_ok_of_bind (hdefinition [] u)
    cases hmembers

/-- A default export declares the name `default`, unless an interface loses the mark. -/
theorem exports_of_readStatement (ht : IsDefaultExport t) (he : Exports t)
    (h : readStatement symbols t = .ok (symbols', d)) :
    ∃ d', d = some d' ∧ (d'.ExportsDefault ↔ ¬ LosesDefault t) ∧
      ∀ u, t.child? .declaration = some u → u.kind = .interfaceDeclaration →
        exportsOf [d'] = (nameText? u).toList.map fun name => ⟨name, some name⟩ := by
  cases he with
  | value hnone hv =>
    obtain ⟨symbols'', d', hread, hd'⟩ := readStatement_value ht hnone hv symbols
    cases hread.symm.trans h
    refine ⟨d', rfl, iff_of_true hd' ?_, fun u hu => ?_⟩
    · rintro ⟨u, hu, -⟩
      rw [hnone] at hu
      cases hu
    · rw [hnone] at hu
      cases hu
  | @definition u hu hkind =>
    rw [readStatement_definition ht hu hkind] at h
    obtain ⟨d', rfl, hother, hinterface⟩ := exports_of_readDefinition hkind h
    have hloses : LosesDefault t ↔
        u.kind = .interfaceDeclaration ∧ nameText? u ≠ some defaultName := by
      simp only [LosesDefault, hu, Option.some.injEq, exists_eq_left']
    refine ⟨d', rfl, ?_, fun v hv => ?_⟩
    · by_cases hk : u.kind = .interfaceDeclaration
      · rw [hloses, not_and, not_not, imp_iff_right hk]
        exact exportsDefault_iff_of_names (hinterface hk)
      · exact iff_of_true (hother hk) fun hl => hk (hloses.mp hl).1
    · rw [hu] at hv
      cases hv
      exact hinterface

/-! ## All statements -/

/-- Reading statements one after the other. -/
theorem readAll_append (m : Module) (ts us : List Tree) :
    readAll m (ts ++ us) = readAll m ts >>= fun m' => readAll m' us := by
  induction ts generalizing m with
  | nil => rfl
  | cons t ts ih =>
    rw [List.cons_append, readAll, readAll]
    cases readStatement m.symbols t with
    | error e => rfl
    | ok r => exact ih _

theorem declarations_readAll {m m' : Module} {ts : List Tree} (h : readAll m ts = .ok m') :
    ∃ rest, m'.declarations = m.declarations ++ rest := by
  induction ts generalizing m with
  | nil =>
    cases h
    exact ⟨[], (List.append_nil _).symm⟩
  | cons t ts ih =>
    obtain ⟨⟨symbols, d⟩, -, hrest⟩ := exists_ok_of_bind h
    obtain ⟨rest, hdeclarations⟩ := ih hrest
    exact ⟨d.toList ++ rest, by rw [hdeclarations, List.append_assoc]⟩

/-- **A default export is exported as `default`, unless it is an interface.** Of a statement
`export default` of an expression, a function, a class, an interface or an enumeration, the module
records one declaration. Taken alone it exports the name `default` and nothing else, just when the
statement exports no interface, or one that is named `default`. An interface is exported under its
own name. -/
theorem default_export_iff {root : Tree} {before after : List Tree} (h : read root = .ok m)
    (hroot : root.children = before ++ t :: after) (ht : IsDefaultExport t) (he : Exports t) :
    ∃ m₀ symbols d rest, readAll ⟨[], []⟩ before = .ok m₀ ∧
      readStatement m₀.symbols t = .ok (symbols, some d) ∧
      m.declarations = m₀.declarations ++ d :: rest ∧
      (d.ExportsDefault ↔ ¬ LosesDefault t) ∧
      ∀ u, t.child? .declaration = some u → u.kind = .interfaceDeclaration →
        exportsOf [d] = (nameText? u).toList.map fun name => ⟨name, some name⟩ := by
  rw [read, hroot, readAll_append] at h
  obtain ⟨m₀, hbefore, hrest⟩ := exists_ok_of_bind h
  obtain ⟨⟨symbols, d⟩, hstatement, hafter⟩ := exists_ok_of_bind hrest
  obtain ⟨d, rfl, hexports⟩ := exports_of_readStatement ht he hstatement
  obtain ⟨rest, hdeclarations⟩ := declarations_readAll hafter
  refine ⟨m₀, symbols, d, rest, hbefore, hstatement, ?_, hexports⟩
  rw [hdeclarations, Option.toList_some, List.append_assoc, List.singleton_append]

/-- In `interface A {}; export default enum E { X }; export default A` the enumeration is the
default export, although it has a name of its own. -/
theorem default_export_of_enumeration :
    let token (kind : Kind) : Tree := ⟨kind, false, none, [], []⟩
    let leaf (kind : Kind) (field : Option Field) (text : String) : Tree :=
      ⟨kind, true, field, text.toList, []⟩
    let node (kind : Kind) (field : Option Field) (children : List Tree) : Tree :=
      ⟨kind, true, field, [], children⟩
    let a := node .interfaceDeclaration none [leaf .other (some .name) "A"]
    let e := node .enumDeclaration (some .declaration) [leaf .identifier (some .name) "E",
      node .other (some .body) [leaf .propertyIdentifier none "X"]]
    let t := node .exportStatement none [token .other, token .defaultKeyword, e]
    let again := node .exportStatement none
      [token .other, token .defaultKeyword, leaf .identifier (some .value) "A"]
    let root := node .other none [a, t, again]
    let enumeration : Declaration := .define .enumType [['E']] true true
    let m : Module := ⟨[(['A'], ⟨.interface, a⟩), (['E'], ⟨.enumType, e⟩)],
      [.define (.interface [] []) [['A']] false false, enumeration, .defaultValue (some ['A'])]⟩
    read root = .ok m ∧ IsDefaultExport t ∧ Exports t ∧ enumeration.ExportsDefault := by
  intro token leaf node a e t again root enumeration m
  have hread : read root = .ok m := rfl
  have ht : IsDefaultExport t := ⟨rfl, rfl, rfl⟩
  have he : Exports t := .definition (u := e) rfl rfl
  have hroot : root.children = [a] ++ t :: [again] := rfl
  obtain ⟨m₀, symbols, d, rest, hbefore, hstatement, -, hiff, -⟩ :=
    default_export_iff hread hroot ht he
  cases hbefore
  cases hstatement
  refine ⟨hread, ht, he, hiff.mpr ?_⟩
  rintro ⟨u, hu, hkind, -⟩
  cases hu
  cases hkind

/-- The interface of `export default interface Foo { a: string }` is exported as `Foo`, and there is
no default export. -/
theorem default_interface_exports_name :
    let token (kind : Kind) : Tree := ⟨kind, false, none, [], []⟩
    let leaf (kind : Kind) (field : Field) (text : String) : Tree :=
      ⟨kind, true, some field, text.toList, []⟩
    let node (kind : Kind) (field : Option Field) (children : List Tree) : Tree :=
      ⟨kind, true, field, [], children⟩
    let foo := node .interfaceDeclaration (some .declaration) [leaf .other .name "Foo",
      node .other (some .body)
        [node .propertySignature none [leaf .propertyIdentifier .name "a",
          leaf .typeMark .type ": string"]]]
    let t := node .exportStatement none [token .other, token .defaultKeyword, foo]
    let d : Declaration :=
      .define (.interface [⟨['a'], "string".toList, false⟩] []) ["Foo".toList] true false
    IsDefaultExport t ∧ Exports t ∧
      read (node .other none [t]) = .ok ⟨[("Foo".toList, ⟨.interface, foo⟩)], [d]⟩ ∧
      exportsOf [d] = [⟨"Foo".toList, some "Foo".toList⟩] ∧ ¬ d.ExportsDefault := by
  intro token leaf node foo t d
  have hexports : exportsOf [d] = [⟨"Foo".toList, some "Foo".toList⟩] := rfl
  refine ⟨⟨rfl, rfl, rfl⟩, .definition (u := foo) rfl rfl, rfl, hexports, ?_⟩
  rintro ⟨b, hb, hdefault⟩
  rw [hexports] at hb
  cases hb
  exact absurd hdefault (by decide)

end Module

end ExportSchema
