import ExportSchema.Proofs.Document
import ExportSchema.Proofs.Module.Reading
import ExportSchema.Proofs.Module.Session

/-!
# No export of a local definition is left out

Reading a module registers symbols and collects declarations, and the exports are enumerated from
the declarations afterwards. Only the names connect the three. Every name that a declaration defines
is registered with it, so an export of a local definition has a symbol. What may be left out are
names that other modules or other statements have to define.

* `Declaration.locals`: the names that a declaration defines itself.
* `Declares`: what a statement registers for the declaration that it gives.
* `Complete`: all that is declared is registered, and a definition that is a default export has a
  name.
* `winner?`: the declaration that exports a name first.
* `LeftOut`: the exports that may be left out.

Results:
* `declares_readStatement`: a statement registers all names of its declaration.
* `complete_read`: a module that was read is complete.
* `mem_exportsOf_iff`: the exports are the first contributions of their names.
* `local_exports_kept`: which exports have types, and which may be left out.
-/

namespace ExportSchema

/-! ## Names that a declaration defines -/

/-- The names that a declaration defines itself. -/
def Declaration.locals : Declaration → List Text
  | .define _ names _ _ => names
  | .defaultValue none => [defaultName]
  | .defaultValue (some _) | .clause .. | .other => []

/-- If it is a default export, a definition has a name. -/
def Declaration.IsNamed : Declaration → Prop
  | .define _ names _ true => names ≠ []
  | _ => True

/-- Does this declaration export what it defines itself? It has the mark `export`, or it is the
default export of an expression that is no name. -/
def Declaration.exportsOwn : Declaration → Bool
  | .define _ _ exported _ => exported
  | .defaultValue symbol => symbol.isNone
  | .clause .. | .other => false

/-- What a declaration exports of its own stands for a name that it defines. -/
theorem Declaration.symbol_of_exportsOwn {d : Declaration} {b : Binding} (hown : d.exportsOwn)
    (hd : d.IsNamed) (hb : b ∈ d.exports) : ∃ symbol ∈ d.locals, b.symbol = some symbol := by
  cases d with
  | define what names exported default =>
    obtain rfl : exported = true := hown
    cases default with
    | false =>
      obtain ⟨name, hname, rfl⟩ := List.mem_map.mp hb
      exact ⟨name, hname, rfl⟩
    | true =>
      obtain rfl := List.mem_singleton.mp hb
      obtain ⟨name, names, rfl⟩ := List.exists_cons_of_ne_nil hd
      exact ⟨name, List.mem_cons_self, rfl⟩
  | defaultValue symbol =>
    cases symbol with
    | none =>
      obtain rfl := List.mem_singleton.mp hb
      exact ⟨defaultName, List.mem_cons_self, rfl⟩
    | some symbol => cases hown
  | clause specifiers typeOnly source => cases hown
  | other => cases hown

namespace Module

variable {symbols symbols' symbols'' : Symbols} {d : Option Declaration} {t u : Tree} {m : Module}
  {name : Text} {exported default : Bool}

/-! ## One statement -/

/-- Every definition in the tree that is not of variables has a name. -/
def DefinitionsNamed (t : Tree) : Prop :=
  ∀ u ∈ t.nodes, (symbolKind? u.kind).isSome → (u.child? .name).isSome

theorem DefinitionsNamed.mono (ht : DefinitionsNamed t) (hu : u ∈ t.nodes) : DefinitionsNamed u :=
  fun v hv => ht v (Tree.mem_nodes_trans hu hv)

/-- The name is registered. -/
def Registered (symbols : Symbols) (name : Text) : Prop := (symbols.get? name).isSome

theorem Registered.putNew {x : Symbol} {k : Text} (h : Registered symbols name ∨ name = k) :
    Registered (symbols.putNew k x) name := by
  unfold Registered at *
  rw [Fields.get?_putNew, Option.isSome_or]
  rcases h with h | rfl
  · rw [h, Bool.true_or]
  · simp

theorem Registered.foldl_putNew {entries : Fields Symbol}
    (h : Registered symbols name ∨ name ∈ entries.names) :
    Registered (entries.foldl (fun s e => s.putNew e.1 e.2) symbols) name := by
  induction entries generalizing symbols with
  | nil => exact h.resolve_right List.not_mem_nil
  | cons e entries ih =>
    refine ih ?_
    rcases h with h | h
    · exact Or.inl (.putNew (Or.inl h))
    · exact (List.mem_cons.mp h).imp_left fun h => .putNew (Or.inr h)

/-- What a statement registers: it forgets no symbol, and if it gives a declaration, all the names
that this defines are symbols. -/
structure Declares (symbols symbols' : Symbols) (d : Option Declaration) : Prop where
  kept : ∀ name, Registered symbols name → Registered symbols' name
  registered : ∀ d' ∈ d, ∀ name ∈ d'.locals, Registered symbols' name
  named : ∀ d' ∈ d, d'.IsNamed

theorem Declares.nothing : Declares symbols symbols none where
  kept _ h := h
  registered _ h := nomatch h
  named _ h := nomatch h

theorem Declares.after (h : Declares symbols symbols' none) (h' : Declares symbols' symbols'' d) :
    Declares symbols symbols'' d where
  kept name hname := h'.kept name (h.kept name hname)
  registered := h'.registered
  named := h'.named

/-- Registering the names of a declaration beforehand. -/
theorem Declares.foldl_putNew (entries : Fields Symbol) {d : Declaration}
    (hlocals : ∀ name ∈ d.locals, name ∈ entries.names) (hd : d.IsNamed) :
    Declares symbols (entries.foldl (fun s e => s.putNew e.1 e.2) symbols) (some d) where
  kept _ hname := .foldl_putNew (Or.inl hname)
  registered := by
    rintro d' ⟨⟩ name hname
    exact .foldl_putNew (Or.inr (hlocals name hname))
  named := by
    rintro d' ⟨⟩
    exact hd

theorem declares_readDefinition (ht : DefinitionsNamed t)
    (h : readDefinition exported default symbols t = .ok (symbols', d)) :
    Declares symbols symbols' d := by
  by_cases hvars : t.kind.isVariables
  · rw [readDefinition_variables hvars] at h
    cases h
    exact .foldl_putNew (variableSymbols t) (fun name hname => hname) trivial
  · unfold readDefinition at h
    rw [if_neg hvars] at h
    cases hk : symbolKind? t.kind with
    | none =>
      simp only [hk] at h
      cases h
      exact .nothing
    | some kind =>
      simp only [hk] at h
      obtain ⟨⟨what, mayDefault⟩, -, hresult⟩ := exists_ok_of_bind h
      cases hresult
      obtain ⟨name, hname⟩ := Option.isSome_iff_exists.mp (ht t t.mem_nodes_self (by simp [hk]))
      rw [hname]
      refine Declares.foldl_putNew [(name.text, ⟨kind, t⟩)]
        (fun name hname => by simpa [Declaration.locals, Fields.names] using hname) ?_
      cases default && mayDefault
      · trivial
      · exact List.cons_ne_nil _ _

mutual
theorem declares_readDeclaration {symbols symbols' : Symbols} {d : Option Declaration} {t : Tree}
    (ht : DefinitionsNamed t) (h : readDeclaration exported default symbols t = .ok (symbols', d)) :
    Declares symbols symbols' d := by
  unfold readDeclaration at h
  split at h
  · exact declares_readFirst
      (fun u hu => ht.mono (Tree.mem_nodes_of_mem_descendants (Tree.mem_descendants_of_mem hu))) h
  · exact declares_readDefinition ht h
theorem declares_readFirst {symbols symbols' : Symbols} {d : Option Declaration} {ts : List Tree}
    (hts : ∀ t ∈ ts, DefinitionsNamed t)
    (h : readFirst exported default symbols ts = .ok (symbols', d)) :
    Declares symbols symbols' d := by
  cases ts with
  | nil =>
    rw [readFirst] at h
    cases h
    exact .nothing
  | cons t ts =>
    obtain ⟨ht, hts⟩ := List.forall_mem_cons.mp hts
    rw [readFirst] at h
    split at h
    · exact declares_readFirst hts h
    · split at h
      · cases h
      · rename_i hfirst
        cases h
        exact declares_readDeclaration ht hfirst
      · rename_i hfirst
        -- whatever stands in front without a declaration, its symbols are kept
        exact (declares_readDeclaration ht hfirst).after (declares_readFirst hts h)
end

/-- A declaration that defines no names needs no symbols. -/
theorem declares_same {d : Declaration} (hlocals : d.locals = []) (hd : d.IsNamed) :
    Declares symbols symbols (some d) :=
  .foldl_putNew [] (by simp [hlocals]) hd

theorem declares_readClause (h : readClause symbols t = .ok (symbols', d)) :
    Declares symbols symbols' d := by
  unfold readClause at h
  obtain ⟨specifiers, -, hresult⟩ := exists_ok_of_bind h
  split at hresult
  · cases hresult
    exact .nothing
  · cases hresult
    exact declares_same rfl trivial

theorem declares_readExport (ht : DefinitionsNamed t)
    (h : readExport symbols t = .ok (symbols', d)) : Declares symbols symbols' d := by
  unfold readExport at h
  split at h
  · cases h
    exact .nothing
  · dsimp only at h
    split at h
    · rename_i hdeclaration
      refine declares_readDeclaration (ht.mono (Tree.mem_nodes_of_mem_descendants ?_)) h
      exact Tree.mem_descendants_of_child? hdeclaration
    · split at h
      · cases h
        exact declares_same rfl trivial
      · rename_i value _ _ _ _
        cases h
        exact .foldl_putNew [(defaultName, ⟨.expression, value⟩)] (fun name hname => hname) trivial
    · exact declares_readClause h

/-- **A statement registers all names that its declaration defines.** -/
theorem declares_readStatement (ht : DefinitionsNamed t)
    (h : readStatement symbols t = .ok (symbols', d)) : Declares symbols symbols' d := by
  unfold readStatement at h
  split at h
  · exact declares_readExport ht h
  · exact declares_readDeclaration ht h

/-! ## All statements -/

/-- All that is declared is registered, and a definition that is a default export has a name. -/
structure Complete (m : Module) : Prop where
  registered : ∀ d ∈ m.declarations, ∀ name ∈ d.locals, Registered m.symbols name
  named : ∀ d ∈ m.declarations, d.IsNamed

/-- **A statement keeps a module complete.** -/
theorem Complete.step (hm : m.Complete) (h : Declares m.symbols symbols' d) :
    Complete ⟨symbols', m.declarations ++ d.toList⟩ where
  registered d' hd' name hname := by
    rcases List.mem_append.mp hd' with hd' | hd'
    · exact h.kept name (hm.registered d' hd' name hname)
    · exact h.registered d' (Option.mem_toList.mp hd') name hname
  named d' hd' := by
    rcases List.mem_append.mp hd' with hd' | hd'
    · exact hm.named d' hd'
    · exact h.named d' (Option.mem_toList.mp hd')

theorem Complete.readAll (hm : m.Complete) {ts : List Tree} {m' : Module}
    (hts : ∀ t ∈ ts, DefinitionsNamed t) (h : readAll m ts = .ok m') : m'.Complete := by
  induction ts generalizing m with
  | nil =>
    cases h
    exact hm
  | cons t ts ih =>
    obtain ⟨ht, hts⟩ := List.forall_mem_cons.mp hts
    obtain ⟨⟨symbols, d⟩, hstatement, hrest⟩ := exists_ok_of_bind h
    exact ih (hm.step (declares_readStatement ht hstatement)) hts hrest

/-- **A module that was read is complete**, if its definitions have names. -/
theorem complete_read {root : Tree} (hroot : DefinitionsNamed root) (h : read root = .ok m) :
    m.Complete := by
  have hempty : Complete ⟨[], []⟩ := ⟨fun d hd => absurd hd List.not_mem_nil,
    fun d hd => absurd hd List.not_mem_nil⟩
  refine hempty.readAll (fun t ht => ?_) h
  exact hroot.mono (Tree.mem_nodes_of_mem_descendants (Tree.mem_descendants_of_mem ht))

/-! ## The declaration that counts -/

/-- The exported names of all declarations, each with the declaration that exports it. -/
def contributions (ds : List Declaration) : List (Declaration × Binding) :=
  ds.flatMap fun d => d.exports.map fun b => (d, b)

/-- The declaration that exports a name first, with the binding that it gives. -/
def winner? (ds : List Declaration) (name : Text) : Option (Declaration × Binding) :=
  (contributions ds).find? (·.2.name = name)

theorem winner?_mem {ds : List Declaration} {d : Declaration} {b : Binding}
    (h : winner? ds name = some (d, b)) : d ∈ ds ∧ b ∈ d.exports := by
  obtain ⟨d', hd', hb⟩ := List.mem_flatMap.mp (List.mem_of_find?_eq_some h)
  obtain ⟨b', hb', heq⟩ := List.mem_map.mp hb
  cases heq
  exact ⟨hd', hb'⟩

/-- **The exports are the first contributions of their names.** -/
theorem mem_exportsOf_iff {ds : List Declaration} {b : Binding} :
    b ∈ exportsOf ds ↔ ∃ d, winner? ds b.name = some (d, b) := by
  have hbindings : ds.flatMap Declaration.exports = (contributions ds).map (·.2) := by
    simp only [contributions, List.map_flatMap, List.map_map, Function.comp_def, List.map_id']
  unfold exportsOf winner?
  rw [mem_firstOfName, hbindings, List.find?_map, Option.map_eq_some_iff]
  constructor
  · rintro ⟨-, ⟨d, _⟩, hfind, rfl⟩
    exact ⟨d, hfind⟩
  · rintro ⟨d, hfind⟩
    exact ⟨List.not_mem_nil, (d, b), hfind, rfl⟩

/-! ## Exports that may be left out -/

/-- The exports that may be left out, each with the declaration that counts. -/
inductive LeftOut (symbols : Symbols) : Declaration → Binding → Prop
  /-- A name of another module. -/
  | otherModule {specifiers : List Specifier} {typeOnly : Bool} {source name : Text} :
      LeftOut symbols (.clause specifiers typeOnly (some source)) ⟨name, none⟩
  /-- An entry of an export clause whose symbol is not registered. -/
  | specifier {specifiers : List Specifier} {typeOnly : Bool} {name symbol : Text}
      (h : ¬ Registered symbols symbol) :
      LeftOut symbols (.clause specifiers typeOnly none) ⟨name, some symbol⟩
  /-- The default export of a name that is not registered. -/
  | name {symbol : Text} (h : ¬ Registered symbols symbol) :
      LeftOut symbols (.defaultValue (some symbol)) ⟨defaultName, some symbol⟩
  /-- A symbol with an empty name. -/
  | empty {d : Declaration} {name : Text} : LeftOut symbols d ⟨name, some []⟩

theorem typeOf_eq_none_iff : typeOf symbols name = .ok none ↔ ¬ Registered symbols name := by
  unfold typeOf Registered
  rw [typeOfDepth_eq_none_iff, Option.not_isSome_iff_eq_none]

/-- A symbol that cannot be asked for has an empty name, or it is not registered. -/
theorem empty_or_unregistered {name symbol : Text}
    (h : ∀ s, Document.symbolOf ⟨name, some symbol⟩ = some s → ¬ Registered symbols s) :
    symbol = [] ∨ ¬ Registered symbols symbol := by
  cases symbol with
  | nil => exact Or.inl rfl
  | cons c cs => exact Or.inr (h _ rfl)

/-- What has no type that can be asked for may be left out. -/
theorem leftOut_of_unknown {d : Declaration} {b : Binding} (hb : b ∈ d.exports)
    (hown : d.exportsOwn → ∃ symbol, b.symbol = some symbol ∧ Registered symbols symbol)
    (h : ∀ symbol, Document.symbolOf b = some symbol → ¬ Registered symbols symbol) :
    LeftOut symbols d b := by
  obtain ⟨name, symbol?⟩ := b
  by_cases ho : d.exportsOwn
  · obtain ⟨symbol, rfl, hregistered⟩ := hown ho
    obtain rfl := (empty_or_unregistered h).resolve_right (not_not_intro hregistered)
    exact .empty
  · cases d with
    | define what names exported default =>
      obtain rfl : exported = false := by simpa [Declaration.exportsOwn] using ho
      cases hb
    | clause specifiers typeOnly source =>
      cases typeOnly with
      | true => cases hb
      | false =>
        obtain ⟨s, -, hs⟩ := List.mem_map.mp hb
        cases source with
        | some source =>
          cases hs
          exact .otherModule
        | none =>
          cases hs
          rcases empty_or_unregistered h with hempty | hnew
          · rw [hempty]
            exact .empty
          · exact .specifier hnew
    | defaultValue symbol =>
      cases symbol with
      | none => exact absurd rfl ho
      | some symbol =>
        cases List.mem_singleton.mp hb
        rcases empty_or_unregistered h with rfl | hnew
        · exact .empty
        · exact .name hnew
    | other => cases hb

/-- **No export of a local definition is left out.** In a module whose definitions have names, every
export is that of the declaration that exports its name first. When this declaration has the mark
`export`, or is the default export of an expression that is no name, the export has a symbol that is
registered, so its type is known. What is left out of the document is a name of another module, a
name in an export clause or in a default export that is not registered, or has an empty name. -/
theorem local_exports_kept {root : Tree} (hroot : DefinitionsNamed root) (h : read root = .ok m) :
    (∀ b ∈ exportsOf m.declarations, ∃ d, winner? m.declarations b.name = some (d, b) ∧
      (d.exportsOwn → ∃ symbol, b.symbol = some symbol ∧ Registered m.symbols symbol ∧
        typeOf m.symbols symbol ≠ .ok none)) ∧
    ∀ name, Document.Event.skipped name ∈ (Document.assemble (typeOf m.symbols) m.declarations
        (exportsOf m.declarations)).1 →
      ∃ d b, winner? m.declarations name = some (d, b) ∧ LeftOut m.symbols d b := by
  have hm := complete_read hroot h
  have hown : ∀ {d b}, d ∈ m.declarations → b ∈ d.exports → d.exportsOwn →
      ∃ symbol, b.symbol = some symbol ∧ Registered m.symbols symbol := fun hd hb ho =>
    let ⟨symbol, hlocal, hsymbol⟩ := Declaration.symbol_of_exportsOwn ho (hm.named _ hd) hb
    ⟨symbol, hsymbol, hm.registered _ hd symbol hlocal⟩
  refine ⟨fun b hb => ?_, fun name hskip => ?_⟩
  · obtain ⟨d, hwinner⟩ := mem_exportsOf_iff.mp hb
    obtain ⟨hd, hb⟩ := winner?_mem hwinner
    refine ⟨d, hwinner, fun ho => ?_⟩
    obtain ⟨symbol, hsymbol, hregistered⟩ := hown hd hb ho
    exact ⟨symbol, hsymbol, hregistered, fun hnone => typeOf_eq_none_iff.mp hnone hregistered⟩
  · obtain ⟨b, hb, rfl, hunknown⟩ := Document.skipped_of_compile hskip
    obtain ⟨d, hwinner⟩ := mem_exportsOf_iff.mp hb
    obtain ⟨hd, hb⟩ := winner?_mem hwinner
    refine ⟨d, b, hwinner, leftOut_of_unknown hb (hown hd hb) fun symbol hsymbol => ?_⟩
    exact typeOf_eq_none_iff.mp (hunknown symbol hsymbol)

/-- Of `export declare function f(): string; export default class K {}; export { z }` the name `z`
is left out, and the class has a type. -/
theorem local_exports_of_forms :
    let token (kind : Kind) : Tree := ⟨kind, false, none, [], []⟩
    let leaf (kind : Kind) (field : Field) (text : String) : Tree :=
      ⟨kind, true, some field, text.toList, []⟩
    let node (kind : Kind) (field : Option Field) (children : List Tree) : Tree :=
      ⟨kind, true, field, [], children⟩
    let f := node .functionSignature none
      [leaf .identifier .name "f", leaf .typeMark .returnType ": string"]
    let k := node .classDeclaration (some .declaration) [leaf .other .name "K"]
    let root := node .other none
      [node .exportStatement none [token .other, node .ambientDeclaration (some .declaration) [f]],
        node .exportStatement none [token .other, token .defaultKeyword, k],
        node .exportStatement none [token .other,
          node .exportClause none [node .exportSpecifier none [leaf .identifier .name "z"]]]]
    let m : Module := ⟨[("f".toList, ⟨.function, f⟩), ("K".toList, ⟨.classType, k⟩)],
      [.define .function ["f".toList] true false, .define .classType ["K".toList] true true,
        .clause [⟨['z'], ['z'], false⟩] false none]⟩
    DefinitionsNamed root ∧ read root = .ok m ∧ typeOf m.symbols "K".toList ≠ .ok none ∧
      ∃ d b, winner? m.declarations ['z'] = some (d, b) ∧ LeftOut m.symbols d b := by
  intro token leaf node f k root m
  have hroot : DefinitionsNamed root := by
    unfold DefinitionsNamed
    decide
  have hread : read root = .ok m := rfl
  obtain ⟨hkept, hskipped⟩ := local_exports_kept hroot hread
  refine ⟨hroot, hread, ?_, hskipped ['z'] ?_⟩
  · obtain ⟨d, hd, htype⟩ := hkept ⟨defaultName, some "K".toList⟩ (by decide)
    cases hd
    obtain ⟨symbol, hsymbol, -, hknown⟩ := htype rfl
    cases hsymbol
    exact hknown
  · decide +kernel

end Module

end ExportSchema
