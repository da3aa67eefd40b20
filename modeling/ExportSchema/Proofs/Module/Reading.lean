import ExportSchema.Module.Reading
import ExportSchema.Proofs.Module.Rule

/-!
# Symbols and local types

A module keeps its top-level names twice: as symbols with their trees, and as declarations, of which
interfaces and type aliases are local types. Each table keeps the first entry under a name, and both
grow statement by statement. A class or a variable is a symbol and no local type, so the two may
disagree on a name that is declared twice. They agree on the names that are interface symbols.

* `Symbol.Gives`: an interface symbol gives a local type with the members and parents of its tree.
* `Registers`: what a statement does to the symbols, beside the declaration that it gives.
* `Consistent`: every interface symbol is the local type of its name.

Results:
* `registers_readStatement`: all that a statement can do.
* `consistent_read`: a module that was read is consistent.
-/

namespace ExportSchema

namespace Module

variable {symbols symbols' : Symbols} {d : Option Declaration} {t : Tree} {m : Module}

/-! ## One statement -/

/-- If the symbol is an interface, the type is one with the members and parents of its tree. -/
def Symbol.Gives (x : Symbol) (type : LocalType) : Prop :=
  x.kind = .interface → ∃ (infer : Infer (Except Fault)) (members : List Member),
    interfaceMembers infer x.tree = .ok members ∧
      type = .interface members (interfaceParents x.tree)

/-- What a statement does to the symbols, beside the declaration that it gives. -/
inductive Registers (symbols : Symbols) : Symbols → Option Declaration → Prop
  /-- It does nothing. -/
  | nothing : Registers symbols symbols none
  /-- It registers names of other kinds, and declares no local type. -/
  | others (entries : Fields Symbol) (d : Declaration)
      (hkind : ∀ e ∈ entries, e.2.kind ≠ .interface) (hd : d.localType? = none) :
      Registers symbols (entries.foldl (fun s e => s.putNew e.1 e.2) symbols) (some d)
  /-- It registers the name of the local type that it declares. -/
  | type (name : Text) (x : Symbol) (type : LocalType) (d : Declaration) (hx : x.Gives type)
      (hd : d.localType? = some (name, type)) :
      Registers symbols (symbols.putNew name x) (some d)

theorem registers_same (d : Declaration) (hd : d.localType? = none) :
    Registers symbols symbols (some d) :=
  .others [] d (by simp) hd

/-- A definition is no local type, or the one that its symbol gives. -/
theorem definition_cases {kind : SymbolKind} {what : Definition} {mayDefault : Bool}
    (h : definition symbols kind t = .ok (what, mayDefault)) :
    (kind ≠ .interface ∧ ∀ names exported default,
      (Declaration.define what names exported default).localType? = none) ∨
    ∃ type, (Symbol.mk kind t).Gives type ∧ ∀ names exported default,
      (Declaration.define what names exported default).localType? =
        names.head?.map fun name => (name, type) := by
  cases kind with
  | interface =>
    obtain ⟨members, hmembers, hwhat⟩ := exists_ok_of_bind h
    cases hwhat
    refine Or.inr ⟨_, fun _ => ⟨_, members, hmembers, rfl⟩, fun names exported default => ?_⟩
    cases names <;> rfl
  | typeAlias =>
    cases h
    refine Or.inr ⟨.typeAlias ((t.child? .value).map (·.text)), (nomatch ·),
      fun names exported default => ?_⟩
    cases names <;> rfl
  | _ =>
    cases h
    exact Or.inl ⟨by decide, fun _ _ _ => rfl⟩

/-- The symbols that a declaration of variables registers. -/
def variableSymbols (t : Tree) : Fields Symbol := (declarators t).map fun e => (e.1, ⟨.var, e.2⟩)

theorem readDefinition_variables {exported default : Bool} (h : t.kind.isVariables) :
    readDefinition exported default symbols t =
      .ok ((variableSymbols t).foldl (fun s e => s.putNew e.1 e.2) symbols,
        some (.define .variables (variableSymbols t).names exported false)) := by
  have hnames : (variableSymbols t).names = (declarators t).map (·.1) := List.map_map
  unfold readDefinition
  rw [if_pos h, hnames]
  unfold variableSymbols
  rw [List.foldl_map]

theorem registers_readDefinition {exported default : Bool}
    (h : readDefinition exported default symbols t = .ok (symbols', d)) :
    Registers symbols symbols' d := by
  by_cases hvars : t.kind.isVariables
  · rw [readDefinition_variables hvars] at h
    cases h
    refine .others (variableSymbols t) _ (fun e he => ?_) rfl
    obtain ⟨bound, -, rfl⟩ := List.mem_map.mp he
    exact fun h => nomatch h
  · unfold readDefinition at h
    rw [if_neg hvars] at h
    cases hk : symbolKind? t.kind with
    | none =>
      simp only [hk] at h
      cases h
      exact .nothing
    | some kind =>
      simp only [hk] at h
      obtain ⟨⟨what, mayDefault⟩, hdef, hresult⟩ := exists_ok_of_bind h
      cases hresult
      cases t.child? .name with
      | none =>
        refine registers_same _ ?_
        rcases definition_cases hdef with ⟨-, hd⟩ | ⟨type, -, hd⟩
        · exact hd ..
        · exact hd ..
      | some name =>
        rcases definition_cases hdef with ⟨hkind, hd⟩ | ⟨type, hx, hd⟩
        · exact .others [(name.text, ⟨kind, t⟩)] _ (by simpa using hkind) (hd ..)
        · exact .type name.text ⟨kind, t⟩ type _ hx (hd ..)

mutual
theorem registers_readDeclaration {exported default : Bool} {symbols symbols' : Symbols}
    {d : Option Declaration} {t : Tree}
    (h : readDeclaration exported default symbols t = .ok (symbols', d)) :
    Registers symbols symbols' d := by
  unfold readDeclaration at h
  split at h
  · exact registers_readFirst h
  · exact registers_readDefinition h
theorem registers_readFirst {exported default : Bool} {symbols symbols' : Symbols}
    {d : Option Declaration} {ts : List Tree}
    (h : readFirst exported default symbols ts = .ok (symbols', d)) :
    Registers symbols symbols' d := by
  cases ts with
  | nil =>
    rw [readFirst] at h
    cases h
    exact .nothing
  | cons t ts =>
    rw [readFirst] at h
    split at h
    · exact registers_readFirst h
    · split at h
      · cases h
      · rename_i hfirst
        cases h
        exact registers_readDeclaration hfirst
      · rename_i hfirst
        -- a definition that gives no declaration leaves the symbols as they were
        cases registers_readDeclaration hfirst with
        | nothing => exact registers_readFirst h
end

theorem registers_readClause (h : readClause symbols t = .ok (symbols', d)) :
    Registers symbols symbols' d := by
  unfold readClause at h
  obtain ⟨specifiers, -, hresult⟩ := exists_ok_of_bind h
  split at hresult
  · cases hresult
    exact .nothing
  · cases hresult
    exact registers_same _ rfl

theorem registers_readExport (h : readExport symbols t = .ok (symbols', d)) :
    Registers symbols symbols' d := by
  unfold readExport at h
  split at h
  · cases h
    exact .nothing
  · dsimp only at h
    split at h
    · exact registers_readDeclaration h
    · split at h
      · cases h
        exact registers_same _ rfl
      · rename_i value _ _ _ _
        cases h
        exact .others [(defaultName, ⟨.expression, value⟩)] _ (by simp) rfl
    · exact registers_readClause h

/-- **All that a statement can do.** -/
theorem registers_readStatement (h : readStatement symbols t = .ok (symbols', d)) :
    Registers symbols symbols' d := by
  unfold readStatement at h
  split at h
  · exact registers_readExport h
  · exact registers_readDeclaration h

/-! ## All statements -/

/-- The interface symbols are the local types of their names, and every local type is registered. -/
structure Consistent (m : Module) : Prop where
  interface : ∀ n t, interfaceTree? m.symbols n = some t →
    ∃ (infer : Infer (Except Fault)) (members : List Member),
      interfaceMembers infer t = .ok members ∧
        (localTypes m.declarations).lookup n = some (.interface members (interfaceParents t))
  registered : ∀ n type, (localTypes m.declarations).lookup n = some type →
    (m.symbols.get? n).isSome

theorem interfaceTree?_eq_some {n : Text} :
    interfaceTree? symbols n = some t ↔ symbols.get? n = some ⟨.interface, t⟩ := by
  refine ⟨get?_of_interfaceTree?, fun h => ?_⟩
  unfold interfaceTree?
  rw [h]

/-- **A statement keeps a module consistent.** -/
theorem Consistent.step (hm : m.Consistent) (h : Registers m.symbols symbols' d) :
    Consistent ⟨symbols', m.declarations ++ d.toList⟩ := by
  cases h with
  | nothing => simpa using hm
  | others entries d hkind hd =>
    have htypes : localTypes (m.declarations ++ [d]) = localTypes m.declarations := by
      simp [localTypes, hd]
    refine ⟨fun n t ht => ?_, fun n type hn => ?_⟩
    · rw [interfaceTree?_eq_some, Fields.get?_foldl_putNew] at ht
      rw [Option.toList_some, htypes]
      rcases Option.or_eq_some_iff.mp ht with ht | ⟨-, ht⟩
      · exact hm.interface n t (interfaceTree?_eq_some.mpr ht)
      · exact absurd rfl (hkind _ (Fields.mem_of_lookup ht))
    · rw [Option.toList_some, htypes] at hn
      rw [Fields.get?_foldl_putNew, Option.isSome_or, hm.registered n type hn, Bool.true_or]
  | type name x type d hx hd =>
    have htypes : localTypes (m.declarations ++ [d]) =
        localTypes m.declarations ++ [(name, type)] := by
      simp [localTypes, hd]
    refine ⟨fun n t ht => ?_, fun n type' hn => ?_⟩
    · rw [interfaceTree?_eq_some, Fields.get?_putNew] at ht
      rw [Option.toList_some, htypes, List.lookup_append]
      rcases Option.or_eq_some_iff.mp ht with ht | ⟨hnew, ht⟩
      · obtain ⟨infer, members, hmembers, hn⟩ := hm.interface n t (interfaceTree?_eq_some.mpr ht)
        exact ⟨infer, members, hmembers, by rw [hn, Option.some_or]⟩
      · -- a name that is registered now was no local type before
        have hnone : (localTypes m.declarations).lookup n = none := by
          refine Option.eq_none_iff_forall_ne_some.mpr fun type' hn => ?_
          have := hm.registered n type' hn
          simp [hnew] at this
        obtain ⟨rfl, rfl⟩ : n = name ∧ ⟨.interface, t⟩ = x := by
          simpa using Fields.mem_of_lookup ht
        obtain ⟨infer, members, hmembers, rfl⟩ := hx rfl
        exact ⟨infer, members, hmembers, by simp [hnone]⟩
    · rw [Option.toList_some, htypes, List.lookup_append] at hn
      rw [Fields.get?_putNew, Option.isSome_or]
      rcases Option.or_eq_some_iff.mp hn with hn | ⟨-, hn⟩
      · rw [hm.registered n type' hn, Bool.true_or]
      · obtain ⟨rfl, rfl⟩ : n = name ∧ type' = type := by
          simpa using Fields.mem_of_lookup hn
        simp

theorem Consistent.readAll (hm : m.Consistent) {ts : List Tree} {m' : Module}
    (h : readAll m ts = .ok m') : m'.Consistent := by
  induction ts generalizing m with
  | nil =>
    cases h
    exact hm
  | cons t ts ih =>
    obtain ⟨⟨symbols, d⟩, hstatement, hrest⟩ := exists_ok_of_bind h
    exact ih (hm.step (registers_readStatement hstatement)) hrest

/-- **A module that was read is consistent.** -/
theorem consistent_read {root : Tree} (h : read root = .ok m) : m.Consistent := by
  refine Consistent.readAll ⟨fun n t ht => ?_, fun n type hn => ?_⟩ h
  · cases ht
  · cases hn

end Module

end ExportSchema
