import ExportSchema.Document
import ExportSchema.Proofs.Expansion.Expander
import ExportSchema.Proofs.Export
import ExportSchema.Proofs.Schema.Fragment
import Mathlib.Data.List.Forall2

/-!
# The document is its exports

Where a table tells the types of symbols, the document of a module has one property for each
exported binding with a known type, in order. Each is compiled as if it were alone, although one
expander serves all of them.

* `typeIn`: the type that a table tells for a binding.
* `eventsOf`: what happens for one binding.

Results:
* `compile_of_table`: compiling bindings one after the other, each is compiled on its own.
* `compile_congr`: only the types of the symbols that are asked for count.
* `skipped_of_compile`: what may be left out.
* `assemble_of_table`: the document, the lines reported and the symbols asked for.
-/

namespace ExportSchema

namespace Document

open Schema (fragment)

variable {ε : Type} {table : Text → Option Text} {ds : List Declaration}

/-! ## One binding -/

theorem symbolOf_eq (b : Binding) : symbolOf b = b.symbol.filter (· ≠ []) := by
  unfold symbolOf
  rcases b.symbol with _ | _ | _ <;> rfl

/-- The type that a table tells for a binding: that of its symbol, when it has one. -/
def typeIn (table : Text → Option Text) (b : Binding) : Option Text := (symbolOf b).bind table

/-- What happens for one binding: its symbol is asked for, and it is left out for want of a type. -/
def eventsOf (table : Text → Option Text) (b : Binding) : List Event :=
  (symbolOf b).toList.map .asked ++ if (typeIn table b).isNone then [.skipped b.name] else []

/-- The fragment of a binding, compiled by an expander of its own. -/
def IsFragmentOf (table : Text → Option Text) (ds : List Declaration) (b : Binding)
    (f : Text × Json) : Prop :=
  f.1 = b.name ∧ ∃ type, typeIn table b = some type ∧
    fragment ((Expander.fresh ds).expand type).1 = .ok f.2

/-! ## All bindings -/

theorem lines_flatMap (bs : List Binding) :
    (bs.flatMap (eventsOf table)).filterMap Event.line? =
      (bs.filter fun b => (typeIn table b).isNone).map fun b => skippedLine b.name := by
  induction bs with
  | nil => rfl
  | cons b bs ih =>
    rw [List.flatMap_cons, List.filterMap_append, ih, List.filter_cons, eventsOf,
      List.filterMap_append]
    cases symbolOf b <;> cases (typeIn table b).isNone <;> rfl

theorem asked_flatMap (bs : List Binding) :
    (bs.flatMap (eventsOf table)).filterMap Event.asked? = bs.filterMap symbolOf := by
  induction bs with
  | nil => rfl
  | cons b bs ih =>
    rw [List.flatMap_cons, List.filterMap_append, ih, List.filterMap_cons, eventsOf,
      List.filterMap_append]
    cases symbolOf b <;> cases (typeIn table b).isNone <;> rfl

/-- **Each binding is compiled on its own**, although one expander serves all. -/
theorem compile_of_table (table : Text → Option Text) (ds : List Declaration) (bs : List Binding) :
    ∃ fragments, compile (ε := ε) (fun symbol => .ok (table symbol)) (.fresh ds) bs =
        (bs.flatMap (eventsOf table), .ok fragments) ∧
      List.Forall₂ (IsFragmentOf table ds) (bs.filter fun b => (typeIn table b).isSome)
        fragments := by
  induction bs with
  | nil => exact ⟨[], rfl, .nil⟩
  | cons b bs ih =>
    obtain ⟨fragments, hcompile, hall⟩ := ih
    rw [List.flatMap_cons, List.filter_cons]
    unfold compile
    cases hs : symbolOf b with
    | none =>
      have htype : typeIn table b = none := by rw [typeIn, hs]; rfl
      exact ⟨fragments, by simp [hcompile, eventsOf, hs, htype], by simpa [htype] using hall⟩
    | some symbol =>
      cases ht : table symbol with
      | none =>
        have htype : typeIn table b = none := by rw [typeIn, hs]; exact ht
        exact ⟨fragments, by simp [hcompile, eventsOf, hs, htype, ht], by simpa [htype] using hall⟩
      | some type =>
        have htype : typeIn table b = some type := by rw [typeIn, hs]; exact ht
        obtain ⟨j, hj, -⟩ := Schema.fragment_of_sound (Expansion.sound_expand ds type)
        refine ⟨(b.name, j) :: fragments, ?_, ?_⟩
        · simp [hcompile, eventsOf, hs, htype, ht, Expander.expand_fresh, hj, Except.map]
        · simp only [htype, Option.isSome_some, if_true]
          exact .cons ⟨rfl, type, htype, by rw [Expander.expand_fresh]; exact hj⟩ hall

/-- Only the types of the symbols that are asked for count. -/
theorem compile_congr {typeOf typeOf' : Text → Except ε (Option Text)} {bs : List Binding}
    (h : ∀ b ∈ bs, ∀ symbol, symbolOf b = some symbol → typeOf symbol = typeOf' symbol)
    (expander : Expander) : compile typeOf expander bs = compile typeOf' expander bs := by
  induction bs generalizing expander with
  | nil => rfl
  | cons b bs ih =>
    obtain ⟨hb, hbs⟩ := List.forall_mem_cons.mp h
    simp only [compile, ih hbs]
    cases hs : symbolOf b with
    | none => rfl
    | some symbol => simp only [hb symbol hs]

/-- Only a binding without a symbol, or with one whose type is not known, is left out. -/
theorem skipped_of_compile {typeOf : Text → Except ε (Option Text)} {expander : Expander}
    {bs : List Binding} {name : Text} (h : Event.skipped name ∈ (compile typeOf expander bs).1) :
    ∃ b ∈ bs, b.name = name ∧ ∀ symbol, symbolOf b = some symbol → typeOf symbol = .ok none := by
  induction bs generalizing expander with
  | nil => cases h
  | cons b bs ih =>
    have hrest : ∀ {expander'}, Event.skipped name ∈ (compile typeOf expander' bs).1 →
        ∃ c ∈ b :: bs, c.name = name ∧
          ∀ symbol, symbolOf c = some symbol → typeOf symbol = .ok none := fun h =>
      let ⟨c, hc, hskip⟩ := ih h
      ⟨c, List.mem_cons_of_mem _ hc, hskip⟩
    unfold compile at h
    cases hs : symbolOf b with
    | none =>
      simp only [hs] at h
      rcases List.mem_cons.mp h with hb | h
      · exact ⟨b, List.mem_cons_self, (Event.skipped.inj hb).symm, by simp [hs]⟩
      · exact hrest h
    | some symbol =>
      cases ht : typeOf symbol with
      | error cause => simp [hs, ht] at h
      | ok type? =>
        cases type? with
        | none =>
          simp only [hs, ht, List.mem_cons, reduceCtorEq, false_or] at h
          rcases h with hb | h
          · exact ⟨b, List.mem_cons_self, (Event.skipped.inj hb).symm, by simp [hs, ht]⟩
          · exact hrest h
        | some type =>
          simp only [hs, ht] at h
          split at h
          · simp at h
          · rcases List.mem_cons.mp h with hb | h
            · cases hb
            · exact hrest h

theorem names_of_forall₂ {bs : List Binding} {fragments : List (Text × Json)}
    (h : List.Forall₂ (IsFragmentOf table ds) bs fragments) :
    Fields.names fragments = bs.map (·.name) := by
  induction h with
  | nil => rfl
  | cons hb _ ih => exact congrArg₂ List.cons hb.1 ih

/-- **The document is exactly the exports with a known type.** In order of the bindings, it has one
property for each whose symbol the table knows; its fragment is that of an expander that has
expanded nothing else. Every other binding is reported once, and the symbols asked for are those of
all bindings that have one. -/
theorem assemble_of_table (table : Text → Option Text) (ds : List Declaration) :
    let bindings := exportsOf ds
    let symbol (b : Binding) : Option Text := b.symbol.filter (· ≠ [])
    let typeOf (b : Binding) : Option Text := (symbol b).bind table
    let document := assemble (ε := ε) (fun symbol => .ok (table symbol)) ds bindings
    (∃ fragments : List (Text × Json),
      document.2 = .ok (.ofFields [("$schema", draft), ("type", .ofString "object"),
        ("properties", .obj fragments)]) ∧
      List.Forall₂ (fun b f => f.1 = b.name ∧ ∃ type, typeOf b = some type ∧
          fragment ((Expander.fresh ds).expand type).1 = .ok f.2)
        (bindings.filter fun b => (typeOf b).isSome) fragments) ∧
    document.1.filterMap Event.line? =
      (bindings.filter fun b => (typeOf b).isNone).map (fun b => skippedLine b.name) ∧
    document.1.filterMap Event.asked? = bindings.filterMap symbol := by
  have hsymbol : symbolOf = fun b => b.symbol.filter (· ≠ []) := funext symbolOf_eq
  have htype : typeIn table = fun b => (b.symbol.filter (· ≠ [])).bind table := by
    funext b
    rw [typeIn, symbolOf_eq]
  intro bindings symbol typeOf document
  obtain ⟨fragments, hcompile, hall⟩ := compile_of_table (ε := ε) table ds bindings
  have hnodup : (Fields.names fragments).Nodup := by
    rw [names_of_forall₂ hall]
    exact (nodup_exportsOf ds).sublist (List.filter_sublist.map _)
  have hdocument : document = (bindings.flatMap (eventsOf table), .ok (ofProperties fragments)) := by
    show assemble _ ds bindings = _
    unfold assemble
    rw [hcompile]
    rfl
  rw [hdocument]
  refine ⟨⟨fragments, ?_, ?_⟩, ?_, ?_⟩
  · rw [ofProperties, Fields.ofList_of_nodup hnodup]
  · unfold IsFragmentOf at hall
    rw [htype] at hall
    exact hall
  · rw [lines_flatMap, htype]
  · rw [asked_flatMap, hsymbol]

end Document

end ExportSchema
