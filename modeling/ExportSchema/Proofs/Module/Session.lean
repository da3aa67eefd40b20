import ExportSchema.Proofs.Module.Rule
import Mathlib.Data.List.Forall2

/-!
# Answers do not depend on what was asked before

However the expressions, interfaces and symbols of a module refer to each other, every query on a
session comes to an end, and it leaves the record of names as it was. So each answer is the one that
a new session gives.

From one name to the next the work goes down one tree, after it went through interfaces that it had
not seen; and each name is added to the record, where it may stand once. The ticks that a name needs
are therefore bounded by the names that are not in the record, times what one name needs.

* `Settles`: what comes of names, expressions and interfaces within some ticks.

Results:
* `settles`: within the ticks that are needed, they have the outcome of the plain rules.
* `Session.ask_eq`, `Session.askAll_eq`: a query gives the type of the name and changes nothing.
* `Session.answers_fresh`: each answer in a row of queries is that of a new session.
-/

namespace ExportSchema.Module

open Fields (pending pending_cons_lt pending_le_length)
open Work (Yields)

variable {symbols : Symbols} {s : List Text}

/-! ## The plain rules -/

theorem pending_mergedDepth_le {infer : Infer (Except Fault)} (depth : Nat) (seen : List Text)
    (t : Tree) (v : Visit) (h : mergedDepth infer symbols depth seen t = .ok v) :
    pending symbols v.seen ≤ pending symbols seen := by
  induction depth generalizing seen t v with
  | zero =>
    cases h
    exact Nat.le_refl _
  | succ depth ih => exact pending_mergedStep_le ih h

theorem interfaceText_eq (infer : Infer (Except Fault)) (t : Tree) :
    interfaceText infer symbols t = do
      return bracedText
        ((← mergedDepth infer symbols (symbols.length + 1) [] t).members.values.map Member.text) := by
  unfold interfaceText mergedMembers
  cases mergedDepth infer symbols (symbols.length + 1) [] t <;> rfl

/-- Only a name that is not declared has no type. -/
theorem typeOfDepth_eq_none_iff (symbols : Symbols) (depth : Nat) (s : List Text) (name : Text) :
    typeOfDepth symbols depth s name = .ok none ↔ symbols.get? name = none := by
  unfold typeOfDepth
  cases symbols.get? name with
  | none => simp
  | some x =>
    refine iff_of_false (fun h => ?_) (by simp)
    dsimp only at h
    split at h
    · cases h
    · cases depth with
      | zero => cases h
      | succ depth =>
        obtain ⟨type, -, hsome⟩ := exists_ok_of_bind h
        cases hsome

/-! ## The clock suffices -/

/-- Within `clock` ticks, names, expressions and interfaces have the outcome of the plain rules. The
ticks that are needed grow with the names that are not in the record. -/
structure Settles (symbols : Symbols) (clock : Nat) : Prop where
  type : ∀ {s d} name, pending symbols s ≤ d → pending symbols s * ticksPerName symbols < clock →
    Yields s (typeAt symbols clock name) (typeOfDepth symbols d s name)
  infer : ∀ {s d h t}, pending symbols s ≤ d → t.height ≤ h →
    pending symbols s * ticksPerName symbols + t.height < clock →
    Yields s (inferAt symbols clock t) (inferDepth (typeOfDepth symbols d s) h t)
  visit : ∀ {s d depth seen t}, pending symbols s ≤ d → t.height ≤ symbolHeight symbols →
    pending symbols seen < depth →
    pending symbols s * ticksPerName symbols + symbolHeight symbols + pending symbols seen + 1 <
      clock →
    Yields s (visitAt symbols clock seen t)
      (mergedDepth (inferType (typeOfDepth symbols d s)) symbols depth seen t)

theorem Settles.infer_succ {clock : Nat} (hc : Settles symbols clock) {d h : Nat} {t : Tree}
    (hd : pending symbols s ≤ d) (hh : t.height ≤ h)
    (hclock : pending symbols s * ticksPerName symbols + t.height < clock + 1) :
    Yields s (inferAt symbols (clock + 1) t) (inferDepth (typeOfDepth symbols d s) h t) := by
  have hpos : 0 < t.height := by rw [Tree.height_eq]; exact Nat.succ_pos _
  obtain ⟨h, rfl⟩ : ∃ k, h = k + 1 := ⟨h - 1, by omega⟩
  refine yields_inferStep (fun u hu => ?_) fun name _ => hc.type name hd (by omega)
  have hlt := Tree.height_lt_of_mem_descendants hu
  exact hc.infer hd (by omega) (by omega)

theorem Settles.visit_succ {clock : Nat} (hc : Settles symbols clock) {d depth : Nat}
    {seen : List Text} {t : Tree} (hd : pending symbols s ≤ d)
    (ht : t.height ≤ symbolHeight symbols) (hdepth : pending symbols seen < depth)
    (hclock : pending symbols s * ticksPerName symbols + symbolHeight symbols +
      pending symbols seen + 1 < clock + 1) :
    Yields s (visitAt symbols (clock + 1) seen t)
      (mergedDepth (inferType (typeOfDepth symbols d s)) symbols depth seen t) := by
  obtain ⟨depth, rfl⟩ : ∃ k, depth = k + 1 := ⟨depth - 1, by omega⟩
  refine yields_mergedStep (fun u hu => ?_) (fun seen' u hlt hu => ?_)
    (pending_mergedDepth_le depth)
  · have hlt := Tree.height_lt_of_mem_descendants hu
    exact hc.infer hd (Nat.le_refl _) (by omega)
  · exact hc.visit hd hu (by omega) (by omega)

theorem Settles.type_succ {clock : Nat} (hc : Settles symbols clock) {d : Nat} (name : Text)
    (hd : pending symbols s ≤ d)
    (hclock : pending symbols s * ticksPerName symbols < clock + 1) :
    Yields s (typeAt symbols (clock + 1) name) (typeOfDepth symbols d s name) := by
  rw [typeAt]
  unfold typeOfDepth
  cases hget : symbols.get? name with
  | none => exact Yields.pure none
  | some x =>
    have hheight := height_le_symbolHeight hget
    refine Yields.get ?_
    cases hin : s.contains name with
    | true => exact Yields.pure _
    | false =>
      have hlt := pending_cons_lt hget hin
      obtain ⟨d, rfl⟩ : ∃ k, d = k + 1 := ⟨d - 1, by omega⟩
      -- the name is one that was not in the record: what it needs is free for the names below
      have hfree : pending symbols (name :: s) * ticksPerName symbols + ticksPerName symbols ≤
          clock := by
        have hmul := Nat.mul_le_mul_right (ticksPerName symbols) hlt
        rw [Nat.succ_mul] at hmul
        omega
      unfold ticksPerName at hfree
      have hnames := pending_le_length symbols []
      refine Yields.recording ?_ hin
      refine Yields.bind (yields_symbolText ?_ ?_) fun type _ => Yields.pure _
      · intro u hu
        have hle := Tree.height_le_of_mem_nodes hu
        exact hc.infer (by omega) (Nat.le_refl _) (by unfold ticksPerName; omega)
      · rw [interfaceText_eq]
        refine Yields.bind ?_ fun v _ => Yields.pure _
        exact hc.visit (by omega) hheight (by omega) (by unfold ticksPerName; omega)

/-- **The clock suffices**, however the symbols of a module refer to each other. -/
theorem settles (symbols : Symbols) (clock : Nat) : Settles symbols clock := by
  induction clock with
  | zero =>
    exact ⟨fun _ _ h => absurd h (Nat.not_lt_zero _), fun _ _ h => absurd h (Nat.not_lt_zero _),
      fun _ _ _ h => absurd h (Nat.not_lt_zero _)⟩
  | succ clock ih => exact ⟨ih.type_succ, ih.infer_succ, ih.visit_succ⟩

/-! ## Queries in a row -/

namespace Session

/-- A query gives the type of the name, and the session is as it was. -/
theorem ask_eq {clock : Nat} (h : clockFor symbols ≤ clock) (name : Text) :
    (fresh symbols).ask clock name = some (typeOf symbols name, fresh symbols) := by
  have hle := pending_le_length symbols []
  have hclock := Nat.mul_le_mul_right (ticksPerName symbols) hle
  have hrun : Yields [] (typeAt symbols clock name) (typeOf symbols name) :=
    (settles symbols clock).type name hle (by unfold clockFor at h; omega)
  unfold Yields RecordT.Keeps at hrun
  unfold ask fresh
  dsimp only
  rw [hrun]
  rfl

theorem askAll_eq {clock : Nat} (h : clockFor symbols ≤ clock) (names : List Text) :
    (fresh symbols).askAll clock names = some (names.map (typeOf symbols), fresh symbols) := by
  induction names with
  | nil => rfl
  | cons name names ih =>
    rw [askAll, ask_eq h]
    dsimp only [Option.bind_eq_bind, Option.bind_some]
    rw [ih]
    rfl

/-- **Every query is answered, and as on a new session.** Whatever the symbols of a module are and
whatever is asked in a row, there are ticks that suffice; the answers stay the same with any more of
them. Each is the answer, or the fault, that the query has on a session in which nothing was asked
before, and only a name that is not declared has none. -/
theorem answers_fresh (symbols : Symbols) (names : List Text) :
    ∃ answers : List Answer,
      (∀ clock, clockFor symbols ≤ clock →
        (fresh symbols).askAll clock names = some (answers, fresh symbols)) ∧
      List.Forall₂ (fun name answer =>
        (∀ clock, clockFor symbols ≤ clock →
          (fresh symbols).ask clock name = some (answer, fresh symbols)) ∧
        (answer = .ok none ↔ symbols.get? name = none)) names answers := by
  refine ⟨names.map (typeOf symbols), fun clock h => askAll_eq h names, ?_⟩
  rw [List.forall₂_map_right_iff, List.forall₂_same]
  intro name _
  exact ⟨fun clock h => ask_eq h name, typeOfDepth_eq_none_iff symbols symbols.length [] name⟩

/-- The variable `a` is an object with the shorthand member `b`; the function `b` has a parameter
with the default value `a`, and returns `a`; the class `k` has no name. -/
theorem answers_fresh_of_mutual :
    let leaf (kind : Kind) (field : Option Field) (text : String) : Tree :=
      ⟨kind, true, field, text.toList, []⟩
    let node (kind : Kind) (field : Option Field) (children : List Tree) : Tree :=
      ⟨kind, true, field, [], children⟩
    let a := node .variableDeclarator none [node .object (some .value)
      [leaf .shorthandPropertyIdentifier none "b"]]
    let b := node .functionDeclaration none
      [node .other (some .parameters) [node .requiredParameter none
        [leaf .identifier (some .pattern) "x", leaf .identifier (some .value) "a"]],
      node .statementBlock (some .body) [node .returnStatement none [leaf .identifier none "a"]]]
    let symbols : Symbols := [("a".toList, ⟨.var, a⟩), ("b".toList, ⟨.function, b⟩),
      ("k".toList, ⟨.classType, node .classDeclaration none []⟩)]
    let answers : List Answer := [.ok (some "\x7b b: (x?: any) => any \x7d".toList),
      .error .noTextNode, .ok (some "(x?: \x7b b: any \x7d) => \x7b b: any \x7d".toList),
      .ok (some "\x7b b: (x?: any) => any \x7d".toList), .ok none]
    (∀ clock, clockFor symbols ≤ clock →
      (fresh symbols).askAll clock (["a", "k", "b", "a", "z"].map String.toList) =
        some (answers, fresh symbols)) ∧
    (∀ clock, clockFor symbols ≤ clock →
      (fresh symbols).ask clock "k".toList = some (.error .noTextNode, fresh symbols)) := by
  intro leaf node a b symbols answers
  obtain ⟨found, hall, heach⟩ :=
    answers_fresh symbols (["a", "k", "b", "a", "z"].map String.toList)
  have hfound : found = answers := by
    have hrun : (fresh symbols).askAll (clockFor symbols)
        (["a", "k", "b", "a", "z"].map String.toList) = some (answers, fresh symbols) := by
      rw [askAll_eq (Nat.le_refl _)]
      rfl
    have h := hall _ (Nat.le_refl _)
    rw [hrun] at h
    exact (congrArg Prod.fst (Option.some.inj h)).symm
  rw [hfound] at hall heach
  have hafter := (List.forall₂_cons.mp heach).2
  exact ⟨hall, (List.forall₂_cons.mp hafter).1.1⟩

end Session

end ExportSchema.Module
