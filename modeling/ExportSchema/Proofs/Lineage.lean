import ExportSchema.Proofs.Fields
import Mathlib.Logic.Relation

/-!
# Lineages

Named declarations build on each other, as interfaces do on their parents. The lineage of a name
goes through the names that it builds on, one after the other, each with its own lineage, and ends
with the name itself. A name that is met again on the way up gives nothing.

* `parents?`, `Up`: the names that a name builds on.
* `lineage`: all the names above a name, and the name itself last.
* `firsts`: the names of a list, each only where it comes first.

Results:
* `lineage_congr`: of the names that were met, only those above count.
* `lineage_of_acyclic`: where no name is above itself, no name is left out.
* `lineage_subset`: the lineage of a name above is in the lineage.
* `firsts_append`: the names in front count as seen behind them.
-/

namespace ExportSchema

open Fields (pending pending_cons_lt)
open Relation (ReflTransGen TransGen)

variable {α : Type} {fs : Fields α} {up : α → Option (List Text)}

/-- The names that a name builds on, where `up` tells those of a declaration. -/
def parents? (fs : Fields α) (up : α → Option (List Text)) (n : Text) : Option (List Text) :=
  (fs.lookup n).bind up

/-- The name `n` builds on `p`. -/
def Up (fs : Fields α) (up : α → Option (List Text)) (n p : Text) : Prop :=
  ∃ ps, parents? fs up n = some ps ∧ p ∈ ps

theorem pending_of_parents? {below : List Text} {n : Text} {ps : List Text}
    (h : parents? fs up n = some ps) (hn : ¬ n ∈ below) :
    pending fs (n :: below) < pending fs below := by
  obtain ⟨x, hx, -⟩ := Option.bind_eq_some_iff.mp h
  exact pending_cons_lt hx (by simpa using hn)

/-- The names that a name builds on, each behind its own lineage, and the name itself last. The
names of `below` were met on the way up. -/
def lineage (fs : Fields α) (up : α → Option (List Text)) (below : List Text) (n : Text) :
    List Text :=
  if _ : n ∈ below then []
  else
    match _ : parents? fs up n with
    | none => []
    | some ps => (ps.flatMap fun p => lineage fs up (n :: below) p) ++ [n]
termination_by pending fs below
decreasing_by exact pending_of_parents? ‹_› ‹_›

variable {below : List Text} {n p x : Text} {ps : List Text}

theorem lineage_of_met (h : n ∈ below) : lineage fs up below n = [] := by
  rw [lineage, dif_pos h]

theorem lineage_of_none (h : parents? fs up n = none) : lineage fs up below n = [] := by
  rw [lineage]
  split
  · rfl
  · split
    · rfl
    · rename_i hps
      cases h.symm.trans hps

theorem lineage_of_some (h : parents? fs up n = some ps) (hn : n ∉ below) :
    lineage fs up below n = (ps.flatMap fun p => lineage fs up (n :: below) p) ++ [n] := by
  rw [lineage, dif_neg hn]
  split
  · rename_i hnone
    cases h.symm.trans hnone
  · rename_i hps
    cases h.symm.trans hps
    rfl

/-- What holds of a name when it holds of the names that it builds on holds of every name. -/
theorem lineage_induction (fs : Fields α) (up : α → Option (List Text))
    {P : List Text → Text → Prop} (met : ∀ below n, n ∈ below → P below n)
    (top : ∀ below n, n ∉ below → parents? fs up n = none → P below n)
    (step : ∀ below n ps, n ∉ below → parents? fs up n = some ps →
      (∀ p ∈ ps, P (n :: below) p) → P below n) (below : List Text) (n : Text) : P below n := by
  induction hk : pending fs below using Nat.strongRecOn generalizing below n with
  | ind k ih =>
    by_cases hn : n ∈ below
    · exact met below n hn
    · cases h : parents? fs up n with
      | none => exact top below n hn h
      | some ps =>
        refine step below n ps hn h fun p _ => ?_
        exact ih _ (hk ▸ pending_of_parents? h hn) (n :: below) p rfl

/-- Only names above a name are in its lineage. -/
theorem reflTransGen_of_mem (below : List Text) (n : Text) :
    ∀ x ∈ lineage fs up below n, ReflTransGen (Up fs up) n x := by
  induction below, n using lineage_induction fs up with
  | met below n hn => simp [lineage_of_met hn]
  | top below n hn h => simp [lineage_of_none h]
  | step below n ps hn h ih =>
    intro x hx
    rw [lineage_of_some h hn] at hx
    rcases List.mem_append.mp hx with hx | hx
    · obtain ⟨p, hp, hx⟩ := List.mem_flatMap.mp hx
      exact .head ⟨ps, h, hp⟩ (ih p hp x hx)
    · obtain rfl := List.mem_singleton.mp hx
      exact .refl

/-- **Of the names that were met, only those above count.** -/
theorem lineage_congr (below : List Text) (n : Text) :
    ∀ below', (∀ p, ReflTransGen (Up fs up) n p → (p ∈ below ↔ p ∈ below')) →
      lineage fs up below n = lineage fs up below' n := by
  induction below, n using lineage_induction fs up with
  | met below n hn =>
    intro below' hsame
    rw [lineage_of_met hn, lineage_of_met ((hsame n .refl).mp hn)]
  | top below n hn h =>
    intro below' _
    rw [lineage_of_none h, lineage_of_none h]
  | step below n ps hn h ih =>
    intro below' hsame
    rw [lineage_of_some h hn, lineage_of_some h fun hn' => hn ((hsame n .refl).mpr hn')]
    refine congrArg (· ++ [n]) (List.flatMap_congr fun p hp => ?_)
    refine ih p hp (n :: below') fun q hq => ?_
    rw [List.mem_cons, List.mem_cons, hsame q (.head ⟨ps, h, hp⟩ hq)]

section Acyclic

variable (hac : ∀ n, ¬ TransGen (Up fs up) n n)
include hac

/-- A name that is met on the way up to its parents is not met again. -/
theorem lineage_cons (h : parents? fs up n = some ps) (hp : p ∈ ps) :
    lineage fs up [n] p = lineage fs up [] p := by
  refine lineage_congr [n] p [] fun q hq => iff_of_false ?_ List.not_mem_nil
  intro hmem
  obtain rfl := List.mem_singleton.mp hmem
  exact hac q (.head' ⟨ps, h, hp⟩ hq)

/-- **Where no name is above itself, no name is left out.** -/
theorem lineage_of_acyclic (h : parents? fs up n = some ps) :
    lineage fs up [] n = (ps.flatMap fun p => lineage fs up [] p) ++ [n] := by
  rw [lineage_of_some h List.not_mem_nil, List.flatMap_congr fun p hp => lineage_cons hac h hp]

/-- A name is not among the names above it. -/
theorem not_mem_above (h : parents? fs up n = some ps) :
    n ∉ ps.flatMap fun p => lineage fs up [] p := by
  intro hn
  obtain ⟨p, hp, hn⟩ := List.mem_flatMap.mp hn
  exact hac n (.head' ⟨ps, h, hp⟩ (reflTransGen_of_mem [] p n hn))

theorem lineage_subset_below (below : List Text) (n : Text) :
    (∀ p, ReflTransGen (Up fs up) n p → p ∉ below) →
      ∀ x ∈ lineage fs up below n, ∀ y ∈ lineage fs up [] x, y ∈ lineage fs up below n := by
  induction below, n using lineage_induction fs up with
  | met below n hn => simp [lineage_of_met hn]
  | top below n hn h => simp [lineage_of_none h]
  | step below n ps hn h ih =>
    intro hfree x hx y hy
    have hsame : lineage fs up below n = lineage fs up [] n :=
      lineage_congr below n [] fun q hq => iff_of_false (hfree q hq) List.not_mem_nil
    rw [lineage_of_some h hn] at hx
    rcases List.mem_append.mp hx with hx | hx
    · obtain ⟨p, hp, hx⟩ := List.mem_flatMap.mp hx
      have hfree' : ∀ q, ReflTransGen (Up fs up) p q → q ∉ n :: below := by
        intro q hq hmem
        rcases List.mem_cons.mp hmem with rfl | hmem
        · exact hac q (.head' ⟨ps, h, hp⟩ hq)
        · exact hfree q (.head ⟨ps, h, hp⟩ hq) hmem
      rw [lineage_of_some h hn]
      exact List.mem_append_left _ (List.mem_flatMap.mpr ⟨p, hp, ih p hp hfree' x hx y hy⟩)
    · obtain rfl := List.mem_singleton.mp hx
      rw [hsame]
      exact hy

/-- **The lineage of a name above is in the lineage.** -/
theorem lineage_subset {y : Text} (hx : x ∈ lineage fs up [] n) (hy : y ∈ lineage fs up [] x) :
    y ∈ lineage fs up [] n :=
  lineage_subset_below hac [] n (fun _ _ => List.not_mem_nil) x hx y hy

end Acyclic

/-! ## First visits -/

/-- The names of a list that are not in `seen`, each only where it comes first. -/
def firsts (seen l : List Text) : List Text := (l.removeAll seen).eraseDups

variable {seen seen' l : List Text}

theorem firsts_congr (h : ∀ p ∈ l, (p ∈ seen ↔ p ∈ seen')) : firsts seen l = firsts seen' l := by
  have hfilter : l.removeAll seen = l.removeAll seen' := by
    refine List.filter_congr fun p hp => congrArg not ?_
    rw [Bool.eq_iff_iff, List.elem_iff, List.elem_iff]
    exact h p hp
  unfold firsts
  rw [hfilter]

theorem firsts_of_subset (h : ∀ p ∈ l, p ∈ seen) : firsts seen l = [] := by
  have hnil : l.removeAll seen = [] :=
    List.filter_eq_nil_iff.mpr fun p hp => by simpa using h p hp
  unfold firsts
  rw [hnil, List.eraseDups_nil]

theorem firsts_singleton (h : p ∉ seen) : firsts seen [p] = [p] := by
  unfold firsts
  rw [List.cons_removeAll, if_pos (by simpa using h)]
  rfl

theorem eraseDups_of_nodup (h : l.Nodup) : l.eraseDups = l := by
  induction l with
  | nil => exact List.eraseDups_nil
  | cons p l ih =>
    obtain ⟨hp, hl⟩ := List.nodup_cons.mp h
    have hfilter : l.filter (fun q => !q == p) = l := by
      refine List.filter_eq_self.mpr fun q hq => ?_
      have hne : q ≠ p := fun h => hp (h ▸ hq)
      simpa using hne
    rw [List.eraseDups_cons, hfilter, ih hl]

theorem firsts_nil (l : List Text) : firsts [] l = l.eraseDups :=
  congrArg List.eraseDups List.removeAll_nil

/-- **The names in front count as seen behind them.** -/
theorem firsts_append (seen as bs : List Text) :
    firsts seen (as ++ bs) = firsts seen as ++ firsts (seen ++ as) bs := by
  have hrest : (bs.removeAll seen).removeAll (as.removeAll seen) = bs.removeAll (seen ++ as) := by
    unfold List.removeAll
    rw [List.filter_filter]
    refine List.filter_congr fun p _ => ?_
    by_cases hp : p ∈ seen <;> simp [hp]
  unfold firsts
  rw [show (as ++ bs).removeAll seen = as.removeAll seen ++ bs.removeAll seen from
    List.filter_append .., List.eraseDups_append, hrest]

end ExportSchema
