import ExportSchema.Proofs.Bracket.TopLevel
import Mathlib.Order.Bounds.Basic

/-!
# The places of a text

The scan of a text sees each character outside string literals together with its place and the
number of brackets around it. What the searches answer is said here by those places alone.

* `Stands`: a character stands at a place outside literals, inside so many brackets.
* `FirstIn`: the answer of a search for the least number of a set.

Results:
* `stands_append_cons`: a place is what stands in front of it.
* `clearFrom_iff_stands`: a text is clear iff no delimiter stands in it inside no brackets.
* `findFrom_firstIn`, `find?_singleton_firstIn`: a search gives the first place.
* `exists_isLeast_of_not_clear`: the first part of a text ends at the first place of a delimiter.
* `searches_agree`: asking for delimiters, cutting at them and searching for each of them agree.
-/

namespace ExportSchema.Bracket

/-- The character `c` stands at place `i` of `t`, outside literals and inside `d` brackets. -/
structure Stands (t : Text) (i : Nat) (c : Char) (d : Nat) : Prop where
  char : t[i]? = some c
  mark : (marks t)[i]? = some (some d)

instance (t : Text) (i : Nat) (c : Char) (d : Nat) : Decidable (Stands t i c d) :=
  decidable_of_iff (t[i]? = some c ∧ (marks t)[i]? = some (some d))
    ⟨fun ⟨hc, hm⟩ => ⟨hc, hm⟩, fun h => ⟨h.char, h.mark⟩⟩

variable {delims t a b : Text} {c x : Char} {i d : Nat}

/-- Nothing stands behind a text. -/
theorem not_stands_past : ¬ Stands (a ++ []) (i + a.length) c d := by
  intro h
  have hlt := (List.getElem?_eq_some_iff.mp h.char).1
  rw [List.append_nil] at hlt
  omega

/-- What stands behind `a` is the next character, if the scan of `a` ends outside literals. -/
theorem stands_append_cons :
    Stands (a ++ c :: b) a.length x d ↔ c = x ∧ (State.start.run a).mark c = some d := by
  have hchar : (a ++ c :: b)[a.length]? = some c := by simp
  have hmark : (marks (a ++ c :: b))[a.length]? = some ((State.start.run a).mark c) := by
    rw [marks, marksFrom_append, List.getElem?_append_right (by simp)]
    simp [marksFrom]
  constructor
  · intro h
    exact ⟨Option.some.inj (hchar.symm.trans h.char), Option.some.inj (hmark.symm.trans h.mark)⟩
  · rintro ⟨rfl, hm⟩
    exact ⟨hchar, hmark.trans (congrArg some hm)⟩

theorem exists_append_of_getElem? (h : t[i]? = some c) : ∃ a b, t = a ++ c :: b ∧ a.length = i := by
  obtain ⟨hlt, hc⟩ := List.getElem?_eq_some_iff.mp h
  refine ⟨t.take i, t.drop (i + 1), ?_, List.length_take_of_le (Nat.le_of_lt hlt)⟩
  rw [← hc, List.getElem_cons_drop, List.take_append_drop]

/-- Every place is what stands in front of it. -/
theorem Stands.exists_append (h : Stands t i c d) :
    ∃ a b, t = a ++ c :: b ∧ a.length = i ∧ (State.start.run a).mark c = some d := by
  obtain ⟨a, b, rfl, rfl⟩ := exists_append_of_getElem? h.char
  exact ⟨a, b, rfl, rfl, (stands_append_cons.mp h).2⟩

/-- What follows a text makes no difference to the places in it. -/
theorem stands_append_left (hi : i < a.length) : Stands (a ++ b) i c d ↔ Stands a i c d := by
  have hchar : (a ++ b)[i]? = a[i]? := List.getElem?_append_left hi
  have hmark : (marks (a ++ b))[i]? = (marks a)[i]? := by
    rw [marks, marksFrom_append, List.getElem?_append_left (by simpa using hi), marks]
  exact ⟨fun h => ⟨hchar ▸ h.char, hmark ▸ h.mark⟩, fun h => ⟨hchar ▸ h.char, hmark ▸ h.mark⟩⟩

/-- **A text is clear of delimiters** iff none stands in it inside no brackets. -/
theorem clearFrom_iff_stands :
    clearFrom delims .start t = true ↔ ∀ i c, Stands t i c 0 → c ∉ delims := by
  constructor
  · intro h i c hs hc
    obtain ⟨a, b, rfl, -, hm⟩ := hs.exists_append
    have hcons := clearFrom_cons.mp (clearFrom_append.mp h).2
    exact hcons.1 ⟨hm, List.contains_iff_mem.mpr hc⟩
  · intro h
    by_contra hnot
    rw [Bool.not_eq_true] at hnot
    obtain ⟨a, c, b, rfl, -, hm, hc⟩ := exists_of_not_clear hnot
    exact h a.length c (stands_append_cons.mpr ⟨rfl, hm⟩) (List.contains_iff_mem.mp hc)

/-! ## First places -/

/-- `r` is the least number of `S`, and `none` when `S` has none. -/
inductive FirstIn (S : Set Nat) : Option Nat → Prop where
  | least {i : Nat} : IsLeast S i → FirstIn S (some i)
  | never : (∀ i, i ∉ S) → FirstIn S none

namespace FirstIn

variable {S : Set Nat} {r : Option Nat}

theorem eq_some_iff (h : FirstIn S r) : r = some i ↔ IsLeast S i := by
  cases h with
  | least hj =>
    refine ⟨fun heq => Option.some.inj heq ▸ hj, fun hi => congrArg some ?_⟩
    exact Nat.le_antisymm (hj.2 hi.1) (hi.2 hj.1)
  | never hno => exact iff_of_false nofun fun hi => hno i hi.1

theorem isSome_iff (h : FirstIn S r) : r.isSome = true ↔ ∃ i, i ∈ S := by
  cases h with
  | least hj => exact iff_of_true rfl ⟨_, hj.1⟩
  | never hno => exact iff_of_false Bool.false_ne_true fun ⟨i, hi⟩ => hno i hi

/-- A search that starts at `n`. -/
theorem shift {n : Nat} (h : ∀ i ∈ S, n ≤ i) (hr : FirstIn {i | i + n ∈ S} r) :
    FirstIn S (r.map (· + n)) := by
  have hback : ∀ i ∈ S, i - n ∈ {i | i + n ∈ S} := fun i hi => by
    rwa [Set.mem_ofPred_eq, Nat.sub_add_cancel (h i hi)]
  cases hr with
  | least hj => exact .least ⟨hj.1, fun i hi => Nat.add_le_of_le_sub (h i hi) (hj.2 (hback i hi))⟩
  | never hno => exact .never fun i hi => hno _ (hback i hi)

/-- A search that stops at once or goes on. -/
theorem cons {p : Prop} [Decidable p] (hp : 0 ∈ S ↔ p) (hr : FirstIn {i | i + 1 ∈ S} r) :
    FirstIn S (if p then some 0 else r.map (· + 1)) := by
  split
  · rename_i h
    exact .least ⟨hp.mpr h, fun i _ => Nat.zero_le i⟩
  · rename_i h
    exact hr.shift fun _ hi => Nat.pos_of_ne_zero fun hz => h (hp.mp (hz ▸ hi))

end FirstIn

/-! ## Searching -/

/-- A search in the rest `b` of a text gives the first place there. -/
theorem findFrom_firstIn (token a b : Text) :
    FirstIn {i | (∃ c, Stands (a ++ b) (i + a.length) c 0) ∧ token <+: b.drop i}
      (findFrom token (State.start.run a) b) := by
  induction b generalizing a with
  | nil => exact .never fun i ⟨⟨c, hs⟩, _⟩ => not_stands_past hs
  | cons c b ih =>
    rw [findFrom]
    refine .cons ?_ ?_
    · simp only [Set.mem_ofPred_eq, Nat.zero_add, stands_append_cons, exists_eq_left',
        List.drop_zero, Text.startsWith, List.isPrefixOf_iff_prefix]
    · have hnext := ih (a ++ [c])
      rw [State.run_append, State.run_cons, State.run_nil] at hnext
      simpa [Nat.add_assoc, Nat.add_comm 1, Set.mem_ofPred_eq] using hnext

/-- **A token is found at the first place of the top level** where it stands. -/
theorem find?_firstIn (token t : Text) :
    FirstIn {i | (∃ c, Stands t i c 0) ∧ token <+: t.drop i} (find? token t) := by
  simpa [find?] using findFrom_firstIn token [] t

/-- A single character is found where it stands first. -/
theorem find?_singleton_firstIn (c : Char) (t : Text) :
    FirstIn {i | Stands t i c 0} (find? [c] t) := by
  have hset : {i | (∃ x, Stands t i x 0) ∧ [c] <+: t.drop i} = {i | Stands t i c 0} := by
    ext i
    constructor
    · rintro ⟨⟨x, hs⟩, rest, hrest⟩
      refine ⟨?_, hs.mark⟩
      rw [← List.head?_drop, ← hrest]
      rfl
    · intro hs
      obtain ⟨a, b, rfl, rfl, -⟩ := hs.exists_append
      exact ⟨⟨c, hs⟩, b, by simp⟩
  exact hset ▸ find?_firstIn [c] t

/-- **The first part ends at the first place of a delimiter.** -/
theorem exists_isLeast_of_not_clear (h : clearFrom delims .start t = false) :
    ∃ first rest, split delims t none = first :: rest ∧
      IsLeast {i | ∃ c ∈ delims, Stands t i c 0} first.length := by
  obtain ⟨a, c, b, rfl, ha, hm, hc⟩ := exists_of_not_clear h
  have hsplit : split delims (a ++ c :: b) none =
      a :: (splitFrom delims (State.start.run a) none (c :: b)).2 := by
    rw [split_eq, splitFrom_append_of_clear ha, splitFrom_delim hm hc rfl, List.append_nil]
  refine ⟨a, _, hsplit, ⟨c, List.contains_iff_mem.mp hc, stands_append_cons.mpr ⟨rfl, hm⟩⟩, ?_⟩
  rintro i ⟨x, hx, hs⟩
  by_contra hlt
  exact clearFrom_iff_stands.mp ha i x ((stands_append_left (Nat.lt_of_not_le hlt)).mp hs) hx

/-- **Asking, cutting and searching agree.** A text has a delimiter at its top level iff one of the
delimiters is found there, and the first part that it is cut into then ends at the first of the
places where one is found. A token is found at the first place outside literals and brackets at
which it stands. -/
theorem searches_agree (delims t : Text) :
    (hasTopLevel delims t = true ↔ ∃ c ∈ delims, (find? [c] t).isSome = true) ∧
    (hasTopLevel delims t = true → ∃ first rest, split delims t none = first :: rest ∧
      IsLeast {i | ∃ c ∈ delims, find? [c] t = some i} first.length) ∧
    ∀ token, FirstIn {i | (∃ c, Stands t i c 0) ∧ token <+: t.drop i} (find? token t) := by
  have hhas : hasTopLevel delims t = true ↔ clearFrom delims .start t = false := by
    rw [hasTopLevel_eq, Bool.not_eq_true']
  have hfound : ∀ c i, find? [c] t = some i ↔ IsLeast {i | Stands t i c 0} i := fun c i =>
    (find?_singleton_firstIn c t).eq_some_iff
  refine ⟨?_, fun h => ?_, fun token => find?_firstIn token t⟩
  · rw [hhas, ← Bool.not_eq_true, clearFrom_iff_stands]
    simp only [(find?_singleton_firstIn _ t).isSome_iff, Set.mem_ofPred_eq]
    push Not
    exact ⟨fun ⟨i, c, hs, hc⟩ => ⟨c, hc, i, hs⟩, fun ⟨c, hc, i, hs⟩ => ⟨i, c, hs, hc⟩⟩
  · obtain ⟨first, rest, hsplit, ⟨c, hc, hs⟩, hleast⟩ := exists_isLeast_of_not_clear (hhas.mp h)
    refine ⟨first, rest, hsplit, ⟨c, hc, (hfound c _).mpr ⟨hs, fun i hi => ?_⟩⟩, ?_⟩
    · exact hleast ⟨c, hc, hi⟩
    · rintro i ⟨x, hx, hi⟩
      exact hleast ⟨x, hx, ((hfound x i).mp hi).1⟩

/-- The bar of the literal and the comma inside the brackets are passed over. -/
theorem searches_agree_of_quoted :
    let t := "\"a|b\" => Map<c, d> | e, f".toList
    let delims := ",|".toList
    (find? [','] t = some 22 ∧ find? ['|'] t = some 19 ∧ hasTopLevel delims t = true) ∧
      ∃ first rest, split delims t none = first :: rest ∧
        IsLeast {i | ∃ c ∈ delims, find? [c] t = some i} first.length := by
  intro t delims
  have hhas : hasTopLevel delims t = true := by decide
  exact ⟨⟨by decide, by decide, hhas⟩, (searches_agree delims t).2.1 hhas⟩

end ExportSchema.Bracket
