import ExportSchema.Proofs.Bracket.Place
import ExportSchema.Proofs.Bracket.Segment

/-!
# Where a text is cut

The cuts are at the places of the delimiters at the top level, as many as the limit allows, from the
left. Cutting at some delimiters and then each part at others is cutting at all of them.

* `places`, `upTo`: the places of the delimiters, and the first so many.
* `weave`, `charsAt`: texts with characters between them, and the characters at some places.
* `Weaves`: parts with characters between them make a text, and each character falls at its place.

Results:
* `placesFrom_cons`: the places of the delimiters, one character at a time.
* `weaves_splitFrom`: the parts from any place on, with the characters at the cuts between them.
* `split_exact`: the parts are what stands between the cuts, and nothing is lost.
* `splitFrom_union`: the parts at either delimiters are the parts at one in the parts at the other.
* `split_union`: cutting composes, and leaves nothing to cut.
-/

namespace ExportSchema.Bracket

variable {delims : Text}

/-! ## Places of delimiters -/

/-- The places of `t` where a delimiter stands at the top level, from the left. -/
def places (delims t : Text) : List Nat :=
  (List.range t.length).filter fun i => delims.any fun c => Stands t i c 0

/-- The first of `xs`, as many as the limit allows. -/
def upTo {α : Type} : Option Nat → List α → List α
  | none, xs => xs
  | some n, xs => xs.take n

theorem upTo_cons {α : Type} {limit : Option Nat} (h : mayCut limit = true) (x : α) (xs : List α) :
    upTo limit (x :: xs) = x :: upTo (spend limit) xs := by
  cases limit with
  | none => rfl
  | some n =>
    cases n with
    | zero => cases h
    | succ n => rfl

theorem upTo_of_spent {α : Type} {limit : Option Nat} (h : mayCut limit = false) (xs : List α) :
    upTo limit xs = [] := by
  cases limit with
  | none => cases h
  | some n =>
    cases n with
    | zero => rfl
    | succ n => cases h

@[simp] theorem upTo_nil {α : Type} (limit : Option Nat) : upTo limit ([] : List α) = [] := by
  cases limit with
  | none => rfl
  | some n => exact List.take_nil

/-- The places behind `a` in the text that goes on with `b`. -/
def placesFrom (delims a b : Text) : List Nat :=
  (List.range' a.length b.length).filter fun i => delims.any fun c => Stands (a ++ b) i c 0

theorem places_eq (t : Text) : places delims t = placesFrom delims [] t := by
  rw [places, placesFrom, List.range_eq_range']
  rfl

/-- The next character is at a place of a delimiter iff the scan sees one at the top level. -/
theorem placesFrom_cons (a b : Text) (c : Char) :
    placesFrom delims a (c :: b) =
      if (State.start.run a).mark c = some 0 ∧ delims.contains c = true
      then a.length :: placesFrom delims (a ++ [c]) b else placesFrom delims (a ++ [c]) b := by
  have hhere : (delims.any fun x => Stands (a ++ c :: b) a.length x 0) = true ↔
      (State.start.run a).mark c = some 0 ∧ delims.contains c = true := by
    simp only [List.any_eq_true, decide_eq_true_eq, stands_append_cons, List.contains_iff_mem]
    exact ⟨fun ⟨x, hx, hcx, hm⟩ => ⟨hm, hcx ▸ hx⟩, fun ⟨hm, hc⟩ => ⟨c, hc, rfl, hm⟩⟩
  have hrest : placesFrom delims (a ++ [c]) b = (List.range' (a.length + 1) b.length).filter
      fun i => delims.any fun x => Stands (a ++ c :: b) i x 0 := by
    simp [placesFrom]
  rw [hrest, placesFrom, List.length_cons, List.range'_succ, List.filter_cons]
  simp only [hhere]

section Step

variable {a b : Text} {c : Char} {limit : Option Nat}

theorem upTo_placesFrom_of_cut
    (h : (State.start.run a).mark c = some 0 ∧ delims.contains c = true ∧ mayCut limit = true) :
    upTo limit (placesFrom delims a (c :: b)) =
      a.length :: upTo (spend limit) (placesFrom delims (a ++ [c]) b) := by
  rw [placesFrom_cons, if_pos ⟨h.1, h.2.1⟩, upTo_cons h.2.2]

/-- A delimiter that the limit leaves where it is adds no place. -/
theorem upTo_placesFrom_of_keep
    (h : ¬ ((State.start.run a).mark c = some 0 ∧ delims.contains c = true ∧ mayCut limit = true)) :
    upTo limit (placesFrom delims a (c :: b)) =
      upTo limit (placesFrom delims (a ++ [c]) b) := by
  rw [placesFrom_cons]
  split
  · rename_i hdelim
    have hspent : mayCut limit = false := by
      rw [← Bool.not_eq_true]
      exact fun hmay => h ⟨hdelim.1, hdelim.2, hmay⟩
    rw [upTo_of_spent hspent, upTo_of_spent hspent]
  · rfl

end Step

/-! ## Parts with characters between them -/

/-- Texts with characters between them, in turn. -/
def weave : List Text → Text → Text
  | ps, [] => ps.flatten
  | [], c :: cs => c :: cs
  | p :: ps, c :: cs => p ++ c :: weave ps cs

/-- The characters of a text at some places. -/
def charsAt (t : Text) (is : List Nat) : Text := is.filterMap (t[·]?)

theorem weave_cons (c : Char) (p : Text) (ps : List Text) (cs : Text) :
    weave ((c :: p) :: ps) cs = c :: weave (p :: ps) cs := by
  cases cs with
  | nil => rfl
  | cons d cs => rfl

/-- The parts `ps` with the characters `cs` between them are the text `t`, which starts at place `n`,
and the characters fall at the places `is`. -/
structure Weaves (n : Nat) (t : Text) (ps : List Text) (cs : Text) (is : List Nat) : Prop where
  length_eq : ps.length = is.length + 1
  weave_eq : weave ps cs = t
  place_eq : ∀ k (h : k < is.length), n + (weave (ps.take (k + 1)) (cs.take k)).length = is[k]

namespace Weaves

variable {n : Nat} {t p cs : Text} {ps : List Text} {is : List Nat} {c : Char}

theorem nil (n : Nat) : Weaves n [] [[]] [] [] := ⟨rfl, rfl, nofun⟩

/-- A character that is not cut away goes to the first part. -/
theorem cons (h : Weaves (n + 1) t (p :: ps) cs is) (c : Char) :
    Weaves n (c :: t) ((c :: p) :: ps) cs is := by
  refine ⟨h.length_eq, by rw [weave_cons, h.weave_eq], fun k hk => ?_⟩
  rw [← h.place_eq k hk, List.take_succ_cons, List.take_succ_cons, weave_cons, List.length_cons]
  omega

/-- A character that is cut away ends a part. -/
theorem cut (h : Weaves (n + 1) t ps cs is) (c : Char) :
    Weaves n (c :: t) ([] :: ps) (c :: cs) (n :: is) := by
  refine ⟨by simp [h.length_eq], by rw [weave, h.weave_eq]; rfl, fun k hk => ?_⟩
  cases k with
  | zero => rfl
  | succ k =>
    have hk' : k < is.length := Nat.lt_of_succ_lt_succ hk
    rw [List.getElem_cons_succ, ← h.place_eq k hk', List.take_succ_cons, List.take_succ_cons, weave,
      List.nil_append, List.length_cons]
    omega

end Weaves

theorem charsAt_cons (a b : Text) (c : Char) (is : List Nat) :
    charsAt (a ++ c :: b) (a.length :: is) = c :: charsAt (a ++ c :: b) is := by
  simp [charsAt]

/-- **The parts from a place on**, with the characters at the cuts between them. -/
theorem weaves_splitFrom (a b : Text) (limit : Option Nat) :
    Weaves a.length b
      ((splitFrom delims (State.start.run a) limit b).1 ::
        (splitFrom delims (State.start.run a) limit b).2)
      (charsAt (a ++ b) (upTo limit (placesFrom delims a b)))
      (upTo limit (placesFrom delims a b)) := by
  induction b generalizing a limit with
  | nil =>
    have hnone : upTo limit (placesFrom delims a []) = [] := upTo_nil limit
    rw [hnone]
    exact .nil a.length
  | cons c b ih =>
    have hrest := fun limit => ih (a ++ [c]) limit
    simp only [State.run_append, State.run_cons, State.run_nil, List.length_append,
      List.length_singleton, List.append_assoc, List.singleton_append] at hrest
    rw [splitFrom]
    split
    · rename_i hcut
      rw [upTo_placesFrom_of_cut hcut, charsAt_cons]
      exact (hrest (spend limit)).cut c
    · rename_i hkeep
      rw [upTo_placesFrom_of_keep hkeep]
      exact (hrest limit).cons c

/-- **Cutting is exact.** There is one part more than there are cuts. The cuts are at the places of
the delimiters at the top level, as many from the left as the limit allows, and the parts with the
characters from there between them are the text: each of these characters falls at its own place. -/
theorem split_exact (delims t : Text) (limit : Option Nat) :
    let cuts := upTo limit (places delims t)
    let parts := split delims t limit
    parts.length = cuts.length + 1 ∧ weave parts (charsAt t cuts) = t ∧
      ∀ k (h : k < cuts.length),
        (weave (parts.take (k + 1)) ((charsAt t cuts).take k)).length = cuts[k] := by
  have h : Weaves 0 t (split delims t limit) (charsAt t (upTo limit (places delims t)))
      (upTo limit (places delims t)) := by
    rw [places_eq]
    exact weaves_splitFrom [] t limit
  refine ⟨h.length_eq, h.weave_eq, fun k hk => ?_⟩
  rw [← h.place_eq k hk, Nat.zero_add]

/-- The bars in brackets and in the literal are passed over, and the limit leaves the last one. -/
theorem split_exact_of_limit :
    let t := "f(|)|'|'|c|d".toList
    let cuts := upTo (some 2) (places ['|'] t)
    let parts := split ['|'] t (some 2)
    cuts = [4, 8] ∧ ∃ h : 1 < cuts.length,
      (weave (parts.take 2) ((charsAt t cuts).take 1)).length = cuts[1] := by
  intro t cuts parts
  have hcuts : cuts = [4, 8] := by decide +kernel
  have htwo : 1 < cuts.length := by rw [hcuts]; decide
  exact ⟨hcuts, htwo, (split_exact ['|'] t (some 2)).2.2 1 htwo⟩

/-! ## Cutting again -/

theorem splitFrom_keep {s : State} {c : Char} (h : ¬ (s.mark c = some 0 ∧ delims.contains c = true))
    (limit : Option Nat) (t : Text) :
    splitFrom delims s limit (c :: t) =
      (c :: (splitFrom delims (s.step c) limit t).1, (splitFrom delims (s.step c) limit t).2) := by
  rw [splitFrom, if_neg fun hcut => h ⟨hcut.1, hcut.2.1⟩]

/-- **The parts at either delimiters** are the parts at one kind in each part at the other. -/
theorem splitFrom_union {D E F : Text} (hD : ∀ c ∈ D, isOpener c = false)
    (hF : ∀ c, c ∈ F ↔ c ∈ D ∨ c ∈ E) (s : State) (t : Text) :
    splitFrom F s none t =
      ((splitFrom E s none (splitFrom D s none t).1).1,
        (splitFrom E s none (splitFrom D s none t).1).2 ++
          (splitFrom D s none t).2.flatMap (split E · none)) := by
  induction t generalizing s with
  | nil => rfl
  | cons c t ih =>
    have hor : F.contains c = true ↔ D.contains c = true ∨ E.contains c = true := by
      simp only [List.contains_iff_mem, hF]
    have hnext := ih (s.step c)
    by_cases hd : s.mark c = some 0 ∧ D.contains c = true
    · -- the part that starts here is scanned from the start of a text when it is cut again
      obtain ⟨e, he⟩ := step_top_of_mark hd.1 (hD c (List.contains_iff_mem.mp hd.2))
      have hfresh : ∀ p, splitFrom E (s.step c) none p = splitFrom E .start none p := fun p => by
        rw [he, splitFrom_top]
      rw [splitFrom_delim hd.1 (hor.mpr (.inl hd.2)) rfl, splitFrom_delim hd.1 hd.2 rfl]
      simp only [spend, Option.map_none, hnext, hfresh, splitFrom, List.flatMap_cons, split_eq,
        List.nil_append, List.cons_append]
    · rw [splitFrom_keep hd]
      by_cases he : s.mark c = some 0 ∧ E.contains c = true
      · rw [splitFrom_delim he.1 (hor.mpr (.inr he.2)) rfl, splitFrom_delim he.1 he.2 rfl]
        simp only [spend, Option.map_none, hnext, List.cons_append]
      · have hf : ¬ (s.mark c = some 0 ∧ F.contains c = true) := fun hf =>
          (hor.mp hf.2).elim (fun h => hd ⟨hf.1, h⟩) fun h => he ⟨hf.1, h⟩
        rw [splitFrom_keep hf, splitFrom_keep he, hnext]

/-- **Cutting composes.** When no opening bracket is among the first delimiters, the parts at all
delimiters are the parts at the second ones in each of the parts at the first, in order; and a part
is whole for the delimiters that it was cut at. -/
theorem split_union {D E F : Text} (hD : ∀ c ∈ D, isOpener c = false)
    (hF : ∀ c, c ∈ F ↔ c ∈ D ∨ c ∈ E) (t : Text) :
    split F t none = (split D t none).flatMap (split E · none) ∧
      ∀ p ∈ split D t none, split D p none = [p] := by
  refine ⟨?_, fun p hp => split_of_clear (clearFrom_of_mem_split hD hp) none⟩
  rw [split_eq, split_eq, splitFrom_union hD hF, List.flatMap_cons, split_eq]
  rfl

/-- Closing brackets and halves of arrows may be delimiters, in a text that matches nothing. -/
theorem split_union_of_arrow :
    let D := "=>|".toList
    let E := "(,".toList
    let t := "a) => (b| c>, d | e".toList
    (∀ c ∈ D, isOpener c = false) ∧ (∀ c, c ∈ D ++ E ↔ c ∈ D ∨ c ∈ E) ∧
      split (D ++ E) t none = (split D t none).flatMap (split E · none) := by
  intro D E t
  have hD : ∀ c ∈ D, isOpener c = false := by decide
  have hF : ∀ c, c ∈ D ++ E ↔ c ∈ D ∨ c ∈ E := fun c => List.mem_append
  exact ⟨hD, hF, (split_union hD hF t).1⟩

end ExportSchema.Bracket
