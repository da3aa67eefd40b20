import ExportSchema.Text.Basic
import Mathlib.Data.List.Infix

/-!
# Cutting and joining texts

Cutting a text at a character and joining the pieces are the library's `List.splitOn` and
`List.intercalate`. What stands before the first separator is determined by the text.

Results:
* `splitOn_append`, `splitOn_join`: the pieces of texts with separators between them.
* `not_mem_of_mem_splitOn`: no piece holds the separator.
* `cut?_append`, `append_inj_of_not_mem`: the first separator cuts a text in one way.
* `takeWhile_append_sep`, `dropWhile_append_sep`: what stands before it, and the text from it on.
* `hasPiece_iff`, `startsWith_iff`: occurrences as sublists.
* `replaceFirst_append`, `replaceFirst_piece`: the first occurrence of a pattern is replaced.
-/

namespace ExportSchema.Text

variable {sep : Char} {a b t : Text}

/-! ## Pieces -/

theorem splitOn_eq (sep : Char) (t : Text) : splitOn sep t = List.splitOn sep t := by
  induction t with
  | nil => rfl
  | cons c t ih =>
    rw [List.splitOn_cons_eq_if_modifyHead, ← ih]
    unfold splitOn splitWhere
    rw [pieces]
    by_cases hc : c = sep
    · simp [hc]
    · simp [hc]

theorem join_eq (sep : Text) (ps : List Text) : join sep ps = sep.intercalate ps := by
  induction ps with
  | nil => rfl
  | cons p ps ih =>
    cases ps with
    | nil => rw [join, List.intercalate_singleton]
    | cons q ps => rw [join, ih, List.intercalate_cons_cons]

theorem splitOn_append (a b : Text) :
    splitOn sep (a ++ sep :: b) = splitOn sep a ++ splitOn sep b := by
  simp only [splitOn_eq, List.splitOn_append_cons_self]

/-- **Joined pieces are found again** when they hold no separator. -/
theorem splitOn_join {ps : List Text} (hne : ps ≠ []) (h : ∀ p ∈ ps, sep ∉ p) :
    splitOn sep (join [sep] ps) = ps := by
  rw [splitOn_eq, join_eq, List.splitOn_intercalate sep h hne]

theorem not_mem_of_mem_splitOn {p : Text} (h : p ∈ splitOn sep t) : sep ∉ p := by
  induction t generalizing p with
  | nil =>
    obtain rfl := List.mem_singleton.mp h
    exact List.not_mem_nil
  | cons c t ih =>
    unfold splitOn splitWhere at h ih
    rw [pieces] at h
    by_cases hc : c = sep
    · simp only [hc, decide_true, if_true] at h
      rcases List.mem_cons.mp h with rfl | h
      · exact List.not_mem_nil
      · exact ih h
    · simp only [hc, decide_false, Bool.false_eq_true, if_false] at h
      rcases List.mem_cons.mp h with rfl | h
      · exact List.not_mem_cons_of_ne_of_not_mem (Ne.symm hc) (ih List.mem_cons_self)
      · exact ih (List.mem_cons_of_mem _ h)

/-! ## The first separator -/

theorem cut?_of_not_mem (h : sep ∉ t) : cut? sep t = none := by
  induction t with
  | nil => rfl
  | cons c t ih =>
    have hc : c ≠ sep := Ne.symm (List.ne_of_not_mem_cons h)
    rw [cut?, if_neg hc, ih (List.not_mem_of_not_mem_cons h)]
    rfl

theorem cut?_append (h : sep ∉ a) (b : Text) : cut? sep (a ++ sep :: b) = some (a, b) := by
  induction a with
  | nil => simp [cut?]
  | cons c a ih =>
    have hc : c ≠ sep := Ne.symm (List.ne_of_not_mem_cons h)
    rw [List.cons_append, cut?, if_neg hc, ih (List.not_mem_of_not_mem_cons h)]
    rfl

theorem takeWhile_append_sep (h : sep ∉ a) (b : Text) :
    (a ++ sep :: b).takeWhile (· ≠ sep) = a := by
  have hne : ∀ c ∈ a, c ≠ sep := fun c hc he => h (he ▸ hc)
  rw [List.takeWhile_append_of_pos (by simpa using hne), List.takeWhile_cons_of_neg (by simp),
    List.append_nil]

theorem dropWhile_append_sep (h : sep ∉ a) (b : Text) :
    (a ++ sep :: b).dropWhile (· ≠ sep) = sep :: b := by
  have hne : ∀ c ∈ a, c ≠ sep := fun c hc he => h (he ▸ hc)
  rw [List.dropWhile_append_of_pos (by simpa using hne), List.dropWhile_cons_of_neg (by simp)]

/-- **The first separator cuts a text in one way.** -/
theorem append_inj_of_not_mem {x y : Text} (ha : sep ∉ a) (hb : sep ∉ b)
    (h : a ++ sep :: x = b ++ sep :: y) : a = b ∧ x = y := by
  have hcut := congrArg (cut? sep) h
  rw [cut?_append ha, cut?_append hb] at hcut
  simpa using hcut

/-! ## Occurrences -/

theorem startsWith_iff {head : Text} : startsWith head t = true ↔ head <+: t :=
  List.isPrefixOf_iff_prefix

theorem startsWith_singleton_iff {c : Char} : startsWith [c] t = true ↔ t.head? = some c := by
  rw [startsWith_iff]
  cases t with
  | nil => simp
  | cons d t => simp [eq_comm]

theorem hasPiece_iff {piece : Text} : hasPiece piece t = true ↔ piece <:+: t := by
  induction t with
  | nil => rw [hasPiece, List.isEmpty_iff, List.infix_nil]
  | cons c t ih => rw [hasPiece, Bool.or_eq_true, startsWith_iff, ih, List.infix_cons_iff]

/-- A text that does not hold the first character of a pattern stays in front. -/
theorem replaceFirst_append {c : Char} (old new : Text) (h : c ∉ a) (t : Text) :
    replaceFirst (c :: old) new (a ++ t) = a ++ replaceFirst (c :: old) new t := by
  induction a with
  | nil => rfl
  | cons d a ih =>
    have hd : c ≠ d := List.ne_of_not_mem_cons h
    have hafter : after? (c :: old) (d :: (a ++ t)) = none := by
      simp [after?, List.isPrefixOf?, hd]
    rw [List.cons_append, replaceFirst, hafter, ih (List.not_mem_of_not_mem_cons h),
      List.cons_append]

theorem replaceFirst_piece (c : Char) (old new t : Text) :
    replaceFirst (c :: old) new (c :: old ++ t) = new ++ t := by
  have hafter : after? (c :: old) (c :: old ++ t) = some t :=
    List.isPrefixOf?_eq_some_iff_append_eq.mpr rfl
  rw [List.cons_append] at hafter ⊢
  rw [replaceFirst, hafter]

end ExportSchema.Text
