import ExportSchema.Number.Reading
import ExportSchema.Proofs.TypeNode.Dispatch

/-!
# Which texts are numbers

* `readFloat?_of_isNumberLiteral`: a number literal is a number.
* `readInt?_of_mem`: a text with a character that no integer holds is no integer.
-/

namespace ExportSchema.Number

open Text (isDigit isBlank)
open Lexeme

/-! ## Number literals are numbers -/

theorem stripWith_eq_self {p : Char → Bool} {t : Text} (h : ∀ c ∈ t, p c = false) :
    Text.stripWith p t = t := by
  have hstart : Text.stripStartWith p t = t := by
    cases t with
    | nil => rfl
    | cons c t => exact List.dropWhile_cons_of_neg (by simp [h c])
  have hend : ∀ u : Text, (∀ c ∈ u, p c = false) → u.dropWhile p = u := by
    intro u hu
    cases u with
    | nil => rfl
    | cons c u => exact List.dropWhile_cons_of_neg (by simp [hu c])
  unfold Text.stripWith
  rw [hstart, Text.stripEndWith, hend t.reverse (fun c hc => h c (List.mem_reverse.mp hc)),
    List.reverse_reverse]

/-- The digits at the start of a text, when no underscore follows them. -/
theorem digitRun_eq {t : Text} (h : (t.dropWhile isDigit).head? ≠ some '_') (after : Bool) :
    ∃ ds, digitRun after t = (ds, t.dropWhile isDigit) ∧
      ds.isEmpty = (t.takeWhile isDigit).isEmpty := by
  induction t generalizing after with
  | nil => exact ⟨[], rfl, rfl⟩
  | cons c t ih =>
    rw [digitRun]
    cases hv : Text.digitValue? c with
    | some d =>
      have hc : isDigit c = true := by simp [isDigit, hv]
      rw [List.dropWhile_cons_of_pos hc] at h ⊢
      obtain ⟨ds, hds, -⟩ := ih h true
      exact ⟨d :: ds, by simp only [hds], by simp [List.takeWhile_cons_of_pos hc]⟩
    | none =>
      have hc : ¬ isDigit c = true := by simp [isDigit, hv]
      rw [List.dropWhile_cons_of_neg hc] at h ⊢
      have hu : ¬ (c = '_' ∧ after = true ∧ t.head?.any isDigit = true) := by
        rintro ⟨rfl, -⟩
        exact h rfl
      exact ⟨[], by simp only [if_neg hu], by simp [List.takeWhile_cons_of_neg hc]⟩

theorem dropWhile_of_all {t : Text} (h : t.all isDigit = true) : t.dropWhile isDigit = [] := by
  rw [List.dropWhile_eq_nil_iff]
  exact List.all_eq_true.mp h

theorem takeWhile_of_all {t : Text} (h : t.all isDigit = true) : t.takeWhile isDigit = t := by
  rw [List.takeWhile_eq_self_iff]
  exact List.all_eq_true.mp h

theorem sign_snd (t : Text) : (sign t).2 = dropSign t := by
  unfold sign
  split
  · rfl
  · rfl
  · rename_i h1 h2
    cases t with
    | nil => rfl
    | cons c t =>
      have hc : ¬ (c = '+' ∨ c = '-') := by
        rintro (rfl | rfl)
        · exact h2 t rfl
        · exact h1 t rfl
      rw [dropSign, if_neg hc]

theorem readExponent?_of_isExponent {t : Text} (h : isExponent t = true) :
    ∃ n, readExponent? t = some n := by
  cases t with
  | nil => exact ⟨0, rfl⟩
  | cons c t =>
    simp only [isExponent, Bool.and_eq_true, Bool.or_eq_true, decide_eq_true_eq] at h
    obtain ⟨hc, hne, hall⟩ := h
    have hdrop := dropWhile_of_all hall
    obtain ⟨ds, hds, hempty⟩ := digitRun_eq (t := dropSign t) (by rw [hdrop]; simp) false
    rw [takeWhile_of_all hall] at hempty
    rw [hdrop, ← sign_snd] at hds
    rw [readExponent?, if_pos hc]
    cases ds with
    | nil =>
      rw [← hempty] at hne
      cases hne
    | cons d ds =>
      simp only [hds]
      exact ⟨_, rfl⟩

theorem head?_of_isExponent {t : Text} (h : isExponent t = true) : t.head? ≠ some '_' := by
  intro hh
  cases t with
  | nil => cases hh
  | cons c t =>
    cases hh
    simp [isExponent] at h

/-- Digits, a point and digits, and an exponent; some digit has to be there. -/
theorem readDecimal?_of_point {t cs : Text} (ht : t.dropWhile isDigit = '.' :: cs)
    (he : isExponent (cs.dropWhile isDigit) = true)
    (hd : (t.takeWhile isDigit).isEmpty = false ∨ (cs.takeWhile isDigit).isEmpty = false)
    (negative : Bool) : ∃ x, readDecimal? negative t = some x := by
  obtain ⟨whole, hwhole, hw⟩ := digitRun_eq (t := t) (by rw [ht]; simp) false
  obtain ⟨fraction, hfraction, hf⟩ := digitRun_eq (head?_of_isExponent he) false
  obtain ⟨n, hn⟩ := readExponent?_of_isExponent he
  rw [ht] at hwhole
  have hsome : (whole.isEmpty && fraction.isEmpty) = false := by
    rw [hw, hf]
    rcases hd with hd | hd
    · rw [hd]; rfl
    · rw [hd, Bool.and_false]
  unfold readDecimal?
  simp only [hwhole, hfraction, hsome, hn]
  exact ⟨_, rfl⟩

theorem readDecimal?_of_isUnsignedNumber {t : Text} (h : isUnsignedNumber t = true)
    (negative : Bool) : ∃ x, readDecimal? negative t = some x := by
  unfold isUnsignedNumber at h
  simp only at h
  by_cases hempty : (t.takeWhile isDigit).isEmpty = true
  · rw [if_pos hempty] at h
    split at h
    · rename_i cs hrest
      simp only [Bool.and_eq_true, Bool.not_eq_true'] at h
      exact readDecimal?_of_point hrest h.2 (Or.inr h.1) negative
    · cases h
  · rw [if_neg hempty] at h
    rw [Bool.not_eq_true] at hempty
    split at h
    · rename_i cs hrest
      exact readDecimal?_of_point hrest h (Or.inl hempty) negative
    · rename_i hpoint
      obtain ⟨whole, hwhole, hw⟩ := digitRun_eq (head?_of_isExponent h) false
      obtain ⟨n, hn⟩ := readExponent?_of_isExponent h
      have hsome : (whole.isEmpty && ([] : List Nat).isEmpty) = false := by rw [hw, hempty]; rfl
      unfold readDecimal?
      simp only [hwhole, hsome, hn]
      exact ⟨_, rfl⟩

theorem isNumberBlank_of_isNumberChar {c : Char} (h : TypeNode.isNumberChar c = true) :
    isNumberBlank c = false := by
  have hblank : isBlank c = false := Text.isBlank_of_class (by decide) h
  simp [isNumberBlank, hblank]

/-- A number literal without its minus sign. -/
theorem sign_of_isNumberLiteral {t : Text} (h : isNumberLiteral t = true) :
    isUnsignedNumber (sign t).2 = true := by
  unfold isNumberLiteral at h
  split at h
  · exact h
  · rename_i hminus
    unfold sign
    split
    · rename_i cs
      exact absurd rfl (hminus cs)
    · cases h
    · exact h

/-- **A number literal is a number.** -/
theorem readFloat?_of_isNumberLiteral {t : Text} (h : isNumberLiteral t = true) :
    ∃ x, readFloat? t = some x := by
  have hstrip : Text.stripWith isNumberBlank t = t :=
    stripWith_eq_self fun c hc =>
      isNumberBlank_of_isNumberChar (TypeNode.chars_of_isNumberLiteral h c hc)
  obtain ⟨x, hx⟩ := readDecimal?_of_isUnsignedNumber (sign_of_isNumberLiteral h) (sign t).1
  unfold readFloat?
  simp only [hstrip]
  split
  · exact ⟨_, rfl⟩
  · split
    · exact ⟨_, rfl⟩
    · exact ⟨x, hx⟩

/-! ## Texts that are no integers -/

theorem mem_dropWhile {p : Char → Bool} {t : Text} {c : Char} (hc : p c = false) (h : c ∈ t) :
    c ∈ t.dropWhile p := by
  rw [← List.takeWhile_append_dropWhile (p := p) (l := t)] at h
  refine (List.mem_append.mp h).resolve_left fun hmem => ?_
  rw [List.mem_takeWhile_imp hmem] at hc
  cases hc

theorem mem_stripWith {p : Char → Bool} {t : Text} {c : Char} (hc : p c = false) (h : c ∈ t) :
    c ∈ Text.stripWith p t :=
  List.mem_reverse.mpr (mem_dropWhile hc (List.mem_reverse.mpr (mem_dropWhile hc h)))

theorem mem_sign {t : Text} {c : Char} (hminus : c ≠ '-') (hplus : c ≠ '+') (h : c ∈ t) :
    c ∈ (sign t).2 := by
  unfold sign
  split
  · exact (List.mem_cons.mp h).resolve_left hminus
  · exact (List.mem_cons.mp h).resolve_left hplus
  · exact h

/-- A character that is neither digit nor underscore is left over. -/
theorem mem_digitRun {t : Text} {c : Char} (hc : isDigit c = false) (hu : c ≠ '_') (h : c ∈ t)
    (after : Bool) : c ∈ (digitRun after t).2 := by
  induction t generalizing after with
  | nil => cases h
  | cons b t ih =>
    rw [digitRun]
    cases hv : Text.digitValue? b with
    | some d =>
      have hb : c ≠ b := by
        rintro rfl
        simp [isDigit, hv] at hc
      exact ih ((List.mem_cons.mp h).resolve_left hb) true
    | none =>
      by_cases hunder : b = '_' ∧ after = true ∧ t.head?.any isDigit = true
      · simp only [if_pos hunder]
        exact ih ((List.mem_cons.mp h).resolve_left (hunder.1 ▸ hu)) false
      · simp only [if_neg hunder]
        exact h

/-- A character that no integer holds. -/
def isForeign (c : Char) : Bool :=
  !isDigit c && !isNumberBlank c && c ≠ '_' && c ≠ '+' && c ≠ '-'

/-- **A text with a character that no integer holds** is no integer. -/
theorem readInt?_of_mem {t : Text} {c : Char} (hc : isForeign c = true) (h : c ∈ t) :
    readInt? t = none := by
  simp only [isForeign, Bool.and_eq_true, Bool.not_eq_true', decide_eq_true_eq] at hc
  obtain ⟨⟨⟨⟨hdigit, hblank⟩, hu⟩, hplus⟩, hminus⟩ := hc
  have hrest := mem_digitRun hdigit hu (mem_sign hminus hplus (mem_stripWith hblank h)) false
  unfold readInt?
  simp only
  generalize digitRun false (sign (Text.stripWith isNumberBlank t)).2 = run at hrest
  obtain ⟨ds, rest⟩ := run
  cases rest with
  | nil => cases hrest
  | cons b rest => cases ds <;> rfl

end ExportSchema.Number
