import ExportSchema.Text.Blank
import Mathlib.Data.List.DropRight

/-!
# Trimming

`trim` drops the blanks at both ends of a text. A text is trimmed iff neither of its ends is a
blank.

Results:
* `trim_trim`: trimming twice is trimming once.
* `trim_cons`, `trim_concat`: a blank at an end does not count.
* `trim_eq_self_iff`: the two ends decide whether a text is trimmed.
* `trim_eq_append`: what trimming drops consists of blanks.
-/

namespace ExportSchema.Text

/-- A check of the characters of a text goes through the text, not through all characters. -/
instance decidableForallMem (p : Char → Prop) [DecidablePred p] (t : Text) :
    Decidable (∀ c ∈ t, p c) :=
  List.decidableBAll p t

/-! ## The two ends -/

theorem trim_eq (t : Text) : trim t = (t.dropWhile isBlank).rdropWhile isBlank := rfl

theorem trimStart_eq (t : Text) : trimStart t = t.dropWhile isBlank := rfl

@[simp] theorem trim_nil : trim [] = [] := rfl

theorem trim_cons {c : Char} (hc : isBlank c = true) (t : Text) : trim (c :: t) = trim t := by
  simp only [trim_eq, List.dropWhile_cons, hc, if_true]

theorem trim_concat {c : Char} (hc : isBlank c = true) (t : Text) : trim (t ++ [c]) = trim t := by
  simp only [trim_eq, List.dropWhile_append]
  split
  · rename_i h
    have : t.dropWhile isBlank = [] := List.isEmpty_iff.mp h
    simp [this, hc]
  · exact List.rdropWhile_concat_pos _ _ _ hc

/-- Blanks in front do not count. -/
theorem trim_append_left {b : Text} (hb : ∀ c ∈ b, isBlank c = true) (t : Text) :
    trim (b ++ t) = trim t := by
  induction b with
  | nil => rfl
  | cons c b ih =>
    rw [List.cons_append, trim_cons (hb c List.mem_cons_self)]
    exact ih fun d hd => hb d (List.mem_cons_of_mem c hd)

/-- Blanks behind do not count. -/
theorem trim_append_right {b : Text} (hb : ∀ c ∈ b, isBlank c = true) (t : Text) :
    trim (t ++ b) = trim t := by
  induction b using List.reverseRecOn with
  | nil => rw [List.append_nil]
  | append_singleton b c ih =>
    rw [← List.append_assoc, trim_concat (hb c (by simp))]
    exact ih fun d hd => hb d (by simp [hd])

/-- A text that starts and ends with a character that is no blank is trimmed. -/
theorem trim_eq_self {t : Text} (hs : ∀ c, t.head? = some c → isBlank c = false)
    (he : ∀ c, t.getLast? = some c → isBlank c = false) : trim t = t := by
  have hd : t.dropWhile isBlank = t := by
    cases t with
    | nil => rfl
    | cons c t => rw [List.dropWhile_cons_of_neg (by simp [hs c rfl])]
  rw [trim_eq, hd]
  refine List.rdropWhile_eq_self_iff.mpr fun hne => ?_
  have := he (t.getLast hne) (List.getLast?_eq_some_getLast hne)
  simp [this]

/-- Between two characters that are no blanks anything may stand. -/
theorem trim_between {a b : Char} (ha : isBlank a = false) (hb : isBlank b = false) (t : Text) :
    trim (a :: (t ++ [b])) = a :: (t ++ [b]) := by
  refine trim_eq_self (fun c hc => ?_) (fun c hc => ?_)
  · cases hc
    exact ha
  · rw [← List.cons_append, List.getLast?_concat] at hc
    cases hc
    exact hb

theorem head?_trim {t : Text} {c : Char} (h : (trim t).head? = some c) : isBlank c = false := by
  rw [trim_eq] at h
  have hpre : (t.dropWhile isBlank).rdropWhile isBlank <+: t.dropWhile isBlank :=
    List.rdropWhile_prefix _ _
  cases hr : (t.dropWhile isBlank).rdropWhile isBlank with
  | nil => rw [hr] at h; cases h
  | cons d u =>
    rw [hr] at h hpre
    obtain ⟨v, hv⟩ := hpre
    have hd : (t.dropWhile isBlank).head? = some d := by rw [← hv]; rfl
    have hne : t.dropWhile isBlank ≠ [] := by rw [← hv]; simp
    have := List.head_dropWhile_not isBlank hne
    rw [List.head?_eq_some_head hne] at hd
    cases hd
    cases h
    exact this

theorem getLast?_trim {t : Text} {c : Char} (h : (trim t).getLast? = some c) :
    isBlank c = false := by
  rw [trim_eq] at h
  have hne : (t.dropWhile isBlank).rdropWhile isBlank ≠ [] := fun e => by rw [e] at h; cases h
  have := List.rdropWhile_last_not isBlank (t.dropWhile isBlank) hne
  rw [List.getLast?_eq_some_getLast hne] at h
  cases h
  simpa using this

/-- **The ends decide**: a text is trimmed iff neither of its ends is a blank. -/
theorem trim_eq_self_iff {t : Text} :
    trim t = t ↔ (∀ c, t.head? = some c → isBlank c = false) ∧
      (∀ c, t.getLast? = some c → isBlank c = false) :=
  ⟨fun h => ⟨fun _ hc => head?_trim (h.symm ▸ hc), fun _ hc => getLast?_trim (h.symm ▸ hc)⟩,
    fun h => trim_eq_self h.1 h.2⟩

@[simp] theorem trim_trim (t : Text) : trim (trim t) = trim t :=
  trim_eq_self (fun _ h => head?_trim h) (fun _ h => getLast?_trim h)

/-- What trimming drops consists of blanks. -/
theorem trim_eq_append (t : Text) :
    ∃ a b, t = a ++ trim t ++ b ∧ (∀ c ∈ a, isBlank c = true) ∧ (∀ c ∈ b, isBlank c = true) := by
  refine ⟨t.takeWhile isBlank, (t.dropWhile isBlank).rtakeWhile isBlank, ?_, fun c hc => ?_,
    fun c hc => ?_⟩
  · rw [trim_eq, List.append_assoc, List.rdropWhile_append_rtakeWhile,
      List.takeWhile_append_dropWhile]
  · exact List.mem_takeWhile_imp hc
  · exact List.mem_rtakeWhile_imp hc

theorem forall_blank_of_trim_eq_nil {t : Text} (h : trim t = []) : ∀ c ∈ t, isBlank c = true := by
  obtain ⟨a, b, ht, ha, hb⟩ := trim_eq_append t
  rw [h, List.append_nil] at ht
  intro c hc
  rw [ht] at hc
  exact (List.mem_append.mp hc).elim (ha c) (hb c)

theorem trim_eq_nil_of_forall {t : Text} (h : ∀ c ∈ t, isBlank c = true) : trim t = [] := by
  have := trim_append_left h []
  rwa [List.append_nil] at this

/-- A text that starts with no blank loses blanks behind it only. -/
theorem trim_eq_append_of_head {t : Text} (h : ∀ c, t.head? = some c → isBlank c = false) :
    ∃ b, t = trim t ++ b ∧ ∀ c ∈ b, isBlank c = true := by
  obtain ⟨a, b, ht, ha, hb⟩ := trim_eq_append t
  cases a with
  | nil => exact ⟨b, ht, hb⟩
  | cons c a =>
    have hc := ha c List.mem_cons_self
    rw [h c (by rw [ht]; rfl)] at hc
    cases hc

theorem trim_ne_nil_of_head {t : Text} {c : Char} (hc : t.head? = some c)
    (hb : isBlank c = false) : trim t ≠ [] := by
  intro h
  have := forall_blank_of_trim_eq_nil h c (List.mem_of_head? hc)
  rw [hb] at this
  cases this

/-- Behind text that starts with no blank, the blanks at the end are those of the second text. -/
theorem trim_append {a t : Text} {c : Char} (ha : ∀ c, a.head? = some c → isBlank c = false)
    (hc : t.head? = some c) (hb : isBlank c = false) : trim (a ++ t) = a ++ trim t := by
  obtain ⟨b, ht, hblank⟩ := trim_eq_append_of_head (t := t) fun d hd => by
    rw [hc] at hd
    cases hd
    exact hb
  have hne := trim_ne_nil_of_head hc hb
  have hself : trim (a ++ trim t) = a ++ trim t := by
    refine trim_eq_self (fun d hd => ?_) (fun d hd => ?_)
    · cases a with
      | nil => exact head?_trim hd
      | cons x a => exact ha d hd
    · rw [List.getLast?_append_of_ne_nil _ hne] at hd
      exact getLast?_trim hd
  calc trim (a ++ t) = trim ((a ++ trim t) ++ b) := by rw [List.append_assoc, ← ht]
    _ = trim (a ++ trim t) := trim_append_right hblank _
    _ = a ++ trim t := hself

/-- Behind a character that is no blank, only the blanks at the end of the rest are dropped. -/
theorem trim_cons_eq {c : Char} (hc : isBlank c = false) (t : Text) :
    ∃ u, trim (c :: t) = c :: u ∧ trim u = trim t := by
  obtain ⟨b, ht, hb⟩ := trim_eq_append_of_head (t := c :: t) fun d hd => by
    cases hd
    exact hc
  cases hu : trim (c :: t) with
  | nil => exact absurd hu (trim_ne_nil_of_head rfl hc)
  | cons d u =>
    rw [hu] at ht
    cases ht
    exact ⟨u, rfl, (trim_append_right hb u).symm⟩

/-! ## The blanks -/

/-- The code points of the blanks. -/
def blankCodes : List Nat :=
  [0x9, 0xA, 0xB, 0xC, 0xD, 0x1C, 0x1D, 0x1E, 0x1F, 0x20, 0x85, 0xA0, 0x1680, 0x2000, 0x2001, 0x2002,
    0x2003, 0x2004, 0x2005, 0x2006, 0x2007, 0x2008, 0x2009, 0x200A, 0x2028, 0x2029, 0x202F, 0x205F,
    0x3000]

/-- A run of code points that the list holds. -/
theorem mem_of_run {codes : List Nat} (first count : Nat) {n : Nat}
    (h : ∀ i < count, first + i ∈ codes) (hlo : first ≤ n) (hhi : n < first + count) :
    n ∈ codes := by
  have hmem := h (n - first) (by omega)
  rwa [Nat.add_sub_cancel' hlo] at hmem

theorem mem_blankCodes {c : Char} (h : isBlank c = true) : c.toNat ∈ blankCodes := by
  simp only [isBlank, Bool.or_eq_true, Bool.and_eq_true, decide_eq_true_eq] at h
  rcases h with rfl | (((((((((h | h) | h) | h) | h) | h) | h) | h) | h) | h) | h
  · decide
  · exact mem_of_run 9 5 (by decide) h.1 (Nat.lt_succ_of_le h.2)
  · exact mem_of_run 0x1C 4 (by decide) h.1 (Nat.lt_succ_of_le h.2)
  · rw [h]; decide
  · rw [h]; decide
  · rw [h]; decide
  · exact mem_of_run 0x2000 11 (by decide) h.1 (Nat.lt_succ_of_le h.2)
  · rw [h]; decide
  · rw [h]; decide
  · rw [h]; decide
  · rw [h]; decide
  · rw [h]; decide

/-- A character class that holds no blank. -/
theorem isBlank_of_class {p : Char → Bool} (hp : ∀ n ∈ blankCodes, p (Char.ofNat n) = false)
    {c : Char} (h : p c = true) : isBlank c = false := by
  by_contra hc
  rw [Bool.not_eq_false] at hc
  have hn := hp c.toNat (mem_blankCodes hc)
  rw [Char.ofNat_toNat, h] at hn
  cases hn

/-! ## Lengths -/

theorem sublist_trim (t : Text) : (trim t).Sublist t := by
  obtain ⟨a, b, h, -, -⟩ := trim_eq_append t
  have hsub : (trim t).Sublist (a ++ trim t ++ b) :=
    (List.sublist_append_right a _).trans (List.sublist_append_left _ b)
  rwa [← h] at hsub

theorem length_trim_le (t : Text) : (trim t).length ≤ t.length := (sublist_trim t).length_le

end ExportSchema.Text
