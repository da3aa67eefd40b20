import ExportSchema.Json.Reader
import ExportSchema.Proofs.Number.Reading

/-!
# Integer-valued literals

The numeric literals of a program and the integers that they stand for: decimal digits, with a point
or an exponent or without, and hexadecimal, octal and binary digits, each with single underscores
between digits. Of all these, only decimal digits alone are read as an integer.

* `Digits`, `valueIn`: digits of a base, and the number that they write.
* `IntegerLiteral`: a literal whose value is a natural number.
* `isPlainDecimal`: decimal digits alone, and not too many of them.

Results:
* `readInt?_of_integerLiteral`: an integer-valued literal is read as its value iff it consists of
  decimal digits alone, and not at all otherwise.
-/

namespace ExportSchema.Number

/-! ## Digits -/

/-- The value of a digit of a base. -/
def digitIn? (base : Nat) (c : Char) : Option Nat := (Json.hexValue? c).filter (· < base)

/-- Digits of a base with single underscores between them, and the values of the digits. -/
inductive Digits (base : Nat) : Text → List Nat → Prop
  | last {c : Char} {d : Nat} (hc : digitIn? base c = some d) : Digits base [c] [d]
  | cons {c : Char} {d : Nat} {t : Text} {ds : List Nat} (hc : digitIn? base c = some d)
      (h : Digits base t ds) : Digits base (c :: t) (d :: ds)
  | underscore {c : Char} {d : Nat} {t : Text} {ds : List Nat} (hc : digitIn? base c = some d)
      (h : Digits base t ds) : Digits base (c :: '_' :: t) (d :: ds)

/-- The number that digits of a base write. -/
def valueIn (base : Nat) (ds : List Nat) : Nat := ds.foldl (fun n d => base * n + d) 0

/-- The base that the letter behind a leading zero stands for. -/
def radix? (c : Char) : Option Nat :=
  if c = 'x' ∨ c = 'X' then some 16
  else if c = 'o' ∨ c = 'O' then some 8
  else if c = 'b' ∨ c = 'B' then some 2
  else none

/-! ## Literals -/

/-- The digits before the point, none or without a leading zero. -/
inductive WholePart : Text → List Nat → Prop
  | none : WholePart [] []
  | digits {t : Text} {ds : List Nat} (h : Digits 10 t ds) (hzero : t.head? = some '0' → t = ['0']) :
      WholePart t ds

/-- The point and the digits behind it, which may be none. -/
inductive Fraction : Text → List Nat → Prop
  | none : Fraction [] []
  | point : Fraction ['.'] []
  | digits {t : Text} {ds : List Nat} (h : Digits 10 t ds) : Fraction ('.' :: t) ds

/-- The exponent and its value; no text is the exponent zero. -/
inductive Exponent : Text → Int → Prop
  | none : Exponent [] 0
  | plain {e : Char} {t : Text} {ds : List Nat} (he : e = 'e' ∨ e = 'E') (h : Digits 10 t ds) :
      Exponent (e :: t) (valueIn 10 ds)
  | plus {e : Char} {t : Text} {ds : List Nat} (he : e = 'e' ∨ e = 'E') (h : Digits 10 t ds) :
      Exponent (e :: '+' :: t) (valueIn 10 ds)
  | minus {e : Char} {t : Text} {ds : List Nat} (he : e = 'e' ∨ e = 'E') (h : Digits 10 t ds) :
      Exponent (e :: '-' :: t) (-valueIn 10 ds)

/-- A numeric literal whose value is the natural number `n`. -/
inductive IntegerLiteral : Text → Nat → Prop
  | decimal {t : Text} {ds : List Nat} (h : Digits 10 t ds) (hzero : t.head? = some '0' → t = ['0']) :
      IntegerLiteral t (valueIn 10 ds)
  | radix {x : Char} {base : Nat} {t : Text} {ds : List Nat} (hx : radix? x = some base)
      (h : Digits base t ds) : IntegerLiteral ('0' :: x :: t) (valueIn base ds)
  /-- With a point or an exponent. The digits, as one number, are to be scaled by a power of ten. -/
  | scaled {whole fraction exponent : Text} {ws fs : List Nat} {e : Int} {n : Nat}
      (hwhole : WholePart whole ws) (hfraction : Fraction fraction fs)
      (hexponent : Exponent exponent e) (hdigits : ws ≠ [] ∨ fs ≠ [])
      (hform : fraction ≠ [] ∨ exponent ≠ [])
      (hvalue : n * Nat.pow 10 (fs.length + (-e).toNat) =
        valueIn 10 (ws ++ fs) * Nat.pow 10 e.toNat) :
      IntegerLiteral (whole ++ fraction ++ exponent) n

/-- Decimal digits alone, as many as are converted at most. -/
def isPlainDecimal (t : Text) : Bool :=
  t.all (fun c => c.isDigit || c = '_') && t.countP Char.isDigit ≤ maxDigits

/-! ## Reading literals -/

theorem digitValue?_of_digitIn? {c : Char} {d : Nat} (h : digitIn? 10 c = some d) :
    c.isDigit = true ∧ Text.digitValue? c = some d := by
  obtain ⟨hhex, hten⟩ := Option.filter_eq_some_iff.mp h
  have hlt : d < 10 := by simpa using hten
  have hcode : 48 ≤ c.toNat ∧ c.toNat ≤ 57 ∧ c.toNat - 48 = d := by
    unfold Json.hexValue? at hhex
    split at hhex
    · rename_i hc
      exact ⟨hc.1, hc.2, Option.some.inj hhex⟩
    split at hhex
    · rename_i hc
      have hlow : 97 ≤ c.toNat := hc.1
      have := Option.some.inj hhex
      omega
    split at hhex
    · rename_i hc
      have hlow : 65 ≤ c.toNat := hc.1
      have := Option.some.inj hhex
      omega
    · cases hhex
  obtain ⟨hlow, hhigh, rfl⟩ := hcode
  have hsmall : c.toNat < 128 := by omega
  refine ⟨?_, ?_⟩
  · simp only [Char.isDigit, Bool.and_eq_true, decide_eq_true_eq]
    exact ⟨hlow, hhigh⟩
  · unfold Text.digitValue?
    simp only [if_pos hsmall, if_pos (And.intro hlow hhigh)]

theorem isDigit_of_digits {t : Text} {ds : List Nat} (h : Digits 10 t ds) :
    ∃ c rest, t = c :: rest ∧ Text.isDigit c = true := by
  have digit {c : Char} {d : Nat} (hc : digitIn? 10 c = some d) : Text.isDigit c = true := by
    rw [Text.isDigit, (digitValue?_of_digitIn? hc).2, Option.isSome_some]
  cases h with
  | last hc => exact ⟨_, _, rfl, digit hc⟩
  | cons hc => exact ⟨_, _, rfl, digit hc⟩
  | underscore hc => exact ⟨_, _, rfl, digit hc⟩

theorem digitRun_of_digits {t : Text} {ds : List Nat} (h : Digits 10 t ds) (after : Bool) :
    digitRun after t = (ds, []) := by
  induction h generalizing after with
  | last hc =>
    rw [digitRun, (digitValue?_of_digitIn? hc).2]
    rfl
  | cons hc _ ih =>
    rw [digitRun, (digitValue?_of_digitIn? hc).2]
    simp only [ih]
  | underscore hc h ih =>
    obtain ⟨c, rest, rfl, hdigit⟩ := isDigit_of_digits h
    have hunder : digitRun true ('_' :: c :: rest) = digitRun false (c :: rest) := by
      rw [digitRun, show Text.digitValue? '_' = none from rfl]
      exact if_pos ⟨rfl, rfl, hdigit⟩
    rw [digitRun, (digitValue?_of_digitIn? hc).2]
    simp only [hunder, ih]

/-- Digits and underscores only, one digit for each value. -/
theorem chars_of_digits {t : Text} {ds : List Nat} (h : Digits 10 t ds) :
    (∀ c ∈ t, (c.isDigit || c = '_') = true) ∧ t.countP Char.isDigit = ds.length := by
  induction h with
  | last hc => simp [(digitValue?_of_digitIn? hc).1]
  | cons hc _ ih =>
    have hd := (digitValue?_of_digitIn? hc).1
    exact ⟨List.forall_mem_cons.mpr ⟨by simp [hd], ih.1⟩, by
      rw [List.countP_cons_of_pos hd, ih.2, List.length_cons]⟩
  | underscore hc _ ih =>
    have hd := (digitValue?_of_digitIn? hc).1
    refine ⟨List.forall_mem_cons.mpr ⟨by simp [hd], List.forall_mem_cons.mpr ⟨by simp, ih.1⟩⟩, ?_⟩
    rw [List.countP_cons_of_pos hd, List.countP_cons_of_neg (by decide), ih.2, List.length_cons]

/-- **Decimal digits alone** are read as the number that they write, unless there are too many. -/
theorem readInt?_of_digits {t : Text} {ds : List Nat} (h : Digits 10 t ds) :
    readInt? t = if isPlainDecimal t then some (valueIn 10 ds : Int) else none := by
  obtain ⟨hchars, hcount⟩ := chars_of_digits h
  have hstrip : Text.stripWith isNumberBlank t = t := stripWith_eq_self fun c hc => by
    have hblank : Text.isBlank c = false :=
      Text.isBlank_of_class (p := fun c => c.isDigit || c = '_') (by decide) (hchars c hc)
    rw [isNumberBlank, hblank, Bool.false_and]
  have hsign : sign t = (false, t) := by
    obtain ⟨c, rest, rfl, hdigit⟩ := isDigit_of_digits h
    unfold sign
    split
    · rename_i heq
      cases heq
      exact absurd hdigit (by decide)
    · rename_i heq
      cases heq
      exact absurd hdigit (by decide)
    · rfl
  have hplain : isPlainDecimal t = decide (ds.length ≤ maxDigits) := by
    rw [isPlainDecimal, List.all_eq_true.mpr hchars, hcount, Bool.true_and]
  unfold readInt?
  simp only [hstrip, hsign, digitRun_of_digits h, hplain]
  cases ds with
  | nil => cases h
  | cons d ds =>
    by_cases hlong : maxDigits < ds.length + 1
    · have hmany : ¬ (d :: ds).length ≤ maxDigits := Nat.not_le.mpr hlong
      simp only [if_pos hlong, hmany, decide_false, Bool.false_eq_true, if_false]
    · have hfew : (d :: ds).length ≤ maxDigits := Nat.not_lt.mp hlong
      simp only [if_neg hlong, hfew, decide_true, if_true]
      rfl

/-- The characters that only literals with more than digits hold. -/
def formChars : List Char := ".eExXoObB".toList

theorem readInt?_of_formChar {t : Text} {c : Char} (hc : c ∈ formChars) (h : c ∈ t) (n : Nat) :
    readInt? t = if isPlainDecimal t then some (n : Int) else none := by
  have hforeign : ∀ c ∈ formChars, isForeign c = true ∧ ¬ (c.isDigit || c = '_') = true := by
    decide +kernel
  have hplain : ¬ isPlainDecimal t = true := fun hp => by
    rw [isPlainDecimal, Bool.and_eq_true, List.all_eq_true] at hp
    exact (hforeign c hc).2 (hp.1 c h)
  rw [if_neg hplain, readInt?_of_mem (hforeign c hc).1 h]

theorem Fraction.mem_point {t : Text} {fs : List Nat} (h : Fraction t fs) (hne : t ≠ []) :
    '.' ∈ t := by
  cases h with
  | none => exact absurd rfl hne
  | point => exact List.mem_cons_self
  | digits => exact List.mem_cons_self

theorem Exponent.exists_mem {t : Text} {e : Int} (h : Exponent t e) (hne : t ≠ []) :
    ∃ c ∈ formChars, c ∈ t := by
  cases h with
  | none => exact absurd rfl hne
  | plain he | plus he | minus he =>
    refine ⟨_, ?_, List.mem_cons_self⟩
    rcases he with rfl | rfl <;> decide

/-- **An integer-valued literal** is read as its value iff it consists of decimal digits alone, not
too many of them. Otherwise it is not read as an integer. -/
theorem readInt?_of_integerLiteral {t : Text} {n : Nat} (h : IntegerLiteral t n) :
    readInt? t = if isPlainDecimal t then some (n : Int) else none := by
  cases h with
  | decimal h _ => exact readInt?_of_digits h
  | @radix x base u ds hx h =>
    have hmem : x ∈ formChars := by
      unfold radix? at hx
      split at hx
      · rename_i hc
        rcases hc with rfl | rfl <;> decide
      split at hx
      · rename_i hc
        rcases hc with rfl | rfl <;> decide
      split at hx
      · rename_i hc
        rcases hc with rfl | rfl <;> decide
      · cases hx
    exact readInt?_of_formChar hmem (by simp) _
  | @scaled whole fraction exponent ws fs e n hwhole hfraction hexponent hdigits hform hvalue =>
    have hmem : ∃ c ∈ formChars, c ∈ whole ++ fraction ++ exponent := by
      rcases hform with hne | hne
      · exact ⟨'.', by decide, by simp [hfraction.mem_point hne]⟩
      · obtain ⟨c, hc, hce⟩ := hexponent.exists_mem hne
        exact ⟨c, hc, by simp [hce]⟩
    obtain ⟨c, hc, hmem⟩ := hmem
    exact readInt?_of_formChar hc hmem n

end ExportSchema.Number
