import ExportSchema.Json.Reader
import ExportSchema.Json.Writer
import Mathlib.Data.List.TakeWhile

/-!
# Strings in JSON

Between its quotes a string spells code points: a character for itself, a letter behind a backslash,
or four hexadecimal digits behind `\u`. The reader takes exactly such texts, and the writer makes
one of every text.

* `isVerbatim`: a character that stands for itself.
* `Spells`: a text between quotes and the code points that it spells.

Results:
* `stringUnits_eq_ok_iff`: the reader takes what spells code points, up to the closing quote.
* `read?_quoted_iff`: a text in quotes is read iff it spells the code points of a string.
* `read?_quote`: a string that is written reads back.
* `Spells.length_lt`: with a backslash in it, a text spells fewer code points than it has characters.
-/

namespace ExportSchema.Json

/-- A character that stands for itself in a string. -/
def isVerbatim (c : Char) : Bool := c ≠ '"' && c ≠ '\\' && 0x20 ≤ c.toNat

/-- A text between quotes spells these code points. -/
inductive Spells : Text → List Nat → Prop
  | nil : Spells [] []
  | verbatim {c : Char} {body : Text} {us : List Nat} (hc : isVerbatim c = true)
      (h : Spells body us) : Spells (c :: body) (c.toNat :: us)
  | letter {e c : Char} {body : Text} {us : List Nat} (he : escaped? e = some c)
      (h : Spells body us) : Spells ('\\' :: e :: body) (c.toNat :: us)
  | code {a b c d : Char} {n : Nat} {body : Text} {us : List Nat} (hn : hex4? a b c d = some n)
      (h : Spells body us) : Spells ('\\' :: 'u' :: a :: b :: c :: d :: body) (n :: us)

theorem isVerbatim_iff {c : Char} :
    isVerbatim c = true ↔ c ≠ '"' ∧ c ≠ '\\' ∧ 0x20 ≤ c.toNat := by
  simp [isVerbatim, and_assoc]

/-! ## Reading -/

theorem exists_of_map_eq_ok {α β : Type} {r : Reading α} {f : α × Text → β × Text}
    {found : β × Text} (h : r.map f = .ok found) : ∃ x, r = .ok x ∧ f x = found := by
  cases r with
  | error e => cases h
  | ok x => exact ⟨x, rfl, Except.ok.inj h⟩

theorem Spells.stringUnits {body : Text} {us : List Nat} (h : Spells body us)
    (opened rest : Text) : stringUnits opened (body ++ '"' :: rest) = .ok (us, rest) := by
  induction h with
  | nil =>
    rw [List.nil_append, Json.stringUnits.eq_def]
    rfl
  | @verbatim c body us hc _ ih =>
    obtain ⟨hquote, hslash, hlow⟩ := isVerbatim_iff.mp hc
    rw [List.cons_append, Json.stringUnits.eq_def]
    simp only
    rw [if_neg hquote, if_neg hslash, if_neg (by omega), ih]
    rfl
  | @letter e c body us he _ ih =>
    have hu : e ≠ 'u' := by
      rintro rfl
      cases he
    rw [List.cons_append, List.cons_append, Json.stringUnits.eq_def]
    simp only
    rw [if_neg (by decide), if_pos trivial]
    split
    · rename_i heq
      exact absurd (List.cons.inj heq).1 hu
    · rename_i heq
      exact absurd (List.cons.inj heq).1 hu
    · rename_i heq
      obtain ⟨rfl, rfl⟩ := List.cons.inj heq
      simp only [he, ih]
      rfl
    · rename_i heq
      cases heq
  | @code a b c d n body us hn _ ih =>
    simp only [List.cons_append]
    rw [Json.stringUnits.eq_def]
    simp [hn, ih]
    rfl

theorem exists_spells {opened t rest : Text} {us : List Nat}
    (h : Json.stringUnits opened t = .ok (us, rest)) :
    ∃ body, t = body ++ '"' :: rest ∧ Spells body us := by
  fun_induction Json.stringUnits opened t generalizing us rest with
  | case2 tail =>
    cases h
    exact ⟨[], rfl, .nil⟩
  | case4 a b c d more n hn _ _ ih =>
    obtain ⟨⟨vs, after⟩, hmore, heq⟩ := exists_of_map_eq_ok h
    cases heq
    obtain ⟨body, rfl, hbody⟩ := ih hmore
    exact ⟨_, rfl, .code hn hbody⟩
  | case7 e more _ _ c he _ ih =>
    obtain ⟨⟨vs, after⟩, hmore, heq⟩ := exists_of_map_eq_ok h
    cases heq
    obtain ⟨body, rfl, hbody⟩ := ih hmore
    exact ⟨_, rfl, .letter he hbody⟩
  | case11 c tail hquote hslash hlow ih =>
    obtain ⟨⟨vs, after⟩, hmore, heq⟩ := exists_of_map_eq_ok h
    cases heq
    obtain ⟨body, rfl, hbody⟩ := ih hmore
    exact ⟨_, rfl, .verbatim (isVerbatim_iff.mpr ⟨hquote, hslash, by omega⟩) hbody⟩
  -- in the other cases the text is refused
  | _ => cases h

/-- **The reader takes what spells code points**, up to the closing quote. -/
theorem stringUnits_eq_ok_iff {opened t rest : Text} {us : List Nat} :
    Json.stringUnits opened t = .ok (us, rest) ↔
      ∃ body, t = body ++ '"' :: rest ∧ Spells body us :=
  ⟨exists_spells, fun ⟨_, ht, h⟩ => ht ▸ h.stringUnits opened rest⟩

theorem skip_eq_nil_iff {t : Text} : skip t = [] ↔ ∀ c ∈ t, isSpace c = true :=
  List.dropWhile_eq_nil_iff

/-- A quote with only blanks behind it is the last character. -/
theorem closing_quote_last {a b rest : Text} (h : a ++ ['"'] = b ++ '"' :: rest)
    (hspace : ∀ c ∈ rest, isSpace c = true) : b = a ∧ rest = [] := by
  obtain rfl | ⟨init, c, rfl⟩ := List.eq_nil_or_concat rest
  · exact ⟨(List.append_cancel_right h).symm, rfl⟩
  · have hlast : a ++ ['"'] = (b ++ '"' :: init) ++ [c] := by simpa using h
    obtain ⟨-, hc⟩ := List.append_inj' hlast rfl
    cases hc
    cases hspace '"' (by simp)

theorem read?_eq_some_iff {t : Text} {j : Json} : read? t = some j ↔ read t = .ok j := by
  unfold read?
  cases read t with
  | error e => exact iff_of_false nofun nofun
  | ok j' => exact ⟨fun h => congrArg _ (Option.some.inj h), fun h => congrArg _ (Except.ok.inj h)⟩

/-- A text in quotes is read as a string, with only blanks behind it. -/
theorem read_quoted_eq_ok_iff {body s : Text} : read ('"' :: (body ++ ['"'])) = .ok (.str s) ↔
    ∃ rest, stringBody ('"' :: (body ++ ['"'])) (body ++ ['"']) = .ok (s, rest) ∧
      skip rest = [] := by
  have hskip : skip ('"' :: (body ++ ['"'])) = '"' :: (body ++ ['"']) := rfl
  rw [read, if_neg (by simp), hskip, valueAt]
  cases stringBody ('"' :: (body ++ ['"'])) (body ++ ['"']) with
  | error e => exact iff_of_false nofun fun ⟨_, h, _⟩ => nomatch h
  | ok found =>
    obtain ⟨s', rest⟩ := found
    simp only [Except.map]
    constructor
    · intro h
      split at h
      · rename_i hblank
        cases h
        exact ⟨rest, rfl, hblank⟩
      · cases h
    · rintro ⟨rest', heq, hblank⟩
      cases heq
      rw [hblank]

/-- **A text in quotes is read** iff it spells the code points of the string. -/
theorem read?_quoted_iff {body s : Text} :
    read? ('"' :: (body ++ ['"'])) = some (.str s) ↔ ∃ us, Spells body us ∧ joinUnits us = s := by
  rw [read?_eq_some_iff, read_quoted_eq_ok_iff]
  constructor
  · rintro ⟨rest, hbody, hblank⟩
    obtain ⟨⟨us, rest'⟩, hunits, heq⟩ := exists_of_map_eq_ok hbody
    cases heq
    obtain ⟨body', happ, hspells⟩ := stringUnits_eq_ok_iff.mp hunits
    obtain ⟨rfl, -⟩ := closing_quote_last happ (skip_eq_nil_iff.mp hblank)
    exact ⟨us, hspells, rfl⟩
  · rintro ⟨us, hspells, rfl⟩
    refine ⟨[], ?_, rfl⟩
    rw [stringBody, stringUnits_eq_ok_iff.mpr ⟨body, rfl, hspells⟩]
    rfl

/-! ## Characters and code points -/

/-- No character is half of a surrogate pair. -/
theorem not_surrogate (c : Char) :
    isHighSurrogate c.toNat = false ∧ isLowSurrogate c.toNat = false := by
  have hvalid : c.toNat < 0xD800 ∨ 0xDFFF < c.toNat ∧ c.toNat < 0x110000 := c.valid
  simp only [isHighSurrogate, isLowSurrogate, Bool.and_eq_false_iff, decide_eq_false_iff_not]
  omega

theorem joinUnits_map (s : Text) : joinUnits (s.map Char.toNat) = s := by
  induction s with
  | nil => rfl
  | cons c s ih =>
    obtain ⟨hhigh, hlow⟩ := not_surrogate c
    cases s with
    | nil => simp [joinUnits, hhigh, hlow]
    | cons d s =>
      rw [List.map_cons, List.map_cons, joinUnits, ← List.map_cons, ih]
      simp [hhigh, hlow]

theorem length_joinUnits_le (us : List Nat) : (joinUnits us).length ≤ us.length := by
  fun_induction joinUnits us with
  | case1 => exact Nat.le_refl 0
  | case2 u => exact Nat.le_refl 1
  | case3 u v us _ ih =>
    simp only [List.length_cons]
    omega
  | case4 u v us _ ih =>
    simp only [List.length_cons] at ih ⊢
    omega

/-! ## Texts that spell code points -/

theorem spells_of_verbatim {s : Text} (h : ∀ c ∈ s, isVerbatim c = true) :
    Spells s (s.map Char.toNat) := by
  induction s with
  | nil => exact .nil
  | cons c s ih =>
    obtain ⟨hc, hs⟩ := List.forall_mem_cons.mp h
    exact .verbatim hc (ih hs)

/-- **A string is read up to its closing quote** when its characters stand for themselves. -/
theorem stringBody_verbatim {s : Text} (h : ∀ c ∈ s, isVerbatim c = true) (opened rest : Text) :
    stringBody opened (s ++ '"' :: rest) = .ok (s, rest) := by
  rw [stringBody, (spells_of_verbatim h).stringUnits, Except.map]
  simp only [joinUnits_map]

/-- Without a backslash every character stands for itself. -/
theorem Spells.eq_map {body : Text} {us : List Nat} (h : Spells body us) (hslash : '\\' ∉ body) :
    us = body.map Char.toNat := by
  induction h with
  | nil => rfl
  | verbatim _ _ ih => rw [List.map_cons, ih (List.not_mem_of_not_mem_cons hslash)]
  | letter => exact absurd List.mem_cons_self hslash
  | code => exact absurd List.mem_cons_self hslash

theorem Spells.length_le {body : Text} {us : List Nat} (h : Spells body us) :
    us.length ≤ body.length := by
  induction h with
  | nil => exact Nat.le_refl 0
  | verbatim | letter | code =>
    simp only [List.length_cons]
    omega

/-- **With a backslash in it, a text spells fewer code points** than it has characters. -/
theorem Spells.length_lt {body : Text} {us : List Nat} (h : Spells body us) (hslash : '\\' ∈ body) :
    us.length < body.length := by
  induction h with
  | nil => cases hslash
  | verbatim hc _ ih =>
    have hne := (isVerbatim_iff.mp hc).2.1
    have := ih ((List.mem_cons.mp hslash).resolve_left (Ne.symm hne))
    simp only [List.length_cons]
    omega
  | letter _ h | code _ h =>
    have := h.length_le
    simp only [List.length_cons]
    omega

/-! ## Writing -/

/-- The hexadecimal digits of a control character. -/
theorem hex4?_control :
    ∀ n < 0x20, ∃ a b c d, Text.hexPadded 4 n = [a, b, c, d] ∧ hex4? a b c d = some n := by
  have hdigits : ∀ n < 0x20, Text.hexPadded 4 n =
      ['0', '0', if n < 16 then '0' else '1', Nat.digitChar (n % 16)] ∧
        hex4? '0' '0' (if n < 16 then '0' else '1') (Nat.digitChar (n % 16)) = some n := by
    decide
  exact fun n hn => ⟨_, _, _, _, (hdigits n hn).1, (hdigits n hn).2⟩

/-- A character is spelled as it is written. -/
theorem Spells.escapeChar {body : Text} {us : List Nat} (h : Spells body us) (c : Char) :
    Spells (escapeChar c ++ body) (c.toNat :: us) := by
  unfold Json.escapeChar
  -- seven characters have a letter of their own
  iterate 7
    split
    · subst c
      exact .letter rfl h
  rename_i hquote hslash _ _ _ _ _
  split
  · rename_i hlow
    obtain ⟨a, b, x, d, hpadded, hvalue⟩ := hex4?_control c.toNat hlow
    rw [hpadded]
    exact .code hvalue h
  · exact .verbatim (isVerbatim_iff.mpr ⟨hquote, hslash, by omega⟩) h

theorem spells_flatMap_escapeChar (s : Text) :
    Spells (s.flatMap Json.escapeChar) (s.map Char.toNat) := by
  induction s with
  | nil => exact .nil
  | cons c s ih => exact ih.escapeChar c

/-- **A string that is written reads back.** -/
theorem read?_quote (s : Text) : read? (quote s) = some (.str s) :=
  read?_quoted_iff.mpr ⟨_, spells_flatMap_escapeChar s, joinUnits_map s⟩

end ExportSchema.Json
