import ExportSchema.Proofs.TypeNode.Layer

/-!
# The forms exclude each other

The six forms are tried in turn. A text has at most one of them, so the order in which they are
tried does not matter.

* `forms`: the six forms.
* `Formed`: what a text reads as, by the texts of its parts.

Results:
* `clearFrom_of_isStringLiteral`, `chars_of_isNumberLiteral`: what a literal cannot hold.
* `not_suffix_group`: a group does not end in a pair of brackets of its own.
* `construct_eq_of_array`, …, `construct_eq_of_function`: a text that has a form is read by it.
* `construct_cases`, `formed_construct`: a text is read by one of the forms, or kept verbatim.
* `forms_in_any_order`: a text has one form at most, and any order of trying them reads it alike.
* `layer_eq_construct`, `layer_parenthesized`: parentheses around the whole do not count.
-/

namespace ExportSchema.TypeNode

open Text (trim trimStart isBlank isDigit isAsciiLetter)
open Lexeme ExportSchema.Bracket

/-! ## Literals -/

theorem getLast?_of_closedBy {q : Char} {t : Text} (h : closedBy q t = true) :
    t.getLast? = some q := by
  fun_induction closedBy q t with
  | case1 => cases h
  | case2 c => simpa using h
  | case3 d cs ih =>
    have hne : cs ≠ [] := by
      rintro rfl
      cases h
    rw [← ih h, List.getLast?_cons_cons, List.getLast?_cons_of_ne_nil hne]
  | case4 => cases h
  | case5 c d cs hc hq ih => rw [← ih h, List.getLast?_cons_cons]

/-- Nothing in a literal stands at the top level. -/
theorem clearFrom_of_closedBy {delims : Text} {q : Char} {t : Text} (h : closedBy q t = true)
    (d : Nat) (e : Bool) : clearFrom delims ⟨d, .quoted q, e⟩ t = true := by
  have hmark : ∀ {m : Mode} (_ : m ≠ .code) (c : Char),
      ¬ (State.mark ⟨d, m, e⟩ c = some 0 ∧ delims.contains c = true) :=
    fun hm c hc => hm (State.mark_eq_some hc.1).1
  fun_induction closedBy q t with
  | case1 => cases h
  | case2 c => exact clearFrom_cons.mpr ⟨hmark (by simp) _, rfl⟩
  | case3 x cs ih =>
    refine clearFrom_cons.mpr ⟨hmark (by simp) _, clearFrom_cons.mpr ⟨?_, ?_⟩⟩
    · simp only [State.step, if_true]
      exact hmark (by simp) _
    · simp only [State.step, if_true]
      exact ih h
  | case4 => cases h
  | case5 c x cs hc hq ih =>
    refine clearFrom_cons.mpr ⟨hmark (by simp) _, ?_⟩
    simp only [State.step, if_neg hc, if_neg hq]
    exact ih h

theorem isStringLiteral_eq {t : Text} (h : isStringLiteral t = true) :
    ∃ q u, t = q :: u ∧ isQuote q = true ∧ closedBy q u = true := by
  cases t with
  | nil => cases h
  | cons q u =>
    simp only [isStringLiteral, Bool.and_eq_true, Bool.or_eq_true, decide_eq_true_eq] at h
    refine ⟨q, u, rfl, ?_, h.2⟩
    rcases h.1 with rfl | rfl <;> rfl

theorem clearFrom_of_isStringLiteral {delims t : Text} (h : isStringLiteral t = true) :
    clearFrom delims .start t = true := by
  obtain ⟨q, u, rfl, hq, hu⟩ := isStringLiteral_eq h
  refine clearFrom_cons.mpr ⟨fun hm => ?_, ?_⟩
  · rw [(State.mark_eq_some hm.1).2.1] at hq
    cases hq
  · have hs : State.start.step q = ⟨0, .quoted q, false⟩ := step_quote hq
    rw [hs]
    exact clearFrom_of_closedBy hu 0 false

/-- A character of a number literal. -/
def isNumberChar (c : Char) : Bool :=
  isDigit c || c = '.' || c = 'e' || c = 'E' || c = '+' || c = '-'

theorem isNumberChar_of_isDigit {c : Char} (h : isDigit c = true) : isNumberChar c = true := by
  simp [isNumberChar, h]

theorem chars_of_isExponent {t : Text} (h : isExponent t = true) :
    ∀ c ∈ t, isNumberChar c = true := by
  cases t with
  | nil => simp
  | cons x t =>
    simp only [isExponent, Bool.and_eq_true, Bool.or_eq_true, decide_eq_true_eq,
      List.all_eq_true] at h
    obtain ⟨hx, -, hdigits⟩ := h
    intro c hc
    rcases List.mem_cons.mp hc with rfl | hc
    · rcases hx with rfl | rfl <;> rfl
    · cases t with
      | nil => cases hc
      | cons y t =>
        rw [dropSign] at hdigits
        split at hdigits
        · rename_i hy
          rcases List.mem_cons.mp hc with rfl | hc
          · rcases hy with rfl | rfl <;> rfl
          · exact isNumberChar_of_isDigit (hdigits c hc)
        · exact isNumberChar_of_isDigit (hdigits c hc)

/-- Digits, then a rest of number characters. -/
theorem chars_of_dropWhile {t : Text} (h : ∀ c ∈ t.dropWhile isDigit, isNumberChar c = true) :
    ∀ c ∈ t, isNumberChar c = true := by
  intro c hc
  rw [← List.takeWhile_append_dropWhile (p := isDigit) (l := t)] at hc
  rcases List.mem_append.mp hc with hc | hc
  · exact isNumberChar_of_isDigit (List.mem_takeWhile_imp hc)
  · exact h c hc

theorem chars_of_isUnsignedNumber {t : Text} (h : isUnsignedNumber t = true) :
    ∀ c ∈ t, isNumberChar c = true := by
  have hpoint : ∀ {cs : Text}, isExponent (cs.dropWhile isDigit) = true →
      ∀ c ∈ '.' :: cs, isNumberChar c = true := by
    intro cs hcs c hc
    rcases List.mem_cons.mp hc with rfl | hc
    · rfl
    · exact chars_of_dropWhile (chars_of_isExponent hcs) c hc
  apply chars_of_dropWhile
  unfold isUnsignedNumber at h
  simp only at h
  split at h
  · split at h
    · rename_i hr
      rw [hr]
      exact hpoint (by simp only [Bool.and_eq_true] at h; exact h.2)
    · cases h
  · split at h
    · rename_i hr
      rw [hr]
      exact hpoint h
    · exact chars_of_isExponent h

theorem chars_of_isNumberLiteral {t : Text} (h : isNumberLiteral t = true) :
    ∀ c ∈ t, isNumberChar c = true := by
  unfold isNumberLiteral at h
  split at h
  · intro c hc
    rcases List.mem_cons.mp hc with rfl | hc
    · rfl
    · exact chars_of_isUnsignedNumber h c hc
  · exact chars_of_isUnsignedNumber h

theorem letters_of_primitive {t : Text} (h : primitiveNames.contains t = true) :
    ∀ c ∈ t, isAsciiLetter c = true := by
  have hall : ∀ n ∈ primitiveNames, ∀ c ∈ n, isAsciiLetter c = true := by decide
  exact hall t (by simpa using h)

/-- A text of letters or of the characters of numbers, or a string literal: what the first form
reads. -/
theorem primitiveLayer_eq_some {t : Text} {l : Layer} (h : primitiveLayer t = some l) :
    (∀ c ∈ t, isAsciiLetter c = true ∨ isNumberChar c = true) ∨ isStringLiteral t = true := by
  unfold primitiveLayer at h
  split at h
  · rename_i hp
    exact Or.inl fun c hc => Or.inl (letters_of_primitive hp c hc)
  · split at h
    · rename_i hl
      simp only [isLiteral, Bool.or_eq_true, decide_eq_true_eq] at hl
      rcases hl with ((rfl | rfl) | hs) | hn
      · exact Or.inl fun c hc => Or.inl ((by decide : ∀ c ∈ "true".toList, isAsciiLetter c = true) c hc)
      · exact Or.inl fun c hc => Or.inl ((by decide : ∀ c ∈ "false".toList, isAsciiLetter c = true) c hc)
      · exact Or.inr hs
      · exact Or.inl fun c hc => Or.inr (chars_of_isNumberLiteral hn c hc)
    · cases h

theorem isCloser_not_primitive {c : Char} (h : isCloser c = true) :
    ¬ (isAsciiLetter c = true ∨ isNumberChar c = true) := by
  simp only [isCloser, Bool.or_eq_true, decide_eq_true_eq] at h
  obtain ((rfl | rfl) | rfl) | rfl := h <;> decide

theorem isOpener_not_primitive {c : Char} (h : isOpener c = true) :
    ¬ (isAsciiLetter c = true ∨ isNumberChar c = true) := by
  simp only [isOpener, Bool.or_eq_true, decide_eq_true_eq] at h
  obtain ((rfl | rfl) | rfl) | rfl := h <;> decide

/-- A text that ends in a closing bracket is neither keyword nor literal. -/
theorem primitiveLayer_of_last {t : Text} {c : Char} (hl : t.getLast? = some c)
    (hc : isCloser c = true) : primitiveLayer t = none := by
  refine Option.eq_none_iff_forall_not_mem.mpr fun l h => ?_
  rcases primitiveLayer_eq_some h with hall | hs
  · exact isCloser_not_primitive hc (hall c (List.mem_of_getLast? hl))
  · obtain ⟨q, u, rfl, hq, hu⟩ := isStringLiteral_eq hs
    have hlast := getLast?_of_closedBy hu
    have hne : u ≠ [] := by
      rintro rfl
      cases hlast
    rw [List.getLast?_cons_of_ne_nil hne, hlast] at hl
    cases hl
    rw [isQuote_of_isCloser hc] at hq
    cases hq

/-- A text that starts with an opening bracket is neither keyword nor literal. -/
theorem primitiveLayer_of_head {t : Text} {c : Char} (hh : t.head? = some c)
    (hc : isOpener c = true) : primitiveLayer t = none := by
  refine Option.eq_none_iff_forall_not_mem.mpr fun l h => ?_
  rcases primitiveLayer_eq_some h with hall | hs
  · exact isOpener_not_primitive hc (hall c (List.mem_of_head? hh))
  · obtain ⟨q, u, rfl, hq, -⟩ := isStringLiteral_eq hs
    cases hh
    rw [isQuote_of_isOpener hc] at hq
    cases hq

/-- A text with a bar at the top level is neither keyword nor literal. -/
theorem primitiveLayer_of_bar {t : Text} (hbar : clearFrom ['|'] .start t = false) :
    primitiveLayer t = none := by
  refine Option.eq_none_iff_forall_not_mem.mpr fun l h => ?_
  rcases primitiveLayer_eq_some h with hall | hs
  · obtain ⟨a, c, b, rfl, -, -, hc⟩ := exists_of_not_clear hbar
    obtain rfl : c = '|' := by simpa using hc
    exact absurd (hall '|' (by simp)) (by decide)
  · rw [clearFrom_of_isStringLiteral hs] at hbar
    cases hbar

/-! ## Groups -/

/-- **A group does not end in a pair of brackets of its own.** -/
theorem not_suffix_group {o : Char} (ho : o ≠ '[') {inner : Text} {c : Char}
    (h : ClosesBehind .start inner c) (pre : Text) :
    ¬ ['[', ']'] <:+ pre ++ o :: (inner ++ [c]) := by
  rintro ⟨x, hx⟩
  have hx' : (x ++ ['[']) ++ [']'] = (pre ++ o :: inner) ++ [c] := by simpa using hx
  obtain ⟨hlast, -⟩ := List.append_inj' hx' rfl
  have hget : (pre ++ o :: inner).getLast? = some '[' := by
    rw [← hlast, List.getLast?_concat]
  cases inner with
  | nil =>
    rw [List.getLast?_concat] at hget
    exact ho (Option.some.inj hget)
  | cons y inner =>
    rw [List.getLast?_append_of_ne_nil _ (by simp), List.getLast?_cons_cons] at hget
    exact absurd (h.nested.getLast_not_opener hget) (by decide)

/-- A group is clear of every delimiter but its opener, and has no arrow. -/
theorem clearFrom_of_enclosed {delims : Text} {o : Char} (ho : isOpener o = true) {t inner : Text}
    (h : enclosed? o t = some inner) (hd : delims.contains o = false) :
    clearFrom delims .start t = true := by
  obtain ⟨c, rfl, hb⟩ := (enclosed?_eq_some_iff ho).mp h
  exact clearFrom_group ho hb hd false

theorem find?_arrow_of_clear {t : Text} (h : clearFrom ['='] .start t = true) :
    find? arrow t = none :=
  findFrom_of_clear h _

theorem isPlain_of_isDottedChar {c : Char} (h : isDottedChar c = true) : isPlain c = true :=
  isPlain_of_class (by decide) h

/-- The dotted name of a generic type and the blanks behind it leave the scanner at the start. -/
theorem run_generic {base gap : Text} (hbase : ∀ x ∈ base, isDottedChar x = true)
    (hgap : ∀ x ∈ gap, isBlank x = true) : State.start.run (base ++ gap) = .start := by
  have heq : ∀ x ∈ base, x ≠ '=' := by
    rintro x hx rfl
    exact absurd (hbase '=' hx) (by decide)
  have hrun : State.start.run base = .start :=
    run_plain_settled (fun x hx => isPlain_of_isDottedChar (hbase x hx)) heq 0
  rw [State.run_append, hrun, run_blank hgap]

/-- A generic type is clear of what is neither part of a name, nor blank, nor its bracket. -/
theorem clearFrom_of_generic {delims t base : Text} {args : List Text}
    (h : generic? t = some (base, args))
    (hd : ∀ c ∈ delims, isDottedChar c = false ∧ isBlank c = false ∧ c ≠ '<') :
    clearFrom delims .start t = true := by
  obtain ⟨gap, inside, c, rfl, hb, hgap, hbase, -, -⟩ := generic?_eq_some h
  rw [← List.append_assoc]
  refine clearFrom_append.mpr ⟨clearFrom_of_forall (fun x hx => ?_) _, ?_⟩
  · rw [← Bool.not_eq_true, List.contains_iff_mem]
    intro hx'
    rcases List.mem_append.mp hx with hx | hx
    · exact absurd (hbase x hx) (by simp [(hd x hx').1])
    · exact absurd (hgap x hx) (by simp [(hd x hx').2.1])
  · rw [run_generic hbase hgap]
    refine clearFrom_group rfl hb ?_ false
    rw [← Bool.not_eq_true, List.contains_iff_mem]
    exact fun hx' => (hd '<' hx').2.2 rfl

theorem getLast?_of_generic {t base : Text} {args : List Text}
    (h : generic? t = some (base, args)) : ∃ c, t.getLast? = some c ∧ isCloser c = true := by
  obtain ⟨gap, inside, c, rfl, hb, -⟩ := generic?_eq_some h
  refine ⟨c, ?_, hb.isCloser⟩
  rw [← List.append_assoc, ← List.cons_append, ← List.append_assoc, List.getLast?_concat]

theorem generic?_of_head {t : Text} {c : Char} (hh : t.head? = some c) (hc : isNameStart c = false) :
    generic? t = none := by
  refine Option.eq_none_iff_forall_not_mem.mpr fun ⟨base, args⟩ h => ?_
  obtain ⟨_, _, _, _, _, _, _, _, d, u, rfl, hd⟩ := generic?_eq_some h
  cases hh
  rw [hd] at hc
  cases hc

/-! ## One form at most -/

theorem arrayLayer_of_not_suffix {t : Text} (h : ¬ ['[', ']'] <:+ t) (hg : generic? t = none) :
    arrayLayer t = none := by
  refine Option.eq_none_iff_forall_not_mem.mpr fun l hl => ?_
  obtain ⟨x, rfl, -⟩ | ⟨base, element, -, hg', -⟩ := arrayLayer_eq_some hl
  · exact h ⟨x, rfl⟩
  · rw [hg] at hg'
    cases hg'

theorem componentLayer_of_not_generic {t : Text} (hg : generic? t = none) :
    componentLayer t = none := by
  unfold componentLayer
  rw [hg]

theorem primitiveLayer_of_array {t : Text} {l : Layer} (h : arrayLayer t = some l) :
    primitiveLayer t = none := by
  obtain ⟨x, rfl, -⟩ | ⟨base, element, -, hg, -⟩ := arrayLayer_eq_some h
  · exact primitiveLayer_of_last (c := ']') (by simp) rfl
  · obtain ⟨c, hl, hc⟩ := getLast?_of_generic hg
    exact primitiveLayer_of_last hl hc

theorem primitiveLayer_of_component {t : Text} {l : Layer} (h : componentLayer t = some l) :
    primitiveLayer t = none := by
  obtain ⟨base, props, hg, -⟩ := componentLayer_eq_some h
  obtain ⟨c, hl, hc⟩ := getLast?_of_generic hg
  exact primitiveLayer_of_last hl hc

theorem arrayLayer_of_component {t : Text} {l : Layer} (h : componentLayer t = some l) :
    arrayLayer t = none := by
  obtain ⟨base, props, hg, hc, -⟩ := componentLayer_eq_some h
  refine Option.eq_none_iff_forall_not_mem.mpr fun l' hl => ?_
  obtain ⟨x, hx, -⟩ | ⟨base', element, -, hg', hb, -⟩ := arrayLayer_eq_some hl
  · obtain ⟨gap, inside, c, ht, hb, -⟩ := generic?_eq_some hg
    rw [← List.append_assoc] at ht
    have hsuf : ['[', ']'] <:+ (base ++ gap) ++ '<' :: (inside ++ [c]) := ⟨x, hx.symm.trans ht⟩
    exact not_suffix_group (by decide) hb (base ++ gap) hsuf
  · rw [hg] at hg'
    cases hg'
    have hdisjoint : ∀ b ∈ arrayBases,
        componentBases.contains ((Text.after? "React.".toList b).getD b) = false := by decide
    rw [hdisjoint base (by simpa using hb)] at hc
    cases hc

/-- What an object type excludes: it starts with a brace and ends in the bracket that closes it. -/
theorem others_of_object {t : Text} {l : Layer} (h : objectLayer t = some l) :
    primitiveLayer t = none ∧ arrayLayer t = none ∧ componentLayer t = none := by
  obtain ⟨inside, c, rfl, hb, -⟩ := objectLayer_eq_some h
  have hg : generic? ('{' :: (inside ++ [c])) = none := generic?_of_head rfl (by decide)
  exact ⟨primitiveLayer_of_head rfl (by decide),
    arrayLayer_of_not_suffix (not_suffix_group (by decide) hb []) hg,
    componentLayer_of_not_generic hg⟩

/-- What a bar at the top level excludes. -/
theorem others_of_bar {t : Text} (hbar : clearFrom ['|'] .start t = false) :
    primitiveLayer t = none ∧ arrayLayer t = none ∧ componentLayer t = none ∧
      objectLayer t = none := by
  have hg : generic? t = none := by
    refine Option.eq_none_iff_forall_not_mem.mpr fun ⟨base, args⟩ hg => ?_
    rw [clearFrom_of_generic hg (by decide)] at hbar
    cases hbar
  refine ⟨primitiveLayer_of_bar hbar, ?_, componentLayer_of_not_generic hg, ?_⟩
  · refine Option.eq_none_iff_forall_not_mem.mpr fun l hl => ?_
    obtain ⟨x, rfl, -, hclear, -⟩ | ⟨base, element, -, hg', -⟩ := arrayLayer_eq_some hl
    · have hblank : ∀ c, isBlank c = true → List.contains ['|'] c = false := by
        intro c hc
        rw [← Bool.not_eq_true, List.contains_iff_mem, List.mem_singleton]
        rintro rfl
        exact absurd hc (by decide)
      rw [clearFrom_of_trim hblank (by decide) hclear] at hbar
      cases hbar
    · rw [hg] at hg'
      cases hg'
  · refine Option.eq_none_iff_forall_not_mem.mpr fun l hl => ?_
    obtain ⟨inside, c, rfl, hb, -⟩ := objectLayer_eq_some hl
    have hclear : clearFrom ['|'] .start ('{' :: (inside ++ [c])) = true :=
      clearFrom_group rfl hb rfl false
    rw [hclear] at hbar
    cases hbar

theorem TypeParams.run {lead : Text} (h : TypeParams lead) : State.start.run lead = .start := by
  cases h with
  | none => rfl
  | @some inner c gap hb hgap =>
    have hg : State.start.run ('<' :: (inner ++ [c])) = .start := run_group rfl hb 0 false
    have happ : '<' :: (inner ++ c :: gap) = ('<' :: (inner ++ [c])) ++ gap := by simp
    rw [happ, State.run_append, hg, run_blank hgap]

theorem TypeParams.clear {lead : Text} (h : TypeParams lead) :
    clearFrom ['='] .start lead = true := by
  cases h with
  | none => rfl
  | @some inner c gap hb hgap =>
    have happ : '<' :: (inner ++ c :: gap) = ('<' :: (inner ++ [c])) ++ gap := by simp
    rw [happ]
    exact clearFrom_append.mpr ⟨clearFrom_group rfl hb rfl false,
      clearFrom_of_forall (fun x hx => by simp [ne_eq_of_isBlank (hgap x hx)]) _⟩

/-- A function type has an arrow at the top level. -/
theorem find?_arrow_of_function {t : Text} {l : Layer} (h : functionLayer t = some l) :
    find? arrow t ≠ none := by
  obtain ⟨lead, inner, c, gap, rest, rfl, hl, hb, hgap, -⟩ := functionLayer_eq_some_iff.mp h
  have hclear : clearFrom ['='] .start gap = true :=
    clearFrom_of_forall (fun x hx => by simp [ne_eq_of_isBlank (hgap x hx)]) _
  have hfound : findFrom arrow .start (gap ++ '=' :: '>' :: rest) = some gap.length :=
    find?_arrow_append hclear (by rw [run_blank hgap]; rfl) rest
  have hgroup := find?_arrow_group hb (gap ++ '=' :: '>' :: rest)
  unfold find? at hgroup ⊢
  rw [findFrom_append_of_clear hl.clear, hl.run, hgroup, hfound]
  simp

theorem head?_of_function {t : Text} {l : Layer} (h : functionLayer t = some l) :
    ∃ c, t.head? = some c ∧ isOpener c = true ∧ isNameStart c = false ∧ c ≠ '{' := by
  obtain ⟨lead, inner, c, gap, rest, rfl, hl, -⟩ := functionLayer_eq_some_iff.mp h
  cases hl with
  | none => exact ⟨'(', rfl, by decide, by decide, by decide⟩
  | some => exact ⟨'<', rfl, by decide, by decide, by decide⟩

/-- What a function type excludes. -/
theorem others_of_function {t : Text} {l : Layer} (h : functionLayer t = some l) :
    primitiveLayer t = none ∧ arrayLayer t = none ∧ componentLayer t = none ∧
      objectLayer t = none ∧ unionLayer t = none := by
  obtain ⟨c, hh, ho, hn, hb⟩ := head?_of_function h
  have hg := generic?_of_head hh hn
  refine ⟨primitiveLayer_of_head hh ho, ?_, componentLayer_of_not_generic hg, ?_, ?_⟩
  · refine Option.eq_none_iff_forall_not_mem.mpr fun l' hl => ?_
    obtain ⟨x, rfl, -, -, hnone, -⟩ | ⟨base, element, -, hg', -⟩ := arrayLayer_eq_some hl
    · exact find?_arrow_of_function h (find?_arrow_of_trim (by decide) hnone)
    · rw [hg] at hg'
      cases hg'
  · refine Option.eq_none_iff_forall_not_mem.mpr fun l' hl => ?_
    obtain ⟨inside, d, rfl, -⟩ := objectLayer_eq_some hl
    cases hh
    exact hb rfl
  · refine Option.eq_none_iff_forall_not_mem.mpr fun l' hl => ?_
    exact find?_arrow_of_function h (unionLayer_isSome hl).2

/-! ## Reading by a form -/

theorem construct_eq_of_primitive {t : Text} {l : Layer} (h : primitiveLayer t = some l) :
    construct t = l := by
  unfold construct
  rw [h]
  rfl

theorem construct_eq_of_array {t : Text} {l : Layer} (h : arrayLayer t = some l) :
    construct t = l := by
  unfold construct
  rw [primitiveLayer_of_array h, h]
  rfl

theorem construct_eq_of_component {t : Text} {l : Layer} (h : componentLayer t = some l) :
    construct t = l := by
  unfold construct
  rw [primitiveLayer_of_component h, arrayLayer_of_component h, h]
  rfl

theorem construct_eq_of_object {t : Text} {l : Layer} (h : objectLayer t = some l) :
    construct t = l := by
  obtain ⟨h1, h2, h3⟩ := others_of_object h
  unfold construct
  rw [h1, h2, h3, h]
  rfl

theorem construct_eq_of_union {t : Text} {l : Layer} (h : unionLayer t = some l) :
    construct t = l := by
  obtain ⟨h1, h2, h3, h4⟩ := others_of_bar (unionLayer_isSome h).1
  unfold construct
  rw [h1, h2, h3, h4, h]
  rfl

theorem construct_eq_of_function {t : Text} {l : Layer} (h : functionLayer t = some l) :
    construct t = l := by
  obtain ⟨h1, h2, h3, h4, h5⟩ := others_of_function h
  unfold construct
  rw [h1, h2, h3, h4, h5, h]
  rfl

/-- The six forms, in the order in which they are tried. -/
def forms : List (Text → Option Layer) :=
  [primitiveLayer, arrayLayer, componentLayer, objectLayer, unionLayer, functionLayer]

/-- A text that has one of the forms is read by it. -/
theorem construct_eq_of_form {t : Text} {f : Text → Option Layer} {l : Layer} (hf : f ∈ forms)
    (h : f t = some l) : construct t = l := by
  simp only [forms, List.mem_cons, List.not_mem_nil, or_false] at hf
  rcases hf with rfl | rfl | rfl | rfl | rfl | rfl
  · exact construct_eq_of_primitive h
  · exact construct_eq_of_array h
  · exact construct_eq_of_component h
  · exact construct_eq_of_object h
  · exact construct_eq_of_union h
  · exact construct_eq_of_function h

/-- A text that has none of the forms is kept. -/
theorem construct_of_no_form {t : Text} (h : ∀ f ∈ forms, f t = none) :
    construct t = .plain t (.verbatim t) := by
  simp only [forms, List.forall_mem_cons, List.not_mem_nil, false_implies, implies_true,
    and_true] at h
  obtain ⟨h1, h2, h3, h4, h5, h6⟩ := h
  unfold construct
  rw [h1, h2, h3, h4, h5, h6]
  rfl

/-- A text is read by one of the six forms, or kept. -/
theorem construct_cases (t : Text) :
    primitiveLayer t = some (construct t) ∨ arrayLayer t = some (construct t) ∨
      componentLayer t = some (construct t) ∨ objectLayer t = some (construct t) ∨
      unionLayer t = some (construct t) ∨ functionLayer t = some (construct t) ∨
      construct t = .plain t (.verbatim t) := by
  by_cases hnone : ∀ f ∈ forms, f t = none
  · simp only [construct_of_no_form hnone, or_true]
  · obtain ⟨f, hnone⟩ := not_forall.mp hnone
    obtain ⟨hf, hsome⟩ := Classical.not_imp.mp hnone
    obtain ⟨l, hl⟩ := Option.ne_none_iff_exists'.mp hsome
    rw [← construct_eq_of_form hf hl] at hl
    simp only [forms, List.mem_cons, List.not_mem_nil, or_false] at hf
    rcases hf with rfl | rfl | rfl | rfl | rfl | rfl
    · exact Or.inl hl
    · exact Or.inr (Or.inl hl)
    · exact Or.inr (Or.inr (Or.inl hl))
    · exact Or.inr (Or.inr (Or.inr (Or.inl hl)))
    · exact Or.inr (Or.inr (Or.inr (Or.inr (Or.inl hl))))
    · exact Or.inr (Or.inr (Or.inr (Or.inr (Or.inr (Or.inl hl)))))

/-- What a text of one of the forms, or of none, reads as, by the texts of its parts. -/
inductive Formed (t : Text) : Layer → Prop
  | keyword (h : t ∈ primitiveNames) : Formed t (.plain t (.primitive t))
  | literal (h : isLiteral t = true) : Formed t (.plain t (.literal t))
  | suffix {x : Text} (ht : t = x ++ ['[', ']']) : Formed t (.plain t (.array (.text (trim x))))
  | array {base element : Text} (hg : generic? t = some (base, [element])) :
    Formed t (.plain t (.array (.text element)))
  | component {base props : Text} (hg : generic? t = some (base, [props])) :
    Formed t (.plain t (.component (.text props)))
  | object {inside : Text} {c : Char} (ht : t = '{' :: (inside ++ [c]))
      (hb : ClosesBehind .start inside c) :
    Formed t (.plain t (.object ((members inside).filterMap Member.property?)
      (((members inside).filterMap Member.index?).getLast?.map Part.text)))
  | same {m : Text} (hbar : clearFrom ['|'] .start t = false) (hm : m ∈ pieces ['|'] t) :
    Formed t (.same m)
  | orNull {m : Text} (hbar : clearFrom ['|'] .start t = false) (hm : m ∈ pieces ['|'] t) :
    Formed t (.orNull m)
  | nullish (hbar : clearFrom ['|'] .start t = false) : Formed t (.plain t (.primitive "null".toList))
  | union {nullable : Bool} (hbar : clearFrom ['|'] .start t = false)
      (htwo : 2 ≤ (concrete t).length) :
    Formed t (.node t nullable (.union ((concrete t).map Part.text)))
  | function {lead inner : Text} {c : Char} {gap rest : Text}
      (ht : t = lead ++ '(' :: (inner ++ c :: (gap ++ '=' :: '>' :: rest))) :
    Formed t (.plain t (.function ((params inner).map (·.map Part.text)) (.text rest)))
  | verbatim : Formed t (.plain t (.verbatim t))

theorem formed_of_primitiveLayer {t : Text} {l : Layer} (h : primitiveLayer t = some l) :
    Formed t l := by
  unfold primitiveLayer at h
  split at h
  · rename_i hname
    cases h
    exact .keyword (List.contains_iff_mem.mp hname)
  · split at h
    · rename_i hliteral
      cases h
      exact .literal hliteral
    · cases h

theorem formed_of_arrayLayer {t : Text} {l : Layer} (h : arrayLayer t = some l) : Formed t l := by
  obtain ⟨x, ht, -, -, -, rfl⟩ | ⟨base, element, -, hg, -, rfl⟩ := arrayLayer_eq_some h
  · exact .suffix ht
  · exact .array hg

theorem formed_of_unionLayer {t : Text} {l : Layer} (h : unionLayer t = some l) : Formed t l := by
  have hbar := (unionLayer_isSome h).1
  obtain ⟨m, hm, rfl | rfl⟩ | rfl | ⟨htwo, nullable, rfl⟩ := unionLayer_eq_some h
  · exact .same hbar hm
  · exact .orNull hbar hm
  · exact .nullish hbar
  · exact .union hbar htwo

/-- **What reading by a form can give**, with what it says of the text. -/
theorem formed_construct (t : Text) : Formed t (construct t) := by
  rcases construct_cases t with h | h | h | h | h | h | h
  · exact formed_of_primitiveLayer h
  · exact formed_of_arrayLayer h
  · obtain ⟨base, props, hg, -, hl⟩ := componentLayer_eq_some h
    rw [hl]
    exact .component hg
  · obtain ⟨inside, c, ht, hb, hl⟩ := objectLayer_eq_some h
    rw [hl]
    exact .object ht hb
  · exact formed_of_unionLayer h
  · obtain ⟨lead, inner, c, gap, rest, ht, -, -, -, hl⟩ := functionLayer_eq_some_iff.mp h
    rw [hl]
    exact .function ht
  · rw [h]
    exact .verbatim

/-! ## The order of the forms -/

/-- **A text has one form at most**: a form that it has excludes every earlier one. -/
theorem pairwise_forms (t : Text) :
    forms.Pairwise fun earlier later => later t ≠ none → earlier t = none := by
  have excluded {later : Text → Option Layer} {earlier : List (Text → Option Layer)}
      (h : ∀ l, later t = some l → ∀ f ∈ earlier, f t = none) :
      ∀ f ∈ earlier, later t ≠ none → f t = none := by
    intro f hf hlater
    obtain ⟨l, hl⟩ := Option.ne_none_iff_exists'.mp hlater
    exact h l hl f hf
  -- from the last form to the first
  refine List.pairwise_reverse.mp (.cons (excluded fun l hl => ?function)
    (.cons (excluded fun l hl => ?union) (.cons (excluded fun l hl => ?object)
      (.cons (excluded fun l hl => ?component) (.cons (excluded fun l hl => ?array)
        (List.pairwise_singleton _ _))))))
  case function => simp [others_of_function hl]
  case union => simp [others_of_bar (unionLayer_isSome hl).1]
  case object => simp [others_of_object hl]
  case component => simp [primitiveLayer_of_component hl, arrayLayer_of_component hl]
  case array => simp [primitiveLayer_of_array hl]

/-- **The order of the forms does not matter.** No two of the six forms read the same text, so trying
them in any order gives what trying them in theirs gives. -/
theorem forms_in_any_order (t : Text) :
    (forms.Pairwise fun f g => f t = none ∨ g t = none) ∧
      ∀ order : List (Text → Option Layer), order.Perm forms →
        (order.findSome? fun f => f t).getD (.plain t (.verbatim t)) = construct t := by
  constructor
  · refine (pairwise_forms t).imp fun {f g} hfg => ?_
    by_cases hg : g t = none
    · exact Or.inr hg
    · exact Or.inl (hfg hg)
  · intro order horder
    cases hfound : order.findSome? fun f => f t with
    | some l =>
      obtain ⟨f, hf, hl⟩ := List.exists_of_findSome?_eq_some hfound
      exact (construct_eq_of_form (horder.mem_iff.mp hf) hl).symm
    | none =>
      have hnone := List.findSome?_eq_none_iff.mp hfound
      exact (construct_of_no_form fun f hf => hnone f (horder.mem_iff.mpr hf)).symm

/-! ## Parentheses around the whole -/

theorem enclosed?_of_head {o : Char} {t : Text} (h : t.head? ≠ some o) : enclosed? o t = none := by
  cases t with
  | nil => rfl
  | cons c t =>
    have hc : ¬ (c = o ∧ close? (c :: t) 0 = some t.length) := fun hc => h (by rw [hc.1]; rfl)
    rw [enclosed?, if_neg hc]

/-- A text with a delimiter at the top level is not one group. -/
theorem enclosed?_of_not_clear {delims : Text} {o : Char} (ho : isOpener o = true) {t : Text}
    (h : clearFrom delims .start t = false) (hd : delims.contains o = false) :
    enclosed? o t = none := by
  refine Option.eq_none_iff_forall_not_mem.mpr fun inner hin => ?_
  rw [clearFrom_of_enclosed ho hin hd] at h
  cases h

/-- A text with brackets behind is not one group of another kind. -/
theorem enclosed?_of_suffix {o : Char} (ho : isOpener o = true) (hne : o ≠ '[') (x : Text) :
    enclosed? o (x ++ ['[', ']']) = none := by
  refine Option.eq_none_iff_forall_not_mem.mpr fun inner hin => ?_
  obtain ⟨c, he, hb⟩ := (enclosed?_eq_some_iff ho).mp hin
  exact not_suffix_group hne hb [] ⟨x, he⟩

/-- A trimmed text without `readonly` in front that is not in parentheses is read by its form. -/
theorem layer_eq_construct {t : Text} (ht : trim t = t)
    (hr : Text.after? "readonly ".toList t = none) (hp : enclosed? '(' t = none) :
    layer t = construct t := by
  unfold layer dropReadonly
  simp only [ht, hr, hp]

/-- Parentheses around the whole do not count. -/
theorem layer_parenthesized {t : Text} (h : Nested t) :
    layer ('(' :: (t ++ [')'])) = .same (trim t) := by
  have hb : ClosesBehind .start t ')' := h.closesBehind rfl (fun h => by cases h)
  have ht : trim ('(' :: (t ++ [')'])) = '(' :: (t ++ [')']) := Text.trim_between rfl rfl t
  have hr : Text.after? "readonly ".toList ('(' :: (t ++ [')'])) = none := rfl
  have hin : enclosed? '(' ('(' :: (t ++ [')'])) = some t :=
    (enclosed?_eq_some_iff rfl).mpr ⟨')', rfl, hb⟩
  unfold layer dropReadonly
  simp only [ht, hr, hin]

end ExportSchema.TypeNode
