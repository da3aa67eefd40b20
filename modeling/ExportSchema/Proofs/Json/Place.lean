import ExportSchema.Proofs.Json.String
import Mathlib.Data.List.Infix

/-!
# The places where reading stops

Reading goes forward in the text: what is left when a value has been read is an end of the text, and
so is what is left from the place of a flaw. A value takes a character at least. So twice the length
of the text bounds the steps, and more steps read nothing else.

* `Forward`: a reading leaves an end of the text, or stops at one.

Results:
* `stringUnits_forward`, `number_forward`, `readers_forward`: every reader stays in its text.
* `message_of_flaw`: the place that is told of a flaw is the place where it is.
* `valueAt_eq_of_lt`: more steps than twice the length read nothing else.
-/

namespace ExportSchema.Json

variable {α β : Type} {t u rest : Text} {c : Char}

/-! ## Ends of a text -/

/-- A reading leaves an end of the text that starts later, or stops at a flaw at an end. -/
inductive Forward (t : Text) : Reading α → Prop where
  | ok {x : α} {rest : Text} (h : rest <:+ t) (hlt : rest.length < t.length) :
      Forward t (.ok (x, rest))
  | flaw {kind : Flaw} {rest : Text} (h : rest <:+ t) : Forward t (.error (.flaw kind rest))
  | tooManyDigits {count : Nat} : Forward t (.error (.tooManyDigits count))

theorem suffix_of_cons (h : c :: u <:+ t) : u <:+ t := (List.suffix_cons c u).trans h

namespace Forward

/-- Reading an end of the text goes forward in the text. -/
theorem behind {r : Reading α} (h : Forward u r) (hu : u <:+ t) : Forward t r := by
  cases h with
  | ok h hlt => exact .ok (h.trans hu) (Nat.lt_of_lt_of_le hlt hu.length_le)
  | flaw h => exact .flaw (h.trans hu)
  | tooManyDigits => exact .tooManyDigits

theorem map {r : Reading α} {f : α × Text → β × Text} (h : Forward t r)
    (hf : ∀ x rest, (f (x, rest)).2 = rest) : Forward t (r.map f) := by
  cases h with
  | @ok x rest h hlt =>
    rw [← hf x rest] at h hlt
    exact .ok h hlt
  | flaw h => exact .flaw h
  | tooManyDigits => exact .tooManyDigits

theorem error {e : Malformed} (h : Forward (α := α) t (.error e)) :
    Forward (α := β) t (.error e) := by
  cases h with
  | flaw h => exact .flaw h
  | tooManyDigits => exact .tooManyDigits

theorem suffix {x : α} (h : Forward t (.ok (x, rest))) : rest <:+ t := by
  cases h with
  | ok h _ => exact h

theorem length_lt {x : α} (h : Forward t (.ok (x, rest))) : rest.length < t.length := by
  cases h with
  | ok _ hlt => exact hlt

theorem ok_behind {x : α} (h : c :: rest <:+ t) : Forward t (.ok (x, rest)) :=
  .ok (suffix_of_cons h) (Nat.lt_of_succ_le h.length_le)

end Forward

/-! ## Strings and numbers -/

theorem stringUnits_forward {opened : Text} (h : c :: t <:+ opened) :
    Forward opened (stringUnits opened t) := by
  fun_induction stringUnits opened t generalizing c with
  | case1 => exact .flaw (List.suffix_refl _)
  | case2 rest => exact .ok_behind (suffix_of_cons h)
  | case3 | case5 | case6 => exact .flaw (suffix_of_cons (suffix_of_cons h))
  | case4 a b x d more _ _ _ _ ih =>
    have hmore : d :: more <:+ opened :=
      (List.suffix_append [c, '\\', 'u', a, b, x] (d :: more)).trans h
    exact (ih hmore).map fun _ _ => rfl
  | case7 e more _ _ y he _ ih => exact (ih (suffix_of_cons (suffix_of_cons h))).map fun _ _ => rfl
  | case8 | case10 => exact .flaw (suffix_of_cons h)
  | case9 => exact .flaw (List.suffix_refl _)
  | case11 y rest _ _ _ ih => exact (ih (suffix_of_cons h)).map fun _ _ => rfl

theorem stringBody_forward (t : Text) : Forward (c :: t) (stringBody (c :: t) t) :=
  (stringUnits_forward (List.suffix_refl _)).map fun _ _ => rfl

theorem asciiDigits_append {digits : Text} (h : asciiDigits t = (digits, rest)) :
    digits ++ rest = t := by
  cases h
  exact List.takeWhile_append_dropWhile

theorem asciiDigits_suffix {digits : Text} (h : asciiDigits t = (digits, rest)) : rest <:+ t :=
  ⟨digits, asciiDigits_append h⟩

theorem wholePart?_suffix {whole : Text} (h : wholePart? t = some (whole, rest)) :
    rest <:+ t ∧ rest.length < t.length := by
  unfold wholePart? at h
  split at h
  · cases h
    exact ⟨List.suffix_cons _ _, Nat.lt_succ_self _⟩
  · split at h
    · cases h
    · rename_i hsome
      have hdigits : asciiDigits t = (whole, rest) := Option.some.inj h
      refine ⟨asciiDigits_suffix hdigits, ?_⟩
      rw [← asciiDigits_append hdigits, List.length_append]
      have hne : whole ≠ [] := fun hnil => hsome rest (by rw [hdigits, hnil])
      have := List.length_pos_iff.mpr hne
      omega

theorem fractionPart_suffix (t : Text) : (fractionPart t).2 <:+ t := by
  unfold fractionPart
  split
  · split
    · exact List.suffix_refl _
    · rename_i hdigits
      exact (asciiDigits_suffix hdigits).trans (List.suffix_cons _ _)
  · exact List.suffix_refl t

theorem minusSign_suffix (t : Text) : (minusSign t).2 <:+ t := by
  unfold minusSign
  split
  · exact List.suffix_cons _ _
  · exact List.suffix_refl t

theorem exponentSign_suffix (t : Text) : (exponentSign t).2 <:+ t := by
  unfold exponentSign
  split
  · exact List.suffix_cons _ _
  · exact List.suffix_cons _ _
  · exact List.suffix_refl t

theorem exponentPart_suffix (t : Text) : (exponentPart t).2 <:+ t := by
  unfold exponentPart
  split
  · rename_i c u
    split
    · simp only
      split
      · exact List.suffix_refl _
      · rename_i hdigits
        exact ((asciiDigits_suffix hdigits).trans (exponentSign_suffix u)).trans
          (List.suffix_cons _ _)
    · exact List.suffix_refl _
  · exact List.suffix_refl _

theorem number_forward (t : Text) : Forward t (number t) := by
  have hsign := minusSign_suffix t
  unfold number
  simp only
  split
  · exact .flaw (List.suffix_refl t)
  · rename_i whole rest hwhole
    obtain ⟨hrest, hlt⟩ := wholePart?_suffix hwhole
    have hend := (exponentPart_suffix (fractionPart rest).2).trans (fractionPart_suffix rest)
    have hok : ∀ x : Json, Forward t (.ok (x, (exponentPart (fractionPart rest).2).2)) := fun x =>
      .ok (hend.trans (hrest.trans hsign))
        (Nat.lt_of_le_of_lt hend.length_le (Nat.lt_of_lt_of_le hlt hsign.length_le))
    split
    · split
      · exact hok _
      · exact .tooManyDigits
    · split
      · exact hok _
      · exact .flaw (List.suffix_refl t)

/-! ## Values -/

theorem skip_suffix (t : Text) : skip t <:+ t := List.dropWhile_suffix isSpace

theorem word?_forward {found : Json × Text} (h : word? t = some found) : Forward t (.ok found) := by
  obtain ⟨⟨name, value⟩, hword, hfound⟩ := List.exists_of_findSome?_eq_some h
  obtain ⟨rest, hrest, rfl⟩ := Option.map_eq_some_iff.mp hfound
  have happ : name ++ rest = t := List.isPrefixOf?_eq_some_iff_append_eq.mp hrest
  have hname : ∀ w ∈ words, w.1 ≠ [] := by decide
  subst happ
  refine .ok (List.suffix_append name rest) ?_
  have hpos : 0 < name.length := List.length_pos_iff.mpr (hname _ hword)
  rw [List.length_append]
  omega

theorem suffix_of_skip (h : skip t = c :: rest) : c :: rest <:+ t := h ▸ skip_suffix t

/-- **Every reader stays inside its text.** -/
theorem readers_forward (fuel : Nat) (t : Text) :
    Forward t (valueAt fuel t) ∧ Forward t (itemsAt fuel t) ∧ Forward t (fieldsAt fuel t) := by
  induction fuel generalizing t with
  | zero =>
    exact ⟨.flaw (List.suffix_refl t), .flaw (List.suffix_refl t), .flaw (List.suffix_refl t)⟩
  | succ fuel ih =>
    have hcons : ∀ c u, skip u <:+ c :: u := fun c u => (skip_suffix u).trans (List.suffix_cons c u)
    refine ⟨?_, ?_, ?_⟩
    · unfold valueAt
      split
      · exact (stringBody_forward _).map fun _ _ => rfl
      · rename_i rest
        split
        · exact .ok_behind (‹skip rest = _› ▸ hcons '[' rest)
        · exact ((ih (skip rest)).2.1.behind (hcons '[' rest)).map fun _ _ => rfl
      · rename_i rest
        split
        · exact .ok_behind (‹skip rest = _› ▸ hcons '\x7b' rest)
        · exact ((ih (skip rest)).2.2.behind (hcons '\x7b' rest)).map fun _ _ => rfl
      · split
        · exact word?_forward ‹_›
        · exact number_forward _
    · unfold itemsAt
      split
      · exact (‹valueAt fuel t = _› ▸ (ih t).1).error
      · rename_i j rest hvalue
        have hrest : skip rest <:+ t := (skip_suffix rest).trans (hvalue ▸ (ih t).1).suffix
        split
        · exact .ok_behind (‹skip rest = _› ▸ hrest)
        · rename_i more hskip
          rw [hskip] at hrest
          exact ((ih (skip more)).2.1.behind ((hcons ',' more).trans hrest)).map fun _ _ => rfl
        · exact .flaw hrest
    · unfold fieldsAt
      split
      · rename_i body
        split
        · exact (‹stringBody _ body = _› ▸ stringBody_forward body).error
        · rename_i name rest hname
          have hrest : skip rest <:+ '"' :: body :=
            (skip_suffix rest).trans (hname ▸ stringBody_forward body).suffix
          split
          · rename_i u hskip
            rw [hskip] at hrest
            have hu : skip u <:+ '"' :: body := (hcons ':' u).trans hrest
            split
            · exact (‹valueAt fuel (skip u) = _› ▸ (ih (skip u)).1).error.behind hu
            · rename_i j rest hvalue
              have hrest : skip rest <:+ '"' :: body :=
                ((skip_suffix rest).trans (hvalue ▸ (ih (skip u)).1).suffix).trans hu
              split
              · exact .ok_behind (‹skip rest = _› ▸ hrest)
              · rename_i more hskip
                rw [hskip] at hrest
                exact ((ih (skip more)).2.2.behind ((hcons ',' more).trans hrest)).map
                  fun _ _ => rfl
              · exact .flaw hrest
          · exact .flaw hrest
      · exact .flaw (List.suffix_refl t)

/-! ## Steps -/

theorem length_skip_le (t : Text) : (skip t).length ≤ t.length := (skip_suffix t).length_le

theorem length_of_skip (h : skip t = c :: rest) : rest.length < t.length :=
  Nat.lt_of_succ_le (suffix_of_skip h).length_le

/-- One step more reads the same, where there are steps for every character: two of them, and one
more before the first value in brackets. -/
theorem steps (fuel : Nat) (t : Text) :
    (2 * t.length < fuel → valueAt (fuel + 1) t = valueAt fuel t) ∧
      (2 * t.length + 1 < fuel →
        itemsAt (fuel + 1) t = itemsAt fuel t ∧ fieldsAt (fuel + 1) t = fieldsAt fuel t) := by
  induction fuel generalizing t with
  | zero => exact ⟨fun h => absurd h (Nat.not_lt_zero _), fun h => absurd h (Nat.not_lt_zero _)⟩
  | succ fuel ih =>
    refine ⟨fun h => ?_, fun h => ⟨?_, ?_⟩⟩
    · unfold valueAt
      split
      · rfl
      · rename_i rest
        have hle := length_skip_le rest
        rw [List.length_cons] at h
        split
        · rfl
        · rw [((ih (skip rest)).2 (by omega)).1]
      · rename_i rest
        have hle := length_skip_le rest
        rw [List.length_cons] at h
        split
        · rfl
        · rw [((ih (skip rest)).2 (by omega)).2]
      · rfl
    · unfold itemsAt
      rw [(ih t).1 (by omega)]
      split
      · rfl
      · rename_i j rest hvalue
        have hrest := (hvalue ▸ (readers_forward fuel t).1).length_lt
        split
        · rfl
        · rename_i more hskip
          have hle := length_skip_le more
          have hlt := length_of_skip hskip
          rw [((ih (skip more)).2 (by omega)).1]
        · rfl
    · unfold fieldsAt
      split
      · rename_i body
        split
        · rfl
        · rename_i name rest hname
          have hrest := (hname ▸ stringBody_forward body).length_lt
          split
          · rename_i u hskip
            have hle := length_skip_le u
            have hlt := length_of_skip hskip
            rw [(ih (skip u)).1 (by omega)]
            split
            · rfl
            · rename_i j rest hvalue
              have hrest := (hvalue ▸ (readers_forward fuel (skip u)).1).length_lt
              split
              · rfl
              · rename_i more hskip
                have hle := length_skip_le more
                have hlt := length_of_skip hskip
                rw [((ih (skip more)).2 (by omega)).2]
              · rfl
          · rfl
      · rfl

/-- **More steps than twice the length read nothing else.** -/
theorem valueAt_eq_of_lt {fuel : Nat} (h : 2 * t.length < fuel) :
    valueAt fuel t = valueAt (2 * t.length + 1) t := by
  induction fuel, h using Nat.le_induction with
  | base => rfl
  | succ fuel hle ih => rw [(steps fuel t).1 hle, ih]

/-! ## Whole texts -/

/-- **A flaw is at a place of the text.** -/
theorem suffix_of_flaw {kind : Flaw} (h : read t = .error (.flaw kind rest)) : rest <:+ t := by
  unfold read at h
  split at h
  · cases h
    exact List.suffix_refl t
  · have hvalue := (readers_forward (2 * t.length + 1) (skip t)).1.behind (skip_suffix t)
    split at h
    · rename_i e he
      cases h
      rw [he] at hvalue
      cases hvalue with
      | flaw hrest => exact hrest
    · rename_i j u hu
      split at h
      · cases h
      · cases h
        exact (skip_suffix u).trans (hu ▸ hvalue).suffix

/-- **The place that is told of a flaw** is the place behind what is read before it. -/
theorem message_of_flaw {kind : Flaw} (h : read t = .error (.flaw kind rest)) :
    ∃ before, t = before ++ rest ∧
      (Malformed.flaw kind rest).message t = kind.message ++ ": ".toList ++ placeBehind before := by
  obtain ⟨before, happ⟩ := suffix_of_flaw h
  refine ⟨before, happ.symm, ?_⟩
  rw [Malformed.message_flaw, ← happ, List.length_append, Nat.add_sub_cancel, List.take_left]

end ExportSchema.Json
