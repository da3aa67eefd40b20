import ExportSchema.TypeNode.Layer
import ExportSchema.Proofs.Bracket.TopLevel

/-!
# The forms of type text

What each of the six forms says about the text that has it, and what it makes of it. Everything
else about reading is derived from these statements.

Results:
* `dottedFrom_eq_append`: a dotted name is the start of its text.
* `generic?_eq_some`, `arrayLayer_eq_some`, `componentLayer_eq_some`, `objectLayer_eq_some`,
  `unionLayer_eq_some`, `functionLayer_eq_some`: the shape of a text that has the form.
-/

namespace ExportSchema.TypeNode

open Text (trim trimStart isBlank)
open Lexeme ExportSchema.Bracket

/-! ## Names at the start -/

theorem dottedFrom_eq_append {b : Bool} {t name rest : Text}
    (h : dottedFrom b t = some (name, rest)) : t = name ++ rest := by
  induction t generalizing b name rest with
  | nil =>
    rw [dottedFrom] at h
    split at h
    · cases h
    · cases h; rfl
  | cons c t ih =>
    have step : ∀ {b' : Bool}, (dottedFrom b' t).map (fun p => (c :: p.1, p.2)) = some (name, rest) →
        c :: t = name ++ rest := by
      intro b' hb
      obtain ⟨⟨n, r⟩, hn, he⟩ := Option.map_eq_some_iff.mp hb
      cases he
      rw [ih hn]
      rfl
    rw [dottedFrom] at h
    split at h
    · split at h
      · exact step h
      · cases h
    · split at h
      · exact step h
      · split at h
        · exact step h
        · cases h; rfl

/-- A character of a dotted name. -/
def isDottedChar (c : Char) : Bool := isNameStart c || isNameChar c || c = '.'

theorem dottedFrom_chars {b : Bool} {t name rest : Text}
    (h : dottedFrom b t = some (name, rest)) : ∀ c ∈ name, isDottedChar c = true := by
  induction t generalizing b name rest with
  | nil =>
    rw [dottedFrom] at h
    split at h
    · cases h
    · cases h; simp
  | cons c t ih =>
    have step : ∀ {b' : Bool}, isDottedChar c = true →
        (dottedFrom b' t).map (fun p => (c :: p.1, p.2)) = some (name, rest) →
        ∀ x ∈ name, isDottedChar x = true := by
      intro b' hc hb
      obtain ⟨⟨n, r⟩, hn, he⟩ := Option.map_eq_some_iff.mp hb
      cases he
      intro x hx
      rcases List.mem_cons.mp hx with rfl | hx
      · exact hc
      · exact ih hn x hx
    rw [dottedFrom] at h
    split at h
    · split at h
      · rename_i hs
        exact step (by simp [isDottedChar, hs]) h
      · cases h
    · split at h
      · rename_i hs
        exact step (by simp [isDottedChar, hs]) h
      · split at h
        · rename_i hs
          exact step (by simp [isDottedChar, hs]) h
        · cases h; simp

theorem dottedName?_head {t name rest : Text} (h : dottedName? t = some (name, rest)) :
    ∃ c u, t = c :: u ∧ isNameStart c = true := by
  cases t with
  | nil => cases h
  | cons c u =>
    refine ⟨c, u, rfl, ?_⟩
    by_contra hc
    rw [dottedName?, dottedFrom, if_pos rfl, if_neg hc] at h
    cases h

/-! ## The six forms -/

/-- A text `Base<…>`: a dotted name, blanks, and one group in angle brackets. -/
theorem generic?_eq_some {t base : Text} {args : List Text} (h : generic? t = some (base, args)) :
    ∃ gap inside c, t = base ++ (gap ++ '<' :: (inside ++ [c])) ∧ ClosesBehind .start inside c ∧
      (∀ x ∈ gap, isBlank x = true) ∧ (∀ x ∈ base, isDottedChar x = true) ∧
      args = pieces [','] inside ∧ ∃ d u, t = d :: u ∧ isNameStart d = true := by
  unfold generic? at h
  obtain ⟨⟨name, rest⟩, hname, h⟩ := Option.bind_eq_some_iff.mp h
  obtain ⟨inside, hin, h⟩ := Option.bind_eq_some_iff.mp h
  cases h
  obtain ⟨c, hc, hb⟩ := (enclosed?_eq_some_iff rfl).mp hin
  refine ⟨rest.takeWhile isBlank, inside, c, ?_, hb, fun x hx => List.mem_takeWhile_imp hx,
    dottedFrom_chars hname, rfl, dottedName?_head hname⟩
  rw [Text.trimStart_eq] at hc
  rw [← hc, List.takeWhile_append_dropWhile]
  exact dottedFrom_eq_append hname

/-- An array is a text with brackets behind an atomic type, or a generic type of an array. -/
theorem arrayLayer_eq_some {t : Text} {l : Layer} (h : arrayLayer t = some l) :
    (∃ x, t = x ++ ['[', ']'] ∧ trim x ≠ [] ∧ clearFrom ['|'] .start (trim x) = true ∧
        find? arrow (trim x) = none ∧ l = .plain t (.array (.text (trim x)))) ∨
      ∃ base element, ¬ ['[', ']'] <:+ t ∧ generic? t = some (base, [element]) ∧
        arrayBases.contains base = true ∧ l = .plain t (.array (.text element)) := by
  unfold arrayLayer at h
  split at h
  · rename_i hs
    obtain ⟨x, rfl⟩ := List.isSuffixOf_iff_suffix.mp hs
    obtain ⟨element, he, rfl⟩ := Option.map_eq_some_iff.mp h
    unfold arraySuffix? at he
    have hx : (x ++ "[]".toList).dropLast.dropLast = x := by
      show (x ++ ['[', ']']).dropLast.dropLast = x
      rw [List.dropLast_append_of_ne_nil (by simp)]
      exact List.dropLast_concat
    rw [hx] at he
    simp only at he
    split at he
    · cases he
    · rename_i hcond
      cases he
      simp only [Bool.or_eq_true, not_or, List.isEmpty_iff, hasTopLevel_eq, Bool.not_eq_true',
        Bool.not_eq_false, Option.isSome_iff_ne_none, not_not] at hcond
      exact Or.inl ⟨x, rfl, hcond.1.1, hcond.1.2, hcond.2, rfl⟩
  · rename_i hs
    split at h
    · rename_i base element hg
      split at h
      · rename_i hb
        cases h
        refine Or.inr ⟨base, element, fun hx => hs ?_, hg, hb, rfl⟩
        exact List.isSuffixOf_iff_suffix.mpr hx
      · cases h
    · cases h

theorem componentLayer_eq_some {t : Text} {l : Layer} (h : componentLayer t = some l) :
    ∃ base props, generic? t = some (base, [props]) ∧
      componentBases.contains ((Text.after? "React.".toList base).getD base) = true ∧
      l = .plain t (.component (.text props)) := by
  unfold componentLayer at h
  split at h
  · rename_i base props hg
    split at h
    · rename_i hb
      cases h
      exact ⟨base, props, hg, hb, rfl⟩
    · cases h
  · cases h

theorem objectLayer_eq_some {t : Text} {l : Layer} (h : objectLayer t = some l) :
    ∃ inside c, t = '{' :: (inside ++ [c]) ∧ ClosesBehind .start inside c ∧
      l = .plain t (.object ((members inside).filterMap Member.property?)
        (((members inside).filterMap Member.index?).getLast?.map Part.text)) := by
  unfold objectLayer at h
  obtain ⟨inside, hin, h⟩ := Option.bind_eq_some_iff.mp h
  cases h
  obtain ⟨c, hc, hb⟩ := (enclosed?_eq_some_iff rfl).mp hin
  exact ⟨inside, c, hc, hb, rfl⟩

/-- The members of a union that are neither `null` nor `undefined`. -/
def concrete (t : Text) : List Text := (pieces ['|'] t).filter (!nullishNames.contains ·)

/-- A union has a bar and no arrow at the top level. -/
theorem unionLayer_of_bar {t : Text} (hbar : clearFrom ['|'] .start t = false)
    (harrow : find? arrow t = none) :
    unionLayer t =
      match pieces ['|'] t, concrete t with
      | [m], _ => some (.same m)
      | _, [] => some (.plain t (.primitive "null".toList))
      | _, [m] => some (.orNull m)
      | _, _ => some (.node t ((concrete t).length < (pieces ['|'] t).length)
        (.union ((concrete t).map Part.text))) := by
  unfold unionLayer
  have harrow' : (find? "=>".toList t).isSome = false := by
    rw [← Bool.not_eq_true, Option.not_isSome_iff_eq_none]
    exact harrow
  rw [hasTopLevel_eq, hbar, harrow']
  rfl

theorem unionLayer_isSome {t : Text} {l : Layer} (h : unionLayer t = some l) :
    clearFrom ['|'] .start t = false ∧ find? arrow t = none := by
  unfold unionLayer at h
  split at h
  · cases h
  · rename_i hcond
    simp only [Bool.or_eq_true, not_or, hasTopLevel_eq, Bool.not_not,
      Bool.not_eq_true] at hcond
    exact ⟨hcond.1, by simpa using hcond.2⟩

/-- A union is one of its members, `null`, or two members or more. -/
theorem unionLayer_eq_some {t : Text} {l : Layer} (h : unionLayer t = some l) :
    (∃ m ∈ pieces ['|'] t, l = .same m ∨ l = .orNull m) ∨
      l = .plain t (.primitive "null".toList) ∨
      (2 ≤ (concrete t).length ∧ ∃ b, l = .node t b (.union ((concrete t).map Part.text))) := by
  obtain ⟨hbar, harrow⟩ := unionLayer_isSome h
  rw [unionLayer_of_bar hbar harrow] at h
  split at h
  · rename_i m hm
    cases h
    exact Or.inl ⟨m, by rw [hm]; simp, Or.inl rfl⟩
  · cases h
    exact Or.inr (Or.inl rfl)
  · rename_i m hm _
    cases h
    have : m ∈ concrete t := by rw [hm]; simp
    exact Or.inl ⟨m, (List.mem_filter.mp this).1, Or.inr rfl⟩
  · rename_i h0 h1
    cases h
    refine Or.inr (Or.inr ⟨?_, _, rfl⟩)
    match hc : concrete t, h0, h1 with
    | [], h0, _ => exact absurd rfl h0
    | [m], _, h1 => exact absurd rfl (h1 m)
    | _ :: _ :: _, _, _ => simp

/-- Type parameters at the start of a text, with the blanks behind them, or nothing. -/
inductive TypeParams : Text → Prop
  | none : TypeParams []
  | some {inner : Text} {c : Char} {gap : Text} (hb : ClosesBehind .start inner c)
      (hgap : ∀ x ∈ gap, isBlank x = true) : TypeParams ('<' :: (inner ++ c :: gap))

theorem startsWith_singleton {x c : Char} {t : Text} :
    Text.startsWith [x] (c :: t) = true ↔ c = x := by
  simp only [Text.startsWith, List.isPrefixOf, Bool.and_true, beq_iff_eq]
  exact eq_comm

theorem drop_group (o : Char) (inner : Text) (c : Char) (rest : Text) :
    (o :: (inner ++ c :: rest)).drop (inner.length + 1 + 1) = rest := by
  rw [List.drop_succ_cons, List.append_cons, List.drop_append_of_le_length (by simp),
    List.drop_eq_nil_of_le (by simp), List.nil_append]

theorem trimStart_append {gap u : Text} (hgap : ∀ x ∈ gap, isBlank x = true)
    (hu : ∀ x, u.head? = some x → isBlank x = false) : trimStart (gap ++ u) = u := by
  rw [Text.trimStart_eq, List.dropWhile_append_of_pos hgap]
  cases u with
  | nil => rfl
  | cons x u => rw [List.dropWhile_cons_of_neg (by simp [hu x rfl])]

theorem dropTypeParams?_append {lead u : Text} (hl : TypeParams lead) (hu : u.head? = some '(') :
    dropTypeParams? (lead ++ u) = some u := by
  unfold dropTypeParams?
  cases hl with
  | none =>
    cases u with
    | nil => rfl
    | cons x u => cases hu; rfl
  | @some inner c gap hb hgap =>
    have ht : '<' :: (inner ++ c :: gap) ++ u = '<' :: (inner ++ c :: (gap ++ u)) := by simp
    rw [ht, close?_group rfl hb, Option.map_some, drop_group, trimStart_append hgap]
    · rfl
    · intro x hx
      rw [hu] at hx
      cases hx
      rfl

theorem dropTypeParams?_eq_some {t u : Text} (h : dropTypeParams? t = some u)
    (hu : u.head? = some '(') : ∃ lead, t = lead ++ u ∧ TypeParams lead := by
  unfold dropTypeParams? at h
  cases t with
  | nil => cases h; cases hu
  | cons x t =>
    split at h
    · rename_i hx
      obtain rfl := startsWith_singleton.mp hx
      obtain ⟨k, hk, rfl⟩ := Option.map_eq_some_iff.mp h
      obtain ⟨inner, c, rest, rfl, rfl, hb⟩ := (close?_eq_some_iff rfl).mp hk
      rw [drop_group, Text.trimStart_eq]
      refine ⟨'<' :: (inner ++ c :: rest.takeWhile isBlank), ?_,
        .some hb fun x hx => List.mem_takeWhile_imp hx⟩
      simp [List.takeWhile_append_dropWhile]
    · cases h
      exact ⟨[], rfl, .none⟩

/-- A group in parentheses is clear of equals signs, so an arrow is found behind it. -/
theorem find?_arrow_group {inner : Text} {c : Char} (hb : ClosesBehind .start inner c) (u : Text) :
    find? arrow ('(' :: (inner ++ c :: u)) =
      (findFrom arrow .start u).map (· + (inner.length + 2)) := by
  have hg : clearFrom ['='] .start ('(' :: (inner ++ [c])) = true :=
    clearFrom_group rfl hb rfl false
  have happ : '(' :: (inner ++ c :: u) = ('(' :: (inner ++ [c])) ++ u := by simp
  have hrun : State.start.run ('(' :: (inner ++ [c])) = .start := run_group rfl hb 0 false
  unfold find?
  rw [happ, findFrom_append_of_clear hg, hrun]
  simp

/-- What the parts of a signature are, by position. -/
theorem signature_parts (inner : Text) (c : Char) (gap rest : Text) :
    let t : Text := '(' :: (inner ++ c :: (gap ++ '=' :: '>' :: rest))
    (t.take (inner.length + 1)).drop 1 = inner ∧
      (t.take (gap.length + (inner.length + 2))).drop (inner.length + 1 + 1) = gap ∧
      t.drop (gap.length + (inner.length + 2) + 2) = rest := by
  refine ⟨by simp, ?_, ?_⟩
  · have hlen : gap.length + (inner.length + 2) - (inner.length + 1 + 1) = gap.length := by omega
    rw [List.drop_take, drop_group, hlen, List.take_left]
  · have hlen : gap.length + (inner.length + 2) + 2 = (inner.length + 1 + 1) + (gap.length + 2) := by
      omega
    rw [hlen, ← List.drop_drop, drop_group, ← List.drop_drop, List.drop_left]
    rfl

/-- **A function type** is a group in parentheses and an arrow, behind optional type parameters. -/
theorem functionLayer_eq_some_iff {t : Text} {l : Layer} :
    functionLayer t = some l ↔
      ∃ lead inner c gap rest, t = lead ++ '(' :: (inner ++ c :: (gap ++ '=' :: '>' :: rest)) ∧
        TypeParams lead ∧ ClosesBehind .start inner c ∧ (∀ x ∈ gap, isBlank x = true) ∧
        l = .plain t (.function ((params inner).map (·.map Part.text)) (.text rest)) := by
  constructor
  · intro h
    unfold functionLayer at h
    obtain ⟨signature, hsig, h⟩ := Option.bind_eq_some_iff.mp h
    cases signature with
    | nil => cases h
    | cons x u =>
      split at h
      · cases h
      · rename_i hopen
        obtain rfl := startsWith_singleton.mp (by simpa using hopen)
        obtain ⟨close, hclose, h⟩ := Option.bind_eq_some_iff.mp h
        obtain ⟨inner, c, u, rfl, rfl, hb⟩ := (close?_eq_some_iff rfl).mp hclose
        obtain ⟨at_, harrow, h⟩ := Option.bind_eq_some_iff.mp h
        obtain ⟨i, hi, rfl⟩ := Option.map_eq_some_iff.mp ((find?_arrow_group hb u).symm.trans harrow)
        obtain ⟨rest, hrest⟩ := drop_of_findFrom_arrow hi
        have hu : u = u.take i ++ '=' :: '>' :: rest := by rw [← hrest, List.take_append_drop]
        have hlen : (u.take i).length = i := by
          have := congrArg List.length hrest
          simp only [List.length_drop, List.length_cons] at this
          rw [List.length_take]
          omega
        obtain ⟨hin, hgap, hret⟩ := signature_parts inner c (u.take i) rest
        rw [hlen, ← hu] at hgap hret
        rw [← hu] at hin
        obtain ⟨lead, ht, hl⟩ := dropTypeParams?_eq_some hsig rfl
        rw [hgap] at h
        split at h
        · cases h
        · rename_i hblank
          cases h
          refine ⟨lead, inner, c, u.take i, rest, by rw [← hu]; exact ht, hl, hb, ?_, ?_⟩
          · exact Text.forall_blank_of_trim_eq_nil (by simpa using hblank)
          · rw [hin, hret]
  · rintro ⟨lead, inner, c, gap, rest, rfl, hl, hb, hgap, rfl⟩
    obtain ⟨hin, hgap', hret⟩ := signature_parts inner c gap rest
    have hclear : clearFrom ['='] .start gap = true :=
      clearFrom_of_forall (fun x hx => by simp [ne_eq_of_isBlank (hgap x hx)]) _
    have harrow : find? arrow ('(' :: (inner ++ c :: (gap ++ '=' :: '>' :: rest))) =
        some (gap.length + (inner.length + 2)) := by
      have hfound : findFrom arrow .start (gap ++ '=' :: '>' :: rest) = some gap.length :=
        find?_arrow_append hclear (by rw [run_blank hgap]; rfl) rest
      rw [find?_arrow_group hb, hfound]
      rfl
    refine Option.bind_eq_some_iff.mpr ⟨_, dropTypeParams?_append hl rfl, ?_⟩
    rw [if_neg (by simp [startsWith_singleton.mpr])]
    refine Option.bind_eq_some_iff.mpr ⟨_, close?_group rfl hb _, ?_⟩
    refine Option.bind_eq_some_iff.mpr ⟨_, harrow, ?_⟩
    rw [hgap', Text.trim_eq_nil_of_forall hgap, hin, hret]
    rfl

end ExportSchema.TypeNode
