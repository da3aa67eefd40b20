import ExportSchema.Module.Inference
import ExportSchema.Proofs.TypeNode.Recursion

/-!
# Reading one construct

What a text reads as when brackets, bars or an arrow decide its form. Each statement asks only for
what the parts have to be for that form to be the one, so printed types of every origin rest on it.

Results:
* `parse_suffix`: brackets behind a text make an array of what the text reads as.
* `build_construct_of_bar`, `build_construct_join`: a text with bars and no arrow is a union.
* `not_union_of_arrow`: a text with bars and an arrow is not.
* `parse_group_arrow`, `parse_arrowText`: a group and an arrow are a function, whatever stands behind
  the arrow.
-/

namespace ExportSchema.TypeNode

open Text (trim isBlank)
open Lexeme ExportSchema.Bracket

variable {t : Text} {ts : List Text}

/-! ## Brackets behind a text -/

/-- **Brackets behind a text make an array** of what the text reads as, when neither a bar nor an
arrow stands at its top level. -/
theorem parse_suffix {x : Text} (hne : x ≠ []) (htrim : trim x = x)
    (hmark : Text.after? "readonly ".toList (x ++ ['[', ']']) = none)
    (hbar : clearFrom ['|'] .start x = true) (harrow : find? arrow x = none) :
    parse (x ++ ['[', ']']) = .plain (x ++ ['[', ']']) (.array (parse x)) := by
  have hwhole : trim (x ++ ['[', ']']) = x ++ ['[', ']'] := by
    refine Text.trim_eq_self (fun d hd => ?_) fun d hd => ?_
    · rw [List.head?_append_of_ne_nil _ hne] at hd
      exact (Text.trim_eq_self_iff.mp htrim).1 d hd
    · rw [List.getLast?_append_of_ne_nil _ (by simp)] at hd
      cases hd
      rfl
  have hsuffix : Text.endsWith "[]".toList (x ++ ['[', ']']) = true :=
    List.isSuffixOf_iff_suffix.mpr ⟨x, rfl⟩
  have helement : (x ++ ['[', ']']).dropLast.dropLast = x := by
    rw [List.dropLast_append_of_ne_nil (by simp)]
    exact List.dropLast_concat
  have hempty : x.isEmpty = false := by simpa using hne
  have harray : arrayLayer (x ++ ['[', ']']) = some (.plain (x ++ ['[', ']']) (.array (.text x))) := by
    unfold arrayLayer arraySuffix?
    simp only [hsuffix, if_true, helement, htrim, hempty, hasTopLevel_eq, hbar,
      show find? "=>".toList x = none from harrow]
    rfl
  rw [parse_eq, layer_eq_construct hwhole hmark (enclosed?_of_suffix rfl (by decide) x),
    construct_eq_of_array harray]
  rfl

/-- Brackets behind parentheses make an array of what stands in them. -/
theorem parse_parenthesized_suffix (h : Nested t) :
    parse ('(' :: t ++ [')', '[', ']']) =
      .plain ('(' :: t ++ [')', '[', ']']) (.array (parse t)) := by
  have hgroup : ClosesBehind .start t ')' := h.closesBehind rfl fun h => by cases h
  have htext : '(' :: t ++ [')', '[', ']'] = ('(' :: (t ++ [')'])) ++ ['[', ']'] := by simp
  rw [htext, parse_suffix (by simp) (Text.trim_between rfl rfl t) rfl
    (clearFrom_group rfl hgroup rfl false) (find?_arrow_of_clear (clearFrom_group rfl hgroup rfl false)),
    parse_parenthesized h]

/-! ## Texts with bars -/

/-- A text with a bar and no arrow at the top level is the union of its pieces, or its only
piece. -/
theorem build_construct_of_bar (hbar : clearFrom ['|'] .start t = false)
    (harrow : find? arrow t = none) (hnull : ∀ p ∈ pieces ['|'] t, p ∉ nullishNames) :
    (construct t).build parse =
      match pieces ['|'] t with
      | [] => .plain t (.primitive "null".toList)
      | [m] => parse m
      | ms => .plain t (.union (ms.map parse)) := by
  have hconcrete : concrete t = pieces ['|'] t := by
    refine List.filter_eq_self.mpr fun p hp => ?_
    simpa using hnull p hp
  have hunion := unionLayer_of_bar hbar harrow
  rw [hconcrete] at hunion
  match hp : pieces ['|'] t, hunion with
  | [], hunion => rw [construct_eq_of_union hunion]; rfl
  | [m], hunion => rw [construct_eq_of_union hunion]; rfl
  | m :: n :: ms, hunion =>
    rw [construct_eq_of_union hunion]
    simp only [Layer.build, Shape.map, List.map_map, Nat.lt_irrefl, decide_false]
    rfl

/-- The pieces of trimmed texts with bars between them are these texts. -/
theorem pieces_bar_join
    (h : ∀ t ∈ ts, Nested t ∧ clearFrom ['|'] .start t = true ∧ trim t = t ∧ t ≠ []) :
    pieces ['|'] (Text.join " | ".toList ts) = ts :=
  pieces_join_of_clear
    ⟨[' '], '|', [' '], rfl, by decide, by decide, by decide, by decide, by decide⟩ h

/-- **Several texts with bars between them make a union** of what they read as, when no arrow stands
at the top level. -/
theorem build_construct_join (htwo : 2 ≤ ts.length)
    (h : ∀ t ∈ ts, Nested t ∧ clearFrom ['|'] .start t = true ∧ trim t = t ∧ t ≠ [])
    (hnull : ∀ t ∈ ts, t ∉ nullishNames)
    (harrow : find? arrow (Text.join " | ".toList ts) = none) :
    (construct (Text.join " | ".toList ts)).build parse =
      .plain (Text.join " | ".toList ts) (.union (ts.map parse)) := by
  have hbar := clearFrom_bar_join htwo fun t ht => (h t ht).1
  have hpieces := pieces_bar_join h
  rw [build_construct_of_bar hbar harrow fun p hp => hnull p (hpieces ▸ hp), hpieces]
  match ts, htwo with
  | t :: u :: ts, _ => rfl

/-- A text with a bar and an arrow at the top level is no union. -/
theorem not_union_of_arrow (hbar : clearFrom ['|'] .start t = false)
    (harrow : find? arrow t ≠ none) (members : List TypeNode) :
    ((construct t).build parse).shape ≠ .union members := by
  obtain ⟨h1, h2, h3, h4⟩ := others_of_bar hbar
  have h5 : unionLayer t = none :=
    Option.eq_none_iff_forall_not_mem.mpr fun l hl => harrow (unionLayer_isSome hl).2
  unfold construct
  rw [h1, h2, h3, h4, h5]
  cases hf : functionLayer t with
  | none =>
    intro h
    cases h
  | some l =>
    obtain ⟨lead, inner, c, gap, rest, -, -, -, -, rfl⟩ := functionLayer_eq_some_iff.mp hf
    intro h
    cases h

/-! ## A group and an arrow -/

theorem head?_of_typeParams {lead : Text} (h : TypeParams lead) (t : Text) :
    ∃ c, (lead ++ '(' :: t).head? = some c ∧ isOpener c = true := by
  cases h with
  | none => exact ⟨'(', rfl, rfl⟩
  | some => exact ⟨'<', rfl, rfl⟩

/-- A text that starts with a bracket and has an arrow at the top level is read by its form. -/
theorem layer_of_function {t : Text} {l : Layer} (ht : trim t = t) (h : functionLayer t = some l) :
    layer t = l := by
  obtain ⟨c, hhead, hopen, -⟩ := head?_of_function h
  have hreadonly : Text.after? "readonly ".toList t = none := by
    refine Option.eq_none_iff_forall_not_mem.mpr fun rest hrest => ?_
    have happ : "readonly ".toList ++ rest = t := List.isPrefixOf?_eq_some_iff_append_eq.mp hrest
    rw [← happ] at hhead
    cases hhead
    cases hopen
  -- an arrow at the top level is never inside one group
  have hclear : clearFrom ['='] .start t = false := by
    rw [← Bool.not_eq_true]
    exact fun hc => find?_arrow_of_function h (find?_arrow_of_clear hc)
  rw [layer_eq_construct ht hreadonly (enclosed?_of_not_clear rfl hclear rfl),
    construct_eq_of_function h]

/-- A group, whatever bracket closes it, and an arrow are a function. -/
theorem parse_group_arrow {lead inner : Text} {c : Char} (hl : TypeParams lead)
    (hb : ClosesBehind .start inner c) (returns : Text) :
    parse (lead ++ '(' :: (inner ++ [c]) ++ " => ".toList ++ returns) =
      .plain (trim (lead ++ '(' :: (inner ++ [c]) ++ " => ".toList ++ returns))
        (.function ((params inner).map (·.map parse)) (parse returns)) := by
  have htext : lead ++ '(' :: (inner ++ [c]) ++ " => ".toList ++ returns =
      (lead ++ '(' :: (inner ++ [c, ' ', '='])) ++ '>' :: ' ' :: returns := by
    simp
  obtain ⟨rest, htrim, hrest⟩ := Text.trim_cons_eq (c := '>') rfl (' ' :: returns)
  have hwhole : trim (lead ++ '(' :: (inner ++ [c]) ++ " => ".toList ++ returns) =
      lead ++ '(' :: (inner ++ c :: ([' '] ++ '=' :: '>' :: rest)) := by
    obtain ⟨d, hhead, hopen⟩ := head?_of_typeParams hl (inner ++ [c, ' ', '='])
    rw [htext, Text.trim_append (fun x hx => ?_) rfl rfl, htrim]
    · simp
    · rw [hhead] at hx
      cases hx
      rw [← Bool.not_eq_true]
      exact fun hblank => by simpa [isPlain, hopen] using isPlain_of_isBlank hblank
  have hfun := functionLayer_eq_some_iff.mpr
    ⟨lead, inner, c, [' '], rest, hwhole, hl, hb, by decide, rfl⟩
  have hreturns : parse rest = parse returns := by
    rw [← parse_trim rest, hrest, Text.trim_cons rfl, parse_trim]
  rw [← parse_trim, parse_eq, layer_of_function (Text.trim_trim _) hfun]
  simp only [Layer.plain, Layer.build, Shape.map, List.map_map, Part.build, hreturns]
  rfl

/-- **A group and an arrow are a function**, whatever stands behind the arrow. -/
theorem parse_arrowText {lead inner : Text} (hl : TypeParams lead) (h : Nested inner)
    (returns : Text) :
    parse (Module.arrowText lead inner returns) = .plain (trim (Module.arrowText lead inner returns))
      (.function ((params inner).map (·.map parse)) (parse returns)) := by
  have htext : Module.arrowText lead inner returns =
      lead ++ '(' :: (inner ++ [')']) ++ " => ".toList ++ returns := by
    simp [Module.arrowText]
  rw [htext]
  exact parse_group_arrow hl (h.closesBehind rfl fun h => by cases h) returns

end ExportSchema.TypeNode
