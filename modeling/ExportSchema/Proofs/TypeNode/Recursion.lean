import ExportSchema.Proofs.Bracket.Segment
import ExportSchema.Proofs.TypeNode.Dispatch
import ExportSchema.TypeNode.Parse

/-!
# Reading comes to an end

Reading a text calls for the texts of its layer. Each of them is shorter, so the calls form no
infinite chain, and the bound that `parseDepth` carries is never met.

* `Calls`: reading one text calls for reading another.
* `Wraps`: a text in layers of parentheses and blanks.

Results:
* `length_lt_of_mem_texts`: the texts of a layer are shorter than its text.
* `wellFounded_calls`: no chain of calls goes on for ever.
* `parse_eq`, `eq_parse`: a type is its layer, with the texts of the layer read in the same way, and
  no other function does so.
* `parse_trim`: blanks at the ends do not count.
* `close?_parenthesized_iff`: parentheses around a text match iff the text is nested.
* `parse_wraps`: layers of parentheses and blanks do not count.
-/

namespace ExportSchema.TypeNode

open Text (trim trimStart)
open Lexeme ExportSchema.Bracket

/-! ## Lengths of the texts of a layer -/

theorem length_dropReadonly_le (t : Text) : (dropReadonly t).length ≤ t.length := by
  unfold dropReadonly
  split
  · rename_i rest h
    have ht : "readonly ".toList ++ rest = t := List.isPrefixOf?_eq_some_iff_append_eq.mp h
    have := congrArg List.length ht
    rw [List.length_append] at this
    exact (Text.length_trim_le rest).trans (by omega)
  · exact Nat.le_refl _

/-- The type of a parameter is part of its text, or the keyword `any`. -/
theorem length_param_le (raw : Text) : (param raw).type.length ≤ max raw.length 3 := by
  cases h : cutAt? [':'] raw with
  | none =>
    have htype : (param raw).type = "any".toList := by simp only [param, h]
    rw [htype]
    exact Nat.le_max_right _ _
  | some cut =>
    have htype : (param raw).type = trim cut.2 := by simp only [param, h]
    have := length_cutAt? h
    have := Text.length_trim_le cut.2
    rw [htype]
    omega

theorem length_params_le {t : Text} {p : Param Text} (h : p ∈ params t) :
    p.type.length ≤ max t.length 3 := by
  obtain ⟨raw, hraw, rfl⟩ := List.mem_map.mp h
  have hle : raw.length ≤ t.length := (sublist_of_mem_pieces hraw).length_le
  have := length_param_le raw
  omega

/-- The type texts that a member holds. -/
def Member.texts : Member → List Text
  | .property p => p.type.texts
  | .index t => [t]

/-- The texts of a method are part of its signature and of its result, or the keyword `any`. -/
theorem length_methodMember? {head signature result : Text} {p : Property Part}
    (h : methodMember? head signature result = some p) :
    2 ≤ signature.length ∧
      ∀ u ∈ p.type.texts, u.length ≤ max (max signature.length 3) result.length := by
  unfold methodMember? at h
  obtain ⟨inside, hin, h⟩ := Option.bind_eq_some_iff.mp h
  have hlen := length_enclosed? rfl hin
  refine ⟨by omega, fun u hu => ?_⟩
  split at h
  · cases h
  · cases h
    obtain rfl : u = result := by simpa [Part.texts] using hu
    omega
  · cases h
    rcases List.mem_append.mp hu with hu | hu
    · obtain ⟨q, hq, rfl⟩ := List.mem_map.mp hu
      have := length_params_le hq
      omega
    · obtain rfl : u = result := by simpa using hu
      omega

theorem length_member? {raw : Text} {m : Member} (h : member? raw = some m) :
    ∀ u ∈ m.texts, u.length < raw.length + 2 := by
  unfold member? at h
  obtain ⟨⟨name, type⟩, hcut, h⟩ := Option.bind_eq_some_iff.mp h
  have hlen := length_cutAt? hcut
  have htype := Text.length_trim_le type
  have hname : (dropReadonly (trim name)).length ≤ name.length :=
    (length_dropReadonly_le _).trans (Text.length_trim_le name)
  simp only at h
  generalize dropReadonly (trim name) = n at h hname
  intro u hu
  split at h
  · cases h
    obtain rfl : u = trim type := by simpa [Member.texts] using hu
    omega
  split at h
  · cases h
  split at h
  · obtain ⟨p, hp, h⟩ := Option.bind_eq_some_iff.mp h
    cases h
    obtain ⟨htwo, hall⟩ := length_methodMember? hp
    have hsig : (trim (n.dropWhile (· ≠ '('))).length ≤ n.length :=
      (Text.length_trim_le _).trans (List.length_dropWhile_le _ _)
    have := hall u hu
    omega
  · cases h
    obtain rfl : u = trim type := by simpa [Member.texts, Part.texts] using hu
    omega

/-- The texts of an object type are those of its members. -/
theorem mem_texts_object {inside t u : Text}
    (h : u ∈ (Layer.plain t (.object ((members inside).filterMap Member.property?)
      (((members inside).filterMap Member.index?).getLast?.map Part.text))).texts) :
    ∃ m ∈ members inside, u ∈ m.texts := by
  obtain ⟨part, hpart, hu⟩ := List.mem_flatMap.mp h
  rcases List.mem_append.mp hpart with hp | hp
  · obtain ⟨p, hp', rfl⟩ := List.mem_map.mp hp
    obtain ⟨m, hm, hmp⟩ := List.mem_filterMap.mp hp'
    refine ⟨m, hm, ?_⟩
    cases m with
    | property q => cases hmp; exact hu
    | index i => cases hmp
  · obtain ⟨i, hi, rfl⟩ := Option.map_eq_some_iff.mp (Option.mem_toList.mp hp)
    obtain ⟨m, hm, hmi⟩ := List.mem_filterMap.mp (List.mem_of_getLast? hi)
    refine ⟨m, hm, ?_⟩
    cases m with
    | property q => cases hmi
    | index j => cases hmi; exact hu

theorem length_lt_of_generic {t base u : Text} {args : List Text}
    (h : generic? t = some (base, args)) (hu : u ∈ args) : u.length < t.length := by
  obtain ⟨gap, inside, c, rfl, -, -, -, rfl, -⟩ := generic?_eq_some h
  have := (sublist_of_mem_pieces hu).length_le
  simp only [List.length_append, List.length_cons]
  omega

theorem length_lt_of_construct {t u : Text} (h : u ∈ (construct t).texts) :
    u.length < t.length := by
  have hform := formed_construct t
  generalize construct t = l at h hform
  cases hform with
  | keyword | literal | nullish | verbatim => cases h
  | @suffix x ht =>
    obtain rfl : u = trim x := by simpa [Layer.texts, Layer.plain, Shape.parts, Part.texts] using h
    have := Text.length_trim_le x
    rw [ht, List.length_append, List.length_cons, List.length_singleton]
    omega
  | @array base element hg =>
    obtain rfl : u = element := by simpa [Layer.texts, Layer.plain, Shape.parts, Part.texts] using h
    exact length_lt_of_generic hg List.mem_cons_self
  | @component base props hg =>
    obtain rfl : u = props := by simpa [Layer.texts, Layer.plain, Shape.parts, Part.texts] using h
    exact length_lt_of_generic hg List.mem_cons_self
  | @object inside c ht hb =>
    obtain ⟨m, hm, hu⟩ := mem_texts_object h
    obtain ⟨raw, hraw, hmem⟩ := List.mem_filterMap.mp hm
    have hle : raw.length ≤ inside.length := (sublist_of_mem_pieces hraw).length_le
    have := length_member? hmem u hu
    rw [ht, List.length_cons, List.length_append, List.length_singleton]
    omega
  | @same m hbar hm =>
    obtain rfl : u = m := by simpa [Layer.texts] using h
    exact length_lt_of_mem_pieces hbar hm
  | @orNull m hbar hm =>
    obtain rfl : u = m := by simpa [Layer.texts] using h
    exact length_lt_of_mem_pieces hbar hm
  | union hbar =>
    have hu : u ∈ concrete t := by simpa [Layer.texts, Shape.parts, Part.texts] using h
    exact length_lt_of_mem_pieces hbar (List.mem_filter.mp hu).1
  | @function lead inner c gap rest ht =>
    have hlen : inner.length + rest.length + 4 ≤ t.length := by
      rw [ht]
      simp only [List.length_append, List.length_cons]
      omega
    obtain ⟨p, hp, rfl⟩ | rfl : (∃ p ∈ params inner, u = p.type) ∨ u = rest := by
      simpa [Layer.texts, Layer.plain, Shape.parts, Part.texts, Param.map] using h
    · have := length_params_le hp
      omega
    · omega

/-- **The texts of a layer are shorter than its text.** -/
theorem length_lt_of_mem_texts {t u : Text} (h : u ∈ (layer t).texts) : u.length < t.length := by
  have hle : (dropReadonly (trim t)).length ≤ t.length :=
    (length_dropReadonly_le _).trans (Text.length_trim_le t)
  unfold layer at h
  simp only at h
  split at h
  · rename_i inner hin
    obtain rfl : u = trim inner := by simpa [Layer.texts] using h
    have := length_enclosed? rfl hin
    have := Text.length_trim_le inner
    omega
  · exact Nat.lt_of_lt_of_le (length_lt_of_construct h) hle

/-! ## Calls -/

/-- Reading `t` calls for reading `u`. -/
def Calls (t u : Text) : Prop := u ∈ (layer t).texts

/-- **No chain of calls goes on for ever.** -/
theorem wellFounded_calls : WellFounded fun u t => Calls t u :=
  Subrelation.wf (fun h => length_lt_of_mem_texts h) (measure List.length).wf

/-! ## Reading layer by layer -/

theorem Part.build_congr {f g : Text → TypeNode} {p : Part} (h : ∀ u ∈ p.texts, f u = g u) :
    p.build f = p.build g := by
  cases p with
  | text t => exact h t (by simp [Part.texts])
  | method src params returns =>
    have hp : params.map (·.map f) = params.map (·.map g) := by
      refine List.map_congr_left fun q hq => ?_
      simp only [Param.map]
      rw [h q.type (List.mem_append_left _ (List.mem_map_of_mem hq))]
    simp only [Part.build, hp, h returns (by simp [Part.texts])]

/-- Two readers that agree on the texts of a layer complete it alike. -/
theorem Layer.build_congr {f g : Text → TypeNode} {l : Layer} (h : ∀ u ∈ l.texts, f u = g u) :
    l.build f = l.build g := by
  cases l with
  | node text nullable shape =>
    have hs : shape.map (·.build f) = shape.map (·.build g) :=
      Shape.map_congr fun p hp => Part.build_congr fun u hu => h u (List.mem_flatMap.mpr ⟨p, hp, hu⟩)
    simp only [Layer.build, hs]
  | same inner => exact h inner (by simp [Layer.texts])
  | orNull inner => simp only [Layer.build, h inner (by simp [Layer.texts])]

/-- Any depth beyond the length of the text gives the same type. -/
theorem parseDepth_congr {d d' : Nat} {t : Text} (h : t.length < d) (h' : t.length < d') :
    parseDepth d t = parseDepth d' t := by
  induction d generalizing d' t with
  | zero => omega
  | succ d ih =>
    cases d' with
    | zero => omega
    | succ d' =>
      rw [parseDepth, parseDepth]
      refine Layer.build_congr fun u hu => ?_
      have := length_lt_of_mem_texts hu
      exact ih (by omega) (by omega)

/-- **A type is its layer**, with the texts of the layer read in the same way. -/
theorem parse_eq (t : Text) : parse t = (layer t).build parse := by
  refine Layer.build_congr fun u hu => ?_
  exact parseDepth_congr (length_lt_of_mem_texts hu) (Nat.lt_succ_self _)

/-- The reader is the only function that satisfies its equation. -/
theorem eq_parse {f : Text → TypeNode} (hf : ∀ t, f t = (layer t).build f) (t : Text) :
    f t = parse t := by
  induction t using wellFounded_calls.induction with
  | h t ih => rw [hf, parse_eq, Layer.build_congr ih]

theorem layer_trim (t : Text) : layer (trim t) = layer t := by
  unfold layer
  rw [Text.trim_trim]

/-- Blanks at the ends do not count. -/
theorem parse_trim (t : Text) : parse (trim t) = parse t := by
  rw [parse_eq, layer_trim, ← parse_eq]

/-! ## Layers of parentheses -/

/-- Parentheses around the whole do not count. -/
theorem parse_parenthesized {t : Text} (h : Nested t) :
    parse ('(' :: (t ++ [')'])) = parse t := by
  rw [parse_eq, layer_parenthesized h]
  exact parse_trim t

/-- **Parentheses around a text match** iff the text is nested. -/
theorem close?_parenthesized_iff {t : Text} :
    close? ('(' :: (t ++ [')'])) 0 = some (t.length + 1) ↔ Nested t :=
  close?_around_iff rfl rfl (by decide)

/-- The text `u` is `t` in any number of layers of parentheses, with blanks around any of them. -/
inductive Wraps (t : Text) : Text → Prop
  | bare : Wraps t t
  | blanks {u : Text} (a b : Text) : Wraps t u → (∀ c ∈ a, Text.isBlank c = true) →
    (∀ c ∈ b, Text.isBlank c = true) → Wraps t (a ++ u ++ b)
  | parens {u : Text} : Wraps t u → Wraps t ('(' :: (u ++ [')']))

theorem Wraps.nested {t u : Text} (h : Wraps t u) (ht : Nested t) : Nested u := by
  induction h with
  | bare => exact ht
  | blanks a b _ ha hb ih =>
    exact ((nested_plain fun c hc => isPlain_of_isBlank (ha c hc)).append ih).append
      (nested_plain fun c hc => isPlain_of_isBlank (hb c hc))
  | parens _ ih => exact nested_group rfl (ih.closesBehind rfl fun heq => by cases heq)

/-- **Layers of parentheses do not count**, whatever blanks stand around them: a text whose
parentheses would match reads the same in any number of them. -/
theorem parse_wraps {t u : Text} (h : close? ('(' :: (t ++ [')'])) 0 = some (t.length + 1))
    (hu : Wraps t u) : parse u = parse t := by
  have ht : Nested t := close?_parenthesized_iff.mp h
  induction hu with
  | bare => rfl
  | @blanks u a b _ ha hb ih =>
    calc parse (a ++ u ++ b) = parse (trim (a ++ u ++ b)) := (parse_trim _).symm
      _ = parse (trim u) := by rw [Text.trim_append_right hb, Text.trim_append_left ha]
      _ = parse u := parse_trim u
      _ = parse t := ih
  | parens hu ih => rw [parse_parenthesized (hu.nested ht), ih]

/-- The text `(A) | (B)` starts and ends with parentheses that are not around the whole. -/
theorem parse_wraps_of_union :
    let t := "(A) | (B)".toList
    let u := "( ((A) | (B))\n)".toList
    close? ('(' :: (t ++ [')'])) 0 = some (t.length + 1) ∧ Wraps t u ∧ parse u = parse t := by
  intro t u
  have hclose : close? ('(' :: (t ++ [')'])) 0 = some (t.length + 1) := by decide
  have hwraps : Wraps t u := .parens (.blanks [' '] ['\n'] (.parens .bare) (by decide) (by decide))
  exact ⟨hclose, hwraps, parse_wraps hclose hwraps⟩

end ExportSchema.TypeNode
