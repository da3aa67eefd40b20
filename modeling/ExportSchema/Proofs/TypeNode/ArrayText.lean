import ExportSchema.Proofs.TypeNode.Construct
import ExportSchema.Proofs.TypeNode.Sound

/-!
# Array types read back

The type of an array literal is printed from the types of its elements. One type goes in parentheses
when a bar or an arrow is in it; several go in parentheses with bars between them, each as it is. An
arrow owns all that follows it, so a function among several types takes the others in.

* `ElementText`: a type text that may be the type of an element.

Results:
* `parse_wrapped`: one element type reads back, whatever it is.
* `not_union_of_readonly`: a first type `readonly` is taken for a mark, and lost.
* `parse_join_iff`: when several element types read back as their union.
* `array_reads_back_iff`: when the printed type of an array reads back.
-/

namespace ExportSchema.TypeNode

open Text (trim isBlank)
open Lexeme ExportSchema.Bracket

/-- The mark in front of an array type that does not count. -/
abbrev readonlyMark : Text := "readonly ".toList

/-- A type text that may be the type of an element: trimmed, not empty, properly nested, with no
`readonly` in front, and neither `null` nor `undefined`. -/
structure ElementText (t : Text) : Prop where
  trimmed : trim t = t
  nonempty : t ≠ []
  nested : Nested t
  unmarked : Text.startsWith readonlyMark t = false
  concrete : t ∉ nullishNames

instance (t : Text) : Decidable (ElementText t) :=
  decidable_of_iff (trim t = t ∧ t ≠ [] ∧ Nested t ∧ Text.startsWith readonlyMark t = false ∧
    nullishNames.contains t = false)
    ⟨fun ⟨a, b, c, d, e⟩ => ⟨a, b, c, d, by simpa using e⟩,
      fun ⟨a, b, c, d, e⟩ => ⟨a, b, c, d, by simpa using e⟩⟩

variable {t : Text}

theorem ElementText.head? (h : ElementText t) : ∃ c, t.head? = some c ∧ isBlank c = false := by
  cases ht : t with
  | nil => exact absurd ht h.nonempty
  | cons c cs => exact ⟨c, rfl, (Text.trim_eq_self_iff.mp h.trimmed).1 c (by rw [ht]; rfl)⟩

theorem ElementText.piece (h : ElementText t) (hflat : clearFrom ['|'] .start t = true) :
    Nested t ∧ clearFrom ['|'] .start t = true ∧ trim t = t ∧ t ≠ [] :=
  ⟨h.nested, hflat, h.trimmed, h.nonempty⟩

/-! ## The mark in front -/

theorem after?_eq_none {word : Text} (h : Text.startsWith word t = false) :
    Text.after? word t = none := by
  refine Option.eq_none_iff_forall_not_mem.mpr fun rest hrest => ?_
  have happ : word ++ rest = t := List.isPrefixOf?_eq_some_iff_append_eq.mp hrest
  rw [Text.startsWith, ← Bool.not_eq_true] at h
  exact h (List.isPrefixOf_iff_prefix.mpr ⟨rest, happ⟩)

/-- A word that starts a text only together with what follows goes beyond the text. -/
theorem prefix_of_startsWith_append {word u : Text} {c : Char}
    (h : Text.startsWith word t = false) (hu : Text.startsWith word (t ++ c :: u) = true) :
    t ++ [c] <+: word := by
  have hword := List.isPrefixOf_iff_prefix.mp hu
  have htext : t ++ [c] <+: t ++ c :: u := ⟨u, by simp⟩
  rcases Nat.lt_or_ge t.length word.length with hlt | hge
  · exact List.prefix_of_prefix_length_le htext hword (by simpa [Nat.succ_le_iff] using hlt)
  · have hin : word <+: t :=
      List.prefix_of_prefix_length_le hword (List.prefix_append t _) hge
    rw [Text.startsWith, List.isPrefixOf_iff_prefix.mpr hin] at h
    cases h

theorem ElementText.unmarked_append (h : ElementText t) {c : Char} (hc : c ∉ readonlyMark)
    (u : Text) : Text.startsWith readonlyMark (t ++ c :: u) = false := by
  rw [← Bool.not_eq_true]
  intro hu
  exact hc ((prefix_of_startsWith_append h.unmarked hu).subset (by simp))

/-- Only the bare word `readonly` is taken for the mark when a blank follows. -/
theorem ElementText.eq_readonly (h : ElementText t) {u : Text}
    (hu : Text.startsWith readonlyMark (t ++ ' ' :: u) = true) : t = "readonly".toList := by
  have hpre : t ++ [' '] <+: "readonly".toList ++ [' '] := prefix_of_startsWith_append h.unmarked hu
  rcases List.prefix_concat_iff.mp hpre with heq | hpre
  · exact (List.append_inj' heq rfl).1
  · exact absurd (hpre.subset (by simp) : ' ' ∈ "readonly".toList) (by decide)

/-! ## One element type -/

theorem hasPiece_of_findFrom {token : Text} {s : State} {i : Nat}
    (h : findFrom token s t = some i) : Text.hasPiece token t = true := by
  induction t generalizing s i with
  | nil => cases h
  | cons c t ih =>
    rw [Text.hasPiece, Bool.or_eq_true]
    rw [findFrom] at h
    split at h
    · rename_i hc
      exact Or.inl hc.2
    · obtain ⟨j, hj, -⟩ := Option.map_eq_some_iff.mp h
      exact Or.inr (ih hj)

/-- **One element type reads back**, whatever it is: a text with a bar or an arrow is in
parentheses. -/
theorem parse_wrapped (h : ElementText t) :
    parse (Module.wrapped t ++ "[]".toList) =
      .plain (Module.wrapped t ++ "[]".toList) (.array (parse t)) := by
  show parse (Module.wrapped t ++ ['[', ']']) = .plain (Module.wrapped t ++ ['[', ']']) _
  unfold Module.wrapped
  split
  · have htext : '(' :: t ++ [')'] ++ ['[', ']'] = '(' :: t ++ [')', '[', ']'] := by simp
    rw [htext]
    exact parse_parenthesized_suffix h.nested
  · rename_i hcond
    obtain ⟨hbar, harrow⟩ : '|' ∉ t ∧ Text.hasPiece "=>".toList t = false := by
      simpa using hcond
    have hmark := after?_eq_none (h.unmarked_append (c := '[') (by decide) [']'])
    refine parse_suffix h.nonempty h.trimmed hmark ?_ ?_
    · refine clearFrom_of_forall (fun d hd => ?_) _
      rw [← Bool.not_eq_true, List.contains_iff_mem, List.mem_singleton]
      rintro rfl
      exact hbar hd
    · refine Option.eq_none_iff_forall_not_mem.mpr fun i hi => ?_
      have hpiece : Text.hasPiece "=>".toList t = true := hasPiece_of_findFrom hi
      rw [hpiece] at harrow
      cases harrow

/-! ## Several element types -/

variable {ts : List Text}

theorem head?_join (h : ElementText t) (sep : Text) (ts : List Text) :
    ∃ c, (Text.join sep (t :: ts)).head? = some c ∧ isBlank c = false := by
  obtain ⟨c, hc, hb⟩ := h.head?
  refine ⟨c, ?_, hb⟩
  cases ts with
  | nil => exact hc
  | cons u ts => rw [Text.join, List.append_assoc, List.head?_append, hc, Option.some_or]

theorem trim_join {ts : List Text} (sep : Text) (h : ∀ t ∈ ts, ElementText t) :
    trim (Text.join sep ts) = Text.join sep ts := by
  match ts, h with
  | [], _ => rfl
  | [t], h => exact (h t List.mem_cons_self).trimmed
  | t :: u :: ts, h =>
    have ih := trim_join sep fun x hx => h x (List.mem_cons_of_mem t hx)
    obtain ⟨c, hc, hb⟩ := head?_join (h u (by simp)) sep ts
    rw [Text.join, Text.trim_append (fun d hd => ?_) hc hb, ih]
    obtain ⟨e, he, hblank⟩ := (h t List.mem_cons_self).head?
    rw [List.head?_append, he] at hd
    cases hd
    exact hblank

/-- A first type `readonly` is taken for the mark, and what is left starts with a bar. -/
theorem layer_readonly_join {u : Text} (h : ∀ t ∈ u :: ts, ElementText t) :
    layer (Text.join " | ".toList ("readonly".toList :: u :: ts)) =
      construct ('|' :: ' ' :: Text.join " | ".toList (u :: ts)) := by
  obtain ⟨c, hc, hb⟩ := head?_join (h u List.mem_cons_self) " | ".toList ts
  have hrest := trim_join " | ".toList h
  have hkept : trim ('|' :: ' ' :: Text.join " | ".toList (u :: ts)) =
      '|' :: ' ' :: Text.join " | ".toList (u :: ts) := by
    have happ := Text.trim_append (a := ['|', ' ']) (fun d hd => by cases hd; rfl) hc hb
    rw [hrest] at happ
    exact happ
  have hwhole : trim (Text.join " | ".toList ("readonly".toList :: u :: ts)) =
      Text.join " | ".toList ("readonly".toList :: u :: ts) :=
    trim_join _ fun t ht => by
      rcases List.mem_cons.mp ht with rfl | ht
      · decide
      · exact h t ht
  have hafter : Text.after? readonlyMark (Text.join " | ".toList ("readonly".toList :: u :: ts)) =
      some ('|' :: ' ' :: Text.join " | ".toList (u :: ts)) := by
    rw [join_bar_cons]
    rfl
  unfold layer dropReadonly
  simp only [hwhole, hafter, hkept, enclosed?_of_head (o := '(')
    (t := '|' :: ' ' :: Text.join " | ".toList (u :: ts)) (by simp)]

/-- A first type `readonly` is lost, so the types do not read back as their union. -/
theorem not_union_of_readonly {u : Text} (h : ∀ t ∈ u :: ts, ElementText t)
    (hflat : ∀ t ∈ u :: ts, clearFrom ['|'] .start t = true) :
    (parse (Text.join " | ".toList ("readonly".toList :: u :: ts))).shape ≠
      .union (("readonly".toList :: u :: ts).map parse) := by
  have hbar : clearFrom ['|'] .start ('|' :: ' ' :: Text.join " | ".toList (u :: ts)) = false := rfl
  have hpieces : pieces ['|'] ('|' :: ' ' :: Text.join " | ".toList (u :: ts)) = u :: ts := by
    have happ : pieces ['|'] ([] ++ '|' :: ' ' :: Text.join " | ".toList (u :: ts)) =
        pieces ['|'] [] ++ pieces ['|'] (' ' :: Text.join " | ".toList (u :: ts)) :=
      pieces_append nested_nil rfl (by decide) rfl _
    rw [pieces_cons_blank rfl rfl, pieces_bar_join fun t ht => (h t ht).piece (hflat t ht)] at happ
    exact happ
  rw [parse_eq, layer_readonly_join h]
  by_cases harrow : find? arrow ('|' :: ' ' :: Text.join " | ".toList (u :: ts)) = none
  · rw [build_construct_of_bar hbar harrow fun p hp => (h p (hpieces ▸ hp)).concrete, hpieces]
    cases ts with
    | nil =>
      -- the second type would be a member of itself
      intro hshape
      have hmem : parse u ∈ (parse u).shape.parts := by
        rw [show (parse u).shape = .union _ from hshape]
        simp [Shape.parts]
      exact absurd (TypeNode.sizeOf_lt_of_mem_parts hmem) (Nat.lt_irrefl _)
    | cons v ts =>
      intro hshape
      have hlen := congrArg List.length (Shape.union.inj hshape)
      simp at hlen
  · exact not_union_of_arrow hbar harrow _

/-- **When several element types read back as their union**: none of them has an arrow at the top
level, and the first is not the word `readonly`. -/
theorem parse_join_iff (htwo : 2 ≤ ts.length) (h : ∀ t ∈ ts, ElementText t)
    (hflat : ∀ t ∈ ts, clearFrom ['|'] .start t = true) :
    (parse (Text.join " | ".toList ts)).nullable = false ∧
        (parse (Text.join " | ".toList ts)).shape = .union (ts.map parse) ↔
      (∀ t ∈ ts, find? arrow t = none) ∧ ts.head? ≠ some "readonly".toList := by
  match ts, htwo, h, hflat with
  | t :: u :: ts, htwo, h, hflat =>
    have hbar := clearFrom_bar_join htwo fun x hx => (h x hx).nested
    rw [← find?_arrow_join fun x hx => (h x hx).nested]
    by_cases hread : t = "readonly".toList
    · subst hread
      refine iff_of_false (fun hu => ?_) fun hr => hr.2 rfl
      exact not_union_of_readonly (fun x hx => h x (List.mem_cons_of_mem _ hx))
        (fun x hx => hflat x (List.mem_cons_of_mem _ hx)) hu.2
    · have hmark : Text.startsWith readonlyMark (Text.join " | ".toList (t :: u :: ts)) = false := by
        rw [← Bool.not_eq_true, join_bar_cons]
        exact fun hu => hread ((h t List.mem_cons_self).eq_readonly hu)
      rw [parse_eq, layer_eq_construct (trim_join _ h) (after?_eq_none hmark)
        (enclosed?_of_not_clear rfl hbar rfl)]
      by_cases harrow : find? arrow (Text.join " | ".toList (t :: u :: ts)) = none
      · rw [build_construct_join htwo (fun x hx => (h x hx).piece (hflat x hx))
          (fun x hx => (h x hx).concrete) harrow]
        exact iff_of_true ⟨rfl, rfl⟩ ⟨harrow, by simpa using hread⟩
      · exact iff_of_false (fun hu => not_union_of_arrow hbar harrow _ hu.2) fun hr => harrow hr.1

/-! ## Array literals -/

/-- **When the printed type of an array literal reads back.** The elements have the types `types`,
and each distinct one counts once, in order of first occurrence. The text always reads back as an
array. Its element is the type of the elements when they have one; when they have several, none with
a bar at the top level, it is their union iff none has an arrow at the top level and the first is
not the word `readonly`. -/
theorem array_reads_back_iff {infer : Module.Infer (Except Fault)}
    (lookup : Module.Lookup (Except Fault)) {tree : Tree} {types : List Text}
    (hkind : tree.kind = .array)
    (htypes : (tree.namedChildren.filter (·.kind ≠ .comment)).mapM (Module.elementType infer) =
      .ok types)
    (hne : types ≠ []) (h : ∀ t ∈ types, ElementText t) :
    ∃ text element, Module.inferStep infer lookup tree = .ok text ∧
      parse text = ⟨text, false, .array element⟩ ∧
      (∀ t, types.eraseDups = [t] → element = parse t) ∧
      (2 ≤ types.eraseDups.length → (∀ t ∈ types, hasTopLevel ['|'] t = false) →
        (element.nullable = false ∧ element.shape = .union (types.eraseDups.map parse) ↔
          (∀ t ∈ types, find? "=>".toList t = none) ∧
            types.eraseDups.head? ≠ some "readonly".toList)) := by
  have hinfer : Module.inferStep infer lookup tree = .ok (Module.arrayText types.eraseDups) := by
    unfold Module.inferStep Module.elementTypes
    rw [hkind]
    simp only [htypes]
    rfl
  have hmem : ∀ t, t ∈ types.eraseDups ↔ t ∈ types := fun t => List.mem_eraseDups
  simp only [← hmem] at h ⊢
  generalize types.eraseDups = ts at hinfer hmem h
  refine ⟨Module.arrayText ts, ?_⟩
  match ts, h with
  | [], _ =>
    refine absurd (List.eq_nil_iff_forall_not_mem.mpr fun t ht => ?_) hne
    exact List.not_mem_nil ((hmem t).mpr ht)
  | [t], h =>
    refine ⟨parse t, hinfer, parse_wrapped (h t List.mem_cons_self), ?_, ?_⟩
    · rintro u ⟨⟩
      rfl
    · intro htwo
      simp at htwo
  | t :: u :: ts, h =>
    have hnested : Nested (Text.join " | ".toList (t :: u :: ts)) :=
      nested_join (nested_plain (by decide)) fun x hx => (h x hx).nested
    refine ⟨parse (Text.join " | ".toList (t :: u :: ts)), hinfer,
      parse_parenthesized_suffix hnested, ?_, ?_⟩
    · rintro x ⟨⟩
    · intro htwo hflat
      refine parse_join_iff htwo h fun x hx => ?_
      have hclear := hflat x hx
      rw [hasTopLevel_eq] at hclear
      simpa using hclear

/-- The array `[1, \x7b f: () => 1 \x7d, 2]`: an arrow inside braces is not at the top level. -/
theorem array_reads_back_mixed :
    let none? : Module.Lookup (Except Fault) := fun _ => .ok none
    let leaf (kind : Kind) (field : Option Field) (text : String) : Tree :=
      ⟨kind, true, field, text.toList, []⟩
    let node (kind : Kind) (field : Option Field) (children : List Tree) : Tree :=
      ⟨kind, true, field, [], children⟩
    let function := node .arrowFunction (some .value)
      [node .other (some .parameters) [], leaf .number (some .body) "1"]
    let tree := node .array none [leaf .number none "1",
      node .object none [node .pair none [leaf .propertyIdentifier (some .key) "f", function]],
      leaf .number none "2"]
    let ts := ["number".toList, "\x7b f: () => number \x7d".toList]
    (∀ t ∈ ts, ElementText t ∧ hasTopLevel ['|'] t = false ∧ find? "=>".toList t = none) ∧
      ∃ text element, Module.inferStep (Module.inferType none?) none? tree = .ok text ∧
        parse text = ⟨text, false, .array element⟩ ∧ element.nullable = false ∧
        element.shape = .union (ts.map parse) := by
  intro none? leaf node function tree ts
  have hts : ∀ t ∈ ts, ElementText t ∧ hasTopLevel ['|'] t = false ∧ find? "=>".toList t = none := by
    decide
  have htypes : (tree.namedChildren.filter (·.kind ≠ .comment)).mapM
      (Module.elementType (Module.inferType none?)) = .ok (ts ++ ["number".toList]) := rfl
  have hdups : (ts ++ ["number".toList]).eraseDups = ts := by decide
  have hall : ∀ t ∈ ts ++ ["number".toList], t ∈ ts := by decide
  obtain ⟨text, element, hinfer, hparse, -, hunion⟩ := array_reads_back_iff none? rfl
    htypes (by decide) fun t ht => (hts t (hall t ht)).1
  rw [hdups] at hunion
  refine ⟨hts, text, element, hinfer, hparse, ?_⟩
  refine (hunion (by decide) fun t ht => (hts t (hall t ht)).2.1).mpr ⟨fun t ht => ?_, by decide⟩
  exact (hts t (hall t ht)).2.2

/-- **A function among several element types takes the others in**: the array `[() => 1, 'x']` has
elements of the types `() => number` and `string`, and its printed type reads back as an array of
functions. -/
theorem array_function_takes_others :
    let none? : Module.Lookup (Except Fault) := fun _ => .ok none
    let leaf (kind : Kind) (field : Option Field) (text : String) : Tree :=
      ⟨kind, true, field, text.toList, []⟩
    let node (kind : Kind) (field : Option Field) (children : List Tree) : Tree :=
      ⟨kind, true, field, [], children⟩
    let tree := node .array none [node .arrowFunction none
      [node .other (some .parameters) [], leaf .number (some .body) "1"], leaf .string none "'x'"]
    let ts := ["() => number".toList, "string".toList]
    Module.elementTypes (Module.inferType none?) tree = .ok ts ∧
      (∀ t ∈ ts, ElementText t ∧ hasTopLevel ['|'] t = false) ∧
      ∃ text element, Module.inferType none? tree = .ok text ∧
        parse text = ⟨text, false, .array element⟩ ∧
        element.shape = .function [] (parse "number | string".toList) ∧
        element.shape ≠ .union (ts.map parse) := by
  intro none? leaf node tree ts
  have hfunction : (parse "() => number | string".toList).shape =
      .function [] (parse "number | string".toList) :=
    congrArg TypeNode.shape (parse_arrowText .none nested_nil "number | string".toList)
  refine ⟨rfl, by decide, "(() => number | string)[]".toList,
    parse "() => number | string".toList, rfl, ?_, hfunction, ?_⟩
  · exact parse_parenthesized_suffix (t := "() => number | string".toList) (by decide)
  · rw [hfunction]
    intro h
    cases h

end ExportSchema.TypeNode
