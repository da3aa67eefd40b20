import ExportSchema.Proofs.Bracket.Segment
import ExportSchema.Proofs.TypeNode.Construct

/-!
# Putting `null` into a type text

The words `null` and `undefined` among the segments of a union are folded into its mark, wherever
they stand. So a text with more of them reads as the text without, marked as nullable. A leading
`readonly` and an arrow are read before the segments are, and are left aside here.

* `firstWord`: the name at the start of a text.
* `Segment`: what stands between two bars.
* `WithNulls`: segments with `null` or `undefined` put in between.
* `NullAdded`: a type and the same type marked as nullable.

Results:
* `firstWord_append`, `firstWord_trim`: what stands behind the first word does not change it.
* `parse_of_one_piece`, `parse_of_one`, `parse_of_several`: a text by its segments that are not
  nullish.
* `WithNulls.concrete_eq`, `WithNulls.firstWord_ne`: what is put in is neither a type nor a mark.
* `nullAdded_of_withNulls`: what is put in only folds `null` into the type.
-/

namespace ExportSchema.TypeNode

open Text (trim trimStart isBlank)
open Lexeme ExportSchema.Bracket

/-! ## The first word -/

/-- The name at the start of a text, blanks aside; empty when no name stands there. -/
def firstWord (t : Text) : Text := (trimStart t).takeWhile isNameChar

variable {t u : Text}

theorem firstWord_append_left {a : Text} (ha : ∀ c ∈ a, isBlank c = true) (t : Text) :
    firstWord (a ++ t) = firstWord t := by
  unfold firstWord
  rw [Text.trimStart_eq, List.dropWhile_append_of_pos ha, Text.trimStart_eq]

theorem isNameChar_of_isBlank {c : Char} (hc : isBlank c = true) : isNameChar c = false := by
  by_contra h
  rw [Bool.not_eq_false] at h
  rw [Text.isBlank_of_class (by decide +kernel) h] at hc
  cases hc

/-- Where no word starts, the text starts with no character of a name. -/
theorem takeWhile_of_firstWord (h : firstWord u = []) : u.takeWhile isNameChar = [] := by
  cases u with
  | nil => rfl
  | cons c u =>
    by_cases hc : isBlank c = true
    · rw [List.takeWhile_cons_of_neg (by simp [isNameChar_of_isBlank hc])]
    · rwa [firstWord, Text.trimStart_eq, List.dropWhile_cons_of_neg hc] at h

/-- **What stands behind the first word does not change it**, unless a word starts there. -/
theorem firstWord_append (hu : firstWord u = []) (t : Text) :
    firstWord (t ++ u) = firstWord t := by
  unfold firstWord at hu ⊢
  rw [Text.trimStart_eq] at hu ⊢
  rw [Text.trimStart_eq, List.dropWhile_append]
  split
  · rename_i hblank
    rw [hu, List.isEmpty_iff.mp hblank, List.takeWhile_nil]
  · rw [List.takeWhile_append, takeWhile_of_firstWord hu]
    split
    · rename_i hall
      rw [List.append_nil]
      exact ((List.takeWhile_prefix isNameChar).eq_of_length hall).symm
    · rfl

theorem firstWord_blank (h : ∀ c ∈ t, isBlank c = true) : firstWord t = [] := by
  have hnone := firstWord_append_left h []
  rwa [List.append_nil] at hnone

theorem firstWord_trim (t : Text) : firstWord (trim t) = firstWord t := by
  obtain ⟨a, b, ht, ha, hb⟩ := Text.trim_eq_append t
  calc firstWord (trim t) = firstWord (a ++ trim t) := (firstWord_append_left ha _).symm
    _ = firstWord (a ++ trim t ++ b) := (firstWord_append (firstWord_blank hb) _).symm
    _ = firstWord t := by rw [← ht]

/-- The first word of joined segments is that of the first segment. -/
theorem firstWord_join (s : Text) (ss : List Text) :
    firstWord (Text.join ['|'] (s :: ss)) = firstWord s := by
  cases ss with
  | nil => rfl
  | cons r ss =>
    rw [join_two]
    exact firstWord_append rfl s

/-- The mark `readonly` in front of a text is its first word. -/
theorem after?_readonly (h : firstWord t ≠ "readonly".toList) :
    Text.after? "readonly ".toList (trim t) = none := by
  refine Option.eq_none_iff_forall_not_mem.mpr fun rest hrest => h ?_
  have happ : "readonly ".toList ++ rest = trim t := List.isPrefixOf?_eq_some_iff_append_eq.mp hrest
  rw [← firstWord_trim, ← happ]
  rfl

/-! ## Texts with bars -/

theorem concrete_trim (t : Text) : concrete (trim t) = concrete t := by
  unfold concrete
  rw [pieces_trim (by decide)]

theorem length_concrete_le (t : Text) : (concrete t).length ≤ (pieces ['|'] t).length :=
  List.length_filter_le _ _

section Union

variable (hbar : clearFrom ['|'] .start t = false) (harrow : find? arrow t = none)
include hbar harrow

theorem unionLayer_of_one_piece {m : Text} (h : pieces ['|'] t = [m]) :
    unionLayer t = some (.same m) := by
  rw [unionLayer_of_bar hbar harrow, h]

theorem unionLayer_of_one {m : Text} (h : concrete t = [m]) (hmore : 2 ≤ (pieces ['|'] t).length) :
    unionLayer t = some (.orNull m) := by
  rw [unionLayer_of_bar hbar harrow, h]
  match pieces ['|'] t, hmore with
  | x :: y :: ps, _ => rfl

theorem unionLayer_of_several (htwo : 2 ≤ (concrete t).length) :
    unionLayer t = some (.node t ((concrete t).length < (pieces ['|'] t).length)
      (.union ((concrete t).map Part.text))) := by
  have hle := length_concrete_le t
  rw [unionLayer_of_bar hbar harrow]
  match pieces ['|'] t, concrete t, htwo, hle with
  | x :: y :: ps, m :: n :: ms, _, _ => rfl
  | [], m :: n :: ms, _, hle => simp at hle
  | [x], m :: n :: ms, _, hle => simp at hle

end Union

/-- Two pieces or more have a bar between them. -/
theorem not_clear_of_two_pieces (h : 2 ≤ (pieces ['|'] t).length) :
    clearFrom ['|'] .start t = false := by
  refine clearFrom_of_two_segments (h.trans ?_)
  refine (List.length_filter_le _ _).trans ?_
  rw [List.length_map]

/-- A segment that is not nullish is the only piece, or there are others. -/
theorem pieces_of_one {m : Text} (h : concrete t = [m]) :
    pieces ['|'] t = [m] ∨ 2 ≤ (pieces ['|'] t).length := by
  have hmem : m ∈ concrete t := by
    rw [h]
    exact List.mem_cons_self
  have hpiece := List.mem_of_mem_filter hmem
  match hp : pieces ['|'] t with
  | [] =>
    rw [hp] at hpiece
    cases hpiece
  | [x] =>
    rw [hp, List.mem_singleton] at hpiece
    exact Or.inl (by rw [hpiece])
  | x :: y :: ps => exact Or.inr (by simp)

section Bars

variable (hword : firstWord t ≠ "readonly".toList)
include hword

/-- A union is read as one when no mark stands in front. -/
theorem parse_of_union {l : Layer} (h : unionLayer (trim t) = some l) :
    parse t = l.build parse := by
  have hgroup : enclosed? '(' (trim t) = none := enclosed?_of_not_clear rfl (unionLayer_isSome h).1 rfl
  rw [← parse_trim, parse_eq, layer_eq_construct (Text.trim_trim t) (after?_readonly hword) hgroup,
    construct_eq_of_union h]

variable (harrow : find? arrow t = none)
include harrow

/-- The only piece of a text is its type. -/
theorem parse_of_one_piece {m : Text} (h : pieces ['|'] t = [m]) : parse t = parse m := by
  rw [← pieces_trim (by decide)] at h
  by_cases hbar : clearFrom ['|'] .start (trim t) = true
  · -- the text is its only segment
    have hne : trim t ≠ [] := by
      intro hnil
      rw [hnil] at h
      cases h
    rw [pieces_of_clear hbar (Text.trim_trim t) hne, List.singleton_inj] at h
    rw [← h, parse_trim]
  · rw [Bool.not_eq_true] at hbar
    exact parse_of_union hword (unionLayer_of_one_piece hbar (find?_arrow_trim.mpr harrow) h)

/-- **One segment that is not nullish among others** is the type, marked as nullable. -/
theorem parse_of_one {m : Text} (h : concrete t = [m]) (hmore : 2 ≤ (pieces ['|'] t).length) :
    parse t = (parse m).asNullable := by
  rw [← concrete_trim] at h
  rw [← pieces_trim (by decide)] at hmore
  exact parse_of_union hword (unionLayer_of_one (not_clear_of_two_pieces hmore)
    (find?_arrow_trim.mpr harrow) h hmore)

/-- **Several segments that are not nullish** make a union, with the mark iff there are others. -/
theorem parse_of_several (htwo : 2 ≤ (concrete t).length) :
    parse t = ⟨trim t, (concrete t).length < (pieces ['|'] t).length,
      .union ((concrete t).map parse)⟩ := by
  rw [← concrete_trim] at htwo
  have hbar := not_clear_of_two_pieces (htwo.trans (length_concrete_le _))
  have hunion := unionLayer_of_several hbar (find?_arrow_trim.mpr harrow) htwo
  rw [concrete_trim, pieces_trim (by decide)] at hunion
  rw [parse_of_union hword hunion]
  simp only [Layer.build, Shape.map, List.map_map]
  rfl

end Bars

/-! ## Segments with `null` put in between -/

/-- A segment of a union: it ends at the top level, and neither a bar nor an arrow stands there. -/
structure Segment (t : Text) : Prop where
  ends : EndsAtTop t
  no_bar : clearFrom ['|'] .start t = true
  no_arrow : find? arrow t = none

theorem segment_trim : Segment (trim t) ↔ Segment t := by
  constructor
  · rintro ⟨hends, hbar, harrow⟩
    exact ⟨endsAtTop_trim.mp hends, by rwa [clearFrom_trim (by decide)] at hbar,
      find?_arrow_trim.mp harrow⟩
  · rintro ⟨hends, hbar, harrow⟩
    exact ⟨endsAtTop_trim.mpr hends, by rwa [clearFrom_trim (by decide)],
      find?_arrow_trim.mpr harrow⟩

theorem segment_of_nullish (h : trim t ∈ nullishNames) : Segment t := by
  have hwords : ∀ n ∈ nullishNames, EndsAtTop n ∧ clearFrom ['|'] .start n = true ∧
      find? arrow n = none := by decide
  obtain ⟨hends, hbar, harrow⟩ := hwords _ h
  exact segment_trim.mp ⟨hends, hbar, harrow⟩

theorem firstWord_of_nullish (h : trim t ∈ nullishNames) : firstWord t ≠ "readonly".toList := by
  have hwords : ∀ n ∈ nullishNames, firstWord n ≠ "readonly".toList := by decide
  rw [← firstWord_trim]
  exact hwords _ h

/-- The segments of a text without arrows that ends at the top level. -/
theorem segment_of_mem_bar_split (hend : EndsAtTop t) (harrow : find? arrow t = none) :
    ∀ s ∈ split ['|'] t none, Segment s := by
  have hends : ∀ s ∈ split ['|'] t none, EndsAtTop s := fun s hs =>
    endsAtTop_of_mem_split (by decide) hs hend
  have hnone : ∀ s ∈ split ['|'] t none, find? arrow s = none := by
    have hjoined : find? arrow (Text.join ['|'] (split ['|'] t none)) = none := by rwa [join_split]
    exact (find?_arrow_join_of_plain (by decide) (by decide) hends).mp hjoined
  exact fun s hs => ⟨hends s hs, clearFrom_of_mem_split (by decide) hs, hnone s hs⟩

/-- The second list is the first with `null` or `undefined` put in anywhere, and with other blanks
around the segments. -/
inductive WithNulls : List Text → List Text → Prop
  | nil : WithNulls [] []
  | keep {s u : Text} {ss us : List Text} (hs : trim u = trim s) (h : WithNulls ss us) :
      WithNulls (s :: ss) (u :: us)
  | insert {u : Text} {ss us : List Text} (hu : trim u ∈ nullishNames) (h : WithNulls ss us) :
      WithNulls ss (u :: us)

namespace WithNulls

variable {ss us : List Text}

theorem forall_segment (h : WithNulls ss us) (hss : ∀ s ∈ ss, Segment s) : ∀ u ∈ us, Segment u := by
  induction h with
  | nil => exact hss
  | keep hs _ ih =>
    obtain ⟨hhead, htail⟩ := List.forall_mem_cons.mp hss
    refine List.forall_mem_cons.mpr ⟨?_, ih htail⟩
    rw [← segment_trim, hs, segment_trim]
    exact hhead
  | insert hu _ ih => exact List.forall_mem_cons.mpr ⟨segment_of_nullish hu, ih hss⟩

/-- What is put in is no type. -/
theorem concrete_eq (h : WithNulls ss us) :
    ((us.map trim).filter (!·.isEmpty)).filter (!nullishNames.contains ·) =
      ((ss.map trim).filter (!·.isEmpty)).filter (!nullishNames.contains ·) := by
  simp only [List.filter_filter]
  induction h with
  | nil => rfl
  | keep hs _ ih => simp only [List.map_cons, hs, List.filter_cons, ih]
  | insert hu _ ih =>
    rw [List.map_cons, List.filter_cons_of_neg (by simp [hu]), ih]

/-- What is put in is no mark. -/
theorem firstWord_ne (h : WithNulls ss us) (hne : ss ≠ [])
    (hword : firstWord (Text.join ['|'] ss) ≠ "readonly".toList) :
    firstWord (Text.join ['|'] us) ≠ "readonly".toList := by
  cases h with
  | nil => exact absurd rfl hne
  | keep hs _ =>
    rw [firstWord_join] at hword ⊢
    rwa [← firstWord_trim, hs, firstWord_trim]
  | insert hu _ =>
    rw [firstWord_join]
    exact firstWord_of_nullish hu

/-- Where there are more segments than before, one was put in. -/
theorem exists_nullish (h : WithNulls ss us) (hmore : ss.length < us.length) :
    ∃ u ∈ us, trim u ∈ nullishNames := by
  induction h with
  | nil => exact absurd hmore (Nat.lt_irrefl _)
  | keep _ _ ih =>
    obtain ⟨u, hmem, hu⟩ := ih (Nat.lt_of_succ_lt_succ hmore)
    exact ⟨u, List.mem_cons_of_mem _ hmem, hu⟩
  | insert hu _ => exact ⟨_, List.mem_cons_self, hu⟩

end WithNulls

/-! ## Types with `null` put in -/

/-- The second type is the first, marked as nullable; only a union goes by another text. -/
structure NullAdded (a b : TypeNode) : Prop where
  nullable : b.nullable = true
  shape : b.shape = a.shape
  text : b.text = a.text ∨ ∃ members, a.shape = .union members

section Insertion

variable {us : List Text} (hend : EndsAtTop t) (harrow : find? arrow t = none)
  (hus : WithNulls (split ['|'] t none) us)
include hend harrow hus

theorem split_insertion : split ['|'] (Text.join ['|'] us) none = us := by
  have hne : us ≠ [] := by
    rintro rfl
    generalize hss : split ['|'] t none = ss at hus
    cases hus
    rw [split_eq] at hss
    cases hss
  refine split_join (by decide) (by decide) hne fun u hu => ?_
  have hsegment := hus.forall_segment (segment_of_mem_bar_split hend harrow) u hu
  exact ⟨hsegment.ends, hsegment.no_bar⟩

theorem find?_arrow_insertion : find? arrow (Text.join ['|'] us) = none := by
  have hsegment := hus.forall_segment (segment_of_mem_bar_split hend harrow)
  exact (find?_arrow_join_of_plain (by decide) (by decide) fun u hu => (hsegment u hu).ends).mpr
    fun u hu => (hsegment u hu).no_arrow

theorem concrete_insertion : concrete (Text.join ['|'] us) = concrete t := by
  unfold concrete pieces
  rw [split_insertion hend harrow hus]
  exact hus.concrete_eq

theorem length_concrete_lt (hmore : (split ['|'] t none).length < us.length) :
    (concrete (Text.join ['|'] us)).length < (pieces ['|'] (Text.join ['|'] us)).length := by
  obtain ⟨u, hmem, hu⟩ := hus.exists_nullish hmore
  refine List.length_filter_lt_length_iff_exists.mpr ⟨trim u, ?_, by simpa using hu⟩
  unfold pieces
  rw [split_insertion hend harrow hus]
  have hne : ∀ n ∈ nullishNames, n ≠ [] := by decide
  exact List.mem_filter.mpr ⟨List.mem_map_of_mem hmem, by simpa using hne _ hu⟩

/-- **What is put in only folds `null` into the type**, when something else is left of it. -/
theorem nullAdded_of_withNulls (hword : firstWord t ≠ "readonly".toList)
    (hconcrete : concrete t ≠ []) (hmore : (split ['|'] t none).length < us.length) :
    NullAdded (parse t) (parse (Text.join ['|'] us)) := by
  have harrow' := find?_arrow_insertion hend harrow hus
  have hsame := concrete_insertion hend harrow hus
  have hlt := length_concrete_lt hend harrow hus hmore
  have hword' : firstWord (Text.join ['|'] us) ≠ "readonly".toList :=
    hus.firstWord_ne (by rw [split_eq]; simp) (by rwa [join_split])
  match hc : concrete t with
  | [] => exact absurd hc hconcrete
  | [m] =>
    rw [hc] at hsame
    rw [hsame, List.length_singleton] at hlt
    rw [parse_of_one hword' harrow' hsame hlt]
    rcases pieces_of_one hc with hpiece | hothers
    · rw [parse_of_one_piece hword harrow hpiece]
      exact ⟨rfl, rfl, Or.inl rfl⟩
    · rw [parse_of_one hword harrow hc hothers]
      exact ⟨rfl, rfl, Or.inl rfl⟩
  | m :: n :: ms =>
    have htwo : 2 ≤ (concrete t).length := by simp [hc]
    have hunion := parse_of_several hword' harrow' (by rwa [hsame])
    rw [hsame] at hunion hlt
    rw [parse_of_several hword harrow htwo, hunion]
    exact ⟨decide_eq_true hlt, rfl, Or.inr ⟨_, rfl⟩⟩

end Insertion

end ExportSchema.TypeNode
