import ExportSchema.Proofs.Schema.FieldNames
import ExportSchema.Proofs.TypeNode.Nullish

/-!
# The mark of a nullable type

No construct writes the field `nullable`, so a fragment has it iff the type carries the mark. A type
with `null` put in has the fragment that it had before, with the mark.

* `Unmarked`: the mark is none of the fields.

Results:
* `unmarked_of_shapeEntries`: no construct writes the mark.
* `fragment_of_nullAdded`: a type and the same type marked as nullable differ in the mark.
* `null_adds_nullable`: `null` or `undefined` put into a text only adds the mark.
-/

namespace ExportSchema.Schema

open Text (trim)
open TypeNode (parse firstWord NullAdded WithNulls)
open ExportSchema.Bracket Lexeme

/-- The mark is none of the fields. -/
def Unmarked (fields : Fields Json) : Prop := ∀ f ∈ fields, f.1 ≠ "nullable".toList

/-- **No construct writes the mark.** -/
theorem unmarked_of_shapeEntries {text : Text} {shape : Shape TypeNode} {fs : Fields Json}
    (h : shapeEntries text shape = .ok fs) : Unmarked fs := by
  intro f hf hname
  have hmem := namedBy_of_shapeEntries h f hf
  rw [hname] at hmem
  cases shape <;> simp [fieldNames] at hmem

/-! ## The mark -/

theorem get?_of_unmarked {fs : Fields Json} (h : Unmarked fs) :
    fs.get? "nullable".toList = none :=
  List.lookup_eq_none_iff.mpr fun f hf => by simpa using (h f hf).symm

/-- Behind the fields of a construct, the mark is added where it is not there. -/
theorem putNew_nullable {fs : Fields Json} (h : Unmarked fs) (nullable : Bool) :
    Fields.putNew "nullable".toList (.bool true) (fs ++ nullableEntry nullable) =
      fs ++ nullableEntry true := by
  have hmark : Fields.get? (fs ++ nullableEntry nullable) "nullable".toList =
      Fields.get? (nullableEntry nullable) "nullable".toList := by
    unfold Fields.get?
    rw [List.lookup_append, show List.lookup _ fs = none from get?_of_unmarked h, Option.none_or]
  unfold Fields.putNew
  rw [hmark]
  cases nullable with
  | true => rfl
  | false =>
    show fs ++ [] ++ _ = _
    rw [List.append_nil]
    rfl

theorem get?_nullable {fs : Fields Json} (h : Unmarked fs) :
    Fields.get? (fs ++ nullableEntry true) "nullable".toList = some (.bool true) := by
  unfold Fields.get?
  rw [List.lookup_append, show List.lookup _ fs = none from get?_of_unmarked h, Option.none_or]
  rfl

/-- Only a component and a function show the text of their node. -/
theorem shapeEntries_of_nullAdded {a b : TypeNode} (h : NullAdded a b) :
    shapeEntries b.text b.shape = shapeEntries a.text a.shape := by
  rw [h.shape]
  rcases h.text with htext | ⟨members, hunion⟩
  · rw [htext]
  · rw [hunion, shapeEntries, shapeEntries]

/-- **A type and the same type marked as nullable** differ in the mark. -/
theorem fragment_of_nullAdded {a b : TypeNode} (h : NullAdded a b) {j : Json}
    (ha : fragment a = .ok j) :
    ∃ fields : Fields Json, j = .obj fields ∧
      fragment b = .ok (.obj (fields.putNew "nullable".toList (.bool true))) ∧
      (fields.putNew "nullable".toList (.bool true)).get? "nullable".toList = some (.bool true) := by
  obtain ⟨fs, hfs, rfl⟩ := fragment_eq_ok ha
  have hun := unmarked_of_shapeEntries hfs
  refine ⟨_, rfl, ?_⟩
  rw [putNew_nullable hun]
  refine ⟨?_, get?_nullable hun⟩
  have hfields := shapeEntries_of_nullAdded h
  have hnullable := h.nullable
  obtain ⟨text, nullable, shape⟩ := b
  rw [fragment, hfields, hfs, show nullable = true from hnullable]
  rfl

/-- **Adding `null` or `undefined` to a type only adds the mark.** Let a text end at the top level,
with no arrow there and no `readonly` in front, and let one of its segments be something else than
a blank, `null` or `undefined`. With `null` or `undefined` put in between its segments at any places,
its fragment is the one it had, with the mark where it had none. -/
theorem null_adds_nullable {base : Text} {us : List Text} (hend : EndsAtTop base)
    (hword : firstWord base ≠ "readonly".toList) (harrow : find? "=>".toList base = none)
    (hconcrete : ∃ s ∈ split ['|'] base none, trim s ≠ [] ∧ trim s ∉ nullishNames)
    (hus : WithNulls (split ['|'] base none) us)
    (hmore : (split ['|'] base none).length < us.length) :
    ∃ fields : Fields Json,
      fragment (parse base) = .ok (.obj fields) ∧
      fragment (parse (Text.join ['|'] us)) =
        .ok (.obj (fields.putNew "nullable".toList (.bool true))) ∧
      (fields.putNew "nullable".toList (.bool true)).get? "nullable".toList = some (.bool true) := by
  have hne : TypeNode.concrete base ≠ [] := by
    obtain ⟨s, hs, hblank, hnull⟩ := hconcrete
    have hmem : trim s ∈ TypeNode.concrete base :=
      List.mem_filter.mpr ⟨List.mem_filter.mpr ⟨List.mem_map_of_mem hs, by simpa using hblank⟩,
        by simpa using hnull⟩
    exact List.ne_nil_of_mem hmem
  have hadded := TypeNode.nullAdded_of_withNulls hend harrow hus hword hne hmore
  obtain ⟨j, hj, -⟩ := fragment_of_sound (TypeNode.sound_parse base)
  obtain ⟨fields, rfl, hfragment, hmark⟩ := fragment_of_nullAdded hadded hj
  exact ⟨fields, hj, hfragment, hmark⟩

theorem null_adds_nullable_of_two :
    ∃ fields : Fields Json,
      fragment (parse "x> | \x7b a: string \x7d".toList) = .ok (.obj fields) ∧
      fragment (parse "x> | null | \x7b a: string \x7d | undefined".toList) =
        .ok (.obj (fields.putNew "nullable".toList (.bool true))) ∧
      (fields.putNew "nullable".toList (.bool true)).get? "nullable".toList = some (.bool true) := by
  -- the bracket behind `x` closes nothing, and the text ends at the top level nevertheless
  have hus : WithNulls (split ['|'] "x> | \x7b a: string \x7d".toList none)
      ["x> ".toList, " null ".toList, " \x7b a: string \x7d ".toList, " undefined".toList] :=
    .keep rfl (.insert (by decide) (.keep rfl (.insert (by decide) .nil)))
  have hjoin : Text.join ['|'] ["x> ".toList, " null ".toList, " \x7b a: string \x7d ".toList,
      " undefined".toList] = "x> | null | \x7b a: string \x7d | undefined".toList := by decide
  rw [← hjoin]
  exact null_adds_nullable (by decide) (by decide) (by decide) (by decide) hus (by decide)

end ExportSchema.Schema
