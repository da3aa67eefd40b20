import ExportSchema.Proofs.Module.Rule
import ExportSchema.Proofs.Schema.Fragment

/-!
# The fields of a fragment

Every construct writes fields of a few fixed names. Behind them stands at most the mark of a nullable
type.

* `Writes`: the fields of a construct, one case a construct.
* `fieldNames`: the names of the fields that a construct may write.
* `NamedBy`: every field has one of the names.

Results:
* `writes_of_shapeEntries`: a construct writes nothing else.
* `namedBy_of_shapeEntries`: the names of the fields that a construct writes.
* `fragment_eq_ok`: a fragment is these fields with the mark behind them.
* `get?_eq_none`: a name that the construct does not write stands for nothing but the mark.
-/

namespace ExportSchema.Schema

/-! ## What a construct writes -/

/-- The fields of the fragment of a construct, where `text` is the text of its node. -/
inductive Writes (text : Text) : Shape TypeNode → Fields Json → Prop
  | primitive {name : Text} {fs : Fields Json} (h : primitiveEntries? name = some fs) :
      Writes text (.primitive name) fs
  | literal {raw : Text} {value : LiteralValue} (h : literalValue raw = .ok value) :
      Writes text (.literal raw) (literalEntries value)
  | verbatim {raw : Text} : Writes text (.verbatim raw)
      [typeEntry "string", entry "description" (.str ("type: ".toList ++ raw))]
  | array {element : TypeNode} {j : Json} (h : fragment element = .ok j) :
      Writes text (.array element) [typeEntry "array", entry "items" j]
  | object {ps : List (Property TypeNode)} {a : Option TypeNode} {members more : Fields Json}
      (hmembers : propertyFragments ps = .ok members) (hmore : additionalEntry a = .ok more) :
      Writes text (.object ps a)
        ([typeEntry "object", entry "properties" (.obj (Fields.ofList members))] ++
          requiredEntry ps ++ more)
  | union {members : List TypeNode} {js : List Json} (h : fragments members = .ok js) :
      Writes text (.union members) [entry "oneOf" (.arr js)]
  | function {params : List (Param TypeNode)} {returns : TypeNode} {js : List Json} {j : Json}
      (hparams : paramFragments params = .ok js) (hreturns : fragment returns = .ok j) :
      Writes text (.function params returns)
        [typeEntry "object", entry "description" (.str ("Function: ".toList ++ text)),
          entry "parameters" (.arr js), entry "returns" j]
  /-- A component whose props are an object type. -/
  | component {propsText : Text} {nullable : Bool} {ps : List (Property TypeNode)}
      {a : Option TypeNode} {members more : Fields Json}
      (hmembers : propertyFragments ps = .ok members) (hmore : additionalEntry a = .ok more) :
      Writes text (.component ⟨propsText, nullable, .object ps a⟩)
        [typeEntry "object", entry "description" (.str ("Component: ".toList ++ text)),
          entry "properties" (.obj (Fields.ofList members))]
  /-- A component whose props are not known. -/
  | named {props : TypeNode} : Writes text (.component props)
      [typeEntry "object", entry "tsType" (.str text)]

/-- **A construct writes nothing else.** -/
theorem writes_of_shapeEntries {text : Text} {shape : Shape TypeNode} {fs : Fields Json}
    (h : shapeEntries text shape = .ok fs) : Writes text shape fs := by
  cases shape with
  | primitive name =>
    rw [shapeEntries] at h
    split at h
    · rename_i entries hentries
      cases h
      exact .primitive hentries
    · cases h
  | literal raw =>
    rw [shapeEntries] at h
    split at h
    · rename_i value hvalue
      cases h
      exact .literal hvalue
    · cases h
  | verbatim raw =>
    cases h
    exact .verbatim
  | array element =>
    rw [shapeEntries] at h
    obtain ⟨j, hj, h⟩ := Module.exists_ok_of_bind h
    cases h
    exact .array hj
  | object ps a =>
    rw [shapeEntries] at h
    obtain ⟨members, hmembers, h⟩ := Module.exists_ok_of_bind h
    obtain ⟨more, hmore, h⟩ := Module.exists_ok_of_bind h
    cases h
    exact .object hmembers hmore
  | union members =>
    rw [shapeEntries] at h
    obtain ⟨js, hjs, h⟩ := Module.exists_ok_of_bind h
    cases h
    exact .union hjs
  | function params returns =>
    rw [shapeEntries] at h
    obtain ⟨js, hjs, h⟩ := Module.exists_ok_of_bind h
    obtain ⟨j, hj, h⟩ := Module.exists_ok_of_bind h
    cases h
    exact .function hjs hj
  | component props =>
    rw [shapeEntries] at h
    obtain ⟨propsText, nullable, shape⟩ := props
    cases shape with
    | object ps a =>
      rw [componentEntries] at h
      obtain ⟨members, hmembers, h⟩ := Module.exists_ok_of_bind h
      obtain ⟨more, hmore, h⟩ := Module.exists_ok_of_bind h
      cases h
      exact .component hmembers hmore
    | _ =>
      cases h
      exact .named

/-! ## Names of fields -/

/-- The names of the fields that a construct may write. -/
def fieldNames : Shape TypeNode → List Text
  | .primitive _ => ["type".toList, "not".toList]
  | .literal _ => ["type".toList, "const".toList]
  | .verbatim _ => ["type".toList, "description".toList]
  | .array _ => ["type".toList, "items".toList]
  | .object _ _ => ["type".toList, "properties".toList, "required".toList,
      "additionalProperties".toList]
  | .union _ => ["oneOf".toList]
  | .function _ _ => ["type".toList, "description".toList, "parameters".toList, "returns".toList]
  | .component _ => ["type".toList, "description".toList, "properties".toList, "tsType".toList]

/-- Every field has one of the names. -/
def NamedBy (names : List Text) (fields : Fields Json) : Prop := ∀ f ∈ fields, f.1 ∈ names

@[simp] theorem namedBy_nil {names : List Text} : NamedBy names [] := List.forall_mem_nil _

@[simp] theorem namedBy_cons {names : List Text} {f : Text × Json} {fs : Fields Json} :
    NamedBy names (f :: fs) ↔ f.1 ∈ names ∧ NamedBy names fs := List.forall_mem_cons

@[simp] theorem namedBy_append {names : List Text} {as bs : Fields Json} :
    NamedBy names (as ++ bs) ↔ NamedBy names as ∧ NamedBy names bs := List.forall_mem_append

@[simp] theorem entry_fst (name : String) (value : Json) : (entry name value).1 = name.toList := rfl

@[simp] theorem typeEntry_fst (type : String) : (typeEntry type).1 = "type".toList := rfl

theorem namedBy_primitiveEntries {name : Text} {fs : Fields Json}
    (h : primitiveEntries? name = some fs) : NamedBy (fieldNames (.primitive name)) fs := by
  unfold primitiveEntries? at h
  repeat' split at h
  all_goals cases h
  all_goals simp [fieldNames]

theorem namedBy_literalEntries (raw : Text) (v : LiteralValue) :
    NamedBy (fieldNames (.literal raw)) (literalEntries v) := by
  cases v with
  | float x =>
    rw [literalEntries]
    split <;> simp [fieldNames]
  | _ => simp [literalEntries, fieldNames]

theorem namedBy_requiredEntry {names : List Text} (hname : "required".toList ∈ names)
    (properties : List (Property TypeNode)) : NamedBy names (requiredEntry properties) := by
  unfold requiredEntry
  split
  · exact namedBy_nil
  · exact namedBy_cons.mpr ⟨hname, namedBy_nil⟩

theorem namedBy_additionalEntry {names : List Text} (hname : "additionalProperties".toList ∈ names)
    {additional : Option TypeNode} {fs : Fields Json} (h : additionalEntry additional = .ok fs) :
    NamedBy names fs := by
  cases additional with
  | none =>
    cases h
    exact namedBy_nil
  | some n =>
    rw [additionalEntry] at h
    obtain ⟨j, -, h⟩ := Module.exists_ok_of_bind h
    cases h
    exact namedBy_cons.mpr ⟨hname, namedBy_nil⟩

/-- **The names of the fields that a construct writes.** -/
theorem namedBy_of_shapeEntries {text : Text} {shape : Shape TypeNode} {fs : Fields Json}
    (h : shapeEntries text shape = .ok fs) : NamedBy (fieldNames shape) fs := by
  cases writes_of_shapeEntries h with
  | primitive h => exact namedBy_primitiveEntries h
  | literal => exact namedBy_literalEntries _ _
  | object _ hmore =>
    refine namedBy_append.mpr ⟨namedBy_append.mpr ⟨by simp [fieldNames], ?_⟩, ?_⟩
    · exact namedBy_requiredEntry (by simp [fieldNames]) _
    · exact namedBy_additionalEntry (by simp [fieldNames]) hmore
  | _ => simp [fieldNames]

/-! ## Whole fragments -/

theorem fragment_eq_ok {n : TypeNode} {j : Json} (h : fragment n = .ok j) :
    ∃ fs, shapeEntries n.text n.shape = .ok fs ∧ j = .obj (fs ++ nullableEntry n.nullable) := by
  obtain ⟨text, nullable, shape⟩ := n
  rw [fragment] at h
  obtain ⟨fs, hfs, h⟩ := Module.exists_ok_of_bind h
  cases h
  exact ⟨fs, hfs, rfl⟩

theorem get?_of_namedBy {names : List Text} {fs : Fields Json} (h : NamedBy names fs) {name : Text}
    (hname : name ∉ names) : fs.get? name = none := by
  refine List.lookup_eq_none_iff.mpr fun f hf => ?_
  have hne : name ≠ f.1 := fun he => hname (he ▸ h f hf)
  simpa using hne

/-- A name that the construct does not write stands for nothing, the mark apart. -/
theorem get?_eq_none {n : TypeNode} {fields : Fields Json} (h : fragment n = .ok (.obj fields))
    {name : Text} (hname : name ∉ fieldNames n.shape) (hmark : name ≠ "nullable".toList) :
    fields.get? name = none := by
  obtain ⟨fs, hfs, hobj⟩ := fragment_eq_ok h
  cases hobj
  have hconstruct : fs.lookup name = none := get?_of_namedBy (namedBy_of_shapeEntries hfs) hname
  have hnullable : (nullableEntry n.nullable).lookup name = none := by
    have hnamed : NamedBy ["nullable".toList] (nullableEntry n.nullable) := by
      unfold nullableEntry
      split <;> simp
    exact get?_of_namedBy hnamed (by simpa using hmark)
  unfold Fields.get?
  rw [List.lookup_append, hconstruct, hnullable, Option.none_or]

end ExportSchema.Schema
