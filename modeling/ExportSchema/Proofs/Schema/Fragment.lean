import ExportSchema.Proofs.Expansion.Resolution
import ExportSchema.Proofs.Number.Reading
import ExportSchema.Schema.Fragment

/-!
# Every type has a fragment

A sound node has a schema fragment: its keywords are in the table, and its literals have a value.
A number that is out of range has no `const`, so every number in the fragment is finite.

* `Json.HasNumber`: a double stands somewhere in a JSON value.

Results:
* `fragment_of_sound`: a sound node has a fragment, and the numbers in it are finite.
* `compile_total`: reading, expanding and describing any text succeeds.
-/

namespace ExportSchema.Schema

open TypeNode (Sound Within)
open Lexeme

theorem literalValue_of_isLiteral {raw : Text} (h : isLiteral raw = true) :
    ∃ v, literalValue raw = .ok v := by
  unfold literalValue
  split
  · exact ⟨_, rfl⟩
  split
  · exact ⟨_, rfl⟩
  split
  · exact ⟨_, rfl⟩
  split
  · exact ⟨_, rfl⟩
  rename_i htrue hfalse hdouble hsingle
  have hn : isNumberLiteral raw = true := by
    simp only [isLiteral, Bool.or_eq_true, decide_eq_true_eq] at h
    rcases h with ((h | h) | h) | h
    · exact absurd h htrue
    · exact absurd h hfalse
    · obtain ⟨q, u, rfl, -⟩ := TypeNode.isStringLiteral_eq h
      simp only [isStringLiteral, Bool.and_eq_true, Bool.or_eq_true, decide_eq_true_eq] at h
      rcases h.1 with rfl | rfl
      · exact absurd rfl hdouble
      · exact absurd rfl hsingle
    · exact h
  obtain ⟨x, hx⟩ := Number.readFloat?_of_isNumberLiteral hn
  unfold numberValue
  rw [hx]
  simp only
  split
  · exact ⟨_, rfl⟩
  · exact ⟨_, rfl⟩

end ExportSchema.Schema

namespace ExportSchema.Json

/-! ## Numbers of a JSON value -/

/-- The double `x` stands somewhere in a JSON value. -/
inductive HasNumber (x : Binary64) : Json → Prop
  | here : HasNumber x (.float x)
  | item {items : List Json} {j : Json} (hj : j ∈ items) (h : HasNumber x j) :
      HasNumber x (.arr items)
  | field {fields : List (Text × Json)} {f : Text × Json} (hf : f ∈ fields)
      (h : HasNumber x f.2) : HasNumber x (.obj fields)

/-- Every double in the value is finite. -/
def AllFinite (j : Json) : Prop := ∀ x, HasNumber x j → x.isFinite = true

@[simp] theorem allFinite_bool (b : Bool) : AllFinite (.bool b) := by
  intro x h
  cases h

@[simp] theorem allFinite_str (s : Text) : AllFinite (.str s) := by
  intro x h
  cases h

@[simp] theorem allFinite_int (n : Int) : AllFinite (.int n) := by
  intro x h
  cases h

@[simp] theorem allFinite_float {x : Binary64} : AllFinite (.float x) ↔ x.isFinite = true := by
  constructor
  · intro h
    exact h x .here
  · intro h y hy
    cases hy
    exact h

@[simp] theorem allFinite_arr {items : List Json} :
    AllFinite (.arr items) ↔ ∀ j ∈ items, AllFinite j := by
  constructor
  · intro h j hj x hx
    exact h x (.item hj hx)
  · intro h x hx
    cases hx with
    | item hj hx => exact h _ hj x hx

@[simp] theorem allFinite_obj {fields : List (Text × Json)} :
    AllFinite (.obj fields) ↔ ∀ f ∈ fields, AllFinite f.2 := by
  constructor
  · intro h f hf x hx
    exact h x (.field hf hx)
  · intro h x hx
    cases hx with
    | field hf hx => exact h _ hf x hx

theorem allFinite_ofList {members : List (Text × Json)} (h : ∀ f ∈ members, AllFinite f.2) :
    AllFinite (.obj (Fields.ofList members)) := by
  refine allFinite_obj.mpr fun f hf => ?_
  rcases Fields.mem_values_putAll (List.mem_map_of_mem hf) with hv | ⟨e, he, hv⟩
  · cases hv
  · rw [hv]
    exact h e he

end ExportSchema.Json

namespace ExportSchema.Schema

open TypeNode (Sound Within)
open Lexeme Json

/-! ## Fields of a fragment -/

/-- Every double in the fields is finite. -/
def FiniteFields (fields : List (Text × Json)) : Prop := ∀ f ∈ fields, AllFinite f.2

@[simp] theorem finiteFields_nil : FiniteFields [] := List.forall_mem_nil _

@[simp] theorem finiteFields_cons {f : Text × Json} {fs : List (Text × Json)} :
    FiniteFields (f :: fs) ↔ AllFinite f.2 ∧ FiniteFields fs := List.forall_mem_cons

@[simp] theorem finiteFields_append {a b : List (Text × Json)} :
    FiniteFields (a ++ b) ↔ FiniteFields a ∧ FiniteFields b := List.forall_mem_append

@[simp] theorem entry_snd (name : String) (value : Json) : (entry name value).2 = value := rfl

@[simp] theorem allFinite_typeEntry (type : String) : AllFinite (typeEntry type).2 := allFinite_str _

theorem finite_nullableEntry (nullable : Bool) : FiniteFields (nullableEntry nullable) := by
  cases nullable <;> simp [nullableEntry]

theorem finite_requiredEntry (properties : List (Property TypeNode)) :
    FiniteFields (requiredEntry properties) := by
  unfold requiredEntry
  split <;> simp

theorem primitiveEntries?_of_mem {name : Text} (h : name ∈ primitiveNames) :
    ∃ entries, primitiveEntries? name = some entries ∧ FiniteFields entries := by
  have hsome : ∀ n ∈ primitiveNames, (primitiveEntries? n).isSome = true := by decide
  obtain ⟨entries, he⟩ := Option.isSome_iff_exists.mp (hsome name h)
  refine ⟨entries, he, ?_⟩
  unfold primitiveEntries? at he
  repeat' split at he
  all_goals cases he
  all_goals simp

theorem finite_literalEntries (v : LiteralValue) : FiniteFields (literalEntries v) := by
  cases v with
  | bool b => simp [literalEntries]
  | str s => simp [literalEntries]
  | int n => simp [literalEntries]
  | float x =>
    rw [literalEntries]
    split
    · rename_i hx
      simp [hx]
    · simp

/-! ## Fragments -/

/-- The node has a fragment, and every double in it is finite. -/
def HasFragment (n : TypeNode) : Prop := ∃ j, fragment n = .ok j ∧ AllFinite j

theorem fragments_ok {ns : List TypeNode} (h : ∀ n ∈ ns, HasFragment n) :
    ∃ js, fragments ns = .ok js ∧ ∀ j ∈ js, AllFinite j := by
  induction ns with
  | nil => exact ⟨[], rfl, List.forall_mem_nil _⟩
  | cons n ns ih =>
    obtain ⟨j, hj, hf⟩ := h n List.mem_cons_self
    obtain ⟨js, hjs, hfs⟩ := ih fun m hm => h m (List.mem_cons_of_mem n hm)
    refine ⟨j :: js, ?_, List.forall_mem_cons.mpr ⟨hf, hfs⟩⟩
    rw [fragments, hj, hjs]
    rfl

theorem propertyFragments_ok {ps : List (Property TypeNode)}
    (h : ∀ p ∈ ps, HasFragment p.type) :
    ∃ fs, propertyFragments ps = .ok fs ∧ FiniteFields fs := by
  induction ps with
  | nil => exact ⟨[], rfl, finiteFields_nil⟩
  | cons p ps ih =>
    obtain ⟨j, hj, hf⟩ := h p List.mem_cons_self
    obtain ⟨fs, hfs, hffs⟩ := ih fun q hq => h q (List.mem_cons_of_mem p hq)
    refine ⟨(p.name, j) :: fs, ?_, finiteFields_cons.mpr ⟨hf, hffs⟩⟩
    rw [propertyFragments, hj, hfs]
    rfl

theorem paramFragments_ok {ps : List (Param TypeNode)} (h : ∀ p ∈ ps, HasFragment p.type) :
    ∃ js, paramFragments ps = .ok js ∧ ∀ j ∈ js, AllFinite j := by
  induction ps with
  | nil => exact ⟨[], rfl, List.forall_mem_nil _⟩
  | cons p ps ih =>
    obtain ⟨j, hj, hf⟩ := h p List.mem_cons_self
    obtain ⟨js, hjs, hfs⟩ := ih fun q hq => h q (List.mem_cons_of_mem p hq)
    refine ⟨.ofFields [("name", .str p.name), ("schema", j)] :: js, ?_,
      List.forall_mem_cons.mpr ⟨?_, hfs⟩⟩
    · rw [paramFragments, hj, hjs]
      rfl
    · simp [Json.ofFields, hf]

theorem additionalEntry_ok {a : Option TypeNode} (h : ∀ n ∈ a.toList, HasFragment n) :
    ∃ fs, additionalEntry a = .ok fs ∧ FiniteFields fs := by
  cases a with
  | none => exact ⟨[], rfl, finiteFields_nil⟩
  | some n =>
    obtain ⟨j, hj, hf⟩ := h n (by simp)
    refine ⟨[entry "additionalProperties" j], ?_, by simp [hf]⟩
    rw [additionalEntry, hj]
    rfl

/-- The fragment of an object type is made of the fragments of its members. -/
theorem object_of_fragment {text : Text} {nullable : Bool} {ps : List (Property TypeNode)}
    {a : Option TypeNode} {j : Json} (h : fragment ⟨text, nullable, .object ps a⟩ = .ok j) :
    ∃ fs more, propertyFragments ps = .ok fs ∧ additionalEntry a = .ok more ∧
      j = .obj (typeEntry "object" :: entry "properties" (.obj (Fields.ofList fs)) ::
        (requiredEntry ps ++ more ++ nullableEntry nullable)) := by
  rw [fragment, shapeEntries] at h
  cases hfs : propertyFragments ps with
  | error e => rw [hfs] at h; cases h
  | ok fs =>
    cases hmore : additionalEntry a with
    | error e => rw [hfs, hmore] at h; cases h
    | ok more =>
      rw [hfs, hmore] at h
      cases h
      refine ⟨fs, more, rfl, rfl, ?_⟩
      simp only [List.append_assoc, List.cons_append, List.nil_append]

/-- A component shows the members of its props; the props have a fragment of their own. -/
theorem componentEntries_ok (text : Text) {props : TypeNode} (h : HasFragment props) :
    ∃ fs, componentEntries text props = .ok fs ∧ FiniteFields fs := by
  obtain ⟨j, hj, hf⟩ := h
  obtain ⟨ptext, pnullable, shape⟩ := props
  cases shape with
  | object ps a =>
    obtain ⟨fs, more, hfs, hmore, rfl⟩ := object_of_fragment hj
    have hprops : AllFinite (.obj (Fields.ofList fs)) :=
      allFinite_obj.mp hf (entry "properties" _) (by simp)
    rw [componentEntries, hfs, hmore]
    exact ⟨_, rfl, by simp only [finiteFields_cons, entry_snd, hprops]; simp⟩
  | _ => exact ⟨_, rfl, by simp⟩

/-- An admissible construct whose components have fragments has one. -/
theorem shapeEntries_ok (text : Text) {shape : Shape TypeNode} (hs : shape.Admissible)
    (hp : ∀ m ∈ shape.parts, HasFragment m) :
    ∃ fs, shapeEntries text shape = .ok fs ∧ FiniteFields fs := by
  cases shape with
  | primitive name =>
    obtain ⟨entries, he, hf⟩ := primitiveEntries?_of_mem hs
    exact ⟨entries, by simp only [shapeEntries, he], hf⟩
  | literal raw =>
    obtain ⟨v, hv⟩ := literalValue_of_isLiteral hs
    exact ⟨literalEntries v, by simp only [shapeEntries, hv], finite_literalEntries v⟩
  | verbatim raw => exact ⟨_, rfl, by simp⟩
  | array element =>
    obtain ⟨j, hj, hf⟩ := hp element (by simp [Shape.parts])
    rw [shapeEntries, hj]
    exact ⟨_, rfl, by simp [hf]⟩
  | object ps a =>
    obtain ⟨fs, hfs, hffs⟩ := propertyFragments_ok fun p hmem =>
      hp p.type (List.mem_append_left _ (List.mem_map_of_mem hmem))
    obtain ⟨more, hmore, hfm⟩ := additionalEntry_ok fun n hn => hp n (List.mem_append_right _ hn)
    have hobj : AllFinite (.obj (Fields.ofList fs)) := allFinite_ofList hffs
    rw [shapeEntries, hfs, hmore]
    refine ⟨_, rfl, ?_⟩
    simp only [finiteFields_append, finiteFields_cons, entry_snd, hobj, allFinite_typeEntry,
      finiteFields_nil, finite_requiredEntry, hfm, and_self]
  | union members =>
    obtain ⟨js, hjs, hf⟩ : ∃ js, fragments members = .ok js ∧ ∀ j ∈ js, AllFinite j :=
      fragments_ok hp
    rw [shapeEntries, hjs]
    refine ⟨_, rfl, ?_⟩
    simp only [finiteFields_cons, entry_snd, finiteFields_nil, and_true]
    exact allFinite_arr.mpr hf
  | function params returns =>
    obtain ⟨js, hjs, hf⟩ := paramFragments_ok fun p hmem =>
      hp p.type (List.mem_append_left _ (List.mem_map_of_mem hmem))
    obtain ⟨j, hj, hfj⟩ := hp returns (by simp [Shape.parts])
    rw [shapeEntries, hjs, hj]
    refine ⟨_, rfl, ?_⟩
    simp only [finiteFields_cons, entry_snd, finiteFields_nil, allFinite_typeEntry, allFinite_str,
      hfj, and_true, true_and]
    exact allFinite_arr.mpr hf
  | component props =>
    obtain ⟨fs, hfs, hf⟩ := componentEntries_ok text (hp props (by simp [Shape.parts]))
    exact ⟨fs, by rw [shapeEntries, hfs], hf⟩

/-- **A sound node has a fragment**, and the numbers in it are finite. -/
theorem fragment_of_sound {n : TypeNode} (h : Sound n) : HasFragment n := by
  induction h with
  | @intro n hs _ ih =>
    obtain ⟨text, nullable, shape⟩ := n
    obtain ⟨fs, hfs, hf⟩ := shapeEntries_ok text hs ih
    refine ⟨.obj (fs ++ nullableEntry nullable), ?_, ?_⟩
    · rw [fragment, hfs]
      rfl
    · exact allFinite_obj.mpr (finiteFields_append.mpr ⟨hf, finite_nullableEntry nullable⟩)

/-- **Reading, expanding and describing any text succeeds.** Both recursions come to an end; every
union of the type that is read or expanded has two members at least; its fragment exists, and
every double in the fragment is finite. -/
theorem compile_total (ds : List Declaration) (t : Text) :
    Expansion.RecursionEnds (localTypes ds) ∧
      ∀ n, n = TypeNode.parse t ∨ n = Expansion.expand ds t →
        (∀ m members, Within m n → m.shape = .union members → 2 ≤ members.length) ∧
          ∃ j, fragment n = .ok j ∧ ∀ x, HasNumber x j → x.isFinite = true := by
  refine ⟨Expansion.recursionEnds _, fun n hn => ?_⟩
  have hsound : Sound n := by
    rcases hn with rfl | rfl
    · exact TypeNode.sound_parse t
    · exact Expansion.sound_expand ds t
  refine ⟨fun m members hm hu => ?_, fragment_of_sound hsound⟩
  have hadm := (hsound.within hm).shape
  rw [hu] at hadm
  exact hadm

theorem compile_total_of_interface :
    let ds : List Declaration := [.define (.interface [⟨"b".toList, "0.5 | true".toList, true⟩] [])
      ["P".toList] false false]
    let n := Expansion.expand ds "FC<P>".toList
    ∃ m members j x, Within m n ∧ m.shape = .union members ∧ 2 ≤ members.length ∧
      fragment n = .ok j ∧ HasNumber x j ∧ x.isFinite = true := by
  intro ds n
  obtain ⟨hunion, j, hj, hfinite⟩ := (compile_total ds "FC<P>".toList).2 n (Or.inr rfl)
  have hn : n = ⟨"FC<P>".toList, false, .component ⟨"\x7b b?: 0.5 | true \x7d".toList, false, .object
      [⟨"b".toList, ⟨"0.5 | true".toList, false, .union [.plain "0.5".toList (.literal "0.5".toList),
        .plain "true".toList (.literal "true".toList)]⟩, true⟩] none⟩⟩ := rfl
  have hm : Within (.parse "0.5 | true".toList) n := .part (.head _) (.part (.head _) .self)
  have hread : Number.readFloat? "0.5".toList = some (.finite false 4503599627370496 (-53)) := by
    decide +kernel
  have hhalf : literalValue "0.5".toList = .ok (.float (.finite false 4503599627370496 (-53))) := by
    show numberValue "0.5".toList = _
    rw [numberValue, hread]
    decide
  have htrue : literalValue "true".toList = .ok (.bool true) := rfl
  have hx : HasNumber (.finite false 4503599627370496 (-53)) j := by
    rw [hn] at hj
    simp only [fragment, shapeEntries, componentEntries, propertyFragments, fragments,
      additionalEntry, TypeNode.plain, hhalf, htrue] at hj
    cases hj
    exact .field (.tail _ (.tail _ (.head _))) (.field (.head _) (.field (.head _)
      (.item (.head _) (.field (.tail _ (.head _)) .here))))
  exact ⟨_, _, j, _, hm, rfl, hunion _ _ hm rfl, hj, hx, hfinite _ hx⟩

end ExportSchema.Schema
