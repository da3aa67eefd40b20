import ExportSchema.Proofs.TypeNode.Member

/-!
# Reading back a printed interface

An interface is printed as an object type on one line, but the types of its members keep their
line breaks. A member that is read ends with its line, so a type on several lines is cut after the
first, and each later line is read as a member of its own.

* `Property.ofMember`: what a member should read back as.

Results:
* `interface_reads_back_iff`: it reads back as itself exactly when the first line of each type reads
  as the whole type and no later line reads as a member.
* `interface_cut_at_line`: a union on two lines loses its second member.
-/

namespace ExportSchema.TypeNode

open Text (trim)
open Lexeme ExportSchema.Bracket

/-- The property that a member should read back as. -/
def Property.ofMember (m : ExportSchema.Member) : Property TypeNode :=
  ⟨m.name, parse m.type, m.optional⟩

/-- The parts that are read as members contribute properties or index types, nothing else. -/
theorem eq_nil_of_filterMap {ms : List Member} (hp : ms.filterMap Member.property? = [])
    (hi : ms.filterMap Member.index? = []) : ms = [] := by
  cases ms with
  | nil => rfl
  | cons m ms =>
    cases m with
    | property p => cases hp
    | index t => cases hi

/-- The properties of what a member contributes: its own, and those of the later lines. -/
theorem filterMap_contribution (m : ExportSchema.Member) :
    (contribution m).filterMap Member.property? =
      ⟨m.name, .text (firstLine m.type), m.optional⟩ ::
        ((laterLines m.type).filterMap member?).filterMap Member.property? := rfl

theorem length_le_contributions (ms : List ExportSchema.Member) :
    ms.length ≤ ((ms.flatMap contribution).filterMap Member.property?).length := by
  induction ms with
  | nil => exact Nat.le_refl _
  | cons m ms ih =>
    rw [List.flatMap_cons, List.filterMap_append, filterMap_contribution, List.length_append,
      List.length_cons, List.length_cons]
    omega

/-- With no more properties than members, no later line contributes one. -/
theorem laterLines_of_length {ms : List ExportSchema.Member}
    (h : ((ms.flatMap contribution).filterMap Member.property?).length = ms.length) :
    ∀ m ∈ ms, ((laterLines m.type).filterMap member?).filterMap Member.property? = [] := by
  induction ms with
  | nil => exact List.forall_mem_nil _
  | cons m ms ih =>
    have hle := length_le_contributions ms
    rw [List.flatMap_cons, List.filterMap_append, filterMap_contribution, List.length_append,
      List.length_cons, List.length_cons] at h
    refine List.forall_mem_cons.mpr ⟨List.length_eq_zero_iff.mp (by omega), ih (by omega)⟩

/-- **A printed interface reads back as its members** iff the first line of each type reads as the
type and no later line reads as a member. -/
theorem shape_parse_eq_iff {ms : List ExportSchema.Member} (h : ∀ m ∈ ms, Printable m) :
    (parse (Module.bracedText (ms.map (·.text)))).shape =
        .object (ms.map Property.ofMember) none ↔
      ∀ m ∈ ms, parse (firstLine m.type) = parse m.type ∧
        (laterLines m.type).filterMap member? = [] := by
  constructor
  · intro hshape
    have hread := hshape
    rw [parse_bracedText h] at hread
    obtain ⟨hprops, hindex⟩ := Shape.object.inj hread
    -- each member has a property of its own, so counting leaves none for the later lines
    have hlen : ((ms.flatMap contribution).filterMap Member.property?).length = ms.length := by
      simpa using congrArg List.length hprops
    have hnone : (ms.flatMap contribution).filterMap Member.index? = [] := by
      simpa using hindex
    have hlater : ∀ m ∈ ms, (laterLines m.type).filterMap member? = [] := by
      intro m hm
      refine eq_nil_of_filterMap (laterLines_of_length hlen m hm) ?_
      refine List.filterMap_eq_nil_iff.mpr fun x hx => ?_
      exact List.filterMap_eq_nil_iff.mp hnone x
        (List.mem_flatMap.mpr ⟨m, hm, List.mem_cons_of_mem _ hx⟩)
    rw [parse_of_laterLines h hlater] at hshape
    intro m hm
    have hm' := List.map_inj_left.mp (Shape.object.inj hshape).1 m hm
    exact ⟨(Property.mk.inj hm').2.1, hlater m hm⟩
  · intro hlines
    rw [parse_of_laterLines h fun m hm => (hlines m hm).2]
    refine congrArg (Shape.object · none) (List.map_congr_left fun m hm => ?_)
    rw [(hlines m hm).1]
    rfl

/-- **When a printed interface reads back as itself.** The text is the one that an interface of
these members is printed as. It reads back as these members, in order and with no index type, iff
the first line of each type reads as the type and no later line reads as a member; so it does when
every type is on one line. -/
theorem interface_reads_back_iff {ms : List ExportSchema.Member} (h : ∀ m ∈ ms, Printable m) :
    (∀ infer symbols tree, Module.interfaceText infer symbols tree =
        (Module.mergedMembers infer symbols tree).map fun fields =>
          Module.bracedText (fields.values.map (·.text))) ∧
      ((parse (Module.bracedText (ms.map (·.text)))).shape =
          .object (ms.map Property.ofMember) none ↔
        ∀ m ∈ ms, parse (firstLine m.type) = parse m.type ∧
          (laterLines m.type).filterMap member? = []) ∧
      ((∀ m ∈ ms, clearFrom ['\n'] .start m.type = true) →
        (parse (Module.bracedText (ms.map (·.text)))).shape =
          .object (ms.map Property.ofMember) none) := by
  refine ⟨fun infer symbols tree => ?_, shape_parse_eq_iff h, fun hone => ?_⟩
  · unfold Module.interfaceText
    cases Module.mergedMembers infer symbols tree <;> rfl
  · rw [parse_of_lines h hone]
    rfl

/-- Two members on one line each, one of them with a semicolon inside its braces. -/
theorem interface_reads_back_two :
    let ms : List ExportSchema.Member := [⟨"id".toList, "\x7b a: A; b: B \x7d[]".toList, false⟩,
      ⟨"on".toList, "(e: E) => void | null".toList, true⟩]
    (∀ m ∈ ms, Printable m ∧ clearFrom ['\n'] .start m.type = true) ∧
      (parse (Module.bracedText (ms.map (·.text)))).shape =
        .object (ms.map Property.ofMember) none := by
  intro ms
  have h : ∀ m ∈ ms, Printable m := by decide
  have hone : ∀ m ∈ ms, clearFrom ['\n'] .start m.type = true := by decide
  exact ⟨fun m hm => ⟨h m hm, hone m hm⟩, (interface_reads_back_iff h).2.2 hone⟩

/-- **A union on two lines loses its second member**, though the type is properly nested and has
neither semicolon nor comma. -/
theorem interface_cut_at_line :
    let ms : List ExportSchema.Member := [⟨"size".toList, "string\n  | number".toList, false⟩]
    (ms ≠ [] ∧ (ms.map (·.name)).Nodup ∧ ∀ m ∈ ms, Printable m) ∧
      (parse (Module.bracedText (ms.map (·.text)))).shape ≠
        .object (ms.map Property.ofMember) none := by
  intro ms
  refine ⟨by decide, ?_⟩
  have hread : (parse (Module.bracedText (ms.map (·.text)))).shape =
      .object [⟨"size".toList, .plain "string".toList (.primitive "string".toList), false⟩] none :=
    rfl
  have htype : parse "string\n  | number".toList = .plain "string\n  | number".toList (.union
      [.plain "string".toList (.primitive "string".toList),
        .plain "number".toList (.primitive "number".toList)]) := rfl
  rw [hread]
  intro heq
  have hshape : (Shape.primitive "string".toList : Shape TypeNode) =
      (parse "string\n  | number".toList).shape := by
    have hone := (List.cons.inj (Shape.object.inj heq).1).1
    exact congrArg TypeNode.shape (Property.mk.inj hone).2.1
  rw [htype] at hshape
  cases hshape

end ExportSchema.TypeNode
