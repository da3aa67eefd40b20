import ExportSchema.Proofs.TypeNode.Recursion

/-!
# Sound type nodes

A node is sound when every construct in it is one that the schema side understands: keywords are
keywords, literals are literals, and a union has two members at least.

* `Within`: a node stands somewhere inside another.
* `Shape.Admissible`, `Sound`: one construct is as it should be; all constructs of a node are.

Results:
* `TypeNode.induction_parts`: a property passes from the components of a node to the node.
* `sound_parse`: what is read from a text is sound, whatever the text.
-/

namespace ExportSchema

/-! ## Components -/

theorem Shape.parts_map {α β : Type} (f : α → β) (s : Shape α) : (s.map f).parts = s.parts.map f := by
  cases s with
  | primitive | literal | verbatim => rfl
  | array element => rfl
  | object properties additional =>
    cases additional with
    | none => simp [map, parts, Property.map]
    | some a => simp [map, parts, Property.map]
  | union members => rfl
  | function params returns => simp [map, parts, Param.map]
  | component props => rfl

theorem Shape.mem_parts_map {α β : Type} {f : α → β} {s : Shape α} {b : β} :
    b ∈ (s.map f).parts ↔ ∃ a ∈ s.parts, f a = b := by
  rw [Shape.parts_map, List.mem_map]

theorem TypeNode.sizeOf_lt_of_mem_parts {n m : TypeNode} (h : m ∈ n.shape.parts) :
    sizeOf m < sizeOf n := by
  obtain ⟨text, nullable, shape⟩ := n
  cases shape with
  | primitive | literal | verbatim => cases h
  | array element =>
    obtain rfl : m = element := by simpa [Shape.parts] using h
    simp
    omega
  | object properties additional =>
    rcases List.mem_append.mp h with h | h
    · obtain ⟨p, hp, rfl⟩ := List.mem_map.mp h
      have := List.sizeOf_lt_of_mem hp
      obtain ⟨name, type, optional⟩ := p
      simp at this ⊢
      omega
    · obtain rfl : additional = some m := Option.mem_toList.mp h
      simp
      omega
  | union members =>
    have := List.sizeOf_lt_of_mem (show m ∈ members from h)
    simp
    omega
  | function params returns =>
    rcases List.mem_append.mp h with h | h
    · obtain ⟨p, hp, rfl⟩ := List.mem_map.mp h
      have := List.sizeOf_lt_of_mem hp
      obtain ⟨name, type⟩ := p
      simp at this ⊢
      omega
    · obtain rfl : m = returns := by simpa using h
      simp
      omega
  | component props =>
    obtain rfl : m = props := by simpa [Shape.parts] using h
    simp
    omega

namespace TypeNode

/-- **Induction over type nodes**: a property passes from the components to the node. -/
theorem induction_parts {P : TypeNode → Prop} (step : ∀ n, (∀ m ∈ n.shape.parts, P m) → P n)
    (n : TypeNode) : P n :=
  (measure (sizeOf : TypeNode → Nat)).wf.induction n fun n ih =>
    step n fun m hm => ih m (sizeOf_lt_of_mem_parts hm)

/-- The node `m` stands inside a node, or is that node. -/
inductive Within (m : TypeNode) : TypeNode → Prop
  | self : Within m m
  | part {n p : TypeNode} (hp : p ∈ n.shape.parts) (h : Within m p) : Within m n

theorem Within.trans {a b c : TypeNode} (hab : Within a b) (hbc : Within b c) : Within a c := by
  induction hbc with
  | self => exact hab
  | part hp _ ih => exact .part hp ih

end TypeNode

/-! ## Soundness -/

/-- A construct whose keyword is one, whose literal is one, or whose union has two members. -/
def Shape.Admissible {α : Type} : Shape α → Prop
  | .primitive name => name ∈ Lexeme.primitiveNames
  | .literal raw => Lexeme.isLiteral raw = true
  | .union members => 2 ≤ members.length
  | _ => True

theorem Shape.admissible_map {α β : Type} {f : α → β} {s : Shape α} :
    (s.map f).Admissible ↔ s.Admissible := by
  cases s with
  | union members => simp only [map, Admissible, List.length_map]
  | _ => rfl

namespace TypeNode

open Lexeme ExportSchema.Bracket

/-- Every construct of the node is admissible. -/
inductive Sound : TypeNode → Prop
  | intro {n : TypeNode} (shape : n.shape.Admissible) (parts : ∀ m ∈ n.shape.parts, Sound m) :
      Sound n

theorem Sound.shape {n : TypeNode} (h : Sound n) : n.shape.Admissible := by
  cases h with
  | intro hs _ => exact hs

theorem Sound.parts {n : TypeNode} (h : Sound n) : ∀ m ∈ n.shape.parts, Sound m := by
  cases h with
  | intro _ hp => exact hp

theorem Sound.within {n m : TypeNode} (h : Sound n) (hm : Within m n) : Sound m := by
  induction hm with
  | self => exact h
  | part hp _ ih => exact ih (h.parts _ hp)

theorem Sound.asNullable {n : TypeNode} (h : Sound n) : Sound n.asNullable :=
  .intro h.shape h.parts

theorem sound_verbatim (t : Text) : Sound (verbatim t) :=
  .intro trivial fun _ h => by cases h

/-- Every form gives an admissible construct. -/
theorem admissible_of_construct {t text : Text} {nullable : Bool} {shape : Shape Part}
    (h : construct t = .node text nullable shape) : shape.Admissible := by
  have hform := formed_construct t
  rw [h] at hform
  cases hform with
  | keyword hname => exact hname
  | literal hliteral => exact hliteral
  | nullish =>
    show "null".toList ∈ primitiveNames
    decide
  | union _ htwo =>
    show 2 ≤ ((concrete t).map Part.text).length
    rw [List.length_map]
    exact htwo
  | suffix | array | component | object | function | verbatim => trivial

theorem admissible_of_layer {t text : Text} {nullable : Bool} {shape : Shape Part}
    (h : layer t = .node text nullable shape) : shape.Admissible := by
  unfold layer at h
  simp only at h
  split at h
  · cases h
  · exact admissible_of_construct h

theorem Part.sound_build {read : Text → TypeNode} {p : Part} (h : ∀ u ∈ p.texts, Sound (read u)) :
    Sound (p.build read) := by
  cases p with
  | text t => exact h t (by simp [Part.texts])
  | method src params returns =>
    refine .intro trivial fun m hm => ?_
    rcases List.mem_append.mp hm with hm | hm
    · obtain ⟨q, hq, rfl⟩ := List.mem_map.mp hm
      obtain ⟨r, hr, rfl⟩ := List.mem_map.mp hq
      exact h r.type (List.mem_append_left _ (List.mem_map_of_mem hr))
    · obtain rfl : m = read returns := by simpa using hm
      exact h returns (by simp [Part.texts])

/-- **What is read from a text is sound**, whatever the text. -/
theorem sound_parse (t : Text) : Sound (parse t) := by
  induction t using wellFounded_calls.induction with
  | h t ih =>
    rw [parse_eq]
    cases hl : layer t with
    | node text nullable shape =>
      have hu : ∀ p ∈ shape.parts, ∀ u ∈ p.texts, Sound (parse u) := by
        intro p hp u hu
        refine ih u ?_
        unfold Calls
        rw [hl]
        exact List.mem_flatMap.mpr ⟨p, hp, hu⟩
      refine .intro (Shape.admissible_map.mpr (admissible_of_layer hl)) fun m hm => ?_
      obtain ⟨p, hp, rfl⟩ := Shape.mem_parts_map.mp hm
      exact Part.sound_build (hu p hp)
    | same inner => exact ih inner (by unfold Calls; rw [hl]; exact List.mem_singleton_self _)
    | orNull inner =>
      have hi : Sound (parse inner) :=
        ih inner (by unfold Calls; rw [hl]; exact List.mem_singleton_self _)
      exact hi.asNullable

end TypeNode

end ExportSchema
