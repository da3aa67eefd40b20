import ExportSchema.Proofs.TypeNode.ArrayText
import ExportSchema.Proofs.TypeNode.Weight

/-!
# A node and its own text

Every node carries a text. Most are cut out of what was read, and the text of a method is put
together. Either way reading starts from it as if nothing had stood around it: the text is trimmed,
it is not in parentheses, and it has the form that made the node. Only the mark `readonly` in front
spoils this, since it is taken off once more, and `null` that was folded in does not stand in the
text.

* `Part.Spelled`: the text of a method is a group, an arrow and the result.
* `ReadsBack`: reading the text of a node gives the node again.

Results:
* `construct_of_layer`: the text of a node that is read by its form has this form.
* `spelled_of_construct`: the methods of an object type are spelled as they should be.
* `readsBack_of_within`: every node of a reading without the mark in its text reads back.
* `shape_eq_of_text_eq`: nodes of any two readings agree when their texts do.
* `text_determines_node`: what the text of a node says about the node.
-/

namespace ExportSchema.TypeNode

open Text (trim isBlank)
open Lexeme ExportSchema.Bracket

/-! ## The text of a layer -/

theorem trim_dropReadonly {t : Text} (h : trim t = t) : trim (dropReadonly t) = dropReadonly t := by
  unfold dropReadonly
  split
  · exact Text.trim_trim _
  · exact h

/-- **The text of a node has the form that made the node**, with nothing around it to take off. -/
theorem construct_of_layer {t text : Text} {nullable : Bool} {shape : Shape Part}
    (h : layer t = .node text nullable shape) :
    trim text = text ∧ enclosed? '(' text = none ∧
      construct text = .node text nullable shape := by
  obtain rfl : text = dropReadonly (trim t) := (takenFrom_of_layer h).text_eq
  have htrim : trim (dropReadonly (trim t)) = dropReadonly (trim t) :=
    trim_dropReadonly (Text.trim_trim t)
  unfold layer at h
  simp only at h
  split at h
  · cases h
  · rename_i hparen
    exact ⟨htrim, hparen, h⟩

/-- Without the mark in front, the text of a layer has this layer. -/
theorem layer_of_layer {t text : Text} {nullable : Bool} {shape : Shape Part}
    (h : layer t = .node text nullable shape)
    (hmark : Text.startsWith readonlyMark text = false) :
    layer text = .node text nullable shape := by
  obtain ⟨htrim, hparen, hform⟩ := construct_of_layer h
  rw [layer_eq_construct htrim (after?_eq_none hmark) hparen, hform]

/-! ## The texts of methods -/

/-- The text of a method is a group, an arrow and the result, and the parameters are those of the
group. Nothing is asked of other parts. -/
def Part.Spelled : Part → Prop
  | .text _ => True
  | .method src ps returns => ∃ inside c, ClosesBehind .start inside c ∧
      src = '(' :: (inside ++ [c]) ++ " => ".toList ++ returns ∧ ps = params inside

theorem spelled_methodMember? {head signature result : Text} {p : Property Part}
    (h : methodMember? head signature result = some p) : p.type.Spelled := by
  unfold methodMember? at h
  obtain ⟨inside, hin, h⟩ := Option.bind_eq_some_iff.mp h
  split at h
  · cases h
  · cases h
    trivial
  · cases h
    obtain ⟨c, hsig, hb⟩ := (enclosed?_eq_some_iff rfl).mp hin
    exact ⟨inside, c, hb, by rw [hsig], rfl⟩

theorem spelled_member? {raw : Text} {p : Property Part}
    (h : member? raw = some (.property p)) : p.type.Spelled := by
  unfold member? at h
  obtain ⟨⟨name, type⟩, -, h⟩ := Option.bind_eq_some_iff.mp h
  simp only at h
  split at h
  · cases h
  split at h
  · cases h
  split at h
  · obtain ⟨q, hq, h⟩ := Option.bind_eq_some_iff.mp h
    cases h
    exact spelled_methodMember? hq
  · cases h
    trivial

/-- The parts of an object type are spelled as they should be. -/
theorem spelled_of_mem_object {inside : Text} {p : Part}
    (h : p ∈ (Shape.object ((members inside).filterMap Member.property?)
      (((members inside).filterMap Member.index?).getLast?.map Part.text)).parts) : p.Spelled := by
  rcases List.mem_append.mp h with h | h
  · obtain ⟨q, hq, rfl⟩ := List.mem_map.mp h
    obtain ⟨m, hm, hmq⟩ := List.mem_filterMap.mp hq
    obtain ⟨raw, -, hraw⟩ := List.mem_filterMap.mp hm
    cases m with
    | property r =>
      cases hmq
      exact spelled_member? hraw
    | index i => cases hmq
  · obtain ⟨i, -, rfl⟩ := Option.map_eq_some_iff.mp (Option.mem_toList.mp h)
    trivial

/-- **Methods are spelled as they should be**: they stand in object types only. -/
theorem spelled_of_construct {t text : Text} {nullable : Bool} {shape : Shape Part}
    (h : construct t = .node text nullable shape) : ∀ p ∈ shape.parts, p.Spelled := by
  intro p hp
  have hform := formed_construct t
  rw [h] at hform
  cases hform with
  | keyword | literal | nullish | verbatim => cases hp
  | suffix | array | component =>
    obtain rfl := List.mem_singleton.mp hp
    trivial
  | object => exact spelled_of_mem_object hp
  | union =>
    obtain ⟨u, -, rfl⟩ := List.mem_map.mp hp
    trivial
  | function =>
    rcases List.mem_append.mp hp with hp | hp
    · obtain ⟨q, hq, rfl⟩ := List.mem_map.mp hp
      obtain ⟨r, -, rfl⟩ := List.mem_map.mp hq
      trivial
    · obtain rfl := List.mem_singleton.mp hp
      trivial

/-! ## Reading back -/

/-- Reading the text of a node gives the node again, except that blanks at the end of the text are
gone and `null` that was folded in is forgotten. -/
structure ReadsBack (n : TypeNode) : Prop where
  shape : (parse n.text).shape = n.shape
  text : ∃ blanks, n.text = (parse n.text).text ++ blanks ∧ ∀ c ∈ blanks, isBlank c = true
  nullable : (parse n.text).nullable = true → n.nullable = true

theorem ReadsBack.asNullable {n : TypeNode} (h : ReadsBack n) : ReadsBack n.asNullable :=
  ⟨h.shape, h.text, fun _ => rfl⟩

/-- A node whose text has the layer that it was read by. -/
theorem readsBack_of_layer {text : Text} {nullable : Bool} {shape : Shape Part}
    (h : layer text = .node text nullable shape) :
    ReadsBack ⟨text, nullable, shape.map (·.build parse)⟩ := by
  have hparse : parse text = ⟨text, nullable, shape.map (·.build parse)⟩ := by
    rw [parse_eq, h]
    rfl
  refine ⟨congrArg TypeNode.shape hparse, ⟨[], ?_, List.forall_mem_nil _⟩, fun hnull => ?_⟩
  · rw [List.append_nil]
    exact (congrArg TypeNode.text hparse).symm
  · rw [hparse] at hnull
    exact hnull

/-- **A method reads back**, although its text stands nowhere: the group in front of the arrow is
its parameters again, and the arrow owns the whole result. -/
theorem readsBack_method {src returns : Text} {ps : List (Param Text)}
    (h : (Part.method src ps returns).Spelled) :
    ReadsBack ((Part.method src ps returns).build parse) := by
  obtain ⟨inside, c, hb, rfl, rfl⟩ := h
  have hparse := parse_group_arrow TypeParams.none hb returns
  rw [List.nil_append] at hparse
  obtain ⟨blanks, htext, hblanks⟩ :=
    Text.trim_eq_append_of_head (t := '(' :: (inside ++ [c]) ++ " => ".toList ++ returns)
      fun d hd => by
        cases hd
        rfl
  have hshape := congrArg TypeNode.shape hparse
  refine ⟨hshape, ⟨blanks, ?_, hblanks⟩, fun hnull => ?_⟩
  · exact htext.trans (congrArg (·.text ++ blanks) hparse).symm
  · cases hnull.symm.trans (congrArg TypeNode.nullable hparse)

/-- What stands inside a part is the method itself or stands inside one of the texts. -/
theorem within_build {n : TypeNode} {p : Part} (h : Within n (p.build parse)) :
    (∃ u ∈ p.texts, Within n (parse u)) ∨
      ∃ src ps returns, p = .method src ps returns ∧ n = p.build parse := by
  cases p with
  | text u => exact Or.inl ⟨u, List.mem_singleton_self u, h⟩
  | method src ps returns =>
    cases h with
    | self => exact Or.inr ⟨src, ps, returns, rfl, rfl⟩
    | @part _ m hm h =>
      refine Or.inl ?_
      rcases List.mem_append.mp hm with hm | hm
      · obtain ⟨q, hq, rfl⟩ := List.mem_map.mp hm
        obtain ⟨r, hr, rfl⟩ := List.mem_map.mp hq
        exact ⟨r.type, List.mem_append_left _ (List.mem_map_of_mem hr), h⟩
      · obtain rfl := List.mem_singleton.mp hm
        exact ⟨returns, List.mem_append_right _ (List.mem_singleton_self _), h⟩

/-- **Every node of a reading reads back**, if the mark does not stand in front of its text. -/
theorem readsBack_of_within {t : Text} {n : TypeNode} (hn : Within n (parse t))
    (hmark : Text.startsWith readonlyMark n.text = false) : ReadsBack n := by
  induction t using wellFounded_calls.induction generalizing n with
  | h t ih =>
    rw [parse_eq] at hn
    cases hl : layer t with
    | node text nullable shape =>
      rw [hl] at hn
      cases hn with
      | self => exact readsBack_of_layer (layer_of_layer hl hmark)
      | part hm hn =>
        obtain ⟨p, hp, rfl⟩ := Shape.mem_parts_map.mp hm
        rcases within_build hn with ⟨u, hu, hn⟩ | ⟨src, ps, returns, rfl, rfl⟩
        · refine ih u ?_ hn hmark
          unfold Calls
          rw [hl]
          exact List.mem_flatMap.mpr ⟨p, hp, hu⟩
        · exact readsBack_method (spelled_of_construct (construct_of_layer hl).2.2 _ hp)
    | same inner =>
      rw [hl] at hn
      exact ih inner (calls_of_through (Or.inl hl)) hn hmark
    | orNull inner =>
      rw [hl] at hn
      cases hn with
      | self =>
        have hinner : ReadsBack (parse inner) := ih inner (calls_of_through (Or.inr hl)) .self hmark
        exact hinner.asNullable
      | part hm hn => exact ih inner (calls_of_through (Or.inr hl)) (.part hm hn) hmark

/-- **Equal texts, equal nodes**: nodes of any two readings agree when their texts do, whatever
stood around these texts. -/
theorem shape_eq_of_text_eq {t u : Text} {m n : TypeNode} (hm : Within m (parse t))
    (hn : Within n (parse u)) (htext : m.text = n.text)
    (hmark : Text.startsWith readonlyMark m.text = false) : m.shape = n.shape :=
  calc m.shape = (parse m.text).shape := (readsBack_of_within hm hmark).shape.symm
    _ = (parse n.text).shape := by rw [htext]
    _ = n.shape := (readsBack_of_within hn (htext ▸ hmark)).shape

/-- **The text of a node determines the node.** Any node of a reading, at any depth, is read again
from its own text: the same construct with the same components as whole nodes. Only `null` that was
folded into the node itself can be forgotten, and blanks at the end of its text can go. This asks
that the mark does not stand in front of the text. -/
theorem text_determines_node {t : Text} {n : TypeNode} (hn : Within n (parse t))
    (hmark : Text.startsWith readonlyMark n.text = false) :
    (parse n.text).shape = n.shape ∧
      (∃ blanks, n.text = (parse n.text).text ++ blanks ∧ ∀ c ∈ blanks, isBlank c = true) ∧
      ((parse n.text).nullable = true → n.nullable = true) :=
  have h : ReadsBack n := readsBack_of_within hn hmark
  ⟨h.shape, h.text, h.nullable⟩

/-- The text of a method is put together; without a result it ends in a blank. -/
theorem text_determines_node_of_method :
    let t := "Array<\x7b m?(x: A[], y): \x7d | null>".toList
    let n : TypeNode := .plain "(x: A[], y) => ".toList (.function
      [⟨"x".toList, .plain "A[]".toList (.array (.verbatim "A".toList))⟩,
        ⟨"y".toList, .plain "any".toList (.primitive "any".toList)⟩] (.verbatim []))
    Within n (parse t) ∧ Text.startsWith readonlyMark n.text = false ∧
      (parse n.text).shape = n.shape ∧ (parse n.text).text = "(x: A[], y) =>".toList := by
  intro t n
  have hn : Within n (parse t) :=
    .part (List.mem_singleton_self _) (.part (List.mem_singleton_self _) .self)
  have hmark : Text.startsWith readonlyMark n.text = false := by decide
  exact ⟨hn, hmark, (text_determines_node hn hmark).1, by decide +kernel⟩

/-- The mark is taken off once more. -/
example :
    let n := parse "readonly readonly A".toList
    n.shape = .verbatim "readonly A".toList ∧ (parse n.text).shape = .verbatim "A".toList :=
  ⟨rfl, rfl⟩

end ExportSchema.TypeNode
