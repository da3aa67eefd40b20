import ExportSchema.Proofs.TypeNode.Recursion
import Mathlib.Algebra.BigOperators.Group.List.Basic
import Mathlib.Algebra.Ring.Nat

/-!
# The weight of a text

Reading takes off blanks, marks, quotes and brackets, and adds nothing. So whatever is read from a text
is no heavier than the text, when blanks do not count.

* `weight`: how many characters of a text are not blank.
* `Layer.TakenFrom`: what a layer takes from its text.

Results:
* `weight_split`: the parts of a text weigh as much as the text.
* `dropReadonly_eq_or_lt`, `unquote_eq_or_lt`: what a mark or quotes are taken off from is lighter
  afterwards, or there were none.
* `weight_methodMember?`: a getter loses its parentheses.
* `layer_through`: a text that stands for another one is heavier.
* `weight_text_parse_le`: the text of a type is no heavier than what the type was read from.
-/

namespace ExportSchema.Text

/-- How many characters of a text are not blank. -/
def weight (t : Text) : Nat := t.countP fun c => !isBlank c

theorem weight_append (t u : Text) : weight (t ++ u) = weight t + weight u := List.countP_append

theorem weight_cons {c : Char} (hc : isBlank c = false) (t : Text) :
    weight (c :: t) = weight t + 1 :=
  List.countP_cons_of_pos (by rw [hc]; rfl)

theorem weight_of_blank {t : Text} (h : ∀ c ∈ t, isBlank c = true) : weight t = 0 :=
  List.countP_eq_zero.mpr fun c hc => by simp [h c hc]

theorem weight_le_of_sublist {t u : Text} (h : t.Sublist u) : weight t ≤ weight u := h.countP_le

theorem weight_trim (t : Text) : weight (trim t) = weight t := by
  obtain ⟨a, b, ht, ha, hb⟩ := trim_eq_append t
  calc weight (trim t) = weight (a ++ trim t ++ b) := by
        rw [weight_append, weight_append, weight_of_blank ha, weight_of_blank hb, Nat.zero_add,
          Nat.add_zero]
    _ = weight t := by rw [← ht]

end ExportSchema.Text

namespace ExportSchema.Bracket

open Text (isBlank weight)

variable {delims t : Text}

/-- The parts of a text weigh as much as the text, if every delimiter goes with a part. -/
theorem weight_split (h : ∀ c ∈ t, delims.contains c = true → isBlank c = false) :
    ((split delims t none).map fun p => weight p + 1).sum = weight t + 1 := by
  have hsum := countP_splitFrom (p := fun c => !isBlank c) (fun c hc hd => by rw [h c hc hd]; rfl)
    .start none
  rw [List.countP_flatten] at hsum
  change weight _ + (List.map weight _).sum + _ = weight t at hsum
  have hones : ((splitFrom delims .start none t).2.map fun p => weight p + 1).sum =
      ((splitFrom delims .start none t).2.map weight).sum +
        (splitFrom delims .start none t).2.length := by
    rw [List.sum_map_add, List.map_const', List.sum_replicate_nat, Nat.mul_one]
  rw [split_eq, List.map_cons, List.sum_cons, hones]
  omega

/-- A cut of a member gives back all but the colon. -/
theorem weight_cutAt? {a b : Text} (h : cutAt? [':'] t = some (a, b)) :
    weight a + weight b + 1 ≤ weight t := by
  refine countP_cutAt? (fun c _ hc => ?_) h
  obtain rfl := List.mem_singleton.mp (List.contains_iff_mem.mp hc)
  rfl

/-- A union is heavier than each of its members. -/
theorem weight_lt_of_mem_pieces (hbar : clearFrom ['|'] .start t = false) {p : Text}
    (hp : p ∈ pieces ['|'] t) : weight p < weight t := by
  refine countP_lt_of_mem_pieces (fun c _ hc => ?_) hbar hp
  obtain rfl := List.mem_singleton.mp (List.contains_iff_mem.mp hc)
  rfl

/-- A group is heavier than its inside. -/
theorem weight_group {o : Char} (ho : isOpener o = true) {inner : Text} {c : Char}
    (hc : isCloser c = true) : weight (o :: (inner ++ [c])) = weight inner + 2 := by
  have hplain : ∀ {c : Char}, isPlain c = false → isBlank c = false := by
    intro c hp
    rw [← Bool.not_eq_true]
    exact fun hb => absurd (hp.symm.trans (isPlain_of_isBlank hb)) Bool.false_ne_true
  have hob : isBlank o = false := hplain (by simp [isPlain, ho])
  have hcb : isBlank c = false := hplain (by simp [isPlain, hc])
  rw [Text.weight_cons hob, Text.weight_append, Text.weight_cons hcb]
  rfl

end ExportSchema.Bracket

namespace ExportSchema.TypeNode

open Text (trim isBlank weight weight_append weight_cons weight_trim weight_le_of_sublist)
open Lexeme ExportSchema.Bracket

/-! ## What reading takes off -/

theorem dropReadonly_eq_or_lt (t : Text) :
    dropReadonly t = t ∨ weight (dropReadonly t) < weight t := by
  unfold dropReadonly
  split
  · rename_i rest h
    have ht : "readonly ".toList ++ rest = t := List.isPrefixOf?_eq_some_iff_append_eq.mp h
    have hword : weight "readonly ".toList = 8 := by decide
    refine Or.inr ?_
    rw [weight_trim, ← ht, weight_append, hword]
    omega
  · exact Or.inl rfl

theorem weight_dropReadonly_le (t : Text) : weight (dropReadonly t) ≤ weight t := by
  rcases dropReadonly_eq_or_lt t with h | h
  · rw [h]
  · exact h.le

theorem sublist_dropReadonly (t : Text) : (dropReadonly t).Sublist t := by
  unfold dropReadonly
  split
  · rename_i rest h
    have ht : "readonly ".toList ++ rest = t := List.isPrefixOf?_eq_some_iff_append_eq.mp h
    rw [← ht]
    exact (Text.sublist_trim rest).trans (List.sublist_append_right _ _)
  · exact List.Sublist.refl t

theorem unquote_eq_or_lt (t : Text) : unquote t = t ∨ weight (unquote t) < weight t := by
  match t with
  | [] => exact Or.inl rfl
  | [c] => exact Or.inl rfl
  | c :: d :: cs =>
    rw [unquote]
    · split
      · rename_i hq
        have hblank : isBlank c = false := by rcases hq.1 with rfl | rfl <;> rfl
        have hle := weight_le_of_sublist (List.dropLast_sublist (d :: cs))
        refine Or.inr ?_
        rw [weight_cons hblank]
        omega
      · exact Or.inl rfl
    · simp

theorem weight_unquote_le (t : Text) : weight (unquote t) ≤ weight t := by
  rcases unquote_eq_or_lt t with h | h
  · rw [h]
  · exact h.le

theorem weight_splitOptional_le (t : Text) : weight (splitOptional t).1 ≤ weight t := by
  unfold splitOptional
  rw [weight_trim]
  exact weight_le_of_sublist (List.rdropWhile_prefix _ t).sublist

/-- The name of an accessor is part of what stands before its parentheses. -/
theorem sublist_accessor? {head name : Text} {isGetter : Bool}
    (h : accessor? head = some (isGetter, name)) : name.Sublist head := by
  have hline : ∀ {word rest : Text}, Text.after? word head = some rest →
      (if (Text.trimStart rest).getLast? = some '\n' then (Text.trimStart rest).dropLast
        else Text.trimStart rest).Sublist head := by
    intro word rest hafter
    have happ : word ++ rest = head := List.isPrefixOf?_eq_some_iff_append_eq.mp hafter
    have hstart : (Text.trimStart rest).Sublist head := by
      rw [← happ]
      exact (List.dropWhile_suffix _).sublist.trans (List.sublist_append_right word rest)
    split
    · exact (List.dropLast_sublist _).trans hstart
    · exact hstart
  unfold accessor? at h
  simp only at h
  split at h
  · rename_i hget
    simp only [Option.bind_eq_bind, Option.bind_some, Option.ite_none_left_eq_some,
      Option.some.injEq, Prod.mk.injEq] at h
    obtain ⟨-, -, -, rfl⟩ := h
    exact hline hget
  · rename_i hset
    simp only [Option.bind_eq_bind, Option.bind_some, Option.ite_none_left_eq_some,
      Option.some.injEq, Prod.mk.injEq] at h
    obtain ⟨-, -, -, rfl⟩ := h
    exact hline hset
  · cases h

/-- A getter loses its parentheses. -/
theorem weight_methodMember? {head signature result name type : Text} {optional : Bool}
    (h : methodMember? head signature result = some ⟨name, .text type, optional⟩) :
    type = result ∧ weight name + 2 ≤ weight head + weight signature := by
  unfold methodMember? at h
  obtain ⟨inside, hin, h⟩ := Option.bind_eq_some_iff.mp h
  obtain ⟨c, hsig, hb⟩ := (enclosed?_eq_some_iff rfl).mp hin
  have hsignature : 2 ≤ weight signature := by
    rw [hsig, weight_group rfl hb.isCloser]
    omega
  have hhead : weight (unquote (splitOptional (trim (head.takeWhile (· ≠ '<')))).1) ≤
      weight head := by
    have hname := weight_le_of_sublist (List.takeWhile_sublist (p := (· ≠ '<')) (l := head))
    rw [← weight_trim] at hname
    exact (weight_unquote_le _).trans ((weight_splitOptional_le _).trans hname)
  split at h
  · cases h
  · rename_i accessor hacc
    cases h
    have hle : weight accessor ≤
        weight (unquote (splitOptional (trim (head.takeWhile (· ≠ '<')))).1) :=
      weight_le_of_sublist (sublist_accessor? hacc)
    have hunquote := weight_unquote_le (trim accessor)
    rw [weight_trim] at hunquote
    exact ⟨rfl, by omega⟩
  · cases h

/-! ## Layers -/

/-- What a layer takes from the text `t`: its own text is all of `t`, an object type has the members
between the braces, and a layer that stands for another text is a union with this member. -/
def Layer.TakenFrom (t : Text) : Layer → Prop
  | .node text _ (.object properties _) => text = t ∧ ∃ inside c, t = '{' :: (inside ++ [c]) ∧
      ClosesBehind .start inside c ∧ properties = (members inside).filterMap Member.property?
  | .node text _ _ => text = t
  | .same inner | .orNull inner => inner ∈ pieces ['|'] t ∧ clearFrom ['|'] .start t = false

theorem Layer.TakenFrom.text_eq {t text : Text} {nullable : Bool} {shape : Shape Part}
    (h : (Layer.node text nullable shape).TakenFrom t) : text = t := by
  cases shape with
  | object => exact h.1
  | _ => exact h

theorem takenFrom_construct (t : Text) : (construct t).TakenFrom t := by
  have hform := formed_construct t
  generalize construct t = l at hform
  cases hform with
  | object ht hb => exact ⟨rfl, _, _, ht, hb, rfl⟩
  | same hbar hm => exact ⟨hm, hbar⟩
  | orNull hbar hm => exact ⟨hm, hbar⟩
  | _ => exact rfl

/-- A node is read from the text without blanks and `readonly`. -/
theorem takenFrom_of_layer {t text : Text} {nullable : Bool} {shape : Shape Part}
    (h : layer t = .node text nullable shape) :
    (Layer.node text nullable shape).TakenFrom (dropReadonly (trim t)) := by
  unfold layer at h
  simp only at h
  split at h
  · cases h
  · rw [← h]
    exact takenFrom_construct _

/-- A text that stands for another one is heavier. -/
theorem layer_through {t m : Text} (h : layer t = .same m ∨ layer t = .orNull m) :
    m.Sublist t ∧ weight m < weight t := by
  have hsub : (dropReadonly (trim t)).Sublist t :=
    (sublist_dropReadonly _).trans (Text.sublist_trim t)
  have hle := weight_le_of_sublist hsub
  unfold layer at h
  simp only at h
  split at h
  · rename_i inner hin
    obtain rfl : trim inner = m := by simpa using h
    obtain ⟨c, hgroup, hb⟩ := (enclosed?_eq_some_iff rfl).mp hin
    rw [hgroup] at hsub
    rw [hgroup, weight_group rfl hb.isCloser] at hle
    have hinner : inner.Sublist ('(' :: (inner ++ [c])) :=
      (List.sublist_append_left inner [c]).cons '('
    exact ⟨(Text.sublist_trim inner).trans (hinner.trans hsub), by rw [weight_trim]; omega⟩
  · obtain ⟨hm, hbar⟩ : m ∈ pieces ['|'] (dropReadonly (trim t)) ∧
        clearFrom ['|'] .start (dropReadonly (trim t)) = false := by
      have htaken := takenFrom_construct (dropReadonly (trim t))
      rcases h with h | h <;> (rw [h] at htaken; exact htaken)
    exact ⟨(sublist_of_mem_pieces hm).trans hsub,
      (weight_lt_of_mem_pieces hbar hm).trans_le hle⟩

theorem calls_of_through {t m : Text} (h : layer t = .same m ∨ layer t = .orNull m) :
    Calls t m := by
  unfold Calls
  rcases h with h | h <;> (rw [h]; exact List.mem_singleton_self _)

/-- **The text of a type is no heavier than what the type was read from.** -/
theorem weight_text_parse_le (t : Text) : weight (parse t).text ≤ weight t := by
  induction t using wellFounded_calls.induction with
  | h t ih =>
    have hthrough : ∀ m, layer t = .same m ∨ layer t = .orNull m →
        weight (parse m).text ≤ weight t := fun m hm =>
      (ih m (calls_of_through hm)).trans (layer_through hm).2.le
    rw [parse_eq]
    cases hl : layer t with
    | node text nullable shape =>
      show weight text ≤ weight t
      rw [(takenFrom_of_layer hl).text_eq]
      exact (weight_dropReadonly_le _).trans (weight_trim t).le
    | same inner => exact hthrough inner (Or.inl hl)
    | orNull inner => exact hthrough inner (Or.inr hl)

end ExportSchema.TypeNode
