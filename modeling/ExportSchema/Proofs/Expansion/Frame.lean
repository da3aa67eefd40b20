import ExportSchema.Proofs.Expansion.Reach

/-!
# What expansion leaves alone

Expanding a text replaces the props of its components, and nothing else. A component inside the
props of another belongs to these props, so only the outermost components count.

* `Shape.outline`: a construct without its components.
* `TypeNode.SameOutsideProps`: two nodes are equal but for the props of outermost components.

Results:
* `Shape.eq_of_outline`: a construct is its outline with its components.
* `SameOutsideProps.eq_of_no_component`: without components the two nodes are equal.
* `sameOutsideProps_expandNode`: outside props, expanding a node changes props only.
* `expandNode_of_unresolved`: where no name has a type, a node stays as it is.
* `expand_changes_props_only`: a text expands to what is read from it, but for props.
-/

namespace ExportSchema

/-! ## Outlines -/

namespace Shape

variable {α β γ : Type}

theorem map_map (f : α → β) (g : β → γ) (s : Shape α) : (s.map f).map g = s.map (g ∘ f) := by
  cases s with
  | object properties additional =>
    simp only [map, List.map_map, Option.map_map]
    rfl
  | function params returns =>
    simp only [map, List.map_map]
    rfl
  | union members => simp only [map, List.map_map]
  | _ => rfl

theorem map_id (s : Shape α) : s.map (fun a => a) = s := by
  cases s with
  | object properties additional =>
    have hp : (Property.map fun a : α => a) = id := rfl
    simp only [map, hp, List.map_id, Option.map_id']
  | function params returns =>
    have hp : (Param.map fun a : α => a) = id := rfl
    simp only [map, hp, List.map_id]
  | union members => simp only [map, List.map_id']
  | _ => rfl

/-- A construct without its components: its kind, and the names, marks and order in it. -/
def outline (s : Shape α) : Shape Unit := s.map fun _ => ()

theorem outline_map (f : α → β) (s : Shape α) : (s.map f).outline = s.outline := map_map f _ s

theorem length_parts_outline (s : Shape α) : s.outline.parts.length = s.parts.length := by
  rw [outline, parts_map, List.length_map]

/-- Lists of labelled things are equal when the labels and the things are. -/
theorem eq_of_maps {δ ε : Type} {label : α → δ} {thing : α → ε}
    (hinj : ∀ a b, label a = label b → thing a = thing b → a = b) {l l' : List α}
    (hl : l.map label = l'.map label) (ht : l.map thing = l'.map thing) : l = l' := by
  have hpair : (fun a => (label a, thing a)).Injective := fun a b h =>
    hinj a b (congrArg Prod.fst h) (congrArg Prod.snd h)
  refine List.map_injective_iff.mpr hpair ?_
  rw [← List.zip_map', ← List.zip_map', hl, ht]

/-- **A construct is its outline with its components.** -/
theorem eq_of_outline {s s' : Shape α} (ho : s.outline = s'.outline) (hp : s.parts = s'.parts) :
    s = s' := by
  cases s with
  | primitive | literal | verbatim =>
    cases s' <;> cases ho
    rfl
  | array | component =>
    cases s' <;> cases ho
    cases hp
    rfl
  | union members =>
    cases s' with
    | union members' => exact congrArg union hp
    | _ => cases ho
  | object properties additional =>
    cases s' with
    | object properties' additional' =>
      injection ho with hps ha
      have hlength : (properties.map (·.type)).length = (properties'.map (·.type)).length := by
        simpa using congrArg List.length hps
      obtain ⟨htypes, hadditional⟩ := List.append_inj hp hlength
      have hproperties : properties = properties' :=
        eq_of_maps (fun p q hpq ht => by cases p; cases q; cases hpq; cases ht; rfl) hps htypes
      have hindex : additional = additional' := by
        cases additional <;> cases additional' <;> simp_all
      rw [hproperties, hindex]
    | _ => cases ho
  | function params returns =>
    cases s' with
    | function params' returns' =>
      injection ho with hps
      obtain ⟨htypes, hreturns⟩ := List.append_inj' hp rfl
      have hparams : params = params' :=
        eq_of_maps (fun p q hpq ht => by cases p; cases q; cases hpq; cases ht; rfl) hps htypes
      rw [hparams, List.singleton_inj.mp hreturns]
    | _ => cases ho

end Shape

/-! ## Equal outside props -/

namespace TypeNode

/-- The two nodes are equal but for the props of their outermost components. -/
inductive SameOutsideProps : TypeNode → TypeNode → Prop
  | component (text : Text) (nullable : Bool) (props props' : TypeNode) :
      SameOutsideProps ⟨text, nullable, .component props⟩ ⟨text, nullable, .component props'⟩
  | parts {text : Text} {nullable : Bool} {s s' : Shape TypeNode}
      (houtline : s.outline = s'.outline)
      (hparts : ∀ (i : Nat) (p p' : TypeNode), s.parts[i]? = some p → s'.parts[i]? = some p' →
        SameOutsideProps p p') :
      SameOutsideProps ⟨text, nullable, s⟩ ⟨text, nullable, s'⟩

/-- **Without components the two nodes are equal.** -/
theorem SameOutsideProps.eq_of_no_component {n n' : TypeNode} (h : SameOutsideProps n n')
    (hnone : ∀ c props, Within c n' → c.shape ≠ .component props) : n = n' := by
  induction h with
  | component text nullable props props' => exact absurd rfl (hnone _ props' .self)
  | @parts text nullable s s' houtline _ ih =>
    have hlength : s.parts.length = s'.parts.length := by
      rw [← Shape.length_parts_outline s, houtline, Shape.length_parts_outline]
    have hparts : s.parts = s'.parts := by
      refine List.ext_getElem hlength fun i hi hi' => ?_
      refine ih i _ _ (List.getElem?_eq_getElem hi) (List.getElem?_eq_getElem hi') ?_
      exact fun c props hc => hnone c props (.part (List.getElem_mem hi') hc)
    rw [Shape.eq_of_outline houtline hparts]

end TypeNode

namespace Expansion

open TypeNode (SameOutsideProps Within)

variable {resolve : Text → Option TypeNode}

/-- **Outside props, expanding a node changes props only.** -/
theorem sameOutsideProps_expandNode (n : TypeNode) :
    SameOutsideProps (expandNode resolve .outside n) n := by
  induction n using TypeNode.induction_parts with
  | step n ih =>
    obtain ⟨text, nullable, shape⟩ := n
    rcases expandNode_cases resolve .outside ⟨text, nullable, shape⟩ with
      ⟨raw, hs, ⟨he, -⟩ | ⟨hplace, -⟩⟩ | ⟨props, hs, he⟩ | ⟨-, -, he⟩
    · cases hs
      rw [he]
      exact .parts rfl fun i p p' hp => by cases hp
    · cases hplace
    · cases hs
      rw [he]
      exact .component text nullable _ props
    · rw [he]
      refine .parts (Shape.outline_map _ _) fun i p p' hp hp' => ?_
      rw [Shape.parts_map, List.getElem?_map, hp', Option.map_some] at hp
      cases hp
      exact ih p' (List.mem_of_getElem? hp')

/-- **Where no name has a type, a node stays as it is.** -/
theorem expandNode_of_unresolved (hnone : ∀ k, resolve k = none) (place : Place) (n : TypeNode) :
    expandNode resolve place n = n := by
  have hnamed : ∀ raw, named? resolve raw = none := by
    intro raw
    unfold named?
    split
    · exact hnone _
    · rfl
  induction n using TypeNode.induction_parts generalizing place with
  | step n ih =>
    obtain ⟨text, nullable, shape⟩ := n
    rcases expandNode_cases resolve place ⟨text, nullable, shape⟩ with
      ⟨raw, -, ⟨he, -⟩ | ⟨-, m, hm, -⟩⟩ | ⟨props, hs, he⟩ | ⟨-, -, he⟩
    · exact he
    · rw [hnamed raw] at hm
      cases hm
    · cases hs
      have hprops : expandProps resolve props = props := by
        obtain ⟨raw, -, hp⟩ | hp := expandProps_cases resolve props
        · rw [hp, hnamed raw]
          rfl
        · rw [hp]
          exact ih props (by simp [Shape.parts]) .insideProps
      rw [he, hprops]
    · rw [he, Shape.map_congr fun p hp => ih p hp place, Shape.map_id]

theorem lookup_localTypes_of_none {ds : List Declaration} (h : ∀ d ∈ ds, d.localType? = none)
    (k : Text) : (localTypes ds).lookup k = none := by
  rw [localTypes, List.filterMap_eq_nil_iff.mpr h]
  rfl

/-- **Expansion changes the props of components only.** A text expands to what is read from it, but
for the props of its outermost components; so without a component, or without a local type in the
module, it expands to exactly what is read from it. -/
theorem expand_changes_props_only (ds : List Declaration) (t : Text) :
    let n := ((Expander.fresh ds).expand t).1
    SameOutsideProps n (.parse t) ∧
      ((∀ c props, Within c (.parse t) → c.shape ≠ .component props) → n = .parse t) ∧
      ((∀ d ∈ ds, d.localType? = none) → n = .parse t) := by
  simp only [Expander.expand_fresh]
  have hsame : SameOutsideProps (expand ds t) (.parse t) := sameOutsideProps_expandNode _
  refine ⟨hsame, hsame.eq_of_no_component, fun hnone => ?_⟩
  refine expandNode_of_unresolved (fun k => ?_) .outside (.parse t)
  rw [resolve_eq, resolveIn_eq, lookup_localTypes_of_none hnone]

/-- Of the two members of a union, the component changes in its props and the bare name stays.
Without a component the name stays alone, and a class and an interface without a name are no local
types. -/
theorem expand_changes_props_only_of_union :
    let ds : List Declaration :=
      [.define (.interface [⟨"a".toList, "string".toList, false⟩] []) ["P".toList] false false]
    let others : List Declaration := [.define .classType ["P".toList] false false,
      .define (.interface [⟨"a".toList, "string".toList, false⟩] []) [] false false]
    let n := ((Expander.fresh ds).expand "FC<P> | P".toList).1
    n = .plain "FC<P> | P".toList (.union [
      .plain "FC<P>".toList (.component (.plain "\x7b a: string \x7d".toList
        (.object [⟨"a".toList, .plain "string".toList (.primitive "string".toList), false⟩] none))),
      .verbatim "P".toList]) ∧
    SameOutsideProps n (.parse "FC<P> | P".toList) ∧
    (∀ c props, Within c (.parse "P[]".toList) → c.shape ≠ .component props) ∧
    ((Expander.fresh ds).expand "P[]".toList).1 = .parse "P[]".toList ∧
    (∀ d ∈ others, d.localType? = none) ∧
    ((Expander.fresh others).expand "FC<P>".toList).1 = .parse "FC<P>".toList := by
  intro ds others n
  have hread : TypeNode.parse "P[]".toList =
      .plain "P[]".toList (.array (.verbatim "P".toList)) := rfl
  have hnone : ∀ c props, Within c (.parse "P[]".toList) → c.shape ≠ .component props := by
    rintro c props hc hs
    rw [hread] at hc
    cases hc with
    | self => cases hs
    | part hpart hc =>
      obtain rfl := List.mem_singleton.mp hpart
      cases hc with
      | self => cases hs
      | part hpart _ => cases hpart
  have hothers : ∀ d ∈ others, d.localType? = none := by decide
  exact ⟨rfl, (expand_changes_props_only ds "FC<P> | P".toList).1, hnone,
    (expand_changes_props_only ds "P[]".toList).2.1 hnone, hothers,
    (expand_changes_props_only others "FC<P>".toList).2.2 hothers⟩

end Expansion

end ExportSchema
