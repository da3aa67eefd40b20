import ExportSchema.Expansion
import ExportSchema.Proofs.Fields
import ExportSchema.Proofs.TypeNode.Sound

/-!
# Resolving local names

A local name stands for the type of its declaration, with the names in it resolved in turn. Each
step down adds a declared name to the ones being expanded, so the depth that `resolveDepth`
carries is never met.

* `expandProps`: what becomes of the props of a component.
* `resolveIn`: the type of a name while other names are being expanded.
* `Opens`: resolving one name calls for resolving another.

Results:
* `expandNode_cases`: one construct of a node, expanded.
* `wellFounded_opens`: no chain of resolutions goes on for ever.
* `resolveIn_eq`: a name is its declaration, with the names in it resolved in the same way.
* `mem_parts_interfaceNode`: the members of an interface are its own and those of its parents.
* `sound_expand`: what is expanded is sound.
-/

namespace ExportSchema.Expansion

open Fields (pending pending_cons_lt pending_le_length)
open TypeNode (Sound Within)

/-! ## Expanding one construct -/

variable {resolve : Text → Option TypeNode} {place : Place}

theorem expandNodes_eq (ns : List TypeNode) :
    expandNodes resolve place ns = ns.map (expandNode resolve place) := by
  induction ns with
  | nil => rfl
  | cons n ns ih => rw [expandNodes, ih, List.map_cons]

theorem expandProperties_eq (ps : List (Property TypeNode)) :
    expandProperties resolve place ps = ps.map (·.map (expandNode resolve place)) := by
  induction ps with
  | nil => rfl
  | cons p ps ih => rw [expandProperties, ih, List.map_cons, Property.map]

theorem expandParams_eq (ps : List (Param TypeNode)) :
    expandParams resolve place ps = ps.map (·.map (expandNode resolve place)) := by
  induction ps with
  | nil => rfl
  | cons p ps ih => rw [expandParams, ih, List.map_cons, Param.map]

theorem expandOption_eq (n : Option TypeNode) :
    expandOption resolve place n = n.map (expandNode resolve place) := by
  cases n with
  | none => rfl
  | some n => rw [expandOption, Option.map_some]

/-- What becomes of the props of a component: a name that is all of them gives its type. -/
def expandProps (resolve : Text → Option TypeNode) (props : TypeNode) : TypeNode :=
  match props.shape with
  | .verbatim raw => (named? resolve raw).getD props
  | _ => expandNode resolve .insideProps props

theorem expandProps_cases (resolve : Text → Option TypeNode) (props : TypeNode) :
    (∃ raw, props.shape = .verbatim raw ∧
        expandProps resolve props = (named? resolve raw).getD props) ∨
      expandProps resolve props = expandNode resolve .insideProps props := by
  obtain ⟨text, nullable, shape⟩ := props
  cases shape with
  | verbatim raw => exact Or.inl ⟨raw, rfl, rfl⟩
  | _ => exact Or.inr rfl

/-- **One construct, expanded**: a name stays or is replaced, the props of a component are
expanded, and any other construct is expanded in its components. -/
theorem expandNode_cases (resolve : Text → Option TypeNode) (place : Place) (n : TypeNode) :
    (∃ raw, n.shape = .verbatim raw ∧
        (expandNode resolve place n = n ∧ (place = .insideProps → named? resolve raw = none) ∨
          place = .insideProps ∧ ∃ m, named? resolve raw = some m ∧
            expandNode resolve place n = if n.nullable then m.asNullable else m)) ∨
      (∃ props, n.shape = .component props ∧
        expandNode resolve place n = ⟨n.text, n.nullable, .component (expandProps resolve props)⟩) ∨
      ((∀ raw, n.shape ≠ .verbatim raw) ∧ (∀ props, n.shape ≠ .component props) ∧
        expandNode resolve place n =
          ⟨n.text, n.nullable, n.shape.map (expandNode resolve place)⟩) := by
  obtain ⟨text, nullable, shape⟩ := n
  cases shape with
  | verbatim raw =>
    refine Or.inl ⟨raw, rfl, ?_⟩
    cases place with
    | outside => exact Or.inl ⟨by simp [expandNode], fun h => by cases h⟩
    | insideProps =>
      cases hn : named? resolve raw with
      | none => exact Or.inl ⟨by simp [expandNode, hn], fun _ => rfl⟩
      | some m => exact Or.inr ⟨rfl, m, rfl, by simp [expandNode, hn]⟩
  | component props =>
    obtain ⟨ptext, pnullable, pshape⟩ := props
    refine Or.inr (Or.inl ⟨_, rfl, ?_⟩)
    cases pshape <;> simp only [expandNode, expandProps]
  | primitive name => exact Or.inr (Or.inr ⟨by simp, by simp, by rw [expandNode]; rfl⟩)
  | literal raw => exact Or.inr (Or.inr ⟨by simp, by simp, by rw [expandNode]; rfl⟩)
  | array element => exact Or.inr (Or.inr ⟨by simp, by simp, by rw [expandNode]; rfl⟩)
  | object properties additional =>
    refine Or.inr (Or.inr ⟨by simp, by simp, ?_⟩)
    rw [expandNode, expandProperties_eq, expandOption_eq]
    rfl
  | union members =>
    refine Or.inr (Or.inr ⟨by simp, by simp, ?_⟩)
    rw [expandNode, expandNodes_eq]
    rfl
  | function params returns =>
    refine Or.inr (Or.inr ⟨by simp, by simp, ?_⟩)
    rw [expandNode, expandParams_eq]
    rfl

/-! ## Members of an interface -/

theorem mem_takeOver {c : Collected} {n : Option TypeNode} {m : TypeNode}
    (h : (∃ p ∈ (c.takeOver n).properties.values, m = p.type) ∨ (c.takeOver n).additional = some m) :
    ((∃ p ∈ c.properties.values, m = p.type) ∨ c.additional = some m) ∨
      ∃ r ps a, n = some r ∧ r.shape = .object ps a ∧ m ∈ r.shape.parts := by
  unfold Collected.takeOver at h
  split at h
  · rename_i text nullable ps a
    have hparent : m ∈ (Shape.object ps a).parts →
        ∃ r ps' a', some (⟨text, nullable, .object ps a⟩ : TypeNode) = some r ∧
          r.shape = .object ps' a' ∧ m ∈ r.shape.parts :=
      fun hm => ⟨_, ps, a, rfl, rfl, hm⟩
    rcases h with ⟨p, hp, rfl⟩ | h
    · rcases Fields.mem_values_putAll hp with hp | ⟨e, he, rfl⟩
      · exact Or.inl (Or.inl ⟨p, hp, rfl⟩)
      · obtain ⟨q, hq, rfl⟩ := List.mem_map.mp he
        exact Or.inr (hparent (List.mem_append_left _ (List.mem_map_of_mem hq)))
    · cases a with
      | none => exact Or.inl (Or.inr h)
      | some a =>
        cases h
        exact Or.inr (hparent (List.mem_append_right _ (by simp)))
  · exact Or.inl h

theorem mem_inherited {parents : List Text} {c : Collected} {m : TypeNode}
    (h : (∃ p ∈ (parents.foldl (fun c parent => c.takeOver (resolve parent)) c).properties.values,
        m = p.type) ∨
      (parents.foldl (fun c parent => c.takeOver (resolve parent)) c).additional = some m) :
    ((∃ p ∈ c.properties.values, m = p.type) ∨ c.additional = some m) ∨
      ∃ parent ∈ parents, ∃ r ps a, resolve parent = some r ∧ r.shape = .object ps a ∧
        m ∈ r.shape.parts := by
  induction parents generalizing c with
  | nil => exact Or.inl h
  | cons parent parents ih =>
    rcases ih h with h | ⟨q, hq, hr⟩
    · exact (mem_takeOver h).imp_right fun hr => ⟨parent, List.mem_cons_self, hr⟩
    · exact Or.inr ⟨q, List.mem_cons_of_mem _ hq, hr⟩

/-- **The members of an interface** are its own, expanded, and those of the object types that its
parents resolve to. -/
theorem mem_parts_interfaceNode {members : List Member} {parents : List Text} {m : TypeNode}
    (h : m ∈ (interfaceNode resolve members parents).shape.parts) :
    (∃ x ∈ members, m = expandNode resolve .insideProps (.parse x.type)) ∨
      ∃ parent ∈ parents, ∃ r ps a, resolve parent = some r ∧ r.shape = .object ps a ∧
        m ∈ r.shape.parts := by
  have hstart : ¬ ((∃ p ∈ (⟨[], none⟩ : Collected).properties.values, m = p.type) ∨
      (⟨[], none⟩ : Collected).additional = some m) := by
    simp [Fields.values]
  rcases List.mem_append.mp h with h | h
  · obtain ⟨p, hp, rfl⟩ := List.mem_map.mp h
    rcases Fields.mem_values_putAll hp with hp | ⟨e, he, rfl⟩
    · exact Or.inr ((mem_inherited (Or.inl ⟨p, hp, rfl⟩)).resolve_left hstart)
    · obtain ⟨x, hx, rfl⟩ := List.mem_map.mp he
      exact Or.inl ⟨x, hx, rfl⟩
  · exact Or.inr ((mem_inherited (Or.inr (Option.mem_toList.mp h))).resolve_left hstart)

/-! ## The depth suffices -/

/-- Any depth beyond the number of types that are not being expanded gives the same type. -/
theorem resolveDepth_congr {types : List (Text × LocalType)} {d d' : Nat} {expanding : List Text}
    (hd : pending types expanding ≤ d) (hd' : pending types expanding ≤ d') (name : Text) :
    resolveDepth types d expanding name = resolveDepth types d' expanding name := by
  induction d generalizing d' expanding name with
  | zero =>
    rw [resolveDepth, resolveDepth]
    cases hl : types.lookup name with
    | none => rfl
    | some type =>
      by_cases hc : expanding.contains name = true
      · simp only [hc, if_true]
      · have := pending_cons_lt hl (by simpa using hc)
        omega
  | succ d ih =>
    rw [resolveDepth, resolveDepth]
    cases hl : types.lookup name with
    | none => rfl
    | some type =>
      by_cases hc : expanding.contains name = true
      · simp only [hc, if_true]
      · have hlt := pending_cons_lt hl (by simpa using hc)
        cases d' with
        | zero => omega
        | succ d' =>
          have hfun : resolveDepth types d (name :: expanding) =
              resolveDepth types d' (name :: expanding) := by
            funext k
            exact ih (by omega) (by omega) k
          simp only [hc, hfun]

/-- The type of a name, where the names of `expanding` are being expanded already. -/
def resolveIn (types : List (Text × LocalType)) (expanding : List Text) (name : Text) :
    Option TypeNode :=
  resolveDepth types types.length expanding name

theorem resolve_eq (ds : List Declaration) : Expansion.resolve ds = resolveIn (localTypes ds) [] :=
  rfl

/-- **A name is its declaration**, with the names in it resolved in the same way. -/
theorem resolveIn_eq (types : List (Text × LocalType)) (expanding : List Text) (name : Text) :
    resolveIn types expanding name =
      match types.lookup name with
      | none => none
      | some type =>
        if expanding.contains name then some (.verbatim name)
        else some (localNode (resolveIn types (name :: expanding)) type) := by
  have hle : ∀ e, pending types e ≤ types.length := pending_le_length types
  calc resolveIn types expanding name
      = resolveDepth types (types.length + 1) expanding name :=
        resolveDepth_congr (hle expanding) (Nat.le_succ_of_le (hle expanding)) name
    _ = _ := by unfold resolveDepth resolveIn; cases types.lookup name <;> rfl

/-- Resolving a declared name that is not being expanded calls for resolving others, with the name
added to those being expanded. -/
def Opens (types : List (Text × LocalType)) (a b : List Text × Text) : Prop :=
  (types.lookup a.2).isSome = true ∧ a.1.contains a.2 = false ∧ b.1 = a.2 :: a.1

/-- **No chain of resolutions goes on for ever.** -/
theorem wellFounded_opens (types : List (Text × LocalType)) :
    WellFounded fun b a => Opens types a b := by
  refine Subrelation.wf (r := InvImage (· < ·) fun p => pending types p.1) ?_
    (InvImage.wf _ Nat.lt_wfRel.wf)
  rintro ⟨e', m⟩ ⟨e, n⟩ ⟨hl, hc, rfl⟩
  obtain ⟨type, hl⟩ := Option.isSome_iff_exists.mp hl
  exact pending_cons_lt hl hc

/-- Reading texts and resolving the local names of a module come to an end: each follows its own
equation, along calls that form no infinite chain. -/
structure RecursionEnds (types : List (Text × LocalType)) : Prop where
  calls : WellFounded fun u t => TypeNode.Calls t u
  parse : ∀ t, TypeNode.parse t = (TypeNode.layer t).build TypeNode.parse
  opens : WellFounded fun b a => Opens types a b
  resolve : ∀ expanding name, resolveIn types expanding name =
    match types.lookup name with
    | none => none
    | some type =>
      if expanding.contains name then some (.verbatim name)
      else some (localNode (resolveIn types (name :: expanding)) type)

theorem recursionEnds (types : List (Text × LocalType)) : RecursionEnds types :=
  ⟨TypeNode.wellFounded_calls, TypeNode.parse_eq, wellFounded_opens types, resolveIn_eq types⟩

/-! ## Expansion keeps soundness -/

theorem sound_named? {raw : Text} {r : TypeNode} (hr : ∀ k r, resolve k = some r → Sound r)
    (h : named? resolve raw = some r) : Sound r := by
  unfold named? at h
  split at h
  · exact hr _ r h
  · cases h

theorem sound_expandProps {props : TypeNode} (hr : ∀ k r, resolve k = some r → Sound r)
    (h : Sound props) (hin : Sound (expandNode resolve .insideProps props)) :
    Sound (expandProps resolve props) := by
  obtain ⟨raw, -, he⟩ | he := expandProps_cases resolve props
  · rw [he]
    cases hn : named? resolve raw with
    | none => exact h
    | some m => exact sound_named? hr hn
  · rw [he]
    exact hin

theorem sound_expandNode {n : TypeNode} (hr : ∀ k r, resolve k = some r → Sound r) (h : Sound n)
    (place : Place) : Sound (expandNode resolve place n) := by
  induction h generalizing place with
  | @intro n hs hp ih =>
    rcases expandNode_cases resolve place n with
      ⟨raw, -, ⟨he, -⟩ | ⟨-, m, hm, he⟩⟩ | ⟨props, hc, he⟩ | ⟨-, -, he⟩
    · rw [he]
      exact .intro hs hp
    · have hsound := sound_named? hr hm
      rw [he]
      split
      · exact hsound.asNullable
      · exact hsound
    · have hmem : props ∈ n.shape.parts := by simp [hc, Shape.parts]
      rw [he]
      refine .intro trivial fun m hm => ?_
      obtain rfl : m = expandProps resolve props := by simpa [Shape.parts] using hm
      exact sound_expandProps hr (hp props hmem) (ih props hmem .insideProps)
    · rw [he]
      refine .intro (Shape.admissible_map.mpr hs) fun m hm => ?_
      obtain ⟨p, hmem, rfl⟩ := Shape.mem_parts_map.mp hm
      exact ih p hmem place

theorem sound_localNode (hr : ∀ k r, resolve k = some r → Sound r) (type : LocalType) :
    Sound (localNode resolve type) := by
  cases type with
  | interface members parents =>
    refine .intro trivial fun m hm => ?_
    rcases mem_parts_interfaceNode hm with ⟨x, -, rfl⟩ | ⟨parent, -, r, ps, a, hres, -, hm⟩
    · exact sound_expandNode hr (TypeNode.sound_parse x.type) .insideProps
    · exact (hr parent r hres).parts m hm
  | typeAlias value => exact sound_expandNode hr (TypeNode.sound_parse _) .insideProps

theorem sound_resolveIn (types : List (Text × LocalType)) (call : List Text × Text) :
    ∀ r, resolveIn types call.1 call.2 = some r → Sound r := by
  induction call using (wellFounded_opens types).induction with
  | h call ih =>
    obtain ⟨expanding, name⟩ := call
    intro r h
    rw [resolveIn_eq] at h
    cases hl : types.lookup name with
    | none => rw [hl] at h; cases h
    | some type =>
      simp only [hl] at h
      split at h
      · cases h
        exact TypeNode.sound_verbatim name
      · rename_i hc
        cases h
        refine sound_localNode (fun k r hk => ?_) type
        refine ih (name :: expanding, k) ⟨?_, by simpa using hc, rfl⟩ r hk
        simp only [hl, Option.isSome_some]

/-- **What is expanded is sound.** -/
theorem sound_expand (ds : List Declaration) (t : Text) : Sound (expand ds t) :=
  sound_expandNode (fun k r h => sound_resolveIn (localTypes ds) ([], k) r h)
    (TypeNode.sound_parse t) .outside

end ExportSchema.Expansion
