import ExportSchema.Proofs.Expansion.Inheritance

/-!
# Interfaces in place of their names

Inside the props of a component the name of an interface gives way to an object type. What the
object type has depends on where the name is met: an interface that is met inside one of its own
ancestors lacks what it inherits from there.

* `Origin`: an object type of an expanded node was written there, or comes with a name.
* `Met`: a name is met while a text is expanded, with other names being expanded.
* `Inlined`: an object type takes the place of the name of an interface.

Results:
* `origin_expandNode`, `origin_localNode`, `origin_component`: the origin of object types, one
  construct, one declaration and one text at a time.
* `accounted_expand`: every object type in the props of a component was written out or inlined.
* `inlined_names`: the members of an interface where it is inlined.
-/

namespace ExportSchema.Expansion

open Lexeme (isBareName)
open Text (trim)
open TypeNode (Within)

variable {resolve : Text → Option TypeNode} {types : List (Text × LocalType)}

/-! ## Where object types come from -/

/-- Both nodes are object types, with members of the same names in the same order. -/
def SameMembers (o w : TypeNode) : Prop :=
  ∃ ps a ps' a', o.shape = .object ps a ∧ w.shape = .object ps' a' ∧
    ps.map (·.name) = ps'.map (·.name)

/-- The object type `o` is an expanded one of those in `Written`, or it stands in the type that a
name of `Named` resolves to. -/
def Origin (resolve : Text → Option TypeNode) (Written : TypeNode → Prop) (Named : Text → Prop)
    (o : TypeNode) : Prop :=
  (∃ w, Written w ∧ SameMembers o w) ∨
    ∃ k r o', Named k ∧ resolve k = some r ∧ Within o' r ∧ o'.shape = o.shape

theorem Origin.mono {W W' : TypeNode → Prop} {K K' : Text → Prop} {o : TypeNode}
    (h : Origin resolve W K o) (hW : ∀ w, W w → W' w) (hK : ∀ k, K k → K' k) :
    Origin resolve W' K' o := by
  rcases h with ⟨w, hw, hsame⟩ | ⟨k, r, o', hk, hr, ho, hs⟩
  · exact Or.inl ⟨w, hW w hw, hsame⟩
  · exact Or.inr ⟨k, r, o', hK k hk, hr, ho, hs⟩

variable {o : TypeNode} {ps : List (Property TypeNode)} {a : Option TypeNode}

/-- An object type in what a name was replaced by stands in the type of the name. -/
theorem Origin.of_named? {W : TypeNode → Prop} {n r r' : TypeNode} {raw : Text}
    (hs : n.shape = .verbatim raw) (hn : named? resolve raw = some r) (hr' : r'.shape = r.shape)
    (ho : Within o r') : Origin resolve W n.Mentions o := by
  unfold named? at hn
  by_cases hb : isBareName raw = true
  · rw [if_pos hb] at hn
    have hk : n.Mentions (trim raw) := (TypeNode.mentions_verbatim hs).mpr ⟨hb, rfl⟩
    cases ho with
    | self => exact Or.inr ⟨_, r, r, hk, hn, .self, hr'.symm⟩
    | part hp ho => exact Or.inr ⟨_, r, o, hk, hn, .part (hr' ▸ hp) ho, rfl⟩
  · rw [if_neg hb] at hn
    cases hn

/-- A name has no object type in it. -/
theorem not_within_verbatim {n : TypeNode} {raw : Text} (hs : n.shape = .verbatim raw)
    (ho : Within o n) (hobj : o.shape = .object ps a) : False := by
  cases ho with
  | self => cases hs.symm.trans hobj
  | part hp _ =>
    rw [hs] at hp
    cases hp

theorem origin_expandProps {props : TypeNode} (ho : Within o (expandProps resolve props))
    (hobj : o.shape = .object ps a)
    (hin : Within o (expandNode resolve .insideProps props) →
      Origin resolve (Within · props) props.Mentions o) :
    Origin resolve (Within · props) props.Mentions o := by
  obtain ⟨raw, hs, he⟩ | he := expandProps_cases resolve props
  · rw [he] at ho
    cases hn : named? resolve raw with
    | none =>
      rw [hn] at ho
      exact (not_within_verbatim hs ho hobj).elim
    | some r =>
      rw [hn] at ho
      exact Origin.of_named? hs hn rfl ho
  · rw [he] at ho
    exact hin ho

/-- **An object type in an expanded node** was written there, or stands in the type of a name that
was. -/
theorem origin_expandNode {n : TypeNode} (ho : Within o (expandNode resolve .insideProps n))
    (hobj : o.shape = .object ps a) : Origin resolve (Within · n) n.Mentions o := by
  induction n using TypeNode.induction_parts with
  | step n ih =>
    have lift : ∀ p ∈ n.shape.parts, Origin resolve (Within · p) p.Mentions o →
        Origin resolve (Within · n) n.Mentions o := fun p hp h =>
      h.mono (fun w hw => .part hp hw) fun k hk => hk.of_within (.part hp .self)
    rcases expandNode_cases resolve .insideProps n with
      ⟨raw, hs, ⟨he, -⟩ | ⟨-, r, hr, he⟩⟩ | ⟨props, hs, he⟩ | ⟨-, -, he⟩
    · rw [he] at ho
      exact (not_within_verbatim hs ho hobj).elim
    · rw [he] at ho
      refine Origin.of_named? hs hr ?_ ho
      split <;> rfl
    · have hprops : props ∈ n.shape.parts := by simp [hs, Shape.parts]
      rw [he] at ho
      cases ho with
      | self => cases hobj
      | part hp ho =>
        obtain rfl := List.mem_singleton.mp hp
        exact lift props hprops (origin_expandProps ho hobj (ih props hprops))
    · rw [he] at ho
      cases ho with
      | self =>
        simp only at hobj
        cases hshape : n.shape <;> rw [hshape] at hobj <;> cases hobj
        exact Or.inl ⟨n, .self, _, _, _, _, rfl, hshape, by simp [Property.map]⟩
      | part hp ho =>
        obtain ⟨q, hq, rfl⟩ := Shape.mem_parts_map.mp hp
        exact lift q hq (ih q hq ho)

/-- The texts of types in a declaration. -/
def typeTexts : LocalType → List Text
  | .interface members _ => members.map (·.type)
  | .typeAlias value => [aliasText value]

/-- **An object type in the type of a declaration** is the type of an interface, was written in the
declaration, or stands in the type of a name that the declaration mentions. -/
theorem origin_localNode {type : LocalType} (ho : Within o (localNode resolve type))
    (hobj : o.shape = .object ps a) :
    ((∃ members parents, type = .interface members parents) ∧ o = localNode resolve type) ∨
      Origin resolve (fun w => ∃ u ∈ typeTexts type, Within w (.parse u)) type.Mentions o := by
  cases type with
  | typeAlias value =>
    exact Or.inr ((origin_expandNode ho hobj).mono
      (fun w hw => ⟨_, List.mem_singleton_self _, hw⟩) fun k hk => hk)
  | interface members parents =>
    cases ho with
    | self => exact Or.inl ⟨⟨members, parents, rfl⟩, rfl⟩
    | part hp ho =>
      refine Or.inr ?_
      rcases mem_parts_interfaceNode hp with ⟨x, hx, rfl⟩ | ⟨parent, hmem, r, _, _, hr, -, hp⟩
      · exact (origin_expandNode ho hobj).mono
          (fun w hw => ⟨x.type, List.mem_map_of_mem hx, hw⟩) fun k hk => Or.inl ⟨x, hx, hk⟩
      · exact Or.inr ⟨parent, r, o, Or.inr hmem, hr, .part hp ho, rfl⟩

/-- **An object type in the props of a component** was written in the props of one, or stands in the
type of a name that was. -/
theorem origin_component {n c props : TypeNode} (hc : Within c (expandNode resolve .outside n))
    (hs : c.shape = .component props) (ho : Within o props) (hobj : o.shape = .object ps a) :
    Origin resolve (Within · n) n.MentionsInProps o := by
  induction n using TypeNode.induction_parts with
  | step n ih =>
    rcases expandNode_cases resolve .outside n with
      ⟨raw, hv, ⟨he, -⟩ | ⟨hplace, -⟩⟩ | ⟨props', hn, he⟩ | ⟨-, hnot, he⟩
    · rw [he] at hc
      cases hc with
      | self => cases hs.symm.trans hv
      | part hp _ =>
        rw [hv] at hp
        cases hp
    · cases hplace
    · have hall : Within o (expandProps resolve props') := by
        rw [he] at hc
        cases hc with
        | self =>
          cases hs
          exact ho
        | part hp hc =>
          obtain rfl := List.mem_singleton.mp hp
          exact .trans (.trans ho (.part (by simp [hs, Shape.parts]) .self)) hc
      refine (origin_expandProps hall hobj fun h => origin_expandNode h hobj).mono
        (fun w hw => .part (by simp [hn, Shape.parts]) hw) fun k hk => ?_
      exact ⟨n, props', .self, hn, hk⟩
    · rw [he] at hc
      cases hc with
      | self =>
        simp only at hs
        cases hshape : n.shape <;> rw [hshape] at hs <;> cases hs
        exact absurd hshape (hnot _)
      | part hp hc =>
        obtain ⟨p, hmem, rfl⟩ := Shape.mem_parts_map.mp hp
        exact (ih p hmem hc).mono (fun w hw => .part hmem hw) fun k hk => hk.of_part hmem

/-! ## Interfaces in place of their names -/

/-- The name `n` is met while the text is expanded, with the names of `expanding` being expanded: it
is in the props of a component, or the declaration of a name that is met mentions it. -/
inductive Met (types : List (Text × LocalType)) (t : Text) : List Text → Text → Prop where
  | text {n : Text} : (TypeNode.parse t).MentionsInProps n → Met types t [] n
  | declaration {expanding : List Text} {n m : Text} :
    Met types t expanding n → n ∉ expanding → Leads types n m → Met types t (n :: expanding) m

/-- The node was written in the text or in the declaration of a name that is met. -/
def Spelled (types : List (Text × LocalType)) (t : Text) (w : TypeNode) : Prop :=
  Within w (.parse t) ∨ ∃ expanding n type u, Met types t expanding n ∧
    types.lookup n = some type ∧ u ∈ typeTexts type ∧ Within w (.parse u)

/-- The interface `n` is met while the text is expanded, and `r` takes its place. -/
structure Inlined (types : List (Text × LocalType)) (t : Text) (expanding : List Text) (n : Text)
    (r : TypeNode) : Prop where
  met : Met types t expanding n
  free : n ∉ expanding
  isInterface : ∃ members parents, types.lookup n = some (.interface members parents)
  node : ((⟨types, expanding⟩ : Expander).resolve n).1 = some r

theorem resolve_fst (types : List (Text × LocalType)) (expanding : List Text) (n : Text) :
    ((⟨types, expanding⟩ : Expander).resolve n).1 = resolveIn types expanding n :=
  congrArg Prod.fst
    (Expander.run_of_keeps (Expander.keeps_resolveDepth types types.length expanding n))

/-- The object type `o` was written out, or takes the place of the name of an interface. -/
def Accounted (types : List (Text × LocalType)) (t : Text) (o : TypeNode) : Prop :=
  (∃ w, Spelled types t w ∧ SameMembers o w) ∨
    ∃ expanding n r, Inlined types t expanding n r ∧ r.shape = o.shape

theorem Accounted.of_shape {t : Text} {o' : TypeNode} (h : Accounted types t o')
    (hs : o'.shape = o.shape) : Accounted types t o := by
  rcases h with ⟨w, hw, ps, a, ps', a', hps, hw', he⟩ | ⟨expanding, n, r, hinl, hr⟩
  · exact Or.inl ⟨w, hw, ps, a, ps', a', hs.symm.trans hps, hw', he⟩
  · exact Or.inr ⟨expanding, n, r, hinl, hr.trans hs⟩

/-- **An object type in a resolved name** was written in a declaration, or an interface has it. -/
theorem accounted_resolveIn {t : Text} (call : List Text × Text) :
    Met types t call.1 call.2 → ∀ r o ps a, resolveIn types call.1 call.2 = some r →
      Within o r → o.shape = .object ps a → Accounted types t o := by
  induction call using (wellFounded_opens types).induction with
  | h call ih =>
    obtain ⟨expanding, n⟩ := call
    intro hmet r o ps a hres ho hobj
    simp only at hmet hres
    obtain ⟨type, hl⟩ := Option.isSome_iff_exists.mp (declared_of_resolveIn hres)
    have hnode := hres
    rw [resolveIn_eq, hl] at hres
    by_cases hin : expanding.contains n = true
    · simp only [hin, if_true] at hres
      cases hres
      exact (not_within_verbatim rfl ho hobj).elim
    simp only [hin] at hres
    cases hres
    have hfree : n ∉ expanding := fun h => hin (List.contains_iff_mem.mpr h)
    rcases origin_localNode ho hobj with
      ⟨⟨members, parents, rfl⟩, rfl⟩ | ⟨w, ⟨u, hu, hw⟩, hsame⟩ | ⟨k, r, o', hk, hr, ho', hs⟩
    · refine Or.inr ⟨expanding, n, _, ⟨hmet, hfree, ⟨members, parents, hl⟩, ?_⟩, rfl⟩
      rw [resolve_fst]
      exact hnode
    · exact Or.inl ⟨w, Or.inr ⟨expanding, n, type, u, hmet, hl, hu, hw⟩, hsame⟩
    · have hopens : Opens types (expanding, n) (n :: expanding, k) :=
        ⟨by simp only [hl, Option.isSome_some], by simpa using hin, rfl⟩
      have hmet' : Met types t (n :: expanding) k := .declaration hmet hfree ⟨type, hl, hk⟩
      exact (ih _ hopens hmet' r o' ps a hr ho' (hs.trans hobj)).of_shape hs

/-- **Every object type in the props of a component** was written out, or takes the place of the
name of an interface. -/
theorem accounted_expand {ds : List Declaration} {t : Text} {c props : TypeNode}
    (hc : Within c (expand ds t)) (hs : c.shape = .component props) (ho : Within o props)
    (hobj : o.shape = .object ps a) : Accounted (localTypes ds) t o := by
  rcases origin_component hc hs ho hobj with ⟨w, hw, hsame⟩ | ⟨k, r, o', hk, hr, ho', hs'⟩
  · exact Or.inl ⟨w, Or.inl hw, hsame⟩
  · rw [resolve_eq] at hr
    exact (accounted_resolveIn ([], k) (.text hk) r o' ps a hr ho' (hs'.trans hobj)).of_shape hs'

theorem Inlined.shape {t : Text} {expanding : List Text} {n : Text} {r : TypeNode}
    (h : Inlined types t expanding n r) : ∃ ps a, r.shape = .object ps a := by
  obtain ⟨members, parents, hl⟩ := h.isInterface
  have hnode := h.node
  have hin : expanding.contains n = false := by simpa using h.free
  rw [resolve_fst, resolveIn_eq, hl] at hnode
  simp only [hin] at hnode
  cases hnode
  exact ⟨_, _, rfl⟩

/-- **What an interface has where it is inlined.** Every object type in the props of a component was
written out or takes the place of the name of an interface. Such an interface has the members of
those of its ancestors that are reached past the names being expanded, and when none of its
ancestors is being expanded, the members that it has on its own, in the same order. -/
theorem inlined_names (ds : List Declaration) (t : Text) :
    (∀ c props o ps a, Within c ((Expander.fresh ds).expand t).1 → c.shape = .component props →
      Within o props → o.shape = .object ps a → Accounted (localTypes ds) t o) ∧
    ∀ expanding n r, Inlined (localTypes ds) t expanding n r →
      (∃ ps a, r.shape = .object ps a) ∧
      (∀ x, x ∈ memberNames (some r) ↔
        ∃ p, Relation.ReflTransGen (InheritsPast (localTypes ds) expanding) n p ∧
          Declares (localTypes ds) p x) ∧
      ((∀ p ∈ expanding, ¬ Relation.ReflTransGen (Inherits (localTypes ds)) n p) →
        memberNames (some r) = memberNames ((Expander.fresh ds).resolve n).1) := by
  refine ⟨fun c props o ps a hc => ?_, fun expanding n r h =>
    ⟨h.shape, fun x => ?_, fun hfree => ?_⟩⟩
  · rw [Expander.expand_fresh] at hc
    exact accounted_expand hc
  · rw [← h.node, resolve_fst, mem_memberNames_iff (expanding, n)]
    exact and_iff_right h.free
  · unfold Expander.fresh
    have hmarks : marks (resolveIn (localTypes ds) expanding n) =
        marks (resolveIn (localTypes ds) [] n) :=
      marks_congr (expanding, n) [] fun p hp =>
        iff_of_false (fun hmem => hfree p hmem hp) List.not_mem_nil
    rw [← h.node, resolve_fst, resolve_fst, ← names_marks, ← names_marks, hmarks]

/-- `N` extends `B`, and `P` has a list of `N`: inside `P` the interface `N` has both members. -/
theorem inlined_names_of_base :
    let ds : List Declaration :=
      [.define (.interface [⟨"id".toList, "string".toList, false⟩] []) ["B".toList] false false,
        .define (.interface [⟨"b".toList, "number".toList, true⟩] ["B".toList]) ["N".toList] false
          false,
        .define (.interface [⟨"child".toList, "N[]".toList, false⟩] []) ["P".toList] false false]
    ∃ r, Inlined (localTypes ds) "FC<P>".toList ["P".toList] "N".toList r ∧
      memberNames (some r) = memberNames ((Expander.fresh ds).resolve "N".toList).1 ∧
      memberNames (some r) = ["id".toList, "b".toList] := by
  intro ds
  have hmet : Met (localTypes ds) "FC<P>".toList ["P".toList] "N".toList := by
    refine .declaration (.text ?_) List.not_mem_nil ⟨_, rfl, Or.inl ⟨_, List.mem_cons_self, ?_⟩⟩
    · exact ⟨_, .verbatim "P".toList, .self, rfl, (TypeNode.mentions_verbatim rfl).mpr ⟨rfl, rfl⟩⟩
    · exact ⟨.verbatim "N".toList, "N".toList, .part (.head _) .self, rfl, rfl, rfl⟩
  have hinl : Inlined (localTypes ds) "FC<P>".toList ["P".toList] "N".toList
      (interfaceNode (resolveIn (localTypes ds) ["N".toList, "P".toList])
        [⟨"b".toList, "number".toList, true⟩] ["B".toList]) :=
    ⟨hmet, by decide, ⟨_, _, rfl⟩, rfl⟩
  have hup : ∀ p, Relation.ReflTransGen (Inherits (localTypes ds)) "N".toList p →
      p = "N".toList ∨ p = "B".toList := by
    intro p hp
    induction hp with
    | refl => exact Or.inl rfl
    | tail _ hstep ih =>
      obtain ⟨type, hl, hinh⟩ := hstep
      rcases ih with rfl | rfl
      · cases hl
        exact Or.inr (List.mem_singleton.mp hinh)
      · cases hl
        cases hinh
  refine ⟨_, hinl, ((inlined_names ds "FC<P>".toList).2 _ _ _ hinl).2.2 fun p hp hpath => ?_, rfl⟩
  obtain rfl := List.mem_singleton.mp hp
  exact absurd (hup _ hpath) (by decide)

/-- `N` extends `P`, which has a member of type `N`: inside `P` the interface `N` lacks the members
of its parent, although no interface inherits from itself. -/
theorem inlined_below_parent :
    let ds : List Declaration :=
      [.define (.interface [⟨"child".toList, "N".toList, false⟩, ⟨"a".toList, "string".toList, false⟩]
          []) ["P".toList] false false,
        .define (.interface [⟨"b".toList, "string".toList, false⟩] ["P".toList]) ["N".toList] false
          false]
    (∀ n, ¬ Relation.TransGen (Inherits (localTypes ds)) n n) ∧
    ∃ r, Inlined (localTypes ds) "FC<P>".toList ["P".toList] "N".toList r ∧
      Within r ((Expander.fresh ds).expand "FC<P>".toList).1 ∧
      memberNames (some r) = ["b".toList] ∧
      memberNames ((Expander.fresh ds).resolve "N".toList).1 =
        ["child".toList, "a".toList, "b".toList] := by
  intro ds
  have hedge : ∀ {n p}, Inherits (localTypes ds) n p → n = "N".toList ∧ p = "P".toList := by
    rintro n p ⟨type, hl, hinh⟩
    rcases List.mem_cons.mp (Fields.mem_of_lookup hl) with he | hmem
    · cases he
      cases hinh
    · cases List.mem_singleton.mp hmem
      exact ⟨rfl, List.mem_singleton.mp hinh⟩
  refine ⟨fun n hn => ?_, ?_⟩
  · obtain ⟨k, hk, -⟩ := Relation.TransGen.head'_iff.mp hn
    obtain ⟨k', -, hk'⟩ := Relation.TransGen.tail'_iff.mp hn
    exact absurd ((hedge hk).1.symm.trans (hedge hk').2) (by decide)
  · let r : TypeNode := .plain "\x7b b: string \x7d".toList (.object
      [⟨"b".toList, .plain "string".toList (.primitive "string".toList), false⟩] none)
    have hmet : Met (localTypes ds) "FC<P>".toList ["P".toList] "N".toList := by
      refine .declaration (.text ?_) List.not_mem_nil ⟨_, rfl, Or.inl ⟨_, List.mem_cons_self, ?_⟩⟩
      · exact ⟨_, .verbatim "P".toList, .self, rfl, (TypeNode.mentions_verbatim rfl).mpr ⟨rfl, rfl⟩⟩
      · exact ⟨.verbatim "N".toList, "N".toList, .self, rfl, rfl, rfl⟩
    exact ⟨r, ⟨hmet, by decide, ⟨_, _, rfl⟩, rfl⟩, .part (.head _) (.part (.head _) .self), rfl, rfl⟩

end ExportSchema.Expansion
