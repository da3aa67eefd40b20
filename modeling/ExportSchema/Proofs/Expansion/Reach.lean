import ExportSchema.Proofs.Expansion.Cycle
import ExportSchema.Proofs.Expansion.Expander

/-!
# What expansion reads

Expanding a text looks up the names in the props of its components, then the names that their
declarations mention, and so on. No other declaration of the module counts, and of several
declarations of one name only the first.

* `TypeNode.MentionsInProps`: a name is a leaf inside the props of a component.
* `Leads`: the declaration of a name mentions another name.
* `Reached`: a text leads to a name.

Results:
* `expandNode_congr`, `localNode_congr`: only the names that are read count.
* `resolveIn_congr`: names whose declarations lead to the same declarations resolve alike.
* `expand_reads_reached`: two modules that agree on what a text reaches expand it alike.
-/

namespace ExportSchema

namespace TypeNode

/-- Some leaf inside the props of a component of the node is the name `m`. -/
def MentionsInProps (n : TypeNode) (m : Text) : Prop :=
  ∃ c props, Within c n ∧ c.shape = .component props ∧ props.Mentions m

theorem MentionsInProps.of_part {n p : TypeNode} {m : Text} (h : p.MentionsInProps m)
    (hp : p ∈ n.shape.parts) : n.MentionsInProps m := by
  obtain ⟨c, props, hc, hs, hm⟩ := h
  exact ⟨c, props, .part hp hc, hs, hm⟩

end TypeNode

namespace Expansion

open Fields (mem_of_lookup names)
open Lexeme (isBareName)
open TypeNode (Within)

/-! ## Names that are read -/

/-- The names that are looked up when a node is expanded: inside props every name, elsewhere those
in the props of components. -/
def Reads : Place → TypeNode → Text → Prop
  | .outside => TypeNode.MentionsInProps
  | .insideProps => TypeNode.Mentions

theorem Reads.of_part {place : Place} {n p : TypeNode} {m : Text} (h : Reads place p m)
    (hp : p ∈ n.shape.parts) : Reads place n m := by
  cases place with
  | outside => exact TypeNode.MentionsInProps.of_part h hp
  | insideProps => exact TypeNode.Mentions.of_within h (.part hp .self)

theorem Reads.of_props {place : Place} {n props : TypeNode} {m : Text}
    (hs : n.shape = .component props) (h : props.Mentions m) : Reads place n m := by
  cases place with
  | outside => exact ⟨n, props, .self, hs, h⟩
  | insideProps => exact h.of_within (.part (by simp [hs, Shape.parts]) .self)

variable {resolve resolve' : Text → Option TypeNode}

theorem named?_congr {n : TypeNode} {raw : Text} (hs : n.shape = .verbatim raw)
    (h : ∀ k, n.Mentions k → resolve k = resolve' k) : named? resolve raw = named? resolve' raw := by
  unfold named?
  by_cases hb : isBareName raw = true
  · rw [if_pos hb, if_pos hb, h _ ((TypeNode.mentions_verbatim hs).mpr ⟨hb, rfl⟩)]
  · rw [if_neg hb, if_neg hb]

theorem expandNode_component {place : Place} {n props : TypeNode}
    (hs : n.shape = .component props) :
    expandNode resolve place n =
      ⟨n.text, n.nullable, .component (expandProps resolve props)⟩ := by
  rcases expandNode_cases resolve place n with ⟨raw, hv, -⟩ | ⟨props', hs', he⟩ | ⟨-, hnot, -⟩
  · cases hs.symm.trans hv
  · cases hs.symm.trans hs'
    exact he
  · exact absurd hs (hnot props)

theorem expandNode_other {place : Place} {n : TypeNode} (hv : ∀ raw, n.shape ≠ .verbatim raw)
    (hc : ∀ props, n.shape ≠ .component props) :
    expandNode resolve place n = ⟨n.text, n.nullable, n.shape.map (expandNode resolve place)⟩ := by
  rcases expandNode_cases resolve place n with ⟨raw, hs, -⟩ | ⟨props, hs, -⟩ | ⟨-, -, he⟩
  · exact absurd hs (hv raw)
  · exact absurd hs (hc props)
  · exact he

/-- **Only the names that are read count** when a node is expanded. -/
theorem expandNode_congr (place : Place) {n : TypeNode}
    (h : ∀ k, Reads place n k → resolve k = resolve' k) :
    expandNode resolve place n = expandNode resolve' place n := by
  induction n using TypeNode.induction_parts generalizing place with
  | step n ih =>
    rcases expandNode_cases resolve place n with ⟨raw, hs, -⟩ | ⟨props, hs, -⟩ | ⟨hv, hc, -⟩
    · obtain ⟨text, nullable, shape⟩ := n
      cases hs
      unfold expandNode
      cases place with
      | outside => rfl
      | insideProps =>
        have hn := named?_congr (n := ⟨text, nullable, .verbatim raw⟩) rfl h
        rw [hn]
    · rw [expandNode_component hs, expandNode_component hs]
      have hprops : ∀ k, props.Mentions k → resolve k = resolve' k := fun k hk =>
        h k (.of_props hs hk)
      have hin : expandNode resolve .insideProps props = expandNode resolve' .insideProps props :=
        ih props (by simp [hs, Shape.parts]) .insideProps hprops
      have he : expandProps resolve props = expandProps resolve' props := by
        unfold expandProps
        split
        · rename_i raw hraw
          rw [named?_congr hraw hprops]
        · exact hin
      rw [he]
    · rw [expandNode_other hv hc, expandNode_other hv hc]
      rw [Shape.map_congr fun p hp => ih p hp place fun k hk => h k (hk.of_part hp)]

theorem localNode_congr {type : LocalType} (h : ∀ k, type.Mentions k → resolve k = resolve' k) :
    localNode resolve type = localNode resolve' type := by
  cases type with
  | typeAlias value => exact expandNode_congr .insideProps h
  | interface members parents =>
    have hparents : ∀ c : Collected,
        parents.foldl (fun c parent => c.takeOver (resolve parent)) c =
          parents.foldl (fun c parent => c.takeOver (resolve' parent)) c := by
      intro c
      refine List.foldl_ext _ _ c fun c parent hp => ?_
      rw [h parent (Or.inr hp)]
    have hmembers : (members.map fun m => (m.name, (⟨m.name,
          expandNode resolve .insideProps (.parse m.type), m.optional⟩ : Property TypeNode))) =
        members.map fun m => (m.name, (⟨m.name,
          expandNode resolve' .insideProps (.parse m.type), m.optional⟩ : Property TypeNode)) := by
      refine List.map_congr_left fun m hm => ?_
      rw [expandNode_congr .insideProps fun k hk => h k (Or.inl ⟨m, hm, hk⟩)]
    unfold localNode interfaceNode
    simp only [hparents, hmembers]

/-! ## Names that are reached -/

variable {types types' : List (Text × LocalType)}

/-- The declaration that counts for `n` mentions `m`. -/
def Leads (types : List (Text × LocalType)) (n m : Text) : Prop :=
  ∃ type, types.lookup n = some type ∧ type.Mentions m

/-- The text leads to the name `m`: it is in the props of a component, or the declaration of a name
that the text leads to mentions it. -/
def Reached (types : List (Text × LocalType)) (t : Text) (m : Text) : Prop :=
  ∃ k, (TypeNode.parse t).MentionsInProps k ∧ Relation.ReflTransGen (Leads types) k m

/-- What holds the names in the text and is closed under declarations holds every name that the text
leads to. -/
theorem Reached.mem_of_closed {S : List Text} {t m : Text} (h : Reached types t m)
    (hstart : ∀ k, (TypeNode.parse t).MentionsInProps k → k ∈ S)
    (hclosed : ∀ n ∈ S, ∀ m, Leads types n m → m ∈ S) : m ∈ S := by
  obtain ⟨k, hk, hpath⟩ := h
  induction hpath with
  | refl => exact hstart k hk
  | tail _ hstep ih => exact hclosed _ ih _ hstep

/-- **Names that lead to the same declarations resolve alike**, with the same names being
expanded. -/
theorem resolveIn_congr (call : List Text × Text) :
    (∀ m, Relation.ReflTransGen (Leads types) call.2 m → types.lookup m = types'.lookup m) →
      resolveIn types call.1 call.2 = resolveIn types' call.1 call.2 := by
  induction call using (wellFounded_opens types).induction with
  | h call ih =>
    obtain ⟨expanding, n⟩ := call
    intro hsame
    simp only at hsame ⊢
    rw [resolveIn_eq, resolveIn_eq, ← hsame n .refl]
    cases hl : types.lookup n with
    | none => rfl
    | some type =>
      simp only
      by_cases hin : expanding.contains n = true
      · rw [if_pos hin, if_pos hin]
      · rw [if_neg hin, if_neg hin]
        refine congrArg some (localNode_congr fun k hk => ?_)
        have hopens : Opens types (expanding, n) (n :: expanding, k) :=
          ⟨by simp only [hl, Option.isSome_some], by simpa using hin, rfl⟩
        exact ih _ hopens fun m hm => hsame m (.head ⟨type, hl, hk⟩ hm)

theorem expand_congr {ds es : List Declaration} {t : Text}
    (h : ∀ m, Reached (localTypes ds) t m → (localTypes ds).lookup m = (localTypes es).lookup m) :
    expand ds t = expand es t := by
  refine expandNode_congr .outside fun k hk => ?_
  rw [resolve_eq, resolve_eq]
  exact resolveIn_congr ([], k) fun m hm => h m ⟨k, hk, hm⟩

/-! ## Declarations that do not count -/

theorem localTypes_append (ds es : List Declaration) :
    localTypes (ds ++ es) = localTypes ds ++ localTypes es :=
  List.filterMap_append

/-- A declaration of another kind, of a name that is declared before, or of a name that is not
asked for may be left out. -/
theorem lookup_insert {ds es : List Declaration} {d : Declaration} {m : Text}
    (h : ∀ name type, d.localType? = some (name, type) → Declared (localTypes ds) name ∨ m ≠ name) :
    (localTypes (ds ++ es)).lookup m = (localTypes (ds ++ d :: es)).lookup m := by
  have hcons : localTypes (d :: es) = d.localType?.toList ++ localTypes es := by
    unfold localTypes
    rw [List.filterMap_cons]
    cases d.localType? <;> rfl
  rw [localTypes_append, localTypes_append, hcons, List.lookup_append, List.lookup_append,
    List.lookup_append]
  cases hd : d.localType? with
  | none => rfl
  | some x =>
    obtain ⟨name, type⟩ := x
    rcases h name type hd with hdecl | hne
    · by_cases hm : m = name
      · obtain ⟨first, hl⟩ := Option.isSome_iff_exists.mp hdecl
        rw [hm, hl]
        rfl
      · simp [List.lookup_cons, beq_false_of_ne hm]
    · simp [List.lookup_cons, beq_false_of_ne hne]

/-- Among distinct names, what is found under a name is what stands beside it. -/
theorem lookup_eq_some_iff_mem {l : List (Text × LocalType)} (hl : (names l).Nodup) {m : Text}
    {type : LocalType} : l.lookup m = some type ↔ (m, type) ∈ l := by
  refine ⟨mem_of_lookup, fun hmem => ?_⟩
  induction l with
  | nil => cases hmem
  | cons x l ih =>
    obtain ⟨name, first⟩ := x
    obtain ⟨hnot, hrest⟩ := List.nodup_cons.mp hl
    rw [List.lookup_cons]
    rcases List.mem_cons.mp hmem with he | hlater
    · cases he
      simp
    · have hne : m ≠ name := by
        rintro rfl
        exact hnot (List.mem_map.mpr ⟨(m, type), hlater, rfl⟩)
      rw [beq_false_of_ne hne]
      exact ih hrest hlater

theorem lookup_perm {l l' : List (Text × LocalType)} (hp : l.Perm l') (hl : (names l).Nodup)
    (m : Text) : l.lookup m = l'.lookup m := by
  have hl' : (names l').Nodup := (hp.map Prod.fst).nodup_iff.mp hl
  refine Option.ext fun type => ?_
  rw [lookup_eq_some_iff_mem hl, lookup_eq_some_iff_mem hl', hp.mem_iff]

/-- **Expansion reads only what the text reaches.** Two modules that agree on the first declarations
of the names that a text leads to expand it to the same type. So a declaration of another kind, a
later one of a name, and one of a name that the text does not lead to may be left out, and the order
of declarations of different names does not count. -/
theorem expand_reads_reached (t : Text) :
    (∀ ds es : List Declaration,
      (∀ m, Reached (localTypes ds) t m →
        (localTypes ds).lookup m = (localTypes es).lookup m) →
      ((Expander.fresh ds).expand t).1 = ((Expander.fresh es).expand t).1) ∧
    (∀ (ds es : List Declaration) (d : Declaration),
      (∀ name type, d.localType? = some (name, type) →
        Declared (localTypes ds) name ∨ ¬ Reached (localTypes (ds ++ es)) t name) →
      ((Expander.fresh (ds ++ d :: es)).expand t).1 =
        ((Expander.fresh (ds ++ es)).expand t).1) ∧
    ∀ ds es : List Declaration, ds.Perm es → (names (localTypes ds)).Nodup →
      ((Expander.fresh ds).expand t).1 = ((Expander.fresh es).expand t).1 := by
  simp only [Expander.expand_fresh]
  refine ⟨fun ds es h => expand_congr h, fun ds es d h => ?_, fun ds es hp hn => ?_⟩
  · refine (expand_congr fun m hm => lookup_insert fun name type hd => ?_).symm
    refine (h name type hd).imp_right fun hnot => ?_
    rintro rfl
    exact hnot hm
  · exact expand_congr fun m _ => lookup_perm (hp.filterMap _) hn m

/-- The props `P` lead to the alias `Q`. The second module has both in another order, among a class,
a later `P` and an interface that neither leads to. -/
theorem expand_reads_reached_of_two :
    let p : Declaration :=
      .define (.interface [⟨"q".toList, "Q | null".toList, false⟩] []) ["P".toList] false false
    let q : Declaration := .define (.typeAlias (some "string[]".toList)) ["Q".toList] false false
    let ds := [p, q]
    let es : List Declaration := [.define .classType ["P".toList] false false,
      .define (.interface [⟨"q".toList, "Q".toList, true⟩] ["P".toList]) ["R".toList] true false, q, p,
      .define (.typeAlias (some "number".toList)) ["P".toList] false false]
    (∀ m, Reached (localTypes ds) "FC<P>".toList m →
      (localTypes ds).lookup m = (localTypes es).lookup m) ∧
    ((Expander.fresh ds).expand "FC<P>".toList).1 =
      ((Expander.fresh es).expand "FC<P>".toList).1 := by
  intro p q ds es
  have hsame : ∀ m, Reached (localTypes ds) "FC<P>".toList m →
      (localTypes ds).lookup m = (localTypes es).lookup m := by
    intro m hm
    have hmem : m ∈ ["P".toList, "Q".toList] := by
      refine hm.mem_of_closed ?_ ?_
      · have hread : TypeNode.parse "FC<P>".toList =
            .plain "FC<P>".toList (.component (.verbatim "P".toList)) := rfl
        rintro k ⟨c, props, hc, hs, hk⟩
        rw [hread] at hc
        cases hc with
        | self =>
          cases hs
          obtain ⟨-, rfl⟩ := (TypeNode.mentions_verbatim rfl).mp hk
          exact List.mem_cons_self
        | part hpart hc =>
          obtain rfl := List.mem_singleton.mp hpart
          cases hc with
          | self => cases hs
          | part hpart _ => cases hpart
      · rintro n hn k ⟨type, hl, hk⟩
        rcases List.mem_cons.mp hn with rfl | hn
        · cases hl
          obtain ⟨x, hx, hk⟩ := hk.resolve_right List.not_mem_nil
          obtain rfl := List.mem_singleton.mp hx
          have hread : (TypeNode.parse "Q | null".toList).shape = .verbatim "Q".toList := rfl
          obtain ⟨-, rfl⟩ := (TypeNode.mentions_verbatim hread).mp hk
          exact List.mem_cons_of_mem _ List.mem_cons_self
        · obtain rfl := List.mem_singleton.mp hn
          cases hl
          have hread : TypeNode.parse (aliasText (some "string[]".toList)) =
            .plain "string[]".toList
              (.array (.plain "string".toList (.primitive "string".toList))) := rfl
          obtain ⟨leaf, raw, hw, hs, -⟩ := hk
          rw [hread] at hw
          cases hw with
          | self => cases hs
          | part hpart hw =>
            obtain rfl := List.mem_singleton.mp hpart
            cases hw with
            | self => cases hs
            | part hpart _ => cases hpart
    rcases List.mem_cons.mp hmem with rfl | hmem
    · rfl
    · obtain rfl := List.mem_singleton.mp hmem
      rfl
  exact ⟨hsame, (expand_reads_reached "FC<P>".toList).1 ds es hsame⟩

end Expansion

end ExportSchema
