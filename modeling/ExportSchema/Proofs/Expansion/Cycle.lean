import ExportSchema.Proofs.Expansion.Resolution
import Mathlib.Logic.Relation

/-!
# Names that stay are on a cycle

Inside the props of a component every local name is replaced by its type, and a name that is met
again while it is being expanded stays. So a local name that is left over can reach itself through
the declarations.

* `TypeNode.Mentions`, `LocalType.Mentions`: a name is a leaf of a type, or a parent.
* `Refers`: the declaration of one local name mentions another.

Results:
* `mentions_expandNode`: a name in an expanded node was not resolved, or comes from a type that was.
* `cycle_of_mentions`: a local name in a resolved type is being expanded or is on a cycle.
* `expand_complete`: a local name that is left in the props of a component is on a cycle.
-/

namespace ExportSchema

open Lexeme (isBareName)
open Text (trim)

/-! ## Mentions -/

namespace TypeNode

/-- Some leaf of the node is the name `m`. -/
def Mentions (n : TypeNode) (m : Text) : Prop :=
  ∃ leaf raw, Within leaf n ∧ leaf.shape = .verbatim raw ∧ isBareName raw = true ∧ trim raw = m

theorem Mentions.of_within {p n : TypeNode} {m : Text} (h : p.Mentions m) (hp : Within p n) :
    n.Mentions m := by
  induction hp with
  | self => exact h
  | part hmem _ ih =>
    obtain ⟨leaf, raw, hw, hl⟩ := ih
    exact ⟨leaf, raw, .part hmem hw, hl⟩

/-- A name is all of the node, or stands in one of its components. -/
theorem mentions_iff {n : TypeNode} {m : Text} :
    n.Mentions m ↔ (∃ raw, n.shape = .verbatim raw ∧ isBareName raw = true ∧ trim raw = m) ∨
      ∃ p ∈ n.shape.parts, p.Mentions m := by
  constructor
  · rintro ⟨leaf, raw, hw, hs, hb, ht⟩
    cases hw with
    | self => exact Or.inl ⟨raw, hs, hb, ht⟩
    | part hp hw => exact Or.inr ⟨_, hp, leaf, raw, hw, hs, hb, ht⟩
  · rintro (⟨raw, hs, hb, ht⟩ | ⟨p, hp, leaf, raw, hw, hl⟩)
    · exact ⟨n, raw, .self, hs, hb, ht⟩
    · exact ⟨leaf, raw, .part hp hw, hl⟩

theorem mentions_asNullable {n : TypeNode} {m : Text} :
    n.asNullable.Mentions m ↔ n.Mentions m := by
  rw [mentions_iff, mentions_iff]
  rfl

theorem mentions_verbatim {n : TypeNode} {raw m : Text} (hs : n.shape = .verbatim raw) :
    n.Mentions m ↔ isBareName raw = true ∧ trim raw = m := by
  rw [mentions_iff, hs]
  constructor
  · rintro (⟨raw', he, h⟩ | ⟨p, hp, -⟩)
    · cases he
      exact h
    · cases hp
  · intro h
    exact Or.inl ⟨raw, rfl, h⟩

theorem Mentions.trim_eq {n : TypeNode} {m : Text} (h : n.Mentions m) : trim m = m := by
  obtain ⟨leaf, raw, -, -, -, rfl⟩ := h
  exact Text.trim_trim raw

end TypeNode

/-- The declaration mentions the name `m`: in the type of a member or of the alias, or as a
parent. -/
def LocalType.Mentions : LocalType → Text → Prop
  | .interface members parents, m =>
    (∃ x ∈ members, (TypeNode.parse x.type).Mentions m) ∨ m ∈ parents
  | .typeAlias value, m => (TypeNode.parse (Expansion.aliasText value)).Mentions m

namespace Expansion

open Fields (mem_of_lookup)
open TypeNode (Within)

/-- The name is declared as a local type. -/
def Declared (types : List (Text × LocalType)) (n : Text) : Prop := (types.lookup n).isSome = true

/-- The declaration that counts for the local name `n` mentions the local name `m`. -/
def Refers (types : List (Text × LocalType)) (n m : Text) : Prop :=
  (∃ type, types.lookup n = some type ∧ type.Mentions m) ∧ Declared types m

/-! ## What expanded nodes mention -/

variable {resolve : Text → Option TypeNode} {place : Place}

/-- A name that is all of a node stays unresolved, or gives way to the names of its type. -/
theorem named?_cases {raw m : Text} {n r : TypeNode} (hn : n.shape = .verbatim raw)
    (h : (named? resolve raw = none ∧ n.Mentions m) ∨
      named? resolve raw = some r ∧ r.Mentions m) :
    (n.Mentions m ∧ resolve m = none) ∨
      ∃ k r, n.Mentions k ∧ resolve k = some r ∧ r.Mentions m := by
  unfold named? at h
  rcases h with ⟨h, hm⟩ | ⟨h, hm⟩
  · obtain ⟨hb, rfl⟩ := (TypeNode.mentions_verbatim hn).mp hm
    rw [if_pos hb] at h
    exact Or.inl ⟨hm, h⟩
  · split at h
    · rename_i hb
      exact Or.inr ⟨trim raw, r, (TypeNode.mentions_verbatim hn).mpr ⟨hb, rfl⟩, h, hm⟩
    · cases h

/-- The props of a component mention what they would mention as a node of their own. -/
theorem mentions_of_expandProps {props : TypeNode} {m : Text}
    (h : (expandProps resolve props).Mentions m) :
    (expandNode resolve .insideProps props).Mentions m := by
  obtain ⟨raw, hs, he⟩ | he := expandProps_cases resolve props
  · rw [he] at h
    rcases expandNode_cases resolve .insideProps props with
      ⟨raw', hs', ⟨he', hnone⟩ | ⟨-, r, hr, he'⟩⟩ | ⟨p, hp, -⟩ | ⟨hnot, -⟩
    · cases hs.symm.trans hs'
      rw [hnone rfl] at h
      rw [he']
      exact h
    · cases hs.symm.trans hs'
      rw [hr] at h
      rw [he']
      split
      · exact TypeNode.mentions_asNullable.mpr h
      · exact h
    · cases hs.symm.trans hp
    · exact absurd hs (hnot raw)
  · rw [he] at h
    exact h

/-- **A name in an expanded node** was there and has no type, or comes from the type of a name
that was there. -/
theorem mentions_expandNode {n : TypeNode} {m : Text}
    (h : (expandNode resolve .insideProps n).Mentions m) :
    (n.Mentions m ∧ resolve m = none) ∨
      ∃ k r, n.Mentions k ∧ resolve k = some r ∧ r.Mentions m := by
  induction n using TypeNode.induction_parts with
  | step n ih =>
    have lift : ∀ p ∈ n.shape.parts, (expandNode resolve .insideProps p).Mentions m →
        (n.Mentions m ∧ resolve m = none) ∨
          ∃ k r, n.Mentions k ∧ resolve k = some r ∧ r.Mentions m := by
      intro p hp hm
      have hw : Within p n := .part hp .self
      rcases ih p hp hm with ⟨hm, hr⟩ | ⟨k, r, hk, hr, hm⟩
      · exact Or.inl ⟨hm.of_within hw, hr⟩
      · exact Or.inr ⟨k, r, hk.of_within hw, hr, hm⟩
    rcases expandNode_cases resolve .insideProps n with
      ⟨raw, hs, ⟨he, hnone⟩ | ⟨-, r, hr, he⟩⟩ | ⟨props, hs, he⟩ | ⟨hnot, -, he⟩
    · rw [he] at h
      exact named?_cases (r := n) hs (Or.inl ⟨hnone rfl, h⟩)
    · rw [he] at h
      refine named?_cases hs (Or.inr ⟨hr, ?_⟩)
      split at h
      · exact TypeNode.mentions_asNullable.mp h
      · exact h
    · rw [he] at h
      rcases TypeNode.mentions_iff.mp h with ⟨raw, hraw, -⟩ | ⟨p, hp, hm⟩
      · cases hraw
      · obtain rfl : p = expandProps resolve props := by simpa [Shape.parts] using hp
        exact lift props (by simp [hs, Shape.parts]) (mentions_of_expandProps hm)
    · rw [he] at h
      rcases TypeNode.mentions_iff.mp h with ⟨raw, hraw, -⟩ | ⟨p, hp, hm⟩
      · have hv : n.shape = .verbatim raw := by
          simp only at hraw
          cases hs : n.shape <;> rw [hs] at hraw <;> cases hraw
          rfl
        exact absurd hv (hnot raw)
      · obtain ⟨q, hq, rfl⟩ := Shape.mem_parts_map.mp hp
        exact lift q hq hm

/-- **A name in the type of a declaration** was mentioned by it and has no type, or comes from the
type of a name that the declaration mentions; when that type is the name itself, it is the name. -/
theorem mentions_localNode {type : LocalType} {m : Text} (h : (localNode resolve type).Mentions m) :
    resolve m = none ∨
      ∃ k r, type.Mentions k ∧ resolve k = some r ∧ r.Mentions m ∧ (r = .verbatim k → m = k) := by
  have own : ∀ {n : TypeNode}, (∀ k, n.Mentions k → type.Mentions k) →
      (expandNode resolve .insideProps n).Mentions m → resolve m = none ∨
        ∃ k r, type.Mentions k ∧ resolve k = some r ∧ r.Mentions m ∧ (r = .verbatim k → m = k) := by
    intro n hn hm
    rcases mentions_expandNode hm with ⟨-, hr⟩ | ⟨k, r, hk, hr, hm⟩
    · exact Or.inl hr
    · refine Or.inr ⟨k, r, hn k hk, hr, hm, ?_⟩
      rintro rfl
      rw [← ((TypeNode.mentions_verbatim rfl).mp hm).2, hk.trim_eq]
  cases type with
  | interface members parents =>
    rcases TypeNode.mentions_iff.mp h with ⟨raw, hraw, -⟩ | ⟨p, hp, hm⟩
    · cases hraw
    · rcases mem_parts_interfaceNode hp with ⟨x, hx, rfl⟩ | ⟨parent, hmem, r, ps, a, hr, hs, hp⟩
      · exact own (fun k hk => Or.inl ⟨x, hx, hk⟩) hm
      · refine Or.inr ⟨parent, r, Or.inr hmem, hr, hm.of_within (.part hp .self), ?_⟩
        rintro rfl
        cases hs
  | typeAlias value => exact own (fun k hk => hk) h

/-! ## Cycles -/

variable {types : List (Text × LocalType)}

theorem declared_of_resolveIn {expanding : List Text} {n : Text} {r : TypeNode}
    (h : resolveIn types expanding n = some r) : Declared types n := by
  rw [resolveIn_eq] at h
  unfold Declared
  cases hl : types.lookup n with
  | none => rw [hl] at h; cases h
  | some type => rfl

theorem resolveIn_ne_none {expanding : List Text} {n : Text} (h : Declared types n) :
    resolveIn types expanding n ≠ none := by
  obtain ⟨type, hl⟩ := Option.isSome_iff_exists.mp h
  rw [resolveIn_eq, hl]
  simp only
  split <;> simp

/-- **A local name in a resolved type** is one that is being expanded, and that the resolved name
reaches, or it reaches itself. -/
theorem cycle_of_mentions (call : List Text × Text) :
    call.1.contains call.2 = false →
      ∀ r m, resolveIn types call.1 call.2 = some r → r.Mentions m → Declared types m →
        (m ∈ call.1 ∧ Relation.TransGen (Refers types) call.2 m) ∨
          Relation.TransGen (Refers types) m m := by
  induction call using (wellFounded_opens types).induction with
  | h call ih =>
    obtain ⟨expanding, n⟩ := call
    intro hfree r m hres hm hdecl
    obtain ⟨type, hl⟩ := Option.isSome_iff_exists.mp (declared_of_resolveIn hres)
    simp only at hfree hres hl ⊢
    rw [resolveIn_eq, hl] at hres
    simp only [hfree] at hres
    cases hres
    rcases mentions_localNode hm with hnone | ⟨k, r, hk, hr, hm, hname⟩
    · exact absurd hnone (resolveIn_ne_none hdecl)
    have hedge : Refers types n k := ⟨⟨type, hl, hk⟩, declared_of_resolveIn hr⟩
    -- the name `k` stays when it is being expanded; otherwise its own type is smaller
    have hpath : m ∈ n :: expanding ∧ Relation.TransGen (Refers types) n m ∨
        Relation.TransGen (Refers types) m m := by
      by_cases hopen : (n :: expanding).contains k = true
      · obtain ⟨ktype, hkl⟩ := Option.isSome_iff_exists.mp hedge.2
        rw [resolveIn_eq, hkl] at hr
        simp only [hopen, if_true] at hr
        obtain rfl := hname (Option.some.inj hr).symm
        exact Or.inl ⟨List.contains_iff_mem.mp hopen, .single hedge⟩
      · have hcall : Opens types (expanding, n) (n :: expanding, k) :=
          ⟨by simp only [hl, Option.isSome_some], hfree, rfl⟩
        rcases ih _ hcall (by simpa using hopen) r m hr hm hdecl with ⟨hmem, hkm⟩ | hmm
        · exact Or.inl ⟨hmem, .head hedge hkm⟩
        · exact Or.inr hmm
    rcases hpath with ⟨hmem, hnm⟩ | hmm
    · rcases List.mem_cons.mp hmem with rfl | hmem
      · exact Or.inr hnm
      · exact Or.inl ⟨hmem, hnm⟩
    · exact Or.inr hmm

/-- Outside components nothing is replaced, so a component of the result comes from one that was
read. -/
theorem mentions_component {n c props : TypeNode} {m : Text}
    (hc : Within c (expandNode resolve .outside n)) (hs : c.shape = .component props)
    (hm : props.Mentions m) : resolve m = none ∨ ∃ k r, resolve k = some r ∧ r.Mentions m := by
  induction n using TypeNode.induction_parts with
  | step n ih =>
    rcases expandNode_cases resolve .outside n with
      ⟨raw, hv, ⟨he, -⟩ | ⟨hplace, -⟩⟩ | ⟨props', -, he⟩ | ⟨-, hnot, he⟩
    · rw [he] at hc
      cases hc with
      | self => cases hs.symm.trans hv
      | part hp _ =>
        rw [hv] at hp
        cases hp
    · cases hplace
    · have hall : (expandProps resolve props').Mentions m := by
        rw [he] at hc
        cases hc with
        | self =>
          cases hs
          exact hm
        | part hp hc =>
          obtain rfl := List.mem_singleton.mp hp
          exact hm.of_within (.trans (.part (by simp [hs, Shape.parts]) .self) hc)
      rcases mentions_expandNode (mentions_of_expandProps hall) with ⟨-, hr⟩ | ⟨k, r, -, hr, hm⟩
      · exact Or.inl hr
      · exact Or.inr ⟨k, r, hr, hm⟩
    · rw [he] at hc
      cases hc with
      | self =>
        simp only at hs
        cases hshape : n.shape <;> rw [hshape] at hs <;> cases hs
        exact absurd hshape (hnot _)
      | part hp hc =>
        obtain ⟨p, hmem, rfl⟩ := Shape.mem_parts_map.mp hp
        exact ih p hmem hc

theorem cycle_of_component {ds : List Declaration} {t : Text} {c props : TypeNode} {m : Text}
    (hc : Within c (expand ds t)) (hs : c.shape = .component props) (hm : props.Mentions m)
    (hdecl : Declared (localTypes ds) m) : Relation.TransGen (Refers (localTypes ds)) m m := by
  unfold expand at hc
  rw [resolve_eq] at hc
  rcases mentions_component hc hs hm with hnone | ⟨k, r, hr, hm⟩
  · exact absurd hnone (resolveIn_ne_none hdecl)
  · rcases cycle_of_mentions ([], k) rfl r m hr hm hdecl with ⟨hmem, -⟩ | hcycle
    · cases hmem
    · exact hcycle

/-- **Expansion is complete up to cycles.** It comes to an end, and a name of a local type that is
left as a leaf inside the props of a component can reach itself through the declarations. Where
no name can, no local name is left there. -/
theorem expand_complete (ds : List Declaration) (t : Text) :
    RecursionEnds (localTypes ds) ∧
      (∀ c props leaf raw, Within c (expand ds t) → c.shape = .component props →
        Within leaf props → leaf.shape = .verbatim raw → isBareName raw = true →
        Declared (localTypes ds) (trim raw) →
        Relation.TransGen (Refers (localTypes ds)) (trim raw) (trim raw)) ∧
      ((∀ n, ¬ Relation.TransGen (Refers (localTypes ds)) n n) →
        ∀ c props leaf raw, Within c (expand ds t) → c.shape = .component props →
          Within leaf props → leaf.shape = .verbatim raw → isBareName raw = true →
          ¬ Declared (localTypes ds) (trim raw)) := by
  have hleft : ∀ c props leaf raw, Within c (expand ds t) → c.shape = .component props →
      Within leaf props → leaf.shape = .verbatim raw → isBareName raw = true →
      Declared (localTypes ds) (trim raw) →
      Relation.TransGen (Refers (localTypes ds)) (trim raw) (trim raw) := by
    intro c props leaf raw hc hs hl hraw hb hdecl
    exact cycle_of_component hc hs ⟨leaf, raw, hl, hraw, hb, rfl⟩ hdecl
  refine ⟨recursionEnds _, hleft, ?_⟩
  intro hacyclic c props leaf raw hc hs hl hraw hb hdecl
  exact hacyclic _ (hleft c props leaf raw hc hs hl hraw hb hdecl)

theorem expand_complete_of_interfaces :
    let tree : List Declaration :=
      [.define (.interface [⟨"children".toList, "T[]".toList, false⟩] []) ["T".toList] false
        false]
    let chain : List Declaration :=
      [.define (.interface [⟨"q".toList, "Q".toList, false⟩] []) ["P".toList] false false,
        .define (.typeAlias (some "R".toList)) ["Q".toList] false false]
    (∃ c props leaf, Within c (expand tree "FC<T>".toList) ∧ c.shape = .component props ∧
        Within leaf props ∧ leaf.shape = .verbatim "T".toList ∧
        Relation.TransGen (Refers (localTypes tree)) "T".toList "T".toList) ∧
      ∃ c props leaf, Within c (expand chain "FC<P>".toList) ∧ c.shape = .component props ∧
        Within leaf props ∧ leaf.shape = .verbatim "R".toList ∧
        ¬ Declared (localTypes chain) "R".toList := by
  intro tree chain
  constructor
  · let props : TypeNode := .plain "\x7b children: T[] \x7d".toList (.object
      [⟨"children".toList, .plain "T[]".toList (.array (.verbatim "T".toList)), false⟩] none)
    have hn : expand tree "FC<T>".toList = .plain "FC<T>".toList (.component props) := rfl
    have hc : Within (.plain "FC<T>".toList (.component props))
        (expand tree "FC<T>".toList) := by
      rw [hn]
      exact .self
    have hl : Within (.verbatim "T".toList) props := .part (.head _) (.part (.head _) .self)
    exact ⟨_, props, _, hc, rfl, hl, rfl,
      (expand_complete tree "FC<T>".toList).2.1 _ props _ _ hc rfl hl rfl rfl rfl⟩
  · let props : TypeNode := .plain "\x7b q: Q \x7d".toList (.object
      [⟨"q".toList, .verbatim "R".toList, false⟩] none)
    have hn : expand chain "FC<P>".toList = .plain "FC<P>".toList (.component props) := rfl
    have hc : Within (.plain "FC<P>".toList (.component props)) (expand chain "FC<P>".toList) := by
      rw [hn]
      exact .self
    have hl : Within (.verbatim "R".toList) props := .part (.head _) .self
    have hedge : ∀ {n m}, Refers (localTypes chain) n m → n = "P".toList ∧ m = "Q".toList := by
      rintro n m ⟨⟨type, hl, hm⟩, hdecl⟩
      have hmem : (n, type) ∈ localTypes chain := mem_of_lookup hl
      rcases List.mem_cons.mp hmem with he | hmem
      · cases he
        obtain ⟨x, hx, hm⟩ := hm.resolve_right List.not_mem_nil
        obtain rfl := List.mem_singleton.mp hx
        have hq : (TypeNode.parse "Q".toList).shape = .verbatim "Q".toList := rfl
        exact ⟨rfl, ((TypeNode.mentions_verbatim hq).mp hm).2.symm⟩
      · cases List.mem_singleton.mp hmem
        have hr : (TypeNode.parse "R".toList).shape = .verbatim "R".toList := rfl
        obtain ⟨-, rfl⟩ := (TypeNode.mentions_verbatim hr).mp hm
        cases hdecl
    have hacyclic : ∀ n, ¬ Relation.TransGen (Refers (localTypes chain)) n n := by
      intro n hn
      obtain ⟨k, hk, -⟩ := Relation.TransGen.head'_iff.mp hn
      obtain ⟨k', -, hk'⟩ := Relation.TransGen.tail'_iff.mp hn
      exact absurd ((hedge hk).1.symm.trans (hedge hk').2) (by decide)
    exact ⟨_, props, _, hc, rfl, hl, rfl,
      (expand_complete chain "FC<P>".toList).2.2 hacyclic _ props _ _ hc rfl hl rfl rfl⟩

end Expansion

end ExportSchema
