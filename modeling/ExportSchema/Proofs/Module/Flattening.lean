import ExportSchema.Proofs.Expansion.Inlining
import ExportSchema.Proofs.Lineage
import ExportSchema.Proofs.Module.Reading

/-!
# Two ways to flatten an interface

An exported interface is printed with the members of its parents merged in. The props of a component
are inlined from an interface that is resolved. Both go up through the parents, and the last member
of a name counts:

* Merging goes from interface symbol to interface symbol, and to each of them once. A parent that is
  a type alias gives nothing, and a parent that is reached again is not put in again.
* Resolving goes from local type to local type, and to a type as often as it is a parent.

Definitions:
* `memberMarks`, `symbolMarks`, `typeMarks`: the members that a name declares itself, each with its
  mark.
* `symbolLineage`, `typeLineage`: the way up that merging and resolving take.
* `Visit.Covers`: what a run through interfaces has collected.

Results:
* `Visit.Covers.parent`, `visits_mergedDepth`: one parent, and a whole visit, collect the members of
  the interfaces that are reached for the first time.
* `lookup_mergedMembers`, `get?_marks_resolveIn`: both ways, each as one list of members.
* `flattenings_agree_iff`: when the two ways agree.
-/

namespace ExportSchema

open Fields (last? mapValues names pending pending_cons_lt)
open Relation (ReflTransGen TransGen)

namespace Module

variable {symbols : Symbols} {infer : Infer (Except Fault)} {t : Tree} {n q : Text}

/-! ## The members that an interface declares -/

/-- The name that a node of an interface body declares, and whether it is optional. -/
def memberMark? (t : Tree) : Option (Text × Bool) :=
  (t.child? .name).bind fun name =>
    match t.kind with
    | .propertySignature | .methodSignature =>
      some (stripQuotes name.text, t.hasChild .questionMark)
    | _ => none

/-- The names that an interface declares itself, each with its mark. -/
def memberMarks (t : Tree) : Fields Bool :=
  ((t.child? .body).toList.flatMap Tree.namedChildren).filterMap memberMark?

/-- The name and the mark of a member. -/
def mark (m : Member) : Text × Bool := (m.name, m.optional)

theorem memberMark?_of_interfaceMember? {member : Option Member}
    (h : interfaceMember? infer t = .ok member) : member.map mark = memberMark? t := by
  unfold interfaceMember? at h
  unfold memberMark?
  cases hn : t.child? .name with
  | none =>
    rw [hn] at h
    cases h
    rfl
  | some name =>
    rw [hn] at h
    cases hk : t.kind with
    | methodSignature =>
      simp only [hk] at h
      obtain ⟨type, -, hm⟩ := exists_ok_of_bind h
      cases hm
      rfl
    | _ =>
      simp only [hk] at h
      cases h
      rfl

theorem filterMap_memberMark? {ts : List Tree} {members : List (Option Member)}
    (h : ts.mapM (interfaceMember? infer) = .ok members) :
    (members.filterMap id).map mark = ts.filterMap memberMark? := by
  induction ts generalizing members with
  | nil =>
    cases h
    rfl
  | cons t ts ih =>
    rw [List.mapM_cons] at h
    obtain ⟨member, hmember, hrest⟩ := exists_ok_of_bind h
    obtain ⟨rest, hts, hcons⟩ := exists_ok_of_bind hrest
    cases hcons
    have hmark := memberMark?_of_interfaceMember? hmember
    cases member with
    | none => rw [List.filterMap_cons_none rfl, List.filterMap_cons_none hmark.symm, ih hts]
    | some member =>
      rw [List.filterMap_cons_some (f := id) rfl, List.filterMap_cons_some hmark.symm, List.map_cons,
        ih hts]

/-- **The names and marks of an interface** do not depend on the types of other symbols. -/
theorem map_mark_interfaceMembers {members : List Member}
    (h : interfaceMembers infer t = .ok members) : members.map mark = memberMarks t := by
  unfold interfaceMembers at h
  unfold memberMarks
  cases hb : t.child? .body with
  | none =>
    rw [hb] at h
    cases h
    rfl
  | some body =>
    rw [hb] at h
    obtain ⟨parts, hparts, hmembers⟩ := exists_ok_of_bind h
    cases hmembers
    rw [Option.toList_some, List.flatMap_singleton]
    exact filterMap_memberMark? hparts

/-! ## The way up -/

/-- The parents of an interface symbol. -/
def Symbol.parents? (x : Symbol) : Option (List Text) :=
  match x with
  | ⟨.interface, t⟩ => some (interfaceParents t)
  | _ => none

/-- The interface symbols above a name, and the name itself last. -/
def symbolLineage (symbols : Symbols) (n : Text) : List Text :=
  lineage symbols Symbol.parents? [] n

/-- The names that an interface symbol declares itself, each with its mark. -/
def symbolMarks (symbols : Symbols) (n : Text) : Fields Bool :=
  ((interfaceTree? symbols n).map memberMarks).getD []

/-- The local types above a name, and the name itself last. -/
def typeLineage (types : List (Text × LocalType)) (n : Text) : List Text :=
  lineage types (fun type => some type.sources) [] n

/-- The names that a local type declares itself, each with its mark. -/
def typeMarks (types : List (Text × LocalType)) (n : Text) : Fields Bool :=
  ((types.lookup n).map LocalType.own).getD []

theorem parents?_symbol (symbols : Symbols) (n : Text) :
    parents? symbols Symbol.parents? n = (interfaceTree? symbols n).map interfaceParents := by
  unfold parents? interfaceTree?
  show (symbols.get? n).bind _ = _
  cases symbols.get? n with
  | none => rfl
  | some x =>
    obtain ⟨kind, t⟩ := x
    cases kind <;> rfl

/-- A step up is one from an interface to one of its parents. -/
theorem up_iff {p : Text} : Up symbols Symbol.parents? p q ↔
    ∃ u, interfaceTree? symbols p = some u ∧ q ∈ interfaceParents u := by
  unfold Up
  simp only [parents?_symbol, Option.map_eq_some_iff]
  constructor
  · rintro ⟨_, ⟨u, hu, rfl⟩, hq⟩
    exact ⟨u, hu, hq⟩
  · rintro ⟨u, hu, hq⟩
    exact ⟨_, ⟨u, hu, rfl⟩, hq⟩

/-! ## Merging -/

section Merging

variable {visit : List Text → Tree → Except Fault Visit} {seen l ps : List Text} {v w : Visit}

/-- The names above an interface with this tree. -/
def above (symbols : Symbols) (t : Tree) : List Text :=
  (interfaceParents t).flatMap (symbolLineage symbols)

/-- With the names of `seen`, the names of `l` were seen, and the members are those of the names of
`l` that came new, in order, with `own` behind them. -/
structure Visit.Covers (symbols : Symbols) (seen l : List Text) (own : Fields Bool) (v : Visit) :
    Prop where
  mem_seen : ∀ p, p ∈ v.seen ↔ p ∈ seen ∨ p ∈ l
  nodup : (names v.members).Nodup
  lookup : ∀ k, (mapValues (·.optional) v.members).lookup k =
    last? ((firsts seen l).flatMap (symbolMarks symbols) ++ own) k

/-- With a name of `l` that was seen, all the names above it were. -/
def ClosedAt (symbols : Symbols) (seen l : List Text) : Prop :=
  ∀ p ∈ l, p ∈ seen → ∀ x ∈ symbolLineage symbols p, x ∈ seen

theorem Visit.Covers.last? {own : Fields Bool} (h : v.Covers symbols seen l own) (k : Text) :
    Fields.last? (mapValues (·.optional) v.members) k =
      Fields.last? ((firsts seen l).flatMap (symbolMarks symbols) ++ own) k := by
  rw [Fields.last?_of_nodup (by rw [Fields.names_mapValues]; exact h.nodup), h.lookup k]

variable (hac : ∀ n, ¬ TransGen (Up symbols Symbol.parents?) n n)
include hac

theorem symbolLineage_of_tree (h : interfaceTree? symbols n = some t) :
    symbolLineage symbols n = above symbols t ++ [n] :=
  lineage_of_acyclic hac (by rw [parents?_symbol, h, Option.map_some])

theorem not_mem_above_tree (h : interfaceTree? symbols n = some t) : n ∉ above symbols t :=
  not_mem_above hac (by rw [parents?_symbol, h, Option.map_some])

/-- The members of one parent that was not seen before come behind. -/
theorem Visit.Covers.put (hv : v.Covers symbols seen l []) (hq : interfaceTree? symbols q = some t)
    (hnew : q ∉ v.seen) (hw : w.Covers symbols (q :: v.seen) (above symbols t) (memberMarks t)) :
    Covers symbols seen (l ++ symbolLineage symbols q) []
      ⟨v.members.putAll w.members, w.seen⟩ := by
  have hsplit := symbolLineage_of_tree hac hq
  have habove := not_mem_above_tree hac hq
  refine ⟨fun p => ?_, Fields.nodup_names_putAll hv.nodup _, fun k => ?_⟩
  · simp only [hw.mem_seen, List.mem_cons, hv.mem_seen, hsplit, List.mem_append]
    tauto
  · -- what is new above `q` is new with `q` seen as well, and `q` itself comes last
    have hfirsts : firsts seen (l ++ symbolLineage symbols q) =
        firsts seen l ++ (firsts (q :: v.seen) (above symbols t) ++ [q]) := by
      rw [firsts_append, hsplit, firsts_append, firsts_singleton ?_]
      · refine congrArg (fun new => firsts seen l ++ (new ++ [q])) (firsts_congr fun p hp => ?_)
        have hne : p ≠ q := fun h => habove (h ▸ hp)
        simp [hne, hv.mem_seen]
      · rw [List.mem_append, not_or, List.mem_append, ← hv.mem_seen]
        exact ⟨hnew, habove⟩
    have hown : symbolMarks symbols q = memberMarks t := by simp [symbolMarks, hq]
    have hbefore := hv.lookup k
    rw [List.append_nil] at hbefore
    rw [Fields.mapValues_putAll, Fields.lookup_putAll, hbefore, hw.last?, hfirsts, List.append_nil,
      List.flatMap_append, List.flatMap_append, List.flatMap_singleton, hown,
      Fields.last?_append (List.flatMap _ (firsts seen l))]

omit hac in
theorem Visit.Covers.mem_of_seen (hv : v.Covers symbols seen l []) {p : Text} (hp : p ∈ seen) :
    p ∈ v.seen :=
  (hv.mem_seen p).mpr (Or.inl hp)

/-- A visit is right when it starts from names that were seen with all that is above them, and there
are steps left for the interfaces that were not seen. -/
def Visits (symbols : Symbols) (visit : List Text → Tree → Except Fault Visit) (depth : Nat) :
    Prop :=
  ∀ seen t v, pending symbols seen < depth → ClosedAt symbols seen (above symbols t) →
    visit seen t = .ok v → v.Covers symbols seen (above symbols t) (memberMarks t)

/-- **One parent** adds its lineage to the names, and the members of those that are new. -/
theorem Visit.Covers.parent {depth : Nat} (hvisit : Visits symbols visit depth)
    (hdepth : pending symbols seen ≤ depth) (hv : v.Covers symbols seen l [])
    (hclosed : ClosedAt symbols v.seen (symbolLineage symbols q))
    (h : v.parent symbols visit q = .ok w) :
    w.Covers symbols seen (l ++ symbolLineage symbols q) [] := by
  unfold Visit.parent at h
  cases hq : interfaceTree? symbols q with
  | none =>
    simp only [hq] at h
    cases h
    have hnone : symbolLineage symbols q = [] :=
      lineage_of_none (by rw [parents?_symbol, hq, Option.map_none])
    rw [hnone, List.append_nil]
    exact hv
  | some t =>
    simp only [hq] at h
    have hsplit := symbolLineage_of_tree hac hq
    split at h
    · rename_i hseen
      cases h
      -- all that is above `q` was seen with it
      have hall : ∀ p ∈ symbolLineage symbols q, p ∈ v.seen :=
        hclosed q (by simp [hsplit]) (by simpa using hseen)
      have hnone : firsts (seen ++ l) (symbolLineage symbols q) = [] :=
        firsts_of_subset fun p hp => List.mem_append.mpr ((hv.mem_seen p).mp (hall p hp))
      have hnew : firsts seen (l ++ symbolLineage symbols q) = firsts seen l := by
        rw [firsts_append, hnone, List.append_nil]
      refine ⟨fun p => ?_, hv.nodup, fun k => by rw [hnew]; exact hv.lookup k⟩
      rw [hv.mem_seen, List.mem_append]
      have := hv.mem_seen p
      have := hall p
      tauto
    · rename_i hseen
      obtain ⟨inner, hinner, hw⟩ := exists_ok_of_bind h
      cases hw
      have hnew : q ∉ v.seen := by simpa using hseen
      have hfewer : pending symbols (q :: v.seen) < depth :=
        calc pending symbols (q :: v.seen)
            < pending symbols v.seen :=
              pending_cons_lt (get?_of_interfaceTree? hq) (by simpa using hseen)
          _ ≤ pending symbols seen := Fields.pending_le_of_subset fun p => hv.mem_of_seen
          _ ≤ depth := hdepth
      refine hv.put hac hq hnew (hvisit _ _ _ hfewer (fun p hp hmem x hx => ?_) hinner)
      rcases List.mem_cons.mp hmem with rfl | hmem
      · exact absurd hp (not_mem_above_tree hac hq)
      · have hpq : p ∈ symbolLineage symbols q := hsplit ▸ List.mem_append_left _ hp
        exact List.mem_cons_of_mem _ (hclosed p hpq hmem x hx)

/-- **All parents** add their lineages, one after the other. -/
theorem Visit.Covers.parents {depth : Nat} (hvisit : Visits symbols visit depth)
    (hdepth : pending symbols seen ≤ depth) (hv : v.Covers symbols seen l [])
    (hl : ∀ p ∈ l, ∀ x ∈ symbolLineage symbols p, x ∈ l)
    (hclosed : ClosedAt symbols seen (ps.flatMap (symbolLineage symbols)))
    (h : ps.foldlM (Visit.parent symbols visit) v = .ok w) :
    w.Covers symbols seen (l ++ ps.flatMap (symbolLineage symbols)) [] := by
  induction ps generalizing v l with
  | nil =>
    cases h
    rw [List.flatMap_nil, List.append_nil]
    exact hv
  | cons q ps ih =>
    rw [List.foldlM_cons] at h
    obtain ⟨u, hu, hrest⟩ := exists_ok_of_bind h
    rw [List.flatMap_cons, ← List.append_assoc]
    refine ih (hv.parent hac hvisit hdepth (fun p hp hseen x hx => ?_) hu) ?_ ?_ hrest
    · rcases (hv.mem_seen p).mp hseen with hseen | hseen
      · exact hv.mem_of_seen (hclosed p (by simp [hp]) hseen x hx)
      · exact (hv.mem_seen x).mpr (Or.inr (hl p hseen x hx))
    · intro p hp x hx
      rcases List.mem_append.mp hp with hp | hp
      · exact List.mem_append_left _ (hl p hp x hx)
      · exact List.mem_append_right _ (lineage_subset hac hp hx)
    · exact fun p hp => hclosed p (by rw [List.flatMap_cons]; exact List.mem_append_right _ hp)

/-- **A visit collects the members of the interfaces that it reaches first**, and those of its own
interface behind them. -/
theorem visits_mergedDepth (infer : Infer (Except Fault)) (depth : Nat) :
    Visits symbols (mergedDepth infer symbols depth) depth := by
  induction depth with
  | zero => exact fun seen t v hdepth => absurd hdepth (Nat.not_lt_zero _)
  | succ depth ih =>
    intro seen t v hdepth hclosed h
    obtain ⟨inherited, hparents, hown⟩ := exists_ok_of_bind h
    obtain ⟨own, hmembers, hv⟩ := exists_ok_of_bind hown
    cases hv
    have hstart : Visit.Covers symbols seen [] [] ⟨[], seen⟩ :=
      ⟨fun p => by simp, List.nodup_nil, fun k => by rw [firsts_of_subset (by simp)]; rfl⟩
    have hinherited := hstart.parents hac ih (Nat.le_of_lt_succ hdepth) (by simp) hclosed hparents
    rw [List.nil_append] at hinherited
    refine ⟨hinherited.mem_seen, Fields.nodup_names_putAll hinherited.nodup _, fun k => ?_⟩
    have hmarks : mapValues (·.optional) (own.map fun m => (m.name, m)) = memberMarks t := by
      rw [← map_mark_interfaceMembers hmembers, mapValues, List.map_map]
      rfl
    rw [Fields.mapValues_putAll, Fields.lookup_putAll, hmarks, hinherited.lookup, List.append_nil,
      Fields.last?_append]
    rfl

/-- **Merged members.** Each interface of the lineage counts where it is reached first. -/
theorem lookup_mergedMembers {fields : Fields Member} (hn : interfaceTree? symbols n = some t)
    (h : mergedMembers infer symbols t = .ok fields) (k : Text) :
    (mapValues (·.optional) fields).get? k =
      last? ((symbolLineage symbols n).eraseDups.flatMap (symbolMarks symbols)) k := by
  obtain ⟨v, hv, hfields⟩ := exists_ok_of_bind h
  cases hfields
  have hcovers := visits_mergedDepth hac infer _ [] t v
    (Nat.lt_succ_of_le (Fields.pending_le_length _ _)) (fun p _ hp => nomatch hp) hv
  have hlast : (symbolLineage symbols n).eraseDups = (above symbols t).eraseDups ++ [n] := by
    rw [symbolLineage_of_tree hac hn, ← firsts_nil, firsts_append, firsts_nil,
      firsts_singleton (by simpa using not_mem_above_tree hac hn)]
  have hown : symbolMarks symbols n = memberMarks t := by simp [symbolMarks, hn]
  rw [hlast, List.flatMap_append, List.flatMap_singleton, hown, ← firsts_nil]
  exact hcovers.lookup k

/-- A name that is reached through parents is in the lineage, if it is an interface. -/
theorem mem_symbolLineage_of_reached {p : Text} {u : Tree} (hp : interfaceTree? symbols p = some u)
    (h : ReflTransGen (Up symbols Symbol.parents?) n p) : p ∈ symbolLineage symbols n := by
  induction h using ReflTransGen.head_induction_on with
  | refl => simp [symbolLineage_of_tree hac hp]
  | head hup _ ih =>
    obtain ⟨t, ht, hq⟩ := up_iff.mp hup
    rw [symbolLineage_of_tree hac ht]
    exact List.mem_append_left _ (List.mem_flatMap.mpr ⟨_, hq, ih⟩)

omit hac in
/-- Merging gives a result when the members of all interfaces that are reached can be read. -/
theorem exists_mergedDepth_of_reached (depth : Nat) (seen : List Text)
    (hn : interfaceTree? symbols n = some t)
    (h : ∀ p u, ReflTransGen (Up symbols Symbol.parents?) n p →
      interfaceTree? symbols p = some u → ∃ own, interfaceMembers infer u = .ok own) :
    ∃ v, mergedDepth infer symbols depth seen t = .ok v := by
  induction depth generalizing n t seen with
  | zero => exact ⟨_, rfl⟩
  | succ depth ih =>
    obtain ⟨own, hown⟩ := h n t .refl hn
    have hparent : ∀ v : Visit, ∀ q ∈ interfaceParents t,
        ∃ w, v.parent symbols (mergedDepth infer symbols depth) q = .ok w := by
      intro v q hq
      unfold Visit.parent
      cases htree : interfaceTree? symbols q with
      | none => exact ⟨_, rfl⟩
      | some u =>
        dsimp only
        split
        · exact ⟨_, rfl⟩
        · have hup : Up symbols Symbol.parents? n q := up_iff.mpr ⟨t, hn, hq⟩
          obtain ⟨inner, hinner⟩ := ih (q :: v.seen) htree fun p w hp => h p w (.head hup hp)
          exact ⟨_, by rw [hinner]; rfl⟩
    obtain ⟨inherited, hinherited⟩ := exists_ok_foldlM hparent (⟨[], seen⟩ : Visit)
    exact ⟨_, by rw [mergedDepth, mergedStep, hinherited, hown]; rfl⟩

/-- Merging gives a result when the members of all interfaces of the lineage can be read. -/
theorem exists_mergedDepth (depth : Nat) (seen : List Text) (hn : interfaceTree? symbols n = some t)
    (h : ∀ p ∈ symbolLineage symbols n, ∀ u, interfaceTree? symbols p = some u →
      ∃ own, interfaceMembers infer u = .ok own) :
    ∃ v, mergedDepth infer symbols depth seen t = .ok v :=
  exists_mergedDepth_of_reached depth seen hn fun p u hp hu =>
    h p (mem_symbolLineage_of_reached hac hu hp) u hu

end Merging

/-! ## Resolving -/

open Expansion (marks marks_resolveIn resolveIn)

/-- **Resolved members.** Each local type of the lineage counts as often as it is there. -/
theorem last?_marks_resolveIn (types : List (Text × LocalType)) (expanding : List Text)
    (n k : Text) :
    last? (marks (resolveIn types expanding n)) k =
      last? ((lineage types (fun type => some type.sources) expanding n).flatMap
        (typeMarks types)) k := by
  induction expanding, n using lineage_induction types (fun type => some type.sources) with
  | met expanding n hn =>
    rw [lineage_of_met hn, marks_resolveIn]
    cases types.lookup n with
    | none => rfl
    | some type =>
      simp only [if_pos (List.contains_iff_mem.mpr hn)]
      rfl
  | top expanding n hn hnone =>
    have hl : types.lookup n = none :=
      Option.eq_none_iff_forall_ne_some.mpr fun type hl => by simp [parents?, hl] at hnone
    rw [lineage_of_none hnone, marks_resolveIn, hl]
    rfl
  | step expanding n ps hn hsome ih =>
    obtain ⟨type, hl, hps⟩ := Option.bind_eq_some_iff.mp hsome
    cases hps
    have hin : ¬ expanding.contains n = true := by simpa using hn
    have hown : typeMarks types n = type.own := by simp [typeMarks, hl]
    rw [lineage_of_some hsome hn, marks_resolveIn, hl]
    simp only [if_neg hin]
    rw [LocalType.last?_marks, List.flatMap_append, List.flatMap_singleton, hown,
      Fields.last?_append, Fields.last?_append, List.flatMap_assoc,
      Fields.last?_flatMap_congr fun p hp => ih p hp]

/-- An interface is resolved to an object type. -/
theorem exists_object_resolve {types : List (Text × LocalType)} {members : List Member}
    {parents : List Text} (hl : types.lookup n = some (.interface members parents)) :
    ∃ node properties additional, resolveIn types [] n = some node ∧
      node.shape = .object properties additional := by
  rw [Expansion.resolveIn_eq, hl]
  exact ⟨_, _, _, rfl, rfl⟩

/-- An interface has each name once, so that the last mark of a name is the only one. -/
theorem get?_marks_resolveIn {types : List (Text × LocalType)} {members : List Member}
    {parents : List Text} (hl : types.lookup n = some (.interface members parents)) (k : Text) :
    (marks (resolveIn types [] n)).get? k =
      last? ((typeLineage types n).flatMap (typeMarks types)) k := by
  unfold typeLineage
  rw [← last?_marks_resolveIn, marks_resolveIn, hl]
  exact (Fields.lookup_ofList _ k).trans (Fields.last?_ofList _ k).symm

/-! ## When the two ways agree -/

section Agreement

variable {m : Module}

/-- The interface that counts for `n` has the parent `p`. -/
def Extends (types : List (Text × LocalType)) (n p : Text) : Prop :=
  ∃ members parents, types.lookup n = some (.interface members parents) ∧ p ∈ parents

/-- The same names have the same marks. -/
def SameMarks (as bs : Fields Bool) : Prop := ∀ k, as.get? k = bs.get? k

theorem Consistent.acyclic (hm : m.Consistent)
    (hac : ∀ p, ¬ TransGen (Extends (localTypes m.declarations)) p p) (p : Text) :
    ¬ TransGen (Up m.symbols Symbol.parents?) p p := by
  refine fun hp => hac p (hp.lift id ?_)
  rintro a b ⟨parents, hparents, hb⟩
  rw [parents?_symbol, Option.map_eq_some_iff] at hparents
  obtain ⟨t, ht, rfl⟩ := hparents
  obtain ⟨infer, members, -, hl⟩ := hm.interface a t ht
  exact ⟨members, _, hl, hb⟩

/-- An interface symbol and its local type declare the same members. -/
theorem Consistent.typeMarks_eq (hm : m.Consistent) (h : interfaceTree? m.symbols n = some t) :
    typeMarks (localTypes m.declarations) n = symbolMarks m.symbols n := by
  obtain ⟨infer, members, hmembers, hl⟩ := hm.interface n t h
  unfold typeMarks symbolMarks
  rw [hl, h]
  exact map_mark_interfaceMembers hmembers

theorem Consistent.flatMap_symbolMarks (hm : m.Consistent) {l : List Text}
    (h : ∀ p ∈ l, (interfaceTree? m.symbols p).isSome) :
    l.flatMap (symbolMarks m.symbols) = l.flatMap (typeMarks (localTypes m.declarations)) := by
  refine List.flatMap_congr fun p hp => ?_
  obtain ⟨u, hu⟩ := Option.isSome_iff_exists.mp (h p hp)
  exact (hm.typeMarks_eq hu).symm

/-- The two lineages are one where all names in it are interface symbols. -/
theorem Consistent.lineage_eq (hm : m.Consistent) (below : List Text) (n : Text) :
    let up (type : LocalType) : Option (List Text) := some type.sources
    (∀ p ∈ lineage (localTypes m.declarations) up below n,
        (interfaceTree? m.symbols p).isSome) →
      lineage m.symbols Symbol.parents? below n =
        lineage (localTypes m.declarations) up below n := by
  intro up
  induction below, n using lineage_induction (localTypes m.declarations) up with
  | met below n hn => simp [lineage_of_met hn]
  | top below n hn hnone =>
    intro _
    rw [lineage_of_none hnone, lineage_of_none]
    rw [parents?_symbol, Option.map_eq_none_iff]
    refine Option.eq_none_iff_forall_ne_some.mpr fun t ht => ?_
    obtain ⟨infer, members, -, hl⟩ := hm.interface n t ht
    simp [parents?, hl, up] at hnone
  | step below n ps hn hsome ih =>
    intro hall
    rw [lineage_of_some hsome hn] at hall ⊢
    obtain ⟨t, ht⟩ := Option.isSome_iff_exists.mp (hall n (by simp))
    obtain ⟨infer, members, -, hl⟩ := hm.interface n t ht
    obtain rfl : interfaceParents t = ps := by
      simpa [parents?, hl, up, LocalType.sources] using hsome
    rw [lineage_of_some (by rw [parents?_symbol, ht, Option.map_some]) hn]
    refine congrArg (· ++ [n]) (List.flatMap_congr fun p hp => ih p hp ?_)
    exact fun q hq => hall q (List.mem_append_left _ (List.mem_flatMap.mpr ⟨p, hp, hq⟩))

/-- An order in which every interface comes behind its parents rules out cycles. -/
theorem acyclic_of_rank {types : List (Text × LocalType)} (rank : Text → Nat)
    (h : ∀ e ∈ types, ∀ p ∈ e.2.sources, rank p < rank e.1) (n : Text) :
    ¬ TransGen (Extends types) n n := by
  have hlt : ∀ {p q}, TransGen (Extends types) p q → rank q < rank p := by
    intro p q hpq
    have hstep : ∀ {p q}, Extends types p q → rank q < rank p := by
      rintro p q ⟨members, parents, hl, hq⟩
      exact h _ (Fields.mem_of_lookup hl) q hq
    induction hpq with
    | single hpq => exact hstep hpq
    | tail _ hqr ih => exact Nat.lt_trans (hstep hqr) ih
  exact fun hn => Nat.lt_irrefl _ (hlt hn)

/-- **When the two ways to flatten an interface agree.** Resolving always gives an object type, and
merging can fail only where the members of an interface of the lineage cannot be read. The merged
members are the last ones on the way through the interface symbols, each of them visited once, and
the resolved members are the last ones on the way through the local types. So the ways agree when
all local types above the interface are interface symbols, and none of them is reached twice or no
name has two marks. -/
theorem flattenings_agree_iff {root : Tree} (hread : read root = .ok m)
    (hn : interfaceTree? m.symbols n = some t)
    (hac : ∀ p, ¬ TransGen (Extends (localTypes m.declarations)) p p)
    (infer : Infer (Except Fault)) :
    let types := localTypes m.declarations
    let resolved := ((Expander.fresh m.declarations).resolve n).1
    let entries := (typeLineage types n).flatMap (typeMarks types)
    (∃ node properties additional, resolved = some node ∧
      node.shape = .object properties additional) ∧
    ((∀ p ∈ symbolLineage m.symbols n, ∀ u, interfaceTree? m.symbols p = some u →
        ∃ own, interfaceMembers infer u = .ok own) →
      ∃ fields, mergedMembers infer m.symbols t = .ok fields) ∧
    ∀ fields, mergedMembers infer m.symbols t = .ok fields →
      (SameMarks (mapValues (·.optional) fields) (marks resolved) ↔ ∀ k,
        last? ((symbolLineage m.symbols n).eraseDups.flatMap (symbolMarks m.symbols)) k =
          last? entries k) ∧
      ((∀ p ∈ typeLineage types n, (interfaceTree? m.symbols p).isSome) →
        (typeLineage types n).Nodup ∨ (∀ a ∈ entries, ∀ b ∈ entries, a.1 = b.1 → a.2 = b.2) →
        SameMarks (mapValues (·.optional) fields) (marks resolved)) := by
  intro types resolved entries
  have hm := consistent_read hread
  have hacyclic := hm.acyclic hac
  obtain ⟨_, members, -, hl⟩ := hm.interface n t hn
  have hresolved : resolved = resolveIn types [] n := Expansion.resolve_fst types [] n
  rw [hresolved]
  refine ⟨exists_object_resolve hl, fun hreads => ?_, fun fields hfields => ?_⟩
  · obtain ⟨v, hv⟩ := exists_mergedDepth hacyclic (m.symbols.length + 1) [] hn hreads
    exact ⟨v.members, by rw [mergedMembers, hv]; rfl⟩
  · have hiff : SameMarks (mapValues (·.optional) fields) (marks (resolveIn types [] n)) ↔ ∀ k,
        last? ((symbolLineage m.symbols n).eraseDups.flatMap (symbolMarks m.symbols)) k =
          last? entries k := by
      unfold SameMarks
      refine forall_congr' fun k => ?_
      rw [lookup_mergedMembers hacyclic hn hfields, get?_marks_resolveIn hl]
    refine ⟨hiff, fun hall hlineage => hiff.mpr fun k => ?_⟩
    have hsame : symbolLineage m.symbols n = typeLineage types n := hm.lineage_eq [] n hall
    rw [hsame, hm.flatMap_symbolMarks fun p hp => hall p (List.mem_eraseDups.mp hp)]
    rcases hlineage with hnodup | hone
    · rw [eraseDups_of_nodup hnodup]
    · refine Fields.last?_eq_of_one_value hone fun e => ?_
      simp only [entries, types, List.mem_flatMap, List.mem_eraseDups]

/-- `D` extends `B` and `C`, which both extend `A`: a parent that is reached twice does no harm when
no name has two marks. -/
theorem flattenings_agree_of_diamond :
    let token (kind : Kind) (text : String) : Tree := ⟨kind, false, none, text.toList, []⟩
    let leaf (kind : Kind) (field : Field) (text : String) : Tree :=
      ⟨kind, true, some field, text.toList, []⟩
    let extending (text : String) (parents : List String) : Tree :=
      ⟨.extendsTypeClause, true, none, text.toList,
        token .other "extends" :: parents.map (leaf .other .type)⟩
    let a : Tree := ⟨.interfaceDeclaration, true, none, "interface A \x7b x?: string \x7d".toList,
      [leaf .other .name "A", ⟨.other, true, some .body, "\x7b x?: string \x7d".toList,
        [⟨.propertySignature, true, none, "x?: string".toList, [leaf .propertyIdentifier .name "x",
          token .questionMark "?", leaf .typeMark .type ": string"]⟩]⟩]⟩
    let b : Tree := ⟨.interfaceDeclaration, true, none, "interface B extends A \x7b\x7d".toList,
      [leaf .other .name "B", extending "extends A" ["A"], leaf .other .body "\x7b\x7d"]⟩
    let c : Tree := ⟨.interfaceDeclaration, true, none, "interface C extends A \x7b\x7d".toList,
      [leaf .other .name "C", extending "extends A" ["A"], leaf .other .body "\x7b\x7d"]⟩
    let d : Tree := ⟨.interfaceDeclaration, true, none,
      "interface D extends B, C \x7b y: string \x7d".toList,
      [leaf .other .name "D", extending "extends B, C" ["B", "C"],
        ⟨.other, true, some .body, "\x7b y: string \x7d".toList,
          [⟨.propertySignature, true, none, "y: string".toList, [leaf .propertyIdentifier .name "y",
            leaf .typeMark .type ": string"]⟩]⟩]⟩
    let root : Tree := ⟨.other, true, none, [], [a, b, c, d]⟩
    ∃ m, read root = .ok m ∧ interfaceTree? m.symbols "D".toList = some d ∧
      (∀ p, ¬ TransGen (Extends (localTypes m.declarations)) p p) ∧
      ∀ infer : Infer (Except Fault), ∃ fields, mergedMembers infer m.symbols d = .ok fields ∧
        SameMarks (mapValues (·.optional) fields)
          (marks ((Expander.fresh m.declarations).resolve "D".toList).1) := by
  intro token leaf extending a b c d root
  let m : Module := ⟨[("A".toList, ⟨.interface, a⟩), ("B".toList, ⟨.interface, b⟩),
    ("C".toList, ⟨.interface, c⟩), ("D".toList, ⟨.interface, d⟩)],
    [.define (.interface [⟨"x".toList, "string".toList, true⟩] []) ["A".toList] false false,
      .define (.interface [] ["A".toList]) ["B".toList] false false,
      .define (.interface [] ["A".toList]) ["C".toList] false false,
      .define (.interface [⟨"y".toList, "string".toList, false⟩] ["B".toList, "C".toList])
        ["D".toList] false false]⟩
  have hread : read root = .ok m := rfl
  have hac : ∀ p, ¬ TransGen (Extends (localTypes m.declarations)) p p :=
    acyclic_of_rank (fun n => (localTypes m.declarations).findIdx (·.1 = n)) (by decide)
  let types := localTypes m.declarations
  let up (type : LocalType) : Option (List Text) := some type.sources
  have hA : ∀ below, "A".toList ∉ below → lineage types up below "A".toList = ["A".toList] :=
    fun below => lineage_of_some (show parents? types up "A".toList = some [] from rfl)
  have hB : lineage types up ["D".toList] "B".toList = ["A".toList, "B".toList] := by
    rw [lineage_of_some (show parents? types up "B".toList = some ["A".toList] from rfl)
      (by decide), List.flatMap_singleton, hA _ (by decide)]
    rfl
  have hC : lineage types up ["D".toList] "C".toList = ["A".toList, "C".toList] := by
    rw [lineage_of_some (show parents? types up "C".toList = some ["A".toList] from rfl)
      (by decide), List.flatMap_singleton, hA _ (by decide)]
    rfl
  have hD : typeLineage types "D".toList =
      ["A".toList, "B".toList, "A".toList, "C".toList, "D".toList] := by
    rw [typeLineage, lineage_of_some (show parents? types up "D".toList =
      some ["B".toList, "C".toList] from rfl) (by decide), List.flatMap_cons,
      List.flatMap_singleton, hB, hC]
    rfl
  refine ⟨m, hread, rfl, hac, fun infer => ?_⟩
  obtain ⟨-, -, hagree⟩ := flattenings_agree_iff hread (n := "D".toList) rfl hac infer
  refine ⟨_, rfl, (hagree _ rfl).2 ?_ (Or.inr ?_)⟩
  · rw [hD]
    decide
  · rw [hD]
    decide

/-- In the module with the tree `root`, where no interface is above itself, the member `k` of the
interface `n` has the mark `merged` by merging and the mark `resolved` by resolving. -/
def Flattened (root : Tree) (n k : Text) (merged resolved : Option Bool) : Prop :=
  ∃ m t, read root = .ok m ∧ interfaceTree? m.symbols n = some t ∧
    (∀ p, ¬ TransGen (Extends (localTypes m.declarations)) p p) ∧
    (∀ infer, ∃ fields, mergedMembers infer m.symbols t = .ok fields ∧
      (mapValues (·.optional) fields).get? k = merged) ∧
    (marks ((Expander.fresh m.declarations).resolve n).1).get? k = resolved

/-- **The two ways differ** for an interface whose parent is a type alias, which is not merged, and
for one that reaches a parent twice, where only the first time counts. -/
theorem flattenings_differ :
    let token (kind : Kind) (text : String) : Tree := ⟨kind, false, none, text.toList, []⟩
    let leaf (kind : Kind) (field : Field) (text : String) : Tree :=
      ⟨kind, true, some field, text.toList, []⟩
    let extending (text : String) (parents : List String) : Tree :=
      ⟨.extendsTypeClause, true, none, text.toList,
        token .other "extends" :: parents.map (leaf .other .type)⟩
    let body (text : String) (marks : List Tree) : Tree :=
      ⟨.other, true, some .body, ("\x7b " ++ text ++ " \x7d").toList,
        [⟨.propertySignature, true, none, text.toList,
          leaf .propertyIdentifier .name "x" :: marks ++ [leaf .typeMark .type ": string"]⟩]⟩
    let base : Tree := ⟨.typeAliasDeclaration, true, none,
      "type Base = \x7b id: string \x7d".toList,
      [leaf .other .name "Base", leaf .other .value "\x7b id: string \x7d"]⟩
    let props : Tree := ⟨.interfaceDeclaration, true, none,
      "interface Props extends Base \x7b x: string \x7d".toList,
      [leaf .other .name "Props", extending "extends Base" ["Base"], body "x: string" []]⟩
    let a : Tree := ⟨.interfaceDeclaration, true, none, "interface A \x7b x?: string \x7d".toList,
      [leaf .other .name "A", body "x?: string" [token .questionMark "?"]]⟩
    let b : Tree := ⟨.interfaceDeclaration, true, none,
      "interface B extends A \x7b x: string \x7d".toList,
      [leaf .other .name "B", extending "extends A" ["A"], body "x: string" []]⟩
    let c : Tree := ⟨.interfaceDeclaration, true, none, "interface C extends A \x7b\x7d".toList,
      [leaf .other .name "C", extending "extends A" ["A"], leaf .other .body "\x7b\x7d"]⟩
    let d : Tree := ⟨.interfaceDeclaration, true, none, "interface D extends B, C \x7b\x7d".toList,
      [leaf .other .name "D", extending "extends B, C" ["B", "C"], leaf .other .body "\x7b\x7d"]⟩
    Flattened ⟨.other, true, none, [], [base, props]⟩ "Props".toList "id".toList none (some false) ∧
      Flattened ⟨.other, true, none, [], [a, b, c, d]⟩ "D".toList "x".toList (some false)
        (some true) := by
  intro token leaf extending body base props a b c d
  let m : Module := ⟨[("Base".toList, ⟨.typeAlias, base⟩), ("Props".toList, ⟨.interface, props⟩)],
    [.define (.typeAlias (some "\x7b id: string \x7d".toList)) ["Base".toList] false false,
      .define (.interface [⟨"x".toList, "string".toList, false⟩] ["Base".toList]) ["Props".toList]
        false false]⟩
  let m' : Module := ⟨[("A".toList, ⟨.interface, a⟩), ("B".toList, ⟨.interface, b⟩),
    ("C".toList, ⟨.interface, c⟩), ("D".toList, ⟨.interface, d⟩)],
    [.define (.interface [⟨"x".toList, "string".toList, true⟩] []) ["A".toList] false false,
      .define (.interface [⟨"x".toList, "string".toList, false⟩] ["A".toList]) ["B".toList] false
        false,
      .define (.interface [] ["A".toList]) ["C".toList] false false,
      .define (.interface [] ["B".toList, "C".toList]) ["D".toList] false false]⟩
  have hread : read ⟨.other, true, none, [], [base, props]⟩ = .ok m := rfl
  have hread' : read ⟨.other, true, none, [], [a, b, c, d]⟩ = .ok m' := rfl
  refine ⟨⟨m, props, hread, rfl, ?_, ?_, ?_⟩, ⟨m', d, hread', rfl, ?_, ?_, ?_⟩⟩
  · exact acyclic_of_rank (fun n => (localTypes m.declarations).findIdx (·.1 = n)) (by decide)
  · exact fun infer => ⟨[("x".toList, ⟨"x".toList, "string".toList, false⟩)], rfl, by decide⟩
  · decide +kernel
  · exact acyclic_of_rank (fun n => (localTypes m'.declarations).findIdx (·.1 = n)) (by decide)
  · exact fun infer => ⟨[("x".toList, ⟨"x".toList, "string".toList, false⟩)], rfl, by decide⟩
  · decide +kernel

end Agreement

end Module

end ExportSchema
