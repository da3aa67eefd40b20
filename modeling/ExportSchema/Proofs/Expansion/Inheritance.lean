import ExportSchema.Proofs.Expansion.Reach

/-!
# Inherited members

An interface takes over the members of its parents, and an alias that is only a name those of the
type it names. A parent that is being expanded gives nothing, so the members of an interface depend
on which of its ancestors are being expanded.

* `memberEntries`, `marks`: the members of an object type by name, and whether each is optional.
* `LocalType.sources`, `LocalType.own`: where a declaration takes members from, and those it gives
  itself.
* `Inherits`, `Declares`: the same for the declaration that counts for a name.
* `InheritsPast`: a step up to an ancestor that is not being expanded.

Results:
* `memberEntries_interfaceNode`: the members of an interface are those of its parents in order, then
  its own.
* `marks_resolveIn`: the members of a local type.
* `marks_congr`: only the ancestors that are being expanded count.
* `mem_memberNames_iff`: a member is declared by an ancestor that is reached past the names being
  expanded.
-/

namespace ExportSchema

open Lexeme (isBareName)
open Text (trim)

namespace Expansion

open Fields (last? mapValues names ofList putAll)

/-! ## Members of an object type -/

/-- The members of an object type, each under its name; any other type has none. -/
def memberEntries : Option TypeNode → Fields (Property TypeNode)
  | some ⟨_, _, .object properties _⟩ => properties.map fun p => (p.name, p)
  | _ => []

/-- The names of the members of an object type, each with its mark: is the member optional? -/
def marks (n : Option TypeNode) : Fields Bool := mapValues (·.optional) (memberEntries n)

/-- The names of the members of an object type. -/
def memberNames (n : Option TypeNode) : List Text := names (memberEntries n)

theorem names_marks (n : Option TypeNode) : names (marks n) = memberNames n :=
  Fields.names_mapValues _ _

theorem memberEntries_of_shape {n m : TypeNode} (h : n.shape = m.shape) :
    memberEntries (some n) = memberEntries (some m) := by
  obtain ⟨text, nullable, shape⟩ := n
  obtain ⟨text', nullable', shape'⟩ := m
  cases h
  cases shape <;> rfl

theorem marks_object {n : TypeNode} {properties : List (Property TypeNode)}
    {additional : Option TypeNode} (h : n.shape = .object properties additional) :
    marks (some n) = properties.map fun p => (p.name, p.optional) := by
  obtain ⟨text, nullable, shape⟩ := n
  cases h
  unfold marks mapValues memberEntries
  rw [List.map_map]
  rfl

theorem marks_other {n : TypeNode}
    (h : ∀ properties additional, n.shape ≠ .object properties additional) :
    marks (some n) = [] := by
  obtain ⟨text, nullable, shape⟩ := n
  cases shape with
  | object properties additional => exact absurd rfl (h properties additional)
  | _ => rfl

variable {resolve resolve' : Text → Option TypeNode}

theorem properties_takeOver (c : Collected) (n : Option TypeNode) :
    (c.takeOver n).properties = c.properties.putAll (memberEntries n) := by
  cases n with
  | none => rfl
  | some n =>
    obtain ⟨text, nullable, shape⟩ := n
    cases shape <;> rfl

theorem properties_inherited (parents : List Text) (c : Collected) :
    (parents.foldl (fun c parent => c.takeOver (resolve parent)) c).properties =
      c.properties.putAll (parents.flatMap fun parent => memberEntries (resolve parent)) := by
  induction parents generalizing c with
  | nil => rfl
  | cons parent parents ih =>
    rw [List.foldl_cons, ih, properties_takeOver, Fields.putAll_putAll, List.flatMap_cons]

/-- The members that an interface declares itself, each under its name. -/
def ownEntries (resolve : Text → Option TypeNode) (members : List Member) :
    Fields (Property TypeNode) :=
  members.map fun m =>
    (m.name, ⟨m.name, expandNode resolve .insideProps (.parse m.type), m.optional⟩)

/-- Fields under the names of their values are the values with their names. -/
theorem map_values_of_keyed {fs : Fields (Property TypeNode)} (h : ∀ f ∈ fs, f.2.name = f.1) :
    fs.values.map (fun p => (p.name, p)) = fs := by
  unfold Fields.values
  rw [List.map_map]
  refine (List.map_congr_left fun f hf => ?_).trans (List.map_id fs)
  exact Prod.ext (h f hf) rfl

theorem keyed_memberEntries (n : Option TypeNode) : ∀ f ∈ memberEntries n, f.2.name = f.1 := by
  intro f hf
  unfold memberEntries at hf
  split at hf
  · obtain ⟨p, -, rfl⟩ := List.mem_map.mp hf
    rfl
  · cases hf

/-- **The members of an interface** are those of its parents in order, then its own; a later one of
a name takes the place of the earlier one. -/
theorem memberEntries_interfaceNode (members : List Member) (parents : List Text) :
    memberEntries (some (interfaceNode resolve members parents)) =
      ofList ((parents.flatMap fun parent => memberEntries (resolve parent)) ++
        ownEntries resolve members) := by
  have hkeyed : ∀ f ∈ ofList ((parents.flatMap fun parent => memberEntries (resolve parent)) ++
      ownEntries resolve members), f.2.name = f.1 := by
    refine Fields.forall_mem_putAll (by simp) fun e he => ?_
    rcases List.mem_append.mp he with he | he
    · obtain ⟨parent, -, he⟩ := List.mem_flatMap.mp he
      exact keyed_memberEntries _ e he
    · obtain ⟨m, -, rfl⟩ := List.mem_map.mp he
      rfl
  have hproperties : ((parents.foldl (fun c parent => c.takeOver (resolve parent))
      (⟨[], none⟩ : Collected)).properties.putAll (ownEntries resolve members)) =
      ofList ((parents.flatMap fun parent => memberEntries (resolve parent)) ++
        ownEntries resolve members) := by
    rw [properties_inherited, Fields.putAll_putAll]
    rfl
  rw [← map_values_of_keyed hkeyed, ← hproperties]
  rfl

/-! ## The members of a declaration -/

end Expansion

/-- The types that a declaration takes members from: the parents of an interface, or all that an
alias names. -/
def LocalType.sources : LocalType → List Text
  | .interface _ parents => parents
  | .typeAlias value =>
    match (TypeNode.parse (Expansion.aliasText value)).shape with
    | .verbatim raw => if isBareName raw then [trim raw] else []
    | _ => []

/-- The members that a declaration gives itself, each with its mark. -/
def LocalType.own : LocalType → Fields Bool
  | .interface members _ => members.map fun m => (m.name, m.optional)
  | .typeAlias value =>
    match (TypeNode.parse (Expansion.aliasText value)).shape with
    | .object properties _ => properties.map fun p => (p.name, p.optional)
    | _ => []

/-- The members of a declaration, where `inherited` tells those of the types that it takes members
from. An interface writes each name once. -/
def LocalType.marks (inherited : Text → Fields Bool) (type : LocalType) : Fields Bool :=
  match type with
  | .interface _ _ => Fields.ofList (type.sources.flatMap inherited ++ type.own)
  | .typeAlias _ => type.sources.flatMap inherited ++ type.own

/-- Only the types that a declaration takes members from count. -/
theorem LocalType.marks_congr {type : LocalType} {f g : Text → Fields Bool}
    (h : ∀ p ∈ type.sources, f p = g p) : type.marks f = type.marks g := by
  unfold LocalType.marks
  rw [List.flatMap_congr h]

/-- The last mark under a name counts: an own one, or one of the types that members come from. -/
theorem LocalType.last?_marks (type : LocalType) (f : Text → Fields Bool) (k : Text) :
    Fields.last? (type.marks f) k = Fields.last? (type.sources.flatMap f ++ type.own) k := by
  cases type with
  | interface members parents => exact Fields.last?_ofList _ k
  | typeAlias value => rfl

/-- **A member of a declaration** is its own or one that it takes over. -/
theorem LocalType.mem_marks {type : LocalType} {f : Text → Fields Bool} {x : Text} :
    x ∈ Fields.names (type.marks f) ↔
      x ∈ Fields.names type.own ∨ ∃ p ∈ type.sources, x ∈ Fields.names (f p) := by
  have hall : x ∈ Fields.names (type.sources.flatMap f ++ type.own) ↔
      x ∈ Fields.names type.own ∨ ∃ p ∈ type.sources, x ∈ Fields.names (f p) := by
    unfold Fields.names
    rw [List.map_append, List.map_flatMap, List.mem_append, List.mem_flatMap]
    exact Or.comm
  cases type with
  | interface members parents =>
    unfold LocalType.marks
    rw [Fields.names_ofList, List.mem_eraseDups]
    exact hall
  | typeAlias value => exact hall

namespace Expansion

open Fields (mapValues names ofList)

variable {resolve : Text → Option TypeNode}

theorem marks_interfaceNode (members : List Member) (parents : List Text) :
    marks (some (interfaceNode resolve members parents)) =
      (LocalType.interface members parents).marks fun p => marks (resolve p) := by
  unfold marks
  rw [memberEntries_interfaceNode]
  unfold ofList
  rw [Fields.mapValues_putAll]
  show ofList (mapValues _ _) = ofList _
  unfold mapValues ownEntries
  rw [List.map_append, List.map_flatMap, List.map_map]
  rfl

/-- The members of an expanded type: a name gives those of the type it stands for. -/
theorem marks_expandNode (n : TypeNode) :
    marks (some (expandNode resolve .insideProps n)) =
      match n.shape with
      | .object properties _ => properties.map fun p => (p.name, p.optional)
      | .verbatim raw => if isBareName raw then marks (resolve (trim raw)) else []
      | _ => [] := by
  rcases expandNode_cases resolve .insideProps n with
    ⟨raw, hs, ⟨he, hnone⟩ | ⟨-, m, hm, he⟩⟩ | ⟨props, hs, he⟩ | ⟨hv, hc, he⟩
  · have hempty : marks (some n) = [] :=
      marks_other fun properties additional h => by cases hs.symm.trans h
    have hn := hnone rfl
    unfold named? at hn
    rw [he, hs, hempty]
    by_cases hb : isBareName raw = true
    · rw [if_pos hb] at hn
      simp only [if_pos hb, hn]
      rfl
    · simp only [if_neg hb]
  · unfold named? at hm
    rw [he, hs]
    by_cases hb : isBareName raw = true
    · rw [if_pos hb] at hm
      simp only [if_pos hb, hm]
      unfold marks
      split
      · rw [memberEntries_of_shape (n := m.asNullable) (m := m) rfl]
      · rfl
    · rw [if_neg hb] at hm
      cases hm
  · rw [he, hs]
    rfl
  · rw [he]
    cases hs : n.shape with
    | object properties additional =>
      rw [marks_object rfl]
      simp only [List.map_map]
      rfl
    | verbatim raw => exact absurd hs (hv raw)
    | component props => exact absurd hs (hc props)
    | _ => rfl

theorem marks_localNode (type : LocalType) :
    marks (some (localNode resolve type)) = type.marks fun p => marks (resolve p) := by
  cases type with
  | interface members parents => exact marks_interfaceNode members parents
  | typeAlias value =>
    unfold localNode
    rw [marks_expandNode]
    cases hs : (TypeNode.parse (aliasText value)).shape with
    | verbatim raw =>
      by_cases hb : isBareName raw = true
      · simp [LocalType.marks, LocalType.sources, LocalType.own, hs, hb]
      · simp [LocalType.marks, LocalType.sources, LocalType.own, hs, hb]
    | _ => simp [LocalType.marks, LocalType.sources, LocalType.own, hs]

variable {types : List (Text × LocalType)}

/-- **The members of a local type.** A name that is being expanded has none. -/
theorem marks_resolveIn (types : List (Text × LocalType)) (expanding : List Text) (n : Text) :
    marks (resolveIn types expanding n) =
      match types.lookup n with
      | none => []
      | some type =>
        if expanding.contains n then []
        else type.marks fun p => marks (resolveIn types (n :: expanding) p) := by
  rw [resolveIn_eq]
  cases types.lookup n with
  | none => rfl
  | some type =>
    simp only
    split
    · rfl
    · exact marks_localNode type

/-! ## Ancestors -/

/-- The declaration that counts for `n` takes the members of `p`. -/
def Inherits (types : List (Text × LocalType)) (n p : Text) : Prop :=
  ∃ type, types.lookup n = some type ∧ p ∈ type.sources

/-- The declaration that counts for `p` gives the member `x` itself. -/
def Declares (types : List (Text × LocalType)) (p x : Text) : Prop :=
  ∃ type, types.lookup p = some type ∧ x ∈ names type.own

/-- The name `n` takes the members of `p`, which is not being expanded. -/
def InheritsPast (types : List (Text × LocalType)) (expanding : List Text) (n p : Text) : Prop :=
  Inherits types n p ∧ p ∉ expanding

/-- **Only the ancestors that are being expanded count** for the members of a local type. -/
theorem marks_congr (call : List Text × Text) :
    ∀ expanding, (∀ p, Relation.ReflTransGen (Inherits types) call.2 p →
        (p ∈ call.1 ↔ p ∈ expanding)) →
      marks (resolveIn types call.1 call.2) = marks (resolveIn types expanding call.2) := by
  induction call using (wellFounded_opens types).induction with
  | h call ih =>
    obtain ⟨expanding, n⟩ := call
    intro expanding' hsame
    simp only at hsame ⊢
    have hn : expanding.contains n = expanding'.contains n := by
      rw [Bool.eq_iff_iff, List.contains_iff_mem, List.contains_iff_mem]
      exact hsame n .refl
    rw [marks_resolveIn, marks_resolveIn, ← hn]
    cases hl : types.lookup n with
    | none => rfl
    | some type =>
      simp only
      by_cases hin : expanding.contains n = true
      · rw [if_pos hin, if_pos hin]
      · rw [if_neg hin, if_neg hin]
        refine LocalType.marks_congr fun p hp => ?_
        have hopens : Opens types (expanding, n) (n :: expanding, p) :=
          ⟨by simp only [hl, Option.isSome_some], by simpa using hin, rfl⟩
        refine ih _ hopens (n :: expanding') fun q hq => ?_
        rw [List.mem_cons, List.mem_cons, hsame q (.head ⟨type, hl, hp⟩ hq)]

/-- A path from `n` ends at `n`, or goes on from `n` without coming back to it. -/
theorem last_visit {r : Text → Text → Prop} {n p : Text} (h : Relation.ReflTransGen r n p) :
    p = n ∨ ∃ m, r n m ∧ m ≠ n ∧ Relation.ReflTransGen (fun a b => r a b ∧ b ≠ n) m p := by
  induction h with
  | refl => exact Or.inl rfl
  | @tail b c _ hstep ih =>
    by_cases hc : c = n
    · exact Or.inl hc
    · rcases ih with rfl | ⟨m, hm, hne, hpath⟩
      · exact Or.inr ⟨c, hstep, hc, .refl⟩
      · exact Or.inr ⟨m, hm, hne, hpath.tail ⟨hstep, hc⟩⟩

/-- **A member of a local type** is declared by an ancestor that is reached past the names being
expanded. -/
theorem mem_memberNames_iff (call : List Text × Text) :
    ∀ x, x ∈ memberNames (resolveIn types call.1 call.2) ↔ call.2 ∉ call.1 ∧
      ∃ p, Relation.ReflTransGen (InheritsPast types call.1) call.2 p ∧ Declares types p x := by
  induction call using (wellFounded_opens types).induction with
  | h call ih =>
    obtain ⟨expanding, n⟩ := call
    intro x
    simp only
    rw [← names_marks, marks_resolveIn]
    cases hl : types.lookup n with
    | none =>
      refine iff_of_false List.not_mem_nil ?_
      rintro ⟨-, p, hpath, type, hp, -⟩
      rcases Relation.ReflTransGen.cases_head hpath with rfl | ⟨m, ⟨⟨type', hm, -⟩, -⟩, -⟩
      · cases hl.symm.trans hp
      · cases hl.symm.trans hm
    | some type =>
      simp only
      by_cases hin : expanding.contains n = true
      · rw [if_pos hin]
        exact iff_of_false List.not_mem_nil fun h => h.1 (List.contains_iff_mem.mp hin)
      have hfree : n ∉ expanding := fun h => hin (List.contains_iff_mem.mpr h)
      have hopens : ∀ p, Opens types (expanding, n) (n :: expanding, p) := fun p =>
        ⟨by simp only [hl, Option.isSome_some], by simpa using hin, rfl⟩
      rw [if_neg hin, LocalType.mem_marks]
      simp only [names_marks]
      constructor
      · rintro (hown | ⟨p, hp, hx⟩)
        · exact ⟨hfree, n, .refl, type, hl, hown⟩
        · obtain ⟨hpfree, q, hpath, hq⟩ := (ih _ (hopens p) x).mp hx
          obtain ⟨hne, hout⟩ : p ≠ n ∧ p ∉ expanding := by simpa using hpfree
          have hmono : Relation.ReflTransGen (InheritsPast types expanding) p q :=
            hpath.lift id fun a b hab => ⟨hab.1, fun hb => hab.2 (List.mem_cons_of_mem _ hb)⟩
          exact ⟨hfree, q, .head ⟨⟨type, hl, hp⟩, hout⟩ hmono, hq⟩
      · rintro ⟨-, p, hpath, type', hp, hx⟩
        -- the last time that the way passes `n` it goes on to a parent of `n`
        rcases last_visit hpath with rfl | ⟨m, ⟨⟨type'', hm, hinh⟩, hout⟩, hne, hpath⟩
        · cases hl.symm.trans hp
          exact Or.inl hx
        · cases hl.symm.trans hm
          refine Or.inr ⟨m, hinh, (ih _ (hopens m) x).mpr ⟨by simp [hne, hout], p, ?_, type', hp, hx⟩⟩
          exact hpath.lift id fun a b hab => ⟨hab.1.1, by simp [hab.2, hab.1.2]⟩

end Expansion

end ExportSchema
