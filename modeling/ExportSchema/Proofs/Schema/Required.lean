import ExportSchema.Proofs.Expansion.Inheritance
import ExportSchema.Proofs.Schema.FieldNames

/-!
# Required members

The field `properties` keeps one schema for each name, that of the last member of the name. The
field `required` lists the name of every member that is not optional. The two are in step iff no
member that is not optional comes before another of its name.

* `Json.Inside`: a value stands somewhere in a JSON value.
* `Supplies`: the member whose schema stands under a name.
* `InStep`: a list of names that matches the members.

Results:
* `exists_node_of_inside`: an object with a list of required names is the fragment of an object type.
* `get?_members_iff`: the schema under a name is that of the member that supplies it.
* `inStep_requiredNames_iff`: when the list of required names matches the members.
* `inStep_interfaceNode`: the members of an interface that is inlined have distinct names.
* `required_in_step_iff`: the lists of required names in the description of any text.
-/

namespace ExportSchema

namespace Json

/-! ## Values inside a JSON value -/

/-- The value `i` stands somewhere in a JSON value, or is that value. -/
inductive Inside (i : Json) : Json → Prop
  | self : Inside i i
  | item {items : List Json} {j : Json} (hj : j ∈ items) (h : Inside i j) : Inside i (.arr items)
  | field {fields : Fields Json} {f : Text × Json} (hf : f ∈ fields) (h : Inside i f.2) :
      Inside i (.obj fields)

/-- An object with a list of required names. -/
def ListsRequired (i : Json) : Prop :=
  ∃ (fields : Fields Json) (required : List Json),
    i = .obj fields ∧ fields.get? "required".toList = some (.arr required)

theorem not_listsRequired {fields : Fields Json} (h : fields.get? "required".toList = none) :
    ¬ ListsRequired (.obj fields) := by
  rintro ⟨_, _, ⟨⟩, hsome⟩
  cases h.symm.trans hsome

end Json

namespace Schema

open Json (Inside ListsRequired not_listsRequired)
open TypeNode (Within)

/-! ## Where the fragments inside a fragment come from -/

/-- Every object with a list of required names in the value stands in the fragment of one of the
nodes. -/
def Stems (ns : List TypeNode) (j : Json) : Prop :=
  ∀ i, Inside i j → ListsRequired i → ∃ n ∈ ns, ∃ k, fragment n = .ok k ∧ Inside i k

/-- The same for the values of fields. -/
def FieldsStem (ns : List TypeNode) (fs : Fields Json) : Prop := ∀ f ∈ fs, Stems ns f.2

section Stems

variable {ns : List TypeNode}

@[simp] theorem fieldsStem_nil : FieldsStem ns [] := List.forall_mem_nil _

@[simp] theorem fieldsStem_cons {f : Text × Json} {fs : Fields Json} :
    FieldsStem ns (f :: fs) ↔ Stems ns f.2 ∧ FieldsStem ns fs := List.forall_mem_cons

@[simp] theorem fieldsStem_append {as bs : Fields Json} :
    FieldsStem ns (as ++ bs) ↔ FieldsStem ns as ∧ FieldsStem ns bs := List.forall_mem_append

theorem stems_of_leaf {j : Json} (harr : ∀ items, j ≠ .arr items) (hobj : ∀ fields, j ≠ .obj fields) :
    Stems ns j := by
  rintro i hi ⟨fields, required, rfl, -⟩
  cases hi with
  | self => exact absurd rfl (hobj fields)
  | item => exact absurd rfl (harr _)
  | field => exact absurd rfl (hobj _)

@[simp] theorem stems_str (s : Text) : Stems ns (.str s) :=
  stems_of_leaf (fun _ h => by cases h) (fun _ h => by cases h)

@[simp] theorem stems_bool (b : Bool) : Stems ns (.bool b) :=
  stems_of_leaf (fun _ h => by cases h) (fun _ h => by cases h)

@[simp] theorem stems_int (n : Int) : Stems ns (.int n) :=
  stems_of_leaf (fun _ h => by cases h) (fun _ h => by cases h)

@[simp] theorem stems_float (x : Binary64) : Stems ns (.float x) :=
  stems_of_leaf (fun _ h => by cases h) (fun _ h => by cases h)

@[simp] theorem stems_typeEntry (type : String) : Stems ns (typeEntry type).2 := stems_str _

theorem stems_arr {items : List Json} (h : ∀ j ∈ items, Stems ns j) : Stems ns (.arr items) := by
  intro i hi hl
  cases hi with
  | self =>
    obtain ⟨fields, required, ⟨⟩, -⟩ := hl
  | item hj hi => exact h _ hj i hi hl

theorem stems_obj {fields : Fields Json} (hl : ¬ ListsRequired (.obj fields))
    (h : FieldsStem ns fields) : Stems ns (.obj fields) := by
  intro i hi hi'
  cases hi with
  | self => exact absurd hi' hl
  | field hf hi => exact h _ hf i hi hi'

theorem stems_fragment {n : TypeNode} (hn : n ∈ ns) {j : Json} (h : fragment n = .ok j) :
    Stems ns j :=
  fun _ hi _ => ⟨n, hn, j, h, hi⟩

theorem Stems.mono {ns' : List TypeNode} {j : Json} (h : Stems ns j) (hns : ∀ n ∈ ns, n ∈ ns') :
    Stems ns' j := by
  intro i hi hl
  obtain ⟨n, hn, k, hk, hik⟩ := h i hi hl
  exact ⟨n, hns n hn, k, hk, hik⟩

theorem FieldsStem.mono {ns' : List TypeNode} {fs : Fields Json} (h : FieldsStem ns fs)
    (hns : ∀ n ∈ ns, n ∈ ns') : FieldsStem ns' fs :=
  fun f hf => (h f hf).mono hns

end Stems

/-! ## Fragments of lists -/

theorem exists_of_mem_right {α β : Type} {R : α → β → Prop} {as : List α} {bs : List β}
    (h : List.Forall₂ R as bs) : ∀ b ∈ bs, ∃ a ∈ as, R a b := by
  induction h with
  | nil => exact List.forall_mem_nil _
  | cons hab _ ih =>
    refine List.forall_mem_cons.mpr ⟨⟨_, List.mem_cons_self, hab⟩, fun b hb => ?_⟩
    obtain ⟨a, ha, hr⟩ := ih b hb
    exact ⟨a, List.mem_cons_of_mem _ ha, hr⟩

theorem forall₂_fragments {ns : List TypeNode} {js : List Json} (h : fragments ns = .ok js) :
    List.Forall₂ (fun n j => fragment n = .ok j) ns js := by
  induction ns generalizing js with
  | nil =>
    cases h
    exact .nil
  | cons n ns ih =>
    rw [fragments] at h
    obtain ⟨j, hj, h⟩ := Module.exists_ok_of_bind h
    obtain ⟨js', hjs, h⟩ := Module.exists_ok_of_bind h
    cases h
    exact .cons hj (ih hjs)

theorem forall₂_propertyFragments {ps : List (Property TypeNode)} {fs : Fields Json}
    (h : propertyFragments ps = .ok fs) :
    List.Forall₂ (fun p f => f.1 = p.name ∧ fragment p.type = .ok f.2) ps fs := by
  induction ps generalizing fs with
  | nil =>
    cases h
    exact .nil
  | cons p ps ih =>
    rw [propertyFragments] at h
    obtain ⟨j, hj, h⟩ := Module.exists_ok_of_bind h
    obtain ⟨fs', hfs, h⟩ := Module.exists_ok_of_bind h
    cases h
    exact .cons ⟨rfl, hj⟩ (ih hfs)

theorem forall₂_paramFragments {ps : List (Param TypeNode)} {js : List Json}
    (h : paramFragments ps = .ok js) :
    List.Forall₂ (fun p j => ∃ k, fragment p.type = .ok k ∧
      j = .ofFields [("name", .str p.name), ("schema", k)]) ps js := by
  induction ps generalizing js with
  | nil =>
    cases h
    exact .nil
  | cons p ps ih =>
    rw [paramFragments] at h
    obtain ⟨j, hj, h⟩ := Module.exists_ok_of_bind h
    obtain ⟨js', hjs, h⟩ := Module.exists_ok_of_bind h
    cases h
    exact .cons ⟨j, hj, rfl⟩ (ih hjs)

/-! ## Fragments of constructs -/

theorem stems_literalEntries {ns : List TypeNode} (v : LiteralValue) :
    FieldsStem ns (literalEntries v) := by
  cases v with
  | float x =>
    rw [literalEntries]
    split <;> simp
  | _ => simp [literalEntries]

theorem stems_primitiveEntries {ns : List TypeNode} {name : Text} {fs : Fields Json}
    (h : primitiveEntries? name = some fs) : FieldsStem ns fs := by
  have hempty : Stems ns (.obj []) := stems_obj (not_listsRequired rfl) fieldsStem_nil
  unfold primitiveEntries? at h
  repeat' split at h
  all_goals cases h
  all_goals simp [hempty]

/-- A member may have any name, but its fragment is no list. -/
theorem stems_members {ps : List (Property TypeNode)} {fs : Fields Json} {ns : List TypeNode}
    (h : propertyFragments ps = .ok fs) (hns : ∀ p ∈ ps, p.type ∈ ns) :
    Stems ns (.obj (Fields.ofList fs)) := by
  have hmember : ∀ f ∈ Fields.ofList fs, ∃ p ∈ ps, fragment p.type = .ok f.2 := by
    refine Fields.forall_mem_putAll (List.forall_mem_nil _) fun f hf => ?_
    obtain ⟨p, hp, -, hfragment⟩ := exists_of_mem_right (forall₂_propertyFragments h) f hf
    exact ⟨p, hp, hfragment⟩
  refine stems_obj ?_ fun f hf => ?_
  · rintro ⟨_, required, ⟨⟩, hget⟩
    obtain ⟨p, -, hfragment⟩ := hmember _ (Fields.mem_of_lookup hget)
    obtain ⟨_, -, hobj⟩ := fragment_eq_ok hfragment
    cases hobj
  · obtain ⟨p, hp, hfragment⟩ := hmember f hf
    exact stems_fragment (hns p hp) hfragment

theorem stems_requiredEntry {ns : List TypeNode} (ps : List (Property TypeNode)) :
    FieldsStem ns (requiredEntry ps) := by
  have hnames (names : List Text) : Stems ns (.arr (names.map .str)) := stems_arr fun j hj => by
    obtain ⟨name, -, rfl⟩ := List.mem_map.mp hj
    exact stems_str name
  unfold requiredEntry
  split
  · exact fieldsStem_nil
  · simp only [fieldsStem_cons, entry_snd, hnames, fieldsStem_nil, and_self]

theorem stems_nullableEntry {ns : List TypeNode} (nullable : Bool) :
    FieldsStem ns (nullableEntry nullable) := by
  cases nullable <;> simp [nullableEntry]

theorem stems_additionalEntry {a : Option TypeNode} {fs : Fields Json}
    (h : additionalEntry a = .ok fs) : FieldsStem a.toList fs := by
  cases a with
  | none =>
    cases h
    exact fieldsStem_nil
  | some n =>
    rw [additionalEntry] at h
    obtain ⟨j, hj, h⟩ := Module.exists_ok_of_bind h
    cases h
    simp [stems_fragment List.mem_cons_self hj]

theorem stems_params {params : List (Param TypeNode)} {js : List Json}
    (h : paramFragments params = .ok js) : Stems (params.map (·.type)) (.arr js) := by
  refine stems_arr fun j hj => ?_
  obtain ⟨p, hp, k, hk, rfl⟩ := exists_of_mem_right (forall₂_paramFragments h) j hj
  refine stems_obj (not_listsRequired rfl) ?_
  simp [stems_fragment (List.mem_map_of_mem hp) hk]

/-- A component shows the members of its props. -/
theorem stems_props {text : Text} {nullable : Bool} {ps : List (Property TypeNode)}
    {a : Option TypeNode} {members more : Fields Json} (hmembers : propertyFragments ps = .ok members)
    (hmore : additionalEntry a = .ok more) :
    Stems [⟨text, nullable, .object ps a⟩] (.obj (Fields.ofList members)) := by
  have hprops : fragment ⟨text, nullable, .object ps a⟩ = .ok (.obj (typeEntry "object" ::
      entry "properties" (.obj (Fields.ofList members)) ::
        (requiredEntry ps ++ more) ++ nullableEntry nullable)) := by
    rw [fragment, shapeEntries, hmembers, hmore]
    rfl
  exact fun i hi _ => ⟨_, List.mem_singleton_self _, _, hprops, .field (.tail _ (.head _)) hi⟩

/-- **The objects inside a fragment** stem from the components of the type. -/
theorem stems_shapeEntries {text : Text} {shape : Shape TypeNode} {fs : Fields Json}
    (h : shapeEntries text shape = .ok fs) : FieldsStem shape.parts fs := by
  cases writes_of_shapeEntries h with
  | primitive h => exact stems_primitiveEntries h
  | literal => exact stems_literalEntries _
  | verbatim => simp
  | array hj => simp [stems_fragment List.mem_cons_self hj, Shape.parts]
  | @object ps a members more hmembers hmore =>
    have hproperties : Stems (ps.map (·.type) ++ a.toList) (.obj (Fields.ofList members)) :=
      stems_members hmembers fun p hp => List.mem_append_left _ (List.mem_map_of_mem hp)
    have hadditional : FieldsStem (ps.map (·.type) ++ a.toList) more :=
      (stems_additionalEntry hmore).mono fun n hn => List.mem_append_right _ hn
    simp [hproperties, hadditional, stems_requiredEntry, Shape.parts]
  | @union members js hjs =>
    have hitems : Stems members (.arr js) := stems_arr fun j hj => by
      obtain ⟨n, hn, hfragment⟩ := exists_of_mem_right (forall₂_fragments hjs) j hj
      exact stems_fragment hn hfragment
    simp [hitems, Shape.parts]
  | @function params returns js j hjs hj =>
    have hparameters : Stems (params.map (·.type) ++ [returns]) (.arr js) :=
      (stems_params hjs).mono fun n hn => List.mem_append_left _ hn
    have hreturns : Stems (params.map (·.type) ++ [returns]) j :=
      stems_fragment (List.mem_append_right _ (List.mem_singleton_self _)) hj
    simp [hparameters, hreturns, Shape.parts]
  | component hmembers hmore => simp [stems_props hmembers hmore, Shape.parts]
  | named => simp

theorem shape_of_listsRequired {n : TypeNode} {j : Json} (h : fragment n = .ok j)
    (hl : ListsRequired j) : ∃ ps a, n.shape = .object ps a := by
  obtain ⟨fields, required, rfl, hget⟩ := hl
  by_contra hshape
  have hother : "required".toList ∉ fieldNames n.shape := by
    cases hs : n.shape with
    | object ps a => exact absurd ⟨ps, a, hs⟩ hshape
    | _ => simp [fieldNames]
  cases hget.symm.trans (get?_eq_none h hother (by decide))

/-- **An object with a list of required names** is the fragment of an object type inside the node. -/
theorem exists_node_of_inside {n : TypeNode} {i j : Json} (h : fragment n = .ok j) (hi : Inside i j)
    (hl : ListsRequired i) : ∃ m, Within m n ∧ fragment m = .ok i := by
  induction n using TypeNode.induction_parts generalizing i j with
  | step n ih =>
    obtain ⟨fs, hfs, rfl⟩ := fragment_eq_ok h
    cases hi with
    | self => exact ⟨n, .self, h⟩
    | field hf hi =>
      rcases List.mem_append.mp hf with hf | hf
      · obtain ⟨p, hp, k, hk, hik⟩ := stems_shapeEntries hfs _ hf i hi hl
        obtain ⟨m, hm, hfragment⟩ := ih p hp hk hik hl
        exact ⟨m, .part hp hm, hfragment⟩
      · -- the mark holds no object
        have hleaf : FieldsStem [] (nullableEntry n.nullable) := stems_nullableEntry _
        obtain ⟨p, ⟨⟩, -⟩ := hleaf _ hf i hi hl

/-! ## The member behind a schema -/

/-- The member `p` supplies the schema of a name: it is the last one of the name. -/
def Supplies (ps : List (Property TypeNode)) (key : Text) (p : Property TypeNode) : Prop :=
  ∃ before after, ps = before ++ p :: after ∧ p.name = key ∧ ∀ q ∈ after, q.name ≠ key

theorem supplies_cons {p r : Property TypeNode} {ps : List (Property TypeNode)} {key : Text} :
    Supplies (p :: ps) key r ↔
      Supplies ps key r ∨ (r = p ∧ p.name = key ∧ ∀ q ∈ ps, q.name ≠ key) := by
  constructor
  · rintro ⟨before, after, heq, hname, hafter⟩
    rcases List.cons_eq_append_iff.mp heq with ⟨rfl, hr⟩ | ⟨before', rfl, rfl⟩
    · cases hr
      exact Or.inr ⟨rfl, hname, hafter⟩
    · exact Or.inl ⟨before', after, rfl, hname, hafter⟩
  · rintro (⟨before, after, rfl, hname, hafter⟩ | ⟨rfl, hname, hafter⟩)
    · exact ⟨p :: before, after, rfl, hname, hafter⟩
    · exact ⟨[], ps, rfl, hname, hafter⟩

theorem Supplies.mem {ps : List (Property TypeNode)} {key : Text} {p : Property TypeNode}
    (h : Supplies ps key p) : p ∈ ps ∧ p.name = key := by
  obtain ⟨before, after, rfl, hname, -⟩ := h
  exact ⟨List.mem_append_right _ List.mem_cons_self, hname⟩

section Supplies

variable {p r : Property TypeNode} {ps : List (Property TypeNode)} {key : Text}

theorem supplies_cons_of_later (h : ∃ q ∈ ps, q.name = key) :
    Supplies (p :: ps) key r ↔ Supplies ps key r :=
  supplies_cons.trans (or_iff_left fun hr => h.elim fun q hq => hr.2.2 q hq.1 hq.2)

theorem supplies_cons_of_last (h : ¬ ∃ q ∈ ps, q.name = key) :
    Supplies (p :: ps) key r ↔ r = p ∧ p.name = key := by
  have hnone : ¬ Supplies ps key r := fun hr => h ⟨r, hr.mem⟩
  have hafter : ∀ q ∈ ps, q.name ≠ key := fun q hq hkey => h ⟨q, hq, hkey⟩
  rw [supplies_cons, or_iff_right hnone, and_iff_left hafter]

theorem exists_supplies (h : ∃ p ∈ ps, p.name = key) : ∃ p, Supplies ps key p := by
  induction ps with
  | nil =>
    obtain ⟨p, ⟨⟩, -⟩ := h
  | cons q ps ih =>
    by_cases hlater : ∃ p ∈ ps, p.name = key
    · obtain ⟨p, hp⟩ := ih hlater
      exact ⟨p, (supplies_cons_of_later hlater).mpr hp⟩
    · obtain ⟨p, hp, hname⟩ := h
      rcases List.mem_cons.mp hp with rfl | hp
      · exact ⟨p, (supplies_cons_of_last hlater).mpr ⟨rfl, hname⟩⟩
      · exact absurd ⟨p, hp, hname⟩ hlater

end Supplies

theorem names_of_propertyFragments {ps : List (Property TypeNode)} {fs : Fields Json}
    (h : propertyFragments ps = .ok fs) : fs.names = ps.map (·.name) := by
  unfold Fields.names
  have hall := forall₂_propertyFragments h
  clear h
  induction hall with
  | nil => rfl
  | cons hpf _ ih => rw [List.map_cons, List.map_cons, hpf.1, ih]

/-- **The schema under a name** is the fragment of the member that supplies it. -/
theorem get?_members_iff {ps : List (Property TypeNode)} {fs : Fields Json}
    (h : propertyFragments ps = .ok fs) (key : Text) (schema : Json) :
    Fields.get? (Fields.ofList fs) key = some schema ↔
      ∃ p, Supplies ps key p ∧ fragment p.type = .ok schema := by
  show (Fields.ofList fs).lookup key = _ ↔ _
  rw [Fields.lookup_ofList]
  have hall := forall₂_propertyFragments h
  clear h
  induction hall with
  | nil =>
    constructor
    · intro h
      cases h
    · rintro ⟨p, hp, -⟩
      cases hp.mem.1
  | @cons p f ps fs hpf hrest ih =>
    obtain ⟨name, v⟩ := f
    obtain ⟨rfl, hv⟩ : name = p.name ∧ fragment p.type = .ok v := hpf
    have hcons : Fields.last? ((p.name, v) :: fs) key =
        (Fields.last? fs key).or (Fields.last? [(p.name, v)] key) :=
      Fields.last?_append [(p.name, v)] fs key
    rw [hcons]
    by_cases hlater : ∃ q ∈ ps, q.name = key
    · obtain ⟨w, hw⟩ : ∃ w, Fields.last? fs key = some w := by
        obtain ⟨q, hq, hqkey⟩ := hlater
        obtain ⟨⟨name, v⟩, hg, hname, -⟩ := exists_of_mem_right hrest.flip q hq
        obtain rfl : name = key := hname.trans hqkey
        exact Fields.exists_last? hg
      simp only [supplies_cons_of_later hlater, ← ih, hw, Option.some_or]
    · have hnone : Fields.last? fs key = none := by
        refine Option.eq_none_iff_forall_ne_some.mpr fun w hw => hlater ?_
        obtain ⟨q, hq, hname, -⟩ := exists_of_mem_right hrest _ (Fields.mem_of_last? hw)
        exact ⟨q, hq, hname.symm⟩
      rw [hnone, Option.none_or]
      by_cases hkey : key = p.name
      · subst hkey
        simp [Fields.last?, supplies_cons_of_last hlater, hv]
      · simp [Fields.last?, supplies_cons_of_last hlater, List.lookup_cons, beq_false_of_ne hkey,
          Ne.symm hkey]

/-! ## Required names -/

/-- A list of required names that matches the members: its entries are distinct, and a name is
listed iff the member that supplies its schema is not optional. -/
structure InStep (ps : List (Property TypeNode)) (listed : List Text) : Prop where
  distinct : listed.Nodup
  listed_iff : ∀ key p, Supplies ps key p → (key ∈ listed ↔ p.optional = false)

theorem mem_requiredNames {ps : List (Property TypeNode)} {key : Text} :
    key ∈ requiredNames ps ↔ ∃ p ∈ ps, p.optional = false ∧ p.name = key := by
  simp [requiredNames, and_assoc]

theorem requiredNames_cons (p : Property TypeNode) (ps : List (Property TypeNode)) :
    requiredNames (p :: ps) = if p.optional then requiredNames ps else p.name :: requiredNames ps := by
  cases h : p.optional <;> simp [requiredNames, h]

/-- An optional member in front of others changes nothing. -/
theorem inStep_cons_optional {p : Property TypeNode} {ps : List (Property TypeNode)}
    (hopt : p.optional = true) :
    InStep (p :: ps) (requiredNames (p :: ps)) ↔ InStep ps (requiredNames ps) := by
  rw [requiredNames_cons, if_pos hopt]
  constructor
  · rintro ⟨hdistinct, hlisted⟩
    exact ⟨hdistinct, fun key r hr => hlisted key r ((supplies_cons_of_later ⟨r, hr.mem⟩).mpr hr)⟩
  · rintro ⟨hdistinct, hlisted⟩
    refine ⟨hdistinct, fun key r hr => ?_⟩
    by_cases hlater : ∃ q ∈ ps, q.name = key
    · exact hlisted key r ((supplies_cons_of_later hlater).mp hr)
    · obtain ⟨rfl, -⟩ := (supplies_cons_of_last hlater).mp hr
      have hkey : key ∉ requiredNames ps := fun hk => by
        obtain ⟨q, hq, -, hname⟩ := mem_requiredNames.mp hk
        exact hlater ⟨q, hq, hname⟩
      exact iff_of_false hkey (by simp [hopt])

/-- A member that is not optional, in front of others, has to be the only one of its name. -/
theorem inStep_cons_required {p : Property TypeNode} {ps : List (Property TypeNode)}
    (hopt : p.optional = false) :
    InStep (p :: ps) (requiredNames (p :: ps)) ↔
      (∀ q ∈ ps, q.name ≠ p.name) ∧ InStep ps (requiredNames ps) := by
  rw [requiredNames_cons, if_neg (by simp [hopt])]
  constructor
  · rintro ⟨hdistinct, hlisted⟩
    obtain ⟨hnew, hdistinct⟩ := List.nodup_cons.mp hdistinct
    have honly : ∀ q ∈ ps, q.name ≠ p.name := by
      intro q hq hname
      -- the member that supplies the schema is listed, so it is a second entry of the name
      obtain ⟨r, hr⟩ := exists_supplies ⟨q, hq, hname⟩
      have hrequired := (hlisted _ r ((supplies_cons_of_later ⟨q, hq, hname⟩).mpr hr)).mp
        List.mem_cons_self
      exact hnew (mem_requiredNames.mpr ⟨r, hr.mem.1, hrequired, hr.mem.2⟩)
    refine ⟨honly, hdistinct, fun key r hr => ?_⟩
    have hkey : key ≠ p.name := fun h => honly r hr.mem.1 (hr.mem.2.trans h)
    rw [← hlisted key r ((supplies_cons_of_later ⟨r, hr.mem⟩).mpr hr), List.mem_cons,
      or_iff_right hkey]
  · rintro ⟨honly, hdistinct, hlisted⟩
    have hnew : p.name ∉ requiredNames ps := fun hk => by
      obtain ⟨q, hq, -, hname⟩ := mem_requiredNames.mp hk
      exact honly q hq hname
    refine ⟨List.nodup_cons.mpr ⟨hnew, hdistinct⟩, fun key r hr => ?_⟩
    by_cases hlater : ∃ q ∈ ps, q.name = key
    · have hkey : key ≠ p.name := fun h => hlater.elim fun q hq => honly q hq.1 (hq.2.trans h)
      rw [← hlisted key r ((supplies_cons_of_later hlater).mp hr), List.mem_cons, or_iff_right hkey]
    · obtain ⟨rfl, rfl⟩ := (supplies_cons_of_last hlater).mp hr
      exact iff_of_true List.mem_cons_self hopt

/-- **The list of required names matches the members** iff no member that is not optional comes
before another of its name. -/
theorem inStep_requiredNames_iff (ps : List (Property TypeNode)) :
    InStep ps (requiredNames ps) ↔ ps.Pairwise fun p q => p.name = q.name → p.optional = true := by
  induction ps with
  | nil => exact ⟨fun _ => .nil, fun _ => ⟨List.nodup_nil, fun key p hp => by cases hp.mem.1⟩⟩
  | cons p ps ih =>
    rw [List.pairwise_cons, ← ih]
    cases hopt : p.optional with
    | true => simp [inStep_cons_optional hopt]
    | false => simp [inStep_cons_required hopt, eq_comm]

/-- The fields of the fragment of an object type with required members. -/
theorem fields_of_object {n : TypeNode} {ps : List (Property TypeNode)} {a : Option TypeNode}
    (hshape : n.shape = .object ps a) {fields : Fields Json} (h : fragment n = .ok (.obj fields))
    {required : List Json} (hrequired : fields.get? "required".toList = some (.arr required)) :
    ∃ fs, propertyFragments ps = .ok fs ∧
      fields.get? "properties".toList = some (.obj (Fields.ofList fs)) ∧
      required = (requiredNames ps).map .str := by
  obtain ⟨text, nullable, shape⟩ := n
  cases hshape
  obtain ⟨fs, more, hfs, hmore, hobj⟩ := object_of_fragment h
  cases hobj
  refine ⟨fs, hfs, rfl, ?_⟩
  have htail : Fields.get? (requiredEntry ps ++ more ++ nullableEntry nullable) "required".toList =
      some (.arr required) := hrequired
  have hmark : Fields.get? (more ++ nullableEntry nullable) "required".toList = none := by
    cases a with
    | none =>
      cases hmore
      cases nullable <;> rfl
    | some n =>
      rw [additionalEntry] at hmore
      obtain ⟨j, -, hmore⟩ := Module.exists_ok_of_bind hmore
      cases hmore
      cases nullable <;> rfl
  unfold requiredEntry at htail
  split at htail
  · cases hmark.symm.trans htail
  · cases htail
    rfl

/-- **The members of an interface that is inlined** have distinct names, so its list of required
names always matches them. -/
theorem inStep_interfaceNode {resolve : Text → Option TypeNode} {members : List Member}
    {parents : List Text} {ps : List (Property TypeNode)} {a : Option TypeNode}
    (h : (Expansion.interfaceNode resolve members parents).shape = .object ps a) :
    InStep ps (requiredNames ps) := by
  have hentries : Expansion.memberEntries (some (Expansion.interfaceNode resolve members parents)) =
      ps.map fun p => (p.name, p) := by
    rw [Expansion.memberEntries_of_shape (m := .plain [] (.object ps a)) h]
    rfl
  have hnames : ps.map (·.name) = Fields.names (ps.map fun p => (p.name, p)) := by
    unfold Fields.names
    rw [List.map_map]
    rfl
  have hnodup : (ps.map (·.name)).Nodup := by
    rw [hnames, ← hentries, Expansion.memberEntries_interfaceNode]
    have hnil : (Fields.names ([] : Fields (Property TypeNode))).Nodup := List.nodup_nil
    exact Fields.nodup_names_putAll hnil _
  rw [inStep_requiredNames_iff]
  exact (List.pairwise_map.mp hnodup).imp fun hne heq => absurd heq hne

/-- **Lists of required names.** Any text has a description, whatever the declarations. In it, every
object with a list `required` is the fragment of an object type. The schema under a name of its
`properties` is that of the last member of the name, and every entry of the list is such a name.
The entries are distinct, and a name is listed iff the member that supplies its schema is not
optional, iff no member that is not optional comes before another of its name. -/
theorem required_in_step_iff (ds : List Declaration) (t : Text) :
    ∃ document, fragment (Expansion.expand ds t) = .ok document ∧
      ∀ (fields : Fields Json) (required : List Json), Inside (.obj fields) document →
        fields.get? "required".toList = some (.arr required) →
        (∃ m, Within m (Expansion.expand ds t) ∧ fragment m = .ok (.obj fields)) ∧
        ∀ m, fragment m = .ok (.obj fields) →
          ∃ (ps : List (Property TypeNode)) (additional : Option TypeNode) (schemas : Fields Json)
            (listed : List Text),
            m.shape = .object ps additional ∧
            fields.get? "properties".toList = some (.obj schemas) ∧
            required = listed.map .str ∧
            (∀ key schema, schemas.get? key = some schema ↔
              ∃ p, Supplies ps key p ∧ fragment p.type = .ok schema) ∧
            (∀ key ∈ listed, key ∈ schemas.names) ∧
            (InStep ps listed ↔ ps.Pairwise fun p q => p.name = q.name → p.optional = true) := by
  obtain ⟨document, hdocument, -⟩ := fragment_of_sound (Expansion.sound_expand ds t)
  refine ⟨document, hdocument, fun fields required hinside hrequired => ?_⟩
  have hl : ListsRequired (.obj fields) := ⟨fields, required, rfl, hrequired⟩
  refine ⟨exists_node_of_inside hdocument hinside hl, fun m hm => ?_⟩
  obtain ⟨ps, additional, hshape⟩ := shape_of_listsRequired hm hl
  obtain ⟨fs, hfs, hproperties, rfl⟩ := fields_of_object hshape hm hrequired
  refine ⟨ps, additional, Fields.ofList fs, requiredNames ps, hshape, hproperties, rfl,
    get?_members_iff hfs, fun key hkey => ?_, inStep_requiredNames_iff ps⟩
  obtain ⟨p, hp, -, rfl⟩ := mem_requiredNames.mp hkey
  rw [Fields.names_ofList, List.mem_eraseDups, names_of_propertyFragments hfs]
  exact List.mem_map_of_mem hp

/-- Inside an array and behind an optional member of its name, a required member is in step. -/
theorem required_in_step_of_later :
    let ps : List (Property TypeNode) :=
      [⟨"a".toList, .plain "string".toList (.primitive "string".toList), true⟩,
        ⟨"a".toList, .plain "number".toList (.primitive "number".toList), false⟩]
    let n : TypeNode := .plain "\x7b a?: string; a: number \x7d".toList (.object ps none)
    let fields : Fields Json := [typeEntry "object",
      entry "properties" (.obj [entry "a" (.obj [typeEntry "number"])]),
      entry "required" (.arr [.str "a".toList])]
    ∃ document, fragment (Expansion.expand [] "\x7b a?: string; a: number \x7d[]".toList) =
        .ok document ∧
      Inside (.obj fields) document ∧ fragment n = .ok (.obj fields) ∧ InStep ps ["a".toList] := by
  intro ps n fields
  have hparse : TypeNode.parse "\x7b a?: string; a: number \x7d[]".toList =
      .plain "\x7b a?: string; a: number \x7d[]".toList (.array n) := rfl
  have hexpand : Expansion.expand [] "\x7b a?: string; a: number \x7d[]".toList =
      .plain "\x7b a?: string; a: number \x7d[]".toList (.array n) := by
    unfold Expansion.expand
    rw [hparse]
    rfl
  have hn : fragment n = .ok (.obj fields) := rfl
  obtain ⟨document, hdocument, hall⟩ :=
    required_in_step_iff [] "\x7b a?: string; a: number \x7d[]".toList
  have harray : document = .obj [typeEntry "array", entry "items" (.obj fields)] := by
    rw [hexpand] at hdocument
    cases hdocument
    rfl
  have hinside : Inside (.obj fields) document := by
    rw [harray]
    exact .field (.tail _ (.head _)) .self
  obtain ⟨-, hn'⟩ := hall fields [.str "a".toList] hinside rfl
  obtain ⟨ps', additional, schemas, listed, hshape, -, hlisted, -, -, hiff⟩ := hn' n hn
  cases hshape
  have hstr : Function.Injective Json.str := fun _ _ h => Json.str.inj h
  obtain rfl : listed = ["a".toList] := List.map_injective_iff.mpr hstr hlisted.symm
  exact ⟨document, hdocument, hinside, hn, hiff.mpr (by simp [ps])⟩

/-- **Overloads of a method are listed twice**: the members `m(): void` and `m(x: string): void` have
one schema and two entries in the list of required names. -/
theorem required_of_overloads :
    ∃ fields : Fields Json,
      fragment (Expansion.expand [] "\x7b m(): void; m(x: string): void \x7d".toList) =
        .ok (.obj fields) ∧
      fields.get? "required".toList = some (.arr (["m".toList, "m".toList].map .str)) ∧
      ¬ ["m".toList, "m".toList].Nodup := by
  have hparse : TypeNode.parse "\x7b m(): void; m(x: string): void \x7d".toList =
      .plain "\x7b m(): void; m(x: string): void \x7d".toList (.object
        [⟨"m".toList, .plain "() => void".toList
            (.function [] (.plain "void".toList (.primitive "void".toList))), false⟩,
          ⟨"m".toList, .plain "(x: string) => void".toList
            (.function [⟨"x".toList, .plain "string".toList (.primitive "string".toList)⟩]
              (.plain "void".toList (.primitive "void".toList))), false⟩] none) := rfl
  unfold Expansion.expand
  rw [hparse]
  exact ⟨_, rfl, rfl, by decide⟩

end Schema

end ExportSchema
