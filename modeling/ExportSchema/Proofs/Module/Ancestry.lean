import ExportSchema.Proofs.Module.Dependence
import ExportSchema.Proofs.Module.Flattening

/-!
# An interface with all interfaces above it

Merging goes up from interface to interface. The names that were seen are shared by all that is
visited, so every interface is entered once, however the interfaces extend each other: in chains,
more than once, in a circle or themselves. What is merged in the end are the members of exactly the
interfaces that are reached.

* `Visit.Enters`: what a run through parents has entered.
* `Explores`: what a visit does from any names that were seen.

Results:
* `Visit.Enters.parent`, `Visit.Enters.parents_foldlM`: one parent, and all parents.
* `explores_mergedDepth`: a visit enters all that can be reached and was not seen.
* `Visit.Enters.seen_iff`: the names entered from the start are the interfaces that are reached.
* `exists_merged_iff`, `mem_names_merged_iff`: when merging has a result, and the names in it.
* `merged_iff_reached`: merging visits exactly the interfaces that are reached.
-/

namespace ExportSchema.Module

open Fields (last? mem_names_putAll names pending pending_cons_lt pending_le_length)
open Relation (ReflTransGen)

variable {symbols : Symbols} {infer : Infer (Except Fault)} {t : Tree} {n p q k : Text}

/-! ## Parents -/

/-- The name is a local interface. -/
def IsInterface (symbols : Symbols) (p : Text) : Prop := (interfaceTree? symbols p).isSome

theorem isInterface_of_up (h : Up symbols Symbol.parents? p q) : IsInterface symbols p := by
  obtain ⟨u, hu, -⟩ := up_iff.mp h
  exact Option.isSome_of_mem hu

/-- The members that an interface declares itself can be read. -/
def Readable (infer : Infer (Except Fault)) (t : Tree) : Prop :=
  ∃ own, interfaceMembers infer t = .ok own

theorem mem_names_symbolMarks : k ∈ names (symbolMarks symbols p) ↔
    ∃ u, interfaceTree? symbols p = some u ∧ k ∈ names (memberMarks u) := by
  unfold symbolMarks
  cases interfaceTree? symbols p <;> simp [names]

/-! ## One visit -/

section Visits

variable {seen ps : List Text} {own : List Text} {v w : Visit} {depth : Nat}
  {visit : List Text → Tree → Except Fault Visit}

/-- Started with the names of `seen`, a run through the parents `ps` has entered all that can be
reached from them, has read it, and has collected its members beside `own`. -/
structure Visit.Enters (symbols : Symbols) (infer : Infer (Except Fault)) (seen ps own : List Text)
    (v : Visit) : Prop where
  kept : ∀ p ∈ seen, p ∈ v.seen
  parents : ∀ p ∈ ps, IsInterface symbols p → p ∈ v.seen
  closed : ∀ p ∈ v.seen, p ∉ seen → ∀ q, Up symbols Symbol.parents? p q →
    IsInterface symbols q → q ∈ v.seen
  reached : ∀ p ∈ v.seen, p ∉ seen → ∃ q ∈ ps, ReflTransGen (Up symbols Symbol.parents?) q p
  read : ∀ p ∈ v.seen, p ∉ seen → ∃ u, interfaceTree? symbols p = some u ∧ Readable infer u
  members : ∀ k, k ∈ names v.members ↔
    k ∈ own ∨ ∃ p ∈ v.seen, p ∉ seen ∧ k ∈ names (symbolMarks symbols p)

/-- A visit with enough steps left reads its own interface, and enters all that it can reach. -/
def Explores (symbols : Symbols) (infer : Infer (Except Fault))
    (visit : List Text → Tree → Except Fault Visit) (depth : Nat) : Prop :=
  ∀ seen t v, pending symbols seen < depth → visit seen t = .ok v →
    Readable infer t ∧ v.Enters symbols infer seen (interfaceParents t) (names (memberMarks t))

theorem Visit.Enters.start (seen : List Text) :
    Visit.Enters symbols infer seen [] [] ⟨[], seen⟩ where
  kept _ hp := hp
  parents _ hp := nomatch hp
  closed _ hp hnew := absurd hp hnew
  reached _ hp hnew := absurd hp hnew
  read _ hp hnew := absurd hp hnew
  members k := by
    refine iff_of_false (fun hk => nomatch hk) ?_
    rintro (hk | ⟨p, hp, hnew, -⟩)
    · cases hk
    · exact hnew hp

/-- A parent that is no interface or was seen adds nothing. -/
theorem Visit.Enters.skip (hv : v.Enters symbols infer seen ps own)
    (hq : IsInterface symbols q → q ∈ v.seen) : v.Enters symbols infer seen (ps ++ [q]) own where
  kept := hv.kept
  parents p hp := by
    rcases List.mem_append.mp hp with hp | hp
    · exact hv.parents p hp
    · rw [List.mem_singleton.mp hp]
      exact hq
  closed := hv.closed
  reached p hp hnew :=
    let ⟨q', hq', hpath⟩ := hv.reached p hp hnew
    ⟨q', List.mem_append_left _ hq', hpath⟩
  read := hv.read
  members := hv.members

/-- A parent that was not seen adds all that its own visit enters. -/
theorem Visit.Enters.enter (hv : v.Enters symbols infer seen ps [])
    (hq : interfaceTree? symbols q = some t) (hnew : q ∉ v.seen) (hread : Readable infer t)
    (hw : w.Enters symbols infer (q :: v.seen) (interfaceParents t) (names (memberMarks t))) :
    Visit.Enters symbols infer seen (ps ++ [q]) [] ⟨v.members.putAll w.members, w.seen⟩ := by
  have hkept : ∀ p ∈ v.seen, p ∈ w.seen := fun p hp => hw.kept p (List.mem_cons_of_mem _ hp)
  -- a name that was entered came before `q`, is `q`, or came after it
  have hcases : ∀ p ∈ w.seen, p ∈ v.seen ∨ p = q ∨ p ∉ q :: v.seen := fun p _ => by
    by_cases hpv : p ∈ v.seen
    · exact Or.inl hpv
    · by_cases hpq : p = q
      · exact Or.inr (Or.inl hpq)
      · exact Or.inr (Or.inr (by simp [hpv, hpq]))
  refine ⟨fun p hp => hkept p (hv.kept p hp), fun p hp hi => ?_, fun p hp hpnew r hr hi => ?_,
    fun p hp hpnew => ?_, fun p hp hpnew => ?_, fun k => ?_⟩
  · rcases List.mem_append.mp hp with hp | hp
    · exact hkept p (hv.parents p hp hi)
    · exact List.mem_singleton.mp hp ▸ hw.kept q List.mem_cons_self
  · rcases hcases p hp with hpv | rfl | hpw
    · exact hkept r (hv.closed p hpv hpnew r hr hi)
    · obtain ⟨u, hu, hr⟩ := up_iff.mp hr
      cases hq.symm.trans hu
      exact hw.parents r hr hi
    · exact hw.closed p hp hpw r hr hi
  · rcases hcases p hp with hpv | rfl | hpw
    · obtain ⟨q', hq', hpath⟩ := hv.reached p hpv hpnew
      exact ⟨q', List.mem_append_left _ hq', hpath⟩
    · exact ⟨p, by simp, .refl⟩
    · obtain ⟨r, hr, hpath⟩ := hw.reached p hp hpw
      exact ⟨q, by simp, .head (up_iff.mpr ⟨t, hq, hr⟩) hpath⟩
  · rcases hcases p hp with hpv | rfl | hpw
    · exact hv.read p hpv hpnew
    · exact ⟨t, hq, hread⟩
    · exact hw.read p hp hpw
  · have hmarks : symbolMarks symbols q = memberMarks t := by simp [symbolMarks, hq]
    rw [mem_names_putAll, hv.members, hw.members, ← hmarks]
    constructor
    · rintro ((hk | ⟨p, hp, hpnew, hk⟩) | hk | ⟨p, hp, hpnew, hk⟩)
      · cases hk
      · exact Or.inr ⟨p, hkept p hp, hpnew, hk⟩
      · exact Or.inr ⟨q, hw.kept q List.mem_cons_self, fun h => hnew (hv.kept q h), hk⟩
      · exact Or.inr ⟨p, hp, fun h => hpnew (List.mem_cons_of_mem _ (hv.kept p h)), hk⟩
    · rintro (hk | ⟨p, hp, hpnew, hk⟩)
      · cases hk
      · rcases hcases p hp with hpv | rfl | hpw
        · exact Or.inl (Or.inr ⟨p, hpv, hpnew, hk⟩)
        · exact Or.inr (Or.inl hk)
        · exact Or.inr (Or.inr ⟨p, hp, hpw, hk⟩)

/-- **One parent** is entered unless it was seen. -/
theorem Visit.Enters.parent (hvisit : Explores symbols infer visit depth)
    (hdepth : pending symbols seen ≤ depth) (hv : v.Enters symbols infer seen ps [])
    (h : v.parent symbols visit q = .ok w) : w.Enters symbols infer seen (ps ++ [q]) [] := by
  unfold Visit.parent at h
  cases hq : interfaceTree? symbols q with
  | none =>
    simp only [hq] at h
    cases h
    exact hv.skip fun hi => by simp [IsInterface, hq] at hi
  | some t =>
    simp only [hq] at h
    split at h
    · rename_i hseen
      cases h
      exact hv.skip fun _ => by simpa using hseen
    · rename_i hseen
      obtain ⟨inner, hinner, hw⟩ := exists_ok_of_bind h
      cases hw
      have hfewer : pending symbols (q :: v.seen) < depth :=
        calc pending symbols (q :: v.seen)
            < pending symbols v.seen :=
              pending_cons_lt (get?_of_interfaceTree? hq) (by simpa using hseen)
          _ ≤ pending symbols seen := Fields.pending_le_of_subset hv.kept
          _ ≤ depth := hdepth
      obtain ⟨hread, hw⟩ := hvisit _ _ _ hfewer hinner
      exact hv.enter hq (by simpa using hseen) hread hw

/-- **All parents** are entered, one after the other. -/
theorem Visit.Enters.parents_foldlM {qs : List Text} (hvisit : Explores symbols infer visit depth)
    (hdepth : pending symbols seen ≤ depth) (hv : v.Enters symbols infer seen ps [])
    (h : qs.foldlM (Visit.parent symbols visit) v = .ok w) :
    w.Enters symbols infer seen (ps ++ qs) [] := by
  induction qs generalizing v ps with
  | nil =>
    cases h
    rwa [List.append_nil]
  | cons q qs ih =>
    rw [List.foldlM_cons] at h
    obtain ⟨u, hu, hrest⟩ := exists_ok_of_bind h
    rw [List.append_cons]
    exact ih (hv.parent hvisit hdepth hu) hrest

/-- **A visit enters all that it can reach** and that was not seen before. -/
theorem explores_mergedDepth (symbols : Symbols) (infer : Infer (Except Fault)) (depth : Nat) :
    Explores symbols infer (mergedDepth infer symbols depth) depth := by
  induction depth with
  | zero => exact fun seen t v hdepth => absurd hdepth (Nat.not_lt_zero _)
  | succ depth ih =>
    intro seen t v hdepth h
    obtain ⟨inherited, hparents, hown⟩ := exists_ok_of_bind h
    obtain ⟨own, hmembers, hv⟩ := exists_ok_of_bind hown
    cases hv
    have hentered := (Visit.Enters.start seen).parents_foldlM ih (Nat.le_of_lt_succ hdepth) hparents
    rw [List.nil_append] at hentered
    refine ⟨⟨own, hmembers⟩, { hentered with members := fun k => ?_ }⟩
    have hnames : names (own.map fun m => (m.name, m)) = names (memberMarks t) := by
      rw [← map_mark_interfaceMembers hmembers]
      simp [names, mark, Function.comp_def]
    rw [mem_names_putAll, hentered.members, hnames]
    simp only [List.not_mem_nil, false_or]
    exact or_comm

/-- **What a visit from the start has entered**: the interfaces reached from its parents. -/
theorem Visit.Enters.seen_iff (hv : v.Enters symbols infer [] ps own) : p ∈ v.seen ↔
    IsInterface symbols p ∧ ∃ q ∈ ps, ReflTransGen (Up symbols Symbol.parents?) q p := by
  constructor
  · intro hp
    obtain ⟨u, hu, -⟩ := hv.read p hp List.not_mem_nil
    exact ⟨Option.isSome_of_mem hu, hv.reached p hp List.not_mem_nil⟩
  · rintro ⟨hi, q, hq, hpath⟩
    -- all names on the way are interfaces, so each of them was entered with the one below it
    induction hpath with
    | refl => exact hv.parents q hq hi
    | tail _ hup ih => exact hv.closed _ (ih (isInterface_of_up hup)) List.not_mem_nil _ hup hi

end Visits

/-! ## All interfaces that are reached -/

/-- The interface `p` with the tree `u` is `n` itself or reached from it through parents. -/
def Reaches (symbols : Symbols) (n p : Text) (u : Tree) : Prop :=
  ReflTransGen (Up symbols Symbol.parents?) n p ∧ interfaceTree? symbols p = some u

theorem Reaches.cases (hn : interfaceTree? symbols n = some t) {u : Tree} :
    Reaches symbols n p u ↔ p = n ∧ u = t ∨ ∃ q ∈ interfaceParents t, Reaches symbols q p u := by
  unfold Reaches
  rw [ReflTransGen.cases_head_iff]
  constructor
  · rintro ⟨rfl | ⟨q, hup, hpath⟩, hu⟩
    · exact Or.inl ⟨rfl, Option.some.inj (hu.symm.trans hn)⟩
    · obtain ⟨t', ht', hq⟩ := up_iff.mp hup
      cases hn.symm.trans ht'
      exact Or.inr ⟨q, hq, hpath, hu⟩
  · rintro (⟨rfl, rfl⟩ | ⟨q, hq, hpath, hu⟩)
    · exact ⟨Or.inl rfl, hn⟩
    · exact ⟨Or.inr ⟨q, up_iff.mpr ⟨t, hn, hq⟩, hpath⟩, hu⟩

theorem mergedMembers_eq (infer : Infer (Except Fault)) (t : Tree) : mergedMembers infer symbols t =
    (mergedDepth infer symbols (symbols.length + 1) [] t).map (·.members) := by
  unfold mergedMembers
  cases mergedDepth infer symbols (symbols.length + 1) [] t <;> rfl

/-- Merged members come from a visit that has entered all that it can reach. -/
theorem enters_of_merged {fields : Fields Member} (h : mergedMembers infer symbols t = .ok fields) :
    ∃ v : Visit, fields = v.members ∧ Readable infer t ∧
      v.Enters symbols infer [] (interfaceParents t) (names (memberMarks t)) := by
  obtain ⟨v, hv, hfields⟩ := exists_ok_of_bind h
  cases hfields
  have hdepth := Nat.lt_succ_of_le (pending_le_length symbols [])
  exact ⟨v, rfl, explores_mergedDepth symbols infer _ [] t v hdepth hv⟩

/-- Merging has a result just when the members of all interfaces that are reached can be read. -/
theorem exists_merged_iff (hn : interfaceTree? symbols n = some t) :
    (∃ fields, mergedMembers infer symbols t = .ok fields) ↔
      ∀ p u, Reaches symbols n p u → Readable infer u := by
  constructor
  · rintro ⟨fields, h⟩ p u hpu
    obtain ⟨v, -, hread, hentered⟩ := enters_of_merged h
    rcases (Reaches.cases hn).mp hpu with ⟨-, rfl⟩ | ⟨q, hq, hpath, hu⟩
    · exact hread
    · have hseen := hentered.seen_iff.mpr ⟨Option.isSome_of_mem hu, q, hq, hpath⟩
      obtain ⟨u', hu', hread⟩ := hentered.read p hseen List.not_mem_nil
      cases hu.symm.trans hu'
      exact hread
  · intro h
    obtain ⟨v, hv⟩ := exists_mergedDepth_of_reached (symbols.length + 1) [] hn
      fun p u hp hu => h p u ⟨hp, hu⟩
    exact ⟨v.members, by rw [mergedMembers_eq, hv]; rfl⟩

/-- The merged names are those that the interfaces declare that are reached. -/
theorem mem_names_merged_iff {fields : Fields Member} (hn : interfaceTree? symbols n = some t)
    (h : mergedMembers infer symbols t = .ok fields) :
    k ∈ names fields ↔ ∃ p u, Reaches symbols n p u ∧ k ∈ names (memberMarks u) := by
  obtain ⟨v, rfl, -, hentered⟩ := enters_of_merged h
  rw [hentered.members]
  constructor
  · rintro (hk | ⟨p, hp, -, hk⟩)
    · exact ⟨n, t, ⟨.refl, hn⟩, hk⟩
    · obtain ⟨-, q, hq, hpath⟩ := hentered.seen_iff.mp hp
      obtain ⟨u, hu, hk⟩ := mem_names_symbolMarks.mp hk
      exact ⟨p, u, (Reaches.cases hn).mpr (Or.inr ⟨q, hq, hpath, hu⟩), hk⟩
  · rintro ⟨p, u, hpu, hk⟩
    rcases (Reaches.cases hn).mp hpu with ⟨-, rfl⟩ | ⟨q, hq, hpath, hu⟩
    · exact Or.inl hk
    · refine Or.inr ⟨p, ?_, List.not_mem_nil, mem_names_symbolMarks.mpr ⟨u, hu, hk⟩⟩
      exact hentered.seen_iff.mpr ⟨Option.isSome_of_mem hu, q, hq, hpath⟩

/-- Of a name that the interface declares itself, its own last member counts. -/
theorem get?_merged_of_own {fields : Fields Member}
    (h : mergedMembers infer symbols t = .ok fields) :
    ∃ own, interfaceMembers infer t = .ok own ∧ ∀ member ∈ own, ∃ final,
      last? (own.map fun m => (m.name, m)) member.name = some final ∧
        fields.get? member.name = some final := by
  obtain ⟨v, hv, hfields⟩ := exists_ok_of_bind h
  cases hfields
  obtain ⟨inherited, -, hown⟩ := exists_ok_of_bind hv
  obtain ⟨own, hmembers, hmerge⟩ := exists_ok_of_bind hown
  cases hmerge
  refine ⟨own, hmembers, fun member hmember => ?_⟩
  have hentry : (member.name, member) ∈ own.map fun m => (m.name, m) :=
    List.mem_map.mpr ⟨member, hmember, rfl⟩
  obtain ⟨final, hfinal⟩ := Fields.exists_last? hentry
  exact ⟨final, hfinal, (Fields.lookup_putAll ..).trans (by rw [hfinal, Option.some_or])⟩

/-- **Merging visits exactly the interfaces that are reached**, whatever the interfaces extend: each
other, themselves, or names that are no interfaces. It comes to an end by itself, as more steps than
there are symbols change nothing. It has a result when the members of all interfaces that are
reached can be read. The merged names are the names that these interfaces declare; and of a name
that the interface declares itself, its own last member counts. -/
theorem merged_iff_reached (infer : Infer (Except Fault))
    (hn : interfaceTree? symbols n = some t) :
    (∀ depth, symbols.length < depth →
      mergedMembers infer symbols t = (mergedDepth infer symbols depth [] t).map (·.members)) ∧
    ((∃ fields, mergedMembers infer symbols t = .ok fields) ↔
      ∀ p u, Reaches symbols n p u → Readable infer u) ∧
    ∀ fields, mergedMembers infer symbols t = .ok fields →
      (∀ k, k ∈ names fields ↔ ∃ p u, Reaches symbols n p u ∧ k ∈ names (memberMarks u)) ∧
      ∃ own, interfaceMembers infer t = .ok own ∧ ∀ member ∈ own, ∃ final,
        last? (own.map fun m => (m.name, m)) member.name = some final ∧
          fields.get? member.name = some final := by
  have hle := pending_le_length symbols []
  refine ⟨fun depth h => ?_, exists_merged_iff hn, fun fields h =>
    ⟨fun k => mem_names_merged_iff hn h, get?_merged_of_own h⟩⟩
  rw [mergedMembers_eq, mergedDepth_eq infer (Nat.lt_succ_of_le hle) (Nat.lt_of_le_of_lt hle h)]

/-- `A` and `B` extend each other, `C` extends itself, a type alias and a name that is not declared,
and `D` is reached twice. -/
theorem merged_of_circle :
    let leaf (kind : Kind) (field : Field) (text : String) : Tree :=
      ⟨kind, true, some field, text.toList, []⟩
    let optional : Tree := ⟨.questionMark, false, none, ['?'], []⟩
    let member (name type : String) (marks : List Tree) : Tree :=
      ⟨.propertySignature, true, none, [],
        leaf .propertyIdentifier .name name :: marks ++ [leaf .typeMark .type type]⟩
    let interface (parents : List String) (members : List Tree) : Tree :=
      ⟨.interfaceDeclaration, true, none, [],
        [⟨.extendsTypeClause, true, none, [], parents.map (leaf .other .type)⟩,
          ⟨.other, true, some .body, [], members⟩]⟩
    let a := interface ["B", "C"] [member "x" ": string" [], member "x" ": number" [optional]]
    let b := interface ["A", "D"] [member "y" ": A" []]
    let c := interface ["C", "D", "Alias", "Missing"] [member "z" ": string" []]
    let d := interface [] [member "x" ": boolean" [], member "w" ": string" []]
    let symbols : Symbols := [("A".toList, ⟨.interface, a⟩), ("B".toList, ⟨.interface, b⟩),
      ("C".toList, ⟨.interface, c⟩), ("D".toList, ⟨.interface, d⟩),
      ("Alias".toList, ⟨.typeAlias, leaf .typeAliasDeclaration .declaration "type Alias = string"⟩)]
    interfaceTree? symbols "A".toList = some a ∧ ∀ infer : Infer (Except Fault),
      ∃ fields, mergedMembers infer symbols a = .ok fields ∧ "w".toList ∈ names fields ∧
        fields.get? "x".toList = some ⟨"x".toList, "number".toList, true⟩ := by
  intro leaf optional member interface a b c d symbols
  have ha : interfaceTree? symbols "A".toList = some a := rfl
  refine ⟨ha, fun infer => ?_⟩
  obtain ⟨-, -, hfields⟩ := merged_iff_reached infer ha
  refine ⟨_, rfl, ?_, ?_⟩
  · obtain ⟨hnames, -⟩ := hfields _ rfl
    have hab : Up symbols Symbol.parents? "A".toList "B".toList :=
      up_iff.mpr ⟨a, ha, by decide⟩
    have hbd : Up symbols Symbol.parents? "B".toList "D".toList :=
      up_iff.mpr ⟨b, rfl, by decide⟩
    exact (hnames _).mpr ⟨"D".toList, d, ⟨.head hab (.single hbd), rfl⟩, by decide⟩
  · obtain ⟨-, own, hown, hlast⟩ := hfields _ rfl
    cases hown
    obtain ⟨final, hfinal, hget⟩ :=
      hlast ⟨"x".toList, "string".toList, false⟩ List.mem_cons_self
    cases hfinal
    exact hget

end ExportSchema.Module
