import ExportSchema.Export

/-!
# A name is exported where it first occurs

The declarations of a module contribute bindings one after the other, and the exports are the first
binding of each name. So what the first declarations export stays in front, whatever follows them,
and what follows only loses the names that are taken.

Results:
* `nodup_exportsOf`: a name is exported once.
* `mem_firstOfName`: of the bindings of a name, the first counts.
* `map_name_firstOfName`: the names come in the order of their first occurrences.
* `firstOfName_append`, `firstOfName_eq_filter`: what later bindings add.
* `exports_first_occurrences`: the exports are the first occurrences among all contributions.
-/

namespace ExportSchema

variable {bs cs : List Binding} {seen : List Text} {b : Binding}

theorem firstOfName_cons_of_mem (h : b.name ∈ seen) :
    firstOfName seen (b :: bs) = firstOfName seen bs := by
  rw [firstOfName, if_pos (List.contains_iff_mem.mpr h)]

theorem firstOfName_cons_of_not_mem (h : b.name ∉ seen) :
    firstOfName seen (b :: bs) = b :: firstOfName (b.name :: seen) bs := by
  rw [firstOfName, if_neg (mt List.contains_iff_mem.mp h)]

/-! ## The first binding of a name -/

theorem nodup_firstOfName (bs : List Binding) (seen : List Text) :
    ((firstOfName seen bs).map (·.name)).Nodup ∧ ∀ b ∈ firstOfName seen bs, b.name ∉ seen := by
  induction bs generalizing seen with
  | nil => exact ⟨List.nodup_nil, fun b hb => absurd hb List.not_mem_nil⟩
  | cons b bs ih =>
    by_cases hb : b.name ∈ seen
    · rw [firstOfName_cons_of_mem hb]
      exact ih seen
    · obtain ⟨hnodup, hnew⟩ := ih (b.name :: seen)
      rw [firstOfName_cons_of_not_mem hb]
      refine ⟨?_, fun c hc => ?_⟩
      · rw [List.map_cons, List.nodup_cons]
        refine ⟨fun hmem => ?_, hnodup⟩
        obtain ⟨c, hc, hname⟩ := List.mem_map.mp hmem
        exact hnew c hc (hname ▸ List.mem_cons_self)
      · rcases List.mem_cons.mp hc with rfl | hc
        · exact hb
        · exact fun hmem => hnew c hc (List.mem_cons_of_mem _ hmem)

theorem nodup_exportsOf (ds : List Declaration) : ((exportsOf ds).map (·.name)).Nodup :=
  (nodup_firstOfName _ []).1

/-- A binding is kept just when it is the first of its name and its name is not seen before. -/
theorem mem_firstOfName :
    b ∈ firstOfName seen bs ↔ b.name ∉ seen ∧ bs.find? (·.name = b.name) = some b := by
  induction bs generalizing seen with
  | nil => simp [firstOfName]
  | cons c bs ih =>
    by_cases hname : c.name = b.name
    · rw [List.find?_cons_of_pos (by simpa using hname), Option.some.injEq]
      by_cases hseen : c.name ∈ seen
      · rw [firstOfName_cons_of_mem hseen]
        rw [hname] at hseen
        exact iff_of_false (fun hb => (ih.mp hb).1 hseen) fun hb => hb.1 hseen
      · rw [firstOfName_cons_of_not_mem hseen, List.mem_cons, ih, hname]
        rw [hname] at hseen
        simp [hseen, eq_comm]
    · rw [List.find?_cons_of_neg (by simpa using hname)]
      have hne : b ≠ c := fun h => hname (congrArg Binding.name h.symm)
      by_cases hseen : c.name ∈ seen
      · rw [firstOfName_cons_of_mem hseen, ih]
      · rw [firstOfName_cons_of_not_mem hseen, List.mem_cons, or_iff_right hne, ih, List.mem_cons,
          not_or]
        simp [Ne.symm hname]

/-- The names come in the order of their first occurrences. -/
theorem map_name_firstOfName (bs : List Binding) (seen : List Text) :
    (firstOfName seen bs).map (·.name) =
      ((bs.map (·.name)).filter (· ∉ seen)).eraseDups := by
  induction bs generalizing seen with
  | nil => rfl
  | cons b bs ih =>
    rw [List.map_cons]
    by_cases hb : b.name ∈ seen
    · rw [firstOfName_cons_of_mem hb, ih, List.filter_cons_of_neg (by simpa using hb)]
    · have hrest : (bs.map (·.name)).filter (· ∉ b.name :: seen) =
          ((bs.map (·.name)).filter (· ∉ seen)).filter (!· == b.name) := by
        rw [List.filter_filter]
        refine List.filter_congr fun name _ => ?_
        simp [Bool.beq_eq_decide_eq, not_or]
      rw [firstOfName_cons_of_not_mem hb, List.map_cons, ih, hrest,
        List.filter_cons_of_pos (by simpa using hb), List.eraseDups_cons]

/-! ## More bindings -/

/-- Where more names are seen before, the bindings of these names are taken out. -/
theorem firstOfName_eq_filter {seen' taken : List Text}
    (h : ∀ name, name ∈ seen' ↔ name ∈ seen ∨ name ∈ taken) :
    firstOfName seen' bs = (firstOfName seen bs).filter (·.name ∉ taken) := by
  induction bs generalizing seen seen' with
  | nil => rfl
  | cons b bs ih =>
    by_cases hseen : b.name ∈ seen
    · rw [firstOfName_cons_of_mem hseen, firstOfName_cons_of_mem ((h _).mpr (Or.inl hseen)), ih h]
    · rw [firstOfName_cons_of_not_mem hseen]
      by_cases htaken : b.name ∈ taken
      · rw [firstOfName_cons_of_mem ((h _).mpr (Or.inr htaken)),
          List.filter_cons_of_neg (by simpa using htaken)]
        refine ih fun name => ?_
        have htwice : name = b.name ∨ name ∈ taken ↔ name ∈ taken :=
          or_iff_right_of_imp fun hname => hname ▸ htaken
        rw [h, List.mem_cons, or_assoc, or_left_comm, htwice]
      · have hnew : b.name ∉ seen' := fun hmem => ((h _).mp hmem).elim hseen htaken
        rw [firstOfName_cons_of_not_mem hnew, List.filter_cons_of_pos (by simpa using htaken)]
        refine congrArg (b :: ·) (ih fun name => ?_)
        rw [List.mem_cons, List.mem_cons, h, or_assoc]

/-- What a second list adds to the first are its own first bindings with other names. -/
theorem firstOfName_append (bs cs : List Binding) (seen : List Text) :
    firstOfName seen (bs ++ cs) = firstOfName seen bs ++
      (firstOfName seen cs).filter (·.name ∉ (firstOfName seen bs).map (·.name)) := by
  induction bs generalizing seen with
  | nil => exact (List.filter_eq_self.mpr fun c _ => decide_eq_true List.not_mem_nil).symm
  | cons b bs ih =>
    rw [List.cons_append]
    by_cases hb : b.name ∈ seen
    · rw [firstOfName_cons_of_mem hb, firstOfName_cons_of_mem hb, ih]
    · have hmore : firstOfName (b.name :: seen) cs =
          (firstOfName seen cs).filter (·.name ∉ [b.name]) :=
        firstOfName_eq_filter fun name => by simp [or_comm]
      rw [firstOfName_cons_of_not_mem hb, firstOfName_cons_of_not_mem hb, ih, hmore,
        List.filter_filter, List.cons_append]
      refine congrArg (fun more => b :: (_ ++ more)) (List.filter_congr fun c _ => ?_)
      rw [← Bool.decide_and, List.map_cons]
      refine decide_eq_decide.mpr ?_
      rw [List.mem_singleton, List.mem_cons, not_or, and_comm]

/-- **The exports are the first occurrences of their names.** Among the bindings that all
declarations contribute, in source order, each name counts where it first occurs: the names are
distinct and come in that order, and each has the symbol that it has there. The default export is
the one with that name. What the first declarations export stays as it is, and further ones add
their own exports with the names that are not taken. -/
theorem exports_first_occurrences (ds es : List Declaration) :
    let stream := ds.flatMap Declaration.exports
    ((exportsOf ds).map (·.name)).Nodup ∧
    (exportsOf ds).map (·.name) = (stream.map (·.name)).eraseDups ∧
    (∀ b ∈ exportsOf ds, stream.find? (·.name = b.name) = some b) ∧
    (∀ b ∈ exportsOf ds, b.isDefault = true ↔ b.name = defaultName) ∧
    exportsOf (ds ++ es) = exportsOf ds ++
      (exportsOf es).filter (·.name ∉ (exportsOf ds).map (·.name)) := by
  intro stream
  refine ⟨nodup_exportsOf ds, ?_, fun b hb => (mem_firstOfName.mp hb).2,
    fun b _ => decide_eq_true_iff, ?_⟩
  · have hnames := map_name_firstOfName stream []
    rwa [List.filter_eq_self.mpr fun name _ => by simp] at hnames
  · unfold exportsOf
    rw [List.flatMap_append, firstOfName_append]

end ExportSchema
