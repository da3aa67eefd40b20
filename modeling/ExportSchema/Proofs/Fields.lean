import ExportSchema.Fields
import Mathlib.Data.List.Nodup

/-!
# Writing and entering fields

What the values are after named values were written, and how many names are left when one more is
entered. Work that enters a name before it goes on with what the name stands for comes to an end,
because the names that are left get fewer.

* `last?`: the last value under a name.
* `mapValues`: other values under the same names.
* `pending`: how many fields have names that were not entered yet.

Results:
* `mem_values_putAll`: every value was there before or was written.
* `ofList_of_nodup`: values written under distinct names stay as they are.
* `names_ofList`: the names stand in the order in which they came first.
* `lookup_putAll`: the last value written under a name counts.
* `get?_foldl_putNew`: the first value counts when only new names are written.
* `pending_cons_lt`: entering a declared name leaves one fewer.
-/

namespace ExportSchema.Fields

variable {α : Type}

/-! ## Written values -/

theorem mem_values_put {fs : Fields α} {name : Text} {value v : α}
    (h : v ∈ (put name value fs).values) : v = value ∨ v ∈ fs.values := by
  induction fs with
  | nil => exact Or.inl (by simpa [put, values] using h)
  | cons f fs ih =>
    obtain ⟨n, w⟩ := f
    rw [put] at h
    split at h
    · rcases List.mem_cons.mp h with rfl | h
      · exact Or.inl rfl
      · exact Or.inr (List.mem_cons_of_mem _ h)
    · rcases List.mem_cons.mp h with rfl | h
      · exact Or.inr List.mem_cons_self
      · exact (ih h).imp_right (List.mem_cons_of_mem _)

/-- Every value was there before or is one of the values written. -/
theorem mem_values_putAll {fs : Fields α} {entries : List (Text × α)} {v : α}
    (h : v ∈ (putAll fs entries).values) : v ∈ fs.values ∨ ∃ e ∈ entries, v = e.2 := by
  induction entries generalizing fs with
  | nil => exact Or.inl h
  | cons e entries ih =>
    have hput : v ∈ (put e.1 e.2 fs).values ∨ ∃ e' ∈ entries, v = e'.2 := ih h
    rcases hput with h | ⟨e', he', rfl⟩
    · rcases mem_values_put h with rfl | h
      · exact Or.inr ⟨e, List.mem_cons_self, rfl⟩
      · exact Or.inl h
    · exact Or.inr ⟨e', List.mem_cons_of_mem _ he', rfl⟩

/-- A name that is not there yet goes to the end. -/
theorem put_of_not_mem {fs : Fields α} {name : Text} (value : α) (h : name ∉ fs.names) :
    put name value fs = fs ++ [(name, value)] := by
  induction fs with
  | nil => rfl
  | cons f fs ih =>
    obtain ⟨n, v⟩ := f
    obtain ⟨hne, hmem⟩ : name ≠ n ∧ name ∉ names fs := by simpa [names] using h
    rw [put, if_neg (Ne.symm hne), ih hmem, List.cons_append]

theorem putAll_of_nodup {fs : Fields α} {entries : List (Text × α)}
    (h : (names (fs ++ entries)).Nodup) : putAll fs entries = fs ++ entries := by
  induction entries generalizing fs with
  | nil => exact (List.append_nil fs).symm
  | cons e entries ih =>
    have hnodup := h
    rw [names, List.map_append, List.map_cons, List.nodup_middle, List.nodup_cons] at hnodup
    have hmem : e.1 ∉ fs.names := fun hin => hnodup.1 (List.mem_append_left _ hin)
    calc putAll fs (e :: entries) = putAll (put e.1 e.2 fs) entries := rfl
      _ = putAll (fs ++ [e]) entries := by rw [put_of_not_mem _ hmem]
      _ = fs ++ e :: entries := by
        rw [ih (by simpa using h), List.append_assoc, List.singleton_append]

/-- **Values under distinct names stay as they are**, in order. -/
theorem ofList_of_nodup {entries : List (Text × α)} (h : (names entries).Nodup) :
    ofList entries = entries :=
  putAll_of_nodup h

/-! ## Names in order -/

theorem names_put (fs : Fields α) (name : Text) (value : α) :
    names (put name value fs) = if name ∈ names fs then names fs else names fs ++ [name] := by
  induction fs with
  | nil => rfl
  | cons f fs ih =>
    obtain ⟨n, v⟩ := f
    by_cases h : n = name
    · subst h
      simp [put, names]
    · have hcons : name ∈ names ((n, v) :: fs) ↔ name ∈ names fs := by
        simp [names, Ne.symm h]
      rw [put, if_neg h, if_congr hcons rfl rfl]
      show n :: names (put name value fs) = _
      rw [ih]
      split <;> rfl

/-- The names that are there stay in front of those that come new. -/
theorem names_putAll (fs : Fields α) (entries : List (Text × α)) :
    names (putAll fs entries) = names fs ++ ((names entries).removeAll (names fs)).eraseDups := by
  induction entries generalizing fs with
  | nil => exact (List.append_nil _).symm
  | cons e entries ih =>
    obtain ⟨k, v⟩ := e
    show names (putAll (put k v fs) entries) =
      names fs ++ ((k :: names entries).removeAll (names fs)).eraseDups
    rw [ih, names_put, List.cons_removeAll]
    by_cases hk : k ∈ names fs
    · rw [if_pos hk, if_neg (by simpa using hk)]
    · have hnew : (names fs).contains k = false := by simpa using hk
      have hrest : (names entries).removeAll (names fs ++ [k]) =
          ((names entries).removeAll (names fs)).filter fun b => !b == k := by
        unfold List.removeAll
        rw [List.filter_filter]
        refine List.filter_congr fun b _ => ?_
        by_cases hb : b = k <;> simp [hb]
      rw [if_neg hk, if_pos hnew, hrest, List.eraseDups_cons, List.append_assoc,
        List.singleton_append]

theorem mem_names_putAll {fs : Fields α} {entries : List (Text × α)} {k : Text} :
    k ∈ names (putAll fs entries) ↔ k ∈ names fs ∨ k ∈ names entries := by
  rw [names_putAll, List.mem_append, List.mem_eraseDups, List.removeAll, List.mem_filter]
  by_cases hk : k ∈ names fs <;> simp [hk]

/-- **The names of written values** stand in the order in which they came first. -/
theorem names_ofList (entries : List (Text × α)) :
    names (ofList entries) = (names entries).eraseDups := by
  unfold ofList
  rw [names_putAll]
  exact congrArg List.eraseDups List.removeAll_nil

theorem putAll_putAll (fs : Fields α) (as bs : List (Text × α)) :
    putAll (putAll fs as) bs = putAll fs (as ++ bs) :=
  (List.foldl_append ..).symm

/-! ## The value under a name -/

theorem lookup_put (fs : Fields α) (name k : Text) (value : α) :
    (put name value fs).lookup k = if k = name then some value else fs.lookup k := by
  induction fs with
  | nil =>
    by_cases h : k = name
    · simp [put, h]
    · simp [put, List.lookup_cons, beq_false_of_ne h, h]
  | cons f fs ih =>
    obtain ⟨n, v⟩ := f
    rw [put]
    by_cases hn : n = name
    · subst hn
      by_cases h : k = n
      · simp [h]
      · simp [List.lookup_cons, beq_false_of_ne h, h]
    · rw [if_neg hn]
      by_cases h : k = n
      · subst h
        simp [hn]
      · rw [List.lookup_cons, List.lookup_cons, beq_false_of_ne h]
        exact ih

theorem mem_of_lookup {fs : Fields α} {name : Text} {value : α}
    (h : fs.lookup name = some value) : (name, value) ∈ fs := by
  induction fs with
  | nil => cases h
  | cons p fs ih =>
    obtain ⟨k, v⟩ := p
    rw [List.lookup_cons] at h
    split at h
    · rename_i hk
      cases h
      rw [eq_of_beq hk]
      exact List.mem_cons_self
    · exact List.mem_cons_of_mem _ (ih h)

/-- The last value under a name. -/
def last? (fs : Fields α) (k : Text) : Option α := fs.reverse.lookup k

theorem last?_append (as bs : Fields α) (k : Text) :
    last? (as ++ bs) k = (last? bs k).or (last? as k) := by
  unfold last?
  rw [List.reverse_append, List.lookup_append]

/-- **The last value written under a name counts.** -/
theorem lookup_putAll (fs : Fields α) (entries : List (Text × α)) (k : Text) :
    (putAll fs entries).lookup k = (last? entries k).or (fs.lookup k) := by
  induction entries generalizing fs with
  | nil => rfl
  | cons e entries ih =>
    obtain ⟨n, v⟩ := e
    show (putAll (put n v fs) entries).lookup k = (last? ([(n, v)] ++ entries) k).or _
    rw [ih, lookup_put, last?_append, Option.or_assoc]
    by_cases h : k = n
    · simp [last?, h]
    · simp [last?, List.lookup_cons, beq_false_of_ne h, h]

theorem lookup_ofList (entries : List (Text × α)) (k : Text) :
    (ofList entries).lookup k = last? entries k := by
  unfold ofList
  rw [lookup_putAll]
  exact Option.or_none

/-- Under distinct names the last value is the only one. -/
theorem last?_of_nodup {fs : Fields α} (h : (names fs).Nodup) (k : Text) :
    last? fs k = fs.lookup k := by
  rw [← lookup_ofList, ofList_of_nodup h]

theorem nodup_names_putAll {fs : Fields α} (h : (names fs).Nodup) (entries : List (Text × α)) :
    (names (putAll fs entries)).Nodup := by
  induction entries generalizing fs with
  | nil => exact h
  | cons e entries ih =>
    show (names (putAll (put e.1 e.2 fs) entries)).Nodup
    refine ih ?_
    rw [names_put]
    split
    · exact h
    · rename_i hnew
      exact List.nodup_append.mpr ⟨h, List.nodup_singleton _, by
        rintro n hn m hm rfl
        exact hnew (List.mem_singleton.mp hm ▸ hn)⟩

theorem last?_ofList (entries : List (Text × α)) (k : Text) :
    last? (ofList entries) k = last? entries k := by
  have hnil : (names ([] : Fields α)).Nodup := List.nodup_nil
  have hnodup : (names (ofList entries)).Nodup := nodup_names_putAll hnil entries
  rw [last?_of_nodup hnodup, lookup_ofList]

theorem last?_flatMap_congr {β : Type} {l : List β} {f g : β → Fields α} {k : Text}
    (h : ∀ b ∈ l, last? (f b) k = last? (g b) k) :
    last? (l.flatMap f) k = last? (l.flatMap g) k := by
  induction l with
  | nil => rfl
  | cons b l ih =>
    rw [List.flatMap_cons, List.flatMap_cons, last?_append, last?_append,
      h b List.mem_cons_self, ih fun b hb => h b (List.mem_cons_of_mem _ hb)]

theorem mem_of_last? {fs : Fields α} {k : Text} {v : α} (h : last? fs k = some v) : (k, v) ∈ fs :=
  List.mem_reverse.mp (mem_of_lookup h)

theorem exists_last? {fs : Fields α} {k : Text} {v : α} (h : (k, v) ∈ fs) :
    ∃ w, last? fs k = some w := by
  refine Option.ne_none_iff_exists'.mp fun hnone => ?_
  have := List.lookup_eq_none_iff.mp hnone (k, v) (List.mem_reverse.mpr h)
  simp at this

/-- Where no name has two values, only the entries count and not their order. -/
theorem last?_eq_of_one_value {as bs : Fields α} {k : Text}
    (h : ∀ a ∈ bs, ∀ b ∈ bs, a.1 = b.1 → a.2 = b.2) (hmem : ∀ e, e ∈ as ↔ e ∈ bs) :
    last? as k = last? bs k := by
  cases hb : last? bs k with
  | none =>
    refine Option.eq_none_iff_forall_ne_some.mpr fun v hv => ?_
    obtain ⟨w, hw⟩ := exists_last? ((hmem _).mp (mem_of_last? hv))
    cases hb.symm.trans hw
  | some w =>
    obtain ⟨v, hv⟩ := exists_last? ((hmem _).mpr (mem_of_last? hb))
    rw [hv]
    exact congrArg some (h _ ((hmem _).mp (mem_of_last? hv)) _ (mem_of_last? hb) rfl)

/-! ## First values -/

theorem get?_putNew (fs : Fields α) (name k : Text) (value : α) :
    (fs.putNew name value).get? k = (fs.get? k).or (List.lookup k [(name, value)]) := by
  unfold putNew
  split
  · rename_i hname
    by_cases hk : k = name
    · subst hk
      obtain ⟨v, hv⟩ := Option.isSome_iff_exists.mp hname
      rw [hv, Option.some_or]
    · rw [List.lookup_cons, beq_false_of_ne hk]
      exact Option.or_none.symm
  · exact List.lookup_append

/-- Of the entries of a name, the first counts. -/
theorem get?_foldl_putNew (fs entries : Fields α) (k : Text) :
    (entries.foldl (fun fs e => fs.putNew e.1 e.2) fs).get? k =
      (fs.get? k).or (entries.lookup k) := by
  induction entries generalizing fs with
  | nil => exact Option.or_none.symm
  | cons e entries ih =>
    rw [List.foldl_cons, ih, get?_putNew, Option.or_assoc, ← List.lookup_append]
    rfl

/-! ## Other values under the same names -/

variable {β : Type}

/-- Fields with the same names and other values. -/
def mapValues (f : α → β) (fs : Fields α) : Fields β := fs.map fun e => (e.1, f e.2)

theorem names_mapValues (f : α → β) (fs : Fields α) : names (mapValues f fs) = names fs := by
  unfold names mapValues
  rw [List.map_map]
  rfl

theorem mapValues_put (f : α → β) (fs : Fields α) (name : Text) (value : α) :
    mapValues f (put name value fs) = put name (f value) (mapValues f fs) := by
  induction fs with
  | nil => rfl
  | cons e fs ih =>
    obtain ⟨n, v⟩ := e
    show mapValues f (put name value ((n, v) :: fs)) =
      put name (f value) ((n, f v) :: mapValues f fs)
    rw [put, put, ← ih]
    split <;> rfl

theorem mapValues_putAll (f : α → β) (fs : Fields α) (entries : List (Text × α)) :
    mapValues f (putAll fs entries) = putAll (mapValues f fs) (mapValues f entries) := by
  induction entries generalizing fs with
  | nil => rfl
  | cons e entries ih =>
    show mapValues f (putAll (put e.1 e.2 fs) entries) =
      putAll (put e.1 (f e.2) (mapValues f fs)) (mapValues f entries)
    rw [ih, mapValues_put]

theorem forall_mem_put {P : Text × α → Prop} {fs : Fields α} {name : Text} {value : α}
    (hfs : ∀ f ∈ fs, P f) (hnew : P (name, value)) : ∀ f ∈ put name value fs, P f := by
  induction fs with
  | nil =>
    intro f hf
    obtain rfl := List.mem_singleton.mp hf
    exact hnew
  | cons g fs ih =>
    obtain ⟨n, v⟩ := g
    obtain ⟨hg, hfs⟩ := List.forall_mem_cons.mp hfs
    rw [put]
    split
    · rename_i hn
      subst hn
      exact List.forall_mem_cons.mpr ⟨hnew, hfs⟩
    · exact List.forall_mem_cons.mpr ⟨hg, ih hfs⟩

/-- What holds of fields and of every entry written holds of all fields afterwards. -/
theorem forall_mem_putAll {P : Text × α → Prop} {fs : Fields α} {entries : List (Text × α)}
    (hfs : ∀ f ∈ fs, P f) (hentries : ∀ e ∈ entries, P e) : ∀ f ∈ putAll fs entries, P f := by
  induction entries generalizing fs with
  | nil => exact hfs
  | cons e entries ih =>
    obtain ⟨he, hrest⟩ := List.forall_mem_cons.mp hentries
    exact ih (forall_mem_put hfs he) hrest

/-! ## Entered names -/

/-- How many fields have names that were not entered yet. -/
def pending (fs : Fields α) (entered : List Text) : Nat :=
  (fs.filter (!entered.contains ·.1)).length

theorem pending_le_length (fs : Fields α) (entered : List Text) : pending fs entered ≤ fs.length :=
  List.length_filter_le _ _

/-- Entering a declared name leaves one fewer. -/
theorem pending_cons_lt {fs : Fields α} {entered : List Text} {name : Text} {value : α}
    (h : fs.lookup name = some value) (hne : entered.contains name = false) :
    pending fs (name :: entered) < pending fs entered := by
  have hfilter : fs.filter (!(name :: entered).contains ·.1) =
      (fs.filter (!entered.contains ·.1)).filter (·.1 ≠ name) := by
    rw [List.filter_filter]
    refine List.filter_congr fun p _ => ?_
    by_cases hp : p.1 = name <;> simp [hp]
  unfold pending
  rw [hfilter]
  refine List.length_filter_lt_length_iff_exists.mpr ⟨(name, value), ?_, by simp⟩
  exact List.mem_filter.mpr ⟨mem_of_lookup h, by simpa using hne⟩

/-- Entering more names leaves no more. -/
theorem pending_le_of_subset {fs : Fields α} {entered entered' : List Text}
    (h : ∀ n ∈ entered, n ∈ entered') : pending fs entered' ≤ pending fs entered := by
  refine (List.monotone_filter_right fs fun f hf => ?_).length_le
  simp only [Bool.not_eq_true', List.contains_eq_mem, decide_eq_false_iff_not] at hf ⊢
  exact fun hn => hf (h _ hn)

end ExportSchema.Fields
