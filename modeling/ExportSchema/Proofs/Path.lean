import ExportSchema.Path
import ExportSchema.Proofs.Text.Split

/-!
# The algebra of paths

Normalising a path adds its components one after the other to the ones kept so far. A path below
another adds to what the other keeps, and of a relative path only its normal form counts, whatever
it is added to.

* `addAll`: the components kept after those of a path were added.
* `Proper`: a component that is kept.
* `rooted`: the text of a path from the root.

Results:
* `addAll_append`: a path below another adds to what the other keeps.
* `proper_addAll`: every component that is kept is proper.
* `addAll_normalize`, `addAll_rooted`: a path counts as its normal form does.
* `normalize_of_absolute`, `rooted_inj`: an absolute path by its slashes and components.
* `normalize_below`: a relative path below the normal form of a directory.
* `normalize_slash_normalize_iff`, `normalize_slash_strip_iff`: when a normal form that is written
  behind a directory names the same place.
-/

namespace ExportSchema.Path

open Text (splitOn splitOn_append splitOn_join startsWith)

variable {absolute : Bool} {kept cs : List Text} {c path : Text}

/-! ## Components -/

/-- The components kept, the last one first, after those of a path were added. -/
def addAll (absolute : Bool) (kept : List Text) (path : Text) : List Text :=
  (splitOn '/' path).foldl (addComponent absolute) kept

/-- A component that is kept: it has a name, and leads upwards only in a relative path. -/
structure Proper (absolute : Bool) (c : Text) : Prop where
  ne_nil : c ≠ []
  ne_dot : c ≠ ['.']
  no_slash : '/' ∉ c
  down : absolute = true → c ≠ "..".toList

theorem components_eq (path : Text) :
    components path = (addAll (rootSlashes path ≠ 0) [] path).reverse :=
  rfl

theorem addComponent_skip (h : c = [] ∨ c = ['.']) : addComponent absolute kept c = kept :=
  if_pos h

theorem addComponent_down (h : ¬ (c = [] ∨ c = ['.'])) (hup : c ≠ "..".toList) :
    addComponent absolute kept c = c :: kept := by
  unfold addComponent
  rw [if_neg h, if_pos hup]

theorem addComponent_up (last : Text) (hlast : last ≠ "..".toList) :
    addComponent absolute (last :: kept) "..".toList = kept := by
  rw [addComponent, if_neg (by decide), if_neg (by simp)]
  exact if_neg hlast

theorem addComponent_up_again :
    addComponent absolute ("..".toList :: kept) "..".toList =
      "..".toList :: "..".toList :: kept := by
  rw [addComponent, if_neg (by decide), if_neg (by simp)]
  exact if_pos rfl

theorem addComponent_up_nil :
    addComponent absolute [] "..".toList = if absolute then [] else ["..".toList] := by
  rw [addComponent, if_neg (by decide), if_neg (by simp)]

/-- **Adding a component keeps components proper.** -/
theorem proper_addComponent (hkept : ∀ k ∈ kept, Proper absolute k) (hc : '/' ∉ c) :
    ∀ k ∈ addComponent absolute kept c, Proper absolute k := by
  by_cases hskip : c = [] ∨ c = ['.']
  · rw [addComponent_skip hskip]
    exact hkept
  obtain ⟨hnil, hdot⟩ := not_or.mp hskip
  by_cases hup : c = "..".toList
  · subst hup
    cases kept with
    | nil =>
      rw [addComponent_up_nil]
      cases absolute with
      | true => exact hkept
      | false =>
        intro k hk
        obtain rfl := List.mem_singleton.mp hk
        exact ⟨hnil, hdot, hc, fun h => by cases h⟩
    | cons last rest =>
      by_cases hlast : last = "..".toList
      · subst hlast
        rw [addComponent_up_again]
        exact List.forall_mem_cons.mpr ⟨hkept _ List.mem_cons_self, hkept⟩
      · rw [addComponent_up last hlast]
        exact fun k hk => hkept k (List.mem_cons_of_mem _ hk)
  · rw [addComponent_down hskip hup]
    exact List.forall_mem_cons.mpr ⟨⟨hnil, hdot, hc, fun _ => hup⟩, hkept⟩

theorem proper_foldl (hcs : ∀ c ∈ cs, '/' ∉ c) (hkept : ∀ k ∈ kept, Proper absolute k) :
    ∀ k ∈ cs.foldl (addComponent absolute) kept, Proper absolute k := by
  induction cs generalizing kept with
  | nil => exact hkept
  | cons c cs ih =>
    obtain ⟨hc, hcs⟩ := List.forall_mem_cons.mp hcs
    exact ih hcs (proper_addComponent hkept hc)

/-- **Every component that is kept is proper.** -/
theorem proper_addAll (path : Text) : ∀ k ∈ addAll absolute [] path, Proper absolute k :=
  proper_foldl (fun _ hc => Text.not_mem_of_mem_splitOn hc) fun _ hk => absurd hk List.not_mem_nil

/-- **A path below another adds to what the other keeps.** -/
theorem addAll_append (kept : List Text) (a b : Text) :
    addAll absolute kept (a ++ '/' :: b) = addAll absolute (addAll absolute kept a) b := by
  unfold addAll
  rw [splitOn_append, List.foldl_append]

theorem addAll_nil (kept : List Text) : addAll absolute kept [] = kept := rfl

theorem addAll_slash (kept : List Text) (path : Text) :
    addAll absolute kept ('/' :: path) = addAll absolute kept path :=
  addAll_append kept [] path

/-- Components that lead downwards are all kept. -/
theorem foldl_of_proper (h : ∀ c ∈ cs, Proper true c) (kept : List Text) :
    cs.foldl (addComponent absolute) kept = cs.reverse ++ kept := by
  induction cs generalizing kept with
  | nil => rfl
  | cons c cs ih =>
    obtain ⟨hc, hcs⟩ := List.forall_mem_cons.mp h
    rw [List.foldl_cons, addComponent_down (not_or.mpr ⟨hc.ne_nil, hc.ne_dot⟩) (hc.down rfl),
      ih hcs, List.reverse_cons, List.append_assoc]
    rfl

/-- **Of relative components only those kept count**, whatever they are added to. -/
theorem foldl_kept (cs kept : List Text) (hcs : ∀ c ∈ cs, '/' ∉ c) :
    (cs.foldl (addComponent false) []).reverse.foldl (addComponent absolute) kept =
      cs.foldl (addComponent absolute) kept := by
  -- induction from the end: what is kept so far may lose its last component again
  induction cs using List.reverseRecOn with
  | nil => rfl
  | append_singleton cs c ih =>
    obtain ⟨hcs, -⟩ := List.forall_mem_append.mp hcs
    have ih := ih hcs
    rw [List.foldl_append, List.foldl_append, List.foldl_cons, List.foldl_cons, List.foldl_nil,
      List.foldl_nil, ← ih]
    have hproper : ∀ k ∈ cs.foldl (addComponent false) [], Proper false k :=
      proper_foldl hcs fun _ hk => absurd hk List.not_mem_nil
    generalize cs.foldl (addComponent false) [] = stack at hproper ⊢
    by_cases hskip : c = [] ∨ c = ['.']
    · rw [addComponent_skip hskip, addComponent_skip hskip]
    by_cases hup : c = "..".toList
    · subst hup
      cases stack with
      | nil => rfl
      | cons last rest =>
        by_cases hlast : last = "..".toList
        · subst hlast
          rw [addComponent_up_again, List.reverse_cons, List.foldl_append]
          rfl
        · obtain ⟨hl, -⟩ := List.forall_mem_cons.mp hproper
          rw [addComponent_up last hlast, List.reverse_cons, List.foldl_append, List.foldl_cons,
            List.foldl_nil, addComponent_down (not_or.mpr ⟨hl.ne_nil, hl.ne_dot⟩) hlast,
            addComponent_up last hlast]
    · rw [addComponent_down hskip hup, List.reverse_cons, List.foldl_append]
      rfl

/-! ## Slashes at the root -/

theorem rootSlashes_eq_zero_iff : rootSlashes path = 0 ↔ path.head? ≠ some '/' := by
  rw [ne_eq, ← Text.startsWith_singleton_iff]
  unfold rootSlashes
  cases startsWith ['/'] path with
  | false => simp
  | true =>
    simp only [Bool.not_true, Bool.false_eq_true, if_false]
    split <;> simp

theorem rootSlashes_ne_zero (h : path.head? = some '/') : rootSlashes path ≠ 0 := fun hzero =>
  rootSlashes_eq_zero_iff.mp hzero h

theorem rootSlashes_le (path : Text) : rootSlashes path ≤ 2 := by
  unfold rootSlashes
  split
  · omega
  · split <;> omega

/-- One or two slashes before anything else are those at the root. -/
theorem rootSlashes_replicate {n : Nat} {t : Text} (hn : n ≤ 2) (ht : t.head? ≠ some '/') :
    rootSlashes (List.replicate n '/' ++ t) = n := by
  have hnot : ¬ ['/'] <+: t := fun h => ht (Text.startsWith_singleton_iff.mp
    (Text.startsWith_iff.mpr h))
  have hcases : n = 0 ∨ n = 1 ∨ n = 2 := by omega
  rcases hcases with rfl | rfl | rfl
  · exact rootSlashes_eq_zero_iff.mpr ht
  · simp [rootSlashes, startsWith, hnot]
  · simp [rootSlashes, startsWith, hnot, List.replicate]

theorem rootSlashes_of_three (t : Text) : rootSlashes ('/' :: '/' :: '/' :: t) = 1 := by
  simp [rootSlashes, startsWith]

/-- A slash behind a directory adds to the slashes at the root where there is nothing but one or two
of these. -/
theorem rootSlashes_append_iff {d t : Text} (hd : d.head? = some '/') (ht : t.head? ≠ some '/') :
    rootSlashes (d ++ '/' :: t) = rootSlashes d ↔ d ≠ "/".toList ∧ d ≠ "//".toList := by
  have hname : ∀ {n : Nat} {c : Char} (r : Text), n ≤ 2 → c ≠ '/' →
      rootSlashes (List.replicate n '/' ++ c :: (r ++ '/' :: t)) =
        rootSlashes (List.replicate n '/' ++ c :: r) := by
    intro n c r hn hc
    rw [rootSlashes_replicate hn (by simpa using hc), rootSlashes_replicate hn (by simpa using hc)]
  obtain ⟨r, rfl⟩ := List.head?_eq_some_iff.mp hd
  cases r with
  | nil =>
    have htwo : rootSlashes ('/' :: '/' :: t) = 2 := rootSlashes_replicate (n := 2) le_rfl ht
    simp [htwo, show rootSlashes ['/'] = 1 from rfl]
  | cons c r =>
    by_cases hc : c = '/'
    · subst hc
      cases r with
      | nil => simp [rootSlashes_of_three, show rootSlashes ['/', '/'] = 2 from rfl]
      | cons c r =>
        by_cases hc : c = '/'
        · simp [hc, rootSlashes_of_three]
        · simpa using hname (n := 2) r le_rfl hc
    · simpa [hc] using hname (n := 1) r (by omega) hc

/-! ## Normal forms -/

theorem head?_join {p : Text} (hp : p ≠ []) (ps : List Text) :
    (Text.join ['/'] (p :: ps)).head? = p.head? := by
  cases ps with
  | nil => rw [Text.join]
  | cons q ps =>
    rw [Text.join, List.append_assoc, List.head?_append_of_ne_nil _ hp]

theorem head?_join_ne (h : ∀ c ∈ cs, Proper absolute c) :
    (Text.join ['/'] cs).head? ≠ some '/' := by
  cases cs with
  | nil => simp [Text.join]
  | cons c cs =>
    have hc := h c List.mem_cons_self
    rw [head?_join hc.ne_nil]
    exact fun hhead => hc.no_slash (List.mem_of_head? hhead)

theorem join_eq_nil_iff (h : ∀ c ∈ cs, Proper absolute c) : Text.join ['/'] cs = [] ↔ cs = [] := by
  constructor
  · intro hnil
    cases cs with
    | nil => rfl
    | cons c cs =>
      have hc := (h c List.mem_cons_self).ne_nil
      have hhead := head?_join hc cs
      rw [hnil] at hhead
      exact absurd (List.head?_eq_none_iff.mp hhead.symm) hc
  · rintro rfl
    rfl

theorem addAll_join (h : ∀ c ∈ cs, Proper absolute c) (b : Bool) (kept : List Text) :
    addAll b kept (Text.join ['/'] cs) = cs.foldl (addComponent b) kept := by
  by_cases hne : cs = []
  · rw [hne]
    rfl
  · unfold addAll
    rw [splitOn_join hne fun c hc => (h c hc).no_slash]

theorem proper_components (hpath : path.head? ≠ some '/') :
    ∀ c ∈ components path, Proper false c := by
  intro c hc
  rw [components_eq, rootSlashes_eq_zero_iff.mpr hpath] at hc
  exact proper_addAll path c (List.mem_reverse.mp hc)

theorem head?_normalize_ne (hpath : path.head? ≠ some '/') : (normalize path).head? ≠ some '/' := by
  simp only [normalize]
  rw [rootSlashes_eq_zero_iff.mpr hpath, List.replicate_zero, List.nil_append]
  split
  · simp
  · exact head?_join_ne (proper_components hpath)

/-- **A relative path counts as its normal form does**, whatever it is added to. -/
theorem addAll_normalize (hpath : path.head? ≠ some '/') (absolute : Bool) (kept : List Text) :
    addAll absolute kept (normalize path) = addAll absolute kept path := by
  have hproper := proper_components hpath
  have hkept : (components path).foldl (addComponent absolute) kept =
      addAll absolute kept path := by
    rw [components_eq, rootSlashes_eq_zero_iff.mpr hpath]
    exact foldl_kept _ kept fun c hc => Text.not_mem_of_mem_splitOn hc
  simp only [normalize]
  rw [rootSlashes_eq_zero_iff.mpr hpath, List.replicate_zero, List.nil_append, ← hkept]
  by_cases hnil : components path = []
  · rw [hnil]
    rfl
  · have hjoin : Text.join ['/'] (components path) ≠ [] := mt (join_eq_nil_iff hproper).mp hnil
    rw [List.isEmpty_eq_false_iff.mpr hjoin]
    exact addAll_join hproper absolute kept

/-- The text of a path from the root, by its slashes and the components kept. -/
def rooted (slashes : Nat) (kept : List Text) : Text :=
  List.replicate slashes '/' ++ Text.join ['/'] kept.reverse

/-- **The normal form of an absolute path**: its slashes at the root and the components kept. -/
theorem normalize_of_absolute (hpath : path.head? = some '/') :
    normalize path = rooted (rootSlashes path) (addAll true [] path) := by
  have hslash := rootSlashes_ne_zero hpath
  obtain ⟨n, hn⟩ := Nat.exists_eq_succ_of_ne_zero hslash
  unfold normalize rooted
  rw [components_eq, decide_eq_true hslash, hn, List.replicate_succ]
  rfl

theorem head?_normalize (hpath : path.head? = some '/') : (normalize path).head? = some '/' := by
  obtain ⟨n, hn⟩ := Nat.exists_eq_succ_of_ne_zero (rootSlashes_ne_zero hpath)
  rw [normalize_of_absolute hpath, hn, rooted, List.replicate_succ]
  rfl

theorem addAll_replicate (n : Nat) (t : Text) (kept : List Text) :
    addAll absolute kept (List.replicate n '/' ++ t) = addAll absolute kept t := by
  induction n with
  | zero => rfl
  | succ n ih => rw [List.replicate_succ, List.cons_append, addAll_slash, ih]

/-- A path from the root keeps what it is made of. -/
theorem addAll_rooted (hkept : ∀ k ∈ kept, Proper true k) (n : Nat) :
    addAll true [] (rooted n kept) = kept := by
  have hreverse : ∀ k ∈ kept.reverse, Proper true k := fun k hk => hkept k (List.mem_reverse.mp hk)
  rw [rooted, addAll_replicate, addAll_join hreverse, foldl_of_proper hreverse,
    List.reverse_reverse, List.append_nil]

theorem replicate_append_inj {n n' : Nat} {t t' : Text} (ht : t.head? ≠ some '/')
    (ht' : t'.head? ≠ some '/') (h : List.replicate n '/' ++ t = List.replicate n' '/' ++ t') :
    n = n' ∧ t = t' := by
  induction n generalizing n' with
  | zero =>
    cases n' with
    | zero => exact ⟨rfl, h⟩
    | succ n' => exact absurd (by rw [show t = _ from h]; rfl) ht
  | succ n ih =>
    cases n' with
    | zero => exact absurd (by rw [show t' = _ from h.symm]; rfl) ht'
    | succ n' =>
      obtain ⟨hn, ht⟩ := ih (List.cons_inj_right _ |>.mp h)
      exact ⟨congrArg Nat.succ hn, ht⟩

/-- **A path from the root has one way to be written.** -/
theorem rooted_inj {n n' : Nat} {kept' : List Text} (h : ∀ k ∈ kept, Proper true k)
    (h' : ∀ k ∈ kept', Proper true k) :
    rooted n kept = rooted n' kept' ↔ n = n' ∧ kept = kept' := by
  refine ⟨fun heq => ?_, fun ⟨hn, hk⟩ => by rw [hn, hk]⟩
  have hkept := congrArg (addAll true []) heq
  rw [addAll_rooted h, addAll_rooted h'] at hkept
  subst hkept
  have hhead : (Text.join ['/'] kept.reverse).head? ≠ some '/' :=
    head?_join_ne fun k hk => h k (List.mem_reverse.mp hk)
  exact ⟨(replicate_append_inj hhead hhead heq).1, rfl⟩

/-! ## Paths below others -/

theorem join_of_absolute {base : Text} (h : path.head? = some '/') : join base path = path :=
  if_pos (Text.startsWith_singleton_iff.mpr h)

theorem join_of_relative (base : Text) (h : path.head? ≠ some '/') :
    join base path =
      if base.isEmpty || Text.endsWith ['/'] base then base ++ path else base ++ '/' :: path :=
  if_neg (mt Text.startsWith_singleton_iff.mp h)

/-- **A relative path below another adds to what the other keeps.** -/
theorem addAll_below (base : Text) (h : path.head? ≠ some '/') (kept : List Text) :
    addAll absolute kept (join base path) = addAll absolute (addAll absolute kept base) path := by
  rw [join_of_relative base h]
  by_cases hempty : base = []
  · rw [hempty]
    rfl
  by_cases hend : Text.endsWith ['/'] base = true
  · obtain ⟨front, rfl⟩ := List.isSuffixOf_iff_suffix.mp hend
    rw [hend, Bool.or_true, if_pos rfl, List.append_assoc, List.singleton_append, addAll_append,
      addAll_append, addAll_nil]
  · rw [if_neg (by simp [hempty, hend]), addAll_append]

theorem rootSlashes_below {n : Nat} (hn : n ≠ 0) (hle : n ≤ 2) (hkept : ∀ k ∈ kept, Proper true k)
    (h : path.head? ≠ some '/') : rootSlashes (join (rooted n kept) path) = n := by
  have hreverse : ∀ k ∈ kept.reverse, Proper true k := fun k hk => hkept k (List.mem_reverse.mp hk)
  obtain ⟨n, rfl⟩ := Nat.exists_eq_succ_of_ne_zero hn
  rw [join_of_relative _ h, rooted]
  by_cases hnil : Text.join ['/'] kept.reverse = []
  · have hend : Text.endsWith ['/'] (List.replicate (n + 1) '/') = true :=
      List.isSuffixOf_iff_suffix.mpr ⟨_, List.replicate_succ'.symm⟩
    rw [hnil, List.append_nil, hend, Bool.or_true, if_pos rfl]
    exact rootSlashes_replicate hle h
  · have hhead : ∀ t, (Text.join ['/'] kept.reverse ++ t).head? ≠ some '/' := by
      intro t
      rw [List.head?_append_of_ne_nil _ hnil]
      exact head?_join_ne hreverse
    split
    · rw [List.append_assoc]
      exact rootSlashes_replicate hle (hhead _)
    · rw [List.append_assoc]
      exact rootSlashes_replicate hle (hhead _)

/-- **A relative path below the normal form of a directory** keeps the slashes at the root, and adds
to the components of the directory. -/
theorem normalize_below {d : Text} (hd : d.head? = some '/') (hpath : path.head? ≠ some '/') :
    normalize (join (normalize d) path) =
      rooted (rootSlashes d) (addAll true (addAll true [] d) path) := by
  have hslash := rootSlashes_ne_zero hd
  have hroot : rootSlashes (join (normalize d) path) = rootSlashes d := by
    rw [normalize_of_absolute hd]
    exact rootSlashes_below hslash (rootSlashes_le d) (proper_addAll d) hpath
  have habsolute : (join (normalize d) path).head? = some '/' := by
    by_contra hhead
    exact hslash (hroot.symm.trans (rootSlashes_eq_zero_iff.mpr hhead))
  rw [normalize_of_absolute habsolute, hroot, addAll_below _ hpath, normalize_of_absolute hd,
    addAll_rooted (proper_addAll d)]

/-! ## Normal forms behind a directory -/

theorem strip_of_relative (h : path.head? ≠ some '/') :
    Text.stripStartWith (· = '/') path = path := by
  cases path with
  | nil => rfl
  | cons c path => exact List.dropWhile_cons_of_neg (by simpa using h)

theorem strip_rooted (hkept : ∀ k ∈ kept, Proper true k) (n : Nat) :
    Text.stripStartWith (· = '/') (rooted n kept) = Text.join ['/'] kept.reverse := by
  have hhead : (Text.join ['/'] kept.reverse).head? ≠ some '/' :=
    head?_join_ne fun k hk => hkept k (List.mem_reverse.mp hk)
  induction n with
  | zero => exact strip_of_relative hhead
  | succ n ih => exact (List.dropWhile_cons_of_pos rfl).trans ih

theorem normalize_slash {d : Text} (hd : d.head? = some '/') (t : Text) :
    normalize (d ++ '/' :: t) =
      rooted (rootSlashes (d ++ '/' :: t)) (addAll true (addAll true [] d) t) := by
  have hhead : (d ++ '/' :: t).head? = some '/' := by
    rw [List.head?_append, hd]
    rfl
  rw [normalize_of_absolute hhead, addAll_append]

/-- **The normal form of a relative path behind a directory** names the same place as the path below
the directory, and is written in the same way unless the directory is nothing but the root. -/
theorem normalize_slash_normalize_iff {d : Text} (hd : d.head? = some '/')
    (hpath : path.head? ≠ some '/') :
    normalize (join (normalize d) path) = normalize (d ++ '/' :: normalize path) ↔
      d ≠ "/".toList ∧ d ≠ "//".toList := by
  have hproper : ∀ k ∈ addAll true (addAll true [] d) path, Proper true k := by
    rw [← addAll_append]
    exact proper_addAll _
  rw [normalize_below hd hpath, normalize_slash hd, addAll_normalize hpath,
    rooted_inj hproper hproper, and_iff_left rfl, eq_comm]
  exact rootSlashes_append_iff hd (head?_normalize_ne hpath)

/-- **An absolute path behind a directory**, without the slashes at its root, names another place
unless the directory is the root. -/
theorem normalize_slash_strip_iff {d : Text} (hd : d.head? = some '/')
    (hpath : path.head? = some '/') :
    let rest := Text.stripStartWith (· = '/') (normalize path)
    normalize path = normalize (d ++ '/' :: rest) ↔
      components d = [] ∧ rootSlashes path = rootSlashes (d ++ '/' :: rest) := by
  intro rest
  have hrest : rest = Text.join ['/'] (addAll true [] path).reverse := by
    show Text.stripStartWith _ (normalize path) = _
    rw [normalize_of_absolute hpath, strip_rooted (proper_addAll path)]
  have hproper : ∀ k ∈ (addAll true [] path).reverse, Proper true k := fun k hk =>
    proper_addAll path k (List.mem_reverse.mp hk)
  have hkept : addAll true (addAll true [] d) rest = addAll true [] path ++ addAll true [] d := by
    rw [hrest, addAll_join hproper, foldl_of_proper hproper, List.reverse_reverse]
  have hroot : components d = [] ↔ addAll true [] d = [] := by
    rw [components_eq, decide_eq_true (rootSlashes_ne_zero hd), List.reverse_eq_nil_iff]
  rw [normalize_slash hd, hkept, normalize_of_absolute hpath,
    rooted_inj (proper_addAll path)
      (List.forall_mem_append.mpr ⟨proper_addAll path, proper_addAll d⟩),
    List.self_eq_append_right, hroot, and_comm]

end ExportSchema.Path
