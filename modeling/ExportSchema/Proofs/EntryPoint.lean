import ExportSchema.Compute
import ExportSchema.Proofs.Json.String
import ExportSchema.Proofs.Path
import ExportSchema.Proofs.Text.Trim

/-!
# Finding the entry point

A target that is a file stands for itself, and nothing is loaded to find that out. For a package, in
a directory or in a repository, the manifest is loaded, and its main module is the entry point.

* `Surroundings`: directories, loading and trees as plain data; the paths that are loaded are
  recorded.
* `NamesModule`: a normalised target that stands for itself.
* `manifestPath`, `entryPath`: the paths of the manifest and of the main module of a package.
* `NamesMain`, `HasMain`: the main module that a manifest names, and that of a package.

Results:
* `mainField_eq_ok_iff`: the main module is read iff the manifest names it.
* `namesMain_manifestOf`: a manifest names the main module that is written in it.
* `run_entryPoint_of_module`, `run_entryPoint_of_main`, `run_entryPoint_of_no_main`: what comes of
  looking for the entry point, and what is loaded.
* `entry_points_agree_iff`: when a package has the same entry point in a directory and in a
  repository.
-/

namespace ExportSchema

open Package (Target mainField manifestName normalizeTarget)
open Repository (isHosted)

/-! ## Surroundings as plain data -/

/-- Which paths are directories, what loading a path gives, and the tree of a source. -/
structure Surroundings where
  isDirectory : Text → Bool
  loader : Text → Loaded
  syntaxTree : Grammar → Text → Tree

namespace Surroundings

/-- What a computation needs, from the surroundings. The paths that are loaded are recorded. -/
def sources (s : Surroundings) : Sources (StateM (List Text)) where
  isDirectory path := return s.isDirectory path
  load path := do
    modify (· ++ [path])
    return .ok (s.loader path)
  syntaxTree grammar source := return s.syntaxTree grammar source

variable (s : Surroundings)

theorem run_content (path : Text) (failed : Text → ComputeError) (log : List Text) :
    (s.sources.content path failed).run log =
      (match s.loader path with
        | .content text => .ok text
        | .failed message => .error (.expected (failed message)),
      log ++ [path]) := by
  have hload : (s.sources.load path).run log = (.ok (s.loader path), log ++ [path]) := rfl
  unfold Sources.content
  rw [StateT.run_bind, hload]
  cases s.loader path <;> rfl

theorem run_target (branch path : Text) (log : List Text) :
    (s.sources.target branch path).run log = (.of branch path (s.isDirectory path), log) := by
  unfold Sources.target Target.of
  split <;> rfl

/-! ## Targets -/

/-- A normalised target that stands for itself: a page of a repository, or a local path that is no
directory. -/
def NamesModule (path : Text) : Prop :=
  ("https://github.com/".toList <+: path ∧ "/blob/".toList <:+: path) ∨
    (¬ "https://github.com/".toList <+: path ∧ s.isDirectory path = false)

end Surroundings

/-- The path of the manifest of the package at a normalised target. -/
def manifestPath (branch path : Text) : Text :=
  if isHosted path then path ++ "/blob/".toList ++ branch ++ '/' :: manifestName
  else Path.join path manifestName

/-- The path of the main module of the package at a normalised target. -/
def entryPath (branch path main : Text) : Text :=
  if isHosted path then
    path ++ "/blob/".toList ++ branch ++ '/' :: Text.stripStartWith (· = '/') (Path.normalize main)
  else Path.normalize (Path.join path main)

/-- A manifest names its main module: it is an object with a string `main`, which is not blank and
counts without the blanks around it. -/
def NamesMain (content main : Text) : Prop :=
  ∃ fields value, Json.read? content = some (.obj fields) ∧
    Fields.get? fields "main".toList = some (.str value) ∧ Text.trim value ≠ [] ∧
    main = Text.trim value

theorem isHosted_iff {path : Text} : isHosted path = true ↔ "https://github.com/".toList <+: path :=
  Text.startsWith_iff

namespace Surroundings

variable (s : Surroundings)

theorem target_of_module {path : Text} (h : s.NamesModule path) (branch : Text) :
    Target.of branch path (s.isDirectory path) = .file path := by
  unfold Target.of
  rcases h with ⟨hhost, hpage⟩ | ⟨hhost, hdir⟩
  · rw [if_pos (isHosted_iff.mpr hhost), if_pos (Text.hasPiece_iff.mpr hpage)]
  · rw [if_neg (mt isHosted_iff.mp hhost), hdir]
    rfl

theorem target_of_package {path : Text} (h : ¬ s.NamesModule path) (branch : Text) :
    (Target.of branch path (s.isDirectory path)).manifest? = some (manifestPath branch path) ∧
      ∀ main, (Target.of branch path (s.isDirectory path)).entry main =
        entryPath branch path main := by
  unfold Target.of manifestPath entryPath
  by_cases hhost : isHosted path = true
  · have hpage : ¬ Text.hasPiece "/blob/".toList path = true := fun hpage =>
      h (Or.inl ⟨isHosted_iff.mp hhost, Text.hasPiece_iff.mp hpage⟩)
    simp only [hhost, hpage, if_true]
    exact ⟨congrArg some (List.append_cons _ _ _).symm, fun main => (List.append_cons _ _ _).symm⟩
  · have hdir : s.isDirectory path = true := by
      by_contra hdir
      exact h (Or.inr ⟨mt isHosted_iff.mpr hhost, by simpa using hdir⟩)
    simp only [hhost, hdir, if_true]
    exact ⟨rfl, fun main => rfl⟩

end Surroundings

/-- **The main module is read iff the manifest names it.** -/
theorem mainField_eq_ok_iff {path content main : Text} :
    mainField path content = .ok main ↔ NamesMain content main := by
  unfold mainField NamesMain
  simp only [Json.read?_eq_some_iff]
  constructor
  · intro h
    split at h
    · cases h
    · rename_i manifest hread
      split at h
      · rename_i value hfield
        split at h
        · cases h
        · rename_i hblank
          cases h
          cases manifest with
          | obj fields => exact ⟨fields, value, hread, hfield, by simpa using hblank, rfl⟩
          | _ => cases hfield
      · cases h
  · rintro ⟨fields, value, hread, hfield, hblank, rfl⟩
    have hmain : Json.field? "main" (.obj fields) = some (.str value) := hfield
    simp only [hread, hmain]
    rw [if_neg (by simpa using hblank)]

/-! ## Manifests that name a main module -/

/-- The manifest that names a main module and nothing else. -/
def manifestOf (main : Text) : Text :=
  '\x7b' :: '"' :: ("main".toList ++ '"' :: ':' :: ' ' :: '"' :: (main ++ '"' :: ['\x7d']))

theorem read?_manifestOf {main : Text} (h : ∀ c ∈ main, Json.isVerbatim c = true) :
    Json.read? (manifestOf main) = some (.obj [("main".toList, .str main)]) := by
  have hname : ∀ c ∈ "main".toList, Json.isVerbatim c = true := by decide
  have hvalue : ∀ fuel, Json.valueAt (fuel + 1) ('"' :: (main ++ '"' :: ['\x7d'])) =
      .ok (.str main, ['\x7d']) := by
    intro fuel
    rw [Json.valueAt, Json.stringBody_verbatim h]
    rfl
  have hfields : ∀ fuel, Json.fieldsAt (fuel + 2)
      ('"' :: ("main".toList ++ '"' :: ':' :: ' ' :: '"' :: (main ++ '"' :: ['\x7d']))) =
        .ok ([("main".toList, .str main)], []) := by
    intro fuel
    have hcolon : ∀ rest, Json.skip (':' :: rest) = ':' :: rest := fun _ => rfl
    have hquote : ∀ rest, Json.skip (' ' :: '"' :: rest) = '"' :: rest := fun _ => rfl
    rw [Json.fieldsAt, Json.stringBody_verbatim hname]
    simp only [hcolon, hquote, hvalue]
    rfl
  have hopen : ∀ fuel rest, Json.valueAt (fuel + 1) ('\x7b' :: '"' :: rest) =
      (Json.fieldsAt fuel ('"' :: rest)).map fun read => (.obj (Fields.ofList read.1), read.2) := by
    intro fuel rest
    rw [Json.valueAt]
    rfl
  obtain ⟨fuel, hfuel⟩ : ∃ fuel, 2 * (manifestOf main).length = fuel + 2 := ⟨_, rfl⟩
  have hskip : Json.skip (manifestOf main) = manifestOf main := rfl
  rw [Json.read?_eq_some_iff, Json.read, if_neg (by simp [manifestOf]), hskip, hfuel, manifestOf, hopen, hfields]
  rfl

/-- **A manifest names the main module that is written in it**, without the blanks around it. -/
theorem namesMain_manifestOf {value main : Text} (h : ∀ c ∈ value, Json.isVerbatim c = true)
    (htrim : Text.trim value = main) (hblank : main ≠ []) : NamesMain (manifestOf value) main :=
  ⟨_, value, read?_manifestOf h, rfl, htrim ▸ hblank, htrim.symm⟩

/-! ## Looking for the entry point -/

namespace Surroundings

variable (s : Surroundings)

theorem run_entryPoint (target cwd branch : Text) (log : List Text) :
    (s.sources.entryPoint target cwd branch).run log =
      let found := Target.of branch (normalizeTarget cwd target)
        (s.isDirectory (normalizeTarget cwd target))
      match found.manifest? with
      | none => (.ok (found.entry []), log)
      | some manifest =>
        (match s.loader manifest with
          | .failed message => .error (.expected (.manifest (.unreadable message)))
          | .content content =>
            match mainField manifest content with
            | .error cause => .error (.expected (.manifest cause))
            | .ok main => .ok (found.entry main),
        log ++ [manifest]) := by
  unfold Sources.entryPoint
  rw [StateT.run_bind, run_target]
  generalize Target.of branch (normalizeTarget cwd target)
    (s.isDirectory (normalizeTarget cwd target)) = found
  cases hmanifest : found.manifest? with
  | none =>
    simp only [bind, hmanifest]
    rfl
  | some manifest =>
    simp only [bind, hmanifest]
    change ((s.sources.content manifest _ >>= _ : StateM (List Text) _)).run log = _
    rw [StateT.run_bind, run_content]
    cases s.loader manifest with
    | failed message => rfl
    | content content =>
      simp only [bind]
      cases mainField manifest content <;> rfl

/-- The manifest of the package at a normalised target is loaded, and names its main module. -/
def HasMain (branch path main : Text) : Prop :=
  ∃ content, s.loader (manifestPath branch path) = .content content ∧ NamesMain content main

variable {target cwd path : Text} (hpath : normalizeTarget cwd target = path) (branch : Text)
  (log : List Text)

include hpath

theorem run_entryPoint_of_module (h : s.NamesModule path) :
    (s.sources.entryPoint target cwd branch).run log = (.ok path, log) := by
  rw [run_entryPoint, hpath, target_of_module s h]
  rfl

theorem run_entryPoint_of_main (h : ¬ s.NamesModule path) {main : Text}
    (hmain : s.HasMain branch path main) :
    (s.sources.entryPoint target cwd branch).run log =
      (.ok (entryPath branch path main), log ++ [manifestPath branch path]) := by
  obtain ⟨content, hload, hnames⟩ := hmain
  obtain ⟨hmanifest, hentry⟩ := target_of_package s h branch
  rw [run_entryPoint, hpath]
  simp only [hmanifest, hentry, hload, mainField_eq_ok_iff.mpr hnames]

theorem run_entryPoint_of_no_main (h : ¬ s.NamesModule path)
    (hmain : ∀ main, ¬ s.HasMain branch path main) :
    ∃ cause, (s.sources.entryPoint target cwd branch).run log =
      (.error (.expected (.manifest cause)), log ++ [manifestPath branch path]) := by
  obtain ⟨hmanifest, hentry⟩ := target_of_package s h branch
  rw [run_entryPoint, hpath]
  simp only [hmanifest]
  cases hload : s.loader (manifestPath branch path) with
  | failed message => exact ⟨_, rfl⟩
  | content content =>
    cases hfield : mainField (manifestPath branch path) content with
    | error cause => exact ⟨cause, by simp only [hfield]⟩
    | ok main => exact absurd ⟨content, hload, mainField_eq_ok_iff.mp hfield⟩ (hmain main)

end Surroundings

/-! ## One package in two places -/

/-- The URL of a repository: it names no page, and no slash stands at its end. -/
structure RepositoryUrl (url : Text) : Prop where
  hosted : "https://github.com/".toList <+: url
  no_page : ¬ "/blob/".toList <:+: url
  no_slash : url.getLast? ≠ some '/'

theorem RepositoryUrl.normalizeTarget_eq {url : Text} (h : RepositoryUrl url) (cwd : Text) :
    normalizeTarget cwd url = url := by
  unfold normalizeTarget
  rw [if_pos (isHosted_iff.mpr h.hosted)]
  refine List.rdropWhile_eq_self_iff.mpr fun hne hlast => h.no_slash ?_
  rw [List.getLast?_eq_some_getLast hne, of_decide_eq_true hlast]

theorem not_isHosted_of_absolute {path : Text} (h : path.head? = some '/') :
    ¬ isHosted path = true := by
  rw [isHosted_iff]
  rintro ⟨rest, rfl⟩
  exact absurd h (by simp)

namespace Surroundings

variable (s : Surroundings)

theorem entryPoint_of_repository {url branch main : Text} (hurl : RepositoryUrl url)
    (hmain : s.HasMain branch url main) (cwd : Text) (log : List Text) :
    ((s.sources.entryPoint url cwd branch).run log).1 =
      .ok (url ++ "/blob/".toList ++ branch ++
        '/' :: Text.stripStartWith (· = '/') (Path.normalize main)) := by
  have hpackage : ¬ s.NamesModule url := by
    rintro (⟨-, hpage⟩ | ⟨hhost, -⟩)
    · exact hurl.no_page hpage
    · exact hhost hurl.hosted
  rw [run_entryPoint_of_main s (hurl.normalizeTarget_eq cwd) branch log hpackage hmain, entryPath,
    if_pos (isHosted_iff.mpr hurl.hosted)]

theorem entryPoint_of_directory {d branch main : Text} (hd : d.head? = some '/')
    (hdir : s.isDirectory (Path.normalize d) = true)
    (hmain : s.HasMain branch (Path.normalize d) main) (cwd : Text) (log : List Text) :
    ((s.sources.entryPoint d cwd branch).run log).1 =
      .ok (Path.normalize (Path.join (Path.normalize d) main)) := by
  have hhost := not_isHosted_of_absolute (Path.head?_normalize hd)
  have hpackage : ¬ s.NamesModule (Path.normalize d) := by
    rintro (⟨hhosted, -⟩ | ⟨-, hfile⟩)
    · exact hhost (isHosted_iff.mpr hhosted)
    · rw [hdir] at hfile
      cases hfile
  have htarget : normalizeTarget cwd d = Path.normalize d := by
    unfold normalizeTarget
    rw [if_neg (not_isHosted_of_absolute hd), Path.join_of_absolute hd]
  rw [run_entryPoint_of_main s htarget branch log hpackage hmain, entryPath, if_neg hhost]

/-- A package in the directory `/w/pkg` and in every repository, by its manifest. -/
def ofManifest (manifest : Text) : Surroundings where
  isDirectory path := path = "/w/pkg".toList
  loader _ := .content manifest
  syntaxTree _ source := ⟨.other, true, none, source, []⟩

/-- **When a package has the same entry point in a directory and in a repository.** Let the
manifests in both places name one main module, and let `rest` be what stands behind the reference in
the entry point in the repository.

A relative main module is the same file in both places: `rest` below the directory. It is also the
normal form of `rest` written behind the directory, unless the directory is written as nothing but
one or two slashes, to which another slash is added then.

An absolute main module leaves the directory, but not the repository. So the entry points differ
unless the directory is the root. -/
theorem entry_points_agree_iff {d url main branch : Text} (hd : d.head? = some '/')
    (hdir : s.isDirectory (Path.normalize d) = true) (hurl : RepositoryUrl url)
    (hlocal : s.HasMain branch (Path.normalize d) main) (hhosted : s.HasMain branch url main)
    (cwd : Text) :
    ∃ rest,
      ((s.sources.entryPoint url cwd branch).run []).1 =
        .ok (url ++ "/blob/".toList ++ branch ++ '/' :: rest) ∧
      let entry := ((s.sources.entryPoint d cwd branch).run []).1
      (main.head? ≠ some '/' →
        entry = .ok (Path.normalize (Path.join (Path.normalize d) rest)) ∧
        (entry = .ok (Path.normalize (d ++ '/' :: rest)) ↔
          d ≠ "/".toList ∧ d ≠ "//".toList)) ∧
      (main.head? = some '/' →
        entry = .ok (Path.normalize main) ∧
        (entry = .ok (Path.normalize (d ++ '/' :: rest)) ↔
          Path.components d = [] ∧
            Path.rootSlashes main = Path.rootSlashes (d ++ '/' :: rest))) := by
  refine ⟨_, entryPoint_of_repository s hurl hhosted cwd [], ?_⟩
  intro entry
  have hentry : entry = .ok (Path.normalize (Path.join (Path.normalize d) main)) :=
    entryPoint_of_directory s hd hdir hlocal cwd []
  rw [hentry]
  refine ⟨fun hmain => ?_, fun hmain => ?_⟩
  · rw [Path.strip_of_relative (Path.head?_normalize_ne hmain), Except.ok.injEq, Except.ok.injEq]
    refine ⟨?_, Path.normalize_slash_normalize_iff hd hmain⟩
    rw [Path.normalize_below hd hmain, Path.normalize_below hd (Path.head?_normalize_ne hmain),
      Path.addAll_normalize hmain]
  · rw [Path.join_of_absolute hmain, Except.ok.injEq, Except.ok.injEq]
    exact ⟨rfl, Path.normalize_slash_strip_iff hd hmain⟩

/-- Blanks, dots and doubled slashes around the same file. -/
theorem entry_points_agree_of_dots :
    let s := ofManifest (manifestOf " ./src/../lib//a.js ".toList)
    let d := "/w/pkg".toList
    let url := "https://github.com/o/r".toList
    let main := "./src/../lib//a.js".toList
    s.isDirectory (Path.normalize d) = true ∧ RepositoryUrl url ∧
      s.HasMain "main".toList (Path.normalize d) main ∧ s.HasMain "main".toList url main ∧
      ∃ rest,
        ((s.sources.entryPoint url [] "main".toList).run []).1 =
          .ok (url ++ "/blob/".toList ++ "main".toList ++ '/' :: rest) ∧
        ((s.sources.entryPoint d [] "main".toList).run []).1 =
          .ok (Path.normalize (d ++ '/' :: rest)) := by
  intro s d url main
  have hdir : s.isDirectory (Path.normalize d) = true := by decide
  have hurl : RepositoryUrl url := ⟨by decide, by decide, by decide⟩
  have hmain : ∀ path, s.HasMain "main".toList path main := fun path =>
    ⟨_, rfl, namesMain_manifestOf (by decide) (by decide) (by decide)⟩
  obtain ⟨rest, hhosted, hrelative, -⟩ :=
    s.entry_points_agree_iff (d := d) rfl hdir hurl (hmain _) (hmain _) []
  exact ⟨hdir, hurl, hmain _, hmain _, rest, hhosted,
    (hrelative (by decide)).2.mpr ⟨by decide, by decide⟩⟩

/-- An absolute main module is inside the repository, and outside of the directory. -/
theorem entry_points_differ :
    let s := ofManifest (manifestOf "/lib/a.js".toList)
    let d := "/w/pkg".toList
    let url := "https://github.com/o/r".toList
    ((s.sources.entryPoint url [] "main".toList).run []).1 =
        .ok (url ++ "/blob/".toList ++ "main".toList ++ '/' :: "lib/a.js".toList) ∧
      Path.normalize (d ++ '/' :: "lib/a.js".toList) = "/w/pkg/lib/a.js".toList ∧
      ((s.sources.entryPoint d [] "main".toList).run []).1 = .ok "/lib/a.js".toList := by
  intro s d url
  have hurl : RepositoryUrl url := ⟨by decide, by decide, by decide⟩
  have hmain : ∀ path, s.HasMain "main".toList path "/lib/a.js".toList := fun path =>
    ⟨_, rfl, namesMain_manifestOf (by decide) (by decide) (by decide)⟩
  refine ⟨(entryPoint_of_repository s hurl (hmain _) [] []).trans ?_, by decide,
    (entryPoint_of_directory s (d := d) rfl (by decide) (hmain _) [] []).trans ?_⟩
  · congr 2
  · congr 1

end Surroundings

end ExportSchema
