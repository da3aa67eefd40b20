import ExportSchema.Proofs.Document
import ExportSchema.Proofs.EntryPoint
import ExportSchema.Proofs.Repository

/-!
# What comes of a computation

A computation loads a manifest when the target is a package, then the entry point, and nothing else.
It fails as a manifest error, a load error or a missing module, each in its own case; in every other
case the tree of the entry point decides, and where the types of its exports can be told there is a
document.

* `Surroundings.Finds`: the entry point of a target.
* `Surroundings.outcomeAt`: what comes of a module, from its path.
* `Surroundings.ModuleTree`: the tree that a computation reads.
* `Answers`: a tree whose declarations, and the types of whose exports, can be told.
* `Outcome.FailsAs`: an expected failure, by its kind.

Results:
* `finds_unique`: a target has one entry point.
* `documentOf_of_answers`: a tree that answers has a document.
* `compute_cases`: the outcome and the paths that are loaded, by what the target is.
* `compute_classifies`: which failure there is, and when there is a document.
-/

namespace ExportSchema

open Package (normalizeTarget)
open Repository (moduleFileName moduleFileName_isOk)

/-- The outcome is an expected failure of this kind. -/
def Outcome.FailsAs (o : Outcome) (kind : String) : Prop :=
  ∃ error, o.result = .error (.expected error) ∧ error.kind = kind

theorem Outcome.failed_failsAs_iff {error : ComputeError} {kind : String} :
    (Outcome.failed (.expected error)).FailsAs kind ↔ error.kind = kind := by
  constructor
  · rintro ⟨error, h, hkind⟩
    cases h
    exact hkind
  · exact fun h => ⟨error, rfl, h⟩

/-! ## The document of a tree -/

/-- The declarations of the module can be read, and the type of every symbol that is exported can be
told. -/
def Answers (root : Tree) : Prop :=
  ∃ m, Module.read root = .ok m ∧ ∀ b ∈ exportsOf m.declarations, ∀ symbol,
    Document.symbolOf b = some symbol → ∃ type, Module.typeOf m.symbols symbol = .ok type

/-- The failures of a tree are unexpected. -/
theorem documentOf_not_failsAs (root : Tree) (kind : String) :
    ¬ (documentOf root).FailsAs kind := by
  rintro ⟨error, hresult, -⟩
  unfold documentOf at hresult
  cases hread : Module.read root with
  | error fault =>
    rw [hread] at hresult
    cases hresult
  | ok m =>
    rw [hread] at hresult
    simp only at hresult
    cases hassemble : (Document.assemble (Module.typeOf m.symbols) m.declarations
      (exportsOf m.declarations)).2 with
    | ok document =>
      rw [hassemble] at hresult
      cases hresult
    | error cause =>
      rw [hassemble] at hresult
      cases cause <;> cases hresult

/-- **A tree that answers has a document.** -/
theorem documentOf_of_answers {root : Tree} (h : Answers root) :
    ∃ properties, (documentOf root).result =
      .ok (.ofFields [("$schema", Document.draft), ("type", .ofString "object"),
        ("properties", .obj properties)]) := by
  obtain ⟨m, hread, htypes⟩ := h
  let table (symbol : Text) : Option Text := (Module.typeOf m.symbols symbol).toOption.join
  have hagree : ∀ b ∈ exportsOf m.declarations, ∀ symbol, Document.symbolOf b = some symbol →
      Module.typeOf m.symbols symbol = .ok (table symbol) := by
    intro b hb symbol hsymbol
    obtain ⟨type, htype⟩ := htypes b hb symbol hsymbol
    simp only [table, htype]
    rfl
  obtain ⟨fragments, hcompile, -⟩ :=
    Document.compile_of_table (ε := Fault) table m.declarations (exportsOf m.declarations)
  refine ⟨Fields.ofList fragments, ?_⟩
  unfold documentOf
  rw [hread]
  simp only [Document.assemble]
  rw [Document.compile_congr hagree, hcompile]
  rfl

namespace Surroundings

variable (s : Surroundings)

/-! ## From the path of a module -/

/-- What comes of a module, from its path. -/
def outcomeAt (path : Text) : Outcome :=
  match s.loader path with
  | .failed message => .failed (.expected (.load message))
  | .content content =>
    match moduleFileName path with
    | .error cause => .failed (.unexpected (.load (.url cause)))
    | .ok fileName =>
      match Language.grammarFor? fileName with
      | none => .failed (.expected (.noLanguage fileName))
      | some grammar => documentOf (s.syntaxTree grammar content)

theorem run_document (path : Text) (log : List Text) :
    (s.sources.document path).run log = (s.outcomeAt path, log ++ [path]) := by
  unfold Sources.document outcomeAt
  rw [StateT.run_bind, run_content]
  cases s.loader path with
  | failed message => rfl
  | content content =>
    simp only [bind]
    cases moduleFileName path with
    | error cause => rfl
    | ok fileName =>
      simp only
      cases Language.grammarFor? fileName <;> rfl

/-- The file at a path is a module: its extension, in lower case, is one of a module. -/
def IsModule (fileName : Text) : Prop :=
  Text.lowerAscii (Path.extension fileName) ∈ Language.moduleExtensions

instance (fileName : Text) : Decidable (IsModule fileName) :=
  inferInstanceAs (Decidable (_ ∈ _))

theorem grammarFor?_of_isModule {fileName : Text} (h : IsModule fileName) :
    Language.grammarFor? fileName = some (Language.grammarOf fileName) :=
  if_pos (List.contains_iff_mem.mpr h)

theorem grammarFor?_of_not_isModule {fileName : Text} (h : ¬ IsModule fileName) :
    Language.grammarFor? fileName = none :=
  if_neg (mt List.contains_iff_mem.mp h)

/-- **What can come of a module**: it cannot be loaded, it is none by its name, or its tree
decides. -/
theorem outcomeAt_cases (path : Text) :
    (∃ message, s.loader path = .failed message ∧
      s.outcomeAt path = .failed (.expected (.load message))) ∨
    ∃ content fileName, s.loader path = .content content ∧ moduleFileName path = .ok fileName ∧
      ((¬ IsModule fileName ∧ s.outcomeAt path = .failed (.expected (.noLanguage fileName))) ∨
        (IsModule fileName ∧
          s.outcomeAt path = documentOf (s.syntaxTree (Language.grammarOf fileName) content))) := by
  unfold outcomeAt
  cases s.loader path with
  | failed message => exact .inl ⟨message, rfl, rfl⟩
  | content content =>
    obtain ⟨fileName, hname⟩ := moduleFileName_isOk path
    refine .inr ⟨content, fileName, rfl, hname, ?_⟩
    by_cases hmodule : IsModule fileName
    · exact .inr ⟨hmodule, by simp only [hname, grammarFor?_of_isModule hmodule]⟩
    · exact .inl ⟨hmodule, by simp only [hname, grammarFor?_of_not_isModule hmodule]⟩

theorem outcomeAt_failsAs_iff {path : Text} {kind : String} :
    (s.outcomeAt path).FailsAs kind ↔
      (kind = "LoadError" ∧ ∃ message, s.loader path = .failed message) ∨
      (kind = "ModuleNotFound" ∧ ∃ content fileName, s.loader path = .content content ∧
        moduleFileName path = .ok fileName ∧ ¬ IsModule fileName) := by
  obtain ⟨message, hload, h⟩ | ⟨content, fileName, hload, hname, h⟩ := s.outcomeAt_cases path
  · rw [h, Outcome.failed_failsAs_iff]
    simp [hload, ComputeError.kind, eq_comm]
  · obtain ⟨hmodule, h⟩ | ⟨hmodule, h⟩ := h
    · rw [h, Outcome.failed_failsAs_iff]
      simp [hload, hname, hmodule, ComputeError.kind, eq_comm]
    · rw [h, iff_false_left (documentOf_not_failsAs _ kind)]
      simp [hload, hname, hmodule]

/-! ## From the target -/

/-- The entry point of a normalised target: the target itself, or the main module of its package. -/
def Finds (branch path entry : Text) : Prop :=
  (s.NamesModule path ∧ entry = path) ∨
    (¬ s.NamesModule path ∧ ∃ main, s.HasMain branch path main ∧ entry = entryPath branch path main)

/-- A manifest is needed, and it cannot be loaded, is no JSON, or names no main module. -/
def ManifestFails (branch path : Text) : Prop :=
  ¬ s.NamesModule path ∧
    ((∃ message, s.loader (manifestPath branch path) = .failed message) ∨
      ∃ content, s.loader (manifestPath branch path) = .content content ∧
        (Json.read? content = none ∨ ∀ main, ¬ NamesMain content main))

theorem hasMain_unique {branch path main main' : Text} (h : s.HasMain branch path main)
    (h' : s.HasMain branch path main') : main = main' := by
  obtain ⟨content, hload, hnames⟩ := h
  obtain ⟨content', hload', hnames'⟩ := h'
  obtain rfl : content = content' := Loaded.content.inj (hload.symm.trans hload')
  have hread : Package.mainField [] content = .ok main := mainField_eq_ok_iff.mpr hnames
  exact Except.ok.inj (hread.symm.trans (mainField_eq_ok_iff.mpr hnames'))

/-- **A target has one entry point.** -/
theorem finds_unique {branch path entry entry' : Text} (h : s.Finds branch path entry)
    (h' : s.Finds branch path entry') : entry = entry' := by
  obtain ⟨hmodule, rfl⟩ | ⟨hpackage, main, hmain, rfl⟩ := h
  · obtain ⟨-, rfl⟩ | ⟨hpackage, -⟩ := h'
    · rfl
    · exact absurd hmodule hpackage
  · obtain ⟨hmodule, -⟩ | ⟨-, main', hmain', rfl⟩ := h'
    · exact absurd hmodule hpackage
    · rw [s.hasMain_unique hmain hmain']

theorem manifestFails_iff {branch path : Text} :
    s.ManifestFails branch path ↔ ∀ entry, ¬ s.Finds branch path entry := by
  constructor
  · rintro ⟨hpackage, hfails⟩ entry (⟨hmodule, -⟩ | ⟨-, main, ⟨content, hload, hnames⟩, -⟩)
    · exact hpackage hmodule
    · obtain ⟨message, hfailed⟩ | ⟨content', hload', hbad⟩ := hfails
      · rw [hload] at hfailed
        cases hfailed
      · obtain rfl : content = content' := Loaded.content.inj (hload.symm.trans hload')
        obtain hread | hnone := hbad
        · obtain ⟨fields, value, hobj, -⟩ := hnames
          rw [hread] at hobj
          cases hobj
        · exact hnone main hnames
  · intro hnone
    have hpackage : ¬ s.NamesModule path := fun hmodule => hnone path (.inl ⟨hmodule, rfl⟩)
    refine ⟨hpackage, ?_⟩
    cases hload : s.loader (manifestPath branch path) with
    | failed message => exact .inl ⟨message, rfl⟩
    | content content =>
      refine .inr ⟨content, rfl, .inr fun main hnames => ?_⟩
      exact hnone _ (.inr ⟨hpackage, main, ⟨content, hload, hnames⟩, rfl⟩)

/-- **What a computation does**: it goes on from the entry point, with the manifest of a package
loaded before; or it ends with the manifest. -/
theorem compute_cases (target cwd branch : Text) :
    let path := normalizeTarget cwd target
    let run := (s.sources.compute target cwd branch).run []
    (∃ entry, s.Finds branch path entry ∧ run.1 = s.outcomeAt entry ∧
      ((s.NamesModule path ∧ run.2 = [entry]) ∨
        (¬ s.NamesModule path ∧ run.2 = [manifestPath branch path, entry]))) ∨
    (s.ManifestFails branch path ∧ run.2 = [manifestPath branch path] ∧
      ∃ cause, run.1 = .failed (.expected (.manifest cause))) := by
  intro path run
  have hrun : run = (s.sources.compute target cwd branch).run [] := rfl
  unfold Sources.compute at hrun
  rw [StateT.run_bind] at hrun
  by_cases hmodule : s.NamesModule path
  · rw [s.run_entryPoint_of_module rfl branch [] hmodule] at hrun
    have hdocument : run = (s.outcomeAt path, [path]) := hrun.trans (s.run_document path [])
    exact .inl ⟨path, .inl ⟨hmodule, rfl⟩, by rw [hdocument], .inl ⟨hmodule, by rw [hdocument]⟩⟩
  by_cases hmain : ∃ main, s.HasMain branch path main
  · obtain ⟨main, hmain⟩ := hmain
    rw [s.run_entryPoint_of_main rfl branch [] hmodule hmain] at hrun
    have hdocument := hrun.trans (s.run_document (entryPath branch path main) _)
    refine .inl ⟨_, .inr ⟨hmodule, main, hmain, rfl⟩, ?_, .inr ⟨hmodule, ?_⟩⟩
    · rw [hdocument]
    · rw [hdocument]
      rfl
  · have hnone := not_exists.mp hmain
    obtain ⟨cause, hentry⟩ := s.run_entryPoint_of_no_main rfl branch [] hmodule hnone
    rw [hentry] at hrun
    refine .inr ⟨s.manifestFails_iff.mpr ?_, ?_, cause, ?_⟩
    · rintro entry (⟨h, -⟩ | ⟨-, main, h, -⟩)
      · exact hmodule h
      · exact hnone main h
    · rw [hrun]
      rfl
    · rw [hrun]
      rfl

/-- **A computation fails in an expected way** for one of three reasons, and the kind of the failure
tells which. -/
theorem compute_failsAs_iff (target cwd branch : Text) (kind : String) :
    let path := normalizeTarget cwd target
    ((s.sources.compute target cwd branch).run []).1.FailsAs kind ↔
      (kind = "ManifestError" ∧ s.ManifestFails branch path) ∨
      ∃ entry, s.Finds branch path entry ∧
        ((kind = "LoadError" ∧ ∃ message, s.loader entry = .failed message) ∨
          (kind = "ModuleNotFound" ∧ ∃ content fileName, s.loader entry = .content content ∧
            moduleFileName entry = .ok fileName ∧ ¬ IsModule fileName)) := by
  intro path
  obtain ⟨entry, hfinds, houtcome, -⟩ | ⟨hfails, -, cause, houtcome⟩ :=
    s.compute_cases target cwd branch
  · have hmanifest : ¬ s.ManifestFails branch path := fun h => s.manifestFails_iff.mp h entry hfinds
    rw [houtcome, outcomeAt_failsAs_iff]
    constructor
    · exact fun h => .inr ⟨entry, hfinds, h⟩
    · rintro (⟨-, h⟩ | ⟨entry', hfinds', h⟩)
      · exact absurd h hmanifest
      · rwa [s.finds_unique hfinds hfinds']
  · have hnone := s.manifestFails_iff.mp hfails
    rw [houtcome, Outcome.failed_failsAs_iff]
    constructor
    · exact fun hkind => .inl ⟨hkind.symm, hfails⟩
    · rintro (⟨hkind, -⟩ | ⟨entry, hfinds, -⟩)
      · exact hkind.symm
      · exact absurd hfinds (hnone entry)

/-- The tree that a computation reads: that of the entry point, if it is loaded and is a module. -/
def ModuleTree (branch path : Text) (root : Tree) : Prop :=
  ∃ entry content fileName, s.Finds branch path entry ∧ s.loader entry = .content content ∧
    moduleFileName entry = .ok fileName ∧ IsModule fileName ∧
    root = s.syntaxTree (Language.grammarOf fileName) content

/-- A package in the directory `/w/pkg` whose main module exports one type. -/
def onePackage : Surroundings where
  isDirectory path := path = "/w/pkg".toList
  loader path :=
    if path = "/w/pkg/package.json".toList then
      .content (manifestOf " ./a.ts ".toList)
    else if path = "/w/pkg/a.ts".toList then .content "export type T = string".toList
    else .failed "no such file".toList
  syntaxTree _ source :=
    let name : Tree := ⟨.other, true, some .name, "T".toList, []⟩
    let value : Tree := ⟨.other, true, some .value, "string".toList, []⟩
    let typeAlias : Tree := ⟨.typeAliasDeclaration, true, some .declaration,
      "type T = string".toList, [name, value]⟩
    ⟨.other, true, none, source, [⟨.exportStatement, true, none, source, [typeAlias]⟩]⟩

/-- **What comes of a computation, and what it loads.** A target that stands for itself is all that
is loaded; of a package the manifest is loaded, and then the entry point if there is one. The kind
of a failure tells which of the three steps failed. Where none did, and the tree that was read
answers, there is a document, with exactly three fields. -/
theorem compute_classifies (target cwd branch : Text) :
    let path := normalizeTarget cwd target
    let run := (s.sources.compute target cwd branch).run []
    let outcome := run.1
    let loaded := run.2
    (s.NamesModule path → loaded = [path]) ∧
    (¬ s.NamesModule path →
      (s.ManifestFails branch path ∧ loaded = [manifestPath branch path]) ∨
      ∃ entry, s.Finds branch path entry ∧ loaded = [manifestPath branch path, entry]) ∧
    (outcome.FailsAs "ManifestError" ↔ s.ManifestFails branch path) ∧
    (outcome.FailsAs "LoadError" ↔
      ∃ entry message, s.Finds branch path entry ∧ s.loader entry = .failed message) ∧
    (outcome.FailsAs "ModuleNotFound" ↔
      ∃ entry content fileName, s.Finds branch path entry ∧ s.loader entry = .content content ∧
        moduleFileName entry = .ok fileName ∧ ¬ IsModule fileName) ∧
    ((∀ root, s.ModuleTree branch path root → Answers root) →
      ¬ outcome.FailsAs "ManifestError" → ¬ outcome.FailsAs "LoadError" →
      ¬ outcome.FailsAs "ModuleNotFound" →
      ∃ properties, outcome.result =
        .ok (.ofFields [("$schema", Document.draft), ("type", .ofString "object"),
          ("properties", .obj properties)])) := by
  intro path run outcome loaded
  have hfailsAs := s.compute_failsAs_iff target cwd branch
  have hcases := s.compute_cases target cwd branch
  refine ⟨fun hmodule => ?_, fun hpackage => ?_, ?_, ?_, ?_,
    fun hanswers hnoManifest hnoLoad hnoModule => ?_⟩
  · obtain ⟨entry, hfinds, -, ⟨-, hloaded⟩ | ⟨hpackage, -⟩⟩ | ⟨hfails, -⟩ := hcases
    · rwa [s.finds_unique (.inl ⟨hmodule, rfl⟩) hfinds]
    · exact absurd hmodule hpackage
    · exact absurd hmodule hfails.1
  · obtain ⟨entry, hfinds, -, ⟨hmodule, -⟩ | ⟨-, hloaded⟩⟩ | ⟨hfails, hloaded, -⟩ := hcases
    · exact absurd hmodule hpackage
    · exact .inr ⟨entry, hfinds, hloaded⟩
    · exact .inl ⟨hfails, hloaded⟩
  · simpa using hfailsAs "ManifestError"
  · simpa using hfailsAs "LoadError"
  · simpa using hfailsAs "ModuleNotFound"
  · obtain ⟨entry, hfinds, houtcome, -⟩ | ⟨hfails, -⟩ := hcases
    · obtain ⟨message, hload, h⟩ | ⟨content, fileName, hload, hname, h⟩ := s.outcomeAt_cases entry
      · exact absurd ((hfailsAs _).mpr (.inr ⟨entry, hfinds, .inl ⟨rfl, message, hload⟩⟩)) hnoLoad
      · obtain ⟨hmodule, -⟩ | ⟨hmodule, h⟩ := h
        · exact absurd ((hfailsAs _).mpr (.inr ⟨entry, hfinds,
            .inr ⟨rfl, content, fileName, hload, hname, hmodule⟩⟩)) hnoModule
        · rw [show outcome = _ from houtcome.trans h]
          exact documentOf_of_answers
            (hanswers _ ⟨entry, content, fileName, hfinds, hload, hname, hmodule, rfl⟩)
    · exact absurd ((hfailsAs _).mpr (.inl ⟨rfl, hfails⟩)) hnoManifest

/-- The manifest and the main module of a package are loaded, and there is a document. -/
theorem compute_classifies_of_package :
    let s := onePackage
    let path := "/w/pkg".toList
    let run := (s.sources.compute "./pkg/".toList "/w".toList "main".toList).run []
    normalizeTarget "/w".toList "./pkg/".toList = path ∧ ¬ s.NamesModule path ∧
      (∃ root, s.ModuleTree "main".toList path root) ∧
      (∀ root, s.ModuleTree "main".toList path root → Answers root) ∧
      run.2 = ["/w/pkg/package.json".toList, "/w/pkg/a.ts".toList] ∧
      ∃ properties, run.1.result =
        .ok (.ofFields [("$schema", Document.draft), ("type", .ofString "object"),
          ("properties", .obj properties)]) := by
  intro s path run
  have hnormal : normalizeTarget "/w".toList "./pkg/".toList = path := by decide
  have hpackage : ¬ s.NamesModule path := by
    rintro (⟨hhosted, -⟩ | ⟨-, hdir⟩)
    · exact absurd hhosted (by decide)
    · exact absurd hdir (by decide)
  have hmain : s.HasMain "main".toList path "./a.ts".toList :=
    ⟨_, rfl, namesMain_manifestOf (by decide) (by decide) (by decide)⟩
  have hfinds : s.Finds "main".toList path "/w/pkg/a.ts".toList :=
    .inr ⟨hpackage, _, hmain, by decide⟩
  have hanswers : ∀ grammar source, Answers (s.syntaxTree grammar source) := by
    intro grammar source
    refine ⟨_, rfl, fun b hb symbol hsymbol => ?_⟩
    obtain rfl : b = ⟨"T".toList, some "T".toList⟩ := List.mem_singleton.mp hb
    obtain rfl : "T".toList = symbol := Option.some.inj hsymbol
    exact ⟨_, rfl⟩
  have hentry : s.loader "/w/pkg/a.ts".toList = .content "export type T = string".toList := by
    decide
  have hname : moduleFileName "/w/pkg/a.ts".toList = .ok "/w/pkg/a.ts".toList := rfl
  have hmodule : IsModule "/w/pkg/a.ts".toList := by decide
  have htree : ∀ root, s.ModuleTree "main".toList path root → Answers root := by
    rintro root ⟨entry, content, fileName, -, -, -, -, rfl⟩
    exact hanswers _ _
  have hrun : (s.sources.compute "./pkg/".toList "/w".toList "main".toList).run [] = run := rfl
  obtain ⟨-, hloaded, hmanifest, hload, hmissing, hdocument⟩ :=
    s.compute_classifies "./pkg/".toList "/w".toList "main".toList
  rw [hnormal, hrun] at hloaded hmanifest hload hmissing hdocument
  have hpaths : run.2 = ["/w/pkg/package.json".toList, "/w/pkg/a.ts".toList] := by
    obtain ⟨hfails, -⟩ | ⟨entry, hentry', hpaths⟩ := hloaded hpackage
    · exact absurd hfinds (s.manifestFails_iff.mp hfails _)
    · rw [hpaths, s.finds_unique hentry' hfinds]
      exact congrArg (· :: _) (by decide)
  have hnoLoad : ¬ run.1.FailsAs "LoadError" := by
    rw [hload]
    rintro ⟨entry, message, hentry', hfailed⟩
    rw [s.finds_unique hentry' hfinds, hentry] at hfailed
    cases hfailed
  have hnoModule : ¬ run.1.FailsAs "ModuleNotFound" := by
    rw [hmissing]
    rintro ⟨entry, content, fileName, hentry', -, hname', hnot⟩
    rw [s.finds_unique hentry' hfinds, hname] at hname'
    cases hname'
    exact hnot hmodule
  exact ⟨hnormal, hpackage, ⟨_, _, _, _, hfinds, hentry, hname, hmodule, rfl⟩, htree, hpaths,
    hdocument htree (mt hmanifest.mp fun h => s.manifestFails_iff.mp h _ hfinds) hnoLoad hnoModule⟩

end Surroundings

end ExportSchema
