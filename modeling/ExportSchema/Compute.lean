import ExportSchema.Document
import ExportSchema.Loader
import ExportSchema.Module.Reading
import ExportSchema.Package
import ExportSchema.Settings

/-!
# Computing the schema of a target

`Sources.compute` finds the entry point of a target, loads it, reads its syntax tree and assembles
the document of its exports. `computeTarget` does so with the settings of an environment.

A computation fails in an expected way when a load fails, a package has no entry point or a file is
no module; any other failure is unexpected.
-/

namespace ExportSchema

/-- An expected failure of a computation. -/
inductive ComputeError where
  | load (message : Text)
  | manifest (cause : Package.ManifestError)
  | noLanguage (fileName : Text)
  deriving DecidableEq, Repr

/-- The word for the kind of a failure. -/
def ComputeError.kind : ComputeError → String
  | load _ => "LoadError"
  | manifest _ => "ManifestError"
  | noLanguage _ => "ModuleNotFound"

/-- What is said of a failure. -/
def ComputeError.message : ComputeError → Text
  | load message => message
  | manifest cause => cause.message
  | noLanguage fileName => "Could not find a type oracle for module: ".toList ++ fileName

/-- An unexpected failure. -/
inductive Unexpected where
  | settings (cause : BadTimeout)
  | load (fault : LoadFault)
  | timeout (fault : TimeoutFault)
  | tree (fault : Fault)
  | fragment (cause : Schema.FragmentError)
  deriving DecidableEq

/-- What is said of an unexpected failure. -/
def Unexpected.message : Unexpected → Text
  | settings cause => cause.message
  | load fault => fault.message
  | timeout fault => fault.message
  | tree fault => fault.message.toList
  | fragment (.unknownPrimitive name) => Text.quoted name
  | fragment (.notANumber cause) => cause.message

/-- Why there is no document. -/
inductive Failure where
  | expected (error : ComputeError)
  | unexpected (error : Unexpected)
  deriving DecidableEq

/-- What comes of a computation: the lines it reported, and a document or a failure. -/
structure Outcome where
  lines : List Text
  result : Except Failure Json

/-- An outcome that reported nothing and failed. -/
def Outcome.failed (f : Failure) : Outcome := ⟨[], .error f⟩

/-- The document of a module, from the root of its syntax tree. -/
def documentOf (root : Tree) : Outcome :=
  match Module.read root with
  | .error fault => .failed (.unexpected (.tree fault))
  | .ok m =>
    let (events, result) :=
      Document.assemble (Module.typeOf m.symbols) m.declarations (exportsOf m.declarations)
    ⟨events.filterMap (·.line?), result.mapError fun
      | .types fault => .unexpected (.tree fault)
      | .fragment cause => .unexpected (.fragment cause)⟩

variable {m : Type → Type} [Monad m]

/-- What a computation needs: directories, a way to load, and syntax trees. -/
structure Sources (m : Type → Type) where
  isDirectory : Text → m Bool
  load : Text → m (Except LoadFault Loaded)
  syntaxTree : Grammar → Text → m Tree

/-- Load a path; `failed` says what a failed load means here. -/
def Sources.content (s : Sources m) (path : Text) (failed : Text → ComputeError) :
    m (Except Failure Text) := do
  match ← s.load path with
  | .error fault => return .error (.unexpected (.load fault))
  | .ok (.failed message) => return .error (.expected (failed message))
  | .ok (.content text) => return .ok text

/-- What a target is. Only a local path is looked up. -/
def Sources.target (s : Sources m) (branch path : Text) : m Package.Target := do
  if Repository.isHosted path then return .of branch path false
  else return .of branch path (← s.isDirectory path)

/-- The path of the module that a target stands for. -/
def Sources.entryPoint (s : Sources m) (target cwd branch : Text) : m (Except Failure Text) := do
  let found ← s.target branch (Package.normalizeTarget cwd target)
  match found.manifest? with
  | none => return .ok (found.entry [])
  | some manifest =>
    match ← s.content manifest fun message => .manifest (.unreadable message) with
    | .error f => return .error f
    | .ok content =>
      match Package.mainField manifest content with
      | .error cause => return .error (.expected (.manifest cause))
      | .ok main => return .ok (found.entry main)

/-- The document of a module at a path. -/
def Sources.document (s : Sources m) (path : Text) : m Outcome := do
  match ← s.content path .load with
  | .error f => return .failed f
  | .ok source =>
    match Repository.moduleFileName path with
    | .error cause => return .failed (.unexpected (.load (.url cause)))
    | .ok fileName =>
      match Language.grammarFor? fileName with
      | none => return .failed (.expected (.noLanguage fileName))
      | some grammar => return documentOf (← s.syntaxTree grammar source)

/-- The document of the exports of a target. -/
def Sources.compute (s : Sources m) (target cwd branch : Text) : m Outcome := do
  match ← s.entryPoint target cwd branch with
  | .error f => return .failed f
  | .ok path => s.document path

/-- The document of the exports of a target, with the settings of an environment. -/
def computeTarget (host : Host m) (env : Environment) (cwd target : Text) : m Outcome := do
  match Settings.ofEnvironment env with
  | .error cause => return .failed (.unexpected (.settings cause))
  | .ok settings =>
    let loader := Loader.select target settings.token (.real settings.timeout)
    match ← loader.prepare host with
    | .error fault => return .failed (.unexpected (.timeout fault))
    | .ok () =>
      let sources : Sources m := ⟨host.isDirectory, loader.load host, host.syntaxTree⟩
      sources.compute target cwd settings.branch

end ExportSchema
