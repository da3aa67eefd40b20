import ExportSchema.Json.Reader
import ExportSchema.Path
import ExportSchema.Repository
import ExportSchema.Text.Blank

/-!
# Entry points of packages

A target is a file, a directory or a hosted repository. A file stands for itself; a directory or a
repository is a package, whose manifest names its main module.

* `normalizeTarget`: the target as an absolute path or a URL.
* `mainField`: the main module that a manifest names.
* `Target.of`: what has to be loaded to find the entry point.
-/

namespace ExportSchema.Package

/-- The name of the manifest. -/
def manifestName : Text := "package.json".toList

/-- The target as a path from the root, or as a URL without slashes at its end. -/
def normalizeTarget (cwd target : Text) : Text :=
  if Repository.isHosted target then Text.stripEndWith (· = '/') target
  else Path.normalize (Path.join cwd target)

/-- Why a package has no entry point. -/
inductive ManifestError where
  | unreadable (message : Text)
  | invalid (path content : Text) (cause : Json.Malformed)
  | noMain
  deriving DecidableEq, Repr

/-- What is said of such a package. -/
def ManifestError.message : ManifestError → Text
  | unreadable message =>
    "Error reading ".toList ++ manifestName ++ " from directory: ".toList ++ message
  | invalid path content cause =>
    "Invalid ".toList ++ manifestName ++ " at ".toList ++ path ++ ": ".toList ++
      cause.message content
  | noMain => "No \"main\" field found in ".toList ++ manifestName

/-- The main module that a manifest names: a string that is not blank, without the blanks around
it. -/
def mainField (path content : Text) : Except ManifestError Text :=
  match Json.read content with
  | .error cause => .error (.invalid path content cause)
  | .ok manifest =>
    match manifest.field? "main" with
    | some (.str main) =>
      let main := Text.trim main
      if main.isEmpty then .error .noMain else .ok main
    | _ => .error .noMain

/-- What a target is. -/
inductive Target where
  /-- A module, to be loaded as it is. -/
  | file (path : Text)
  /-- A local package in a directory. -/
  | directory (path : Text)
  /-- A hosted package, by the URL below which its files are. -/
  | repository (base : Text)
  deriving DecidableEq, Repr

/-- What a normalised path is, where `isDirectory` tells of local ones. -/
def Target.of (branch path : Text) (isDirectory : Bool) : Target :=
  if Repository.isHosted path then
    if Text.hasPiece "/blob/".toList path then .file path
    else .repository (path ++ "/blob/".toList ++ branch ++ ['/'])
  else if isDirectory then .directory path
  else .file path

/-- The path of the manifest of a package. -/
def Target.manifest? : Target → Option Text
  | .file _ => none
  | .directory path => some (Path.join path manifestName)
  | .repository base => some (base ++ manifestName)

/-- The path of the main module of a package. -/
def Target.entry (main : Text) : Target → Text
  | .file path => path
  | .directory path => Path.normalize (Path.join path main)
  | .repository base => base ++ Text.stripStartWith (· = '/') (Path.normalize main)

end ExportSchema.Package
