import ExportSchema.Fields
import ExportSchema.Number.Reading
import ExportSchema.Text.Quoted
import ExportSchema.VariableFile

/-!
# Settings

Settings come from environment variables, which a file of variables may add to.
-/

namespace ExportSchema

/-- The variables of an environment. -/
abbrev Environment := Fields Text

/-- What can be set. -/
structure Settings where
  token : Option Text
  branch : Text
  timeout : Binary64
  deriving DecidableEq, Repr

/-- A variable that no environment can hold. -/
inductive VariableFault where
  | nullByte
  | badName
  deriving DecidableEq, Repr

/-- What is said of such a variable. -/
def VariableFault.message : VariableFault → Text
  | nullByte => "embedded null byte".toList
  | badName => "illegal environment variable name".toList

/-- The value for the timeout is no number. -/
structure BadTimeout where
  value : Text
  deriving DecidableEq, Repr

namespace Settings

/-- The variable of the timeout. -/
def timeoutVariable : Text := "TYPESCHEMA_HTTP_TIMEOUT".toList

/-- The variable of the branch that is read when a target names none. -/
def branchVariable : Text := "TYPESCHEMA_DEFAULT_BRANCH".toList

/-- The variables of the token, the first that is set and not empty counts. -/
def tokenVariables : List Text := ["OCTOKIT_API".toList, "GITHUB_TOKEN".toList]

/-- The value of a variable that is set and not empty. -/
def nonEmpty? (env : Environment) (name : Text) : Option Text :=
  match env.get? name with
  | none | some [] => none
  | some value => some value

/-- Thirty seconds. -/
def defaultTimeout : Binary64 := .ofDecimal false 30 0

/-- The settings of an environment. -/
def ofEnvironment (env : Environment) : Except BadTimeout Settings := do
  let timeout ←
    match env.get? timeoutVariable with
    | none => .ok defaultTimeout
    | some value =>
      match Number.readFloat? value with
      | some x => .ok x
      | none => .error ⟨value⟩
  return ⟨tokenVariables.findSome? (nonEmpty? env), (nonEmpty? env branchVariable).getD
    "main".toList, timeout⟩

/-- Set a variable of an environment. Neither name nor value may hold a NUL, nor the name an equals
sign. -/
def setVariable (env : Environment) (name value : Text) : Except VariableFault Environment :=
  if name.contains '\x00' || value.contains '\x00' then .error .nullByte
  else if name.contains '=' then .error .badName
  else .ok (env.putNew name value)

/-- An environment with the variables of a file, where the ones that are set win. -/
def withFile (env : Environment) (content : Text) : Except VariableFault Environment :=
  (VariableFile.resolve env content).foldlM (fun env (name, value) =>
    match value with
    | some v => if (env.get? name).isSome then .ok env else setVariable env name v
    | none => .ok env) env

end Settings

/-- What is said of a timeout that is no number. -/
def BadTimeout.message (e : BadTimeout) : Text :=
  Settings.timeoutVariable ++ " must be a number, got ".toList ++ Text.quoted e.value

end ExportSchema
