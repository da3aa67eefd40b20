import ExportSchema.CommandLine.Run
import ExportSchema.Json.Reader
import ExportSchema.Tree.Json

/-!
# The program

The command line over the real file system. The syntax tree of the module is read from standard
input, as JSON. There is no network here: hosted files cannot be fetched.
-/

namespace ExportSchema.Program

/-- Why a file cannot be opened. -/
def fileError (e : IO.Error) : FileError :=
  match e with
  | .noFileOrDirectory .. => .notFound
  | .inappropriateType _ code _ => if code = 21 then .isDirectory else .notDirectory
  | .invalidArgument _ code details => .system code.toNat details.toList
  | .permissionDenied _ code details => .system code.toNat details.toList
  | .resourceExhausted _ code details =>
    if code = 36 then .nameTooLong else .system code.toNat details.toList
  | e => .system 5 e.toString.toList

/-- Read a file of the file system. -/
def readFile (path : Text) : IO (Except FileError Bytes) := do
  if path.contains '\x00' then return .error .nullByte
  else
    try
      let bytes ← IO.FS.readBinFile (String.ofList path)
      return .ok bytes.toList
    catch e => return .error (fileError e)

/-- Is there a directory at a path? Only a directory refuses to be read as one. -/
def isDirectory (path : Text) : IO Bool := do
  match ← readFile path with
  | .error .isDirectory => return true
  | _ => return false

/-- The syntax tree on standard input. -/
def readTree (source : Text) : IO Tree := do
  let input ← (← IO.getStdin).readToEnd
  match (Json.read? input.toList).bind Spans.ofJson? with
  | some spans => return .ofSpans (Utf8.encode source) spans
  | none => throw (IO.userError "no syntax tree on standard input")

/-- The file system as the surroundings of a computation. -/
def host : Host IO where
  isDirectory := isDirectory
  readFile := readFile
  getPage _ _ := return .failed "no network".toList
  openService _ _ := return ()
  getContents _ := return .refused 503 (.ofString "no network")
  detectEncoding _ := return none
  syntaxTree _ source := readTree source

/-- The environment variables that are settings. -/
def environment : IO Environment := do
  let names := Settings.tokenVariables ++ [Settings.branchVariable, Settings.timeoutVariable]
  let values ← names.mapM fun name => do
    let value ← IO.getEnv (String.ofList name)
    return value.map fun v => (name, v.toList)
  return values.filterMap id

/-- Run the command line and print what it leaves behind. -/
def run (args : List String) : IO UInt32 := do
  let cwd := (← IO.currentDir).toString.toList
  let report ← CommandLine.run host (← environment) cwd (args.map String.toList)
  let stderr ← IO.getStderr
  for line in report.lines do
    stderr.putStrLn (String.ofList line)
  IO.print (String.ofList report.output)
  return report.exitCode

end ExportSchema.Program

/-- The entry point of the program. -/
def main (args : List String) : IO UInt32 := ExportSchema.Program.run args
