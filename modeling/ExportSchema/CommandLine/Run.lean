import ExportSchema.CommandLine.Args
import ExportSchema.Compute
import ExportSchema.Json.Writer
import ExportSchema.Text.Line

/-!
# Running commands

* `run`: the command line, with what it prints, what it reports and its exit code.
* `answerCall`: the same computation as a tool call, which answers with a value.
-/

namespace ExportSchema.CommandLine

/-- What a command line leaves behind. -/
structure Report where
  exitCode : UInt32
  output : Text
  lines : List Text
  /-- The transport on which a server was started, if one was; it may have been left open. -/
  served : Option (Option Text)
  deriving DecidableEq, Repr

/-- A report without output. -/
def Report.quiet (exitCode : UInt32) (lines : List Text) : Report := ⟨exitCode, [], lines, none⟩

/-- The bound of the machine's sizes, `2 ^ 63`. -/
def sizeBound : Int := 0x8000000000000000

/-- An indentation beyond the machine's sizes. -/
def wideMessage : Text := "cannot fit 'int' into an index-sized integer".toList

/-- An indentation without a value. -/
def missingMessage : Text := "can't multiply sequence by non-int of type 'list'".toList

/-- The text of a document; a width below zero counts as none. -/
def documentText (indent : Option Int) (document : Json) : Except Text Text :=
  match indent with
  | none => .error missingMessage
  | some width =>
    if width < -sizeBound ∨ sizeBound ≤ width then .error wideMessage
    else .ok (document.indented width.toNat ++ ['\n'])

/-- What is reported, line by line; a message may have several lines. -/
def reportedLines (messages : List Text) : List Text := messages.flatMap Text.lines

/-- The line that reports an unexpected failure. -/
def errorLine (message : Text) : Text := "Error: ".toList ++ message

/-- The report of a computation. -/
def reportOf (indent : Option Int) (o : Outcome) : Report :=
  match o.result with
  | .ok document =>
    match documentText indent document with
    | .ok text => ⟨0, text, o.lines, none⟩
    | .error message => .quiet 1 (o.lines ++ [errorLine message])
  | .error (.expected e) => .quiet 1 (o.lines ++ [e.kind.toList ++ ": ".toList ++ e.message])
  | .error (.unexpected e) => .quiet 1 (o.lines ++ [errorLine e.message])

variable {m : Type → Type} [Monad m]

/-- Run a command line. Arguments that make no command give the exit code 2. -/
def run (host : Host m) (env : Environment) (cwd : Text) (args : List Text) : m Report := do
  match Args.parse args with
  | .error .help => return .quiet 0 []
  | .error .usage => return .quiet 2 []
  | .ok (.serve transport) => return ⟨0, [], [], some transport⟩
  | .ok (.schema target indent) => return reportOf indent (← computeTarget host env cwd target)

/-- The answer to a tool call. -/
inductive Answer where
  | document (j : Json)
  | error (e : ComputeError)
  | failure (message : Text)

/-- The answer that an outcome gives. -/
def answerOf (o : Outcome) : Answer :=
  match o.result with
  | .ok j => .document j
  | .error (.expected e) => .error e
  | .error (.unexpected e) => .failure e.message

/-- Answer a tool call for a target, and tell the lines reported on the way. -/
def answerCall (host : Host m) (env : Environment) (cwd target : Text) :
    m (List Text × Answer) := do
  let o ← computeTarget host env cwd target
  return (o.lines, answerOf o)

end ExportSchema.CommandLine
