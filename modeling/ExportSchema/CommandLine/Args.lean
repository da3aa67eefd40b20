import ExportSchema.Number.Reading

/-!
# Command-line arguments

There are two commands: `schema TARGET [--indent N]` and `serve [--transport T]`. Options may be
shortened as long as they stay clear, their values may follow an equals sign, and two dashes end
the options; of an option given twice the last value counts. Two dashes as the value of an option
leave it without one.

* `Token`, `classify?`: what an argument is, by the flags of a command.
* `Args.parse`: the command of a list of arguments.
-/

namespace ExportSchema.CommandLine.Args

/-- The options of the commands. -/
inductive Flag where
  | help
  | indent
  | transport
  deriving DecidableEq, Repr

/-- The options that a command knows, by name. -/
abbrev Flags := List (Text × Flag)

/-- The options that come before a command. -/
def mainFlags : Flags := [("-h".toList, .help), ("--help".toList, .help)]

/-- The options of `schema`. -/
def schemaFlags : Flags := mainFlags ++ [("--indent".toList, .indent)]

/-- The options of `serve`. -/
def serveFlags : Flags := mainFlags ++ [("--transport".toList, .transport)]

/-! ## Classifying arguments -/

/-- What an argument is. -/
inductive Token where
  | word (text : Text)
  /-- The two dashes that end the options. -/
  | dashes
  /-- An option that the command knows, by its full name, with a value that was given along. -/
  | flag (f : Flag) (name : Text) (value : Option Text)
  /-- An option that the command does not know. -/
  | unknown
  deriving DecidableEq, Repr

/-- The options that an argument may be short for, with the value given along: a long option by any
start of its name, a short one by its letter with text after it. -/
def shortFor (flags : Flags) (arg : Text) : List Token :=
  if Text.startsWith "--".toList arg then
    let (start, value) :=
      match Text.cut? '=' arg with
      | some (start, value) => (start, some value)
      | none => (arg, none)
    flags.filterMap fun (name, f) =>
      if Text.startsWith start name then some (.flag f name value) else none
  else
    flags.filterMap fun (name, f) =>
      if name = arg.take 2 then some (.flag f name (some (arg.drop 2)))
      else if Text.startsWith arg name then some (.flag f name none)
      else none

/-- A minus sign and digits, with at most one point before the last digit. -/
def isNegativeNumber (arg : Text) : Bool :=
  let body := if arg.getLast? = some '\n' then arg.dropLast else arg
  match body with
  | '-' :: digits =>
    let rest := digits.dropWhile Text.isDigit
    match rest with
    | [] => !digits.isEmpty
    | '.' :: fraction => !fraction.isEmpty && fraction.all Text.isDigit
    | _ => false
  | _ => false

/-- What an argument is, where the options have not ended; `none` for a short form of several
options. -/
def classify? (flags : Flags) (arg : Text) : Option Token :=
  if arg.head? ≠ some '-' ∨ arg = ['-'] then some (.word arg)
  else
    match flags.lookup arg with
    | some f => some (.flag f arg none)
    | none =>
      let withValue : Option Token := do
        let (name, value) ← Text.cut? '=' arg
        let f ← flags.lookup name
        return .flag f name (some value)
      match withValue, shortFor flags arg with
      | some t, _ => some t
      | none, [t] => some t
      | none, _ :: _ :: _ => none
      | none, [] => some (if isNegativeNumber arg || arg.contains ' ' then .word arg else .unknown)

/-- What the arguments of a command are. -/
def tokens? (flags : Flags) : List Text → Option (List Token)
  | [] => some []
  | arg :: args =>
    if arg = "--".toList then some (.dashes :: args.map .word)
    else
      match classify? flags arg, tokens? flags args with
      | some t, some ts => some (t :: ts)
      | _, _ => none

/-! ## Reading a command -/

/-- Why no command is run. -/
inductive Stop where
  /-- Help was asked for. -/
  | help
  /-- The arguments make no command. -/
  | usage
  deriving DecidableEq, Repr

/-- The arguments of a command read so far. -/
structure Given where
  target : Option Text
  indent : Option Int
  transport : Option Text
  /-- Was there an argument that the command has no use for? -/
  extra : Bool
  deriving DecidableEq, Repr

/-- The arguments before any are read. -/
def Given.start : Given := ⟨none, some 2, some "stdio".toList, false⟩

/-- Take the value of an option; two dashes take it away. -/
def Given.set (g : Given) (f : Flag) (value : Text) : Except Stop Given :=
  match f with
  | .help => .error .usage
  | .indent =>
    if value = "--".toList then .ok { g with indent := none }
    else
      match Number.readInt? value with
      | some n => .ok { g with indent := some n }
      | none => .error .usage
  | .transport =>
    if value = "--".toList then .ok { g with transport := none }
    else if value = "sse".toList ∨ value = "stdio".toList then
      .ok { g with transport := some value }
    else .error .usage

/-- Ask for help. The short option may be repeated in one argument, and takes no value. -/
def askHelp (name : Text) (value : Option Text) : Stop :=
  match value with
  | none => .help
  | some letters =>
    if name = "-h".toList ∧ letters ≠ [] ∧ letters.all (· = 'h') then .help else .usage

/-- Read the arguments of a command, where `takesTarget` says whether it has a target. -/
def Given.read (takesTarget : Bool) (g : Given) : List Token → Except Stop Given
  | [] => .ok g
  | .unknown :: ts => Given.read takesTarget { g with extra := true } ts
  | .word t :: .dashes :: ts =>
    if takesTarget && g.target.isNone then Given.read takesTarget { g with target := some t } ts
    else Given.read takesTarget { g with extra := true } ts
  | .word t :: ts =>
    if takesTarget && g.target.isNone then Given.read takesTarget { g with target := some t } ts
    else Given.read takesTarget { g with extra := true } ts
  | .dashes :: .word t :: ts =>
    if takesTarget && g.target.isNone then Given.read takesTarget { g with target := some t } ts
    else Given.read takesTarget { g with extra := true } ts
  | .dashes :: ts => Given.read takesTarget { g with extra := true } ts
  | .flag .help name value :: _ => .error (askHelp name value)
  | .flag f _ (some value) :: ts =>
    match g.set f value with
    | .ok g => Given.read takesTarget g ts
    | .error stop => .error stop
  | .flag f _ none :: .word value :: ts =>
    match g.set f value with
    | .ok g => Given.read takesTarget g ts
    | .error stop => .error stop
  | .flag _ _ none :: _ => .error .usage

/-- The arguments of a command. -/
def readArgs (flags : Flags) (takesTarget : Bool) (args : List Text) : Except Stop Given :=
  match tokens? flags args with
  | none => .error .usage
  | some ts => Given.start.read takesTarget ts

/-- What is to be run. -/
inductive Command where
  | schema (target : Text) (indent : Option Int)
  | serve (transport : Option Text)
  deriving DecidableEq, Repr

/-- The command of a name and its arguments; `extra` says that there were arguments of no use
before. -/
def command (extra : Bool) (name : Text) (args : List Text) : Except Stop Command := do
  if name = "schema".toList then
    let g ← readArgs schemaFlags true args
    match g.target with
    | some target => if extra || g.extra then .error .usage else return .schema target g.indent
    | none => .error .usage
  else if name = "serve".toList then
    let g ← readArgs serveFlags false args
    if extra || g.extra then .error .usage else return .serve g.transport
  else .error .usage

/-- The command of arguments, after some of no use when `extra` is set. -/
def parseFrom (extra : Bool) : List Text → Except Stop Command
  | [] => .error .usage
  | arg :: args =>
    if arg = "--".toList then .error .usage
    else
      match classify? mainFlags arg with
      | some (.word name) => command extra name args
      | some (.flag _ name value) => .error (askHelp name value)
      | some .unknown | some .dashes => parseFrom true args
      | none => .error .usage

/-- The command of arguments. -/
def parse (args : List Text) : Except Stop Command := parseFrom false args

end ExportSchema.CommandLine.Args
