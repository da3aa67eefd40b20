import ExportSchema.Fields
import ExportSchema.Text.Blank

/-!
# Files of variables

A file of variables has lines `KEY=value`. A line may start with `export`, a key may stand in single
quotes, and a value in single or double quotes, where it may run over several lines. A number sign
starts a comment in front of a key, after blanks in a value without quotes, or after a value. A key
without an equals sign takes a value away. A line that fits none of this is left out.

In a value, `${NAME}` stands for another variable, and `${NAME:-text}` for `text` when there is none.

* `VariableFile.bindings`: the keys of a file with their values, in order.
* `VariableFile.resolve`: the variables of a file, with references carried out.
-/

namespace ExportSchema.VariableFile

/-! ## Values -/

/-- The text with every line end written as a line feed. -/
def withLineFeeds (t : Text) : Text :=
  (Text.dropBefore '\r' '\n' t).map fun c => if c = '\r' then '\n' else c

/-- The text up to a closing quote and the text after it. A quote behind a backslash closes only
where no other does. -/
def quotedBody? (quote : Char) : Text → Option (Text × Text)
  | [] => none
  | [c] => if c = quote then some ([], []) else none
  | c :: d :: rest =>
    if c = quote then some ([], d :: rest)
    else if c = '\\' ∧ d = quote then
      match quotedBody? quote rest with
      | some (body, after) => some (c :: d :: body, after)
      | none => some ([c], rest)
    else (quotedBody? quote (d :: rest)).map fun (body, after) => (c :: body, after)

/-- What a character behind a backslash stands for between single quotes. -/
def singleEscape? (c : Char) : Option Char := if c = '\\' ∨ c = '\'' then some c else none

/-- What a character behind a backslash stands for between double quotes. -/
def doubleEscape? (c : Char) : Option Char :=
  if c = '\\' ∨ c = '\'' ∨ c = '"' then some c
  else if c = 'a' then some '\x07'
  else if c = 'b' then some '\x08'
  else if c = 'f' then some '\x0c'
  else if c = 'n' then some '\n'
  else if c = 'r' then some '\r'
  else if c = 't' then some '\t'
  else if c = 'v' then some '\x0b'
  else none

/-- The text with its escapes carried out; a backslash before any other character stays. -/
def unescape (escape? : Char → Option Char) : Text → Text
  | [] => []
  | [c] => [c]
  | c :: d :: rest =>
    match if c = '\\' then escape? d else none with
    | some e => e :: unescape escape? rest
    | none => c :: unescape escape? (d :: rest)

/-- The text up to the first number sign that has a blank before it. -/
def withoutComment : Text → Text
  | [] => []
  | c :: rest =>
    if Text.isBlank c ∧ rest.head? = some '#' then [] else c :: withoutComment rest

/-! ## Lines

A reader gives what it read and the rest of the text, or the rest at which it could not go on. -/

/-- A blank inside a line. -/
def isInnerBlank (c : Char) : Bool := Text.isBlank c && c ≠ '\n'

/-- The text after the blanks of a line. -/
def skipBlanks (t : Text) : Text := t.dropWhile isInnerBlank

/-- The text after the end of the line. -/
def skipLine (t : Text) : Text := (t.dropWhile (· ≠ '\n')).drop 1

/-- The text after the word `export` and blanks. -/
def skipExport (t : Text) : Text :=
  match Text.after? "export".toList t with
  | some rest => if rest.head?.any isInnerBlank then skipBlanks rest else t
  | none => t

/-- The key at the start of a line; a comment has none. -/
def readKey (t : Text) : Except Text (Option Text × Text) :=
  match t with
  | '#' :: _ => .ok (none, t)
  | '\'' :: rest =>
    match Text.cut? '\'' rest with
    | some (c :: key, after) => .ok (some (c :: key), after)
    | _ => .error t
  | _ =>
    let ends (c : Char) : Bool := c = '=' || c = '#' || Text.isBlank c
    match t.takeWhile (!ends ·) with
    | [] => .error t
    | key => .ok (some key, t.dropWhile (!ends ·))

/-- The value after an equals sign. -/
def readValue (t : Text) : Except Text (Text × Text) :=
  let quoted (quote : Char) (escape? : Char → Option Char) (rest : Text) :=
    match quotedBody? quote rest with
    | some (body, after) => .ok (unescape escape? body, after)
    | none => .error t
  match t with
  | '\'' :: rest => quoted '\'' singleEscape? rest
  | '"' :: rest => quoted '"' doubleEscape? rest
  | _ =>
    .ok (Text.trimEnd (withoutComment (t.takeWhile (· ≠ '\n'))), t.dropWhile (· ≠ '\n'))

/-- The end of a line, after blanks and a comment. -/
def readEnd (t : Text) : Except Text Text :=
  match skipBlanks t with
  | [] => .ok []
  | '\n' :: rest => .ok rest
  | '#' :: rest => .ok (skipLine rest)
  | _ => .error t

/-- The key of a line with its value; a comment gives none. -/
def readBinding (t : Text) : Except Text (Option (Text × Option Text) × Text) := do
  let (key, t) ← readKey (skipExport t)
  let (value, t) ←
    match skipBlanks t with
    | '=' :: rest => (readValue (skipBlanks rest)).map fun (v, t) => (some v, t)
    | t => .ok (none, t)
  return (key.map fun key => (key, value), ← readEnd t)

/-- The keys of a text with their values; `fuel` bounds the lines that are read. -/
def bindingsFrom : Nat → Text → List (Text × Option Text)
  | 0, _ => []
  | fuel + 1, t =>
    match t.dropWhile Text.isBlank with
    | [] => []
    | line =>
      match readBinding line with
      | .ok (b, rest) => b.toList ++ bindingsFrom fuel rest
      | .error rest => bindingsFrom fuel (skipLine rest)

/-- The keys of a file with their values, in order. Every line takes at least one character, so the
length of the text bounds their number. -/
def bindings (content : Text) : List (Text × Option Text) :=
  let t := withLineFeeds content
  bindingsFrom (t.length + 1) t

/-! ## References -/

/-- A reference to a variable. -/
structure Reference where
  name : Text
  fallback : Option Text
  /-- How many characters the reference takes. -/
  length : Nat

/-- The reference at the start of a text. -/
def reference? (t : Text) : Option Reference := do
  let body ← Text.after? ['$', '\x7b'] t
  let ends (c : Char) : Bool := c = '\x7d' || c = ':'
  let name := body.takeWhile (!ends ·)
  match body.dropWhile (!ends ·) with
  | ':' :: '-' :: rest =>
    let (fallback, _) ← Text.cut? '\x7d' rest
    return ⟨name, some fallback, name.length + fallback.length + 5⟩
  | '\x7d' :: _ => return ⟨name, none, name.length + 3⟩
  | _ => none

/-- The text with references carried out by `value`, after `skip` characters. -/
def interpolateFrom (value : Reference → Text) : Nat → Text → Text
  | _, [] => []
  | skip + 1, _ :: cs => interpolateFrom value skip cs
  | 0, c :: cs =>
    match reference? (c :: cs) with
    | some r => value r ++ interpolateFrom value (r.length - 1) cs
    | none => c :: interpolateFrom value 0 cs

/-- The value of a reference: from the environment, else from the lines before, else its own. -/
def Reference.value (env : Fields Text) (known : Fields (Option Text)) (r : Reference) : Text :=
  match env.get? r.name, known.get? r.name with
  | some v, _ => v
  | none, some v => v.getD []
  | none, none => r.fallback.getD []

/-- The variables of a file, with references carried out; of several values of one variable the
last counts. -/
def resolve (env : Fields Text) (content : Text) : Fields (Option Text) :=
  (bindings content).foldl (fun known (name, value) =>
    known.put name (value.map (interpolateFrom (Reference.value env known) 0))) []

end ExportSchema.VariableFile
