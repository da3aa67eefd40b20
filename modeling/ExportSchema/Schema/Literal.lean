import ExportSchema.Json.Reader
import ExportSchema.Text.Quoted

/-!
# The value of a literal type

A literal type is kept by its source text. `literalValue` reads the value off it: a truth value, a
string in double quotes (by the rules of JSON where they apply), a string in single quotes, or a
number.
-/

namespace ExportSchema.Schema

/-- The value of a literal type. -/
inductive LiteralValue where
  | bool (b : Bool)
  | int (n : Int)
  | float (x : Binary64)
  | str (s : Text)
  deriving DecidableEq

/-- The text of a literal is no number, though it has to be one. -/
structure NotANumber where
  raw : Text
  deriving DecidableEq

/-- What is said of a text that is no number. -/
def NotANumber.message (e : NotANumber) : Text :=
  "could not convert string to float: ".toList ++ Text.quoted e.raw

/-- The text between the first and the last character. -/
def inner (raw : Text) : Text := (raw.drop 1).dropLast

/-- The value of a text in double quotes: the JSON string, or else what stands between the ends. -/
def doubleQuoted (raw : Text) : Text :=
  match Json.read? raw with
  | some (.str s) => s
  | _ => inner raw

/-- The value of a text in single quotes, where an escaped single quote stands for itself. -/
def singleQuoted (raw : Text) : Text := Text.dropBefore '\\' '\'' (inner raw)

/-- Is the number written without a point and without an exponent? -/
def isWrittenWhole (raw : Text) : Bool := !raw.contains '.' && !(Text.lowerAscii raw).contains 'e'

/-- The value of a number. It is an integer when it is whole and written so; it goes through a
double, so a long integer may change. -/
def numberValue (raw : Text) : Except NotANumber LiteralValue :=
  match Number.readFloat? raw with
  | none => .error ⟨raw⟩
  | some x =>
    match x.toInt? with
    | some n => .ok (if isWrittenWhole raw then .int n else .float x)
    | none => .ok (.float x)

/-- The value of a literal type. -/
def literalValue (raw : Text) : Except NotANumber LiteralValue :=
  if raw = "true".toList then .ok (.bool true)
  else if raw = "false".toList then .ok (.bool false)
  else if raw.head? = some '"' then .ok (.str (doubleQuoted raw))
  else if raw.head? = some '\'' then .ok (.str (singleQuoted raw))
  else numberValue raw

end ExportSchema.Schema
