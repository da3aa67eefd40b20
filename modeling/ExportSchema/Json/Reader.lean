import ExportSchema.Json.Basic
import ExportSchema.Json.Malformed

/-!
# Reading JSON

`Json.read` reads a whole text as one value, or tells why it is none. Blanks are the space, tab,
line feed and carriage return; control characters inside strings, trailing commas and comments are
refused. `NaN`, `Infinity` and `-Infinity` are numbers, and of several fields of one name the last
counts. Values may nest to any depth.

A string may spell half of a surrogate pair by an escape. A text has no such character, and the
replacement character stands in its place. So strings that differ only in lone halves are read as
the same, and what is said here of the strings and names in a JSON text is exact for those without
lone halves.

* `Json.stringBody`: the characters of a string up to its closing quote.
* `Json.number`: a number at the start of a text.
-/

namespace ExportSchema.Json

/-! ## Strings -/

/-- The value of a hexadecimal digit. -/
def hexValue? (c : Char) : Option Nat :=
  if '0' ≤ c ∧ c ≤ '9' then some (c.toNat - 48)
  else if 'a' ≤ c ∧ c ≤ 'f' then some (c.toNat - 87)
  else if 'A' ≤ c ∧ c ≤ 'F' then some (c.toNat - 55)
  else none

/-- The value of four hexadecimal digits. -/
def hex4? (a b c d : Char) : Option Nat := do
  return (((← hexValue? a) * 16 + (← hexValue? b)) * 16 + (← hexValue? c)) * 16 + (← hexValue? d)

/-- Is this the first half of a surrogate pair? -/
def isHighSurrogate (n : Nat) : Bool := 0xD800 ≤ n && n < 0xDC00

/-- Is this the second half of a surrogate pair? -/
def isLowSurrogate (n : Nat) : Bool := 0xDC00 ≤ n && n < 0xE000

/-- The character that a letter after a backslash stands for. -/
def escaped? (c : Char) : Option Char :=
  if c = '"' ∨ c = '\\' ∨ c = '/' then some c
  else if c = 'n' then some '\n'
  else if c = 'r' then some '\r'
  else if c = 't' then some '\t'
  else if c = 'b' then some '\x08'
  else if c = 'f' then some '\x0c'
  else none

/-- What is read at the start of a text, and the rest of it. -/
abbrev Reading (α : Type) := Except Malformed (α × Text)

/-- The code points of a string after its opening quote, and the text after its closing quote; the
text from the opening quote on is `opened`. An escape may give half of a surrogate pair. -/
def stringUnits (opened : Text) : Text → Reading (List Nat)
  | [] => .error (.flaw .openString opened)
  | x :: rest =>
    if x = '"' then .ok ([], rest)
    else if x = '\\' then
      match rest with
      | 'u' :: a :: b :: c :: d :: more =>
        match hex4? a b c d with
        | some n =>
          if more.isEmpty then .error (.flaw .noCodePoint rest)
          else (stringUnits opened more).map fun (us, t) => (n :: us, t)
        | none => .error (.flaw .noCodePoint rest)
      | 'u' :: _ => .error (.flaw .noCodePoint rest)
      | e :: more =>
        match escaped? e with
        | some c => (stringUnits opened more).map fun (us, t) => (c.toNat :: us, t)
        | none => .error (.flaw .noEscape (x :: rest))
      | [] => .error (.flaw .openString opened)
    else if x.toNat < 0x20 then .error (.flaw .controlCharacter (x :: rest))
    else (stringUnits opened rest).map fun (us, t) => (x.toNat :: us, t)

/-- The characters of code points, where the two halves of a surrogate pair make one character and
half a pair on its own is the replacement character. -/
def joinUnits : List Nat → Text
  | [] => []
  | [u] => [if isHighSurrogate u || isLowSurrogate u then '\uFFFD' else Char.ofNat u]
  | u :: v :: us =>
    if isHighSurrogate u && isLowSurrogate v then
      Char.ofNat (0x10000 + (u - 0xD800) * 0x400 + (v - 0xDC00)) :: joinUnits us
    else
      (if isHighSurrogate u || isLowSurrogate u then '\uFFFD' else Char.ofNat u) ::
        joinUnits (v :: us)

/-- The characters of a string after its opening quote, and the text after its closing quote. -/
def stringBody (opened t : Text) : Reading Text :=
  (stringUnits opened t).map fun (us, rest) => (joinUnits us, rest)

/-! ## Numbers -/

/-- The ASCII digits at the start of a text, and the rest. -/
def asciiDigits (t : Text) : Text × Text := (t.takeWhile Char.isDigit, t.dropWhile Char.isDigit)

/-- The digits before the point: a zero alone, or digits that start with none. -/
def wholePart? : Text → Option (Text × Text)
  | '0' :: rest => some (['0'], rest)
  | t =>
    match asciiDigits t with
    | ([], _) => none
    | parts => some parts

/-- The point and the digits after it; a point without digits is left in the rest. -/
def fractionPart : Text → Text × Text
  | '.' :: rest =>
    match asciiDigits rest with
    | ([], _) => ([], '.' :: rest)
    | (digits, after) => ('.' :: digits, after)
  | t => ([], t)

/-- The minus sign in front of a number, and the rest. -/
def minusSign : Text → Text × Text
  | '-' :: rest => (['-'], rest)
  | t => ([], t)

/-- The sign in front of an exponent, and the rest. -/
def exponentSign : Text → Text × Text
  | '-' :: rest => (['-'], rest)
  | '+' :: rest => (['+'], rest)
  | t => ([], t)

/-- The exponent with its sign; a mark without digits is left in the rest. -/
def exponentPart (t : Text) : Text × Text :=
  match t with
  | c :: rest =>
    if c = 'e' ∨ c = 'E' then
      let (sign, rest) := exponentSign rest
      match asciiDigits rest with
      | ([], _) => ([], t)
      | (digits, after) => (c :: sign ++ digits, after)
    else ([], t)
  | [] => ([], [])

/-- The number at the start of a text. Without a point or an exponent it is an integer. -/
def number (t : Text) : Reading Json :=
  let (sign, unsigned) := minusSign t
  match wholePart? unsigned with
  | none => .error (.flaw .noValue t)
  | some (whole, rest) =>
    let (fraction, rest) := fractionPart rest
    let (exponent, rest) := exponentPart rest
    if fraction.isEmpty && exponent.isEmpty then
      match Number.readInt? (sign ++ whole) with
      | some n => .ok (int n, rest)
      | none => .error (.tooManyDigits whole.length)
    else
      match Number.readFloat? (sign ++ whole ++ fraction ++ exponent) with
      | some x => .ok (float x, rest)
      | none => .error (.flaw .noValue t)

/-! ## Values -/

/-- A blank between tokens. -/
def isSpace (c : Char) : Bool := c = ' ' || c = '\t' || c = '\n' || c = '\r'

/-- The text after the blanks at its start. -/
def skip (t : Text) : Text := t.dropWhile isSpace

/-- The words that are values. -/
def words : List (Text × Json) :=
  [("null".toList, null), ("true".toList, bool true), ("false".toList, bool false),
    ("NaN".toList, float .nan), ("Infinity".toList, float (.infinite false)),
    ("-Infinity".toList, float (.infinite true))]

/-- The word at the start of a text. -/
def word? (t : Text) : Option (Json × Text) :=
  words.findSome? fun (name, value) => (Text.after? name t).map fun rest => (value, rest)

mutual
/-- A value at the start of a text, and the rest; `fuel` bounds the steps. -/
def valueAt : Nat → Text → Reading Json
  | 0, t => .error (.flaw .noValue t)
  | fuel + 1, t =>
    match t with
    | '"' :: rest => (stringBody t rest).map fun (s, after) => (str s, after)
    | '[' :: rest =>
      match skip rest with
      | ']' :: after => .ok (arr [], after)
      | items => (itemsAt fuel items).map fun (js, after) => (arr js, after)
    | '{' :: rest =>
      match skip rest with
      | '}' :: after => .ok (obj [], after)
      | fields => (fieldsAt fuel fields).map fun (fs, after) => (obj (Fields.ofList fs), after)
    | _ =>
      match word? t with
      | some found => .ok found
      | none => number t
/-- The items of an array and its end. -/
def itemsAt : Nat → Text → Reading (List Json)
  | 0, t => .error (.flaw .noValue t)
  | fuel + 1, t =>
    match valueAt fuel t with
    | .error e => .error e
    | .ok (j, rest) =>
      match skip rest with
      | ']' :: after => .ok ([j], after)
      | ',' :: more => (itemsAt fuel (skip more)).map fun (js, after) => (j :: js, after)
      | stop => .error (.flaw .noComma stop)
/-- The fields of an object and its end. -/
def fieldsAt : Nat → Text → Reading (List (Text × Json))
  | 0, t => .error (.flaw .noName t)
  | fuel + 1, t =>
    match t with
    | '"' :: rest =>
      match stringBody t rest with
      | .error e => .error e
      | .ok (name, rest) =>
        match skip rest with
        | ':' :: rest =>
          match valueAt fuel (skip rest) with
          | .error e => .error e
          | .ok (j, rest) =>
            match skip rest with
            | '}' :: after => .ok ([(name, j)], after)
            | ',' :: more =>
              (fieldsAt fuel (skip more)).map fun (fs, after) => ((name, j) :: fs, after)
            | stop => .error (.flaw .noComma stop)
        | stop => .error (.flaw .noColon stop)
    | stop => .error (.flaw .noName stop)
end

/-- A whole text as one value. A character takes two steps at most, into the brackets and to the
first value in them, so twice the length of the text bounds the steps. -/
def read (t : Text) : Except Malformed Json :=
  if t.head? = some '\uFEFF' then .error (.flaw .byteOrderMark t)
  else
    match valueAt (2 * t.length + 1) (skip t) with
    | .error e => .error e
    | .ok (j, rest) =>
      match skip rest with
      | [] => .ok j
      | more => .error (.flaw .moreText more)

/-- A whole text as one value, if it is one. -/
def read? (t : Text) : Option Json := (read t).toOption

end ExportSchema.Json
