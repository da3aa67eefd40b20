import ExportSchema.Number.Binary64
import ExportSchema.Text.Blank
import ExportSchema.Text.Digit

/-!
# Reading numbers

Numbers are read with the digits of any script, single underscores between digits and blanks
around the whole.

* `readInt?`: a decimal integer of at most `maxDigits` digits.
* `readFloat?`: a decimal number with point and exponent, an infinity or an undefined number.
-/

namespace ExportSchema.Number

open Text (digitValue? isDigit isBlank)

/-- Blanks around a number: all but the four ASCII separators. -/
def isNumberBlank (c : Char) : Bool := isBlank c && !(0x1C ≤ c.toNat && c.toNat ≤ 0x1F)

/-- The values of the digits at the start of a text, and the rest. `afterDigit` says that a digit
came just before, so that an underscore and another digit may follow. -/
def digitRun (afterDigit : Bool) : Text → List Nat × Text
  | [] => ([], [])
  | c :: cs =>
    match digitValue? c with
    | some d =>
      let (ds, rest) := digitRun true cs
      (d :: ds, rest)
    | none =>
      if c = '_' ∧ afterDigit ∧ cs.head?.any isDigit then digitRun false cs else ([], c :: cs)

/-- The number that digits write. -/
def digitsValue (ds : List Nat) : Nat := ds.foldl (fun n d => 10 * n + d) 0

/-- Is there a minus sign in front, and what follows a sign? -/
def sign : Text → Bool × Text
  | '-' :: cs => (true, cs)
  | '+' :: cs => (false, cs)
  | t => (false, t)

/-- Integers of more digits are not converted. -/
def maxDigits : Nat := 4300

/-- An integer. -/
def readInt? (t : Text) : Option Int :=
  let (negative, t) := sign (Text.stripWith isNumberBlank t)
  match digitRun false t with
  | ([], _) => none
  | (_ :: _, _ :: _) => none
  | (d :: ds, []) =>
    if maxDigits < ds.length + 1 then none
    else
      let n : Int := digitsValue (d :: ds)
      some (if negative then -n else n)

/-- The exponent at the end of a number; no text is the exponent zero. -/
def readExponent? : Text → Option Int
  | [] => some 0
  | c :: cs =>
    if c = 'e' ∨ c = 'E' then
      let (negative, t) := sign cs
      match digitRun false t with
      | (d :: ds, []) =>
        let n : Int := digitsValue (d :: ds)
        some (if negative then -n else n)
      | _ => none
    else none

/-- A number without its sign: digits with an optional point among, before or after them, and an
optional exponent. -/
def readDecimal? (negative : Bool) (t : Text) : Option Binary64 := do
  let (whole, rest) := digitRun false t
  let (fraction, rest) :=
    match rest with
    | '.' :: cs => digitRun false cs
    | rest => ([], rest)
  if whole.isEmpty && fraction.isEmpty then none
  else
    let exponent ← readExponent? rest
    return .ofDecimal negative (digitsValue (whole ++ fraction)) (exponent - fraction.length)

/-- A number, an infinity (`inf`, `infinity`) or an undefined number (`nan`), in any case. -/
def readFloat? (t : Text) : Option Binary64 :=
  let (negative, t) := sign (Text.stripWith isNumberBlank t)
  let word := Text.lowerAscii t
  if word = "inf".toList ∨ word = "infinity".toList then some (.infinite negative)
  else if word = "nan".toList then some .nan
  else readDecimal? negative t

end ExportSchema.Number
