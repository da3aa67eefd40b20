import ExportSchema.Number.Binary64
import ExportSchema.Text.Basic

/-!
# The decimal text of a double

* `shortest`: the fewest decimal digits that read back as the value, and of those the nearest.
* `DecimalStyle`, `layOut`: where the point goes and when an exponent is written.
* `Binary64.text`: the text of a double.
-/

namespace ExportSchema

/-- `digits · 10 ^ exponent`. -/
structure Decimal where
  digits : Nat
  exponent : Int
  deriving DecidableEq, Repr

/-- The greatest `k` with `10 ^ k ≤ num / den`, for a quotient above zero. The binary logarithm
gives it within one. -/
def quotientLog10 (num den : Nat) : Int :=
  let guess := (quotientLog2 num den * 30103) / 100000
  ([guess + 1, guess, guess - 1].find? (powerLe 10 · num den)).getD (guess - 2)

/-- Trailing zeros go into the exponent; `fuel` bounds their number. -/
def dropZeros : Nat → Decimal → Decimal
  | 0, d => d
  | fuel + 1, d =>
    if d.digits ≠ 0 ∧ d.digits % 10 = 0 then dropZeros fuel ⟨d.digits / 10, d.exponent + 1⟩ else d

/-- The reals that round to a double, in quarters of its unit: from `low` to `high`, ends included
iff the mantissa is even. Below a power of two the doubles are twice as dense. -/
structure Interval where
  low : Nat
  value : Nat
  high : Nat
  closed : Bool

/-- The interval of `mantissa · 2 ^ exponent`. -/
def Interval.of (mantissa : Nat) (exponent : Int) : Interval :=
  let below := if mantissa = Binary64.leastNormal ∧ Binary64.leastExponent < exponent then 1 else 2
  ⟨4 * mantissa - below, 4 * mantissa, 4 * mantissa + 2, mantissa % 2 = 0⟩

/-- Does `digits · 10 ^ place` lie in the interval, whose unit is `2 ^ unit`? -/
def Interval.holds (i : Interval) (unit : Int) (digits : Nat) (place : Int) : Bool :=
  let (n, d) := shiftQuotient 10 digits 1 (-place)
  let (n, d) := shiftQuotient 2 n d unit
  if i.closed then i.low * d ≤ n && n ≤ i.high * d else i.low * d < n && n < i.high * d

/-- The decimal of `count` digits that reads back as the value, if there is one; of two, the
nearer, and at equal distance the even one. -/
def Interval.candidate? (i : Interval) (unit : Int) (top : Int) (count : Nat) : Option Decimal :=
  let place := top - count + 1
  let (n, d) := shiftQuotient 2 i.value 1 (-unit)
  let (n, d) := shiftQuotient 10 n d place
  let lower := n / d
  let rest := 2 * (n % d)
  let upperFirst := d < rest || (rest = d && lower % 2 = 1)
  let order := if upperFirst then [lower + 1, lower] else [lower, lower + 1]
  (order.find? (i.holds unit · place)).map fun digits => ⟨digits, place⟩

/-- The fewest decimal digits that read back as `mantissa · 2 ^ exponent`. Seventeen always do. -/
def shortest (mantissa : Nat) (exponent : Int) : Decimal :=
  if mantissa = 0 then ⟨0, 0⟩
  else
    let i := Interval.of mantissa exponent
    let unit := exponent - 2
    let (n, d) := shiftQuotient 2 i.value 1 (-unit)
    let top := quotientLog10 n d
    let found := (List.range 17).findSome? fun k => i.candidate? unit top (k + 1)
    dropZeros 17 (found.getD ⟨n / d, 0⟩)

/-- How a decimal is laid out: written with a point while the exponent of its first digit is in a
range, with an exponent outside it. -/
structure DecimalStyle where
  /-- The least exponent of the first digit that is written with a point alone. -/
  least : Int
  /-- The greatest such exponent. -/
  greatest : Int
  /-- How many digits an exponent has at least. -/
  exponentWidth : Nat

/-- Positional from `10 ^ -4` up to, but not including, `10 ^ 16`; exponents have two digits. -/
def DecimalStyle.standard : DecimalStyle := ⟨-4, 15, 2⟩

/-- An exponent with its sign, padded to a width. -/
def exponentText (width : Nat) (e : Int) : Text :=
  let digits := Text.ofNat e.natAbs
  (if e < 0 then '-' else '+') :: (List.replicate (width - digits.length) '0' ++ digits)

/-- Lay out a decimal. A number without an exponent always has a point. -/
def layOut (style : DecimalStyle) (d : Decimal) : Text :=
  let digits := Text.ofNat d.digits
  let first : Int := digits.length + d.exponent - 1
  if style.least ≤ first ∧ first ≤ style.greatest then
    match d.exponent with
    | .ofNat n => digits ++ List.replicate n '0' ++ ".0".toList
    | .negSucc n =>
      let places := n + 1
      let padded := List.replicate (places + 1 - digits.length) '0' ++ digits
      padded.take (padded.length - places) ++ '.' :: padded.drop (padded.length - places)
  else
    let fraction := if digits.length = 1 then [] else '.' :: digits.drop 1
    digits.take 1 ++ fraction ++ 'e' :: exponentText style.exponentWidth first

namespace Binary64

/-- The text of a double. -/
def text : Binary64 → Text
  | finite negative mantissa exponent =>
    (if negative then ['-'] else []) ++ layOut .standard (shortest mantissa exponent)
  | infinite negative => if negative then "-inf".toList else "inf".toList
  | nan => "nan".toList

end Binary64

end ExportSchema
