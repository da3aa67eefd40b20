/-!
# Double-precision numbers

A finite double is a sign and `mantissa · 2 ^ exponent`, held exactly; no machine arithmetic is
involved. The mantissa is below `2 ^ 53`, the exponent at least `-1074`, and the mantissa at least
`2 ^ 52` unless the exponent is the least one.

* `Binary64.ofRatio`: the double nearest to a quotient, ties to the even mantissa.
* `Binary64.ofDecimal`: the double nearest to `digits · 10 ^ exponent`.
* `Binary64.toInt?`, `Binary64.truncate`: the integer value, exact or cut off.
-/

namespace ExportSchema

/-- A double-precision number. -/
inductive Binary64 where
  | finite (negative : Bool) (mantissa : Nat) (exponent : Int)
  | infinite (negative : Bool)
  | nan
  deriving DecidableEq, Repr

/-- `num / den` rounded to the nearest integer, ties to even. -/
def roundQuotient (num den : Nat) : Nat :=
  let q := num / den
  let twice := 2 * (num % den)
  if twice < den then q else if den < twice then q + 1 else if q % 2 = 0 then q else q + 1

/-- A quotient scaled by a power of the base: `num / den · base ^ (-shift)`, as numerator and
denominator. -/
def shiftQuotient (base num den : Nat) (shift : Int) : Nat × Nat :=
  match shift with
  | .ofNat n => (num, den * Nat.pow base n)
  | .negSucc n => (num * Nat.pow base (n + 1), den)

/-- Is `base ^ k ≤ num / den`? -/
def powerLe (base : Nat) (k : Int) (num den : Nat) : Bool :=
  let (n, d) := shiftQuotient base num den k
  d ≤ n

/-- The greatest `k` with `2 ^ k ≤ num / den`, for a quotient above zero. -/
def quotientLog2 (num den : Nat) : Int :=
  let k : Int := (num.log2 : Int) - (den.log2 : Int)
  if powerLe 2 k num den then k else k - 1

namespace Binary64

/-- The least mantissa of a normal double, `2 ^ 52`. -/
def leastNormal : Nat := 0x10000000000000

/-- The least exponent of a double. -/
def leastExponent : Int := -1074

/-- The greatest exponent of a double. -/
def greatestExponent : Int := 971

/-- The double nearest to `num / den`, ties to the even mantissa. -/
def ofRatio (negative : Bool) (num den : Nat) : Binary64 :=
  if num = 0 then finite negative 0 leastExponent
  else
    let exponent := max (quotientLog2 num den - 52) leastExponent
    let (n, d) := shiftQuotient 2 num den exponent
    let mantissa := roundQuotient n d
    let (mantissa, exponent) :=
      if mantissa = 2 * leastNormal then (leastNormal, exponent + 1) else (mantissa, exponent)
    if greatestExponent < exponent then infinite negative else finite negative mantissa exponent

/-- The double nearest to `digits · 10 ^ exponent`. A value whose decimal point lies far beyond the
range of doubles is infinite or zero without any arithmetic. -/
def ofDecimal (negative : Bool) (digits : Nat) (exponent : Int) : Binary64 :=
  let point : Int := (Nat.toDigits 10 digits).length + exponent
  if digits = 0 ∨ point < -330 then finite negative 0 leastExponent
  else if 310 < point then infinite negative
  else
    match exponent with
    | .ofNat n => ofRatio negative (digits * Nat.pow 10 n) 1
    | .negSucc n => ofRatio negative digits (Nat.pow 10 (n + 1))

/-- Is the value neither infinite nor undefined? -/
def isFinite : Binary64 → Bool
  | finite .. => true
  | infinite _ | nan => false

/-- The integer between zero and the value that is nearest to it. -/
def truncate (negative : Bool) (mantissa : Nat) (exponent : Int) : Int :=
  let size : Nat :=
    match exponent with
    | .ofNat n => mantissa * Nat.pow 2 n
    | .negSucc n => mantissa / Nat.pow 2 (n + 1)
  if negative then -size else size

/-- The value as an integer, when it is one. -/
def toInt? : Binary64 → Option Int
  | finite negative mantissa exponent =>
    let whole :=
      match exponent with
      | .ofNat _ => true
      | .negSucc n => mantissa % Nat.pow 2 (n + 1) = 0
    if whole then some (truncate negative mantissa exponent) else none
  | infinite _ | nan => none

end Binary64

end ExportSchema
