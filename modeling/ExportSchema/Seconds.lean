import ExportSchema.Number.Binary64
import ExportSchema.Text.Basic

/-!
# Times to wait

A time to wait is a whole number of seconds, kept in full, or a number with a fraction.

* `Seconds.toBinary64`: the time as a double.
* `Seconds.whole`: the time in whole seconds, cut off toward zero.
-/

namespace ExportSchema

/-- A time in seconds. -/
inductive Seconds where
  | integer (n : Int)
  | real (x : Binary64)
  deriving DecidableEq, Repr

/-- A time that is no number of whole seconds. -/
inductive TimeoutFault where
  | infinite
  | undefined
  deriving DecidableEq, Repr

/-- What is said of such a time. -/
def TimeoutFault.message : TimeoutFault → Text
  | infinite => "cannot convert float infinity to integer".toList
  | undefined => "cannot convert float NaN to integer".toList

namespace Seconds

/-- The double nearest to a time. -/
def toBinary64 : Seconds → Binary64
  | integer n => .ofDecimal (n < 0) n.natAbs 0
  | real x => x

/-- A time in whole seconds, cut off toward zero. -/
def whole : Seconds → Except TimeoutFault Int
  | integer n => .ok n
  | real (.finite negative mantissa exponent) =>
    .ok (Binary64.truncate negative mantissa exponent)
  | real (.infinite _) => .error .infinite
  | real .nan => .error .undefined

end Seconds

end ExportSchema
