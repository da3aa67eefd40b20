import ExportSchema.Text.Basic

/-!
# Broken trees

A tree of a source with errors may lack a node that every well-formed tree has. Reading such a tree
fails with a `Fault`.
-/

namespace ExportSchema

/-- What a broken tree lacks, or a number that is too long to be written. -/
inductive Fault where
  /-- A node whose text is needed. -/
  | noTextNode
  /-- An expression whose type is needed. -/
  | noExpression
  /-- A child at the start or the end of a node. -/
  | noChild
  /-- An enumeration counts beyond the numbers that are written in decimal. -/
  | tooManyDigits
  deriving DecidableEq, Repr

/-- What is said of a fault. -/
def Fault.message : Fault → String
  | noTextNode => "'NoneType' object has no attribute 'start_byte'"
  | noExpression => "'NoneType' object has no attribute 'type'"
  | noChild => "list index out of range"
  | tooManyDigits =>
    "Exceeds the limit (4300 digits) for integer string conversion; " ++
      "use sys.set_int_max_str_digits() to increase the limit"

end ExportSchema
