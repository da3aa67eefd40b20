import ExportSchema.Text.Basic

/-!
# A record of names

Work that looks into what a name stands for keeps the name in a record meanwhile, so that it can
tell when it meets the name again.
-/

namespace ExportSchema

variable {m : Type → Type} [Monad m] {α : Type}

/-- Work with a record of names at hand. -/
abbrev RecordT (m : Type → Type) := StateT (List Text) m

/-- Work with `name` in the record. The name leaves it afterwards. -/
def RecordT.recording (name : Text) (work : RecordT m α) : RecordT m α := do
  modify (name :: ·)
  let outcome ← work
  modify (·.filter (· ≠ name))
  return outcome

end ExportSchema
