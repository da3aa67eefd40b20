import ExportSchema.Module.Symbol
import ExportSchema.Record

/-!
# Queries on one module

A session tells the types of top-level names, one query after the other. All queries share one
record of the names whose types are being told: a name enters it when its type is asked for, and
leaves it when the answer is there or a fault ends the work. A name that is asked for while it is in
the record is `any`.

The rules are those for expressions and for symbols. Here they call each other under a clock: each
call spends one tick, and work that runs out of ticks comes to nothing.

* `Work`: what a rule does to the record.
* `inferAt`, `visitAt`, `typeAt`: expressions, interfaces and names within some ticks.
* `clockFor`: ticks enough for every name of a module.
* `Session.ask`, `Session.askAll`: one query, and several in a row.
-/

namespace ExportSchema.Module

/-- Work on the record of names: an answer or a fault, with the record as it is afterwards, or
nothing when the clock has run out. -/
abbrev Work := ExceptT Fault (RecordT Option)

namespace Work

variable {α : Type}

/-- The clock has run out. -/
def timeout : Work α := ExceptT.mk fun _ => none

/-- Work with `name` in the record. The name leaves it however the work ends. -/
def recording (name : Text) (work : Work α) : Work α :=
  ExceptT.mk (RecordT.recording name work.run)

end Work

mutual
/-- The type of an expression, within `clock` ticks. -/
def inferAt (symbols : Symbols) : Nat → Infer Work
  | 0, _ => .timeout
  | clock + 1, t => inferStep (inferAt symbols clock) (typeAt symbols clock) t
/-- The members of an interface and of its parents, within `clock` ticks. -/
def visitAt (symbols : Symbols) : Nat → List Text → Tree → Work Visit
  | 0, _, _ => .timeout
  | clock + 1, seen, t => mergedStep (inferAt symbols clock) symbols (visitAt symbols clock) seen t
/-- The type of a top-level name, within `clock` ticks. -/
def typeAt (symbols : Symbols) : Nat → Lookup Work
  | 0, _ => .timeout
  | clock + 1, name =>
    match symbols.get? name with
    | none => return none
    | some s => do
      if (← get).contains name then return some anyText
      else Work.recording name do
        let interface (t : Tree) : Work Text := do
          return bracedText ((← visitAt symbols clock [] t).members.values.map Member.text)
        return some (← symbolText (inferAt symbols clock) interface s)
end

/-- The number of nodes on the longest way down in the tree of a symbol. -/
def symbolHeight (symbols : Symbols) : Nat := Tree.heightList (symbols.values.map (·.tree))

/-- The ticks from one name to the next: through all interfaces and down one tree at most. -/
def ticksPerName (symbols : Symbols) : Nat := symbolHeight symbols + symbols.length + 2

/-- Ticks enough for every name. No more names than there are can be in the record. -/
def clockFor (symbols : Symbols) : Nat := symbols.length * ticksPerName symbols + 1

/-- A session: the symbols of a module, and the names whose types are being told. -/
structure Session where
  symbols : Symbols
  resolving : List Text

namespace Session

/-- An answer: the type of a name, `none` for a name that is not declared, or a fault. -/
abbrev Answer := Except Fault (Option Text)

/-- A session in which nothing was asked yet. -/
def fresh (symbols : Symbols) : Session := ⟨symbols, []⟩

/-- Ask for the type of a name. -/
def ask (clock : Nat) (s : Session) (name : Text) : Option (Answer × Session) := do
  let (answer, resolving) ← (typeAt s.symbols clock name).run.run s.resolving
  return (answer, { s with resolving })

/-- Ask for the types of several names in a row. A fault ends its own query only. -/
def askAll (clock : Nat) : Session → List Text → Option (List Answer × Session)
  | s, [] => some ([], s)
  | s, name :: names => do
    let (answer, s) ← s.ask clock name
    let (answers, s) ← s.askAll clock names
    return (answer :: answers, s)

end Session

end ExportSchema.Module
