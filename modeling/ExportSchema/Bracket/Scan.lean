import ExportSchema.Text.Basic

/-!
# Scanning bracketed text

A type text nests with four kinds of brackets that share one depth counter, so brackets only have
to balance overall. Characters of a string literal belong to no depth, and the `>` of an arrow
`=>` closes nothing. A closing bracket at depth zero stays at depth zero.

* `State.step`: the scanner's state after one more character.
* `State.mark`: the depth before a character, or `none` inside a string literal (its quotes
  included).
* `marks`: the mark of every character of a text.
-/

namespace ExportSchema.Bracket

/-- The four opening brackets. -/
def isOpener (c : Char) : Bool := c = '<' || c = '(' || c = '{' || c = '['

/-- The four closing brackets. -/
def isCloser (c : Char) : Bool := c = '>' || c = ')' || c = '}' || c = ']'

/-- The three quotes that open a string literal. -/
def isQuote (c : Char) : Bool := c = '"' || c = '\'' || c = '\x60'

/-- Where the scanner stands with respect to string literals. -/
inductive Mode where
  /-- Outside any literal. -/
  | code
  /-- Inside a literal opened by `quote`. -/
  | quoted (quote : Char)
  /-- Inside a literal opened by `quote`, right after a backslash. -/
  | escaped (quote : Char)
  deriving DecidableEq, Repr

/-- The scanner's state between two characters. -/
structure State where
  /-- How many brackets are open. -/
  depth : Nat
  /-- Inside or outside a string literal. -/
  mode : Mode
  /-- Was the character before an equals sign outside literals? A `>` is then half an arrow. -/
  afterEq : Bool
  deriving DecidableEq, Repr

/-- The state at the start of a text. -/
def State.start : State := ⟨0, .code, false⟩

/-- Does `c` close a bracket here? The `>` of an arrow does not. -/
def State.closes (s : State) (c : Char) : Bool := isCloser c && !(c = '>' && s.afterEq)

/-- The state after one more character. -/
def State.step (s : State) (c : Char) : State :=
  match s.mode with
  | .escaped q => { s with mode := .quoted q }
  | .quoted q =>
    if c = '\\' then { s with mode := .escaped q }
    else if c = q then { s with mode := .code }
    else s
  | .code =>
    if isQuote c then ⟨s.depth, .quoted c, false⟩
    else if isOpener c then ⟨s.depth + 1, .code, false⟩
    else if s.closes c then ⟨s.depth - 1, .code, false⟩
    else ⟨s.depth, .code, c = '='⟩

/-- The depth before `c` when `c` is outside string literals. -/
def State.mark (s : State) (c : Char) : Option Nat :=
  match s.mode with
  | .code => if isQuote c then none else some s.depth
  | _ => none

/-- The state after a whole text. -/
def State.run (s : State) (t : Text) : State := t.foldl State.step s

/-- The mark of each character, from the state `s` on. -/
def marksFrom (s : State) : Text → List (Option Nat)
  | [] => []
  | c :: cs => s.mark c :: marksFrom (s.step c) cs

/-- The mark of each character of a text. -/
def marks (t : Text) : List (Option Nat) := marksFrom .start t

@[simp] theorem State.run_nil (s : State) : s.run [] = s := rfl

@[simp] theorem State.run_cons (s : State) (c : Char) (t : Text) :
    s.run (c :: t) = (s.step c).run t := rfl

theorem State.run_append (s : State) (t u : Text) : s.run (t ++ u) = (s.run t).run u :=
  List.foldl_append ..

@[simp] theorem length_marksFrom (s : State) (t : Text) : (marksFrom s t).length = t.length := by
  induction t generalizing s with
  | nil => rfl
  | cons c cs ih => simp [marksFrom, ih]

theorem marksFrom_append (s : State) (t u : Text) :
    marksFrom s (t ++ u) = marksFrom s t ++ marksFrom (s.run t) u := by
  induction t generalizing s with
  | nil => rfl
  | cons c cs ih => simp [marksFrom, ih]

end ExportSchema.Bracket
