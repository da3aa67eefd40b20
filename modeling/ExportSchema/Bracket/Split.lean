import ExportSchema.Bracket.Scan
import ExportSchema.Text.Blank

/-!
# Cutting and searching at the top level

Everything here looks only at characters outside string literals and outside brackets.

* `split`, `splitMembers`: cut a text at delimiters, with or without a limit on the cuts.
* `find?`: the first place where a token stands.
* `close?`: the bracket that closes the one at a given place.
* `enclosed?`: the inside of a text that is one bracketed group.
-/

namespace ExportSchema.Bracket

open Text (trim)

/-! ## Splitting -/

/-- One cut fewer; no limit stays no limit. -/
def spend : Option Nat → Option Nat := Option.map (· - 1)

/-- May another cut be made? -/
def mayCut : Option Nat → Bool
  | none => true
  | some n => n ≠ 0

/-- The first part and the further parts, from the state `s` on, with at most `limit` cuts. -/
def splitFrom (delims : Text) (s : State) (limit : Option Nat) : Text → Text × List Text
  | [] => ([], [])
  | c :: cs =>
    if s.mark c = some 0 ∧ delims.contains c ∧ mayCut limit then
      let (p, ps) := splitFrom delims (s.step c) (spend limit) cs
      ([], p :: ps)
    else
      let (p, ps) := splitFrom delims (s.step c) limit cs
      (c :: p, ps)

/-- Cut a text at its top-level delimiters, at most `limit` times. There is one part more than
there are cuts. -/
def split (delims : Text) (t : Text) (limit : Option Nat) : List Text :=
  let (p, ps) := splitFrom delims .start limit t
  p :: ps

/-- The parts on both sides of the first top-level delimiter. -/
def cutAt? (delims : Text) (t : Text) : Option (Text × Text) :=
  match splitFrom delims .start (some 1) t with
  | (a, b :: _) => some (a, b)
  | (_, []) => none

/-- Does a delimiter stand at the top level? -/
def hasTopLevel (delims : Text) (t : Text) : Bool := (split delims t (some 1)).length > 1

/-! ## Searching -/

/-- The first top-level place of `token`, from the state `s` on. -/
def findFrom (token : Text) (s : State) : Text → Option Nat
  | [] => none
  | c :: cs =>
    if s.mark c = some 0 ∧ Text.startsWith token (c :: cs) then some 0
    else (findFrom token (s.step c) cs).map (· + 1)

/-- The first place where `token` stands at the top level. -/
def find? (token : Text) (t : Text) : Option Nat := findFrom token .start t

/-! ## Matching brackets -/

/-- The first place where a bracket closes from depth `depth`, from the state `s` on. -/
def closeFrom (depth : Nat) (s : State) : Text → Option Nat
  | [] => none
  | c :: cs =>
    if s.mark c = some depth ∧ s.closes c then some 0
    else (closeFrom depth (s.step c) cs).map (· + 1)

/-- The place of the bracket that closes the one at `start`; `none` when nothing closes it, or
when no bracket opens there. -/
def close? (t : Text) (start : Nat) : Option Nat :=
  match t.drop start with
  | [] => none
  | c :: cs =>
    let s := State.start.run (t.take start)
    if isOpener c ∧ s.mode = .code then
      (closeFrom (s.depth + 1) (s.step c) cs).map (start + 1 + ·)
    else none

/-- The place asked for lies before the start of the text. -/
structure BeforeStart where
  deriving DecidableEq, Repr

/-- `close?` for a place that may be counted from the end. The scan never meets such a place, so
nothing closes it; counting back past the start is an error. -/
def closeAt (t : Text) (start : Int) : Except BeforeStart (Option Nat) :=
  match start with
  | .ofNat n => .ok (close? t n)
  | .negSucc n => if n < t.length then .ok none else .error ⟨⟩

/-- The inside of a text that opens with `opener` and is closed by its last character. -/
def enclosed? (opener : Char) : Text → Option Text
  | [] => none
  | c :: cs =>
    if c = opener ∧ close? (c :: cs) 0 = some cs.length then some cs.dropLast else none

/-- Cut a text at its top-level delimiters; one group in braces is cut inside them. -/
def splitMembers (delims : Text) (t : Text) (limit : Option Nat) : List Text :=
  split delims ((enclosed? '{' (trim t)).getD t) limit

end ExportSchema.Bracket
