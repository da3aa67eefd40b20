import ExportSchema.Text.Basic

/-!
# UTF-8

The decoder reads one byte at a time and keeps what a started sequence still needs. A sequence that
breaks off gives one mark, and the byte that broke it is read afresh, so there is one mark for each
longest start of a valid sequence.

* `Utf8.encode`: the bytes of a text.
* `Utf8.decode`: the characters of bytes, with `none` for each broken sequence.
* `Utf8.strict?`, `Utf8.replacing`: refuse broken sequences, or put the replacement character.
-/

namespace ExportSchema

/-- A sequence of bytes. -/
abbrev Bytes := List UInt8

/-- The character that stands for what cannot be decoded. -/
def replacementChar : Char := '\uFFFD'

namespace Utf8

/-- The bytes of a text. -/
def encode (t : Text) : Bytes := t.flatMap String.utf8EncodeChar

/-- What the decoder waits for. -/
inductive State where
  /-- The first byte of a character. -/
  | start
  /-- A byte from `low` to `high`, then `left` more, where `value` has been read so far. -/
  | inside (low high left value : Nat)
  deriving DecidableEq, Repr

/-- The state after a first byte that starts a longer sequence. Overlong forms, surrogates and
values beyond the last code point are ruled out by the range of the second byte. -/
def lead? (b : Nat) : Option State :=
  if 0xC2 ≤ b ∧ b ≤ 0xDF then some (.inside 0x80 0xBF 0 (b - 0xC0))
  else if b = 0xE0 then some (.inside 0xA0 0xBF 1 0)
  else if b = 0xED then some (.inside 0x80 0x9F 1 0xD)
  else if 0xE1 ≤ b ∧ b ≤ 0xEF then some (.inside 0x80 0xBF 1 (b - 0xE0))
  else if b = 0xF0 then some (.inside 0x90 0xBF 2 0)
  else if 0xF1 ≤ b ∧ b ≤ 0xF3 then some (.inside 0x80 0xBF 2 (b - 0xF0))
  else if b = 0xF4 then some (.inside 0x80 0x8F 2 4)
  else none

/-- Read a byte where a character may start. -/
def startByte (b : Nat) : List (Option Char) × State :=
  if b < 0x80 then ([some (Char.ofNat b)], .start)
  else
    match lead? b with
    | some s => ([], s)
    | none => ([none], .start)

/-- Read a byte: the characters and marks it completes, and the state after it. -/
def step (s : State) (b : Nat) : List (Option Char) × State :=
  match s with
  | .start => startByte b
  | .inside low high left value =>
    if low ≤ b ∧ b ≤ high then
      let value := value * 64 + (b - 0x80)
      match left with
      | 0 => ([some (Char.ofNat value)], .start)
      | left + 1 => ([], .inside 0x80 0xBF left value)
    else
      let (out, s) := startByte b
      (none :: out, s)

/-- The characters of bytes from a state on, with `none` for each broken sequence. -/
def decodeFrom (s : State) : Bytes → List (Option Char)
  | [] =>
    match s with
    | .start => []
    | .inside .. => [none]
  | b :: bs =>
    let (out, s) := step s b.toNat
    out ++ decodeFrom s bs

/-- The characters of bytes, with `none` for each broken sequence. -/
def decode (bs : Bytes) : List (Option Char) := decodeFrom .start bs

/-- The text of bytes, if every sequence is whole. -/
def strict? (bs : Bytes) : Option Text := (decode bs).mapM id

/-- The text of bytes, with the replacement character for each broken sequence. -/
def replacing (bs : Bytes) : Text := (decode bs).map (·.getD replacementChar)

end Utf8

end ExportSchema
