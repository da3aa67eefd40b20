import ExportSchema.Encoding.Name
import ExportSchema.Encoding.Utf8

/-!
# Other encodings

Each decoder reads any bytes, with the replacement character for what it cannot decode.

* `Encoding.ofName?`: the encoding of a name, in any case, with hyphens or underscores.
* `Encoding.replacing`: the text of bytes in an encoding.
* `decodeWith`, `decodeBytes`: UTF-8 where it fits, else the encoding that a detector names.
-/

namespace ExportSchema

/-- The encodings that can be named. -/
inductive Encoding where
  | utf8
  | ascii
  | latin1
  | windows1252
  | utf16
  deriving DecidableEq, Repr

namespace Encoding

/-- The names of encodings, in lower case and with underscores. -/
def table : List (Text × Encoding) :=
  [("utf_8".toList, utf8), ("utf8".toList, utf8), ("ascii".toList, ascii),
    ("us_ascii".toList, ascii), ("iso_8859_1".toList, latin1), ("iso8859_1".toList, latin1),
    ("latin_1".toList, latin1), ("latin1".toList, latin1), ("windows_1252".toList, windows1252),
    ("cp1252".toList, windows1252), ("utf_16".toList, utf16), ("utf16".toList, utf16)]

/-- The encoding of a name. -/
def ofName? (name : Text) : Option Encoding :=
  table.lookup ((Text.lowerAscii name).map fun c => if c = '-' ∨ c = ' ' then '_' else c)

/-- The characters of the bytes 80 to 9F in Windows-1252; five bytes have none. -/
def windowsHigh : List (Option Nat) :=
  [some 0x20AC, none, some 0x201A, some 0x0192, some 0x201E, some 0x2026, some 0x2020,
   some 0x2021, some 0x02C6, some 0x2030, some 0x0160, some 0x2039, some 0x0152, none,
   some 0x017D, none, none, some 0x2018, some 0x2019, some 0x201C, some 0x201D, some 0x2022,
   some 0x2013, some 0x2014, some 0x02DC, some 0x2122, some 0x0161, some 0x203A, some 0x0153,
   none, some 0x017E, some 0x0178]

/-- The character of a byte in Windows-1252. -/
def windowsChar (b : UInt8) : Char :=
  if 0x80 ≤ b ∧ b ≤ 0x9F then
    match windowsHigh[b.toNat - 0x80]? with
    | some (some n) => Char.ofNat n
    | _ => replacementChar
  else Char.ofNat b.toNat

/-- The 16-bit units of bytes, and whether a byte is left over. -/
def units (bigEndian : Bool) : Bytes → List Nat × Bool
  | [] => ([], false)
  | [_] => ([], true)
  | a :: b :: rest =>
    let (us, odd) := units bigEndian rest
    ((if bigEndian then a.toNat * 256 + b.toNat else b.toNat * 256 + a.toNat) :: us, odd)

/-- Is this the first half of a surrogate pair? -/
def isHigh (u : Nat) : Bool := 0xD800 ≤ u && u ≤ 0xDBFF

/-- Is this the second half of a surrogate pair? -/
def isLow (u : Nat) : Bool := 0xDC00 ≤ u && u ≤ 0xDFFF

/-- The characters of 16-bit units, where `odd` says that a byte is left over at the end. Half a
surrogate pair is replaced; at the end it takes the left-over byte along. -/
def unitsText (odd : Bool) : List Nat → Text
  | [] => if odd then [replacementChar] else []
  | [u] =>
    if isHigh u then [replacementChar]
    else
      (if isLow u then replacementChar else Char.ofNat u) ::
        if odd then [replacementChar] else []
  | u :: v :: us =>
    if isHigh u && isLow v then
      Char.ofNat (0x10000 + (u - 0xD800) * 0x400 + (v - 0xDC00)) :: unitsText odd us
    else
      (if isHigh u || isLow u then replacementChar else Char.ofNat u) :: unitsText odd (v :: us)

/-- The text of bytes in UTF-16. A byte order mark at the start tells the order and is left out;
without one the low byte comes first. -/
def utf16Text (bs : Bytes) : Text :=
  let (bigEndian, body) : Bool × Bytes :=
    match bs with
    | 0xFF :: 0xFE :: rest => (false, rest)
    | 0xFE :: 0xFF :: rest => (true, rest)
    | bs => (false, bs)
  let (us, odd) := units bigEndian body
  unitsText odd us

/-- The text of bytes in an encoding. -/
def replacing (e : Encoding) (bs : Bytes) : Text :=
  match e with
  | utf8 => Utf8.replacing bs
  | ascii => bs.map fun b => if b < 0x80 then Char.ofNat b.toNat else replacementChar
  | latin1 => bs.map fun b => Char.ofNat b.toNat
  | windows1252 => bs.map windowsChar
  | utf16 => utf16Text bs

end Encoding

/-- The encodings by their names, each with its decoder for any bytes. -/
abbrev Codecs := Text → Option (Bytes → Text)

/-- The encodings that are known here. -/
def Encoding.codecs : Codecs := fun name => (ofName? name).map replacing

/-- The text of bytes: UTF-8 when they are, else what the encoding named by the detector makes of
them. No name, or one that is not known, is UTF-8 with replacements. -/
def decodeWith (codecs : Codecs) (detected : Option EncodingName) (bs : Bytes) :
    Except NameError Text :=
  match Utf8.strict? bs, detected with
  | some t, _ => .ok t
  | none, none | none, some [] => .ok (Utf8.replacing bs)
  | none, some name => name.key.map fun key => (codecs key).getD Utf8.replacing bs

/-- The text of bytes, by the encodings that are known here. -/
def decodeBytes (detected : Option EncodingName) (bs : Bytes) : Except NameError Text :=
  decodeWith Encoding.codecs detected bs

end ExportSchema
