import ExportSchema.Text.Basic

/-!
# Internet addresses

The two written forms of an address. In the first, four numbers below 256 stand between points. In
the second, eight groups of hexadecimal digits stand between colons; one run of zero groups may be
left out between two colons, the last two groups may be written in the first form, and a zone may
follow after a percent sign.

* `IpAddress.isV4`, `IpAddress.isV6`: is a text an address of the first or second form?
* `IpAddress.isFuture`: the form kept for later versions, in which the version stands in front.
-/

namespace ExportSchema.IpAddress

/-- A hexadecimal digit. -/
def isHexDigit (c : Char) : Bool :=
  c.isDigit || ('a' ≤ c && c ≤ 'f') || ('A' ≤ c && c ≤ 'F')

/-! ## Four numbers -/

/-- The value of ASCII digits. -/
def octetValue (t : Text) : Nat := t.foldl (fun n c => 10 * n + (c.toNat - 48)) 0

/-- A number from 0 to 255, in ASCII digits without a zero in front. -/
def isOctet (t : Text) : Bool :=
  !t.isEmpty && t.all Char.isDigit && t.length ≤ 3 && (t = ['0'] || t.head? ≠ some '0') &&
    octetValue t < 256

/-- An address of the first form. -/
def isV4 (t : Text) : Bool :=
  let octets := Text.splitOn '.' t
  octets.length = 4 && octets.all isOctet

/-! ## Eight groups -/

/-- A group of one to four hexadecimal digits. -/
def isGroup (t : Text) : Bool := !t.isEmpty && t.length ≤ 4 && t.all isHexDigit

/-- The groups on both sides of the first empty group that has neighbours on both sides. -/
def gap? : List Text → Option (List Text × List Text)
  | g :: [] :: h :: more => some ([g], h :: more)
  | g :: more => (gap? more).map fun (before, after) => (g :: before, after)
  | [] => none

/-- How many groups are written on one side of a gap; a gap at the end of an address has one empty
group beside it. -/
def written? (groups : List Text) : Option Nat :=
  if groups = [[]] then some 0
  else if groups.all isGroup then some groups.length
  else none

/-- Eight groups, or fewer with a gap for the others. -/
def areGroups (groups : List Text) : Bool :=
  match gap? groups with
  | none => groups.length = 8 && groups.all isGroup
  | some (before, after) =>
    match written? before, written? after with
    | some m, some n => m + n < 8
    | _, _ => false

/-- The groups of an address, where an end in the first form stands for two of them. -/
def groups? (t : Text) : Option (List Text) :=
  let groups := Text.splitOn ':' t
  match groups.getLast? with
  | some last =>
    if last.contains '.' then
      if isV4 last then some (groups.dropLast ++ [['0'], ['0']]) else none
    else some groups
  | none => none

/-- The address without its zone; the zone is not empty and holds no percent sign. -/
def withoutZone? (t : Text) : Option Text :=
  match Text.cut? '%' t with
  | none => some t
  | some (address, zone) => if zone.isEmpty || zone.contains '%' then none else some address

/-- An address of the second form. -/
def isV6 (t : Text) : Bool := ((withoutZone? t).bind groups?).any areGroups

/-! ## Later versions -/

/-- The letter `v` in front. -/
def hasVersion (t : Text) : Bool := t.head? = some 'v'

/-- A version of hexadecimal digits behind the letter `v`, a point and an address. -/
def isFuture (t : Text) : Bool :=
  match Text.cut? '.' t with
  | some ('v' :: version, address) =>
    !version.isEmpty && version.all isHexDigit && !address.isEmpty
  | _ => false

end ExportSchema.IpAddress
