import ExportSchema.IpAddress
import ExportSchema.Text.Quoted
import ExportSchema.Text.Word

/-!
# URLs

`Url.split` takes a URL apart at its scheme, host part, query and fragment; `Url.text` puts the
parts together again. Control characters and spaces in front, and tabs and line ends anywhere, are
removed first, and the scheme is put in lower case. A host in square brackets has to be an address
of eight groups or of a later version.

* `Url.clean`: the text without the characters that are removed.
* `Url.checkBrackets`: what is wrong with the brackets of a host part.
-/

namespace ExportSchema

/-- The parts of a URL. -/
structure Url where
  scheme : Text
  host : Text
  path : Text
  query : Text
  fragment : Text
  deriving DecidableEq, Repr

/-- What is wrong with the host part of a URL. -/
inductive UrlError where
  /-- A square bracket without its partner, or with text beside it. -/
  | bracket
  /-- Four numbers in brackets. -/
  | bracketedNumbers
  /-- An address of a later version that is not well formed. -/
  | badVersion
  /-- No address where brackets ask for one. -/
  | noAddress (host : Text)
  /-- A character that is compatible with one of `/ ? # @ :`, which would end the host part. -/
  | delimiter (host : Text)
  deriving DecidableEq, Repr

/-- What is said of a bad host part. -/
def UrlError.message : UrlError → Text
  | bracket => "Invalid IPv6 URL".toList
  | bracketedNumbers => "An IPv4 address cannot be in brackets".toList
  | badVersion => "IPvFuture address is invalid".toList
  | noAddress host => Text.quoted host ++ " does not appear to be an IPv4 or IPv6 address".toList
  | delimiter host =>
    "netloc '".toList ++ host ++
      "' contains invalid characters under NFKC normalization".toList

namespace Url

/-- A character of a scheme. -/
def isSchemeChar (c : Char) : Bool :=
  Text.isAsciiLetter c || ('0' ≤ c && c ≤ '9') || c = '+' || c = '-' || c = '.'

/-- The scheme of a URL in lower case, and what follows its colon. -/
def splitScheme (t : Text) : Text × Text :=
  match Text.cut? ':' t with
  | some (scheme, rest) =>
    if scheme.head?.any Text.isAsciiLetter && scheme.all isSchemeChar then
      (Text.lowerAscii scheme, rest)
    else ([], t)
  | none => ([], t)

/-- The host part after two slashes, and what follows it. -/
def splitHost (t : Text) : Text × Text :=
  match Text.after? "//".toList t with
  | some rest =>
    let ends (c : Char) : Bool := c = '/' || c = '?' || c = '#'
    (rest.takeWhile (!ends ·), rest.dropWhile (!ends ·))
  | none => ([], t)

/-- The characters whose compatibility form holds one of `/ ? # @ :`. -/
def delimiterLike : List Nat :=
  [0x2047, 0x2048, 0x2049, 0x2100, 0x2101, 0x2105, 0x2106, 0x2A74, 0xFE13, 0xFE16, 0xFE55, 0xFE56,
   0xFE5F, 0xFE6B, 0xFF03, 0xFF0F, 0xFF1A, 0xFF1F, 0xFF20]

/-- What stands before the first `sep`, and what follows it. -/
def splitAt (sep : Char) (t : Text) : Text × Text := (Text.cut? sep t).getD (t, [])

/-- A host name between brackets is an address of eight groups or of a later version. -/
def checkAddress (name : Text) : Except UrlError Unit :=
  if IpAddress.hasVersion name then
    if IpAddress.isFuture name then .ok () else .error .badVersion
  else if IpAddress.isV4 name then .error .bracketedNumbers
  else if IpAddress.isV6 name then .ok ()
  else .error (.noAddress name)

/-- The part of a host part after its last at sign, which names the host and its port. -/
def hostAndPort (host : Text) : Text := (host.reverse.takeWhile (· ≠ '@')).reverse

/-- Check the brackets of a host part. Nothing stands before a bracketed name, and only a port
behind it. Brackets that stand before the at sign leave a bare name, which is checked as well. -/
def checkBrackets (host : Text) : Except UrlError Unit :=
  if host.contains '[' != host.contains ']' then .error .bracket
  else if !host.contains '[' then .ok ()
  else
    match Text.cut? '[' (hostAndPort host) with
    | none => checkAddress (splitAt ':' (hostAndPort host)).1
    | some (before, bracketed) =>
      let (name, port) := splitAt ']' bracketed
      if !before.isEmpty then .error .bracket
      else if !port.isEmpty && port.head? ≠ some ':' then .error .bracket
      else checkAddress name

/-- The text of a URL without control characters and spaces in front, and without tabs and line
ends. -/
def clean (t : Text) : Text :=
  (Text.stripStartWith (· ≤ ' ') t).filter fun c => c ≠ '\t' ∧ c ≠ '\r' ∧ c ≠ '\n'

/-- Take a URL apart. -/
def split (t : Text) : Except UrlError Url := do
  let (scheme, rest) := splitScheme (clean t)
  let (host, rest) := splitHost rest
  checkBrackets host
  let (rest, fragment) := splitAt '#' rest
  let (path, query) := splitAt '?' rest
  if host.any fun c => delimiterLike.contains c.toNat then .error (.delimiter host)
  else return ⟨scheme, host, path, query, fragment⟩

/-- The text of a URL that has a host part. Empty parts leave no mark. -/
def text (u : Url) : Text :=
  let path := if u.path.isEmpty || u.path.head? = some '/' then u.path else '/' :: u.path
  (if u.scheme.isEmpty then [] else u.scheme ++ [':']) ++ "//".toList ++ u.host ++ path ++
    (if u.query.isEmpty then [] else '?' :: u.query) ++
    (if u.fragment.isEmpty then [] else '#' :: u.fragment)

end Url

end ExportSchema
