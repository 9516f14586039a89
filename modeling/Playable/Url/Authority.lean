import Playable.Number.Decimal
import Playable.Text.Digit
import Playable.Text.Quoted

/-!
# The authority of a URL

The authority names the host, perhaps behind a user and in front of a number. An
address with colons stands in brackets, which must not be used for anything else.
No character of the authority may be a compatibility form of a delimiter.
-/

namespace Playable.Url

/-- Why a URL is refused. -/
inductive UrlError where
  /-- A bracket is out of place. -/
  | misplacedBracket
  /-- The host in brackets is no address. -/
  | notAnAddress (host : Text)
  /-- The host in brackets is an address without colons. -/
  | bracketedIpv4
  /-- The host in brackets starts like one of a future kind, and is none. -/
  | futureHost
  /-- The authority holds a compatibility form of a delimiter. -/
  | disguisedDelimiter (authority : Text)
  deriving DecidableEq, Repr

/-- The wording of a refusal. -/
def UrlError.message : UrlError → Text
  | misplacedBracket => "Invalid IPv6 URL".toList
  | notAnAddress host =>
    Text.quoted host ++ " does not appear to be an IPv4 or IPv6 address".toList
  | bracketedIpv4 => "An IPv4 address cannot be in brackets".toList
  | futureHost => "IPvFuture address is invalid".toList
  | disguisedDelimiter authority =>
    "netloc '".toList ++ authority
      ++ "' contains invalid characters under NFKC normalization".toList

/-- A decimal number below 256, without leading zeros. -/
def isAddressOctet (t : Text) : Bool :=
  t ≠ [] && t.all Char.isDigit && t.length ≤ 3 && (t = ['0'] || t.head? ≠ some '0')
    && Number.digitsValue t ≤ 255

/-- An address of four octets. -/
def isIpv4 (t : Text) : Bool :=
  let octets := Text.split '.' t
  octets.length = 4 && octets.all isAddressOctet

/-- A hexadecimal number of at most four digits. -/
def isAddressGroup (t : Text) : Bool :=
  t ≠ [] && t.length ≤ 4 && t.all fun c => (Text.hexValue? c).isSome

/-- The number of groups on one side of a double colon; nothing at all is no group. -/
def groupsBeside? (side : List Text) : Option Nat :=
  if side = [[]] then some 0 else if side.all isAddressGroup then some side.length else none

/-- Whether groups with colons between them make up an address: eight groups, or at
most seven around one double colon. -/
def areGroups : List Text → Bool
  | [] => false
  | first :: more =>
    match more.dropWhile (· ≠ []) with
    | _ :: next :: after =>
      match groupsBeside? (first :: more.takeWhile (· ≠ [])), groupsBeside? (next :: after) with
      | some high, some low => high + low ≤ 7
      | _, _ => false
    | _ => more.length = 7 && (first :: more).all isAddressGroup

/-- Replace an address of four octets at the end by the two groups it stands for, as
far as their form matters. -/
def expandLast (parts : List Text) : Option (List Text) :=
  match parts.getLast? with
  | none => none
  | some last =>
    if '.' ∉ last then some parts
    else if isIpv4 last then some (parts.dropLast ++ [['0'], ['0']])
    else none

/-- An address of eight groups, perhaps with a zone behind a percent sign. -/
def isIpv6 (t : Text) : Bool :=
  let (address, zone) := Text.cutFirst '%' t
  zone.all (fun z => z ≠ [] && '%' ∉ z) && (expandLast (Text.split ':' address)).any areGroups

/-- A host of a future kind: its version in hexadecimal, a point, and a name. -/
def isFutureHost : Text → Bool
  | 'v' :: rest =>
    let digits := rest.takeWhile fun c => (Text.hexValue? c).isSome
    match rest.drop digits.length with
    | '.' :: _ :: _ => digits ≠ []
    | _ => false
  | _ => false

/-- Refuse a host that must not stand in brackets. -/
def checkBracketedHost (host : Text) : Except UrlError Unit :=
  if host.head? = some 'v' then if isFutureHost host then .ok () else .error .futureHost
  else if isIpv4 host then .error .bracketedIpv4
  else if isIpv6 host then .ok ()
  else .error (.notAnAddress host)

/-- Refuse an authority with brackets whose brackets are out of place or whose host
must not stand in brackets. The user in front of the last at sign does not count. -/
def checkBrackets (authority : Text) : Except UrlError Unit :=
  let located := (authority.reverse.takeWhile (· ≠ '@')).reverse
  match Text.cutFirst '[' located with
  | (_, none) => checkBracketedHost (Text.cutFirst ':' located).1
  | (front, some bracketed) =>
    let (host, after) := Text.cutFirst ']' bracketed
    let after := after.getD []
    if front ≠ [] ∨ (after ≠ [] ∧ after.head? ≠ some ':') then .error .misplacedBracket
    else checkBracketedHost host

/-- The characters whose compatibility form contains a slash, a question mark, a
number sign, an at sign or a colon. -/
def disguisedDelimiters : List Nat :=
  [0x2047, 0x2048, 0x2049, 0x2100, 0x2101, 0x2105, 0x2106, 0x2A74, 0xFE13, 0xFE16, 0xFE55,
    0xFE56, 0xFE5F, 0xFE6B, 0xFF03, 0xFF0F, 0xFF1A, 0xFF1F, 0xFF20]

/-- Refuse an authority with a lone or misused bracket or a disguised delimiter. -/
def checkAuthority (authority : Text) : Except UrlError Unit := do
  if decide ('[' ∈ authority) ≠ decide (']' ∈ authority) then .error .misplacedBracket
  if '[' ∈ authority then checkBrackets authority
  if authority.any (disguisedDelimiters.contains ·.toNat) then
    .error (.disguisedDelimiter authority)

end Playable.Url
