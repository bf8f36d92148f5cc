import ResourceUrl.Text.Hex
import ResourceUrl.Text.Quoted
import ResourceUrl.Text.Split

/-!
# Bracketed hosts

The authority of a reference may hold a host in square brackets, which has to be an address of
version 6 or of a future version. `checkAuthority` says what is wrong with one that is not.

Nothing but the brackets and the host between them is checked. An authority is not brought into a
normal form, so that one is also taken whose compatibility form (NFKC) would hold a mark of a URL,
as `a/c` is the form of the account sign (U+2100).
-/

namespace ResourceUrl

/-- Why the authority of a reference is refused. -/
inductive AddressError where
  /-- Brackets that do not enclose exactly the host. -/
  | brackets
  /-- A host of a future version that is not one. -/
  | futureVersion
  /-- A version 4 address between brackets. -/
  | bracketedVersion4
  /-- A host between brackets that is no address. -/
  | notAddress (host : String)
deriving DecidableEq, Repr

def AddressError.message : AddressError → String
  | .brackets => "Invalid IPv6 URL"
  | .futureVersion => "IPvFuture address is invalid"
  | .bracketedVersion4 => "An IPv4 address cannot be in brackets"
  | .notAddress host => Text.Quoted.quote host ++ " does not appear to be an IPv4 or IPv6 address"

namespace Reference

/-- One of the four parts of a version 4 address: a number up to 255 without leading zeros. -/
def isVersion4Part (text : List Char) : Bool :=
  text ≠ [] && text.all Char.isDigit && text.length ≤ 3 && (text.length == 1 || text.head? != some '0')
    && Nat.ofDigitChars 10 text 0 ≤ 255

def isVersion4 (text : List Char) : Bool :=
  let parts := text.splitOn '.'
  parts.length == 4 && parts.all isVersion4Part

/-- One group of a version 6 address: one to four hexadecimal digits. -/
def isVersion6Group (text : List Char) : Bool :=
  text ≠ [] && text.length ≤ 4 && text.all Text.Hex.isDigit

/-- The groups of a version 6 address; a version 4 address at the end counts as two. -/
def version6Groups (text : List Char) : List (List Char) :=
  let groups := text.splitOn ':'
  if isVersion4 (groups.getLastD []) then groups.dropLast ++ [['0'], ['0']] else groups

/-- The groups on one side of a gap; a gap at an end of the address leaves one empty piece there. -/
def besideGap (groups : List (List Char)) : List (List Char) :=
  if groups = [[]] then [] else groups

/-- Eight groups between colons, or at most seven and one gap, which is an empty group that is
neither first nor last. -/
def isVersion6Address (text : List Char) : Bool :=
  let groups := version6Groups text
  let inner := (groups.drop 1).dropLast
  match inner.countP (·.isEmpty) with
  | 0 => groups.length == 8 && groups.all isVersion6Group
  | 1 =>
    let gap := inner.findIdx (·.isEmpty) + 1
    let written := besideGap (groups.take gap) ++ besideGap (groups.drop (gap + 1))
    written.length ≤ 7 && written.all isVersion6Group
  | _ => false

/-- A version 6 address, possibly with a zone after a percent sign. -/
def isVersion6 (text : List Char) : Bool :=
  let (address, zone) := Text.cut '%' text
  isVersion6Address address && (!text.contains '%' || (zone ≠ [] && !zone.contains '%'))

/-- An address of a future version: the version number, a point, and more. -/
def isFutureVersion : List Char → Bool
  | 'v' :: rest =>
    let (version, address) := Text.cut '.' rest
    version ≠ [] && version.all Text.Hex.isDigit && address ≠ []
  | _ => false

def checkHost (host : List Char) : Except AddressError Unit :=
  if host.head? = some 'v' then
    if isFutureVersion host then .ok () else .error .futureVersion
  else if isVersion4 host then .error .bracketedVersion4
  else if isVersion6 host then .ok ()
  else .error (.notAddress (.ofList host))

/-- The host of an authority that holds brackets: what stands between them, with nothing before them
and nothing or a colon after them; or else, when they stand in the user's part, the text before the
first colon. -/
def bracketedHost (authority : List Char) : Except AddressError (List Char) :=
  let location := (Text.cutLast '@' authority).2
  if location.contains '[' then
    let (before, bracketed) := Text.cut '[' location
    let (host, after) := Text.cut ']' bracketed
    if before = [] ∧ (after = [] ∨ after.head? = some ':') then .ok host else .error .brackets
  else .ok (Text.cut ':' location).1

/-- Checks the brackets of an authority and the host between them. -/
def checkAuthority (authority : List Char) : Except AddressError Unit :=
  if authority.contains '[' != authority.contains ']' then .error .brackets
  else if authority.contains '[' then do checkHost (← bracketedHost authority)
  else .ok ()

end Reference

end ResourceUrl
