import PolishCalc.Numeral
import PolishCalc.Quoted
import PolishCalc.Text

namespace PolishCalc

/-- Why a text cannot be used as a URL. -/
inductive UrlError
  | unbalancedBrackets
  | malformedFuture
  | shortAddress
  | noAddress (host : String)
  | hiddenDelimiter (authority : String)
  | emptyLabel
  | longLabel
  | notANumber (text : String)
  | numberOutOfRange
  | numberTooLong (l : DigitLimit)
  deriving DecidableEq, Repr

def UrlError.message : UrlError → String
  | .unbalancedBrackets => "Invalid IPv6 URL"
  | .malformedFuture => "IPvFuture address is invalid"
  | .shortAddress => "An IPv4 address cannot be in brackets"
  | .noAddress host => quoted host ++ " does not appear to be an IPv4 or IPv6 address"
  | .hiddenDelimiter authority =>
    "netloc " ++ String.singleton singleQuote ++ authority ++ String.singleton singleQuote ++
      " contains invalid characters under NFKC normalization"
  | .emptyLabel =>
    "encoding with " ++ quoted "idna" ++ " codec failed (UnicodeError: label empty or too long)"
  | .longLabel =>
    "encoding with " ++ quoted "idna" ++ " codec failed (UnicodeError: label too long)"
  | .notANumber text => "Port could not be cast to integer value as " ++ quoted text
  | .numberOutOfRange => "Port out of range 0-65535"
  | .numberTooLong l => l.message

/-- Whether the fault lies in the name of a host and not in the form of the URL. -/
def UrlError.isLabel : UrlError → Bool
  | .emptyLabel => true
  | .longLabel => true
  | _ => false

def isHexDigit (c : Char) : Bool := (hexValue? c).isSome

/-- A number up to 255 without needless zeros. -/
def isOctet (cs : List Char) : Bool :=
  !cs.isEmpty && cs.all Char.isDigit && cs.length ≤ 3 && (cs.length = 1 || cs.head? != some '0') &&
    Nat.ofDigitChars 10 cs 0 ≤ 255

/-- Four octets with dots between them. -/
def isShortAddress (cs : List Char) : Bool :=
  let octets := partsBy (· == '.') cs
  octets.length = 4 && octets.all isOctet

def isGroup (cs : List Char) : Bool :=
  !cs.isEmpty && cs.length ≤ 4 && cs.all isHexDigit

/-- Groups on one side of the gap of an address; there may be none, which leaves one empty part. -/
def sideGroups? (side : List (List Char)) : Option (List (List Char)) :=
  if side = [[]] then some [] else if side.all isGroup then some side else none

/-- Eight groups, or fewer with one gap between them. -/
def areGroups (parts : List (List Char)) : Bool :=
  let inner := (parts.drop 1).dropLast
  match (inner.filter List.isEmpty).length with
  | 0 => parts.length = 8 && parts.all isGroup
  | 1 =>
    let k := 1 + (inner.takeWhile fun p => !p.isEmpty).length
    match sideGroups? (parts.take k), sideGroups? (parts.drop (k + 1)) with
    | some high, some low => high.length + low.length ≤ 7
    | _, _ => false
  | _ => false

/-- An address of eight groups, of which the last two may be written as four octets. It may name a
zone after a percent sign. -/
def isLongAddress (cs : List Char) : Bool :=
  let (address, zone) := cutAt '%' cs
  let zoned := !cs.contains '%' || (!zone.isEmpty && !zone.contains '%')
  let parts := partsBy (· == ':') address
  let last := parts.getLast?.getD []
  let parts' := if last.contains '.' then parts.dropLast ++ [['0'], ['0']] else parts
  zoned && !cs.contains '/' && 3 ≤ parts.length &&
    (!last.contains '.' || isShortAddress last) && parts'.length ≤ 9 && areGroups parts'

/-- An address of a version still to come: a hexadecimal number, a dot and something more. -/
def isFutureAddress (cs : List Char) : Bool :=
  let (version, rest) := cutAt '.' (cs.drop 1)
  !version.isEmpty && version.all isHexDigit && !rest.isEmpty

/-- Checks an address in brackets. -/
def checkBracketed (host : List Char) : Except UrlError Unit :=
  if host.head? = some 'v' then
    if isFutureAddress host then .ok () else .error .malformedFuture
  else if isShortAddress host then .error .shortAddress
  else if isLongAddress host then .ok ()
  else .error (.noAddress (String.ofList host))

/-- Characters that turn into a delimiter when a name is normalized. -/
def hiddenDelimiters : List Nat :=
  [0x2047, 0x2048, 0x2049, 0x2100, 0x2101, 0x2105, 0x2106, 0x2A74, 0xFE13, 0xFE16, 0xFE55, 0xFE56,
    0xFE5F, 0xFE6B, 0xFF03, 0xFF0F, 0xFF1A, 0xFF1F, 0xFF20]

/-- Checks what stands between the two slashes and the path. -/
def checkAuthority (a : List Char) : Except UrlError Unit := do
  if a.contains '[' != a.contains ']' then .error .unbalancedBrackets
  else if a.contains '[' then checkBracketed (cutAt ']' (cutAt '[' a).2).1
  else .ok ()
  if a.any fun c => hiddenDelimiters.contains c.toNat then
    .error (.hiddenDelimiter (String.ofList a))
  else .ok ()

/-- A URL without its query and its fragment. -/
structure Url where
  scheme : List Char
  authority : List Char
  path : List Char
  deriving DecidableEq, Repr

namespace Url

/-- Control characters and blanks in front of a URL do not belong to it, and tabs and line ends
do not wherever they stand. -/
def clean (cs : List Char) : List Char :=
  (cs.dropWhile fun c => c.toNat ≤ 32).filter fun c => c != '\t' && c != '\r' && c != '\n'

def isSchemeChar (c : Char) : Bool := c.isAlphanum || c = '+' || c = '-' || c = '.'

/-- A scheme starts with a letter and ends with a colon. -/
def splitScheme (cs : List Char) : List Char × List Char :=
  let (scheme, rest) := cutAt ':' cs
  if cs.contains ':' && (scheme.head?.any Char.isAlpha) && scheme.all isSchemeChar then
    (scheme.map Char.toLower, rest)
  else ([], cs)

/-- Two slashes announce an authority. -/
def splitAuthority : List Char → List Char × List Char
  | '/' :: '/' :: cs =>
    let inside (c : Char) : Bool := c != '/' && c != '?' && c != '#'
    (cs.takeWhile inside, cs.dropWhile inside)
  | cs => ([], cs)

def split (cs : List Char) : Except UrlError Url := do
  let (scheme, rest) := splitScheme (clean cs)
  let (authority, rest) := splitAuthority rest
  checkAuthority authority
  .ok ⟨scheme, authority, rest.takeWhile fun c => c != '?' && c != '#'⟩

/-- The user named in an authority, if there is one, and the rest. -/
def splitUser (authority : List Char) : Option (List Char) × List Char :=
  if authority.contains '@' then
    let host := authority.reverse.takeWhile (· != '@')
    (some (authority.reverse.drop (host.length + 1)).reverse, host.reverse)
  else (none, authority)

/-- The host of an authority without its user, and the text of the number after it. -/
def splitNumber (cs : List Char) : List Char × List Char :=
  if cs.contains '[' then
    let (host, rest) := cutAt ']' (cutAt '[' cs).2
    (host, (cutAt ':' rest).2)
  else cutAt ':' cs

/-- Names of hosts have dots between their labels; other scripts have dots of their own. -/
def labels (host : List Char) : List (List Char) :=
  if host.all fun c => c.toNat < 128 then partsBy (· == '.') host
  else partsBy (fun c => [0x2E, 0x3002, 0xFF0E, 0xFF61].contains c.toNat) host

/-- A label has 1 to 63 characters; only the last may be empty. -/
def checkLabels (host : List Char) : Except UrlError Unit :=
  let ls := labels host
  if ls.dropLast.any fun l => l.isEmpty || 64 ≤ l.length then .error .emptyLabel
  else if 64 ≤ (ls.getLast?.getD []).length then
    .error (if host.all fun c => c.toNat < 128 then .longLabel else .emptyLabel)
  else .ok ()

/-- The number after a host; zero stands for none. -/
def hostNumber (digits : List Char) : Except UrlError Nat :=
  if digits.isEmpty then .ok 0
  else if digits.all Char.isDigit then
    match readNumeral (String.ofList digits) with
    | .error l => .error (.numberTooLong l)
    | .ok n => if n ≤ 65535 then .ok n.toNat else .error .numberOutOfRange
  else .error (.notANumber (String.ofList digits))

/-- Small letters for the name of a host, up to its zone. -/
def lowerHost (host : List Char) : List Char :=
  (host.takeWhile (· != '%')).map Char.toLower ++ host.dropWhile (· != '%')

/-- A character in the name or the password of a user; most signs are written by their bytes. -/
def escapeUser (c : Char) : List Char :=
  if c.toNat < 128 && c.isAlphanum || c = singleQuote || "_.-~%!$&()*+,;=".toList.contains c then [c]
  else (String.singleton c).toUTF8.toList.flatMap fun b =>
    '%' :: (hexDigits 2 b.toNat).map Char.toUpper

/-- An authority in its usual form. -/
def normalAuthority (authority : List Char) : Except UrlError (List Char) := do
  let (user, rest) := splitUser authority
  let (host, digits) := splitNumber rest
  let host := lowerHost host
  checkLabels host
  let n ← hostNumber digits
  let host := if host.contains ':' then '[' :: host ++ [']'] else host
  let host := if n = 0 then host else host ++ ':' :: n.repr.toList
  .ok (match user with
    | none => host
    | some [] => host
    | some user =>
      let (name, password) := cutAt ':' user
      let name := name.flatMap escapeUser
      let password := password.flatMap escapeUser
      if name.isEmpty then host
      else if password.isEmpty then name ++ '@' :: host
      else name ++ ':' :: password ++ '@' :: host)

/-- A URL with its authority in the usual form, as text. -/
def normalText (u : Url) : Except UrlError (List Char) := do
  let authority ← normalAuthority u.authority
  let slash := if u.path.isEmpty || u.path.head? = some '/' then [] else ['/']
  let rest :=
    if authority.isEmpty && u.path.take 2 != ['/', '/'] then u.path
    else '/' :: '/' :: authority ++ slash ++ u.path
  .ok (if u.scheme.isEmpty then rest else u.scheme ++ ':' :: rest)

end Url

/-- Replaces a percent sign and two hexadecimal digits by the character that they stand for. -/
def unescapePercent : List Char → List Char
  | [] => []
  | '%' :: a :: b :: cs =>
    match hexValue? a, hexValue? b with
    | some m, some n => Char.ofNat (16 * m + n) :: unescapePercent cs
    | _, _ => '%' :: unescapePercent (a :: b :: cs)
  | c :: cs => c :: unescapePercent cs

end PolishCalc
