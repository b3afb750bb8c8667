import OrderRelay.Number.Digits
import OrderRelay.Text.Case
import OrderRelay.Text.Percent

/-!
# Addresses as clients write them

A client gives an address as a text. Before a request goes out, the text is brought into one form:
blanks inside and around it go, a backslash is a slash, dot segments are carried out, and what may
not stand in a path is percent-encoded. A percent sign stays as it is, so what is encoded already is
not encoded again.

* `Url.parse?`: the address that a text writes, unless it is none of the HTTP schemes.
* `Url.target`: what a request for the address names.
* `Url.octets`: the address in its one form.
-/

namespace OrderRelay.Http

/-- An address. -/
structure Url where
  isSecure : Bool
  host : String
  /-- The port, unless it is the one that goes with the scheme. -/
  port : Option Nat
  path : Bytes
  query : Option Bytes
  fragment : Option Bytes
  deriving DecidableEq, Repr

namespace Url

/-- Blanks and control characters, which may stand around an address. -/
def isTrimmed (c : Char) : Bool := c.toNat ≤ 0x20

/-- Characters that may stand anywhere in an address and count for nothing. -/
def isIgnored (c : Char) : Bool := c == '\t' || c == '\n' || c == '\r'

/-- The characters that count. -/
def significant (s : String) : List Char :=
  (((s.toList.dropWhile isTrimmed).reverse.dropWhile isTrimmed).reverse).filter (!isIgnored ·)

/-- Slashes of either kind. -/
def isSlash (c : Char) : Bool := c == '/' || c == '\\'

/-- Characters that end the authority. -/
def endsAuthority (c : Char) : Bool := isSlash c || c == '?' || c == '#'

/-- Octets that stand in a path as they are. -/
def keptInPath (b : UInt8) : Bool :=
  0x20 < b && b < 0x7F && !(Utf8.encode "\"#<>?`\x7b\x7d").contains b

/-- Octets that stand in a query as they are. -/
def keptInQuery (b : UInt8) : Bool :=
  0x20 < b && b < 0x7F && !(Utf8.encode "\"#<>'").contains b

/-- Octets that stand in a fragment as they are. -/
def keptInFragment (b : UInt8) : Bool :=
  0x20 < b && b < 0x7F && !(Utf8.encode "\"<>`").contains b

/-- A dot, perhaps percent-encoded, and the characters after it. -/
def dot? : List Char → Option (List Char)
  | '.' :: cs => some cs
  | '%' :: '2' :: c :: cs => if c = 'e' ∨ c = 'E' then some cs else none
  | _ => none

/-- Whether a segment is one dot. -/
def isDot (segment : List Char) : Bool := dot? segment == some []

/-- Whether a segment is two dots. -/
def isDotDot (segment : List Char) : Bool := (dot? segment).bind dot? == some []

/-- The segments between slashes; there is always at least one. -/
def segmentsOnto (segment : List Char) : List Char → List (List Char)
  | [] => [segment.reverse]
  | c :: cs =>
    if isSlash c then segment.reverse :: segmentsOnto [] cs else segmentsOnto (c :: segment) cs

/-- Carries out the dot segments; the segments so far are in `above`, last first. -/
def resolve (above : List (List Char)) : List (List Char) → List (List Char)
  | [] => above.reverse
  | segment :: rest =>
    let above := if isDotDot segment then above.drop 1
      else if isDot segment then above
      else segment :: above
    -- The last segment leaves an empty one behind if it is made of dots.
    if rest.isEmpty && (isDotDot segment || isDot segment) then ([] :: above).reverse
    else resolve above rest

/-- The path that characters write, the first slash not included. -/
def pathOf (cs : List Char) : Bytes :=
  (resolve [] (segmentsOnto [] cs)).flatMap fun segment =>
    0x2F :: Percent.encode keptInPath (Utf8.encode (String.ofList segment))

/-- Characters of a host. -/
def isHostChar (c : Char) : Bool :=
  c.isAlphanum || c == '-' || c == '.' || c == '_' || c == '~' || c == '[' || c == ']' || c == ':'

/-- The host and the text of the port of an authority. A colon between brackets belongs to the host. -/
def splitPort (cs : List Char) : List Char × List Char :=
  match cs.reverse.dropWhile Char.isDigit with
  | ':' :: host => (host.reverse, (cs.reverse.takeWhile Char.isDigit).reverse)
  | _ => (cs, [])

/-- The port that a text writes; none if there is no text. -/
def portOf? (cs : List Char) : Option (Option Nat) :=
  if cs.isEmpty then some none
  else
    (cs.mapM Digits.ofChar?).bind fun ds =>
      if Digits.value ds ≤ 65535 then some (some (Digits.value ds)) else none

/-- The characters behind the scheme, and whether the scheme is the secure one. -/
def scheme? (cs : List Char) : Option (Bool × List Char) :=
  match cs.dropWhile (· != ':') with
  | [] => none
  | _ :: rest =>
    let name := lowerAscii (String.ofList (cs.takeWhile (· != ':')))
    if name = "http" then some (false, rest)
    else if name = "https" then some (true, rest)
    else none

/-- The address that characters behind a scheme write. -/
def ofAuthority? (isSecure : Bool) (cs : List Char) : Option Url :=
  let authority := cs.takeWhile (!endsAuthority ·)
  let behind := cs.dropWhile (!endsAuthority ·)
  let rest := behind.takeWhile (· != '#')
  -- A user may stand in front of the last at-sign.
  let hostAndPort := (authority.reverse.takeWhile (· != '@')).reverse
  let (host, portText) := splitPort hostAndPort
  let path := rest.takeWhile (· != '?')
  let query : Option Bytes := match rest.dropWhile (· != '?') with
    | [] => none
    | _ :: q => some (Percent.encode keptInQuery (Utf8.encode (String.ofList q)))
  let fragment : Option Bytes := match behind.dropWhile (· != '#') with
    | [] => none
    | _ :: f => some (Percent.encode keptInFragment (Utf8.encode (String.ofList f)))
  match portOf? portText with
  | none => none
  | some port =>
    if host.isEmpty || !host.all isHostChar then none
    else
      some ⟨isSecure, lowerAscii (String.ofList host),
        port.filter (· != if isSecure then 443 else 80), pathOf (path.drop 1), query, fragment⟩

/-- The address that a text writes. -/
def parse? (s : String) : Option Url :=
  match scheme? (significant s) with
  | none => none
  | some (isSecure, rest) => ofAuthority? isSecure (rest.dropWhile isSlash)

/-- What a request for the address names. -/
def target (u : Url) : Bytes :=
  u.path ++ match u.query with
    | none => []
    | some q => 0x3F :: q

/-- The scheme, the host and the port of an address. -/
def origin (u : Url) : String :=
  (if u.isSecure then "https://" else "http://") ++ u.host ++ match u.port with
    | none => ""
    | some port => ":" ++ natText port

/-- The address in its one form. -/
def octets (u : Url) : Bytes :=
  Utf8.encode u.origin ++ u.target ++ match u.fragment with
    | none => []
    | some f => 0x23 :: f

end Url

end OrderRelay.Http
