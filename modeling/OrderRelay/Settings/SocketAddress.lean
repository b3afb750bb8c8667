import OrderRelay.Number.Digits
import OrderRelay.Text.Hex

/-!
# Socket addresses

An address to listen on: an IPv4 address or an IPv6 address in brackets, a colon and a port.

* `SocketAddress.parse?`: the address that a text spells. Octets have no leading zeros, groups have
  at most four digits, and a port may have any number of leading zeros.
* `SocketAddress.text`: the canonical spelling. The first longest run of at least two zero groups is
  left out of an IPv6 address.
-/

namespace OrderRelay

/-- An address without a port. -/
inductive HostAddress where
  /-- Four octets. -/
  | v4 (a b c d : Nat)
  /-- Eight groups of 16 bits, and the number of the scope. -/
  | v6 (groups : List Nat) (scope : Nat)
  deriving DecidableEq, Repr

/-- An address and a port. -/
structure SocketAddress where
  host : HostAddress
  port : Nat
  deriving DecidableEq, Repr

namespace SocketAddress

/-! ## Reading -/

/-- One given character. -/
def char (c : Char) : List Char → Option (List Char)
  | [] => none
  | d :: rest => if d = c then some rest else none

/-- The digits of a radix of up to sixteen at the front, most significant first. -/
def digits (radix : Nat) (cs : List Char) : List Nat :=
  (cs.map fun c => (Hex.digit? c).filter (· < radix)).takeWhile Option.isSome |>.reduceOption

/-- A number of at most so many digits that is not above a limit. -/
def number (radix : Nat) (maxDigits : Option Nat) (zeros : Bool) (limit : Nat) (cs : List Char) :
    Option (Nat × List Char) :=
  let ds := digits radix cs
  let n := ds.foldl (fun n d => radix * n + d) 0
  let fits := ds ≠ [] && maxDigits.all (ds.length ≤ ·) && n ≤ limit
    && (zeros || ds.length = 1 || ds.head? != some 0)
  if fits then some (n, cs.drop ds.length) else none

/-- An octet of an IPv4 address. -/
def octet (cs : List Char) : Option (Nat × List Char) := number 10 (some 3) false 255 cs

/-- Four octets between points. -/
def v4 (cs : List Char) : Option ((Nat × Nat × Nat × Nat) × List Char) := do
  let (a, cs) ← octet cs
  let (b, cs) ← octet (← char '.' cs)
  let (c, cs) ← octet (← char '.' cs)
  let (d, cs) ← octet (← char '.' cs)
  return ((a, b, c, d), cs)

/-- A group of an IPv6 address. -/
def group (cs : List Char) : Option (Nat × List Char) := number 16 (some 4) true 65535 cs

/-- At most so many groups between colons, whether the last two of them were spelt as an IPv4
address, and the rest. -/
def groups (first : Bool) : Nat → List Char → List Nat × Bool × List Char
  | 0, cs => ([], false, cs)
  | left + 1, cs =>
    let inner := if first then some cs else char ':' cs
    match left, inner.bind v4 with
    | _ + 1, some ((a, b, c, d), rest) => ([256 * a + b, 256 * c + d], true, rest)
    | _, _ =>
      match inner.bind group with
      | none => ([], false, cs)
      | some (g, rest) =>
        let (gs, embedded, rest) := groups false left rest
        (g :: gs, embedded, rest)

/-- The eight groups of an IPv6 address. A pair of colons stands for at least one zero group. -/
def v6 (cs : List Char) : Option (List Nat × List Char) := do
  let (front, embedded, cs) := groups true 8 cs
  if front.length = 8 then return (front, cs)
  else if embedded then none
  else
    let cs ← char ':' (← char ':' cs)
    let (back, _, cs) := groups true (7 - front.length) cs
    return (front ++ List.replicate (8 - front.length - back.length) 0 ++ back, cs)

/-- A percent sign and the number of a scope; without them the scope is zero. -/
def scope (cs : List Char) : Nat × List Char :=
  match (char '%' cs).bind (number 10 none true 4294967295) with
  | some found => found
  | none => (0, cs)

/-- A colon and a port. -/
def portAt (cs : List Char) : Option (Nat × List Char) := do
  number 10 none true 65535 (← char ':' cs)

/-- An IPv4 address and a port. -/
def parseV4? (cs : List Char) : Option (SocketAddress × List Char) := do
  let ((a, b, c, d), cs) ← v4 cs
  let (p, cs) ← portAt cs
  return (⟨.v4 a b c d, p⟩, cs)

/-- An IPv6 address in brackets and a port. -/
def parseV6? (cs : List Char) : Option (SocketAddress × List Char) := do
  let (gs, cs) ← v6 (← char '[' cs)
  let (n, cs) := scope cs
  let (p, cs) ← portAt (← char ']' cs)
  return (⟨.v6 gs n, p⟩, cs)

/-- The address that a whole text spells. -/
def parse? (s : String) : Option SocketAddress :=
  match (parseV4? s.toList).or (parseV6? s.toList) with
  | some (a, []) => some a
  | _ => none

/-! ## Writing -/

/-- Four octets between points. -/
def octetsText (a b c d : Nat) : String :=
  natText a ++ "." ++ natText b ++ "." ++ natText c ++ "." ++ natText d

/-- Groups in small hexadecimal digits between colons. -/
def groupsText (gs : List Nat) : String :=
  ":".intercalate (gs.map fun g => String.ofList (Nat.toDigits 16 g))

/-- The start and the length of the first longest run of zero groups. `start` and `run` are those of
the run at hand, and `n` groups stand before. -/
def longestZeros (n start run bestStart best : Nat) : List Nat → Nat × Nat
  | [] => (bestStart, best)
  | g :: gs =>
    if g = 0 then
      let start := if run = 0 then n else start
      if best < run + 1 then longestZeros (n + 1) start (run + 1) start (run + 1) gs
      else longestZeros (n + 1) start (run + 1) bestStart best gs
    else longestZeros (n + 1) start 0 bestStart best gs

/-- The canonical spelling of eight groups. An IPv4 address mapped into IPv6 keeps its points. -/
def v6Text (gs : List Nat) : String :=
  match gs with
  | [0, 0, 0, 0, 0, 0xFFFF, x, y] =>
    "::ffff:" ++ octetsText (x / 256) (x % 256) (y / 256) (y % 256)
  | _ =>
    let (start, run) := longestZeros 0 0 0 0 0 gs
    if 1 < run then groupsText (gs.take start) ++ "::" ++ groupsText (gs.drop (start + run))
    else groupsText gs

/-- The canonical spelling of an address. -/
def text (a : SocketAddress) : String :=
  match a.host with
  | .v4 x y z w => octetsText x y z w ++ ":" ++ natText a.port
  | .v6 gs n =>
    "[" ++ v6Text gs ++ (if n = 0 then "" else "%" ++ natText n) ++ "]:" ++ natText a.port

end SocketAddress

end OrderRelay
