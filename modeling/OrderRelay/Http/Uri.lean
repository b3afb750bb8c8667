import OrderRelay.Text.Utf8

/-!
# URIs

The address of a request or of a server, as octets. An authority is a host with perhaps a port and
the name of a user; behind it come a path and a query.

* `Uri.authorityEnd?`: where the authority at the front ends.
* `Uri.isPathAndQuery`: whether octets may follow an authority.
* `Uri.isHttp`: whether octets are a URI of the plain HTTP scheme.
* `Uri.path`: the path of the target of a request, without its query.
-/

namespace OrderRelay.Http.Uri

/-- No URI is longer. -/
def maxLength : Nat := 65534

/-- Octets that may stand in an authority without being encoded. -/
def isAuthorityOctet (b : UInt8) : Bool :=
  b == 0x21 || b == 0x24 || (0x26 ≤ b && b ≤ 0x3B) || b == 0x3D || (0x40 ≤ b && b ≤ 0x5B)
    || b == 0x5D || b == 0x5F || (0x61 ≤ b && b ≤ 0x7A) || b == 0x7E

/-- Octets that end an authority: a slash, a question mark or a number sign. -/
def endsAuthority (b : UInt8) : Bool := b == 0x2F || b == 0x3F || b == 0x23

/-- What has been seen of an authority. Colons and percent signs count only from the last bracket or
at-sign on, since before that they belong to an IPv6 address or to the name of a user. -/
structure AuthorityState where
  colons : Nat
  opened : Bool
  closed : Bool
  percent : Bool
  /-- The last octet was an at-sign. -/
  afterAt : Bool

/-- Before anything has been seen. -/
def AuthorityState.start : AuthorityState := ⟨0, false, false, false, false⟩

/-- No authority has more colons, whatever they belong to. -/
def maxColons : Nat := 8

/-- Takes in one more octet. -/
def AuthorityState.step (s : AuthorityState) (b : UInt8) : Option AuthorityState :=
  let s' := { s with afterAt := false }
  if b == 0x3A then if s.colons < maxColons then some { s' with colons := s.colons + 1 } else none
  else if b == 0x5B then
    if s.percent || s.opened then none else some { s' with opened := true }
  else if b == 0x5D then
    if !s.opened || s.closed then none
    else some { s' with closed := true, colons := 0, percent := false }
  else if b == 0x40 then some { s with colons := 0, percent := false, afterAt := true }
  else if b == 0x25 then some { s' with percent := true }
  else if isAuthorityOctet b then some s'
  else none

/-- Whether an authority may end here. -/
def AuthorityState.isComplete (s : AuthorityState) : Bool :=
  s.opened == s.closed && s.colons ≤ 1 && !s.afterAt && !s.percent

/-- The state at the end of the authority, and how many octets it takes. -/
def authorityFrom (s : AuthorityState) (n : Nat) : Bytes → Option (AuthorityState × Nat)
  | [] => some (s, n)
  | b :: rest =>
    if endsAuthority b then some (s, n)
    else
      match s.step b with
      | none => none
      | some s => authorityFrom s (n + 1) rest

/-- Where the authority at the front ends. -/
def authorityEnd? (bs : Bytes) : Option Nat :=
  match authorityFrom .start 0 bs with
  | some (s, n) => if s.isComplete then some n else none
  | none => none

/-- Octets that may stand in a path. -/
def isPathOctet (b : UInt8) : Bool :=
  b == 0x21 || b == 0x22 || (0x24 ≤ b && b ≤ 0x3B) || b == 0x3D || (0x40 ≤ b && b ≤ 0x5F)
    || (0x61 ≤ b && b ≤ 0x7E) || 0x7F ≤ b

/-- Octets that may stand in a query. -/
def isQueryOctet (b : UInt8) : Bool :=
  b == 0x21 || (0x24 ≤ b && b ≤ 0x3B) || b == 0x3D || 0x3F ≤ b

/-- Octets before the fragment, which does not count. -/
def withoutFragment (bs : Bytes) : Bytes := bs.takeWhile (· != 0x23)

/-- Octets before the query. -/
def withoutQuery (bs : Bytes) : Bytes := bs.takeWhile (· != 0x3F)

/-- Whether octets may follow an authority: a path and a query, in UTF-8. -/
def isPathAndQuery (bs : Bytes) : Bool :=
  let bs := withoutFragment bs
  let path := withoutQuery bs
  path.all isPathOctet && (bs.drop (path.length + 1)).all isQueryOctet && (Utf8.decode? bs).isSome

/-- Whether an authority, which must not be empty, and what follows it make a URI of the plain HTTP
scheme. -/
def isHttp (bs : Bytes) : Bool :=
  let scheme := Utf8.encode "http://"
  (scheme.length + bs.length ≤ maxLength) &&
    match authorityEnd? bs with
    | none => false
    | some n => 0 < n && isPathAndQuery (bs.drop n)

/-- What follows a scheme and its two slashes, if there is a scheme. -/
def afterScheme? (bs : Bytes) : Option Bytes :=
  let letter (b : UInt8) : Bool := b != 0x3A && !endsAuthority b
  match bs.dropWhile letter with
  | 0x3A :: 0x2F :: 0x2F :: rest => if letter (bs.headD 0x3A) then some rest else none
  | _ => none

/-- The path of the target of a request. A target with a scheme has at least the root as its path,
and one that is an authority alone has none. -/
def path (target : Bytes) : Bytes :=
  match target with
  | 0x2F :: _ => withoutQuery (withoutFragment target)
  | _ =>
    match afterScheme? target with
    | none => if target = [0x2A] then target else []
    | some rest =>
      match withoutQuery (withoutFragment (rest.dropWhile (!endsAuthority ·))) with
      | [] => [0x2F]
      | p => p

end OrderRelay.Http.Uri
