import OrderRelay.Http.Message
import OrderRelay.Http.Status

/-!
# Messages as octets

A message on a connection is a first line, the headers, an empty line and the body.

* `Request.octets`, `Response.octets`: a message as it is sent.
* `Request.ofOctets?`, `Response.ofOctets?`: a message as it is received. The body is what follows
  the empty line, as far as the message says that it is long.
-/

namespace OrderRelay.Http

/-- The end of a line. -/
def lineEnd : Bytes := [0x0D, 0x0A]

/-- The lines of a head, each with its end, and the empty line after them. -/
def headOctets (first : String) (headers : Headers) : Bytes :=
  Utf8.encode first ++ lineEnd
    ++ (headers.flatMap fun (name, value) => Utf8.encode (name ++ ": ") ++ value ++ lineEnd)
    ++ lineEnd

/-- A line without the carriage return at its end. -/
def withoutReturn (line : Bytes) : Bytes :=
  match line.reverse with
  | 0x0D :: rest => rest.reverse
  | _ => line

/-- The lines up to the empty one, and what follows it. The octets of the line so far are in `line`,
last first. -/
def headLines (line : Bytes) : Bytes → List Bytes × Bytes
  | [] => (if line.isEmpty then [] else [line.reverse], [])
  | b :: rest =>
    if b = 0x0A then
      let whole := withoutReturn line.reverse
      if whole.isEmpty then ([], rest)
      else
        let (lines, body) := headLines [] rest
        (whole :: lines, body)
    else headLines (b :: line) rest

/-- Octets without the spaces and tabs around them. -/
def withoutSpaces (bs : Bytes) : Bytes :=
  let space (b : UInt8) : Bool := b == 0x20 || b == 0x09
  ((bs.dropWhile space).reverse.dropWhile space).reverse

/-- The header of a line. -/
def headerOf? (line : Bytes) : Option (String × Bytes) :=
  match line.dropWhile (· != 0x3A) with
  | [] => none
  | _ :: value =>
    (visibleText? (line.takeWhile (· != 0x3A))).map fun name =>
      (lowerAscii name, withoutSpaces value)

/-- The parts of a line between spaces. -/
def spaceParts (part : Bytes) : Bytes → List Bytes
  | [] => [part.reverse]
  | b :: rest => if b = 0x20 then part.reverse :: spaceParts [] rest else spaceParts (b :: part) rest

/-- The length that headers give to a body. -/
def lengthOf (headers : Headers) : Nat := ((⟨"", [], headers, []⟩ : Request).declaredLength?).getD 0

namespace Request

/-- A request as it is sent. -/
def octets (r : Request) : Bytes :=
  Utf8.encode (r.method ++ " ") ++ r.target ++ headOctets " HTTP/1.1" r.headers ++ r.body

/-- A request as it is received, and what follows it. -/
def ofOctets? (bs : Bytes) : Option (Request × Bytes) :=
  match headLines [] bs with
  | ([], _) => none
  | (first :: lines, rest) =>
    match spaceParts [] first, lines.mapM headerOf? with
    | [method, target, _], some headers =>
      (visibleText? method).map fun method =>
        let n := lengthOf headers
        (⟨method, target, headers, rest.take n⟩, rest.drop n)
    | _, _ => none

end Request

namespace Response

/-- A response as it is sent. -/
def octets (r : Response) : Bytes := headOctets ("HTTP/1.1 " ++ statusText r.status) r.headers ++ r.body

/-- A response as it is received. -/
def ofOctets? (bs : Bytes) : Option Response :=
  match headLines [] bs with
  | ([], _) => none
  | (first :: lines, rest) =>
    match spaceParts [] first, lines.mapM headerOf? with
    | _ :: code :: _, some headers =>
      (code.mapM Digits.ofOctet?).map fun ds => ⟨Digits.value ds, headers, rest⟩
    | _, _ => none

end Response

end OrderRelay.Http
