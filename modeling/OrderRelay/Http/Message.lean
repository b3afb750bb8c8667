import OrderRelay.Http.Header
import OrderRelay.Number.Digits

/-!
# Requests and responses

* `Request`, `Response`: what travels in the two directions.
* `Response.json`, `Response.plain`: responses with a body of a known type.
* `Request.declaredLength?`: how long a request says its body is.
-/

namespace OrderRelay.Http

/-- A request. -/
structure Request where
  method : String
  /-- The target as it is written, with its query. -/
  target : Bytes
  headers : Headers
  body : Bytes

/-- A response. -/
structure Response where
  status : Nat
  headers : Headers
  body : Bytes
  deriving DecidableEq

/-- The numbers of 64 bits. -/
def inUInt64 (n : Nat) : Bool := n < 18446744073709551616

namespace Request

/-- How long a request says its body is. A length that is no number of 64 bits says nothing. -/
def declaredLength? (r : Request) : Option Nat :=
  match (r.headers.first? "content-length").bind visibleText? with
  | none => none
  | some text => ((Digits.ofSignedText? text).map Digits.value).filter inUInt64

end Request

namespace Response

/-- A response without a body. -/
def bare (status : Nat) : Response := ⟨status, [], []⟩

/-- A response with a body of a type. -/
def ofType (mediaType : String) (status : Nat) (body : String) : Response :=
  ⟨status, [("content-type", Utf8.encode mediaType)], Utf8.encode body⟩

/-- A response with a text. -/
def plain (status : Nat) (body : String) : Response :=
  ofType "text/plain; charset=utf-8" status body

/-- A response with a JSON text. -/
def json (status : Nat) (body : String) : Response := ofType "application/json" status body

/-- The response with one header of a name in place of all others of that name. -/
def set (r : Response) (name : String) (value : Bytes) : Response :=
  { r with headers := r.headers.set name value }

/-- The response with the length of its body in a header. -/
def measured (r : Response) : Response :=
  r.set "content-length" (Utf8.encode (natText r.body.length))

/-- The response with its headers only. -/
def withoutBody (r : Response) : Response := { r with body := [] }

end Response

end OrderRelay.Http
