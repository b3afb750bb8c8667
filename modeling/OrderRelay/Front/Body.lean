import OrderRelay.Http.MediaType
import OrderRelay.Http.Message
import OrderRelay.Json.Fault

/-!
# Bodies of requests

A body is taken in up to a limit. Where JSON is required, the request must say that its body is JSON
before anything of it is read.

* `Upload`: how a body comes in, part by part.
* `bodyCap`: how long the body of a request may be.
* `readBody`: the body, unless it is too long.
* `BodyFault`: why a body is of no use.
-/

namespace OrderRelay

open Http

/-- How the body of a request comes in. All times are in milliseconds. -/
inductive Upload where
  /-- Nothing more comes. -/
  | stalled
  /-- Some time later it is known to be whole. -/
  | whole (wait : Nat)
  /-- Some time later it breaks off. -/
  | broken (wait : Nat) (reason : String)
  /-- Some time later a part comes. -/
  | part (wait : Nat) (octets : Bytes) (rest : Upload)

namespace Upload

/-- A body that is there at once. -/
def atOnce (body : Bytes) : Upload := .part 0 body (.whole 0)

/-- When a body has been taken in, or is longer than a cap, or has broken off, and what has come
until then; none if that never happens. -/
def take (cap : Nat) (got : Bytes) : Upload → Option (Nat × Except String Bytes)
  | .stalled => none
  | .whole wait => some (wait, .ok got)
  | .broken wait reason => some (wait, .error reason)
  | .part wait octets rest =>
    if cap < (got ++ octets).length then some (wait, .ok (got ++ octets))
    else (take cap (got ++ octets) rest).map fun (time, taken) => (wait + time, taken)

theorem take_atOnce (cap : Nat) (body : Bytes) : (atOnce body).take cap [] = some (0, .ok body) := by
  simp [atOnce, take]

end Upload

/-- Bodies are never longer than two mebibytes, whatever the settings say. -/
def largestBody : Nat := 2097152

/-- How long the body of a request may be: not longer than the settings allow, and not longer than
the request has said. -/
def bodyCap (maxBodySize : Nat) (declared : Option Nat) : Nat :=
  min (min maxBodySize (declared.getD maxBodySize)) largestBody

/-- The body of a request, unless it is too long. -/
def readBody (maxBodySize : Nat) (r : Request) : Option Bytes :=
  if r.body.length ≤ bodyCap maxBodySize r.declaredLength? then some r.body else none

/-- Why a body is of no use. -/
inductive BodyFault where
  /-- The request does not say that its body is JSON. -/
  | notJson
  | tooLong
  /-- It breaks off. -/
  | broken (reason : String)
  /-- A text that cannot be read. -/
  | unreadable (text : Bytes) (e : Json.Error)

namespace BodyFault

/-- The words for a body that cannot be taken in. -/
def bufferMessage (reason : String) : String := "Failed to buffer the request body: " ++ reason

/-- The words for a body that is too long. -/
def tooLongMessage : String := bufferMessage "length limit exceeded"

/-- The words for a fault. -/
def message : BodyFault → String
  | .notJson => "Expected request with `Content-Type: application/json`"
  | .tooLong => tooLongMessage
  | .broken reason => bufferMessage reason
  | .unreadable text e =>
    (if e.fault.isUnfit then "Failed to deserialize the JSON body into the target type: "
      else "Failed to parse the request body as JSON: ") ++ e.messageWithPath text

end BodyFault

/-- Whether a request says that its body is JSON. -/
def saysJson (r : Request) : Bool :=
  match (r.headers.first? "content-type").bind visibleText? with
  | some text => MediaType.isJson text
  | none => false

/-- Reads a body that must be JSON. -/
def readJson {α : Type} (ofText : Bytes → Except Json.Error α) (maxBodySize : Nat) (r : Request) :
    Except BodyFault α :=
  if saysJson r then
    match readBody maxBodySize r with
    | none => .error .tooLong
    | some text =>
      match ofText text with
      | .ok v => .ok v
      | .error e => .error (.unreadable text e)
  else .error .notJson

/-- The blanks of ASCII. -/
def isAsciiBlank (b : UInt8) : Bool := b == 0x20 || b == 0x09 || b == 0x0A || b == 0x0C || b == 0x0D

end OrderRelay
