import OrderRelay.Engine.Failure
import OrderRelay.Json.Value

/-!
# Errors shown to callers

Whatever goes wrong with a call, its caller gets one of these errors: a fault of the request, or a
failure of the engine, or the end of the caller's patience.

* `RelayError.code`: the word that programs look at.
* `RelayError.status`: the HTTP status.
* `RelayError.body`: the JSON text of both the code and the message.
-/

namespace OrderRelay

/-- An error shown to a caller. -/
inductive RelayError where
  /-- The request lacks something or is not well-formed. -/
  | invalidRequest (reason : String)
  /-- There is no such thing or no such action. -/
  | notFound (what : String)
  | engine (failure : EngineFailure)
  /-- The engine did not answer within so many microseconds. -/
  | timeout (micros : Nat)
  deriving DecidableEq, Repr

namespace RelayError

/-- The words for an error. -/
def message : RelayError → String
  | .invalidRequest reason => "invalid request: " ++ reason
  | .notFound what => "not found: " ++ what
  | .engine failure => failure.message
  | .timeout micros => "backend call exceeded deadline of " ++ natText (micros / 1000) ++ "ms"

/-- The word that programs look at. -/
def code : RelayError → String
  | .invalidRequest _ => "INVALID_REQUEST"
  | .notFound _ => "NOT_FOUND"
  | .timeout _ => "BACKEND_TIMEOUT"
  | .engine failure =>
    match failure with
    | .unavailable _ | .linkClosed => "BACKEND_UNAVAILABLE"
    | .deadlineExceeded => "BACKEND_TIMEOUT"
    | .invalidEndpoint .. => "INTERNAL"
    | .rpc .. => "BACKEND_ERROR"

/-- The HTTP status of an error. -/
def status : RelayError → Nat
  | .invalidRequest _ => 400
  | .notFound _ => 404
  | .timeout _ => 504
  | .engine failure =>
    match failure with
    | .unavailable _ | .linkClosed => 503
    | .deadlineExceeded => 504
    | .invalidEndpoint .. => 500
    | .rpc .. => 502

/-- Whether the call failed before the engine had answered. -/
def isEngineFailure : RelayError → Bool
  | .engine _ | .timeout _ => true
  | _ => false

/-- An error as a JSON object. -/
def toJson (e : RelayError) : Json.Value :=
  .object [("error", .text e.message), ("code", .text e.code)]

/-- The body of the response to a caller. -/
def body (e : RelayError) : String := e.toJson.compact

end RelayError

end OrderRelay
