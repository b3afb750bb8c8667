import OrderRelay.Engine.Call
import OrderRelay.Http.Header
import OrderRelay.Message.Wire
import OrderRelay.Rpc.Timeout

/-!
# Requests of remote calls

What goes out for a call: the path of the method, the id of the request it belongs to, the time it
may take, and the message in a frame.

* `Rpc.methodPath`: the path of what is asked.
* `Rpc.frame`: a message with its length in front.
* `Rpc.Request.ofCall?`: what goes out for a call.
-/

namespace OrderRelay.Rpc

/-- The path of what is asked. -/
def methodPath (r : EngineRequest) : String :=
  "/tradeflow.order.OrderService/" ++
    match r with
    | .order .submitOrder _ => "SubmitOrder"
    | .order .getOrderBook _ => "GetOrderBook"
    | .order .cancelOrder _ => "CancelOrder"
    | .order .modifyOrder _ => "ModifyOrder"
    | .trades _ => "SubscribeTrades"

/-- The message of what is asked. -/
def message : EngineRequest → Bytes
  | .order _ request => Message.encode request
  | .trades request => Message.encode request

/-- The four octets of a length, the greatest first. -/
def lengthOctets (n : Nat) : Bytes :=
  [UInt8.ofNat (n / 16777216), UInt8.ofNat (n / 65536), UInt8.ofNat (n / 256), UInt8.ofNat n]

/-- A message in a frame: it is not compressed, and its length stands in front. -/
def frame (payload : Bytes) : Bytes := 0 :: lengthOctets payload.length ++ payload

/-- What goes out for a call. -/
structure Request where
  path : String
  /-- The id of the request that the call belongs to, if it can be shown. -/
  requestId : Option String
  timeout : Option Timeout
  body : Bytes
  deriving DecidableEq

/-- The id as it goes out. -/
def requestId? (c : CallContext) : Option String := Http.visibleText? (Utf8.encode c.requestId)

/-- The time that a call may take, as it goes out; no result if it is too long to be written. Only
calls with one answer go out with a time. -/
def timeout? (c : EngineCall) : Option (Option Timeout) :=
  match c.request, c.context.deadlineMicros with
  | .order .., some micros => (Timeout.ofNanos? (1000 * micros)).map some
  | _, _ => some none

/-- What goes out for a call; nothing if its time is too long to be written. -/
def Request.ofCall? (c : EngineCall) : Option Request :=
  (timeout? c).map fun timeout =>
    ⟨methodPath c.request, requestId? c.context, timeout, frame (message c.request)⟩

end OrderRelay.Rpc
