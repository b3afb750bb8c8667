import OrderRelay.Engine.Failure
import OrderRelay.Message.Orders
import OrderRelay.Order.Operation

/-!
# Calls to the engine

What can be asked of the engine, and how it answers: an operation with one message, a subscription
with a feed of trades. Either may fail, and either may take its time.

* `Operation.Request`, `Operation.Response`: the messages of an operation.
* `EngineCall`: a call as the engine sees it.
* `Engine`: what the engine does with each call.
-/

namespace OrderRelay

namespace Operation

/-- The request of an operation. -/
abbrev Request : Operation → Type
  | .submitOrder => SubmitOrderRequest
  | .getOrderBook => GetOrderBookRequest
  | .cancelOrder => CancelOrderRequest
  | .modifyOrder => ModifyOrderRequest

/-- The answer to an operation. -/
abbrev Response : Operation → Type
  | .submitOrder => SubmitOrderResponse
  | .getOrderBook => GetOrderBookResponse
  | .cancelOrder => CancelOrderResponse
  | .modifyOrder => ModifyOrderResponse

instance (op : Operation) : Message op.Request :=
  match op with
  | .submitOrder => inferInstanceAs (Message SubmitOrderRequest)
  | .getOrderBook => inferInstanceAs (Message GetOrderBookRequest)
  | .cancelOrder => inferInstanceAs (Message CancelOrderRequest)
  | .modifyOrder => inferInstanceAs (Message ModifyOrderRequest)

instance (op : Operation) : Message op.Response :=
  match op with
  | .submitOrder => inferInstanceAs (Message SubmitOrderResponse)
  | .getOrderBook => inferInstanceAs (Message GetOrderBookResponse)
  | .cancelOrder => inferInstanceAs (Message CancelOrderResponse)
  | .modifyOrder => inferInstanceAs (Message ModifyOrderResponse)

/-- What the engine decided; an order book is not a decision. -/
def verdict? : (op : Operation) → op.Response → Option Verdict
  | .submitOrder, r => some (.ofStatus submitToken r.status)
  | .getOrderBook, _ => none
  | .cancelOrder, r => some (.ofStatus cancelToken r.status)
  | .modifyOrder, r => some (.ofStatus modifyToken r.status)

end Operation

/-- What is asked of the engine. -/
inductive EngineRequest where
  | order (op : Operation) (request : op.Request)
  | trades (request : SubscribeTradesRequest)

/-- The operation that is asked for; a subscription is none. -/
def EngineRequest.operation? : EngineRequest → Option Operation
  | .order op _ => some op
  | .trades _ => none

/-- What travels with a call: the id of the request it belongs to, and how long the engine has, in
microseconds, if there is a limit. -/
structure CallContext where
  requestId : String
  deadlineMicros : Option Nat
  deriving DecidableEq, Repr

/-- A call as the engine sees it. -/
structure EngineCall where
  request : EngineRequest
  context : CallContext

/-- An answer of the engine: after so many milliseconds it answers or fails, or it never does. -/
structure EngineReply (α : Type) where
  delay : Option Nat
  result : Except EngineFailure α

/-- What comes next in a feed: a trade, or the failure of the feed. -/
abbrev FeedItem := Except EngineFailure TradeUpdate

/-- What a feed holds when it is opened, and whether it ends there. -/
structure Feed where
  items : List FeedItem
  ends : Bool

namespace Feed

/-- What someone gets who reads a feed that ends, up to its end, a failure, or so many items; and
whether the end was reached. -/
def read : Option Nat → List FeedItem → List FeedItem × Bool
  | some 0, _ => ([], false)
  | _, [] => ([], true)
  | _, .error e :: _ => ([.error e], false)
  | limit, .ok u :: rest =>
    let (items, ended) := read (limit.map (· - 1)) rest
    (.ok u :: items, ended)

end Feed

/-- What the engine does with each call. -/
structure Engine where
  order : (op : Operation) → op.Request → CallContext → EngineReply op.Response
  trades : SubscribeTradesRequest → CallContext → EngineReply Feed

namespace Engine

/-- An engine that fails every call at once. -/
def failing (failure : EngineFailure) : Engine :=
  ⟨fun _ _ _ => ⟨some 0, .error failure⟩, fun _ _ => ⟨some 0, .error failure⟩⟩

end Engine

end OrderRelay
