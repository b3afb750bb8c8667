import OrderRelay.Order.Verdict

/-!
# Operations

What a caller can ask of the engine and wait for the answer of. Subscriptions to trades stand apart:
they are answered by a stream.
-/

namespace OrderRelay

/-- An operation with one answer. -/
inductive Operation where
  | submitOrder
  | getOrderBook
  | cancelOrder
  | modifyOrder
  deriving DecidableEq, Repr

namespace Operation

/-- The name under which an operation is measured. -/
def name : Operation → String
  | .submitOrder => "submit_order"
  | .getOrderBook => "get_orderbook"
  | .cancelOrder => "cancel_order"
  | .modifyOrder => "modify_order"

/-- The status of success, if the answer has a status. -/
def token? : Operation → Option String
  | .submitOrder => some submitToken
  | .getOrderBook => none
  | .cancelOrder => some cancelToken
  | .modifyOrder => some modifyToken

end Operation

end OrderRelay
