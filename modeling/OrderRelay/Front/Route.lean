import OrderRelay.Text.Utf8

/-!
# Routes

The paths that the service knows. The last segment of a path may be a parameter: it is not empty and
holds no slash, and nothing of it has been decoded yet.

* `Route.ofPath?`: the route of a path.
* `Route.methods`: what can be done there.
-/

namespace OrderRelay

/-- A path that the service knows. -/
inductive Route where
  /-- All orders. -/
  | orders
  /-- One order, perhaps with an action at the end. -/
  | order (ref : Bytes)
  | orderBook (symbol : Bytes)
  | trades (symbol : Bytes)
  | health
  deriving DecidableEq, Repr

namespace Route

/-- The segment that follows a start, if it is the last one and not empty. -/
def segment? (start : String) (path : Bytes) : Option Bytes :=
  ((Utf8.encode start).isPrefixOf? path).filter fun rest => !rest.isEmpty && !rest.contains 0x2F

/-- The route of a path. -/
def ofPath? (path : Bytes) : Option Route :=
  if path = Utf8.encode "/v1/orders" then some .orders
  else if path = Utf8.encode "/health" then some .health
  else
    ((segment? "/v1/orders/" path).map .order).or <|
      ((segment? "/v1/orderbook/" path).map .orderBook).or <|
        (segment? "/v1/trades/" path).map .trades

/-- What can be done at a route. -/
def methods : Route → List String
  | .orders => ["POST"]
  | .order _ => ["POST", "PATCH"]
  | .orderBook _ | .trades _ | .health => ["GET", "HEAD"]

end Route

end OrderRelay
