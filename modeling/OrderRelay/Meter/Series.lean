import OrderRelay.Order.Operation

/-!
# What is measured

Seventeen series: counters of attempts, outcomes and failures and a histogram of latencies for the
operations, and the gauge and the counter of trade subscriptions. Not every operation has every
counter. The order book has neither attempts nor outcomes, and a cancel or modify has one counter for
every answer that is not its success.

* `Series.all`: every series, each once.
* `Series.attempts?`, `Series.outcome?`, `Series.failures`, `Series.latency`: the series of an
  operation.
-/

namespace OrderRelay

/-- A series of numbers that is watched from outside. -/
inductive Series where
  | submitRequests
  | submitAccepted
  | submitRejected
  | submitFailures
  | submitLatency
  | bookFailures
  | bookLatency
  | cancelRequests
  | cancelErrors
  | cancelFailures
  | cancelLatency
  | modifyRequests
  | modifyErrors
  | modifyFailures
  | modifyLatency
  | activeSubscriptions
  | tradeUpdates
  deriving DecidableEq, Repr

/-- What a series counts with. -/
inductive SeriesKind where
  | counter
  | gauge
  /-- Only the number of samples is looked at. -/
  | histogram
  deriving DecidableEq, Repr

/-- The word for a kind. -/
def SeriesKind.name : SeriesKind → String
  | .counter => "counter"
  | .gauge => "gauge"
  | .histogram => "histogram"

namespace Series

/-- Every series. -/
def all : List Series :=
  [.submitRequests, .submitAccepted, .submitRejected, .submitFailures, .submitLatency, .bookFailures,
    .bookLatency, .cancelRequests, .cancelErrors, .cancelFailures, .cancelLatency, .modifyRequests,
    .modifyErrors, .modifyFailures, .modifyLatency, .activeSubscriptions, .tradeUpdates]

theorem mem_all (s : Series) : s ∈ all := by cases s <;> decide

theorem nodup_all : all.Nodup := by decide

/-- The kind of a series. -/
def kind : Series → SeriesKind
  | .submitLatency | .bookLatency | .cancelLatency | .modifyLatency => .histogram
  | .activeSubscriptions => .gauge
  | _ => .counter

/-- What a series is measured in. -/
def unit (s : Series) : String := if s.kind = .histogram then "seconds" else "count"

/-- The name of a series. -/
def name : Series → String
  | .submitRequests => "order_gateway_submit_order_requests_total"
  | .submitAccepted => "order_gateway_submit_order_accepted_total"
  | .submitRejected => "order_gateway_submit_order_rejected_total"
  | .submitFailures => "order_gateway_submit_order_backend_failures_total"
  | .submitLatency => "order_gateway_submit_order_duration_seconds"
  | .bookFailures => "order_gateway_get_orderbook_backend_failures_total"
  | .bookLatency => "order_gateway_get_orderbook_duration_seconds"
  | .cancelRequests => "order_gateway_cancel_order_requests_total"
  | .cancelErrors => "order_gateway_cancel_order_errors_total"
  | .cancelFailures => "order_gateway_cancel_order_backend_failures_total"
  | .cancelLatency => "order_gateway_cancel_order_duration_seconds"
  | .modifyRequests => "order_gateway_modify_order_requests_total"
  | .modifyErrors => "order_gateway_modify_order_errors_total"
  | .modifyFailures => "order_gateway_modify_order_backend_failures_total"
  | .modifyLatency => "order_gateway_modify_order_duration_seconds"
  | .activeSubscriptions => "order_gateway_trade_subscriptions_active"
  | .tradeUpdates => "order_gateway_trade_updates_total"

/-- What a series tells. -/
def description : Series → String
  | .submitRequests => "Submit requests dispatched to the order engine"
  | .submitAccepted => "Submits answered with ACCEPTED"
  | .submitRejected => "Submits answered with any other status"
  | .submitFailures => "Submits that failed at the transport level"
  | .submitLatency => "SubmitOrder call latency"
  | .bookFailures => "Order book queries that failed at the transport level"
  | .bookLatency => "GetOrderBook call latency"
  | .cancelRequests => "Cancel requests dispatched to the order engine"
  | .cancelErrors => "Cancels answered with a status other than CANCELLED"
  | .cancelFailures => "Cancels that failed at the transport level"
  | .cancelLatency => "CancelOrder call latency"
  | .modifyRequests => "Modify requests dispatched to the order engine"
  | .modifyErrors => "Modifies answered with a status other than MODIFIED"
  | .modifyFailures => "Modifies that failed at the transport level"
  | .modifyLatency => "ModifyOrder call latency"
  | .activeSubscriptions => "Open trade stream subscriptions"
  | .tradeUpdates => "Trade updates forwarded to subscribers"

/-- The counter of attempts. -/
def attempts? : Operation → Option Series
  | .submitOrder => some .submitRequests
  | .getOrderBook => none
  | .cancelOrder => some .cancelRequests
  | .modifyOrder => some .modifyRequests

/-- The counter of an outcome. -/
def outcome? : Operation → Verdict → Option Series
  | .submitOrder, .accepted => some .submitAccepted
  | .submitOrder, .rejected => some .submitRejected
  | .cancelOrder, .rejected => some .cancelErrors
  | .modifyOrder, .rejected => some .modifyErrors
  | _, _ => none

/-- The counter of failures. -/
def failures : Operation → Series
  | .submitOrder => .submitFailures
  | .getOrderBook => .bookFailures
  | .cancelOrder => .cancelFailures
  | .modifyOrder => .modifyFailures

/-- The histogram of latencies. -/
def latency : Operation → Series
  | .submitOrder => .submitLatency
  | .getOrderBook => .bookLatency
  | .cancelOrder => .cancelLatency
  | .modifyOrder => .modifyLatency

end Series

end OrderRelay
