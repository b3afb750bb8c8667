import OrderRelay.Engine.Call
import OrderRelay.Relay.Error

/-!
# Calls on behalf of callers

A call waits for the engine as long as the deadline allows; whoever it is made for may leave before
that. The deadline of a subscription is that of its opening; the feed may then last for ever, so the
engine is not told of a limit.

* `settle`: when a call ends by itself, and with what.
* `leave`: the same for a caller that does not wait for ever.
* `Ending.fits`: how the call for a request can end.
* `Relay.order`, `Relay.trades`: an operation and a subscription.
-/

namespace OrderRelay

/-- The result of a call as its caller sees it. -/
abbrev CallResult (α : Type) := Except RelayError α

/-- The moment at which a call ends by itself, and its result. An answer at the very moment of the
deadline still counts. -/
def settle {α : Type} (deadlineMs : Nat) (reply : EngineReply α) : Nat × CallResult α :=
  match reply.delay.filter (· ≤ deadlineMs) with
  | some delay => (delay, reply.result.mapError .engine)
  | none => (deadlineMs, .error (.timeout (1000 * deadlineMs)))

/-- How a call ends. -/
inductive Ending (α : Type) where
  | returned (r : CallResult α)
  /-- Whoever made the call has left. -/
  | dropped

/-- What a caller takes away. -/
inductive Answer where
  | order (op : Operation) (response : op.Response)
  | trades (items : List FeedItem) (ended : Bool)

namespace Ending

/-- The same ending with another result. -/
def map {α β : Type} (f : α → β) : Ending α → Ending β
  | .returned r => .returned (r.map f)
  | .dropped => .dropped

/-- Whether the call for a request can end so. An answer answers what was asked, and an error is the
engine's or the deadline's. -/
def fits (request : EngineRequest) : Ending Answer → Bool
  | .returned (.ok (.order op _)) => request.operation? = some op
  | .returned (.ok (.trades ..)) => request.operation? = none
  | .returned (.error e) => e.isEngineFailure
  | .dropped => true

end Ending

/-- How a call ends for a caller who leaves after so many milliseconds. What comes at the very moment
of leaving still counts. -/
def leave {α : Type} (patience : Option Nat) (settled : Nat × CallResult α) : Ending α :=
  match patience with
  | none => .returned settled.2
  | some t => if settled.1 ≤ t then .returned settled.2 else .dropped

/-- The moment at which a call ends for a caller who leaves after so many milliseconds. -/
def leaveAt {α : Type} (patience : Option Nat) (settled : Nat × CallResult α) : Nat :=
  match patience with
  | none => settled.1
  | some t => min settled.1 t

/-- What makes calls on behalf of callers. -/
structure Relay where
  /-- How long the engine has, in milliseconds. -/
  deadlineMs : Nat
  engine : Engine

namespace Relay

/-- What travels with an operation. -/
def orderContext (r : Relay) (requestId : String) : CallContext :=
  ⟨requestId, some (1000 * r.deadlineMs)⟩

/-- What travels with a subscription. -/
def tradesContext (requestId : String) : CallContext := ⟨requestId, none⟩

/-- A call as the engine sees it. -/
def call (r : Relay) (requestId : String) (request : EngineRequest) : EngineCall :=
  ⟨request, match request with
    | .order .. => r.orderContext requestId
    | .trades _ => tradesContext requestId⟩

/-- Asks for an operation. -/
def order (r : Relay) (requestId : String) (op : Operation) (request : op.Request) :
    Nat × CallResult op.Response :=
  settle r.deadlineMs (r.engine.order op request (r.orderContext requestId))

/-- Asks for a feed of trades. -/
def trades (r : Relay) (requestId : String) (request : SubscribeTradesRequest) :
    Nat × CallResult Feed :=
  settle r.deadlineMs (r.engine.trades request (tradesContext requestId))

end Relay

end OrderRelay
