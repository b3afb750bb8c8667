import OrderRelay.Engine.Call
import OrderRelay.Message.Json
import OrderRelay.Meter.Readings
import OrderRelay.Trades.Frame

/-!
# Forwarding trades

One loop serves one subscription. It waits for the client and for the feed at once, and takes
whichever it finds first: a frame of the client, of which only the close frame matters, or the next
item of the feed, which it hands to the socket before it looks again. It ends when the feed ends or
fails, with a close frame, or when the client leaves, without one.

* `Forwarding.step`: an event at the engine, at the client, or in the loop, and what it counts.
* `Forwarding.settle`: the loop runs until it has nothing left to do.
-/

namespace OrderRelay

/-- Why a loop has ended. -/
inductive ForwardingEnd where
  /-- The feed has ended. -/
  | completed
  | failed (failure : EngineFailure)
  /-- The client has closed the connection, or is lost. -/
  | left
  deriving DecidableEq, Repr

/-- Where a loop stands. -/
inductive ForwardingStage where
  /-- It waits for the client and for the feed. -/
  | racing
  /-- It has taken a trade from the feed that the socket has not accepted yet. -/
  | sending (trade : TradeUpdate)
  /-- It has handed its close frame to the socket, which has not dealt with it yet. -/
  | parting (reason : ForwardingEnd)
  | over (reason : ForwardingEnd)

/-- One subscription. -/
structure Forwarding where
  /-- What the engine has made so far. -/
  made : List FeedItem
  /-- How many items of it the loop has taken. -/
  taken : Nat
  /-- The engine makes no more. -/
  feedEnded : Bool
  /-- What the client has sent so far. -/
  received : List ClientFrame
  /-- How many frames of it the loop has seen. -/
  seen : Nat
  /-- The connection is gone. -/
  lost : Bool
  stage : ForwardingStage
  /-- The texts and pongs that the socket has accepted and the close frame that it was handed, in
  their order. -/
  sent : List ServerFrame
  /-- How often the feed has been given back. -/
  released : Nat

/-- Something that happens to a subscription. -/
inductive ForwardingEvent where
  /-- The engine makes an item. -/
  | made (item : FeedItem)
  /-- The engine makes no more. -/
  | feedEnd
  | received (frame : ClientFrame)
  /-- The connection is lost. -/
  | loss
  /-- The loop looks at what the client has sent. -/
  | lookAtClient
  /-- The loop looks at the feed. -/
  | lookAtFeed
  /-- The socket accepts the trade in hand. -/
  | accepted
  /-- The socket refuses the trade in hand, since the connection is gone. -/
  | refused
  /-- The socket has sent the close frame in hand, or refused it. -/
  | parted

namespace Forwarding

/-- A subscription whose feed has just been opened. Its loop counts as active. -/
def start (feed : Feed) : Forwarding := ⟨feed.items, 0, feed.ends, [], 0, false, .racing, [], 0⟩

/-- What the start of a loop counts. -/
def startEvents : List MeterEvent := [.opened]

/-- The close frame with which a loop ends. -/
def farewell : ForwardingEnd → List ServerFrame
  | .completed => [.closing normalClosure "trade stream completed"]
  | .failed failure => [.closing errorClosure failure.message]
  | .left => []

/-- The loop is over and gives the feed back. -/
def finish (f : Forwarding) (reason : ForwardingEnd) : Forwarding × List MeterEvent :=
  ({ f with stage := .over reason, released := f.released + 1 }, [.closed])

/-- The loop hands its close frame to the socket and waits for that last time. -/
def part (f : Forwarding) (reason : ForwardingEnd) : Forwarding × List MeterEvent :=
  ({ f with stage := .parting reason, sent := f.sent ++ farewell reason }, [])

/-- What a frame of the client is answered with on the spot. -/
def answer : ClientFrame → List ServerFrame
  | .ping payload => [.pong payload]
  | _ => []

/-- Looks at the next frame of the client. -/
def takeFrame (f : Forwarding) : Forwarding × List MeterEvent :=
  match f.received[f.seen]? with
  | none => if f.lost then f.finish .left else (f, [])
  | some .close => finish { f with seen := f.seen + 1 } .left
  | some frame => ({ f with seen := f.seen + 1, sent := f.sent ++ answer frame }, [])

/-- Takes the next item of the feed. -/
def takeItem (f : Forwarding) : Forwarding × List MeterEvent :=
  match f.made[f.taken]? with
  | none => if f.feedEnded then f.part .completed else (f, [])
  | some (.error failure) => part { f with taken := f.taken + 1 } (.failed failure)
  | some (.ok trade) => ({ f with taken := f.taken + 1, stage := .sending trade }, [])

/-- The subscription after one more event, and what is counted. A step that cannot be taken where
the loop or the feed stands changes nothing. -/
def step (f : Forwarding) (e : ForwardingEvent) : Forwarding × List MeterEvent :=
  match e, f.stage with
  | .made item, _ => if f.feedEnded then (f, []) else ({ f with made := f.made ++ [item] }, [])
  | .feedEnd, _ => ({ f with feedEnded := true }, [])
  | .received frame, _ => ({ f with received := f.received ++ [frame] }, [])
  | .loss, _ => ({ f with lost := true }, [])
  | .lookAtClient, .racing => f.takeFrame
  | .lookAtFeed, .racing => f.takeItem
  | .accepted, .sending trade =>
    ({ f with stage := .racing, sent := f.sent ++ [.text (Message.text trade)] }, [.update])
  | .refused, .sending _ => f.finish .left
  | .parted, .parting reason => f.finish reason
  | _, _ => (f, [])

/-- The subscription after more events, and all that is counted. -/
def run (f : Forwarding) : List ForwardingEvent → Forwarding × List MeterEvent
  | [] => (f, [])
  | e :: es =>
    let (f, counted) := f.step e
    let (f, more) := run f es
    (f, counted ++ more)

/-- Whether the loop has ended. -/
def isOver (f : Forwarding) : Bool :=
  match f.stage with
  | .over _ => true
  | _ => false

/-- What the loop does next, if it has something to do. -/
def next? (f : Forwarding) : Option ForwardingEvent :=
  match f.stage with
  | .over _ => none
  | .parting _ => some .parted
  | .sending _ => some (if f.lost then .refused else .accepted)
  | .racing =>
    if f.lost || f.seen < f.received.length then some .lookAtClient
    else if f.feedEnded || f.taken < f.made.length then some .lookAtFeed
    else none

/-- A bound on the steps of the loop until it has nothing left to do. -/
def work (f : Forwarding) : Nat :=
  (f.received.length - f.seen) + 2 * (f.made.length - f.taken) + 3

/-- The loop runs for at most so many steps. -/
def settleWithin : Nat → Forwarding → Forwarding × List MeterEvent
  | 0, f => (f, [])
  | n + 1, f =>
    match f.next? with
    | none => (f, [])
    | some e =>
      let (f, counted) := f.step e
      let (f, more) := settleWithin n f
      (f, counted ++ more)

/-- The loop runs until it has nothing left to do. -/
def settle (f : Forwarding) : Forwarding × List MeterEvent := settleWithin f.work f

end Forwarding

/-! ## Many subscriptions -/

/-- All subscriptions, those that are over included, and the readings. -/
structure Subscriptions where
  all : List Forwarding
  readings : Readings

namespace Subscriptions

/-- There has been no subscription. -/
def start : Subscriptions := ⟨[], .zero⟩

/-- Something that happens to one of the subscriptions. -/
inductive Event where
  | opened (feed : Feed)
  | at (i : Nat) (e : ForwardingEvent)

/-- All after one more event. -/
def step (s : Subscriptions) : Event → Subscriptions
  | .opened feed =>
    ⟨s.all ++ [.start feed], s.readings.recordAll Forwarding.startEvents⟩
  | .at i e =>
    match s.all[i]? with
    | none => s
    | some f =>
      let (f, counted) := f.step e
      ⟨s.all.set i f, s.readings.recordAll counted⟩

/-- All after more events. -/
def run (s : Subscriptions) (es : List Event) : Subscriptions := es.foldl step s

end Subscriptions

end OrderRelay
