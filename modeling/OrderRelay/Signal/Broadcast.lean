/-!
# The stop signal

The signal to stop is sent through handles and taken in by receivers. The channel between them holds
one message: a receiver that was not quick enough is told how many messages it has missed, and finds
the last one after that. A receiver sees only what is sent after it subscribed.

* `Broadcast.step`: subscribing, sending, receiving and leaving.
* `Broadcast.pending`: the messages that a receiver has neither taken nor been told it missed.
-/

namespace OrderRelay

/-- The channel of the stop signal. -/
structure Broadcast where
  /-- The handles through which it can be sent. -/
  handles : Nat
  /-- The messages sent so far. -/
  sent : Nat
  /-- For each receiver the number of messages that are behind it; none if it has left. -/
  receivers : List (Option Nat)
  deriving DecidableEq, Repr

/-- What a receiver finds. -/
inductive Received where
  | message
  /-- There is no message yet. -/
  | empty
  /-- There is no message and never will be. -/
  | closed
  /-- So many messages were missed. -/
  | lagged (n : Nat)
  /-- The receiver has left. -/
  | gone
  deriving DecidableEq, Repr

/-- A step of someone who takes part. -/
inductive BroadcastStep where
  | subscribe
  /-- One more handle is made. -/
  | clone
  | trigger (handle : Nat)
  | receive (receiver : Nat)
  | leave (receiver : Nat)
  /-- All handles are given up. -/
  | dropHandles

namespace Broadcast

/-- A channel with one handle. -/
def start : Broadcast := ⟨1, 0, []⟩

/-- The receivers that have not left. -/
def listening (b : Broadcast) : Nat := b.receivers.countP Option.isSome

/-- The messages that a receiver has neither taken nor been told it missed. -/
def pending (b : Broadcast) (receiver : Nat) : Option Nat :=
  (b.receivers[receiver]?.join).map (b.sent - ·)

/-- What a receiver finds, and the number of messages behind it after that. -/
def look (b : Broadcast) (behind : Nat) : Received × Nat :=
  let n := b.sent - behind
  if n = 0 then (if b.handles = 0 then .closed else .empty, behind)
  else if n = 1 then (.message, behind + 1)
  else (.lagged (n - 1), b.sent - 1)

/-- The state after one more step, and what the receiver finds if the step is to receive. -/
def step (b : Broadcast) : BroadcastStep → Broadcast × Option Received
  | .subscribe =>
    if b.handles = 0 then (b, none) else ({ b with receivers := b.receivers ++ [some b.sent] }, none)
  | .clone => if b.handles = 0 then (b, none) else ({ b with handles := b.handles + 1 }, none)
  | .trigger handle =>
    if handle < b.handles then ({ b with sent := b.sent + 1 }, none) else (b, none)
  | .receive receiver =>
    match b.receivers[receiver]?.join with
    | none => (b, some .gone)
    | some behind =>
      let (found, behind) := b.look behind
      ({ b with receivers := b.receivers.set receiver (some behind) }, some found)
  | .leave receiver => ({ b with receivers := b.receivers.set receiver none }, none)
  | .dropHandles => ({ b with handles := 0 }, none)

/-- The state after more steps. -/
def run (b : Broadcast) (steps : List BroadcastStep) : Broadcast :=
  steps.foldl (fun b s => (b.step s).1) b

end Broadcast

end OrderRelay
