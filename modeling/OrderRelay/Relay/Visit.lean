import OrderRelay.Relay.Ledger

/-!
# Visits

A visit is one call of one caller: what is asked, what the engine does with it, and when the caller
leaves. Many visits can start together on one relay; each ends in its own time.

* `Visit.outcome`: how a visit ends, and when.
* `Visit.together`: visits that start together. The calls end in the order of their times.
-/

namespace OrderRelay

/-- One call of one caller. -/
structure Visit where
  requestId : String
  request : EngineRequest
  engine : Engine
  /-- When the caller leaves, in milliseconds; never, if there is no time. -/
  patience : Option Nat
  /-- How many items of a feed the caller reads; all, if there is no number. -/
  limit : Option Nat

namespace Visit

/-- The relay that a visitor finds. -/
def relay (deadlineMs : Nat) (v : Visit) : Relay := ⟨deadlineMs, v.engine⟩

/-- When a visit ends, and how. -/
def outcome (deadlineMs : Nat) (v : Visit) : Nat × Ending Answer :=
  match v.request with
  | .order op request =>
    let settled := (v.relay deadlineMs).order v.requestId op request
    (leaveAt v.patience settled, (leave v.patience settled).map (.order op))
  | .trades request =>
    let settled := (v.relay deadlineMs).trades v.requestId request
    (leaveAt v.patience settled, (leave v.patience settled).map fun feed =>
      let (items, ended) := Feed.read v.limit feed.items
      .trades items ended)

/-- The call as the engine sees it. -/
def call (deadlineMs : Nat) (v : Visit) : EngineCall :=
  (v.relay deadlineMs).call v.requestId v.request

/-- The feeds that a visit has opened and given back. -/
def feeds (ending : Ending Answer) : Nat :=
  match ending with
  | .returned (.ok (.trades ..)) => 1
  | _ => 0

/-- The starts of visits, in their order. -/
def starts (vs : List Visit) : List CallEvent := vs.map fun v => .started v.request

/-- The ends of visits, in the order of their times, where so many calls have started before. -/
def ends (deadlineMs before : Nat) (vs : List Visit) : List CallEvent :=
  let timed := (vs.zipIdx before).map fun (v, i) =>
    let (time, ending) := v.outcome deadlineMs
    (time, CallEvent.ended i ending)
  (timed.mergeSort fun a b => a.1 ≤ b.1).map (·.2)

/-- Visits that start together: how each ends, and the ledger after all have ended. -/
def together (deadlineMs : Nat) (l : Ledger) (vs : List Visit) : List (Ending Answer) × Ledger :=
  (vs.map fun v => (v.outcome deadlineMs).2,
    l.run (starts vs ++ ends deadlineMs l.calls.length vs))

end Visit

end OrderRelay
