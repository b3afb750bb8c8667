import OrderRelay.Meter.Readings
import OrderRelay.Relay.Call

/-!
# Counting calls

What is counted when a call starts and when it ends, in whatever order the calls of many callers
start and end.

* `callEvents`: what one call counts from its start to its end.
* `MadeCall`: a call that has started, and how it has ended if it has.
* `Ledger.step`: one call starts or ends.
-/

namespace OrderRelay

/-- How a call ended, as far as it is counted. -/
inductive Finish where
  /-- The engine answered, with a verdict if the operation has one. -/
  | answered (verdict : Option Verdict)
  /-- The engine failed, or did not answer in time. -/
  | failed
  /-- Nobody waits for the call any more. -/
  | dropped
  deriving DecidableEq, Repr

/-- How a call ended, as far as it is counted. -/
def Ending.finish : Ending Answer → Finish
  | .returned (.ok (.order op r)) => .answered (op.verdict? r)
  | .returned (.ok (.trades ..)) => .answered none
  | .returned (.error _) => .failed
  | .dropped => .dropped

/-- What a call counts when it starts. Subscriptions are not counted as calls. -/
def startEvents : EngineRequest → List MeterEvent
  | .order op _ => [.attempt op]
  | .trades _ => []

/-- What a call counts when it ends: its time in any case, and then its outcome or its failure. -/
def finishEvents : EngineRequest → Finish → List MeterEvent
  | .order op _, .answered (some v) => [.sample op, .outcome op v]
  | .order op _, .answered none => [.sample op]
  | .order op _, .failed => [.sample op, .failure op]
  | .order op _, .dropped => [.sample op]
  | .trades _, _ => []

/-- What a call counts from its start to its end. -/
def callEvents (request : EngineRequest) (f : Finish) : List MeterEvent :=
  startEvents request ++ finishEvents request f

/-- A call that has started, and how it has ended if it has. -/
structure MadeCall where
  request : EngineRequest
  ending : Option (Ending Answer)
  fits : ∀ e ∈ ending, e.fits request = true

namespace MadeCall

/-- A call that has just started. -/
def start (request : EngineRequest) : MadeCall := ⟨request, none, by simp⟩

/-- The call once it has ended; none if it has ended before, or cannot end so. -/
def end? (c : MadeCall) (e : Ending Answer) : Option MadeCall :=
  if h : c.ending = none ∧ e.fits c.request = true then some ⟨c.request, some e, by simpa using h.2⟩
  else none

end MadeCall

/-- A call starts or ends. Calls are told apart by their numbers in the order of their starts. -/
inductive CallEvent where
  | started (request : EngineRequest)
  | ended (call : Nat) (ending : Ending Answer)

/-- The calls that have started, and the readings. -/
structure Ledger where
  calls : List MadeCall
  readings : Readings

namespace Ledger

/-- No call has started. -/
def start : Ledger := ⟨[], .zero⟩

/-- The ledger after one more event. What cannot happen to a call is no event. -/
def step (l : Ledger) : CallEvent → Ledger
  | .started request =>
    ⟨l.calls ++ [.start request], l.readings.recordAll (startEvents request)⟩
  | .ended i ending =>
    match l.calls[i]? with
    | none => l
    | some c =>
      match c.end? ending with
      | none => l
      | some c' =>
        ⟨l.calls.set i c', l.readings.recordAll (finishEvents c.request ending.finish)⟩

/-- The ledger after more events. -/
def run (l : Ledger) (es : List CallEvent) : Ledger := es.foldl step l

end Ledger

end OrderRelay
