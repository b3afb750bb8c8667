import OrderRelay.Meter.Series

/-!
# Readings

The value of each series, and the events that change them. Every event is aimed at one series at
most, and all but the end of a subscription count up.

* `Readings.record`: the readings after one more event.
* `Readings.recordAll_apply`: a reading is its start plus what the events do to it, so their order
  does not matter.
-/

namespace OrderRelay

/-- Something that is counted. -/
inductive MeterEvent where
  /-- A call goes to the engine. -/
  | attempt (op : Operation)
  /-- The engine has answered. -/
  | outcome (op : Operation) (v : Verdict)
  /-- The engine has not answered. -/
  | failure (op : Operation)
  /-- The time of a call has been taken. -/
  | sample (op : Operation)
  /-- A subscription begins. -/
  | opened
  /-- A subscription is over. -/
  | closed
  /-- A trade has been forwarded. -/
  | update
  deriving DecidableEq, Repr

namespace MeterEvent

/-- The series at which an event is aimed. -/
def series? : MeterEvent → Option Series
  | .attempt op => Series.attempts? op
  | .outcome op v => Series.outcome? op v
  | .failure op => some (Series.failures op)
  | .sample op => some (Series.latency op)
  | .opened => some .activeSubscriptions
  | .closed => some .activeSubscriptions
  | .update => some .tradeUpdates

/-- By how much an event changes its series. -/
def change : MeterEvent → Int
  | .closed => -1
  | _ => 1

/-- By how much an event changes a series. -/
def changeOf (e : MeterEvent) (s : Series) : Int := if e.series? = some s then e.change else 0

end MeterEvent

/-- The value of each series. -/
structure Readings where
  value : Series → Int

namespace Readings

/-- Nothing has been counted. -/
def zero : Readings := ⟨fun _ => 0⟩

/-- The readings after one more event. -/
def record (r : Readings) (e : MeterEvent) : Readings :=
  match e.series? with
  | none => r
  | some s => ⟨fun t => if t = s then r.value t + e.change else r.value t⟩

/-- The readings after more events. -/
def recordAll (r : Readings) (es : List MeterEvent) : Readings := es.foldl record r

theorem record_apply (r : Readings) (e : MeterEvent) (s : Series) :
    (r.record e).value s = r.value s + e.changeOf s := by
  simp only [record, MeterEvent.changeOf]
  cases h : e.series? with
  | none => simp
  | some t =>
    by_cases hst : s = t
    · simp [hst]
    · simp [hst, Ne.symm hst]

/-- A reading is its start plus what the events do to it. -/
theorem recordAll_apply (r : Readings) (es : List MeterEvent) (s : Series) :
    (r.recordAll es).value s = r.value s + (es.map (·.changeOf s)).foldr (· + ·) 0 := by
  induction es generalizing r with
  | nil => simp [recordAll]
  | cons e es ih =>
    have := ih (r.record e)
    simp only [recordAll, List.foldl_cons] at this ⊢
    rw [this, record_apply, List.map_cons, List.foldr_cons, Int.add_assoc]

/-- The readings that are not zero, by name. -/
def named (r : Readings) : List (String × Int) :=
  (Series.all.map fun s => (s.name, r.value s)).filter fun (_, n) => n != 0

end Readings

/-! ## Timers and guards -/

/-- A step of who measures. A timer takes one sample when it ends, in whatever way and however often
it is ended; a guard stands for a subscription that is over when the guard is given back. -/
inductive MeterStep where
  | event (e : MeterEvent)
  | startTimer (op : Operation)
  | endTimer (i : Nat)
  | takeGuard
  | dropGuard (i : Nat)

/-- The readings, with the timers and guards handed out so far in their order. A timer holds its
operation until it has ended. -/
structure Meter where
  readings : Readings
  timers : List (Option Operation)
  guards : List Bool

namespace Meter

/-- Nothing has been measured. -/
def start : Meter := ⟨.zero, [], []⟩

/-- The state after one more step. -/
def step (m : Meter) : MeterStep → Meter
  | .event e => { m with readings := m.readings.record e }
  | .startTimer op => { m with timers := m.timers ++ [some op] }
  | .endTimer i =>
    match m.timers[i]? with
    | some (some op) =>
      { m with readings := m.readings.record (.sample op), timers := m.timers.set i none }
    | _ => m
  | .takeGuard =>
    { m with readings := m.readings.record .opened, guards := m.guards ++ [true] }
  | .dropGuard i =>
    match m.guards[i]? with
    | some true =>
      { m with readings := m.readings.record .closed, guards := m.guards.set i false }
    | _ => m

/-- The state after more steps. -/
def run (m : Meter) (steps : List MeterStep) : Meter := steps.foldl step m

end Meter

end OrderRelay
