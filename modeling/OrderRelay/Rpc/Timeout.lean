import OrderRelay.Number.Digits

/-!
# Timeouts of remote calls

The time that a remote call may take is written as a number of eight digits at most and a unit. The
finest unit is taken in which the time, rounded down, has no more digits than that.

* `Timeout.ofNanos?`: the written form of a time; none if even the coarsest unit is too fine.
* `Timeout.nanos`: the time that a written form stands for.
* `Timeout.ofNanos?_sound`: it is not longer, and not shorter by a whole unit.
-/

namespace OrderRelay.Rpc

/-- Units of time. -/
inductive TimeUnit where
  | nanosecond
  | microsecond
  | millisecond
  | second
  | minute
  | hour
  deriving DecidableEq, Repr

namespace TimeUnit

/-- The letter of a unit. -/
def letter : TimeUnit → String
  | .nanosecond => "n"
  | .microsecond => "u"
  | .millisecond => "m"
  | .second => "S"
  | .minute => "M"
  | .hour => "H"

/-- How many nanoseconds a unit has. -/
def nanos : TimeUnit → Nat
  | .nanosecond => 1
  | .microsecond => 1000
  | .millisecond => 1000000
  | .second => 1000000000
  | .minute => 60000000000
  | .hour => 3600000000000

/-- The units from fine to coarse. -/
def all : List TimeUnit := [.nanosecond, .microsecond, .millisecond, .second, .minute, .hour]

theorem nanos_pos (u : TimeUnit) : 0 < u.nanos := by cases u <;> decide

end TimeUnit

/-- The greatest number of eight digits. -/
def maxCount : Nat := 99999999

/-- A time in its written form. -/
structure Timeout where
  count : Nat
  unit : TimeUnit
  deriving DecidableEq, Repr

namespace Timeout

/-- The time that a written form stands for. -/
def nanos (t : Timeout) : Nat := t.count * t.unit.nanos

/-- The characters of a written form. -/
def text (t : Timeout) : String := natText t.count ++ t.unit.letter

/-- The time in one unit, rounded down. -/
def inUnit (nanos : Nat) (u : TimeUnit) : Timeout := ⟨nanos / u.nanos, u⟩

/-- The written form of a time; none if even the coarsest unit is too fine. -/
def ofNanos? (nanos : Nat) : Option Timeout :=
  (TimeUnit.all.map (inUnit nanos)).find? fun t => t.count ≤ maxCount

theorem ofNanos?_sound {nanos : Nat} {t : Timeout} (h : ofNanos? nanos = some t) :
    t.nanos ≤ nanos ∧ nanos - t.nanos < t.unit.nanos := by
  obtain ⟨u, _, rfl⟩ := List.mem_map.1 (List.mem_of_find?_eq_some h)
  have hu := u.nanos_pos
  have h1 := Nat.div_add_mod nanos u.nanos
  have h2 := Nat.mod_lt nanos hu
  have h3 := Nat.mul_comm u.nanos (nanos / u.nanos)
  simp only [Timeout.nanos, inUnit]
  omega

end Timeout

end OrderRelay.Rpc
