import Mathlib.Data.List.Basic
import OrderRelay.Proofs.Rpc.Carriage
import OrderRelay.Relay.Call
import OrderRelay.Settings.Problem

/-!
# Deadlines as they go out

The deadline of the settings travels with every operation, and is written for the engine as a number
of at most eight digits and a unit. The checks of the settings compare the deadline with the time
limit of requests, but neither of the two with what can be written.

* `Timeout.WritesDown`: a written time is a deadline, rounded down to its unit.
* `writesDown_of_ofNanos?`: what is written for a time.
* `isSome_ofNanos?_iff`: which times can be written.
* `deadline_goes_out`: **which deadlines of settings can be served**, and how they are written.
-/

namespace OrderRelay

/-- A number below a power of ten has at most so many digits. -/
theorem Digits.length_ofNatOnto_le {k : ℕ} : ∀ {fuel n : ℕ} (acc : Digits), n < 10 ^ (k + 1) →
    (ofNatOnto fuel n acc).length ≤ k + 1 + acc.length := by
  induction k with
  | zero =>
    intro fuel n acc h
    cases fuel with
    | zero => simp [ofNatOnto]
    | succ fuel =>
      rw [ofNatOnto, if_pos (by simpa using h), List.length_cons]
      omega
  | succ k ih =>
    intro fuel n acc h
    cases fuel with
    | zero => simp [ofNatOnto]
    | succ fuel =>
      rw [ofNatOnto]
      split
      · rw [List.length_cons]
        omega
      · have hdiv : n / 10 < 10 ^ (k + 1) := by
          rw [Nat.div_lt_iff_lt_mul (by decide), ← pow_succ]
          exact h
        have hrest : (ofNatOnto fuel (n / 10) (last n :: acc)).length ≤ _ := ih _ hdiv
        rw [List.length_cons] at hrest
        omega

theorem Digits.length_ofNat_le {k n : ℕ} (h : n < 10 ^ (k + 1)) : (ofNat n).length ≤ k + 1 :=
  length_ofNatOnto_le [] h

namespace Rpc

/-! ## Written times -/

theorem TimeUnit.nanos_le_hour (u : TimeUnit) : u.nanos ≤ hour.nanos := by cases u <;> decide

namespace Timeout

variable {nanos : ℕ} {t : Timeout}

/-- **A written time is this time**, which is given in nanoseconds: it is rounded down to a unit, the
finest in which eight digits are enough. -/
structure WritesDown (t : Timeout) (nanos : ℕ) : Prop where
  digits : ∃ ds : Digits, ds.length ≤ 8 ∧ ds.value = t.count ∧
    t.text = String.ofList ds.chars ++ t.unit.letter
  not_longer : t.nanos ≤ nanos
  close : nanos - t.nanos < t.unit.nanos
  finest : ∀ u : TimeUnit, u.nanos < t.unit.nanos → maxCount < nanos / u.nanos

/-- Every finer unit has been tried in vain. -/
theorem finest_of_ofNanos? (h : ofNanos? nanos = some t) {u : TimeUnit}
    (hu : u.nanos < t.unit.nanos) : maxCount < nanos / u.nanos := by
  obtain ⟨-, before, after, hall, hbefore⟩ := List.find?_eq_some_iff_append.1 h
  -- the units are tried from fine to coarse
  have hsorted : (TimeUnit.all.map (inUnit nanos)).Pairwise fun a b => a.unit.nanos < b.unit.nanos := by
    rw [List.pairwise_map]
    exact (by decide : TimeUnit.all.Pairwise fun u v => u.nanos < v.nanos)
  have hmem : inUnit nanos u ∈ before ++ t :: after := by
    rw [← hall]
    exact List.mem_map_of_mem (by cases u <;> decide)
  rw [hall, List.pairwise_append, List.pairwise_cons] at hsorted
  have hearlier : inUnit nanos u ∈ before := by
    rcases List.mem_append.1 hmem with hin | hin
    · exact hin
    · rcases List.mem_cons.1 hin with rfl | hafter
      · exact absurd hu (Nat.lt_irrefl _)
      · exact absurd hu (Nat.lt_asymm (hsorted.2.1.1 _ hafter))
  have htried : (!decide (nanos / u.nanos ≤ maxCount)) = true := hbefore _ hearlier
  simpa only [Bool.not_eq_true', decide_eq_false_iff_not, Nat.not_le] using htried

/-- **What is written for a time.** -/
theorem writesDown_of_ofNanos? (h : ofNanos? nanos = some t) : t.WritesDown nanos := by
  obtain ⟨hle, hclose⟩ := ofNanos?_sound h
  have hcount : t.count ≤ maxCount := by simpa using List.find?_some h
  have hdigits : (Digits.ofNat t.count).length ≤ 8 :=
    Digits.length_ofNat_le (Nat.lt_of_le_of_lt hcount (by decide))
  exact ⟨⟨_, hdigits, Digits.value_ofNat t.count, rfl⟩, hle, hclose, fun _ => finest_of_ofNanos? h⟩

/-- A time that is not zero is not written as zero. -/
theorem WritesDown.count_pos (h : t.WritesDown nanos) (hpos : 0 < nanos) : 0 < t.count := by
  refine Nat.pos_of_ne_zero fun hzero => ?_
  have hclose : nanos < t.unit.nanos := by
    have hshort := h.close
    rw [Timeout.nanos, hzero, Nat.zero_mul, Nat.sub_zero] at hshort
    exact hshort
  have hhour : t.unit.nanos ≤ 3600000000000 := t.unit.nanos_le_hour
  -- the unit is coarse, so finer ones have been tried in vain
  have hnano : 99999999 < nanos / 1 :=
    h.finest .nanosecond (show 1 < t.unit.nanos by omega)
  have hmilli : 99999999 < nanos / 1000000 :=
    h.finest .millisecond (show 1000000 < t.unit.nanos by omega)
  omega

theorem lt_of_isSome_ofNanos? (h : (ofNanos? nanos).isSome) :
    nanos < 100000000 * TimeUnit.hour.nanos := by
  obtain ⟨t, ht⟩ := Option.isSome_iff_exists.1 h
  obtain ⟨-, hclose⟩ := ofNanos?_sound ht
  have hcount : t.count + 1 ≤ 100000000 := by
    have hmax : t.count ≤ maxCount := by simpa using List.find?_some ht
    exact Nat.succ_le_succ hmax
  calc nanos < t.nanos + t.unit.nanos := by omega
    _ = (t.count + 1) * t.unit.nanos := by rw [Nat.succ_mul]; rfl
    _ ≤ 100000000 * TimeUnit.hour.nanos := Nat.mul_le_mul hcount t.unit.nanos_le_hour

/-- **A time can be written** if it is shorter than a hundred million hours. -/
theorem isSome_ofNanos?_iff :
    (ofNanos? nanos).isSome ↔ nanos < 100000000 * TimeUnit.hour.nanos :=
  ⟨lt_of_isSome_ofNanos?, isSome_ofNanos?⟩

end Timeout

/-! ## The deadline of the settings -/

/-- A hundred million hours in milliseconds. -/
def hundredMillionHoursMs : ℕ := 360000000000000

variable {deadlineMs : ℕ} {engine : Engine} {id : String} {op : Operation} {order : op.Request}

/-- What goes out for an operation goes out with the deadline, which is given in milliseconds. -/
theorem ofCall?_order (deadlineMs : ℕ) (engine : Engine) (id : String) (op : Operation)
    (order : op.Request) :
    Request.ofCall? ((⟨deadlineMs, engine⟩ : Relay).call id (.order op order)) =
      (Timeout.ofNanos? (1000000 * deadlineMs)).map fun t =>
        ⟨methodPath (.order op order), requestId? ⟨id, some (1000 * deadlineMs)⟩, some t,
          frame (message (.order op order))⟩ := by
  have hnanos : 1000 * (1000 * deadlineMs) = 1000000 * deadlineMs := by omega
  unfold Request.ofCall? timeout? Relay.call Relay.orderContext
  simp only [hnanos, Option.map_map]
  rfl

theorem isSome_ofCall?_order :
    (Request.ofCall? ((⟨deadlineMs, engine⟩ : Relay).call id (.order op order))).isSome ↔
      deadlineMs < hundredMillionHoursMs := by
  have hhour : 100000000 * TimeUnit.hour.nanos = 1000000 * hundredMillionHoursMs := by decide
  rw [ofCall?_order, Option.isSome_map, Timeout.isSome_ofNanos?_iff, hhour]
  exact Nat.mul_lt_mul_left (by decide)

/-- **Which deadlines can be served.** For settings that have passed their checks, an operation goes
out just if the deadline is shorter than a hundred million hours. The time that goes out with it is
then the deadline, rounded down to the finest unit in which eight digits are enough, and it is not
zero. -/
theorem deadline_goes_out {s : Settings} (hs : s.problems = []) (engine : Engine) (id : String)
    (op : Operation) (order : op.Request) :
    let call := (⟨s.engine.deadlineMs.toNat, engine⟩ : Relay).call id (.order op order)
    ((Request.ofCall? call).isSome ↔ s.engine.deadlineMs.toNat < hundredMillionHoursMs) ∧
    ∀ out, Request.ofCall? call = some out →
      ∃ t, out.timeout = some t ∧ t.WritesDown (1000000 * s.engine.deadlineMs.toNat) ∧
        0 < t.count := by
  intro call
  refine ⟨isSome_ofCall?_order, fun out hout => ?_⟩
  rw [ofCall?_order] at hout
  obtain ⟨t, ht, rfl⟩ := Option.map_eq_some_iff.1 hout
  have hdown := Timeout.writesDown_of_ofNanos? ht
  obtain ⟨-, -, -, -, hdeadline, -⟩ := Settings.problems_eq_nil_iff.1 hs
  have hpos : 0 < s.engine.deadlineMs.toNat :=
    Nat.pos_of_ne_zero fun h => hdeadline (UInt64.toNat_inj.1 h)
  exact ⟨t, rfl, hdown, hdown.count_pos (by omega)⟩

/-- Settings with a deadline, and with a time limit that is the next longer one in whole seconds. -/
def patientSettings (deadlineMs : UInt64) : Settings :=
  { engine := { deadlineMs }, timeouts := ⟨deadlineMs / 1000 + 1⟩ }

theorem ofNanos?_longest :
    Timeout.ofNanos? (1000000 * (patientSettings 359999999999999).engine.deadlineMs.toNat) =
      some ⟨99999999, .hour⟩ := by decide

/-- The longest deadline goes out in hours. -/
theorem deadline_goes_out_longest :
    let s := patientSettings 359999999999999
    let call := (⟨s.engine.deadlineMs.toNat, .failing .linkClosed⟩ : Relay).call "a"
      (.order .getOrderBook ⟨"A"⟩)
    s.problems = [] ∧ ∃ out t, Request.ofCall? call = some out ∧ out.timeout = some t ∧
      t.WritesDown (1000000 * s.engine.deadlineMs.toNat) ∧ t.text = "99999999H" := by
  intro s call
  have hs : s.problems = [] := by decide
  have h := deadline_goes_out hs (.failing .linkClosed) "a" .getOrderBook ⟨"A"⟩
  obtain ⟨out, hout⟩ := Option.isSome_iff_exists.1 (h.1.2 (by decide))
  obtain ⟨t, ht, hdown, -⟩ := h.2 out hout
  refine ⟨hs, out, t, hout, ht, hdown, ?_⟩
  rw [ofCall?_order, ofNanos?_longest] at hout
  obtain rfl := Option.some.inj hout
  obtain rfl := Option.some.inj ht
  decide

/-- One millisecond more passes the checks and cannot be written. -/
theorem not_every_deadline_goes_out : ¬∀ (s : Settings) (engine : Engine) (id : String)
    (op : Operation) (order : op.Request), s.problems = [] →
      ∃ out t, Request.ofCall? ((⟨s.engine.deadlineMs.toNat, engine⟩ : Relay).call id
          (.order op order)) = some out ∧
        out.timeout = some t ∧ t.WritesDown (1000000 * s.engine.deadlineMs.toNat) := by
  intro h
  have hs : (patientSettings 360000000000000).problems = [] := by decide
  obtain ⟨out, t, hout, -⟩ := h _ (.failing .linkClosed) "a" .getOrderBook ⟨"A"⟩ hs
  have hlong := isSome_ofCall?_order.1 (Option.isSome_of_mem hout)
  revert hlong
  decide

end Rpc

end OrderRelay
