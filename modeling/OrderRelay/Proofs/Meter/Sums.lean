import Mathlib.Algebra.BigOperators.Group.List.Basic
import Mathlib.Tactic.Abel
import OrderRelay.Meter.Readings

/-!
# Readings as sums over members

Calls and subscriptions are members of a list that count into the same readings,
each in its own time. What a member has counted so far is a list of events, and
the readings are the sums of what all members have counted, whatever the order.

* `changes_eq_count`: every series but the gauge counts the events of one kind.
* `Readings.SumOf`: the readings are sums over members.
* `SumOf.concat`, `SumOf.set`: a new member, and a member that counts on.
* `SumOf.value_eq_countP`: where every member has counted a series once or not at
  all, the reading is the number of the members that have.
-/

namespace OrderRelay

/-- The event that a series counts up with. -/
def Series.event : Series → MeterEvent
  | .submitRequests => .attempt .submitOrder
  | .submitAccepted => .outcome .submitOrder .accepted
  | .submitRejected => .outcome .submitOrder .rejected
  | .submitFailures => .failure .submitOrder
  | .submitLatency => .sample .submitOrder
  | .bookFailures => .failure .getOrderBook
  | .bookLatency => .sample .getOrderBook
  | .cancelRequests => .attempt .cancelOrder
  | .cancelErrors => .outcome .cancelOrder .rejected
  | .cancelFailures => .failure .cancelOrder
  | .cancelLatency => .sample .cancelOrder
  | .modifyRequests => .attempt .modifyOrder
  | .modifyErrors => .outcome .modifyOrder .rejected
  | .modifyFailures => .failure .modifyOrder
  | .modifyLatency => .sample .modifyOrder
  | .activeSubscriptions => .opened
  | .tradeUpdates => .update

theorem MeterEvent.series?_eq_some_iff {e : MeterEvent} {s : Series} (hs : s ≠ .activeSubscriptions) :
    e.series? = some s ↔ e = s.event := by
  constructor
  · intro h
    cases e with
    | attempt op => cases op <;> cases h <;> rfl
    | outcome op v => cases op <;> cases v <;> cases h <;> rfl
    | failure op => cases op <;> cases h <;> rfl
    | sample op => cases op <;> cases h <;> rfl
    | opened => cases h; exact absurd rfl hs
    | closed => cases h; exact absurd rfl hs
    | update => cases h; rfl
  · rintro rfl
    cases s <;> rfl

theorem MeterEvent.changeOf_eq {e : MeterEvent} {s : Series} (hs : s ≠ .activeSubscriptions) :
    e.changeOf s = if e = s.event then 1 else 0 := by
  unfold changeOf
  simp only [series?_eq_some_iff hs]
  split
  · rename_i h
    subst h
    cases s <;> rfl
  · rfl

/-- By how much events change a series. -/
def changes (es : List MeterEvent) (s : Series) : ℤ := (es.map (·.changeOf s)).sum

@[simp] theorem changes_nil (s : Series) : changes [] s = 0 := rfl

@[simp] theorem changes_cons (e : MeterEvent) (es : List MeterEvent) (s : Series) :
    changes (e :: es) s = e.changeOf s + changes es s := by
  simp [changes]

theorem changes_append (es fs : List MeterEvent) (s : Series) :
    changes (es ++ fs) s = changes es s + changes fs s := by
  simp [changes]

/-- Events that are aimed at other series leave a series alone. -/
theorem changes_eq_zero {es : List MeterEvent} {s : Series} (h : ∀ e ∈ es, e.series? ≠ some s) :
    changes es s = 0 := by
  induction es with
  | nil => rfl
  | cons e es ih =>
    rw [changes_cons, ih fun e' he' => h e' (List.mem_cons_of_mem _ he'), add_zero]
    exact if_neg (h e List.mem_cons_self)

/-- **Every series but the gauge counts the events of one kind.** -/
theorem changes_eq_count (es : List MeterEvent) {s : Series} (hs : s ≠ .activeSubscriptions) :
    changes es s = es.count s.event := by
  induction es with
  | nil => rfl
  | cons e es ih =>
    rw [changes_cons, ih, MeterEvent.changeOf_eq hs, List.count_cons]
    by_cases he : e = s.event <;> simp [he, add_comm]

namespace Readings

theorem value_recordAll (r : Readings) (es : List MeterEvent) (s : Series) :
    (r.recordAll es).value s = r.value s + changes es s :=
  recordAll_apply r es s

variable {α : Type} {r : Readings} {xs : List α} {counted : α → List MeterEvent}

/-- **The readings are sums** of what the members of a list have counted. -/
def SumOf (r : Readings) (counted : α → List MeterEvent) (xs : List α) : Prop :=
  ∀ s, r.value s = (xs.map fun x => changes (counted x) s).sum

theorem SumOf.nil : zero.SumOf counted [] := fun _ => rfl

/-- A new member counts. -/
theorem SumOf.concat (h : r.SumOf counted xs) (x : α) :
    (r.recordAll (counted x)).SumOf counted (xs ++ [x]) := by
  intro s
  rw [value_recordAll, h s]
  simp

/-- A member counts on. -/
theorem SumOf.set (h : r.SumOf counted xs) {i : ℕ} {x x' : α} (hi : xs[i]? = some x)
    {es : List MeterEvent} (hx : ∀ s, changes (counted x') s = changes (counted x) s + changes es s) :
    (r.recordAll es).SumOf counted (xs.set i x') := by
  intro s
  obtain ⟨hlt, rfl⟩ := List.getElem?_eq_some_iff.1 hi
  rw [value_recordAll, h s, List.map_set, List.sum_set', dif_pos (by simpa using hlt), hx s,
    List.getElem_map]
  abel

/-- Where every member has counted a series once or not at all, the reading is the
number of those that have. -/
theorem SumOf.value_eq_countP (h : r.SumOf counted xs) {s : Series} {p : α → Bool}
    (hp : ∀ x ∈ xs, changes (counted x) s = if p x then 1 else 0) :
    r.value s = xs.countP p := by
  rw [h s, List.map_congr_left hp]
  clear h hp
  induction xs with
  | nil => rfl
  | cons x xs ih =>
    rw [List.map_cons, List.sum_cons, ih, List.countP_cons]
    by_cases hx : p x <;> simp [hx, add_comm]

end Readings

end OrderRelay
