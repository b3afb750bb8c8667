import Mathlib.Algebra.BigOperators.Group.List.Basic
import OrderRelay.Proofs.Relay.Endings
import OrderRelay.Proofs.Relay.Tally

/-!
# Visits that start together

Each visit makes one call, and the ledger counts all of them. However the ends of the
calls are ordered, each call ends as the one of its visit, and what it counts is added
to the readings.

* `Visit.alone`: a visit on a relay that nobody else uses.
* `Visit.inTurn`: visits of which each starts when the one before has ended.
* `Visit.calls_together`: **the calls of visits that start together** are those of each.
* `Visit.Undisturbed`: results and readings are those of each visit alone.
* `undisturbed_of`, `together_undisturbed`, `inTurn_undisturbed`: when that is so.
-/

namespace OrderRelay

/-- A call is told by its request and its ending. -/
theorem MadeCall.eq_of {c d : MadeCall} (hrequest : c.request = d.request)
    (hending : c.ending = d.ending) : c = d := by
  obtain ⟨request, ending, fits⟩ := c
  cases hrequest
  cases hending
  rfl

theorem Ledger.run_append (l : Ledger) (es fs : List CallEvent) :
    l.run (es ++ fs) = (l.run es).run fs := List.foldl_append

namespace Visit

variable {deadlineMs : ℕ} {l : Ledger} {vs : List Visit}

/-- What a visit counts. -/
def events (deadlineMs : ℕ) (v : Visit) : List MeterEvent :=
  callEvents v.request (v.outcome deadlineMs).2.finish

/-- The call of a visit, once it has ended. -/
def made (deadlineMs : ℕ) (v : Visit) : MadeCall :=
  ⟨v.request, some (v.outcome deadlineMs).2, fun e he => by
    obtain rfl := Option.some.inj he
    exact v.fits_outcome deadlineMs⟩

/-- A visit on a relay that nobody else uses: how it ends, and the ledger after it. -/
def alone (deadlineMs : ℕ) (v : Visit) : List (Ending Answer) × Ledger :=
  together deadlineMs .start [v]

/-- Visits of which each starts when the one before has ended: how each ends, and the
ledger after all have ended. -/
def inTurn (deadlineMs : ℕ) (l : Ledger) : List Visit → List (Ending Answer) × Ledger
  | [] => ([], l)
  | v :: vs =>
    let (ending, l) := together deadlineMs l [v]
    let (endings, l) := inTurn deadlineMs l vs
    (ending ++ endings, l)

/-! ## How the calls end -/

theorem calls_starts (l : Ledger) (vs : List Visit) :
    (l.run (starts vs)).calls = l.calls ++ vs.map fun v => .start v.request := by
  induction vs generalizing l with
  | nil => simp [starts, Ledger.run]
  | cons v vs ih =>
    have hfirst : (l.step (.started v.request)).calls = l.calls ++ [.start v.request] := rfl
    have hrest := ih (l.step (.started v.request))
    rw [hfirst, List.append_assoc] at hrest
    exact hrest

/-- The ends come in the order of their times, but they are those of the visits. -/
theorem ends_perm (deadlineMs n : ℕ) (vs : List Visit) :
    (ends deadlineMs n vs).Perm
      ((vs.zipIdx n).map fun p => .ended p.2 (p.1.outcome deadlineMs).2) := by
  unfold ends
  refine ((List.mergeSort_perm _ _).map _).trans (.of_eq ?_)
  rw [List.map_map]
  rfl

/-- Of numbered visits there is one with a number, or none. -/
theorem filterMap_zipIdx {β : Type} (g : Visit → β) (vs : List Visit) (n k : ℕ) :
    (vs.zipIdx n).filterMap (fun p => if p.2 = k then some (g p.1) else none) =
      if n ≤ k then (vs[k - n]?.map g).toList else [] := by
  induction vs generalizing n with
  | nil => simp
  | cons v vs ih =>
    rw [List.zipIdx_cons, List.filterMap_cons, ih (n + 1)]
    rcases Nat.lt_trichotomy n k with hlt | rfl | hgt
    · obtain ⟨j, rfl⟩ : ∃ j, k = n + 1 + j := ⟨k - (n + 1), by omega⟩
      have hsub : n + 1 + j - n = j + 1 := by omega
      rw [if_neg (by omega), if_pos (by omega), if_pos (by omega), hsub, Nat.add_sub_cancel_left,
        List.getElem?_cons_succ]
    · rw [if_pos rfl, if_neg (by omega), if_pos le_rfl, Nat.sub_self]
      rfl
    · rw [if_neg (by omega), if_neg (by omega), if_neg (by omega)]

/-- What the ends of visits aim at a call: the end of its visit. -/
theorem endings_ends (deadlineMs n k : ℕ) (vs : List Visit) :
    (ends deadlineMs n vs).filterMap (CallEvent.endingOf? k) =
      if n ≤ k then (vs[k - n]?.map fun v => (v.outcome deadlineMs).2).toList else [] := by
  have hperm := (ends_perm deadlineMs n vs).filterMap (CallEvent.endingOf? k)
  have hnumbered := filterMap_zipIdx (fun v => (v.outcome deadlineMs).2) vs n k
  rw [List.filterMap_map] at hperm
  have haimed : (vs.zipIdx n).filterMap
      (CallEvent.endingOf? k ∘ fun p => .ended p.2 (p.1.outcome deadlineMs).2) =
        if n ≤ k then (vs[k - n]?.map fun v => (v.outcome deadlineMs).2).toList else [] := hnumbered
  rw [haimed] at hperm
  -- a list of one member at most has no other order
  split at hperm
  · rename_i hle
    rw [if_pos hle]
    cases hv : vs[k - n]? with
    | none => rw [hv] at hperm; exact hperm.eq_nil
    | some v => rw [hv] at hperm; exact List.perm_singleton.1 hperm
  · rename_i hlt
    rw [if_neg hlt]
    exact hperm.eq_nil

theorem requests_ends (deadlineMs n : ℕ) (vs : List Visit) :
    (ends deadlineMs n vs).filterMap CallEvent.request? = [] := by
  have hperm := (ends_perm deadlineMs n vs).filterMap CallEvent.request?
  rw [List.filterMap_map] at hperm
  refine (hperm.trans (.of_eq ?_)).eq_nil
  exact List.filterMap_eq_nil_iff.2 fun p _ => rfl

/-- **The calls of visits that start together**: those that there were, and one for each
visit, which ends as its visit does. -/
theorem calls_together (deadlineMs : ℕ) (l : Ledger) (vs : List Visit) :
    (together deadlineMs l vs).2.calls = l.calls ++ vs.map (made deadlineMs) := by
  unfold together
  simp only [Ledger.run_append]
  have hstarts := calls_starts l vs
  generalize l.run (starts vs) = l₁ at hstarts ⊢
  refine List.ext_getElem? fun i => ?_
  cases hi : l₁.calls[i]? with
  | none =>
    -- the ends make no calls
    have hlength := congrArg List.length
      (Ledger.run_requests (l := l₁) (ends deadlineMs l.calls.length vs))
    rw [requests_ends, List.append_nil, List.length_map, List.length_map] at hlength
    rw [List.getElem?_eq_none_iff] at hi
    rw [List.getElem?_eq_none_iff.2 (by omega), eq_comm, List.getElem?_eq_none_iff]
    rw [hstarts] at hi
    simpa using hi
  | some c =>
    obtain ⟨c', hc', hrequest, hending⟩ :=
      Ledger.run_ending hi (ends deadlineMs l.calls.length vs)
    unfold CallEvent.endingIn at hending
    rw [endings_ends] at hending
    rw [hc', eq_comm]
    rw [hstarts] at hi
    by_cases hold : i < l.calls.length
    · -- a call that there was is not aimed at
      rw [if_neg (by omega), List.find?_nil, Option.or_none] at hending
      rw [List.getElem?_append_left hold] at hi ⊢
      rw [hi, MadeCall.eq_of hrequest hending]
    · rw [if_pos (by omega)] at hending
      rw [List.getElem?_append_right (by omega), List.getElem?_map] at hi ⊢
      obtain ⟨v, hv, rfl⟩ := Option.map_eq_some_iff.1 hi
      have hfits : (v.outcome deadlineMs).2.fits (MadeCall.start v.request).request = true :=
        v.fits_outcome deadlineMs
      rw [hv, Option.map_some, Option.toList_some, List.find?_singleton, if_pos hfits] at hending
      have hsame : c' = v.made deadlineMs := MadeCall.eq_of hrequest hending
      rw [hv, hsame]
      rfl

/-! ## What is counted -/

/-- What visits that start together count is added to the readings. -/
theorem value_together (h : l.readings.SumOf MadeCall.counted l.calls) (s : Series) :
    (together deadlineMs l vs).2.readings.value s =
      l.readings.value s + (vs.map fun v => changes (v.events deadlineMs) s).sum := by
  have hsum : (together deadlineMs l vs).2.readings.SumOf MadeCall.counted
      (together deadlineMs l vs).2.calls := Ledger.run_sumOf h _
  rw [hsum s, calls_together, h s, List.map_append, List.sum_append, List.map_map]
  rfl

theorem value_alone (deadlineMs : ℕ) (v : Visit) (s : Series) :
    (v.alone deadlineMs).2.readings.value s = changes (v.events deadlineMs) s := by
  unfold alone
  rw [value_together Readings.SumOf.nil]
  simp [Ledger.start, Readings.zero]

theorem endings_alone (deadlineMs : ℕ) (v : Visit) :
    (v.alone deadlineMs).1 = [(v.outcome deadlineMs).2] := rfl

/-- **Each visit is undisturbed**: it ends as it does alone, and the readings are the sums
of the readings that each visit leaves alone. -/
structure Undisturbed (deadlineMs : ℕ) (vs : List Visit) (endings : List (Ending Answer))
    (readings : Readings) : Prop where
  endings : endings = vs.flatMap fun v => (v.alone deadlineMs).1
  readings : ∀ s,
    readings.value s = (vs.map fun v => (v.alone deadlineMs).2.readings.value s).sum

/-- Visits are undisturbed that end as they should and whose events are counted. -/
theorem undisturbed_of {endings : List (Ending Answer)} {readings : Readings}
    (hendings : endings = vs.map fun v => (v.outcome deadlineMs).2)
    (hreadings : ∀ s, readings.value s = (vs.map fun v => changes (v.events deadlineMs) s).sum) :
    Undisturbed deadlineMs vs endings readings := by
  refine ⟨?_, fun s => ?_⟩
  · simp only [endings_alone]
    rw [hendings, List.map_eq_flatMap]
  · simp only [value_alone]
    exact hreadings s

/-- Visits that start together do not disturb each other. -/
theorem together_undisturbed (deadlineMs : ℕ) (vs : List Visit) :
    Undisturbed deadlineMs vs (together deadlineMs .start vs).1
      (together deadlineMs .start vs).2.readings := by
  refine undisturbed_of rfl fun s => ?_
  rw [value_together Readings.SumOf.nil]
  exact zero_add _

theorem endings_inTurn (deadlineMs : ℕ) (l : Ledger) (vs : List Visit) :
    (inTurn deadlineMs l vs).1 = vs.map fun v => (v.outcome deadlineMs).2 := by
  induction vs generalizing l with
  | nil => rfl
  | cons v vs ih =>
    unfold inTurn
    simp only [ih]
    rfl

/-- What visits count one after another is added to the readings. -/
theorem value_inTurn (h : l.readings.SumOf MadeCall.counted l.calls) (s : Series) :
    (inTurn deadlineMs l vs).2.readings.value s =
      l.readings.value s + (vs.map fun v => changes (v.events deadlineMs) s).sum := by
  induction vs generalizing l with
  | nil => simp [inTurn]
  | cons v vs ih =>
    have hone : (together deadlineMs l [v]).2.readings.SumOf MadeCall.counted
        (together deadlineMs l [v]).2.calls := Ledger.run_sumOf h _
    unfold inTurn
    simp only [ih hone, value_together h]
    rw [List.map_singleton, List.sum_singleton, List.map_cons, List.sum_cons, add_assoc]

/-- Visits that come one after another do not disturb each other. -/
theorem inTurn_undisturbed (deadlineMs : ℕ) (vs : List Visit) :
    Undisturbed deadlineMs vs (inTurn deadlineMs .start vs).1
      (inTurn deadlineMs .start vs).2.readings := by
  refine undisturbed_of (endings_inTurn deadlineMs .start vs) fun s => ?_
  rw [value_inTurn Readings.SumOf.nil]
  exact zero_add _

/-! ## The order of visits -/

variable {vs' : List Visit} {endings endings' : List (Ending Answer)}
  {readings readings' : Readings}

/-- Each visit with its own ending. -/
theorem Undisturbed.zip_endings (h : Undisturbed deadlineMs vs endings readings) :
    vs.zip endings = vs.map fun v => (v, (v.outcome deadlineMs).2) := by
  rw [h.endings]
  simp only [endings_alone]
  rw [← List.map_eq_flatMap, List.map_prod_left_eq_zip]

/-- **Undisturbed visits may come in any order.** -/
theorem Undisturbed.of_perm (h : Undisturbed deadlineMs vs endings readings)
    (h' : Undisturbed deadlineMs vs' endings' readings') (hperm : vs.Perm vs') :
    (vs.zip endings).Perm (vs'.zip endings') ∧ readings = readings' := by
  refine ⟨?_, ?_⟩
  · rw [h.zip_endings, h'.zip_endings]
    exact hperm.map _
  · have hvalue : readings.value = readings'.value := by
      funext s
      rw [h.readings s, h'.readings s]
      exact (hperm.map _).sum_eq
    obtain ⟨value⟩ := readings
    obtain ⟨value'⟩ := readings'
    exact congrArg Readings.mk hvalue

end Visit

end OrderRelay
