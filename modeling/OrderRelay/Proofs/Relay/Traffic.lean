import Mathlib.Algebra.Order.BigOperators.Group.List
import Mathlib.Algebra.Order.Group.Nat
import OrderRelay.Proofs.Relay.Gathering

/-!
# Visits that overlap

Many visits share one relay and its readings. Whose turn comes next is left open, so the
steps of the visits are interleaved in every way: a visit may start at any moment, and
between any two of its steps, even between two events that it counts at once, others may
take steps of their own. Time passes only while no call has come to an end that nobody has
seen yet.

* `Traffic.step`: one visit takes one step, or a millisecond passes.
* `Visitor.Sound`, `Traffic.Sound`: how far each visit has come, by its own history.
* `step_sound`, `run_sound`: an event keeps this, and so does a run.
* `exists_run_finished`: **whatever has happened, all visits can still come to their ends.**
* `visits_undisturbed`: **overlapping visits do not disturb each other**, in whatever order
  they take their steps, and so visits that start together or come one after another, in
  any order, have the same results and leave the same readings.
-/

namespace OrderRelay

/-- Where a visit stands. -/
inductive VisitStage where
  | ahead
  | waiting (since : ℕ)
  | gone (ending : Ending Answer)

/-- One of many visits: where it stands, what it has counted so far, and what it is about
to count. -/
structure Visitor where
  visit : Visit
  stage : VisitStage
  counted : List MeterEvent
  toCount : List MeterEvent

namespace Visitor

/-- What a visit does when its turn comes, and what it counts. -/
def turn (deadlineMs now : ℕ) (v : Visitor) : Visitor × List MeterEvent :=
  match v.toCount with
  | e :: rest => ({ v with counted := v.counted ++ [e], toCount := rest }, [e])
  | [] =>
    match v.stage with
    | .ahead => ({ v with stage := .waiting now, toCount := startEvents v.visit.request }, [])
    | .waiting since =>
      match v.visit.endBy? deadlineMs (now - since) with
      | none => (v, [])
      | some ending =>
        ({ v with stage := .gone ending
                  toCount := finishEvents v.visit.request ending.finish }, [])
    | .gone _ => (v, [])

/-- Whether the call of a visit has come to an end that nobody has seen yet. -/
def isDue (deadlineMs now : ℕ) (v : Visitor) : Bool :=
  match v.stage with
  | .waiting since => (v.visit.endBy? deadlineMs (now - since)).isSome
  | _ => false

/-- How a visit has ended, once all is counted. -/
def ended? (v : Visitor) : Option (Ending Answer) :=
  match v.stage, v.toCount with
  | .gone ending, [] => some ending
  | _, _ => none

end Visitor

/-- All visits to one relay, and its readings. -/
structure Traffic where
  /-- In milliseconds. -/
  now : ℕ
  visitors : List Visitor
  readings : Readings

/-- What happens next. -/
inductive TrafficEvent where
  /-- A millisecond passes. -/
  | pass
  /-- The turn comes to one of the visits. -/
  | turn (i : ℕ)

namespace Traffic

/-- No visit has started. -/
def start (vs : List Visit) : Traffic := ⟨0, vs.map fun v => ⟨v, .ahead, [], []⟩, .zero⟩

/-- The visits after one more event. -/
def step (deadlineMs : ℕ) (t : Traffic) : TrafficEvent → Traffic
  | .pass => if t.visitors.any (·.isDue deadlineMs t.now) then t else { t with now := t.now + 1 }
  | .turn i =>
    match t.visitors[i]? with
    | none => t
    | some v =>
      let (v, counted) := v.turn deadlineMs t.now
      { t with visitors := t.visitors.set i v, readings := t.readings.recordAll counted }

/-- The visits after more events. -/
def run (deadlineMs : ℕ) (t : Traffic) (es : List TrafficEvent) : Traffic :=
  es.foldl (step deadlineMs) t

/-- How the visits have ended that have. -/
def endings (t : Traffic) : List (Ending Answer) := t.visitors.filterMap Visitor.ended?

/-- All visits have ended. -/
def Finished (t : Traffic) : Prop := ∀ v ∈ t.visitors, v.ended?.isSome

instance (t : Traffic) : Decidable t.Finished :=
  inferInstanceAs (Decidable (∀ v ∈ t.visitors, v.ended?.isSome))

end Traffic

variable {deadlineMs now : ℕ} {vs : List Visit} {t : Traffic}

/-! ## The history of one visit -/

namespace Visitor

variable {v : Visitor}

/-- **How far a visit has come**: what it has counted belongs to where it stands, and no
end of its call has been passed over. -/
def Sound (deadlineMs now : ℕ) (v : Visitor) : Prop :=
  match v.stage with
  | .ahead => v.counted ++ v.toCount = []
  | .waiting since =>
    v.counted ++ v.toCount = startEvents v.visit.request ∧ since ≤ now ∧
      ∀ w < now - since, v.visit.endBy? deadlineMs w = none
  | .gone ending =>
    v.counted ++ v.toCount = callEvents v.visit.request ending.finish ∧
      ending = (v.visit.outcome deadlineMs).2

theorem visit_turn (v : Visitor) : (v.turn deadlineMs now).1.visit = v.visit := by
  unfold turn
  split
  · rfl
  · split
    · rfl
    · split <;> rfl
    · rfl

/-- What is counted in a turn is added to what the visit has counted. -/
theorem counted_turn (v : Visitor) :
    (v.turn deadlineMs now).1.counted = v.counted ++ (v.turn deadlineMs now).2 := by
  unfold turn
  split
  · rfl
  · split
    · exact (List.append_nil _).symm
    · split <;> exact (List.append_nil _).symm
    · exact (List.append_nil _).symm

/-- **A turn keeps a visit to its own history**, whatever the others do. -/
theorem turn_sound (h : v.Sound deadlineMs now) :
    (v.turn deadlineMs now).1.Sound deadlineMs now := by
  obtain ⟨visit, stage, counted, toCount⟩ := v
  cases toCount with
  | cons e rest =>
    -- one more of the events that were to be counted anyway
    have hmove : counted ++ [e] ++ rest = counted ++ e :: rest := by simp
    cases stage with
    | ahead => simp [Sound] at h
    | waiting since => exact ⟨hmove.trans h.1, h.2⟩
    | gone ending => exact ⟨hmove.trans h.1, h.2⟩
  | nil =>
    cases stage with
    | ahead =>
      obtain rfl : counted = [] := by simpa [Sound] using h
      -- the call starts now, so no moment of it has passed
      have hnever : ∀ w, ¬w < now - now := fun w => by
        rw [Nat.sub_self]
        exact Nat.not_lt_zero w
      exact ⟨rfl, le_rfl, fun w hw => absurd hw (hnever w)⟩
    | waiting since =>
      unfold turn
      simp only
      split
      · exact h
      · rename_i ending hending
        obtain ⟨hcounted, -, hbefore⟩ := h
        have houtcome := Visit.endBy?_first hbefore hending
        simp only [List.append_nil] at hcounted
        refine ⟨?_, houtcome⟩
        simp only [hcounted]
        rfl
    | gone ending => exact h

/-- A visit whose call has not come to an end may wait on. -/
theorem Sound.wait (h : v.Sound deadlineMs now) (hdue : v.isDue deadlineMs now = false) :
    v.Sound deadlineMs (now + 1) := by
  obtain ⟨visit, stage, counted, toCount⟩ := v
  cases stage with
  | ahead => exact h
  | waiting since =>
    obtain ⟨hcounted, hsince, hbefore⟩ := h
    refine ⟨hcounted, Nat.le_succ_of_le hsince, fun w hw => ?_⟩
    have hnow : visit.endBy? deadlineMs (now - since) = none := by
      simpa [isDue] using hdue
    rcases Nat.lt_or_ge w (now - since) with hlt | hge
    · exact hbefore w hlt
    · obtain rfl : w = now - since := by omega
      exact hnow
  | gone ending => exact h

/-- A visit that has ended has ended as it does alone, and has counted what it does alone. -/
theorem Sound.of_ended? {ending : Ending Answer} (h : v.Sound deadlineMs now)
    (he : v.ended? = some ending) :
    ending = (v.visit.outcome deadlineMs).2 ∧ v.counted = v.visit.events deadlineMs := by
  obtain ⟨visit, stage, counted, toCount⟩ := v
  unfold ended? at he
  split at he
  · rename_i ending' hstage htoCount
    obtain rfl := Option.some.inj he
    simp only at hstage htoCount
    subst hstage htoCount
    obtain ⟨hcounted, hending⟩ := h
    simp only [List.append_nil] at hcounted hending
    refine ⟨hending, ?_⟩
    unfold Visit.events
    rw [← hending]
    exact hcounted
  · cases he

end Visitor

/-! ## The history of all visits -/

namespace Traffic

/-- **Each visit keeps to its own history**, and the readings are the sums of what the
visits have counted. -/
structure Sound (deadlineMs : ℕ) (vs : List Visit) (t : Traffic) : Prop where
  visits : t.visitors.map (·.visit) = vs
  visitors : ∀ v ∈ t.visitors, v.Sound deadlineMs t.now
  sums : t.readings.SumOf Visitor.counted t.visitors

theorem start_sound (deadlineMs : ℕ) (vs : List Visit) : (start vs).Sound deadlineMs vs := by
  refine ⟨?_, ?_, ?_⟩
  · simp [start, Function.comp_def]
  · intro v hv
    obtain ⟨visit, -, rfl⟩ := List.mem_map.1 hv
    rfl
  · intro s
    simp [start, Readings.zero, Function.comp_def]

/-- **An event keeps each visit to its own history.** -/
theorem step_sound (h : t.Sound deadlineMs vs) (e : TrafficEvent) :
    (t.step deadlineMs e).Sound deadlineMs vs := by
  cases e with
  | pass =>
    unfold step
    by_cases hdue : t.visitors.any (·.isDue deadlineMs t.now) = true
    · rw [if_pos hdue]; exact h
    · -- time passes only if no call has come to its end, so no end is passed over
      rw [if_neg hdue]
      refine ⟨h.visits, fun v hv => ?_, h.sums⟩
      have hnot : v.isDue deadlineMs t.now = false := by
        simp only [List.any_eq_true, not_exists, not_and, Bool.not_eq_true] at hdue
        exact hdue v hv
      exact (h.visitors v hv).wait hnot
  | turn i =>
    unfold step
    simp only
    split
    · exact h
    · rename_i v hi
      obtain ⟨hlt, rfl⟩ := List.getElem?_eq_some_iff.1 hi
      refine ⟨?_, ?_, ?_⟩
      · simp only [List.map_set, Visitor.visit_turn]
        rw [← h.visits]
        have hvisits : i < (t.visitors.map (·.visit)).length := by rwa [List.length_map]
        have hset := List.set_getElem_self hvisits
        rwa [List.getElem_map] at hset
      · intro v hv
        rcases List.mem_or_eq_of_mem_set hv with hold | rfl
        · exact h.visitors v hold
        · exact Visitor.turn_sound (h.visitors _ (List.getElem_mem hlt))
      · refine h.sums.set hi fun s => ?_
        rw [Visitor.counted_turn, changes_append]

/-- **A run keeps each visit to its own history.** -/
theorem run_sound (h : t.Sound deadlineMs vs) (es : List TrafficEvent) :
    (t.run deadlineMs es).Sound deadlineMs vs := by
  induction es generalizing t with
  | nil => exact h
  | cons e es ih => exact ih (step_sound h e)

end Traffic

/-! ## Coming to an end -/

namespace Visitor

/-- A bound on what is left to do for a visit: the turns that it needs, and the
milliseconds that its call may still take. -/
def work (deadlineMs now : ℕ) (v : Visitor) : ℕ :=
  match v.stage with
  | .ahead => v.toCount.length + deadlineMs + 6
  | .waiting since => v.toCount.length + (deadlineMs - (now - since)) + 4
  | .gone _ => v.toCount.length

/-- Whether there is something to do for a visit without waiting. -/
def isBusy (deadlineMs now : ℕ) (v : Visitor) : Bool :=
  match v.toCount, v.stage with
  | _ :: _, _ => true
  | [], .ahead => true
  | [], _ => v.isDue deadlineMs now

theorem length_startEvents_le (request : EngineRequest) : (startEvents request).length ≤ 1 := by
  cases request <;> simp [startEvents]

theorem length_finishEvents_le (request : EngineRequest) (finish : Finish) :
    (finishEvents request finish).length ≤ 2 := by
  cases request with
  | trades request => simp [finishEvents]
  | order op request => rcases finish with (_ | v) | _ | _ <;> simp [finishEvents]

variable {v : Visitor}

theorem work_turn_lt (h : v.isBusy deadlineMs now = true) :
    (v.turn deadlineMs now).1.work deadlineMs now < v.work deadlineMs now := by
  obtain ⟨visit, stage, counted, toCount⟩ := v
  cases toCount with
  | cons e rest =>
    unfold turn work
    cases stage <;> simp only [List.length_cons] <;> omega
  | nil =>
    cases stage with
    | ahead =>
      have hlength := length_startEvents_le visit.request
      unfold turn work
      simp only [List.length_nil, Nat.sub_self]
      omega
    | waiting since =>
      obtain ⟨ending, hending⟩ := Option.isSome_iff_exists.1 (show Option.isSome _ = true from h)
      have hlength := length_finishEvents_le visit.request ending.finish
      unfold turn work
      simp only [hending, List.length_nil]
      omega
    | gone ending => cases h

/-- Who is neither busy nor at an end waits for the engine, and that not for ever. -/
theorem work_wait (h : v.Sound deadlineMs now) (hbusy : v.isBusy deadlineMs now = false) :
    v.isDue deadlineMs now = false ∧ v.work deadlineMs (now + 1) ≤ v.work deadlineMs now ∧
      (v.ended? = none → v.work deadlineMs (now + 1) < v.work deadlineMs now) := by
  obtain ⟨visit, stage, counted, toCount⟩ := v
  cases toCount with
  | cons e rest => cases stage <;> cases hbusy
  | nil =>
    cases stage with
    | ahead => cases hbusy
    | waiting since =>
      have hnone : visit.endBy? deadlineMs (now - since) = none := by
        simpa [isBusy, isDue] using hbusy
      have hdeadline := Visit.lt_of_endBy?_eq_none hnone
      have hsince : since ≤ now := h.2.1
      have hlt : work deadlineMs (now + 1) ⟨visit, .waiting since, counted, []⟩ <
          work deadlineMs now ⟨visit, .waiting since, counted, []⟩ := by
        unfold work
        simp only
        omega
      exact ⟨hbusy, hlt.le, fun _ => hlt⟩
    | gone ending => exact ⟨rfl, le_rfl, fun hnone => by cases hnone⟩

end Visitor

namespace Traffic

/-- A bound on what is left to do. -/
def work (deadlineMs : ℕ) (t : Traffic) : ℕ :=
  (t.visitors.map (Visitor.work deadlineMs t.now)).sum

theorem sum_set_lt {α : Type} {f : α → ℕ} {xs : List α} {i : ℕ} {x y : α} (hi : xs[i]? = some x)
    (h : f y < f x) : ((xs.set i y).map f).sum < (xs.map f).sum := by
  induction xs generalizing i with
  | nil => cases hi
  | cons z zs ih =>
    cases i with
    | zero =>
      obtain rfl := Option.some.inj hi
      simpa using h
    | succ i =>
      have hrest := ih (i := i) hi
      simpa using hrest

/-- **Unless all have ended, something can be done** that leaves less to do. -/
theorem exists_work_lt (h : t.Sound deadlineMs vs) (hfinished : ¬t.Finished) :
    ∃ e, (t.step deadlineMs e).work deadlineMs < t.work deadlineMs := by
  by_cases hbusy : ∃ v ∈ t.visitors, v.isBusy deadlineMs t.now = true
  · obtain ⟨v, hv, hbusy⟩ := hbusy
    obtain ⟨i, hi⟩ := List.getElem?_of_mem hv
    refine ⟨.turn i, ?_⟩
    unfold work step
    simp only [hi]
    exact sum_set_lt hi (Visitor.work_turn_lt hbusy)
  · -- everyone waits, so a millisecond can pass
    simp only [not_exists, not_and, Bool.not_eq_true] at hbusy
    have hwait := fun v hv => Visitor.work_wait (h.visitors v hv) (hbusy v hv)
    refine ⟨.pass, ?_⟩
    have hdue : ¬t.visitors.any (·.isDue deadlineMs t.now) = true := by
      simp only [List.any_eq_true, not_exists, not_and, Bool.not_eq_true]
      exact fun v hv => (hwait v hv).1
    unfold work step
    simp only [if_neg hdue]
    unfold Finished at hfinished
    simp only [not_forall, Bool.not_eq_true, Option.isSome_eq_false_iff, Option.isNone_iff_eq_none]
      at hfinished
    obtain ⟨v, hv, hnone⟩ := hfinished
    exact List.sum_lt_sum _ _ (fun v hv => (hwait v hv).2.1) ⟨v, hv, (hwait v hv).2.2 hnone⟩

/-- **Whatever has happened, all visits can still come to their ends.** -/
theorem exists_run_finished (h : t.Sound deadlineMs vs) : ∃ es, (t.run deadlineMs es).Finished := by
  induction hwork : t.work deadlineMs using Nat.strong_induction_on generalizing t with
  | _ n ih =>
    by_cases hfinished : t.Finished
    · exact ⟨[], hfinished⟩
    · obtain ⟨e, hlt⟩ := exists_work_lt h hfinished
      obtain ⟨es, hes⟩ := ih _ (hwork ▸ hlt) (step_sound h e) rfl
      exact ⟨e :: es, hes⟩

/-! ## Undisturbed visits -/

/-- **Visits that have all ended are undisturbed.** -/
theorem Sound.undisturbed (h : t.Sound deadlineMs vs) (hfinished : t.Finished) :
    Visit.Undisturbed deadlineMs vs t.endings t.readings := by
  have hended : ∀ v ∈ t.visitors, v.ended? = some (v.visit.outcome deadlineMs).2 ∧
      v.counted = v.visit.events deadlineMs := by
    intro v hv
    obtain ⟨ending, hending⟩ := Option.isSome_iff_exists.1 (hfinished v hv)
    obtain ⟨rfl, hcounted⟩ := (h.visitors v hv).of_ended? hending
    exact ⟨hending, hcounted⟩
  refine Visit.undisturbed_of ?_ fun s => ?_
  · unfold endings
    rw [List.filterMap_congr fun v hv => (hended v hv).1, ← h.visits, List.map_map,
      List.filterMap_eq_map']
    rfl
  · rw [h.sums s, ← h.visits, List.map_map]
    refine congrArg List.sum (List.map_congr_left fun v hv => ?_)
    rw [(hended v hv).2]
    rfl

/-- **Overlapping visits do not disturb each other.**

* However the steps of the visits are interleaved, a visit that has ended has ended as it
  does alone; once all have ended, the readings are the sums of the readings that each
  leaves alone; and at every point all can still come to their ends.
* The same holds of visits that start together and of visits that come one after another.
* So neither the interleaving nor the order of the visits makes a difference to what each
  comes to, or to the readings that they leave. -/
theorem visits_undisturbed (deadlineMs : ℕ) (vs : List Visit) :
    (∀ es, let t := (start vs).run deadlineMs es
      t.visitors.map (·.visit) = vs ∧
        (∀ v ∈ t.visitors, ∀ ending, v.ended? = some ending →
          (v.visit.alone deadlineMs).1 = [ending]) ∧
        (t.Finished → Visit.Undisturbed deadlineMs vs t.endings t.readings) ∧
        ∃ more, (t.run deadlineMs more).Finished) ∧
      Visit.Undisturbed deadlineMs vs (Visit.together deadlineMs .start vs).1
        (Visit.together deadlineMs .start vs).2.readings ∧
      Visit.Undisturbed deadlineMs vs (Visit.inTurn deadlineMs .start vs).1
        (Visit.inTurn deadlineMs .start vs).2.readings ∧
      ∀ vs' endings endings' readings readings', vs.Perm vs' →
        Visit.Undisturbed deadlineMs vs endings readings →
        Visit.Undisturbed deadlineMs vs' endings' readings' →
          (vs.zip endings).Perm (vs'.zip endings') ∧ readings = readings' := by
  refine ⟨fun es => ?_, Visit.together_undisturbed deadlineMs vs,
    Visit.inTurn_undisturbed deadlineMs vs, ?_⟩
  · have hsound := run_sound (start_sound deadlineMs vs) es
    refine ⟨hsound.visits, fun v hv ending hending => ?_, hsound.undisturbed,
      exists_run_finished hsound⟩
    rw [Visit.endings_alone, ((hsound.visitors v hv).of_ended? hending).1]
  · intro vs' endings endings' readings readings' hperm h h'
    exact h.of_perm h' hperm

/-- An engine that has nothing to show after so many milliseconds. -/
def emptyEngine (delay : ℕ) : Engine where
  order op _ _ := ⟨some delay, match op with
    | .submitOrder => .ok ⟨"1", "ACCEPTED", ""⟩
    | .getOrderBook => .ok ⟨[], []⟩
    | .cancelOrder => .ok ⟨"NOT_FOUND", ""⟩
    | .modifyOrder => .ok ⟨"NOT_FOUND", ""⟩⟩
  trades _ _ := ⟨some delay, .ok ⟨[], true⟩⟩

/-- Asks for an order book, and waits for it. -/
def bookVisit : Visit := ⟨"a", .order .getOrderBook ⟨"A"⟩, emptyEngine 3, none, none⟩

/-- Cancels an order, and leaves before the engine has answered. -/
def hastyVisit : Visit := ⟨"b", .order .cancelOrder ⟨"1", "c"⟩, emptyEngine 2, some 1, none⟩

/-- The steps of two visits, one inside the other. -/
def overlapping : List TrafficEvent :=
  [.turn 0, .turn 1, .turn 1, .pass, .turn 1, .turn 0, .pass, .turn 1, .pass, .turn 0, .turn 0]

/-- Someone who leaves early does not disturb someone who waits. -/
theorem visits_undisturbed_overlapping :
    let t := (start [bookVisit, hastyVisit]).run 5 overlapping
    let x := Visit.together 5 .start [hastyVisit, bookVisit]
    t.Finished ∧ Visit.Undisturbed 5 [bookVisit, hastyVisit] t.endings t.readings ∧
      ([bookVisit, hastyVisit].zip t.endings).Perm ([hastyVisit, bookVisit].zip x.1) ∧
        t.readings = x.2.readings := by
  have hfinished : ((start [bookVisit, hastyVisit]).run 5 overlapping).Finished := by decide
  obtain ⟨hruns, -, -, hperm⟩ := visits_undisturbed 5 [bookVisit, hastyVisit]
  have hundisturbed := (hruns overlapping).2.2.1 hfinished
  have htogether := (visits_undisturbed 5 [hastyVisit, bookVisit]).2.1
  exact ⟨hfinished, hundisturbed, hperm _ _ _ _ _ (.swap _ _ _) hundisturbed htogether⟩

end Traffic

end OrderRelay
