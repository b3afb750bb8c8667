import Mathlib.Data.List.Induction
import Mathlib.Data.List.Nodup
import Mathlib.Tactic.Common
import OrderRelay.Proofs.Meter.Sums

/-!
# What a sequence of measurements leaves in the series

Who measures counts attempts, outcomes and failures, and is handed timers and
guards that end later, in any order. A timer that is stopped is ended a second
time when it is thrown away, so that most timers end more than once.

* `Measurement`, `Meter.measureAll`: what can be measured, and the meter after a
  sequence of it.
* `fates`: the timers or guards that a sequence hands out, each with whether the
  sequence ends it. `fates_concat` is what one more measurement does to them.
* `aimedAt`: how many measurements of a sequence are aimed at a series.
* `Meter.Tracks`: the meter is what the sequence says. One more measurement keeps
  it (`Tracks.measure`), and so every sequence leads to it (`tracks_measureAll`).
* `under_name_measureAll`: **each series, looked up under its name, is the number
  of measurements aimed at it**, and no measurement changes a series of another
  operation.
-/

namespace OrderRelay

/-- What is measured at one time. Timers and guards go by the order in which they
have been handed out. -/
inductive Measurement where
  | attempt (op : Operation)
  | outcome (op : Operation) (v : Verdict)
  | failure (op : Operation)
  | startTimer (op : Operation)
  /-- A timer is asked for the time it has taken, and is thrown away. -/
  | stopTimer (i : ℕ)
  /-- A timer is thrown away. -/
  | dropTimer (i : ℕ)
  | takeGuard
  | dropGuard (i : ℕ)
  | update
  deriving DecidableEq, Repr

namespace Measurement

/-- What a meter does for a measurement. A timer that is stopped ends at once, and
ends again as it is thrown away. -/
def steps : Measurement → List MeterStep
  | .attempt op => [.event (.attempt op)]
  | .outcome op v => [.event (.outcome op v)]
  | .failure op => [.event (.failure op)]
  | .startTimer op => [.startTimer op]
  | .stopTimer i => [.endTimer i, .endTimer i]
  | .dropTimer i => [.endTimer i]
  | .takeGuard => [.takeGuard]
  | .dropGuard i => [.dropGuard i]
  | .update => [.event .update]

/-- The operation whose timer is started. -/
def started? : Measurement → Option Operation
  | .startTimer op => some op
  | _ => none

/-- Whether a timer ends. -/
def endsTimer (i : ℕ) : Measurement → Bool
  | .stopTimer j | .dropTimer j => j == i
  | _ => false

/-- Whether a guard is taken. -/
def taken? : Measurement → Option Unit
  | .takeGuard => some ()
  | _ => none

/-- Whether a guard is given back. -/
def endsGuard (i : ℕ) : Measurement → Bool
  | .dropGuard j => j == i
  | _ => false

end Measurement

/-- The meter after one more measurement. -/
def Meter.measure (m : Meter) (u : Measurement) : Meter := m.run u.steps

/-- The meter after more measurements. -/
def Meter.measureAll (m : Meter) (us : List Measurement) : Meter := us.foldl measure m

theorem Meter.measureAll_concat (m : Meter) (us : List Measurement) (u : Measurement) :
    m.measureAll (us ++ [u]) = (m.measureAll us).measure u := by
  simp only [measureAll, List.foldl_append, List.foldl_cons, List.foldl_nil]

/-! ## What becomes of timers and guards -/

section Fates

variable {β : Type} (begins : Measurement → Option β) (ends : ℕ → Measurement → Bool)

/-- What a sequence of measurements hands out, from the `n`-th on, each with
whether the sequence ends it later. -/
def fates : ℕ → List Measurement → List (β × Bool)
  | _, [] => []
  | n, u :: us =>
    match begins u with
    | some b => (b, us.any (ends n)) :: fates (n + 1) us
    | none => fates n us

/-- One more measurement ends what it ends, and hands out what it hands out. -/
theorem fates_concat (n : ℕ) (us : List Measurement) (u : Measurement) :
    fates begins ends n (us ++ [u]) =
      (fates begins ends n us).mapIdx (fun i x => (x.1, x.2 || ends (n + i) u))
        ++ (begins u).toList.map (·, false) := by
  induction us generalizing n with
  | nil =>
    simp only [List.nil_append, fates, List.mapIdx_nil]
    cases begins u <;> rfl
  | cons x us ih =>
    simp only [List.cons_append, fates]
    cases begins x with
    | none => exact ih n
    | some b =>
      simp only [ih, List.any_append, List.any_cons, List.any_nil, Bool.or_false,
        List.mapIdx_cons, Nat.add_zero, List.cons_append, List.cons.injEq, true_and]
      congr 2
      funext i x
      rw [Nat.add_right_comm, Nat.add_assoc]

end Fates

/-- The timers that a sequence starts, each with whether the sequence ends it. -/
def timersOf (us : List Measurement) : List (Operation × Bool) :=
  fates Measurement.started? Measurement.endsTimer 0 us

/-- The guards that a sequence takes, each with whether the sequence gives it back. -/
def guardsOf (us : List Measurement) : List (Unit × Bool) :=
  fates Measurement.taken? Measurement.endsGuard 0 us

/-- One of several has ended. -/
def ended {β : Type} (i : ℕ) (xs : List (β × Bool)) : List (β × Bool) :=
  xs.modify i fun x => (x.1, true)

theorem mapIdx_ended {β : Type} (i : ℕ) (xs : List (β × Bool)) :
    xs.mapIdx (fun j x => (x.1, x.2 || i == j)) = ended i xs := by
  apply List.ext_getElem?
  intro j
  rw [List.getElem?_mapIdx, ended, List.getElem?_modify]
  by_cases h : i = j
  · simp [h]
  · have hne : (i == j) = false := by simpa using h
    simp [h, hne]

theorem mapIdx_kept {β : Type} (xs : List β) : xs.mapIdx (fun _ x => x) = xs := by
  apply List.ext_getElem?
  intro j
  rw [List.getElem?_mapIdx, Option.map_id']

theorem timersOf_concat (us : List Measurement) (u : Measurement) :
    timersOf (us ++ [u]) =
      match u with
      | .startTimer op => timersOf us ++ [(op, false)]
      | .stopTimer i | .dropTimer i => ended i (timersOf us)
      | _ => timersOf us := by
  rw [timersOf, fates_concat]
  cases u with
  | startTimer op => simp [timersOf, Measurement.started?, Measurement.endsTimer, mapIdx_kept]
  | stopTimer i => simp [timersOf, Measurement.started?, Measurement.endsTimer, mapIdx_ended]
  | dropTimer i => simp [timersOf, Measurement.started?, Measurement.endsTimer, mapIdx_ended]
  | _ => simp [timersOf, Measurement.started?, Measurement.endsTimer, mapIdx_kept]

theorem guardsOf_concat (us : List Measurement) (u : Measurement) :
    guardsOf (us ++ [u]) =
      match u with
      | .takeGuard => guardsOf us ++ [((), false)]
      | .dropGuard i => ended i (guardsOf us)
      | _ => guardsOf us := by
  rw [guardsOf, fates_concat]
  cases u with
  | takeGuard => simp [guardsOf, Measurement.taken?, Measurement.endsGuard, mapIdx_kept]
  | dropGuard i => simp [guardsOf, Measurement.taken?, Measurement.endsGuard, mapIdx_ended]
  | _ => simp [guardsOf, Measurement.taken?, Measurement.endsGuard, mapIdx_kept]

/-- What is ended moves from those that go on to those that have ended, unless it is one of these
already. -/
theorem count_ended {β : Type} [DecidableEq β] (i : ℕ) (xs : List (β × Bool)) (b : β) :
    let moved := if xs[i]? = some (b, false) then 1 else 0
    (ended i xs).count (b, true) = xs.count (b, true) + moved ∧
      (ended i xs).count (b, false) + moved = xs.count (b, false) := by
  induction xs generalizing i with
  | nil => simp [ended]
  | cons x xs ih =>
    obtain ⟨c, e⟩ := x
    cases i with
    | zero => by_cases hc : c = b <;> cases e <;> simp [ended, hc]
    | succ i =>
      obtain ⟨hended, hgoing⟩ := ih i
      simp only [ended, List.modify_succ_cons, List.count_cons, List.getElem?_cons_succ]
        at hended hgoing ⊢
      omega

/-! ## How many measurements are aimed at a series -/

/-- The samples of an operation: its timers that have ended, each once. -/
def samplesOf (us : List Measurement) (op : Operation) : ℕ := (timersOf us).count (op, true)

/-- The guards that are taken and not given back. -/
def guardsHeld (us : List Measurement) : ℕ := (guardsOf us).count ((), false)

/-- How many of a sequence of measurements are aimed at a series. -/
def aimedAt (us : List Measurement) : Series → ℕ
  | .submitRequests => us.count (.attempt .submitOrder)
  | .submitAccepted => us.count (.outcome .submitOrder .accepted)
  | .submitRejected => us.count (.outcome .submitOrder .rejected)
  | .submitFailures => us.count (.failure .submitOrder)
  | .submitLatency => samplesOf us .submitOrder
  | .bookFailures => us.count (.failure .getOrderBook)
  | .bookLatency => samplesOf us .getOrderBook
  | .cancelRequests => us.count (.attempt .cancelOrder)
  | .cancelErrors => us.count (.outcome .cancelOrder .rejected)
  | .cancelFailures => us.count (.failure .cancelOrder)
  | .cancelLatency => samplesOf us .cancelOrder
  | .modifyRequests => us.count (.attempt .modifyOrder)
  | .modifyErrors => us.count (.outcome .modifyOrder .rejected)
  | .modifyFailures => us.count (.failure .modifyOrder)
  | .modifyLatency => samplesOf us .modifyOrder
  | .activeSubscriptions => guardsHeld us
  | .tradeUpdates => us.count .update

/-- The operation that a series belongs to, if it is not one of the trades. -/
def Series.operation? : Series → Option Operation
  | .submitRequests | .submitAccepted | .submitRejected | .submitFailures | .submitLatency =>
    some .submitOrder
  | .bookFailures | .bookLatency => some .getOrderBook
  | .cancelRequests | .cancelErrors | .cancelFailures | .cancelLatency => some .cancelOrder
  | .modifyRequests | .modifyErrors | .modifyFailures | .modifyLatency => some .modifyOrder
  | .activeSubscriptions | .tradeUpdates => none

/-- The operation that a measurement is about, if it is not about the trades. That
of a timer is the one it has been started for. -/
def Measurement.operation? (us : List Measurement) : Measurement → Option Operation
  | .attempt op | .outcome op _ | .failure op | .startTimer op => some op
  | .stopTimer i | .dropTimer i => (timersOf us)[i]?.map (·.1)
  | .takeGuard | .dropGuard _ | .update => none

/-! ## What one more measurement counts -/

/-- What the end of a timer counts. -/
def timerEnd (xs : List (Operation × Bool)) (i : ℕ) : List MeterEvent :=
  match xs[i]? with
  | some (op, false) => [.sample op]
  | _ => []

/-- What the end of a guard counts. -/
def guardEnd (xs : List (Unit × Bool)) (i : ℕ) : List MeterEvent :=
  match xs[i]? with
  | some ((), false) => [.closed]
  | _ => []

/-- What a measurement counts after a sequence of others. -/
def Measurement.events (us : List Measurement) : Measurement → List MeterEvent
  | .attempt op => [.attempt op]
  | .outcome op v => [.outcome op v]
  | .failure op => [.failure op]
  | .startTimer _ => []
  | .stopTimer i | .dropTimer i => timerEnd (timersOf us) i
  | .takeGuard => [.opened]
  | .dropGuard i => guardEnd (guardsOf us) i
  | .update => [.update]

theorem mem_timerEnd {xs : List (Operation × Bool)} {i : ℕ} {e : MeterEvent}
    (h : e ∈ timerEnd xs i) : ∃ op, xs[i]? = some (op, false) ∧ e = .sample op := by
  unfold timerEnd at h
  split at h
  · rename_i op hop
    exact ⟨op, hop, List.mem_singleton.1 h⟩
  · cases h

theorem mem_guardEnd {xs : List (Unit × Bool)} {i : ℕ} {e : MeterEvent}
    (h : e ∈ guardEnd xs i) : e = .closed := by
  unfold guardEnd at h
  split at h
  · exact List.mem_singleton.1 h
  · cases h

theorem count_timerEnd (xs : List (Operation × Bool)) (i : ℕ) (op : Operation) :
    (timerEnd xs i).count (.sample op) = if xs[i]? = some (op, false) then 1 else 0 := by
  unfold timerEnd
  split
  · rename_i op' h
    simp only [h, Option.some.injEq, Prod.mk.injEq, and_true, List.count_singleton, beq_iff_eq,
      MeterEvent.sample.injEq]
  · rename_i h
    rw [if_neg (fun h' => h op h')]
    rfl

theorem changes_guardEnd (xs : List (Unit × Bool)) (i : ℕ) :
    changes (guardEnd xs i) .activeSubscriptions = -if xs[i]? = some ((), false) then 1 else 0 := by
  unfold guardEnd
  split
  · rename_i h
    rw [if_pos h]
    rfl
  · rename_i h
    rw [if_neg h]
    rfl

variable (us : List Measurement) (u : Measurement)

/-- A measurement that is an event counts whenever it is taken. -/
theorem count_concat {v : Measurement} {e : MeterEvent} (hv : v.steps = [.event e]) :
    (us ++ [u]).count v = us.count v + (u.events us).count e := by
  have hevents : (u.events us).count e = if u = v then 1 else 0 := by
    -- the ends of timers and guards are no events that are counted by themselves
    have htimer (i : ℕ) : (timerEnd (timersOf us) i).count e = 0 := by
      apply List.count_eq_zero.2
      intro he
      obtain ⟨op, -, rfl⟩ := mem_timerEnd he
      cases v <;> cases hv
    have hguard (i : ℕ) : (guardEnd (guardsOf us) i).count e = 0 := by
      apply List.count_eq_zero.2
      intro he
      obtain rfl := mem_guardEnd he
      cases v <;> cases hv
    cases v <;> cases hv <;>
      cases u <;> simp [Measurement.events, List.count_singleton, htimer, hguard]
  rw [List.count_append, List.count_singleton, hevents]
  simp only [beq_iff_eq]

/-- A sample is taken when a timer ends that has not ended before. -/
theorem samplesOf_concat (op : Operation) :
    samplesOf (us ++ [u]) op = samplesOf us op + (u.events us).count (.sample op) := by
  unfold samplesOf
  rw [timersOf_concat]
  cases u with
  | stopTimer i => rw [Measurement.events, count_timerEnd, (count_ended i _ _).1]
  | dropTimer i => rw [Measurement.events, count_timerEnd, (count_ended i _ _).1]
  | dropGuard i =>
    have hno : (guardEnd (guardsOf us) i).count (.sample op) = 0 := by
      apply List.count_eq_zero.2
      intro he
      cases mem_guardEnd he
    rw [Measurement.events, hno, Nat.add_zero]
  | startTimer op' => simp [Measurement.events]
  | _ => simp [Measurement.events]

/-- Only subscriptions that begin or are over are aimed at the gauge. -/
theorem changes_active_eq_zero {es : List MeterEvent} (h : ∀ e ∈ es, e ≠ .opened ∧ e ≠ .closed) :
    changes es .activeSubscriptions = 0 := by
  apply changes_eq_zero
  intro e he haimed
  obtain ⟨hopened, hclosed⟩ := h e he
  cases e with
  | attempt op => cases op <;> cases haimed
  | outcome op v => cases op <;> cases v <;> cases haimed
  | failure op => cases op <;> cases haimed
  | sample op => cases op <;> cases haimed
  | opened => exact hopened rfl
  | closed => exact hclosed rfl
  | update => cases haimed

/-- A guard is held from when it is taken until it is given back for the first
time. -/
theorem guardsHeld_concat :
    (guardsHeld (us ++ [u]) : ℤ) =
      guardsHeld us + changes (u.events us) .activeSubscriptions := by
  have htimer (i : ℕ) : changes (timerEnd (timersOf us) i) .activeSubscriptions = 0 := by
    apply changes_active_eq_zero
    intro e he
    obtain ⟨op, -, rfl⟩ := mem_timerEnd he
    exact ⟨nofun, nofun⟩
  have hevent (e : MeterEvent) (he : e ≠ .opened ∧ e ≠ .closed) :
      changes [e] .activeSubscriptions = 0 := by
    apply changes_active_eq_zero
    intro e' he'
    rwa [List.mem_singleton.1 he']
  unfold guardsHeld
  rw [guardsOf_concat]
  cases u with
  | attempt op => rw [Measurement.events, hevent (.attempt op) ⟨nofun, nofun⟩, add_zero]
  | outcome op v => rw [Measurement.events, hevent (.outcome op v) ⟨nofun, nofun⟩, add_zero]
  | failure op => rw [Measurement.events, hevent (.failure op) ⟨nofun, nofun⟩, add_zero]
  | update => rw [Measurement.events, hevent (.update) ⟨nofun, nofun⟩, add_zero]
  | startTimer op => rw [Measurement.events, changes_nil, add_zero]
  | stopTimer i => rw [Measurement.events, htimer, add_zero]
  | dropTimer i => rw [Measurement.events, htimer, add_zero]
  | takeGuard =>
    have hone : changes [MeterEvent.opened] .activeSubscriptions = 1 := rfl
    simp [Measurement.events, hone]
  | dropGuard i =>
    have hgoing := (count_ended i (guardsOf us) ()).2
    simp only [Measurement.events, changes_guardEnd]
    split_ifs at hgoing ⊢ <;> omega

/-- **What is aimed at a series** grows by what one more measurement counts. -/
theorem aimedAt_concat (s : Series) :
    (aimedAt (us ++ [u]) s : ℤ) = aimedAt us s + changes (u.events us) s := by
  by_cases hs : s = .activeSubscriptions
  · rw [hs]
    exact guardsHeld_concat us u
  · rw [changes_eq_count _ hs, ← Nat.cast_add, Nat.cast_inj]
    cases s with
    | activeSubscriptions => exact absurd rfl hs
    | submitLatency => exact samplesOf_concat us u .submitOrder
    | bookLatency => exact samplesOf_concat us u .getOrderBook
    | cancelLatency => exact samplesOf_concat us u .cancelOrder
    | modifyLatency => exact samplesOf_concat us u .modifyOrder
    | _ => exact count_concat us u rfl

/-! ## The meter -/

/-- The timers as the meter holds them: with their operation until they end. -/
def running (xs : List (Operation × Bool)) : List (Option Operation) :=
  xs.map fun x => if x.2 then none else some x.1

/-- The guards as the meter holds them: whether they are still to be given back. -/
def held (xs : List (Unit × Bool)) : List Bool := xs.map fun x => !x.2

theorem map_ended {β γ : Type} {f : β × Bool → γ} {c : γ} (hf : ∀ b, f (b, true) = c)
    (xs : List (β × Bool)) (i : ℕ) : (ended i xs).map f = (xs.map f).set i c := by
  induction xs generalizing i with
  | nil => simp [ended]
  | cons x xs ih =>
    cases i with
    | zero => simp [ended, hf]
    | succ i =>
      have := ih i
      simpa only [ended, List.modify_succ_cons, List.map_cons, List.set_cons_succ,
        List.cons.injEq, true_and] using this

/-- What has ended stays as it is. -/
theorem ended_ended {β : Type} (i : ℕ) (xs : List (β × Bool)) :
    ended i (ended i xs) = ended i xs := by
  apply List.ext_getElem?
  intro j
  simp only [ended, List.getElem?_modify]
  cases xs[j]? with
  | none => rfl
  | some x => by_cases h : i = j <;> simp [h]

/-- A timer that has ended counts nothing when it ends again. -/
theorem timerEnd_ended (xs : List (Operation × Bool)) (i : ℕ) : timerEnd (ended i xs) i = [] := by
  unfold timerEnd
  split
  · rename_i op h
    rw [ended, List.getElem?_modify_eq] at h
    cases hx : xs[i]? with
    | none =>
      rw [hx] at h
      cases h
    | some x =>
      rw [hx] at h
      cases h
  · rfl

/-- What has been set already stays as it is. -/
theorem set_eq_self {γ : Type} {xs : List γ} {i : ℕ} {c : γ} (h : ∀ x, xs[i]? = some x → x = c) :
    xs.set i c = xs := by
  apply List.ext_getElem?
  intro j
  rw [List.getElem?_set]
  by_cases hij : i = j
  · subst hij
    cases hx : xs[i]? with
    | none => simpa using hx
    | some x =>
      obtain ⟨hlt, -⟩ := List.getElem?_eq_some_iff.1 hx
      rw [if_pos rfl, if_pos hlt, h x hx]
  · rw [if_neg hij]

/-- **A timer ends**: it gives its sample if it has not ended before. -/
theorem Meter.step_endTimer {m : Meter} {xs : List (Operation × Bool)}
    (h : m.timers = running xs) (i : ℕ) :
    m.step (.endTimer i) =
      ⟨m.readings.recordAll (timerEnd xs i), running (ended i xs), m.guards⟩ := by
  have hset : running (ended i xs) = m.timers.set i none := by
    rw [h]
    exact map_ended (fun _ => rfl) xs i
  have hget : m.timers[i]? = xs[i]?.map fun x => if x.2 then none else some x.1 := by
    rw [h, running, List.getElem?_map]
  rw [hset, step, timerEnd]
  rcases hx : xs[i]? with _ | ⟨op, _ | _⟩ <;> rw [hx] at hget <;> simp only [hget]
  · rw [set_eq_self]
    · rfl
    · simp [hget]
  · rfl
  · rw [set_eq_self]
    · rfl
    · simp [hget]

/-- **A guard is given back.** -/
theorem Meter.step_dropGuard {m : Meter} {xs : List (Unit × Bool)}
    (h : m.guards = held xs) (i : ℕ) :
    m.step (.dropGuard i) =
      ⟨m.readings.recordAll (guardEnd xs i), m.timers, held (ended i xs)⟩ := by
  have hset : held (ended i xs) = m.guards.set i false := by
    rw [h]
    exact map_ended (fun _ => rfl) xs i
  have hget : m.guards[i]? = xs[i]?.map fun x => !x.2 := by
    rw [h, held, List.getElem?_map]
  rw [hset, step, guardEnd]
  rcases hx : xs[i]? with _ | ⟨⟨⟩, _ | _⟩ <;> rw [hx] at hget <;> simp only [hget]
  · rw [set_eq_self]
    · rfl
    · simp [hget]
  · rfl
  · rw [set_eq_self]
    · rfl
    · simp [hget]

/-- **The meter is what a sequence of measurements says.** -/
structure Meter.Tracks (m : Meter) (us : List Measurement) : Prop where
  timers : m.timers = running (timersOf us)
  guards : m.guards = held (guardsOf us)
  value : ∀ s, m.readings.value s = aimedAt us s

variable {us}

/-- What one more measurement does to the meter. -/
theorem Meter.Tracks.measure_eq {m : Meter} (h : m.Tracks us) (u : Measurement) :
    m.measure u =
      ⟨m.readings.recordAll (u.events us), running (timersOf (us ++ [u])),
        held (guardsOf (us ++ [u]))⟩ := by
  have htimer := fun i => step_endTimer h.timers i
  have hguard := fun i => step_dropGuard h.guards i
  obtain ⟨r, ts, gs⟩ := m
  obtain ⟨rfl, rfl, -⟩ := h
  rw [timersOf_concat, guardsOf_concat, Meter.measure]
  cases u with
  | startTimer op =>
    simp [Measurement.steps, Measurement.events, run, step, Readings.recordAll, running]
  | stopTimer i =>
    simp only [Measurement.steps, run, List.foldl_cons, List.foldl_nil, htimer]
    -- the second end of the timer finds that it has ended
    rw [step_endTimer rfl, timerEnd_ended, ended_ended]
    rfl
  | dropTimer i => exact htimer i
  | takeGuard => simp [Measurement.steps, Measurement.events, run, step, Readings.recordAll, held]
  | dropGuard i => exact hguard i
  | _ => rfl

/-- **One more measurement keeps it.** -/
theorem Meter.Tracks.measure {m : Meter} (h : m.Tracks us) (u : Measurement) :
    (m.measure u).Tracks (us ++ [u]) := by
  rw [h.measure_eq u]
  refine ⟨rfl, rfl, fun s => ?_⟩
  rw [Readings.value_recordAll, h.value s, aimedAt_concat]

/-- **Every sequence of measurements is tracked.** -/
theorem Meter.tracks_measureAll (us : List Measurement) : (start.measureAll us).Tracks us := by
  induction us using List.reverseRecOn with
  | nil => exact ⟨rfl, rfl, fun s => by cases s <;> rfl⟩
  | append_singleton us u ih =>
    rw [measureAll_concat]
    exact ih.measure u

/-! ## Series by their names -/

/-- What is recorded under a name. -/
def Readings.under (r : Readings) (name : String) : ℤ :=
  ((Series.all.filter fun s => s.name = name).map r.value).sum

theorem Series.name_injective : Function.Injective name := by
  have hnodup : (Series.all.map name).Nodup := by decide
  intro s t h
  exact List.inj_on_of_nodup_map hnodup (Series.mem_all s) (Series.mem_all t) h

/-- No name is given to two series. -/
theorem Readings.under_name (r : Readings) (s : Series) : r.under s.name = r.value s := by
  have hone : (Series.all.filter fun t => t.name = s.name) = [s] := by
    have hfilter : (Series.all.filter fun t => t.name = s.name) = Series.all.filter (· == s) := by
      apply List.filter_congr
      intro t _
      by_cases h : t = s
      · simp [h]
      · have hn : t.name ≠ s.name := fun hn => h (Series.name_injective hn)
        simp [h, hn]
    rw [hfilter, List.filter_beq, List.count_eq_one_of_mem Series.nodup_all (Series.mem_all s),
      List.replicate_one]
  rw [under, hone, List.map_singleton, List.sum_singleton]

/-! ## What a measurement leaves alone -/

theorem Series.operation?_of_aimed {e : MeterEvent} {s : Series} (h : e.series? = some s) :
    s.operation? =
      match e with
      | .attempt op | .outcome op _ | .failure op | .sample op => some op
      | .opened | .closed | .update => none := by
  cases e with
  | attempt op => cases op <;> cases h <;> rfl
  | outcome op v => cases op <;> cases v <;> cases h <;> rfl
  | failure op => cases op <;> cases h <;> rfl
  | sample op => cases op <;> cases h <;> rfl
  | _ => cases h; rfl

/-- **A measurement changes no series of another operation.** -/
theorem changes_eq_zero_of_ne {u : Measurement} {s : Series} (h : s.operation? ≠ u.operation? us) :
    changes (u.events us) s = 0 := by
  apply changes_eq_zero
  intro e he hes
  have hop := Series.operation?_of_aimed hes
  apply h
  rw [hop]
  cases u with
  | startTimer op => cases he
  | stopTimer i =>
    obtain ⟨op, hi, rfl⟩ := mem_timerEnd he
    simp [Measurement.operation?, hi]
  | dropTimer i =>
    obtain ⟨op, hi, rfl⟩ := mem_timerEnd he
    simp [Measurement.operation?, hi]
  | dropGuard i =>
    obtain rfl := mem_guardEnd he
    rfl
  | _ =>
    obtain rfl := List.mem_singleton.1 he
    rfl

/-- **Each series, looked up under its name, is the number of measurements aimed
at it**: of the timers those that have been stopped or dropped, once each, and of
the guards those that are taken and not given back. No measurement changes a
series of another operation. -/
theorem under_name_measureAll (us : List Measurement) :
    (∀ s, (Meter.start.measureAll us).readings.under s.name = aimedAt us s) ∧
      ∀ (u : Measurement) (s : Series), s.operation? ≠ u.operation? us →
        (Meter.start.measureAll (us ++ [u])).readings.under s.name =
          (Meter.start.measureAll us).readings.under s.name := by
  constructor
  · intro s
    rw [Readings.under_name]
    exact (Meter.tracks_measureAll us).value s
  · intro u s h
    rw [Readings.under_name, Readings.under_name, (Meter.tracks_measureAll _).value s,
      (Meter.tracks_measureAll us).value s, aimedAt_concat, changes_eq_zero_of_ne h, add_zero]

/-- Two timers that end in the other order, one of them three times, and a guard
that is given back twice. -/
theorem under_name_measureAll_mixed :
    let us : List Measurement :=
      [.startTimer .submitOrder, .takeGuard, .startTimer .cancelOrder, .attempt .getOrderBook,
        .stopTimer 1, .takeGuard, .outcome .modifyOrder .rejected, .dropTimer 1, .dropGuard 0,
        .dropTimer 0, .dropGuard 0, .update]
    (Meter.start.measureAll us).readings.under "order_gateway_cancel_order_duration_seconds" = 1 ∧
      (Meter.start.measureAll us).readings.under "order_gateway_trade_subscriptions_active" = 1 ∧
      (Meter.start.measureAll (us ++ [.dropTimer 0])).readings.under
          "order_gateway_cancel_order_duration_seconds" =
        (Meter.start.measureAll us).readings.under
          "order_gateway_cancel_order_duration_seconds" := by
  intro us
  refine ⟨?_, ?_, ?_⟩
  · exact ((under_name_measureAll us).1 .cancelLatency).trans (by decide)
  · exact ((under_name_measureAll us).1 .activeSubscriptions).trans (by decide)
  · exact (under_name_measureAll us).2 (.dropTimer 0) .cancelLatency (by decide)

end OrderRelay
