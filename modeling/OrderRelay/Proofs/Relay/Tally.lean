import OrderRelay.Proofs.Meter.Sums
import OrderRelay.Relay.Ledger

/-!
# The readings account for every call

Any number of calls start and end in any order. The calls of a ledger are the
history of such a run: what was asked, and how the call has ended if it has.

* `MadeCall.counted`: what a call has counted so far, read off its own history.
* `run_sumOf`: at every point of a run the readings are the sums of what the calls
  have counted.
* `run_call`: the calls are those that the events start, and end as the events say.
* `Ledger.Accounts`: the readings of an operation as numbers of calls.
* `run_accounts`: **at every point of every run the readings account for every
  call**: each call of an operation is counted once when it starts, and once as
  accepted, rejected or failed, unless its caller has left or still waits.
-/

namespace OrderRelay

/-- The status that an answer carries, if answers to the operation carry one. -/
def Operation.status? : (op : Operation) → op.Response → Option String
  | .submitOrder, r => some r.status
  | .getOrderBook, _ => none
  | .cancelOrder, r => some r.status
  | .modifyOrder, r => some r.status

/-- The verdict on an answer compares its status with the status of success. -/
theorem Operation.verdict?_eq {op : Operation} {token : String} (h : op.token? = some token)
    (r : op.Response) : op.verdict? r = (op.status? r).map (.ofStatus token) := by
  cases op <;> cases h <;> rfl

/-- What a call counts when it ends, event by event. -/
theorem count_finishEvents (request : EngineRequest) (f : Finish) (op : Operation) :
    (finishEvents request f).count (.attempt op) = 0 ∧
      (finishEvents request f).count (.sample op) = (if request.operation? = some op then 1 else 0) ∧
      (finishEvents request f).count (.failure op) =
        (if request.operation? = some op ∧ f = .failed then 1 else 0) ∧
      ∀ v, (finishEvents request f).count (.outcome op v) =
        if request.operation? = some op ∧ f = .answered (some v) then 1 else 0 := by
  cases request with
  | trades request => simp [finishEvents, EngineRequest.operation?]
  | order op' request =>
    rcases f with (_ | v') | _ | _ <;>
      simp [finishEvents, EngineRequest.operation?, List.count_cons]

/-- What is asked for by an event that starts a call. -/
def CallEvent.request? : CallEvent → Option EngineRequest
  | .started request => some request
  | .ended .. => none

/-- What an event that is aimed at a call ends it with. -/
def CallEvent.endingOf? (call : ℕ) : CallEvent → Option (Ending Answer)
  | .ended i ending => if i = call then some ending else none
  | .started _ => none

/-- How a call ends in the events that follow its start: with the first ending that is
aimed at it and that a call for the request can have. -/
def CallEvent.endingIn (call : ℕ) (request : EngineRequest) (es : List CallEvent) :
    Option (Ending Answer) :=
  (es.filterMap (CallEvent.endingOf? call)).find? (·.fits request)

theorem CallEvent.endingIn_cons (call : ℕ) (request : EngineRequest) (e : CallEvent)
    (es : List CallEvent) : endingIn call request (e :: es) =
      ((e.endingOf? call).filter (·.fits request)).or (endingIn call request es) := by
  unfold endingIn
  cases h : e.endingOf? call with
  | none => rw [List.filterMap_cons_none h]; rfl
  | some ending =>
    rw [List.filterMap_cons_some h, List.find?_cons]
    cases hf : ending.fits request <;> simp [Option.filter, hf]

namespace MadeCall

/-- What a call has counted so far. -/
def counted (c : MadeCall) : List MeterEvent :=
  startEvents c.request ++ (c.ending.map fun e => finishEvents c.request e.finish).getD []

/-! ## What can be said of a call -/

/-- It is a call of the operation. -/
def asks (op : Operation) (c : MadeCall) : Bool := c.request.operation? = some op

/-- It has not ended. -/
def isUnderWay (c : MadeCall) : Bool := c.ending.isNone

/-- Its caller has left. -/
def isDropped (c : MadeCall) : Bool :=
  match c.ending with
  | some .dropped => true
  | _ => false

/-- It has returned an error. -/
def hasFailed (c : MadeCall) : Bool :=
  match c.ending with
  | some (.returned (.error _)) => true
  | _ => false

/-- The status that it has returned, if it has returned one. -/
def status? (c : MadeCall) : Option String :=
  match c.ending with
  | some (.returned (.ok (.order op r))) => op.status? r
  | _ => none

/-- It has returned the status of success, the case of ASCII letters aside. -/
def hasStatus (token : String) (c : MadeCall) : Bool :=
  c.status?.any fun s => lowerAscii s = lowerAscii token

/-- It has returned any other status. -/
def hasOtherStatus (token : String) (c : MadeCall) : Bool :=
  c.status?.any fun s => lowerAscii s ≠ lowerAscii token

/-! ## How a call ends -/

/-- A call cannot end twice, nor with what does not fit. -/
theorem end?_eq_none {c : MadeCall} {e : Ending Answer} (h : c.end? e = none) :
    c.ending.isSome ∨ e.fits c.request = false := by
  unfold end? at h
  split at h
  · cases h
  · rename_i hc
    cases he : c.ending with
    | none => right; simpa [he] using hc
    | some e' => exact Or.inl rfl

theorem of_end? {c c' : MadeCall} {e : Ending Answer} (h : c.end? e = some c') :
    c.ending = none ∧ c'.request = c.request ∧ c'.ending = some e := by
  unfold end? at h
  split at h
  · rename_i hc
    obtain rfl := Option.some.inj h
    exact ⟨hc.1, rfl, rfl⟩
  · cases h

/-- A call of an operation that has an answer has one to that operation. -/
theorem ending_cases {c : MadeCall} {op : Operation} (h : c.request.operation? = some op) :
    c.ending = none ∨ c.ending = some .dropped ∨ (∃ e, c.ending = some (.returned (.error e))) ∨
      ∃ r, c.ending = some (.returned (.ok (.order op r))) := by
  obtain ⟨request, ending, fits⟩ := c
  rcases ending with _ | (e | (⟨op', r⟩ | ⟨items, ended⟩)) | _
  · exact Or.inl rfl
  · exact Or.inr (Or.inr (Or.inl ⟨e, rfl⟩))
  · have hop := fits _ rfl
    simp only [Ending.fits, decide_eq_true_eq] at hop
    obtain rfl : op = op' := Option.some.inj (h.symm.trans hop)
    exact Or.inr (Or.inr (Or.inr ⟨r, rfl⟩))
  · -- a feed answers a subscription only
    have hop := fits _ rfl
    simp only [Ending.fits, decide_eq_true_eq] at hop
    rw [hop] at h; cases h
  · exact Or.inr (Or.inl rfl)

/-! ## What a call has counted -/

/-- Calls are never aimed at the series of subscriptions. -/
theorem series?_of_mem_counted {c : MadeCall} {e : MeterEvent} (h : e ∈ c.counted) :
    e.series? ≠ some .activeSubscriptions ∧ e.series? ≠ some .tradeUpdates := by
  have hcall : ∃ op, e = .attempt op ∨ e = .sample op ∨ e = .failure op ∨ ∃ v, e = .outcome op v := by
    obtain ⟨request, ending, fits⟩ := c
    unfold counted at h
    cases request with
    | trades r => cases ending <;> simp [startEvents, finishEvents] at h
    | order op r =>
      refine ⟨op, ?_⟩
      cases ending with
      | none => simp [startEvents] at h; simp [h]
      | some e' =>
        simp only [startEvents, Option.map_some, Option.getD_some] at h
        rcases e'.finish with (_ | v) | _ | _ <;> simp [finishEvents] at h <;> grind
  obtain ⟨op, rfl | rfl | rfl | ⟨v, rfl⟩⟩ := hcall
  · cases op <;> simp [MeterEvent.series?, Series.attempts?]
  · cases op <;> simp [MeterEvent.series?, Series.latency]
  · cases op <;> simp [MeterEvent.series?, Series.failures]
  · cases op <;> cases v <;> simp [MeterEvent.series?, Series.outcome?]

theorem count_attempt (c : MadeCall) (op : Operation) :
    c.counted.count (.attempt op) = if c.asks op then 1 else 0 := by
  obtain ⟨request, ending, fits⟩ := c
  unfold counted asks
  rw [List.count_append]
  have h0 : (startEvents request).count (.attempt op) =
      if request.operation? = some op then 1 else 0 := by
    cases request <;> simp [startEvents, EngineRequest.operation?, List.count_cons]
  cases ending with
  | none => simp [h0]
  | some e => simp [h0, (count_finishEvents request e.finish op).1]

/-- All but attempts are counted at the end of a call. -/
theorem count_of_ne_attempt (c : MadeCall) {e : MeterEvent} (h : ∀ op, e ≠ .attempt op) :
    c.counted.count e =
      ((c.ending.map fun e' => finishEvents c.request e'.finish).getD []).count e := by
  unfold counted
  rw [List.count_append]
  have h0 : (startEvents c.request).count e = 0 := by
    rw [List.count_eq_zero]
    intro hm
    cases hr : c.request with
    | trades r => rw [hr] at hm; cases hm
    | order op r => rw [hr] at hm; exact h op (List.mem_singleton.1 hm)
  rw [h0, zero_add]

theorem count_sample (c : MadeCall) (op : Operation) :
    c.counted.count (.sample op) = if c.asks op && !c.isUnderWay then 1 else 0 := by
  rw [count_of_ne_attempt c (by simp)]
  unfold asks isUnderWay
  cases c.ending with
  | none => simp
  | some e => simp [(count_finishEvents c.request e.finish op).2.1]

theorem count_failure (c : MadeCall) (op : Operation) :
    c.counted.count (.failure op) = if c.asks op && c.hasFailed then 1 else 0 := by
  rw [count_of_ne_attempt c (by simp)]
  unfold asks hasFailed
  cases c.ending with
  | none => simp
  | some e =>
    simp only [Option.map_some, Option.getD_some, (count_finishEvents c.request e.finish op).2.2.1]
    rcases e with (e | (⟨op', r⟩ | ⟨items, ended⟩)) | _ <;> simp [Ending.finish]

/-- An outcome is counted by a call of the operation that has returned a status with
that verdict. -/
theorem count_outcome (c : MadeCall) {op : Operation} {token : String} (h : op.token? = some token)
    (v : Verdict) : c.counted.count (.outcome op v) =
      if c.asks op && c.status?.any (fun s => Verdict.ofStatus token s = v) then 1 else 0 := by
  rw [count_of_ne_attempt c (by simp)]
  by_cases hop : c.request.operation? = some op
  · rcases ending_cases hop with he | he | ⟨e, he⟩ | ⟨r, he⟩
    · simp [status?, he]
    · simp [status?, he, Ending.finish, (count_finishEvents c.request .dropped op).2.2.2]
    · simp [status?, he, Ending.finish, (count_finishEvents c.request .failed op).2.2.2]
    · have hv := op.verdict?_eq h r
      simp only [asks, status?, he, hop, Ending.finish, Option.map_some, Option.getD_some,
        (count_finishEvents c.request _ op).2.2.2, hv, true_and, decide_true, Bool.true_and]
      cases op.status? r <;> simp
  · unfold asks
    cases c.ending with
    | none => simp [hop]
    | some e => simp [hop, (count_finishEvents c.request e.finish op).2.2.2]

theorem hasStatus_eq (c : MadeCall) (token : String) :
    c.hasStatus token = c.status?.any fun s => Verdict.ofStatus token s = .accepted := by
  unfold hasStatus
  simp only [Verdict.ofStatus_eq_accepted_iff]

theorem hasOtherStatus_eq (c : MadeCall) (token : String) :
    c.hasOtherStatus token = c.status?.any fun s => Verdict.ofStatus token s = .rejected := by
  have h : ∀ v : Verdict, v = .rejected ↔ v ≠ .accepted := by intro v; cases v <;> simp
  unfold hasOtherStatus
  simp only [h, ne_eq, Verdict.ofStatus_eq_accepted_iff]

/-- **A call is in one state.** Where answers carry a status, a call has returned the
status of success or another one, has failed, has been dropped, or is under way. -/
theorem states (c : MadeCall) {op : Operation} {token : String} (h : op.token? = some token)
    (hc : c.asks op = true) :
    (c.hasStatus token).toNat + (c.hasOtherStatus token).toNat + c.hasFailed.toNat +
      c.isDropped.toNat + c.isUnderWay.toNat = 1 := by
  have hop : c.request.operation? = some op := by simpa [asks] using hc
  unfold hasStatus hasOtherStatus status? hasFailed isDropped isUnderWay
  rcases ending_cases hop with he | he | ⟨e, he⟩ | ⟨r, he⟩
  · simp [he]
  · simp [he]
  · simp [he]
  · have hs : ∃ s, op.status? r = some s := by
      cases op with
      | getOrderBook => cases h
      | _ => exact ⟨_, rfl⟩
    obtain ⟨s, hs⟩ := hs
    by_cases hst : lowerAscii s = lowerAscii token <;> simp [he, hs, hst]

end MadeCall

namespace Ledger

variable {l : Ledger}

/-! ## Runs -/

/-- **An event keeps the readings the sums of what the calls have counted.** -/
theorem step_sumOf (h : l.readings.SumOf MadeCall.counted l.calls) (e : CallEvent) :
    (l.step e).readings.SumOf MadeCall.counted (l.step e).calls := by
  unfold step
  cases e with
  | started request =>
    have hc : (MadeCall.start request).counted = startEvents request := by
      simp [MadeCall.counted, MadeCall.start]
    have := h.concat (MadeCall.start request)
    rw [hc] at this
    exact this
  | ended i ending =>
    simp only
    split
    · exact h
    rename_i c hi
    split
    · exact h
    rename_i c' hc'
    -- what the call had counted was its start, and what it counts more is its end
    obtain ⟨he, hr, he'⟩ := MadeCall.of_end? hc'
    refine h.set hi fun s => ?_
    unfold MadeCall.counted
    rw [he, he', hr]
    simp [changes_append]

/-- **A run keeps the readings the sums of what the calls have counted.** -/
theorem run_sumOf (h : l.readings.SumOf MadeCall.counted l.calls) (es : List CallEvent) :
    (l.run es).readings.SumOf MadeCall.counted (l.run es).calls := by
  induction es generalizing l with
  | nil => exact h
  | cons e es ih => exact ih (step_sumOf h e)

/-- Calls are made by starts only, and in their order. -/
theorem run_requests (es : List CallEvent) :
    (l.run es).calls.map (·.request) =
      l.calls.map (·.request) ++ es.filterMap CallEvent.request? := by
  induction es generalizing l with
  | nil => simp [run]
  | cons e es ih =>
    have hs : (l.step e).calls.map (·.request) =
        l.calls.map (·.request) ++ e.request?.toList := by
      cases e with
      | started request => simp [step, CallEvent.request?, MadeCall.start]
      | ended i ending =>
        unfold step
        simp only [CallEvent.request?, Option.toList_none, List.append_nil]
        split
        · rfl
        rename_i c hi
        split
        · rfl
        rename_i c' hc'
        -- the call that ends stays where it is and keeps its request
        obtain ⟨hlt, rfl⟩ := List.getElem?_eq_some_iff.1 hi
        have hlt' : i < (l.calls.map (·.request)).length := by simpa using hlt
        have hset := List.set_getElem_self hlt'
        rw [List.getElem_map] at hset
        rw [List.map_set, (MadeCall.of_end? hc').2.1, hset]
    have hr := ih (l := l.step e)
    rw [hs] at hr
    unfold run at hr ⊢
    rw [List.foldl_cons, hr]
    cases he : e.request? <;> simp [he]

/-- An event ends the call at which it is aimed, if it is the first to do so. -/
theorem step_ending {i : ℕ} {c : MadeCall} (hi : l.calls[i]? = some c) (e : CallEvent) :
    ∃ c', (l.step e).calls[i]? = some c' ∧ c'.request = c.request ∧
      c'.ending = c.ending.or ((e.endingOf? i).filter (·.fits c.request)) := by
  obtain ⟨hlt, -⟩ := List.getElem?_eq_some_iff.1 hi
  cases e with
  | started request =>
    refine ⟨c, (List.getElem?_append_left hlt).trans hi, rfl, ?_⟩
    simp [CallEvent.endingOf?]
  | ended j ending =>
    by_cases hj : j = i
    · subst hj
      cases hc : c.end? ending with
      | none =>
        refine ⟨c, ?_, rfl, ?_⟩
        · simp only [step, hi, hc]
        · rcases MadeCall.end?_eq_none hc with he | hfits
          · obtain ⟨e', he'⟩ := Option.isSome_iff_exists.1 he
            simp [he']
          · simp [CallEvent.endingOf?, Option.filter, hfits]
      | some c' =>
        obtain ⟨he, hr, he'⟩ := MadeCall.of_end? hc
        have hfits : ending.fits c.request = true := by
          rw [← hr]; exact c'.fits ending he'
        refine ⟨c', ?_, hr, ?_⟩
        · simp only [step, hi, hc]
          exact List.getElem?_set_self hlt
        · simp [CallEvent.endingOf?, Option.filter, he, he', hfits]
    · -- another call is meant, or none
      refine ⟨c, ?_, rfl, by simp [CallEvent.endingOf?, hj]⟩
      unfold step
      simp only
      split
      · exact hi
      split
      · exact hi
      · exact (List.getElem?_set_ne hj).trans hi

/-- A call that has been made ends as the events say. -/
theorem run_ending {i : ℕ} {c : MadeCall} (hi : l.calls[i]? = some c) (es : List CallEvent) :
    ∃ c', (l.run es).calls[i]? = some c' ∧ c'.request = c.request ∧
      c'.ending = c.ending.or (CallEvent.endingIn i c.request es) := by
  induction es generalizing l c with
  | nil => exact ⟨c, hi, rfl, by simp [CallEvent.endingIn]⟩
  | cons e es ih =>
    obtain ⟨c₁, h₁, hr₁, he₁⟩ := step_ending hi e
    obtain ⟨c₂, h₂, hr₂, he₂⟩ := ih h₁
    refine ⟨c₂, h₂, hr₂.trans hr₁, ?_⟩
    rw [he₂, he₁, hr₁, CallEvent.endingIn_cons, Option.or_assoc]

/-- **A run makes the calls that are started, and ends them as the events say.** -/
theorem run_call (es₁ : List CallEvent) (request : EngineRequest) (es₂ : List CallEvent) :
    ∃ c, (start.run (es₁ ++ .started request :: es₂)).calls[
        (es₁.filterMap CallEvent.request?).length]? = some c ∧
      c.request = request ∧
      c.ending =
        CallEvent.endingIn (es₁.filterMap CallEvent.request?).length request es₂ := by
  have hlen : (start.run es₁).calls.length = (es₁.filterMap CallEvent.request?).length := by
    have h := congrArg List.length (run_requests (l := start) es₁)
    simpa [start] using h
  have hnew : ((start.run es₁).step (.started request)).calls[
      (es₁.filterMap CallEvent.request?).length]? = some (.start request) := by
    rw [← hlen]; exact List.getElem?_concat_length
  obtain ⟨c, hc, hr, he⟩ := run_ending hnew es₂
  refine ⟨c, ?_, hr, by rw [he]; rfl⟩
  unfold run at hc ⊢
  rw [List.foldl_append, List.foldl_cons]
  exact hc

/-! ## Readings as numbers of calls -/

theorem value_eq_count (h : l.readings.SumOf MadeCall.counted l.calls) {s : Series}
    (hs : s ≠ .activeSubscriptions) {p : MadeCall → Bool}
    (hp : ∀ c : MadeCall, c.counted.count s.event = if p c then 1 else 0) :
    l.readings.value s = l.calls.countP p := by
  refine h.value_eq_countP fun c _ => ?_
  rw [changes_eq_count _ hs, hp c]
  split <;> rfl

theorem value_eq_zero (h : l.readings.SumOf MadeCall.counted l.calls) {s : Series}
    (hs : ∀ c : MadeCall, ∀ e ∈ c.counted, e.series? ≠ some s) : l.readings.value s = 0 := by
  rw [h.value_eq_countP (p := fun _ => false) fun c _ => by simp [changes_eq_zero (hs c)]]
  simp

/-- How many calls of an operation are as said. -/
def count (l : Ledger) (op : Operation) (p : MadeCall → Bool) : ℕ :=
  l.calls.countP fun c => c.asks op && p c

/-- The series of an operation whose answers carry a status. -/
structure OutcomeSeries where
  requests : Series
  /-- Answers with the status of success are not counted everywhere. -/
  accepted : Option Series
  rejected : Series
  failures : Series
  latency : Series

/-- **The readings of an operation account for its calls.** -/
structure Accounts (l : Ledger) (op : Operation) (token : String) (s : OutcomeSeries) : Prop where
  requests : l.readings.value s.requests = l.count op fun _ => true
  accepted : ∀ t ∈ s.accepted, l.readings.value t = l.count op (·.hasStatus token)
  rejected : l.readings.value s.rejected = l.count op (·.hasOtherStatus token)
  failures : l.readings.value s.failures = l.count op (·.hasFailed)
  latency : l.readings.value s.latency = l.count op (!·.isUnderWay)
  balance : l.readings.value s.requests =
    l.count op (·.hasStatus token) + l.readings.value s.rejected + l.readings.value s.failures +
      l.count op (·.isDropped) + l.count op (·.isUnderWay)

/-- Each call of an operation is in one state. -/
theorem count_states {op : Operation} {token : String} (h : op.token? = some token) :
    l.count op (fun _ => true) =
      l.count op (·.hasStatus token) + l.count op (·.hasOtherStatus token) +
        l.count op (·.hasFailed) + l.count op (·.isDropped) + l.count op (·.isUnderWay) := by
  unfold count
  induction l.calls with
  | nil => rfl
  | cons c cs ih =>
    simp only [List.countP_cons]
    cases hc : c.asks op with
    | false => simpa [hc] using ih
    | true =>
      -- a call of the operation is in one of the states
      have hst := c.states h hc
      simp only [Bool.true_and, Bool.and_true, if_true] at ih ⊢
      have ind : ∀ b : Bool, (if b = true then 1 else 0) = b.toNat := by intro b; cases b <;> rfl
      simp only [ind]
      omega

/-- The readings account for the calls of an operation, given the series of its events. -/
theorem accounts_of {op : Operation} {token : String} {s : OutcomeSeries}
    (h : l.readings.SumOf MadeCall.counted l.calls) (htok : op.token? = some token)
    (hreq : s.requests.event = .attempt op) (hacc : ∀ t ∈ s.accepted, t.event = .outcome op .accepted)
    (hrej : s.rejected.event = .outcome op .rejected) (hfail : s.failures.event = .failure op)
    (hlat : s.latency.event = .sample op) : l.Accounts op token s := by
  have gauge : ∀ {t : Series} {e : MeterEvent}, t.event = e → e ≠ .opened →
      t ≠ .activeSubscriptions := by
    rintro t e ht he rfl
    exact he ht.symm
  have h1 : l.readings.value s.requests = l.count op fun _ => true := by
    refine value_eq_count h (gauge hreq (by simp)) fun c => ?_
    rw [hreq, c.count_attempt op, Bool.and_true]
  have h3 : l.readings.value s.rejected = l.count op (·.hasOtherStatus token) := by
    refine value_eq_count h (gauge hrej (by simp)) fun c => ?_
    simp only [hrej, c.count_outcome htok, c.hasOtherStatus_eq]
  have h4 : l.readings.value s.failures = l.count op (·.hasFailed) := by
    refine value_eq_count h (gauge hfail (by simp)) fun c => ?_
    rw [hfail, c.count_failure]
  refine ⟨h1, ?_, h3, h4, ?_, ?_⟩
  · intro t ht
    refine value_eq_count h (gauge (hacc t ht) (by simp)) fun c => ?_
    simp only [hacc t ht, c.count_outcome htok, c.hasStatus_eq]
  · refine value_eq_count h (gauge hlat (by simp)) fun c => ?_
    rw [hlat, c.count_sample]
  · rw [h1, h3, h4, count_states htok]
    push_cast
    rfl

/-- The series of submits. -/
def submitSeries : OutcomeSeries :=
  ⟨.submitRequests, some .submitAccepted, .submitRejected, .submitFailures, .submitLatency⟩

/-- The series of cancels. A cancel that succeeds is not counted. -/
def cancelSeries : OutcomeSeries :=
  ⟨.cancelRequests, none, .cancelErrors, .cancelFailures, .cancelLatency⟩

/-- The series of modifies. A modify that succeeds is not counted. -/
def modifySeries : OutcomeSeries :=
  ⟨.modifyRequests, none, .modifyErrors, .modifyFailures, .modifyLatency⟩

/-- **At every point of every run the readings account for every call.** The calls are
those that the events have started, each ended as the events say, and the readings are
the numbers of them that have come to each end. -/
theorem run_accounts (es : List CallEvent) :
    (start.run es).calls.map (·.request) = es.filterMap CallEvent.request? ∧
      (∀ es₁ request es₂, ∃ c, (start.run (es₁ ++ .started request :: es₂)).calls[
          (es₁.filterMap CallEvent.request?).length]? = some c ∧
        c.request = request ∧
        c.ending =
          CallEvent.endingIn (es₁.filterMap CallEvent.request?).length request es₂) ∧
      (start.run es).Accounts .submitOrder "ACCEPTED" submitSeries ∧
      (start.run es).Accounts .cancelOrder "CANCELLED" cancelSeries ∧
      (start.run es).Accounts .modifyOrder "MODIFIED" modifySeries ∧
      (start.run es).readings.value .bookFailures =
        (start.run es).count .getOrderBook (·.hasFailed) ∧
      (start.run es).readings.value .bookLatency =
        (start.run es).count .getOrderBook (!·.isUnderWay) ∧
      (start.run es).readings.value .activeSubscriptions = 0 ∧
      (start.run es).readings.value .tradeUpdates = 0 := by
  have h := run_sumOf (l := start) Readings.SumOf.nil es
  refine ⟨run_requests es, run_call, ?_, ?_, ?_, ?_, ?_, ?_, ?_⟩
  · exact accounts_of h rfl rfl (by rintro t ⟨⟩; rfl) rfl rfl rfl
  · exact accounts_of h rfl rfl (by rintro t ⟨⟩) rfl rfl rfl
  · exact accounts_of h rfl rfl (by rintro t ⟨⟩) rfl rfl rfl
  · exact value_eq_count h (by simp) fun c => c.count_failure .getOrderBook
  · exact value_eq_count h (by simp) fun c => c.count_sample .getOrderBook
  · exact value_eq_zero h fun c e he => (MadeCall.series?_of_mem_counted he).1
  · exact value_eq_zero h fun c e he => (MadeCall.series?_of_mem_counted he).2

end Ledger

end OrderRelay
