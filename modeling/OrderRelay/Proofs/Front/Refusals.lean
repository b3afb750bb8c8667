import OrderRelay.Proofs.Front.Translation
import OrderRelay.Proofs.Link.Closing
import OrderRelay.Proofs.Relay.Gathering

/-!
# Calls after the link has been closed

A link that has been closed stays closed. From then on no call goes out over it, each fails at once
and is told and counted as one, and the service says that it is degraded.

* `Rpc.engine_of_closed`: the engine behind a closed link fails every call at once.
* `Visit.outcome_of_closed`, `Front.answers_of_closed`: how calls end that are started then, for
  those who make them and over HTTP.
* `Link.Refuses`: what that comes to for all calls together.
* `Front.AsksHealth`, `Front.answers_health`: what is said about the health.
* `Front.closing_final`: **who shares a link with others finds it open until it is closed for the
  first time, and closed from then on**, and so does everyone else.
-/

namespace OrderRelay

open Http

namespace Rpc

variable {link : Link}

/-- A call makes one use of the link: who does not get hold of it fails with what that use gives. -/
theorem call_of_handle {e : EngineFailure} (h : link.handle = .error e) {α : Type}
    (network : Network) (read : Reply → Except EngineFailure α) (c : EngineCall) :
    call network link read c = ⟨some 0, .error e⟩ := by
  unfold Link.handle at h
  unfold call
  split at h
  · cases h
  · rename_i hopen
    cases h
    rw [if_neg hopen]

/-- **The engine behind a closed link** fails every call at once, whatever lies beyond the link. -/
theorem engine_of_closed (h : link.isOpen = false) (network : Network) :
    engine network link = .failing .linkClosed := by
  have hhandle : link.handle = .error .linkClosed := by
    unfold Link.handle
    rw [h]
    rfl
  unfold engine
  simp only [call_of_handle hhandle]
  rfl

theorem outgoing?_of_closed (h : link.isOpen = false) (c : EngineCall) :
    outgoing? link c = none := by
  unfold outgoing?
  rw [h]
  rfl

end Rpc

/-- What a call comes to that is refused. -/
def refusal : RelayError := .engine .linkClosed

/-- The series that a call counts up that is refused. -/
def refusedSeries : EngineRequest → List Series
  | .order op _ => Front.calledSeries op ++ [Series.failures op]
  | .trades _ => []

theorem changes_refused (request : EngineRequest) (s : Series) :
    changes (callEvents request .failed) s = (refusedSeries request).count s := by
  cases request with
  | order op order =>
    have hseries : MeterEvent.seriesOf (callEvents (.order op order) .failed) =
        Front.calledSeries op ++ [Series.failures op] := Front.seriesOf_failed op order refusal
    rw [changes_eq_count_seriesOf (callEvents_change op order .failed), hseries]
    rfl
  | trades subscription => rfl

/-! ## Whoever makes a call -/

namespace Visit

/-- **A call that is started after the close** fails at once, also if its caller does not wait. -/
theorem outcome_of_closed {link : Link} (h : link.isOpen = false) {network : Rpc.Network}
    {v : Visit} (hv : v.engine = Rpc.engine network link) (deadlineMs : ℕ) :
    v.outcome deadlineMs = (0, .returned (.error refusal)) := by
  have hengine : v.engine = .failing .linkClosed := hv.trans (Rpc.engine_of_closed h network)
  obtain ⟨requestId, request, engine, patience, limit⟩ := v
  obtain rfl : engine = .failing .linkClosed := hengine
  cases request <;> cases patience <;> rfl

/-- **Calls that are started after the close**, whatever other calls there have been: each fails,
and what they count is added to the readings. -/
theorem together_of_closed {link : Link} (h : link.isOpen = false) {network : Rpc.Network}
    {vs : List Visit} (hvs : ∀ v ∈ vs, v.engine = Rpc.engine network link) (deadlineMs : ℕ)
    (before : List CallEvent) :
    let l := Ledger.start.run before
    let done := together deadlineMs l vs
    done.1 = vs.map (fun _ => .returned (.error refusal)) ∧
      ∀ s, done.2.readings.value s =
        l.readings.value s + (vs.map fun v => ((refusedSeries v.request).count s : ℤ)).sum := by
  intro l done
  refine ⟨?_, fun s => ?_⟩
  · refine List.map_congr_left fun v hv => ?_
    rw [outcome_of_closed h (hvs v hv)]
  · -- whatever has been counted before stays, and each call adds what it counts alone
    have hsum : l.readings.SumOf MadeCall.counted l.calls :=
      Ledger.run_sumOf Readings.SumOf.nil before
    rw [value_together hsum]
    refine congrArg (l.readings.value s + List.sum ·) (List.map_congr_left fun v hv => ?_)
    unfold events
    rw [outcome_of_closed h (hvs v hv)]
    exact changes_refused v.request s

end Visit

namespace Front

variable {f : Front} {fresh : Bytes} {patience : Option ℕ} {upload : Upload} {r : Request}
  {request : EngineRequest} {start : ℕ} {link : Link}

/-! ## Calls over HTTP -/

/-- The text for a call that is refused. -/
def refusedText : String :=
  Json.Value.compact (.object [
    ("error", .text "backend channel is closed"), ("code", .text "BACKEND_UNAVAILABLE")])

/-- **A request that is accepted after the close** is answered with status 503, and counts what a
refused call counts. -/
theorem answers_of_closed (h : f.AcceptedAt patience upload r start request)
    (hlink : link.isOpen = false) (network : Rpc.Network) (deadlineMs : ℕ) (fresh : Bytes) :
    let x := f.attend ⟨deadlineMs, Rpc.engine network link⟩ fresh patience upload r
    x.Answers r 503 refusedText ∧ x.Counts (refusedSeries request) := by
  intro x
  have hengine := Rpc.engine_of_closed hlink network
  -- the call fails when it starts, which is no later than the request was in time
  have hfails : CallFails ⟨deadlineMs, Rpc.engine network link⟩ (passedId fresh r) request 0
      refusal := by
    rw [hengine]
    cases request with
    | order op order => exact .order rfl
    | trades subscription => exact .trades rfl
  refine ⟨answers_of_callFails h hfails h.inTime, fun readings s => ?_⟩
  have hcounted : x.counted = callEvents request .failed := by
    change (f.attend _ fresh patience upload r).counted = _
    rw [attend_of_acceptedAt h]
    unfold serve
    cases hfails with
    | order hresult => simp only [hresult, Nat.add_zero, h.inTime]; rfl
    | trades hresult => simp only [hresult, Nat.add_zero, h.inTime]; rfl
  rw [Readings.value_recordAll, hcounted, changes_refused]

end Front

/-- **A link refuses all calls**: nothing goes out over it, and every call fails at once, for those
who make it and for those who ask for it over HTTP. -/
structure Link.Refuses (link : Link) : Prop where
  silent : ∀ call, Rpc.outgoing? link call = none
  engine : ∀ network, Rpc.engine network link = .failing .linkClosed
  calls : ∀ network deadlineMs before vs, (∀ v ∈ vs, v.engine = Rpc.engine network link) →
    let l := Ledger.start.run before
    let done := Visit.together deadlineMs l vs
    done.1 = vs.map (fun _ => .returned (.error refusal)) ∧
      ∀ s, done.2.readings.value s =
        l.readings.value s + (vs.map fun v => ((refusedSeries v.request).count s : ℤ)).sum
  requests : ∀ network deadlineMs (f : Front) fresh patience upload r start request,
    f.AcceptedAt patience upload r start request →
    let x := f.attend ⟨deadlineMs, Rpc.engine network link⟩ fresh patience upload r
    x.Answers r 503 Front.refusedText ∧ x.Counts (refusedSeries request)

theorem Link.refuses_of_closed {link : Link} (h : link.isOpen = false) : link.Refuses where
  silent := Rpc.outgoing?_of_closed h
  engine := Rpc.engine_of_closed h
  calls _ deadlineMs before _ hvs := Visit.together_of_closed h hvs deadlineMs before
  requests network deadlineMs _ fresh _ _ _ _ _ haccepted :=
    Front.answers_of_closed haccepted h network deadlineMs fresh

namespace Front

variable {f : Front} {r : Request}

/-! ## Health -/

/-- **A request asks for the health** of the service, and is looked at. -/
structure AsksHealth (f : Front) (r : Request) : Prop where
  announced : f.announcesTooMuch r = false
  route : routeOf r = some .health
  method : r.method = "GET" ∨ r.method = "HEAD"
  limit : 0 < f.requestSecs

/-- The text about a service whose link has been closed, or has not. -/
def healthText (target : String) (closed : Bool) : String :=
  Json.Value.compact (.object [
    ("status", .text (if closed then "degraded" else "ok")), ("version", .text version),
    ("backend", .object [
      ("target", .text target), ("state", .text (if closed then "closed" else "open"))])])

theorem plan_health (hroute : routeOf r = some .health)
    (hmethod : r.method = "GET" ∨ r.method = "HEAD") :
    f.plan r = .respond (healthResponse f.link) := by
  rw [plan_of_route hroute]
  unfold Plan.ofRoute
  rcases hmethod with h | h <;> rw [h] <;> rfl

/-- **What is said about the health** depends on the link alone. -/
theorem answers_health {target : String} {closed : Bool} (h : f.AsksHealth r)
    (hlink : f.link = ⟨target, !closed⟩) (relay : Relay) (fresh : Bytes) (patience : Option ℕ)
    (upload : Upload) :
    (f.attend relay fresh patience upload r).Answers r (if closed then 503 else 200)
      (healthText target closed) := by
  have hhealth : healthResponse f.link = .json (if closed then 503 else 200)
      (healthText target closed) := by
    rw [hlink]
    cases closed <;> rfl
  -- no body is read, so the response is known at once, however the body comes in
  have hplanned : f.planOf upload r = some (0, .respond (healthResponse f.link)) := by
    have hreads : Plan.readsBody .health r = false := by simp [Plan.readsBody]
    have hroute : Route.ofPath? (Uri.path r.target) = some .health := h.route
    unfold planOf
    simp only [hroute, hreads, plan_health h.route h.method]
    rfl
  have hlimit : 0 < f.limitMs := Nat.mul_pos (by decide) h.limit
  have hresponse : (f.attend relay fresh patience upload r).response =
      some (sent fresh r (.json (if closed then 503 else 200) (healthText target closed))) := by
    rw [attend_of_announced h.announced, hplanned, carryOut_respond (fate_of_zero hlimit patience),
      hhealth]
    rfl
  exact answers_sent h.route hresponse

/-! ## From the first close on -/

/-- **Closing is final.** Any number of tasks share a link that is open at first, under any
schedule; at the end the link is dropped, which closes it once more.

* Each task makes its uses in their order. What a use gives depends on whether the link has been
  closed before: a look tells that, a handle is had until then and refused from then on, and a close
  returns true if it is the first.
* The link is released once: by a close, or when it is dropped.
* Once it has been closed, it refuses all calls.
* The service says that it is degraded exactly from then on. -/
theorem closing_final (target : String) (tasks : List (List Link.Step)) (schedule : List ℕ) :
    let s := (Link.Sharing.start ⟨target, true⟩ tasks).run schedule
    (∀ i, s.doneBy i ++ s.left[i]?.getD [] = tasks[i]?.getD []) ∧
    (∀ n (use : Link.Use), s.uses[n]? = some use →
      use.outcome = use.step.given (Link.closedBy (s.uses.take n))) ∧
    s.uses.countP (·.outcome.isRelease) + s.link.close.2.toNat = 1 ∧
    (Link.closedBy s.uses = true →
      s.link.Refuses ∧ refusal.code = "BACKEND_UNAVAILABLE" ∧ refusal.status = 503) ∧
    ∀ (f : Front) relay fresh patience upload r, f.link = s.link → f.AsksHealth r →
      (f.attend relay fresh patience upload r).Answers r
        (if Link.closedBy s.uses then 503 else 200) (healthText target (Link.closedBy s.uses)) := by
  intro s
  have htraced : s.Traced ⟨target, true⟩ tasks := Link.Sharing.run_traced _ tasks schedule
  have hlink : s.link = ⟨target, !Link.closedBy s.uses⟩ := htraced.link_eq
  refine ⟨htraced.tasks, fun n use hn => htraced.outcome_eq hn, htraced.releases_eq,
    fun hclosed => ?_, fun f relay fresh patience upload r hf h => ?_⟩
  · refine ⟨Link.refuses_of_closed ?_, rfl, rfl⟩
    rw [hlink, hclosed]
    rfl
  · exact answers_health h (hf.trans hlink) relay fresh patience upload

/-- Asks for the health of the service. -/
def healthRequest : Request := ⟨"GET", Utf8.encode "/health", [], []⟩

/-- Two tasks share the default link. One closes it twice, the other takes hold of it twice. -/
def sharedLink : Link.Sharing :=
  let tasks := [[.close, .close], [.handle, .handle]]
  (Link.Sharing.start ⟨"localhost:50051", true⟩ tasks).run [1, 0, 1, 0]

/-- After the first close the link is not had, the second close is not the first, an order book is
refused, and the service is degraded. -/
theorem closing_final_shared :
    sharedLink.uses.map (·.outcome) =
        [.handle (.ok ()), .closed true, .handle (.error .linkClosed), .closed false] ∧
      (∀ network, (defaultFront.attend ⟨5000, Rpc.engine network sharedLink.link⟩ [] none
        (.atOnce []) bookRequest).Answers bookRequest 503 refusedText) ∧
      ({ defaultFront with link := sharedLink.link }.attend slowRelay [] none (.atOnce [])
        healthRequest).Answers healthRequest 503 (healthText "localhost:50051" true) := by
  have hfinal := closing_final "localhost:50051" [[.close, .close], [.handle, .handle]] [1, 0, 1, 0]
  refine ⟨rfl, fun network => ?_, ?_⟩
  · have haccepted : defaultFront.AcceptedAt none (.atOnce []) bookRequest 0
        (.order .getOrderBook ⟨"A"⟩) :=
      ⟨accepts_bookRequest.1, planOf_of_accepts accepts_bookRequest, by decide⟩
    exact ((hfinal.2.2.2.1 rfl).1.requests network 5000 defaultFront [] none (.atOnce [])
      bookRequest 0 _ haccepted).1
  · have hroute : routeOf healthRequest = some .health := by decide +kernel
    exact hfinal.2.2.2.2 { defaultFront with link := sharedLink.link } slowRelay [] none
      (.atOnce []) healthRequest rfl ⟨by decide +kernel, hroute, .inl rfl, by decide⟩

end Front

end OrderRelay
