import OrderRelay.Proofs.Front.Shape
import OrderRelay.Proofs.Relay.Endings
import OrderRelay.Proofs.Relay.Tally

/-!
# What a request can set off

Every check of a request comes before the engine is asked, and whatever the engine
does comes out as a status of success or of the service's own failures. So a request
that is at fault leaves the engine and the readings alone.

* `RelayError.status_of_isEngineFailure`: an engine's failure is never the caller's.
* `Exchange.Contained`: what a request can set off.
* `serve_contained`: asking the engine.
* `carryOut_cases`, `carryOut_contained`: how a plan is carried out, and what that sets off.
* `carryOut_asks_iff`: when a plan to ask the engine is carried out.
* `contained_attend`, `attend_asks_iff`, `attend_responds`: the same for requests.
* `attend_contained`: **every request is contained**, whatever the settings, the
  engine, the caller's patience, and the way in which the body comes in.
-/

namespace OrderRelay

open Http

/-! ## Statuses -/

/-- A failure of the engine, whatever its code, is never shown as a fault of the caller. -/
theorem RelayError.status_of_isEngineFailure {e : RelayError} (h : e.isEngineFailure = true) :
    e.status ∈ [500, 502, 503, 504] := by
  cases e with
  | invalidRequest reason => cases h
  | notFound what => cases h
  | timeout micros => simp [status]
  | engine failure => cases failure <;> simp [status]

/-- The statuses with which a request is answered that the engine was asked for. -/
def EngineRequest.statuses : EngineRequest → List ℕ
  | .order .. => [200, 500, 502, 503, 504, 408]
  | .trades _ => [101, 500, 502, 503, 504, 408]

theorem EngineRequest.timeout_mem_statuses (request : EngineRequest) : 408 ∈ request.statuses := by
  cases request <;> simp [statuses]

theorem EngineRequest.failure_mem_statuses (request : EngineRequest) {status : ℕ}
    (h : status ∈ [500, 502, 503, 504]) : status ∈ request.statuses := by
  cases request <;> exact List.mem_cons_of_mem _ (List.mem_append_left [408] h)

/-- None of them says that the caller is at fault, but for the time limit. -/
theorem EngineRequest.not_clientError {request : EngineRequest} {status : ℕ}
    (h : status ∈ request.statuses) : ¬(400 ≤ status ∧ status < 500 ∧ status ≠ 408) := by
  cases request <;> simp [statuses] at h <;> omega

/-! ## What can be set off -/

namespace Exchange

/-- **What a request can set off.** -/
structure Contained (f : Front) (upload : Upload) (r : Request) (x : Exchange) : Prop where
  calls : x.calls.length ≤ 1
  /-- The engine is asked for what has passed the shape checks. -/
  asked : ∀ call ∈ x.calls, f.Asks upload r call.request
  /-- What is not passed on is not counted, and there is no feed to forward. -/
  uncalled : x.calls = [] → x.counted = [] ∧ x.feed = none
  /-- What does not pass the shape checks changes nothing. -/
  refused : (∀ request, ¬f.Asks upload r request) →
    x.calls = [] ∧ ∀ readings : Readings, readings.recordAll x.counted = readings
  /-- An attempt is counted for each call of the operation. -/
  attempts : ∀ op s, Series.attempts? op = some s → ∀ readings : Readings,
    (readings.recordAll x.counted).value s =
      readings.value s + x.calls.countP fun call => call.request.operation? = some op
  /-- Who is told to be at fault has changed nothing. -/
  clientError : ∀ response ∈ x.response,
    400 ≤ response.status ∧ response.status < 500 ∧ response.status ≠ 408 →
      x.calls = [] ∧ ∀ readings : Readings, readings.recordAll x.counted = readings
  answers : ∀ call ∈ x.calls, ∀ response ∈ x.response, response.status ∈ call.request.statuses

variable {f : Front} {upload : Upload} {r : Request}

/-- The engine is not asked. -/
theorem Contained.of_uncalled (response : Option Response) :
    Contained f upload r ⟨response, [], [], none⟩ := by
  refine ⟨Nat.zero_le _, ?_, fun _ => ⟨rfl, rfl⟩, fun _ => ⟨rfl, fun _ => rfl⟩, ?_,
    fun _ _ _ => ⟨rfl, fun _ => rfl⟩, ?_⟩
  · intro call h; cases h
  · intro op s _ readings
    rw [Readings.value_recordAll, changes_nil]; rfl
  · intro call h; cases h

/-- The engine is asked once. -/
theorem Contained.of_called {c : MadeCall} {call : EngineCall} (hcall : call.request = c.request)
    (hasks : f.Asks upload r c.request) {response : Option Response} {feed : Option Feed}
    (hstatus : ∀ a ∈ response, a.status ∈ c.request.statuses) :
    Contained f upload r ⟨response, [call], c.counted, feed⟩ := by
  refine ⟨le_rfl, ?_, (fun h => by cases h), fun h => absurd hasks (h _), ?_, ?_, ?_⟩
  · intro call' h
    rw [List.mem_singleton.1 h, hcall]; exact hasks
  · intro op s hs readings
    have hne : s ≠ .activeSubscriptions := by cases op <;> cases hs <;> decide
    have hevent : s.event = .attempt op := by cases op <;> cases hs <;> rfl
    rw [Readings.value_recordAll, changes_eq_count _ hne, hevent, c.count_attempt]
    simp [List.countP_cons, hcall, MadeCall.asks]
  · intro a ha hfault
    exact absurd hfault (EngineRequest.not_clientError (hstatus a ha))
  · intro call' h a ha
    rw [List.mem_singleton.1 h, hcall]; exact hstatus a ha

/-- What is added to a response does not matter as long as the status stays. -/
theorem Contained.dressed {x : Exchange} (h : x.Contained f upload r) {g : Response → Response}
    (hg : ∀ a, (g a).status = a.status) :
    Contained f upload r { x with response := x.response.map g } := by
  -- the response is another one with the status of the one before
  have hback : ∀ a ∈ x.response.map g, ∃ b ∈ x.response, a.status = b.status := by
    intro a ha
    obtain ⟨b, hb, rfl⟩ := Option.map_eq_some_iff.1 ha
    exact ⟨b, hb, hg b⟩
  refine { h with clientError := ?_, answers := ?_ }
  · intro a ha hfault
    obtain ⟨b, hb, hs⟩ := hback a ha
    rw [hs] at hfault
    exact h.clientError b hb hfault
  · intro call hc a ha
    obtain ⟨b, hb, hs⟩ := hback a ha
    rw [hs]; exact h.answers call hc b hb

end Exchange

/-! ## What requests set off -/

namespace Front

open Exchange

variable {f : Front} {upload : Upload} {r : Request}

theorem status_dress (id : Bytes) (a : Response) : (dress id a).status = a.status := rfl

theorem status_finish (route : Option Route) (method : String) (a : Response) :
    (finish route method a).status = a.status := by
  unfold finish
  cases route with
  | none => rfl
  | some route =>
    simp only
    split <;> split <;> split <;> rfl

theorem cut_contained (fate : Fate) : (cut fate).Contained f upload r := by
  unfold cut
  split
  · exact .of_uncalled none
  · exact .of_uncalled (some expiredResponse)

/-- The engine was asked, but what it says comes too late. -/
theorem cutCall_contained {call : EngineCall} {request : EngineRequest}
    (hcall : call.request = request) (hasks : f.Asks upload r request) (fate : Fate) :
    (cutCall [call] request fate).Contained f upload r := by
  have hc : ∀ response : Option Response, (∀ a ∈ response, a.status ∈ request.statuses) →
      Contained f upload r ⟨response, [call], callEvents request .dropped, none⟩ :=
    fun response h =>
      .of_called (c := ⟨request, some .dropped, by simp [Ending.fits]⟩) hcall hasks h
  unfold cutCall
  split
  · exact hc none fun a ha => by cases ha
  · refine hc _ fun a ha => ?_
    obtain rfl := Option.some.inj ha
    exact request.timeout_mem_statuses

/-- **What asking the engine sets off.** -/
theorem serve_contained (relay : Relay) (requestId : String) (patience : Option ℕ) (start : ℕ)
    {request : EngineRequest} (hasks : f.Asks upload r request) :
    (f.serve relay requestId patience start request).Contained f upload r := by
  unfold serve
  cases request with
  | order op order =>
    have herror : ∀ e, (relay.order requestId op order).2 = .error e → e.isEngineFailure = true :=
      fun e he => settle_isEngineFailure he
    simp only
    generalize relay.order requestId op order = settled at herror ⊢
    obtain ⟨time, result⟩ := settled
    split
    · -- the answer or the failure comes in time: the call counts as one that has returned
      refine .of_called (c := ⟨.order op order, some (.returned _), ?_⟩) rfl hasks ?_
      · intro e he
        obtain rfl := Option.some.inj he
        exact order_fits order herror
      · intro a ha
        obtain rfl := Option.some.inj ha
        change (orderResponse result).status ∈ (EngineRequest.order op order).statuses
        cases result with
        | ok answer => exact List.mem_cons_self
        | error e =>
          exact EngineRequest.failure_mem_statuses _
            (RelayError.status_of_isEngineFailure (herror e rfl))
    · exact cutCall_contained rfl hasks _
  | trades subscription =>
    have herror : ∀ e, (relay.trades requestId subscription).2 = .error e →
        e.isEngineFailure = true := fun e he => settle_isEngineFailure he
    simp only
    generalize relay.trades requestId subscription = settled at herror ⊢
    obtain ⟨time, result⟩ := settled
    split
    · -- a subscription counts nothing, however its call has ended
      refine .of_called (c := ⟨.trades subscription, some .dropped, by simp [Ending.fits]⟩) rfl hasks
        ?_
      intro a ha
      obtain rfl := Option.some.inj ha
      cases result with
      | ok feed => exact List.mem_cons_self
      | error e =>
        exact EngineRequest.failure_mem_statuses _
          (RelayError.status_of_isEngineFailure (herror e rfl))
    · exact cutCall_contained rfl hasks _

/-! ## How a plan is carried out -/

section CarryOut

variable {relay : Relay} {requestId : String} {patience : Option ℕ} {time : ℕ}

/-- A response that is known in time is given. -/
theorem carryOut_respond (h : Fate.of f.limitMs patience time = .answered) (a : Response) :
    f.carryOut relay requestId patience (some (time, .respond a)) = .quiet a := by
  unfold carryOut
  simp only [h]

/-- A question that is known in time is put to the engine. -/
theorem carryOut_ask (h : Fate.of f.limitMs patience time = .answered) (request : EngineRequest) :
    f.carryOut relay requestId patience (some (time, .ask request)) =
      f.serve relay requestId patience time request := by
  unfold carryOut
  simp only [h]

/-- A plan that is not known in time is cut off. -/
theorem carryOut_late (h : Fate.of f.limitMs patience time ≠ .answered) (plan : Plan) :
    f.carryOut relay requestId patience (some (time, plan)) =
      cut (Fate.of f.limitMs patience time) := by
  unfold carryOut
  cases hfate : Fate.of f.limitMs patience time with
  | answered => exact absurd hfate h
  | unheard | expired | abandoned => simp only [hfate]

end CarryOut

/-- **How a plan is carried out**: it is known in time, and then it responds or asks the engine, or
it is cut off. -/
theorem carryOut_cases (f : Front) (relay : Relay) (requestId : String) (patience : Option ℕ)
    (planned : Option (ℕ × Plan)) :
    (∃ time a, planned = some (time, .respond a) ∧ Fate.of f.limitMs patience time = .answered ∧
      f.carryOut relay requestId patience planned = .quiet a) ∨
    (∃ time request, planned = some (time, .ask request) ∧
      Fate.of f.limitMs patience time = .answered ∧
      f.carryOut relay requestId patience planned =
        f.serve relay requestId patience time request) ∨
    (∀ time plan, planned = some (time, plan) → Fate.of f.limitMs patience time ≠ .answered) ∧
      ∃ time, f.carryOut relay requestId patience planned =
        cut (Fate.of f.limitMs patience time) := by
  rcases planned with - | ⟨time, plan⟩
  · exact .inr (.inr ⟨fun _ _ h => (by cases h), f.limitMs, rfl⟩)
  · by_cases hfate : Fate.of f.limitMs patience time = .answered
    · cases plan with
      | respond a => exact .inl ⟨time, a, rfl, hfate, carryOut_respond hfate a⟩
      | ask request => exact .inr (.inl ⟨time, request, rfl, hfate, carryOut_ask hfate request⟩)
    · refine .inr (.inr ⟨fun time' plan' h => ?_, time, carryOut_late hfate plan⟩)
      cases h
      exact hfate

/-- **What carrying out a plan sets off.** -/
theorem carryOut_contained (relay : Relay) (requestId : String) (patience : Option ℕ) :
    (f.carryOut relay requestId patience (f.planOf upload r)).Contained f upload r := by
  obtain ⟨time, a, -, -, h⟩ | ⟨time, request, hplan, -, h⟩ | ⟨-, time, h⟩ :=
    carryOut_cases f relay requestId patience (f.planOf upload r)
  · rw [h]
    exact .of_uncalled (some a)
  · rw [h]
    exact serve_contained relay requestId patience time (planOf_eq_ask_iff.1 ⟨time, hplan⟩)
  · rw [h]
    exact cut_contained _

/-! ## When the engine is asked -/

theorem calls_cut (fate : Fate) : (cut fate).calls = [] := by
  cases fate <;> rfl

theorem calls_cutCall (calls : List EngineCall) (request : EngineRequest) (fate : Fate) :
    (cutCall calls request fate).calls = calls := by
  cases fate <;> rfl

/-- The engine is asked whether or not its answer will come in time. -/
theorem calls_serve (relay : Relay) (requestId : String) (patience : Option ℕ) (start : ℕ)
    (request : EngineRequest) :
    (f.serve relay requestId patience start request).calls = [relay.call requestId request] := by
  unfold serve
  cases request <;> simp only <;> split <;> first | rfl | exact calls_cutCall ..

/-- A plan to ask is carried out if it is known in time. -/
theorem carryOut_asks_iff (relay : Relay) (requestId : String) (patience : Option ℕ)
    (planned : Option (ℕ × Plan)) (request : EngineRequest) :
    (∃ call ∈ (f.carryOut relay requestId patience planned).calls, call.request = request) ↔
      ∃ time, planned = some (time, .ask request) ∧
        Fate.of f.limitMs patience time = .answered := by
  obtain ⟨time, a, rfl, -, h⟩ | ⟨time, request', rfl, hfate, h⟩ | ⟨hlate, time, h⟩ :=
    carryOut_cases f relay requestId patience planned
  · rw [h]
    simp [quiet]
  · rw [h]
    simp [calls_serve, Relay.call, hfate]
  · rw [h]
    simp only [calls_cut, List.not_mem_nil, false_and, exists_false, false_iff]
    rintro ⟨time', hplan, hfate⟩
    exact hlate time' _ hplan hfate

/-! ## When there is a response -/

/-- Who does not leave is there until the end. -/
theorem fate_ne_abandoned (limit time : ℕ) : Fate.of limit none time ≠ .abandoned := by
  unfold Fate.of waits
  split
  · simp
  · split <;> simp

theorem response_cut {fate : Fate} (h : fate ≠ .abandoned) : (cut fate).response.isSome := by
  cases fate <;> first | rfl | exact absurd rfl h

theorem response_cutCall (calls : List EngineCall) (request : EngineRequest) {fate : Fate}
    (h : fate ≠ .abandoned) : (cutCall calls request fate).response.isSome := by
  cases fate <;> first | rfl | exact absurd rfl h

/-- Whoever waits is answered in the end. -/
theorem carryOut_responds (relay : Relay) (requestId : String) (planned : Option (ℕ × Plan)) :
    (f.carryOut relay requestId none planned).response.isSome := by
  have hfate := fate_ne_abandoned f.limitMs
  obtain ⟨time, a, -, -, h⟩ | ⟨time, request, -, -, h⟩ | ⟨-, time, h⟩ :=
    carryOut_cases f relay requestId none planned
  · rw [h]
    rfl
  · rw [h]
    unfold serve
    cases request <;> simp only <;> split <;>
      first | rfl | exact response_cutCall _ _ (hfate _)
  · rw [h]
    exact response_cut (hfate _)

/-! ## What becomes of a request -/

section Attend

variable (f : Front) (relay : Relay) (fresh : Bytes) (patience : Option ℕ) (upload : Upload)
  (r : Request)

/-- What attending to a request sets off: nothing, if it says that its body is too long, and else
what carrying out its plan does. -/
theorem contained_attend : (f.attend relay fresh patience upload r).Contained f upload r := by
  unfold attend
  refine Contained.dressed ?_ fun a => (status_finish _ _ _).trans (status_dress _ a)
  by_cases hlong : f.announcesTooMuch r = true
  · rw [if_pos hlong]
    exact .of_uncalled (some tooLongResponse)
  · rw [if_neg hlong]
    exact carryOut_contained relay _ patience

/-- The engine is asked what the plan of a request says, if the plan is known in time. -/
theorem attend_asks_iff (request : EngineRequest) :
    (∃ call ∈ (f.attend relay fresh patience upload r).calls, call.request = request) ↔
      f.announcesTooMuch r = false ∧ ∃ time, f.planOf upload r = some (time, .ask request) ∧
        Fate.of f.limitMs patience time = .answered := by
  unfold attend
  simp only
  by_cases hlong : f.announcesTooMuch r = true
  · rw [if_pos hlong]
    simp [quiet, hlong]
  · rw [if_neg hlong, carryOut_asks_iff]
    simp [hlong]

/-- Whoever waits is answered. -/
theorem attend_responds : (f.attend relay fresh none upload r).response.isSome := by
  unfold attend
  simp only [Option.isSome_map]
  by_cases hlong : f.announcesTooMuch r = true
  · rw [if_pos hlong]
    rfl
  · rw [if_neg hlong]
    exact carryOut_responds relay _ _

end Attend

/-- **Every request is contained.** At most one operation is called, and only for a
request that has passed the shape checks; an attempt is counted exactly for a call of
the operation; who is told to be at fault, or has not passed the checks, has changed
nothing; and who is answered after a call gets one of the statuses of such calls. The
engine is asked what the plan of the request says if it is known in time, and whoever
waits is answered. -/
theorem attend_contained (f : Front) (relay : Relay) (fresh : Bytes) (patience : Option ℕ)
    (upload : Upload) (r : Request) :
    (f.attend relay fresh patience upload r).Contained f upload r ∧
      (∀ request,
        (∃ call ∈ (f.attend relay fresh patience upload r).calls, call.request = request) ↔
          f.announcesTooMuch r = false ∧ ∃ time, f.planOf upload r = some (time, .ask request) ∧
            Fate.of f.limitMs patience time = .answered) ∧
      (f.attend relay fresh none upload r).response.isSome :=
  ⟨contained_attend f relay fresh patience upload r, attend_asks_iff f relay fresh patience upload r,
    attend_responds f relay fresh upload r⟩

end Front

end OrderRelay
