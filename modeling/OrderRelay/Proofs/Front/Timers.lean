import OrderRelay.Proofs.Front.Containment
import OrderRelay.Service.Assembly

/-!
# Three timers

An operation that is asked for over HTTP ends with whatever comes first: the answer of
the engine, the deadline of the relay, or the time limit of the request. The time limit
wins a tie, and the answer wins a tie with the deadline.

* `Front.Accepts`: a request whose body is there at once has passed all checks.
* `Exchange.Counts`: what is counted, as a list of series.
* `exchange_timed`: **the three times decide the response and what is counted**; with
  settings that have passed their checks the time limit never comes first.
-/

namespace OrderRelay

open Http

/-! ## What is counted -/

/-- The series that events count up. -/
def MeterEvent.seriesOf (es : List MeterEvent) : List Series := es.filterMap MeterEvent.series?

/-- Events count their series up unless a subscription ends. -/
theorem changes_eq_count_seriesOf {es : List MeterEvent} (h : ∀ e ∈ es, e.change = 1) (s : Series) :
    changes es s = (MeterEvent.seriesOf es).count s := by
  induction es with
  | nil => rfl
  | cons e es ih =>
    have ih := ih fun e' he' => h e' (List.mem_cons_of_mem _ he')
    rw [changes_cons, ih, MeterEvent.changeOf, h e List.mem_cons_self]
    unfold MeterEvent.seriesOf
    rw [List.filterMap_cons]
    cases hs : e.series? with
    | none => simp
    | some t =>
      rw [List.count_cons]
      by_cases ht : t = s <;> simp [ht, add_comm]

theorem callEvents_change (op : Operation) (order : op.Request) (finish : Finish) :
    ∀ e ∈ callEvents (.order op order) finish, e.change = 1 := by
  rcases finish with (_ | v) | _ | _ <;>
    simp [callEvents, startEvents, finishEvents, MeterEvent.change]

namespace Exchange

/-- **What is counted**: each of these series goes up by one for each time it is listed,
and no other series changes. -/
def Counts (x : Exchange) (counted : List Series) : Prop :=
  ∀ (readings : Readings) (s : Series),
    (readings.recordAll x.counted).value s = readings.value s + counted.count s

/-- The response is sent with this status and this text, which is withheld from whoever
has asked for the head only. -/
def Answers (x : Exchange) (r : Request) (status : ℕ) (text : String) : Prop :=
  ∃ a, x.response = some a ∧ a.status = status ∧
    a.body = if r.method = "HEAD" then [] else Utf8.encode text

theorem Counts.of_events {x : Exchange} (h : ∀ e ∈ x.counted, e.change = 1) :
    x.Counts (MeterEvent.seriesOf x.counted) := by
  intro readings s
  rw [Readings.value_recordAll, changes_eq_count_seriesOf h]

end Exchange

namespace Front

variable {f : Front} {r : Request} {op : Operation} {order : op.Request}

/-! ## Requests that are accepted -/

/-- **A request is accepted**: it has passed all checks, and its body is there at once. -/
def Accepts (f : Front) (r : Request) (request : EngineRequest) : Prop :=
  f.announcesTooMuch r = false ∧ f.Asks (.atOnce r.body) r request

/-- The id under which a request is passed on. -/
def passedId (fresh : Bytes) (r : Request) : String :=
  RequestId.ofHeaders (some (idOf fresh r)) r.headers

/-- What the engine says to an operation that a request asks for. -/
def replyTo (relay : Relay) (fresh : Bytes) (r : Request) (op : Operation) (order : op.Request) :
    EngineReply op.Response :=
  relay.engine.order op order (relay.orderContext (passedId fresh r))

/-- A body that is there at once keeps nothing waiting. -/
theorem planOf_of_accepts {request : EngineRequest} (h : f.Accepts r request) :
    f.planOf (.atOnce r.body) r = some (0, .ask request) := by
  obtain ⟨time, hplan⟩ := planOf_eq_ask_iff.2 h.2
  cases hroute : routeOf r with
  | none =>
    unfold routeOf at hroute
    simp [planOf, plan, hroute] at hplan
  | some route =>
    have hask := (planOf_eq_ask_iff_plan hroute).1 hplan
    split at hask
    · obtain ⟨body, htake, -⟩ := hask
      rw [Upload.take_atOnce] at htake
      cases htake
      exact hplan
    · rw [← hask.1]
      exact hplan

/-- A response as it is sent. -/
def sent (fresh : Bytes) (r : Request) (a : Response) : Response :=
  finish (routeOf r) r.method (dress (idOf fresh r) a)

theorem status_sent (fresh : Bytes) (r : Request) (a : Response) :
    (sent fresh r a).status = a.status :=
  (status_finish _ _ _).trans (status_dress _ _)

/-- A body is sent as it is, unless only the head has been asked for. -/
theorem body_sent {route : Route} (h : routeOf r = some route) (fresh : Bytes) (a : Response) :
    (sent fresh r a).body = if r.method = "HEAD" then [] else a.body := by
  unfold sent finish
  rw [h]
  simp only
  split <;> split <;> split <;> rfl

/-- Whoever is accepted has asked for a route that is known. -/
theorem exists_routeOf_of_asks {upload : Upload} {request : EngineRequest}
    (h : f.Asks upload r request) : ∃ route, routeOf r = some route := by
  cases h with
  | submit hroute => exact ⟨_, hroute⟩
  | cancel hroute => exact ⟨_, hroute⟩
  | modify hroute => exact ⟨_, hroute⟩
  | orderBook hroute => exact ⟨_, hroute⟩
  | trades hroute => exact ⟨_, hroute⟩

/-- The response to an operation as it is sent. -/
theorem answers_sent {x : Exchange} {route : Route} (hroute : routeOf r = some route)
    {fresh : Bytes} {status : ℕ} {text : String}
    (h : x.response = some (sent fresh r (.json status text))) : x.Answers r status text :=
  ⟨_, h, status_sent fresh r _, body_sent hroute fresh _⟩

/-- What becomes of a request that announces too much: it is turned away. -/
theorem attend_of_announcesTooMuch (h : f.announcesTooMuch r = true) (relay : Relay)
    (fresh : Bytes) (patience : Option ℕ) (upload : Upload) :
    f.attend relay fresh patience upload r = .quiet (sent fresh r tooLongResponse) := by
  unfold attend
  simp only
  rw [if_pos h]
  rfl

/-- What becomes of a request that does not announce too much: its plan is carried out. -/
theorem attend_of_announced (h : f.announcesTooMuch r = false) (relay : Relay) (fresh : Bytes)
    (patience : Option ℕ) (upload : Upload) :
    let inner := f.carryOut relay (passedId fresh r) patience (f.planOf upload r)
    f.attend relay fresh patience upload r =
      { inner with response := inner.response.map (sent fresh r) } := by
  unfold attend
  simp only
  rw [if_neg (by simp [h])]
  rfl

/-- What becomes of an accepted request, before anything is added to the response. -/
theorem exchange_of_accepts {request : EngineRequest} (h : f.Accepts r request) (relay : Relay)
    (fresh : Bytes) :
    let inner := f.carryOut relay (passedId fresh r) none (some (0, .ask request))
    f.exchange relay fresh none r =
      { inner with response := inner.response.map (sent fresh r) } := by
  unfold exchange
  rw [attend_of_announced h.1, planOf_of_accepts h]

/-! ## Which timer comes first -/

/-- Without anyone who leaves, the time limit decides. -/
theorem fate_of_waiting (limit time : ℕ) :
    Fate.of limit none time =
      if limit = 0 then .unheard else if limit ≤ time then .expired else .answered := by
  simp [Fate.of, waits]

/-- What comes at once is in time, whether or not the caller waits. -/
theorem fate_of_zero {limit : ℕ} (h : 0 < limit) (patience : Option ℕ) :
    Fate.of limit patience 0 = .answered := by
  have hwaits : waits patience 0 = true := by cases patience <;> rfl
  unfold Fate.of
  rw [if_neg (by omega), if_neg (by omega), if_pos hwaits]

/-- Without any time, a request is not looked at. -/
theorem carryOut_unheard (hlimit : f.limitMs = 0) (relay : Relay) (requestId : String) (plan : Plan) :
    f.carryOut relay requestId none (some (0, plan)) = .quiet expiredResponse := by
  have hfate : Fate.of f.limitMs none 0 = .unheard := by rw [fate_of_waiting, if_pos hlimit]
  rw [carryOut_late (by rw [hfate]; decide), hfate]
  rfl

/-- The time limit comes before the call has ended, or at that moment. -/
theorem carryOut_expired (hlimit : 0 < f.limitMs) {relay : Relay} {requestId : String}
    (htime : f.limitMs ≤ (relay.order requestId op order).1) :
    f.carryOut relay requestId none (some (0, .ask (.order op order))) =
      ⟨some expiredResponse, [relay.call requestId (.order op order)],
        callEvents (.order op order) .dropped, none⟩ := by
  rw [carryOut_ask (fate_of_zero hlimit none)]
  unfold serve
  simp only [fate_of_waiting, if_neg (show ¬f.limitMs = 0 by omega), Nat.zero_add, if_pos htime]
  rfl

/-- The call has ended before the time limit. -/
theorem carryOut_answered {relay : Relay} {requestId : String}
    (htime : (relay.order requestId op order).1 < f.limitMs) :
    f.carryOut relay requestId none (some (0, .ask (.order op order))) =
      ⟨some (orderResponse (relay.order requestId op order).2),
        [relay.call requestId (.order op order)],
        callEvents (.order op order)
          (Ending.finish (.returned ((relay.order requestId op order).2.map (.order op)))), none⟩ := by
  rw [carryOut_ask (fate_of_zero (by omega) none)]
  unfold serve
  simp only [fate_of_waiting, if_neg (show ¬f.limitMs = 0 by omega), Nat.zero_add,
    if_neg (show ¬f.limitMs ≤ (relay.order requestId op order).1 by omega)]

/-- The deadline ends a call that the engine has not ended before. -/
theorem order_eq (relay : Relay) (fresh : Bytes) (r : Request) (op : Operation)
    (order : op.Request) :
    relay.order (passedId fresh r) op order =
      settle relay.deadlineMs (replyTo relay fresh r op order) := rfl

/-! ## What the timers decide -/

/-- The series that every call of an operation counts up. -/
def calledSeries (op : Operation) : List Series :=
  (Series.attempts? op).toList ++ [Series.latency op]

/-- The text for a call that the engine has not ended before the deadline. -/
def overdueText (deadlineMs : ℕ) : String :=
  Json.Value.compact (.object [
    ("error", .text ("backend call exceeded deadline of " ++ natText deadlineMs ++ "ms")),
    ("code", .text "BACKEND_TIMEOUT")])

theorem message_timeout (micros : ℕ) : (RelayError.timeout micros).message =
    "backend call exceeded deadline of " ++ natText (micros / 1000) ++ "ms" := by
  rfl

theorem body_timeout (deadlineMs : ℕ) :
    (RelayError.timeout (1000 * deadlineMs)).body = overdueText deadlineMs := by
  have hms : 1000 * deadlineMs / 1000 = deadlineMs :=
    Nat.mul_div_cancel_left deadlineMs (by decide)
  unfold RelayError.body RelayError.toJson overdueText
  rw [message_timeout, hms]
  rfl

/-- The parts are those that the service puts together from settings. -/
structure BuiltFrom (s : Settings) (a : Assembly) (f : Front) (relay : Relay) : Prop where
  assembled : Assembly.ofSettings s = .ok a
  requestSecs : f.requestSecs = s.timeouts.requestSecs.toNat
  maxBodySize : f.maxBodySize = s.security.maxBodySize.toNat
  link : f.link = a.link
  deadlineMs : relay.deadlineMs = a.deadlineMs.toNat

theorem deadlineMs_ofSettings {s : Settings} {a : Assembly} (h : Assembly.ofSettings s = .ok a) :
    a.deadlineMs = s.engine.deadlineMs := by
  unfold Assembly.ofSettings at h
  split at h
  · cases h
  · split at h
    · cases h
    · cases h; rfl

/-- **Settings that have passed their checks** leave the engine less time than the
request. -/
theorem deadlineMs_lt_limitMs {s : Settings} {a : Assembly} {relay : Relay} (hs : s.problems = [])
    (h : BuiltFrom s a f relay) : relay.deadlineMs < f.limitMs := by
  obtain ⟨-, -, -, -, -, -, hlt, -⟩ := Settings.problems_eq_nil_iff.1 hs
  have hsecs : millis s.timeouts.requestSecs ≤ s.timeouts.requestSecs.toNat * 1000 :=
    Nat.min_le_left _ _
  unfold limitMs
  rw [h.deadlineMs, deadlineMs_ofSettings h.assembled, h.requestSecs]
  omega

/-- The time limit comes first. -/
theorem exchange_expired (h : f.Accepts r (.order op order)) (relay : Relay) (fresh : Bytes)
    (htime : (f.limitMs : ℕ∞) ≤ min (replyTo relay fresh r op order).time relay.deadlineMs) :
    (∃ a, (f.exchange relay fresh none r).response = some a ∧ a.status = 408 ∧ a.body = []) ∧
      (f.exchange relay fresh none r).Counts (if f.limitMs = 0 then [] else calledSeries op) := by
  obtain ⟨route, hroute⟩ := exists_routeOf_of_asks h.2
  have hbody : (sent fresh r expiredResponse).body = [] := by
    rw [body_sent hroute]; split <;> rfl
  rw [exchange_of_accepts h]
  by_cases hzero : f.limitMs = 0
  · rw [carryOut_unheard hzero, if_pos hzero]
    exact ⟨⟨_, rfl, status_sent _ _ _, hbody⟩, .of_events fun e he => nomatch he⟩
  · rw [← settle_fst, ← order_eq, Nat.cast_le] at htime
    rw [carryOut_expired (by omega) htime, if_neg hzero]
    exact ⟨⟨_, rfl, status_sent _ _ _, hbody⟩,
      by cases op <;> exact .of_events (callEvents_change _ order .dropped)⟩

/-- The call ends first, and with it the request. -/
theorem exchange_answered (h : f.Accepts r (.order op order)) (relay : Relay) (fresh : Bytes)
    (htime : min (replyTo relay fresh r op order).time relay.deadlineMs < (f.limitMs : ℕ∞)) :
    let result := (settle relay.deadlineMs (replyTo relay fresh r op order)).2
    (f.exchange relay fresh none r).response = some (sent fresh r (orderResponse result)) ∧
      (f.exchange relay fresh none r).Counts (MeterEvent.seriesOf
        (callEvents (.order op order) (Ending.finish (.returned (result.map (.order op)))))) := by
  rw [← settle_fst, ← order_eq, Nat.cast_lt] at htime
  rw [exchange_of_accepts h, carryOut_answered htime]
  exact ⟨rfl, .of_events (callEvents_change op order _)⟩

/-- The series of a call that has been answered. -/
theorem seriesOf_answered (op : Operation) (order : op.Request) (m : op.Response) :
    MeterEvent.seriesOf (callEvents (.order op order)
        (Ending.finish (.returned ((.ok m : CallResult op.Response).map (.order op))))) =
      calledSeries op ++ ((op.verdict? m).bind (Series.outcome? op)).toList := by
  cases op with
  | getOrderBook => rfl
  | submitOrder | cancelOrder | modifyOrder =>
    cases hv : Operation.verdict? _ m with
    | none => cases hv
    | some v =>
      simp only [Ending.finish, Except.map, hv]
      cases v <;> rfl

/-- The series of a call that has failed. -/
theorem seriesOf_failed (op : Operation) (order : op.Request) (e : RelayError) :
    MeterEvent.seriesOf (callEvents (.order op order)
        (Ending.finish (.returned ((.error e : CallResult op.Response).map (.order op))))) =
      calledSeries op ++ [Series.failures op] := by
  cases op <;> rfl

/-- **The three times decide.** Let `T` be the time limit of the request, `D` the
deadline of the relay, and `d` the time that the engine takes, which may be forever.

* If `T ≤ min d D`, the response has status 408 and no body, and no outcome or failure is
  counted; an attempt and one latency are, unless there is no time at all.
* If not, and `d ≤ D`, the response is the engine's reply or failure.
* If not, the deadline has passed, which is told and counted as a failure.

With the parts that are put together from settings that have passed their checks, the
first case is impossible. -/
theorem exchange_timed (h : f.Accepts r (.order op order)) (relay : Relay) (fresh : Bytes) :
    let x := f.exchange relay fresh none r
    let reply := replyTo relay fresh r op order
    ((f.limitMs : ℕ∞) ≤ min reply.time relay.deadlineMs →
      (∃ a, x.response = some a ∧ a.status = 408 ∧ a.body = []) ∧
        x.Counts (if f.limitMs = 0 then [] else calledSeries op)) ∧
    (min reply.time relay.deadlineMs < (f.limitMs : ℕ∞) → reply.time ≤ relay.deadlineMs →
      (∀ m, reply.result = .ok m → x.Answers r 200 (Message.text m) ∧
        x.Counts (calledSeries op ++ ((op.verdict? m).bind (Series.outcome? op)).toList)) ∧
      ∀ e, reply.result = .error e →
        x.Answers r (RelayError.engine e).status (RelayError.engine e).body ∧
          x.Counts (calledSeries op ++ [Series.failures op])) ∧
    (min reply.time relay.deadlineMs < (f.limitMs : ℕ∞) → relay.deadlineMs < reply.time →
      x.Answers r 504 (overdueText relay.deadlineMs) ∧
        x.Counts (calledSeries op ++ [Series.failures op])) ∧
    ∀ s a, s.problems = [] → BuiltFrom s a f relay →
      ∃ response, x.response = some response ∧ response.status ≠ 408 := by
  obtain ⟨route, hroute⟩ := exists_routeOf_of_asks h.2
  refine ⟨exchange_expired h relay fresh, fun htime hd => ?_, fun htime hd => ?_,
    fun s a hs hbuilt => ?_⟩
  · have hanswer := exchange_answered h relay fresh htime
    obtain ⟨delay, hdelay, hle⟩ := EngineReply.time_le_iff.1 hd
    rw [settle_of_le hdelay hle] at hanswer
    refine ⟨fun m hm => ?_, fun e he => ?_⟩
    · rw [hm] at hanswer
      refine ⟨answers_sent hroute hanswer.1, ?_⟩
      rw [← seriesOf_answered op order m]
      exact hanswer.2
    · rw [he] at hanswer
      refine ⟨answers_sent hroute hanswer.1, ?_⟩
      rw [← seriesOf_failed op order (.engine e)]
      exact hanswer.2
  · have hanswer := exchange_answered h relay fresh htime
    rw [settle_of_lt hd] at hanswer
    refine ⟨?_, ?_⟩
    · rw [← body_timeout]
      exact answers_sent hroute hanswer.1
    · rw [← seriesOf_failed op order (.timeout (1000 * relay.deadlineMs))]
      exact hanswer.2
  · -- the call ends by the deadline, and the deadline lies before the time limit
    have hlt := deadlineMs_lt_limitMs hs hbuilt
    have htime : min (replyTo relay fresh r op order).time relay.deadlineMs < (f.limitMs : ℕ∞) :=
      (min_le_right _ _).trans_lt (Nat.cast_lt.2 hlt)
    have hanswer := exchange_answered h relay fresh htime
    refine ⟨_, hanswer.1, ?_⟩
    rw [status_sent]
    cases hresult : (settle relay.deadlineMs (replyTo relay fresh r op order)).2 with
    | ok m => change 200 ≠ 408; decide
    | error e =>
      intro h408
      have hmem := RelayError.status_of_isEngineFailure (settle_isEngineFailure hresult)
      have hstatus : e.status = 408 := h408
      rw [hstatus] at hmem
      revert hmem
      decide

/-- The front that the default settings make. -/
def defaultFront : Front := ⟨30, 65536, false, ⟨"localhost:50051", true⟩⟩

/-- A relay with the default deadline, and an engine that takes six seconds for everything. -/
def slowRelay : Relay :=
  ⟨5000, ⟨fun _ _ _ => ⟨some 6000, .error .linkClosed⟩,
    fun _ _ => ⟨some 6000, .error .linkClosed⟩⟩⟩

/-- Asks for the order book of one symbol. -/
def bookRequest : Request := ⟨"GET", Utf8.encode "/v1/orderbook/A", [], []⟩

theorem accepts_bookRequest : defaultFront.Accepts bookRequest (.order .getOrderBook ⟨"A"⟩) := by
  have hroute : routeOf bookRequest = some (.orderBook [0x41]) := by decide
  have hsymbol : Percent.decodeText? [0x41] = some "A" := by decide
  have hrequest : orderBookRequest "A" = .ok ⟨"A"⟩ := by decide
  exact ⟨by decide, .orderBook hroute (.inl rfl) hsymbol hrequest⟩

theorem builtFrom_default : ∃ a, BuiltFrom {} a defaultFront slowRelay := by
  cases ha : Assembly.ofSettings {} with
  | error e =>
    have hok : (Assembly.ofSettings {}).toBool = true := by decide
    rw [ha] at hok
    cases hok
  | ok a =>
    have hlink : (Assembly.ofSettings {}).map Assembly.link = .ok defaultFront.link := by
      decide
    rw [ha] at hlink
    refine ⟨a, ha, by decide, by decide, ?_, ?_⟩
    · exact (Except.ok.inj hlink).symm
    · rw [deadlineMs_ofSettings ha]
      decide

/-- With the default settings, an engine that takes six seconds is told to be too late. -/
theorem exchange_timed_overdue :
    (defaultFront.exchange slowRelay [] none bookRequest).Answers bookRequest 504
        (overdueText 5000) ∧
      (defaultFront.exchange slowRelay [] none bookRequest).Counts [.bookLatency, .bookFailures] ∧
      ∃ a, (defaultFront.exchange slowRelay [] none bookRequest).response = some a ∧
        a.status ≠ 408 := by
  have htimed := exchange_timed accepts_bookRequest slowRelay []
  obtain ⟨a, hbuilt⟩ := builtFrom_default
  have hover := htimed.2.2.1 (by decide) (by decide)
  exact ⟨hover.1, hover.2, htimed.2.2.2 {} a (by decide +kernel) hbuilt⟩

end Front

end OrderRelay
