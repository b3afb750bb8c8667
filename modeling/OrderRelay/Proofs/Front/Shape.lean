import Mathlib.Tactic.Common
import OrderRelay.Front.Exchange

/-!
# The shape checks

A request asks something of the engine only if it passes the checks of its route:
its method, the parts of its path, what it says of its body, and the body itself,
which may come in slowly, break off or never end.

* `Front.Asks`: what a request asks of the engine, with all the checks it has passed.
* `planOf_eq_ask_iff`: **the engine is asked what a request asks that passes the
  checks, and nothing else.**
-/

namespace OrderRelay

open Http

variable {n : ℕ} {r : Request} {octets : Bytes}

/-! ## The checks of a body -/

theorem mapError_eq_ok_iff {ε ε' α : Type} {g : ε → ε'} {x : Except ε α} {v : α} :
    x.mapError g = .ok v ↔ x = .ok v := by
  cases x <;> simp [Except.mapError]

theorem readBody_eq_some_iff {text : Bytes} :
    readBody n r = some text ↔ r.body.length ≤ bodyCap n r.declaredLength? ∧ r.body = text := by
  unfold readBody
  by_cases hle : r.body.length ≤ bodyCap n r.declaredLength?
  · rw [if_pos hle, Option.some.injEq]
    exact ⟨fun h => ⟨hle, h⟩, fun h => h.2⟩
  · rw [if_neg hle]
    exact ⟨fun h => (nomatch h), fun h => absurd h.1 hle⟩

theorem readJson_eq_ok_iff {α : Type} {ofText : Bytes → Except Json.Error α} {v : α} :
    readJson ofText n r = .ok v ↔
      saysJson r = true ∧ r.body.length ≤ bodyCap n r.declaredLength? ∧ ofText r.body = .ok v := by
  unfold readJson
  constructor
  · intro h
    split at h
    · rename_i hjson
      split at h
      · cases h
      · rename_i text hbody
        obtain ⟨hle, rfl⟩ := readBody_eq_some_iff.1 hbody
        split at h
        · rename_i w htext
          cases h
          exact ⟨hjson, hle, htext⟩
        · cases h
    · cases h
  · rintro ⟨hjson, hle, htext⟩
    rw [if_pos hjson, readBody_eq_some_iff.2 ⟨hle, rfl⟩]
    simp only [htext]

/-- A body that is taken in is read, if it is said to be JSON. -/
theorem readJson_of_short {α : Type} (ofText : Bytes → Except Json.Error α) {n : ℕ}
    (hshort : r.body.length ≤ bodyCap n r.declaredLength?) :
    readJson ofText n r = if saysJson r then (ofText r.body).mapError (.unreadable r.body)
      else .error .notJson := by
  unfold readJson
  rw [readBody_eq_some_iff.2 ⟨hshort, rfl⟩]
  simp only
  cases ofText r.body <;> rfl

/-! ## The checks of a route -/

theorem pathText?_eq_ok_iff {name text : String} :
    pathText? name octets = .ok text ↔ Percent.decodeText? octets = some text := by
  unfold pathText?
  split <;> simp_all

theorem submitRequest_eq_ok_iff {order : SubmitOrderRequest} :
    submitRequest n r = .ok order ↔
      saysJson r = true ∧ r.body.length ≤ bodyCap n r.declaredLength? ∧
        ∃ draft, SubmitDraft.ofText r.body = .ok draft ∧ draft.toRequest = .ok order := by
  unfold submitRequest
  constructor
  · intro h
    split at h
    · cases h
    · rename_i draft hread
      obtain ⟨hjson, hle, htext⟩ := readJson_eq_ok_iff.1 hread
      exact ⟨hjson, hle, draft, htext, mapError_eq_ok_iff.1 h⟩
  · rintro ⟨hjson, hle, draft, htext, h⟩
    rw [readJson_eq_ok_iff.2 ⟨hjson, hle, htext⟩]
    exact mapError_eq_ok_iff.2 h

theorem modifyRequest_eq_ok_iff {order : ModifyOrderRequest} :
    modifyRequest n octets r = .ok order ↔
      ∃ ref, Percent.decodeText? octets = some ref ∧
        saysJson r = true ∧ r.body.length ≤ bodyCap n r.declaredLength? ∧
          ∃ draft, ModifyDraft.ofText r.body = .ok draft ∧ draft.toRequest ref = .ok order := by
  unfold modifyRequest
  constructor
  · intro h
    split at h
    · cases h
    · rename_i ref hpath
      split at h
      · cases h
      · rename_i draft hread
        obtain ⟨hjson, hle, htext⟩ := readJson_eq_ok_iff.1 hread
        exact ⟨ref, pathText?_eq_ok_iff.1 hpath, hjson, hle, draft, htext, mapError_eq_ok_iff.1 h⟩
  · rintro ⟨ref, href, hjson, hle, draft, htext, h⟩
    rw [pathText?_eq_ok_iff.2 href, readJson_eq_ok_iff.2 ⟨hjson, hle, htext⟩]
    exact mapError_eq_ok_iff.2 h

theorem actionRequest_eq_ok_iff {order : CancelOrderRequest} :
    actionRequest n octets r = .ok order ↔
      ∃ ref, Percent.decodeText? octets = some ref ∧ r.body.length ≤ bodyCap n r.declaredLength? ∧
        ∃ orderId, cancelTarget? ref = some orderId ∧
          ∃ draft, cancelDraft r.body = .ok draft ∧ draft.toRequest orderId = .ok order := by
  unfold actionRequest
  constructor
  · intro h
    split at h
    · cases h
    · rename_i ref hpath
      split at h
      · cases h
      · rename_i text hbody
        obtain ⟨hle, rfl⟩ := readBody_eq_some_iff.1 hbody
        split at h
        · cases h
        · rename_i orderId htarget
          split at h
          · cases h
          · rename_i draft hdraft
            exact ⟨ref, pathText?_eq_ok_iff.1 hpath, hle, orderId, htarget, draft, hdraft,
              mapError_eq_ok_iff.1 h⟩
  · rintro ⟨ref, href, hle, orderId, htarget, draft, hdraft, h⟩
    rw [pathText?_eq_ok_iff.2 href, readBody_eq_some_iff.2 ⟨hle, rfl⟩]
    simp only [htarget, hdraft]
    exact mapError_eq_ok_iff.2 h

theorem orderBookOf_eq_ok_iff {request : GetOrderBookRequest} :
    orderBookOf octets = .ok request ↔
      ∃ symbol, Percent.decodeText? octets = some symbol ∧ orderBookRequest symbol = .ok request := by
  unfold orderBookOf
  constructor
  · intro h
    split at h
    · cases h
    · rename_i symbol hpath
      exact ⟨symbol, pathText?_eq_ok_iff.1 hpath, mapError_eq_ok_iff.1 h⟩
  · rintro ⟨symbol, hsymbol, h⟩
    rw [pathText?_eq_ok_iff.2 hsymbol]
    exact mapError_eq_ok_iff.2 h

theorem tradesOf_eq_ok_iff {canUpgrade : Bool} {request : SubscribeTradesRequest} :
    tradesOf canUpgrade octets r = .ok request ↔
      Handshake.fault? canUpgrade r = none ∧
        ∃ symbol, Percent.decodeText? octets = some symbol ∧ tradesRequest symbol = .ok request := by
  unfold tradesOf
  constructor
  · intro h
    split at h
    · cases h
    · rename_i hfault
      split at h
      · cases h
      · rename_i symbol hpath
        exact ⟨hfault, symbol, pathText?_eq_ok_iff.1 hpath, mapError_eq_ok_iff.1 h⟩
  · rintro ⟨hfault, symbol, hsymbol, h⟩
    rw [hfault, pathText?_eq_ok_iff.2 hsymbol]
    exact mapError_eq_ok_iff.2 h

/-! ## What a request asks -/

namespace Front

/-- A body has been taken in whole, and is not too long. -/
def Takes (f : Front) (upload : Upload) (r : Request) (body : Bytes) : Prop :=
  body.length ≤ bodyCap f.maxBodySize r.declaredLength? ∧
    ∃ time, upload.take (bodyCap f.maxBodySize r.declaredLength?) [] = some (time, .ok body)

/-- The route of a request. -/
def routeOf (r : Request) : Option Route := Route.ofPath? (Uri.path r.target)

/-- **What a request asks of the engine**, with the checks that it has passed: its
route and method, its handshake, the text of the parameter in its path, what it says
of its body, the body, and the values that must not be missing. -/
inductive Asks (f : Front) (upload : Upload) (r : Request) : EngineRequest → Prop where
  | submit {body : Bytes} {draft : SubmitDraft} {order : SubmitOrderRequest}
      (hroute : routeOf r = some .orders) (hmethod : r.method = "POST")
      (hjson : saysJson r = true) (hbody : f.Takes upload r body)
      (htext : SubmitDraft.ofText body = .ok draft) (horder : draft.toRequest = .ok order) :
      Asks f upload r (.order .submitOrder order)
  | cancel {octets body : Bytes} {ref orderId : String} {draft : CancelDraft}
      {order : CancelOrderRequest}
      (hroute : routeOf r = some (.order octets)) (hmethod : r.method = "POST")
      (href : Percent.decodeText? octets = some ref) (hbody : f.Takes upload r body)
      (htarget : cancelTarget? ref = some orderId) (hdraft : cancelDraft body = .ok draft)
      (horder : draft.toRequest orderId = .ok order) : Asks f upload r (.order .cancelOrder order)
  | modify {octets body : Bytes} {ref : String} {draft : ModifyDraft} {order : ModifyOrderRequest}
      (hroute : routeOf r = some (.order octets)) (hmethod : r.method = "PATCH")
      (href : Percent.decodeText? octets = some ref) (hjson : saysJson r = true)
      (hbody : f.Takes upload r body) (htext : ModifyDraft.ofText body = .ok draft)
      (horder : draft.toRequest ref = .ok order) : Asks f upload r (.order .modifyOrder order)
  | orderBook {octets : Bytes} {symbol : String} {request : GetOrderBookRequest}
      (hroute : routeOf r = some (.orderBook octets))
      (hmethod : r.method = "GET" ∨ r.method = "HEAD")
      (hsymbol : Percent.decodeText? octets = some symbol)
      (hrequest : orderBookRequest symbol = .ok request) :
      Asks f upload r (.order .getOrderBook request)
  | trades {octets : Bytes} {symbol : String} {request : SubscribeTradesRequest}
      (hroute : routeOf r = some (.trades octets)) (hmethod : r.method = "GET" ∨ r.method = "HEAD")
      (hfault : Handshake.fault? f.canUpgrade r = none)
      (hsymbol : Percent.decodeText? octets = some symbol)
      (hrequest : tradesRequest symbol = .ok request) : Asks f upload r (.trades request)

variable {f : Front} {upload : Upload} {request : EngineRequest}

theorem ofResult_eq_ask_iff {α : Type} {g : α → EngineRequest} {x : Except Refusal α} :
    Plan.ofResult g x = .ask request ↔ ∃ v, x = .ok v ∧ g v = request := by
  cases x with
  | error e => simp [Plan.ofResult]
  | ok v => simp [Plan.ofResult]

theorem ofResult_eq_respond_iff {α : Type} {g : α → EngineRequest} {x : Except Refusal α}
    {a : Response} : Plan.ofResult g x = .respond a ↔ ∃ e, x = .error e ∧ e.response = a := by
  cases x with
  | error e => simp [Plan.ofResult]
  | ok v => simp [Plan.ofResult]

/-- What the plan of a request to a route asks once the method is right. -/
def RouteAsks (f : Front) (r : Request) (request : EngineRequest) : Route → Prop
  | .orders =>
    ∃ order, submitRequest f.maxBodySize r = .ok order ∧ .order .submitOrder order = request
  | .order octets =>
    if r.method = "POST" then
      ∃ order, actionRequest f.maxBodySize octets r = .ok order ∧ .order .cancelOrder order = request
    else
      ∃ order, modifyRequest f.maxBodySize octets r = .ok order ∧ .order .modifyOrder order = request
  | .orderBook octets => ∃ book, orderBookOf octets = .ok book ∧ .order .getOrderBook book = request
  | .trades octets =>
    ∃ trades, tradesOf f.canUpgrade octets r = .ok trades ∧ .trades trades = request
  | .health => False

theorem ofRoute_eq_ask_iff {route : Route} :
    Plan.ofRoute f.maxBodySize f.canUpgrade f.link route r = .ask request ↔
      r.method ∈ route.methods ∧ f.RouteAsks r request route := by
  unfold Plan.ofRoute
  by_cases hm : r.method ∈ route.methods
  · rw [if_neg (by simpa using hm)]
    cases route with
    | order octets =>
      simp only [hm, true_and]
      unfold RouteAsks
      split <;> exact ofResult_eq_ask_iff
    | orders | orderBook | trades => simp [hm, RouteAsks, ofResult_eq_ask_iff]
    | health => simp [RouteAsks]
  · rw [if_pos (by simpa using hm)]
    simp [hm]

theorem plan_of_route {route : Route} (h : routeOf r = some route) :
    f.plan r = Plan.ofRoute f.maxBodySize f.canUpgrade f.link route r := by
  unfold plan
  unfold routeOf at h
  rw [h]

/-- A body that breaks off is never the reason to ask the engine. -/
theorem ofBroken_ne_ask (route : Route) (method reason : String) :
    Plan.ofBroken route method reason ≠ .ask request := by
  intro h
  unfold Plan.ofBroken at h
  split at h
  · split at h <;> cases h
  · cases h

/-- The plan of a request to a known route is that of the request with the body that
has been taken in, or with any other body if none is needed. -/
theorem planOf_eq_ask_iff_plan {route : Route} (h : routeOf r = some route) {time : ℕ} :
    f.planOf upload r = some (time, .ask request) ↔
      if Plan.readsBody route r then ∃ body,
        upload.take (bodyCap f.maxBodySize r.declaredLength?) [] = some (time, .ok body) ∧
          f.plan { r with body := body } = .ask request
      else time = 0 ∧ f.plan r = .ask request := by
  unfold planOf
  unfold routeOf at h
  rw [h]
  simp only
  by_cases hreads : Plan.readsBody route r = true
  · rw [if_pos hreads, if_pos hreads]
    cases htake : upload.take (bodyCap f.maxBodySize r.declaredLength?) [] with
    | none => simp
    | some taken =>
      obtain ⟨time', reason | body⟩ := taken
      · simp [ofBroken_ne_ask]
      · simp [eq_comm]
  · rw [if_neg hreads, if_neg hreads]
    simp [eq_comm]

/-- What is asked once the body has been taken in, where it is needed, is what a
request asks that has passed the checks. -/
theorem asks_of_plan {route : Route} (hroute : routeOf r = some route) {body : Bytes}
    (hplan : f.plan { r with body := body } = .ask request)
    (htake : Plan.readsBody route r = true →
      ∃ time, upload.take (bodyCap f.maxBodySize r.declaredLength?) [] = some (time, .ok body)) :
    f.Asks upload r request := by
  rw [plan_of_route (by exact hroute), ofRoute_eq_ask_iff] at hplan
  obtain ⟨hmethod, hplan⟩ := hplan
  cases route with
  | orders =>
    have hpost : r.method = "POST" := by simpa [Route.methods] using hmethod
    obtain ⟨order, horder, rfl⟩ := hplan
    obtain ⟨hjson, hle, draft, htext, hok⟩ := submitRequest_eq_ok_iff.1 horder
    -- the body was needed, so it has been taken in
    have hreads : Plan.readsBody .orders r = true := by
      rw [Plan.readsBody, hpost]; exact hjson
    exact .submit hroute hpost hjson ⟨hle, htake hreads⟩ htext hok
  | order octets =>
    change (if r.method = "POST" then _ else _) at hplan
    by_cases hpost : r.method = "POST"
    · rw [if_pos hpost] at hplan
      obtain ⟨order, horder, rfl⟩ := hplan
      obtain ⟨ref, href, hle, orderId, htarget, draft, hdraft, hok⟩ :=
        actionRequest_eq_ok_iff.1 horder
      have hreads : Plan.readsBody (.order octets) r = true := by
        simp [Plan.readsBody, Route.methods, hpost, href]
      exact .cancel hroute hpost href ⟨hle, htake hreads⟩ htarget hdraft hok
    · rw [if_neg hpost] at hplan
      have hpatch : r.method = "PATCH" := by simpa [Route.methods, hpost] using hmethod
      obtain ⟨order, horder, rfl⟩ := hplan
      obtain ⟨ref, href, hjson, hle, draft, htext, hok⟩ := modifyRequest_eq_ok_iff.1 horder
      have hreads : Plan.readsBody (.order octets) r = true := by
        have hjson' : saysJson r = true := hjson
        simp [Plan.readsBody, Route.methods, hpatch, href, hjson']
      exact .modify hroute hpatch href hjson ⟨hle, htake hreads⟩ htext hok
  | orderBook octets =>
    obtain ⟨book, hbook, rfl⟩ := hplan
    obtain ⟨symbol, hsymbol, hok⟩ := orderBookOf_eq_ok_iff.1 hbook
    exact .orderBook hroute (by simpa [Route.methods] using hmethod) hsymbol hok
  | trades octets =>
    obtain ⟨trades, htrades, rfl⟩ := hplan
    obtain ⟨hfault, symbol, hsymbol, hok⟩ := tradesOf_eq_ok_iff.1 htrades
    exact .trades hroute (by simpa [Route.methods] using hmethod) hfault hsymbol hok
  | health => exact hplan.elim

/-- A body that is needed matters as it has been taken in. -/
theorem exists_planOf_of_takes {route : Route} (hroute : routeOf r = some route) {body : Bytes}
    (hreads : Plan.readsBody route r = true) (hbody : f.Takes upload r body)
    (hplan : f.plan { r with body := body } = .ask request) :
    ∃ time, f.planOf upload r = some (time, .ask request) := by
  obtain ⟨-, time, htake⟩ := hbody
  refine ⟨time, (planOf_eq_ask_iff_plan hroute).2 ?_⟩
  rw [if_pos hreads]
  exact ⟨body, htake, hplan⟩

/-- A body that is not needed is not waited for. -/
theorem exists_planOf_of_not_readsBody {route : Route} (hroute : routeOf r = some route)
    (hreads : ¬Plan.readsBody route r = true) (hplan : f.plan r = .ask request) :
    ∃ time, f.planOf upload r = some (time, .ask request) := by
  refine ⟨0, (planOf_eq_ask_iff_plan hroute).2 ?_⟩
  rw [if_neg hreads]
  exact ⟨rfl, hplan⟩

/-- **The engine is asked what a request asks that has passed the checks**, at some
moment, and nothing else. -/
theorem planOf_eq_ask_iff :
    (∃ time, f.planOf upload r = some (time, .ask request)) ↔ f.Asks upload r request := by
  constructor
  · rintro ⟨time, h⟩
    cases hroute : routeOf r with
    | none =>
      unfold routeOf at hroute
      simp [planOf, plan, hroute] at h
    | some route =>
      rw [planOf_eq_ask_iff_plan hroute] at h
      -- a body that is not needed may be the one that the request has
      by_cases hreads : Plan.readsBody route r = true
      · rw [if_pos hreads] at h
        obtain ⟨body, htake, hplan⟩ := h
        exact asks_of_plan hroute hplan fun _ => ⟨time, htake⟩
      · rw [if_neg hreads] at h
        exact asks_of_plan hroute h.2 fun h' => absurd h' hreads
  · intro h
    cases h with
    | @submit body _ order hroute hmethod hjson hbody htext horder =>
      have hallowed : r.method ∈ Route.orders.methods := by simp [Route.methods, hmethod]
      have hreads : Plan.readsBody .orders r = true := by
        rw [Plan.readsBody, hmethod]; exact hjson
      have hasked : submitRequest f.maxBodySize { r with body := body } = .ok order :=
        submitRequest_eq_ok_iff.2 ⟨hjson, hbody.1, _, htext, horder⟩
      refine exists_planOf_of_takes hroute hreads hbody ?_
      rw [plan_of_route (by exact hroute), ofRoute_eq_ask_iff]
      exact ⟨hallowed, _, hasked, rfl⟩
    | @cancel octets body _ _ _ order hroute hmethod href hbody htarget hdraft horder =>
      have hallowed : r.method ∈ (Route.order octets).methods := by simp [Route.methods, hmethod]
      have hreads : Plan.readsBody (.order octets) r = true := by
        simp [Plan.readsBody, Route.methods, hmethod, href]
      have hasked : actionRequest f.maxBodySize octets { r with body := body } = .ok order :=
        actionRequest_eq_ok_iff.2 ⟨_, href, hbody.1, _, htarget, _, hdraft, horder⟩
      refine exists_planOf_of_takes hroute hreads hbody ?_
      rw [plan_of_route (by exact hroute), ofRoute_eq_ask_iff]
      refine ⟨hallowed, ?_⟩
      change if r.method = "POST" then _ else _
      rw [if_pos hmethod]
      exact ⟨_, hasked, rfl⟩
    | @modify octets body _ _ order hroute hmethod href hjson hbody htext horder =>
      have hpost : ¬r.method = "POST" := by simp [hmethod]
      have hallowed : r.method ∈ (Route.order octets).methods := by simp [Route.methods, hmethod]
      have hreads : Plan.readsBody (.order octets) r = true := by
        simp [Plan.readsBody, Route.methods, hmethod, href, hjson]
      have hasked : modifyRequest f.maxBodySize octets { r with body := body } = .ok order :=
        modifyRequest_eq_ok_iff.2 ⟨_, href, hjson, hbody.1, _, htext, horder⟩
      refine exists_planOf_of_takes hroute hreads hbody ?_
      rw [plan_of_route (by exact hroute), ofRoute_eq_ask_iff]
      refine ⟨hallowed, ?_⟩
      change if r.method = "POST" then _ else _
      rw [if_neg hpost]
      exact ⟨_, hasked, rfl⟩
    | @orderBook octets _ _ hroute hmethod hsymbol hrequest =>
      have hallowed : r.method ∈ (Route.orderBook octets).methods := by
        simpa [Route.methods] using hmethod
      have hreads : ¬Plan.readsBody (.orderBook octets) r = true := by simp [Plan.readsBody]
      have hasked := orderBookOf_eq_ok_iff.2 ⟨_, hsymbol, hrequest⟩
      refine exists_planOf_of_not_readsBody hroute hreads ?_
      rw [plan_of_route hroute, ofRoute_eq_ask_iff]
      exact ⟨hallowed, _, hasked, rfl⟩
    | @trades octets _ _ hroute hmethod hfault hsymbol hrequest =>
      have hallowed : r.method ∈ (Route.trades octets).methods := by
        simpa [Route.methods] using hmethod
      have hreads : ¬Plan.readsBody (.trades octets) r = true := by simp [Plan.readsBody]
      have hasked := tradesOf_eq_ok_iff.2 ⟨hfault, _, hsymbol, hrequest⟩
      refine exists_planOf_of_not_readsBody hroute hreads ?_
      rw [plan_of_route hroute, ofRoute_eq_ask_iff]
      exact ⟨hallowed, _, hasked, rfl⟩

end Front

end OrderRelay
