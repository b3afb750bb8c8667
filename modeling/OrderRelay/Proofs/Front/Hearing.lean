import OrderRelay.Proofs.Front.Containment

/-!
# What the engine hears

The engine hears what the plan of a request asks, if the plan is known in time. A plan
that needs the body is known once the body has been taken in.

* `Front.Heard`: the engine is asked this for a request.
* `heard_iff`: when that is so.
* `Receives`: a body has been taken in whole.
* `planOf_of_receives`: **the plan of a request whose body has been taken in** is that
  of the request with this body.
* `follow`, `attend_of_receives`: what becomes of such a request.
-/

namespace OrderRelay

open Http

namespace Front

variable {f : Front} {relay : Relay} {fresh : Bytes} {patience : Option ℕ} {upload : Upload}
  {r : Request} {request : EngineRequest} {body : Bytes}

/-- What could be answered at a moment in time could have been so before. -/
theorem fate_answered_mono {limit time time' : ℕ} (h : Fate.of limit patience time = .answered)
    (hle : time' ≤ time) : Fate.of limit patience time' = .answered := by
  have hwaits : waits patience time = true → waits patience time' = true := by
    cases patience with
    | none => exact id
    | some t =>
      simp only [waits, Option.all_some, decide_eq_true_eq]
      omega
  unfold Fate.of at h ⊢
  split at h
  · cases h
  · rename_i hlimit
    split at h
    · cases h
    · rename_i hexpired
      split at h
      · rename_i hthere
        rw [if_neg hlimit, if_neg fun h => hexpired ⟨h.1.trans hle, h.2⟩, if_pos (hwaits hthere)]
      · cases h

/-- **The engine is asked this** when a request is attended to. -/
def Heard (f : Front) (relay : Relay) (fresh : Bytes) (patience : Option ℕ) (upload : Upload)
    (r : Request) (request : EngineRequest) : Prop :=
  ∃ call ∈ (f.attend relay fresh patience upload r).calls, call.request = request

/-- The engine is asked what the plan says if the plan is known in time. -/
theorem heard_iff : f.Heard relay fresh patience upload r request ↔
    f.announcesTooMuch r = false ∧ ∃ time, f.planOf upload r = some (time, .ask request) ∧
      Fate.of f.limitMs patience time = .answered :=
  attend_asks_iff f relay fresh patience upload r request

/-- What is asked depends neither on the engine nor on the fresh id. -/
theorem heard_congr (relay : Relay) (fresh : Bytes) (relay' : Relay) (fresh' : Bytes) :
    f.Heard relay fresh patience upload r request ↔ f.Heard relay' fresh' patience upload r request := by
  rw [heard_iff, heard_iff]

/-- **A body has been taken in** whole by this moment, and is not too long. -/
structure Receives (f : Front) (upload : Upload) (r : Request) (body : Bytes) (time : ℕ) :
    Prop where
  announced : f.announcesTooMuch r = false
  short : body.length ≤ bodyCap f.maxBodySize r.declaredLength?
  taken : upload.take (bodyCap f.maxBodySize r.declaredLength?) [] = some (time, .ok body)

/-- A plan that does not read the body does not depend on it. -/
theorem plan_of_not_readsBody {route : Route} (hroute : routeOf r = some route)
    (h : Plan.readsBody route r = false) (body : Bytes) :
    f.plan { r with body := body } = f.plan r := by
  have hplan : f.plan { r with body := body } =
      Plan.ofRoute f.maxBodySize f.canUpgrade f.link route { r with body := body } :=
    plan_of_route (by exact hroute)
  rw [hplan, plan_of_route hroute]
  unfold Plan.ofRoute
  by_cases hmethod : r.method ∈ route.methods
  · rw [if_neg (by simpa using hmethod), if_neg (by simpa using hmethod)]
    have hcontains := List.contains_iff_mem.2 hmethod
    cases route with
    | orders =>
      have hjson : saysJson r = false := by
        simpa only [Plan.readsBody, hcontains, Bool.true_and] using h
      have hjson' : saysJson { r with body := body } = false := hjson
      simp only [submitRequest, readJson, hjson, hjson']
      rfl
    | order octets =>
      simp only [Plan.readsBody, hcontains, Bool.true_and, Bool.and_eq_false_iff,
        Bool.or_eq_false_iff] at h
      simp only
      cases htext : Percent.decodeText? octets with
      | none =>
        simp only [actionRequest, modifyRequest, pathText?, htext]
      | some ref =>
        rcases h with h | ⟨hmethod, hjson⟩
        · rw [htext] at h
          cases h
        · have hjson' : saysJson { r with body := body } = false := hjson
          rw [if_neg (by simpa using hmethod), if_neg (by simpa using hmethod)]
          simp only [modifyRequest, readJson, hjson, hjson']
          rfl
    | orderBook octets => rfl
    | trades octets => rfl
    | health => rfl
  · rw [if_pos (by simpa using hmethod), if_pos (by simpa using hmethod)]

/-- **The plan of a request that reads its body** is that of the request with what has been taken in,
also if that is too much. -/
theorem planOf_of_take {route : Route} (hroute : routeOf r = some route)
    (hreads : Plan.readsBody route r = true) {time : ℕ} {taken : Bytes}
    (htake : upload.take (bodyCap f.maxBodySize r.declaredLength?) [] = some (time, .ok taken)) :
    f.planOf upload r = some (time, f.plan { r with body := taken }) := by
  unfold planOf
  unfold routeOf at hroute
  rw [hroute]
  simp only [hreads, if_true, htake, Option.map_some]

/-- A plan that does not read the body is known at once. -/
theorem planOf_of_not_readsBody {route : Route} (hroute : routeOf r = some route)
    (hreads : Plan.readsBody route r = false) : f.planOf upload r = some (0, f.plan r) := by
  unfold planOf
  unfold routeOf at hroute
  rw [hroute]
  simp only [hreads, Bool.false_eq_true, if_false]

/-- **The plan of a request whose body has been taken in**, and when it is known. -/
theorem planOf_of_receives {route : Route} (hroute : routeOf r = some route) {body : Bytes}
    {time : ℕ} (h : f.Receives upload r body time) :
    f.planOf upload r = some (if Plan.readsBody route r then time else 0,
      f.plan { r with body := body }) := by
  cases hreads : Plan.readsBody route r with
  | true => exact planOf_of_take hroute hreads h.taken
  | false =>
    rw [planOf_of_not_readsBody hroute hreads, plan_of_not_readsBody hroute hreads body]
    rfl

/-- When the plan of a request is known once this body has been taken in. -/
def readyAt (r : Request) (time : ℕ) : ℕ :=
  match routeOf r with
  | none => 0
  | some route => if Plan.readsBody route r then time else 0

theorem planOf_of_taken {time : ℕ} (h : f.Receives upload r body time) :
    f.planOf upload r = some (readyAt r time, f.plan { r with body := body }) := by
  unfold readyAt
  cases hroute : routeOf r with
  | none =>
    unfold planOf plan
    unfold routeOf at hroute
    rw [hroute]
  | some route => exact planOf_of_receives hroute h

/-- What becomes of a request that this plan is made for at this moment. -/
def follow (f : Front) (relay : Relay) (fresh : Bytes) (patience : Option ℕ) (r : Request)
    (time : ℕ) (plan : Plan) : Exchange :=
  let inner := f.carryOut relay (RequestId.ofHeaders (some (idOf fresh r)) r.headers) patience
    (some (time, plan))
  { inner with
    response := inner.response.map fun response =>
      finish (routeOf r) r.method (dress (idOf fresh r) response) }

theorem attend_of_receives {time : ℕ} (h : f.Receives upload r body time) :
    f.attend relay fresh patience upload r =
      f.follow relay fresh patience r (readyAt r time) (f.plan { r with body := body }) := by
  unfold attend
  simp only
  rw [if_neg (by rw [h.announced]; decide), planOf_of_taken h]
  rfl

/-- A plan that asks something has read the body, if there is one to be read. -/
theorem heard_iff_of_readsBody {route : Route} (hroute : routeOf r = some route)
    (hreads : Plan.readsBody route r = true) :
    f.Heard relay fresh patience upload r request ↔ f.announcesTooMuch r = false ∧
      ∃ body time, upload.take (bodyCap f.maxBodySize r.declaredLength?) [] = some (time, .ok body) ∧
        Fate.of f.limitMs patience time = .answered ∧
          f.plan { r with body := body } = .ask request := by
  rw [heard_iff]
  simp only [planOf_eq_ask_iff_plan hroute, if_pos hreads]
  constructor
  · rintro ⟨hlong, time, ⟨body, htake, hplan⟩, hfate⟩
    exact ⟨hlong, body, time, htake, hfate, hplan⟩
  · rintro ⟨hlong, body, time, htake, hfate, hplan⟩
    exact ⟨hlong, time, ⟨body, htake, hplan⟩, hfate⟩

end Front

end OrderRelay
