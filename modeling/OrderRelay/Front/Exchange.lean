import OrderRelay.Front.Plan
import OrderRelay.Relay.Ledger

/-!
# Exchanges

From a request to its response. Around the plan of a request lie a limit on its time, a limit on its
length, and the headers that every response carries. Whoever sent the request may leave before the
response is there.

* `Fate`: which of the engine, the time limit and the caller comes first.
* `Front.dress`, `Front.finish`: what is added to a response.
* `Front.planOf`: when a plan is known, which may take the whole body.
* `Front.attend`, `Front.exchange`: what becomes of a request.
-/

namespace OrderRelay

open Http

/-- What becomes of a request that would be answered at some moment. -/
inductive Fate where
  /-- There is no time at all, so it is not looked at. -/
  | unheard
  /-- The time limit comes first, or at the same moment. -/
  | expired
  | answered
  /-- The caller leaves first. -/
  | abandoned
  deriving DecidableEq, Repr

/-- Whether a caller is still there at a moment. What comes at the very moment of leaving still
counts. -/
def waits (patience : Option Nat) (time : Nat) : Bool := patience.all (time ≤ ·)

/-- What becomes of a request that would be answered at a moment, all times in milliseconds. -/
def Fate.of (limit : Nat) (patience : Option Nat) (time : Nat) : Fate :=
  if limit = 0 then .unheard
  else if limit ≤ time ∧ waits patience limit then .expired
  else if waits patience time then .answered
  else .abandoned

/-- The HTTP side of the service. -/
structure Front where
  /-- How long a request may take, in seconds. -/
  requestSecs : Nat
  maxBodySize : Nat
  /-- Whether connections can change to WebSocket. -/
  canUpgrade : Bool
  link : Link

/-- What became of a request. -/
structure Exchange where
  /-- The response; none if the caller has left. -/
  response : Option Response
  /-- What was asked of the engine. -/
  calls : List EngineCall
  counted : List MeterEvent
  /-- The feed that goes with a change to WebSocket. -/
  feed : Option Feed

namespace Exchange

/-- A response that nobody but the caller notices. -/
def quiet (response : Response) : Exchange := ⟨some response, [], [], none⟩

end Exchange

/-- The response to an operation that has ended. -/
def orderResponse {op : Operation} : CallResult op.Response → Response
  | .ok m => .json 200 (Message.text m)
  | .error e => .json e.status e.body

/-- The response to a subscription whose opening has ended. -/
def tradesResponse : CallResult Feed → Response
  | .ok _ => Handshake.accepted
  | .error e => .json e.status e.body

/-- The response when the time is up. -/
def expiredResponse : Response := .bare 408

/-- The response to a request that says that its body is longer than the settings allow. -/
def tooLongResponse : Response := .plain 413 "length limit exceeded"

namespace Front

/-- How long a request may take, in milliseconds. -/
def limitMs (f : Front) : Nat := 1000 * f.requestSecs

/-- The value of the header that names the service. -/
def serverName : String := "order-gateway/" ++ version

/-- The id of a request as octets: that of its first header, or else a fresh one. -/
def idOf (fresh : Bytes) (r : Request) : Bytes := (r.headers.first? RequestId.header).getD fresh

/-- Adds what every response carries: the name of the service and the id of the request. -/
def dress (id : Bytes) (r : Response) : Response :=
  (r.set "server" (Utf8.encode serverName)).set RequestId.header id

/-- Adds what a response carries whose route is known: its length, and the right methods if the
method was wrong. A request for the head gets no body. -/
def finish (route : Option Route) (method : String) (r : Response) : Response :=
  match route with
  | none => r
  | some route =>
    let r := if route.methods.contains method then r
      else r.set "allow" (Utf8.encode (",".intercalate route.methods))
    let r := if r.status < 200 then r else r.measured
    if method = "HEAD" then r.withoutBody else r

/-- The plan of a request. -/
def plan (f : Front) (r : Request) : Plan :=
  match Route.ofPath? (Uri.path r.target) with
  | none => .respond (.bare 404)
  | some route => .ofRoute f.maxBodySize f.canUpgrade f.link route r

/-- When the plan of a request is known and what it is, for a body that comes in as said; none if
that never happens. -/
def planOf (f : Front) (upload : Upload) (r : Request) : Option (Nat × Plan) :=
  match Route.ofPath? (Uri.path r.target) with
  | none => some (0, f.plan r)
  | some route =>
    if Plan.readsBody route r then
      (upload.take (bodyCap f.maxBodySize r.declaredLength?) []).map fun
        | (time, .ok octets) => (time, f.plan { r with body := octets })
        | (time, .error reason) => (time, .ofBroken route r.method reason)
    else some (0, f.plan r)

/-- What becomes of a request that the engine is never asked for. -/
def cut : Fate → Exchange
  | .abandoned => ⟨none, [], [], none⟩
  | _ => .quiet expiredResponse

/-- What becomes of a request for which the engine has been asked in vain. -/
def cutCall (calls : List EngineCall) (request : EngineRequest) : Fate → Exchange
  | .abandoned => ⟨none, calls, callEvents request .dropped, none⟩
  | _ => ⟨some expiredResponse, calls, callEvents request .dropped, none⟩

/-- Asks the engine at a moment, within the time limit and as long as the caller waits. -/
def serve (f : Front) (relay : Relay) (requestId : String) (patience : Option Nat) (start : Nat)
    (request : EngineRequest) : Exchange :=
  let calls := [relay.call requestId request]
  match request with
  | .order op order =>
    let (time, result) := relay.order requestId op order
    match Fate.of f.limitMs patience (start + time) with
    | .answered =>
      ⟨some (orderResponse result), calls,
        callEvents request (Ending.finish (.returned (result.map (.order op)))), none⟩
    | fate => cutCall calls request fate
  | .trades subscription =>
    let (time, result) := relay.trades requestId subscription
    match Fate.of f.limitMs patience (start + time) with
    | .answered => ⟨some (tradesResponse result), calls, [], result.toOption⟩
    | fate => cutCall calls request fate

/-- What the plan of a request comes to within the time limit. -/
def carryOut (f : Front) (relay : Relay) (requestId : String) (patience : Option Nat) :
    Option (Nat × Plan) → Exchange
  | none => cut (Fate.of f.limitMs patience f.limitMs)
  | some (time, plan) =>
    match Fate.of f.limitMs patience time with
    | .answered =>
      match plan with
      | .respond r => .quiet r
      | .ask request => f.serve relay requestId patience time request
    | fate => cut fate

/-- Whether a request says that its body is longer than the settings allow. -/
def announcesTooMuch (f : Front) (r : Request) : Bool :=
  match r.declaredLength? with
  | some n => f.maxBodySize < n
  | none => false

/-- What becomes of a request whose body comes in as said. A fresh id is at hand in case the request
has none. -/
def attend (f : Front) (relay : Relay) (fresh : Bytes) (patience : Option Nat) (upload : Upload)
    (r : Request) : Exchange :=
  let id := idOf fresh r
  let inner :=
    if f.announcesTooMuch r then .quiet tooLongResponse
    else f.carryOut relay (RequestId.ofHeaders (some id) r.headers) patience (f.planOf upload r)
  { inner with
    response := inner.response.map fun response =>
      finish (Route.ofPath? (Uri.path r.target)) r.method (dress id response) }

/-- What becomes of a request whose body is there at once. -/
def exchange (f : Front) (relay : Relay) (fresh : Bytes) (patience : Option Nat) (r : Request) :
    Exchange := f.attend relay fresh patience (.atOnce r.body) r

end Front

end OrderRelay
