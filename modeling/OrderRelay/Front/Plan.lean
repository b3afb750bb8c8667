import OrderRelay.Engine.Call
import OrderRelay.Front.Body
import OrderRelay.Front.Handshake
import OrderRelay.Front.Route
import OrderRelay.Http.Uri
import OrderRelay.Link.Basic
import OrderRelay.Order.Draft
import OrderRelay.Text.Percent

/-!
# Plans

What a request comes to is decided before the engine is asked: either the response is known already,
or there is exactly one thing to ask of the engine.

* `Refusal`: why the engine is not asked.
* `submitRequest`, `actionRequest`, `modifyRequest`, `orderBookOf`, `tradesOf`: what the requests to
  the routes ask.
* `Plan.ofRoute`: the plan of a request to a route.
* `Plan.ofBroken`: the plan of a request whose body breaks off.
-/

namespace OrderRelay

open Http

/-- Why the engine is not asked. -/
inductive Refusal where
  | relay (e : RelayError)
  | handshake (fault : Handshake.Fault)
  /-- A parameter of the path is no text. -/
  | pathNotText (name : String)
  /-- The body of an action is too long. -/
  | bodyTooLong
  /-- The body of an action breaks off. -/
  | bodyBroken (reason : String)
  deriving DecidableEq

namespace Refusal

/-- The response to a refused request. -/
def response : Refusal → Response
  | .relay e => .json e.status e.body
  | .handshake fault => .plain fault.status fault.message
  | .pathNotText name => .plain 400 ("Invalid URL: Invalid UTF-8 in `" ++ name ++ "`")
  | .bodyTooLong => .plain 413 BodyFault.tooLongMessage
  | .bodyBroken reason => .plain 400 (BodyFault.bufferMessage reason)

/-- A body of no use. -/
def ofBody (fault : BodyFault) : Refusal := .relay (.invalidRequest fault.message)

/-- A draft that is no request. -/
def ofDraft (e : DraftError) : Refusal := .relay e.toRelayError

end Refusal

/-- The text of a parameter of the path. -/
def pathText? (name : String) (octets : Bytes) : Except Refusal String :=
  match Percent.decodeText? octets with
  | some text => .ok text
  | none => .error (.pathNotText name)

/-- What the request for a new order asks. -/
def submitRequest (maxBodySize : Nat) (r : Request) : Except Refusal SubmitOrderRequest :=
  match readJson SubmitDraft.ofText maxBodySize r with
  | .error fault => .error (.ofBody fault)
  | .ok draft => draft.toRequest.mapError .ofDraft

/-- The end of a path that asks to cancel an order. -/
def cancelSuffix : List Char := ":cancel".toList

/-- The order that an action is to cancel. -/
def cancelTarget? (ref : String) : Option String :=
  (cancelSuffix.reverse.isPrefixOf? ref.toList.reverse).map fun rest => String.ofList rest.reverse

/-- The draft in the body of a cancel; a blank body has no values. -/
def cancelDraft (text : Bytes) : Except Refusal CancelDraft :=
  if text.all isAsciiBlank then .ok .empty
  else
    match CancelDraft.ofText text with
    | .ok draft => .ok draft
    | .error e => .error (.relay (.invalidRequest ("malformed JSON body: " ++ e.message text)))

/-- What the request for an action on an order asks. The only action is to cancel the order. -/
def actionRequest (maxBodySize : Nat) (octets : Bytes) (r : Request) :
    Except Refusal CancelOrderRequest :=
  match pathText? "order_ref" octets with
  | .error e => .error e
  | .ok ref =>
    match readBody maxBodySize r with
    | none => .error .bodyTooLong
    | some text =>
      match cancelTarget? ref with
      | none => .error (.relay (.notFound ("no action on order resource '" ++ ref ++ "'")))
      | some orderId =>
        match cancelDraft text with
        | .error e => .error e
        | .ok draft => (draft.toRequest orderId).mapError .ofDraft

/-- What the request for a change of an order asks. -/
def modifyRequest (maxBodySize : Nat) (octets : Bytes) (r : Request) :
    Except Refusal ModifyOrderRequest :=
  match pathText? "order_ref" octets with
  | .error e => .error e
  | .ok orderId =>
    match readJson ModifyDraft.ofText maxBodySize r with
    | .error fault => .error (.ofBody fault)
    | .ok draft => (draft.toRequest orderId).mapError .ofDraft

/-- What the request for an order book asks. -/
def orderBookOf (octets : Bytes) : Except Refusal GetOrderBookRequest :=
  match pathText? "symbol" octets with
  | .error e => .error e
  | .ok symbol => (orderBookRequest symbol).mapError .ofDraft

/-- What the request for trades asks. -/
def tradesOf (canUpgrade : Bool) (octets : Bytes) (r : Request) :
    Except Refusal SubscribeTradesRequest :=
  match Handshake.fault? canUpgrade r with
  | some fault => .error (.handshake fault)
  | none =>
    match pathText? "symbol" octets with
    | .error e => .error e
    | .ok symbol => (tradesRequest symbol).mapError .ofDraft

/-- The version of the service. -/
def version : String := "0.1.0"

/-- The response about the health of the service, which is that of its link. -/
def healthResponse (link : Link) : Response :=
  let word := if link.isOpen then "ok" else "degraded"
  .json (if link.isOpen then 200 else 503) <| Json.Value.compact <| .object [
    ("status", .text word), ("version", .text version),
    ("backend", .object [("target", .text link.target), ("state", .text link.stateName)])]

/-- What a request comes to. -/
inductive Plan where
  | respond (r : Response)
  /-- The engine is asked. -/
  | ask (request : EngineRequest)

namespace Plan

/-- Asks the engine unless the request is refused. -/
def ofResult {α : Type} (f : α → EngineRequest) : Except Refusal α → Plan
  | .ok request => .ask (f request)
  | .error refusal => .respond refusal.response

/-- Whether the plan of a request to a route depends on the body. -/
def readsBody (route : Route) (r : Request) : Bool :=
  route.methods.contains r.method &&
    match route with
    | .orders => saysJson r
    | .order octets =>
      (Percent.decodeText? octets).isSome && (r.method = "POST" || saysJson r)
    | _ => false

/-- The plan of a request to a route whose body breaks off. -/
def ofBroken (route : Route) (method reason : String) : Plan :=
  match route with
  | .order _ =>
    if method = "POST" then .respond (Refusal.bodyBroken reason).response
    else .respond (Refusal.ofBody (.broken reason)).response
  | _ => .respond (Refusal.ofBody (.broken reason)).response

/-- The plan of a request to a route. -/
def ofRoute (maxBodySize : Nat) (canUpgrade : Bool) (link : Link) (route : Route) (r : Request) :
    Plan :=
  if !route.methods.contains r.method then .respond (.bare 405)
  else
    match route with
    | .orders => ofResult (.order .submitOrder) (submitRequest maxBodySize r)
    | .order octets =>
      if r.method = "POST" then ofResult (.order .cancelOrder) (actionRequest maxBodySize octets r)
      else ofResult (.order .modifyOrder) (modifyRequest maxBodySize octets r)
    | .orderBook octets => ofResult (.order .getOrderBook) (orderBookOf octets)
    | .trades octets => ofResult .trades (tradesOf canUpgrade octets r)
    | .health => .respond (healthResponse link)

end Plan

end OrderRelay
