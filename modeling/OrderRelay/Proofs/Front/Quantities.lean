import Mathlib
import OrderRelay.Proofs.Front.Bodies
import OrderRelay.Proofs.Front.Oversize
import OrderRelay.Proofs.Json.Printing
import OrderRelay.Proofs.Message.Offers

/-!
# Quantities

A quantity is a whole number of 32 bits, and it is written as a number in JSON. On its way to the
engine it is gathered from its digits, fitted into 32 bits and written as a varint, and none of these
steps makes another number of it: what does not fit is refused.

* `Literal.Fits`: the quantity that a literal is.
* `BodyKind.Quotes`: a body that gives a literal as its quantity, and is complete otherwise.
* `request?_of_quotes`: **what such a body is read as.**
* `Exchange.Sends`: the engine is asked for a quantity.
* `quantity_kept`: **no quantity is altered** on its way to the engine.
-/

namespace OrderRelay

open Http Json

/-- **The quantity that a literal is**: an integer of 32 bits that it denotes. -/
structure Literal.Fits (l : Literal) (n : ℤ) : Prop where
  denotes : l.Denotes n
  low : -2147483648 ≤ n
  high : n ≤ 2147483647

theorem Literal.fits_toInt_iff {l : Literal} {v : Int32} : l.Fits v.toInt ↔ l.Denotes v.toInt := by
  obtain ⟨hlow, hhigh⟩ := Scalar.bounds_toInt v
  exact ⟨fun h => h.denotes, fun h => ⟨h, hlow, hhigh⟩⟩

/-- What fits is a value of 32 bits. -/
theorem Literal.Fits.exists_toInt {l : Literal} {n : ℤ} (h : l.Fits n) :
    ∃ v : Int32, v.toInt = n := by
  have hlow := h.low
  have hhigh := h.high
  exact ⟨Int32.ofInt n, Int32.toInt_ofInt_of_le (by omega) (by omega)⟩

/-! ## Orders with a quantity -/

/-- The same order with another quantity. -/
def SubmitOrderRequest.withQuantity (order : SubmitOrderRequest) (v : Int32) : SubmitOrderRequest :=
  { order with quantity := v }

/-- The same change of an order with another quantity. -/
def ModifyOrderRequest.withQuantity (order : ModifyOrderRequest) (v : Int32) : ModifyOrderRequest :=
  { order with newQuantity := v }

/-- The same with another quantity, if it has one. -/
def EngineRequest.withQuantity (v : Int32) : EngineRequest → EngineRequest
  | .order .submitOrder submitted =>
    .order .submitOrder (SubmitOrderRequest.withQuantity submitted v)
  | .order .modifyOrder changed => .order .modifyOrder (ModifyOrderRequest.withQuantity changed v)
  | request => request

/-- The quantity of an order, if it has one. -/
def Operation.quantity? : (op : Operation) → op.Request → Option ℤ
  | .submitOrder, order => some (SubmitOrderRequest.quantity order).toInt
  | .modifyOrder, order => some (ModifyOrderRequest.newQuantity order).toInt
  | .getOrderBook, _ | .cancelOrder, _ => none

theorem Operation.quantity?_unsignedZeros (op : Operation) (order : op.Request) :
    op.quantity? (op.unsignedZeros order) = op.quantity? order := by
  cases op <;> rfl

/-- A draft with another quantity becomes the order with this quantity. -/
theorem SubmitDraft.toRequest_withQuantity {d : SubmitDraft} {order : SubmitOrderRequest}
    (h : d.toRequest = .ok order) (v : Int32) :
    ({ d with quantity := some v } : SubmitDraft).toRequest = .ok (order.withQuantity v) := by
  obtain ⟨hsymbol, hside, htype, hprice, -, hclient⟩ := toRequest_eq_ok_iff.1 h
  exact toRequest_eq_ok_iff.2 ⟨hsymbol, hside, htype, hprice, rfl, hclient⟩

theorem ModifyDraft.toRequest_withQuantity {d : ModifyDraft} {path : String}
    {order : ModifyOrderRequest} (h : d.toRequest path = .ok order) (v : Int32) :
    ({ d with newQuantity := some v } : ModifyDraft).toRequest path =
      .ok (order.withQuantity v) := by
  obtain ⟨hpath, newPrice, _, clientId, hprice, -, hclient, rfl⟩ := toRequest_eq_ok_iff.1 h
  exact toRequest_eq_ok_iff.2 ⟨hpath, newPrice, v, clientId, hprice, rfl, hclient, rfl⟩

/-! ## Bodies with a quantity -/

namespace BodyKind

variable {b : BodyKind} {text : Bytes} {l : Literal} {given : Member Scalar → List (List Lexeme)}
  {request otherwise : EngineRequest}

/-- Whether a member is the quantity of an order. -/
def isQuantity (m : Member Scalar) : Bool :=
  m.names.contains "quantity" || m.names.contains "newQuantity"

/-- The same values with this number as the quantity. -/
def quoting (l : Literal) (given : Member Scalar → List (List Lexeme)) (m : Member Scalar) :
    List (List Lexeme) := if isQuantity m then [[.number l]] else given m

/-- **What a body is read as** that offers these values. -/
def ReadsAs (b : BodyKind) (given : Member Scalar → List (List Lexeme)) (request : EngineRequest) :
    Prop := ∃ slots, FillsEach .byNull b.shape.members given slots ∧ b.ofSlots? slots = some request

/-- **A body gives a literal as its quantity, and is complete otherwise**: with another number in its
place, it would be read as this request. -/
def Quotes (b : BodyKind) (text : Bytes) (l : Literal) (otherwise : EngineRequest) : Prop :=
  ∃ given q, Offers b.shape text (quoting l given) ∧ b.ReadsAs (quoting (.ofInt q) given) otherwise

/-- The slot of a quantity is filled by a number that fits into it. -/
theorem fillsSlot_number_iff {slot : Slot Int32} :
    FillsSlot .byNull Scalar.int32 [[.number l]] .absent slot ↔
      ∃ v : Int32, slot = .given v ∧ l.Denotes v.toInt := by
  constructor
  · rintro ⟨-, hslot⟩
    cases slot with
    | absent => exact hslot.elim
    | null => cases hslot.2
    | given v =>
      obtain ⟨_, hl, hv⟩ := hslot
      cases hl
      exact ⟨v, rfl, Scalar.ofLexeme?_int32_iff.1 hv⟩
  · rintro ⟨v, rfl, hv⟩
    exact ⟨rfl, .number l, rfl, Scalar.ofLexeme?_int32_iff.2 hv⟩

/-- **Bodies that have a quantity**: those of new orders and of changes. -/
inductive HasQuantity : BodyKind → Prop where
  | submit : HasQuantity .submit
  | modify (path : String) : HasQuantity (.modify path)

/-- The request of such a body is made of what is read of it. -/
theorem HasQuantity.request?_eq (hb : b.HasQuantity) :
    b.request? text = (b.shape.readText text).toOption.bind b.ofSlots? := by
  cases hb with
  | submit => exact toOption_map_bind _ _ _
  | modify path => exact toOption_map_bind _ _ _

theorem HasQuantity.request?_eq_some_iff (hb : b.HasQuantity) (h : Offers b.shape text given) :
    b.request? text = some request ↔ b.ReadsAs given request := by
  rw [hb.request?_eq, Option.bind_eq_some_iff]
  simp only [toOption_eq_some_iff, h.readText_eq_ok_iff b.apart_members, b.absence_shape]
  rfl

/-- What is read has a quantity that its literal denotes. -/
theorem HasQuantity.exists_denotes (hb : b.HasQuantity) (h : b.ReadsAs (quoting l given) request) :
    ∃ v : Int32, l.Denotes v.toInt := by
  obtain ⟨slots, hslots, -⟩ := h
  cases hb with
  | submit =>
    obtain ⟨-, -, -, -, hquantity, -⟩ := hslots
    obtain ⟨v, -, hv⟩ := fillsSlot_number_iff.1 hquantity
    exact ⟨v, hv⟩
  | modify path =>
    obtain ⟨-, -, hquantity, -⟩ := hslots
    obtain ⟨v, -, hv⟩ := fillsSlot_number_iff.1 hquantity
    exact ⟨v, hv⟩

/-- **A quantity in place of another** changes the quantity of the request, and nothing else. -/
theorem HasQuantity.readsAs_withQuantity (hb : b.HasQuantity) {l' : Literal}
    (h : b.ReadsAs (quoting l' given) otherwise) {v : Int32} (hv : l.Denotes v.toInt) :
    b.ReadsAs (quoting l given) (otherwise.withQuantity v) := by
  obtain ⟨slots, hslots, hrequest⟩ := h
  have hslot : FillsSlot .byNull Scalar.int32 [[.number l]] .absent (.given v) :=
    fillsSlot_number_iff.2 ⟨v, rfl, hv⟩
  cases hb with
  | submit =>
    obtain ⟨symbol, side, orderType, price, quantity, clientId, ⟨⟩⟩ := slots
    obtain ⟨hsymbol, hside, htype, hprice, -, hclient, -⟩ := hslots
    obtain ⟨order, horder, heq⟩ := Option.bind_eq_some_iff.1 hrequest
    cases heq
    refine ⟨(symbol, side, orderType, price, .given v, clientId, ()),
      ⟨hsymbol, hside, htype, hprice, hslot, hclient, trivial⟩, ?_⟩
    have hquantity := SubmitDraft.toRequest_withQuantity (toOption_eq_some_iff.1 horder) v
    exact Option.bind_eq_some_iff.2 ⟨_, toOption_eq_some_iff.2 hquantity, rfl⟩
  | modify path =>
    obtain ⟨orderId, newPrice, newQuantity, clientId, ⟨⟩⟩ := slots
    obtain ⟨hid, hprice, -, hclient, -⟩ := hslots
    obtain ⟨order, horder, heq⟩ := Option.bind_eq_some_iff.1 hrequest
    cases heq
    refine ⟨(orderId, newPrice, .given v, clientId, ()),
      ⟨hid, hprice, hslot, hclient, trivial⟩, ?_⟩
    have hquantity := ModifyDraft.toRequest_withQuantity (toOption_eq_some_iff.1 horder) v
    exact Option.bind_eq_some_iff.2 ⟨_, toOption_eq_some_iff.2 hquantity, rfl⟩

/-- **What a body is read as that gives a literal as its quantity**: the request with this quantity,
and nothing if the literal is none. -/
theorem HasQuantity.request?_of_quotes (hb : b.HasQuantity) (h : b.Quotes text l otherwise) :
    b.request? text = some request ↔
      ∃ v : Int32, l.Denotes v.toInt ∧ request = otherwise.withQuantity v := by
  obtain ⟨given, q, hoffers, hothers⟩ := h
  have hread : ∀ v : Int32, l.Denotes v.toInt → b.request? text = some (otherwise.withQuantity v) :=
    fun v hv => (hb.request?_eq_some_iff hoffers).2 (hb.readsAs_withQuantity hothers hv)
  constructor
  · intro hrequest
    obtain ⟨v, hv⟩ := hb.exists_denotes ((hb.request?_eq_some_iff hoffers).1 hrequest)
    exact ⟨v, hv, Option.some.inj (hrequest.symm.trans (hread v hv))⟩
  · rintro ⟨v, hv, rfl⟩
    exact hread v hv

/-- The literal is a number of JSON, and it is written in the body. -/
theorem HasQuantity.exists_writes_of_quotes (hb : b.HasQuantity) (h : b.Quotes text l otherwise) :
    l.Proper ∧ ∃ w ∈ words text, Scan.Writes l w := by
  obtain ⟨given, -, hoffers, -⟩ := h
  have hmember : ∃ m ∈ b.shape.members, isQuantity m = true := by
    cases hb with
    | submit => exact (by decide : ∃ m ∈ SubmitDraft.shape.members, isQuantity m = true)
    | modify path => exact (by decide : ∃ m ∈ ModifyDraft.shape.members, isQuantity m = true)
  obtain ⟨m, hm, hquantity⟩ := hmember
  have hvalue : [.number l] ∈ quoting l given m := by
    rw [quoting, if_pos hquantity]
    exact List.mem_singleton_self _
  exact exists_writes hoffers.isValue (hoffers.mem_lexemes hm hvalue)

/-- The request is an order or a change, and its quantity is the one that it is given. -/
theorem HasQuantity.exists_order_of_quotes (hb : b.HasQuantity) (h : b.Quotes text l otherwise)
    (v : Int32) : ∃ (op : Operation) (order : op.Request),
      otherwise.withQuantity v = .order op order ∧ op.quantity? order = some v.toInt := by
  obtain ⟨-, -, -, slots, -, hrequest⟩ := h
  cases hb with
  | submit =>
    obtain ⟨order, -, heq⟩ := Option.bind_eq_some_iff.1 hrequest
    cases heq
    exact ⟨.submitOrder, _, rfl, rfl⟩
  | modify path =>
    obtain ⟨order, -, heq⟩ := Option.bind_eq_some_iff.1 hrequest
    cases heq
    exact ⟨.modifyOrder, _, rfl, rfl⟩

end BodyKind

/-! ## What goes out -/

/-- **The engine is asked for a quantity**: only for what a body is otherwise, with this quantity, and
the octets that go out for it are read as a message with this quantity. -/
def Exchange.Sends (x : Exchange) (otherwise : EngineRequest) (n : ℤ) : Prop :=
  ∃ (call : EngineCall) (op : Operation) (order : op.Request) (v : Int32),
    x.calls = [call] ∧ call.request = .order op order ∧
    .order op order = otherwise.withQuantity v ∧ v.toInt = n ∧
    (∃ m, Message.decode op.Request (Message.encode order) = .ok m ∧ op.quantity? m = some n) ∧
    ∀ out, Rpc.Request.ofCall? call = some out → out.body = Rpc.frame (Message.encode order)

/-- **A response that refuses a request as invalid**, by its status and by the code of its error. -/
def Http.Response.RefusesAsInvalid (a : Response) : Prop :=
  a.status = 400 ∧ ∃ e : RelayError, e.code = "INVALID_REQUEST" ∧ a.body = Utf8.encode e.body

namespace Front

variable {f : Front} {relay : Relay} {fresh : Bytes} {patience : Option ℕ} {upload : Upload}
  {r : Request} {b : BodyKind} {body : Bytes} {l : Literal} {request otherwise : EngineRequest}
  {time : ℕ}

/-- **A request hands in a body of this kind**: that of a new order, or of a change of the order that
the path names. -/
inductive HandsIn (r : Request) : BodyKind → Prop where
  | submit (hroute : routeOf r = some .orders) (hmethod : r.method = "POST")
      (hjson : saysJson r = true) : HandsIn r .submit
  | modify {octets : Bytes} {orderId : String} (hroute : routeOf r = some (.order octets))
      (hmethod : r.method = "PATCH") (hjson : saysJson r = true)
      (hpath : Percent.decodeText? octets = some orderId) : HandsIn r (.modify orderId)

theorem HandsIn.hasQuantity (h : HandsIn r b) : b.HasQuantity := by
  cases h with
  | submit => exact .submit
  | modify => exact .modify _

theorem HandsIn.readsBody (h : HandsIn r b) :
    ∃ route, routeOf r = some route ∧ Plan.readsBody route r = true := by
  cases h with
  | submit hroute hmethod hjson =>
    exact ⟨_, hroute, by simp [Plan.readsBody, Route.methods, hmethod, hjson]⟩
  | modify hroute hmethod hjson hpath =>
    exact ⟨_, hroute, by simp [Plan.readsBody, Route.methods, hmethod, hjson, hpath]⟩

theorem HandsIn.method_ne (h : HandsIn r b) : r.method ≠ "HEAD" := by
  cases h with
  | submit _ hmethod | modify _ hmethod =>
    rw [hmethod]
    decide

/-- The engine is asked what the body is read as, if it is short enough. -/
theorem HandsIn.plan_eq_ask_iff (h : HandsIn r b) : f.plan r = .ask request ↔
    r.body.length ≤ bodyCap f.maxBodySize r.declaredLength? ∧ b.request? r.body = some request := by
  cases h with
  | submit hroute hmethod hjson =>
    rw [plan_submit hroute hmethod, ofResult_eq_ask_iff]
    simp only [submitRequest_eq_ok_iff, BodyKind.request?, Option.bind_eq_bind,
      Option.bind_eq_some_iff, BodyKind.toOption_eq_some_iff, hjson, true_and]
    constructor
    · rintro ⟨order, ⟨hle, draft, htext, horder⟩, rfl⟩
      exact ⟨hle, draft, htext, order, horder, rfl⟩
    · rintro ⟨hle, draft, htext, order, horder, heq⟩
      exact ⟨order, ⟨hle, draft, htext, horder⟩, Option.some.inj heq⟩
  | modify hroute hmethod hjson hpath =>
    rw [plan_modify hroute hmethod, ofResult_eq_ask_iff]
    simp only [modifyRequest_eq_ok_iff, BodyKind.request?, Option.bind_eq_bind,
      Option.bind_eq_some_iff, BodyKind.toOption_eq_some_iff, hjson, hpath, true_and]
    constructor
    · rintro ⟨order, ⟨_, ⟨⟩, hle, draft, htext, horder⟩, rfl⟩
      exact ⟨hle, draft, htext, order, horder, rfl⟩
    · rintro ⟨hle, draft, htext, order, horder, heq⟩
      exact ⟨order, ⟨_, rfl, hle, draft, htext, horder⟩, Option.some.inj heq⟩

/-- Whatever is wrong with the body, the request is refused as invalid. -/
theorem HandsIn.plan_eq_respond (h : HandsIn r b) {a : Response} (hplan : f.plan r = .respond a) :
    ∃ reason, a = (Refusal.relay (.invalidRequest reason)).response := by
  have hdraft : ∀ {α : Type} {x : Except DraftError α} {e : Refusal},
      x.mapError .ofDraft = .error e → ∃ reason, e = .relay (.invalidRequest reason) := by
    intro α x e hx
    cases x with
    | ok v => cases hx
    | error e' =>
      cases hx
      exact ⟨_, rfl⟩
  cases h with
  | submit hroute hmethod hjson =>
    rw [plan_submit hroute hmethod] at hplan
    obtain ⟨e, he, rfl⟩ := ofResult_eq_respond_iff.1 hplan
    unfold submitRequest at he
    split at he
    · cases he
      exact ⟨_, rfl⟩
    · obtain ⟨reason, rfl⟩ := hdraft he
      exact ⟨reason, rfl⟩
  | modify hroute hmethod hjson hpath =>
    rw [plan_modify hroute hmethod] at hplan
    obtain ⟨e, he, rfl⟩ := ofResult_eq_respond_iff.1 hplan
    unfold modifyRequest at he
    rw [pathText?_eq_ok_iff.2 hpath] at he
    simp only at he
    split at he
    · cases he
      exact ⟨_, rfl⟩
    · obtain ⟨reason, rfl⟩ := hdraft he
      exact ⟨reason, rfl⟩

/-- A request whose plan asks nothing is refused as invalid. -/
theorem HandsIn.exists_respond (h : HandsIn r b) (hno : ∀ request, f.plan r ≠ .ask request) :
    ∃ reason, f.plan r = .respond (Refusal.relay (.invalidRequest reason)).response := by
  cases hplan : f.plan r with
  | ask request => exact absurd hplan (hno request)
  | respond a =>
    obtain ⟨reason, rfl⟩ := h.plan_eq_respond hplan
    exact ⟨reason, rfl⟩

/-- What is handed in does not matter for how it is handed in. -/
theorem HandsIn.with_body (h : HandsIn r b) (body : Bytes) : HandsIn { r with body := body } b := by
  cases h with
  | submit hroute hmethod hjson => exact .submit hroute hmethod hjson
  | modify hroute hmethod hjson hpath => exact .modify hroute hmethod hjson hpath

/-- **What becomes of a body that has come in**: the engine is asked what it is read as, or the
request is refused as invalid. -/
theorem HandsIn.planOf_cases (h : HandsIn r b) (hcontent : upload.content? = some (time, body)) :
    ∃ sooner ≤ time,
      (∃ request, f.planOf upload r = some (sooner, .ask request) ∧ b.request? body = some request) ∨
      (∃ reason, f.planOf upload r =
          some (sooner, .respond (Refusal.relay (.invalidRequest reason)).response)) ∧
        (body.length ≤ bodyCap f.maxBodySize r.declaredLength? → b.request? body = none) := by
  obtain ⟨route, hroute, hreads⟩ := h.readsBody
  by_cases hshort : body.length ≤ bodyCap f.maxBodySize r.declaredLength?
  · have htake : upload.take (bodyCap f.maxBodySize r.declaredLength?) [] = some (time, .ok body) :=
      Upload.take_of_content hcontent hshort
    refine ⟨time, le_rfl, ?_⟩
    rw [planOf_of_take hroute hreads htake]
    cases hrequest : b.request? body with
    | some request =>
      have hplan : f.plan { r with body := body } = .ask request :=
        (h.with_body body).plan_eq_ask_iff.2 ⟨hshort, hrequest⟩
      rw [hplan]
      exact .inl ⟨request, rfl, rfl⟩
    | none =>
      obtain ⟨reason, hplan⟩ := (h.with_body body).exists_respond (f := f) fun request hask => by
        have hsome := ((h.with_body body).plan_eq_ask_iff.1 hask).2
        rw [hrequest] at hsome
        cases hsome
      rw [hplan]
      exact .inr ⟨⟨reason, rfl⟩, fun _ => rfl⟩
  · -- too much has come in, at some moment before the end
    obtain ⟨sooner, hsooner, taken, htake, hlong⟩ :=
      Upload.take_of_content_long hcontent (Nat.not_le.1 hshort)
    refine ⟨sooner, hsooner, .inr ⟨?_, fun hle => absurd hle hshort⟩⟩
    rw [planOf_of_take hroute hreads htake]
    obtain ⟨reason, hplan⟩ := (h.with_body taken).exists_respond (f := f) fun request hask =>
      absurd ((h.with_body taken).plan_eq_ask_iff.1 hask).1 (Nat.not_le.2 hlong)
    rw [hplan]
    exact ⟨reason, rfl⟩

/-! ## From the literal to the engine -/

/-- A quantity that is accepted goes out as it is. -/
theorem sends_of_acceptedAt {op : Operation} {order : op.Request} {v : Int32}
    (htarget : r.target.length ≤ Uri.maxLength)
    (h : f.AcceptedAt patience upload r time (.order op order))
    (horder : .order op order = otherwise.withQuantity v)
    (hquantity : op.quantity? order = some v.toInt) :
    (f.attend relay fresh patience upload r).Sends otherwise v.toInt := by
  have hdecode : Message.decode op.Request (Message.encode order) = .ok (op.unsignedZeros order) := by
    rw [← op.canonical_eq order]
    exact Message.decode_encode op.sound_request ((says_of_asks h.asks).fits htarget)
  refine ⟨_, op, order, v, calls_of_acceptedAt h relay fresh, rfl, horder, rfl,
    ⟨_, hdecode, ?_⟩, fun out hout => Rpc.body_of_ofCall? hout⟩
  rw [op.quantity?_unsignedZeros, hquantity]

/-- A request that is refused as invalid is answered so, and nobody else notices. -/
theorem HandsIn.exists_refuses (h : HandsIn r b) (relay : Relay) (fresh : Bytes)
    (hannounced : f.announcesTooMuch r = false) {reason : String}
    (hplan : f.planOf upload r =
      some (time, .respond (Refusal.relay (.invalidRequest reason)).response))
    (hfate : Fate.of f.limitMs patience time = .answered) :
    ∃ a, f.attend relay fresh patience upload r = .quiet a ∧ a.RefusesAsInvalid := by
  obtain ⟨route, hroute, -⟩ := h.readsBody
  refine ⟨sent fresh r (Refusal.relay (.invalidRequest reason)).response, ?_, ?_⟩
  · rw [attend_of_announced hannounced, hplan, carryOut_respond hfate]
    rfl
  · refine ⟨status_sent fresh r _, .invalidRequest reason, rfl, ?_⟩
    rw [body_sent hroute, if_neg h.method_ne]
    rfl

/-- **No quantity is altered.** A body that is complete otherwise gives a literal as its quantity, and
it comes in before the time is up.

* The literal is a number of JSON, of any length, and it is written in the body.
* If the engine is asked for anything, the literal is a quantity, and the engine is asked for just
  that one.
* A body that is not too long is accepted exactly if its literal is a quantity.
* A request that announces a body that is too long is turned away for that.
* Any other request whose literal is no quantity is refused as invalid. -/
theorem quantity_kept (f : Front) (relay : Relay) (fresh : Bytes) (patience : Option ℕ)
    (htarget : r.target.length ≤ Uri.maxLength) (hhands : HandsIn r b)
    (hquotes : b.Quotes body l otherwise) (hcontent : upload.content? = some (time, body))
    (hfate : Fate.of f.limitMs patience time = .answered) :
    let x := f.attend relay fresh patience upload r
    (l.Proper ∧ ∃ w ∈ words body, Scan.Writes l w) ∧
    (x.calls ≠ [] → ∃ n, l.Fits n ∧ x.Sends otherwise n) ∧
    (f.announcesTooMuch r = false → body.length ≤ bodyCap f.maxBodySize r.declaredLength? →
      (x.calls ≠ [] ↔ ∃ n, l.Fits n)) ∧
    (f.announcesTooMuch r = true → ∃ a, x = .quiet a ∧ a.status = 413) ∧
    (f.announcesTooMuch r = false → (¬∃ n, l.Fits n) → ∃ a, x = .quiet a ∧ a.RefusesAsInvalid) := by
  intro x
  have hb := hhands.hasQuantity
  refine ⟨hb.exists_writes_of_quotes hquotes, ?_⟩
  cases hannounced : f.announcesTooMuch r with
  | true =>
    have hx : x = .quiet (sent fresh r tooLongResponse) :=
      attend_of_announcesTooMuch hannounced relay fresh patience upload
    refine ⟨fun hcalls => absurd ?_ hcalls, fun h => (nomatch h), fun _ => ?_, fun h => (nomatch h)⟩
    · rw [hx]
      rfl
    · exact ⟨_, hx, status_sent fresh r tooLongResponse⟩
  | false =>
    obtain ⟨sooner, hsooner, hcases⟩ := hhands.planOf_cases (f := f) hcontent
    have hintime := fate_answered_mono hfate hsooner
    rcases hcases with ⟨request, hplan, hrequest⟩ | ⟨⟨reason, hplan⟩, hnone⟩
    · -- the body is read, so its literal is a quantity
      obtain ⟨v, hv, hwith⟩ := (hb.request?_of_quotes hquotes).1 hrequest
      obtain ⟨op, order, horder, hquantity⟩ := hb.exists_order_of_quotes hquotes v
      have hfits : ∃ n, l.Fits n := ⟨v.toInt, Literal.fits_toInt_iff.2 hv⟩
      rw [hwith, horder] at hplan
      have haccepted : f.AcceptedAt patience upload r sooner (.order op order) :=
        ⟨hannounced, hplan, hintime⟩
      have hcalls : x.calls ≠ [] := by
        rw [calls_of_acceptedAt haccepted relay fresh]
        exact List.cons_ne_nil _ _
      refine ⟨fun _ => ⟨v.toInt, Literal.fits_toInt_iff.2 hv, ?_⟩,
        fun _ _ => ⟨fun _ => hfits, fun _ => hcalls⟩, fun h => (nomatch h),
        fun _ hno => absurd hfits hno⟩
      exact sends_of_acceptedAt htarget haccepted horder.symm hquantity
    · -- the body is not read, or is too long
      obtain ⟨a, hx, ha⟩ := hhands.exists_refuses relay fresh hannounced hplan hintime
      have hcalls : x.calls = [] := congrArg Exchange.calls hx
      refine ⟨fun h => absurd hcalls h, fun _ hshort => ⟨fun h => absurd hcalls h, ?_⟩,
        fun h => (nomatch h), fun _ _ => ⟨a, hx, ha⟩⟩
      rintro ⟨n, hn⟩
      obtain ⟨v, rfl⟩ := hn.exists_toInt
      have hread := (hb.request?_of_quotes hquotes).2 ⟨v, hn.denotes, rfl⟩
      rw [hnone hshort] at hread
      cases hread

/-- An order with a quantity, as it may be written. -/
def quotedOrder (l : Literal) : List (String × Value) :=
  [("symbol", .text "AAPL"), ("side", .text "BUY"), ("price", .number (.ofInt 150)),
    ("quantity", .number l), ("clientId", .text "c1")]

/-- The text of this order. -/
def quotedText (l : Literal) : Bytes := Utf8.encode (Value.compact (.object (quotedOrder l)))

/-- What it is otherwise. -/
def quotedRequest : EngineRequest :=
  .order .submitOrder ⟨"AAPL", "BUY", "", Double.ofInt 150, 1, "c1"⟩

theorem quotes_quotedText {l : Literal} (hl : l.Proper) :
    BodyKind.submit.Quotes (quotedText l) l quotedRequest := by
  have hprints : Prints (quotedText l) (Value.object (quotedOrder l)).words := by
    refine Value.prints_object ?_
    simp only [quotedOrder, List.forall_mem_cons]
    exact ⟨prints_quote _, prints_quote _, prints_number (Literal.proper_ofInt _), prints_number hl,
      prints_quote _, List.forall_mem_nil _⟩
  have hvalues : ∀ e ∈ Value.memberWords (quotedOrder l), IsValue e.2 := by
    simp only [quotedOrder, Value.memberWords, List.forall_mem_cons]
    exact ⟨.word rfl, .word rfl, .word rfl, .word rfl, .word rfl, List.forall_mem_nil _⟩
  have hholds := HoldsObject.holds ⟨hprints.tokens, hvalues⟩
  refine ⟨fun m => m.given ((Value.memberWords (quotedOrder l)).map Entry.of), 1,
    .object hholds (List.forall_mem_map.2 fun e _ => rfl) ?_, ?_⟩
  · change ∀ m ∈ SubmitDraft.shape.members, _
    simp only [SubmitDraft.shape, List.forall_mem_cons]
    exact ⟨rfl, rfl, rfl, rfl, rfl, rfl, List.forall_mem_nil _⟩
  · refine ⟨(.given "AAPL", .given "BUY", .absent, .given (Double.ofInt 150), .given (1 : Int32),
      .given "c1", ()), ?_, rfl⟩
    exact ⟨⟨rfl, _, rfl, rfl⟩, ⟨rfl, _, rfl, rfl⟩, rfl, ⟨rfl, _, rfl, rfl⟩, ⟨rfl, _, rfl, rfl⟩,
      ⟨rfl, _, rfl, rfl⟩, trivial⟩

/-- Asks for a new order. -/
def orderRequest : Request :=
  ⟨"POST", Utf8.encode "/v1/orders", [("content-type", Utf8.encode "application/json")], []⟩

theorem handsIn_orderRequest : HandsIn orderRequest .submit :=
  .submit (by decide) rfl (by decide)

/-- The least quantity goes out as it is. -/
theorem quantity_kept_least :
    (defaultFront.attend slowRelay [] none (.atOnce (quotedText (.ofInt (-2147483648))))
      orderRequest).Sends quotedRequest (-2147483648) := by
  have hfits : (Literal.ofInt (-2147483648)).Fits (-2147483648) :=
    ⟨Literal.denotes_ofInt _, le_rfl, by decide⟩
  have hshort : (quotedText (.ofInt (-2147483648))).length ≤
      bodyCap defaultFront.maxBodySize orderRequest.declaredLength? := by decide
  obtain ⟨-, hexact, haccepted, -⟩ := quantity_kept defaultFront slowRelay [] none (by decide)
    handsIn_orderRequest (quotes_quotedText (Literal.proper_ofInt (-2147483648)))
    (Upload.content?_atOnce _) (by decide)
  obtain ⟨n, hn, hsends⟩ := hexact ((haccepted (by decide) hshort).2 ⟨_, hfits⟩)
  rwa [hn.denotes.unique hfits.denotes] at hsends

/-! ## Literals that are too long by themselves -/

/-- So many nines. -/
def nines (count : ℕ) : Literal := ⟨false, List.replicate count (Fin.last 9), none, none⟩

theorem proper_nines {count : ℕ} (h : count ≠ 0) : (nines count).Proper := by
  refine ⟨by simpa [nines] using h, ?_, fun _ h => (nomatch h), fun _ h => (nomatch h)⟩
  intro d more hds hd
  have hmem : d ∈ (nines count).whole := hds ▸ List.mem_cons_self
  rw [List.eq_of_mem_replicate hmem] at hd
  cases hd

/-- Ten nines are more than any quantity. -/
theorem not_fits_nines (count : ℕ) : ¬∃ n, (nines (10 + count)).Fits n := by
  rintro ⟨n, hdenotes, -, hhigh⟩
  have hle : 9999999999 ≤ (nines (10 + count)).whole.value := by
    rw [nines, List.replicate_add, Digits.value, List.foldl_append]
    exact Digits.le_foldl _ _
  have hvalue : n = ((nines (10 + count)).whole.value : ℤ) := hdenotes.value
  omega

theorem length_nines (count : ℕ) : (Utf8.encode (nines count).text).length = count := by
  simp [Scan.encode_text, nines, Scan.length_octets, Scan.fractionOctets, Scan.exponentOctets]

/-- The text of an order is so much longer than its quantity. -/
theorem length_quotedText (l : Literal) :
    (quotedText l).length = (Utf8.encode l.text).length + 70 := by
  -- the texts of two orders differ in length as their quantities do
  have hdiffer : ∀ l' : Literal, (quotedText l).length + (Utf8.encode l'.text).length =
      (quotedText l').length + (Utf8.encode l.text).length := by
    intro l'
    unfold quotedText
    rw [Value.encode_object, Value.encode_object]
    simp only [quotedOrder, Value.compactMembers, Value.compact, List.map_cons, List.map_nil, joined,
      Utf8.encode_append, List.length_cons, List.length_append]
    omega
  have hone : (quotedText (.ofInt 1)).length = 71 := by decide
  have hdigit : (Utf8.encode (Literal.ofInt 1).text).length = 1 := by decide
  have hsame := hdiffer (.ofInt 1)
  omega

/-- Asks for a new order whose text has 65606 octets. -/
def longRequest : Request :=
  ⟨"POST", Utf8.encode "/v1/orders", [("content-type", Utf8.encode "application/json"),
    ("content-length", Utf8.encode "65606")], []⟩

/-- **A literal that is no quantity, but is not refused as invalid**: the request announces a body
that is too long, and the literal alone makes it so. -/
theorem not_refused_as_invalid : ¬∀ (f : Front) (relay : Relay) (fresh : Bytes)
    (patience : Option ℕ) (upload : Upload) (r : Request) (b : BodyKind) (body : Bytes) (l : Literal)
    (otherwise : EngineRequest) (time : ℕ), HandsIn r b → b.Quotes body l otherwise →
      r.Truthful body → upload.content? = some (time, body) →
        Fate.of f.limitMs patience time = .answered → (¬∃ n, l.Fits n) →
          ∃ a, f.attend relay fresh patience upload r = .quiet a ∧ a.RefusesAsInvalid := by
  intro hall
  have hlength : (quotedText (nines 65536)).length = 65606 := by
    rw [length_quotedText, length_nines]
  have htruthful : longRequest.Truthful (quotedText (nines 65536)) := by
    refine .inr ?_
    rw [hlength]
    decide
  have hannounced : defaultFront.announcesTooMuch longRequest = true := by decide
  obtain ⟨a, hx, hstatus, -⟩ := hall defaultFront slowRelay [] none
    (.atOnce (quotedText (nines 65536))) longRequest .submit _ (nines 65536) quotedRequest 0
    (.submit (by decide) rfl (by decide)) (quotes_quotedText (proper_nines (by decide))) htruthful
    (Upload.content?_atOnce _) (by decide) (not_fits_nines 65526)
  have hlong := attend_of_announcesTooMuch hannounced slowRelay [] none
    (.atOnce (quotedText (nines 65536)))
  have hanswer := congrArg Exchange.response (hlong.symm.trans hx)
  rw [← Option.some.inj hanswer, status_sent] at hstatus
  cases hstatus

end Front

end OrderRelay
