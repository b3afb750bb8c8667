import OrderRelay.Proofs.Front.Lengths
import OrderRelay.Proofs.Front.Paths
import OrderRelay.Proofs.Front.Timers
import OrderRelay.Proofs.Message.Rendering
import OrderRelay.Proofs.Message.RoundTrip
import OrderRelay.Proofs.Order.Drafts
import OrderRelay.Proofs.Rpc.Carriage

/-!
# Nothing is lost in translation

An order comes in as JSON and a path, goes out as a message on the wire, and its answer
comes back on the wire and goes out as JSON. Each value keeps its meaning on both ways.

* `Front.Says`: the order that a path and a body say, value by value.
* `says_of_asks`, `Says.fits`: what is asked of the engine is what the request says, and
  none of its texts is too long for the wire.
* `attend_of_acceptedAt`: what becomes of a request that is accepted.
* `translation_faithful`: **orders, answers and failures keep their meaning.**
-/

namespace OrderRelay

open Http Json

/-! ## What messages are made of -/

/-- The same request, with zero in place of a negative zero. -/
def Operation.unsignedZeros : (op : Operation) → op.Request → op.Request
  | .submitOrder, order => { order with price := order.price.unsignedZero }
  | .modifyOrder, order => { order with newPrice := order.newPrice.unsignedZero }
  | .getOrderBook, order => order
  | .cancelOrder, order => order

theorem Operation.canonical_eq (op : Operation) (order : op.Request) :
    Message.canonical order = op.unsignedZeros order := by
  cases op <;> rfl

theorem Operation.sound_request (op : Operation) :
    Record.sound Record.maxDepth (Message.schema op.Request).fields = true := by
  cases op <;> decide

theorem Operation.told_response (op : Operation) :
    Record.told (Message.schema op.Response).fields = true := by
  cases op <;> decide

/-- The text for an error is valid, and holds its words and its code. -/
theorem RelayError.ofText?_body (e : RelayError) :
    Value.ofText? (Utf8.encode e.body) =
      some (.object [("error", .text e.message), ("code", .text e.code)]) := by
  refine Value.ofText?_compact (.object ?_)
  exact List.forall_mem_cons.2 ⟨.text _, List.forall_mem_singleton.2 (.text _)⟩

namespace Front

variable {f : Front} {relay : Relay} {fresh : Bytes} {patience : Option ℕ} {upload : Upload}
  {r : Request} {request : EngineRequest} {op : Operation} {order : op.Request} {start : ℕ}

/-! ## What a request says -/

/-- **What a request says**: each value of the order is given by the body or by the path. The
type of an order may be left out or null, and is empty then. -/
inductive Says (f : Front) (upload : Upload) (r : Request) : (op : Operation) → op.Request → Prop
  | submit {body : Bytes} {symbol side clientId : String} {type : Slot String}
      {price : Double} {quantity : Int32}
      (hroute : routeOf r = some .orders) (hmethod : r.method = "POST")
      (hbody : f.Takes upload r body)
      (hspells : SpellsShape SubmitDraft.shape (lexemes (tokens body)) (.given symbol, .given side,
        type, .given price, .given quantity, .given clientId, ())) :
      Says f upload r .submitOrder
        ⟨symbol, side, type.value?.getD "", price, quantity, clientId⟩
  | cancel {octets body : Bytes} {orderId clientId : String} {ignored : Slot String}
      (hroute : routeOf r = some (.order octets)) (hmethod : r.method = "POST")
      (hpath : Percent.decodeText? octets = some (orderId ++ ":cancel"))
      (hbody : f.Takes upload r body)
      (hspells : SpellsShape CancelDraft.shape (lexemes (tokens body))
        (ignored, .given clientId, ())) :
      Says f upload r .cancelOrder ⟨orderId, clientId⟩
  | modify {octets body : Bytes} {orderId clientId : String} {ignored : Slot String}
      {newPrice : Double} {newQuantity : Int32}
      (hroute : routeOf r = some (.order octets)) (hmethod : r.method = "PATCH")
      (hpath : Percent.decodeText? octets = some orderId) (hbody : f.Takes upload r body)
      (hspells : SpellsShape ModifyDraft.shape (lexemes (tokens body))
        (ignored, .given newPrice, .given newQuantity, .given clientId, ())) :
      Says f upload r .modifyOrder ⟨orderId, newPrice, newQuantity, clientId⟩
  | orderBook {octets : Bytes} {symbol : String} (hroute : routeOf r = some (.orderBook octets))
      (hmethod : r.method = "GET" ∨ r.method = "HEAD")
      (hpath : Percent.decodeText? octets = some symbol) :
      Says f upload r .getOrderBook ⟨symbol⟩

/-- A body that names the client of a cancel is not blank, and so has been read. -/
theorem ofText_of_cancelDraft {body : Bytes} {draft : CancelDraft} {clientId : String}
    (h : cancelDraft body = .ok draft) (hclient : draft.clientId = some clientId) :
    CancelDraft.ofText body = .ok draft := by
  unfold cancelDraft at h
  split at h
  · cases h
    cases hclient
  · split at h
    · rename_i htext
      cases h
      exact htext
    · cases h

/-- **What is asked of the engine is what the request says.** -/
theorem says_of_asks (h : f.Asks upload r (.order op order)) : f.Says upload r op order := by
  cases h with
  | @submit body draft order hroute hmethod _ hbody htext horder =>
    obtain ⟨slots, hspells, rfl⟩ := SubmitDraft.ofText_eq_ok_iff.1 htext
    obtain ⟨symbol, side, type, price, quantity, clientId, ⟨⟩⟩ := slots
    obtain ⟨symbol', side', orderType, price', quantity', clientId'⟩ := order
    obtain ⟨hsymbol, hside, htype, hprice, hquantity, hclient⟩ :=
      SubmitDraft.toRequest_eq_ok_iff.1 horder
    -- what is required and not missing was given
    obtain rfl : symbol = .given symbol' := Slot.value?_eq_some_iff.1 hsymbol
    obtain rfl : side = .given side' := Slot.value?_eq_some_iff.1 hside
    obtain rfl : price = .given price' := Slot.value?_eq_some_iff.1 hprice
    obtain rfl : quantity = .given quantity' := Slot.value?_eq_some_iff.1 hquantity
    obtain rfl : clientId = .given clientId' := Slot.value?_eq_some_iff.1 hclient
    obtain rfl : type.value?.getD "" = orderType := htype
    exact .submit hroute hmethod hbody hspells
  | cancel hroute hmethod href hbody htarget hdraft horder =>
    obtain ⟨-, clientId', hclient, rfl⟩ := CancelDraft.toRequest_eq_ok_iff.1 horder
    rw [cancelTarget?_eq_some_iff.1 htarget] at href
    have htext := ofText_of_cancelDraft hdraft hclient
    obtain ⟨⟨ignored, clientId, ⟨⟩⟩, hspells, rfl⟩ := CancelDraft.ofText_eq_ok_iff.1 htext
    obtain rfl : clientId = .given clientId' := Slot.value?_eq_some_iff.1 hclient
    exact .cancel hroute hmethod href hbody hspells
  | modify hroute hmethod href _ hbody htext horder =>
    obtain ⟨-, newPrice', newQuantity', clientId', hprice, hquantity, hclient, rfl⟩ :=
      ModifyDraft.toRequest_eq_ok_iff.1 horder
    obtain ⟨⟨ignored, newPrice, newQuantity, clientId, ⟨⟩⟩, hspells, rfl⟩ :=
      ModifyDraft.ofText_eq_ok_iff.1 htext
    obtain rfl : newPrice = .given newPrice' := Slot.value?_eq_some_iff.1 hprice
    obtain rfl : newQuantity = .given newQuantity' := Slot.value?_eq_some_iff.1 hquantity
    obtain rfl : clientId = .given clientId' := Slot.value?_eq_some_iff.1 hclient
    exact .modify hroute hmethod href hbody hspells
  | orderBook hroute hmethod hsymbol hrequest =>
    obtain ⟨-, rfl⟩ := orderBookRequest_eq_ok_iff.1 hrequest
    exact .orderBook hroute hmethod hsymbol

/-- A text that a body gives is short. -/
theorem lt_of_given {body : Bytes} (hbody : f.Takes upload r body) {slot : Slot String}
    (h : ∀ v, slot = .given v → ∃ l ∈ lexemes (tokens body), Scalar.ofLexeme? .text l = some v) :
    (slot.value?.getD "").utf8ByteSize < 2 ^ 64 := by
  cases slot with
  | absent | null => decide
  | given t =>
    -- no other lexeme spells a text
    obtain ⟨l, hl, ht⟩ := h t rfl
    cases l with
    | text content =>
      cases content with
      | ok t' =>
        obtain rfl : t' = t := Option.some.inj ht
        exact lt_of_body hbody hl
      | error fault => cases ht
    | _ => cases ht

/-- A text that a path gives is short. -/
theorem lt_of_path_alone (htarget : r.target.length ≤ Uri.maxLength) {route : Route}
    (hroute : routeOf r = some route) {s : String}
    (h : Percent.decodeText? route.parameter = some s) : s.utf8ByteSize < 2 ^ 64 :=
  lt_of_path htarget hroute (by rwa [String.append_empty])

/-- **No text of what a request says is too long** for the wire. -/
theorem Says.fits (htarget : r.target.length ≤ Uri.maxLength) (h : f.Says upload r op order) :
    Message.Fits order := by
  -- only texts have a length, and each of them stands in the body or in the path
  cases h with
  | submit hroute _ hbody hspells =>
    obtain ⟨hsymbol, hside, htype, -, -, hclient, -⟩ := givenIn_of_spellsShape hspells
    exact ⟨lt_of_given hbody hsymbol, lt_of_given hbody hside, lt_of_given hbody htype, trivial,
      trivial, lt_of_given hbody hclient, trivial⟩
  | cancel hroute _ hpath hbody hspells =>
    obtain ⟨-, hclient, -⟩ := givenIn_of_spellsShape hspells
    exact ⟨lt_of_path htarget hroute hpath, lt_of_given hbody hclient, trivial⟩
  | modify hroute _ hpath hbody hspells =>
    obtain ⟨-, -, -, hclient, -⟩ := givenIn_of_spellsShape hspells
    exact ⟨lt_of_path_alone htarget hroute hpath, trivial, trivial, lt_of_given hbody hclient,
      trivial⟩
  | orderBook hroute _ hpath => exact ⟨lt_of_path_alone htarget hroute hpath, trivial⟩

/-! ## Requests that are accepted in time -/

/-- **A request is accepted at this moment**: it has passed all checks, and neither is its
time up nor has its caller left. -/
structure AcceptedAt (f : Front) (patience : Option ℕ) (upload : Upload) (r : Request)
    (start : ℕ) (request : EngineRequest) : Prop where
  announced : f.announcesTooMuch r = false
  planned : f.planOf upload r = some (start, .ask request)
  inTime : Fate.of f.limitMs patience start = .answered

/-- What becomes of a request that is accepted. -/
theorem attend_of_acceptedAt (h : f.AcceptedAt patience upload r start request) (relay : Relay)
    (fresh : Bytes) :
    let inner := f.serve relay (passedId fresh r) patience start request
    f.attend relay fresh patience upload r =
      { inner with response := inner.response.map (sent fresh r) } := by
  rw [attend_of_announced h.announced, h.planned, carryOut_ask h.inTime]

/-- The engine is asked what the request asks. -/
theorem calls_of_acceptedAt (h : f.AcceptedAt patience upload r start request) (relay : Relay)
    (fresh : Bytes) :
    (f.attend relay fresh patience upload r).calls = [relay.call (passedId fresh r) request] := by
  rw [attend_of_acceptedAt h]
  exact calls_serve relay _ patience start request

theorem AcceptedAt.asks (h : f.AcceptedAt patience upload r start request) :
    f.Asks upload r request := planOf_eq_ask_iff.1 ⟨start, h.planned⟩

/-- **A call fails** after so many milliseconds, with this error. -/
inductive CallFails (relay : Relay) (requestId : String) : EngineRequest → ℕ → RelayError → Prop
  | order {op : Operation} {order : op.Request} {delay : ℕ} {e : RelayError}
      (h : relay.order requestId op order = (delay, .error e)) :
      CallFails relay requestId (.order op order) delay e
  | trades {subscription : SubscribeTradesRequest} {delay : ℕ} {e : RelayError}
      (h : relay.trades requestId subscription = (delay, .error e)) :
      CallFails relay requestId (.trades subscription) delay e

/-- The answer to an operation that has come to an end in time. -/
theorem answers_of_order {delay : ℕ} {result : CallResult op.Response} {status : ℕ} {text : String}
    (h : f.AcceptedAt patience upload r start (.order op order))
    (hresult : relay.order (passedId fresh r) op order = (delay, result))
    (htime : Fate.of f.limitMs patience (start + delay) = .answered)
    (hanswer : orderResponse result = .json status text) :
    (f.attend relay fresh patience upload r).Answers r status text := by
  obtain ⟨route, hroute⟩ := exists_routeOf_of_asks h.asks
  have hresponse : (f.attend relay fresh patience upload r).response =
      some (sent fresh r (.json status text)) := by
    rw [attend_of_acceptedAt h, ← hanswer]
    unfold serve
    simp only [hresult, htime]
    rfl
  exact answers_sent hroute hresponse

/-- **A call that fails in time** is answered with its error. -/
theorem answers_of_callFails {delay : ℕ} {e : RelayError}
    (h : f.AcceptedAt patience upload r start request)
    (hfails : CallFails relay (passedId fresh r) request delay e)
    (htime : Fate.of f.limitMs patience (start + delay) = .answered) :
    (f.attend relay fresh patience upload r).Answers r e.status e.body := by
  cases hfails with
  | order hresult => exact answers_of_order h hresult htime rfl
  | trades hresult =>
    obtain ⟨route, hroute⟩ := exists_routeOf_of_asks h.asks
    have hresponse : (f.attend relay fresh patience upload r).response =
        some (sent fresh r (.json e.status e.body)) := by
      rw [attend_of_acceptedAt h]
      unfold serve
      simp only [hresult, htime]
      rfl
    exact answers_sent hroute hresponse

/-- **Orders, answers and failures keep their meaning.**

* A request that is accepted asks for an order that it says, value by value, and what goes
  out is a frame with a message that is read as this order, but for the sign of a zero.
* A reply that comes back in time and is read as a message is answered with status 200 and a
  text that is valid and is read as the message, whatever the message says, if the text of
  each double in it is read back.
* A reply that carries the octets of a message is read as the message.
* The text for an error is valid and holds its words and its code, and it is the answer to a
  call that fails so in time. -/
theorem translation_faithful (f : Front) (deadlineMs : ℕ) (network : Rpc.Network) (link : Link)
    (fresh : Bytes) (patience : Option ℕ) (upload : Upload) {r : Request}
    (htarget : r.target.length ≤ Uri.maxLength) :
    let relay : Relay := ⟨deadlineMs, Rpc.engine network link⟩
    let x := f.attend relay fresh patience upload r
    (∀ start op order, f.AcceptedAt patience upload r start (.order op order) →
      f.Says upload r op order ∧
        ∃ call, x.calls = [call] ∧ ∀ out, Rpc.Request.ofCall? call = some out →
          ∃ payload, out.body = Rpc.frame payload ∧
            Message.decode op.Request payload = .ok (op.unsignedZeros order)) ∧
    (∀ start op order, f.AcceptedAt patience upload r start (.order op order) →
      ∀ delay reply,
        Rpc.Brings network link (relay.call (passedId fresh r) (.order op order)) delay reply →
        delay ≤ deadlineMs → Fate.of f.limitMs patience (start + delay) = .answered →
        ∀ m, reply.single op.Response = .ok m → Message.ReadsBack m →
          ∃ a, x.response = some a ∧ a.status = 200 ∧
            if r.method = "HEAD" then a.body = []
            else Value.ofText? a.body = some (Message.toJson m) ∧
              Message.ofText op.Response a.body = .ok m) ∧
    (∀ (op : Operation) (reply : Rpc.Reply) payload m, reply.Carries payload →
      Message.decode op.Response payload = .ok m → reply.single op.Response = .ok m) ∧
    ∀ e : RelayError,
      Value.ofText? (Utf8.encode e.body) =
        some (.object [("error", .text e.message), ("code", .text e.code)]) ∧
      ∀ start request delay, f.AcceptedAt patience upload r start request →
        CallFails relay (passedId fresh r) request delay e →
        Fate.of f.limitMs patience (start + delay) = .answered → x.Answers r e.status e.body := by
  intro relay x
  refine ⟨?_, ?_, ?_, fun e => ⟨e.ofText?_body, ?_⟩⟩
  · intro start op order h
    have hsaid : f.Says upload r op order := says_of_asks h.asks
    -- the frame holds what is written for the order, which comes back since its texts are short
    refine ⟨hsaid, _, calls_of_acceptedAt h relay fresh, fun out hout => ?_⟩
    refine ⟨Message.encode order, Rpc.body_of_ofCall? hout, ?_⟩
    rw [← op.canonical_eq order]
    exact Message.decode_encode op.sound_request (hsaid.fits htarget)
  · intro start op order h delay reply hbrings hdeadline htime m hm hback
    -- neither the link nor the relay gives the call up, so its result is the message
    have hreply : relay.engine.order op order (relay.orderContext (passedId fresh r)) =
        ⟨some delay, .ok m⟩ := hbrings.order_eq hm
    have hresult : relay.order (passedId fresh r) op order = (delay, .ok m) := by
      unfold Relay.order
      rw [hreply, settle_of_le rfl hdeadline]
      rfl
    obtain ⟨a, hresponse, hstatus, hbody⟩ := answers_of_order h hresult htime rfl
    refine ⟨a, hresponse, hstatus, ?_⟩
    rw [hbody]
    split
    · rfl
    · exact Message.ofText_text op.told_response hback
  · intro op reply payload m hcarries hm
    exact Rpc.Reply.single_of_carries hcarries hm
  · intro start request delay h hfails htime
    exact answers_of_callFails h hfails htime

/-- An order book with one entry: three at a price of 150.25. -/
def smallBook : GetOrderBookResponse := ⟨[⟨⟨0x4062C80000000000⟩, 3⟩], []⟩

/-- The link to an engine at the default address. -/
def openLink : Link := ⟨"localhost:50051", true⟩

/-- A reply that carries the small order book. -/
def bookReply : Rpc.Reply :=
  ⟨200, [], Rpc.frame (Message.encode smallBook), some [("grpc-status", [0x30])]⟩

/-- A network in which every call is answered at once with the small order book. -/
def bookNetwork : Rpc.Network := fun _ => .replied 0 bookReply

theorem brings_bookNetwork (requestId : String) (op : Operation) (order : op.Request) :
    Rpc.Brings bookNetwork openLink ⟨.order op order, ⟨requestId, some 5000000⟩⟩ 0 bookReply := by
  have htimeout : Rpc.Timeout.ofNanos? (1000 * 5000000) = some ⟨5000000, .microsecond⟩ := by decide
  have hout : Rpc.timeout? ⟨.order op order, ⟨requestId, some 5000000⟩⟩ =
      some (some ⟨5000000, .microsecond⟩) := congrArg (Option.map some) htimeout
  exact ⟨rfl, _, congrArg (Option.map _) hout, rfl, fun t _ => Nat.zero_le _⟩

theorem carries_bookReply : bookReply.Carries (Message.encode smallBook) := by
  refine ⟨rfl, by decide +kernel, by decide +kernel, ?_⟩
  exact ⟨_, ⟨.ok, ""⟩, rfl, by decide, rfl⟩

theorem decode_smallBook :
    Message.decode GetOrderBookResponse (Message.encode smallBook) = .ok smallBook := by
  have hfits : Message.Fits smallBook := by
    refine ⟨?_, ?_, trivial⟩
    · exact List.forall_mem_singleton.2 ⟨trivial, trivial, trivial⟩
    · exact fun r hr => (nomatch hr)
  have hcanonical : Message.canonical smallBook = smallBook := by decide
  rw [Message.decode_encode (by decide) hfits, hcanonical]

theorem readsBack_smallBook : Message.ReadsBack smallBook := by
  have hprice : Double.ReadsBack ⟨0x4062C80000000000⟩ := ⟨by decide +kernel, by decide +kernel⟩
  refine ⟨?_, ?_, trivial⟩
  · exact List.forall_mem_singleton.2 ⟨hprice, trivial, trivial⟩
  · exact fun r hr => (nomatch hr)

/-- The small order book of the engine is shown as it is. -/
theorem translation_faithful_book :
    ∃ a, (defaultFront.attend ⟨5000, Rpc.engine bookNetwork openLink⟩ [] none (.atOnce [])
        bookRequest).response = some a ∧ a.status = 200 ∧
      Message.ofText GetOrderBookResponse a.body = .ok smallBook := by
  have haccepted : defaultFront.AcceptedAt none (.atOnce []) bookRequest 0
      (.order .getOrderBook ⟨"A"⟩) :=
    ⟨accepts_bookRequest.1, planOf_of_accepts accepts_bookRequest, by decide⟩
  have hfaithful := translation_faithful defaultFront 5000 bookNetwork openLink [] none (.atOnce [])
    (r := bookRequest) (by decide +kernel)
  have hread := hfaithful.2.2.1 .getOrderBook bookReply _ smallBook carries_bookReply decode_smallBook
  obtain ⟨a, hresponse, hstatus, hbody⟩ := hfaithful.2.1 0 .getOrderBook ⟨"A"⟩ haccepted 0 bookReply
    (brings_bookNetwork _ _ _) (by decide) (by decide) smallBook hread readsBack_smallBook
  exact ⟨a, hresponse, hstatus, hbody.2⟩

end Front

end OrderRelay
