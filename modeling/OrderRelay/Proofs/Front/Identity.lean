import OrderRelay.Proofs.Front.IdBodies
import OrderRelay.Proofs.Front.Paths
import OrderRelay.Proofs.Front.Timers
import OrderRelay.Proofs.Order.Drafts

/-!
# The path names the order

Which order is cancelled or changed, and whose book is shown, is said by the path
alone. The path holds an encoded form of the name, and every form of a name is read as
the name: nothing is trimmed, and only one action is taken off the end.

* `heard_cancel_iff`, `heard_modify_iff`, `heard_orderBook_iff`: what the engine hears
  of a request whose path names something.
* `routeOf_form`: where a form of a name leads.
* `path_decides`: **the path decides**, for every text and every form of it, and the id
  in a body does not.
-/

namespace OrderRelay

open Http Json

namespace Front

variable {f : Front} {relay : Relay} {fresh : Bytes} {patience : Option ℕ} {upload : Upload}
  {r : Request} {request : EngineRequest} {octets : Bytes} {s : String}

/-- A body is taken in whole before the time of its request is up. -/
def ReceivesInTime (f : Front) (patience : Option ℕ) (upload : Upload) (r : Request)
    (body : Bytes) : Prop :=
  ∃ time, f.Receives upload r body time ∧ Fate.of f.limitMs patience time = .answered

/-! ## What the path says -/

/-- What is asked once the body of a request to cancel an order has been taken in. -/
theorem plan_eq_ask_cancel_iff (hroute : routeOf r = some (.order octets))
    (hmethod : r.method = "POST") (hpath : Percent.decodeText? octets = some (s ++ ":cancel"))
    (hs : isBlank s = false) (body : Bytes) :
    f.plan { r with body := body } = .ask request ↔
      body.length ≤ bodyCap f.maxBodySize r.declaredLength? ∧ ∃ draft clientId,
        cancelDraft body = .ok draft ∧ draft.clientId = some clientId ∧
          request = .order .cancelOrder ⟨s, clientId⟩ := by
  have htarget : cancelTarget? (s ++ ":cancel") = some s := cancelTarget?_eq_some_iff.2 rfl
  rw [plan_of_route (by exact hroute), ofRoute_eq_ask_iff]
  unfold RouteAsks
  simp only [hmethod, if_true]
  constructor
  · rintro ⟨-, order, horder, rfl⟩
    obtain ⟨ref, href, hle, orderId, hcancels, draft, hdraft, hok⟩ :=
      actionRequest_eq_ok_iff.1 horder
    obtain rfl : s ++ ":cancel" = ref := Option.some.inj (hpath ▸ href)
    obtain rfl : s = orderId := Option.some.inj (htarget.symm.trans hcancels)
    obtain ⟨-, clientId, hclient, rfl⟩ := CancelDraft.toRequest_eq_ok_iff.1 hok
    exact ⟨hle, draft, clientId, hdraft, hclient, rfl⟩
  · rintro ⟨hle, draft, clientId, hdraft, hclient, rfl⟩
    have hok : draft.toRequest s = .ok ⟨s, clientId⟩ :=
      CancelDraft.toRequest_eq_ok_iff.2 ⟨hs, clientId, hclient, rfl⟩
    have hasked : actionRequest f.maxBodySize octets { r with body := body } =
        .ok ⟨s, clientId⟩ :=
      actionRequest_eq_ok_iff.2 ⟨_, hpath, hle, s, htarget, draft, hdraft, hok⟩
    exact ⟨by simp [Route.methods], _, hasked, rfl⟩

/-- A request to cancel the order that its path names. -/
theorem heard_cancel_iff (hroute : routeOf r = some (.order octets)) (hmethod : r.method = "POST")
    (hpath : Percent.decodeText? octets = some (s ++ ":cancel")) (hs : isBlank s = false) :
    f.Heard relay fresh patience upload r request ↔
      ∃ body draft clientId, f.ReceivesInTime patience upload r body ∧
        cancelDraft body = .ok draft ∧ draft.clientId = some clientId ∧
          request = .order .cancelOrder ⟨s, clientId⟩ := by
  have hreads : Plan.readsBody (.order octets) r = true := by
    simp [Plan.readsBody, Route.methods, hmethod, hpath]
  rw [heard_iff_of_readsBody hroute hreads]
  simp only [plan_eq_ask_cancel_iff hroute hmethod hpath hs]
  constructor
  · rintro ⟨hlong, body, time, htake, hfate, hle, draft, clientId, hdraft, hclient, rfl⟩
    exact ⟨body, draft, clientId, ⟨time, ⟨hlong, hle, htake⟩, hfate⟩, hdraft, hclient, rfl⟩
  · rintro ⟨body, draft, clientId, ⟨time, ⟨hlong, hle, htake⟩, hfate⟩, hdraft, hclient, rfl⟩
    exact ⟨hlong, body, time, htake, hfate, hle, draft, clientId, hdraft, hclient, rfl⟩

/-- What is asked once the body of a request to change an order has been taken in. -/
theorem plan_eq_ask_modify_iff (hroute : routeOf r = some (.order octets))
    (hmethod : r.method = "PATCH") (hpath : Percent.decodeText? octets = some s)
    (hs : isBlank s = false) (body : Bytes) :
    f.plan { r with body := body } = .ask request ↔
      saysJson r = true ∧ body.length ≤ bodyCap f.maxBodySize r.declaredLength? ∧
        ∃ draft newPrice newQuantity clientId, ModifyDraft.ofText body = .ok draft ∧
          draft.newPrice = some newPrice ∧ draft.newQuantity = some newQuantity ∧
            draft.clientId = some clientId ∧
              request = .order .modifyOrder ⟨s, newPrice, newQuantity, clientId⟩ := by
  rw [plan_of_route (by exact hroute), ofRoute_eq_ask_iff]
  unfold RouteAsks
  simp only [hmethod, String.reduceEq, if_false]
  constructor
  · rintro ⟨-, order, horder, rfl⟩
    obtain ⟨ref, href, hjson, hle, draft, htext, hok⟩ := modifyRequest_eq_ok_iff.1 horder
    obtain rfl : s = ref := Option.some.inj (hpath ▸ href)
    obtain ⟨-, newPrice, newQuantity, clientId, hprice, hquantity, hclient, rfl⟩ :=
      ModifyDraft.toRequest_eq_ok_iff.1 hok
    exact ⟨hjson, hle, draft, newPrice, newQuantity, clientId, htext, hprice, hquantity, hclient,
      rfl⟩
  · rintro ⟨hjson, hle, draft, newPrice, newQuantity, clientId, htext, hprice, hquantity,
      hclient, rfl⟩
    have hok : draft.toRequest s = .ok ⟨s, newPrice, newQuantity, clientId⟩ :=
      ModifyDraft.toRequest_eq_ok_iff.2
        ⟨hs, newPrice, newQuantity, clientId, hprice, hquantity, hclient, rfl⟩
    have hasked : modifyRequest f.maxBodySize octets { r with body := body } =
        .ok ⟨s, newPrice, newQuantity, clientId⟩ :=
      modifyRequest_eq_ok_iff.2 ⟨s, hpath, hjson, hle, draft, htext, hok⟩
    exact ⟨by simp [Route.methods], _, hasked, rfl⟩

/-- A request to change the order that its path names. -/
theorem heard_modify_iff (hroute : routeOf r = some (.order octets)) (hmethod : r.method = "PATCH")
    (hpath : Percent.decodeText? octets = some s) (hs : isBlank s = false) :
    f.Heard relay fresh patience upload r request ↔
      saysJson r = true ∧ ∃ body draft newPrice newQuantity clientId,
        f.ReceivesInTime patience upload r body ∧ ModifyDraft.ofText body = .ok draft ∧
          draft.newPrice = some newPrice ∧ draft.newQuantity = some newQuantity ∧
            draft.clientId = some clientId ∧
              request = .order .modifyOrder ⟨s, newPrice, newQuantity, clientId⟩ := by
  -- a body that is not said to be JSON is not waited for, and then the plan asks nothing
  by_cases hjson : saysJson r = true
  · have hreads : Plan.readsBody (.order octets) r = true := by
      simp [Plan.readsBody, Route.methods, hmethod, hpath, hjson]
    rw [heard_iff_of_readsBody hroute hreads]
    simp only [plan_eq_ask_modify_iff hroute hmethod hpath hs]
    constructor
    · rintro ⟨hlong, body, time, htake, hfate, -, hle, hrest⟩
      obtain ⟨draft, newPrice, newQuantity, clientId, hdraft⟩ := hrest
      exact ⟨hjson, body, draft, newPrice, newQuantity, clientId,
        ⟨time, ⟨hlong, hle, htake⟩, hfate⟩, hdraft⟩
    · rintro ⟨-, body, draft, newPrice, newQuantity, clientId,
        ⟨time, ⟨hlong, hle, htake⟩, hfate⟩, hdraft⟩
      exact ⟨hlong, body, time, htake, hfate, hjson, hle, draft, newPrice, newQuantity, clientId,
        hdraft⟩
  · have hreads : ¬Plan.readsBody (.order octets) r = true := by
      simp [Plan.readsBody, hmethod, hjson]
    rw [heard_iff]
    simp only [planOf_eq_ask_iff_plan hroute, if_neg hreads]
    constructor
    · rintro ⟨-, time, ⟨-, hplan⟩, -⟩
      have hasked := (plan_eq_ask_modify_iff hroute hmethod hpath hs r.body).1 hplan
      exact absurd hasked.1 hjson
    · rintro ⟨h, -⟩
      exact absurd h hjson

/-- A request for the order book of the symbol that its path names. -/
theorem heard_orderBook_iff (hroute : routeOf r = some (.orderBook octets))
    (hmethod : r.method = "GET" ∨ r.method = "HEAD")
    (hpath : Percent.decodeText? octets = some s) (hs : isBlank s = false) :
    f.Heard relay fresh patience upload r request ↔
      f.announcesTooMuch r = false ∧ Fate.of f.limitMs patience 0 = .answered ∧
        request = .order .getOrderBook ⟨s⟩ := by
  have hbook : ∀ book, orderBookOf octets = .ok book ↔ book = ⟨s⟩ := by
    intro book
    rw [orderBookOf_eq_ok_iff, hpath]
    simp [orderBookRequest_eq_ok_iff, hs]
  have hask : f.plan r = .ask request ↔ request = .order .getOrderBook ⟨s⟩ := by
    rw [plan_of_route hroute, ofRoute_eq_ask_iff]
    unfold RouteAsks
    simp only [hbook, exists_eq_left, Route.methods]
    exact ⟨fun h => h.2.symm, fun h => ⟨by simpa using hmethod, h.symm⟩⟩
  have hreads : ¬Plan.readsBody (.orderBook octets) r = true := by simp [Plan.readsBody]
  rw [heard_iff]
  simp only [planOf_eq_ask_iff_plan hroute, if_neg hreads, hask]
  constructor
  · rintro ⟨hlong, time, ⟨rfl, rfl⟩, hfate⟩
    exact ⟨hlong, hfate, rfl⟩
  · rintro ⟨hlong, hfate, rfl⟩
    exact ⟨hlong, 0, ⟨rfl, rfl⟩, hfate⟩

/-! ## Where a form of a name leads -/

section Forms

variable {form query : Bytes}

/-- The form of a name is not empty. -/
theorem form_ne_nil (hs : isBlank s = false) (hform : Percent.Form form (Utf8.encode s)) :
    form ≠ [] := by
  rintro rfl
  have hdecode := Utf8.decode?_encode s
  rw [hform.eq_nil] at hdecode
  obtain rfl : "" = s := Option.some.inj hdecode
  exact absurd hs (by decide)

/-- A path that ends with a form and what comes behind it is found as it was written. -/
theorem path_form (start behind : Bytes) (hform : Percent.Form form (Utf8.encode s))
    (hquery : IsQuery query) (hstart : start.head? = some 0x2F)
    (hclean : 0x3F ∉ start ++ behind) (hclean' : 0x23 ∉ start ++ behind) :
    Uri.path (start ++ form ++ behind ++ query) = start ++ (form ++ behind) := by
  obtain ⟨rest, rfl⟩ := List.head?_eq_some_iff.1 hstart
  rw [List.mem_append, not_or] at hclean hclean'
  rw [List.append_assoc (0x2F :: rest)]
  refine path_eq List.cons_append hquery ?_ ?_
  · simp only [List.mem_append, not_or]
    exact ⟨hclean.1, hform.not_mem (by decide), hclean.2⟩
  · simp only [List.mem_append, not_or]
    exact ⟨hclean'.1, hform.not_mem (by decide), hclean'.2⟩

/-- A form behind the start of a route, and what comes behind the form, lead to that route. -/
theorem routeOf_form {start : Bytes} (behind : Bytes) {route : Bytes → Route}
    (hroute : ∀ {rest : Bytes}, rest ≠ [] → 0x2F ∉ rest →
      Route.ofPath? (start ++ rest) = some (route rest))
    (hstart : start.head? = some 0x2F) (hclean : 0x3F ∉ start ++ behind)
    (hclean' : 0x23 ∉ start ++ behind) (hbehind : 0x2F ∉ behind) (hs : isBlank s = false)
    (hform : Percent.Form form (Utf8.encode s)) (hquery : IsQuery query)
    (htarget : r.target = start ++ form ++ behind ++ query) :
    routeOf r = some (route (form ++ behind)) := by
  have hslash : 0x2F ∉ form ++ behind := by
    rw [List.mem_append, not_or]
    exact ⟨hform.not_mem (by decide), hbehind⟩
  unfold routeOf
  rw [htarget, path_form start behind hform hquery hstart hclean hclean']
  exact hroute (by simp [form_ne_nil hs hform]) hslash

/-- Nothing need come behind the form. -/
theorem routeOf_form_alone {start : Bytes} {route : Bytes → Route}
    (hroute : ∀ {rest : Bytes}, rest ≠ [] → 0x2F ∉ rest →
      Route.ofPath? (start ++ rest) = some (route rest))
    (hstart : start.head? = some 0x2F) (hclean : 0x3F ∉ start) (hclean' : 0x23 ∉ start)
    (hs : isBlank s = false) (hform : Percent.Form form (Utf8.encode s)) (hquery : IsQuery query)
    (htarget : r.target = start ++ form ++ query) : routeOf r = some (route form) := by
  have hleads := routeOf_form [] hroute hstart (by simpa using hclean) (by simpa using hclean')
    List.not_mem_nil hs hform hquery (by simpa using htarget)
  rwa [List.append_nil] at hleads

/-- A form alone is read as the name. -/
theorem decodeText?_form_alone (hform : Percent.Form form (Utf8.encode s)) :
    Percent.decodeText? form = some s := by
  have hdecode := Percent.decodeText?_form (t := "") hform (by decide)
  have hempty : Utf8.encode "" = [] := by decide
  rwa [hempty, List.append_nil, String.append_empty] at hdecode

end Forms

/-- **The path decides.** Let a text be not blank, and take any of its encoded forms. A
`POST` to the form with the action behind it is heard as a cancel of exactly this text,
whenever its body is taken in time and names the client. A `PATCH` to the form is heard
as a change of exactly this text, with the values that its body gives. A request for the
order book of the form is heard with exactly this text. And two requests whose bodies
differ in the id of the order only are heard alike and answered with the same status. They
meet with the very same response if their bodies have the shape that is wanted, as they have
whenever one of the requests is accepted; a body out of shape is refused with a text that
tells where in the body the fault lies. -/
theorem path_decides (f : Front) (relay : Relay) (fresh : Bytes) (patience : Option ℕ)
    {s : String} (hs : isBlank s = false) {form : Bytes}
    (hform : Percent.Form form (Utf8.encode s)) :
    (∀ upload query r, IsQuery query → r.method = "POST" →
      r.target = Utf8.encode "/v1/orders/" ++ form ++ Utf8.encode ":cancel" ++ query →
      ∀ request, f.Heard relay fresh patience upload r request ↔
        ∃ body draft clientId, f.ReceivesInTime patience upload r body ∧
          cancelDraft body = .ok draft ∧ draft.clientId = some clientId ∧
            request = .order .cancelOrder ⟨s, clientId⟩) ∧
    (∀ upload query r, IsQuery query → r.method = "PATCH" →
      r.target = Utf8.encode "/v1/orders/" ++ form ++ query →
      ∀ request, f.Heard relay fresh patience upload r request ↔
        saysJson r = true ∧ ∃ body draft newPrice newQuantity clientId,
          f.ReceivesInTime patience upload r body ∧ ModifyDraft.ofText body = .ok draft ∧
            draft.newPrice = some newPrice ∧ draft.newQuantity = some newQuantity ∧
              draft.clientId = some clientId ∧
                request = .order .modifyOrder ⟨s, newPrice, newQuantity, clientId⟩) ∧
    (∀ upload query r, IsQuery query → r.method = "GET" ∨ r.method = "HEAD" →
      r.target = Utf8.encode "/v1/orderbook/" ++ form ++ query →
      ∀ request, f.Heard relay fresh patience upload r request ↔
        f.announcesTooMuch r = false ∧ Fate.of f.limitMs patience 0 = .answered ∧
          request = .order .getOrderBook ⟨s⟩) ∧
    (∀ r r' body body' upload upload' time, SameHead r r' → DifferInId body body' →
      f.Receives upload r body time → f.Receives upload' r' body' time →
      (∀ relay' fresh' request, f.Heard relay' fresh' patience upload' r' request ↔
        f.Heard relay fresh patience upload r request) ∧
      SameFate (f.attend relay fresh patience upload r) (f.attend relay fresh patience upload' r') ∧
      (Shaped r body →
        f.attend relay fresh patience upload' r' = f.attend relay fresh patience upload r) ∧
      ∀ request, f.Asks upload r request → Shaped r body) := by
  refine ⟨?_, ?_, ?_, ?_⟩
  · intro upload query r hquery hmethod htarget request
    have hroute := routeOf_form _ Route.ofPath?_order (by decide) (by decide) (by decide)
      (by decide) hs hform hquery htarget
    exact heard_cancel_iff hroute hmethod (Percent.decodeText?_form hform (by decide +kernel)) hs
  · intro upload query r hquery hmethod htarget request
    have hroute := routeOf_form_alone Route.ofPath?_order (by decide) (by decide) (by decide) hs
      hform hquery htarget
    exact heard_modify_iff hroute hmethod (decodeText?_form_alone hform) hs
  · intro upload query r hquery hmethod htarget request
    have hroute := routeOf_form_alone Route.ofPath?_orderBook (by decide) (by decide) (by decide)
      hs hform hquery htarget
    exact heard_orderBook_iff hroute hmethod (decodeText?_form_alone hform) hs
  · intro r r' body body' upload upload' time hhead hsame hbody hbody'
    obtain ⟨hfate, hequal⟩ := attend_sameFate relay fresh patience hhead hsame hbody hbody'
    refine ⟨fun relay' fresh' request => ?_, hfate, hequal, fun request => shaped_of_asks hbody⟩
    rw [heard_congr relay' fresh' relay fresh]
    unfold Heard
    rw [hfate.calls]

/-- The octets of `a b:cancel` in one of their forms. -/
def escapedForm : Bytes :=
  [0x61, 0x25, 0x32, 0x30, 0x62, 0x25, 0x33, 0x61, 0x63, 0x61, 0x6E, 0x63, 0x65, 0x6C]

/-- A body that names the client. -/
def clientBody : Bytes := Utf8.encode "\x7b\"clientId\":\"me\"\x7d"

/-- Cancels the order `a b:cancel`. -/
def escapedCancel : Request :=
  ⟨"POST", Utf8.encode "/v1/orders/" ++ escapedForm ++ Utf8.encode ":cancel", [], clientBody⟩

theorem form_escapedForm : Percent.Form escapedForm (Utf8.encode "a b:cancel") := by
  have hencode : Utf8.encode "a b:cancel" =
      [0x61, 0x20, 0x62, 0x3A, 0x63, 0x61, 0x6E, 0x63, 0x65, 0x6C] := by decide
  rw [hencode]
  exact .plain rfl (.escaped rfl rfl (.plain rfl (.escaped rfl rfl (.plain rfl (.plain rfl
    (.plain rfl (.plain rfl (.plain rfl (.plain rfl .nil)))))))))

/-- An order whose name ends with the action loses the one that the request adds. -/
theorem path_decides_escaped : defaultFront.Heard slowRelay [] none (.atOnce clientBody)
    escapedCancel (.order .cancelOrder ⟨"a b:cancel", "me"⟩) := by
  have hcancel := (path_decides defaultFront slowRelay [] none (by decide +kernel)
    form_escapedForm).1 (.atOnce clientBody) [] escapedCancel (.inl rfl) rfl
    (List.append_nil _).symm
  have hdraft : cancelDraft clientBody = .ok ⟨none, some "me"⟩ := by decide +kernel
  have hreceives : defaultFront.Receives (.atOnce clientBody) escapedCancel clientBody 0 :=
    ⟨by decide +kernel, by decide +kernel, Upload.take_atOnce _ _⟩
  exact (hcancel _).2 ⟨clientBody, _, "me", ⟨0, hreceives, by decide⟩, hdraft, rfl, rfl⟩

end Front

end OrderRelay
