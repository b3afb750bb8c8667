import OrderRelay.Proofs.Front.Bodies
import OrderRelay.Proofs.Front.Hearing

/-!
# The id of an order in a body

A body may name the order that it is about. The name is read for its type and then
forgotten: the path has named the order already.

* `DifferInId`: two texts that hold the same object but for the id of an order.
* `cancelDraft_of_differInId`, `modify_ofText_of_differInId`,
  `submit_ofText_of_differInId`: such texts are read alike.
* `Shaped`: a body has the shape that its request wants.
* `Alike`, `plan_alike`: **requests with such bodies come to the same plan**, or are
  both refused since the bodies are out of shape.
* `SameFate`, `attend_sameFate`: and so they meet with the same fate.
-/

namespace OrderRelay

open Http Json

namespace Front

variable {f : Front} {relay : Relay} {fresh : Bytes} {patience : Option ℕ} {upload : Upload}
  {r r' : Request} {request : EngineRequest} {body body' : Bytes}

/-! ## What a body says of the id -/

/-- The names that the id of an order goes by in a body. -/
def idMember : Member Scalar := ⟨["orderId", "order_id"], .text⟩

/-- The id of an order is left out, or null, or a text. -/
def IdValues (values : List (List Lexeme)) : Prop :=
  values = [] ∨ values = [[.null]] ∨ ∃ id, values = [[.text (.ok id)]]

/-- **Two texts hold the same object but for the id of an order**, which each leaves out
or gives once, as null or as a text. -/
def DifferInId (body body' : Bytes) : Prop :=
  ∃ es es', HoldsObject body es ∧ HoldsObject body' es' ∧
    IdValues (idMember.valuesIn es) ∧ IdValues (idMember.valuesIn es') ∧
      es.filter (fun e => !idMember.owns e) = es'.filter fun e => !idMember.owns e

theorem DifferInId.symm {body body' : Bytes} (h : DifferInId body body') :
    DifferInId body' body := by
  obtain ⟨es, es', hbody, hbody', hid, hid', hsame⟩ := h
  exact ⟨es', es, hbody', hbody, hid', hid, hsame.symm⟩

/-- Any of these values can be put into the slot of the id. -/
theorem exists_fillsSlot {values : List (List Lexeme)} (h : IdValues values) :
    ∃ slot, FillsSlot .byNull Scalar.text values .absent slot := by
  obtain rfl | rfl | ⟨id, rfl⟩ := h
  · exact ⟨.absent, rfl⟩
  · exact ⟨.null, rfl, rfl, rfl⟩
  · exact ⟨.given id, rfl, _, rfl, rfl⟩

/-- **The slots of all members but the first**, which is the id of an order, are filled alike. -/
theorem DifferInId.exists_spellsShape {body body' : Bytes} (h : DifferInId body body')
    {expected : String} {ms : List (Member Scalar)} {slot : Slot String} {slots : Slots ms}
    (hspells : SpellsShape ⟨expected, .byNull, idMember :: ms⟩ (lexemes (tokens body))
      (slot, slots)) :
    ∃ slot', SpellsShape ⟨expected, .byNull, idMember :: ms⟩ (lexemes (tokens body'))
      (slot', slots) := by
  obtain ⟨es, es', hbody, hbody', -, hid', hsame⟩ := h
  have hfills : Fills .byNull (idMember :: ms) es (slot, slots) := hbody.spellsShape_iff.1 hspells
  obtain ⟨slot', hslot'⟩ := exists_fillsSlot hid'
  refine ⟨slot', hbody'.spellsShape_iff.2 ⟨hslot', ?_⟩⟩
  rw [← hsame]
  exact hfills.2

theorem cancel_ofText_of_differInId {body body' : Bytes} (h : DifferInId body body')
    {d : CancelDraft} (hd : CancelDraft.ofText body = .ok d) :
    ∃ d', CancelDraft.ofText body' = .ok d' ∧ d'.clientId = d.clientId := by
  obtain ⟨⟨slot, slots⟩, hspells, rfl⟩ := CancelDraft.ofText_eq_ok_iff.1 hd
  obtain ⟨slot', hspells'⟩ := h.exists_spellsShape hspells
  exact ⟨_, CancelDraft.ofText_eq_ok_iff.2 ⟨_, hspells', rfl⟩, rfl⟩

theorem modify_ofText_of_differInId {body body' : Bytes} (h : DifferInId body body')
    {d : ModifyDraft} (hd : ModifyDraft.ofText body = .ok d) :
    ∃ d', ModifyDraft.ofText body' = .ok d' ∧ d'.newPrice = d.newPrice ∧
      d'.newQuantity = d.newQuantity ∧ d'.clientId = d.clientId := by
  obtain ⟨⟨slot, slots⟩, hspells, rfl⟩ := ModifyDraft.ofText_eq_ok_iff.1 hd
  obtain ⟨slot', hspells'⟩ := h.exists_spellsShape hspells
  exact ⟨_, ModifyDraft.ofText_eq_ok_iff.2 ⟨_, hspells', rfl⟩, rfl, rfl, rfl⟩

/-- Where no member of a shape goes by a name of the id, the id is passed over. -/
theorem fills_of_sameOthers {ms : List (Member Scalar)} (hms : Apart ms)
    (hother : ∀ m ∈ ms, ∀ name ∈ idMember.names, name ∉ m.names)
    {es es' : List (String × List Lexeme)} {slots : Slots ms} (hes' : ∀ e ∈ es', IsValue e.2)
    (hsame : es.filter (fun e => !idMember.owns e) = es'.filter fun e => !idMember.owns e)
    (h : Fills .byNull ms es slots) : Fills .byNull ms es' slots := by
  obtain ⟨-, heach⟩ := (fills_iff hms).1 h
  refine (fills_iff hms).2 ⟨hes', heach.congr fun m hm => ?_⟩
  rw [← Member.valuesIn_filter (hother m hm) es', ← hsame, Member.valuesIn_filter (hother m hm) es]

theorem submit_ofText_of_differInId {body body' : Bytes} (h : DifferInId body body')
    {d : SubmitDraft} (hd : SubmitDraft.ofText body = .ok d) :
    SubmitDraft.ofText body' = .ok d := by
  obtain ⟨es, es', hbody, hbody', -, -, hsame⟩ := h
  obtain ⟨slots, hspells, rfl⟩ := SubmitDraft.ofText_eq_ok_iff.1 hd
  have hfills := hbody.spellsShape_iff.1 hspells
  have hfills' : Fills SubmitDraft.shape.absence SubmitDraft.shape.members es' slots :=
    fills_of_sameOthers (by decide) (by decide) hbody'.2 hsame hfills
  exact SubmitDraft.ofText_eq_ok_iff.2 ⟨slots, hbody'.spellsShape_iff.2 hfills', rfl⟩

/-- What holds an object is not blank. -/
theorem not_blank_of_holdsObject {body : Bytes} {es : List (String × List Lexeme)}
    (h : HoldsObject body es) : ¬body.all isAsciiBlank = true :=
  not_blank_of_openObject h.1

theorem cancelDraft_of_differInId {body body' : Bytes} (h : DifferInId body body') {d : CancelDraft}
    (hd : cancelDraft body = .ok d) : ∃ d', cancelDraft body' = .ok d' ∧ d'.clientId = d.clientId := by
  obtain ⟨es, es', hbody, hbody', -⟩ := id h
  unfold cancelDraft at hd ⊢
  rw [if_neg (not_blank_of_holdsObject hbody)] at hd
  rw [if_neg (not_blank_of_holdsObject hbody')]
  cases hr : CancelDraft.ofText body with
  | error e => rw [hr] at hd; cases hd
  | ok draft =>
    rw [hr] at hd
    cases hd
    obtain ⟨d', hd', hclient⟩ := cancel_ofText_of_differInId h hr
    rw [hd']
    exact ⟨d', rfl, hclient⟩

/-! ## Requests that differ in the id -/

/-- Two requests are the same but for their bodies and what they say of their length. -/
structure SameHead (r r' : Request) : Prop where
  method : r'.method = r.method
  target : r'.target = r.target
  headers : Headers.without r'.headers "content-length" = Headers.without r.headers "content-length"

theorem SameHead.first? {r r' : Request} (h : SameHead r r') {name : String}
    (hname : name ≠ "content-length") : r'.headers.first? name = r.headers.first? name := by
  unfold Headers.first?
  rw [← Headers.values_without hname, h.headers, Headers.values_without hname]

theorem SameHead.saysJson {r r' : Request} (h : SameHead r r') : saysJson r' = saysJson r := by
  unfold OrderRelay.saysJson
  rw [h.first? (by decide)]

theorem SameHead.idOf {r r' : Request} (h : SameHead r r') : idOf fresh r' = idOf fresh r := by
  unfold Front.idOf
  rw [h.first? (by decide)]

theorem SameHead.mentions {r r' : Request} (h : SameHead r r') {name word : String}
    (hname : name ≠ "content-length") :
    Handshake.mentions r'.headers name word = Handshake.mentions r.headers name word := by
  unfold Handshake.mentions
  rw [h.first? hname]

theorem SameHead.names {r r' : Request} (h : SameHead r r') {name word : String}
    (hname : name ≠ "content-length") :
    Handshake.names r'.headers name word = Handshake.names r.headers name word := by
  unfold Handshake.names
  rw [h.first? hname]

theorem SameHead.fault? {r r' : Request} (h : SameHead r r') (canUpgrade : Bool) :
    Handshake.fault? canUpgrade r' = Handshake.fault? canUpgrade r := by
  unfold Handshake.fault?
  rw [h.method, h.mentions (by decide), h.names (by decide), h.first? (by decide),
    h.names (by decide)]

/-! ## The plans of such requests -/

/-- Two results are the same, or the body is out of shape and both are refusals with the same
status. -/
def AlikeResults {α : Type} (shaped : Prop) (x x' : Except Refusal α) : Prop :=
  x' = x ∨
    ¬shaped ∧ ∃ e e', x = .error e ∧ x' = .error e' ∧ e'.response.status = e.response.status

/-- Two plans are the same, or the body is out of shape and both refuse with the same status. -/
def Alike (shaped : Prop) (plan plan' : Plan) : Prop :=
  plan' = plan ∨ ¬shaped ∧ ∃ a a', plan = .respond a ∧ plan' = .respond a' ∧ a'.status = a.status

theorem AlikeResults.plan {α : Type} {shaped whole : Prop} {x x' : Except Refusal α}
    (h : AlikeResults shaped x x') (hwhole : whole → shaped) (g : α → EngineRequest) :
    Alike whole (Plan.ofResult g x) (Plan.ofResult g x') := by
  obtain rfl | ⟨hno, e, e', rfl, rfl, hstatus⟩ := h
  · exact .inl rfl
  · exact .inr ⟨fun hshaped => hno (hwhole hshaped), _, _, rfl, rfl, hstatus⟩

theorem status_ofBody (fault : BodyFault) : (Refusal.ofBody fault).response.status = 400 := rfl

/-- Bodies that both cannot be read are refused alike. -/
theorem AlikeResults.refused {α : Type} {shaped : Prop} (hno : ¬shaped) (fault fault' : BodyFault) :
    AlikeResults shaped (.error (.ofBody fault) : Except Refusal α) (.error (.ofBody fault')) :=
  .inr ⟨hno, _, _, rfl, rfl, (status_ofBody fault').trans (status_ofBody fault).symm⟩

theorem submit_alike {n : ℕ} (h : SameHead r r') (hsame : DifferInId r.body r'.body)
    (hshort : r.body.length ≤ bodyCap n r.declaredLength?)
    (hshort' : r'.body.length ≤ bodyCap n r'.declaredLength?) :
    AlikeResults (∃ d, SubmitDraft.ofText r.body = .ok d) (submitRequest n r)
      (submitRequest n r') := by
  unfold submitRequest
  rw [readJson_of_short _ hshort, readJson_of_short _ hshort', h.saysJson]
  by_cases hjson : saysJson r = true
  · rw [if_pos hjson, if_pos hjson]
    cases hd : SubmitDraft.ofText r.body with
    | ok d =>
      rw [submit_ofText_of_differInId hsame hd]
      exact .inl rfl
    | error e =>
      cases hd' : SubmitDraft.ofText r'.body with
      | ok d =>
        rw [submit_ofText_of_differInId hsame.symm hd'] at hd
        cases hd
      | error e' => exact .refused (fun ⟨d, h⟩ => (nomatch h)) _ _
  · rw [if_neg hjson, if_neg hjson]
    exact .inl rfl

theorem modify_alike {n : ℕ} (h : SameHead r r') (hsame : DifferInId r.body r'.body)
    (octets : Bytes) (hshort : r.body.length ≤ bodyCap n r.declaredLength?)
    (hshort' : r'.body.length ≤ bodyCap n r'.declaredLength?) :
    AlikeResults (∃ d, ModifyDraft.ofText r.body = .ok d) (modifyRequest n octets r)
      (modifyRequest n octets r') := by
  unfold modifyRequest
  rw [readJson_of_short _ hshort, readJson_of_short _ hshort', h.saysJson]
  cases pathText? "order_ref" octets with
  | error e => exact .inl rfl
  | ok ref =>
    by_cases hjson : saysJson r = true
    · rw [if_pos hjson, if_pos hjson]
      cases hd : ModifyDraft.ofText r.body with
      | ok d =>
        -- either draft makes the same of the path, since the id in it is not looked at
        obtain ⟨d', hd', hprice, hquantity, hclient⟩ := modify_ofText_of_differInId hsame hd
        have hrequest : d'.toRequest ref = d.toRequest ref := by
          unfold ModifyDraft.toRequest ModifyDraft.missing
          rw [hprice, hquantity, hclient]
        rw [hd']
        exact .inl (congrArg (Except.mapError Refusal.ofDraft) hrequest)
      | error e =>
        cases hd' : ModifyDraft.ofText r'.body with
        | ok d =>
          obtain ⟨d', hd', -⟩ := modify_ofText_of_differInId hsame.symm hd'
          rw [hd'] at hd
          cases hd
        | error e' => exact .refused (fun ⟨d, h⟩ => (nomatch h)) _ _
    · rw [if_neg hjson, if_neg hjson]
      exact .inl rfl

theorem cancelDraft_error {e : Refusal} (h : cancelDraft body = .error e) :
    e.response.status = 400 := by
  unfold cancelDraft at h
  split at h
  · cases h
  · split at h <;> cases h
    rfl

theorem action_alike {n : ℕ} (hsame : DifferInId r.body r'.body)
    (octets : Bytes) (hshort : r.body.length ≤ bodyCap n r.declaredLength?)
    (hshort' : r'.body.length ≤ bodyCap n r'.declaredLength?) :
    AlikeResults (∃ d, cancelDraft r.body = .ok d) (actionRequest n octets r)
      (actionRequest n octets r') := by
  unfold actionRequest
  rw [readBody_eq_some_iff.2 ⟨hshort, rfl⟩, readBody_eq_some_iff.2 ⟨hshort', rfl⟩]
  cases pathText? "order_ref" octets with
  | error e => exact .inl rfl
  | ok ref =>
    simp only
    cases cancelTarget? ref with
    | none => exact .inl rfl
    | some orderId =>
      simp only
      cases hd : cancelDraft r.body with
      | ok d =>
        obtain ⟨d', hd', hclient⟩ := cancelDraft_of_differInId hsame hd
        have hrequest : d'.toRequest orderId = d.toRequest orderId := by
          unfold CancelDraft.toRequest CancelDraft.missing
          rw [hclient]
        rw [hd']
        exact .inl (congrArg (Except.mapError Refusal.ofDraft) hrequest)
      | error e =>
        cases hd' : cancelDraft r'.body with
        | ok d =>
          obtain ⟨d', hd', -⟩ := cancelDraft_of_differInId hsame.symm hd'
          rw [hd'] at hd
          cases hd
        | error e' =>
          have hstatus := (cancelDraft_error hd').trans (cancelDraft_error hd).symm
          exact .inr ⟨fun ⟨d, h⟩ => (nomatch h), e, e', rfl, rfl, hstatus⟩

theorem SameHead.routeOf (h : SameHead r r') : routeOf r' = routeOf r := by
  unfold Front.routeOf
  rw [h.target]

/-- The shape that a route wants of a body. -/
def Route.Shaped (method : String) (body : Bytes) : Route → Prop
  | .orders => ∃ d, SubmitDraft.ofText body = .ok d
  | .order _ =>
    if method = "POST" then ∃ d, cancelDraft body = .ok d else ∃ d, ModifyDraft.ofText body = .ok d
  | _ => True

/-- **A body has the shape that its request wants**: a JSON text whose values have the right
types, each given once at most. Required values may be missing. -/
def Shaped (r : Request) (body : Bytes) : Prop :=
  ∀ route, routeOf r = some route → Route.Shaped r.method body route

/-- **Requests that differ in the id of a body come to the same plan**, or are refused
with the same status since the body is out of shape. -/
theorem plan_alike (h : SameHead r r') (hsame : DifferInId r.body r'.body)
    (hshort : r.body.length ≤ bodyCap f.maxBodySize r.declaredLength?)
    (hshort' : r'.body.length ≤ bodyCap f.maxBodySize r'.declaredLength?) :
    Alike (Shaped r r.body) (f.plan r) (f.plan r') := by
  cases hroute : Front.routeOf r with
  | none =>
    refine .inl ?_
    have hroute' := h.routeOf.trans hroute
    unfold Front.routeOf at hroute hroute'
    unfold plan
    rw [hroute, hroute']
  | some route =>
    rw [plan_of_route hroute, plan_of_route (h.routeOf.trans hroute)]
    unfold Plan.ofRoute
    rw [h.method]
    split
    · exact .inl rfl
    · cases route with
      | orders => exact (submit_alike h hsame hshort hshort').plan (fun hs => hs _ hroute) _
      | order octets =>
        have hshaped : Shaped r r.body → Route.Shaped r.method r.body (.order octets) :=
          fun hs => hs _ hroute
        unfold Route.Shaped at hshaped
        simp only
        split
        · rename_i hmethod
          rw [if_pos hmethod] at hshaped
          exact (action_alike hsame octets hshort hshort').plan hshaped _
        · rename_i hmethod
          rw [if_neg hmethod] at hshaped
          exact (modify_alike h hsame octets hshort hshort').plan hshaped _
      | orderBook octets => exact .inl rfl
      | trades octets =>
        refine .inl ?_
        simp only [tradesOf, h.fault?]
      | health => exact .inl rfl

/-! ## The fate of such requests -/

/-- **Two requests meet with the same fate**: the engine hears the same, the same is
counted, and the statuses of the responses are the same. -/
structure SameFate (x x' : Exchange) : Prop where
  calls : x'.calls = x.calls
  counted : x'.counted = x.counted
  feed : x'.feed = x.feed
  status : x'.response.map Response.status = x.response.map Response.status

theorem carryOut_sameFate {shaped : Prop} {plan plan' : Plan} (h : Alike shaped plan plan')
    (requestId : String) (time : ℕ) :
    SameFate (f.carryOut relay requestId patience (some (time, plan)))
      (f.carryOut relay requestId patience (some (time, plan'))) := by
  obtain rfl | ⟨-, a, a', rfl, rfl, hstatus⟩ := h
  · exact ⟨rfl, rfl, rfl, rfl⟩
  · by_cases hfate : Fate.of f.limitMs patience time = .answered
    · rw [carryOut_respond hfate, carryOut_respond hfate]
      exact ⟨rfl, rfl, rfl, congrArg some hstatus⟩
    · rw [carryOut_late hfate, carryOut_late hfate]
      exact ⟨rfl, rfl, rfl, rfl⟩

theorem SameHead.readyAt (h : SameHead r r') (time : ℕ) : readyAt r' time = readyAt r time := by
  unfold Front.readyAt Plan.readsBody
  rw [h.routeOf, h.method, h.saysJson]

theorem SameHead.follow (h : SameHead r r') (time : ℕ) (plan : Plan) :
    f.follow relay fresh patience r' time plan = f.follow relay fresh patience r time plan := by
  unfold Front.follow
  rw [h.idOf, h.routeOf, h.method]
  rfl

theorem follow_sameFate {shaped : Prop} {plan plan' : Plan} (h : Alike shaped plan plan')
    (time : ℕ) :
    SameFate (f.follow relay fresh patience r time plan)
      (f.follow relay fresh patience r time plan') := by
  obtain ⟨hcalls, hcounted, hfeed, hstatus⟩ := carryOut_sameFate h
    (RequestId.ofHeaders (some (idOf fresh r)) r.headers) time
  refine ⟨hcalls, hcounted, hfeed, ?_⟩
  have hdressed : (Response.status ∘ fun a =>
      finish (routeOf r) r.method (dress (idOf fresh r) a)) = Response.status := by
    funext a
    exact (status_finish _ _ _).trans (status_dress _ a)
  unfold follow
  simp only [Option.map_map, hdressed]
  exact hstatus

/-- Whoever is accepted has sent a body that has the shape that is wanted. -/
theorem shaped_of_asks {time : ℕ} (hbody : f.Receives upload r body time)
    (h : f.Asks upload r request) : Shaped r body := by
  -- only one body is taken in
  have hsame : ∀ {other}, f.Takes upload r other → other = body := by
    rintro other ⟨-, time', htake⟩
    rw [hbody.taken] at htake
    cases htake
    rfl
  intro route hroute
  cases h with
  | submit hroute' _ _ htakes htext =>
    obtain rfl := Option.some.inj (hroute'.symm.trans hroute)
    obtain rfl := hsame htakes
    exact ⟨_, htext⟩
  | cancel hroute' hmethod _ htakes _ hdraft =>
    obtain rfl := Option.some.inj (hroute'.symm.trans hroute)
    obtain rfl := hsame htakes
    unfold Route.Shaped
    rw [if_pos hmethod]
    exact ⟨_, hdraft⟩
  | modify hroute' hmethod _ _ htakes htext =>
    obtain rfl := Option.some.inj (hroute'.symm.trans hroute)
    obtain rfl := hsame htakes
    unfold Route.Shaped
    rw [if_neg (by rw [hmethod]; decide)]
    exact ⟨_, htext⟩
  | orderBook hroute' =>
    obtain rfl := Option.some.inj (hroute'.symm.trans hroute)
    trivial
  | trades hroute' =>
    obtain rfl := Option.some.inj (hroute'.symm.trans hroute)
    trivial

/-- **Requests that differ in the id of a body meet with the same fate**, and if the body
has the shape that is wanted, all that becomes of them is the same. -/
theorem attend_sameFate (relay : Relay) (fresh : Bytes) (patience : Option ℕ) (h : SameHead r r')
    (hsame : DifferInId body body') {upload' : Upload} {time : ℕ}
    (hbody : f.Receives upload r body time) (hbody' : f.Receives upload' r' body' time) :
    SameFate (f.attend relay fresh patience upload r) (f.attend relay fresh patience upload' r') ∧
      (Shaped r body →
        f.attend relay fresh patience upload' r' = f.attend relay fresh patience upload r) := by
  have hhead : SameHead { r with body := body } { r' with body := body' } :=
    ⟨h.method, h.target, h.headers⟩
  have halike : Alike (Shaped r body) (f.plan { r with body := body })
      (f.plan { r' with body := body' }) :=
    plan_alike hhead hsame hbody.short hbody'.short
  rw [attend_of_receives hbody, attend_of_receives hbody', h.readyAt, h.follow]
  refine ⟨follow_sameFate halike _, fun hshaped => ?_⟩
  obtain hplan | ⟨hno, -⟩ := halike
  · rw [hplan]
  · exact absurd hshaped hno

end Front

end OrderRelay
