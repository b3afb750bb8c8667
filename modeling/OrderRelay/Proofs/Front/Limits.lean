import OrderRelay.Proofs.Front.Hearing
import OrderRelay.Proofs.Front.Translation

/-!
# How long a body may be

The settings say how long the body of a request may be. Whatever they say, no body is taken in that
is longer than `largestBody`: a longer one is turned away for its length.

* `Upload.content?`: what comes in of a body that is not cut off.
* `Upload.exceeds?`: when more than so many octets of a body have come in.
* `Response.TellsTooLong`: a response that turns a request away for the length of its body.
* `Front.ChangesOrder`, `Front.WellFormed`: requests that make, cancel or change an order, and those
  of them that have nothing wrong but perhaps the length of their body.
* `not_tellsTooLong_of_receives`: a body that is short enough is not turned away for its length.
* `tellsTooLong_of_long`: a body that is too long is.
* `size_limit`: **which bodies are turned away for their length**, if the settings allow them.
-/

namespace OrderRelay

open Http Json

/-! ## Bodies as they come in -/

namespace Upload

/-- When a body has come in, and what it is; none if it never ends, or breaks off. -/
def content? : Upload → Option (ℕ × Bytes)
  | .stalled => none
  | .whole wait => some (wait, [])
  | .broken _ _ => none
  | .part wait octets rest => rest.content?.map fun (time, body) => (wait + time, octets ++ body)

variable {upload : Upload} {cap time : ℕ} {got body : Bytes}

theorem content?_atOnce (body : Bytes) : (atOnce body).content? = some (0, body) := by
  simp [atOnce, content?]

/-- What of a body comes in after its first part. -/
theorem content?_part {wait : ℕ} {octets : Bytes} {rest : Upload}
    (h : (Upload.part wait octets rest).content? = some (time, body)) :
    ∃ time' body', rest.content? = some (time', body') ∧ time = wait + time' ∧
      body = octets ++ body' := by
  obtain ⟨⟨time', body'⟩, hrest, heq⟩ := Option.map_eq_some_iff.1 h
  cases heq
  exact ⟨time', body', hrest, rfl, rfl⟩

/-- A body that is short enough is taken in when it has come in. -/
theorem take_of_content (h : upload.content? = some (time, body))
    (hshort : (got ++ body).length ≤ cap) :
    upload.take cap got = some (time, .ok (got ++ body)) := by
  induction upload generalizing time body got with
  | stalled | broken => cases h
  | whole wait =>
    cases h
    rw [List.append_nil]
    rfl
  | part wait octets rest ih =>
    obtain ⟨time', body', hrest, rfl, rfl⟩ := content?_part h
    rw [← List.append_assoc] at hshort ⊢
    have hpart : (got ++ octets).length ≤ cap := by
      rw [List.length_append] at hshort
      omega
    rw [take, if_neg (by omega), ih hrest hshort]
    rfl

/-- When more than so many octets have come in; none if that never happens. It does not matter how
the body goes on after that. -/
def exceeds? (n : ℕ) : Upload → Option ℕ
  | .stalled | .whole _ | .broken .. => none
  | .part wait octets rest =>
    if n < octets.length then some wait
    else (rest.exceeds? (n - octets.length)).map (wait + ·)

theorem exceeds?_atOnce {n : ℕ} (h : n < body.length) : (atOnce body).exceeds? n = some 0 := by
  simp [atOnce, exceeds?, h]

/-- A body that has come in, and is longer, has been longer before. -/
theorem exceeds?_of_content {n : ℕ} (h : upload.content? = some (time, body))
    (hlong : n < body.length) : ∃ sooner ≤ time, upload.exceeds? n = some sooner := by
  induction upload generalizing n time body with
  | stalled | broken => cases h
  | whole wait =>
    cases h
    simp at hlong
  | part wait octets rest ih =>
    obtain ⟨time', body', hrest, rfl, rfl⟩ := content?_part h
    rw [exceeds?]
    split
    · exact ⟨wait, Nat.le_add_right _ _, rfl⟩
    · rename_i hpart
      rw [List.length_append] at hlong
      obtain ⟨sooner, hsooner, hexceeds⟩ := ih (n := n - octets.length) hrest (by omega)
      rw [hexceeds]
      exact ⟨wait + sooner, Nat.add_le_add_left hsooner wait, rfl⟩

/-- **A body is not taken in beyond what is allowed**: once more has come in, too much has been
taken in, and the rest is not waited for. -/
theorem take_of_exceeds {n : ℕ} (h : upload.exceeds? n = some time) (hcap : cap ≤ got.length + n) :
    ∃ sooner ≤ time, ∃ taken,
      upload.take cap got = some (sooner, .ok taken) ∧ cap < taken.length := by
  induction upload generalizing n time got with
  | stalled | whole | broken => cases h
  | part wait octets rest ih =>
    rw [take]
    split
    · -- this part is one too many, and the last that is taken in
      rename_i hlong
      refine ⟨wait, ?_, got ++ octets, rfl, hlong⟩
      rw [exceeds?] at h
      split at h
      · cases h
        exact le_rfl
      · obtain ⟨later, -, rfl⟩ := Option.map_eq_some_iff.1 h
        exact Nat.le_add_right _ _
    · rename_i hshort
      rw [List.length_append] at hshort
      rw [exceeds?, if_neg (by omega)] at h
      obtain ⟨later, hlater, rfl⟩ := Option.map_eq_some_iff.1 h
      have hcap' : cap ≤ (got ++ octets).length + (n - octets.length) := by
        rw [List.length_append]
        omega
      obtain ⟨sooner, hsooner, taken, htake, htaken⟩ := ih hlater hcap'
      rw [htake]
      exact ⟨wait + sooner, Nat.add_le_add_left hsooner wait, taken, rfl, htaken⟩

/-- Of a body that is too long, too much has been taken in by the time when it has come in. -/
theorem take_of_content_long (h : upload.content? = some (time, body)) (hlong : cap < body.length) :
    ∃ time' ≤ time, ∃ taken,
      upload.take cap [] = some (time', .ok taken) ∧ cap < taken.length := by
  obtain ⟨sooner, hsooner, hexceeds⟩ := exceeds?_of_content h hlong
  have hcap : cap ≤ ([] : Bytes).length + cap := Nat.le_add_left _ _
  obtain ⟨first, hfirst, taken, htake, htaken⟩ := take_of_exceeds hexceeds hcap
  exact ⟨first, hfirst.trans hsooner, taken, htake, htaken⟩

end Upload

/-- A request that says how long its body is, if it says anything, says so truthfully. -/
def Http.Request.Truthful (r : Request) (body : Bytes) : Prop :=
  r.declaredLength? = none ∨ r.declaredLength? = some body.length

/-- Of a body that the settings allow, only the largest length matters. -/
theorem le_bodyCap_iff {n : ℕ} {r : Request} {body : Bytes} (htruthful : r.Truthful body)
    (hsize : body.length ≤ n) :
    body.length ≤ bodyCap n r.declaredLength? ↔ body.length ≤ largestBody := by
  unfold bodyCap
  rcases htruthful with h | h
  · rw [h, Option.getD_none]
    omega
  · rw [h, Option.getD_some]
    omega

/-! ## Responses about the length -/

/-- **A response that turns a request away for the length of its body**: its status says so, or the
words of its error do. -/
def Http.Response.TellsTooLong (a : Response) : Prop :=
  a.status = 413 ∨
    a.status = 400 ∧ a.body = Utf8.encode (RelayError.invalidRequest BodyFault.tooLongMessage).body

/-- An error is told by its text. -/
theorem RelayError.message_of_body {e e' : RelayError}
    (h : Utf8.encode e.body = Utf8.encode e'.body) : e.message = e'.message := by
  have htext := e.ofText?_body
  rw [h, e'.ofText?_body] at htext
  simp only [Option.some.injEq, Value.object.injEq, List.cons.injEq, Prod.mk.injEq,
    Value.text.injEq] at htext
  exact htext.1.2.symm

/-- Only one fault of a request is told by the words about the length. -/
theorem reason_of_tellsTooLong {reason : String}
    (h : (Refusal.relay (.invalidRequest reason)).response.TellsTooLong) :
    reason = BodyFault.tooLongMessage := by
  rcases h with h | ⟨-, h⟩
  · cases h
  · -- the words of the error are told as they are, behind the same beginning
    have hmessage :
        "invalid request: " ++ reason = "invalid request: " ++ BodyFault.tooLongMessage :=
      RelayError.message_of_body h
    have hlist := congrArg String.toList hmessage
    rw [String.toList_append, String.toList_append] at hlist
    exact String.toList_injective (List.append_cancel_left hlist)

/-- Words that begin otherwise are not those about the length. -/
theorem not_tellsTooLong_of_prefix {start rest : String}
    (h : start.toList ≠ BodyFault.tooLongMessage.toList.take start.toList.length) :
    ¬(Refusal.relay (.invalidRequest (start ++ rest))).response.TellsTooLong := by
  intro htells
  have hreason := reason_of_tellsTooLong htells
  have hlist := congrArg (List.take start.toList.length ∘ String.toList) hreason
  simp only [Function.comp_apply, String.toList_append, List.take_left'] at hlist
  exact h hlist

theorem not_tellsTooLong_notJson : ¬(Refusal.ofBody .notJson).response.TellsTooLong := by
  intro h
  have hreason := reason_of_tellsTooLong h
  revert hreason
  decide

theorem not_tellsTooLong_unreadable (text : Bytes) (e : Json.Error) :
    ¬(Refusal.ofBody (.unreadable text e)).response.TellsTooLong := by
  unfold Refusal.ofBody BodyFault.message
  simp only
  split <;> exact not_tellsTooLong_of_prefix (by decide)

theorem not_tellsTooLong_ofDraft (e : DraftError) : ¬(Refusal.ofDraft e).response.TellsTooLong := by
  unfold Refusal.ofDraft DraftError.toRelayError
  cases e with
  | blankPath name =>
    -- the words end otherwise
    intro h
    have hreason : name ++ " is required in the path" = BodyFault.tooLongMessage :=
      reason_of_tellsTooLong h
    have hlast := congrArg (List.getLast? ∘ String.toList) hreason
    have hend : " is required in the path".toList.getLast? = some 'h' := by decide
    simp only [Function.comp_apply, String.toList_append, List.getLast?_append, hend,
      Option.some_or] at hlast
    revert hlast
    decide
  | missing names => exact not_tellsTooLong_of_prefix (by decide)

theorem not_tellsTooLong_pathText {octets : Bytes} {e : Refusal}
    (h : pathText? "order_ref" octets = .error e) : ¬e.response.TellsTooLong := by
  unfold pathText? at h
  split at h
  · cases h
  · cases h
    rintro (h | ⟨-, h⟩)
    · cases h
    · revert h
      decide

/-! ## Requests for a change of orders -/

namespace Front

variable {f : Front} {relay : Relay} {fresh : Bytes} {patience : Option ℕ} {upload : Upload}
  {r : Request} {request : EngineRequest} {body : Bytes} {n time : ℕ}

/-- **A request to make, cancel or change an order**, by its route and its method. -/
inductive ChangesOrder (r : Request) : Prop where
  | orders (hroute : routeOf r = some .orders) (hmethod : r.method = "POST")
  | order {octets : Bytes} (hroute : routeOf r = some (.order octets))
      (hmethod : r.method = "POST" ∨ r.method = "PATCH")

/-- **A request that has nothing wrong** but perhaps the length of its body, and what it asks. -/
inductive WellFormed (r : Request) (body : Bytes) : EngineRequest → Prop where
  | submit {draft : SubmitDraft} {order : SubmitOrderRequest}
      (hroute : routeOf r = some .orders) (hmethod : r.method = "POST")
      (hjson : saysJson r = true) (htext : SubmitDraft.ofText body = .ok draft)
      (horder : draft.toRequest = .ok order) : WellFormed r body (.order .submitOrder order)
  | cancel {octets : Bytes} {ref orderId : String} {draft : CancelDraft}
      {order : CancelOrderRequest} (hroute : routeOf r = some (.order octets))
      (hmethod : r.method = "POST")
      (href : Percent.decodeText? octets = some ref) (htarget : cancelTarget? ref = some orderId)
      (hdraft : cancelDraft body = .ok draft) (horder : draft.toRequest orderId = .ok order) :
      WellFormed r body (.order .cancelOrder order)
  | modify {octets : Bytes} {ref : String} {draft : ModifyDraft} {order : ModifyOrderRequest}
      (hroute : routeOf r = some (.order octets)) (hmethod : r.method = "PATCH")
      (href : Percent.decodeText? octets = some ref) (hjson : saysJson r = true)
      (htext : ModifyDraft.ofText body = .ok draft) (horder : draft.toRequest ref = .ok order) :
      WellFormed r body (.order .modifyOrder order)

theorem WellFormed.changesOrder (h : WellFormed r body request) : ChangesOrder r := by
  cases h with
  | submit hroute hmethod => exact .orders hroute hmethod
  | cancel hroute hmethod => exact .order hroute (.inl hmethod)
  | modify hroute hmethod => exact .order hroute (.inr hmethod)

/-- It asks what it would if its body were taken in. -/
theorem WellFormed.asks (h : WellFormed r body request) (htakes : f.Takes upload r body) :
    f.Asks upload r request := by
  cases h with
  | submit hroute hmethod hjson htext horder =>
    exact .submit hroute hmethod hjson htakes htext horder
  | cancel hroute hmethod href htarget hdraft horder =>
    exact .cancel hroute hmethod href htakes htarget hdraft horder
  | modify hroute hmethod href hjson htext horder =>
    exact .modify hroute hmethod href hjson htakes htext horder

/-! ## Bodies that are short enough -/

/-- A request of a draft that is short of values is not refused for its length. -/
theorem not_tellsTooLong_draft {α : Type} {x : Except DraftError α} {e : Refusal}
    (h : x.mapError .ofDraft = .error e) : ¬e.response.TellsTooLong := by
  cases x with
  | ok v => cases h
  | error error =>
    cases h
    exact not_tellsTooLong_ofDraft error

theorem not_tellsTooLong_readJson {α : Type} {ofText : Bytes → Except Json.Error α}
    {fault : BodyFault} (hshort : r.body.length ≤ bodyCap n r.declaredLength?)
    (h : readJson ofText n r = .error fault) : ¬(Refusal.ofBody fault).response.TellsTooLong := by
  rw [readJson_of_short _ hshort] at h
  split at h
  · cases htext : ofText r.body with
    | ok v => rw [htext] at h; cases h
    | error error =>
      rw [htext] at h
      cases h
      exact not_tellsTooLong_unreadable r.body error
  · cases h
    exact not_tellsTooLong_notJson

theorem not_tellsTooLong_submit {e : Refusal} (hshort : r.body.length ≤ bodyCap n r.declaredLength?)
    (h : submitRequest n r = .error e) : ¬e.response.TellsTooLong := by
  unfold submitRequest at h
  split at h
  · rename_i hread
    cases h
    exact not_tellsTooLong_readJson hshort hread
  · exact not_tellsTooLong_draft h

theorem not_tellsTooLong_modify {octets : Bytes} {e : Refusal}
    (hshort : r.body.length ≤ bodyCap n r.declaredLength?)
    (h : modifyRequest n octets r = .error e) : ¬e.response.TellsTooLong := by
  unfold modifyRequest at h
  split at h
  · rename_i hpath
    cases h
    exact not_tellsTooLong_pathText hpath
  · split at h
    · rename_i hread
      cases h
      exact not_tellsTooLong_readJson hshort hread
    · exact not_tellsTooLong_draft h

theorem not_tellsTooLong_cancelDraft {e : Refusal} (h : cancelDraft body = .error e) :
    ¬e.response.TellsTooLong := by
  unfold cancelDraft at h
  split at h
  · cases h
  · split at h
    · cases h
    · cases h
      exact not_tellsTooLong_of_prefix (by decide)

theorem not_tellsTooLong_action {octets : Bytes} {e : Refusal}
    (hshort : r.body.length ≤ bodyCap n r.declaredLength?)
    (h : actionRequest n octets r = .error e) : ¬e.response.TellsTooLong := by
  unfold actionRequest at h
  rw [readBody_eq_some_iff.2 ⟨hshort, rfl⟩] at h
  split at h
  · rename_i hpath
    cases h
    exact not_tellsTooLong_pathText hpath
  · simp only at h
    split at h
    · -- no such action
      cases h
      rintro (h | ⟨h, -⟩) <;> cases h
    · split at h
      · rename_i hdraft
        cases h
        exact not_tellsTooLong_cancelDraft hdraft
      · exact not_tellsTooLong_draft h

theorem plan_submit (hroute : routeOf r = some .orders) (hmethod : r.method = "POST") :
    f.plan r = .ofResult (.order .submitOrder) (submitRequest f.maxBodySize r) := by
  rw [plan_of_route hroute, Plan.ofRoute, if_neg (by simp [Route.methods, hmethod])]

theorem plan_cancel {octets : Bytes} (hroute : routeOf r = some (.order octets))
    (hmethod : r.method = "POST") :
    f.plan r = .ofResult (.order .cancelOrder) (actionRequest f.maxBodySize octets r) := by
  rw [plan_of_route hroute, Plan.ofRoute, if_neg (by simp [Route.methods, hmethod])]
  exact if_pos hmethod

theorem plan_modify {octets : Bytes} (hroute : routeOf r = some (.order octets))
    (hmethod : r.method = "PATCH") :
    f.plan r = .ofResult (.order .modifyOrder) (modifyRequest f.maxBodySize octets r) := by
  rw [plan_of_route hroute, Plan.ofRoute, if_neg (by simp [Route.methods, hmethod])]
  exact if_neg (by rw [hmethod]; decide)

/-- **A body that is short enough** is no reason to turn a request away for its length. -/
theorem not_tellsTooLong_of_plan (h : ChangesOrder r)
    (hshort : r.body.length ≤ bodyCap f.maxBodySize r.declaredLength?) {a : Response}
    (hplan : f.plan r = .respond a) : ¬a.TellsTooLong := by
  rcases h with ⟨hroute, hmethod⟩ | ⟨hroute, hmethod | hmethod⟩
  · rw [plan_submit hroute hmethod] at hplan
    obtain ⟨e, he, rfl⟩ := ofResult_eq_respond_iff.1 hplan
    exact not_tellsTooLong_submit hshort he
  · rw [plan_cancel hroute hmethod] at hplan
    obtain ⟨e, he, rfl⟩ := ofResult_eq_respond_iff.1 hplan
    exact not_tellsTooLong_action hshort he
  · rw [plan_modify hroute hmethod] at hplan
    obtain ⟨e, he, rfl⟩ := ofResult_eq_respond_iff.1 hplan
    exact not_tellsTooLong_modify hshort he

theorem ChangesOrder.method_ne (h : ChangesOrder r) : r.method ≠ "HEAD" := by
  rcases h with ⟨-, hmethod⟩ | ⟨-, hmethod | hmethod⟩ <;> rw [hmethod] <;> decide

theorem ChangesOrder.exists_routeOf (h : ChangesOrder r) : ∃ route, routeOf r = some route := by
  rcases h with ⟨hroute, -⟩ | ⟨hroute, -⟩ <;> exact ⟨_, hroute⟩

theorem tellsTooLong_sent (h : ChangesOrder r) (fresh : Bytes) (a : Response) :
    (sent fresh r a).TellsTooLong ↔ a.TellsTooLong := by
  obtain ⟨route, hroute⟩ := h.exists_routeOf
  unfold Response.TellsTooLong
  rw [status_sent, body_sent hroute, if_neg h.method_ne]

/-- A time that is up, or an engine that has been asked, says nothing about the length. -/
theorem not_tellsTooLong_of_status {a : Response} (h413 : a.status ≠ 413) (h400 : a.status ≠ 400) :
    ¬a.TellsTooLong := by
  rintro (h | ⟨h, -⟩)
  · exact h413 h
  · exact h400 h

theorem eq_expired_of_cut {fate : Fate} {a : Response} (h : (cut fate).response = some a) :
    a = expiredResponse := by
  cases fate <;> cases h <;> rfl

/-- **A request whose body has been taken in** is not turned away for its length. -/
theorem not_tellsTooLong_of_receives (h : ChangesOrder r) (hbody : f.Receives upload r body time)
    {a : Response} (ha : (f.attend relay fresh patience upload r).response = some a) :
    ¬a.TellsTooLong := by
  rw [attend_of_announced hbody.announced] at ha
  obtain ⟨b, hb, rfl⟩ := Option.map_eq_some_iff.1 ha
  rw [tellsTooLong_sent h]
  obtain ⟨start, c, hplan, -, hx⟩ | ⟨start, request, hplan, -, hx⟩ | ⟨-, start, hx⟩ :=
    carryOut_cases f relay (passedId fresh r) patience (f.planOf upload r)
  · rw [hx] at hb
    cases hb
    have hchanges : ChangesOrder { r with body := body } := by
      rcases h with ⟨hroute, hmethod⟩ | ⟨hroute, hmethod⟩
      · exact .orders hroute hmethod
      · exact .order hroute hmethod
    rw [planOf_of_taken hbody] at hplan
    exact not_tellsTooLong_of_plan hchanges hbody.short (Prod.mk.inj (Option.some.inj hplan)).2
  · -- once the engine has been asked, the caller is not told to be at fault
    rw [hx] at hb
    have hserve := serve_contained relay (passedId fresh r) patience start
      (planOf_eq_ask_iff.1 ⟨_, hplan⟩)
    have hcalls := calls_serve (f := f) relay (passedId fresh r) patience start request
    have hstatus : b.status ∈ request.statuses :=
      hserve.answers _ (by rw [hcalls]; exact List.mem_singleton_self _) b hb
    have hfault := EngineRequest.not_clientError hstatus
    exact not_tellsTooLong_of_status (by omega) (by omega)
  · rw [hx] at hb
    rw [eq_expired_of_cut hb]
    exact not_tellsTooLong_of_status (by decide) (by decide)

/-! ## Bodies that are too long -/

theorem readJson_of_long {α : Type} (ofText : Bytes → Except Json.Error α)
    (hjson : saysJson r = true) (hlong : bodyCap n r.declaredLength? < r.body.length) :
    readJson ofText n r = .error .tooLong := by
  unfold readJson readBody
  rw [if_pos hjson, if_neg (by omega)]

/-- A request that has nothing wrong reads its body. -/
theorem WellFormed.readsBody (h : WellFormed r body request) :
    ∃ route, routeOf r = some route ∧ Plan.readsBody route r = true := by
  cases h with
  | submit hroute hmethod hjson =>
    exact ⟨_, hroute, by simp [Plan.readsBody, Route.methods, hmethod, hjson]⟩
  | cancel hroute hmethod href =>
    exact ⟨_, hroute, by simp [Plan.readsBody, Route.methods, hmethod, href]⟩
  | modify hroute hmethod href hjson =>
    exact ⟨_, hroute, by simp [Plan.readsBody, Route.methods, hmethod, href, hjson]⟩

/-- **A request of which too much has been taken in** is turned away for that, if it has nothing
else wrong. -/
theorem WellFormed.plan_of_long (h : WellFormed r body request) {taken : Bytes}
    (hlong : bodyCap f.maxBodySize r.declaredLength? < taken.length) :
    ∃ a, f.plan { r with body := taken } = .respond a ∧ a.TellsTooLong := by
  have htold : (Refusal.ofBody .tooLong).response.TellsTooLong := .inr ⟨rfl, rfl⟩
  cases h with
  | submit hroute hmethod hjson =>
    have hplan : f.plan { r with body := taken } = .ofResult _ _ := plan_submit hroute hmethod
    have hread : readJson SubmitDraft.ofText f.maxBodySize { r with body := taken } = _ :=
      readJson_of_long _ hjson hlong
    refine ⟨_, ?_, htold⟩
    rw [hplan, submitRequest, hread]
    rfl
  | cancel hroute hmethod href =>
    have hplan : f.plan { r with body := taken } = .ofResult _ _ := plan_cancel hroute hmethod
    have hread : readBody f.maxBodySize { r with body := taken } = none :=
      if_neg (Nat.not_le.2 hlong)
    refine ⟨Refusal.bodyTooLong.response, ?_, .inl rfl⟩
    rw [hplan, actionRequest, pathText?_eq_ok_iff.2 href, hread]
    rfl
  | modify hroute hmethod href hjson =>
    have hplan : f.plan { r with body := taken } = .ofResult _ _ := plan_modify hroute hmethod
    have hread : readJson ModifyDraft.ofText f.maxBodySize { r with body := taken } = _ :=
      readJson_of_long _ hjson hlong
    refine ⟨_, ?_, htold⟩
    rw [hplan, modifyRequest, pathText?_eq_ok_iff.2 href, hread]
    rfl

/-- **A body that is too long** is turned away for its length, if the request has nothing else wrong
and its time is not up. -/
theorem tellsTooLong_of_long (h : WellFormed r body request)
    (hannounced : f.announcesTooMuch r = false) {taken : Bytes}
    (htake : upload.take (bodyCap f.maxBodySize r.declaredLength?) [] = some (time, .ok taken))
    (hlong : bodyCap f.maxBodySize r.declaredLength? < taken.length)
    (hfate : Fate.of f.limitMs patience time = .answered) :
    ∃ a, (f.attend relay fresh patience upload r).response = some a ∧ a.TellsTooLong := by
  obtain ⟨route, hroute, hreads⟩ := h.readsBody
  obtain ⟨a, hplan, hlength⟩ := h.plan_of_long hlong
  have hplanned : f.planOf upload r = some (time, .respond a) := by
    rw [planOf_of_take hroute hreads htake, hplan]
  refine ⟨sent fresh r a, ?_, (tellsTooLong_sent h.changesOrder fresh a).2 hlength⟩
  rw [attend_of_announced hannounced, hplanned, carryOut_respond hfate]
  rfl

/-- Whoever asks for a change of orders has had the body taken in. -/
theorem ChangesOrder.takes_of_asks (h : ChangesOrder r) (hasks : f.Asks upload r request) :
    ∃ body, f.Takes upload r body := by
  have hother : ∀ route, routeOf r = some route →
      route = .orders ∨ ∃ octets, route = .order octets := by
    intro route hroute
    rcases h with ⟨h, -⟩ | ⟨h, -⟩ <;> rw [h] at hroute <;> cases hroute
    · exact .inl rfl
    · exact .inr ⟨_, rfl⟩
  cases hasks with
  | submit _ _ _ hbody => exact ⟨_, hbody⟩
  | cancel _ _ _ hbody => exact ⟨_, hbody⟩
  | modify _ _ _ _ hbody => exact ⟨_, hbody⟩
  | orderBook hroute => rcases hother _ hroute with h | ⟨octets, h⟩ <;> cases h
  | trades hroute => rcases hother _ hroute with h | ⟨octets, h⟩ <;> cases h

/-- The engine is not asked for anything if too much has been taken in. -/
theorem calls_of_long (h : ChangesOrder r) {taken : Bytes}
    (htake : upload.take (bodyCap f.maxBodySize r.declaredLength?) [] = some (time, .ok taken))
    (hlong : bodyCap f.maxBodySize r.declaredLength? < taken.length) :
    (f.attend relay fresh patience upload r).calls = [] := by
  have hcontained := contained_attend f relay fresh patience upload r
  refine List.eq_nil_iff_forall_not_mem.2 fun call hcall => ?_
  obtain ⟨body, hshort, time', htaken⟩ := h.takes_of_asks (hcontained.asked call hcall)
  rw [htake] at htaken
  cases htaken
  omega

/-! ## Which bodies are turned away -/

theorem announcesTooMuch_of_truthful (htruthful : r.Truthful body)
    (hsize : body.length ≤ f.maxBodySize) : f.announcesTooMuch r = false := by
  unfold announcesTooMuch
  rcases htruthful with h | h <;> rw [h]
  exact decide_eq_false (Nat.not_lt.2 hsize)

/-- **Which bodies are turned away for their length.** The body of a request for a change of orders
comes in whole, and is not longer than the settings allow.

* If it is not longer than the largest body, the request is not turned away for its length, and
  one that has nothing wrong is passed on to the engine.
* If it is longer, nothing is passed on, and one that has nothing else wrong is turned away for its
  length, whatever the settings allow. -/
theorem size_limit (f : Front) (relay : Relay) (fresh : Bytes) (patience : Option ℕ)
    (h : ChangesOrder r) (htruthful : r.Truthful body)
    (hcontent : upload.content? = some (time, body)) (hsize : body.length ≤ f.maxBodySize) :
    let x := f.attend relay fresh patience upload r
    (body.length ≤ largestBody →
      (∀ a, x.response = some a → ¬a.TellsTooLong) ∧
      ∀ request, WellFormed r body request → Fate.of f.limitMs patience time = .answered →
        f.Heard relay fresh patience upload r request) ∧
    (largestBody < body.length →
      x.calls = [] ∧
      ∀ request, WellFormed r body request → Fate.of f.limitMs patience time = .answered →
        ∃ a, x.response = some a ∧ a.TellsTooLong) := by
  intro x
  have hannounced := announcesTooMuch_of_truthful htruthful hsize
  refine ⟨fun hle => ?_, fun hlt => ?_⟩
  · have hshort := (le_bodyCap_iff htruthful hsize).2 hle
    have htaken : upload.take (bodyCap f.maxBodySize r.declaredLength?) [] = some (time, .ok body) :=
      Upload.take_of_content hcontent hshort
    have hbody : f.Receives upload r body time := ⟨hannounced, hshort, htaken⟩
    refine ⟨fun a ha => not_tellsTooLong_of_receives h hbody ha, fun request hwell hfate => ?_⟩
    obtain ⟨time', hplan⟩ := planOf_eq_ask_iff.2 (hwell.asks ⟨hshort, time, htaken⟩)
    -- the plan is known when the body has been taken in, or before
    have hle : time' ≤ time := by
      rw [planOf_of_taken hbody] at hplan
      obtain ⟨rfl, -⟩ := Prod.mk.inj (Option.some.inj hplan)
      unfold readyAt
      split
      · exact Nat.zero_le _
      · split
        · exact le_rfl
        · exact Nat.zero_le _
    exact heard_iff.2 ⟨hannounced, time', hplan, fate_answered_mono hfate hle⟩
  · have hlong : ¬body.length ≤ bodyCap f.maxBodySize r.declaredLength? := by
      rw [le_bodyCap_iff htruthful hsize]
      omega
    -- too much has come in before the end, when the time was not up either
    obtain ⟨time', htime, taken, htake, htaken⟩ := Upload.take_of_content_long hcontent (Nat.not_le.1 hlong)
    refine ⟨calls_of_long h htake htaken, fun request hwell hfate => ?_⟩
    exact tellsTooLong_of_long hwell hannounced htake htaken (fate_answered_mono hfate htime)

/-- Asks to cancel one order. -/
def cancelRequest : Request := ⟨"POST", Utf8.encode "/v1/orders/A1:cancel", [], []⟩

/-- A body that names the client. -/
def cancelBody : Bytes := Utf8.encode (Value.compact (.object [("clientId", .text "c")]))

/-- The same after so many blanks. -/
def paddedBody (blanks : ℕ) : Bytes := List.replicate blanks 0x20 ++ cancelBody

/-- A front that allows bodies of four million octets. -/
def roomyFront : Front := { defaultFront with maxBodySize := 4000000 }

theorem length_paddedBody (blanks : ℕ) : (paddedBody blanks).length = blanks + 16 := by
  have hlength : cancelBody.length = 16 := by decide
  rw [paddedBody, List.length_append, List.length_replicate, hlength]

/-- Blanks in front of a body are passed over. -/
theorem lexemes_paddedBody (blanks : ℕ) :
    lexemes (tokens (paddedBody blanks)) = lexemes (tokens cancelBody) := by
  have hprints : Prints cancelBody _ :=
    Value.prints_compact (.object (List.forall_mem_singleton.2 (.text "c")))
  rw [hprints.tokens]
  refine hprints.tokens_padded fun b hb => ?_
  rw [List.eq_of_mem_replicate hb]
  rfl

/-- However many blanks there are, the client is named. -/
theorem cancelDraft_paddedBody (blanks : ℕ) :
    cancelDraft (paddedBody blanks) = .ok ⟨none, some "c"⟩ := by
  have hblank : ¬(paddedBody blanks).all isAsciiBlank = true := by
    have hclient : cancelBody.all isAsciiBlank = false := by decide
    rw [paddedBody, List.all_append, hclient, Bool.and_false]
    decide
  have hplain : CancelDraft.ofText cancelBody = .ok ⟨none, some "c"⟩ := by
    have hread : (CancelDraft.ofText cancelBody).toOption = some ⟨none, some "c"⟩ := by
      decide +kernel
    cases htext : CancelDraft.ofText cancelBody with
    | error e => rw [htext] at hread; cases hread
    | ok draft => rw [htext] at hread; exact congrArg Except.ok (Option.some.inj hread)
  have htext : CancelDraft.ofText (paddedBody blanks) = .ok ⟨none, some "c"⟩ := by
    rw [CancelDraft.ofText_eq_ok_iff, lexemes_paddedBody]
    exact CancelDraft.ofText_eq_ok_iff.1 hplain
  unfold cancelDraft
  rw [if_neg hblank]
  simp only [htext]

theorem wellFormed_paddedBody (blanks : ℕ) :
    WellFormed cancelRequest (paddedBody blanks) (.order .cancelOrder ⟨"A1", "c"⟩) := by
  have hroute : routeOf cancelRequest = some (.order (Utf8.encode "A1:cancel")) := by decide
  have href : Percent.decodeText? (Utf8.encode "A1:cancel") = some "A1:cancel" := by decide
  have htarget : cancelTarget? "A1:cancel" = some "A1" := by decide
  have horder : CancelDraft.toRequest ⟨none, some "c"⟩ "A1" = .ok ⟨"A1", "c"⟩ := by decide
  exact .cancel hroute rfl href htarget (cancelDraft_paddedBody blanks) horder

theorem truthful_cancelRequest (body : Bytes) : cancelRequest.Truthful body := .inl rfl

/-- The largest body that is taken in is passed on. -/
theorem size_limit_largest :
    (paddedBody 2097136).length = largestBody ∧
      roomyFront.Heard slowRelay [] none (.atOnce (paddedBody 2097136)) cancelRequest
        (.order .cancelOrder ⟨"A1", "c"⟩) := by
  have hlength : (paddedBody 2097136).length = largestBody := length_paddedBody 2097136
  have hwell := wellFormed_paddedBody 2097136
  have hlimit := size_limit roomyFront slowRelay [] none hwell.changesOrder
    (truthful_cancelRequest _) (Upload.content?_atOnce (paddedBody 2097136))
    (by rw [hlength]; decide)
  exact ⟨hlength, (hlimit.1 hlength.le).2 _ hwell (by decide)⟩

/-- One octet more is turned away, although the settings allow it and there is nothing wrong. -/
theorem not_size_limit : ¬∀ (f : Front) (relay : Relay) (fresh : Bytes) (patience : Option ℕ)
    (upload : Upload) (r : Request) (body : Bytes) (time : ℕ) (request : EngineRequest),
    0 < f.maxBodySize → WellFormed r body request → r.Truthful body →
      upload.content? = some (time, body) → body.length ≤ f.maxBodySize →
        Fate.of f.limitMs patience time = .answered →
          f.Heard relay fresh patience upload r request ∧
            ∀ a, (f.attend relay fresh patience upload r).response = some a → ¬a.TellsTooLong := by
  intro h
  have hlength : (paddedBody 2097137).length = 2097153 := length_paddedBody 2097137
  have hsize : (paddedBody 2097137).length ≤ roomyFront.maxBodySize := by
    rw [hlength]
    decide
  have hwell := wellFormed_paddedBody 2097137
  have hin := h roomyFront slowRelay [] none (.atOnce (paddedBody 2097137)) cancelRequest
    (paddedBody 2097137) 0 _ (by decide) hwell (truthful_cancelRequest _)
    (Upload.content?_atOnce _) hsize (by decide)
  have hlong : bodyCap roomyFront.maxBodySize cancelRequest.declaredLength? <
      (paddedBody 2097137).length := by
    rw [hlength]
    decide
  have hfate : Fate.of roomyFront.limitMs none 0 = .answered := by decide
  obtain ⟨a, ha, htells⟩ := tellsTooLong_of_long hwell (by decide)
    (Upload.take_atOnce _ (paddedBody 2097137)) hlong hfate
  exact hin.2 a ha htells

end Front

end OrderRelay
