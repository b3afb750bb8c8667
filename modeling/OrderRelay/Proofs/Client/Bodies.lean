import OrderRelay.Client.Request
import OrderRelay.Front.Plan
import OrderRelay.Proofs.Front.IdBodies
import OrderRelay.Proofs.Json.Building
import OrderRelay.Proofs.Message.Rendering

/-!
# What the bodies of the client say

The client writes a body as an object of its values. The service reads each of them as it was meant,
but for a price, which is read as whatever its text stands for.

* `Double.ReadAs`: a price that is read as another one.
* `cancelDraft_body`, `modifyDraft_body_iff`: **what is read of a body.**
* `ClientLine.exists_url`: the request of a command, part by part.
-/

namespace OrderRelay

open Http Json

/-- **A price is read as** what its text stands for. -/
def Double.ReadAs (d read : Double) : Prop := Scalar.Spells .double (Value.ofDouble d).words read

theorem Double.ReadsBack.readAs {d : Double} (h : d.ReadsBack) : d.ReadAs d :=
  Scalar.spells_toJson (s := .double) h

/-- Lexemes spell one value only. -/
theorem Scalar.Spells.unique {s : Scalar} {ls : List Lexeme} {v v' : Carrier s} (h : s.Spells ls v)
    (h' : s.Spells ls v') : v' = v := by
  obtain ⟨l, rfl, hv⟩ := h
  obtain ⟨l', hl, hv'⟩ := h'
  cases hl
  exact Option.some.inj (hv'.symm.trans hv)

/-! ## Bodies -/

theorem holdsObject_cancel (orderId clientId : String) {body : Value}
    (h : (ClientCommand.cancel orderId clientId).body? = some body) :
    HoldsObject (Utf8.encode body.compact) [("clientId", [.text (.ok clientId)])] := by
  cases h
  exact Value.holdsObject_compact (List.forall_mem_singleton.2 (.text clientId))

theorem holdsObject_modify (orderId : String) (price : Double) (quantity : Int32) (clientId : String)
    {body : Value} (h : (ClientCommand.modify orderId price quantity clientId).body? = some body) :
    HoldsObject (Utf8.encode body.compact) [("clientId", [.text (.ok clientId)]),
      ("newPrice", (Value.ofDouble price).words), ("newQuantity", [.number (.ofInt quantity.toInt)])] := by
  cases h
  refine Value.holdsObject_compact ?_
  simp only [List.forall_mem_cons]
  exact ⟨.text clientId, Value.proper_ofDouble price, .number (Literal.proper_ofInt _),
    List.forall_mem_nil _⟩

/-- **The body of a cancel** names the client. -/
theorem cancelDraft_body (orderId clientId : String) {body : Value}
    (h : (ClientCommand.cancel orderId clientId).body? = some body) :
    cancelDraft (Utf8.encode body.compact) = .ok ⟨none, some clientId⟩ := by
  have hholds := holdsObject_cancel orderId clientId h
  have hfills : Fills .byNull CancelDraft.shape.members [("clientId", [.text (.ok clientId)])]
      (.absent, .given clientId, ()) := by
    refine ⟨rfl, ⟨rfl, ?_⟩, ?_⟩
    · exact ⟨_, rfl, rfl⟩
    · exact List.forall_mem_nil _
  unfold cancelDraft
  rw [if_neg (Front.not_blank_of_holdsObject hholds),
    CancelDraft.ofText_eq_ok_iff.2 ⟨_, hholds.spellsShape_iff.2 hfills, rfl⟩]
  rfl

/-- **The body of a modify** gives the values of the command. -/
theorem modifyDraft_body_iff (orderId clientId : String) (price : Double) (quantity : Int32)
    {body : Value} (h : (ClientCommand.modify orderId price quantity clientId).body? = some body)
    {newPrice : Double} {newQuantity : Int32} {client : String} :
    (∃ draft, ModifyDraft.ofText (Utf8.encode body.compact) = .ok draft ∧
      draft.newPrice = some newPrice ∧ draft.newQuantity = some newQuantity ∧
        draft.clientId = some client) ↔
      price.ReadAs newPrice ∧ newQuantity = quantity ∧ client = clientId := by
  have hholds := holdsObject_modify orderId price quantity clientId h
  have hquantity : Scalar.Spells .int32 [.number (.ofInt quantity.toInt)] quantity :=
    Scalar.spells_toJson (s := .int32) trivial
  constructor
  · rintro ⟨draft, htext, hprice, hread, hclient⟩
    obtain ⟨⟨ignored, slot, slot', slot'', ⟨⟩⟩, hspells, rfl⟩ := ModifyDraft.ofText_eq_ok_iff.1 htext
    obtain rfl : slot = .given newPrice := Slot.value?_eq_some_iff.1 hprice
    obtain rfl : slot' = .given newQuantity := Slot.value?_eq_some_iff.1 hread
    obtain rfl : slot'' = .given client := Slot.value?_eq_some_iff.1 hclient
    obtain ⟨-, ⟨-, hprice⟩, ⟨-, hread⟩, ⟨-, hclient⟩, -⟩ := hholds.spellsShape_iff.1 hspells
    refine ⟨hprice, hquantity.unique hread, ?_⟩
    exact Scalar.Spells.unique (s := .text) ⟨_, rfl, rfl⟩ hclient
  · rintro ⟨hprice, rfl, rfl⟩
    have hfills : Fills .byNull ModifyDraft.shape.members [("clientId", [.text (.ok client)]),
        ("newPrice", (Value.ofDouble price).words),
        ("newQuantity", [.number (.ofInt newQuantity.toInt)])]
        (.absent, .given newPrice, .given newQuantity, .given client, ()) := by
      refine ⟨rfl, ⟨rfl, hprice⟩, ⟨rfl, hquantity⟩, ⟨rfl, ?_⟩, List.forall_mem_nil _⟩
      exact ⟨_, rfl, rfl⟩
    have htext := ModifyDraft.ofText_eq_ok_iff.2 ⟨_, hholds.spellsShape_iff.2 hfills, rfl⟩
    exact ⟨_, htext, rfl, rfl, rfl⟩

/-! ## Requests -/

theorem saysJson_bodyHeaders (body : Bytes) (ids : Headers) {r : Request}
    (h : r.headers = ClientLine.bodyHeaders body ++ ids) : saysJson r = true := by
  have hfirst : r.headers.first? "content-type" = some (Utf8.encode "application/json") := by
    rw [h]
    rfl
  have htext : visibleText? (Utf8.encode "application/json") = some "application/json" :=
    visibleText?_eq_some_iff.2 ⟨by decide, rfl⟩
  unfold saysJson
  rw [hfirst, Option.bind_some, htext]
  decide

theorem ClientLine.isSome_request? (l : ClientLine) :
    l.request?.isSome ↔ l.url?.isSome ∧ (idHeaders? l.requestId).isSome := by
  unfold request?
  cases l.url? with
  | none => simp
  | some url =>
    cases idHeaders? l.requestId with
    | none => simp
    | some ids => cases l.command.body? <;> simp

theorem ClientLine.request?_of_url? {l : ClientLine} {url : Url} {body : Value}
    (hurl : l.url? = some url) (hid : l.requestId = none) (hbody : l.command.body? = some body) :
    l.request? = some ⟨l.command.method, url.target, bodyHeaders (Utf8.encode body.compact),
      Utf8.encode body.compact⟩ := by
  unfold request?
  rw [hurl, hid, hbody]
  simp [idHeaders?]

/-- The request of a command, part by part. -/
theorem ClientLine.exists_url {l : ClientLine} {r : Request} (h : l.request? = some r) :
    ∃ url, Url.parse? l.address = some url ∧ r.method = l.command.method ∧ r.target = url.target ∧
      ∀ body, l.command.body? = some body → r.body = Utf8.encode body.compact ∧ saysJson r = true := by
  unfold request? at h
  split at h
  · rename_i url ids hurl _
    refine ⟨url, (Option.filter_eq_some_iff.1 hurl).1, ?_⟩
    split at h
    · rename_i hbody
      cases h
      refine ⟨rfl, rfl, fun body hsome => ?_⟩
      rw [hbody] at hsome
      cases hsome
    · rename_i value hbody
      cases h
      refine ⟨rfl, rfl, fun body hsome => ?_⟩
      rw [hbody] at hsome
      cases hsome
      exact ⟨rfl, saysJson_bodyHeaders _ ids rfl⟩
  · cases h

end OrderRelay
