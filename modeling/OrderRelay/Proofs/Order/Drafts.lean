import OrderRelay.Order.Draft
import OrderRelay.Proofs.Message.Spelling

/-!
# Drafts and their requests

A body is read as a draft, which holds the values of the body that it has use for. The
draft becomes a request if no required value is missing.

* `orderBookRequest_eq_ok_iff`, `tradesRequest_eq_ok_iff`: the requests of a path alone.
* `SubmitDraft.toRequest_eq_ok_iff`, `CancelDraft.toRequest_eq_ok_iff`,
  `ModifyDraft.toRequest_eq_ok_iff`: when a draft becomes a request, and which one.
* `SubmitDraft.ofText_eq_ok_iff`, `CancelDraft.ofText_eq_ok_iff`,
  `ModifyDraft.ofText_eq_ok_iff`: the drafts that texts hold.
-/

namespace OrderRelay

open Json

theorem pathName_eq_ok_iff {name value v : String} :
    pathName name value = .ok v ↔ isBlank value = false ∧ v = value := by
  unfold pathName
  by_cases h : isBlank value = true
  · rw [if_pos h]
    simp [h]
  · rw [if_neg h]
    simp [h, eq_comm]

theorem ne_empty_of_not_isBlank {s : String} (h : isBlank s = false) : s ≠ "" := by
  rintro rfl
  cases h

theorem pathName_of_blank {name value : String} (h : isBlank value = true) :
    pathName name value = .error (.blankPath name) := if_pos h

theorem Json.Slot.value?_eq_some_iff {α : Type} {slot : Slot α} {v : α} :
    slot.value? = some v ↔ slot = .given v := by
  cases slot <;> simp [Slot.value?]

/-- What is made of what a text holds. -/
theorem map_readText_eq_ok_iff {α : Type} {s : Shape Scalar} {g : Slots s.members → α}
    {text : Bytes} {v : α} : (s.readText text).map g = .ok v ↔
      ∃ slots, SpellsShape s (lexemes (tokens text)) slots ∧ g slots = v := by
  simp only [← readText_eq_ok_iff]
  cases s.readText text <;> simp [Except.map]

variable {s : String} {text : Bytes}

/-- What is made of a path alone. -/
theorem map_pathName_eq_ok_iff {α : Type} {name : String} {make : String → α} {v : α} :
    (pathName name s).map make = .ok v ↔ isBlank s = false ∧ v = make s := by
  cases hs : isBlank s with
  | true =>
    rw [pathName_of_blank hs]
    simp [Except.map]
  | false =>
    rw [pathName_eq_ok_iff.2 ⟨hs, rfl⟩]
    simp [Except.map, eq_comm]

theorem orderBookRequest_eq_ok_iff {order : GetOrderBookRequest} :
    orderBookRequest s = .ok order ↔ isBlank s = false ∧ order = ⟨s⟩ := map_pathName_eq_ok_iff

theorem tradesRequest_eq_ok_iff {trades : SubscribeTradesRequest} :
    tradesRequest s = .ok trades ↔ isBlank s = false ∧ trades = ⟨s⟩ := map_pathName_eq_ok_iff

namespace SubmitDraft

theorem toRequest_eq_ok_iff {d : SubmitDraft} {order : SubmitOrderRequest} :
    d.toRequest = .ok order ↔ d.symbol = some order.symbol ∧ d.side = some order.side ∧
      d.orderType.getD "" = order.orderType ∧ d.price = some order.price ∧
        d.quantity = some order.quantity ∧ d.clientId = some order.clientId := by
  obtain ⟨symbol, side, orderType, price, quantity, clientId⟩ := d
  obtain ⟨symbol', side', orderType', price', quantity', clientId'⟩ := order
  unfold toRequest
  cases symbol <;> cases side <;> cases price <;> cases quantity <;> cases clientId <;> simp

theorem ofText_eq_ok_iff {d : SubmitDraft} : ofText text = .ok d ↔
    ∃ slots, SpellsShape shape (lexemes (tokens text)) slots ∧ ofSlots slots = d :=
  map_readText_eq_ok_iff

end SubmitDraft

namespace CancelDraft

theorem toRequest_eq_ok_iff {d : CancelDraft} {order : CancelOrderRequest} :
    d.toRequest s = .ok order ↔ isBlank s = false ∧
      ∃ clientId, d.clientId = some clientId ∧ order = ⟨s, clientId⟩ := by
  unfold toRequest
  cases hs : isBlank s with
  | true => simp [pathName_of_blank hs]
  | false =>
    rw [pathName_eq_ok_iff.2 ⟨hs, rfl⟩]
    cases d.clientId <;> simp [eq_comm]

theorem ofText_eq_ok_iff {d : CancelDraft} : ofText text = .ok d ↔
    ∃ slots, SpellsShape shape (lexemes (tokens text)) slots ∧ ofSlots slots = d :=
  map_readText_eq_ok_iff

end CancelDraft

namespace ModifyDraft

theorem toRequest_eq_ok_iff {d : ModifyDraft} {order : ModifyOrderRequest} :
    d.toRequest s = .ok order ↔ isBlank s = false ∧ ∃ newPrice newQuantity clientId,
      d.newPrice = some newPrice ∧ d.newQuantity = some newQuantity ∧
        d.clientId = some clientId ∧ order = ⟨s, newPrice, newQuantity, clientId⟩ := by
  unfold toRequest
  cases hs : isBlank s with
  | true => simp [pathName_of_blank hs]
  | false =>
    rw [pathName_eq_ok_iff.2 ⟨hs, rfl⟩]
    cases d.newPrice <;> cases d.newQuantity <;> cases d.clientId <;> simp [eq_comm]

theorem ofText_eq_ok_iff {d : ModifyDraft} : ofText text = .ok d ↔
    ∃ slots, SpellsShape shape (lexemes (tokens text)) slots ∧ ofSlots slots = d :=
  map_readText_eq_ok_iff

end ModifyDraft

end OrderRelay
