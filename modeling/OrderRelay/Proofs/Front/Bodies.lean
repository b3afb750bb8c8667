import OrderRelay.Front.Plan
import OrderRelay.Proofs.Json.Lexing
import OrderRelay.Proofs.Message.Entries
import OrderRelay.Proofs.Order.Drafts

/-!
# What a body says

A body says what its members say that the request has a name for: null says as much as leaving the
member out, and a value that is given twice, by whichever of its names, makes the body useless.

* `BodyKind`, `BodyKind.request?`: the three bodies, and the request that each is read as.
* `SayAlike`: known members that say the same.
* `BodyKind.request?_of_sayAlike`: **bodies whose known members say the same** are the same request.
-/

namespace OrderRelay

open Json

/-- The bodies that callers write. Where an order exists, the path names it. -/
inductive BodyKind where
  | submit
  | cancel (path : String)
  | modify (path : String)

namespace BodyKind

/-- The members of a body. -/
def shape : BodyKind → Shape Scalar
  | .submit => SubmitDraft.shape
  | .cancel _ => CancelDraft.shape
  | .modify _ => ModifyDraft.shape

/-- **The request that a body is read as**, if it becomes one. -/
def request? : BodyKind → Bytes → Option EngineRequest
  | .submit, text => do
    let draft ← (SubmitDraft.ofText text).toOption
    let order ← draft.toRequest.toOption
    return .order .submitOrder order
  | .cancel path, text => do
    let draft ← (cancelDraft text).toOption
    let order ← (draft.toRequest path).toOption
    return .order .cancelOrder order
  | .modify path, text => do
    let draft ← (ModifyDraft.ofText text).toOption
    let order ← (draft.toRequest path).toOption
    return .order .modifyOrder order

/-- The request that slots make. -/
def ofSlots? : (b : BodyKind) → Slots b.shape.members → Option EngineRequest
  | .submit, slots => do
    let order ← (SubmitDraft.ofSlots slots).toRequest.toOption
    return .order .submitOrder order
  | .cancel path, slots => do
    let order ← ((CancelDraft.ofSlots slots).toRequest path).toOption
    return .order .cancelOrder order
  | .modify path, slots => do
    let order ← ((ModifyDraft.ofSlots slots).toRequest path).toOption
    return .order .modifyOrder order

theorem apart_members (b : BodyKind) : Apart b.shape.members := by
  cases b with
  | submit => decide
  | cancel path => exact (by decide : Apart CancelDraft.shape.members)
  | modify path => exact (by decide : Apart ModifyDraft.shape.members)

theorem absence_shape (b : BodyKind) : b.shape.absence = .byNull := by
  cases b <;> rfl

/-- Only the values in the slots make the request. -/
theorem ofSlots?_of_sameValues (b : BodyKind) {slots slots' : Slots b.shape.members}
    (h : SameValues b.shape.members slots slots') : b.ofSlots? slots' = b.ofSlots? slots := by
  cases b with
  | submit =>
    obtain ⟨symbol, side, orderType, price, quantity, clientId, ⟨⟩⟩ := slots
    obtain ⟨symbol', side', orderType', price', quantity', clientId', ⟨⟩⟩ := slots'
    obtain ⟨h1, h2, h3, h4, h5, h6, -⟩ := h
    simp only [ofSlots?, SubmitDraft.ofSlots, h1, h2, h3, h4, h5, h6]
  | cancel path =>
    obtain ⟨orderId, clientId, ⟨⟩⟩ := slots
    obtain ⟨orderId', clientId', ⟨⟩⟩ := slots'
    obtain ⟨h1, h2, -⟩ := h
    simp only [ofSlots?, CancelDraft.ofSlots, h1, h2]
  | modify path =>
    obtain ⟨orderId, newPrice, newQuantity, clientId, ⟨⟩⟩ := slots
    obtain ⟨orderId', newPrice', newQuantity', clientId', ⟨⟩⟩ := slots'
    obtain ⟨h1, h2, h3, h4, -⟩ := h
    simp only [ofSlots?, ModifyDraft.ofSlots, h1, h2, h3, h4]

end BodyKind

/-- What begins an object is not blank. -/
theorem not_blank_of_openObject {body : Bytes} {ls : List Lexeme}
    (h : lexemes (tokens body) = .openObject :: ls) : ¬body.all isAsciiBlank = true := by
  intro hblank
  have htokens : tokens body = tokensOnto [] (gapAfter body) (body.drop (gapAfter body)) := rfl
  rw [htokens] at h
  cases hrest : body.drop (gapAfter body) with
  | nil =>
    rw [hrest] at h
    simp [tokensOnto] at h
  | cons b rest =>
    -- a blank that is not passed over begins no token
    have hb : isAsciiBlank b = true :=
      List.all_eq_true.1 hblank b (List.mem_of_mem_drop (hrest ▸ List.mem_cons_self))
    have hstray : Scan.token (gapAfter body) b rest = ⟨.stray, 0⟩ := by
      simp only [isAsciiBlank, Bool.or_eq_true, beq_iff_eq] at hb
      rcases hb with (((rfl | rfl) | rfl) | rfl) | rfl <;> rfl
    rw [hrest, tokensOnto_cons, hstray] at h
    cases h

namespace BodyKind

theorem cancelDraft_toOption {text : Bytes} (h : ¬text.all isAsciiBlank = true) :
    (cancelDraft text).toOption = (CancelDraft.ofText text).toOption := by
  unfold cancelDraft
  rw [if_neg h]
  cases CancelDraft.ofText text <;> rfl

theorem toOption_eq_some_iff {ε α : Type} {x : Except ε α} {a : α} :
    x.toOption = some a ↔ x = .ok a := by
  cases x <;> simp [Except.toOption]

theorem toOption_map_bind {ε α β γ : Type} (x : Except ε α) (f : α → β) (g : β → Option γ) :
    (x.map f).toOption.bind g = x.toOption.bind fun a => g (f a) := by
  cases x <;> rfl

/-- The request of an object is made of what is read of it. -/
theorem request?_eq (b : BodyKind) {text : Bytes} {es : List Entry} (h : Holds text es) :
    b.request? text = (b.shape.readText text).toOption.bind b.ofSlots? := by
  cases b with
  | submit => exact toOption_map_bind _ _ _
  | cancel path =>
    obtain ⟨-, ls, hls⟩ := exists_holds_iff.1 ⟨es, h⟩
    have hdraft := cancelDraft_toOption (not_blank_of_openObject hls)
    change (cancelDraft text).toOption.bind _ = _
    rw [hdraft]
    exact toOption_map_bind _ _ _
  | modify path => exact toOption_map_bind _ _ _

end BodyKind

/-! ## Known members -/

/-- Entries whose known members say the same. -/
structure SayAlike (ms : List (Member Scalar)) (es es' : List Entry) : Prop where
  named : (∀ e ∈ es', e.1.isSome = true) ↔ ∀ e ∈ es, e.1.isSome = true
  amounts : ∀ m ∈ ms, amount (m.given es') = amount (m.given es)

theorem SayAlike.symm {ms : List (Member Scalar)} {es es' : List Entry} (h : SayAlike ms es es') :
    SayAlike ms es' es :=
  ⟨h.named.symm, fun m hm => (h.amounts m hm).symm⟩

/-- One more member that is none of the known ones, or null where nothing was said. -/
theorem sayAlike_insert {ms : List (Member Scalar)} {before after : List Entry} {name : String}
    {value : List Lexeme} (h : ∀ m ∈ ms, name ∈ m.names →
      value = [.null] ∧ m.given (before ++ after) = []) :
    SayAlike ms (before ++ after) (before ++ (some name, value) :: after) := by
  refine ⟨?_, fun m hm => ?_⟩
  · simp only [List.forall_mem_append, List.forall_mem_cons, Option.isSome_some, true_and]
  · rw [Member.given_insert]
    split
    · rename_i hname
      obtain ⟨rfl, hnone⟩ := h m hm (by simpa using hname)
      rw [hnone]
      rw [m.given_append, List.append_eq_nil_iff] at hnone
      rw [hnone.1, hnone.2]
      rfl
    · rfl

/-- Another order. -/
theorem sayAlike_of_perm (ms : List (Member Scalar)) {es es' : List Entry} (h : es.Perm es') :
    SayAlike ms es es' :=
  ⟨forall_congr' fun e => by rw [h.mem_iff], fun m _ => amount_of_perm ((h.filter _).map _)⟩

namespace BodyKind

/-- **Bodies whose known members say the same** are read as the same request, if as one. -/
theorem request?_of_sayAlike (b : BodyKind) {text text' : Bytes} {es es' : List Entry}
    (h : Holds text es) (h' : Holds text' es') (hsame : SayAlike b.shape.members es es') :
    b.request? text' = b.request? text := by
  have hread : ∀ {text text' es es'}, Holds text es → Holds text' es' →
      SayAlike b.shape.members es es' → ∀ slots, b.shape.readText text = .ok slots →
        b.request? text' = b.request? text := by
    intro text text' es es' h h' hsame slots hslots
    obtain ⟨slots', hslots', hvalues⟩ := exists_readText_of_amount h h' b.apart_members
      b.absence_shape hsame.named.2 hsame.amounts hslots
    rw [b.request?_eq h, b.request?_eq h', hslots, hslots']
    exact b.ofSlots?_of_sameValues hvalues
  -- if either of the two can be read, so can the other
  cases hslots : b.shape.readText text with
  | ok slots => exact hread h h' hsame slots hslots
  | error e =>
    cases hslots' : b.shape.readText text' with
    | ok slots' => exact (hread h' h hsame.symm slots' hslots').symm
    | error e' =>
      rw [b.request?_eq h, b.request?_eq h', hslots, hslots']
      rfl

/-- A value that is given twice makes a body useless. -/
theorem request?_of_twice (b : BodyKind) {text : Bytes} {es : List Entry} (h : Holds text es)
    {m : Member Scalar} (hm : m ∈ b.shape.members) (htwice : 2 ≤ (m.given es).length) :
    b.request? text = none := by
  rw [b.request?_eq h]
  cases hslots : b.shape.readText text with
  | ok slots => exact absurd hslots (readText_ne_ok_of_twice h b.apart_members hm htwice)
  | error e => rfl

end BodyKind

end OrderRelay
