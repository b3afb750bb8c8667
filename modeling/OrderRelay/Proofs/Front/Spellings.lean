import Mathlib
import OrderRelay.Proofs.Front.Bodies

/-!
# Names in snake case

A body may name its members in snake case as well as in camel case. All names but one have both
spellings. The type of an order goes by `type` and `orderType` only: under `order_type` it is one of
the members that nobody knows, and the order is sent without a type.

* `snakeCase`: a name in snake case.
* `BodyKind.camelNames`: the names of a body that read otherwise in snake case.
* `snake_case_read`: **what becomes of a body when one name is written in snake case.**
* `not_snake_case_read`: an order that is sent without its type.
-/

namespace OrderRelay

open Json

/-- A name in snake case: each capital becomes a small letter behind a low line. -/
def snakeCase (name : String) : String :=
  String.ofList (name.toList.flatMap fun c => if c.isUpper then ['_', c.toLower] else [c])

/-- An order without its type. -/
def SubmitOrderRequest.withoutType (order : SubmitOrderRequest) : SubmitOrderRequest :=
  { order with orderType := "" }

/-- What is asked of the engine, without the type of an order. -/
def EngineRequest.withoutType : EngineRequest → EngineRequest
  | .order .submitOrder submitted => .order .submitOrder (SubmitOrderRequest.withoutType submitted)
  | request => request

namespace BodyKind

/-- The names of a body that read otherwise in snake case. -/
def camelNames (b : BodyKind) : List String :=
  (b.shape.members.flatMap Member.names).filter fun name => snakeCase name ≠ name

/-- All names but one are known in both spellings, and to the same member. -/
theorem contains_snakeCase (b : BodyKind) {name : String} (hname : name ∈ b.camelNames)
    (hother : name ≠ "orderType") {m : Member Scalar} (hm : m ∈ b.shape.members) :
    m.names.contains (snakeCase name) = m.names.contains name := by
  cases b with
  | submit =>
    have hknown : ∀ name ∈ camelNames .submit, name ≠ "orderType" → ∀ m ∈ SubmitDraft.shape.members,
        m.names.contains (snakeCase name) = m.names.contains name := by decide
    exact hknown name hname hother m hm
  | cancel path =>
    have hknown : ∀ name ∈ camelNames (.cancel ""), ∀ m ∈ CancelDraft.shape.members,
        m.names.contains (snakeCase name) = m.names.contains name := by decide
    exact hknown name hname m hm
  | modify path =>
    have hknown : ∀ name ∈ camelNames (.modify ""), ∀ m ∈ ModifyDraft.shape.members,
        m.names.contains (snakeCase name) = m.names.contains name := by decide
    exact hknown name hname m hm

/-- Only new orders have a type. -/
theorem eq_submit_of_orderType {b : BodyKind} (h : "orderType" ∈ b.camelNames) : b = .submit := by
  cases b with
  | submit => rfl
  | cancel path => exact absurd h (by decide : "orderType" ∉ camelNames (.cancel ""))
  | modify path => exact absurd h (by decide : "orderType" ∉ camelNames (.modify ""))

end BodyKind

/-- A draft without the type becomes the order without the type. -/
theorem SubmitDraft.toRequest_withoutType (d : SubmitDraft) :
    ({ d with orderType := none } : SubmitDraft).toRequest =
      d.toRequest.map SubmitOrderRequest.withoutType := by
  obtain ⟨symbol, side, orderType, price, quantity, clientId⟩ := d
  unfold SubmitDraft.toRequest
  cases symbol <;> cases side <;> cases price <;> cases quantity <;> cases clientId <;> rfl

namespace BodyKind

/-- Whether a member is the type of an order. -/
def isType (m : Member Scalar) : Bool := m.names.contains "orderType"

/-- **The type of an order is lost** when its name is written in snake case. -/
theorem request?_of_order_type {text text' : Bytes} {before after : List Entry}
    {value : List Lexeme} (h : Holds text (before ++ (some "orderType", value) :: after))
    (h' : Holds text' (before ++ (some "order_type", value) :: after)) {request : EngineRequest}
    (haccepted : submit.request? text = some request) :
    submit.request? text' = some request.withoutType := by
  rw [submit.request?_eq h, Option.bind_eq_some_iff] at haccepted
  obtain ⟨slots, hread, hrequest⟩ := haccepted
  obtain ⟨hnames, heach⟩ :=
    (h.readText_eq_ok_iff submit.apart_members).1 (toOption_eq_some_iff.1 hread)
  -- the type has no value any more, and the others have those that they had
  have hunknown : ∀ m ∈ submit.shape.members, m.names.contains "order_type" = false :=
    (by decide : ∀ m ∈ SubmitDraft.shape.members, m.names.contains "order_type" = false)
  have hgiven : ∀ m ∈ submit.shape.members,
      m.given (before ++ (some "order_type", value) :: after) =
        if isType m then [] else m.given (before ++ (some "orderType", value) :: after) := by
    intro m hm
    rw [m.given_insert, m.given_insert, hunknown m hm, m.given_append]
    unfold isType
    by_cases htype : m.names.contains "orderType" = true
    · obtain ⟨slot, hslot⟩ := heach.exists_fillsSlot hm
      rw [m.given_insert, if_pos htype] at hslot
      obtain ⟨hbefore, hafter⟩ := eq_nil_of_fillsSlot hslot
      rw [if_pos htype, hbefore, hafter]
      rfl
    · rw [if_neg htype, if_neg htype]
      rfl
  have hnames' : ∀ e ∈ before ++ (some "order_type", value) :: after, e.1.isSome = true := by
    simpa only [List.forall_mem_append, List.forall_mem_cons, Option.isSome_some] using hnames
  have hread' : submit.shape.readText text' =
      .ok (Slots.without isType submit.shape.members slots) :=
    (h'.readText_eq_ok_iff submit.apart_members).2 ⟨hnames', (heach.without isType).congr hgiven⟩
  rw [submit.request?_eq h', hread']
  have hdraft : SubmitDraft.ofSlots (Slots.without isType submit.shape.members slots) =
      { SubmitDraft.ofSlots slots with orderType := none } := rfl
  change submit.ofSlots? _ = _
  simp only [ofSlots?] at hrequest ⊢
  rw [hdraft, SubmitDraft.toRequest_withoutType]
  cases hx : (SubmitDraft.ofSlots slots).toRequest with
  | error e =>
    rw [hx] at hrequest
    cases hrequest
  | ok order =>
    rw [hx] at hrequest
    cases hrequest
    rfl

/-- **What becomes of a body when one name is written in snake case**: it is the same request, but
for the type of an order, which is lost. -/
theorem snake_case_read (b : BodyKind) {text text' : Bytes} {before after : List Entry}
    {name : String} {value : List Lexeme} (hname : name ∈ b.camelNames)
    (h : Holds text (before ++ (some name, value) :: after))
    (h' : Holds text' (before ++ (some (snakeCase name), value) :: after)) {request : EngineRequest}
    (haccepted : b.request? text = some request) :
    b.request? text' = some (if name = "orderType" then request.withoutType else request) := by
  by_cases htype : name = "orderType"
  · subst htype
    obtain rfl := eq_submit_of_orderType hname
    have hsnake : snakeCase "orderType" = "order_type" := by decide
    rw [hsnake] at h'
    rw [if_pos rfl, request?_of_order_type h h' haccepted]
  · rw [if_neg htype, ← haccepted]
    -- the value is given for the same member
    refine b.request?_of_sayAlike h h' ⟨?_, fun m hm => ?_⟩
    · simp only [List.forall_mem_append, List.forall_mem_cons, Option.isSome_some]
    · rw [Member.given_insert, Member.given_insert, b.contains_snakeCase hname htype hm]

/-- The body of a cancel whose client is named in snake case. -/
theorem snake_case_read_client :
    (cancel "A1").request? (Utf8.encode "\x7b\"client_id\":\"c\"\x7d") =
      some (.order .cancelOrder ⟨"A1", "c"⟩) := by
  have hvalues : ∀ name, ∀ e ∈ ([] ++ (some name, [.text (.ok "c")]) :: [] : List Entry),
      IsValue e.2 := fun _ => List.forall_mem_singleton.2 (.word rfl)
  have hholds : Holds (Utf8.encode "\x7b\"clientId\":\"c\"\x7d")
      ([] ++ (some "clientId", [.text (.ok "c")]) :: []) := ⟨by cbv, hvalues _⟩
  have hholds' : Holds (Utf8.encode "\x7b\"client_id\":\"c\"\x7d")
      ([] ++ (some (snakeCase "clientId"), [.text (.ok "c")]) :: []) := ⟨by cbv, hvalues _⟩
  have haccepted : (cancel "A1").request? (Utf8.encode "\x7b\"clientId\":\"c\"\x7d") =
      some (.order .cancelOrder ⟨"A1", "c"⟩) := by cbv
  exact snake_case_read (cancel "A1") (by decide) hholds hholds' haccepted

/-- The members of a limit order, whose type goes by a name. -/
def limitOrder (name : String) : List Entry :=
  [(some "symbol", [.text (.ok "AAPL")]), (some "side", [.text (.ok "BUY")])] ++
    (some name, [.text (.ok "LIMIT")]) ::
      [(some "price", [.number ⟨false, .ofNat 150, none, none⟩]),
        (some "quantity", [.number ⟨false, .ofNat 100, none, none⟩]),
        (some "clientId", [.text (.ok "c1")])]

/-- The text of that order. -/
def limitOrderText (name : String) : Bytes :=
  Utf8.encode ("\x7b\"symbol\":\"AAPL\",\"side\":\"BUY\",\"" ++ name ++
    "\":\"LIMIT\",\"price\":150,\"quantity\":100,\"clientId\":\"c1\"\x7d")

theorem isValue_limitOrder (name : String) : ∀ e ∈ limitOrder name, IsValue e.2 := by
  simp only [limitOrder, List.forall_mem_append, List.forall_mem_cons]
  exact ⟨⟨.word rfl, .word rfl, List.forall_mem_nil _⟩, .word rfl, .word rfl, .word rfl, .word rfl,
    List.forall_mem_nil _⟩

theorem holds_limitOrder : Holds (limitOrderText "orderType") (limitOrder "orderType") :=
  ⟨by cbv, isValue_limitOrder _⟩

theorem holds_limitOrder_snake : Holds (limitOrderText "order_type") (limitOrder "order_type") :=
  ⟨by cbv, isValue_limitOrder _⟩

/-- In camel case, the order has its type. -/
theorem request?_limitOrder : submit.request? (limitOrderText "orderType") =
    some (.order .submitOrder ⟨"AAPL", "BUY", "LIMIT", Double.ofInt 150, 100, "c1"⟩) := by
  have hread : submit.shape.readText (limitOrderText "orderType") =
      .ok (.given "AAPL", .given "BUY", .given "LIMIT", .given (Double.ofInt 150),
        .given (100 : Int32), .given "c1", ()) := by
    refine (holds_limitOrder.readText_eq_ok_iff submit.apart_members).2 ⟨by decide, ?_⟩
    exact ⟨⟨rfl, _, rfl, rfl⟩, ⟨rfl, _, rfl, rfl⟩, ⟨rfl, _, rfl, rfl⟩, ⟨rfl, _, rfl, rfl⟩,
      ⟨rfl, _, rfl, rfl⟩, ⟨rfl, _, rfl, rfl⟩, trivial⟩
  rw [submit.request?_eq holds_limitOrder, hread]
  rfl

/-- **An order that is sent without its type**, since its body names the type in snake case. -/
theorem not_snake_case_read : ¬∀ (b : BodyKind) (text text' : Bytes) (before after : List Entry)
    (name : String) (value : List Lexeme) (request : EngineRequest), name ∈ b.camelNames →
    Holds text (before ++ (some name, value) :: after) →
    Holds text' (before ++ (some (snakeCase name), value) :: after) →
    b.request? text = some request → b.request? text' = some request := by
  intro hall
  have hkept := hall submit _ _ _ _ "orderType" _ _ (by decide) holds_limitOrder
    holds_limitOrder_snake request?_limitOrder
  have hlost := request?_of_order_type holds_limitOrder holds_limitOrder_snake request?_limitOrder
  rw [hkept] at hlost
  simp [EngineRequest.withoutType, SubmitOrderRequest.withoutType] at hlost

end BodyKind

end OrderRelay
