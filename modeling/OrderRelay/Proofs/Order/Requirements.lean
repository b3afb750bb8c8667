import Mathlib.Data.List.Nodup
import OrderRelay.Proofs.Order.Drafts

/-!
# What a request needs

A draft becomes a request exactly if nothing is missing that the request needs, whatever the values
are that are there. Otherwise the caller is told everything that is missing at once. A path that
names nothing is told before that, and alone.

* `lacking`: the names of the required values that are not there.
* `Settled`: what becomes of a draft, by what its request needs.
* `Settled.of_steps`: a draft is settled in three steps, the path, the values, and the request.
* `drafts_settled`: **what becomes of each of the three drafts.**
-/

namespace OrderRelay

/-! ## What is missing -/

/-- The names of the required values that are not there, in the order in which they are required. -/
def lacking (required : List (String × Bool)) : List String :=
  (required.filter fun v => !v.2).map Prod.fst

theorem lacking_append (required required' : List (String × Bool)) :
    lacking (required ++ required') = lacking required ++ lacking required' := by
  unfold lacking
  rw [List.filter_append, List.map_append]

/-- A single value is missing if it is not there. -/
theorem absentName_eq_lacking {α : Type} (name : String) (value : Option α) :
    absentName name value = lacking [(name, value.isSome)] := by
  cases value <;> rfl

theorem lacking_eq_nil_iff {required : List (String × Bool)} :
    lacking required = [] ↔ ∀ v ∈ required, v.2 = true := by
  unfold lacking
  rw [List.map_eq_nil_iff, List.filter_eq_nil_iff]
  simp only [Bool.not_eq_true', Bool.not_eq_false]

theorem mem_lacking_iff {required : List (String × Bool)} {name : String} :
    name ∈ lacking required ↔ (name, false) ∈ required := by
  unfold lacking
  simp [List.mem_map, List.mem_filter]

/-- What is missing is listed in the order in which it is required. -/
theorem lacking_sublist (required : List (String × Bool)) :
    (lacking required).Sublist (required.map Prod.fst) :=
  List.filter_sublist.map Prod.fst

/-! ## Blank paths -/

/-- A text is blank if it has no character that shows. -/
theorem isBlank_eq_true_iff {s : String} :
    isBlank s = true ↔ ∀ c ∈ s.toList, isBlankChar c = true := List.all_eq_true

theorem isBlank_eq_false_iff {s : String} :
    isBlank s = false ↔ ∃ c ∈ s.toList, isBlankChar c = false := by
  rw [← Bool.not_eq_true, isBlank_eq_true_iff]
  simp

/-! ## What becomes of a draft -/

/-- **What becomes of a draft** whose request needs these values, each of which is there or not, and
of which the path names the order, if there is one. `Copied` is what the request takes over. -/
structure Settled {α : Type} (path : Option String) (required : List (String × Bool))
    (Copied : α → Prop) (x : Except DraftError α) : Prop where
  /-- It becomes a request exactly if the path shows something and all the values are there. -/
  accepted : (∃ order, x = .ok order) ↔
    (∀ p ∈ path, ∃ c ∈ p.toList, isBlankChar c = false) ∧ ∀ v ∈ required, v.2 = true
  copied : ∀ order, x = .ok order → Copied order
  /-- A blank path is reported alone. -/
  blankPath : ∀ p ∈ path, (∀ c ∈ p.toList, isBlankChar c = true) →
    ∃ e, x = .error e ∧ e.toRelayError = .invalidRequest "orderId is required in the path"
  /-- Otherwise exactly the missing values are listed, each once, in the order of the required
  ones. -/
  listed : (∀ p ∈ path, ∃ c ∈ p.toList, isBlankChar c = false) → ∀ e, x = .error e →
    ∃ names, e.toRelayError =
        .invalidRequest ("missing required field(s): " ++ ", ".intercalate names) ∧
      names.Nodup ∧ names.Sublist (required.map Prod.fst) ∧
        ∀ name, name ∈ names ↔ (name, false) ∈ required

/-- **A draft is settled in three steps**: the path is looked at, then what is missing, and then
there is a request. -/
theorem Settled.of_steps {α : Type} {path : Option String} {required : List (String × Bool)}
    {Copied : α → Prop} {x : Except DraftError α} (hnames : (required.map Prod.fst).Nodup)
    (hblank : ∀ p ∈ path, isBlank p = true → x = .error (.blankPath "orderId"))
    (hmissing : (∀ p ∈ path, isBlank p = false) → lacking required ≠ [] →
      x = .error (.missing (lacking required)))
    (hrequest : (∀ p ∈ path, isBlank p = false) → lacking required = [] →
      ∃ order, x = .ok order ∧ Copied order) : Settled path required Copied x := by
  have hshows : (∀ p ∈ path, ∃ c ∈ p.toList, isBlankChar c = false) ↔
      ∀ p ∈ path, isBlank p = false := by
    simp only [isBlank_eq_false_iff]
  -- whoever gets a request has passed the first two steps
  have hpassed : ∀ order, x = .ok order →
      (∀ p ∈ path, isBlank p = false) ∧ lacking required = [] := by
    intro order hx
    have hpath : ∀ p ∈ path, isBlank p = false := by
      intro p hp
      by_contra hne
      rw [hblank p hp (by simpa using hne)] at hx
      cases hx
    refine ⟨hpath, ?_⟩
    by_contra hne
    rw [hmissing hpath hne] at hx
    cases hx
  refine ⟨⟨?_, ?_⟩, ?_, ?_, ?_⟩
  · rintro ⟨order, hx⟩
    obtain ⟨hpath, hall⟩ := hpassed order hx
    exact ⟨hshows.2 hpath, lacking_eq_nil_iff.1 hall⟩
  · rintro ⟨hpath, hall⟩
    obtain ⟨order, hx, -⟩ := hrequest (hshows.1 hpath) (lacking_eq_nil_iff.2 hall)
    exact ⟨order, hx⟩
  · intro order hx
    obtain ⟨hpath, hall⟩ := hpassed order hx
    obtain ⟨order', hx', hcopied⟩ := hrequest hpath hall
    rw [hx] at hx'
    cases hx'
    exact hcopied
  · intro p hp hblanks
    exact ⟨_, hblank p hp (isBlank_eq_true_iff.2 hblanks), rfl⟩
  · intro hpath e hx
    have hne : lacking required ≠ [] := by
      intro hall
      obtain ⟨order, hx', -⟩ := hrequest (hshows.1 hpath) hall
      rw [hx] at hx'
      cases hx'
    rw [hmissing (hshows.1 hpath) hne] at hx
    cases hx
    have hsublist := lacking_sublist required
    exact ⟨lacking required, rfl, hnames.sublist hsublist, hsublist, fun name => mem_lacking_iff⟩

/-! ## The three drafts -/

namespace SubmitDraft

/-- What the request for a new order needs of a draft. The type of the order is not needed. -/
def required (d : SubmitDraft) : List (String × Bool) :=
  [("symbol", d.symbol.isSome), ("side", d.side.isSome), ("price", d.price.isSome),
    ("quantity", d.quantity.isSome), ("clientId", d.clientId.isSome)]

theorem missing_eq_lacking (d : SubmitDraft) : d.missing = lacking d.required := by
  unfold missing
  simp only [absentName_eq_lacking, ← lacking_append]
  rfl

/-- What the request takes over from the draft. -/
def Copies (d : SubmitDraft) (order : SubmitOrderRequest) : Prop :=
  d.symbol = some order.symbol ∧ d.side = some order.side ∧
    order.orderType = d.orderType.getD "" ∧ d.price = some order.price ∧
      d.quantity = some order.quantity ∧ d.clientId = some order.clientId

theorem settled (d : SubmitDraft) : Settled none d.required d.Copies d.toRequest := by
  have hnames : ["symbol", "side", "price", "quantity", "clientId"].Nodup := by decide
  refine .of_steps hnames (fun p hp => (nomatch hp)) (fun _ hne => ?_) (fun _ hall => ?_)
  · rw [← missing_eq_lacking] at hne ⊢
    unfold toRequest
    split
    · -- all that is needed is there
      rename_i hsymbol hside hprice hquantity hclient
      refine absurd ?_ hne
      simp [missing, absentName, hsymbol, hside, hprice, hquantity, hclient]
    · rfl
  · simp only [lacking_eq_nil_iff, required, List.forall_mem_cons, Option.isSome_iff_exists] at hall
    obtain ⟨⟨symbol, hsymbol⟩, ⟨side, hside⟩, ⟨price, hprice⟩, ⟨quantity, hquantity⟩,
      ⟨clientId, hclient⟩, -⟩ := hall
    refine ⟨⟨symbol, side, d.orderType.getD "", price, quantity, clientId⟩, ?_, hsymbol, hside, rfl,
      hprice, hquantity, hclient⟩
    exact toRequest_eq_ok_iff.2 ⟨hsymbol, hside, rfl, hprice, hquantity, hclient⟩

end SubmitDraft

namespace CancelDraft

/-- What the request to cancel an order needs of a draft. -/
def required (d : CancelDraft) : List (String × Bool) := [("clientId", d.clientId.isSome)]

theorem missing_eq_lacking (d : CancelDraft) : d.missing = lacking d.required :=
  absentName_eq_lacking "clientId" d.clientId

/-- What the request takes over from the draft and the path. -/
def Copies (d : CancelDraft) (path : String) (order : CancelOrderRequest) : Prop :=
  order.orderId = path ∧ d.clientId = some order.clientId

theorem settled (d : CancelDraft) (path : String) :
    Settled (some path) d.required (d.Copies path) (d.toRequest path) := by
  refine .of_steps (List.nodup_singleton _) (fun p hp hblank => ?_) (fun hpath hne => ?_)
    (fun hpath hall => ?_)
  · cases hp
    unfold toRequest
    rw [pathName_of_blank hblank]
  · rw [← missing_eq_lacking] at hne ⊢
    unfold toRequest
    rw [pathName_eq_ok_iff.2 ⟨hpath path rfl, rfl⟩]
    simp only
    split
    · rename_i hclient
      refine absurd ?_ hne
      simp [missing, absentName, hclient]
    · rfl
  · simp only [lacking_eq_nil_iff, required, List.forall_mem_cons, Option.isSome_iff_exists] at hall
    obtain ⟨⟨clientId, hclient⟩, -⟩ := hall
    refine ⟨⟨path, clientId⟩, ?_, rfl, hclient⟩
    exact toRequest_eq_ok_iff.2 ⟨hpath path rfl, clientId, hclient, rfl⟩

end CancelDraft

namespace ModifyDraft

/-- What the request to change an order needs of a draft. -/
def required (d : ModifyDraft) : List (String × Bool) :=
  [("newPrice", d.newPrice.isSome), ("newQuantity", d.newQuantity.isSome),
    ("clientId", d.clientId.isSome)]

theorem missing_eq_lacking (d : ModifyDraft) : d.missing = lacking d.required := by
  unfold missing
  simp only [absentName_eq_lacking, ← lacking_append]
  rfl

/-- What the request takes over from the draft and the path. -/
def Copies (d : ModifyDraft) (path : String) (order : ModifyOrderRequest) : Prop :=
  order.orderId = path ∧ d.newPrice = some order.newPrice ∧
    d.newQuantity = some order.newQuantity ∧ d.clientId = some order.clientId

theorem settled (d : ModifyDraft) (path : String) :
    Settled (some path) d.required (d.Copies path) (d.toRequest path) := by
  have hnames : ["newPrice", "newQuantity", "clientId"].Nodup := by decide
  refine .of_steps hnames (fun p hp hblank => ?_) (fun hpath hne => ?_) (fun hpath hall => ?_)
  · cases hp
    unfold toRequest
    rw [pathName_of_blank hblank]
  · rw [← missing_eq_lacking] at hne ⊢
    unfold toRequest
    rw [pathName_eq_ok_iff.2 ⟨hpath path rfl, rfl⟩]
    simp only
    split
    · rename_i hprice hquantity hclient
      refine absurd ?_ hne
      simp [missing, absentName, hprice, hquantity, hclient]
    · rfl
  · simp only [lacking_eq_nil_iff, required, List.forall_mem_cons, Option.isSome_iff_exists] at hall
    obtain ⟨⟨newPrice, hprice⟩, ⟨newQuantity, hquantity⟩, ⟨clientId, hclient⟩, -⟩ := hall
    refine ⟨⟨path, newPrice, newQuantity, clientId⟩, ?_, rfl, hprice, hquantity, hclient⟩
    exact toRequest_eq_ok_iff.2
      ⟨hpath path rfl, newPrice, newQuantity, clientId, hprice, hquantity, hclient, rfl⟩

end ModifyDraft

/-- **What becomes of each of the three drafts**, whatever the values are that are there: a new
order needs everything but its type, which is empty if it is missing; the other two take the order
from the path as it is. -/
theorem drafts_settled :
    (∀ d : SubmitDraft, Settled none d.required d.Copies d.toRequest) ∧
    (∀ (d : CancelDraft) (path : String),
      Settled (some path) d.required (d.Copies path) (d.toRequest path)) ∧
    ∀ (d : ModifyDraft) (path : String),
      Settled (some path) d.required (d.Copies path) (d.toRequest path) :=
  ⟨SubmitDraft.settled, CancelDraft.settled, ModifyDraft.settled⟩

end OrderRelay
