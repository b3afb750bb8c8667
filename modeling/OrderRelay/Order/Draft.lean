import OrderRelay.Message.Json
import OrderRelay.Message.Orders
import OrderRelay.Relay.Error
import OrderRelay.Text.Blank

/-!
# Drafts of orders

A caller's body is a draft: any of its values may be missing, and every value that is there has the
right type. A draft becomes a request once the required values are all there. Whether a price or a
side makes sense is not asked; that is for the engine to say.

* `SubmitDraft`, `CancelDraft`, `ModifyDraft`: the three bodies and how they are read.
* `toRequest`: the request of a draft. Of a draft for an existing order the path names the order;
  the name in the body is ignored.
* `DraftError`: why a draft is no request.
-/

namespace OrderRelay

open Json

/-- Why a draft is no request. -/
inductive DraftError where
  /-- The part of the path that names something is blank. -/
  | blankPath (name : String)
  /-- Required values are missing. -/
  | missing (names : List String)
  deriving DecidableEq, Repr

namespace DraftError

/-- The words for the error. -/
def message : DraftError → String
  | .blankPath name => name ++ " is required in the path"
  | .missing names => "missing required field(s): " ++ ", ".intercalate names

/-- The error as callers see it. -/
def toRelayError (e : DraftError) : RelayError := .invalidRequest e.message

end DraftError

/-- The name in front, if there is no value. -/
def absentName {α : Type} (name : String) : Option α → List String
  | none => [name]
  | some _ => []

/-- A part of the path, which is taken as it is unless it is blank. -/
def pathName (name value : String) : Except DraftError String :=
  if isBlank value then .error (.blankPath name) else .ok value

/-! ## New orders -/

/-- The body of a new order. -/
structure SubmitDraft where
  symbol : Option String
  side : Option String
  orderType : Option String
  price : Option Double
  quantity : Option Int32
  clientId : Option String
  deriving DecidableEq

namespace SubmitDraft

/-- The members of the body. -/
def shape : Shape Scalar :=
  ⟨"struct SubmitOrderBody", .byNull, [
    ⟨["symbol"], .text⟩, ⟨["side"], .text⟩, ⟨["type", "orderType"], .text⟩, ⟨["price"], .double⟩,
    ⟨["quantity"], .int32⟩, ⟨["clientId", "client_id"], .text⟩]⟩

/-- The draft that slots make. -/
def ofSlots : Slots shape.members → SubmitDraft
  | (symbol, side, orderType, price, quantity, clientId, ()) =>
    ⟨symbol.value?, side.value?, orderType.value?, price.value?, quantity.value?, clientId.value?⟩

/-- The draft that a text holds. -/
def ofText (text : Bytes) : Except Json.Error SubmitDraft := (shape.readText text).map ofSlots

/-- The names of the required values that are missing. -/
def missing (d : SubmitDraft) : List String :=
  absentName "symbol" d.symbol ++ absentName "side" d.side ++ absentName "price" d.price
    ++ absentName "quantity" d.quantity ++ absentName "clientId" d.clientId

/-- The request of a draft. The type of the order may be missing, which leaves it empty. -/
def toRequest (d : SubmitDraft) : Except DraftError SubmitOrderRequest :=
  match d.symbol, d.side, d.price, d.quantity, d.clientId with
  | some symbol, some side, some price, some quantity, some clientId =>
    .ok ⟨symbol, side, d.orderType.getD "", price, quantity, clientId⟩
  | _, _, _, _, _ => .error (.missing d.missing)

end SubmitDraft

/-! ## Taking orders back -/

/-- The body of a cancel. -/
structure CancelDraft where
  /-- Read for its type only. -/
  orderId : Option String
  clientId : Option String
  deriving DecidableEq

namespace CancelDraft

/-- A body without any value. -/
def empty : CancelDraft := ⟨none, none⟩

/-- The members of the body. -/
def shape : Shape Scalar :=
  ⟨"struct CancelOrderBody", .byNull, [
    ⟨["orderId", "order_id"], .text⟩, ⟨["clientId", "client_id"], .text⟩]⟩

/-- The draft that slots make. -/
def ofSlots : Slots shape.members → CancelDraft
  | (orderId, clientId, ()) => ⟨orderId.value?, clientId.value?⟩

/-- The draft that a text holds. -/
def ofText (text : Bytes) : Except Json.Error CancelDraft := (shape.readText text).map ofSlots

/-- The names of the required values that are missing. -/
def missing (d : CancelDraft) : List String := absentName "clientId" d.clientId

/-- The request of a draft for the order that the path names. -/
def toRequest (d : CancelDraft) (path : String) : Except DraftError CancelOrderRequest :=
  match pathName "orderId" path with
  | .error e => .error e
  | .ok orderId =>
    match d.clientId with
    | some clientId => .ok ⟨orderId, clientId⟩
    | none => .error (.missing d.missing)

end CancelDraft

/-! ## Changing orders -/

/-- The body of a modify. -/
structure ModifyDraft where
  /-- Read for its type only. -/
  orderId : Option String
  newPrice : Option Double
  newQuantity : Option Int32
  clientId : Option String
  deriving DecidableEq

namespace ModifyDraft

/-- The members of the body. -/
def shape : Shape Scalar :=
  ⟨"struct ModifyOrderBody", .byNull, [
    ⟨["orderId", "order_id"], .text⟩, ⟨["newPrice", "new_price"], .double⟩,
    ⟨["newQuantity", "new_quantity"], .int32⟩, ⟨["clientId", "client_id"], .text⟩]⟩

/-- The draft that slots make. -/
def ofSlots : Slots shape.members → ModifyDraft
  | (orderId, newPrice, newQuantity, clientId, ()) =>
    ⟨orderId.value?, newPrice.value?, newQuantity.value?, clientId.value?⟩

/-- The draft that a text holds. -/
def ofText (text : Bytes) : Except Json.Error ModifyDraft := (shape.readText text).map ofSlots

/-- The names of the required values that are missing. -/
def missing (d : ModifyDraft) : List String :=
  absentName "newPrice" d.newPrice ++ absentName "newQuantity" d.newQuantity
    ++ absentName "clientId" d.clientId

/-- The request of a draft for the order that the path names. -/
def toRequest (d : ModifyDraft) (path : String) : Except DraftError ModifyOrderRequest :=
  match pathName "orderId" path with
  | .error e => .error e
  | .ok orderId =>
    match d.newPrice, d.newQuantity, d.clientId with
    | some newPrice, some newQuantity, some clientId =>
      .ok ⟨orderId, newPrice, newQuantity, clientId⟩
    | _, _, _ => .error (.missing d.missing)

end ModifyDraft

/-! ## Requests without a body -/

/-- The request for the order book of the symbol in the path. -/
def orderBookRequest (symbol : String) : Except DraftError GetOrderBookRequest :=
  (pathName "symbol" symbol).map (⟨·⟩)

/-- The request for the trades of the symbol in the path. -/
def tradesRequest (symbol : String) : Except DraftError SubscribeTradesRequest :=
  (pathName "symbol" symbol).map (⟨·⟩)

end OrderRelay
