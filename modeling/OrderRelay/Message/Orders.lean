import OrderRelay.Message.Schema

/-!
# The messages of the order engine

The eleven messages that go to and come from the order engine, each with its schema. A price is a
double, a quantity a 32-bit integer, and all else is text, the time of a trade included.
-/

namespace OrderRelay

/-- A schema field that holds one value. -/
def Field.one (name label : String) (number : Nat) (s : Scalar) : Field Kind :=
  ⟨name, label, number, .one s⟩

/-- A new order. -/
structure SubmitOrderRequest where
  symbol : String
  side : String
  orderType : String
  price : Double
  quantity : Int32
  clientId : String
  deriving DecidableEq

instance : Message SubmitOrderRequest where
  schema := ⟨"SubmitOrderRequest", [
    .one "symbol" "symbol" 1 .text,
    .one "side" "side" 2 .text,
    .one "order_type" "type" 3 .text,
    .one "price" "price" 4 .double,
    .one "quantity" "quantity" 5 .int32,
    .one "client_id" "clientId" 6 .text]⟩
  toRecord m := (m.symbol, m.side, m.orderType, m.price, m.quantity, m.clientId, ())
  ofRecord
    | (symbol, side, orderType, price, quantity, clientId, ()) =>
      ⟨symbol, side, orderType, price, quantity, clientId⟩
  ofRecord_toRecord _ := rfl
  toRecord_ofRecord _ := rfl

/-- The engine's word on a new order. -/
structure SubmitOrderResponse where
  orderId : String
  status : String
  message : String
  deriving DecidableEq

instance : Message SubmitOrderResponse where
  schema := ⟨"SubmitOrderResponse", [
    .one "order_id" "orderId" 1 .text,
    .one "status" "status" 2 .text,
    .one "message" "message" 3 .text]⟩
  toRecord m := (m.orderId, m.status, m.message, ())
  ofRecord
    | (orderId, status, message, ()) => ⟨orderId, status, message⟩
  ofRecord_toRecord _ := rfl
  toRecord_ofRecord _ := rfl

/-- Asks for the open orders of a symbol. -/
structure GetOrderBookRequest where
  symbol : String
  deriving DecidableEq

instance : Message GetOrderBookRequest where
  schema := ⟨"GetOrderBookRequest", [
    .one "symbol" "symbol" 1 .text]⟩
  toRecord m := (m.symbol, ())
  ofRecord
    | (symbol, ()) => ⟨symbol⟩
  ofRecord_toRecord _ := rfl
  toRecord_ofRecord _ := rfl

/-- The quantity on offer at one price. -/
structure OrderBookEntry where
  price : Double
  quantity : Int32
  deriving DecidableEq

/-- The fields of an entry of the order book, as the entry of a list. -/
def OrderBookEntry.row : Schema Scalar :=
  ⟨"OrderBookEntry", [⟨"price", "price", 1, .double⟩, ⟨"quantity", "quantity", 2, .int32⟩]⟩

instance : Message OrderBookEntry where
  schema := ⟨OrderBookEntry.row.name, OrderBookEntry.row.fields.map Field.single⟩
  toRecord m := (m.price, m.quantity, ())
  ofRecord
    | (price, quantity, ()) => ⟨price, quantity⟩
  ofRecord_toRecord _ := rfl
  toRecord_ofRecord _ := rfl

/-- The open orders of a symbol, by side. -/
structure GetOrderBookResponse where
  bids : List OrderBookEntry
  asks : List OrderBookEntry
  deriving DecidableEq

/-- The record of an entry of the order book. -/
def OrderBookEntry.toRow (e : OrderBookEntry) : Record OrderBookEntry.row.fields :=
  (e.price, e.quantity, ())

/-- The entry of the order book that a record stands for. -/
def OrderBookEntry.ofRow : Record OrderBookEntry.row.fields → OrderBookEntry
  | (price, quantity, ()) => ⟨price, quantity⟩

theorem OrderBookEntry.map_ofRow_toRow (es : List OrderBookEntry) :
    (es.map toRow).map ofRow = es := by
  simp [Function.comp_def, toRow, ofRow]

theorem OrderBookEntry.map_toRow_ofRow (rs : List (Record OrderBookEntry.row.fields)) :
    (rs.map ofRow).map toRow = rs := by
  rw [List.map_map]
  exact List.map_id' rs

instance : Message GetOrderBookResponse where
  schema := ⟨"GetOrderBookResponse",
    [⟨"bids", "bids", 1, .many OrderBookEntry.row⟩, ⟨"asks", "asks", 2, .many OrderBookEntry.row⟩]⟩
  toRecord m := (m.bids.map OrderBookEntry.toRow, m.asks.map OrderBookEntry.toRow, ())
  ofRecord
    | (bids, asks, ()) => ⟨bids.map OrderBookEntry.ofRow, asks.map OrderBookEntry.ofRow⟩
  ofRecord_toRecord m := by
    cases m
    simp only [OrderBookEntry.map_ofRow_toRow]
  toRecord_ofRecord r := by
    obtain ⟨bids, asks, ⟨⟩⟩ := r
    simp only [OrderBookEntry.map_toRow_ofRow]
    rfl

/-- Takes an order back. -/
structure CancelOrderRequest where
  orderId : String
  clientId : String
  deriving DecidableEq

instance : Message CancelOrderRequest where
  schema := ⟨"CancelOrderRequest", [
    .one "order_id" "orderId" 1 .text,
    .one "client_id" "clientId" 2 .text]⟩
  toRecord m := (m.orderId, m.clientId, ())
  ofRecord
    | (orderId, clientId, ()) => ⟨orderId, clientId⟩
  ofRecord_toRecord _ := rfl
  toRecord_ofRecord _ := rfl

/-- The engine's word on a cancelled order. -/
structure CancelOrderResponse where
  status : String
  message : String
  deriving DecidableEq

instance : Message CancelOrderResponse where
  schema := ⟨"CancelOrderResponse", [
    .one "status" "status" 1 .text,
    .one "message" "message" 2 .text]⟩
  toRecord m := (m.status, m.message, ())
  ofRecord
    | (status, message, ()) => ⟨status, message⟩
  ofRecord_toRecord _ := rfl
  toRecord_ofRecord _ := rfl

/-- Changes the price and quantity of an order. -/
structure ModifyOrderRequest where
  orderId : String
  newPrice : Double
  newQuantity : Int32
  clientId : String
  deriving DecidableEq

instance : Message ModifyOrderRequest where
  schema := ⟨"ModifyOrderRequest", [
    .one "order_id" "orderId" 1 .text,
    .one "new_price" "newPrice" 2 .double,
    .one "new_quantity" "newQuantity" 3 .int32,
    .one "client_id" "clientId" 4 .text]⟩
  toRecord m := (m.orderId, m.newPrice, m.newQuantity, m.clientId, ())
  ofRecord
    | (orderId, newPrice, newQuantity, clientId, ()) => ⟨orderId, newPrice, newQuantity, clientId⟩
  ofRecord_toRecord _ := rfl
  toRecord_ofRecord _ := rfl

/-- The engine's word on a changed order. -/
structure ModifyOrderResponse where
  status : String
  message : String
  deriving DecidableEq

instance : Message ModifyOrderResponse where
  schema := ⟨"ModifyOrderResponse", [
    .one "status" "status" 1 .text,
    .one "message" "message" 2 .text]⟩
  toRecord m := (m.status, m.message, ())
  ofRecord
    | (status, message, ()) => ⟨status, message⟩
  ofRecord_toRecord _ := rfl
  toRecord_ofRecord _ := rfl

/-- Asks for the trades of a symbol as they happen. -/
structure SubscribeTradesRequest where
  symbol : String
  deriving DecidableEq

instance : Message SubscribeTradesRequest where
  schema := ⟨"SubscribeTradesRequest", [
    .one "symbol" "symbol" 1 .text]⟩
  toRecord m := (m.symbol, ())
  ofRecord
    | (symbol, ()) => ⟨symbol⟩
  ofRecord_toRecord _ := rfl
  toRecord_ofRecord _ := rfl

/-- A trade. -/
structure TradeUpdate where
  buyOrderId : String
  sellOrderId : String
  price : Double
  quantity : Int32
  symbol : String
  timestamp : String
  deriving DecidableEq

instance : Message TradeUpdate where
  schema := ⟨"TradeUpdate", [
    .one "buy_order_id" "buyOrderId" 1 .text,
    .one "sell_order_id" "sellOrderId" 2 .text,
    .one "price" "price" 3 .double,
    .one "quantity" "quantity" 4 .int32,
    .one "symbol" "symbol" 5 .text,
    .one "timestamp" "timestamp" 6 .text]⟩
  toRecord m := (m.buyOrderId, m.sellOrderId, m.price, m.quantity, m.symbol, m.timestamp, ())
  ofRecord
    | (buyOrderId, sellOrderId, price, quantity, symbol, timestamp, ()) =>
      ⟨buyOrderId, sellOrderId, price, quantity, symbol, timestamp⟩
  ofRecord_toRecord _ := rfl
  toRecord_ofRecord _ := rfl

end OrderRelay
