import OrderRelay.Command.ClientLine
import OrderRelay.Http.Message
import OrderRelay.Http.Uri
import OrderRelay.Http.Url
import OrderRelay.Json.Value

/-!
# Requests of the client

A command becomes one request. The symbol or the order that it names is written into the address as
it is.

* `ClientCommand.method`, `ClientCommand.path`, `ClientCommand.body?`: the parts of the request.
* `ClientLine.request?`: the request, unless its address or its id cannot be sent.
-/

namespace OrderRelay

open Http Json

namespace ClientCommand

/-- The method of a command. -/
def method : ClientCommand → String
  | .submit .. | .cancel .. => "POST"
  | .modify .. => "PATCH"
  | .book _ | .health => "GET"

/-- The end of the address of a command. -/
def path : ClientCommand → String
  | .submit .. => "/v1/orders"
  | .book symbol => "/v1/orderbook/" ++ symbol
  | .cancel orderId _ => "/v1/orders/" ++ orderId ++ ":cancel"
  | .modify orderId .. => "/v1/orders/" ++ orderId
  | .health => "/health"

/-- The body of a command; its members are in the order of their names. -/
def body? : ClientCommand → Option Value
  | .submit symbol side price quantity orderType clientId => some <| .object [
      ("clientId", .text clientId), ("price", .ofDouble price),
      ("quantity", .ofInt quantity.toInt), ("side", .text side), ("symbol", .text symbol),
      ("type", .text orderType)]
  | .cancel _ clientId => some <| .object [("clientId", .text clientId)]
  | .modify _ newPrice newQuantity clientId => some <| .object [
      ("clientId", .text clientId), ("newPrice", .ofDouble newPrice),
      ("newQuantity", .ofInt newQuantity.toInt)]
  | .book _ | .health => none

end ClientCommand

namespace ClientLine

/-- A text without the slashes at its end. -/
def withoutSlashes (s : String) : String :=
  String.ofList (s.toList.reverse.dropWhile (· == '/')).reverse

/-- The address of the request, as it is written. -/
def address (l : ClientLine) : String := withoutSlashes l.url ++ l.command.path

/-- The headers of a body. -/
def bodyHeaders (body : Bytes) : Headers :=
  [("content-type", Utf8.encode "application/json"),
    ("content-length", Utf8.encode (natText body.length))]

/-- The header with the id of the request; no result if the id cannot be sent. -/
def idHeaders? : Option String → Option Headers
  | none => some []
  | some id =>
    let value := Utf8.encode id
    if value.all fun b => (0x20 ≤ b && b != 0x7F) || b == 0x09 then some [(RequestId.header, value)]
    else none

/-- What the request is sent to; no result if the address is none or too long. -/
def url? (l : ClientLine) : Option Url :=
  (Url.parse? l.address).filter (·.octets.length ≤ Uri.maxLength)

/-- The request, unless its address or its id cannot be sent. -/
def request? (l : ClientLine) : Option Request :=
  match l.url?, idHeaders? l.requestId with
  | some url, some idHeaders =>
    match l.command.body? with
    | none => some ⟨l.command.method, url.target, idHeaders, []⟩
    | some value =>
      let body := Utf8.encode value.compact
      some ⟨l.command.method, url.target, bodyHeaders body ++ idHeaders, body⟩
  | _, _ => none

end ClientLine

end OrderRelay
