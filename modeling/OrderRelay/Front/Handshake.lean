import OrderRelay.Http.Message
import OrderRelay.Text.Case

/-!
# Handshakes

A client that wants trades asks to change from HTTP to WebSocket. The request must say so in several
headers, and the connection must be one that can change.

* `Handshake.fault?`: the first thing that is wrong with a request.
* `Handshake.accepted`: the response to a request with which nothing is wrong.
-/

namespace OrderRelay.Handshake

open Http

/-- What can be wrong with a handshake. -/
inductive Fault where
  | method
  | connection
  | upgrade
  | key
  | version
  /-- The connection cannot change. -/
  | transport
  deriving DecidableEq, Repr

namespace Fault

/-- The status of the response. -/
def status : Fault → Nat
  | .method => 405
  | .transport => 426
  | _ => 400

/-- The words for a fault. -/
def message : Fault → String
  | .method => "Request method must be `GET`"
  | .connection => "Connection header did not include 'upgrade'"
  | .upgrade => "`Upgrade` header did not include 'websocket'"
  | .key => "`Sec-WebSocket-Key` header missing"
  | .version => "`Sec-WebSocket-Version` header did not include '13'"
  | .transport => "WebSocket request couldn't be upgraded since no upgrade state was present"

end Fault

/-- Whether a list holds another one in one piece. -/
def holds {α : Type} [BEq α] (part : List α) : List α → Bool
  | [] => part.isEmpty
  | c :: cs => part.isPrefixOf (c :: cs) || holds part cs

/-- Whether the first header of a name holds a word. -/
def mentions (hs : Headers) (name word : String) : Bool :=
  match (hs.first? name).bind Utf8.decode? with
  | some text => holds word.toList (lowerAscii text).toList
  | none => false

/-- Whether the first header of a name is a word. -/
def names (hs : Headers) (name word : String) : Bool :=
  match (hs.first? name).bind Utf8.decode? with
  | some text => sameAscii text word
  | none => false

/-- The first thing that is wrong with a request. -/
def fault? (canUpgrade : Bool) (r : Request) : Option Fault :=
  if r.method != "GET" then some .method
  else if !mentions r.headers "connection" "upgrade" then some .connection
  else if !names r.headers "upgrade" "websocket" then some .upgrade
  else if (r.headers.first? "sec-websocket-key").isNone then some .key
  else if !names r.headers "sec-websocket-version" "13" then some .version
  else if !canUpgrade then some .transport
  else none

/-- The response that changes the connection. -/
def accepted : Response :=
  ⟨101, [("connection", Utf8.encode "upgrade"), ("upgrade", Utf8.encode "websocket")], []⟩

end OrderRelay.Handshake
