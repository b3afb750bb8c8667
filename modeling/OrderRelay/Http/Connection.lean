import OrderRelay.Http.Message
import OrderRelay.Text.Blank
import OrderRelay.Text.Case

/-!
# Connections

What a connection adds to a response on its way: a length if there is none, since the other side has
to know where the body ends, and a word if the connection is closed after it.

* `Request.closes`: whether the connection is closed after the response.
* `Response.over`: the response as it arrives.
-/

namespace OrderRelay.Http

/-- The parts of a list between commas, without the blanks around them. -/
def commaParts (cs : List Char) : List String :=
  (go [] cs).map fun part => trimBlanks (String.ofList part)
where
  /-- The characters of the part so far, last first. -/
  go (part : List Char) : List Char → List (List Char)
    | [] => [part.reverse]
    | ',' :: rest => part.reverse :: go [] rest
    | c :: rest => go (c :: part) rest

/-- Whether the connection is closed after the response. -/
def Request.closes (r : Request) : Bool :=
  (r.headers.values "connection").any fun value =>
    match visibleText? value with
    | some text => (commaParts text.toList).any (sameAscii · "close")
    | none => false

/-- The response as it arrives. -/
def Response.over (r : Response) (request : Request) : Response :=
  let r := if r.status < 200 || (r.headers.first? "content-length").isSome then r else r.measured
  if request.closes && (r.headers.first? "connection").isNone then
    r.set "connection" (Utf8.encode "close")
  else r

end OrderRelay.Http
