import OrderRelay.Client.Request
import OrderRelay.Http.Status

/-!
# What the client reports

The client shows the body of the response, laid out over several lines if it is JSON, and on the
side the status if it is not one of success and the id of the request. Without a response it fails.

* `Report.ofResponse`: the report on a response.
* `ClientRun.ofWords`: what one run of the client comes to.
-/

namespace OrderRelay

open Http Json

namespace Json.Value

mutual

/-- How many arrays and objects lie within one another. -/
def depth : Value → Nat
  | .array items => depthOfItems items + 1
  | .object members => depthOfMembers members + 1
  | _ => 0

/-- The greatest depth of values. -/
def depthOfItems : List Value → Nat
  | [] => 0
  | v :: vs => max (depth v) (depthOfItems vs)

/-- The greatest depth of members. -/
def depthOfMembers : List (String × Value) → Nat
  | [] => 0
  | (_, v) :: ms => max (depth v) (depthOfMembers ms)

end

/-- Puts a member among members in the order of their names, in place of one of the same name. -/
def insertMember (name : String) (v : Value) : List (String × Value) → List (String × Value)
  | [] => [(name, v)]
  | (n, w) :: ms =>
    if name = n then (name, v) :: ms
    else if name < n then (name, v) :: (n, w) :: ms
    else (n, w) :: insertMember name v ms

/-- A number in the form in which values are written. -/
def ofLiteral (l : Literal) : Value :=
  match l.number with
  | .ok (.whole n) => .ofInt n
  | .ok (.double d) => .ofDouble d
  | .error _ => .number l

mutual

/-- The value with its members in the order of their names; of two of one name the later counts. -/
def sorted : Value → Value
  | .array items => .array (sortedItems items)
  | .object members => .object (sortedMembers [] members)
  | .number l => ofLiteral l
  | v => v

/-- The same for values. -/
def sortedItems : List Value → List Value
  | [] => []
  | v :: vs => sorted v :: sortedItems vs

/-- The same for members, put among those so far. -/
def sortedMembers (soFar : List (String × Value)) : List (String × Value) → List (String × Value)
  | [] => soFar
  | (name, v) :: ms => sortedMembers (insertMember name (sorted v) soFar) ms

end

end Json.Value

/-- What the client shows. -/
structure Report where
  /-- The lines on the side. -/
  notes : List String
  text : String
  exitCode : Nat
  deriving DecidableEq, Repr

/-- Values that lie deeper than this are not laid out. -/
def maxShownDepth : Nat := 127

namespace Report

/-- A body as a text; a byte order mark in front does not count. -/
def bodyText (body : Bytes) : String :=
  Utf8.decodeLossy <| match body with
    | 0xEF :: 0xBB :: 0xBF :: rest => rest
    | body => body

/-- A text laid out over several lines if it is JSON. -/
def laidOut (text : String) : String :=
  match Value.ofText? (Utf8.encode text) with
  | none => text
  | some v => if v.depth ≤ maxShownDepth then v.sorted.pretty else text

/-- The report on a response. -/
def ofResponse (r : Response) : Report :=
  let statusNotes := if isSuccess r.status then []
    else ["Error: gateway returned status " ++ statusText r.status]
  let idNotes := match (r.headers.first? RequestId.header).bind visibleText? with
    | none => []
    | some id => ["Request ID: " ++ id]
  ⟨statusNotes ++ idNotes, laidOut (bodyText r.body), if isSuccess r.status then 0 else 1⟩

end Report

/-- What one run of the client comes to. -/
structure ClientRun where
  exitCode : Nat
  /-- The requests that were answered. -/
  requests : List Request
  report : Option Report

namespace ClientRun

/-- A run without a request that was answered. -/
def silent (exitCode : Nat) : ClientRun := ⟨exitCode, [], none⟩

/-- What one run of the client comes to, where `send` gives the response to a request, if there is
any. -/
def ofWords (send : Request → Option Response) (environmentUrl : Option String) (ws : List String) :
    ClientRun :=
  match ClientLine.ofWords environmentUrl ws with
  | .error stop => silent stop.exitCode
  | .ok line =>
    match line.request? with
    | none => silent 1
    | some request =>
      match send request with
      | none => silent 1
      | some response =>
        let report := Report.ofResponse response
        ⟨report.exitCode, [request], some report⟩

end ClientRun

end OrderRelay
