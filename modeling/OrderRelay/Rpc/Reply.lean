import OrderRelay.Engine.Failure
import OrderRelay.Http.Header
import OrderRelay.Message.Orders
import OrderRelay.Message.Wire
import OrderRelay.Text.Percent

/-!
# Replies to remote calls

A reply is a sequence of framed messages and a status. The status comes after the messages, or alone
in the headers; without any, the HTTP status stands in for it.

* `Status.ofHeaders?`: the status that headers hold.
* `Reply.items`: the messages of a reply, and the failure with which it ends, if it does.
* `Reply.single`: the one message of a reply to an operation.
-/

namespace OrderRelay.Rpc

/-- The status of a call. -/
structure Status where
  code : RpcCode
  message : String
  deriving DecidableEq, Repr

namespace Status

/-- The failure that a status stands for. -/
def failure (s : Status) : EngineFailure := .ofStatus s.code s.message

/-- The code that octets write in decimal; anything else is unknown. -/
def codeOf (bs : Bytes) : RpcCode :=
  match RpcCode.all.zipIdx.find? fun (_, n) => Utf8.encode (natText n) = bs with
  | some (code, _) => code
  | none => .unknown

/-- The status that headers hold. -/
def ofHeaders? (hs : Http.Headers) : Option Status :=
  match hs.first? "grpc-status" with
  | none => none
  | some code =>
    let octets := Percent.decode ((hs.first? "grpc-message").getD [])
    some <| match Utf8.decode? octets with
      | some message => ⟨codeOf code, message⟩
      | none =>
        ⟨.unknown, "Error deserializing status message header: invalid utf-8 sequence of 1 bytes from index "
          ++ natText (Utf8.validLength octets)⟩

/-- The status that stands in for one that is missing; none if all is well. -/
def ofHttp? (status : Nat) : Option Status :=
  let code? : Option RpcCode := match status with
    | 200 => none
    | 400 => some .internal
    | 401 => some .unauthenticated
    | 403 => some .permissionDenied
    | 404 => some .unimplemented
    | 429 | 502 | 503 | 504 => some .unavailable
    | _ => some .unknown
  code?.map fun code =>
    ⟨code, "grpc-status header missing, mapped from HTTP status code " ++ natText status⟩

end Status

/-- A reply to a call. -/
structure Reply where
  httpStatus : Nat
  headers : Http.Headers
  body : Bytes
  /-- What comes after the body; none if the body is the end. -/
  trailers : Option Http.Headers

/-- The greatest length of a message. -/
def maxMessageLength : Nat := 4194304

/-- What is at the front of a body. -/
inductive Taken where
  | message (payload rest : Bytes)
  | failed (status : Status)
  /-- There is no whole message, and so many octets are left over. -/
  | rest (leftOver : Nat)

/-- Takes the first message off a body. -/
def takeMessage : Bytes → Taken
  | flag :: a :: b :: c :: d :: rest =>
    let length := 16777216 * a.toNat + 65536 * b.toNat + 256 * c.toNat + d.toNat
    if flag = 1 then
      .failed ⟨.internal,
        "protocol error: received message with compressed-flag but no grpc-encoding was specified"⟩
    else if flag ≠ 0 then
      .failed ⟨.internal, "protocol error: received message with invalid compression flag: "
        ++ natText flag.toNat ++ " (valid flags are 0 and 1) while receiving response with status: 200 OK"⟩
    else if maxMessageLength < length then
      .failed ⟨.outOfRange, "Error, decoded message length too large: found " ++ natText length
        ++ " bytes, the limit is: " ++ natText maxMessageLength ++ " bytes"⟩
    else if length ≤ rest.length then .message (rest.take length) (rest.drop length)
    else .rest rest.length
  | bs => .rest bs.length

theorem length_lt_of_takeMessage {bs payload rest : Bytes}
    (h : takeMessage bs = .message payload rest) : rest.length < bs.length := by
  unfold takeMessage at h
  split at h
  · simp only at h
    repeat' split at h
    all_goals try contradiction
    simp only [Taken.message.injEq] at h
    rw [← h.2, List.length_drop]
    simp only [List.length_cons]
    omega
  · simp at h

/-- The messages of a body, and either the status that breaks them off or the number of octets left
over. -/
def messagesOf (M : Type) [Message M] (bs : Bytes) : List M × Except Status Nat :=
  match _ : takeMessage bs with
  | .rest leftOver => ([], .ok leftOver)
  | .failed status => ([], .error status)
  | .message payload rest =>
    match Message.decode M payload with
    | .error e => ([], .error ⟨.internal, e.message⟩)
    | .ok m =>
      let (ms, stop) := messagesOf M rest
      (m :: ms, stop)
termination_by bs.length
decreasing_by exact length_lt_of_takeMessage (by assumption)

namespace Reply

/-- The status with which a reply ends after its messages; none if all is well. -/
def endStatus? (r : Reply) (leftOver : Nat) : Option Status :=
  match r.trailers with
  | none =>
    if leftOver = 0 then Status.ofHttp? r.httpStatus
    else some ⟨.internal, "Unexpected EOF decoding stream."⟩
  | some trailers =>
    match Status.ofHeaders? trailers with
    | some s => if s.code = .ok then none else some s
    | none => Status.ofHttp? r.httpStatus

/-- The failure that the headers of a reply hold. -/
def refusal? (r : Reply) : Option EngineFailure :=
  match Status.ofHeaders? r.headers with
  | some s => if s.code = .ok then none else some s.failure
  | none => none

/-- The messages of a reply, and the failure with which it ends, if it does. -/
def items (M : Type) [Message M] (r : Reply) : List M × Option EngineFailure :=
  let (ms, stop) := messagesOf M r.body
  (ms, match stop with
    | .error status => some status.failure
    | .ok leftOver =>
      -- A status of success in the headers is final.
      if (Status.ofHeaders? r.headers).isSome then none
      else (r.endStatus? leftOver).map Status.failure)

/-- The one message of a reply to an operation. Messages after the first must be messages too, but
do not count. -/
def single (M : Type) [Message M] (r : Reply) : Except EngineFailure M :=
  match r.refusal? with
  | some failure => .error failure
  | none =>
    match r.items M with
    | (_, some failure) => .error failure
    | ([], none) => .error (.rpc .internal "Missing response message.")
    | (m :: _, none) => .ok m

/-- The feed of a reply to a subscription. -/
def feed (r : Reply) : Except EngineFailure (List (Except EngineFailure TradeUpdate)) :=
  match r.refusal? with
  | some failure => .error failure
  | none =>
    let (ms, failure) := r.items TradeUpdate
    .ok (ms.map .ok ++ failure.toList.map .error)

end Reply

end OrderRelay.Rpc
