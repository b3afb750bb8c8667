import OrderRelay.Link.Basic
import OrderRelay.Rpc.Reply
import OrderRelay.Rpc.Request

/-!
# The engine at the other end of a link

A call goes out over the link if the link is open, and may come back with a reply. The caller's side
of the link keeps the time that a call may take, and gives the call up when the time is over.

* `Rpc.outgoing?`: what goes out over a link for a call.
* `Rpc.giveUp`: what is left of a reply when the time of the call is kept.
* `Rpc.engine`: the engine at the other end of a link.
-/

namespace OrderRelay.Rpc

/-- What comes back for a call. -/
inductive Arrival where
  /-- Nobody listens at the address. -/
  | refused
  /-- There is never a reply. -/
  | silent
  /-- A reply after so many milliseconds. -/
  | replied (delay : Nat) (reply : Reply)

/-- What lies beyond the link. -/
abbrev Network := Request → Arrival

/-- A network in which nobody listens. -/
def Network.empty : Network := fun _ => .refused

/-- What goes out over a link for a call. -/
def outgoing? (link : Link) (c : EngineCall) : Option Request :=
  if link.isOpen then Request.ofCall? c else none

/-- The failure of a call that nobody receives. -/
def refusedFailure : EngineFailure := .unavailable "tcp connect error"

/-- The failure of a call that is given up. -/
def gaveUpFailure : EngineFailure := .ofStatus .cancelled "Timeout expired"

/-- No reply ever comes; a call that waits for one can only be given up. -/
def silence {α : Type} : EngineReply α := ⟨none, .error gaveUpFailure⟩

/-- A timer for a time, in whole milliseconds; it never runs short. -/
def timerMs (t : Timeout) : Nat := (t.nanos + 999999) / 1000000

/-- What is left of a reply when the time of the call is kept. A reply at the very moment of the end
still counts. -/
def giveUp {α : Type} (timeout : Option Timeout) (reply : EngineReply α) : EngineReply α :=
  match timeout with
  | none => reply
  | some t =>
    if reply.delay.any (· ≤ timerMs t) then reply else ⟨some (timerMs t), .error gaveUpFailure⟩

/-- What becomes of a call that has a reader for its reply. A call whose time cannot be written does
not go out, so that no reply comes. -/
def call {α : Type} (network : Network) (link : Link) (read : Reply → Except EngineFailure α)
    (c : EngineCall) : EngineReply α :=
  if link.isOpen then
    match Request.ofCall? c with
    | none => silence
    | some request =>
      match network request with
      | .refused => ⟨some 0, .error refusedFailure⟩
      | .silent => giveUp request.timeout silence
      | .replied delay reply => giveUp request.timeout ⟨some delay, read reply⟩
  else ⟨some 0, .error .linkClosed⟩

/-- The engine at the other end of a link. -/
def engine (network : Network) (link : Link) : Engine where
  order op request context :=
    call network link (Reply.single op.Response) ⟨.order op request, context⟩
  trades request context :=
    call network link (fun r => r.feed.map (⟨·, true⟩)) ⟨.trades request, context⟩

end OrderRelay.Rpc
