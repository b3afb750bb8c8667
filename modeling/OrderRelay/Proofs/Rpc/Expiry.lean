import OrderRelay.Proofs.Relay.Endings
import OrderRelay.Proofs.Rpc.Deadlines

/-!
# Deadlines that run out

Two timers keep the time of an operation: that of the relay, and that of the caller's side of the
link, which runs for the time that goes out with the call. They are started one after the other and
are not equally long, since what goes out is rounded down. Each of them has its own words for a call
that it ends.

* `Unanswered`: a call goes out and finds no reply in time.
* `order_of_unanswered`: how the side of the link ends such a call.
* `Engine.later`: an engine whose calls go out some time after they have been made.
* `expiry_reported`: **which timer is reported as a deadline that has run out**: that of the relay,
  and not that of the link.
-/

namespace OrderRelay

/-- **A deadline has run out**, as a caller is told. -/
def RelayError.SaysExpired (e : RelayError) : Prop := e.code = "BACKEND_TIMEOUT" ∧ e.status = 504

/-- The engine has failed for whatever other reason, as a caller is told. -/
def RelayError.SaysFailed (e : RelayError) : Prop := e.code = "BACKEND_ERROR" ∧ e.status = 502

theorem RelayError.SaysFailed.not_saysExpired {e : RelayError} (h : e.SaysFailed) :
    ¬e.SaysExpired := by
  rintro ⟨-, hstatus⟩
  rw [h.2] at hstatus
  cases hstatus

theorem RelayError.saysExpired_timeout (micros : ℕ) : (RelayError.timeout micros).SaysExpired :=
  ⟨rfl, rfl⟩

/-- The engine whose calls go out so many milliseconds after they have been made. -/
def Engine.later (lag : ℕ) (e : Engine) : Engine where
  order op order context :=
    let reply := e.order op order context
    ⟨reply.delay.map (lag + ·), reply.result⟩
  trades request context :=
    let reply := e.trades request context
    ⟨reply.delay.map (lag + ·), reply.result⟩

namespace Rpc

/-- The side of the link does not tell of the deadline but of a failure. -/
theorem saysFailed_gaveUp : (RelayError.engine gaveUpFailure).SaysFailed := ⟨rfl, rfl⟩

/-! ## How long the timer of the link runs -/

/-- It rounds up to whole milliseconds. -/
theorem timerMs_le {t : Timeout} {ms : ℕ} (h : t.nanos ≤ 1000000 * ms) : timerMs t ≤ ms := by
  unfold timerMs
  omega

/-- A deadline in milliseconds that has eight digits at most goes out in full. -/
theorem timerMs_of_short {deadlineMs : ℕ} {t : Timeout} (hshort : deadlineMs ≤ maxCount)
    (h : t.WritesDown (1000000 * deadlineMs)) : timerMs t = deadlineMs := by
  have hunit : t.unit.nanos ≤ 1000000 := by
    by_contra hcoarse
    have hmilli := h.finest .millisecond (Nat.lt_of_not_le hcoarse)
    rw [TimeUnit.nanos, Nat.mul_div_cancel_left _ (by decide)] at hmilli
    omega
  -- what is rounded off is less than a millisecond, so the timer runs on into the last one
  have hle := h.not_longer
  have hclose := h.close
  unfold timerMs
  omega

/-! ## Calls without a reply -/

/-- Nothing comes back for so many milliseconds: a reply comes later, or never. -/
def Arrival.SilentFor (ms : ℕ) : Arrival → Prop
  | .refused => False
  | .silent => True
  | .replied delay _ => ms < delay

/-- **A call finds no reply** for so many milliseconds, although it goes out over an open link. -/
structure Unanswered (network : Network) (link : Link) (c : EngineCall) (ms : ℕ) : Prop where
  isOpen : link.isOpen = true
  silent : ∃ out, Request.ofCall? c = some out ∧ (network out).SilentFor ms

variable {network : Network} {link : Link} {op : Operation} {order : op.Request}
  {context : CallContext} {ms : ℕ}

/-- **The side of the link ends a call** when its timer has run out. -/
theorem order_of_unanswered (h : Unanswered network link ⟨.order op order, context⟩ ms) {micros : ℕ}
    (hdeadline : context.deadlineMicros = some micros) (hms : micros ≤ 1000 * ms) :
    ∃ t, Timeout.ofNanos? (1000 * micros) = some t ∧
      (engine network link).order op order context = ⟨some (timerMs t), .error gaveUpFailure⟩ := by
  obtain ⟨out, hout, hsilent⟩ := h.silent
  have hsent := hout
  unfold Request.ofCall? timeout? at hsent
  simp only [hdeadline, Option.map_map] at hsent
  obtain ⟨t, ht, rfl⟩ := Option.map_eq_some_iff.1 hsent
  have htimer : timerMs t ≤ ms :=
    timerMs_le (Nat.le_trans (Timeout.writesDown_of_ofNanos? ht).not_longer (by omega))
  refine ⟨t, ht, ?_⟩
  unfold engine call
  simp only
  rw [if_pos h.isOpen, hout]
  simp only
  cases harrival : network _ with
  | refused => rw [harrival] at hsilent; exact hsilent.elim
  | silent => rfl
  | replied delay reply =>
    rw [harrival] at hsilent
    have hdelay : ms < delay := hsilent
    have hlate : ¬delay ≤ timerMs t := by omega
    simp only [giveUp, Function.comp_apply, Option.any_some, decide_eq_true_eq, if_neg hlate]

/-! ## Which timer ends a call -/

/-- The relay whose calls go out over a link so many milliseconds after they have been made. -/
def relayOver (network : Network) (link : Link) (deadlineMs lag : ℕ) : Relay :=
  ⟨deadlineMs, (engine network link).later lag⟩

/-- **The relay ends a call** with whichever timer has run out first; that of the link wins a
tie. -/
theorem relayed_of_unanswered {deadlineMs lag : ℕ} {id : String}
    (h : Unanswered network link
      ((relayOver network link deadlineMs lag).call id (.order op order)) deadlineMs) :
    ∃ t, Timeout.ofNanos? (1000000 * deadlineMs) = some t ∧
      (relayOver network link deadlineMs lag).order id op order =
        if lag + timerMs t ≤ deadlineMs then (lag + timerMs t, .error (.engine gaveUpFailure))
        else (deadlineMs, .error (.timeout (1000 * deadlineMs))) := by
  have hdeadline : (⟨id, some (1000 * deadlineMs)⟩ : CallContext).deadlineMicros =
      some (1000 * deadlineMs) := rfl
  obtain ⟨t, ht, hreply⟩ := order_of_unanswered h hdeadline (Nat.le_refl _)
  have hnanos : 1000 * (1000 * deadlineMs) = 1000000 * deadlineMs := by omega
  have hlate : ((engine network link).later lag).order op order ⟨id, some (1000 * deadlineMs)⟩ =
      ⟨some (lag + timerMs t), .error gaveUpFailure⟩ := by
    unfold Engine.later
    simp only
    rw [show (engine network link).order op order ⟨id, some (1000 * deadlineMs)⟩ = _ from hreply]
    rfl
  refine ⟨t, hnanos ▸ ht, ?_⟩
  unfold Relay.order relayOver Relay.orderContext
  simp only [hlate]
  by_cases hfirst : lag + timerMs t ≤ deadlineMs
  · rw [if_pos hfirst, settle_of_le rfl hfirst]
    rfl
  · rw [if_neg hfirst, settle_of_lt (Nat.cast_lt.2 (Nat.lt_of_not_le hfirst))]

/-- **Which timer is reported as a deadline that has run out.** Let an operation go out over an open
link and find no reply within its deadline.

* A call that is made past the relay is ended by the timer of the link, and said to have failed.
* A call that the relay makes goes out some time later than the timer of the relay is started. If the
  timer of the relay is the first to run out, the deadline is said to have run out; otherwise the call
  is said to have failed. The timer of the link runs as long as that of the relay for deadlines of at
  most eight digits, and never longer. -/
theorem expiry_reported (network : Network) (link : Link) (id : String) (op : Operation)
    (order : op.Request) :
    (∀ micros, Unanswered network link ⟨.order op order, ⟨id, some micros⟩⟩ ((micros + 999) / 1000) →
      ∃ (delay : ℕ) (failure : EngineFailure),
        (engine network link).order op order ⟨id, some micros⟩ = ⟨some delay, .error failure⟩ ∧
          (RelayError.engine failure).SaysFailed) ∧
    ∀ deadlineMs lag, Unanswered network link
        ((relayOver network link deadlineMs lag).call id (.order op order)) deadlineMs →
      ∃ t e, Timeout.ofNanos? (1000000 * deadlineMs) = some t ∧
        timerMs t ≤ deadlineMs ∧ (deadlineMs ≤ maxCount → timerMs t = deadlineMs) ∧
        ((relayOver network link deadlineMs lag).order id op order).2 = .error e ∧
        (e.SaysExpired ↔ deadlineMs < lag + timerMs t) ∧
        (e.SaysFailed ↔ lag + timerMs t ≤ deadlineMs) := by
  refine ⟨fun micros h => ?_, fun deadlineMs lag h => ?_⟩
  · obtain ⟨t, -, hreply⟩ := order_of_unanswered h rfl (by omega)
    exact ⟨timerMs t, gaveUpFailure, hreply, saysFailed_gaveUp⟩
  · obtain ⟨t, ht, horder⟩ := relayed_of_unanswered h
    have hdown := Timeout.writesDown_of_ofNanos? ht
    have hle : timerMs t ≤ deadlineMs := timerMs_le hdown.not_longer
    have hfull : deadlineMs ≤ maxCount → timerMs t = deadlineMs := fun hshort =>
      timerMs_of_short hshort hdown
    by_cases hfirst : lag + timerMs t ≤ deadlineMs
    · rw [if_pos hfirst] at horder
      exact ⟨t, .engine gaveUpFailure, ht, hle, hfull, by rw [horder],
        iff_of_false saysFailed_gaveUp.not_saysExpired (by omega),
        iff_of_true saysFailed_gaveUp hfirst⟩
    · rw [if_neg hfirst] at horder
      have hexpired := RelayError.saysExpired_timeout (1000 * deadlineMs)
      exact ⟨t, .timeout (1000 * deadlineMs), ht, hle, hfull, by rw [horder],
        iff_of_true hexpired (by omega),
        iff_of_false (fun hfail => hfail.not_saysExpired hexpired) hfirst⟩

/-- A network in which every reply takes ten seconds and says nothing. -/
def sluggishNetwork : Network := fun _ => .replied 10000 ⟨200, [], [], none⟩

/-- A link over which calls can go out. -/
def openLink : Link := ⟨"localhost:50051", true⟩

theorem unanswered_sluggish {context : CallContext} {micros ms : ℕ}
    (hdeadline : context.deadlineMicros = some micros) (hmicros : micros ≤ 9000000)
    (hms : ms ≤ 9000) :
    Unanswered sluggishNetwork openLink ⟨.order .getOrderBook ⟨"A"⟩, context⟩ ms := by
  obtain ⟨out, hout⟩ := Option.isSome_iff_exists.1
    (isSome_ofCall? (c := ⟨.order .getOrderBook ⟨"A"⟩, context⟩) fun micros' h => by
      obtain rfl := Option.some.inj (hdeadline.symm.trans h)
      omega)
  exact ⟨rfl, out, hout, Nat.lt_of_le_of_lt hms (by decide)⟩

/-- With five seconds to go and a reply that takes ten, a call that goes out a millisecond late runs
into its deadline; one that goes out at once, and one that is made past the relay, have failed. -/
theorem expiry_reported_five_seconds :
    (∃ e, ((relayOver sluggishNetwork openLink 5000 1).order "r1" .getOrderBook ⟨"A"⟩).2 = .error e ∧
      e.SaysExpired) ∧
    (∃ e, ((relayOver sluggishNetwork openLink 5000 0).order "r1" .getOrderBook ⟨"A"⟩).2 = .error e ∧
      e.SaysFailed) ∧
    ∃ (delay : ℕ) (failure : EngineFailure),
      (engine sluggishNetwork openLink).order .getOrderBook ⟨"A"⟩ ⟨"r1", some 5000000⟩ =
        ⟨some delay, .error failure⟩ ∧ (RelayError.engine failure).SaysFailed := by
  obtain ⟨hpast, hrelay⟩ := expiry_reported sluggishNetwork openLink "r1" .getOrderBook ⟨"A"⟩
  refine ⟨?_, ?_, hpast 5000000 (unanswered_sluggish rfl (by decide) (by decide))⟩
  · obtain ⟨t, e, -, -, hfull, he, hexpired, -⟩ :=
      hrelay 5000 1 (unanswered_sluggish rfl (by decide) (by decide))
    have := hfull (by decide)
    exact ⟨e, he, hexpired.2 (by omega)⟩
  · obtain ⟨t, e, -, -, hfull, he, -, hfailed⟩ :=
      hrelay 5000 0 (unanswered_sluggish rfl (by decide) (by decide))
    have := hfull (by decide)
    exact ⟨e, he, hfailed.2 (by omega)⟩

/-- Not every deadline that runs out is reported as one. -/
theorem not_every_expiry_reported :
    ¬∀ (network : Network) (link : Link) (op : Operation) (order : op.Request) (id : String)
      (micros : ℕ),
        Unanswered network link ⟨.order op order, ⟨id, some micros⟩⟩ ((micros + 999) / 1000) →
        ∃ (delay : ℕ) (failure : EngineFailure),
          (engine network link).order op order ⟨id, some micros⟩ = ⟨some delay, .error failure⟩ ∧
            (RelayError.engine failure).SaysExpired := by
  intro hall
  have hsilent : Unanswered sluggishNetwork openLink ⟨.order .getOrderBook ⟨"A"⟩, ⟨"r1", some 5000000⟩⟩
      5000 := unanswered_sluggish rfl (by decide) (by decide)
  obtain ⟨delay, failure, hreply, hexpired⟩ := hall _ _ .getOrderBook ⟨"A"⟩ "r1" 5000000 hsilent
  obtain ⟨t, -, hgaveUp⟩ := order_of_unanswered hsilent rfl (by decide)
  rw [hgaveUp] at hreply
  obtain rfl : gaveUpFailure = failure := by
    simpa using congrArg EngineReply.result hreply
  exact saysFailed_gaveUp.not_saysExpired hexpired

end Rpc

end OrderRelay
