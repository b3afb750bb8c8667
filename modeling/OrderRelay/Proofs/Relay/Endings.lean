import Mathlib.Data.ENat.Lattice
import Mathlib.Tactic.Common
import OrderRelay.Relay.Visit

/-!
# How calls end

A call ends with whatever comes first: the answer of the engine, the end of the deadline,
or that its caller leaves. The earlier of two in this list wins a tie.

* `EngineReply.time`: when the answer of the engine comes, if it ever does.
* `settle_of_le`, `settle_of_lt`: the answer and the deadline.
* `endBy?`: the end that a call has come to by some moment after its start.
* `endBy?_first`: **who always looks finds the end that the call comes to.**
* `Visit.endBy?_first`, `Visit.fits_outcome`: the same for visits, and that they can end so.
-/

namespace OrderRelay

variable {α : Type} {deadlineMs : ℕ} {reply : EngineReply α}

/-! ## The answer and the deadline -/

/-- When a reply comes; never is later than any time. -/
def EngineReply.time (reply : EngineReply α) : ℕ∞ :=
  match reply.delay with
  | some delay => delay
  | none => ⊤

theorem EngineReply.time_le_iff {t : ℕ} :
    reply.time ≤ t ↔ ∃ delay, reply.delay = some delay ∧ delay ≤ t := by
  unfold time
  cases reply.delay with
  | none => simp
  | some delay => simp

theorem settle_of_le {delay : ℕ} (hreply : reply.delay = some delay) (h : delay ≤ deadlineMs) :
    settle deadlineMs reply = (delay, reply.result.mapError .engine) := by
  have hsome : reply.delay.filter (· ≤ deadlineMs) = some delay :=
    Option.filter_eq_some_iff.2 ⟨hreply, decide_eq_true h⟩
  unfold settle
  rw [hsome]

theorem EngineReply.lt_time_iff {t : ℕ} :
    t < reply.time ↔ ∀ delay, reply.delay = some delay → t < delay := by
  rw [← not_le, time_le_iff]
  simp

theorem settle_of_lt (h : deadlineMs < reply.time) :
    settle deadlineMs reply = (deadlineMs, .error (.timeout (1000 * deadlineMs))) := by
  have hnone : reply.delay.filter (· ≤ deadlineMs) = none := by
    rw [Option.filter_eq_none_iff]
    intro delay hreply
    have hlt := EngineReply.lt_time_iff.1 h delay hreply
    simpa using hlt
  unfold settle
  rw [hnone]

/-- **A call ends with the answer or with the deadline**, whichever comes first. -/
theorem settle_fst (deadlineMs : ℕ) (reply : EngineReply α) :
    ((settle deadlineMs reply).1 : ℕ∞) = min reply.time deadlineMs := by
  rcases le_or_gt reply.time deadlineMs with h | h
  · obtain ⟨delay, hreply, hle⟩ := EngineReply.time_le_iff.1 h
    have htime : reply.time = delay := by simp only [EngineReply.time, hreply]
    rw [min_eq_left h, settle_of_le hreply hle, htime]
  · rw [min_eq_right h.le, settle_of_lt h]

/-- A call that fails by itself fails with the engine or with the deadline. -/
theorem settle_isEngineFailure {e : RelayError} (h : (settle deadlineMs reply).2 = .error e) :
    e.isEngineFailure = true := by
  unfold settle at h
  split at h
  · cases hr : reply.result with
    | error failure => rw [hr] at h; cases h; rfl
    | ok a => rw [hr] at h; cases h
  · cases h; rfl

/-- The result of an operation is one that its call can have. -/
theorem order_fits {op : Operation} (order : op.Request) {result : CallResult op.Response}
    (h : ∀ e, result = .error e → e.isEngineFailure = true) :
    (Ending.returned (result.map (.order op))).fits (.order op order) = true := by
  cases result with
  | error e => exact h e rfl
  | ok a => simp [Ending.fits, Except.map, EngineRequest.operation?]

/-! ## Callers who may leave -/

/-- Whoever is still there when the call settles takes its result away. -/
theorem leave_of_le {patience : Option ℕ} {settled : ℕ × CallResult α}
    (h : ∀ t ∈ patience, settled.1 ≤ t) : leave patience settled = .returned settled.2 := by
  unfold leave
  cases patience with
  | none => rfl
  | some t => exact if_pos (h t rfl)

theorem leave_of_lt {t : ℕ} {settled : ℕ × CallResult α} (h : t < settled.1) :
    leave (some t) settled = .dropped := if_neg (by omega)

theorem leave_cases (patience : Option ℕ) (settled : ℕ × CallResult α) :
    leave patience settled = .returned settled.2 ∨ leave patience settled = .dropped := by
  unfold leave
  cases patience with
  | none => exact Or.inl rfl
  | some t => by_cases ht : settled.1 ≤ t <;> simp [ht]

/-- The end that a call has come to by so many milliseconds after its start, if any. -/
def endBy? (deadlineMs : ℕ) (patience : Option ℕ) (reply : EngineReply α) (waited : ℕ) :
    Option (Ending α) :=
  if reply.delay.any (· ≤ waited) then some (.returned (reply.result.mapError .engine))
  else if deadlineMs ≤ waited then some (.returned (.error (.timeout (1000 * deadlineMs))))
  else if patience.any (· ≤ waited) then some .dropped
  else none

/-- A call has come to an end by its deadline at the latest. -/
theorem lt_of_endBy?_eq_none {patience : Option ℕ} {waited : ℕ}
    (h : endBy? deadlineMs patience reply waited = none) : waited < deadlineMs := by
  by_contra hdeadline
  unfold endBy? at h
  rw [if_pos (show deadlineMs ≤ waited by omega)] at h
  split at h <;> cases h

/-- **Who always looks finds the end that the call comes to**, and nothing before. -/
theorem endBy?_first {patience : Option ℕ} {waited : ℕ} {ending : Ending α}
    (hbefore : ∀ w < waited, endBy? deadlineMs patience reply w = none)
    (h : endBy? deadlineMs patience reply waited = some ending) :
    ending = leave patience (settle deadlineMs reply) := by
  -- nothing that ends the call lies before the moment of looking
  have hdelay : ∀ delay, reply.delay = some delay → waited ≤ delay := by
    intro delay hreply
    by_contra hlt
    have hnone := hbefore delay (by omega)
    have hany : reply.delay.any (fun d => decide (d ≤ delay)) = true := by simp [hreply]
    unfold endBy? at hnone
    rw [if_pos hany] at hnone
    cases hnone
  have hdeadline : waited ≤ deadlineMs := by
    by_contra hlt
    have hnone := lt_of_endBy?_eq_none (hbefore deadlineMs (by omega))
    omega
  have hpatience : ∀ t ∈ patience, waited ≤ t := by
    intro t ht
    by_contra hlt
    have hnone := hbefore t (by omega)
    have hany : patience.any (fun p => decide (p ≤ t)) = true := by
      rw [Option.mem_def.1 ht]; simp
    unfold endBy? at hnone
    rw [if_pos hany] at hnone
    split at hnone
    · cases hnone
    · split at hnone <;> cases hnone
  unfold endBy? at h
  by_cases hd : reply.delay.any (· ≤ waited) = true
  · rw [if_pos hd] at h
    obtain rfl := Option.some.inj h
    obtain ⟨delay, hreply, hle⟩ := (Option.any_eq_true _ _).1 hd
    obtain rfl : waited = delay := le_antisymm (hdelay delay hreply) (of_decide_eq_true hle)
    rw [settle_of_le hreply hdeadline, leave_of_le hpatience]
  · rw [if_neg hd] at h
    have hlate : waited < reply.time := by
      rw [EngineReply.lt_time_iff]
      intro delay hreply
      simpa [hreply] using hd
    by_cases hD : deadlineMs ≤ waited
    · rw [if_pos hD] at h
      obtain rfl := Option.some.inj h
      obtain rfl : waited = deadlineMs := by omega
      rw [settle_of_lt hlate, leave_of_le hpatience]
    · rw [if_neg hD] at h
      cases hp : patience with
      | none => rw [hp] at h; cases h
      | some t =>
        rw [hp] at h
        by_cases ht : t ≤ waited
        · simp only [Option.any_some, decide_eq_true ht, if_true, Option.some.injEq] at h
          -- the caller leaves before the call settles
          have hsettles : t < (settle deadlineMs reply).1 := by
            rw [← Nat.cast_lt (α := ℕ∞), settle_fst, lt_min_iff, Nat.cast_lt]
            exact ⟨(Nat.cast_le.2 ht).trans_lt hlate, by omega⟩
          rw [← h, leave_of_lt hsettles]
        · simp [ht] at h

namespace Visit

/-- The end that a visit has come to by so many milliseconds after its start, if any. -/
def endBy? (deadlineMs : ℕ) (v : Visit) (waited : ℕ) : Option (Ending Answer) :=
  match v.request with
  | .order op request =>
    (OrderRelay.endBy? deadlineMs v.patience
      (v.engine.order op request ((v.relay deadlineMs).orderContext v.requestId)) waited).map
        (·.map (.order op))
  | .trades request =>
    (OrderRelay.endBy? deadlineMs v.patience
      (v.engine.trades request (Relay.tradesContext v.requestId)) waited).map
        (·.map fun feed =>
          let (items, ended) := Feed.read v.limit feed.items
          .trades items ended)

theorem lt_of_endBy?_eq_none {v : Visit} {waited : ℕ} (h : v.endBy? deadlineMs waited = none) :
    waited < deadlineMs := by
  unfold endBy? at h
  split at h <;> exact OrderRelay.lt_of_endBy?_eq_none (Option.map_eq_none_iff.1 h)

/-- **Who always looks finds how the visit ends.** -/
theorem endBy?_first {v : Visit} {waited : ℕ} {ending : Ending Answer}
    (hbefore : ∀ w < waited, v.endBy? deadlineMs w = none)
    (h : v.endBy? deadlineMs waited = some ending) : ending = (v.outcome deadlineMs).2 := by
  unfold endBy? at hbefore h
  unfold outcome
  cases hr : v.request with
  | order op request =>
    simp only [hr, Option.map_eq_none_iff, Option.map_eq_some_iff] at hbefore h
    obtain ⟨e, he, rfl⟩ := h
    rw [OrderRelay.endBy?_first hbefore he]
    rfl
  | trades request =>
    simp only [hr, Option.map_eq_none_iff, Option.map_eq_some_iff] at hbefore h
    obtain ⟨e, he, rfl⟩ := h
    rw [OrderRelay.endBy?_first hbefore he]
    rfl

/-- A visit ends as the call for its request can end. -/
theorem fits_outcome (deadlineMs : ℕ) (v : Visit) :
    (v.outcome deadlineMs).2.fits v.request = true := by
  unfold outcome
  cases v.request with
  | order op request =>
    rcases leave_cases v.patience ((v.relay deadlineMs).order v.requestId op request) with he | he
    · simp only [he]
      exact order_fits request fun e he => settle_isEngineFailure he
    · simp only [he]
      rfl
  | trades request =>
    rcases leave_cases v.patience ((v.relay deadlineMs).trades v.requestId request) with he | he
    · simp only [he]
      cases hsettled : ((v.relay deadlineMs).trades v.requestId request).2 with
      | error e => exact settle_isEngineFailure hsettled
      | ok feed => simp [Ending.map, Except.map, Ending.fits, EngineRequest.operation?]
    · simp only [he]
      rfl

end Visit

end OrderRelay
