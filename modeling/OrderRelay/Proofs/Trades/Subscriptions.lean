import OrderRelay.Proofs.Trades.Outcome

/-!
# Subscriptions deliver trades in order

Any number of subscriptions run at once, and the events of all of them come in any order.

* `Subscriptions.Faithful`: what holds of all subscriptions at every point: each is faithful, and the
  readings add up over them.
* `run_subscription`: a subscription runs on the events that are meant for it, whatever happens to
  the others.
* `run_faithful`: **all that together at every point of every run**, why each subscription ends, and
  what becomes of it if its loop is left to itself.
-/

namespace OrderRelay

namespace Subscriptions

open Forwarding

variable {s : Subscriptions}

/-- **What holds of all subscriptions at every point.** -/
structure Faithful (s : Subscriptions) : Prop where
  each : ∀ f ∈ s.all, f.Faithful
  order : ∀ f ∈ s.all, f.InOrder
  sums : s.readings.SumOf Forwarding.counted s.all

theorem start_faithful : start.Faithful :=
  ⟨fun _ h => absurd h List.not_mem_nil, fun _ h => absurd h List.not_mem_nil, .nil⟩

/-- An event at a subscription that there is. -/
theorem step_at {i : ℕ} {f : Forwarding} (h : s.all[i]? = some f) (e : ForwardingEvent) :
    s.step (.at i e) = ⟨s.all.set i (f.step e).1, s.readings.recordAll (f.step e).2⟩ := by
  simp only [step, h]

/-- What holds of a new subscription and what its own events keep holds of all of them after one
more event. -/
theorem forall_step {p : Forwarding → Prop} (hstart : ∀ feed, p (.start feed))
    (hstep : ∀ f ∈ s.all, p f → ∀ e, p (f.step e).1) (h : ∀ f ∈ s.all, p f) (e : Event) :
    ∀ f ∈ (s.step e).all, p f := by
  intro g hg
  cases e with
  | opened feed =>
    rcases List.mem_append.1 hg with hg | hg
    · exact h g hg
    · rw [List.mem_singleton.1 hg]; exact hstart feed
  | «at» i e =>
    cases hi : s.all[i]? with
    | none =>
      simp only [step, hi] at hg
      exact h g hg
    | some f =>
      have hf : f ∈ s.all := List.mem_of_getElem? hi
      rw [step_at hi] at hg
      rcases List.mem_or_eq_of_mem_set hg with hg | rfl
      · exact h g hg
      · exact hstep f hf (h f hf) e

/-- The readings add up after one more event. -/
theorem step_sums (h : s.readings.SumOf Forwarding.counted s.all) (e : Event) :
    (s.step e).readings.SumOf Forwarding.counted (s.step e).all := by
  cases e with
  | opened feed => exact h.concat (.start feed)
  | «at» i e =>
    cases hi : s.all[i]? with
    | none => simpa only [step, hi] using h
    | some f =>
      rw [step_at hi]
      refine h.set hi fun series => ?_
      rw [(step_transition f e).counted_eq, changes_append]

/-- **An event keeps all subscriptions faithful.** -/
theorem step_faithful (h : s.Faithful) (e : Event) : (s.step e).Faithful where
  each := forall_step Forwarding.start_faithful
    (fun f _ hf e => (step_transition f e).faithful hf) h.each e
  order := forall_step start_inOrder
    (fun f hmem hf e => (step_transition f e).inOrder (h.each f hmem) hf) h.order e
  sums := step_sums h.sums e

theorem run_cons (e : Event) (es : List Event) : s.run (e :: es) = (s.step e).run es := rfl

theorem run_keeps_faithful (h : s.Faithful) (es : List Event) : (s.run es).Faithful := by
  induction es generalizing s with
  | nil => exact h
  | cons e es ih => rw [run_cons]; exact ih (step_faithful h e)

/-- What an event does to the subscription of that number. -/
def Event.of? (i : ℕ) : Event → Option ForwardingEvent
  | .opened _ => none
  | .at j e => if j = i then some e else none

/-- The feed that is opened with an event. -/
def Event.feed? : Event → Option Feed
  | .opened feed => some feed
  | .at _ _ => none

theorem run_length (s : Subscriptions) (es : List Event) :
    (s.run es).all.length = s.all.length + (es.filterMap Event.feed?).length := by
  induction es generalizing s with
  | nil => rfl
  | cons e es ih =>
    rw [run_cons, ih]
    cases e with
    | opened feed => simp [step, Event.feed?]; omega
    | «at» i e =>
      rw [List.filterMap_cons_none rfl]
      cases hi : s.all[i]? <;> simp [step, hi]

/-- An event at another subscription leaves this one as it is. -/
theorem step_getElem? {i : ℕ} {f : Forwarding} (hi : s.all[i]? = some f) (e : Event) :
    (s.step e).all[i]? = some (f.run (e.of? i).toList).1 := by
  obtain ⟨hlt, -⟩ := List.getElem?_eq_some_iff.1 hi
  cases e with
  | opened feed => exact (List.getElem?_append_left hlt).trans hi
  | «at» j e =>
    by_cases hj : j = i
    · subst hj
      rw [step_at hi]
      simp [Event.of?, Forwarding.run, hlt]
    · simp only [Event.of?, if_neg hj, Option.toList_none, Forwarding.run]
      unfold step
      simp only
      split
      · exact hi
      · rw [List.getElem?_set_ne hj]; exact hi

theorem run_getElem? {i : ℕ} {f : Forwarding} (hi : s.all[i]? = some f) (es : List Event) :
    (s.run es).all[i]? = some (f.run (es.filterMap (Event.of? i))).1 := by
  induction es generalizing s f with
  | nil => exact hi
  | cons e es ih =>
    rw [run_cons, ih (step_getElem? hi e)]
    cases he : e.of? i <;> simp [he, Forwarding.run]

/-- **A subscription runs on the events that are meant for it**, whatever happens to the
others. -/
theorem run_subscription (es₁ : List Event) (feed : Feed) (es₂ : List Event) :
    let i := (es₁.filterMap Event.feed?).length
    (start.run (es₁ ++ .opened feed :: es₂)).all[i]? =
      some ((Forwarding.start feed).run (es₂.filterMap (Event.of? i))).1 := by
  intro i
  have hlen : (start.run es₁).all.length = i := (run_length start es₁).trans (Nat.zero_add i)
  have hopened : ((start.run es₁).step (.opened feed)).all[i]? = some (.start feed) := by
    rw [← hlen]
    exact List.getElem?_concat_length
  rw [run, List.foldl_append]
  exact run_getElem? hopened es₂

/-- **Subscriptions deliver trades in order, and the readings add up.** At every point of
every run each subscription is faithful, with its close frame after all texts; the updates are
the sum of what all have delivered; the gauge is the number of loops that run; and a loop that
has seen its client leave, or has handed over a close frame, sends nothing more, whatever comes.

What comes in for a subscription is what the events say, and it is left with a trade in its hand
only if the socket has refused it. A loop that has taken a failure of the engine ends with that, and
has handed over the close frame for it. A loop that waits and looks at its feed ends just as the
feed has it, and one that is left to itself ends so or delivers all of it, unless the client
leaves. -/
theorem run_faithful (es : List Event) :
    (∀ f ∈ (start.run es).all, f.Faithful ∧ f.InOrder) ∧
      (start.run es).readings.value .tradeUpdates =
        ((start.run es).all.map fun f => (f.delivered : ℤ)).sum ∧
      (start.run es).readings.value .activeSubscriptions = (start.run es).all.countP (!·.isOver) ∧
      ((∀ f ∈ (start.run es).all, f.isOver) →
        (start.run es).readings.value .activeSubscriptions = 0) ∧
      (∀ (i : ℕ) (f : Forwarding), (start.run es).all[i]? = some f →
        f.seesClose ∨ f.reason?.isSome →
        ∀ es', ∃ f', ((start.run es).run es').all[i]? = some f' ∧ f'.sent = f.sent) ∧
      (∀ (es₁ : List Event) (feed : Feed) (es₂ : List Event),
        let i := (es₁.filterMap Event.feed?).length
        let own := es₂.filterMap (Event.of? i)
        ∃ f, (start.run (es₁ ++ .opened feed :: es₂)).all[i]? = some f ∧
          f.made = feed.items ++ (if feed.ends then []
            else (own.takeWhile (!·.isFeedEnd)).filterMap ForwardingEvent.item?) ∧
          f.feedEnded = (feed.ends || own.any (·.isFeedEnd)) ∧
          f.received = own.filterMap ForwardingEvent.frame? ∧
          f.lost = own.any (·.isLoss) ∧
          (f.leftInHand → .refused ∈ own)) ∧
      (∀ f ∈ (start.run es).all, ∀ failure, .error failure ∈ f.made.take f.taken →
        f.reason? = some (.failed failure) ∧
          f.closings = [(1011, cutText 123 failure.message)]) ∧
      ∀ f ∈ (start.run es).all,
        (f.stage = .racing → (f.step .lookAtFeed).1.reason? = f.feedEnd?) ∧
          f.SettlesAs f.settle.1 := by
  have h := run_keeps_faithful start_faithful es
  have hactive := h.sums.value_eq_countP (p := (!·.isOver)) fun f _ => changes_counted_active f
  refine ⟨fun f hf => ⟨h.each f hf, h.order f hf⟩, ?_, hactive, ?_, ?_, ?_, ?_, ?_⟩
  · rw [h.sums .tradeUpdates, List.map_congr_left fun f _ => changes_counted_updates f]
  · intro hall
    rw [hactive, Nat.cast_eq_zero, List.countP_eq_zero]
    intro f hf
    simp [hall f hf]
  · intro i f hi hend es'
    have hr : f.reason?.isSome := by
      rcases hend with hc | hr
      · simp [reason?, (h.each f (List.mem_of_getElem? hi)).close hc]
      · exact hr
    exact ⟨_, run_getElem? hi es', run_frozen hr _⟩
  · intro es₁ feed es₂ i own
    obtain ⟨hmade, hended, hreceived, hlost⟩ := (Forwarding.start feed).run_incoming own
    refine ⟨_, run_subscription es₁ feed es₂, hmade, hended, hreceived, ?_, ?_⟩
    · rw [hlost]; rfl
    · intro hl
      rcases run_leftInHand (Forwarding.start_faithful feed) hl with ⟨hreason, -⟩ | hmem
      · cases hreason
      · exact hmem
  · intro f hf failure hfail
    have hr := (h.each f hf).failed_of_taken hfail
    refine ⟨hr, ?_⟩
    rw [(h.each f hf).closings, hr]
    rfl
  · intro f hf
    exact ⟨(h.each f hf).reason_lookAtFeed, (h.each f hf).settlesAs (h.order f hf)⟩

end Subscriptions

end OrderRelay
