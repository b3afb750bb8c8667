import OrderRelay.Proofs.Trades.Delivery

/-!
# How a subscription ends

Left to itself a loop ends, or waits with nothing left to do. Where it is then is up to the feed, and to
where the client leaves it; when the loop looked at which of the two does not matter.

* `Forwarding.heard`: what the socket has been handed, pongs aside: the texts, and then the close frame.
* `Forwarding.InOrder`: the close frame comes after all texts.
* `Faithful.reason_lookAtFeed`: a loop that looks at its feed ends just as the feed has it.
* `Faithful.settlesAs`: **a loop that is left to itself ends as its feed has it**, unless the client
  leaves.
* `Faithful.alike_of_settled`: **two loops with nothing left to do are alike** if their feeds are and
  if their clients leave after as many trades.
-/

namespace OrderRelay

/-- A pong, with which a ping is answered on the spot. -/
def ServerFrame.isPong : ServerFrame → Bool
  | .pong _ => true
  | _ => false

namespace Forwarding

/-- The texts that the socket has accepted and the close frame that it was handed, in their order:
all but the pongs. -/
def heard (f : Forwarding) : List ServerFrame := f.sent.filter (!·.isPong)

/-- **Two subscriptions between which neither the engine nor, pongs aside, the client can tell.** -/
structure Alike (f g : Forwarding) : Prop where
  heard : f.heard = g.heard
  stage : f.stage = g.stage
  released : f.released = g.released

/-- How many trades the client has got when it leaves, if it does. -/
def leftAfter (f : Forwarding) : Option ℕ :=
  if f.reason? = some .left then some f.delivered else none

/-- The end that the feed calls for after what has been delivered. -/
def feedEnd? (f : Forwarding) : Option ForwardingEnd :=
  match f.made[f.delivered]? with
  | none => if f.feedEnded then some .completed else none
  | some (.error failure) => some (.failed failure)
  | some (.ok _) => none

variable {f g : Forwarding} {e : ForwardingEvent} {es : List MeterEvent}

/-! ## Texts before close frames -/

theorem heard_answer (frame : ClientFrame) : (answer frame).filter (!·.isPong) = [] := by
  cases frame <;> rfl

theorem heard_farewell (reason : ForwardingEnd) :
    (farewell reason).filter (!·.isPong) = farewell reason := by
  cases reason <;> rfl

theorem heard_of_sent {frames : List ServerFrame} (h : g.sent = f.sent ++ frames) :
    g.heard = f.heard ++ frames.filter (!·.isPong) := by
  unfold heard; rw [h, List.filter_append]

/-- A loop ends with close frames only. -/
theorem map_closings_farewell (reason : ForwardingEnd) :
    ((farewell reason).filterMap ServerFrame.closing?).map (fun c => .close c.1 c.2) =
      farewell reason := by
  cases reason <;> rfl

/-- **The close frame comes after all texts.** -/
def InOrder (f : Forwarding) : Prop :=
  f.heard = f.texts.map .text ++ f.closings.map fun c => .close c.1 c.2

theorem InOrder.of_sent (h : g.sent = f.sent) (hf : f.InOrder) : g.InOrder := by
  unfold InOrder heard texts closings at hf ⊢
  rw [h]
  exact hf

/-- A loop that hands over close frames has handed over none before. -/
theorem InOrder.part (h : f.Faithful) (hs : f.stage = .racing) (hf : f.InOrder) {n : ℕ}
    (reason : ForwardingEnd) : (part { f with taken := n } reason).1.InOrder := by
  have hnone : f.closings = [] := (h.at_work (by simp [reason?, hs])).2.1
  unfold InOrder at hf ⊢
  rw [heard_of_sent (f := f) rfl, texts_of_sent (f := f) rfl, closings_of_sent (f := f) rfl,
    heard_farewell, texts_farewell, hnone, List.nil_append, map_closings_farewell, hf, hnone]
  simp

theorem Transition.inOrder (ht : f.Transition e g es) (h : f.Faithful)
    (hf : f.InOrder) : g.InOrder := by
  cases ht with
  | made | ignored | feedEnd | received | loss | idle | sawClose | sawLoss | took | refused | parted =>
    exact hf.of_sent rfl
  | saw frame =>
    unfold InOrder at hf ⊢
    rw [heard_of_sent rfl, texts_of_sent rfl, closings_of_sent rfl, heard_answer, texts_answer,
      closings_answer]
    simpa using hf
  | completed hs => exact hf.part h hs .completed
  | failed failure hs => exact hf.part h hs (.failed failure)
  | accepted trade hs =>
    have hnone : f.closings = [] := (h.at_work (by simp [reason?, hs])).2.1
    unfold InOrder at hf ⊢
    rw [heard_of_sent (f := f) rfl, texts_of_sent (f := f) rfl, closings_of_sent (f := f) rfl, hf,
      hnone]
    simp [ServerFrame.isPong, ServerFrame.text?, ServerFrame.closing?]

theorem start_inOrder (feed : Feed) : (start feed).InOrder := rfl

theorem run_inOrder (h : f.Faithful) (hf : f.InOrder) (es : List ForwardingEvent) :
    (f.run es).1.InOrder := by
  induction es generalizing f with
  | nil => exact hf
  | cons e es ih =>
    have ht := step_transition f e
    exact ih (ht.faithful h) (ht.inOrder h hf)

/-! ## Nothing left to do -/

/-- The stage of a loop that has nothing left to do is what it has ended with, if it has. -/
theorem stage_of_settled (hnext : f.next? = none) :
    f.stage = (f.reason?.map .over).getD .racing := by
  rcases next?_eq_none_iff.1 hnext with ⟨reason, hs⟩ | ⟨hs, -⟩ <;> simp [reason?, hs]

/-- **How a loop ends that the client does not leave**: with the feed, with the failure that comes
after what it has delivered, or not at all, as long as the feed is open. -/
theorem Faithful.settled_cases (h : f.Faithful) (hnext : f.next? = none)
    (hstays : f.reason? ≠ some .left) :
    (f.reason? = some .completed ∧ f.feedEnded = true ∧ f.delivered = f.made.length) ∨
      (∃ failure, f.reason? = some (.failed failure) ∧
        f.made[f.delivered]? = some (.error failure)) ∨
      (f.reason? = none ∧ f.feedEnded = false ∧ f.delivered = f.made.length) := by
  rcases next?_eq_none_iff.1 hnext with ⟨reason, hs⟩ | ⟨hs, -, -, hopen, hall⟩
  · have hr : f.reason? = some reason := by simp [reason?, hs]
    cases reason with
    | completed => exact .inl ⟨hr, h.completed hr⟩
    | failed failure => exact .inr (.inl ⟨failure, hr, h.failed failure hr⟩)
    | left => exact absurd hr hstays
  · have hd : f.taken = f.delivered := h.racing hs
    have hle := h.taken.2.2
    exact .inr (.inr ⟨by simp [reason?, hs], hopen, by omega⟩)

theorem Faithful.reason_of_settled (h : f.Faithful) (hnext : f.next? = none)
    (hstays : f.reason? ≠ some .left) : f.reason? = f.feedEnd? := by
  unfold feedEnd?
  rcases h.settled_cases hnext hstays with ⟨hr, hended, hd⟩ | ⟨failure, hr, hf⟩ | ⟨hr, hopen, hd⟩
  · rw [List.getElem?_eq_none hd.ge, hended, hr]
    rfl
  · rw [hf, hr]
  · rw [List.getElem?_eq_none hd.ge, hopen, hr]
    rfl

/-- **A loop that waits and looks at its feed** ends just as the feed has it. -/
theorem Faithful.reason_lookAtFeed (h : f.Faithful) (hs : f.stage = .racing) :
    (f.step .lookAtFeed).1.reason? = f.feedEnd? := by
  have hnone : f.reason? = none := by simp [reason?, hs]
  simp only [step, hs, takeItem, feedEnd?, ← h.racing hs]
  cases f.made[f.taken]? with
  | none =>
    cases f.feedEnded with
    | true => rfl
    | false => exact hnone
  | some item =>
    cases item with
    | error failure => rfl
    | ok trade => rfl

/-- **What becomes of a subscription `f` whose loop is left to itself.** -/
structure SettlesAs (f g : Forwarding) : Prop where
  faithful : g.Faithful
  order : g.InOrder
  /-- Nothing comes in meanwhile. -/
  incoming : g.incoming = f.incoming
  /-- The loop has nothing left to do. -/
  rests : g.next? = none
  ends : g.isOver ∨ g.delivered = f.made.length
  /-- It is left only if the client is gone or has asked to go. -/
  left : g.reason? = some .left → f.reason? = some .left ∨ f.lost = true ∨ .close ∈ f.received
  /-- Otherwise it ends as the feed has it. -/
  fed : g.reason? ≠ some .left → g.reason? = g.feedEnd?

theorem Faithful.settlesAs (h : f.Faithful) (horder : f.InOrder) : f.SettlesAs f.settle.1 where
  faithful := h.settle
  order := by
    obtain ⟨-, es, -, hrun⟩ := f.settle_eq_run
    rw [hrun]
    exact run_inOrder h horder es
  incoming := f.settle_incoming
  rests := f.settle_eq_run.1
  ends := h.settle_ends
  left := h.settle_left
  fed := h.settle.reason_of_settled f.settle_eq_run.1

/-- It has delivered as much as any loop with that feed. -/
theorem Faithful.delivered_le (hf : f.Faithful) (hg : g.Faithful) (hmade : g.made = f.made)
    (hnext : f.next? = none) (hstays : f.reason? ≠ some .left) : g.delivered ≤ f.delivered := by
  have hle : g.delivered ≤ f.made.length := hmade ▸ hg.taken.1.trans hg.taken.2.2
  rcases hf.settled_cases hnext hstays with ⟨-, -, hd⟩ | ⟨failure, -, hfail⟩ | ⟨-, -, hd⟩
  · omega
  · -- the other loop has delivered trades only
    by_contra hlt
    obtain ⟨ts, hts, -⟩ := hg.texts
    have hget : (g.made.take g.delivered)[f.delivered]? = some (.error failure) := by
      rw [List.getElem?_take_of_lt (by omega), hmade, hfail]
    rw [hts, List.getElem?_map] at hget
    cases hfirst : ts[f.delivered]? <;> simp [hfirst] at hget
  · omega

/-- The texts are up to the feed and to how many have been delivered. -/
theorem Faithful.texts_congr (hf : f.Faithful) (hg : g.Faithful) (hmade : g.made = f.made)
    (hd : g.delivered = f.delivered) : g.texts = f.texts := by
  obtain ⟨ts, hts, htexts⟩ := hf.texts
  obtain ⟨ts', hts', htexts'⟩ := hg.texts
  have hsame : ts'.map Except.ok = ts.map (Except.ok (ε := EngineFailure)) := by
    rw [← hts', ← hts, hmade, hd]
  rw [htexts, htexts', List.map_injective_iff.2 (fun _ _ h => Except.ok.inj h) hsame]

/-- **Two loops with nothing left to do are alike**, and have counted the same, if their feeds have
made the same and if their clients leave after as many trades or not at all. -/
theorem Faithful.alike_of_settled (hf : f.Faithful) (hg : g.Faithful) (hforder : f.InOrder)
    (hgorder : g.InOrder) (hmade : g.made = f.made) (hended : g.feedEnded = f.feedEnded)
    (hfnext : f.next? = none) (hgnext : g.next? = none) (hleft : g.leftAfter = f.leftAfter) :
    g.Alike f ∧ g.counted = f.counted := by
  have hboth : g.delivered = f.delivered ∧ g.reason? = f.reason? := by
    unfold leftAfter at hleft
    by_cases hfl : f.reason? = some .left
    · rw [if_pos hfl] at hleft
      split at hleft
      · rename_i hgl
        exact ⟨Option.some.inj hleft, hgl.trans hfl.symm⟩
      · cases hleft
    · have hgl : g.reason? ≠ some .left := by
        intro hgl
        rw [if_neg hfl, if_pos hgl] at hleft
        cases hleft
      have hd : g.delivered = f.delivered :=
        le_antisymm (hf.delivered_le hg hmade hfnext hfl)
          (hg.delivered_le hf hmade.symm hgnext hgl)
      refine ⟨hd, ?_⟩
      rw [hf.reason_of_settled hfnext hfl, hg.reason_of_settled hgnext hgl, feedEnd?, feedEnd?,
        hmade, hd, hended]
  obtain ⟨hd, hr⟩ := hboth
  have hstage : g.stage = f.stage := by
    rw [stage_of_settled hfnext, stage_of_settled hgnext, hr]
  have hover : g.isOver = f.isOver := by unfold isOver; rw [hstage]
  refine ⟨⟨?_, hstage, ?_⟩, ?_⟩
  · rw [hforder, hgorder, hf.texts_congr hg hmade hd, hf.closings, hg.closings, hr]
  · rw [hf.released, hg.released, hover]
  · rw [counted, counted, hd, hover]

end Forwarding

end OrderRelay
