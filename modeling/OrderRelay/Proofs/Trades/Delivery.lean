import OrderRelay.Proofs.Meter.Sums
import OrderRelay.Proofs.Trades.Transition

/-!
# A subscription delivers trades in order

A loop races its client against its feed.

* `Forwarding.Faithful`: what holds of a subscription at every point: it has
  delivered the first items of its feed, has taken at most one more, has handed
  over the close frame that its end calls for, and gives the feed back once.
* `Transition.faithful`: whatever can happen to a subscription keeps that.
* `Faithful.failed_of_taken`: a failure that a loop has taken is what it ends with.
* `run_leftInHand`: a loop is left with a trade in its hand only if the socket has refused it.
* `Faithful.settle`: left to itself, a loop ends or delivers all that has been made.
* `Transition.counted_eq`: what a transition counts comes after what has been counted.
-/

namespace OrderRelay

/-- The content of a text frame. -/
def ServerFrame.text? : ServerFrame → Option String
  | .text content => some content
  | _ => none

/-- The code and the reason of a close frame. -/
def ServerFrame.closing? : ServerFrame → Option (ℕ × String)
  | .close code reason => some (code, reason)
  | _ => none

/-- The close frames that an end calls for. -/
def ForwardingEnd.closings : ForwardingEnd → List (ℕ × String)
  | .completed => [(1000, "trade stream completed")]
  | .failed failure => [(1011, cutText 123 failure.message)]
  | .left => []

namespace Forwarding

/-- The texts that the socket has accepted. -/
def texts (f : Forwarding) : List String := f.sent.filterMap ServerFrame.text?

/-- How many trades the socket has accepted. -/
def delivered (f : Forwarding) : ℕ := f.texts.length

/-- The close frames that the socket was handed. -/
def closings (f : Forwarding) : List (ℕ × String) := f.sent.filterMap ServerFrame.closing?

/-- The loop has seen the close frame of the client. -/
def seesClose (f : Forwarding) : Prop := .close ∈ f.received.take f.seen

/-- **What holds of a subscription at every point.** -/
structure Faithful (f : Forwarding) : Prop where
  /-- The socket has accepted the texts of the first items, in their order. -/
  texts : ∃ ts : List TradeUpdate,
    f.made.take f.delivered = ts.map .ok ∧ f.texts = ts.map Message.text
  /-- At most one more item has been taken. -/
  taken : f.delivered ≤ f.taken ∧ f.taken ≤ f.delivered + 1 ∧ f.taken ≤ f.made.length
  racing : f.stage = .racing → f.taken = f.delivered
  sending : ∀ trade, f.stage = .sending trade →
    f.taken = f.delivered + 1 ∧ f.made[f.delivered]? = some (.ok trade)
  /-- A loop is completed after all items. -/
  completed : f.reason? = some .completed → f.feedEnded = true ∧ f.delivered = f.made.length
  /-- A loop fails with the item that follows those it has delivered. -/
  failed : ∀ failure, f.reason? = some (.failed failure) →
    f.made[f.delivered]? = some (.error failure)
  /-- A loop is left when it has seen the close frame or the connection is lost, with all that it
  has taken delivered, or with a trade in its hand. -/
  left : f.reason? = some .left →
    (f.taken = f.delivered ∧ (f.seesClose ∨ f.lost = true)) ∨
      (f.taken = f.delivered + 1 ∧ ∃ trade, f.made[f.delivered]? = some (.ok trade))
  /-- It sees frames that have come. -/
  seen : f.seen ≤ f.received.length
  /-- A loop that has seen the close frame is over. -/
  close : f.seesClose → f.stage = .over .left
  /-- No close frame is handed over before the end, and then the one that the end calls for. -/
  closings : f.closings = (f.reason?.map ForwardingEnd.closings).getD []
  /-- The feed is given back once, when the loop is over. -/
  released : f.released = if f.isOver then 1 else 0

/-- What a loop has counted so far. -/
def counted (f : Forwarding) : List MeterEvent :=
  .opened :: (List.replicate f.delivered .update ++ if f.isOver then [.closed] else [])

variable {f f' : Forwarding} {e : ForwardingEvent}

/-! ## What the frames say -/

theorem texts_answer (frame : ClientFrame) : (answer frame).filterMap ServerFrame.text? = [] := by
  cases frame <;> rfl

theorem closings_answer (frame : ClientFrame) :
    (answer frame).filterMap ServerFrame.closing? = [] := by
  cases frame <;> rfl

theorem texts_farewell (reason : ForwardingEnd) :
    (farewell reason).filterMap ServerFrame.text? = [] := by
  cases reason <;> rfl

theorem closings_farewell (reason : ForwardingEnd) :
    (farewell reason).filterMap ServerFrame.closing? = reason.closings := by
  cases reason with
  | completed => decide
  | failed failure => rfl
  | left => rfl

/-- What is sent later is delivered later. -/
theorem texts_of_sent {frames : List ServerFrame} (h : f'.sent = f.sent ++ frames) :
    f'.texts = f.texts ++ frames.filterMap ServerFrame.text? := by
  unfold texts; rw [h, List.filterMap_append]

theorem closings_of_sent {frames : List ServerFrame} (h : f'.sent = f.sent ++ frames) :
    f'.closings = f.closings ++ frames.filterMap ServerFrame.closing? := by
  unfold closings; rw [h, List.filterMap_append]

/-- Frames of the client that come later do not hide those that the loop has seen. -/
theorem seesClose_concat (f : Forwarding) (hs : f.seen ≤ f.received.length) (frame : ClientFrame) :
    seesClose { f with received := f.received ++ [frame] } ↔ f.seesClose := by
  unfold seesClose
  rw [List.take_append_of_le_length hs]

/-! ## At work -/

/-- A subscription whose loop waits is faithful if it has delivered what it has taken. -/
theorem Faithful.of_racing (hs : f.stage = .racing)
    (ht : ∃ ts : List TradeUpdate,
      f.made.take f.delivered = ts.map .ok ∧ f.texts = ts.map Message.text)
    (htaken : f.taken = f.delivered) (hmade : f.taken ≤ f.made.length)
    (hseen : f.seen ≤ f.received.length) (hclose : ¬f.seesClose) (hclosings : f.closings = [])
    (hreleased : f.released = 0) : f.Faithful := by
  have hr : f.reason? = none := by simp [reason?, hs]
  have ho : f.isOver = false := by simp [isOver, hs]
  refine ⟨ht, by omega, fun _ => htaken, ?_, ?_, ?_, ?_, hseen, fun h => absurd h hclose, ?_, ?_⟩
  · intro trade h; rw [hs] at h; cases h
  · intro h; rw [hr] at h; cases h
  · intro failure h; rw [hr] at h; cases h
  · intro h; rw [hr] at h; cases h
  · rw [hr]; exact hclosings
  · rw [ho]; exact hreleased

theorem start_faithful (feed : Feed) : (start feed).Faithful :=
  .of_racing rfl ⟨[], rfl, rfl⟩ rfl (Nat.zero_le _) (Nat.zero_le _) (by simp [seesClose, start])
    rfl rfl

/-- A loop at work has not seen the close frame, has handed over none and keeps the feed. -/
theorem Faithful.at_work (h : f.Faithful) (hr : f.reason? = none) :
    ¬f.seesClose ∧ f.closings = [] ∧ f.released = 0 := by
  refine ⟨?_, ?_, ?_⟩
  · intro hc
    have hs := h.close hc
    simp [reason?, hs] at hr
  · rw [h.closings, hr]; rfl
  · have ho : f.isOver = false := by
      cases hs : f.stage <;> simp_all [reason?, isOver]
    rw [h.released, ho]; rfl

/-- The loop sees a frame that does not matter. -/
theorem Faithful.saw (h : f.Faithful) (hs : f.stage = .racing) {frame : ClientFrame}
    (hf : f.received[f.seen]? = some frame) (hne : frame ≠ .close) :
    Faithful { f with seen := f.seen + 1, sent := f.sent ++ answer frame } := by
  set g : Forwarding := { f with seen := f.seen + 1, sent := f.sent ++ answer frame } with hg
  have ht : g.texts = f.texts := by rw [texts_of_sent rfl, texts_answer, List.append_nil]
  have hd : g.delivered = f.delivered := by unfold delivered; rw [ht]
  obtain ⟨hc, hcl, hrel⟩ := h.at_work (by simp [reason?, hs])
  obtain ⟨hlt, -⟩ := List.getElem?_eq_some_iff.1 hf
  refine .of_racing hs ?_ ?_ h.taken.2.2 hlt ?_ ?_ hrel
  · rw [hd, ht]; exact h.texts
  · rw [hd]; exact h.racing hs
  · -- the frame that has been seen more is not the close frame
    unfold seesClose at hc ⊢
    rw [hg]
    simp only
    rw [List.take_add_one, hf, List.mem_append]
    rintro (hm | hm)
    · exact hc hm
    · simp at hm; exact hne hm.symm
  · rw [closings_of_sent rfl, closings_answer, List.append_nil, hcl]

/-- The loop takes a trade. -/
theorem Faithful.took (h : f.Faithful) (hs : f.stage = .racing) {trade : TradeUpdate}
    (hf : f.made[f.taken]? = some (.ok trade)) :
    Faithful { f with taken := f.taken + 1, stage := .sending trade } := by
  obtain ⟨hc, hcl, hrel⟩ := h.at_work (by simp [reason?, hs])
  obtain ⟨hlt, -⟩ := List.getElem?_eq_some_iff.1 hf
  have htaken := h.racing hs
  refine ⟨h.texts, ?_, ?_, ?_, ?_, ?_, ?_, h.seen, ?_, hcl, hrel⟩
  · refine ⟨?_, ?_, hlt⟩
    · show f.delivered ≤ f.taken + 1; omega
    · show f.taken + 1 ≤ f.delivered + 1; omega
  · intro h'; cases h'
  · intro trade' h'
    cases h'
    refine ⟨?_, ?_⟩
    · show f.taken + 1 = f.delivered + 1; rw [htaken]
    · show f.made[f.delivered]? = _; rw [← htaken, hf]
  · intro h'; cases h'
  · intro failure h'; cases h'
  · intro h'; cases h'
  · intro h'; exact absurd h' hc

/-- The socket accepts the trade in hand. -/
theorem Faithful.accepted (h : f.Faithful) {trade : TradeUpdate} (hs : f.stage = .sending trade) :
    Faithful { f with stage := .racing, sent := f.sent ++ [.text (Message.text trade)] } := by
  set g : Forwarding :=
    { f with stage := .racing, sent := f.sent ++ [.text (Message.text trade)] }
  have ht : g.texts = f.texts ++ [Message.text trade] := by
    rw [texts_of_sent (f := f) rfl]; rfl
  have hd : g.delivered = f.delivered + 1 := by unfold delivered; rw [ht, List.length_append]; rfl
  obtain ⟨hc, hcl, hrel⟩ := h.at_work (by simp [reason?, hs])
  -- the trade in hand is the item that follows those that have been delivered
  obtain ⟨htaken, hf⟩ := h.sending trade hs
  obtain ⟨ts, hmade, htexts⟩ := h.texts
  refine .of_racing rfl ⟨ts ++ [trade], ?_, ?_⟩ ?_ h.taken.2.2 h.seen hc ?_ hrel
  · rw [hd, List.map_append, List.take_add_one]
    show f.made.take f.delivered ++ f.made[f.delivered]?.toList = _
    rw [hmade, hf]; rfl
  · rw [ht, htexts, List.map_append]; rfl
  · rw [hd]; exact htaken
  · rw [closings_of_sent (f := f) rfl, hcl]; rfl

/-! ## At its end -/

/-- The loop is left, after it has looked at some more frames. -/
theorem Faithful.leave (h : f.Faithful) (hr : f.reason? = none) {n : ℕ} (hn : n ≤ f.received.length)
    (hl : (f.taken = f.delivered ∧ (.close ∈ f.received.take n ∨ f.lost = true)) ∨
      (f.taken = f.delivered + 1 ∧ ∃ trade, f.made[f.delivered]? = some (.ok trade))) :
    Faithful (finish { f with seen := n } .left).1 := by
  obtain ⟨-, hcl, hrel⟩ := h.at_work hr
  refine ⟨h.texts, h.taken, ?_, ?_, ?_, ?_, fun _ => hl, hn, fun _ => rfl, hcl, ?_⟩
  · intro h'; cases h'
  · intro trade h'; cases h'
  · intro h'; cases h'
  · intro failure h'; cases h'
  · show f.released + 1 = 1
    rw [hrel]

/-- The loop hands over the close frame that its end calls for. -/
theorem Faithful.parting (h : f.Faithful) (hs : f.stage = .racing) {n : ℕ} {reason : ForwardingEnd}
    (hn : f.delivered ≤ n ∧ n ≤ f.delivered + 1 ∧ n ≤ f.made.length)
    (hcompleted : reason = .completed → f.feedEnded = true ∧ f.delivered = f.made.length)
    (hfailed : ∀ failure, reason = .failed failure → f.made[f.delivered]? = some (.error failure))
    (hleft : reason ≠ .left) : Faithful (part { f with taken := n } reason).1 := by
  set g := (part { f with taken := n } reason).1
  have ht : g.texts = f.texts := by
    rw [texts_of_sent (f := f) rfl, texts_farewell, List.append_nil]
  have hd : g.delivered = f.delivered := by unfold delivered; rw [ht]
  have hr : g.reason? = some reason := rfl
  obtain ⟨hc, hcl, hrel⟩ := h.at_work (by simp [reason?, hs])
  refine ⟨?_, ?_, ?_, ?_, ?_, ?_, ?_, h.seen, fun h' => absurd h' hc, ?_, hrel⟩
  · rw [hd, ht]; exact h.texts
  · rw [hd]; exact hn
  · intro h'; cases h'
  · intro trade h'; cases h'
  · intro h'; rw [hd]; exact hcompleted (Option.some.inj (hr.symm.trans h'))
  · intro failure h'; rw [hd]; exact hfailed failure (Option.some.inj (hr.symm.trans h'))
  · intro h'; exact absurd (Option.some.inj (hr.symm.trans h')) hleft
  · rw [closings_of_sent (f := f) rfl, closings_farewell, hcl, hr]; rfl

/-- The close frame is dealt with. -/
theorem Faithful.parted (h : f.Faithful) {reason : ForwardingEnd} (hs : f.stage = .parting reason) :
    Faithful (f.finish reason).1 := by
  have hr : f.reason? = some reason := by simp [reason?, hs]
  have hrel : f.released = 0 := by rw [h.released]; simp [isOver, hs]
  refine ⟨h.texts, h.taken, ?_, ?_, ?_, ?_, ?_, h.seen, ?_, ?_, ?_⟩
  · intro h'; cases h'
  · intro trade h'; cases h'
  · intro h'; exact h.completed (hr.trans h')
  · intro failure h'; exact h.failed failure (hr.trans h')
  · intro h'; exact h.left (hr.trans h')
  · intro h'
    have hov := h.close h'
    rw [hs] at hov; cases hov
  · have hcl := h.closings
    rw [hr] at hcl
    exact hcl
  · show f.released + 1 = 1
    rw [hrel]

/-- **Whatever can happen to a subscription keeps it faithful.** -/
theorem Transition.faithful {es : List MeterEvent} (ht : f.Transition e f' es) (h : f.Faithful) :
    f'.Faithful := by
  have hmade := h.taken.2.2
  have hdel := h.taken.1
  cases ht with
  | idle | ignored => exact h
  | made item hf =>
    -- a new item comes after all that the loop has taken
    have hget : ∀ {x}, f.made[f.delivered]? = some x → (f.made ++ [item])[f.delivered]? = some x := by
      intro x hx
      rw [List.getElem?_append_left (List.getElem?_eq_some_iff.1 hx).1, hx]
    refine { h with
      texts := ?_, taken := ?_, sending := ?_, completed := ?_, failed := ?_, left := ?_ }
    · obtain ⟨ts, hts, htx⟩ := h.texts
      exact ⟨ts, (List.take_append_of_le_length (hdel.trans hmade)).trans hts, htx⟩
    · refine ⟨h.taken.1, h.taken.2.1, ?_⟩
      show f.taken ≤ (f.made ++ [item]).length
      rw [List.length_append]; omega
    · intro trade hs; exact ⟨(h.sending trade hs).1, hget (h.sending trade hs).2⟩
    · -- a feed that has ended makes no more
      intro hr
      have := (h.completed hr).1
      rw [hf] at this; cases this
    · intro failure hr; exact hget (h.failed failure hr)
    · intro hr; exact (h.left hr).imp_right fun ⟨htaken, trade, ht⟩ => ⟨htaken, trade, hget ht⟩
  | feedEnd => exact { h with completed := fun hr => ⟨rfl, (h.completed hr).2⟩ }
  | received frame =>
    have hsee := seesClose_concat f h.seen frame
    refine { h with left := ?_, seen := ?_, close := ?_ }
    · intro hr; exact (h.left hr).imp_left fun ⟨htaken, hl⟩ => ⟨htaken, hl.imp_left hsee.2⟩
    · show f.seen ≤ (f.received ++ [frame]).length
      rw [List.length_append]; exact h.seen.trans (Nat.le_add_right _ _)
    · intro hc; exact h.close (hsee.1 hc)
  | loss =>
    refine { h with left := ?_ }
    intro hr; exact (h.left hr).imp_left fun ⟨htaken, _⟩ => ⟨htaken, Or.inr rfl⟩
  | saw frame hs hf hne => exact h.saw hs hf hne
  | sawClose hs hf =>
    obtain ⟨hlt, -⟩ := List.getElem?_eq_some_iff.1 hf
    have hseen : .close ∈ f.received.take (f.seen + 1) := by
      rw [List.take_add_one, hf]
      exact List.mem_append_right _ (List.mem_singleton_self _)
    exact h.leave (by simp [reason?, hs]) hlt (Or.inl ⟨h.racing hs, Or.inl hseen⟩)
  | sawLoss hs hf hl =>
    exact h.leave (by simp [reason?, hs]) h.seen (Or.inl ⟨h.racing hs, Or.inr hl⟩)
  | completed hs hf he =>
    -- nothing is in hand and nothing is left to take
    have htaken := h.racing hs
    have hlen := List.getElem?_eq_none_iff.1 hf
    refine h.parting hs (n := f.taken) h.taken (fun _ => ⟨he, by omega⟩) ?_ (by simp)
    intro failure h'; cases h'
  | failed failure hs hf =>
    have htaken := h.racing hs
    obtain ⟨hlt, -⟩ := List.getElem?_eq_some_iff.1 hf
    refine h.parting hs (by omega) ?_ ?_ (by simp)
    · intro h'; cases h'
    · intro failure' h'
      cases h'
      rw [← htaken, hf]
  | took trade hs hf => exact h.took hs hf
  | accepted trade hs => exact h.accepted hs
  | refused trade hs =>
    obtain ⟨htaken, hf⟩ := h.sending trade hs
    exact h.leave (by simp [reason?, hs]) h.seen (Or.inr ⟨htaken, trade, hf⟩)
  | parted reason hs => exact h.parted hs

theorem Faithful.run (h : f.Faithful) (es : List ForwardingEvent) : (f.run es).1.Faithful := by
  induction es generalizing f with
  | nil => exact h
  | cons e es ih => exact ih ((step_transition f e).faithful h)

/-! ## Why a loop ends -/

/-- A loop that holds a failure has ended with it. -/
theorem Faithful.failed_of_inHand (h : f.Faithful) {failure : EngineFailure}
    (ht : f.taken = f.delivered + 1) (hf : f.made[f.delivered]? = some (.error failure)) :
    f.reason? = some (.failed failure) := by
  cases hr : f.reason? with
  | none =>
    cases hs : f.stage with
    | racing =>
      have htaken := h.racing hs
      omega
    | sending trade =>
      have htrade := (h.sending trade hs).2
      rw [hf] at htrade
      cases htrade
    | parting reason | «over» reason => simp [reason?, hs] at hr
  | some reason =>
    cases reason with
    | completed =>
      obtain ⟨hlt, -⟩ := List.getElem?_eq_some_iff.1 hf
      have hall := (h.completed hr).2
      omega
    | failed failure' =>
      have hfailed := h.failed failure' hr
      rw [hf] at hfailed
      cases hfailed
      rfl
    | left =>
      rcases h.left hr with ⟨heq, -⟩ | ⟨-, trade, htrade⟩
      · omega
      · rw [hf] at htrade
        cases htrade

/-- **A failure that a loop has taken is what it ends with.** -/
theorem Faithful.failed_of_taken (h : f.Faithful) {failure : EngineFailure}
    (hf : .error failure ∈ f.made.take f.taken) : f.reason? = some (.failed failure) := by
  obtain ⟨ts, hmade, -⟩ := h.texts
  obtain ⟨hle, hle', -⟩ := h.taken
  -- all that has been delivered are trades, so that the failure is the item in hand
  have hfresh : .error failure ∉ f.made.take f.delivered := by simp [hmade]
  obtain heq | ht : f.taken = f.delivered ∨ f.taken = f.delivered + 1 := by omega
  · exact absurd (heq ▸ hf) hfresh
  · rw [ht, List.take_add_one, List.mem_append, or_iff_right hfresh, Option.mem_toList] at hf
    exact h.failed_of_inHand ht hf

/-- The loop is left with a trade in its hand. -/
def leftInHand (f : Forwarding) : Prop := f.reason? = some .left ∧ f.taken = f.delivered + 1

theorem Transition.leftInHand {es : List MeterEvent} (ht : f.Transition e f' es) (h : f.Faithful)
    (hl : f'.leftInHand) : f.leftInHand ∨ e = .refused := by
  obtain ⟨hreason, htaken⟩ := hl
  cases ht with
  | made | ignored | feedEnd | received | loss | idle => exact Or.inl ⟨hreason, htaken⟩
  | saw frame hs => simp [reason?, hs] at hreason
  | sawClose hs | sawLoss hs =>
    have hnone := h.racing hs
    exact absurd (hnone.symm.trans htaken) (Nat.ne_of_lt (Nat.lt_succ_self _))
  | completed | failed | took | accepted => cases hreason
  | refused => exact Or.inr rfl
  | parted reason hs =>
    have hr : f.reason? = some reason := by simp [reason?, hs]
    exact Or.inl ⟨hr.trans hreason, htaken⟩

/-- **A loop is left with a trade in its hand only if the socket has refused it.** -/
theorem run_leftInHand (h : f.Faithful) {es : List ForwardingEvent}
    (hl : (f.run es).1.leftInHand) : f.leftInHand ∨ .refused ∈ es := by
  induction es generalizing f with
  | nil => exact Or.inl hl
  | cons e es ih =>
    have ht := step_transition f e
    rcases ih (ht.faithful h) hl with hl' | hmem
    · rcases ht.leftInHand h hl' with hl'' | rfl
      · exact Or.inl hl''
      · exact Or.inr List.mem_cons_self
    · exact Or.inr (List.mem_cons_of_mem e hmem)

/-! ## The loop by itself -/

theorem Faithful.settle (h : f.Faithful) : f.settle.1.Faithful := by
  obtain ⟨-, es, -, hrun⟩ := f.settle_eq_run
  rw [hrun]
  exact h.run es

/-- **A loop that is left to itself** ends, or delivers all that the engine has made. -/
theorem Faithful.settle_ends (h : f.Faithful) :
    f.settle.1.isOver ∨ f.settle.1.delivered = f.made.length := by
  have hmade : f.settle.1.made = f.made := congrArg (·.1) f.settle_incoming
  rw [← hmade]
  rcases next?_eq_none_iff.1 f.settle_eq_run.1 with ⟨reason, hs⟩ | ⟨hs, -, -, -, hall⟩
  · exact Or.inl (by simp [isOver, hs])
  · -- it waits, so that all items have been taken, and none is in hand
    exact Or.inr ((h.settle.racing hs).symm.trans (le_antisymm h.settle.taken.2.2 hall))

/-- **It is left only if the client is**: if it has closed the connection or lost it. -/
theorem Faithful.settle_left (h : f.Faithful) (hl : f.settle.1.reason? = some .left) :
    f.reason? = some .left ∨ f.lost = true ∨ .close ∈ f.received := by
  have hin := f.settle_incoming
  simp only [incoming, Prod.mk.injEq] at hin
  obtain ⟨-, -, hreceived, hlost⟩ := hin
  rcases h.settle.left hl with ⟨-, hclose | hgone⟩ | ⟨htaken, -⟩
  · right; right
    rw [← hreceived]
    exact List.mem_of_mem_take hclose
  · exact Or.inr (Or.inl (hlost.symm.trans hgone))
  · obtain ⟨-, es, hown, hrun⟩ := f.settle_eq_run
    rw [hrun] at hl htaken
    rcases run_leftInHand h ⟨hl, htaken⟩ with hl' | hmem
    · exact Or.inl hl'.1
    · exact Or.inr (Or.inl ((hown .refused hmem).2 rfl))

/-! ## What is counted -/

/-- A transition counts a delivery, the end of the loop, or nothing. -/
theorem Transition.counts {es : List MeterEvent} (ht : f.Transition e f' es) :
    (f'.delivered = f.delivered ∧ f'.isOver = f.isOver ∧ es = []) ∨
      (f'.delivered = f.delivered + 1 ∧ f'.isOver = f.isOver ∧ es = [.update]) ∨
      (f'.delivered = f.delivered ∧ f.isOver = false ∧ f'.isOver = true ∧ es = [.closed]) := by
  have hsent : ∀ {g : Forwarding} {frames}, g.sent = f.sent ++ frames →
      frames.filterMap ServerFrame.text? = [] → g.delivered = f.delivered := by
    intro g frames hg hn
    unfold delivered
    rw [texts_of_sent hg, hn, List.append_nil]
  cases ht with
  | idle | made | ignored | feedEnd | received | loss => exact Or.inl ⟨rfl, rfl, rfl⟩
  | saw frame => exact Or.inl ⟨hsent rfl (texts_answer frame), rfl, rfl⟩
  | sawClose hs | sawLoss hs => exact Or.inr (Or.inr ⟨rfl, by simp [isOver, hs], rfl, rfl⟩)
  | completed hs => exact Or.inl ⟨hsent rfl (texts_farewell _), by simp [isOver, hs, part], rfl⟩
  | failed failure hs =>
    exact Or.inl ⟨hsent rfl (texts_farewell (.failed failure)), by simp [isOver, hs, part], rfl⟩
  | took trade hs => exact Or.inl ⟨rfl, by simp [isOver, hs], rfl⟩
  | accepted trade hs =>
    refine Or.inr (Or.inl ⟨?_, by simp [isOver, hs], rfl⟩)
    unfold delivered
    rw [texts_of_sent (f := f) rfl, List.length_append]; rfl
  | refused trade hs | parted reason hs =>
    exact Or.inr (Or.inr ⟨rfl, by simp [isOver, hs], rfl, rfl⟩)

/-- A loop that is over delivers nothing more. -/
theorem Transition.not_isOver {es : List MeterEvent} (ht : f.Transition e f' es)
    (h : f.delivered < f'.delivered) : f.isOver = false := by
  cases hs : f.stage with
  | «over» reason =>
    have hsent : f'.sent = f.sent := (ht.frozen (by simp [reason?, hs])).1
    unfold delivered texts at h
    rw [hsent] at h
    exact absurd h (lt_irrefl _)
  | _ => simp [isOver, hs]

/-- **What a transition counts comes after what has been counted.** -/
theorem Transition.counted_eq {es : List MeterEvent} (ht : f.Transition e f' es) :
    f'.counted = f.counted ++ es := by
  unfold counted
  rcases ht.counts with ⟨hd, ho, rfl⟩ | ⟨hd, ho, rfl⟩ | ⟨hd, ho, ho', rfl⟩
  · rw [hd, ho, List.append_nil]
  · have hwork : f.isOver = false := ht.not_isOver (by omega)
    rw [hd, ho, hwork, List.replicate_succ']
    simp
  · rw [hd, ho, ho']
    simp

theorem run_counted (f : Forwarding) (es : List ForwardingEvent) :
    (f.run es).1.counted = f.counted ++ (f.run es).2 := by
  induction es generalizing f with
  | nil => exact (List.append_nil _).symm
  | cons e es ih =>
    rw [run_cons, ih, (step_transition f e).counted_eq, List.append_assoc]

theorem changes_counted (f : Forwarding) (s : Series) :
    changes f.counted s = MeterEvent.opened.changeOf s + f.delivered * MeterEvent.update.changeOf s +
      if f.isOver then MeterEvent.closed.changeOf s else 0 := by
  have hrep : ∀ n, changes (List.replicate n .update) s = n * MeterEvent.update.changeOf s := by
    intro n
    rw [changes, List.map_replicate, List.sum_replicate, nsmul_eq_mul]
  unfold counted
  rw [changes_cons, changes_append, hrep, ← add_assoc]
  cases f.isOver <;> simp

theorem changes_counted_updates (f : Forwarding) :
    changes f.counted .tradeUpdates = f.delivered := by
  rw [changes_counted]
  simp [MeterEvent.changeOf, MeterEvent.series?, MeterEvent.change]

theorem changes_counted_active (f : Forwarding) :
    changes f.counted .activeSubscriptions = if !f.isOver then 1 else 0 := by
  rw [changes_counted]
  cases f.isOver <;> simp [MeterEvent.changeOf, MeterEvent.series?, MeterEvent.change]

end Forwarding

end OrderRelay
