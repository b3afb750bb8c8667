import Mathlib.Data.Nat.Notation
import OrderRelay.Trades.Forwarding

/-!
# What can happen to a subscription

* `Forwarding.Transition`: the ways in which a subscription can change with an event,
  each with what must hold before it and what is counted.
* `step_transition`: a step is one of these.
* `run_frozen`: once its close frame is handed over or it is over, a loop sends
  nothing more.
* `run_incoming`: what the engine has made, what the client has sent and whether the
  connection is lost is all that the events say, whatever the loop has done.
* `Next`, `next?_eq_none_iff`: what a loop does by itself, and when it has nothing left
  to do.
* `settle_eq_run`: what the loop does by itself is a run of events of its own, and ends
  with nothing left to do.
-/

namespace OrderRelay

/-- The item that the engine makes with an event. -/
def ForwardingEvent.item? : ForwardingEvent → Option FeedItem
  | .made item => some item
  | _ => none

/-- The frame that comes with an event. -/
def ForwardingEvent.frame? : ForwardingEvent → Option ClientFrame
  | .received frame => some frame
  | _ => none

/-- The engine makes no more after the event. -/
def ForwardingEvent.isFeedEnd : ForwardingEvent → Bool
  | .feedEnd => true
  | _ => false

/-- The connection is lost with the event. -/
def ForwardingEvent.isLoss : ForwardingEvent → Bool
  | .loss => true
  | _ => false

/-- The event comes from outside the loop: from the engine, from the client, or from the
connection. -/
def ForwardingEvent.isIncoming : ForwardingEvent → Bool
  | .made _ | .feedEnd | .received _ | .loss => true
  | _ => false

/-- Nothing comes in with an event of the loop. -/
theorem ForwardingEvent.nothing_of_own {e : ForwardingEvent} (he : e.isIncoming = false) :
    e.item? = none ∧ e.isFeedEnd = false ∧ e.frame? = none ∧ e.isLoss = false := by
  cases e with
  | made | feedEnd | received | loss => cases he
  | _ => exact ⟨rfl, rfl, rfl, rfl⟩

namespace Forwarding

/-- **What can happen to a subscription** with an event, and what is counted. -/
inductive Transition (f : Forwarding) :
    ForwardingEvent → Forwarding → List MeterEvent → Prop where
  | made (item : FeedItem) (hf : f.feedEnded = false) :
    Transition f (.made item) { f with made := f.made ++ [item] } []
  /-- A feed that has ended makes no more. -/
  | ignored (item : FeedItem) (hf : f.feedEnded = true) : Transition f (.made item) f []
  | feedEnd : Transition f .feedEnd { f with feedEnded := true } []
  | received (frame : ClientFrame) :
    Transition f (.received frame) { f with received := f.received ++ [frame] } []
  | loss : Transition f .loss { f with lost := true } []
  /-- The loop finds nothing to do, or does not stand where it could. -/
  | idle (e : ForwardingEvent) (he : e.isIncoming = false) : Transition f e f []
  /-- The loop sees a frame that does not matter. -/
  | saw (frame : ClientFrame) (hs : f.stage = .racing) (hf : f.received[f.seen]? = some frame)
    (hne : frame ≠ .close) :
    Transition f .lookAtClient { f with seen := f.seen + 1, sent := f.sent ++ answer frame } []
  | sawClose (hs : f.stage = .racing) (hf : f.received[f.seen]? = some .close) :
    Transition f .lookAtClient (finish { f with seen := f.seen + 1 } .left).1 [.closed]
  | sawLoss (hs : f.stage = .racing) (hf : f.received[f.seen]? = none) (hl : f.lost = true) :
    Transition f .lookAtClient (f.finish .left).1 [.closed]
  | completed (hs : f.stage = .racing) (hf : f.made[f.taken]? = none) (he : f.feedEnded = true) :
    Transition f .lookAtFeed (f.part .completed).1 []
  | failed (failure : EngineFailure) (hs : f.stage = .racing)
    (hf : f.made[f.taken]? = some (.error failure)) :
    Transition f .lookAtFeed (part { f with taken := f.taken + 1 } (.failed failure)).1 []
  | took (trade : TradeUpdate) (hs : f.stage = .racing) (hf : f.made[f.taken]? = some (.ok trade)) :
    Transition f .lookAtFeed { f with taken := f.taken + 1, stage := .sending trade } []
  | accepted (trade : TradeUpdate) (hs : f.stage = .sending trade) :
    Transition f .accepted
      { f with stage := .racing, sent := f.sent ++ [.text (Message.text trade)] } [.update]
  | refused (trade : TradeUpdate) (hs : f.stage = .sending trade) :
    Transition f .refused (f.finish .left).1 [.closed]
  | parted (reason : ForwardingEnd) (hs : f.stage = .parting reason) :
    Transition f .parted (f.finish reason).1 [.closed]

variable {f f' : Forwarding} {e : ForwardingEvent} {counted : List MeterEvent}

theorem takeFrame_transition (hs : f.stage = .racing) :
    f.Transition .lookAtClient f.takeFrame.1 f.takeFrame.2 := by
  unfold takeFrame
  split
  · rename_i hf
    by_cases hl : f.lost = true
    · rw [if_pos hl]; exact .sawLoss hs hf hl
    · rw [if_neg hl]; exact .idle _ rfl
  · rename_i hf
    exact .sawClose hs hf
  · rename_i frame hne hf
    exact .saw frame hs hf hne

theorem takeItem_transition (hs : f.stage = .racing) :
    f.Transition .lookAtFeed f.takeItem.1 f.takeItem.2 := by
  unfold takeItem
  split
  · rename_i hf
    by_cases he : f.feedEnded = true
    · rw [if_pos he]; exact .completed hs hf he
    · rw [if_neg he]; exact .idle _ rfl
  · rename_i failure hf
    exact .failed failure hs hf
  · rename_i trade hf
    exact .took trade hs hf

/-- **A step is a transition.** -/
theorem step_transition (f : Forwarding) (e : ForwardingEvent) :
    f.Transition e (f.step e).1 (f.step e).2 := by
  cases e with
  | made item =>
    by_cases he : f.feedEnded = true
    · simp only [step, if_pos he]; exact .ignored item he
    · simp only [step, if_neg he]; exact .made item (by simpa using he)
  | feedEnd => exact .feedEnd
  | received frame => exact .received frame
  | loss => exact .loss
  | lookAtClient =>
    cases hs : f.stage with
    | racing => simp only [step, hs]; exact takeFrame_transition hs
    | sending | parting | «over» => simp only [step, hs]; exact .idle _ rfl
  | lookAtFeed =>
    cases hs : f.stage with
    | racing => simp only [step, hs]; exact takeItem_transition hs
    | sending | parting | «over» => simp only [step, hs]; exact .idle _ rfl
  | accepted =>
    cases hs : f.stage with
    | sending trade => simp only [step, hs]; exact .accepted trade hs
    | racing | parting | «over» => simp only [step, hs]; exact .idle _ rfl
  | refused =>
    cases hs : f.stage with
    | sending trade => simp only [step, hs]; exact .refused trade hs
    | racing | parting | «over» => simp only [step, hs]; exact .idle _ rfl
  | parted =>
    cases hs : f.stage with
    | parting reason => simp only [step, hs]; exact .parted reason hs
    | racing | sending | «over» => simp only [step, hs]; exact .idle _ rfl

/-- Why a loop has come to its end, if it has. -/
def reason? (f : Forwarding) : Option ForwardingEnd :=
  match f.stage with
  | .parting reason | .over reason => some reason
  | _ => none

/-- **A loop that has come to its end stays there and sends nothing more.** -/
theorem Transition.frozen (h : f.Transition e f' counted) (hr : f.reason?.isSome) :
    f'.sent = f.sent ∧ f'.reason? = f.reason? := by
  have hrace : f.stage ≠ .racing := by
    intro hs; simp [reason?, hs] at hr
  have hsend : ∀ trade, f.stage ≠ .sending trade := by
    intro trade hs; simp [reason?, hs] at hr
  cases h with
  | idle | made | ignored | feedEnd | received | loss => exact ⟨rfl, rfl⟩
  | saw _ hs | sawClose hs | sawLoss hs | completed hs | failed _ hs | took _ hs =>
    exact absurd hs hrace
  | accepted trade hs | refused trade hs => exact absurd hs (hsend trade)
  | parted reason hs => exact ⟨rfl, by simp [reason?, finish, hs]⟩

theorem run_cons (f : Forwarding) (e : ForwardingEvent) (es : List ForwardingEvent) :
    f.run (e :: es) =
      (((f.step e).1.run es).1, (f.step e).2 ++ ((f.step e).1.run es).2) := rfl

/-- **A loop that has come to its end sends nothing more**, whatever comes. -/
theorem run_frozen (hr : f.reason?.isSome) (es : List ForwardingEvent) :
    (f.run es).1.sent = f.sent := by
  induction es generalizing f with
  | nil => rfl
  | cons e es ih =>
    obtain ⟨hsent, hreason⟩ := (step_transition f e).frozen hr
    have hr' : (f.step e).1.reason?.isSome := by rw [hreason]; exact hr
    exact (ih hr').trans hsent

/-! ## What comes in -/

/-- What has come in: what the engine has made and whether it makes more, what the client has sent,
and whether the connection is lost. -/
def incoming (f : Forwarding) : List FeedItem × Bool × List ClientFrame × Bool :=
  (f.made, f.feedEnded, f.received, f.lost)

theorem Transition.incoming_eq (h : f.Transition e f' counted) (he : e.isIncoming = false) :
    f'.incoming = f.incoming := by
  cases h with
  | made | ignored | feedEnd | received | loss => cases he
  | _ => rfl

/-- **What comes in with an event**, as long as the feed is open. -/
theorem step_incoming (f : Forwarding) (e : ForwardingEvent) :
    (f.step e).1.incoming = (f.made ++ (if f.feedEnded then [] else e.item?.toList),
      f.feedEnded || e.isFeedEnd, f.received ++ e.frame?.toList, f.lost || e.isLoss) := by
  cases he : e.isIncoming with
  | true =>
    unfold ForwardingEvent.item? ForwardingEvent.isFeedEnd ForwardingEvent.frame?
      ForwardingEvent.isLoss
    cases e with
    | made item => cases hf : f.feedEnded <;> simp [step, incoming, hf]
    | feedEnd | received | loss => simp [step, incoming]
    | _ => cases he
  | false =>
    obtain ⟨hitem, hend, hframe, hloss⟩ := e.nothing_of_own he
    rw [(f.step_transition e).incoming_eq he, hitem, hend, hframe, hloss]
    simp [incoming]

/-- **What has come in after a run**: all that the engine has made until its end, all frames, and
the loss of the connection. -/
theorem run_incoming (f : Forwarding) (es : List ForwardingEvent) :
    (f.run es).1.made = f.made ++ (if f.feedEnded then []
        else (es.takeWhile (!·.isFeedEnd)).filterMap ForwardingEvent.item?) ∧
      (f.run es).1.feedEnded = (f.feedEnded || es.any (·.isFeedEnd)) ∧
      (f.run es).1.received = f.received ++ es.filterMap ForwardingEvent.frame? ∧
      (f.run es).1.lost = (f.lost || es.any (·.isLoss)) := by
  induction es generalizing f with
  | nil => simp [run]
  | cons e es ih =>
    have hincoming := f.step_incoming e
    simp only [incoming, Prod.mk.injEq] at hincoming
    obtain ⟨hmade, hended, hreceived, hlost⟩ := hincoming
    obtain ⟨ihmade, ihended, ihreceived, ihlost⟩ := ih (f.step e).1
    rw [run_cons]
    refine ⟨?_, ?_, ?_, ?_⟩
    · rw [ihmade, hmade, hended]
      cases f.feedEnded with
      | true => simp
      | false =>
        cases he : e.isFeedEnd with
        | true =>
          have hitem : e.item? = none := by cases e <;> first | rfl | cases he
          simp [he, hitem]
        | false => cases hi : e.item? <;> simp [he, hi]
    · rw [ihended, hended, List.any_cons, Bool.or_assoc]
    · rw [ihreceived, hreceived]
      cases hi : e.frame? <;> simp [hi]
    · rw [ihlost, hlost, List.any_cons, Bool.or_assoc]

/-! ## The loop by itself -/

/-- **A loop has nothing left to do** if it is over, or if it waits, its client is there and silent,
and its feed has not ended and holds no more. -/
theorem next?_eq_none_iff : f.next? = none ↔ (∃ reason, f.stage = .over reason) ∨
    (f.stage = .racing ∧ f.lost = false ∧ f.received.length ≤ f.seen ∧
      f.feedEnded = false ∧ f.made.length ≤ f.taken) := by
  unfold next?
  cases hs : f.stage with
  | racing =>
    simp only [Bool.or_eq_true, decide_eq_true_eq]
    split
    · simp; grind
    · split <;> simp <;> grind
  | sending | parting | «over» => simp

/-- What the loop may still have to do. -/
def load (f : Forwarding) : ℕ :=
  (f.received.length - f.seen) + 2 * (f.made.length - f.taken) +
    match f.stage with
    | .sending _ => 3
    | .racing => 2
    | .parting _ => 1
    | .over _ => 0

theorem load_le_work (f : Forwarding) : f.load ≤ f.work := by
  unfold load work
  cases f.stage <;> simp

/-- Looking at the client takes a frame, or ends the loop. -/
theorem load_takeFrame (hs : f.stage = .racing) (h : f.lost = true ∨ f.seen < f.received.length) :
    f.takeFrame.1.load < f.load := by
  unfold takeFrame
  split
  · rename_i hf
    have hall : f.received.length ≤ f.seen := List.getElem?_eq_none_iff.1 hf
    have hlost : f.lost = true := h.resolve_right (Nat.not_lt.2 hall)
    simp [hlost, finish, load, hs]
  · rename_i hf
    obtain ⟨hlt, -⟩ := List.getElem?_eq_some_iff.1 hf
    simp only [finish, load, hs]
    omega
  · rename_i hf
    obtain ⟨hlt, -⟩ := List.getElem?_eq_some_iff.1 hf
    simp only [load, hs]
    omega

/-- Looking at the feed takes an item, or has the loop part. -/
theorem load_takeItem (hs : f.stage = .racing) (h : f.feedEnded = true ∨ f.taken < f.made.length) :
    f.takeItem.1.load < f.load := by
  unfold takeItem
  split
  · rename_i hf
    have hall : f.made.length ≤ f.taken := List.getElem?_eq_none_iff.1 hf
    have hended : f.feedEnded = true := h.resolve_right (Nat.not_lt.2 hall)
    simp [hended, part, load, hs]
  · rename_i hf
    obtain ⟨hlt, -⟩ := List.getElem?_eq_some_iff.1 hf
    simp only [part, load, hs]
    omega
  · rename_i hf
    obtain ⟨hlt, -⟩ := List.getElem?_eq_some_iff.1 hf
    simp only [load, hs]
    omega

/-- **What the loop does by itself**, with where it stands. -/
inductive Next (f : Forwarding) : ForwardingEvent → Prop where
  | lookAtClient (hs : f.stage = .racing) (hmore : f.lost = true ∨ f.seen < f.received.length) :
    Next f .lookAtClient
  | lookAtFeed (hs : f.stage = .racing) (hmore : f.feedEnded = true ∨ f.taken < f.made.length) :
    Next f .lookAtFeed
  | refused {trade : TradeUpdate} (hs : f.stage = .sending trade) (hlost : f.lost = true) :
    Next f .refused
  | accepted {trade : TradeUpdate} (hs : f.stage = .sending trade) : Next f .accepted
  | parted {reason : ForwardingEnd} (hs : f.stage = .parting reason) : Next f .parted

theorem next_of_next? {e : ForwardingEvent} (h : f.next? = some e) : f.Next e := by
  unfold next? at h
  split at h
  · cases h
  · rename_i reason hs
    obtain rfl := Option.some.inj h
    exact .parted hs
  · rename_i trade hs
    by_cases hlost : f.lost = true
    · rw [if_pos hlost] at h
      obtain rfl := Option.some.inj h
      exact .refused hs hlost
    · rw [if_neg hlost] at h
      obtain rfl := Option.some.inj h
      exact .accepted hs
  · rename_i hs
    split at h
    · rename_i hmore
      obtain rfl := Option.some.inj h
      exact .lookAtClient hs (by simpa using hmore)
    · split at h
      · rename_i hmore
        obtain rfl := Option.some.inj h
        exact .lookAtFeed hs (by simpa using hmore)
      · cases h

/-- **Whatever the loop does, it has less to do after that.** -/
theorem load_step_lt {e : ForwardingEvent} (h : f.next? = some e) : (f.step e).1.load < f.load := by
  cases next_of_next? h with
  | lookAtClient hs hmore =>
    have hstep : f.step .lookAtClient = f.takeFrame := by simp only [step, hs]
    rw [hstep]
    exact load_takeFrame hs hmore
  | lookAtFeed hs hmore =>
    have hstep : f.step .lookAtFeed = f.takeItem := by simp only [step, hs]
    rw [hstep]
    exact load_takeItem hs hmore
  | refused hs => simp [step, hs, finish, load]
  | accepted hs => simp [step, hs, load]
  | parted hs => simp [step, hs, finish, load]

/-- Nothing comes in with what the loop does, and it has a trade refused only if the connection is
gone. -/
theorem next?_own {e : ForwardingEvent} (h : f.next? = some e) :
    e.isIncoming = false ∧ (e = .refused → f.lost = true) := by
  cases next_of_next? h with
  | refused _ hlost => exact ⟨rfl, fun _ => hlost⟩
  | lookAtClient | lookAtFeed | accepted | parted => exact ⟨rfl, nofun⟩

/-- A run of events of the loop changes nothing of what has come in. -/
theorem run_own {es : List ForwardingEvent} (hes : ∀ e ∈ es, e.isIncoming = false) :
    (f.run es).1.incoming = f.incoming := by
  induction es generalizing f with
  | nil => rfl
  | cons e es ih =>
    rw [List.forall_mem_cons] at hes
    rw [run_cons]
    exact (ih hes.2).trans ((f.step_transition e).incoming_eq hes.1)

/-- **What the loop does by itself is a run** of events of its own, after which it has nothing left
to do, and in which a trade is refused only if the connection is gone. -/
theorem settle_eq_run (f : Forwarding) : f.settle.1.next? = none ∧
    ∃ es, (∀ e ∈ es, e.isIncoming = false ∧ (e = .refused → f.lost = true)) ∧
      f.settle = f.run es := by
  have key : ∀ (n : ℕ) (f : Forwarding), f.load ≤ n → (settleWithin n f).1.next? = none ∧
      ∃ es, (∀ e ∈ es, e.isIncoming = false ∧ (e = .refused → f.lost = true)) ∧
        settleWithin n f = f.run es := by
    intro n
    induction n with
    | zero =>
      intro f hn
      refine ⟨?_, [], by simp, rfl⟩
      cases h : f.next? with
      | none => exact h
      | some e =>
        have := load_step_lt h
        omega
    | succ n ih =>
      intro f hn
      unfold settleWithin
      cases h : f.next? with
      | none => exact ⟨h, [], by simp, rfl⟩
      | some e =>
        have hlt := load_step_lt h
        obtain ⟨hnext, es, hown, hes⟩ := ih (f.step e).1 (by omega)
        have hlost : (f.step e).1.lost = f.lost :=
          congrArg (·.2.2.2) ((f.step_transition e).incoming_eq (next?_own h).1)
        rw [hlost] at hown
        refine ⟨hnext, e :: es, ?_, ?_⟩
        · exact List.forall_mem_cons.2 ⟨next?_own h, hown⟩
        · simp only [run, hes]
  exact key f.work f f.load_le_work

/-- The loop by itself changes nothing of what has come in. -/
theorem settle_incoming (f : Forwarding) : f.settle.1.incoming = f.incoming := by
  obtain ⟨-, es, hown, hrun⟩ := f.settle_eq_run
  rw [hrun]
  exact run_own fun e he => (hown e he).1

end Forwarding

end OrderRelay
