import OrderRelay.Proofs.Trades.Subscriptions

/-!
# Chatter of clients

Texts, binary frames, pings and pongs of a client do not matter, however many there are and whenever
they come: take them out of a run, together with the looks with which the loop takes them, and the
rest goes on as it did.

* `ClientFrame.isChatter`: a frame that does not matter.
* `Forwarding.hush`, `Forwarding.quiet`: a subscription and a run without the chatter.
* `hush_step`, `hush_step_of_isChatter`: an event does without chatter what it does with it,
  and chatter does nothing.
* `run_hush`: so a run without its chatter ends as the run does, and has counted the same.
* `exists_quiet_eq`: whatever else the client sends, the rest of the run can go on as it did.
* `Faithful.alike_of_settled`: how a subscription ends is up to the feed and to where the client
  leaves it.
* `chatter_changes_nothing`: **all that together**, for one subscription and for the service.
-/

namespace OrderRelay

/-- A frame that does not matter: all but the close frame. -/
def ClientFrame.isChatter (frame : ClientFrame) : Bool := frame != .close

/-- Chatter comes in with the event. -/
def ForwardingEvent.bringsChatter : ForwardingEvent → Bool
  | .received frame => frame.isChatter
  | _ => false

namespace Forwarding

/-- Chatter comes in with the event, or the loop takes a frame of it. -/
def isChatter (f : Forwarding) (e : ForwardingEvent) : Bool :=
  match e, f.stage with
  | .received frame, _ => frame.isChatter
  | .lookAtClient, .racing => f.received[f.seen]?.any ClientFrame.isChatter
  | _, _ => false

/-- **The run without the chatter.** -/
def quiet (f : Forwarding) : List ForwardingEvent → List ForwardingEvent
  | [] => []
  | e :: es => (if f.isChatter e then [] else [e]) ++ quiet (f.step e).1 es

/-- **The subscription without the chatter**: as if no such frame had come in, been seen or
answered. -/
def hush (f : Forwarding) : Forwarding :=
  { f with
    received := f.received.filter (!·.isChatter)
    seen := ((f.received.take f.seen).filter (!·.isChatter)).length
    sent := f.heard }

variable {f g : Forwarding} {e : ForwardingEvent}

/-! ## Without the chatter -/

theorem Alike.of_hush_eq (h : f.hush = g.hush) : f.Alike g where
  heard := show f.hush.sent = g.hush.sent by rw [h]
  stage := show f.hush.stage = g.hush.stage by rw [h]
  released := show f.hush.released = g.hush.released by rw [h]

theorem start_hush (feed : Feed) : (start feed).hush = start feed := rfl

/-- The frame that comes next without the chatter, unless it is chatter that comes next. -/
theorem hush_getElem? (h : f.received[f.seen]?.any ClientFrame.isChatter = false) :
    f.hush.received[f.hush.seen]? = f.received[f.seen]? := by
  have hsplit : f.hush.received = (f.received.take f.seen).filter (!·.isChatter) ++
      (f.received.drop f.seen).filter (!·.isChatter) := by
    rw [← List.filter_append, List.take_append_drop]
    rfl
  have hseen : f.hush.seen = ((f.received.take f.seen).filter (!·.isChatter)).length := rfl
  have hnext : f.received[f.seen]? = (f.received.drop f.seen).head? := List.head?_drop.symm
  rw [hsplit, hseen, List.getElem?_append_right le_rfl, Nat.sub_self]
  rw [hnext] at h ⊢
  cases hrest : f.received.drop f.seen with
  | nil => rfl
  | cons frame frames =>
    rw [hrest] at h
    have hframe : frame.isChatter = false := h
    rw [List.filter_cons_of_pos (by simp [hframe])]
    rfl

/-- A look at chatter takes a frame of it, and answers it on the spot. -/
theorem look_of_isChatter (h : f.isChatter .lookAtClient = true) :
    ∃ frame, f.received[f.seen]? = some frame ∧ frame.isChatter = true ∧
      f.step .lookAtClient =
        ({ f with seen := f.seen + 1, sent := f.sent ++ answer frame }, []) := by
  cases hs : f.stage with
  | racing =>
    have hany : f.received[f.seen]?.any ClientFrame.isChatter = true := by
      simpa only [isChatter, hs] using h
    cases hf : f.received[f.seen]? with
    | none => rw [hf] at hany; cases hany
    | some frame =>
      rw [hf] at hany
      have hne : frame ≠ .close := by rintro rfl; cases hany
      exact ⟨frame, rfl, hany, by simp only [step, hs, takeFrame, hf]⟩
  | sending | parting | «over» => simp only [isChatter, hs, Bool.false_eq_true] at h

/-- All other events that are chatter bring it. -/
theorem isChatter_eq_bringsChatter (he : e ≠ .lookAtClient) : f.isChatter e = e.bringsChatter := by
  cases e <;> first | rfl | exact absurd rfl he

/-- **Chatter does nothing.** -/
theorem hush_step_of_isChatter (h : f.Faithful) (he : f.isChatter e = true) :
    (f.step e).1.hush = f.hush ∧ (f.step e).2 = [] := by
  by_cases hlook : e = .lookAtClient
  · subst hlook
    obtain ⟨frame, hf, hframe, hstep⟩ := look_of_isChatter he
    rw [hstep]
    refine ⟨?_, rfl⟩
    simp [hush, heard, List.take_add_one, hf, heard_answer, hframe]
  · rw [isChatter_eq_bringsChatter hlook] at he
    cases e with
    | received frame =>
      have hframe : frame.isChatter = true := he
      refine ⟨?_, rfl⟩
      simp only [step, hush, List.filter_append, List.take_append_of_le_length h.seen]
      rw [List.filter_cons_of_neg (by simp [hframe]), List.filter_nil, List.append_nil]
      rfl
    | _ => cases he

theorem hush_finish (f : Forwarding) (reason : ForwardingEnd) :
    f.hush.finish reason = ((f.finish reason).1.hush, [.closed]) := rfl

/-- The close frame is no pong. -/
theorem hush_part (f : Forwarding) (reason : ForwardingEnd) :
    f.hush.part reason = ((f.part reason).1.hush, []) := by
  simp only [part, hush, heard, List.filter_append, heard_farewell]

/-- The loop finds the same frame. -/
theorem hush_takeFrame (h : f.received[f.seen]?.any ClientFrame.isChatter = false) :
    f.hush.takeFrame = (f.takeFrame.1.hush, f.takeFrame.2) := by
  have hnext := hush_getElem? h
  have hlost : f.hush.lost = f.lost := rfl
  unfold takeFrame
  rw [hnext, hlost]
  cases hf : f.received[f.seen]? with
  | none => cases f.lost <;> rfl
  | some frame =>
    cases frame with
    | close => simp [finish, hush, heard, List.take_add_one, hf, ClientFrame.isChatter]
    | _ => rw [hf] at h; cases h

/-- The loop finds the same item. -/
theorem hush_takeItem (f : Forwarding) : f.hush.takeItem = (f.takeItem.1.hush, f.takeItem.2) := by
  have hmade : f.hush.made[f.hush.taken]? = f.made[f.taken]? := rfl
  have hended : f.hush.feedEnded = f.feedEnded := rfl
  unfold takeItem
  rw [hmade, hended]
  cases f.made[f.taken]? with
  | none =>
    cases f.feedEnded with
    | true => exact hush_part f .completed
    | false => rfl
  | some item =>
    cases item with
    | error failure => exact hush_part { f with taken := f.taken + 1 } (.failed failure)
    | ok trade => rfl

/-- **Everything else does without the chatter what it does with it.** -/
theorem hush_step (h : f.Faithful) (he : f.isChatter e = false) :
    f.hush.step e = ((f.step e).1.hush, (f.step e).2) := by
  have hstage : f.hush.stage = f.stage := rfl
  cases e with
  | made item =>
    have hended : f.hush.feedEnded = f.feedEnded := rfl
    simp only [step, hended]
    cases f.feedEnded <;> rfl
  | feedEnd | loss => rfl
  | received frame =>
    have hframe : frame.isChatter = false := by simpa [isChatter] using he
    simp only [step, hush, List.filter_append, List.take_append_of_le_length h.seen]
    rw [List.filter_cons_of_pos (by simp [hframe]), List.filter_nil]
    rfl
  | lookAtClient =>
    cases hs : f.stage with
    | racing =>
      simp only [step, hstage, hs]
      exact hush_takeFrame (by simpa [isChatter, hs] using he)
    | sending | parting | «over» => simp only [step, hstage, hs]
  | lookAtFeed =>
    cases hs : f.stage with
    | racing =>
      simp only [step, hstage, hs]
      exact hush_takeItem f
    | sending | parting | «over» => simp only [step, hstage, hs]
  | accepted =>
    cases hs : f.stage with
    | sending trade =>
      simp only [step, hs, hush, heard, List.filter_append]
      rfl
    | racing | parting | «over» => simp only [step, hstage, hs]
  | refused | parted =>
    cases hs : f.stage <;> (simp only [step, hstage, hs, hush_finish]; try rfl)

/-- **A run without its chatter** ends as the run does, and has counted the same. -/
theorem run_hush (h : f.Faithful) (es : List ForwardingEvent) :
    f.hush.run (f.quiet es) = ((f.run es).1.hush, (f.run es).2) := by
  induction es generalizing f with
  | nil => rfl
  | cons e es ih =>
    have hnext := ih ((step_transition f e).faithful h)
    rw [quiet, run_cons]
    cases he : f.isChatter e with
    | true =>
      obtain ⟨hsame, hnone⟩ := hush_step_of_isChatter h he
      rw [if_pos rfl, List.nil_append, ← hsame, hnext, hnone, List.nil_append]
    | false => rw [if_neg (by simp), List.singleton_append, run_cons, hush_step h he, hnext]

/-! ## With other chatter -/

theorem run_append (f : Forwarding) (es es' : List ForwardingEvent) :
    f.run (es ++ es') = (((f.run es).1.run es').1, (f.run es).2 ++ ((f.run es).1.run es').2) := by
  induction es generalizing f with
  | nil => rfl
  | cons e es ih => rw [List.cons_append, run_cons, ih, run_cons, List.append_assoc]

theorem quiet_append (f : Forwarding) (es es' : List ForwardingEvent) :
    f.quiet (es ++ es') = f.quiet es ++ (f.run es).1.quiet es' := by
  induction es generalizing f with
  | nil => rfl
  | cons e es ih => rw [List.cons_append, quiet, ih, quiet, run_cons, List.append_assoc]

/-- What comes in is chatter or not, wherever the loop stands. -/
theorem isChatter_of_isIncoming (f : Forwarding) (he : e.isIncoming = true) :
    f.isChatter e = e.bringsChatter :=
  isChatter_eq_bringsChatter (by rintro rfl; cases he)

/-- Nothing is left of a run in which only chatter comes in. -/
theorem quiet_eq_nil {es : List ForwardingEvent} (hin : ∀ e ∈ es, e.isIncoming = true)
    (h : ∀ e ∈ es, e.bringsChatter = true) : f.quiet es = [] := by
  induction es generalizing f with
  | nil => rfl
  | cons e es ih =>
    rw [List.forall_mem_cons] at hin h
    rw [quiet, isChatter_of_isIncoming f hin.1, h.1, if_pos rfl, List.nil_append]
    exact ih hin.2 h.2

/-- What is left of a run has all that comes in but the chatter. -/
theorem filter_quiet (f : Forwarding) (es : List ForwardingEvent) :
    (f.quiet es).filter (·.isIncoming) =
      (es.filter (·.isIncoming)).filter (!·.bringsChatter) := by
  induction es generalizing f with
  | nil => rfl
  | cons e es ih =>
    rw [quiet, List.filter_append, ih]
    cases hin : e.isIncoming with
    | true =>
      rw [isChatter_of_isIncoming f hin, List.filter_cons_of_pos hin]
      cases hchatter : e.bringsChatter <;> simp [hin, hchatter]
    | false =>
      rw [List.filter_cons_of_neg (by simp [hin])]
      cases f.isChatter e <;> simp [hin]

/-- **The loop can look past the chatter** that has come in. -/
theorem exists_looks (f : Forwarding) (he : e.bringsChatter = false) :
    ∃ looks : List ForwardingEvent, looks.filter (·.isIncoming) = [] ∧ f.quiet looks = [] ∧
      (f.run looks).1.isChatter e = false := by
  -- by induction on the number of frames that the loop has not seen
  induction hn : f.received.length - f.seen using Nat.strong_induction_on generalizing f with
  | _ n ih =>
    cases hc : f.isChatter e with
    | false => exact ⟨[], rfl, rfl, hc⟩
    | true =>
      obtain rfl : e = .lookAtClient := by
        by_contra hne
        rw [isChatter_eq_bringsChatter hne, he] at hc
        cases hc
      obtain ⟨frame, hf, -, hstep⟩ := look_of_isChatter hc
      have hlt : f.seen < f.received.length := (List.getElem?_eq_some_iff.1 hf).1
      obtain ⟨looks, hown, hquiet, hpast⟩ := ih (f.received.length - (f.seen + 1))
        (by omega) (f.step .lookAtClient).1 (by rw [hstep])
      refine ⟨.lookAtClient :: looks, ?_, ?_, hpast⟩
      · rw [List.filter_cons_of_neg (by simp [ForwardingEvent.isIncoming])]
        exact hown
      · rw [quiet, hc, if_pos rfl, List.nil_append]
        exact hquiet

/-- **Whatever chatter comes in, the rest of a run can go on as it does**, if what comes in without
the chatter is the same. -/
theorem exists_quiet_eq (f : Forwarding) {es incoming : List ForwardingEvent}
    (hin : ∀ e ∈ incoming, e.isIncoming = true)
    (hsame : es.filter (·.isIncoming) = incoming.filter (!·.bringsChatter)) :
    ∃ es', es'.filter (·.isIncoming) = incoming ∧ f.quiet es' = es := by
  induction es generalizing f incoming with
  | nil =>
    refine ⟨incoming, List.filter_eq_self.2 hin, quiet_eq_nil hin fun e he => ?_⟩
    simpa using List.filter_eq_nil_iff.1 hsame.symm e he
  | cons e es ih =>
    cases he : e.isIncoming with
    | true =>
      rw [List.filter_cons_of_pos he] at hsame
      -- the chatter that comes in before the event goes in front of it
      obtain ⟨chatter, rest, rfl, hchatter, hcalm, hrest⟩ := List.filter_eq_cons_iff.1 hsame.symm
      rw [List.forall_mem_append, List.forall_mem_cons] at hin
      obtain ⟨es', hes', hquiet⟩ := ih ((f.run chatter).1.step e).1 hin.2.2 hrest.symm
      refine ⟨chatter ++ e :: es', ?_, ?_⟩
      · rw [List.filter_append, List.filter_eq_self.2 hin.1, List.filter_cons_of_pos he, hes']
      · have hnone : f.quiet chatter = [] :=
          quiet_eq_nil hin.1 fun e he => by simpa using hchatter e he
        have hkept : (f.run chatter).1.isChatter e = false := by
          rw [isChatter_of_isIncoming _ he]
          simpa using hcalm
        rw [quiet_append, hnone, quiet, hkept, hquiet]
        rfl
    | false =>
      rw [List.filter_cons_of_neg (by simp [he])] at hsame
      have hcalm : e.bringsChatter = false := by cases e <;> first | rfl | cases he
      obtain ⟨looks, hown, hnone, hkept⟩ := exists_looks f hcalm
      obtain ⟨es', hes', hquiet⟩ := ih ((f.run looks).1.step e).1 hin hsame
      refine ⟨looks ++ e :: es', ?_, ?_⟩
      · rw [List.filter_append, hown, List.filter_cons_of_neg (by simp [he]), hes']
        rfl
      · rw [quiet_append, hnone, quiet, hkept, hquiet]
        rfl

/-- **Runs that differ in chatter only** leave subscriptions that are alike, have taken as much from
the feed, and have counted the same. -/
theorem alike_of_quiet_eq (h : f.Faithful) {es es' : List ForwardingEvent}
    (hsame : f.quiet es' = f.quiet es) :
    (f.run es').1.Alike (f.run es).1 ∧ (f.run es').1.taken = (f.run es).1.taken ∧
      (f.run es').2 = (f.run es).2 := by
  have hrun := run_hush h es'
  rw [hsame, run_hush h es, Prod.mk.injEq] at hrun
  have htaken : (f.run es').1.hush.taken = (f.run es).1.hush.taken := by rw [hrun.1]
  exact ⟨.of_hush_eq hrun.1.symm, htaken, hrun.2.symm⟩

end Forwarding

/-! ## In the service -/

namespace Subscriptions

open Forwarding

variable {s : Subscriptions}

/-- The event is chatter at the subscription that it is meant for. -/
def isChatter (s : Subscriptions) : Event → Bool
  | .opened _ => false
  | .at i e => s.all[i]?.any (·.isChatter e)

/-- The run without the chatter of all clients. -/
def quiet (s : Subscriptions) : List Event → List Event
  | [] => []
  | e :: es => (if s.isChatter e then [] else [e]) ++ quiet (s.step e) es

/-- All subscriptions without the chatter. -/
def hush (s : Subscriptions) : Subscriptions := ⟨s.all.map Forwarding.hush, s.readings⟩

theorem hush_getElem? (s : Subscriptions) (i : ℕ) :
    s.hush.all[i]? = s.all[i]?.map Forwarding.hush := List.getElem?_map

/-- Chatter does nothing, and everything else does without the chatter what it does with it. -/
theorem hush_step (h : s.Faithful) (e : Event) :
    (s.step e).hush = if s.isChatter e then s.hush else s.hush.step e := by
  cases e with
  | opened feed =>
    simp only [isChatter, step, hush, List.map_append, List.map_singleton, start_hush]
    rfl
  | «at» i e =>
    have hnext := s.hush_getElem? i
    cases hi : s.all[i]? with
    | none =>
      rw [hi] at hnext
      simp [isChatter, step, hi, hnext]
    | some f =>
      rw [hi, Option.map_some] at hnext
      have hf := h.each f (List.mem_of_getElem? hi)
      have hchatter : s.isChatter (.at i e) = f.isChatter e := by
        simp only [isChatter, hi, Option.any_some]
      rw [step_at hi, hchatter]
      cases he : f.isChatter e with
      | true =>
        obtain ⟨hsame, hnone⟩ := hush_step_of_isChatter hf he
        obtain ⟨hlt, hget⟩ := List.getElem?_eq_some_iff.1 hnext
        have hself : s.hush.all.set i f.hush = s.hush.all := by rw [← hget, List.set_getElem_self]
        rw [if_pos rfl, hnone]
        simp only [hush, List.map_set, hsame] at hself ⊢
        rw [hself]
        rfl
      | false =>
        rw [if_neg (by simp), step_at hnext, Forwarding.hush_step hf he, hush, List.map_set]
        rfl

/-- **A run without its chatter** ends as the run does. -/
theorem run_hush (h : s.Faithful) (es : List Event) :
    s.hush.run (s.quiet es) = (s.run es).hush := by
  induction es generalizing s with
  | nil => rfl
  | cons e es ih =>
    have hnext := ih (step_faithful h e)
    have hstep := hush_step h e
    rw [quiet, run_cons, ← hnext, hstep]
    cases s.isChatter e with
    | true => rfl
    | false => rfl

/-- Feeds are opened whether chatter comes in or not. -/
theorem feeds_quiet (s : Subscriptions) (es : List Event) :
    (s.quiet es).filterMap Event.feed? = es.filterMap Event.feed? := by
  induction es generalizing s with
  | nil => rfl
  | cons e es ih =>
    rw [quiet, List.filterMap_append, ih]
    cases e with
    | opened feed => rfl
    | «at» i e => cases s.isChatter (.at i e) <;> rfl

/-- **Chatter of clients changes nothing.**

* Of two runs of a subscription that differ in chatter only, neither the socket, pongs aside, nor
  the engine can tell one from the other: the same texts and the same close frame are handed over,
  as much is taken from the feed, it is given back as often, and the same is counted.
* Whatever chatter comes in, wherever it does, the rest of a run can go on as it does.
* However the loop goes from the client to the feed and back, two runs that are left to themselves
  end alike if the feed has made the same in both and if the client leaves after as many trades or
  not at all.
* The same holds in the service, whosever chatter it is: the engine is asked for the same feeds, all
  readings are the same, and so is what each subscription does. -/
theorem chatter_changes_nothing :
    (∀ (feed : Feed) (es : List ForwardingEvent),
      let f := (Forwarding.start feed).run es
      (∀ es', (Forwarding.start feed).quiet es' = (Forwarding.start feed).quiet es →
        let g := (Forwarding.start feed).run es'
        g.1.Alike f.1 ∧ g.1.taken = f.1.taken ∧ g.2 = f.2) ∧
      (∀ incoming : List ForwardingEvent, (∀ e ∈ incoming, e.isIncoming) →
        incoming.filter (!·.bringsChatter) =
          (es.filter (·.isIncoming)).filter (!·.bringsChatter) →
        ∃ es', es'.filter (·.isIncoming) = incoming ∧
          (Forwarding.start feed).quiet es' = (Forwarding.start feed).quiet es) ∧
      (∀ es', let g := (Forwarding.start feed).run es'
        g.1.made = f.1.made → g.1.feedEnded = f.1.feedEnded →
        f.1.next? = none → g.1.next? = none → g.1.leftAfter = f.1.leftAfter →
        g.1.Alike f.1 ∧ g.2 = f.2)) ∧
    ∀ es es' : List Event, start.quiet es' = start.quiet es →
      es'.filterMap Event.feed? = es.filterMap Event.feed? ∧
      (start.run es').readings = (start.run es).readings ∧
      (start.run es').all.length = (start.run es).all.length ∧
      ∀ (i : ℕ) (f g : Forwarding), (start.run es).all[i]? = some f →
        (start.run es').all[i]? = some g → g.Alike f ∧ g.taken = f.taken := by
  refine ⟨fun feed es => ⟨fun es' hsame => ?_, fun incoming hin hsame => ?_, fun es' => ?_⟩,
    fun es es' hsame => ?_⟩
  · exact alike_of_quiet_eq (Forwarding.start_faithful feed) hsame
  · refine exists_quiet_eq _ hin ?_
    rw [filter_quiet, hsame]
  · intro g hmade hended hfnext hgnext hleft
    have h := Forwarding.start_faithful feed
    have horder := start_inOrder feed
    obtain ⟨halike, hcounted⟩ := (h.run es).alike_of_settled (h.run es') (run_inOrder h horder es)
      (run_inOrder h horder es') hmade hended hfnext hgnext hleft
    rw [run_counted, run_counted] at hcounted
    exact ⟨halike, List.append_cancel_left hcounted⟩
  · have hrun := run_hush start_faithful es'
    rw [hsame, run_hush start_faithful es] at hrun
    have hall : (start.run es').hush.all = (start.run es).hush.all := by rw [hrun]
    have hreadings : (start.run es').hush.readings = (start.run es).hush.readings := by rw [hrun]
    refine ⟨?_, hreadings, ?_, fun i f g hf hg => ?_⟩
    · rw [← feeds_quiet start es', hsame, feeds_quiet]
    · simpa only [hush, List.length_map] using congrArg List.length hall
    · have hget := congrArg (·[i]?) hall
      simp only [hush_getElem?, hf, hg, Option.map_some, Option.some.injEq] at hget
      have htaken : g.hush.taken = f.hush.taken := by rw [hget]
      exact ⟨.of_hush_eq hget, htaken⟩

/-- A ping of the client is answered, and nothing else comes of it: neither if it is left out of the
run, nor if the loop goes another way. -/
theorem chatter_changes_nothing_ping :
    let feed : Feed := ⟨[.ok ⟨"B1", "S1", Double.ofInt 150, 5, "AAPL", ""⟩], true⟩
    let run := (Forwarding.start feed).run [.lookAtFeed, .accepted, .lookAtFeed, .parted]
    let pinged := [.received (.ping [1]), .lookAtFeed, .accepted, .lookAtClient, .lookAtFeed, .parted]
    let late := [.lookAtFeed, .received (.ping [1]), .accepted, .lookAtFeed, .parted]
    ((Forwarding.start feed).run pinged).1.Alike run.1 ∧
      ((Forwarding.start feed).run pinged).2 = run.2 ∧
      ((Forwarding.start feed).run pinged).1.sent ≠ run.1.sent ∧
      ((Forwarding.start feed).run late).1.Alike run.1 := by
  intro feed run pinged late
  obtain ⟨hone, -⟩ := chatter_changes_nothing
  obtain ⟨hquiet, -, hsettled⟩ := hone feed [.lookAtFeed, .accepted, .lookAtFeed, .parted]
  obtain ⟨halike, -, hcounted⟩ := hquiet pinged rfl
  refine ⟨halike, hcounted, ?_, (hsettled late rfl rfl rfl rfl rfl).1⟩
  intro hsent
  have hpongs := congrArg (·.countP ServerFrame.isPong) hsent
  cases hpongs

-- the loop looks past the ping to find the close frame
example : (Forwarding.start ⟨[], true⟩).quiet
    [.received (.ping []), .received .close, .lookAtClient, .lookAtClient] =
      [.received .close, .lookAtClient] := rfl

end Subscriptions

end OrderRelay
