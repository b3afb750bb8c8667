import Mathlib
import OrderRelay.Proofs.Signal.Startup

/-!
# What receivers are told

However often the stop signal is sent, whoever subscribes when, and however slow a
receiver is: each message that was sent since a receiver subscribed is either taken by
it, or reported to it as missed, or still to come. The log of a run says how many are
still to come, and that number alone says what the receiver finds next.

* `Broadcast.log`: the steps of a run that could be taken, and what was found.
* `backlog`: the messages sent since a receiver subscribed that it has neither taken nor
  been told it missed.
* `Accounts`: what a log says about the state that it leads to. `Accounts.step`: one
  more step keeps that.
* `signals_accounted`: **the backlog of a receiver says what it finds next**, and who
  listens are those who have subscribed and not left.
-/

namespace OrderRelay

namespace Broadcast

/-! ## Logs -/

/-- Whether a step can be taken. Only a handle that is there is copied, sends, or lets someone
subscribe, and only a receiver that is there looks or leaves. -/
def allows (b : Broadcast) : BroadcastStep → Bool
  | .subscribe | .clone | .dropHandles => b.handles != 0
  | .trigger handle => handle < b.handles
  | .receive i | .leave i => b.receivers[i]?.join.isSome

/-- A step that was taken, and what the receiver found if the step was to receive. -/
structure Entry where
  step : BroadcastStep
  found : Option Received

namespace Entry

/-- A receiver subscribes. -/
def joins : Entry → Bool
  | ⟨.subscribe, _⟩ => true
  | _ => false

/-- One more handle is made. -/
def copies : Entry → Bool
  | ⟨.clone, _⟩ => true
  | _ => false

/-- A message is sent. -/
def sends : Entry → Bool
  | ⟨.trigger _, _⟩ => true
  | _ => false

/-- All handles are given up. -/
def gives : Entry → Bool
  | ⟨.dropHandles, _⟩ => true
  | _ => false

/-- This receiver leaves. -/
def leaves (i : ℕ) : Entry → Bool
  | ⟨.leave j, _⟩ => j == i
  | _ => false

/-- How many messages this receiver takes or is told it has missed. -/
def settles (i : ℕ) : Entry → ℕ
  | ⟨.receive j, some .message⟩ => if j = i then 1 else 0
  | ⟨.receive j, some (.lagged n)⟩ => if j = i then n else 0
  | _ => 0

end Entry

/-- **The log of a run**: the steps that could be taken, in their order. -/
def log (b : Broadcast) : List BroadcastStep → List Entry
  | [] => []
  | s :: ss => (if b.allows s then [⟨s, (b.step s).2⟩] else []) ++ log (b.step s).1 ss

/-- The handles that are there after a log. -/
def handlesIn (h : List Entry) : ℕ := if h.any Entry.gives then 0 else 1 + h.countP Entry.copies

/-- How many receivers have subscribed; they are numbered in their order. -/
def joined (h : List Entry) : ℕ := h.countP Entry.joins

/-- What has happened since this receiver subscribed. -/
def since : ℕ → List Entry → List Entry
  | _, [] => []
  | 0, e :: h => if e.joins then h else since 0 h
  | i + 1, e :: h => since (if e.joins then i else i + 1) h

/-- This receiver has left. -/
def hasLeft (i : ℕ) (h : List Entry) : Bool := (since i h).any (Entry.leaves i)

/-- The messages sent since this receiver subscribed. -/
def sentSince (i : ℕ) (h : List Entry) : ℕ := (since i h).countP Entry.sends

/-- The messages that this receiver has taken or been told it missed. -/
def settledSince (i : ℕ) (h : List Entry) : ℕ := ((since i h).map (Entry.settles i)).sum

/-- **The backlog of a receiver**: the messages sent since it subscribed that it has neither taken
nor been told it missed. -/
def backlog (i : ℕ) (h : List Entry) : ℕ := sentSince i h - settledSince i h

variable {b : Broadcast} {h : List Entry} {e : Entry} {i : ℕ}

theorem log_append (b : Broadcast) (ss more : List BroadcastStep) :
    b.log (ss ++ more) = b.log ss ++ (b.run ss).log more := by
  induction ss generalizing b with
  | nil => rfl
  | cons s ss ih =>
    rw [List.cons_append, log, log, ih, List.append_assoc]
    rfl

/-- All that is logged was asked for. -/
theorem mem_of_mem_log {ss : List BroadcastStep} (he : e ∈ b.log ss) : e.step ∈ ss := by
  induction ss generalizing b with
  | nil => cases he
  | cons s ss ih =>
    rcases List.mem_append.1 he with he | he
    · split at he
      · rw [List.mem_singleton.1 he]
        exact List.mem_cons_self
      · cases he
    · exact List.mem_cons_of_mem _ (ih he)

theorem joined_append (h t : List Entry) : joined (h ++ t) = joined h + joined t :=
  List.countP_append

/-- **What comes later has happened since, too.** -/
theorem since_append (hi : i < joined h) (t : List Entry) : since i (h ++ t) = since i h ++ t := by
  induction h generalizing i with
  | nil => cases hi
  | cons e h ih =>
    rw [joined, List.countP_cons] at hi
    rw [List.cons_append]
    cases i with
    | zero =>
      rw [since, since]
      cases he : e.joins with
      | true => rfl
      | false =>
        rw [he] at hi
        exact ih hi
    | succ i =>
      rw [since, since]
      refine ih ?_
      unfold joined
      split at hi <;> simp_all

/-- Nothing has happened yet since the last receiver subscribed. -/
theorem since_joined (h : List Entry) (e : Entry) : since (joined h) (h ++ [e]) = [] := by
  induction h with
  | nil => cases he : e.joins <;> simp [joined, since, he]
  | cons e' h ih =>
    rw [joined, List.countP_cons, List.cons_append]
    cases he : e'.joins with
    | true =>
      rw [if_pos rfl, since, he]
      exact ih
    | false =>
      have hsame : joined h = List.countP Entry.joins h := rfl
      rw [if_neg (by simp), Nat.add_zero, ← hsame]
      cases hj : joined h with
      | zero => rw [since, he, ← hj]; exact ih
      | succ n => rw [since, he, if_neg (by simp), ← hj]; exact ih

theorem sentSince_append (hi : i < joined h) (t : List Entry) :
    sentSince i (h ++ t) = sentSince i h + t.countP Entry.sends := by
  rw [sentSince, since_append hi, List.countP_append]
  rfl

theorem settledSince_append (hi : i < joined h) (t : List Entry) :
    settledSince i (h ++ t) = settledSince i h + (t.map (Entry.settles i)).sum := by
  rw [settledSince, since_append hi, List.map_append, List.sum_append]
  rfl

theorem hasLeft_append (hi : i < joined h) (t : List Entry) :
    hasLeft i (h ++ t) = (hasLeft i h || t.any (Entry.leaves i)) := by
  rw [hasLeft, since_append hi, List.any_append]
  rfl

/-! ## What a log says -/

/-- **What a log says about the state that it leads to.** -/
structure Accounts (h : List Entry) (b : Broadcast) : Prop where
  handles : b.handles = handlesIn h
  length : b.receivers.length = joined h
  left : ∀ i, i < joined h → hasLeft i h = true → b.receivers[i]? = some none
  here : ∀ i, i < joined h → hasLeft i h = false →
    ∃ p, b.Behind i p ∧ p + sentSince i h = b.sent + settledSince i h
  /-- Who looks and settles nothing has found nothing. -/
  found : ∀ i, i < joined h → ∀ e ∈ since i h, e.step = .receive i →
    e.found = some .empty ∨ e.found = some .closed ∨ 0 < e.settles i

theorem start_accounts : Accounts [] start :=
  ⟨rfl, rfl, fun _ hi => (nomatch hi), fun _ hi => (nomatch hi), fun _ hi => (nomatch hi)⟩

/-- A step that cannot be taken changes nothing. -/
theorem step_of_not_allows {s : BroadcastStep} (hs : b.allows s = false) : (b.step s).1 = b := by
  cases s with
  | subscribe | clone => simp_all [allows, step]
  | trigger handle =>
    have hnone : ¬handle < b.handles := by simpa [allows] using hs
    simp only [step, if_neg hnone]
  | dropHandles =>
    obtain ⟨handles, sent, receivers⟩ := b
    simp_all [allows, step]
  | receive j =>
    have hnone : b.receivers[j]?.join = none := by simpa [allows] using hs
    simp only [step, hnone]
  | leave j =>
    -- whoever has left leaves no more
    have hself : b.receivers.set j none = b.receivers := by
      by_cases hj : j < b.receivers.length
      · have hget : b.receivers[j] = none := by simpa [allows, hj] using hs
        rw [← hget, List.set_getElem_self]
      · exact List.set_eq_of_length_le (Nat.not_lt.1 hj)
    simp only [step, hself]

theorem handlesIn_concat (h : List Entry) (e : Entry) : handlesIn (h ++ [e]) =
    if e.gives || handlesIn h == 0 then 0 else handlesIn h + if e.copies then 1 else 0 := by
  unfold handlesIn
  rw [List.any_append, List.countP_append, List.any_cons, List.any_nil, Bool.or_false,
    List.countP_singleton]
  cases h.any Entry.gives <;> cases e.gives <;> simp [Nat.add_assoc]

/-- One more step with which nobody subscribes. -/
theorem Accounts.concat {b' : Broadcast} (ha : Accounts h b) (hjoins : e.joins = false)
    (hhandles : b'.handles = handlesIn (h ++ [e]))
    (hlength : b'.receivers.length = b.receivers.length)
    (hleft : ∀ i < b.receivers.length, b.receivers[i]? = some none ∨ e.leaves i = true →
      b'.receivers[i]? = some none)
    (hhere : ∀ i p, b.Behind i p → e.leaves i = false → ∃ q, b'.Behind i q ∧
      q + (b.sent + if e.sends then 1 else 0) = p + b'.sent + e.settles i)
    (hfound : ∀ i, e.step = .receive i →
      e.found = some .empty ∨ e.found = some .closed ∨ 0 < e.settles i) :
    Accounts (h ++ [e]) b' := by
  have hjoined : joined (h ++ [e]) = joined h := by
    rw [joined_append, joined, joined, List.countP_singleton, hjoins]
    rfl
  refine ⟨hhandles, by rw [hlength, ha.length, hjoined], ?_, ?_, ?_⟩
  · intro i hi hgone
    rw [hjoined] at hi
    rw [hasLeft_append hi, Bool.or_eq_true, List.any_cons, List.any_nil, Bool.or_false] at hgone
    exact hleft i (ha.length ▸ hi) (hgone.imp_left (ha.left i hi))
  · intro i hi hstays
    rw [hjoined] at hi
    rw [hasLeft_append hi, Bool.or_eq_false_iff, List.any_cons, List.any_nil,
      Bool.or_false] at hstays
    obtain ⟨p, hp, hsum⟩ := ha.here i hi hstays.1
    obtain ⟨q, hq, hsame⟩ := hhere i p hp hstays.2
    refine ⟨q, hq, ?_⟩
    rw [sentSince_append hi, settledSince_append hi, List.countP_singleton, List.map_singleton,
      List.sum_singleton]
    omega
  · intro i hi e' he' hstep
    rw [hjoined] at hi
    rw [since_append hi, List.mem_append, List.mem_singleton] at he'
    rcases he' with he' | rfl
    · exact ha.found i hi e' he' hstep
    · exact hfound i hstep

/-- One more receiver. -/
theorem Accounts.subscribe (ha : Accounts h b) (hb : b.handles ≠ 0) :
    Accounts (h ++ [⟨.subscribe, none⟩]) { b with receivers := b.receivers ++ [some b.sent] } := by
  have hjoined : joined (h ++ [⟨.subscribe, none⟩]) = joined h + 1 := joined_append h _
  -- all but the last one were there before
  have hsplit : ∀ i, i < joined (h ++ [⟨.subscribe, none⟩]) → i < joined h ∨
      i = joined h ∧ since i (h ++ [⟨.subscribe, none⟩]) = [] := by
    intro i hi
    rw [hjoined] at hi
    rcases Nat.lt_succ_iff_lt_or_eq.1 hi with hi | rfl
    · exact .inl hi
    · exact .inr ⟨rfl, since_joined h _⟩
  have hget : ∀ i < joined h,
      (b.receivers ++ [some b.sent])[i]? = b.receivers[i]? := fun i hi =>
    List.getElem?_append_left (ha.length ▸ hi)
  refine ⟨?_, ?_, ?_, ?_, ?_⟩
  · rw [handlesIn_concat, ← ha.handles]
    simp [Entry.gives, Entry.copies, hb]
  · rw [hjoined, ← ha.length, List.length_append]
    rfl
  · intro i hi hgone
    rcases hsplit i hi with hi | ⟨-, hnil⟩
    · rw [hasLeft_append hi, Bool.or_eq_true] at hgone
      exact (hget i hi).trans (ha.left i hi (hgone.resolve_right (by simp [Entry.leaves])))
    · rw [hasLeft, hnil] at hgone
      cases hgone
  · intro i hi hstays
    rcases hsplit i hi with hi | ⟨rfl, hnil⟩
    · rw [hasLeft_append hi, Bool.or_eq_false_iff] at hstays
      obtain ⟨p, hp, hsum⟩ := ha.here i hi hstays.1
      refine ⟨p, hp.append _, ?_⟩
      rw [sentSince_append hi, settledSince_append hi]
      exact hsum
    · refine ⟨b.sent, ⟨?_, Nat.le_refl _⟩, by simp [sentSince, settledSince, hnil]⟩
      rw [← ha.length]
      exact List.getElem?_concat_length
  · intro i hi e he hstep
    rcases hsplit i hi with hi | ⟨-, hnil⟩
    · rw [since_append hi, List.mem_append, List.mem_singleton] at he
      rcases he with he | rfl
      · exact ha.found i hi e he hstep
      · cases hstep
    · rw [hnil] at he
      cases he

/-- What a receiver finds with so many messages to come. -/
def finds (b : Broadcast) (n : ℕ) : Received :=
  if n = 0 then (if b.handles = 0 then .closed else .empty)
  else if n = 1 then .message
  else .lagged (n - 1)

/-- What is settled by what is found: all that was to come, or all but one. -/
theorem settles_finds (b : Broadcast) (i n : ℕ) :
    Entry.settles i ⟨.receive i, some (b.finds n)⟩ = if 2 ≤ n then n - 1 else n := by
  unfold finds
  rcases n with _ | _ | n
  · rw [if_pos rfl]
    split <;> rfl
  · simp [Entry.settles]
  · simp [Entry.settles]

/-- **A look** finds what the number of messages to come says. -/
theorem Behind.step_receive {p : ℕ} (hp : b.Behind i p) :
    (b.step (.receive i)).2 = some (b.finds (b.sent - p)) ∧
      ∃ q, (b.step (.receive i)).1 = { b with receivers := b.receivers.set i (some q) } ∧
        q = p + Entry.settles i ⟨.receive i, some (b.finds (b.sent - p))⟩ := by
  have hle := hp.2
  rw [settles_finds]
  unfold finds
  simp only [step, hp.1, Option.join_some, look]
  by_cases h0 : b.sent - p = 0
  · rw [if_pos h0, if_pos h0, h0]
    exact ⟨rfl, p, rfl, rfl⟩
  · rw [if_neg h0, if_neg h0]
    by_cases h1 : b.sent - p = 1
    · rw [if_pos h1, if_pos h1, h1]
      exact ⟨rfl, p + 1, rfl, rfl⟩
    · rw [if_neg h1, if_neg h1, if_pos (by omega)]
      exact ⟨rfl, b.sent - 1, rfl, by omega⟩

/-- Whoever settles nothing has found nothing. -/
theorem found_of_settles (b : Broadcast) (i n : ℕ) : b.finds n = .empty ∨ b.finds n = .closed ∨
    0 < Entry.settles i ⟨.receive i, some (b.finds n)⟩ := by
  rw [settles_finds]
  by_cases hn : n = 0
  · unfold finds
    rw [if_pos hn]
    split
    · exact .inr (.inl rfl)
    · exact .inl rfl
  · refine .inr (.inr ?_)
    split <;> omega

/-- Whoever can look is there. -/
theorem Accounts.exists_behind (ha : Accounts h b) (hi : b.receivers[i]?.join.isSome = true) :
    i < joined h ∧ ∃ p, b.Behind i p := by
  obtain ⟨p, hp⟩ := Option.isSome_iff_exists.1 hi
  have hget : b.receivers[i]? = some (some p) := Option.join_eq_some_iff.1 hp
  have hlt : i < joined h := ha.length ▸ (List.getElem?_eq_some_iff.1 hget).1
  refine ⟨hlt, ?_⟩
  cases hgone : hasLeft i h with
  | false =>
    obtain ⟨q, hq, -⟩ := ha.here i hlt hgone
    exact ⟨q, hq⟩
  | true =>
    rw [ha.left i hlt hgone] at hget
    cases hget

/-- **One more step keeps what the log says.** -/
theorem Accounts.step {s : BroadcastStep} (ha : Accounts h b) (hs : b.allows s = true) :
    Accounts (h ++ [⟨s, (b.step s).2⟩]) (b.step s).1 := by
  cases s with
  | subscribe =>
    have hb : b.handles ≠ 0 := by simpa [allows] using hs
    simp only [Broadcast.step, if_neg hb]
    exact ha.subscribe hb
  | clone =>
    have hb : b.handles ≠ 0 := by simpa [allows] using hs
    simp only [Broadcast.step, if_neg hb]
    refine ha.concat rfl ?_ rfl ?_ ?_ (by rintro i ⟨⟩)
    · rw [handlesIn_concat, ← ha.handles]
      simp [Entry.gives, Entry.copies, hb]
    · exact fun i _ h => h.resolve_right (by simp [Entry.leaves])
    · exact fun i p hp _ => ⟨p, hp, rfl⟩
  | dropHandles =>
    refine ha.concat rfl ?_ rfl ?_ ?_ (by rintro i ⟨⟩)
    · rw [handlesIn_concat]
      rfl
    · exact fun i _ h => h.resolve_right (by simp [Entry.leaves])
    · exact fun i p hp _ => ⟨p, hp, rfl⟩
  | trigger handle =>
    have hlive : handle < b.handles := by simpa [allows] using hs
    simp only [Broadcast.step, if_pos hlive]
    refine ha.concat rfl ?_ rfl ?_ ?_ (by rintro i ⟨⟩)
    · rw [handlesIn_concat, ← ha.handles]
      simp [Entry.gives, Entry.copies, Nat.ne_of_gt (Nat.zero_lt_of_lt hlive)]
    · exact fun i _ h => h.resolve_right (by simp [Entry.leaves])
    · exact fun i p hp _ => ⟨p, hp.sent_succ, rfl⟩
  | receive j =>
    obtain ⟨hlt, p, hp⟩ := ha.exists_behind hs
    obtain ⟨hfinds, q, hstep, hq⟩ := hp.step_receive
    have hle : q ≤ b.sent := by
      rw [hq, settles_finds]
      have := hp.2
      split <;> omega
    rw [hfinds, hstep]
    refine ha.concat rfl ?_ (List.length_set ..) ?_ ?_ ?_
    · rw [handlesIn_concat, ← ha.handles]
      simp [Entry.gives, Entry.copies]
    · intro i _ h
      have hgone := h.resolve_right (by simp [Entry.leaves])
      have hij : j ≠ i := by
        rintro rfl
        rw [hp.1] at hgone
        cases hgone
      exact (List.getElem?_set_ne hij).trans hgone
    · intro i p' hp' _
      by_cases hij : j = i
      · subst hij
        obtain rfl : p' = p := Option.some.inj (Option.some.inj (hp'.1.symm.trans hp.1))
        refine ⟨q, hp.set_self hle, ?_⟩
        simp only [Entry.sends, Bool.false_eq_true, if_false]
        omega
      · refine ⟨p', hp'.set_ne hij _, ?_⟩
        have hnone : Entry.settles i ⟨.receive j, some (b.finds (b.sent - p))⟩ = 0 := by
          unfold Entry.settles
          split <;> simp_all
        simp only [Entry.sends, hnone, Bool.false_eq_true, if_false, Nat.add_zero]
    · rintro i ⟨⟩
      simpa using b.found_of_settles j (b.sent - p)
  | leave j =>
    refine ha.concat rfl ?_ (List.length_set ..) ?_ ?_ (by rintro i ⟨⟩)
    · rw [handlesIn_concat, ← ha.handles]
      simp [Entry.gives, Entry.copies, Broadcast.step]
    · intro i hi h
      by_cases hij : j = i
      · subst hij
        exact List.getElem?_set_self hi
      · exact (List.getElem?_set_ne hij).trans (h.resolve_right (by simpa [Entry.leaves] using hij))
    · intro i p hp hstays
      have hij : j ≠ i := by simpa [Entry.leaves] using hstays
      exact ⟨p, hp.set_ne hij _, rfl⟩

/-- **The log of a run says what state it leads to.** -/
theorem Accounts.run (ha : Accounts h b) (steps : List BroadcastStep) :
    Accounts (h ++ b.log steps) (b.run steps) := by
  induction steps generalizing h b with
  | nil => rwa [log, List.append_nil]
  | cons s ss ih =>
    rw [log, ← List.append_assoc]
    cases hs : b.allows s with
    | true => exact ih (ha.step hs)
    | false =>
      have hsame : (b.step s).1 = b := step_of_not_allows hs
      rw [if_neg (by simp), List.append_nil]
      refine ih ?_
      rwa [hsame]

theorem accounts (steps : List BroadcastStep) : Accounts (start.log steps) (start.run steps) :=
  start_accounts.run steps

/-! ## What receivers find -/

/-- **The backlog of a receiver is what is to come for it.** -/
theorem Accounts.behind (ha : Accounts h b) (hi : i < joined h) (hstays : hasLeft i h = false) :
    b.Behind i (b.sent - backlog i h) ∧ backlog i h ≤ b.sent ∧
      settledSince i h + backlog i h = sentSince i h := by
  obtain ⟨p, hp, hsum⟩ := ha.here i hi hstays
  have hle := hp.2
  unfold backlog
  have hback : b.sent - (sentSince i h - settledSince i h) = p := by omega
  rw [hback]
  exact ⟨hp, by omega, by omega⟩

/-- What a receiver finds next, and its backlog after that. -/
theorem Accounts.receive (ha : Accounts h b) (hi : i < joined h) (hstays : hasLeft i h = false) :
    (b.step (.receive i)).2 = some (b.finds (backlog i h)) ∧
      backlog i (h ++ b.log [.receive i]) = if 2 ≤ backlog i h then 1 else 0 := by
  obtain ⟨hp, hle, hsum⟩ := ha.behind hi hstays
  have hallowed : b.allows (.receive i) = true := by simp [allows, hp.1]
  obtain ⟨hfound, -⟩ := hp.step_receive
  rw [Nat.sub_sub_self hle] at hfound
  refine ⟨hfound, ?_⟩
  rw [log, log, hallowed, hfound, if_pos rfl, List.append_nil, backlog, sentSince_append hi,
    settledSince_append hi, List.countP_singleton, List.map_singleton, List.sum_singleton,
    settles_finds]
  simp only [Entry.sends, Bool.false_eq_true, if_false]
  split <;> omega

/-- More steps with which this receiver neither looks nor leaves: all that is sent with them is one
more to come. -/
theorem Accounts.await (ha : Accounts h b) (hi : i < joined h) (hstays : hasLeft i h = false)
    (more : List BroadcastStep) (hreceive : .receive i ∉ more) (hleave : .leave i ∉ more) :
    hasLeft i (h ++ b.log more) = false ∧
      backlog i (h ++ b.log more) = backlog i h + (b.log more).countP Entry.sends := by
  obtain ⟨-, -, hsum⟩ := ha.behind hi hstays
  have hquiet : ∀ e ∈ b.log more, e.leaves i = false ∧ e.settles i = 0 := by
    intro e he
    obtain ⟨s, found⟩ := e
    have hmem : s ∈ more := mem_of_mem_log he
    constructor
    · cases s with
      | leave j =>
        have hij : j ≠ i := fun h => hleave (h ▸ hmem)
        simpa [Entry.leaves] using hij
      | _ => rfl
    · cases s with
      | receive j =>
        have hij : j ≠ i := fun h => hreceive (h ▸ hmem)
        unfold Entry.settles
        split <;> simp_all
      | _ => rfl
  have hnone : ((b.log more).map (Entry.settles i)).sum = 0 :=
    List.sum_eq_zero (List.forall_mem_map.2 fun e he => (hquiet e he).2)
  constructor
  · rw [hasLeft_append hi, hstays, Bool.false_or, List.any_eq_false]
    exact fun e he => by simp [(hquiet e he).1]
  · rw [backlog, sentSince_append hi, settledSince_append hi, hnone]
    omega

/-- **A message that is sent is one more to come**, and so is all that is sent before the receiver
looks. -/
theorem Accounts.trigger (ha : Accounts h b) (hi : i < joined h) (hstays : hasLeft i h = false)
    {handle : ℕ} (hhandle : handle < b.handles) (more : List BroadcastStep)
    (hreceive : .receive i ∉ more) (hleave : .leave i ∉ more) :
    hasLeft i (h ++ b.log (.trigger handle :: more)) = false ∧
      backlog i (h ++ b.log (.trigger handle :: more)) =
        backlog i h + 1 + ((b.step (.trigger handle)).1.log more).countP Entry.sends := by
  have hallowed : b.allows (.trigger handle) = true := by simpa [allows] using hhandle
  obtain ⟨hstays', hbacklog⟩ := ha.await hi hstays (.trigger handle :: more)
    (by simpa using hreceive) (by simpa using hleave)
  refine ⟨hstays', hbacklog.trans ?_⟩
  rw [log, hallowed, if_pos rfl, List.singleton_append, List.countP_cons_of_pos rfl]
  omega

/-- **A message that is sent is found** by the receiver when it looks next. -/
theorem Accounts.finds_sent (ha : Accounts h b) (hi : i < joined h) (hstays : hasLeft i h = false)
    {handle : ℕ} (hhandle : handle < b.handles) (more : List BroadcastStep)
    (hreceive : .receive i ∉ more) (hleave : .leave i ∉ more) :
    ∃ found, ((b.run (.trigger handle :: more)).step (.receive i)).2 = some found ∧
      (found = .message ∨ ∃ k, 0 < k ∧ found = .lagged k) := by
  obtain ⟨hstays', hbacklog⟩ := ha.trigger hi hstays hhandle more hreceive hleave
  have hi' : i < joined (h ++ b.log (.trigger handle :: more)) := by
    rw [joined_append]
    omega
  refine ⟨_, ((ha.run _).receive hi' hstays').1, ?_⟩
  rw [hbacklog, finds, if_neg (by omega)]
  split
  · exact .inl rfl
  · exact .inr ⟨_, by omega, rfl⟩

/-- **Who listens**: those who have subscribed and not left. -/
theorem Accounts.listening (ha : Accounts h b) :
    b.listening = (List.range (joined h)).countP fun i => !hasLeft i h := by
  have hsame : b.receivers.map Option.isSome =
      (List.range (joined h)).map fun i => !hasLeft i h := by
    refine List.ext_getElem? fun i => ?_
    by_cases hi : i < joined h
    · rw [List.getElem?_map, List.getElem?_map, List.getElem?_range hi]
      cases hgone : hasLeft i h with
      | true => rw [ha.left i hi hgone]; simp [hgone]
      | false =>
        obtain ⟨p, hp, -⟩ := ha.here i hi hgone
        rw [hp.1]
        simp [hgone]
    · rw [List.getElem?_eq_none (by simpa [ha.length] using hi),
        List.getElem?_eq_none (by simpa using hi)]
  have hcount := congrArg (List.countP id) hsame
  rwa [List.countP_map, List.countP_map] at hcount

/-- A receiver for which nothing has been sent has found nothing. -/
theorem Accounts.found_nothing (ha : Accounts h b) (hi : i < joined h) (hstays : hasLeft i h = false)
    (hnone : sentSince i h = 0) (he : e ∈ since i h) (hreceive : e.step = .receive i) :
    e.found = some .empty ∨ e.found = some .closed := by
  obtain ⟨-, -, hsum⟩ := ha.behind hi hstays
  have hzero : e.settles i = 0 := by
    have hle := List.le_sum_of_mem (List.mem_map_of_mem (f := Entry.settles i) he)
    have hsettled : settledSince i h = ((since i h).map (Entry.settles i)).sum := rfl
    omega
  rcases ha.found i hi e he hreceive with h | h | h
  · exact .inl h
  · exact .inr h
  · omega

/-- **The backlog of a receiver says what it finds next**, after any steps.

* Who listens are those who have subscribed and not left.
* Each message sent since a receiver subscribed is one that it has taken, or been told it missed,
  or that is still to come for it.
* If two or more are to come, it is told that it has missed all but one, and one is left. If one is
  to come, it takes that. If there is none, it finds nothing as long as there is a handle, and the
  end after that.
* A message that is sent while it listens is one more to come, and however often and by whomever
  more is sent, it is found by the receiver when it looks next.
* A receiver for which nothing has been sent since it subscribed has found nothing. -/
theorem signals_accounted (steps : List BroadcastStep) :
    let b := start.run steps
    let h := start.log steps
    b.handles = handlesIn h ∧
    b.listening = (List.range (joined h)).countP (fun i => !hasLeft i h) ∧
    ∀ i < joined h, hasLeft i h = false →
      let n := backlog i h
      let found := (b.step (.receive i)).2
      let left := backlog i (start.log (steps ++ [.receive i]))
      settledSince i h + n = sentSince i h ∧
      (2 ≤ n → found = some (.lagged (n - 1)) ∧ left = 1) ∧
      (n = 1 → found = some .message ∧ left = 0) ∧
      (n = 0 → found = some (if 0 < handlesIn h then .empty else .closed) ∧ left = 0) ∧
      (∀ handle < handlesIn h, backlog i (start.log (steps ++ [.trigger handle])) = n + 1 ∧
        ∀ more, .receive i ∉ more → .leave i ∉ more →
          ∃ found, ((b.run (.trigger handle :: more)).step (.receive i)).2 = some found ∧
            (found = .message ∨ ∃ k, 0 < k ∧ found = .lagged k)) ∧
      (sentSince i h = 0 → ∀ e ∈ since i h, e.step = .receive i →
        e.found = some .empty ∨ e.found = some .closed) := by
  intro b h
  have ha : Accounts h b := accounts steps
  refine ⟨ha.handles, ha.listening, fun i hi hstays => ?_⟩
  intro n found left
  have hfound : found = some (b.finds n) := (ha.receive hi hstays).1
  have hleft : left = if 2 ≤ n then 1 else 0 := by
    rw [← (ha.receive hi hstays).2]
    exact congrArg (backlog i) (log_append start steps [.receive i])
  refine ⟨(ha.behind hi hstays).2.2, fun hn => ?_, fun hn => ?_, fun hn => ?_,
    fun handle hhandle => ⟨?_, ha.finds_sent hi hstays (ha.handles ▸ hhandle)⟩,
    fun hnone e he => ha.found_nothing hi hstays hnone he⟩
  · rw [hfound, hleft, if_pos hn, finds, if_neg (by omega), if_neg (by omega)]
    exact ⟨rfl, rfl⟩
  · rw [hfound, hleft, if_neg (by omega), hn]
    exact ⟨rfl, rfl⟩
  · rw [hfound, hleft, hn, finds, if_pos rfl, ha.handles]
    cases handlesIn h with
    | zero => exact ⟨rfl, rfl⟩
    | succ n => exact ⟨by simp, rfl⟩
  · rw [log_append]
    exact (ha.trigger hi hstays (ha.handles ▸ hhandle) [] List.not_mem_nil List.not_mem_nil).2

/-- A receiver for which two messages were sent is told that it has missed one, and one is left. -/
theorem signals_accounted_twice :
    let steps : List BroadcastStep := [.subscribe, .trigger 0, .trigger 0]
    (0 < joined (start.log steps) ∧ hasLeft 0 (start.log steps) = false ∧
        2 ≤ backlog 0 (start.log steps)) ∧
      ((start.run steps).step (.receive 0)).2 = some (.lagged 1) ∧
      backlog 0 (start.log (steps ++ [.receive 0])) = 1 := by
  intro steps
  have hjoined : 0 < joined (start.log steps) := by decide
  have hstays : hasLeft 0 (start.log steps) = false := by decide
  have htwo : 2 ≤ backlog 0 (start.log steps) := by decide
  obtain ⟨-, -, hfinds⟩ := signals_accounted steps
  obtain ⟨-, hlagged, -⟩ := hfinds 0 hjoined hstays
  exact ⟨⟨hjoined, hstays, htwo⟩, hlagged htwo⟩

example : (start.log [.subscribe, .trigger 0, .trigger 0, .receive 0, .receive 0, .receive 0,
    .dropHandles, .receive 0]).filterMap Entry.found =
      [.lagged 1, .message, .empty, .closed] := by decide

end Broadcast

end OrderRelay
