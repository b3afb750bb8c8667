import Mathlib.Data.List.Basic
import Mathlib.Tactic.Common
import OrderRelay.Signal.Launch

/-!
# Which stop signals reach the server

The watch for signals runs from the moment it is started, which is before the server
is a receiver. A signal that is sent on in between is lost: nobody sends it again, so
the server never stops.

* `Launch.Move`: what can happen in a launch.
* `Launch.Hears`, `Launch.Deaf`: the stop signal waits for the server or has stopped
  it, or the server goes on without it. Each of the two stays once it holds.
* `run_hears_iff`: **the stop signal reaches the server exactly if it was a receiver
  when the signal was sent on**; otherwise it never stops. The metrics endpoint, which
  listens before the watch is started, is always reached.
-/

namespace OrderRelay

/-! ## Receivers -/

/-- So many messages are behind a receiver. -/
def Broadcast.Behind (b : Broadcast) (i n : ℕ) : Prop :=
  b.receivers[i]? = some (some n) ∧ n ≤ b.sent

theorem Broadcast.Behind.pending_eq {b : Broadcast} {i n : ℕ} (h : b.Behind i n) :
    b.pending i = some (b.sent - n) := by
  unfold Broadcast.pending
  rw [h.1]; rfl

theorem Broadcast.Behind.append {b : Broadcast} {i n : ℕ} (h : b.Behind i n) (x : Option ℕ) :
    Behind { b with receivers := b.receivers ++ [x] } i n := by
  refine ⟨?_, h.2⟩
  obtain ⟨hlt, -⟩ := List.getElem?_eq_some_iff.1 h.1
  exact (List.getElem?_append_left hlt).trans h.1

theorem Broadcast.Behind.set_ne {b : Broadcast} {i j n : ℕ} (h : b.Behind i n) (hj : j ≠ i)
    (x : Option ℕ) : Behind { b with receivers := b.receivers.set j x } i n :=
  ⟨(List.getElem?_set_ne hj).trans h.1, h.2⟩

theorem Broadcast.Behind.set_self {b : Broadcast} {i n m : ℕ} (h : b.Behind i n) (hm : m ≤ b.sent) :
    Behind { b with receivers := b.receivers.set i (some m) } i m := by
  obtain ⟨hlt, -⟩ := List.getElem?_eq_some_iff.1 h.1
  exact ⟨List.getElem?_set_self hlt, hm⟩

theorem Broadcast.Behind.sent_succ {b : Broadcast} {i n : ℕ} (h : b.Behind i n) :
    Behind { b with sent := b.sent + 1 } i n :=
  ⟨h.1, Nat.le_succ_of_le h.2⟩

namespace Listener

variable {b : Broadcast} {l : Listener}

/-- It has a receiver. -/
def Listens (b : Broadcast) (l : Listener) : Prop := ∃ n, b.Behind l.receiver n

/-- A message waits for it, or it has stopped. -/
def Hears (b : Broadcast) (l : Listener) : Prop :=
  0 < (b.pending l.receiver).getD 0 ∨ l.stopped = true

/-- No message waits for it, and it goes on. -/
def Deaf (b : Broadcast) (l : Listener) : Prop := b.pending l.receiver = some 0 ∧ l.stopped = false

theorem not_hears_of_deaf (h : l.Deaf b) : ¬l.Hears b := by
  rintro (hp | hs)
  · rw [h.1] at hp; exact absurd hp (Nat.lt_irrefl 0)
  · rw [h.2] at hs; cases hs

/-- **A look finds nothing, or makes the listener stop.** -/
theorem look_cases (hb : 0 < b.handles) (hl : l.Listens b) :
    l.look b = (b, l) ∨ l.Hears b ∧ ∃ n, n ≤ b.sent ∧
      l.look b = ({ b with receivers := b.receivers.set l.receiver (some n) },
        { l with stopped := true }) := by
  obtain ⟨n, hn⟩ := hl
  have hle := hn.2
  unfold look
  by_cases hs : l.stopped = true
  · rw [if_pos hs]; exact Or.inl rfl
  rw [if_neg hs]
  have hpending : (b.pending l.receiver).getD 0 = b.sent - n := by rw [hn.pending_eq]; rfl
  simp only [Broadcast.step, hn.1, Option.join_some]
  unfold Broadcast.look
  by_cases h0 : b.sent - n = 0
  · -- nothing is behind, and with a handle left that is no end
    left
    have hself : b.receivers.set l.receiver (some n) = b.receivers := by
      obtain ⟨hlt, hget⟩ := List.getElem?_eq_some_iff.1 hn.1
      rw [← hget, List.set_getElem_self]
    rw [if_pos h0, if_neg (by omega)]
    simp only [hself]
  · right
    refine ⟨Or.inl (by omega), ?_⟩
    rw [if_neg h0]
    by_cases h1 : b.sent - n = 1
    · rw [if_pos h1]
      exact ⟨n + 1, by omega, rfl⟩
    · rw [if_neg h1]
      exact ⟨b.sent - 1, by omega, rfl⟩

/-! ### What others do to a listener -/

theorem Listens.append (h : l.Listens b) (x : Option ℕ) :
    l.Listens { b with receivers := b.receivers ++ [x] } :=
  let ⟨n, hn⟩ := h; ⟨n, hn.append x⟩

theorem Listens.set_ne (h : l.Listens b) {j : ℕ} (hj : j ≠ l.receiver) (x : Option ℕ) :
    l.Listens { b with receivers := b.receivers.set j x } :=
  let ⟨n, hn⟩ := h; ⟨n, hn.set_ne hj x⟩

theorem Listens.sent_succ (h : l.Listens b) : l.Listens { b with sent := b.sent + 1 } :=
  let ⟨n, hn⟩ := h; ⟨n, hn.sent_succ⟩

/-- A new receiver takes nothing from the others. -/
theorem pending_append (h : l.Listens b) (x : Option ℕ) :
    Broadcast.pending { b with receivers := b.receivers ++ [x] } l.receiver =
      b.pending l.receiver := by
  obtain ⟨n, hn⟩ := h
  rw [hn.pending_eq, (hn.append x).pending_eq]

/-- A look takes nothing from the others. -/
theorem pending_set_ne (h : l.Listens b) {j : ℕ} (hj : j ≠ l.receiver) (x : Option ℕ) :
    Broadcast.pending { b with receivers := b.receivers.set j x } l.receiver =
      b.pending l.receiver := by
  obtain ⟨n, hn⟩ := h
  rw [hn.pending_eq, (hn.set_ne hj x).pending_eq]

/-- **A message reaches whoever is a receiver.** -/
theorem hears_sent_succ (h : l.Listens b) : l.Hears { b with sent := b.sent + 1 } := by
  obtain ⟨n, hn⟩ := h
  have hle := hn.2
  left
  rw [hn.sent_succ.pending_eq]
  show 0 < b.sent + 1 - n
  omega

end Listener

/-! ## Launches -/

namespace Launch

variable {l l' : Launch}

/-- What holds at every point of a launch. -/
structure Sound (l : Launch) : Prop where
  handles : 0 < l.channel.handles
  /-- The watch has a handle of its own. -/
  watching : l.watch ≠ .notStarted → 1 < l.channel.handles
  assembled : l.stage = .assembled → l.watch = .notStarted
  stage : l.server.isSome → l.stage = .subscribed ∨ l.stage = .serving
  metrics : ∀ m ∈ l.metrics, m.Listens l.channel
  server : ∀ s ∈ l.server, s.Listens l.channel
  apart : ∀ m ∈ l.metrics, ∀ s ∈ l.server, m.receiver ≠ s.receiver

/-- **What can happen in a launch.** -/
inductive Move (l : Launch) : Launch → Prop where
  | idle : Move l l
  | watch (hs : l.stage = .assembled) :
    Move l { l with
      stage := .watched, watch := .waiting
      channel := { l.channel with handles := l.channel.handles + 1 } }
  | build (hs : l.stage = .watched) : Move l { l with stage := .built }
  | subscribe (hs : l.stage = .built) :
    Move l { l with
      stage := .subscribed, server := some ⟨l.channel.receivers.length, false⟩
      channel := { l.channel with receivers := l.channel.receivers ++ [some l.channel.sent] } }
  | serve (hs : l.stage = .subscribed) : Move l { l with stage := .serving }
  | signal (hw : l.watch = .waiting) : Move l { l with watch := .notified }
  | sendOn (hw : l.watch = .notified) :
    Move l { l with watch := .finished, channel := { l.channel with sent := l.channel.sent + 1 } }
  | stop (s : Listener) (n : ℕ) (hs : l.stage = .serving) (hserver : l.server = some s)
    (hears : s.Hears l.channel) (hn : n ≤ l.channel.sent) :
    Move l { l with
      server := some { s with stopped := true }
      channel := { l.channel with receivers := l.channel.receivers.set s.receiver (some n) } }
  | stopMetrics (m : Listener) (n : ℕ) (hmetrics : l.metrics = some m)
    (hears : m.Hears l.channel) (hn : n ≤ l.channel.sent) :
    Move l { l with
      metrics := some { m with stopped := true }
      channel := { l.channel with receivers := l.channel.receivers.set m.receiver (some n) } }

/-- **An event is one of these.** -/
theorem step_move (h : l.Sound) (e : LaunchEvent) : l.Move (l.step e) := by
  have hpos : ¬l.channel.handles = 0 := Nat.pos_iff_ne_zero.1 h.handles
  cases e with
  | advance =>
    change l.Move l.advance
    unfold advance
    split
    · rename_i hs
      simp only [Broadcast.step, if_neg hpos]
      exact .watch hs
    · rename_i hs; exact .build hs
    · rename_i hs
      simp only [Broadcast.step, if_neg hpos]
      exact .subscribe hs
    · rename_i hs; exact .serve hs
    · exact .idle
  | signal =>
    simp only [step]
    split
    · rename_i hw; exact .signal hw
    · exact .idle
  | sendOn =>
    simp only [step]
    split
    · rename_i hw
      have hhandle : 1 < l.channel.handles := h.watching (by simp [hw])
      simp only [Broadcast.step, if_pos hhandle]
      exact .sendOn hw
    · exact .idle
  | look =>
    change l.Move l.look
    unfold look
    split
    · rename_i s hs hserver
      rcases Listener.look_cases h.handles (h.server s hserver) with hl | ⟨hears, n, hn, hl⟩
      · rw [hl]
        simp only [← hserver]
        exact .idle
      · rw [hl]; exact .stop s n hs hserver hears hn
    · exact .idle
  | lookMetrics =>
    change l.Move l.lookMetrics
    unfold lookMetrics
    split
    · rename_i m hmetrics
      rcases Listener.look_cases h.handles (h.metrics m hmetrics) with hl | ⟨hears, n, hn, hl⟩
      · rw [hl]
        simp only [← hmetrics]
        exact .idle
      · rw [hl]; exact .stopMetrics m n hmetrics hears hn
    · exact .idle

/-- There is no server before it subscribes. -/
theorem Sound.not_isSome_server (h : l.Sound) (hsubscribed : l.stage ≠ .subscribed)
    (hserving : l.stage ≠ .serving) : ¬l.server.isSome = true := by
  intro hsome
  rcases h.stage hsome with hst | hst
  · exact hsubscribed hst
  · exact hserving hst

/-- **Whatever happens in a launch keeps it sound.** -/
theorem Move.sound (hm : l.Move l') (h : l.Sound) : l'.Sound := by
  cases hm with
  | idle => exact h
  | watch hs =>
    have hnone : ¬l.server.isSome = true := h.not_isSome_server (by simp [hs]) (by simp [hs])
    exact { h with
      handles := Nat.succ_pos _, watching := fun _ => Nat.succ_lt_succ h.handles
      assembled := nofun, stage := fun hsome => absurd hsome hnone }
  | build hs =>
    have hnone : ¬l.server.isSome = true := h.not_isSome_server (by simp [hs]) (by simp [hs])
    exact { h with assembled := nofun, stage := fun hsome => absurd hsome hnone }
  | subscribe hs =>
    refine ⟨h.handles, h.watching, nofun, fun _ => Or.inl rfl, ?_, ?_, ?_⟩
    · intro m hm; exact (h.metrics m hm).append _
    · intro s hs
      obtain rfl := Option.some.inj hs
      exact ⟨l.channel.sent, List.getElem?_concat_length, Nat.le_refl _⟩
    · intro m hm s hs
      obtain rfl := Option.some.inj hs
      obtain ⟨n, hn⟩ := h.metrics m hm
      -- the new receiver is numbered after all others
      have hlt : m.receiver < l.channel.receivers.length := (List.getElem?_eq_some_iff.1 hn.1).1
      exact Nat.ne_of_lt hlt
  | serve hs =>
    exact { h with assembled := nofun, stage := fun _ => Or.inr rfl }
  | signal hw =>
    have hstarted : l.watch ≠ .notStarted := by simp [hw]
    exact { h with
      watching := fun _ => h.watching hstarted
      assembled := fun h' => absurd (h.assembled h') hstarted }
  | sendOn hw =>
    have hstarted : l.watch ≠ .notStarted := by simp [hw]
    exact { h with
      watching := fun _ => h.watching hstarted
      assembled := fun h' => absurd (h.assembled h') hstarted
      metrics := fun m hm => (h.metrics m hm).sent_succ
      server := fun s hs => (h.server s hs).sent_succ }
  | stop s n hs hserver _ hn =>
    refine { h with stage := fun _ => Or.inr hs, metrics := ?_, server := ?_, apart := ?_ }
    · intro m hm
      exact (h.metrics m hm).set_ne (h.apart m hm s hserver).symm _
    · intro s' hs'
      obtain rfl := Option.some.inj hs'
      obtain ⟨k, hk⟩ := h.server s hserver
      exact ⟨n, hk.set_self hn⟩
    · intro m hm s' hs'
      obtain rfl := Option.some.inj hs'
      exact h.apart m hm s hserver
  | stopMetrics m n hmetrics _ hn =>
    refine { h with metrics := ?_, server := ?_, apart := ?_ }
    · intro m' hm'
      obtain rfl := Option.some.inj hm'
      obtain ⟨k, hk⟩ := h.metrics m hmetrics
      exact ⟨n, hk.set_self hn⟩
    · intro s hs
      exact (h.server s hs).set_ne (h.apart m hmetrics s hs) _
    · intro m' hm' s hs
      obtain rfl := Option.some.inj hm'
      exact h.apart m hmetrics s hs

theorem start_sound (withMetrics : Bool) : (start withMetrics).Sound := by
  cases withMetrics with
  | false =>
    refine ⟨Nat.one_pos, fun h => absurd rfl h, fun _ => rfl, ?_, ?_, ?_, ?_⟩
    · intro h; cases h
    · intro m hm; cases hm
    · intro s hs; cases hs
    · intro m hm; cases hm
  | true =>
    refine ⟨Nat.one_pos, fun h => absurd rfl h, fun _ => rfl, ?_, ?_, ?_, ?_⟩
    · intro h; cases h
    · intro m hm
      obtain rfl := Option.some.inj hm
      exact ⟨0, rfl, Nat.le_refl 0⟩
    · intro s hs; cases hs
    · intro m _ s hs; cases hs

/-! ## Reached or not -/

/-- The stop signal waits for the server or has stopped it. -/
def Hears (l : Launch) : Prop := ∃ s ∈ l.server, s.Hears l.channel

/-- The stop signal has been sent on, and no receiver of the server has seen it. -/
def Deaf (l : Launch) : Prop := l.watch = .finished ∧ ∀ s ∈ l.server, s.Deaf l.channel

/-- The stop signal waits for the metrics endpoint or has stopped it. -/
def MetricsHear (l : Launch) : Prop := ∀ m ∈ l.metrics, m.Hears l.channel

/-- **Once the stop signal has reached the server, it stays so.** -/
theorem Move.hears (hm : l.Move l') (h : l.Sound) (hh : l.Hears) : l'.Hears := by
  obtain ⟨s, hserver, hears⟩ := hh
  cases hm with
  | idle | build | serve | signal | watch => exact ⟨s, hserver, hears⟩
  | subscribe hs =>
    have hnone : ¬l.server.isSome = true := h.not_isSome_server (by simp [hs]) (by simp [hs])
    exact absurd (Option.isSome_of_mem hserver) hnone
  | sendOn => exact ⟨s, hserver, Listener.hears_sent_succ (h.server s hserver)⟩
  | stop s' => exact ⟨_, rfl, Or.inr rfl⟩
  | stopMetrics m n hmetrics =>
    have happart : m.receiver ≠ s.receiver := h.apart m hmetrics s hserver
    refine ⟨s, hserver, hears.imp_left fun hp => ?_⟩
    rw [Listener.pending_set_ne (h.server s hserver) happart]
    exact hp

/-- **Once the server has missed the stop signal, it stays so.** -/
theorem Move.deaf (hm : l.Move l') (h : l.Sound) (hd : l.Deaf) : l'.Deaf := by
  obtain ⟨hw, hdeaf⟩ := hd
  cases hm with
  | idle | build | serve => exact ⟨hw, hdeaf⟩
  | watch hs => rw [h.assembled hs] at hw; cases hw
  | signal hw' | sendOn hw' => rw [hw'] at hw; cases hw
  | subscribe hs =>
    refine ⟨hw, fun s hs => ?_⟩
    obtain rfl := Option.some.inj hs
    -- the receiver is new, so all that has been sent is behind it
    have hb : Broadcast.Behind
        { l.channel with receivers := l.channel.receivers ++ [some l.channel.sent] }
        l.channel.receivers.length l.channel.sent := ⟨List.getElem?_concat_length, Nat.le_refl _⟩
    refine ⟨?_, rfl⟩
    rw [hb.pending_eq, Nat.sub_self]
  | stop s n _ hserver hears => exact absurd hears (Listener.not_hears_of_deaf (hdeaf s hserver))
  | stopMetrics m n hmetrics =>
    refine ⟨hw, fun s hs => ⟨?_, (hdeaf s hs).2⟩⟩
    rw [Listener.pending_set_ne (h.server s hs) (h.apart m hmetrics s hs)]
    exact (hdeaf s hs).1

/-- The server stays a receiver. -/
theorem Move.server_isSome (hm : l.Move l') (hs : l.server.isSome) : l'.server.isSome := by
  cases hm with
  | subscribe | stop => rfl
  | _ => exact hs

/-- Once the stop signal has reached the metrics endpoint, it stays so. -/
theorem Move.metricsHear (hm : l.Move l') (h : l.Sound) (hh : l.MetricsHear) : l'.MetricsHear := by
  intro m hmetrics
  cases hm with
  | idle | build | serve | signal | watch => exact hh m hmetrics
  | subscribe =>
    refine (hh m hmetrics).imp_left fun hp => ?_
    rw [Listener.pending_append (h.metrics m hmetrics)]
    exact hp
  | sendOn => exact Listener.hears_sent_succ (h.metrics m hmetrics)
  | stop s n _ hserver =>
    refine (hh m hmetrics).imp_left fun hp => ?_
    rw [Listener.pending_set_ne (h.metrics m hmetrics) (h.apart m hmetrics s hserver).symm]
    exact hp
  | stopMetrics m' =>
    obtain rfl := Option.some.inj hmetrics
    exact Or.inr rfl

/-! ## Runs -/

theorem run_append (es fs : List LaunchEvent) : l.run (es ++ fs) = (l.run es).run fs :=
  List.foldl_append

/-- What every step keeps, a run keeps. -/
theorem run_keeps {p : Launch → Prop} (hp : ∀ l l', l.Sound → l.Move l' → p l → p l')
    (h : l.Sound) (hl : p l) (es : List LaunchEvent) : (l.run es).Sound ∧ p (l.run es) := by
  induction es generalizing l with
  | nil => exact ⟨h, hl⟩
  | cons e es ih =>
    have hm := step_move h e
    exact ih (hm.sound h) (hp _ _ h hm hl)

theorem run_sound (withMetrics : Bool) (es : List LaunchEvent) :
    ((start withMetrics).run es).Sound :=
  (run_keeps (p := fun _ => True) (fun _ _ _ _ _ => trivial) (start_sound withMetrics) trivial es).1

/-- The watch finishes with the event that sends the stop signal on. -/
theorem finished_of_step {e : LaunchEvent} (hf : (l.step e).watch = .finished) :
    l.watch = .finished ∨ e = .sendOn ∧ l.watch = .notified := by
  cases e with
  | advance =>
    change l.advance.watch = _ at hf
    unfold advance at hf
    split at hf
    · cases hf
    all_goals exact Or.inl hf
  | signal =>
    simp only [step] at hf
    split at hf
    · cases hf
    · exact Or.inl hf
  | sendOn =>
    simp only [step] at hf
    split at hf
    · rename_i hw; exact Or.inr ⟨rfl, hw⟩
    · exact Or.inl hf
  | look =>
    change l.look.watch = _ at hf
    unfold look at hf
    split at hf <;> exact Or.inl hf
  | lookMetrics =>
    change l.lookMetrics.watch = _ at hf
    unfold lookMetrics at hf
    split at hf <;> exact Or.inl hf

/-- **The stop signal was sent on at some moment**, if the watch has finished. -/
theorem sent_of_finished (hl : l.watch ≠ .finished) (es : List LaunchEvent)
    (hf : (l.run es).watch = .finished) :
    ∃ es₁ es₂, es = es₁ ++ .sendOn :: es₂ ∧ (l.run es₁).watch = .notified := by
  induction es generalizing l with
  | nil => exact absurd hf hl
  | cons e es ih =>
    by_cases hs : (l.step e).watch = .finished
    · rcases finished_of_step hs with hw | ⟨rfl, hw⟩
      · exact absurd hw hl
      · exact ⟨[], es, rfl, hw⟩
    · obtain ⟨es₁, es₂, rfl, hw⟩ := ih hs hf
      exact ⟨e :: es₁, es₂, rfl, hw⟩

/-- **What becomes of the stop signal** when it is sent on: it reaches those that are
receivers then. -/
theorem step_sendOn (h : l.Sound) (hw : l.watch = .notified) :
    (l.server.isSome → (l.step .sendOn).Hears) ∧ (l.server = none → (l.step .sendOn).Deaf) ∧
      (l.step .sendOn).MetricsHear := by
  have hstep : l.step .sendOn =
      { l with watch := .finished, channel := { l.channel with sent := l.channel.sent + 1 } } := by
    have hhandle : 1 < l.channel.handles := h.watching (by simp [hw])
    simp only [step, if_pos hw, Broadcast.step, if_pos hhandle]
  rw [hstep]
  refine ⟨fun hsome => ?_, fun hnone => ⟨rfl, fun s hs => ?_⟩, fun m hm => ?_⟩
  · obtain ⟨s, hs⟩ := Option.isSome_iff_exists.1 hsome
    exact ⟨s, hs, Listener.hears_sent_succ (h.server s hs)⟩
  · change s ∈ l.server at hs
    rw [hnone] at hs; cases hs
  · exact Listener.hears_sent_succ (h.metrics m hm)

/-- What holds right after the stop signal has been sent on, and what every move keeps, holds from
then on. -/
theorem run_sendOn {p : Launch → Prop} (hp : ∀ l l', l.Sound → l.Move l' → p l → p l')
    {withMetrics : Bool} {es₁ : List LaunchEvent}
    (hsent : p (((start withMetrics).run es₁).step .sendOn)) (es₂ : List LaunchEvent) :
    p ((start withMetrics).run (es₁ ++ .sendOn :: es₂)) := by
  have hsound := run_sound withMetrics es₁
  have hsound' := (step_move hsound .sendOn).sound hsound
  rw [run_append]
  exact (run_keeps hp hsound' hsent es₂).2

/-- The server was a receiver when the stop signal was sent on. -/
def SentToServer (withMetrics : Bool) (es : List LaunchEvent) : Prop :=
  ∃ es₁ es₂, es = es₁ ++ .sendOn :: es₂ ∧ ((start withMetrics).run es₁).watch = .notified ∧
    ((start withMetrics).run es₁).server.isSome

theorem start_not_finished (withMetrics : Bool) : (start withMetrics).watch ≠ .finished := by
  cases withMetrics <;> simp [start]

/-- The server hears of a stop signal that was sent on while it was a receiver. -/
theorem SentToServer.hears {withMetrics : Bool} {es : List LaunchEvent}
    (h : SentToServer withMetrics es) : ((start withMetrics).run es).Hears := by
  obtain ⟨es₁, es₂, rfl, hw, hsome⟩ := h
  have hsent := (step_sendOn (run_sound withMetrics es₁) hw).1 hsome
  exact run_sendOn (fun _ _ hs hm => hm.hears hs) hsent es₂

/-- The server never hears of a stop signal that was sent on before. -/
theorem deaf_of_not_sentToServer {withMetrics : Bool} {es : List LaunchEvent}
    (hf : ((start withMetrics).run es).watch = .finished) (h : ¬SentToServer withMetrics es) :
    ((start withMetrics).run es).Deaf := by
  obtain ⟨es₁, es₂, rfl, hw⟩ := sent_of_finished (start_not_finished withMetrics) es hf
  have hnone : ((start withMetrics).run es₁).server = none := by
    rw [← Option.not_isSome_iff_eq_none]
    exact fun hsome => h ⟨es₁, es₂, rfl, hw, hsome⟩
  have hsent := (step_sendOn (run_sound withMetrics es₁) hw).2.1 hnone
  exact run_sendOn (fun _ _ hs hm => hm.deaf hs) hsent es₂

/-- The metrics endpoint always hears of it. -/
theorem metricsHear_of_finished {withMetrics : Bool} {es : List LaunchEvent}
    (hf : ((start withMetrics).run es).watch = .finished) :
    ((start withMetrics).run es).MetricsHear := by
  obtain ⟨es₁, es₂, rfl, hw⟩ := sent_of_finished (start_not_finished withMetrics) es hf
  have hsent := (step_sendOn (run_sound withMetrics es₁) hw).2.2
  exact run_sendOn (fun _ _ hs hm => hm.metricsHear hs) hsent es₂

/-- **Which stop signals reach the server.** In every launch in which the stop signal
has been sent on and the server is a receiver, the signal waits for the server or has
stopped it exactly if the server was a receiver when it was sent on. If it was not, the
server goes on for ever, whatever comes. The metrics endpoint is always reached. -/
theorem run_hears_iff (withMetrics : Bool) (es : List LaunchEvent) (s : Listener)
    (hf : ((start withMetrics).run es).watch = .finished)
    (hs : ((start withMetrics).run es).server = some s) :
    ((0 < ((start withMetrics).run es).pending s ∨ s.stopped = true) ↔ SentToServer withMetrics es) ∧
      (¬SentToServer withMetrics es → ∀ es', ∃ s',
        ((start withMetrics).run (es ++ es')).server = some s' ∧
          ((start withMetrics).run (es ++ es')).pending s' = 0 ∧ s'.stopped = false) ∧
      ∀ m, ((start withMetrics).run es).metrics = some m →
        0 < ((start withMetrics).run es).pending m ∨ m.stopped = true := by
  refine ⟨⟨fun hh => ?_, fun hsent => ?_⟩, fun hnot es' => ?_, metricsHear_of_finished hf⟩
  · -- it would have missed the signal, and that stays so
    by_contra hnot
    exact Listener.not_hears_of_deaf ((deaf_of_not_sentToServer hf hnot).2 s hs) hh
  · obtain ⟨s', hs', hears⟩ := hsent.hears
    obtain rfl := Option.some.inj (hs.symm.trans hs')
    exact hears
  · have hkeep := run_keeps (p := fun l => l.Deaf ∧ l.server.isSome)
      (fun _ _ hsound hm h => ⟨hm.deaf hsound h.1, hm.server_isSome h.2⟩) (run_sound withMetrics es)
      ⟨deaf_of_not_sentToServer hf hnot, Option.isSome_of_mem hs⟩ es'
    obtain ⟨⟨-, hdeaf⟩, hsome⟩ := hkeep.2
    obtain ⟨s', hs'⟩ := Option.isSome_iff_exists.1 hsome
    obtain ⟨hpending, hgoes⟩ := hdeaf s' hs'
    rw [run_append]
    refine ⟨s', hs', ?_, hgoes⟩
    unfold pending
    rw [hpending]; rfl

/-- The stop signal is sent on before the server is a receiver: it has reached the metrics
endpoint, and will never reach the server. -/
theorem run_hears_iff_sent_early :
    0 < ((start true).run [.advance, .signal, .sendOn, .advance, .advance]).pending ⟨0, false⟩ ∧
      ∀ es', ∃ s',
        ((start true).run ([.advance, .signal, .sendOn, .advance, .advance] ++ es')).server = some s' ∧
          ((start true).run ([.advance, .signal, .sendOn, .advance, .advance] ++ es')).pending s' = 0 ∧
            s'.stopped = false := by
  have h := run_hears_iff true [.advance, .signal, .sendOn, .advance, .advance] ⟨1, false⟩ rfl rfl
  refine ⟨by decide, h.2.1 fun hsent => ?_⟩
  have hears := h.1.2 hsent
  revert hears
  decide

/-- The stop signal is sent on before the server is a receiver, which then has nothing to take in
and has not stopped. -/
theorem not_run_hears : ¬∀ (withMetrics : Bool) (es : List LaunchEvent) (s : Listener),
    ((start withMetrics).run es).watch = .finished →
      ((start withMetrics).run es).server = some s →
        0 < ((start withMetrics).run es).pending s ∨ s.stopped = true := by
  intro h
  have hlost := h false [.advance, .signal, .sendOn, .advance, .advance] ⟨0, false⟩ rfl rfl
  revert hlost
  decide

end Launch

end OrderRelay
