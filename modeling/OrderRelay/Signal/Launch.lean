import OrderRelay.Signal.Broadcast

/-!
# Launching the service

Two tasks take part in a launch. The main task has the metrics endpoint listen for the stop signal,
if there is one. Then it starts the watch for signals, builds the server, makes the server a receiver
of the stop signal, and runs it. The watch waits for the first signal and sends the stop signal on.
Their steps may interleave in any order.

* `Listener`: the endpoint or the server, each with a receiver of its own.
* `Launch.step`: a step of one of the two tasks, a signal, or a look of a listener at its receiver.
* `Launch.pending`: the stop signals that a listener has yet to take in.
-/

namespace OrderRelay

/-- Someone who stops at the stop signal. -/
structure Listener where
  receiver : Nat
  /-- It takes no more requests. -/
  stopped : Bool
  deriving DecidableEq, Repr

/-- A listener looks at its receiver. Whatever it finds but nothing makes it stop. -/
def Listener.look (l : Listener) (b : Broadcast) : Broadcast × Listener :=
  if l.stopped then (b, l)
  else
    match b.step (.receive l.receiver) with
    | (b, some .empty) => (b, l)
    | (b, some _) => (b, { l with stopped := true })
    | (b, none) => (b, l)

/-- How far the main task is. -/
inductive LaunchStage where
  | assembled
  /-- The watch for signals has been started. -/
  | watched
  | built
  /-- The server is a receiver of the stop signal. -/
  | subscribed
  | serving
  deriving DecidableEq, Repr

/-- What the watch for signals does. -/
inductive WatchStage where
  | notStarted
  | waiting
  /-- A signal has arrived. -/
  | notified
  /-- The stop signal has been sent on. -/
  | finished
  deriving DecidableEq, Repr

/-- A launch. -/
structure Launch where
  channel : Broadcast
  stage : LaunchStage
  watch : WatchStage
  /-- The metrics endpoint, if there is one. -/
  metrics : Option Listener
  /-- The server, once it is a receiver. -/
  server : Option Listener
  deriving DecidableEq, Repr

/-- Something that happens in a launch. -/
inductive LaunchEvent where
  /-- The main task takes its next step. -/
  | advance
  /-- A signal arrives. -/
  | signal
  /-- The watch sends the stop signal on. -/
  | sendOn
  /-- The server looks at its receiver. -/
  | look
  /-- The metrics endpoint looks at its receiver. -/
  | lookMetrics
  deriving DecidableEq, Repr

namespace Launch

/-- Everything has been put together, and of all that is to run only the metrics endpoint, if there
is one, has been started. -/
def start (withMetrics : Bool) : Launch :=
  if withMetrics then
    ⟨(Broadcast.start.step .subscribe).1, .assembled, .notStarted, some ⟨0, false⟩, none⟩
  else ⟨.start, .assembled, .notStarted, none, none⟩

/-- The next step of the main task. -/
def advance (l : Launch) : Launch :=
  match l.stage with
  | .assembled =>
    { l with stage := .watched, watch := .waiting, channel := (l.channel.step .clone).1 }
  | .watched => { l with stage := .built }
  | .built =>
    { l with
        stage := .subscribed
        server := some ⟨l.channel.receivers.length, false⟩
        channel := (l.channel.step .subscribe).1 }
  | .subscribed => { l with stage := .serving }
  | .serving => l

/-- The server looks at its receiver, which it does while it runs. -/
def look (l : Launch) : Launch :=
  match l.stage, l.server with
  | .serving, some s => { l with channel := (s.look l.channel).1, server := some (s.look l.channel).2 }
  | _, _ => l

/-- The metrics endpoint looks at its receiver. -/
def lookMetrics (l : Launch) : Launch :=
  match l.metrics with
  | some m => { l with channel := (m.look l.channel).1, metrics := some (m.look l.channel).2 }
  | none => l

/-- The launch after one more event; one that cannot happen where the launch is changes nothing. -/
def step (l : Launch) : LaunchEvent → Launch
  | .advance => l.advance
  | .signal => if l.watch = .waiting then { l with watch := .notified } else l
  | .sendOn =>
    if l.watch = .notified then
      { l with watch := .finished, channel := (l.channel.step (.trigger 1)).1 }
    else l
  | .look => l.look
  | .lookMetrics => l.lookMetrics

/-- The launch after more events. -/
def run (l : Launch) (es : List LaunchEvent) : Launch := es.foldl step l

/-- The stop signals that a listener has yet to take in. -/
def pending (l : Launch) (listener : Listener) : Nat :=
  (l.channel.pending listener.receiver).getD 0

end Launch

end OrderRelay
