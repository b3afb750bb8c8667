import OrderRelay.Command.ServiceLine
import OrderRelay.Service.Assembly

/-!
# Running the service

A run starts from a command line, an environment and perhaps a document. It serves if settings can
be had and the parts can be put together, until a signal ends it.

* `ServiceStart.ofWords`: how far a start gets.
* `ServiceStart.exitCode`: the exit code once a signal has ended the run.
* `ServiceStart.settingsLine`, `ServiceStart.stopLines`: what is logged of it.
-/

namespace OrderRelay

/-- The signals that end a run. -/
inductive StopSignal where
  | terminate
  | interrupt
  deriving DecidableEq, Repr

/-- The name of a signal. -/
def StopSignal.name : StopSignal → String
  | .terminate => "SIGTERM"
  | .interrupt => "SIGINT"

/-- How far a start gets. -/
inductive ServiceStart where
  | stopped (stop : Stop)
  | unloaded (e : LoadError)
  | unassembled (s : Settings) (e : AssemblyError)
  | serving (s : Settings) (a : Assembly)

namespace ServiceStart

/-- How far a start gets, where `read` gives the document at a path. -/
def ofWords (read : String → Source) (env : Environment) (ws : List String) : ServiceStart :=
  match ServiceLine.ofWords ws with
  | .error stop => .stopped stop
  | .ok line =>
    let source := match line.document with
      | some path => read path
      | none => .none
    match Settings.load source env line.overrides with
    | .error e => .unloaded e
    | .ok s =>
      match Assembly.ofSettings s with
      | .error e => .unassembled s e
      | .ok a => .serving s a

/-- Whether the service answers requests. -/
def isServing : ServiceStart → Bool
  | .serving .. => true
  | _ => false

/-- The exit code once a signal has ended the run. -/
def exitCode : ServiceStart → Nat
  | .stopped stop => stop.exitCode
  | .unloaded _ | .unassembled .. => 1
  | .serving .. => 0

/-- Whether the run ends with an error of the service itself. -/
def hasFailed : ServiceStart → Bool
  | .unloaded _ | .unassembled .. => true
  | _ => false

/-- Whether ordinary lines are logged. -/
def logsOrdinaryLines (s : Settings) : Bool :=
  ["info", "debug", "trace"].contains (lowerAscii s.observability.logLevel)

/-- The settings that are logged. -/
def describe (s : Settings) : String :=
  "bind_address=" ++ s.listener.bindAddress ++ " backend_host=" ++ s.engine.host
    ++ " backend_port=" ++ natText s.engine.port.toNat
    ++ " deadline_ms=" ++ natText s.engine.deadlineMs.toNat
    ++ " request_timeout_secs=" ++ natText s.timeouts.requestSecs.toNat

/-- The line about the settings, if it is logged. -/
def settingsLine : ServiceStart → Option String
  | .unassembled s _ | .serving s _ => if logsOrdinaryLines s then some (describe s) else none
  | _ => none

/-- The lines that are logged when a signal ends the run, in the order of the alphabet. -/
def stopLines (signal : StopSignal) : ServiceStart → List String
  | .serving s a =>
    if logsOrdinaryLines s then
      ["Backend channel closed", "HTTP server stopped"]
        ++ (if a.metricsAddress.isSome then ["Metrics endpoint stopped"] else [])
        ++ ["Shutdown complete", "Shutdown signal received \"" ++ signal.name ++ "\""]
    else []
  | _ => []

end ServiceStart

end OrderRelay
