import OrderRelay.Settings.Basic
import OrderRelay.Settings.SocketAddress
import OrderRelay.Text.Blank

/-!
# Settings that cannot be served

A rule on each setting, checked one by one so that every breach is told at once.

* `Settings.problems`: the breaches, in a fixed order.
* `Settings.problems_eq_nil_iff`: there are none just if every rule holds.
-/

namespace OrderRelay

/-- A breach of a rule. -/
inductive Problem where
  | bindAddress (value : String)
  | hostEmpty
  | portZero
  | connectTimeoutZero
  | deadlineZero
  | requestTimeoutZero
  /-- The caller would be gone before the engine's time is up. -/
  | deadlineTooLong
  | unknownLevel (value : String)
  | metricsAddress (value : String)
  | bodyLimitZero
  deriving DecidableEq, Repr

namespace Problem

/-- The setting that breaks the rule. -/
def field : Problem → String
  | .bindAddress _ => "listener.bind_address"
  | .hostEmpty => "backend.host"
  | .portZero => "backend.port"
  | .connectTimeoutZero => "backend.connect_timeout_ms"
  | .deadlineZero => "backend.deadline_ms"
  | .requestTimeoutZero => "timeouts.request_secs"
  | .deadlineTooLong => "backend.deadline_ms"
  | .unknownLevel _ => "observability.log_level"
  | .metricsAddress _ => "observability.metrics_address"
  | .bodyLimitZero => "security.max_body_size"

/-- What is wrong with it. -/
def message : Problem → String
  | .bindAddress value => "'" ++ value ++ "' is not a socket address"
  | .hostEmpty => "must not be empty"
  | .portZero => "must be non-zero"
  | .connectTimeoutZero => "must be greater than 0"
  | .deadlineZero => "must be greater than 0"
  | .requestTimeoutZero => "must be greater than 0"
  | .deadlineTooLong => "must be shorter than timeouts.request_secs"
  | .unknownLevel value => "unknown level '" ++ value ++ "'"
  | .metricsAddress value => "'" ++ value ++ "' is not a socket address"
  | .bodyLimitZero => "must be greater than 0"

/-- The setting and what is wrong with it. -/
def text (p : Problem) : String := p.field ++ ": " ++ p.message

end Problem

/-- The problem, if a rule is broken. -/
def problemIf (broken : Bool) (p : Problem) : List Problem := if broken then [p] else []

theorem problemIf_eq_nil_iff {broken : Bool} {p : Problem} :
    problemIf broken p = [] ↔ broken = false := by
  cases broken <;> simp [problemIf]

/-- The log levels, from the finest. -/
def logLevels : List String := ["trace", "debug", "info", "warn", "error"]

/-- The largest 64-bit number. -/
def maxWord : Nat := 0xFFFFFFFFFFFFFFFF

/-- A number of seconds in milliseconds, or the largest 64-bit number if that is less. -/
def millis (secs : UInt64) : Nat := min (secs.toNat * 1000) maxWord

namespace Settings

/-- Whether the engine may take as long as the caller waits. -/
def deadlineTooLong (s : Settings) : Bool :=
  s.timeouts.requestSecs != 0 && millis s.timeouts.requestSecs ≤ s.engine.deadlineMs.toNat

/-- The breaches of the rules. -/
def problems (s : Settings) : List Problem :=
  problemIf (SocketAddress.parse? s.listener.bindAddress).isNone (.bindAddress s.listener.bindAddress)
    ++ problemIf (isBlank s.engine.host) .hostEmpty
    ++ problemIf (s.engine.port == 0) .portZero
    ++ problemIf (s.engine.connectTimeoutMs == 0) .connectTimeoutZero
    ++ problemIf (s.engine.deadlineMs == 0) .deadlineZero
    ++ problemIf (s.timeouts.requestSecs == 0) .requestTimeoutZero
    ++ problemIf s.deadlineTooLong .deadlineTooLong
    ++ problemIf (!logLevels.contains (lowerAscii s.observability.logLevel))
      (.unknownLevel s.observability.logLevel)
    ++ problemIf (s.observability.metricsEnabled
        && (SocketAddress.parse? s.observability.metricsAddress).isNone)
      (.metricsAddress s.observability.metricsAddress)
    ++ problemIf (s.security.maxBodySize == 0) .bodyLimitZero

theorem problems_eq_nil_iff {s : Settings} :
    s.problems = [] ↔
      (SocketAddress.parse? s.listener.bindAddress).isSome ∧ isBlank s.engine.host = false
        ∧ s.engine.port ≠ 0 ∧ s.engine.connectTimeoutMs ≠ 0 ∧ s.engine.deadlineMs ≠ 0
        ∧ s.timeouts.requestSecs ≠ 0 ∧ s.engine.deadlineMs.toNat < millis s.timeouts.requestSecs
        ∧ lowerAscii s.observability.logLevel ∈ logLevels
        ∧ (s.observability.metricsEnabled = true →
            (SocketAddress.parse? s.observability.metricsAddress).isSome)
        ∧ s.security.maxBodySize ≠ 0 := by
  simp only [problems, List.append_eq_nil_iff, problemIf_eq_nil_iff, deadlineTooLong]
  simp only [Option.isNone_eq_false_iff, beq_eq_false_iff_ne, Bool.and_eq_false_iff, bne_eq_false_iff_eq,
    decide_eq_false_iff_not, Nat.not_le, Bool.not_eq_false', List.contains_eq_mem, decide_eq_true_eq]
  cases s.observability.metricsEnabled <;> simp <;> grind

end Settings

end OrderRelay
