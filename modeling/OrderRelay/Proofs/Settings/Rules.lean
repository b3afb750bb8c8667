import Mathlib
import OrderRelay.Proofs.Order.Requirements
import OrderRelay.Settings.Problem

/-!
# The rules on settings

Every rule that is broken is told, and nothing else is. Two rules look at the deadline of the
engine, and no settings break both, so no setting is told of twice.

* `Settings.rules`: what can be told of settings, in the order in which it is told.
* `Settings.Breaks`: when settings break a rule, with times as numbers without a bound.
* `Settings.problems_eq_filter`: what is told are the rules that are broken.
* `Settings.rules_reported`: **that, each setting at most once, and which deadlines pass.**
-/

namespace OrderRelay

namespace Settings

/-- **The rules**, each by what is told of settings that break it. -/
def rules (s : Settings) : List Problem :=
  [.bindAddress s.listener.bindAddress, .hostEmpty, .portZero, .connectTimeoutZero, .deadlineZero,
    .requestTimeoutZero, .deadlineTooLong, .unknownLevel s.observability.logLevel,
    .metricsAddress s.observability.metricsAddress, .bodyLimitZero]

/-- **When settings break a rule.** -/
def Breaks (s : Settings) : Problem → Prop
  | .bindAddress _ => SocketAddress.parse? s.listener.bindAddress = none
  | .hostEmpty => ∀ c ∈ s.engine.host.toList, isBlankChar c = true
  | .portZero => s.engine.port = 0
  | .connectTimeoutZero => s.engine.connectTimeoutMs = 0
  | .deadlineZero => s.engine.deadlineMs = 0
  | .requestTimeoutZero => s.timeouts.requestSecs = 0
  -- a caller who does not wait at all is told that alone; and the longest deadline of all never
  -- passes, whatever the caller's time
  | .deadlineTooLong => s.timeouts.requestSecs ≠ 0 ∧
      (1000 * s.timeouts.requestSecs.toNat ≤ s.engine.deadlineMs.toNat ∨
        s.engine.deadlineMs.toNat = 2 ^ 64 - 1)
  | .unknownLevel _ => ∀ level ∈ logLevels, sameAscii level s.observability.logLevel = false
  | .metricsAddress _ => s.observability.metricsEnabled = true ∧
      SocketAddress.parse? s.observability.metricsAddress = none
  | .bodyLimitZero => s.security.maxBodySize = 0

instance (s : Settings) : DecidablePred s.Breaks
  | .bindAddress _ => inferInstanceAs (Decidable (_ = _))
  | .hostEmpty => inferInstanceAs (Decidable (∀ c ∈ _, _))
  | .portZero => inferInstanceAs (Decidable (_ = _))
  | .connectTimeoutZero => inferInstanceAs (Decidable (_ = _))
  | .deadlineZero => inferInstanceAs (Decidable (_ = _))
  | .requestTimeoutZero => inferInstanceAs (Decidable (_ = _))
  | .deadlineTooLong => inferInstanceAs (Decidable (_ ∧ _))
  | .unknownLevel _ => inferInstanceAs (Decidable (∀ level ∈ _, _))
  | .metricsAddress _ => inferInstanceAs (Decidable (_ ∧ _))
  | .bodyLimitZero => inferInstanceAs (Decidable (_ = _))

variable {s : Settings}

/-! ## Each rule -/

/-- **The product that stops at the largest word** lets no deadline pass that is not shorter, and of
those that are it holds up the largest word alone. -/
theorem deadlineTooLong_iff : s.deadlineTooLong = true ↔ s.Breaks .deadlineTooLong := by
  have hword : s.engine.deadlineMs.toNat < 2 ^ 64 := s.engine.deadlineMs.toNat_lt
  have hmillis : millis s.timeouts.requestSecs ≤ s.engine.deadlineMs.toNat ↔
      1000 * s.timeouts.requestSecs.toNat ≤ s.engine.deadlineMs.toNat ∨
        s.engine.deadlineMs.toNat = 2 ^ 64 - 1 := by
    unfold millis maxWord
    omega
  unfold deadlineTooLong Breaks
  rw [Bool.and_eq_true, bne_iff_ne, decide_eq_true_eq, hmillis]

/-- Levels are written in small letters, so it is enough to make the letters of the setting small. -/
theorem contains_logLevels_iff {text : String} :
    logLevels.contains (lowerAscii text) = true ↔
      ∃ level ∈ logLevels, sameAscii level text = true := by
  have hsmall : ∀ level ∈ logLevels, lowerAscii level = level := by decide
  rw [List.contains_iff_mem]
  constructor
  · exact fun h => ⟨_, h, sameAscii_eq_true_iff.2 (hsmall _ h)⟩
  · rintro ⟨level, hlevel, hsame⟩
    rw [← sameAscii_eq_true_iff.1 hsame, hsmall level hlevel]
    exact hlevel

theorem unknownLevel_iff (text : String) :
    (!logLevels.contains (lowerAscii s.observability.logLevel)) = true ↔
      s.Breaks (.unknownLevel text) := by
  rw [Bool.not_eq_true', ← Bool.not_eq_true, contains_logLevels_iff]
  unfold Breaks
  simp

/-! ## All of them -/

/-- A check that fails just if the rule is broken tells of the rule just if it is broken. -/
theorem problemIf_eq_filter {broken : Bool} {p : Problem} (h : broken = true ↔ s.Breaks p) :
    problemIf broken p = [p].filter (s.Breaks ·) := by
  by_cases hp : s.Breaks p
  · rw [h.2 hp, List.filter_cons_of_pos (by simpa using hp)]
    rfl
  · rw [Bool.eq_false_iff.2 (mt h.1 hp), List.filter_cons_of_neg (by simpa using hp)]
    rfl

/-- **What is told are the rules that are broken**, in the order of the rules. -/
theorem problems_eq_filter (s : Settings) : s.problems = s.rules.filter (s.Breaks ·) := by
  unfold problems
  rw [problemIf_eq_filter (p := .bindAddress _) Option.isNone_iff_eq_none,
    problemIf_eq_filter (p := .hostEmpty) isBlank_eq_true_iff,
    problemIf_eq_filter (p := .portZero) beq_iff_eq,
    problemIf_eq_filter (p := .connectTimeoutZero) beq_iff_eq,
    problemIf_eq_filter (p := .deadlineZero) beq_iff_eq,
    problemIf_eq_filter (p := .requestTimeoutZero) beq_iff_eq,
    problemIf_eq_filter deadlineTooLong_iff,
    problemIf_eq_filter (p := .unknownLevel _) (unknownLevel_iff _),
    problemIf_eq_filter (p := .metricsAddress _)
      (Bool.and_eq_true_iff.trans (and_congr_right' Option.isNone_iff_eq_none)),
    problemIf_eq_filter (p := .bodyLimitZero) beq_iff_eq]
  simp only [← List.filter_append]
  rfl

/-- A deadline of nothing is not too long. -/
theorem not_deadlineTooLong_of_zero (h : s.Breaks .deadlineZero) : ¬s.Breaks .deadlineTooLong := by
  rintro ⟨hsecs, hlong⟩
  have hzero : s.engine.deadlineMs.toNat = 0 := by rw [show s.engine.deadlineMs = 0 from h]; rfl
  have hpos : s.timeouts.requestSecs.toNat ≠ 0 := fun h => hsecs (UInt64.toNat_inj.1 h)
  omega

/-- **Two rules that are broken look at two settings.** -/
theorem rules_pairwise (s : Settings) :
    s.rules.Pairwise fun p q => s.Breaks p → s.Breaks q → p.field ≠ q.field := by
  simpa [rules, Problem.field] using not_deadlineTooLong_of_zero

/-- **No setting is told of twice.** -/
theorem nodup_problems_field (s : Settings) : (s.problems.map Problem.field).Nodup := by
  rw [problems_eq_filter, List.Nodup, List.pairwise_map, List.pairwise_filter]
  refine s.rules_pairwise.imp fun h hp hq => h ?_ ?_
  · simpa using hp
  · simpa using hq

/-- Settings break no rule just if they break none on other settings than the engine's deadline, and
the deadline is something, shorter than the caller's time, and not the longest of all. -/
theorem problems_eq_nil_iff_deadline : s.problems = [] ↔
    (∀ p ∈ s.rules, p.field ≠ "backend.deadline_ms" → ¬s.Breaks p) ∧
      0 < s.engine.deadlineMs.toNat ∧
      s.engine.deadlineMs.toNat < 1000 * s.timeouts.requestSecs.toNat ∧
      s.engine.deadlineMs.toNat < 2 ^ 64 - 1 := by
  have hword : s.engine.deadlineMs.toNat < 2 ^ 64 := s.engine.deadlineMs.toNat_lt
  have hzero : s.Breaks .deadlineZero ↔ s.engine.deadlineMs.toNat = 0 := UInt64.toNat_inj.symm
  have hlong : s.Breaks .deadlineTooLong ↔ ¬s.Breaks .requestTimeoutZero ∧
      (1000 * s.timeouts.requestSecs.toNat ≤ s.engine.deadlineMs.toNat ∨
        s.engine.deadlineMs.toNat = 2 ^ 64 - 1) := Iff.rfl
  rw [problems_eq_filter, List.filter_eq_nil_iff]
  simp only [decide_eq_true_eq]
  constructor
  · intro hkept
    have hmem : Problem.deadlineZero ∈ s.rules ∧ Problem.requestTimeoutZero ∈ s.rules ∧
        Problem.deadlineTooLong ∈ s.rules := by simp [rules]
    have hpos := mt hzero.2 (hkept _ hmem.1)
    have hshort : ¬(1000 * s.timeouts.requestSecs.toNat ≤ s.engine.deadlineMs.toNat ∨
        s.engine.deadlineMs.toNat = 2 ^ 64 - 1) :=
      fun h => hkept _ hmem.2.2 (hlong.2 ⟨hkept _ hmem.2.1, h⟩)
    exact ⟨fun p hp _ => hkept p hp, by omega, by omega, by omega⟩
  · rintro ⟨hkept, hpos, hshort, hmax⟩ p hp
    by_cases hfield : p.field = "backend.deadline_ms"
    · have hcases : p = .deadlineZero ∨ p = .deadlineTooLong := by
        cases p <;> simp_all [Problem.field]
      rcases hcases with rfl | rfl
      · rw [hzero]
        omega
      · rintro ⟨-, hlong⟩
        omega
    · exact hkept p hp hfield

/-- **The rules that are broken are reported**, and nothing else.

* They are told in the order of the rules, and no setting is told of twice.
* Settings that are accepted have a deadline shorter than the caller's time, however large the two
  are.
* Settings that keep the rules on all else, with a deadline that is something, shorter than the
  caller's time and not the largest word, are accepted. -/
theorem rules_reported (s : Settings) :
    s.problems = s.rules.filter (s.Breaks ·) ∧
    (s.problems.map Problem.field).Nodup ∧
    (s.problems = [] →
      s.engine.deadlineMs.toNat < 1000 * s.timeouts.requestSecs.toNat) ∧
    ((∀ p ∈ s.rules, p.field ≠ "backend.deadline_ms" → ¬s.Breaks p) →
      0 < s.engine.deadlineMs.toNat →
      s.engine.deadlineMs.toNat < 1000 * s.timeouts.requestSecs.toNat →
      s.engine.deadlineMs.toNat < 2 ^ 64 - 1 → s.problems = []) := by
  refine ⟨s.problems_eq_filter, s.nodup_problems_field, fun haccepted => ?_, ?_⟩
  · exact (problems_eq_nil_iff_deadline.1 haccepted).2.2.1
  · exact fun hkept hpos hshort hmax => problems_eq_nil_iff_deadline.2 ⟨hkept, hpos, hshort, hmax⟩

-- a deadline that is not too long, for a caller who does not wait at all
example :
    let s : Settings := {
      engine := { host := "\t ", port := 0, deadlineMs := 1 }
      timeouts := { requestSecs := 0 }
      observability := { logLevel := "Warn", metricsAddress := "nowhere" } }
    s.problems = [.hostEmpty, .portZero, .requestTimeoutZero, .metricsAddress "nowhere"] := by
  decide

end Settings

end OrderRelay
