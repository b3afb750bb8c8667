import Mathlib.Data.Nat.Notation
import Mathlib.Tactic.Common
import OrderRelay.Proofs.Link.Closing
import OrderRelay.Service.Startup

/-!
# Settings that pass their checks start the service

The checks and the start each look at the address for readings on their own. They
agree on it, and on when it matters, so that the engine's address is all that is
left to fail on.

* `Link.ClosesOnce`: an open link that is released once, by whichever close comes
  first.
* `Services.Serves`: what a started service is, for its settings.
* `Services.endpointFor_of_problems`: with checked settings there is an endpoint
  just if readings are measured.
* `Services.start_checked`: **checked settings start the service unless the
  engine's host and port are no address**, and that is told as such.
-/

namespace OrderRelay

/-! ## A link that is closed once -/

/-- **An open link is closed once**: of any uses one after the other, and of the
uses of any tasks that share it, the first close releases it and no other does. A
last close by its owner makes sure of the release. -/
structure Link.ClosesOnce (link : Link) : Prop where
  opened : link.isOpen = true
  first : ∀ (steps : List Step) (n : ℕ), steps[n]? = some .close →
    (link.run steps).2[n]? = some (.closed (!(steps.take n).contains .close))
  shared : ∀ (tasks : List (List Step)) (schedule : List ℕ) (n : ℕ) (use : Use),
    ((Sharing.start link tasks).run schedule).uses[n]? = some use → use.step = .close →
      use.outcome = .closed (!closedBy (((Sharing.start link tasks).run schedule).uses.take n))
  released : ∀ (tasks : List (List Step)) (schedule : List ℕ),
    let s := (Sharing.start link tasks).run schedule
    s.uses.countP (·.outcome.isRelease) + s.link.close.2.toNat = 1

theorem Link.any_closes (steps : List Step) : steps.any Step.closes = steps.contains .close := by
  induction steps with
  | nil => rfl
  | cons s steps ih =>
    rw [List.any_cons, List.contains_cons, ih]
    cases s <;> rfl

theorem Link.closesOnce_of_isOpen {link : Link} (h : link.isOpen = true) : link.ClosesOnce where
  opened := h
  first := by
    intro steps n hn
    rw [outcomes_run, hn, h, any_closes]
    rfl
  shared := by
    intro tasks schedule n use hn hclose
    have htraced := Sharing.run_traced link tasks schedule
    rw [htraced.outcome_eq hn, hclose, h]
    rfl
  released := by
    intro tasks schedule
    have hreleases := (Sharing.run_traced link tasks schedule).releases_eq
    rw [h] at hreleases
    exact hreleases

/-- A link that has been opened is for the host and the port, and open. -/
theorem Link.open?_eq_ok {host : String} {port : UInt16}
    (h : Http.Uri.isHttp (Utf8.encode (targetOf host port)) = true) :
    open? host port = .ok ⟨targetOf host port, true⟩ := by
  unfold open?
  exact if_pos h

/-- The only failure to open a link is that the host and port are no address. -/
theorem Link.open?_eq_error {host : String} {port : UInt16}
    (h : Http.Uri.isHttp (Utf8.encode (targetOf host port)) = false) :
    open? host port = .error (.invalidEndpoint (targetOf host port) "invalid URI") := by
  unfold open?
  exact if_neg (Bool.eq_false_iff.1 h)

namespace Services

variable {Handle : Type} {build : List ℕ → Except String Handle} {s : Settings}

/-! ## The endpoint for readings -/

/-- **With checked settings there is an endpoint just if readings are measured**,
at the address that the check has read. -/
theorem endpointFor_of_problems (hs : s.problems = [])
    (hbuild : ∀ limits, limits ≠ [] → ∃ handle, build limits = .ok handle) :
    ∃ endpoint, endpointFor build s.observability = .ok endpoint ∧
      endpoint.isSome = s.observability.metricsEnabled ∧
      ∀ e, endpoint = some e →
        SocketAddress.parse? s.observability.metricsAddress = some e.address ∧
          build latencyBuckets = .ok e.handle := by
  obtain ⟨-, -, -, -, -, -, -, -, hparse, -⟩ := Settings.problems_eq_nil_iff.1 hs
  unfold endpointFor Assembly.scrapeAddress
  cases henabled : s.observability.metricsEnabled with
  | false => exact ⟨none, rfl, rfl, nofun⟩
  | true =>
    obtain ⟨address, haddress⟩ := Option.isSome_iff_exists.1 (hparse henabled)
    obtain ⟨handle, hhandle⟩ := hbuild latencyBuckets (by decide)
    refine ⟨some ⟨address, handle⟩, ?_, rfl, ?_⟩
    · simp only [haddress, hhandle, if_true]
    · intro e he
      obtain rfl := Option.some.inj he
      exact ⟨haddress, hhandle⟩

/-- What keeps the readings aside, the service starts from the same settings with
the same parts. -/
theorem start_eq_ofSettings
    (hbuild : ∀ limits, limits ≠ [] → ∃ handle, build limits = .ok handle) (s : Settings) :
    (start build s).map assembly = (Assembly.ofSettings s).mapError .assembly := by
  obtain ⟨handle, hhandle⟩ := hbuild latencyBuckets (by decide)
  unfold start endpointFor Assembly.ofSettings
  cases haddress : Assembly.scrapeAddress s.observability with
  | error e => rfl
  | ok address =>
    cases address <;> simp only [hhandle] <;> cases Link.open? s.engine.host s.engine.port <;> rfl

/-- So a service that starts has the parts that come from its settings. -/
theorem ofSettings_of_start
    (hbuild : ∀ limits, limits ≠ [] → ∃ handle, build limits = .ok handle) {v : Services Handle}
    (h : start build s = .ok v) : Assembly.ofSettings s = .ok v.assembly := by
  have hparts := start_eq_ofSettings hbuild s
  rw [h] at hparts
  cases hassembly : Assembly.ofSettings s with
  | error e =>
    rw [hassembly] at hparts
    cases hparts
  | ok a =>
    rw [hassembly] at hparts
    obtain rfl : v.assembly = a := Except.ok.inj hparts
    rfl

/-! ## The start -/

/-- **What a started service is**: its parts are those that come from its settings.
It has an endpoint for readings just if they are measured, at the address that the
settings' check has read; the engine gets the time that is set; and the link is one
to the engine's host and port that closes once. -/
structure Serves (s : Settings) (v : Services Handle) : Prop where
  parts : Assembly.ofSettings s = .ok v.assembly
  measured : v.endpoint.isSome = s.observability.metricsEnabled
  address : ∀ e, v.endpoint = some e →
    SocketAddress.parse? s.observability.metricsAddress = some e.address
  deadlineMs : v.deadlineMs = s.engine.deadlineMs
  target : v.link.target = s.engine.host ++ ":" ++ natText s.engine.port.toNat
  closes : v.link.ClosesOnce

/-- **Checked settings start the service, unless the engine's host and port are no
address.** Neither the address for readings nor what keeps them can be the reason,
as long as what keeps them accepts every list of limits but the empty one. -/
theorem start_checked (hs : s.problems = [])
    (hbuild : ∀ limits, limits ≠ [] → ∃ handle, build limits = .ok handle) :
    if Http.Uri.isHttp (Utf8.encode (s.engine.host ++ ":" ++ natText s.engine.port.toNat)) then
      ∃ v, start build s = .ok v ∧ v.Serves s
    else
      start build s = .error (.assembly (.engine (.invalidEndpoint
        (s.engine.host ++ ":" ++ natText s.engine.port.toNat) "invalid URI"))) := by
  obtain ⟨endpoint, hendpoint, hmeasured, haddress⟩ := endpointFor_of_problems hs hbuild
  split
  · rename_i hhttp
    let v : Services Handle :=
      ⟨⟨Link.targetOf s.engine.host s.engine.port, true⟩, s.engine.deadlineMs, endpoint⟩
    have hstart : start build s = .ok v := by
      unfold start
      rw [hendpoint, Link.open?_eq_ok hhttp]
    refine ⟨v, hstart, ofSettings_of_start hbuild hstart, hmeasured, ?_, rfl, rfl, ?_⟩
    · intro e he
      exact (haddress e he).1
    · exact Link.closesOnce_of_isOpen rfl
  · rename_i hhttp
    unfold start
    rw [hendpoint, Link.open?_eq_error (Bool.eq_false_iff.2 hhttp)]
    rfl

/-- What keeps readings by the limits of their buckets alone. -/
def keepLimits (limits : List ℕ) : Except String (List ℕ) :=
  if limits = [] then .error "empty list of buckets" else .ok limits

/-- The default settings start the service. A host with a blank in it passes the
checks and is no address. -/
theorem start_checked_default_and_blank :
    (∃ v, start keepLimits {} = .ok v ∧ v.Serves {}) ∧
      start keepLimits { engine := { host := "a b" } } =
        .error (.assembly (.engine (.invalidEndpoint "a b:50051" "invalid URI"))) := by
  have hkeep : ∀ limits, limits ≠ [] → ∃ handle, keepLimits limits = .ok handle :=
    fun limits h => ⟨limits, if_neg h⟩
  constructor
  · have hdefault : (({} : Settings).problems) = [] := by decide +kernel
    exact start_checked hdefault hkeep
  · have hblank : (({ engine := { host := "a b" } } : Settings).problems) = [] := by decide +kernel
    exact start_checked hblank hkeep

end Services

end OrderRelay
