import OrderRelay.Proofs.Settings.Ports
import OrderRelay.Proofs.Settings.Written

/-!
# Which source wins

Three settings can come from several places, the others from the document alone. What is in force is
said here setting by setting, and so is what stops the settings from coming into force: first a
document that stands for no settings, then a port in the environment that is none, and last the rules.

* `Settings.WrittenIn`: the settings that a document is written down for.
* `Environment.SetsPort`: the port that the environment sets, if it sets one.
* `Settings.MergedFrom`: the highest source wins.
* `Settings.load_document`: **what comes of a document, an environment and a command line.**
-/

namespace OrderRelay

open Toml (Value)

/-- A document is to blame. -/
def LoadError.OfDocument (e : LoadError) : Prop := e = .malformed ∨ ∃ why, e = .unfit why

/-- **The port that the environment sets**, if it sets one. -/
def Environment.SetsPort (env : Environment) (port : Option UInt16) : Prop :=
  match env.port with
  | none => port = none
  | some text => ∃ p, port = some p ∧ SpellsPort text p

namespace Settings

/-- **A document is written for settings**: it is well-formed and stands for them. -/
def WrittenIn (text : String) (s : Settings) : Prop :=
  ∃ entries, Toml.Document.parse? text = some entries ∧ Stands fields {} (.table entries) s

/-- **The highest source wins**: the command line over the environment over the document, where a
setting that a document leaves out has its default. All other settings are those of the document. -/
structure MergedFrom (file : Settings) (env : Environment) (port : Option UInt16) (o : Overrides)
    (s : Settings) : Prop where
  host : s.engine.host = (o.host.or env.host).getD file.engine.host
  port : s.engine.port = (o.port.or port).getD file.engine.port
  bindAddress : s.listener.bindAddress =
    (o.bindAddress.or env.bindAddress).getD file.listener.bindAddress
  connectTimeoutMs : s.engine.connectTimeoutMs = file.engine.connectTimeoutMs
  deadlineMs : s.engine.deadlineMs = file.engine.deadlineMs
  timeouts : s.timeouts = file.timeouts
  observability : s.observability = file.observability
  security : s.security = file.security

variable {text : String} {env : Environment} {port : Option UInt16} {o : Overrides} {file s : Settings}

/-! ## The document -/

theorem ofDocument_eq_ok_iff : ofDocument text = .ok s ↔ WrittenIn text s := by
  unfold ofDocument WrittenIn
  cases hparse : Toml.Document.parse? text with
  | none => simp
  | some entries =>
    have hentries := ofEntries_eq_ok_iff (s := s) (Toml.Document.tidy_of_parse? hparse)
    cases hof : ofEntries entries with
    | error why => simpa [hof] using hentries
    | ok t => simpa [hof] using hentries

theorem ofDocument_error {e : LoadError} (h : ofDocument text = .error e) : e.OfDocument := by
  unfold ofDocument at h
  split at h
  case h_1 =>
    cases h
    exact .inl rfl
  case h_2 =>
    split at h
    case h_1 why _ =>
      cases h
      exact .inr ⟨why, rfl⟩
    case h_2 => cases h

/-! ## The environment -/

theorem environmentPort_eq_ok_iff : environmentPort env = .ok port ↔ env.SetsPort port := by
  unfold environmentPort Environment.SetsPort
  cases env.port with
  | none => simp [eq_comm]
  | some text =>
    simp only [← portOfText?_eq_some_iff]
    cases portOfText? (trimBlanks text) with
    | none => simp
    | some p => simp [eq_comm]

theorem environmentPort_eq_error_iff {value : String} : environmentPort env = .error value ↔
    env.port = some value ∧ ¬∃ p, SpellsPort value p := by
  unfold environmentPort
  simp only [← portOfText?_eq_some_iff, not_exists]
  cases env.port with
  | none => simp
  | some text =>
    simp only [Option.some.injEq]
    cases hport : portOfText? (trimBlanks text) with
    | none =>
      simp only [Except.error.injEq]
      refine ⟨fun h => ⟨h, fun p hp => ?_⟩, And.left⟩
      rw [← h, hport] at hp
      cases hp
    | some p =>
      refine iff_of_false (fun h => nomatch h) fun ⟨htext, hnone⟩ => hnone p ?_
      rw [← htext, hport]

/-! ## All sources together -/

/-- Puts all sources over the settings of the document. -/
def merged (file : Settings) (env : Environment) (port : Option UInt16) (o : Overrides) : Settings :=
  (((file.withHost env.host).withPort port).withBindAddress env.bindAddress).withOverrides o

theorem mergedFrom_merged (file : Settings) (env : Environment) (port : Option UInt16)
    (o : Overrides) : file.MergedFrom env port o (file.merged env port o) :=
  ⟨Option.getD_or.symm, Option.getD_or.symm, Option.getD_or.symm, rfl, rfl, rfl, rfl, rfl⟩

/-- All settings are told. -/
theorem MergedFrom.unique {t : Settings} (hs : file.MergedFrom env port o s)
    (ht : file.MergedFrom env port o t) : s = t := by
  obtain ⟨⟨bind⟩, ⟨host, port₁, connect, deadline⟩, timeouts, observability, security⟩ := s
  obtain ⟨⟨bind'⟩, ⟨host', port', connect', deadline'⟩, timeouts', observability', security'⟩ := t
  obtain rfl : bind = bind' := hs.bindAddress.trans ht.bindAddress.symm
  obtain rfl : host = host' := hs.host.trans ht.host.symm
  obtain rfl : port₁ = port' := hs.port.trans ht.port.symm
  obtain rfl : connect = connect' := hs.connectTimeoutMs.trans ht.connectTimeoutMs.symm
  obtain rfl : deadline = deadline' := hs.deadlineMs.trans ht.deadlineMs.symm
  obtain rfl : timeouts = timeouts' := hs.timeouts.trans ht.timeouts.symm
  obtain rfl : observability = observability' := hs.observability.trans ht.observability.symm
  obtain rfl : security = security' := hs.security.trans ht.security.symm
  rfl

theorem mergedFrom_iff : file.MergedFrom env port o s ↔ s = file.merged env port o :=
  ⟨fun h => h.unique (mergedFrom_merged file env port o),
    fun h => h ▸ mergedFrom_merged file env port o⟩

theorem load_of_ofDocument (h : ofDocument text = .ok file) (env : Environment) (o : Overrides) :
    load (.document text) env o =
      match environmentPort env with
      | .error value => .error (.badPort value)
      | .ok port => (file.merged env port o).checked := by
  unfold load
  simp only [ofSource, h, withEnvironment]
  cases environmentPort env with
  | error value => rfl
  | ok port => rfl

theorem checked_eq_ok_iff {t : Settings} : t.checked = .ok s ↔ s = t ∧ s.problems = [] := by
  unfold checked
  cases h : t.problems with
  | nil =>
    simp only [Except.ok.injEq]
    exact ⟨fun hs => ⟨hs.symm, hs ▸ h⟩, fun hs => hs.1.symm⟩
  | cons p ps =>
    refine iff_of_false (fun hs => nomatch hs) fun ⟨hs, hnil⟩ => ?_
    rw [hs, h] at hnil
    cases hnil

theorem checked_eq_error_iff {t : Settings} {e : LoadError} :
    t.checked = .error e ↔ t.problems ≠ [] ∧ e = .broken t.problems := by
  unfold checked
  cases h : t.problems with
  | nil => simp
  | cons p ps => simp [eq_comm]

/-- **What comes of a document, an environment and a command line.**

* The settings that come into force are those of the highest sources, and break no rule.
* Otherwise the document is to blame just if it is not written for any settings, then the environment
  just if the port that it sets is none, whatever the command line says, and then all the rules that
  are broken are told, and nothing else. -/
theorem load_document (text : String) (env : Environment) (o : Overrides) :
    (∀ s, load (.document text) env o = .ok s ↔ ∃ file port, WrittenIn text file ∧
      env.SetsPort port ∧ file.MergedFrom env port o s ∧ s.problems = []) ∧
    ((∃ e, load (.document text) env o = .error e ∧ e.OfDocument) ↔ ¬∃ file, WrittenIn text file) ∧
    (∀ value, load (.document text) env o = .error (.badPort value) ↔
      (∃ file, WrittenIn text file) ∧ env.port = some value ∧ ¬∃ p, SpellsPort value p) ∧
    (∀ ps, load (.document text) env o = .error (.broken ps) ↔ ∃ file port s, WrittenIn text file ∧
      env.SetsPort port ∧ file.MergedFrom env port o s ∧ s.problems ≠ [] ∧ ps = s.problems) ∧
    load (.document text) env o ≠ .error .unreadable := by
  cases hdoc : ofDocument text with
  | error e =>
    have hnone : ∀ file, ¬WrittenIn text file := fun file h =>
      nomatch hdoc.symm.trans (ofDocument_eq_ok_iff.2 h)
    have hload : load (.document text) env o = .error e := by simp only [load, ofSource, hdoc]
    obtain rfl | ⟨why, rfl⟩ := ofDocument_error hdoc <;>
      simp [hload, hnone, LoadError.OfDocument]
  | ok file =>
    have hfile : ∀ t, WrittenIn text t ↔ t = file := fun t => by
      rw [← ofDocument_eq_ok_iff, hdoc]
      simp [eq_comm]
    cases henv : environmentPort env with
    | error value =>
      have hport : ∀ port, ¬env.SetsPort port := fun port h =>
        nomatch henv.symm.trans (environmentPort_eq_ok_iff.2 h)
      have hload : load (.document text) env o = .error (.badPort value) := by
        rw [load_of_ofDocument hdoc, henv]
      simp only [hload, hfile, hport, ← environmentPort_eq_error_iff, henv, LoadError.OfDocument]
      simp
    | ok port =>
      have hport : ∀ p, env.SetsPort p ↔ p = port := fun p => by
        rw [← environmentPort_eq_ok_iff, henv]
        simp [eq_comm]
      have hload : load (.document text) env o = (file.merged env port o).checked := by
        rw [load_of_ofDocument hdoc, henv]
      simp only [hload, hfile, hport, ← environmentPort_eq_error_iff, henv, LoadError.OfDocument,
        mergedFrom_iff, checked_eq_ok_iff, checked_eq_error_iff]
      simp [checked_eq_error_iff]

example : (load (.document "[backend]\nhost = 'engine'\nport = 9\n") { port := some " +07 " }
    { bindAddress := some "127.0.0.1:80" }).toOption = some
      { listener := ⟨"127.0.0.1:80"⟩, engine := { host := "engine", port := 7 } } := by
  decide +kernel

end Settings

end OrderRelay
