import Mathlib.Data.List.Forall2
import Mathlib.Tactic.Common
import OrderRelay.Proofs.Toml.Tidy
import OrderRelay.Settings.Document

/-!
# What a document says of the settings

A document is put into the settings entry by entry, and the first value that does not fit ends this.
What comes of it can be said without an order: each setting is what the document gives it, if it is
mentioned, and what it was before otherwise.

* `SettingSpec`: a setting as documents spell it.
* `SettingSpec.ToldBy`: a setting is what it is given, or has been left alone.
* `Stands`: a value stands for the settings of a group.
* `Settings.fields`: the settings of a document, group by group.
* `Settings.ofEntries_eq_ok_iff`: **the settings of a document** are those that it stands for.
-/

namespace OrderRelay

open Toml (Value)

namespace Toml.Value

/-- What a group gives to the setting of a name and a place: the entry of the name in a table, and the
item at the place in an array. -/
def Gives (group : Value) (name : String) (place : ℕ) (v : Value) : Prop :=
  match group with
  | .table entries => (name, v) ∈ entries
  | .array items => items[place]? = some v
  | _ => False

/-- What can stand for a group of settings. A moment gives a value to none of them. -/
def IsGroup : Value → Prop
  | .table _ | .array _ | .moment => True
  | _ => False

end Toml.Value

/-- A setting as documents spell it: its name, what a value of it is read as, and where it is kept. -/
structure SettingSpec (α : Type) where
  {β : Type}
  name : String
  reads : Value → β → Prop
  get : α → β

namespace SettingSpec

variable {α : Type}

/-- **A setting is what a group gives it**, or what it was if it has been left out. -/
structure ToldBy (f : SettingSpec α) (place : ℕ) (group : Value) (before after : α) : Prop where
  given : ∀ v, group.Gives f.name place v → f.reads v (f.get after)
  leftOut : (∀ v, ¬group.Gives f.name place v) → f.get after = f.get before

/-- No value is read as two different things. -/
def Definite (f : SettingSpec α) : Prop := ∀ v b c, f.reads v b → f.reads v c → b = c

/-- A setting can have been told one thing only. -/
theorem ToldBy.unique {f : SettingSpec α} (hf : f.Definite) {place : ℕ} {group : Value} {a b c : α}
    (hb : f.ToldBy place group a b) (hc : f.ToldBy place group a c) : f.get b = f.get c := by
  by_cases h : ∃ v, group.Gives f.name place v
  · obtain ⟨v, hv⟩ := h
    exact hf v _ _ (hb.given v hv) (hc.given v hv)
  · rw [hb.leftOut (not_exists.1 h), hc.leftOut (not_exists.1 h)]

end SettingSpec

/-- **A value stands for the settings of a group**: each is what it gives them, or has its default. -/
structure Stands {α : Type} (fields : List (SettingSpec α)) (initial : α) (group : Value) (a : α) :
    Prop where
  isGroup : group.IsGroup
  told : ∀ (place : ℕ) (f : SettingSpec α), fields[place]? = some f → f.ToldBy place group initial a

/-! ## The settings of a document -/

namespace SettingSpec

variable {α : Type}

/-- A setting that is a text. -/
def text (name : String) (get : α → String) : SettingSpec α := ⟨name, fun v s => v = .text s, get⟩

/-- A setting that is a truth value. -/
def flag (name : String) (get : α → Bool) : SettingSpec α := ⟨name, fun v b => v = .bool b, get⟩

/-- A setting that is a number of 16 bits. -/
def port (name : String) (get : α → UInt16) : SettingSpec α :=
  ⟨name, fun v p => v = .whole p.toNat, get⟩

/-- A setting that is a number of 64 bits. -/
def word (name : String) (get : α → UInt64) : SettingSpec α :=
  ⟨name, fun v w => v = .whole w.toNat, get⟩

/-- A group of settings. -/
def group {β : Type} (name : String) (fields : List (SettingSpec β)) (initial : β) (get : α → β) :
    SettingSpec α :=
  ⟨name, Stands fields initial, get⟩

end SettingSpec

namespace Settings

/-- The settings of the listener. -/
def listenerFields : List (SettingSpec ListenerSettings) := [.text "bind_address" (·.bindAddress)]

/-- The settings of the engine. -/
def engineFields : List (SettingSpec EngineSettings) :=
  [.text "host" (·.host), .port "port" (·.port), .word "connect_timeout_ms" (·.connectTimeoutMs),
    .word "deadline_ms" (·.deadlineMs)]

/-- The settings of the timeouts. -/
def timeoutFields : List (SettingSpec TimeoutSettings) := [.word "request_secs" (·.requestSecs)]

/-- The settings of what is logged and measured. -/
def observabilityFields : List (SettingSpec ObservabilitySettings) :=
  [.text "log_level" (·.logLevel), .flag "metrics_enabled" (·.metricsEnabled),
    .text "metrics_address" (·.metricsAddress)]

/-- The settings of what is refused. -/
def securityFields : List (SettingSpec SecuritySettings) := [.word "max_body_size" (·.maxBodySize)]

/-- **The settings of a document**, group by group. -/
def fields : List (SettingSpec Settings) :=
  [.group "listener" listenerFields {} (·.listener), .group "backend" engineFields {} (·.engine),
    .group "timeouts" timeoutFields {} (·.timeouts),
    .group "observability" observabilityFields {} (·.observability),
    .group "security" securityFields {} (·.security)]

end Settings

namespace Setting

variable {α : Type} {s : Setting α} {f : SettingSpec α} {settings : List (Setting α)}
  {fields : List (SettingSpec α)} {group : Value} {initial a a' : α}

/-! ## Assignments -/

/-- Puts values into settings, one after another. -/
def assign : List (Setting α × Value) → α → Except Mismatch α
  | [], a => .ok a
  | (s, v) :: rest, a =>
    match s.put v a with
    | .error e => .error e
    | .ok a => assign rest a

/-- What a group gives to the settings. -/
def assignments (settings : List (Setting α)) : Value → List (Setting α × Value)
  | .table entries => entries.filterMap fun e => (settings.find? (·.name == e.1)).map (·, e.2)
  | .array items => settings.zip items
  | _ => []

theorem putEntries_eq_assign (settings : List (Setting α)) (entries : List (String × Value)) (a : α) :
    putEntries settings entries a = assign (assignments settings (.table entries)) a := by
  unfold assignments
  induction entries generalizing a with
  | nil => rfl
  | cons e entries ih =>
    obtain ⟨name, v⟩ := e
    simp only [putEntries, List.filterMap_cons]
    cases settings.find? (·.name == name) with
    | none => exact ih a
    | some s =>
      simp only [Option.map_some, assign]
      cases s.put v a with
      | error e => rfl
      | ok a' => exact ih a'

theorem putItems_eq_assign (settings : List (Setting α)) (items : List Value) (a : α) :
    putItems settings items a = assign (assignments settings (.array items)) a := by
  unfold assignments
  induction settings generalizing items a with
  | nil => rfl
  | cons s settings ih =>
    cases items with
    | nil => rfl
    | cons v items =>
      simp only [putItems, List.zip_cons_cons, assign]
      cases s.put v a with
      | error e => rfl
      | ok a' => exact ih items a'

/-- A group gives to a setting what is given to its name and place. -/
theorem mem_assignments_iff (hnames : (settings.map name).Nodup) {place : ℕ}
    (hs : settings[place]? = some s) {v : Value} :
    (s, v) ∈ assignments settings group ↔ group.Gives s.name place v := by
  have hmem := List.mem_of_getElem? hs
  cases group with
  | table entries =>
    simp only [assignments, Value.Gives, List.mem_filterMap, Option.map_eq_some_iff, Prod.mk.injEq]
    constructor
    · rintro ⟨e, he, t, ht, rfl, rfl⟩
      have hname : t.name = e.1 := by simpa using List.find?_some ht
      exact hname ▸ he
    · intro he
      obtain ⟨t, ht⟩ := Option.isSome_iff_exists.1
        (List.find?_isSome (p := (·.name == s.name)).2 ⟨s, hmem, beq_self_eq_true s.name⟩)
      have hname : t.name = s.name := by simpa using List.find?_some ht
      exact ⟨_, he, t, ht, List.inj_on_of_nodup_map hnames (List.mem_of_find?_eq_some ht) hmem hname,
        rfl⟩
  | array items =>
    simp only [assignments, Value.Gives, List.mem_iff_getElem?, List.getElem?_zip_eq_some]
    constructor
    · rintro ⟨i, hi, hv⟩
      have hlen : i < settings.length := (List.getElem?_eq_some_iff.1 hi).1
      obtain rfl := (List.getElem?_inj hlen (.of_map name hnames)).1 (hi.trans hs.symm)
      exact hv
    · exact fun hv => ⟨place, hs, hv⟩
  | _ => simp [assignments, Value.Gives]

/-- A group gives to no setting twice. -/
theorem nodup_assignments (hnames : (settings.map name).Nodup) (hgroup : group.Tidy) :
    ((assignments settings group).map (·.1.name)).Nodup := by
  cases hgroup with
  | @table entries names _ =>
    rw [List.nodup_iff_pairwise_ne, List.pairwise_map] at names ⊢
    refine List.pairwise_filterMap.2 (names.imp fun hne p hp q hq => ?_)
    obtain ⟨s, hs, rfl⟩ := Option.map_eq_some_iff.1 hp
    obtain ⟨t, ht, rfl⟩ := Option.map_eq_some_iff.1 hq
    have hsname := List.find?_some hs
    have htname := List.find?_some ht
    rw [beq_iff_eq] at hsname htname
    rw [hsname, htname]
    exact hne
  | @array items _ =>
    have hsub : ((settings.zip items).map Prod.fst).Sublist settings := by
      rw [List.zip_eq_zip_take_min, List.map_fst_zip (by simp)]
      exact List.take_sublist _ _
    simpa [assignments, List.map_map, Function.comp_def] using (hsub.map name).nodup hnames
  | _ => exact List.nodup_nil

/-- What a tidy group gives is tidy, and is given to settings of the list. -/
theorem of_mem_assignments (hgroup : group.Tidy) {p : Setting α × Value}
    (hp : p ∈ assignments settings group) : p.1 ∈ settings ∧ p.2.Tidy := by
  cases hgroup with
  | table _ inner =>
    obtain ⟨e, he, hfind⟩ := List.mem_filterMap.1 hp
    obtain ⟨s, hs, rfl⟩ := Option.map_eq_some_iff.1 hfind
    exact ⟨List.mem_of_find?_eq_some hs, inner e he⟩
  | array inner => exact ⟨(List.of_mem_zip hp).1, inner _ (List.of_mem_zip hp).2⟩
  | _ => cases hp

/-! ## Settings and their fields -/

/-- Putting a value into a setting is reading it. -/
structure Fills (s : Setting α) (f : SettingSpec α) : Prop where
  name : s.name = f.name
  read : ∀ v a a', v.Tidy → s.put v a = .ok a' → f.reads v (f.get a')
  takes : ∀ v b, v.Tidy → f.reads v b → ∀ a, ∃ a', s.put v a = .ok a'

/-- Putting a value into a setting leaves another one alone. -/
def Spares (s : Setting α) (f : SettingSpec α) : Prop :=
  ∀ v a a', s.put v a = .ok a' → f.get a' = f.get a

/-- **The settings of a group are its fields**: nothing else is kept, and no field is kept twice. -/
structure Covers (settings : List (Setting α)) (fields : List (SettingSpec α)) : Prop where
  fills : List.Forall₂ Fills settings fields
  spares : ∀ s ∈ settings, ∀ f ∈ fields, s.name ≠ f.name → s.Spares f
  names : (settings.map name).Nodup
  definite : ∀ f ∈ fields, f.Definite
  determined : ∀ a b, (∀ f ∈ fields, f.get a = f.get b) → a = b

/-- Values that are put into other settings leave a setting alone. -/
theorem spared_assign {pairs : List (Setting α × Value)} (h : ∀ p ∈ pairs, p.1.Spares f)
    (hassign : assign pairs a = .ok a') : f.get a' = f.get a := by
  induction pairs generalizing a with
  | nil =>
    cases hassign
    rfl
  | cons p pairs ih =>
    obtain ⟨hp, hpairs⟩ := List.forall_mem_cons.1 h
    rw [assign] at hassign
    split at hassign
    case h_1 => cases hassign
    case h_2 a₁ hput => rw [ih hpairs hassign, hp _ _ _ hput]

/-- A value that is put into a setting is what is read there in the end. -/
theorem read_assign {pairs : List (Setting α × Value)} (hf : s.Fills f)
    (hother : ∀ p ∈ pairs, p.1.name ≠ f.name → p.1.Spares f) (hnames : (pairs.map (·.1.name)).Nodup)
    (htidy : ∀ p ∈ pairs, p.2.Tidy) {v : Value} (hv : (s, v) ∈ pairs)
    (hassign : assign pairs a = .ok a') : f.reads v (f.get a') := by
  induction pairs generalizing a with
  | nil => cases hv
  | cons p pairs ih =>
    obtain ⟨hnew, hnames⟩ := List.nodup_cons.1 hnames
    obtain ⟨hp, hpairs⟩ := List.forall_mem_cons.1 htidy
    have hother' : ∀ p ∈ pairs, p.1.name ≠ f.name → p.1.Spares f := fun p hp =>
      hother p (List.mem_cons_of_mem _ hp)
    rw [assign] at hassign
    split at hassign
    case h_1 => cases hassign
    case h_2 a₁ hput =>
      rcases List.mem_cons.1 hv with rfl | hv
      · -- what comes after goes to settings of other names
        rw [spared_assign (fun q hq => hother' q hq fun heq => ?_) hassign]
        · exact hf.read v a a₁ hp hput
        · exact hnew (List.mem_map.2 ⟨q, hq, heq.trans hf.name.symm⟩)
      · exact ih hother' hnames hpairs hv hassign

theorem assign_isOk {pairs : List (Setting α × Value)}
    (h : ∀ p ∈ pairs, ∀ a, ∃ a', p.1.put p.2 a = .ok a') (a : α) :
    ∃ a', assign pairs a = .ok a' := by
  induction pairs generalizing a with
  | nil => exact ⟨a, rfl⟩
  | cons p pairs ih =>
    obtain ⟨hp, hpairs⟩ := List.forall_mem_cons.1 h
    obtain ⟨a₁, hput⟩ := hp a
    rw [assign]
    simp only [hput]
    exact ih hpairs a₁

/-- Each setting has a specification, and each specification a setting. -/
theorem Covers.exists_field (h : Covers settings fields) (hs : s ∈ settings) :
    ∃ (place : ℕ) (f : SettingSpec α),
      settings[place]? = some s ∧ fields[place]? = some f ∧ s.Fills f := by
  obtain ⟨place, hplace⟩ := List.mem_iff_getElem?.1 hs
  obtain ⟨hlt, rfl⟩ := List.getElem?_eq_some_iff.1 hplace
  have hlt' : place < fields.length := h.fills.length_eq ▸ hlt
  exact ⟨place, fields[place], hplace, List.getElem?_eq_getElem hlt', h.fills.get hlt hlt'⟩

theorem Covers.exists_setting (h : Covers settings fields) {place : ℕ}
    (hf : fields[place]? = some f) : ∃ s, settings[place]? = some s ∧ s.Fills f := by
  obtain ⟨hlt, rfl⟩ := List.getElem?_eq_some_iff.1 hf
  have hlt' : place < settings.length := h.fills.length_eq ▸ hlt
  exact ⟨settings[place], List.getElem?_eq_getElem hlt', h.fills.get hlt' hlt⟩

/-- **What comes of a group that is put in** is what the group stands for. -/
theorem Covers.assign_eq_ok_iff (h : Covers settings fields) (hgroup : group.IsGroup)
    (htidy : group.Tidy) :
    assign (assignments settings group) initial = .ok a ↔ Stands fields initial group a := by
  have hstands : ∀ b, assign (assignments settings group) initial = .ok b →
      Stands fields initial group b := by
    refine fun b hassign => ⟨hgroup, fun place f hf => ?_⟩
    obtain ⟨s, hs, hfills⟩ := h.exists_setting hf
    have hmemf := List.mem_of_getElem? hf
    have hmem : ∀ v, (s, v) ∈ assignments settings group ↔ group.Gives f.name place v := fun v =>
      hfills.name ▸ mem_assignments_iff h.names hs
    have hother : ∀ p ∈ assignments settings group, p.1.name ≠ f.name → p.1.Spares f := fun p hp =>
      h.spares p.1 (of_mem_assignments htidy hp).1 f hmemf
    refine ⟨fun v hv => read_assign hfills hother (nodup_assignments h.names htidy)
      (fun p hp => (of_mem_assignments htidy hp).2) ((hmem v).2 hv) hassign, fun hout => ?_⟩
    refine spared_assign (fun p hp => hother p hp fun heq => ?_) hassign
    -- a setting of the same name is the same setting
    have hsame : p.1 = s := List.inj_on_of_nodup_map h.names (of_mem_assignments htidy hp).1
      (List.mem_of_getElem? hs) (heq.trans hfills.name.symm)
    exact hout p.2 ((hmem p.2).1 (hsame ▸ hp))
  refine ⟨hstands a, fun ha => ?_⟩
  -- what is given can be read, so there is an outcome, and the fields tell which
  have htakes : ∀ p ∈ assignments settings group, ∀ b, ∃ b', p.1.put p.2 b = .ok b' := fun p hp => by
    obtain ⟨hs, hv⟩ := of_mem_assignments htidy hp
    obtain ⟨place, f, hplace, hf, hfills⟩ := h.exists_field hs
    have hgives := (mem_assignments_iff h.names hplace).1 hp
    exact hfills.takes p.2 _ hv ((ha.told place f hf).given p.2 (hfills.name ▸ hgives))
  obtain ⟨b, hb⟩ := assign_isOk htakes initial
  have hsame : b = a := h.determined b a fun f hf => by
    obtain ⟨place, hplace⟩ := List.mem_iff_getElem?.1 hf
    exact ((hstands b hb).told place f hplace).unique (h.definite f hf) (ha.told place f hplace)
  rw [hb, hsame]

/-- A group stands for one thing only. -/
theorem Covers.definite_group (h : Covers settings fields) {β : Type} (name : String) (get : β → α) :
    (SettingSpec.group name fields initial get).Definite := by
  refine fun v b c hb hc => h.determined b c fun f hf => ?_
  obtain ⟨place, hplace⟩ := List.mem_iff_getElem?.1 hf
  exact (hb.told place f hplace).unique (h.definite f hf) (hc.told place f hplace)

/-- One setting makes a group if nothing else is kept. -/
theorem covers_single (hfills : s.Fills f) (hdefinite : f.Definite)
    (hinj : ∀ a b, f.get a = f.get b → a = b) : Covers [s] [f] where
  fills := .cons hfills .nil
  spares := by
    intro t ht g hg hne
    rw [List.mem_singleton] at ht hg
    subst ht hg
    exact absurd hfills.name hne
  names := List.nodup_singleton _
  definite := by simpa using hdefinite
  determined := fun a b h => hinj a b (h f List.mem_cons_self)

/-! ## Kinds of settings -/

section Kinds

variable {name expected : String}

/-- A text is read as itself. -/
theorem fills_text {set : String → α → α} {get : α → String} (hget : ∀ s a, get (set s a) = s) :
    (text name set).Fills (.text name get) := by
  refine ⟨rfl, fun v a a' _ hput => ?_, fun v s _ hv a => ?_⟩
  · cases v with
    | text s =>
      cases hput
      exact congrArg Value.text (hget s a).symm
    | _ => cases hput
  · subst hv
    exact ⟨_, rfl⟩

theorem spares_text {set : String → α → α} (h : ∀ s a, f.get (set s a) = f.get a) :
    (text name set).Spares f := by
  intro v a a' hput
  cases v with
  | text s =>
    cases hput
    exact h s a
  | _ => cases hput

/-- A truth value is read as itself. -/
theorem fills_flag {set : Bool → α → α} {get : α → Bool} (hget : ∀ b a, get (set b a) = b) :
    (flag name set).Fills (.flag name get) := by
  refine ⟨rfl, fun v a a' _ hput => ?_, fun v b _ hv a => ?_⟩
  · cases v with
    | bool b =>
      cases hput
      exact congrArg Value.bool (hget b a).symm
    | _ => cases hput
  · subst hv
    exact ⟨_, rfl⟩

theorem spares_flag {set : Bool → α → α} (h : ∀ b a, f.get (set b a) = f.get a) :
    (flag name set).Spares f := by
  intro v a a' hput
  cases v with
  | bool b =>
    cases hput
    exact h b a
  | _ => cases hput

/-- What is put into a number is a whole number within its range. -/
theorem put_number_eq_ok_iff {limit : ℕ} {set : ℕ → α → α} {v : Value} :
    (number name expected limit set).put v a = .ok a' ↔
      ∃ n : ℕ, v = .whole n ∧ n ≤ limit ∧ a' = set n a := by
  constructor
  · intro hput
    cases v with
    | whole n =>
      simp only [number] at hput
      split at hput
      case isTrue hrange =>
        simp only [Bool.and_eq_true, decide_eq_true_eq] at hrange
        cases hput
        exact ⟨n.toNat, by rw [Int.toNat_of_nonneg hrange.1], by omega, rfl⟩
      case isFalse => cases hput
    | _ => cases hput
  · rintro ⟨n, rfl, hn, rfl⟩
    simp only [number]
    rw [if_pos (by simpa using hn)]
    rfl

theorem spares_number {limit : ℕ} {set : ℕ → α → α} (h : ∀ n a, f.get (set n a) = f.get a) :
    (number name expected limit set).Spares f := by
  intro v a a' hput
  obtain ⟨n, -, -, rfl⟩ := put_number_eq_ok_iff.1 hput
  exact h n a

/-- A port is read as the number of 16 bits. -/
theorem fills_port {set : ℕ → α → α} {get : α → UInt16}
    (hget : ∀ n a, get (set n a) = UInt16.ofNat n) :
    (number name expected 65535 set).Fills (.port name get) := by
  refine ⟨rfl, fun v a a' _ hput => ?_, fun v p _ hv a => ?_⟩
  · obtain ⟨n, rfl, hn, rfl⟩ := put_number_eq_ok_iff.1 hput
    have hvalue : (get (set n a)).toNat = n := by
      rw [hget]
      exact UInt16.toNat_ofNat_of_lt' (Nat.lt_succ_of_le hn)
    exact congrArg (fun m : ℕ => Value.whole m) hvalue.symm
  · exact ⟨_, put_number_eq_ok_iff.2 ⟨p.toNat, hv, Nat.le_of_lt_succ p.toNat_lt, rfl⟩⟩

/-- A word is read as the number of 64 bits, of which documents hold those below half. -/
theorem fills_word {set : ℕ → α → α} {get : α → UInt64}
    (hget : ∀ n a, get (set n a) = UInt64.ofNat n) :
    (number name expected Settings.engineSettings.maxTomlWord set).Fills (.word name get) := by
  refine ⟨rfl, fun v a a' _ hput => ?_, fun v w htidy hv a => ?_⟩
  · obtain ⟨n, rfl, hn, rfl⟩ := put_number_eq_ok_iff.1 hput
    have hvalue : (get (set n a)).toNat = n := by
      rw [hget]
      exact UInt64.toNat_ofNat_of_lt' (Nat.lt_of_le_of_lt hn (by decide))
    exact congrArg (fun m : ℕ => Value.whole m) hvalue.symm
  · obtain rfl : v = .whole w.toNat := hv
    cases htidy with
    | whole _ high =>
      have hle : w.toNat ≤ Settings.engineSettings.maxTomlWord := by
        unfold Settings.engineSettings.maxTomlWord
        omega
      exact ⟨_, put_number_eq_ok_iff.2 ⟨w.toNat, rfl, hle, rfl⟩⟩

theorem put_group (settings : List (Setting α)) (initial : α) {β : Type} (set : α → β → β)
    {v : Value} (hv : v.IsGroup) (b : β) :
    (Setting.group name expected settings initial set).put v b =
      (assign (assignments settings v) initial).map (set · b) := by
  cases v with
  | table entries => exact congrArg (Except.map _) (putEntries_eq_assign settings entries initial)
  | array items => exact congrArg (Except.map _) (putItems_eq_assign settings items initial)
  | moment => rfl
  | _ => cases hv

/-- Nothing but a group can be put into the settings of one. -/
theorem isGroup_of_put_group {β : Type} {set : α → β → β} {v : Value} {b b' : β}
    (h : (Setting.group name expected settings initial set).put v b = .ok b') : v.IsGroup := by
  cases v with
  | table | array | moment => trivial
  | _ => cases h

/-- A group is read as what it stands for. -/
theorem fills_group {β : Type} {set : α → β → β} {get : β → α} (h : Covers settings fields)
    (hget : ∀ a b, get (set a b) = a) :
    (Setting.group name expected settings initial set).Fills (.group name fields initial get) := by
  refine ⟨rfl, fun v b b' hv hput => ?_, fun v a hv ha b => ?_⟩
  · have hgroup := isGroup_of_put_group hput
    rw [put_group _ _ _ hgroup] at hput
    cases hassign : assign (assignments settings v) initial with
    | error e => simp [hassign, Except.map] at hput
    | ok a =>
      rw [hassign] at hput
      cases hput
      have hstands := (h.assign_eq_ok_iff hgroup hv).1 hassign
      exact (congrArg (Stands fields initial v) (hget a b)).mpr hstands
  · refine ⟨set a b, ?_⟩
    rw [put_group _ _ _ ha.isGroup, (h.assign_eq_ok_iff ha.isGroup hv).2 ha]
    rfl

theorem spares_group {β : Type} {g : SettingSpec β} {set : α → β → β}
    (h : ∀ a b, g.get (set a b) = g.get b) :
    (Setting.group name expected settings initial set).Spares g := by
  intro v b b' hput
  rw [put_group _ _ _ (isGroup_of_put_group hput)] at hput
  cases hassign : assign (assignments settings v) initial with
  | error e => simp [hassign, Except.map] at hput
  | ok a =>
    rw [hassign] at hput
    cases hput
    exact h a b

theorem definite_text (get : α → String) : (SettingSpec.text name get).Definite := by
  rintro v b c rfl hc
  cases hc
  rfl

theorem definite_flag (get : α → Bool) : (SettingSpec.flag name get).Definite := by
  rintro v b c rfl hc
  cases hc
  rfl

theorem definite_port (get : α → UInt16) : (SettingSpec.port name get).Definite := by
  rintro v b c rfl hc
  exact UInt16.toNat_inj.1 (Int.ofNat.inj (Value.whole.inj hc))

theorem definite_word (get : α → UInt64) : (SettingSpec.word name get).Definite := by
  rintro v b c rfl hc
  exact UInt64.toNat_inj.1 (Int.ofNat.inj (Value.whole.inj hc))

end Kinds

end Setting

namespace Settings

open Setting

theorem covers_listener : Covers listenerSettings listenerFields :=
  covers_single (fills_text fun _ _ => rfl) (definite_text _) fun ⟨_⟩ ⟨_⟩ => congrArg _

theorem covers_engine : Covers engineSettings engineFields where
  fills := .cons (fills_text fun _ _ => rfl) <| .cons (fills_port fun _ _ => rfl) <|
    .cons (fills_word fun _ _ => rfl) <| .cons (fills_word fun _ _ => rfl) .nil
  spares := by
    intro s hs f hf hne
    simp only [engineSettings, engineFields, List.mem_cons, List.not_mem_nil, or_false] at hs hf
    rcases hs with rfl | rfl | rfl | rfl <;> rcases hf with rfl | rfl | rfl | rfl <;>
      first
      | exact absurd rfl hne
      | exact spares_text fun _ _ => rfl
      | exact spares_number fun _ _ => rfl
  names := by decide
  definite := by
    simp only [engineFields, List.forall_mem_cons]
    exact ⟨definite_text _, definite_port _, definite_word _, definite_word _, by simp⟩
  determined := by
    rintro ⟨host, port, connect, deadline⟩ ⟨host', port', connect', deadline'⟩ h
    simp only [engineFields, List.forall_mem_cons] at h
    obtain ⟨(rfl : host = host'), (rfl : port = port'), (rfl : connect = connect'),
      (rfl : deadline = deadline'), -⟩ := h
    rfl

theorem covers_timeouts : Covers timeoutSettings timeoutFields :=
  covers_single (fills_word fun _ _ => rfl) (definite_word _) fun ⟨_⟩ ⟨_⟩ => congrArg _

theorem covers_observability : Covers observabilitySettings observabilityFields where
  fills := .cons (fills_text fun _ _ => rfl) <| .cons (fills_flag fun _ _ => rfl) <|
    .cons (fills_text fun _ _ => rfl) .nil
  spares := by
    intro s hs f hf hne
    simp only [observabilitySettings, observabilityFields, List.mem_cons, List.not_mem_nil,
      or_false] at hs hf
    rcases hs with rfl | rfl | rfl <;> rcases hf with rfl | rfl | rfl <;>
      first
      | exact absurd rfl hne
      | exact spares_text fun _ _ => rfl
      | exact spares_flag fun _ _ => rfl
  names := by decide
  definite := by
    simp only [observabilityFields, List.forall_mem_cons]
    exact ⟨definite_text _, definite_flag _, definite_text _, by simp⟩
  determined := by
    rintro ⟨level, enabled, address⟩ ⟨level', enabled', address'⟩ h
    simp only [observabilityFields, List.forall_mem_cons] at h
    obtain ⟨(rfl : level = level'), (rfl : enabled = enabled'), (rfl : address = address'), -⟩ := h
    rfl

theorem covers_security : Covers securitySettings securityFields :=
  covers_single (fills_word fun _ _ => rfl) (definite_word _) fun ⟨_⟩ ⟨_⟩ => congrArg _

theorem covers_groups : Covers groups fields where
  fills := .cons (fills_group covers_listener fun _ _ => rfl) <|
    .cons (fills_group covers_engine fun _ _ => rfl) <|
    .cons (fills_group covers_timeouts fun _ _ => rfl) <|
    .cons (fills_group covers_observability fun _ _ => rfl) <|
    .cons (fills_group covers_security fun _ _ => rfl) .nil
  spares := by
    intro s hs f hf hne
    simp only [groups, fields, List.mem_cons, List.not_mem_nil, or_false] at hs hf
    rcases hs with rfl | rfl | rfl | rfl | rfl <;> rcases hf with rfl | rfl | rfl | rfl | rfl <;>
      first
      | exact absurd rfl hne
      | exact spares_group fun _ _ => rfl
  names := by decide
  definite := by
    simp only [fields, List.forall_mem_cons]
    exact ⟨covers_listener.definite_group _ _, covers_engine.definite_group _ _,
      covers_timeouts.definite_group _ _, covers_observability.definite_group _ _,
      covers_security.definite_group _ _, by simp⟩
  determined := by
    rintro ⟨listener, engine, timeouts, observability, security⟩
      ⟨listener', engine', timeouts', observability', security'⟩ h
    simp only [fields, List.forall_mem_cons] at h
    obtain ⟨(rfl : listener = listener'), (rfl : engine = engine'), (rfl : timeouts = timeouts'),
      (rfl : observability = observability'), (rfl : security = security'), -⟩ := h
    rfl

/-- **The settings of a document** are those that it stands for. -/
theorem ofEntries_eq_ok_iff {entries : List (String × Value)} (h : (Value.table entries).Tidy)
    {s : Settings} : ofEntries entries = .ok s ↔ Stands fields {} (.table entries) s := by
  rw [ofEntries, putEntries_eq_assign]
  exact covers_groups.assign_eq_ok_iff trivial h

/-- A document that has been read stands for one setting of everything at most. -/
theorem stands_unique {entries : List (String × Value)} {s t : Settings}
    (hs : Stands fields {} (.table entries) s) (ht : Stands fields {} (.table entries) t) : s = t :=
  covers_groups.definite_group "" id (.table entries) s t hs ht

end Settings

end OrderRelay
