import Mathlib.Data.List.Basic
import OrderRelay.Proofs.Wire.Reading

/-!
# Octets as a sequence of fields

A reader takes octets from the front and looks no further. What it has once taken it
takes again, whatever comes after. So octets can be taken apart into fields, with no
schema at hand, and put together again in another way.

* `Reads`, `Skips`: what a reader takes and gives, and what is passed over, whatever
  comes after it.
* `Local`: a reader that looks no further than it reads; keys, payloads and groups
  are read so (`local_readKey`, `exists_skips_of_skipField`).
* `splitFields`: octets as a sequence of fields, each with its number.
* `RawField.Whole`, `splitFields_joinFields`: fields that are whole are found again
  among others.
* `WellFormed`, `WellFormed.whole`: a field by the rules of the wire is whole.
-/

namespace OrderRelay

open Wire

/-! ## Readers that look no further -/

namespace Wire

/-- The reader takes these octets and gives this, whatever comes after them. -/
def Reads {α : Type} (read : Bytes → Decoding α) (taken : Bytes) (a : α) : Prop :=
  ∀ more, read (taken ++ more) = .ok (a, more)

/-- These octets are passed over, whatever comes after them. -/
def Skips (skip : Bytes → Except Failure Bytes) (taken : Bytes) : Prop :=
  ∀ more, skip (taken ++ more) = .ok more

/-- **A reader looks no further than it reads.** -/
def Local {α : Type} (read : Bytes → Decoding α) : Prop :=
  ∀ ⦃bs : Bytes⦄ ⦃a : α⦄ ⦃rest : Bytes⦄, read bs = .ok (a, rest) →
    ∃ taken, bs = taken ++ rest ∧ Reads read taken a

/-- One reader after another. -/
theorem Local.bind {α β : Type} {read : Bytes → Decoding α} {next : α → Bytes → Decoding β}
    (hread : Local read) (hnext : ∀ a, Local (next a)) :
    Local fun bs => (read bs).bind fun p => next p.1 p.2 := by
  intro bs b rest h
  simp only at h
  cases hr : read bs with
  | error e =>
    rw [hr] at h
    cases h
  | ok p =>
    obtain ⟨a, middle⟩ := p
    rw [hr] at h
    obtain ⟨first, rfl, hfirst⟩ := hread hr
    obtain ⟨second, rfl, hsecond⟩ := hnext a h
    refine ⟨first ++ second, (List.append_assoc _ _ _).symm, fun more => ?_⟩
    simp only [List.append_assoc, hfirst (second ++ more)]
    exact hsecond more

/-- A reader that gives something else for what it has read. -/
theorem Local.andThen {α β : Type} {read : Bytes → Decoding α} (hread : Local read)
    (f : α → Except Failure β) :
    Local fun bs => (read bs).bind fun p => (f p.1).map (·, p.2) := by
  have hnext : ∀ a, Local fun bs => (f a).map (·, bs) := by
    intro a bs b rest h
    cases hf : f a with
    | error e =>
      simp only [hf] at h
      cases h
    | ok b' =>
      simp only [hf] at h
      cases h
      exact ⟨[], rfl, fun more => rfl⟩
  exact hread.bind hnext

end Wire

theorem Varint.exists_taken {n v : ℕ} {bs rest : Bytes} (h : decodeWithin n bs = some (v, rest)) :
    ∃ taken, bs = taken ++ rest ∧ ∀ more, decodeWithin n (taken ++ more) = some (v, more) := by
  induction n generalizing bs v rest with
  | zero => cases h
  | succ n ih =>
    cases bs with
    | nil => cases h
    | cons b bs =>
      simp only [decodeWithin] at h
      split at h
      · rename_i hsmall
        split at h
        · cases h
        · rename_i hbit
          cases h
          refine ⟨[b], rfl, fun more => ?_⟩
          rw [List.singleton_append, decodeWithin, if_pos hsmall, if_neg hbit]
      · rename_i hlarge
        split at h
        · rename_i high rest' hd
          cases h
          obtain ⟨taken, rfl, htaken⟩ := ih hd
          refine ⟨b :: taken, rfl, fun more => ?_⟩
          rw [List.cons_append, decodeWithin, if_neg hlarge, htaken more]
        · cases h

namespace Wire

theorem local_readVarint : Local readVarint := by
  intro bs v rest h
  unfold readVarint at h
  split at h
  · rename_i r hd
    cases h
    obtain ⟨taken, rfl, htaken⟩ := Varint.exists_taken hd
    refine ⟨taken, rfl, fun more => ?_⟩
    unfold readVarint Varint.decode?
    rw [htaken more]
  · cases h

theorem readKey_eq_bind :
    readKey = fun bs => (readVarint bs).bind fun p => (keyOfNat p.1).map (·, p.2) := by
  funext bs
  unfold readKey
  cases readVarint bs with
  | error e => rfl
  | ok p =>
    obtain ⟨n, rest⟩ := p
    simp only [Except.bind]
    cases keyOfNat n <;> rfl

/-- **A key** is read without a look at its payload. -/
theorem local_readKey : Local readKey := by
  rw [readKey_eq_bind]
  exact local_readVarint.andThen keyOfNat

theorem local_takeOctets (n : ℕ) : Local (takeOctets n) := by
  intro bs octets rest h
  unfold takeOctets at h
  split at h
  · rename_i hle
    cases h
    refine ⟨bs.take n, (List.take_append_drop n bs).symm, fun more => ?_⟩
    exact takeOctets_append (by rw [List.length_take]; omega) more
  · cases h

theorem readDelimited_eq_bind :
    readDelimited = fun bs => (readVarint bs).bind fun p => takeOctets p.1 p.2 := by
  funext bs
  unfold readDelimited
  cases readVarint bs <;> rfl

theorem local_readDelimited : Local readDelimited := by
  rw [readDelimited_eq_bind]
  exact local_readVarint.bind local_takeOctets

/-- What a reader takes is passed over. -/
theorem Local.exists_skips {α : Type} {read : Bytes → Decoding α} (hread : Local read)
    {bs rest : Bytes} (h : (read bs).map (·.2) = .ok rest) :
    ∃ taken, bs = taken ++ rest ∧ Skips (fun bs => (read bs).map (·.2)) taken := by
  obtain ⟨a, ha⟩ := map_snd_eq_ok h
  obtain ⟨taken, rfl, htaken⟩ := hread ha
  refine ⟨taken, rfl, fun more => ?_⟩
  simp only [htaken more]
  rfl

/-- **A payload that is no group** is passed over without a look at what comes after. -/
theorem exists_skips_of_skipPayload {form : Form} {bs rest : Bytes}
    (h : skipPayload form bs = .ok rest) :
    ∃ taken, bs = taken ++ rest ∧ Skips (skipPayload form) taken := by
  cases form with
  | varint => exact local_readVarint.exists_skips h
  | fixed64 => exact (local_takeOctets 8).exists_skips h
  | delimited => exact local_readDelimited.exists_skips h
  | fixed32 => exact (local_takeOctets 4).exists_skips h
  | groupStart => cases h
  | groupEnd => cases h

/-! ## Groups -/

section Groups

variable {depth innermost number : ℕ} {outer : List ℕ} {form : Form} {bs payload rest : Bytes}

theorem skipGroups_end (hkey : readKey bs = .ok ((innermost, .groupEnd), rest)) :
    skipGroups depth (innermost :: outer) bs = skipGroups depth outer rest := by
  rw [skipGroups]
  split
  · rename_i he
    rw [hkey] at he; cases he
  · rename_i he
    rw [hkey] at he; cases he
    rw [if_pos rfl, if_pos rfl]

theorem skipGroups_start (hkey : readKey bs = .ok ((number, .groupStart), rest))
    (hdepth : ¬depth ≤ outer.length + 1) :
    skipGroups depth (innermost :: outer) bs =
      skipGroups depth (number :: innermost :: outer) rest := by
  rw [skipGroups]
  split
  · rename_i he
    rw [hkey] at he; cases he
  · rename_i he
    rw [hkey] at he; cases he
    rw [if_neg (by decide), if_neg hdepth, if_pos rfl]

theorem skipGroups_field (hkey : readKey bs = .ok ((number, form), payload))
    (hend : form ≠ .groupEnd) (hstart : form ≠ .groupStart) (hdepth : ¬depth ≤ outer.length + 1)
    (hpayload : skipPayload form payload = .ok rest) :
    skipGroups depth (innermost :: outer) bs = skipGroups depth (innermost :: outer) rest := by
  rw [skipGroups]
  split
  · rename_i he
    rw [hkey] at he; cases he
  · rename_i he
    rw [hkey] at he; cases he
    rw [if_neg hend, if_neg hdepth, if_neg hstart]
    split
    · rename_i he
      rw [hpayload] at he; cases he
    · rename_i he
      rw [hpayload] at he; cases he; rfl

/-- **Groups** are passed over without a look at what comes after them. -/
theorem exists_skips_of_skipGroups {groups : List ℕ}
    (h : skipGroups depth groups bs = .ok rest) :
    ∃ taken, bs = taken ++ rest ∧ Skips (skipGroups depth groups) taken := by
  fun_induction skipGroups depth groups bs with
  | case1 bs =>
    cases h
    exact ⟨[], rfl, fun more => by rw [skipGroups]; rfl⟩
  | case2 | case4 | case5 | case7 => cases h
  | case3 _ innermost outer _ hkey ih =>
    obtain ⟨key, rfl, hreads⟩ := local_readKey hkey
    obtain ⟨taken, rfl, hskips⟩ := ih h
    refine ⟨key ++ taken, (List.append_assoc _ _ _).symm, fun more => ?_⟩
    rw [List.append_assoc, skipGroups_end (hreads (taken ++ more))]
    exact hskips more
  | case6 _ innermost outer _ _ hdepth hkey _ ih =>
    obtain ⟨key, rfl, hreads⟩ := local_readKey hkey
    obtain ⟨taken, rfl, hskips⟩ := ih h
    refine ⟨key ++ taken, (List.append_assoc _ _ _).symm, fun more => ?_⟩
    rw [List.append_assoc, skipGroups_start (hreads (taken ++ more)) hdepth]
    exact hskips more
  | case8 _ innermost outer _ _ _ hkey hend hdepth hstart _ hpayload ih =>
    obtain ⟨key, rfl, hreads⟩ := local_readKey hkey
    obtain ⟨octets, rfl, hoctets⟩ := exists_skips_of_skipPayload hpayload
    obtain ⟨taken, rfl, hskips⟩ := ih h
    refine ⟨key ++ (octets ++ taken), by simp only [List.append_assoc], fun more => ?_⟩
    simp only [List.append_assoc]
    rw [skipGroups_field (hreads _) hend hstart hdepth (hoctets (taken ++ more))]
    exact hskips more

/-- **The payload of a field that nobody knows** is passed over without a look at what
comes after it. -/
theorem exists_skips_of_skipField (h : skipField depth number form bs = .ok rest) :
    ∃ taken, bs = taken ++ rest ∧ Skips (skipField depth number form) taken := by
  unfold skipField at h
  split at h
  · cases h
  · rename_i hdepth
    split at h
    · obtain ⟨taken, rfl, hskips⟩ := exists_skips_of_skipGroups h
      refine ⟨taken, rfl, fun more => ?_⟩
      rw [skipField, if_neg hdepth]
      exact hskips more
    · rename_i hform
      obtain ⟨taken, rfl, hskips⟩ := exists_skips_of_skipPayload h
      refine ⟨taken, rfl, fun more => ?_⟩
      unfold skipField
      rw [if_neg hdepth]
      split
      · exact absurd rfl hform
      · exact hskips more

/-- A payload that is no group is passed over in the same way wherever fields may
stand. -/
theorem skipField_of_skipPayload (hdepth : depth ≠ 0) (h : skipPayload form bs = .ok rest) :
    skipField depth number form bs = .ok rest := by
  unfold skipField
  rw [if_neg hdepth]
  split
  · cases h
  · exact h

end Groups

/-! ## Fields one after another -/

/-- A field as it stands among octets. -/
structure RawField where
  number : ℕ
  form : Form
  /-- Its key and its payload. -/
  octets : Bytes

/-- The octets of fields. -/
def joinFields (fs : List RawField) : Bytes := fs.flatMap (·.octets)

@[simp] theorem joinFields_cons (f : RawField) (fs : List RawField) :
    joinFields (f :: fs) = f.octets ++ joinFields fs := rfl

@[simp] theorem joinFields_append (fs gs : List RawField) :
    joinFields (fs ++ gs) = joinFields fs ++ joinFields gs := by
  simp [joinFields]

/-- **Octets as a sequence of fields**, whatever the fields mean. Groups within the
fields may nest so deep. -/
def splitFields (depth : ℕ) (bs : Bytes) : Except Failure (List RawField) :=
  if bs = [] then .ok []
  else
    match _ : readKey bs with
    | .error e => .error e
    | .ok ((number, form), payload) =>
      match _ : skipField depth number form payload with
      | .error e => .error e
      | .ok rest =>
        (splitFields depth rest).map (⟨number, form, bs.take (bs.length - rest.length)⟩ :: ·)
termination_by bs.length
decreasing_by
  have := length_lt_of_readKey (by assumption)
  have := length_le_of_skipField (by assumption)
  omega

/-- **A field is whole**: its octets are its key, and a payload that is passed over
whatever comes after it. -/
structure RawField.Whole (depth : ℕ) (f : RawField) : Prop where
  parts : ∃ key payload, f.octets = key ++ payload ∧ Reads readKey key (f.number, f.form) ∧
    Skips (skipField depth f.number f.form) payload

/-- A whole field is the first one of whatever it begins. -/
theorem splitFields_whole {depth : ℕ} {f : RawField} (hf : f.Whole depth) (bs : Bytes) :
    splitFields depth (f.octets ++ bs) = (splitFields depth bs).map (f :: ·) := by
  obtain ⟨key, payload, hoctets, hkey, hpayload⟩ := hf.parts
  have hkey := hkey (payload ++ bs)
  rw [← List.append_assoc, ← hoctets] at hkey
  have hlt := length_lt_of_readKey hkey
  have htake : (f.octets ++ bs).take ((f.octets ++ bs).length - bs.length) = f.octets := by
    rw [List.length_append, Nat.add_sub_cancel, List.take_left']
    rfl
  rw [splitFields, if_neg (by rintro he; rw [he] at hlt; cases hlt)]
  split
  · rename_i he
    rw [hkey] at he; cases he
  · rename_i he
    rw [hkey] at he; cases he
    split
    · rename_i he
      rw [hpayload bs] at he; cases he
    · rename_i he
      rw [hpayload bs] at he; cases he
      rw [htake]

/-- **Whole fields are found again** among their octets. -/
theorem splitFields_joinFields {depth : ℕ} {fs : List RawField} (h : ∀ f ∈ fs, f.Whole depth) :
    splitFields depth (joinFields fs) = .ok fs := by
  induction fs with
  | nil =>
    rw [splitFields]
    rfl
  | cons f fs ih =>
    rw [joinFields_cons, splitFields_whole (h f List.mem_cons_self),
      ih fun g hg => h g (List.mem_cons_of_mem _ hg)]
    rfl

/-! ## Fields by the rules of the wire -/

/-- What stands after a key of a form that is no group. -/
def Form.Holds (form : Form) (payload : Bytes) : Prop :=
  match form with
  | .varint => ∃ n, Varint.decode? payload = some (n, [])
  | .fixed64 => payload.length = 8
  | .delimited => ∃ size octets, payload = size ++ octets ∧
      Varint.decode? size = some (octets.length, [])
  | .fixed32 => payload.length = 4
  | .groupStart | .groupEnd => False

/-- **A field by the rules of the wire**: a key, spelled in any way, and a payload of
its form. -/
structure WellFormed (number : ℕ) (form : Form) (octets : Bytes) : Prop where
  pos : 0 < number
  le : number ≤ maxNumber
  parts : ∃ key payload, octets = key ++ payload ∧
    Varint.decode? key = some (8 * number + form.code, []) ∧ form.Holds payload

/-- A number that is spelled out is read from its octets. -/
theorem reads_readVarint {octets : Bytes} {n : ℕ} (h : Varint.decode? octets = some (n, [])) :
    Reads readVarint octets n := by
  obtain ⟨taken, htaken, hreads⟩ := Varint.exists_taken h
  rw [List.append_nil] at htaken
  subst htaken
  intro more
  unfold readVarint Varint.decode?
  rw [hreads more]

theorem keyOfNat_key {number : ℕ} (hpos : 0 < number) (hle : number ≤ maxNumber) (form : Form) :
    keyOfNat (8 * number + form.code) = .ok (number, form) := by
  have h := readKey_encodeKey hpos hle form []
  unfold maxNumber at hle
  have hcode := form.code_lt
  rw [readKey, encodeKey, readVarint_encode (by omega)] at h
  simp only at h
  split at h
  · cases h
  · rename_i hk
    cases h
    exact hk

theorem Form.Holds.skips {form : Form} {payload : Bytes} (h : form.Holds payload) :
    Skips (skipPayload form) payload := by
  intro more
  cases form with
  | varint =>
    obtain ⟨n, hn⟩ := h
    rw [skipPayload, reads_readVarint hn more]
    rfl
  | fixed64 =>
    rw [skipPayload, takeOctets_append h more]
    rfl
  | delimited =>
    obtain ⟨size, octets, rfl, hsize⟩ := h
    rw [skipPayload, readDelimited, List.append_assoc, reads_readVarint hsize]
    simp only [takeOctets_append rfl more]
    rfl
  | fixed32 =>
    rw [skipPayload, takeOctets_append h more]
    rfl
  | groupStart => exact absurd h id
  | groupEnd => exact absurd h id

/-- **A field by the rules of the wire is whole.** -/
theorem WellFormed.whole {number depth : ℕ} {form : Form} {octets : Bytes}
    (h : WellFormed number form octets) (hdepth : depth ≠ 0) :
    RawField.Whole depth ⟨number, form, octets⟩ := by
  obtain ⟨key, payload, rfl, hkey, hpayload⟩ := h.parts
  refine ⟨key, payload, rfl, fun more => ?_, fun more => ?_⟩
  · rw [readKey, reads_readVarint hkey more]
    simp only [keyOfNat_key h.pos h.le form]
  · exact skipField_of_skipPayload hdepth (hpayload.skips more)

end Wire

end OrderRelay
