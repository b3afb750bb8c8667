import OrderRelay.Proofs.Message.RoundTrip
import OrderRelay.Proofs.Wire.Sequence

/-!
# Messages one after another, and fields that nobody knows

A message is read field by field, and each field is read without a look at the ones
after it. So the octets of two messages one after the other are read as one message,
in which a field of the second replaces that of the first, or adds to it if the field
is a list; and fields that the schema does not have can stand anywhere.

* `MergeLaws`: what is asked of kinds of values, single values and lists alike.
* `Record.Steps`: fields, one after another, take one record to another. Reading is
  such a sequence of steps (`exists_steps`, `mergeFields_of_steps`).
* `Record.joined`, `Steps.joined`: what comes of a record and the fields of another.
* `Steps.passed`: a field of an unknown number takes every record to itself.
* `messages_merge`: **for each of the eleven messages**, what two of them come to one
  after the other, and that unknown fields change nothing.
-/

namespace OrderRelay

open Wire

/-- **What is asked of kinds of values** so that their fields can follow each other. -/
class MergeLaws (κ : Type) [Kinds κ] [Wired κ] [Defaulted κ] where
  /-- What comes of two values one after the other, the second of which may be there or
  not. -/
  join : (present : Bool) → (k : κ) → Carrier k → Carrier k → Carrier k
  /-- A payload is read without a look at what comes after it. -/
  local_merge : ∀ (depth : ℕ) (k : κ) (form : Form) (v : Carrier k),
    Local (Wired.merge depth k form v)
  /-- A payload that is read can also be passed over. -/
  skip_of_merge : ∀ {depth : ℕ} {k : κ} {form : Form} {v v' : Carrier k} {bs rest : Bytes},
    Wired.merge depth k form v bs = .ok (v', rest) → skipPayload form bs = .ok rest
  /-- A payload does to a value what it does to the second of two. -/
  merge_join : ∀ {depth : ℕ} {k : κ} {form : Form} {v v' : Carrier k} {bs rest : Bytes}
    (present : Bool) (before : Carrier k), Wired.merge depth k form v bs = .ok (v', rest) →
      Wired.merge depth k form (join present k before v) bs = .ok (join true k before v', rest)
  join_initial : ∀ (k : κ) (before : Carrier k), join false k before (Defaulted.initial k) = before

/-! ## Records -/

namespace Record

variable {κ : Type} [Kinds κ] [Wired κ] {name : String} {depth : ℕ} {fields : List (Field κ)}

/-- A number that no field has is passed over. -/
theorem mergeField_unknown {number : ℕ} (h : number ∉ fields.map Field.number) (form : Form)
    (r : Record fields) (bs : Bytes) :
    mergeField name depth number form fields r bs =
      (skipField depth number form bs).map (r, ·) := by
  induction fields with
  | nil =>
    rw [mergeField]
    cases skipField depth number form bs <;> rfl
  | cons f fields ih =>
    obtain ⟨v, r⟩ := r
    rw [List.map_cons, List.mem_cons, not_or] at h
    rw [mergeField, if_neg h.1, ih h.2 r]
    cases skipField depth number form bs <;> rfl

/-- **One field takes a record to another**, whatever comes after it. -/
structure Step (name : String) (depth : ℕ) (fields : List (Field κ)) (r : Record fields)
    (f : RawField) (r' : Record fields) : Prop where
  parts : ∃ key payload, f.octets = key ++ payload ∧ Reads readKey key (f.number, f.form) ∧
    Reads (mergeField name depth f.number f.form fields r) payload r'

/-- **A field of an unknown number** takes every record to itself. -/
theorem Step.passed {f : RawField} (hf : f.Whole depth)
    (h : f.number ∉ fields.map Field.number) (r : Record fields) :
    Step name depth fields r f r := by
  obtain ⟨key, payload, hoctets, hkey, hpayload⟩ := hf.parts
  refine ⟨key, payload, hoctets, hkey, fun more => ?_⟩
  rw [mergeField_unknown h, hpayload more]
  rfl

/-- **Fields take a record to another**, one after the other. -/
inductive Steps (name : String) (depth : ℕ) (fields : List (Field κ)) :
    Record fields → List RawField → Record fields → Prop where
  | nil (r : Record fields) : Steps name depth fields r [] r
  | cons {f : RawField} {fs : List RawField} {r r' r'' : Record fields}
      (hstep : Step name depth fields r f r') (hrest : Steps name depth fields r' fs r'') :
      Steps name depth fields r (f :: fs) r''

theorem Steps.trans {fs gs : List RawField} {r r' r'' : Record fields}
    (h : Steps name depth fields r fs r') (h' : Steps name depth fields r' gs r'') :
    Steps name depth fields r (fs ++ gs) r'' := by
  induction h with
  | nil r => exact h'
  | cons hstep _ ih => exact .cons hstep (ih h')

theorem Steps.split {fs gs : List RawField} {r r'' : Record fields}
    (h : Steps name depth fields r (fs ++ gs) r'') :
    ∃ r', Steps name depth fields r fs r' ∧ Steps name depth fields r' gs r'' := by
  induction fs generalizing r with
  | nil => exact ⟨r, .nil r, h⟩
  | cons f fs ih =>
    cases h with
    | cons hstep hrest =>
      obtain ⟨r', hfs, hgs⟩ := ih hrest
      exact ⟨r', .cons hstep hfs, hgs⟩

/-- **Reading goes where the fields take the record**, and leaves the octets after
them. -/
theorem mergeFields_of_steps {fs : List RawField} {r r' : Record fields}
    (h : Steps name depth fields r fs r') (more : Bytes) :
    mergeFields name depth more.length fields r (joinFields fs ++ more) = .ok (r', more) := by
  induction h with
  | nil r => exact mergeFields_stop (Nat.le_refl _)
  | @cons f fs r r' r'' hstep _ ih =>
    obtain ⟨key, payload, hoctets, hkey, hpayload⟩ := hstep.parts
    have hkey := hkey (payload ++ (joinFields fs ++ more))
    have hpayload := hpayload (joinFields fs ++ more)
    -- a key takes at least one octet, so the end has not been reached
    have hlt := length_lt_of_readKey hkey
    rw [joinFields_cons, hoctets]
    simp only [List.append_assoc, List.length_append] at hlt ⊢
    rw [mergeFields_field (by simp only [List.length_append]; omega) hkey hpayload]
    exact ih

/-- A record that is read stays where it is if it is to be read further. -/
theorem decode_of_steps [Defaulted κ] {schema : Schema κ} {fs : List RawField}
    {r : Record schema.fields}
    (h : Steps schema.name maxDepth schema.fields (initial schema.fields) fs r) :
    decode schema (joinFields fs) = .ok r := by
  have hread := mergeFields_of_steps h []
  rw [List.append_nil] at hread
  exact decode_eq_ok_iff.2 ⟨[], hread⟩

/-- Reading goes on until few enough octets are left. -/
theorem length_rest_le {left : ℕ} {r r' : Record fields} {bs rest : Bytes}
    (h : mergeFields name depth left fields r bs = .ok (r', rest)) : rest.length ≤ left := by
  fun_induction mergeFields name depth left fields r bs with
  | case1 _ _ hle =>
    cases h
    exact hle
  | case2 => cases h
  | case3 => cases h
  | case4 _ _ _ _ _ _ _ _ _ _ ih => exact ih h

section Laws

variable [Defaulted κ] [MergeLaws κ]

/-- **A field** is read without a look at what comes after it. -/
theorem local_mergeField (number : ℕ) (form : Form) (r : Record fields) :
    Local (mergeField name depth number form fields r) := by
  induction fields with
  | nil =>
    intro bs r' rest h
    obtain ⟨rfl, hskip⟩ := mergeField_nil_eq_ok_iff.1 h
    obtain ⟨taken, rfl, hskips⟩ := exists_skips_of_skipField hskip
    refine ⟨taken, rfl, fun more => ?_⟩
    exact mergeField_nil_eq_ok_iff.2 ⟨rfl, hskips more⟩
  | cons f fields ih =>
    intro bs r' rest h
    obtain ⟨v, r⟩ := r
    obtain ⟨v', r'⟩ := r'
    by_cases hnumber : number = f.number
    · obtain ⟨rfl, hmerge⟩ := (mergeField_own_eq_ok_iff hnumber).1 h
      obtain ⟨taken, rfl, hreads⟩ := MergeLaws.local_merge depth f.kind form v hmerge
      refine ⟨taken, rfl, fun more => ?_⟩
      exact (mergeField_own_eq_ok_iff hnumber).2 ⟨rfl, hreads more⟩
    · obtain ⟨rfl, hmerge⟩ := (mergeField_other_eq_ok_iff hnumber).1 h
      obtain ⟨taken, rfl, hreads⟩ := ih r hmerge
      refine ⟨taken, rfl, fun more => ?_⟩
      exact (mergeField_other_eq_ok_iff hnumber).2 ⟨rfl, hreads more⟩

/-- **Reading is a sequence of fields** that take the record where it is read. -/
theorem exists_steps {left : ℕ} {r r' : Record fields} {bs rest : Bytes}
    (h : mergeFields name depth left fields r bs = .ok (r', rest)) :
    ∃ fs, bs = joinFields fs ++ rest ∧ Steps name depth fields r fs r' := by
  fun_induction mergeFields name depth left fields r bs with
  | case1 =>
    cases h
    exact ⟨[], rfl, .nil _⟩
  | case2 => cases h
  | case3 => cases h
  | case4 _ _ _ number form _ hkey _ _ hmerge ih =>
    obtain ⟨key, rfl, hreads⟩ := local_readKey hkey
    obtain ⟨payload, rfl, hpayload⟩ := local_mergeField number form _ hmerge
    obtain ⟨fs, rfl, hsteps⟩ := ih h
    refine ⟨⟨number, form, key ++ payload⟩ :: fs, ?_, ?_⟩
    · simp only [joinFields_cons, List.append_assoc]
    · exact .cons ⟨key, payload, rfl, hreads, hpayload⟩ hsteps

/-- A field that is read can also be passed over. -/
theorem skipField_of_mergeField {number : ℕ} {form : Form} (hdepth : depth ≠ 0)
    {r r' : Record fields} {bs rest : Bytes}
    (h : mergeField name depth number form fields r bs = .ok (r', rest)) :
    skipField depth number form bs = .ok rest := by
  induction fields with
  | nil => exact (mergeField_nil_eq_ok_iff.1 h).2
  | cons f fields ih =>
    obtain ⟨v, r⟩ := r
    obtain ⟨v', r'⟩ := r'
    by_cases hnumber : number = f.number
    · have hmerge := ((mergeField_own_eq_ok_iff hnumber).1 h).2
      exact skipField_of_skipPayload hdepth (MergeLaws.skip_of_merge hmerge)
    · have hmerge := ((mergeField_other_eq_ok_iff hnumber).1 h).2
      exact ih hmerge

theorem Step.whole (hdepth : depth ≠ 0) {f : RawField} {r r' : Record fields}
    (h : Step name depth fields r f r') : f.Whole depth := by
  obtain ⟨key, payload, hoctets, hkey, hpayload⟩ := h.parts
  refine ⟨key, payload, hoctets, hkey, fun more => ?_⟩
  exact skipField_of_mergeField hdepth (hpayload more)

/-- **The fields that are read are those that the octets are split into.** -/
theorem Steps.splitFields_eq (hdepth : depth ≠ 0) {fs : List RawField} {r r' : Record fields}
    (h : Steps name depth fields r fs r') : splitFields depth (joinFields fs) = .ok fs := by
  apply splitFields_joinFields
  induction h with
  | nil r => exact fun f hf => absurd hf List.not_mem_nil
  | cons hstep _ ih =>
    intro f hf
    rcases List.mem_cons.1 hf with rfl | hf
    · exact hstep.whole hdepth
    · exact ih f hf

/-! ## One record after another -/

/-- **What comes of two records one after the other**, when fields of these numbers
occur in the second. -/
def joined (numbers : List ℕ) : (fields : List (Field κ)) → Record fields → Record fields →
    Record fields
  | [], _, _ => ()
  | f :: fields, (v, r), (v', r') =>
    (MergeLaws.join (numbers.contains f.number) f.kind v v', joined numbers fields r r')

theorem joined_cons (numbers : List ℕ) (f : Field κ) (v v' : Carrier f.kind)
    (r r' : Record fields) :
    joined numbers (f :: fields) (v, r) (v', r') =
      (MergeLaws.join (numbers.contains f.number) f.kind v v', joined numbers fields r r') := rfl

theorem joined_initial (fields : List (Field κ)) (r : Record fields) :
    joined [] fields r (initial fields) = r := by
  induction fields with
  | nil => rfl
  | cons f fields ih =>
    obtain ⟨v, r⟩ := r
    have hv := MergeLaws.join_initial f.kind v
    have hr := ih r
    exact Prod.ext hv hr

/-- A field of another number does not occur. -/
theorem joined_concat {number : ℕ} (h : number ∉ fields.map Field.number) (numbers : List ℕ)
    (r r' : Record fields) :
    joined (numbers ++ [number]) fields r r' = joined numbers fields r r' := by
  induction fields with
  | nil => rfl
  | cons f fields ih =>
    obtain ⟨v, r⟩ := r
    obtain ⟨v', r'⟩ := r'
    rw [List.map_cons, List.mem_cons, not_or] at h
    have hcontains : (numbers ++ [number]).contains f.number = numbers.contains f.number := by
      simp [Ne.symm h.1]
    rw [joined_cons, joined_cons, hcontains, ih h.2]

/-- **A field does to two records what it does to the second**, and from then on it
occurs there. -/
theorem mergeField_joined {number : ℕ} {form : Form} (hnodup : (fields.map Field.number).Nodup)
    {r' r'' : Record fields} {bs rest : Bytes}
    (h : mergeField name depth number form fields r' bs = .ok (r'', rest)) (numbers : List ℕ)
    (r : Record fields) :
    mergeField name depth number form fields (joined numbers fields r r') bs =
      .ok (joined (numbers ++ [number]) fields r r'', rest) := by
  induction fields with
  | nil => exact mergeField_nil_eq_ok_iff.2 ⟨rfl, (mergeField_nil_eq_ok_iff.1 h).2⟩
  | cons f fields ih =>
    obtain ⟨v, r⟩ := r
    obtain ⟨v', r'⟩ := r'
    obtain ⟨v'', r''⟩ := r''
    rw [List.map_cons, List.nodup_cons] at hnodup
    obtain ⟨hnot, hnodup⟩ := hnodup
    rw [joined_cons, joined_cons]
    by_cases hnumber : number = f.number
    · obtain ⟨rfl, hmerge⟩ := (mergeField_own_eq_ok_iff hnumber).1 h
      have hcontains : (numbers ++ [number]).contains f.number = true := by
        simp [hnumber]
      have hrest : joined (numbers ++ [number]) fields r r'' = joined numbers fields r r'' :=
        joined_concat (by rw [hnumber]; exact hnot) numbers r r''
      rw [hcontains, hrest]
      exact (mergeField_own_eq_ok_iff hnumber).2 ⟨rfl, MergeLaws.merge_join _ v hmerge⟩
    · obtain ⟨rfl, hmerge⟩ := (mergeField_other_eq_ok_iff hnumber).1 h
      have hcontains : (numbers ++ [number]).contains f.number = numbers.contains f.number := by
        simp [Ne.symm hnumber]
      rw [hcontains]
      exact (mergeField_other_eq_ok_iff hnumber).2 ⟨rfl, ih hnodup hmerge r⟩

/-- **The fields of a second record take the first one to both.** -/
theorem Steps.joined_run (hnodup : (fields.map Field.number).Nodup) {fs : List RawField}
    {r' r'' : Record fields} (h : Steps name depth fields r' fs r'') (numbers : List ℕ)
    (r : Record fields) :
    Steps name depth fields (joined numbers fields r r') fs
      (joined (numbers ++ fs.map (·.number)) fields r r'') := by
  induction h generalizing numbers with
  | nil r' =>
    rw [List.map_nil, List.append_nil]
    exact .nil _
  | @cons f fs r₁ r₂ r₃ hstep _ ih =>
    obtain ⟨key, payload, hoctets, hkey, hpayload⟩ := hstep.parts
    have hfirst : Step name depth fields (joined numbers fields r r₁) f
        (joined (numbers ++ [f.number]) fields r r₂) := by
      refine ⟨key, payload, hoctets, hkey, fun more => ?_⟩
      exact mergeField_joined hnodup (hpayload more) numbers r
    have hrest := ih (numbers ++ [f.number])
    rw [List.append_assoc, List.singleton_append] at hrest
    exact .cons hfirst hrest

variable {schema : Schema κ}

/-- Reading octets is a sequence of fields from the record whose fields are all left
out. -/
theorem exists_steps_of_decode {r : Record schema.fields} {bs : Bytes}
    (h : decode schema bs = .ok r) :
    ∃ fs, bs = joinFields fs ∧
      Steps schema.name maxDepth schema.fields (initial schema.fields) fs r := by
  obtain ⟨rest, hread⟩ := decode_eq_ok_iff.1 h
  obtain ⟨fs, hbs, hsteps⟩ := exists_steps hread
  -- nothing is left, since the fields are read to the last octet
  have hend : rest = [] := List.eq_nil_of_length_eq_zero (Nat.le_zero.1 (length_rest_le hread))
  rw [hend, List.append_nil] at hbs
  exact ⟨fs, hbs, hsteps⟩

/-- **The octets of two records one after the other** are read as both. -/
theorem decode_append (hnodup : (schema.fields.map Field.number).Nodup) {a b : Bytes}
    {ra rb : Record schema.fields} (ha : decode schema a = .ok ra) (hb : decode schema b = .ok rb) :
    ∃ fs, splitFields maxDepth b = .ok fs ∧
      decode schema (a ++ b) = .ok (joined (fs.map (·.number)) schema.fields ra rb) := by
  obtain ⟨first, rfl, hfirst⟩ := exists_steps_of_decode ha
  obtain ⟨second, rfl, hsecond⟩ := exists_steps_of_decode hb
  refine ⟨second, hsecond.splitFields_eq (by decide), ?_⟩
  have hboth := hsecond.joined_run hnodup [] ra
  rw [joined_initial, List.nil_append] at hboth
  rw [← joinFields_append]
  exact decode_of_steps (hfirst.trans hboth)

/-- **A field of an unknown number** can stand before, between and after the fields of
a record. -/
theorem decode_insert {bs : Bytes} {r : Record schema.fields} (h : decode schema bs = .ok r) :
    ∃ fs, splitFields maxDepth bs = .ok fs ∧ joinFields fs = bs ∧
      ∀ (number : ℕ) (form : Form) (octets : Bytes) (i : ℕ),
        number ∉ schema.fields.map Field.number → WellFormed number form octets →
          decode schema (joinFields (fs.take i) ++ octets ++ joinFields (fs.drop i)) = .ok r := by
  obtain ⟨fs, rfl, hsteps⟩ := exists_steps_of_decode h
  refine ⟨fs, hsteps.splitFields_eq (by decide), rfl, ?_⟩
  intro number form octets i hnumber hformed
  have hwhole : RawField.Whole maxDepth ⟨number, form, octets⟩ := hformed.whole (by decide)
  rw [← List.take_append_drop i fs] at hsteps
  obtain ⟨middle, hbefore, hafter⟩ := hsteps.split
  have hinserted := hbefore.trans (.cons (.passed hwhole hnumber middle) hafter)
  have hread := decode_of_steps hinserted
  rw [joinFields_append, joinFields_cons, ← List.append_assoc] at hread
  exact hread

end Laws

end Record

/-! ## Single values -/

namespace Scalar

theorem local_decode (s : Scalar) : Local s.decode := by
  intro bs v rest h
  cases s with
  | text =>
    obtain ⟨octets, hread, htext⟩ := decode_text_eq_ok_iff.1 h
    obtain ⟨taken, rfl, hreads⟩ := local_readDelimited hread
    refine ⟨taken, rfl, fun more => ?_⟩
    exact decode_text_eq_ok_iff.2 ⟨octets, hreads more, htext⟩
  | double =>
    obtain ⟨octets, hread, hvalue⟩ := decode_double_eq_ok_iff.1 h
    obtain ⟨taken, rfl, hreads⟩ := local_takeOctets 8 hread
    refine ⟨taken, rfl, fun more => ?_⟩
    exact decode_double_eq_ok_iff.2 ⟨octets, hreads more, hvalue⟩
  | int32 =>
    obtain ⟨n, hread, hvalue⟩ := decode_int32_eq_ok_iff.1 h
    obtain ⟨taken, rfl, hreads⟩ := local_readVarint hread
    refine ⟨taken, rfl, fun more => ?_⟩
    exact decode_int32_eq_ok_iff.2 ⟨n, hreads more, hvalue⟩

theorem local_merge (s : Scalar) (form : Form) : Local (s.merge form) := by
  intro bs v rest h
  obtain ⟨hform, hdecode⟩ := merge_eq_ok_iff.1 h
  obtain ⟨taken, rfl, hreads⟩ := s.local_decode hdecode
  exact ⟨taken, rfl, fun more => merge_eq_ok_iff.2 ⟨hform, hreads more⟩⟩

/-- A value that is read can also be passed over. -/
theorem skip_of_merge {s : Scalar} {form : Form} {v : Carrier s} {bs rest : Bytes}
    (h : s.merge form bs = .ok (v, rest)) : skipPayload form bs = .ok rest := by
  obtain ⟨rfl, hdecode⟩ := merge_eq_ok_iff.1 h
  cases s with
  | text =>
    obtain ⟨octets, hread, -⟩ := decode_text_eq_ok_iff.1 hdecode
    simp only [Scalar.form, skipPayload, hread, Except.map]
  | double =>
    obtain ⟨octets, hread, -⟩ := decode_double_eq_ok_iff.1 hdecode
    simp only [Scalar.form, skipPayload, hread, Except.map]
  | int32 =>
    obtain ⟨n, hread, -⟩ := decode_int32_eq_ok_iff.1 hdecode
    simp only [Scalar.form, skipPayload, hread, Except.map]

end Scalar

/-- **The last of two values counts**, if it is there. -/
instance : MergeLaws Scalar where
  join present _ before after := if present then after else before
  local_merge _ s form _ := s.local_merge form
  skip_of_merge h := Scalar.skip_of_merge h
  merge_join _ _ h := h
  join_initial _ _ := rfl

/-! ## Lists of entries -/

namespace Record

variable {entry : Schema Scalar} {depth : ℕ}

/-- **A record after its length** is read as a delimited payload that holds its fields. -/
theorem exists_steps_of_decodeNested {r : Record entry.fields} {bs rest : Bytes}
    (h : decodeNested entry depth bs = .ok (r, rest)) :
    depth ≠ 0 ∧ ∃ size fs, bs = size ++ joinFields fs ++ rest ∧
      Reads readVarint size (joinFields fs).length ∧
      Steps entry.name (depth - 1) entry.fields (initial entry.fields) fs r := by
  obtain ⟨hdepth, n, inner, hsize, hlen, hend, hfields⟩ := decodeNested_eq_ok_iff.1 h
  obtain ⟨size, rfl, hreads⟩ := local_readVarint hsize
  obtain ⟨fs, rfl, hsteps⟩ := exists_steps hfields
  have hn : n = (joinFields fs).length := by
    rw [List.length_append] at hlen hend
    omega
  subst hn
  have hoctets : size ++ (joinFields fs ++ rest) = size ++ joinFields fs ++ rest :=
    (List.append_assoc size (joinFields fs) rest).symm
  exact ⟨hdepth, size, fs, hoctets, hreads, hsteps⟩

/-- Fields after their length are read as a record, whatever comes after them. -/
theorem reads_decodeNested (hdepth : depth ≠ 0) {size : Bytes} {fs : List RawField}
    {r : Record entry.fields} (hsize : Reads readVarint size (joinFields fs).length)
    (h : Steps entry.name (depth - 1) entry.fields (initial entry.fields) fs r) :
    Reads (decodeNested entry depth) (size ++ joinFields fs) r := by
  intro more
  have hinner : (joinFields fs ++ more).length = (joinFields fs).length + more.length :=
    List.length_append
  have hleft : (joinFields fs ++ more).length - (joinFields fs).length = more.length := by omega
  rw [List.append_assoc]
  refine decodeNested_eq_ok_iff.2 ⟨hdepth, _, _, hsize _, by omega, hleft.symm, ?_⟩
  rw [hleft]
  exact mergeFields_of_steps h more

theorem local_decodeNested : Local (decodeNested entry depth) := by
  intro bs r rest h
  obtain ⟨hdepth, size, fs, rfl, hsize, hsteps⟩ := exists_steps_of_decodeNested h
  exact ⟨size ++ joinFields fs, rfl, reads_decodeNested hdepth hsize hsteps⟩

end Record

namespace Kind

theorem local_merge (depth : ℕ) (k : Kind) (form : Form) (v : Carrier k) :
    Local (k.merge depth form v) := by
  cases k with
  | one s => exact s.local_merge form
  | many entry =>
    change List (Record entry.fields) at v
    intro bs v' rest h
    obtain ⟨hform, r, hread, rfl⟩ := merge_many_eq_ok_iff.1 h
    obtain ⟨taken, rfl, hreads⟩ := Record.local_decodeNested hread
    refine ⟨taken, rfl, fun more => ?_⟩
    exact merge_many_eq_ok_iff.2 ⟨hform, r, hreads more, rfl⟩

/-- A value that is read can also be passed over. -/
theorem skip_of_merge {depth : ℕ} {k : Kind} {form : Form} {v v' : Carrier k} {bs rest : Bytes}
    (h : k.merge depth form v bs = .ok (v', rest)) : skipPayload form bs = .ok rest := by
  cases k with
  | one s => exact Scalar.skip_of_merge h
  | many entry =>
    obtain ⟨rfl, r, hread, -⟩ := merge_many_eq_ok_iff.1 h
    obtain ⟨-, size, fs, rfl, hsize, -⟩ := Record.exists_steps_of_decodeNested hread
    have htaken : takeOctets (joinFields fs).length (joinFields fs ++ rest) =
        .ok (joinFields fs, rest) := takeOctets_append rfl rest
    have hdelimited : readDelimited (size ++ joinFields fs ++ rest) =
        .ok (joinFields fs, rest) := by
      rw [readDelimited, List.append_assoc, hsize]
      exact htaken
    simp only [skipPayload, hdelimited, Except.map]

/-- **The last of two single values counts**, if it is there; of two lists, the entries
of the second come after those of the first. -/
def join (present : Bool) : (k : Kind) → Carrier k → Carrier k → Carrier k
  | .one _, before, after => if present then after else before
  | .many _, before, after => List.append before after

theorem join_many (present : Bool) (entry : Schema Scalar)
    (before after : List (Record entry.fields)) :
    join present (.many entry) before after = before ++ after := rfl

theorem merge_join {depth : ℕ} {k : Kind} {form : Form} {v v' : Carrier k} {bs rest : Bytes}
    (present : Bool) (before : Carrier k) (h : k.merge depth form v bs = .ok (v', rest)) :
    k.merge depth form (join present k before v) bs = .ok (join true k before v', rest) := by
  cases k with
  | one s => exact h
  | many entry =>
    change List (Record entry.fields) at v v' before
    obtain ⟨hform, r, hread, rfl⟩ := merge_many_eq_ok_iff.1 h
    rw [join_many, join_many, ← List.append_assoc]
    exact merge_many_eq_ok_iff.2 ⟨hform, r, hread, rfl⟩

theorem join_initial (k : Kind) (before : Carrier k) :
    join false k before (Defaulted.initial k) = before := by
  cases k with
  | one s => rfl
  | many entry => exact List.append_nil before

end Kind

instance : MergeLaws Kind where
  join := Kind.join
  local_merge := Kind.local_merge
  skip_of_merge h := Kind.skip_of_merge h
  merge_join present before h := Kind.merge_join present before h
  join_initial := Kind.join_initial

/-! ## Messages -/

namespace Message

variable {M : Type} [Message M]

/-- **What comes of two messages one after the other**, when fields of these numbers
occur in the second. -/
def joined (numbers : List ℕ) (a b : M) : M :=
  ofRecord (Record.joined numbers (schema M).fields (toRecord a) (toRecord b))

/-- **Octets of this type of message can follow each other**, and fields of numbers that
it does not have can stand among its own. -/
structure Merges (M : Type) [Message M] : Prop where
  /-- The octets of two messages are read as both. -/
  joins : ∀ (a b : Bytes) (ma mb : M), decode M a = .ok ma → decode M b = .ok mb →
    ∃ fs, splitFields Record.maxDepth b = .ok fs ∧
      decode M (a ++ b) = .ok (joined (fs.map (·.number)) ma mb)
  /-- Octets that are read consist of fields, and another field of an unknown number
  before, between or after them changes nothing. -/
  passes : ∀ (bs : Bytes) (m : M), decode M bs = .ok m →
    ∃ fs, splitFields Record.maxDepth bs = .ok fs ∧ joinFields fs = bs ∧
      ∀ (number : ℕ) (form : Form) (octets : Bytes) (i : ℕ),
        number ∉ (schema M).fields.map Field.number → WellFormed number form octets →
          decode M (joinFields (fs.take i) ++ octets ++ joinFields (fs.drop i)) = .ok m

/-- It is enough that the numbers of the fields tell them apart. -/
theorem merges_of_nodup (hnodup : ((schema M).fields.map Field.number).Nodup) : Merges M where
  joins := by
    intro a b ma mb ha hb
    have ha := map_ofRecord_eq_ok_iff.1 ha
    have hb := map_ofRecord_eq_ok_iff.1 hb
    obtain ⟨fs, hfs, hboth⟩ := Record.decode_append hnodup ha hb
    refine ⟨fs, hfs, map_ofRecord_eq_ok_iff.2 ?_⟩
    rw [joined, toRecord_ofRecord]
    exact hboth
  passes := by
    intro bs m h
    obtain ⟨fs, hfs, hbs, hinsert⟩ := Record.decode_insert (map_ofRecord_eq_ok_iff.1 h)
    refine ⟨fs, hfs, hbs, ?_⟩
    intro number form octets i hnumber hformed
    exact map_ofRecord_eq_ok_iff.2 (hinsert number form octets i hnumber hformed)

/-- **All eleven messages can follow each other**, and fields of unknown numbers can
stand among their own. -/
theorem messages_merge :
    Merges SubmitOrderRequest ∧ Merges SubmitOrderResponse ∧ Merges GetOrderBookRequest ∧
      Merges OrderBookEntry ∧ Merges GetOrderBookResponse ∧ Merges CancelOrderRequest ∧
      Merges CancelOrderResponse ∧ Merges ModifyOrderRequest ∧ Merges ModifyOrderResponse ∧
      Merges SubscribeTradesRequest ∧ Merges TradeUpdate := by
  refine ⟨?_, ?_, ?_, ?_, ?_, ?_, ?_, ?_, ?_, ?_, ?_⟩ <;> exact merges_of_nodup (by decide)

/-- Two answers to a cancel come to one, with the message of the second. A field of an
unknown number in front of an answer is passed over. -/
theorem messages_merge_answers :
    decode CancelOrderResponse (encode (⟨"OK", "x"⟩ : CancelOrderResponse) ++
        encode (⟨"", "y"⟩ : CancelOrderResponse)) = .ok ⟨"OK", "y"⟩ ∧
      decode CancelOrderResponse ([0x18, 0x05] ++ encode (⟨"OK", "x"⟩ : CancelOrderResponse)) =
        .ok ⟨"OK", "x"⟩ := by
  obtain ⟨-, -, -, -, -, -, hanswer, -⟩ := messages_merge
  have hdecode (m : CancelOrderResponse) (hstatus : m.status.utf8ByteSize < 2 ^ 64)
      (hmessage : m.message.utf8ByteSize < 2 ^ 64) : decode CancelOrderResponse (encode m) = .ok m :=
    decode_encode (by decide) ⟨hstatus, hmessage, trivial⟩
  have hfirst := hdecode ⟨"OK", "x"⟩ (by decide) (by decide)
  have hsecond := hdecode ⟨"", "y"⟩ (by decide) (by decide)
  constructor
  · obtain ⟨fs, hfs, hboth⟩ := hanswer.joins _ _ _ _ hfirst hsecond
    have hnumbers : (splitFields Record.maxDepth
        (encode (⟨"", "y"⟩ : CancelOrderResponse))).toOption.map (·.map (·.number)) = some [2] := by
      decide +kernel
    rw [hfs] at hnumbers
    have hmessage : fs.map (·.number) = [2] := Option.some.inj hnumbers
    rw [hboth, hmessage]
    rfl
  · obtain ⟨fs, -, hoctets, hinsert⟩ := hanswer.passes _ _ hfirst
    have hformed : WellFormed 3 .varint [0x18, 0x05] :=
      ⟨by decide, by decide, [0x18], [0x05], rfl, by rfl, 5, by rfl⟩
    have hread := hinsert 3 .varint _ 0 (by decide) hformed
    rwa [List.drop_zero, hoctets] at hread

/-- Two order books come to one with the entries of both. -/
example (numbers : List ℕ) (a b : GetOrderBookResponse) :
    joined numbers a b = ⟨a.bids ++ b.bids, a.asks ++ b.asks⟩ := by
  have hentries (xs ys : List OrderBookEntry) :
      (xs.map OrderBookEntry.toRow ++ ys.map OrderBookEntry.toRow).map OrderBookEntry.ofRow =
        xs ++ ys := by
    rw [← List.map_append, OrderBookEntry.map_ofRow_toRow]
  exact congrArg₂ GetOrderBookResponse.mk (hentries a.bids b.bids) (hentries a.asks b.asks)

/-- Of two answers to a cancel, each text is that of the second if it occurs there. -/
example (numbers : List ℕ) (a b : CancelOrderResponse) :
    joined numbers a b = ⟨if numbers.contains 1 then b.status else a.status,
      if numbers.contains 2 then b.message else a.message⟩ :=
  rfl

end Message

end OrderRelay
