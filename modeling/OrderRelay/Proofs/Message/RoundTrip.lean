import OrderRelay.Message.Orders
import OrderRelay.Proofs.Message.Fields

/-!
# Messages come back from the wire

What is written for a message is read back as that message, field by field. The one
thing that is lost is the sign of a zero, since neither zero is written.

* `Record.sound`: the numbers of the fields of a schema tell the fields apart.
* `WireLaws`: what is asked of kinds of values, single values and lists alike.
* `Record.takes_encode`: the octets of a record take the empty record to it.
* `messages_return`: **for each of the eleven messages** the length is that of the
  octets, the octets are read back as the message, and what is written for a message
  that has been read is stable.
-/

namespace OrderRelay

open Wire

/-- **What is asked of kinds of values** so that records of them come back. -/
class WireLaws (κ : Type) [Kinds κ] [Wired κ] [Defaulted κ] where
  /-- Whether the schemas within a kind tell their fields apart and nest no deeper than
  allowed. -/
  sound : ℕ → κ → Bool
  /-- The value that comes back. -/
  canonical : (k : κ) → Carrier k → Carrier k
  /-- Every length within the value has 64 bits. -/
  Fits : (k : κ) → Carrier k → Prop
  size_eq : ∀ (number : ℕ) (k : κ) (v : Carrier k),
    Wired.size number k v = (Wired.encode number k v).length
  /-- The octets of a field take its initial value to the value that comes back. -/
  takes : ∀ {name : String} {depth : ℕ} {f : Field κ} {fields : List (Field κ)} {v : Carrier f.kind}
    (r : Record fields), sound depth f.kind = true → 0 < f.number → f.number ≤ maxNumber →
      Fits f.kind v → Record.Takes name depth (f :: fields) (Defaulted.initial f.kind, r)
        (Wired.encode f.number f.kind v) (canonical f.kind v, r)
  encode_canonical : ∀ (number : ℕ) (k : κ) (v : Carrier k),
    Wired.encode number k (canonical k v) = Wired.encode number k v
  encode_initial : ∀ (number : ℕ) (k : κ), Wired.encode number k (Defaulted.initial k) = []
  fits_initial : ∀ k : κ, Fits k (Defaulted.initial k)
  fits_of_merge : ∀ {depth : ℕ} {k : κ} {form : Form} {v v' : Carrier k} {bs rest : Bytes},
    sound depth k = true → Wired.merge depth k form v bs = .ok (v', rest) → Fits k v → Fits k v'

/-! ## Records -/

namespace Record

variable {κ : Type} [Kinds κ] [Wired κ] [Defaulted κ] [WireLaws κ] {fields : List (Field κ)}

/-- Whether the fields have numbers that tell them apart. -/
def sound (depth : ℕ) (fields : List (Field κ)) : Bool :=
  decide (fields.map Field.number).Nodup &&
    fields.all fun f => 0 < f.number && f.number ≤ maxNumber && WireLaws.sound depth f.kind

/-- The record that comes back. -/
def canonical (fields : List (Field κ)) (r : Record fields) : Record fields :=
  Tuple.map (fun f v => WireLaws.canonical f.kind v) fields r

/-- Every length within a record has 64 bits. -/
def Fits : (fields : List (Field κ)) → Record fields → Prop
  | [], _ => True
  | f :: fields, (v, r) => WireLaws.Fits f.kind v ∧ Fits fields r

theorem sound_cons {depth : ℕ} {f : Field κ} (h : sound depth (f :: fields) = true) :
    f.number ∉ fields.map Field.number ∧ 0 < f.number ∧ f.number ≤ maxNumber ∧
      WireLaws.sound depth f.kind = true ∧ sound depth fields = true := by
  unfold sound at h ⊢
  rw [Bool.and_eq_true, decide_eq_true_eq, List.all_cons, List.map_cons, List.nodup_cons,
    Bool.and_eq_true] at h
  obtain ⟨⟨hnot, hnodup⟩, hf, hall⟩ := h
  simp only [Bool.and_eq_true, decide_eq_true_eq] at hf
  obtain ⟨⟨hpos, hle⟩, hkind⟩ := hf
  refine ⟨hnot, hpos, hle, hkind, ?_⟩
  rw [Bool.and_eq_true, decide_eq_true_eq]
  exact ⟨hnodup, hall⟩

/-- **The length of a record is that of its octets.** -/
theorem encodedLength_eq (fields : List (Field κ)) (r : Record fields) :
    encodedLength fields r = (encode fields r).length := by
  induction fields with
  | nil => rfl
  | cons f fields ih =>
    obtain ⟨v, r⟩ := r
    rw [encodedLength_cons, encode_cons, List.length_append, WireLaws.size_eq, ih]

theorem encode_canonical (fields : List (Field κ)) (r : Record fields) :
    encode fields (canonical fields r) = encode fields r := by
  induction fields with
  | nil => rfl
  | cons f fields ih =>
    obtain ⟨v, r⟩ := r
    change encode (f :: fields) (WireLaws.canonical f.kind v, canonical fields r) = _
    rw [encode_cons, encode_cons, WireLaws.encode_canonical, ih]

theorem encode_initial (fields : List (Field κ)) : encode fields (initial fields) = [] := by
  induction fields with
  | nil => rfl
  | cons f fields ih =>
    change encode (f :: fields) (Defaulted.initial f.kind, initial fields) = _
    rw [encode_cons, WireLaws.encode_initial, ih]; rfl

theorem fits_initial (fields : List (Field κ)) : Fits fields (initial fields) := by
  induction fields with
  | nil => trivial
  | cons f fields ih => exact ⟨WireLaws.fits_initial f.kind, ih⟩

/-- **The octets of a record take the empty record to it.** -/
theorem takes_encode {name : String} {depth : ℕ} (hs : sound depth fields = true)
    {r : Record fields} (hr : Fits fields r) :
    Takes name depth fields (initial fields) (encode fields r) (canonical fields r) := by
  induction fields with
  | nil => exact .nil _
  | cons f fields ih =>
    obtain ⟨v, r⟩ := r
    obtain ⟨hnot, hpos, hle, hkind, hs⟩ := sound_cons hs
    rw [encode_cons]
    have hhead : Takes name depth (f :: fields) (initial (f :: fields))
        (Wired.encode f.number f.kind v) (WireLaws.canonical f.kind v, initial fields) :=
      WireLaws.takes (initial fields) hkind hpos hle hr.1
    exact hhead.trans (.tail hnot (ih hs hr.2))

/-- A record that has been read fits if the one before did. -/
theorem fits_of_mergeField {name : String} {depth number : ℕ} {form : Form} {r r' : Record fields}
    {bs rest : Bytes} (hs : sound depth fields = true)
    (h : mergeField name depth number form fields r bs = .ok (r', rest)) (hr : Fits fields r) :
    Fits fields r' := by
  induction fields with
  | nil => trivial
  | cons f fields ih =>
    obtain ⟨v, r⟩ := r
    obtain ⟨v', r'⟩ := r'
    obtain ⟨-, -, -, hkind, hs⟩ := sound_cons hs
    by_cases hnumber : number = f.number
    · obtain ⟨rfl, hmerge⟩ := (mergeField_own_eq_ok_iff hnumber).1 h
      have hv : WireLaws.Fits f.kind v' := WireLaws.fits_of_merge hkind hmerge hr.1
      exact ⟨hv, hr.2⟩
    · obtain ⟨rfl, hmerge⟩ := (mergeField_other_eq_ok_iff hnumber).1 h
      have hrest : Fits fields r' := ih hs hmerge hr.2
      exact ⟨hr.1, hrest⟩

theorem fits_of_mergeFields {name : String} {depth left : ℕ} {r r' : Record fields}
    {bs rest : Bytes} (hs : sound depth fields = true)
    (h : mergeFields name depth left fields r bs = .ok (r', rest)) (hr : Fits fields r) :
    Fits fields r' := by
  fun_induction mergeFields name depth left fields r bs with
  | case1 => cases h; exact hr
  | case2 => cases h
  | case3 => cases h
  | case4 _ _ _ _ _ _ _ _ _ hm ih => exact ih h (fits_of_mergeField hs hm hr)

/-- **A record comes back from its octets.** -/
theorem decode_encode {schema : Schema κ} (hs : sound maxDepth schema.fields = true)
    {r : Record schema.fields} (hr : Fits schema.fields r) :
    decode schema (encode schema.fields r) = .ok (canonical schema.fields r) := by
  have htakes : Takes schema.name maxDepth schema.fields (initial schema.fields)
      (encode schema.fields r) (canonical schema.fields r) := takes_encode hs hr
  have hread := mergeFields_of_takes htakes []
  rw [List.append_nil] at hread
  exact decode_eq_ok_iff.2 ⟨[], hread⟩

theorem fits_of_decode {schema : Schema κ} (hs : sound maxDepth schema.fields = true)
    {r : Record schema.fields} {bs : Bytes} (h : decode schema bs = .ok r) :
    Fits schema.fields r := by
  obtain ⟨rest, hread⟩ := decode_eq_ok_iff.1 h
  exact fits_of_mergeFields hs hread (fits_initial _)

/-- A record comes back from its octets after their length. -/
theorem decodeNested_encode {schema : Schema κ} {depth : ℕ} (hdepth : 0 < depth)
    (hs : sound (depth - 1) schema.fields = true) {r : Record schema.fields}
    (hr : Fits schema.fields r) (hlen : encodedLength schema.fields r < 2 ^ 64) (rest : Bytes) :
    decodeNested schema depth (Varint.encode (encode schema.fields r).length ++
        encode schema.fields r ++ rest) = .ok (canonical schema.fields r, rest) := by
  rw [encodedLength_eq] at hlen
  have hsize := readVarint_encode hlen (encode schema.fields r ++ rest)
  have hinner : (encode schema.fields r ++ rest).length =
      (encode schema.fields r).length + rest.length := List.length_append
  have hleft : (encode schema.fields r ++ rest).length - (encode schema.fields r).length =
      rest.length := by omega
  rw [← List.append_assoc] at hsize
  refine decodeNested_eq_ok_iff.2 ⟨by omega, _, _, hsize, by omega, hleft.symm, ?_⟩
  rw [hleft]
  exact mergeFields_of_takes (takes_encode hs hr) rest

theorem fits_of_decodeNested {schema : Schema κ} {depth : ℕ}
    (hs : sound (depth - 1) schema.fields = true) {r : Record schema.fields} {bs rest : Bytes}
    (h : decodeNested schema depth bs = .ok (r, rest)) : Fits schema.fields r := by
  obtain ⟨-, n, inner, -, -, -, hfields⟩ := decodeNested_eq_ok_iff.1 h
  exact fits_of_mergeFields hs hfields (fits_initial _)

end Record

/-! ## Single values -/

/-- The one double that does not come back is the negative zero. -/
def Double.unsignedZero (d : Double) : Double := if d.isZero then zero else d

theorem Double.isZero_unsignedZero (d : Double) : d.unsignedZero.isZero = d.isZero := by
  unfold unsignedZero
  split
  · rename_i h
    rw [h]; rfl
  · rfl

theorem Double.length_octets (d : Double) : d.octets.length = 8 := by
  simp [octets]

/-- **A double comes back bit for bit** from its octets. -/
theorem Double.ofOctets_octets (d : Double) : ofOctets d.octets = d := by
  have hlt := d.bits.toNat_lt
  have hrange : List.range 8 = [0, 1, 2, 3, 4, 5, 6, 7] := by decide
  have hvalue : d.octets.foldr (fun b n => b.toNat + 256 * n) 0 = d.bits.toNat := by
    simp only [octets, hrange, List.map_cons, List.map_nil, List.foldr_cons, List.foldr_nil,
      UInt8.toNat_ofNat', Nat.shiftRight_eq_div_pow]
    omega
  unfold ofOctets
  rw [hvalue, UInt64.ofNat_toNat]

/-- **A 32-bit integer comes back** from the variable-length number it is written as. -/
theorem int32OfVarint_varintOfInt32 (n : Int32) : int32OfVarint (varintOfInt32 n) = n := by
  unfold int32OfVarint varintOfInt32
  rw [UInt64.ofNat_toNat, Int64.toInt64_toUInt64, Int32.toInt32_toInt64]

theorem varintOfInt32_lt (n : Int32) : varintOfInt32 n < 2 ^ 64 := UInt64.toNat_lt _

theorem Utf8.length_encode (t : String) : (Utf8.encode t).length = t.utf8ByteSize := rfl

namespace Scalar

/-- The value that comes back. -/
def canonical : (s : Scalar) → Carrier s → Carrier s
  | .double, (d : Double) => d.unsignedZero
  | .text, t => t
  | .int32, n => n

/-- A text has a length of 64 bits. -/
def Fits : (s : Scalar) → Carrier s → Prop
  | .text, (t : String) => t.utf8ByteSize < 2 ^ 64
  | _, _ => True

theorem size_eq (number : ℕ) (s : Scalar) (v : Carrier s) :
    s.size number v = (s.encode number v).length := by
  cases s with
  | text =>
    change String at v
    simp only [size, encode, encodeDelimited]
    split
    · rfl
    · simp [length_encodeKey, Varint.length_encode, Utf8.length_encode, Nat.add_assoc]
  | double =>
    change Double at v
    simp only [size, encode]
    split
    · rfl
    · simp [length_encodeKey, Double.length_octets]
  | int32 =>
    change Int32 at v
    simp only [size, encode]
    split
    · rfl
    · simp [length_encodeKey, Varint.length_encode]

/-- A payload of the right form is read whatever comes after it. -/
theorem merge_form (s : Scalar) (bs : Bytes) : s.merge s.form bs = s.decode bs := if_pos rfl

/-- **A field is left out, or read from its octets**, whatever comes after them. -/
theorem encode_cases (number : ℕ) {s : Scalar} {v : Carrier s} (hv : Fits s v) :
    (s.encode number v = [] ∧ s.canonical v = Defaulted.initial s) ∨
      ∃ payload, s.encode number v = encodeKey number s.form ++ payload ∧
        ∀ rest, s.merge s.form (payload ++ rest) = .ok (s.canonical v, rest) := by
  simp only [merge_form]
  cases s with
  | text =>
    change String at v
    by_cases hempty : v = ""
    · subst hempty
      exact .inl ⟨rfl, rfl⟩
    · have hsome : ¬v.isEmpty = true := fun h => hempty (String.isEmpty_iff.mp h)
      refine .inr ⟨Varint.encode (Utf8.encode v).length ++ Utf8.encode v, ?_, fun rest => ?_⟩
      · simp only [encode, if_neg hsome, encodeDelimited, form, List.append_assoc]
      · rw [decode, readDelimited_encode (by rwa [Utf8.length_encode])]
        simp only [Utf8.decode?_encode]
        rfl
  | double =>
    change Double at v
    by_cases hzero : v.isZero = true
    · exact .inl ⟨if_pos hzero, if_pos hzero⟩
    · refine .inr ⟨v.octets, if_neg hzero, fun rest => ?_⟩
      have hsame : v.unsignedZero = v := if_neg hzero
      rw [decode, takeOctets_append v.length_octets]
      simp only [Double.ofOctets_octets, canonical, hsame]
  | int32 =>
    change Int32 at v
    by_cases hzero : v = 0
    · subst hzero
      exact .inl ⟨rfl, rfl⟩
    · refine .inr ⟨Varint.encode (varintOfInt32 v), if_neg hzero, fun rest => ?_⟩
      rw [decode, readVarint_encode (varintOfInt32_lt v)]
      simp only [int32OfVarint_varintOfInt32]
      rfl

theorem takes {name : String} {depth : ℕ} {f : Field Scalar} {fields : List (Field Scalar)}
    {v : Carrier f.kind} (r : Record fields) (hpos : 0 < f.number) (hle : f.number ≤ maxNumber)
    (hv : Fits f.kind v) : Record.Takes name depth (f :: fields) (Defaulted.initial f.kind, r)
      (f.kind.encode f.number v) (f.kind.canonical v, r) := by
  obtain ⟨hnone, hsame⟩ | ⟨payload, hsome, hread⟩ := encode_cases f.number hv
  · rw [hnone, hsame]
    exact .nil _
  · rw [hsome]
    exact .head (readKey_encodeKey hpos hle f.kind.form) hread

theorem encode_canonical (number : ℕ) (s : Scalar) (v : Carrier s) :
    s.encode number (s.canonical v) = s.encode number v := by
  cases s with
  | text => rfl
  | int32 => rfl
  | double =>
    change Double at v
    simp only [encode, canonical, Double.isZero_unsignedZero]
    split
    · rfl
    · rename_i hzero
      simp [Double.unsignedZero, hzero]

theorem encode_initial (number : ℕ) (s : Scalar) : s.encode number (Defaulted.initial s) = [] := by
  cases s <;> rfl

theorem fits_initial (s : Scalar) : Fits s (Defaulted.initial s) := by
  cases s with
  | text => change (0 : ℕ) < 2 ^ 64; decide
  | double => trivial
  | int32 => trivial

theorem fits_of_merge {s : Scalar} {form : Form} {v : Carrier s} {bs rest : Bytes}
    (h : s.merge form bs = .ok (v, rest)) : Fits s v := by
  obtain ⟨-, hdecode⟩ := merge_eq_ok_iff.1 h
  cases s with
  | text =>
    obtain ⟨octets, hread, htext⟩ := decode_text_eq_ok_iff.1 hdecode
    obtain rfl := Utf8.eq_encode_of_decode? htext
    exact length_lt_of_readDelimited hread
  | double => trivial
  | int32 => trivial

/-- A number takes few octets, whatever it is. -/
theorem size_le {s : Scalar} (hs : s ≠ .text) {number : ℕ} (hle : number ≤ maxNumber)
    (v : Carrier s) : s.size number v ≤ 15 := by
  unfold maxNumber at hle
  have hkey : Varint.length (8 * number) ≤ 5 := Varint.length_le_of_lt (by omega)
  cases s with
  | text => exact absurd rfl hs
  | double =>
    simp only [size]
    split <;> omega
  | int32 =>
    change Int32 at v
    have hn := varintOfInt32_lt v
    have hpayload : Varint.length (varintOfInt32 v) ≤ 10 := Varint.length_le_of_lt (by omega)
    simp only [size]
    split <;> omega

end Scalar

instance : WireLaws Scalar where
  sound _ _ := true
  canonical := Scalar.canonical
  Fits := Scalar.Fits
  size_eq := Scalar.size_eq
  takes r _ hpos hle hv := Scalar.takes r hpos hle hv
  encode_canonical := Scalar.encode_canonical
  encode_initial := Scalar.encode_initial
  fits_initial := Scalar.fits_initial
  fits_of_merge _ h _ := Scalar.fits_of_merge h

/-! ## Lists of entries -/

namespace Kind

/-- Whether the entries of a list tell their fields apart, nest no deeper than allowed,
and have a length of 64 bits because they hold numbers only. -/
def sound (depth : ℕ) : Kind → Bool
  | .one _ => true
  | .many entry =>
    0 < depth && Record.sound (depth - 1) entry.fields &&
      entry.fields.all (fun f => f.kind ≠ .text) && 15 * entry.fields.length < 2 ^ 64

/-- The value that comes back. -/
def canonical : (k : Kind) → Carrier k → Carrier k
  | .one s, v => s.canonical v
  | .many entry, (rs : List (Record entry.fields)) => rs.map (Record.canonical entry.fields)

/-- Every length within the value has 64 bits. -/
def Fits : (k : Kind) → Carrier k → Prop
  | .one s, v => s.Fits v
  | .many entry, (rs : List (Record entry.fields)) => ∀ r ∈ rs, Record.Fits entry.fields r

variable {entry : Schema Scalar}

/-- What the check of a list says. -/
theorem sound_many {depth : ℕ} (h : sound depth (.many entry) = true) :
    0 < depth ∧ Record.sound (depth - 1) entry.fields = true ∧
      (∀ f ∈ entry.fields, f.kind ≠ .text) ∧ 15 * entry.fields.length < 2 ^ 64 := by
  simp only [sound, Bool.and_eq_true, decide_eq_true_eq, List.all_eq_true] at h
  obtain ⟨⟨⟨hdepth, hs⟩, htext⟩, hlen⟩ := h
  exact ⟨hdepth, hs, htext, hlen⟩

/-- A record of numbers takes few octets. -/
theorem encodedLength_le {depth : ℕ} {fields : List (Field Scalar)}
    (hs : Record.sound depth fields = true) (h : ∀ f ∈ fields, f.kind ≠ .text)
    (r : Record fields) : Record.encodedLength fields r ≤ 15 * fields.length := by
  induction fields with
  | nil => exact Nat.le_refl _
  | cons f fields ih =>
    obtain ⟨v, r⟩ := r
    obtain ⟨-, -, hle, -, hs⟩ := Record.sound_cons hs
    have hv := Scalar.size_le (h f List.mem_cons_self) hle v
    have hr := ih hs (fun g hg => h g (List.mem_cons_of_mem _ hg)) r
    have hsize : Wired.size f.number f.kind v = f.kind.size f.number v := rfl
    rw [Record.encodedLength_cons, List.length_cons, hsize]
    omega

theorem size_eq (number : ℕ) (k : Kind) (v : Carrier k) :
    k.size number v = (k.encode number v).length := by
  cases k with
  | one s => exact s.size_eq number v
  | many entry =>
    change List (Record entry.fields) at v
    simp only [size, encode]
    induction v with
    | nil => rfl
    | cons r rs ih =>
      have hr : (encodeDelimited number (Record.encode entry.fields r)).length =
          Varint.length (8 * number) + Varint.length (Record.encodedLength entry.fields r)
            + Record.encodedLength entry.fields r := by
        simp [encodeDelimited, length_encodeKey, Varint.length_encode, Record.encodedLength_eq,
          Nat.add_assoc]
      rw [List.map_cons, List.foldr_cons, List.flatMap_cons, List.length_append, ih, hr]

/-- The octets of a list add its entries to those before. -/
theorem takes_entries {name fieldName label : String} {depth number : ℕ}
    {fields : List (Field Kind)} (r : Record fields) (hpos : 0 < number) (hle : number ≤ maxNumber)
    (hs : sound depth (.many entry) = true) (rs before : List (Record entry.fields))
    (hrs : ∀ row ∈ rs, Record.Fits entry.fields row) :
    Record.Takes name depth (⟨fieldName, label, number, Kind.many entry⟩ :: fields) (before, r)
      (rs.flatMap fun row => encodeDelimited number (Record.encode entry.fields row))
      (before ++ rs.map (Record.canonical entry.fields), r) := by
  induction rs generalizing before with
  | nil =>
    rw [List.map_nil, List.append_nil]
    exact .nil _
  | cons row rs ih =>
    obtain ⟨hdepth, hentry, htext, hlen⟩ := sound_many hs
    have hrow := hrs row List.mem_cons_self
    have hbound : Record.encodedLength entry.fields row < 2 ^ 64 :=
      Nat.lt_of_le_of_lt (encodedLength_le hentry htext row) hlen
    have hone : Record.Takes name depth (⟨fieldName, label, number, Kind.many entry⟩ :: fields)
        (before, r) (encodeDelimited number (Record.encode entry.fields row))
        (before ++ [Record.canonical entry.fields row], r) := by
      unfold encodeDelimited
      rw [List.append_assoc]
      refine .head (readKey_encodeKey hpos hle .delimited) fun rest => ?_
      change Kind.merge depth (.many entry) .delimited before _ = _
      rw [merge, if_pos rfl, Record.decodeNested_encode hdepth hentry hrow hbound rest]
    have hrest := ih (before ++ [Record.canonical entry.fields row])
      (fun row' hrow' => hrs row' (List.mem_cons_of_mem _ hrow'))
    rw [List.append_assoc] at hrest
    exact hone.trans hrest

theorem takes {name : String} {depth : ℕ} {f : Field Kind} {fields : List (Field Kind)}
    {v : Carrier f.kind} (r : Record fields) (hs : sound depth f.kind = true) (hpos : 0 < f.number)
    (hle : f.number ≤ maxNumber) (hv : Fits f.kind v) :
    Record.Takes name depth (f :: fields) (Defaulted.initial f.kind, r)
      (f.kind.encode f.number v) (f.kind.canonical v, r) := by
  obtain ⟨fieldName, label, number, kind⟩ := f
  cases kind with
  | one s =>
    obtain ⟨hnone, hsame⟩ | ⟨payload, hsome, hread⟩ := Scalar.encode_cases number hv
    · simp only [encode, canonical, hnone, hsame]
      exact .nil _
    · simp only [encode, canonical, hsome]
      exact .head (readKey_encodeKey hpos hle s.form) hread
  | many entry => exact takes_entries r hpos hle hs v [] hv

theorem encode_canonical (number : ℕ) (k : Kind) (v : Carrier k) :
    k.encode number (k.canonical v) = k.encode number v := by
  cases k with
  | one s => exact s.encode_canonical number v
  | many entry =>
    change List (Record entry.fields) at v
    simp only [encode, canonical, List.flatMap_map, Record.encode_canonical]

theorem encode_initial (number : ℕ) (k : Kind) : k.encode number (Defaulted.initial k) = [] := by
  cases k with
  | one s => exact s.encode_initial number
  | many entry => rfl

theorem fits_initial (k : Kind) : Fits k (Defaulted.initial k) := by
  cases k with
  | one s => exact s.fits_initial
  | many entry => exact fun r hr => absurd hr List.not_mem_nil

theorem fits_of_merge {depth : ℕ} {k : Kind} {form : Form} {v v' : Carrier k} {bs rest : Bytes}
    (hs : sound depth k = true) (h : k.merge depth form v bs = .ok (v', rest)) (hv : Fits k v) :
    Fits k v' := by
  cases k with
  | one s => exact Scalar.fits_of_merge h
  | many entry =>
    obtain ⟨-, hentry, -, -⟩ := sound_many hs
    rw [merge] at h
    split at h
    · split at h
      · cases h
      · rename_i hn
        cases h
        intro row hrow
        rcases List.mem_append.mp hrow with hold | hnew
        · exact hv row hold
        · rw [List.mem_singleton.mp hnew]
          exact Record.fits_of_decodeNested hentry hn
    · cases h

end Kind

instance : WireLaws Kind where
  sound := Kind.sound
  canonical := Kind.canonical
  Fits := Kind.Fits
  size_eq := Kind.size_eq
  takes := Kind.takes
  encode_canonical := Kind.encode_canonical
  encode_initial := Kind.encode_initial
  fits_initial := Kind.fits_initial
  fits_of_merge := Kind.fits_of_merge

/-! ## Messages -/

namespace Message

variable {M : Type} [Message M]

/-- The message that comes back: each double without the sign of a zero. -/
def canonical (m : M) : M := ofRecord (Record.canonical (schema M).fields (toRecord m))

/-- Every text of a message has a length of 64 bits, as every text in memory has. -/
def Fits (m : M) : Prop := Record.Fits (schema M).fields (toRecord m)

/-- What is written for what comes back is what was written. -/
theorem encode_canonical (m : M) : encode (canonical m) = encode m := by
  unfold encode canonical
  rw [toRecord_ofRecord, Record.encode_canonical]

theorem decode_encode (hs : Record.sound Record.maxDepth (schema M).fields = true) {m : M}
    (hm : Fits m) : decode M (encode m) = .ok (canonical m) := by
  unfold decode encode
  rw [Record.decode_encode hs hm]
  rfl

/-- A message that has been read fits. -/
theorem fits_of_decode (hs : Record.sound Record.maxDepth (schema M).fields = true) {m : M}
    {bs : Bytes} (h : decode M bs = .ok m) : Fits m := by
  unfold decode at h
  cases hr : Record.decode (schema M) bs with
  | error e =>
    rw [hr] at h
    cases h
  | ok r =>
    rw [hr] at h
    cases h
    unfold Fits
    rw [toRecord_ofRecord]
    exact Record.fits_of_decode hs hr

/-- **Messages of this type come back from the wire.** -/
structure Returns (M : Type) [Message M] : Prop where
  /-- The length of a message is that of its octets. -/
  length : ∀ m : M, encodedLength m = (encode m).length
  /-- Its octets are read as the message, but for the sign of a zero. -/
  returns : ∀ m : M, Fits m → decode M (encode m) = .ok (canonical m)
  /-- What is written for a message that has been read is read and written unchanged. -/
  stable : ∀ (bs : Bytes) (m : M), decode M bs = .ok m →
    ∃ m' : M, decode M (encode m) = .ok m' ∧ encode m' = encode m

/-- It is enough that the numbers of the fields tell them apart, at every depth. -/
theorem returns_of_sound (hs : Record.sound Record.maxDepth (schema M).fields = true) :
    Returns M where
  length _ := Record.encodedLength_eq _ _
  returns _ hm := decode_encode hs hm
  stable _ m h := ⟨canonical m, decode_encode hs (fits_of_decode hs h), encode_canonical m⟩

/-- **All eleven messages come back from the wire.** -/
theorem messages_return :
    Returns SubmitOrderRequest ∧ Returns SubmitOrderResponse ∧ Returns GetOrderBookRequest ∧
      Returns OrderBookEntry ∧ Returns GetOrderBookResponse ∧ Returns CancelOrderRequest ∧
      Returns CancelOrderResponse ∧ Returns ModifyOrderRequest ∧ Returns ModifyOrderResponse ∧
      Returns SubscribeTradesRequest ∧ Returns TradeUpdate := by
  refine ⟨?_, ?_, ?_, ?_, ?_, ?_, ?_, ?_, ?_, ?_, ?_⟩ <;> exact returns_of_sound (by decide)

/-- A trade at a price of minus zero comes back with a price of zero, which is written as it was. -/
theorem messages_return_trade :
    let trade : TradeUpdate := ⟨"B1", "S1", ⟨0x8000000000000000⟩, 5, "AAPL", ""⟩
    let read : TradeUpdate := ⟨"B1", "S1", ⟨0⟩, 5, "AAPL", ""⟩
    Fits trade ∧ encodedLength trade = (encode trade).length ∧
      decode TradeUpdate (encode trade) = .ok read ∧
      ∃ again, decode TradeUpdate (encode read) = .ok again ∧ encode again = encode read := by
  intro trade read
  obtain ⟨-, -, -, -, -, -, -, -, -, -, htrade⟩ := messages_return
  have hfits : Fits trade := by
    have hshort : ∀ t ∈ ["B1", "S1", "AAPL", ""], t.utf8ByteSize < 2 ^ 64 := by decide
    exact ⟨hshort "B1" (by decide), hshort "S1" (by decide), trivial, trivial,
      hshort "AAPL" (by decide), hshort "" (by decide), trivial⟩
  have hcanonical : canonical trade = read := by decide
  have hread : decode TradeUpdate (encode trade) = .ok read := by
    rw [htrade.returns trade hfits, hcanonical]
  exact ⟨hfits, htrade.length trade, hread, htrade.stable (encode trade) read hread⟩

/-- What comes back of an order book has the same entries in the same order. -/
example (m : GetOrderBookResponse) :
    canonical m = ⟨m.bids.map fun e => ⟨e.price.unsignedZero, e.quantity⟩,
      m.asks.map fun e => ⟨e.price.unsignedZero, e.quantity⟩⟩ := by
  simp only [canonical, schema, toRecord, ofRecord, Record.canonical, Tuple.map,
    WireLaws.canonical, Kind.canonical, List.map_map]
  rfl

end Message

end OrderRelay
