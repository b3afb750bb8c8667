import Mathlib.Data.List.Basic
import OrderRelay.Message.Wire
import OrderRelay.Proofs.Wire.Reading

/-!
# Records read field by field

The octets of a record are fields one after another. Each field has a key and a
payload, and what it does to the record does not depend on the octets after it.

* `Record.Takes`: octets, field by field, take one record to another.
* `Takes.trans`, `Takes.head`, `Takes.tail`: more octets, and more fields around.
* `mergeFields_of_takes`: **reading takes the record where its octets take it**, and
  leaves the octets after those.
-/

namespace OrderRelay

namespace Record

open Wire

variable {κ : Type} [Kinds κ] [Wired κ] {name : String} {depth : ℕ} {fields : List (Field κ)}

@[simp] theorem encode_cons (f : Field κ) (v : Carrier f.kind) (r : Record fields) :
    encode (f :: fields) (v, r) = Wired.encode f.number f.kind v ++ encode fields r := by
  simp [encode, Tuple.toList]

@[simp] theorem encodedLength_cons (f : Field κ) (v : Carrier f.kind) (r : Record fields) :
    encodedLength (f :: fields) (v, r) =
      Wired.size f.number f.kind v + encodedLength fields r := by
  simp [encodedLength, Tuple.toList]

/-- **Octets take one record to another.** They are fields of known numbers, each a
key and a payload that is read into the record whatever octets come after it. -/
inductive Takes (name : String) (depth : ℕ) (fields : List (Field κ)) :
    Record fields → Bytes → Record fields → Prop where
  | nil (r : Record fields) : Takes name depth fields r [] r
  | field {number : ℕ} {form : Form} {key payload bs : Bytes} {r r' r'' : Record fields}
      (hnumber : number ∈ fields.map Field.number)
      (hkey : ∀ rest, readKey (key ++ rest) = .ok ((number, form), rest))
      (hpayload : ∀ rest,
        mergeField name depth number form fields r (payload ++ rest) = .ok (r', rest))
      (hrest : Takes name depth fields r' bs r'') :
      Takes name depth fields r (key ++ payload ++ bs) r''

/-- One field. -/
theorem Takes.single {number : ℕ} {form : Form} {key payload : Bytes} {r r' : Record fields}
    (hnumber : number ∈ fields.map Field.number)
    (hkey : ∀ rest, readKey (key ++ rest) = .ok ((number, form), rest))
    (hpayload : ∀ rest,
      mergeField name depth number form fields r (payload ++ rest) = .ok (r', rest)) :
    Takes name depth fields r (key ++ payload) r' := by
  have h := Takes.field hnumber hkey hpayload (.nil r')
  rwa [List.append_nil] at h

theorem Takes.trans {r r' r'' : Record fields} {bs cs : Bytes}
    (h : Takes name depth fields r bs r') (h' : Takes name depth fields r' cs r'') :
    Takes name depth fields r (bs ++ cs) r'' := by
  induction h with
  | nil r => exact h'
  | field hnumber hkey hpayload _ ih =>
    rw [List.append_assoc]
    exact .field hnumber hkey hpayload (ih h')

/-- A field of another number in front is passed by. -/
theorem Takes.tail {f : Field κ} (hf : f.number ∉ fields.map Field.number) {v : Carrier f.kind}
    {r r' : Record fields} {bs : Bytes} (h : Takes name depth fields r bs r') :
    Takes name depth (f :: fields) (v, r) bs (v, r') := by
  induction h with
  | nil r => exact .nil _
  | field hnumber hkey hpayload _ ih =>
    refine .field (List.mem_cons_of_mem _ hnumber) hkey (fun rest => ?_) ih
    rw [mergeField, if_neg (ne_of_mem_of_not_mem hnumber hf), hpayload rest]

/-- What the octets of one field do to the value of the first field. -/
theorem Takes.head {f : Field κ} {form : Form} {key payload : Bytes} {v v' : Carrier f.kind}
    {r : Record fields} (hkey : ∀ rest, readKey (key ++ rest) = .ok ((f.number, form), rest))
    (hpayload : ∀ rest, Wired.merge depth f.kind form v (payload ++ rest) = .ok (v', rest)) :
    Takes name depth (f :: fields) (v, r) (key ++ payload) (v', r) := by
  refine .single List.mem_cons_self hkey fun rest => ?_
  rw [mergeField, if_pos rfl, hpayload rest]

/-! ## Reading -/

theorem mergeFields_stop {left : ℕ} {r : Record fields} {bs : Bytes} (h : bs.length ≤ left) :
    mergeFields name depth left fields r bs = .ok (r, bs) := by
  rw [mergeFields, if_pos h]

theorem mergeFields_field {left number : ℕ} {form : Form} {r r' : Record fields}
    {bs payload rest : Bytes} (hlt : left < bs.length)
    (hkey : readKey bs = .ok ((number, form), payload))
    (hpayload : mergeField name depth number form fields r payload = .ok (r', rest)) :
    mergeFields name depth left fields r bs = mergeFields name depth left fields r' rest := by
  rw [mergeFields, if_neg (by omega)]
  split
  · rename_i he
    rw [hkey] at he; cases he
  · rename_i he
    rw [hkey] at he; cases he
    split
    · rename_i he
      rw [hpayload] at he; cases he
    · rename_i he
      rw [hpayload] at he; cases he; rfl

/-- **Reading takes a record where its octets take it**, and leaves the octets after
those. -/
theorem mergeFields_of_takes {r r' : Record fields} {bs : Bytes}
    (h : Takes name depth fields r bs r') (rest : Bytes) :
    mergeFields name depth rest.length fields r (bs ++ rest) = .ok (r', rest) := by
  induction h with
  | nil r => exact mergeFields_stop (Nat.le_refl _)
  | @field _ _ key payload bs _ _ _ _ hkey hpayload _ ih =>
    -- a key takes at least one octet, so the end has not been reached
    have hlt := length_lt_of_readKey (hkey (payload ++ (bs ++ rest)))
    simp only [List.append_assoc] at hlt ⊢
    rw [mergeFields_field (by simp at hlt ⊢; omega) (hkey _) (hpayload _)]
    exact ih

end Record

end OrderRelay
