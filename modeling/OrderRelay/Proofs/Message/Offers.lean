import OrderRelay.Proofs.Json.Layout
import OrderRelay.Proofs.Message.Entries
import OrderRelay.Proofs.Message.Rendering
import OrderRelay.Proofs.Number.Integers

/-!
# What a text offers for the members of a shape

A text offers values under names, if it is an object, or in their places, if it is an array. Either
way each slot is filled on its own by what is offered for its member, and a number that is offered
is written in the text.

* `Offers`: the values that a text offers for each member.
* `Offers.readText_eq_ok_iff`: **what is read is what is offered.**
* `Offers.exists_writes`: **a number that is offered is written in the text.**
* `Scalar.ofLexeme?_int32_iff`: which numbers are values of 32 bits.
-/

namespace OrderRelay

open Json

/-! ## Elements in the places of members -/

namespace Json

/-- What stands in one list has its counterpart in the other. -/
theorem exists_mem_of_forall₂ {α β : Type} {R : α → β → Prop} {as : List α} {bs : List β}
    (h : List.Forall₂ R as bs) {a : α} (ha : a ∈ as) : ∃ b ∈ bs, R a b := by
  obtain ⟨i, hi, rfl⟩ := List.getElem_of_mem ha
  have hi' : i < bs.length := h.length_eq ▸ hi
  exact ⟨bs[i], List.getElem_mem hi', h.get hi hi'⟩

/-- Elements in the places of members fill each slot on its own. -/
theorem fillsInOrder_iff {κ : Type} [Kinds κ] [Readable κ] [Spelled κ] {absence : Absence}
    {ms : List (Member κ)} {items : List (List Lexeme)} {given : Member κ → List (List Lexeme)}
    (h : List.Forall₂ (fun m ls => given m = [ls]) ms items) {slots : Slots ms} :
    FillsInOrder absence ms items slots ↔ FillsEach absence ms given slots := by
  induction h with
  | nil => exact ⟨fun _ => trivial, fun _ => rfl⟩
  | cons hls _ ih =>
    obtain ⟨slot, slots⟩ := slots
    simp only [FillsInOrder, FillsEach, hls, FillsSlot, true_and, ih]

end Json

/-! ## What is offered -/

/-- **What a text offers for the members of a shape**: the values of an object that go by one of
their names, or the values of an array in their places. -/
inductive Offers (s : Shape Scalar) (text : Bytes) (given : Member Scalar → List (List Lexeme)) :
    Prop where
  | object {es : List Entry} (hholds : Holds text es) (hnames : ∀ e ∈ es, e.1.isSome = true)
      (hgiven : ∀ m ∈ s.members, given m = m.given es)
  | array {items : List (List Lexeme)}
      (hlexemes : lexemes (tokens text) = .openArray :: elementLexemes true items)
      (hvalues : ∀ ls ∈ items, IsValue ls)
      (hgiven : List.Forall₂ (fun m ls => given m = [ls]) s.members items)

namespace Offers

variable {s : Shape Scalar} {text : Bytes} {given : Member Scalar → List (List Lexeme)}

theorem isValue (h : Offers s text given) : IsValue (lexemes (tokens text)) := by
  cases h with
  | object hholds => exact hholds.isValue
  | array hlexemes hvalues =>
    rw [hlexemes]
    exact isValue_array hvalues

/-- **What is read is what is offered.** -/
theorem readText_eq_ok_iff (h : Offers s text given) (hs : Apart s.members)
    {slots : Slots s.members} :
    s.readText text = .ok slots ↔ FillsEach s.absence s.members given slots := by
  cases h with
  | object hholds hnames hgiven =>
    rw [hholds.readText_eq_ok_iff hs]
    constructor
    · exact fun h => h.2.congr hgiven
    · exact fun h => ⟨hnames, h.congr fun m hm => (hgiven m hm).symm⟩
  | @array items hlexemes hvalues hgiven =>
    rw [Json.readText_eq_ok_iff, hlexemes, ← fillsInOrder_iff hgiven]
    constructor
    · intro hspells
      generalize hls : Lexeme.openArray :: elementLexemes true items = ls at hspells
      cases hspells with
      | object => cases hls
      | array hfills =>
        rw [List.cons.injEq] at hls
        rwa [elementLexemes_inj hvalues hfills.isValue hls.2]
    · exact SpellsShape.array

/-- A number that is offered stands in the text. -/
theorem mem_lexemes (h : Offers s text given) {m : Member Scalar} (hm : m ∈ s.members) {l : Literal}
    (hl : [.number l] ∈ given m) : .number l ∈ lexemes (tokens text) := by
  cases h with
  | object hholds hnames hgiven =>
    obtain ⟨members, hlexemes, rfl⟩ := hholds.exists_members hnames
    rw [hgiven m hm, given_map_of] at hl
    obtain ⟨ls, hls, hbares⟩ := List.mem_map.1 hl
    obtain ⟨e, he, rfl⟩ := List.mem_map.1 hls
    -- a number is told as it is written
    obtain ⟨k, ks, hk, hnumber, -⟩ := bares_eq_cons.1 hbares
    obtain rfl := Lexeme.eq_of_bare_eq hnumber (by simp)
    rw [hlexemes]
    refine List.mem_cons_of_mem _ (mem_memberLexemes (List.mem_filter.1 he).1 ?_)
    rw [hk]
    exact List.mem_cons_self
  | array hlexemes _ hgiven =>
    obtain ⟨ls, hls, hvalue⟩ := exists_mem_of_forall₂ hgiven hm
    rw [hvalue, List.mem_singleton] at hl
    rw [hlexemes]
    refine List.mem_cons_of_mem _ (mem_elementLexemes hls ?_)
    rw [← hl]
    exact List.mem_singleton_self _

end Offers

/-! ## Numbers as they are written -/

/-- **A number of a value is written in its text.** -/
theorem exists_writes {text : Bytes} (h : IsValue (lexemes (tokens text))) {l : Literal}
    (hl : .number l ∈ lexemes (tokens text)) :
    l.Proper ∧ ∃ w ∈ words text, Scan.Writes l w := by
  have hsays := says_words (separate_of_derives h).sound
  obtain ⟨w, hw, hsaid⟩ := exists_mem_of_forall₂ hsays.flip hl
  obtain ⟨b, body, rfl, hbegins, hspell⟩ := hsaid.scanned
  -- the word is scanned as the number also where it stands alone
  obtain ⟨l', hscan, hbare⟩ := hspell 0 [] fun _ _ => fun _ _ hnil => (nomatch hnil)
  obtain rfl := Lexeme.eq_of_bare_eq hbare (by simp [Lexeme.bare])
  rw [List.append_nil, Scan.token_eq_number hbegins] at hscan
  obtain ⟨hproper, written, rest, hwritten, hwrites, hlength⟩ := Scan.writes_of_number hscan
  have hpos := List.length_pos_iff.2 (hwrites.ne_nil hproper)
  have hrest : rest = [] := by
    have htotal := congrArg List.length hwritten
    rw [List.length_cons, List.length_append] at htotal
    exact List.length_eq_zero_iff.1 (by omega)
  rw [hrest, List.append_nil] at hwritten
  exact ⟨hproper, _, hw, hwritten ▸ hwrites⟩

/-! ## Values of 32 bits -/

theorem inInt32_iff {n : ℤ} : inInt32 n = true ↔ -2147483648 ≤ n ∧ n ≤ 2147483647 := by
  simp [inInt32]

/-- **Which numbers are values of 32 bits**: those that denote one. -/
theorem Scalar.ofLexeme?_int32_iff {l : Literal} {v : Int32} :
    Scalar.ofLexeme? .int32 (.number l) = some v ↔ l.Denotes v.toInt := by
  constructor
  · intro h
    simp only [Scalar.ofLexeme?] at h
    split at h
    · rename_i n hnumber
      split at h
      · rename_i hin
        obtain ⟨hlow, hhigh⟩ := inInt32_iff.1 hin
        obtain rfl : Int32.ofInt n = v := Option.some.inj h
        rw [Int32.toInt_ofInt_of_le (by omega) (by omega)]
        exact (Literal.number_eq_whole_iff.1 hnumber).1
      · cases h
    · cases h
  · intro h
    -- 32 bits are within 64
    obtain ⟨hlow, hhigh⟩ := bounds_toInt v
    have hnumber : l.number = .ok (.whole v.toInt) := by
      refine Literal.number_eq_whole_iff.2 ⟨h, ?_, ?_⟩ <;>
        simp only [Literal.limit63, Literal.limit64] <;> omega
    simp only [Scalar.ofLexeme?, hnumber]
    rw [if_pos (inInt32_iff.2 ⟨hlow, hhigh⟩), Int32.ofInt_toInt]

end OrderRelay
