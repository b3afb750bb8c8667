import OrderRelay.Proofs.Number.Proper

/-!
# Integer literals

An integer literal has neither a fraction nor an exponent, and is not the negative zero. The digits
of a literal are gathered as long as they stay within 64 bits, and nothing is made of an integer of
which some are left over. So a literal that is worth a whole number denotes just that number.

* `Literal.Denotes`: the integer that a literal denotes.
* `gather_cases`: either all digits are gathered, or their number is beyond 64 bits.
* `number_eq_whole_iff`: **which literals are worth a whole number.**
-/

namespace OrderRelay

namespace Literal

/-- **The integer that a literal denotes**, which must not be written with a fraction, with an
exponent or as the negative zero. -/
structure Denotes (l : Literal) (n : Int) : Prop where
  fraction : l.fraction = none
  exponent : l.exponent = none
  value : n = if l.negative then -(l.whole.value : Int) else l.whole.value
  not_zero : l.negative = true → l.whole.value ≠ 0

/-- A literal denotes one integer only. -/
theorem Denotes.unique {l : Literal} {n n' : Int} (h : l.Denotes n) (h' : l.Denotes n') : n = n' :=
  h.value.trans h'.value.symm

theorem denotes_ofInt (n : Int) : (ofInt n).Denotes n := by
  have hvalue : (ofInt n).whole.value = n.natAbs := Digits.value_ofNat n.natAbs
  refine ⟨rfl, rfl, ?_, fun hneg => ?_⟩
  · rw [hvalue]
    simp only [ofInt, decide_eq_true_eq]
    split <;> omega
  · have hlt : n < 0 := by simpa [ofInt] using hneg
    rw [hvalue]
    omega

/-- **Either all digits are gathered, or their number is beyond 64 bits** and some are left over. -/
theorem gather_cases (ds : Digits) {m : ℕ} (hm : m < limit64) :
    let n := ds.foldl (fun n d => 10 * n + d.val) m
    gather m ds = (n, []) ∧ n < limit64 ∨ (gather m ds).2 ≠ [] ∧ limit64 ≤ n := by
  intro n
  by_cases hn : n < limit64
  · exact .inl ⟨gather_eq hn, hn⟩
  · refine .inr ⟨?_, Nat.not_lt.1 hn⟩
    -- on the digits: the last one, at least, does not fit in any more
    induction ds generalizing m with
    | nil => exact absurd hm hn
    | cons d ds ih =>
      rw [gather]
      split
      · rename_i hlt
        exact ih hlt hn
      · exact List.cons_ne_nil d ds

theorem isWhole_iff {l : Literal} : l.isWhole = true ↔ l.fraction = none ∧ l.exponent = none := by
  simp [isWhole]

/-- **Which literals are worth a whole number**: those that denote one within 64 bits, and it is the
one that they denote. -/
theorem number_eq_whole_iff {l : Literal} {n : Int} :
    l.number = .ok (.whole n) ↔ l.Denotes n ∧ -(limit63 : Int) ≤ n ∧ n < limit64 := by
  have hlimits : limit63 < limit64 := by decide
  have hother : l.double.map Number.double ≠ .ok (.whole n) := by cases l.double <;> simp [Except.map]
  have hgather := gather_cases l.whole (m := 0) (by decide)
  change gather 0 l.whole = (l.whole.value, []) ∧ l.whole.value < limit64 ∨
    (gather 0 l.whole).2 ≠ [] ∧ limit64 ≤ l.whole.value at hgather
  unfold number
  rcases hgather with ⟨hall, hlt⟩ | ⟨hlost, hle⟩
  · simp only [hall, List.isEmpty_nil, Bool.and_true]
    cases hwhole : l.isWhole with
    | false =>
      simp only [Bool.false_and, Bool.false_eq_true, if_false, hother, false_iff]
      rintro ⟨h, -⟩
      rw [isWhole_iff.2 ⟨h.fraction, h.exponent⟩] at hwhole
      cases hwhole
    | true =>
      obtain ⟨hfraction, hexponent⟩ := isWhole_iff.1 hwhole
      have hdenotes : l.Denotes n ↔ n = (if l.negative then -(l.whole.value : Int)
          else l.whole.value) ∧ (l.negative = true → l.whole.value ≠ 0) :=
        ⟨fun h => ⟨h.value, h.not_zero⟩, fun h => ⟨hfraction, hexponent, h.1, h.2⟩⟩
      rw [hdenotes]
      cases l.negative with
      | false =>
        simp only [Bool.not_false, Bool.and_self, if_true, Except.ok.injEq, Number.whole.injEq,
          Bool.false_eq_true, if_false, false_implies, and_true]
        omega
      | true =>
        -- the negative zero, and what is too small, are doubles
        simp only [Bool.not_true, Bool.and_false, Bool.false_eq_true, if_false, Bool.true_and,
          Bool.and_eq_true, decide_eq_true_eq, if_true, true_implies]
        split
        · simp only [Except.ok.injEq, Number.whole.injEq]
          omega
        · simp only [hother, false_iff]
          omega
  · -- too large on either side
    have hinexact : (gather 0 l.whole).2.isEmpty = false := by simpa using hlost
    simp only [hinexact, Bool.and_false, Bool.false_and, Bool.false_eq_true, if_false, hother,
      false_iff]
    rintro ⟨h, hlow, hhigh⟩
    have hvalue := h.value
    split at hvalue <;> omega

end Literal

end OrderRelay
