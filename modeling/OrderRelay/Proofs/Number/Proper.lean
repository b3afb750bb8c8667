import Mathlib.Tactic.Common
import OrderRelay.Number.Layout

/-!
# Proper literals

JSON wants digits before the point, behind it and behind the exponent, and no needless
zero in front. Every number that is written here is written like this.

* `Literal.Proper`: the literals of JSON.
* `number_ofInt`: a whole number within 64 bits is worth itself.
* `Double.proper_literal`: **every double is written as a proper literal.**
-/

namespace OrderRelay

/-! ## Digits of numbers -/

namespace Digits

/-- The first digit of a number is not zero, unless the number is. -/
theorem exists_ofNatOnto {fuel n : ℕ} (acc : Digits) (h : n < fuel) (hn : n ≠ 0) :
    ∃ d more, ofNatOnto fuel n acc = d :: more ∧ d.val ≠ 0 := by
  induction fuel generalizing n acc with
  | zero => omega
  | succ fuel ih =>
    rw [ofNatOnto]
    by_cases hsmall : n < 10
    · rw [if_pos hsmall]
      have hlast : (last n).val = n % 10 := rfl
      exact ⟨last n, acc, rfl, by omega⟩
    · rw [if_neg hsmall]
      exact ih _ (by omega) (by omega)

theorem exists_ofNat {n : ℕ} (hn : n ≠ 0) : ∃ d more, ofNat n = d :: more ∧ d.val ≠ 0 :=
  exists_ofNatOnto [] (Nat.lt_succ_self n) hn

theorem ofNat_ne_nil (n : ℕ) : ofNat n ≠ [] := by
  by_cases hn : n = 0
  · subst hn
    decide
  · obtain ⟨d, more, h, -⟩ := exists_ofNat hn
    rw [h]
    exact List.cons_ne_nil d more

theorem le_foldl (ds : Digits) (m : ℕ) : m ≤ ds.foldl (fun n d => 10 * n + d.val) m := by
  induction ds generalizing m with
  | nil => exact Nat.le_refl m
  | cons d ds ih =>
    have h := ih (10 * m + d.val)
    rw [List.foldl_cons]
    omega

end Digits

namespace Literal

/-- **The literals of JSON.** -/
structure Proper (l : Literal) : Prop where
  whole : l.whole ≠ []
  /-- A zero in front stands alone. -/
  leading : ∀ d more, l.whole = d :: more → d.val = 0 → more = []
  fraction : ∀ ds, l.fraction = some ds → ds ≠ []
  exponent : ∀ e, l.exponent = some e → e.digits ≠ []

/-! ## Whole numbers -/

theorem proper_ofInt (n : Int) : (ofInt n).Proper := by
  refine ⟨Digits.ofNat_ne_nil _, ?_, fun ds h => (nomatch h), fun e h => (nomatch h)⟩
  intro d more h hd
  -- only the number zero begins with a zero
  by_cases hn : n.natAbs = 0
  · have hzero : (ofInt n).whole = [0] := by
      unfold ofInt
      rw [hn]
      rfl
    rw [hzero] at h
    cases h
    rfl
  · obtain ⟨d', more', h', hd'⟩ := Digits.exists_ofNat hn
    have hsame : d :: more = d' :: more' := h.symm.trans h'
    cases hsame
    exact absurd hd hd'

/-- Digits that stay within 64 bits are all gathered. -/
theorem gather_eq {ds : Digits} {m : ℕ}
    (h : ds.foldl (fun n d => 10 * n + d.val) m < limit64) :
    gather m ds = (ds.foldl (fun n d => 10 * n + d.val) m, []) := by
  induction ds generalizing m with
  | nil => rfl
  | cons d ds ih =>
    rw [List.foldl_cons] at h ⊢
    have hle := Digits.le_foldl ds (10 * m + d.val)
    rw [gather, if_pos (by omega), ih h]

/-- A whole number within 64 bits is worth itself. -/
theorem number_ofInt {n : Int} (hlow : -(limit63 : Int) ≤ n) (hhigh : n < limit64) :
    (ofInt n).number = .ok (.whole n) := by
  have hlimits : limit63 < limit64 := by decide
  have hgather : gather 0 (ofInt n).whole = (n.natAbs, []) := by
    have hdigits : (Digits.ofNat n.natAbs).foldl (fun n d => 10 * n + d.val) 0 = n.natAbs :=
      Digits.value_ofNat n.natAbs
    have hlt : (Digits.ofNat n.natAbs).foldl (fun n d => 10 * n + d.val) 0 < limit64 := by omega
    rw [← hdigits]
    exact gather_eq hlt
  by_cases hneg : n < 0
  · have hpos : 0 < n.natAbs := by omega
    have hle : n.natAbs ≤ limit63 := by omega
    have hback : -(n.natAbs : Int) = n := by omega
    have hvalue : number (ofInt n) = .ok (.whole (-(n.natAbs : Int))) := by
      unfold number
      rw [hgather]
      simp [ofInt, isWhole, hneg, hpos, hle]
    rw [hvalue, hback]
  · have hback : (n.natAbs : Int) = n := by omega
    have hvalue : number (ofInt n) = .ok (.whole (n.natAbs : Int)) := by
      unfold number
      rw [hgather]
      simp [ofInt, isWhole, hneg]
    rw [hvalue, hback]

end Literal

/-! ## Doubles -/

namespace Double

theorem significand_pos {d : Double} (h : d.isZero = false) : 0 < d.significand := by
  have hmagnitude : d.magnitude ≠ 0 := by simpa [isZero] using h
  have hhidden : 0 < hiddenBit := by decide
  unfold significand
  simp only
  split <;> omega

theorem shiftUp_pos {n : ℕ} (h : 0 < n) (k : Int) : 0 < shiftUp n k :=
  Nat.mul_pos h (Nat.pow_pos (by decide))

end Double

namespace Shortest

theorem interval_low_pos {d : Double} (h : d.isZero = false) : 0 < (interval d).low := by
  have hpos := Double.significand_pos h
  refine Double.shiftUp_pos ?_ _
  split <;> omega

/-- Zero is below every interval. -/
theorem Interval.not_holds_zero {i : Interval} (hlow : 0 < i.low) (k : Int) :
    i.holds 0 k = false := by
  have hunit : 0 < i.low * Nat.pow 10 (-k).toNat := Nat.mul_pos hlow (Nat.pow_pos (by decide))
  unfold holds
  simp only [Nat.zero_mul]
  generalize i.low * Nat.pow 10 (-k).toNat = low at hunit ⊢
  split
  · simp only [Bool.and_eq_false_iff, decide_eq_false_iff_not]
    omega
  · simp

theorem Interval.near?_digits {i : Interval} (hlow : 0 < i.low) {point : Int} {n : ℕ} {d : Decimal}
    (h : i.near? point n = some d) : d.digits ≠ 0 := by
  have hzero := Interval.not_holds_zero hlow (point - n)
  simp only [near?] at h
  generalize i.mid * Nat.pow 10 (-(point - (n : Int))).toNat /
    (i.den * Nat.pow 10 (point - (n : Int)).toNat) = c at h
  -- what is taken lies in the interval, or is one above something
  have hc : i.holds c (point - n) = true → c ≠ 0 := by
    rintro hc rfl
    rw [hzero] at hc
    cases hc
  split at h
  · rename_i hboth
    rw [Bool.and_eq_true] at hboth
    cases h
    simp only
    split
    · exact hc hboth.1
    · exact Nat.succ_ne_zero c
  · split at h
    · rename_i hfits
      cases h
      exact hc hfits
    · split at h
      · cases h
        exact Nat.succ_ne_zero c
      · cases h

/-- Digits that are all zero come with a scale that asks for an exponent. -/
def Telling (d : Decimal) : Prop := d.digits ≠ 0 ∨ 17 ≤ d.scale

theorem Interval.search_telling {i : Interval} (hlow : 0 < i.low) (point : Int) (fuel n : ℕ)
    (h : 17 ≤ fuel + n) : Telling (i.search point fuel n) := by
  -- on the fuel: without any left, the digits stand so far to the right that the scale tells
  induction fuel generalizing n with
  | zero =>
    refine .inr ?_
    simp only [search]
    omega
  | succ fuel ih =>
    rw [search]
    split
    · rename_i d hnear
      exact .inl (Interval.near?_digits hlow hnear)
    · exact ih (n + 1) (by omega)

theorem trim_telling {n : ℕ} {d : Decimal} (h : Telling d) : Telling (d.trim n) := by
  induction n generalizing d with
  | zero => exact h
  | succ n ih =>
    rw [Decimal.trim]
    split
    · refine ih ?_
      rcases h with h | h
      · refine .inl ?_
        simp only
        omega
      · refine .inr ?_
        simp only
        omega
    · exact h

end Shortest

namespace Double

theorem shortest_telling {d : Double} (h : d.isZero = false) : Shortest.Telling d.shortest :=
  Shortest.trim_telling
    (Shortest.Interval.search_telling (Shortest.interval_low_pos h) _ 17 1 (by decide))

theorem proper_writtenOut {ds : Digits} {first : Fin 10} {more : Digits} (hds : ds = first :: more)
    (hfirst : first.val ≠ 0) (point : Int) : (writtenOut ds point).Proper := by
  subst hds
  unfold writtenOut
  by_cases hpoint : point ≤ 0
  · rw [if_pos hpoint]
    refine ⟨List.cons_ne_nil _ _, ?_, ?_, fun e h => (nomatch h)⟩
    · intro d more' h _
      cases h
      rfl
    · intro ds h
      cases h
      simp
  · rw [if_neg hpoint]
    obtain ⟨n, hn⟩ : ∃ n, point.toNat = n + 1 := ⟨point.toNat - 1, by omega⟩
    rw [hn, List.take_succ_cons]
    refine ⟨by simp, ?_, ?_, fun e h => (nomatch h)⟩
    · intro d more' h hd
      cases h
      exact absurd hd hfirst
    · intro ds h
      cases h
      split
      · decide
      · rename_i hrest
        simpa using hrest

theorem proper_withExponent {ds : Digits} (hds : ds ≠ []) (point : Int) :
    (withExponent ds point).Proper := by
  obtain ⟨first, more, rfl⟩ := List.exists_cons_of_ne_nil hds
  refine ⟨by simp [withExponent], ?_, ?_, ?_⟩
  · intro d more' h _
    cases h
    rfl
  · intro ds h
    simp only [withExponent, List.drop_succ_cons, List.drop_zero] at h
    split at h
    · cases h
    · rename_i hmore
      cases h
      simpa using hmore
  · intro e h
    cases h
    exact Digits.ofNat_ne_nil _

/-- **Every double is written as a proper literal.** -/
theorem proper_literal (d : Double) : (d.literal .wire).Proper := by
  have hsign : ∀ l : Literal, l.Proper → ({ l with negative := d.isNegative } : Literal).Proper :=
    fun l h => ⟨h.whole, h.leading, h.fraction, h.exponent⟩
  unfold literal
  refine hsign _ ?_
  cases hzero : d.isZero with
  | true =>
    rw [if_pos rfl]
    refine ⟨by decide, ?_, ?_, fun e h => (nomatch h)⟩
    · intro first more h _
      cases h
      rfl
    · intro ds h
      cases h
      decide
  | false =>
    rw [if_neg (by decide)]
    simp only
    split
    · rename_i hout
      rcases shortest_telling hzero with h | h
      · obtain ⟨first, more, hds, hfirst⟩ := Digits.exists_ofNat h
        exact proper_writtenOut hds hfirst _
      · -- so large a scale is not written out
        have hne := List.length_pos_iff.2 (Digits.ofNat_ne_nil d.shortest.digits)
        simp only [Layout.writesOut, Layout.wire, Option.all_some, Bool.and_eq_true,
          decide_eq_true_eq] at hout
        omega
    · exact proper_withExponent (Digits.ofNat_ne_nil _) _

end Double

end OrderRelay
