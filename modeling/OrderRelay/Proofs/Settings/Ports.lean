import Mathlib.Tactic.Common
import OrderRelay.Settings.Load

/-!
# Ports from the environment

A port that is set in the environment is a text: decimal digits, with any number of zeros and one
plus sign in front, and blanks around all of it.

* `trimBlanks_append`: what is left of a text without the blanks at its ends.
* `SpellsPort`: the texts that spell a port.
* `portOfText?_eq_some_iff`: **those are the texts that are read as one.**
-/

namespace OrderRelay

/-! ## Blanks at the ends -/

/-- Without blanks in front, a text is what it was up to them. -/
theorem exists_dropWhile_blanks (cs : List Char) :
    ∃ before, cs = before ++ cs.dropWhile isBlankChar ∧ ∀ c ∈ before, isBlankChar c = true :=
  ⟨cs.takeWhile isBlankChar, List.takeWhile_append_dropWhile.symm,
    List.all_eq_true.1 List.all_takeWhile⟩

theorem toList_trimBlanks (s : String) : (trimBlanks s).toList =
    ((s.toList.dropWhile isBlankChar).reverse.dropWhile isBlankChar).reverse := by
  rw [trimBlanks, String.toList_ofList]

/-- The blanks at the ends of a text come off. -/
theorem exists_trimBlanks (s : String) : ∃ before after,
    s.toList = before ++ (trimBlanks s).toList ++ after ∧ (∀ c ∈ before, isBlankChar c = true) ∧
      ∀ c ∈ after, isBlankChar c = true := by
  obtain ⟨before, hbefore, hblank⟩ := exists_dropWhile_blanks s.toList
  obtain ⟨after, hafter, hblank'⟩ :=
    exists_dropWhile_blanks (s.toList.dropWhile isBlankChar).reverse
  refine ⟨before, after.reverse, ?_, hblank, fun c hc => hblank' c (List.mem_reverse.1 hc)⟩
  have hmiddle := congrArg List.reverse hafter
  rw [List.reverse_reverse, List.reverse_append] at hmiddle
  rw [toList_trimBlanks, List.append_assoc, ← hmiddle]
  exact hbefore

theorem dropWhile_blanks_append {before cs : List Char} (h : ∀ c ∈ before, isBlankChar c = true)
    (hcs : ∀ c ∈ cs.head?, isBlankChar c = false) : (before ++ cs).dropWhile isBlankChar = cs := by
  rw [List.dropWhile_append_of_pos h]
  cases cs with
  | nil => rfl
  | cons c cs => exact List.dropWhile_cons_of_neg (by simpa using hcs)

/-- Nothing else comes off. -/
theorem trimBlanks_append {s : String} {before core after : List Char}
    (hs : s.toList = before ++ core ++ after) (hbefore : ∀ c ∈ before, isBlankChar c = true)
    (hafter : ∀ c ∈ after, isBlankChar c = true) (hne : core ≠ [])
    (hfirst : ∀ c ∈ core.head?, isBlankChar c = false)
    (hlast : ∀ c ∈ core.getLast?, isBlankChar c = false) : (trimBlanks s).toList = core := by
  have hfront : ∀ c ∈ (core ++ after).head?, isBlankChar c = false := by
    cases core with
    | nil => exact absurd rfl hne
    | cons c cs => simpa using hfirst
  have hback : (after.reverse ++ core.reverse).dropWhile isBlankChar = core.reverse :=
    dropWhile_blanks_append (fun c hc => hafter c (List.mem_reverse.1 hc))
      (by simpa [List.head?_reverse] using hlast)
  rw [toList_trimBlanks, hs, List.append_assoc, dropWhile_blanks_append hbefore hfront,
    List.reverse_append, hback, List.reverse_reverse]

/-! ## Digits -/

namespace Digits

theorem ofChar?_digitChar (d : Fin 10) : ofChar? (Nat.digitChar d.val) = some d := by
  revert d
  decide

theorem digitChar_of_ofChar? {c : Char} {d : Fin 10} (h : ofChar? c = some d) :
    Nat.digitChar d.val = c := by
  unfold ofChar? at h
  split at h
  case isFalse => cases h
  case isTrue hrange =>
    cases h
    have hlow : 48 ≤ c.toNat := hrange.1
    have hhigh : c.toNat ≤ 57 := hrange.2
    have hvalue : (last (c.toNat - '0'.toNat)).val = c.toNat - 48 :=
      Nat.mod_eq_of_lt (show c.toNat - 48 < 10 by omega)
    rw [hvalue]
    apply Char.toNat_inj.1
    rw [Nat.toNat_digitChar_of_lt_ten (by omega)]
    omega

/-- The digits of a text are those that it shows. -/
theorem mapM_ofChar?_eq_some_iff {cs : List Char} {ds : Digits} :
    cs.mapM ofChar? = some ds ↔ cs = ds.chars := by
  induction cs generalizing ds with
  | nil => cases ds <;> simp [chars]
  | cons c cs ih =>
    simp only [List.mapM_cons, Option.bind_eq_bind, Option.bind_eq_some_iff, Option.pure_def,
      Option.some.injEq]
    constructor
    · rintro ⟨d, hd, ds, hds, rfl⟩
      rw [chars, List.map_cons, digitChar_of_ofChar? hd]
      exact congrArg (c :: ·) (ih.1 hds)
    · cases ds with
      | nil => exact fun h => nomatch h
      | cons d ds =>
        intro h
        obtain ⟨rfl, hcs⟩ := List.cons_eq_cons.1 h
        exact ⟨d, ofChar?_digitChar d, ds, ih.2 hcs, rfl⟩

theorem digitChar_ne_plus : ∀ d : Fin 10, Nat.digitChar d.val ≠ '+' := by decide

theorem isBlankChar_digitChar : ∀ d : Fin 10, isBlankChar (Nat.digitChar d.val) = false := by decide

/-- The digits of a text after a plus sign that may be left out. -/
theorem ofSignedText?_eq_some_iff {s : String} {ds : Digits} : ofSignedText? s = some ds ↔
    ds ≠ [] ∧ (s.toList = ds.chars ∨ s.toList = '+' :: ds.chars) := by
  have hplus : ∀ cs, ds.chars ≠ '+' :: cs := by
    intro cs hcs
    cases ds with
    | nil => cases hcs
    | cons d ds => exact digitChar_ne_plus d (List.cons_eq_cons.1 hcs).1
  have hnil : ds.chars = [] ↔ ds = [] := List.map_eq_nil_iff
  unfold ofSignedText? ofText?
  split
  case h_1 cs hcs =>
    rw [hcs]
    have hnot : '+' :: cs ≠ ds.chars := fun h => hplus cs h.symm
    by_cases hempty : cs = []
    · subst hempty
      simp [hnot, hnil]
    · rw [if_neg (by simpa using hempty), mapM_ofChar?_eq_some_iff]
      simp only [hnot, false_or, List.cons_eq_cons, true_and]
      refine ⟨fun h => ⟨fun hds => hempty (h.trans (hnil.2 hds)), h⟩, And.right⟩
  case h_2 hcs =>
    have hnot : s.toList ≠ '+' :: ds.chars := hcs ds.chars
    simp only [hnot, or_false]
    split
    case h_1 hempty => simp [hempty, hnil]
    case h_2 hne =>
      rw [mapM_ofChar?_eq_some_iff]
      exact ⟨fun h => ⟨fun hds => hne (h.trans (hnil.2 hds)), h⟩, And.right⟩

end Digits

/-! ## Ports -/

/-- **A text spells a port** with its digits, after zeros and a plus sign that may be left out, between
blanks. -/
def SpellsPort (text : String) (port : UInt16) : Prop :=
  ∃ (before sign after : List Char) (ds : Digits), text.toList = before ++ (sign ++ ds.chars) ++ after ∧
    (∀ c ∈ before, isBlankChar c = true) ∧ (∀ c ∈ after, isBlankChar c = true) ∧
    (sign = [] ∨ sign = ['+']) ∧ ds ≠ [] ∧ ds.value = port.toNat

theorem portOfText?_iff {text : String} {port : UInt16} : portOfText? text = some port ↔
    ∃ ds, Digits.ofSignedText? text = some ds ∧ ds.value = port.toNat := by
  unfold portOfText?
  rw [Option.bind_eq_bind, Option.bind_eq_some_iff]
  refine exists_congr fun ds => and_congr_right fun _ => ?_
  by_cases hle : ds.value ≤ 65535
  · simp only [if_pos hle, Option.pure_def, Option.some.injEq]
    rw [← UInt16.toNat_inj, UInt16.toNat_ofNat_of_lt' (Nat.lt_succ_of_le hle)]
  · simp only [if_neg hle]
    have hport := port.toNat_lt
    exact iff_of_false (by simp) (by omega)

/-- **What is read as a port is what spells it.** -/
theorem portOfText?_eq_some_iff {text : String} {port : UInt16} :
    portOfText? (trimBlanks text) = some port ↔ SpellsPort text port := by
  rw [portOfText?_iff]
  constructor
  · rintro ⟨ds, hds, hvalue⟩
    obtain ⟨hne, hshown⟩ := Digits.ofSignedText?_eq_some_iff.1 hds
    obtain ⟨before, after, htext, hbefore, hafter⟩ := exists_trimBlanks text
    rcases hshown with hshown | hshown <;> rw [hshown] at htext
    · exact ⟨before, [], after, ds, htext, hbefore, hafter, .inl rfl, hne, hvalue⟩
    · exact ⟨before, ['+'], after, ds, htext, hbefore, hafter, .inr rfl, hne, hvalue⟩
  · rintro ⟨before, sign, after, ds, htext, hbefore, hafter, hsign, hne, hvalue⟩
    have hshown : ∀ c ∈ sign ++ ds.chars, isBlankChar c = false := by
      intro c hc
      rcases List.mem_append.1 hc with hc | hc
      · rcases hsign with rfl | rfl
        · cases hc
        · obtain rfl := List.mem_singleton.1 hc
          decide
      · obtain ⟨d, -, rfl⟩ := List.mem_map.1 hc
        exact Digits.isBlankChar_digitChar d
    have htrim := trimBlanks_append htext hbefore hafter (by simp [Digits.chars, hne])
      (fun c hc => hshown c (List.mem_of_head? hc)) fun c hc => hshown c (List.mem_of_getLast? hc)
    refine ⟨ds, Digits.ofSignedText?_eq_some_iff.2 ⟨hne, ?_⟩, hvalue⟩
    rcases hsign with rfl | rfl
    · exact .inl htrim
    · exact .inr htrim

example : portOfText? (trimBlanks " +050051\n") = some 50051 := by decide

end OrderRelay
