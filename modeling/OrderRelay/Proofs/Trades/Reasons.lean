import OrderRelay.Proofs.Text.Boundaries
import OrderRelay.Trades.Frame

/-!
# Reasons of close frames

A close frame takes a reason of 123 octets at most. `cutText` goes over the characters of a longer one
from the front; one who goes back from the limit, octet by octet, comes to the same end.

* `length_encode_ofList`: the octets that characters take are those of their text.
* `cut_cutText`: **`cutText` keeps the longest start that fits**.
* `ServerFrame.closing_cut`: **what a close frame keeps of its reason**, and that the way back from the
  limit ends there within four looks.
-/

namespace OrderRelay

theorem length_encode_ofList (cs : List Char) :
    (Utf8.encode (String.ofList cs)).length = octetsOf cs := by
  induction cs with
  | nil => simp [Utf8.encode, octetsOf]
  | cons c cs ih =>
    rw [Utf8.length_encode_cons, ih]
    rfl

/-- **`cutText` keeps the longest start of a text that fits.** -/
theorem cut_cutText (room : ℕ) (s : String) : Utf8.Cut room s (cutText room s) := by
  obtain ⟨rest, hrest⟩ := cutChars_isPrefix room s.toList
  have hfits : (Utf8.encode (String.ofList (cutChars room s.toList))).length ≤ room := by
    rw [length_encode_ofList]
    exact octetsOf_cutChars_le room s.toList
  have hs : s = String.ofList (cutChars room s.toList ++ rest) := by
    rw [hrest, String.ofList_toList]
  unfold cutText
  cases rest with
  | nil =>
    rw [List.append_nil] at hs
    rw [← hs] at hfits ⊢
    exact .refl hfits
  | cons c rest =>
    have hbeyond := lt_octetsOf_of_cutChars hrest.symm
    rw [← length_encode_ofList] at hbeyond
    have hcut := @Utf8.Cut.before room (cutChars room s.toList) rest c hfits hbeyond
    rwa [← hs] at hcut

/-- **A close frame has the code and the longest start of the reason that fits into 123 octets and
ends with a character.** A reason of 123 octets or fewer is kept whole, and of a longer one at most
three octets more are left out than must be. Going back from the limit, octet by octet, to the nearest
boundary finds the same start within four looks, and never goes below zero. -/
theorem ServerFrame.closing_cut (code : ℕ) (reason : String) :
    ∃ kept, ServerFrame.closing code reason = .close code kept ∧
      Utf8.Cut 123 reason kept ∧
      ((Utf8.encode reason).length ≤ 123 → kept = reason) ∧
      (123 < (Utf8.encode reason).length → 120 ≤ (Utf8.encode kept).length) ∧
      (∀ looks, Utf8.Search.after (Utf8.encode reason) 123 looks ≠ .lost) ∧
      ∀ looks, 4 ≤ looks → Utf8.cutBack? looks 123 reason = some kept := by
  have hcut := cut_cutText 123 reason
  refine ⟨cutText 123 reason, rfl, hcut, hcut.eq_of_length_le, ?_, hcut.after_ne_lost, ?_⟩
  · intro hlong
    have := hcut.lt_length hlong
    omega
  · intro looks hlooks
    exact hcut.cutBack?_eq_some hlooks

/-- Characters of four octets leave as much of the limit unused as any can. -/
example : cutChars 123 (List.replicate 40 '😀') = List.replicate 30 '😀' := by decide

end OrderRelay
