import Mathlib.Tactic.Common
import OrderRelay.Front.Exchange
import OrderRelay.Proofs.Text.PercentForms

/-!
# Paths that name something

A path ends with an encoded form of what it names, perhaps with an action behind it.
The slashes and question marks of a path stand outside of the form, so the form is
found again as it was written.

* `path_eq`: the path of a target ends where its query begins.
* `ofPath?_order`, `ofPath?_orderBook`: a form leads to its route.
* `cancelTarget?_eq_some_iff`: **one action is taken off the end**, and nothing else.
-/

namespace OrderRelay

open Http

/-! ## The path of a target -/

/-- Nothing, or a question mark and what comes after it. -/
def IsQuery (query : Bytes) : Prop := query = [] ∨ ∃ rest, query = 0x3F :: rest

theorem takeWhile_ne_append {b : UInt8} {bs rest : Bytes} (h : b ∉ bs) :
    (bs ++ rest).takeWhile (· != b) = bs ++ rest.takeWhile (· != b) := by
  induction bs with
  | nil => rfl
  | cons c bs ih =>
    rw [List.mem_cons, not_or] at h
    have hc : (c != b) = true := bne_iff_ne.2 (Ne.symm h.1)
    rw [List.cons_append, List.takeWhile_cons, if_pos hc, ih h.2, List.cons_append]

/-- The path of a target ends where its query begins. -/
theorem path_eq {start rest query : Bytes} (hstart : start = 0x2F :: rest)
    (hquery : IsQuery query) (hmark : 0x3F ∉ start) (hsharp : 0x23 ∉ start) :
    Uri.path (start ++ query) = start := by
  have hpath : Uri.path (start ++ query) = Uri.withoutQuery (Uri.withoutFragment (start ++ query)) := by
    subst hstart
    rfl
  rw [hpath, Uri.withoutFragment, takeWhile_ne_append hsharp, Uri.withoutQuery,
    takeWhile_ne_append hmark]
  obtain rfl | ⟨rest, rfl⟩ := hquery
  · exact List.append_nil start
  · have hfirst : ((0x3F :: rest : Bytes).takeWhile (· != 0x23)).takeWhile (· != 0x3F) = [] := by
      rw [List.takeWhile_cons, if_pos (by decide), List.takeWhile_cons, if_neg (by decide)]
    rw [hfirst, List.append_nil]

/-! ## Routes -/

namespace Route

theorem isPrefixOf?_append_append {α : Type} [BEq α] [LawfulBEq α] (xs ys zs : List α) :
    (xs ++ ys).isPrefixOf? (xs ++ zs) = ys.isPrefixOf? zs := by
  induction xs with
  | nil => rfl
  | cons x xs ih =>
    rw [List.cons_append, List.cons_append, List.isPrefixOf?, if_pos (beq_self_eq_true x), ih]

theorem isPrefixOf?_append {α : Type} [BEq α] [LawfulBEq α] (xs ys : List α) :
    xs.isPrefixOf? (xs ++ ys) = some ys := by
  have h := isPrefixOf?_append_append xs [] ys
  rw [List.append_nil] at h
  rw [h]
  cases ys <;> rfl

/-- The last segment of a path is found behind what comes before it. -/
theorem segment?_append (start : String) {rest : Bytes} (hrest : rest ≠ []) (hslash : 0x2F ∉ rest) :
    segment? start (Utf8.encode start ++ rest) = some rest := by
  unfold segment?
  rw [isPrefixOf?_append]
  have hkeep : (!rest.isEmpty && !rest.contains 0x2F) = true := by simp [hrest, hslash]
  rw [Option.filter_some, if_pos hkeep]

/-- A path that is longer than those without a parameter has one. -/
theorem ofPath?_of_long {path : Bytes} (h : 10 < path.length) :
    ofPath? path = ((segment? "/v1/orders/" path).map .order).or
      (((segment? "/v1/orderbook/" path).map .orderBook).or
        ((segment? "/v1/trades/" path).map .trades)) := by
  have horders : path ≠ Utf8.encode "/v1/orders" := by
    rintro rfl
    exact absurd h (by decide)
  have hhealth : path ≠ Utf8.encode "/health" := by
    rintro rfl
    exact absurd h (by decide)
  rw [ofPath?, if_neg horders, if_neg hhealth]

theorem ofPath?_order {rest : Bytes} (hrest : rest ≠ []) (hslash : 0x2F ∉ rest) :
    ofPath? (Utf8.encode "/v1/orders/" ++ rest) = some (.order rest) := by
  have hlen : (Utf8.encode "/v1/orders/").length = 11 := by decide
  rw [ofPath?_of_long (by rw [List.length_append]; omega), segment?_append _ hrest hslash]
  rfl

theorem ofPath?_orderBook {rest : Bytes} (hrest : rest ≠ []) (hslash : 0x2F ∉ rest) :
    ofPath? (Utf8.encode "/v1/orderbook/" ++ rest) = some (.orderBook rest) := by
  have hlen : (Utf8.encode "/v1/orderbook/").length = 14 := by decide
  -- the two starts differ where one goes on with an `s` and the other with a `b`
  have horder : segment? "/v1/orders/" (Utf8.encode "/v1/orderbook/" ++ rest) = none := by
    have hstart : Utf8.encode "/v1/orders/" = Utf8.encode "/v1/order" ++ [0x73, 0x2F] := by
      decide
    have hpath : Utf8.encode "/v1/orderbook/" =
        Utf8.encode "/v1/order" ++ [0x62, 0x6F, 0x6F, 0x6B, 0x2F] := by decide
    unfold segment?
    rw [hstart, hpath, List.append_assoc, isPrefixOf?_append_append]
    rfl
  rw [ofPath?_of_long (by rw [List.length_append]; omega), horder, segment?_append _ hrest hslash]
  rfl

end Route

/-! ## Actions -/

/-- **One action is taken off the end**, and nothing else. -/
theorem cancelTarget?_eq_some_iff {ref s : String} :
    cancelTarget? ref = some s ↔ ref = s ++ ":cancel" := by
  have hsuffix : ":cancel".toList = cancelSuffix := rfl
  rw [cancelTarget?, Option.map_eq_some_iff]
  constructor
  · rintro ⟨rest, hrest, rfl⟩
    have hreverse := congrArg List.reverse (List.isPrefixOf?_eq_some_iff_append_eq.1 hrest)
    rw [List.reverse_append, List.reverse_reverse, List.reverse_reverse] at hreverse
    rw [← String.toList_inj, String.toList_append, String.toList_ofList, hsuffix, hreverse]
  · rintro rfl
    refine ⟨s.toList.reverse, ?_, by rw [List.reverse_reverse, String.ofList_toList]⟩
    rw [String.toList_append, List.reverse_append, hsuffix, Route.isPrefixOf?_append]

end OrderRelay
