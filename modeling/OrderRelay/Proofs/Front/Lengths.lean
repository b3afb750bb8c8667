import Mathlib.Algebra.Group.Nat.Defs
import OrderRelay.Proofs.Front.Shape
import OrderRelay.Proofs.Json.Texts
import OrderRelay.Proofs.Text.Escapes

/-!
# Lengths of what a request gives

A text that a path or a body gives is no longer than the path or the body, so its length
is far from what 64 bits can count.

* `length_le_of_decodeText?`: a decoded text is no longer than its form.
* `Route.length_parameter`: the parameter of a path is hardly longer than the target.
* `lt_of_path`, `lt_of_body`: **texts of a path and of a body are short.**
-/

namespace OrderRelay

open Http Json

/-! ## Paths -/

/-- A decoded text is no longer than its form. -/
theorem length_le_of_decodeText? {octets : Bytes} {s : String}
    (h : Percent.decodeText? octets = some s) : (Utf8.encode s).length ≤ octets.length := by
  rw [← Utf8.eq_encode_of_decode? h]
  exact Percent.length_decode_le octets

theorem length_le_of_segment? {start : String} {path rest : Bytes}
    (h : Route.segment? start path = some rest) : rest.length ≤ path.length := by
  obtain ⟨hrest, -⟩ := Option.filter_eq_some_iff.1 h
  have hpath := List.isPrefixOf?_eq_some_iff_append_eq.1 hrest
  rw [← hpath, List.length_append]
  omega

/-- What a route takes from its path. -/
def Route.parameter : Route → Bytes
  | .order octets | .orderBook octets | .trades octets => octets
  | .orders | .health => []

theorem Route.length_parameter {path : Bytes} {route : Route} (h : ofPath? path = some route) :
    route.parameter.length ≤ path.length := by
  unfold ofPath? at h
  split at h
  · cases h
    exact Nat.zero_le _
  · split at h
    · cases h
      exact Nat.zero_le _
    · simp only [Option.or_eq_some_iff, Option.map_eq_some_iff] at h
      rcases h with ⟨octets, h, rfl⟩ | ⟨-, ⟨octets, h, rfl⟩ | ⟨-, octets, h, rfl⟩⟩ <;>
        exact length_le_of_segment? h

theorem length_withoutQuery_le (bs : Bytes) :
    (Uri.withoutQuery (Uri.withoutFragment bs)).length ≤ bs.length :=
  Nat.le_trans (List.takeWhile_sublist _).length_le (List.takeWhile_sublist _).length_le

theorem length_afterScheme?_le {bs rest : Bytes} (h : Uri.afterScheme? bs = some rest) :
    rest.length ≤ bs.length := by
  unfold Uri.afterScheme? at h
  simp only at h
  split at h
  · rename_i hdrop
    split at h
    · cases h
      have hle := (List.dropWhile_sublist (fun b => b != 0x3A && !Uri.endsAuthority b)
        (l := bs)).length_le
      rw [hdrop] at hle
      simp only [List.length_cons] at hle
      omega
    · cases h
  · cases h

/-- The path of a target is hardly longer than the target. -/
theorem length_path_le (target : Bytes) : (Uri.path target).length ≤ target.length + 1 := by
  unfold Uri.path
  split
  · exact Nat.le_succ_of_le (length_withoutQuery_le _)
  · split
    · split
      · exact Nat.le_succ _
      · exact Nat.zero_le _
    · rename_i rest hscheme
      split
      · exact Nat.succ_le_succ (Nat.zero_le _)
      · have hpath := length_withoutQuery_le (rest.dropWhile (!Uri.endsAuthority ·))
        have hdrop := (List.dropWhile_sublist (fun b => !Uri.endsAuthority b)
          (l := rest)).length_le
        have hscheme := length_afterScheme?_le hscheme
        omega

namespace Front

variable {f : Front} {upload : Upload} {r : Request}

/-- **A text of a path is short.** -/
theorem lt_of_path (htarget : r.target.length ≤ Uri.maxLength) {route : Route}
    (hroute : routeOf r = some route) {s t : String}
    (h : Percent.decodeText? route.parameter = some (s ++ t)) : s.utf8ByteSize < 2 ^ 64 := by
  have hdecode := length_le_of_decodeText? h
  have hparameter := Route.length_parameter hroute
  have hpath := length_path_le r.target
  have hmax : Uri.maxLength + 1 < 2 ^ 64 := by decide
  have hsize : s.utf8ByteSize = (Utf8.encode s).length := rfl
  rw [Utf8.encode_append, List.length_append] at hdecode
  omega

/-- **A text of a body is short.** -/
theorem lt_of_body {body : Bytes} (hbody : f.Takes upload r body) {t : String}
    (h : .text (.ok t) ∈ lexemes (tokens body)) : t.utf8ByteSize < 2 ^ 64 := by
  -- a body is never longer than the largest one that is taken in
  have htext := length_le_of_mem_tokens h
  have hcap : bodyCap f.maxBodySize r.declaredLength? ≤ largestBody := Nat.min_le_right _ _
  have hlargest : largestBody < 2 ^ 64 := by decide
  have hbody := hbody.1
  have hsize : t.utf8ByteSize = (Utf8.encode t).length := rfl
  rw [List.length_drop] at htext
  omega

end Front

end OrderRelay
