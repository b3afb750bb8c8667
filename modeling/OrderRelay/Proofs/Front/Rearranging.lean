import Mathlib
import OrderRelay.Proofs.Front.Bodies
import OrderRelay.Proofs.Json.Layout

/-!
# Writing a body otherwise

White space, the order of the members and members of other names change nothing of what a body says,
and neither does a null where nothing was said.

* `Rearranged`: the ways to write a body otherwise.
* `BodyKind.told_by_known_members`: **the request of a body is told by the values of its known
  members.**
-/

namespace OrderRelay

open Json

/-- **The ways to write a body otherwise** so that its known members say the same. -/
inductive Rearranged (ms : List (Member Scalar)) : Bytes → Bytes → Prop where
  /-- The same words with other white space. -/
  | respaced {text text' : Bytes} {es : List Entry} (h : Holds text es)
      (h' : Laid (words text) text') : Rearranged ms text text'
  /-- The same members in another order. -/
  | reordered {text text' : Bytes} {es es' : List Entry} (h : Holds text es) (h' : Holds text' es')
      (hperm : es.Perm es') : Rearranged ms text text'
  /-- One more member, of a name that is not known, with any value. -/
  | extended {text text' : Bytes} {before after : List Entry} {name : String} {value : List Lexeme}
      (hname : ∀ m ∈ ms, name ∉ m.names) (h : Holds text (before ++ after))
      (h' : Holds text' (before ++ (some name, value) :: after)) : Rearranged ms text text'
  /-- A known member that was left out is null. -/
  | nullified {text text' : Bytes} {before after : List Entry} {m : Member Scalar} {name : String}
      (hm : m ∈ ms) (hname : name ∈ m.names) (hnone : m.given (before ++ after) = [])
      (h : Holds text (before ++ after))
      (h' : Holds text' (before ++ (some name, [.null]) :: after)) : Rearranged ms text text'

/-- **However a body is rearranged**, its known members say the same. -/
theorem Rearranged.exists_sayAlike {ms : List (Member Scalar)} (hms : Apart ms) {text text' : Bytes}
    (h : Rearranged ms text text') :
    ∃ es es', Holds text es ∧ Holds text' es' ∧ SayAlike ms es es' := by
  cases h with
  | @respaced es h hlaid =>
    have h' : Holds text' es := ⟨(outline_of_laid h.isValue hlaid).trans h.outline, h.values⟩
    exact ⟨es, es, h, h', sayAlike_of_perm ms (.refl es)⟩
  | reordered h h' hperm => exact ⟨_, _, h, h', sayAlike_of_perm ms hperm⟩
  | extended hname h h' =>
    exact ⟨_, _, h, h', sayAlike_insert fun m hm hknown => absurd hknown (hname m hm)⟩
  | nullified hm hname hnone h h' =>
    refine ⟨_, _, h, h', sayAlike_insert fun m' hm' hname' => ⟨rfl, ?_⟩⟩
    -- no other member goes by the name
    rw [← hms.eq_of_mem hm hm' hname hname']
    exact hnone

namespace BodyKind

/-- **The request of a body is told by the values of its known members**: by what each of them
amounts to, in whichever order and with whatever else and whatever white space; and a value that is
given twice, by the same name or by two, is refused. -/
theorem told_by_known_members (b : BodyKind) :
    (∀ text text' es es', Holds text es → Holds text' es' → SayAlike b.shape.members es es' →
      b.request? text' = b.request? text) ∧
    (∀ text text', Rearranged b.shape.members text text' → b.request? text' = b.request? text) ∧
    (∀ text es, Holds text es → (∃ m ∈ b.shape.members, 2 ≤ (m.given es).length) →
      b.request? text = none) := by
  refine ⟨fun _ _ _ _ h h' hsame => b.request?_of_sayAlike h h' hsame, fun _ _ h => ?_, ?_⟩
  · obtain ⟨es, es', h, h', hsame⟩ := h.exists_sayAlike b.apart_members
    exact b.request?_of_sayAlike h h' hsame
  · rintro text es h ⟨m, hm, htwice⟩
    exact b.request?_of_twice h hm htwice

/-- A cancel with white space in it, and one that names its client twice. -/
theorem told_by_known_members_cancel :
    (cancel "A1").request? (Utf8.encode "\x7b \"clientId\" :\n\"c\"\x7d ") =
        some (.order .cancelOrder ⟨"A1", "c"⟩) ∧
      (cancel "A1").request? (Utf8.encode "\x7b\"clientId\":\"c\",\"client_id\":null\x7d") =
        none := by
  have hholds : Holds (Utf8.encode "\x7b\"clientId\":\"c\"\x7d")
      [(some "clientId", [.text (.ok "c")])] :=
    ⟨by cbv, List.forall_mem_singleton.2 (.word rfl)⟩
  have htwice : Holds (Utf8.encode "\x7b\"clientId\":\"c\",\"client_id\":null\x7d")
      [(some "clientId", [.text (.ok "c")]), (some "client_id", [.null])] :=
    ⟨by cbv, List.forall_mem_cons.2 ⟨.word rfl, List.forall_mem_singleton.2 (.word rfl)⟩⟩
  have hlaid : Laid (words (Utf8.encode "\x7b\"clientId\":\"c\"\x7d"))
      (Utf8.encode "\x7b \"clientId\" :\n\"c\"\x7d ") := by
    have hwords : words (Utf8.encode "\x7b\"clientId\":\"c\"\x7d") =
        ["\x7b", "\"clientId\"", ":", "\"c\"", "\x7d"].map Utf8.encode := by cbv
    have htext : Utf8.encode "\x7b \"clientId\" :\n\"c\"\x7d " =
        [] ++ (Utf8.encode "\x7b" ++ ([0x20] ++ (Utf8.encode "\"clientId\"" ++
          ([0x20] ++ (Utf8.encode ":" ++ ([0x0A] ++ (Utf8.encode "\"c\"" ++
            ([] ++ (Utf8.encode "\x7d" ++ [0x20]))))))))) := by decide
    rw [hwords, htext]
    have hnone : ∀ o ∈ ([] : Bytes), isSpace o = true := List.forall_mem_nil _
    have hone (o : UInt8) (h : isSpace o = true) : ∀ o' ∈ [o], isSpace o' = true :=
      List.forall_mem_singleton.2 h
    exact .word hnone (.word (hone _ rfl) (.word (hone _ rfl) (.word (hone _ rfl) (.word hnone
      (.done (hone _ rfl))))))
  obtain ⟨-, hsame, hrefused⟩ := told_by_known_members (.cancel "A1")
  have hplain : (cancel "A1").request? (Utf8.encode "\x7b\"clientId\":\"c\"\x7d") =
      some (.order .cancelOrder ⟨"A1", "c"⟩) := by cbv
  refine ⟨(hsame _ _ (.respaced hholds hlaid)).trans hplain, hrefused _ _ htwice ?_⟩
  exact ⟨⟨["clientId", "client_id"], .text⟩, List.mem_cons_of_mem _ List.mem_cons_self, by decide⟩

end BodyKind

end OrderRelay
