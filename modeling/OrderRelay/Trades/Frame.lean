import OrderRelay.Text.Utf8

/-!
# Frames

What the two sides of a WebSocket send. The reason in a close frame takes 123 octets at most, so a
longer one is cut, but never inside a character.

* `cutText`: the start of a text that fits into so many octets.
* `octetsOf_cutChars_le`, `lt_octetsOf_of_cutChars`: it fits, and with one more character it would not.
* `ServerFrame.closing`: a close frame with a reason that fits.
-/

namespace OrderRelay

/-- A frame of the client. -/
inductive ClientFrame where
  | text (content : String)
  | binary (content : Bytes)
  | ping (payload : Bytes)
  | pong (payload : Bytes)
  | close
  deriving DecidableEq, Repr

/-- A frame of the service. -/
inductive ServerFrame where
  | text (content : String)
  | pong (payload : Bytes)
  | close (code : Nat) (reason : String)
  deriving DecidableEq, Repr

/-- The characters at the start that fit into so many octets. -/
def cutChars : Nat → List Char → List Char
  | _, [] => []
  | room, c :: cs => if c.utf8Size ≤ room then c :: cutChars (room - c.utf8Size) cs else []

/-- How many octets characters take. -/
def octetsOf (cs : List Char) : Nat := (cs.map Char.utf8Size).foldr (· + ·) 0

theorem cutChars_isPrefix (room : Nat) (cs : List Char) : cutChars room cs <+: cs := by
  induction cs generalizing room with
  | nil => exact List.nil_prefix
  | cons c cs ih =>
    rw [cutChars]
    split
    · obtain ⟨rest, h⟩ := ih (room - c.utf8Size)
      exact ⟨rest, by rw [List.cons_append, h]⟩
    · exact List.nil_prefix

theorem octetsOf_cutChars_le (room : Nat) (cs : List Char) : octetsOf (cutChars room cs) ≤ room := by
  induction cs generalizing room with
  | nil => exact Nat.zero_le _
  | cons c cs ih =>
    rw [cutChars]
    split
    · have := ih (room - c.utf8Size)
      simp only [octetsOf, List.map_cons, List.foldr_cons] at this ⊢
      omega
    · exact Nat.zero_le _

/-- The character at which the cut is made does not fit. -/
theorem lt_octetsOf_of_cutChars {room : Nat} {cs rest : List Char} {c : Char}
    (h : cs = cutChars room cs ++ c :: rest) :
    room < octetsOf (cutChars room cs) + c.utf8Size := by
  induction cs generalizing room with
  | nil => simp [cutChars] at h
  | cons d cs ih =>
    rw [cutChars] at h ⊢
    by_cases fits : d.utf8Size ≤ room
    · rw [if_pos fits, List.cons_append, List.cons.injEq] at h
      have := ih h.2
      rw [if_pos fits]
      simp only [octetsOf, List.map_cons, List.foldr_cons] at this ⊢
      omega
    · rw [if_neg fits, List.nil_append, List.cons.injEq] at h
      rw [if_neg fits, ← h.1]
      simp only [octetsOf, List.map_nil, List.foldr_nil]
      omega

/-- The longest start of a text that fits into so many octets. -/
def cutText (room : Nat) (s : String) : String := String.ofList (cutChars room s.toList)

/-- How many octets the reason of a close frame takes at most. -/
def reasonLimit : Nat := 123

/-- A close frame with as much of a reason as fits. -/
def ServerFrame.closing (code : Nat) (reason : String) : ServerFrame :=
  .close code (cutText reasonLimit reason)

/-- The code of a close frame after which all is well. -/
def normalClosure : Nat := 1000

/-- The code of a close frame after a failure. -/
def errorClosure : Nat := 1011

end OrderRelay
