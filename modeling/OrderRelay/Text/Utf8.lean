/-!
# UTF-8

Byte sequences are lists of octets throughout the library; text is `String`. This module is the
only place where one becomes the other.

* `encode`, `decode?`: text to octets and back; `decode?` refuses anything that is not UTF-8.
* `decode?_eq_some_iff`: it reads exactly what `encode` writes.
* `next?`: one character off the front, for readers that must say where bad octets begin.
-/

namespace OrderRelay

/-- A sequence of octets. -/
abbrev Bytes := List UInt8

namespace Utf8

/-- The octets of a text. -/
def encode (s : String) : Bytes := s.toByteArray.data.toList

/-- The text that a sequence of octets spells, if it is UTF-8. -/
def decode? (bs : Bytes) : Option String := String.fromUTF8? ⟨bs.toArray⟩

theorem encode_append (s t : String) : encode (s ++ t) = encode s ++ encode t := by
  simp [encode]

theorem decode?_encode (s : String) : decode? (encode s) = some s := by
  rw [decode?, encode, Array.toArray_toList]
  exact dif_pos s.isValidUTF8

theorem eq_encode_of_decode? {bs : Bytes} {s : String} (h : decode? bs = some s) :
    bs = encode s := by
  simp only [decode?, String.fromUTF8?] at h
  split at h
  · simp only [Option.some.injEq] at h
    rw [← h]
    rfl
  · simp at h

/-- The octets that are the UTF-8 of a text are exactly those that the text is written as. -/
theorem decode?_eq_some_iff {bs : Bytes} {s : String} : decode? bs = some s ↔ bs = encode s :=
  ⟨eq_encode_of_decode?, fun h => h ▸ decode?_encode s⟩

/-- The first character of a sequence of octets and the octets after it. -/
def next? : Bytes → Option (Char × Bytes)
  | [] => none
  | b :: rest =>
    if b < 0x80 then some (Char.ofNat b.toNat, rest)
    else
      -- No character is longer than four octets.
      match (ByteArray.mk ((b :: rest).take 4).toArray).utf8DecodeChar? 0 with
      | some c => some (c, (b :: rest).drop c.utf8Size)
      | none => none

/-- How many octets stand before the first one that no text can have there. -/
def validLength (bs : Bytes) : Nat := go bs.length bs 0
where
  /-- Takes characters off the front, at most `fuel` of them. -/
  go : Nat → Bytes → Nat → Nat
    | 0, _, n => n
    | fuel + 1, bs, n =>
      match next? bs with
      | some (c, rest) => go fuel rest (n + c.utf8Size)
      | none => n

/-- Octets that may follow the first octet of a character, by what that octet is. -/
def mayFollow (first second : UInt8) : Bool :=
  let low : UInt8 := if first = 0xE0 then 0xA0 else if first = 0xF0 then 0x90 else 0x80
  let high : UInt8 := if first = 0xED then 0x9F else if first = 0xF4 then 0x8F else 0xBF
  low ≤ second && second ≤ high

/-- How many octets follow the first octet of a character; none if no character starts so. -/
def followers? (first : UInt8) : Option Nat :=
  if 0xC2 ≤ first && first ≤ 0xDF then some 1
  else if 0xE0 ≤ first && first ≤ 0xEF then some 2
  else if 0xF0 ≤ first && first ≤ 0xF4 then some 3
  else none

/-- How many octets the broken character at the front has. -/
def brokenLength : Bytes → Nat
  | [] => 0
  | [_] => 1
  | first :: second :: rest =>
    match followers? first with
    | none => 1
    | some n =>
      if mayFollow first second then
        2 + ((rest.take (n - 2)).takeWhile fun b => 0x80 ≤ b && b ≤ 0xBF).length
      else 1

/-- The text of a sequence of octets with one replacement character for each broken character. -/
def decodeLossy (bs : Bytes) : String := String.ofList (go bs.length bs [])
where
  /-- Takes characters off the front, at most `fuel` of them; `acc` holds those so far, last first. -/
  go : Nat → Bytes → List Char → List Char
    | 0, _, acc => acc.reverse
    | _, [], acc => acc.reverse
    | fuel + 1, bs, acc =>
      match next? bs with
      | some (c, rest) => go fuel rest (c :: acc)
      | none => go fuel (bs.drop (brokenLength bs)) (Char.ofNat 0xFFFD :: acc)

end Utf8

end OrderRelay
