import OrderRelay.Json.Token
import OrderRelay.Text.Hex

/-!
# From octets to JSON tokens

A token is found from its first octet: a scan says what the token is and how many octets it takes
after that first one.

* `tokens`: the tokens of a text, up to its end or up to the first broken word.
-/

namespace OrderRelay.Json

/-- The octets that may stand between tokens. -/
def isSpace (b : UInt8) : Bool := b == 0x20 || b == 0x0A || b == 0x09 || b == 0x0D

/-- What a scan finds: a lexeme and the number of octets it takes after its first one. -/
structure Scan where
  lexeme : Lexeme
  extra : Nat

namespace Scan

/-- Compares the octets after the first with the rest of a word. The fault lies behind the first
octet that differs. -/
def word (found : Lexeme) (offset : Nat) : Bytes → Bytes → Scan
  | [], _ => ⟨found, 0⟩
  | _ :: _, [] => ⟨.broken false (.unfinished .value) (.unfinished .value), 0⟩
  | w :: ws, b :: bs =>
    if b = w then
      let scan := word found (offset + 1) ws bs
      { scan with extra := scan.extra + 1 }
    else
      let fault := Fault.malformed .expectedWord (offset + 1)
      ⟨.broken false fault fault, 0⟩

/-! ## Numbers -/

/-- Whether an octet is a decimal digit. -/
def isDigit (b : UInt8) : Bool := 0x30 ≤ b && b ≤ 0x39

/-- The digits at the front. -/
def digits (bs : Bytes) : Digits := (bs.takeWhile isDigit).map fun b => Digits.last (b.toNat - 0x30)

/-- A number that breaks off: who needs its value is told if the text ends there. -/
def brokenNumber (offset : Nat) : Bytes → Scan
  | [] => ⟨.broken false (.unfinished .value) (.malformed .invalidNumber offset), 0⟩
  | _ :: _ =>
    let fault := Fault.malformed .invalidNumber (offset + 1)
    ⟨.broken false fault fault, 0⟩

/-- The end of a number: an exponent, if there is one. `offset` is where it would start, `used` the
number of octets before it. -/
def exponent (l : Literal) (offset used : Nat) : Bytes → Scan
  | [] => ⟨.number l, used - 1⟩
  | e :: bs =>
    if e = 0x65 ∨ e = 0x45 then
      let sign : Nat := if bs.head? = some 0x2B ∨ bs.head? = some 0x2D then 1 else 0
      let rest := bs.drop sign
      let ds := digits rest
      if ds.isEmpty then brokenNumber (offset + 1 + sign) rest
      else
        let power : Exponent := ⟨decide (bs.head? = some 0x2D), ds⟩
        ⟨.number { l with exponent := some power }, used + 1 + sign + ds.length - 1⟩
    else ⟨.number l, used - 1⟩

/-- The middle of a number: a fraction, if there is one. -/
def fraction (l : Literal) (offset used : Nat) : Bytes → Scan
  | [] => ⟨.number l, used - 1⟩
  | p :: bs =>
    if p = 0x2E then
      let ds := digits bs
      if ds.isEmpty then brokenNumber (offset + 1) bs
      else
        exponent { l with fraction := some ds } (offset + 1 + ds.length) (used + 1 + ds.length)
          (bs.drop ds.length)
    else exponent l offset used (p :: bs)

/-- A number from its first octet on. A whole part of several digits does not start with zero. -/
def number (offset : Nat) (bs : Bytes) : Scan :=
  let sign : Nat := if bs.head? = some 0x2D then 1 else 0
  let rest := bs.drop sign
  let ds := digits rest
  match ds with
  | [] => brokenNumber (offset + sign) rest
  | d :: more =>
    if d.val = 0 ∧ more ≠ [] then brokenNumber (offset + sign + 1) (rest.drop 1)
    else
      fraction ⟨decide (sign = 1), ds, none, none⟩ (offset + sign + ds.length) (sign + ds.length)
        (rest.drop ds.length)

/-! ## Texts -/

/-- The octet that a one-letter escape stands for. -/
def escaped? (b : UInt8) : Option UInt8 :=
  if b = 0x22 ∨ b = 0x5C ∨ b = 0x2F then some b
  else if b = 0x62 then some 0x08
  else if b = 0x66 then some 0x0C
  else if b = 0x6E then some 0x0A
  else if b = 0x72 then some 0x0D
  else if b = 0x74 then some 0x09
  else none

/-- The number that four hexadecimal digits show. -/
def hex4? (a b c d : UInt8) : Option Nat := do
  let digit (x : UInt8) := Hex.digit? (Char.ofNat x.toNat)
  return 4096 * (← digit a) + 256 * (← digit b) + 16 * (← digit c) + (← digit d)

/-- Whether a 16-bit unit is the first half of a pair. -/
def isHigh (n : Nat) : Bool := 0xD800 ≤ n && n ≤ 0xDBFF

/-- Whether a 16-bit unit is the second half of a pair. -/
def isLow (n : Nat) : Bool := 0xDC00 ≤ n && n ≤ 0xDFFF

/-- The character of a pair. -/
def paired (high low : Nat) : Nat := 0x10000 + 0x400 * (high - 0xD800) + (low - 0xDC00)

/-- Puts the octets of a character in front of reversed octets. -/
def push (n : Nat) (acc : Bytes) : Bytes := (Utf8.encode (Char.ofNat n).toString).reverse ++ acc

/-- The state within a text: what it says so far, last octet first, the first flaw that only matters
to who needs the content, and the first half of a pair whose second half is due. -/
structure TextState where
  said : Bytes
  flaw : Option Fault
  high : Option Nat

namespace TextState

/-- Notes a flaw unless there is one already. -/
def flawed (s : TextState) (cause : Malformed) (offset : Nat) : TextState :=
  { s with flaw := s.flaw.or (some (.malformed cause offset)), high := none }

/-- A half pair whose other half is not what comes next is a flaw. -/
def settle (s : TextState) (offset : Nat) : TextState :=
  if s.high.isSome then s.flawed .halfPair offset else s

/-- Takes in a 16-bit unit written as an escape that ends at the offset. -/
def unit (s : TextState) (n offset : Nat) : TextState :=
  match s.high with
  | some high =>
    if isLow n then { s with said := push (paired high n) s.said, high := none }
    else s.flawed .loneSurrogate offset
  | none =>
    if isLow n then s.flawed .loneSurrogate offset
    else if isHigh n then { s with high := some n }
    else { s with said := push n s.said }

/-- What a closed text says. `inner` are its octets as they stand, from the offset `start` on. -/
def content (s : TextState) (start : Nat) (inner : Bytes) : Except Fault String :=
  match s.flaw, Utf8.decode? s.said.reverse with
  | some flaw, _ => .error flaw
  | none, some t => .ok t
  | none, none => .error (.malformed .invalidUtf8 (start + Utf8.validLength inner + 1))

end TextState

/-- A text that cannot be gone on with. -/
def brokenText (s : TextState) (needed skipped : Fault) : Scan :=
  ⟨.broken true (s.flaw.getD needed) skipped, 0⟩

/-- The rest of a text after its opening quote; `start` and `inner` are those of its first octet,
`offset` is the place reached. -/
def textFrom (start : Nat) (inner : Bytes) (offset : Nat) (s : TextState) : Bytes → Scan
  | [] => brokenText s (.unfinished .text) (.unfinished .text)
  | b :: rest =>
    if b = 0x5C then
      match rest with
      | [] => brokenText s (.unfinished .text) (.unfinished .text)
      | c :: rest =>
        if c = 0x75 then
          match rest with
          | x :: y :: z :: w :: rest =>
            match hex4? x y z w with
            | some n => textFrom start inner (offset + 6) (s.unit n (offset + 6)) rest
            | none =>
              let fault := Fault.malformed .invalidEscape (offset + 6)
              brokenText s fault fault
          | _ => brokenText s (.unfinished .text) (.unfinished .text)
        else
          let s := s.settle (offset + 2)
          match escaped? c with
          | some o => textFrom start inner (offset + 2) { s with said := o :: s.said } rest
          | none =>
            let fault := Fault.malformed .invalidEscape (offset + 2)
            brokenText s fault fault
    else
      let s := s.settle (offset + 1)
      if b = 0x22 then
        ⟨.text (s.content start (inner.take (offset - start))), offset + 1 - start⟩
      else if b < 0x20 then
        brokenText s (.malformed .controlCharacter (offset + 1)) (.malformed .controlCharacter offset)
      else textFrom start inner (offset + 1) { s with said := b :: s.said } rest

/-- The token that starts with the octet `b` at the offset and goes on with `rest`. -/
def token (offset : Nat) (b : UInt8) (rest : Bytes) : Scan :=
  if b = 0x7B then ⟨.openObject, 0⟩
  else if b = 0x7D then ⟨.closeObject, 0⟩
  else if b = 0x5B then ⟨.openArray, 0⟩
  else if b = 0x5D then ⟨.closeArray, 0⟩
  else if b = 0x2C then ⟨.comma, 0⟩
  else if b = 0x3A then ⟨.colon, 0⟩
  else if b = 0x22 then textFrom (offset + 1) rest (offset + 1) ⟨[], none, none⟩ rest
  else if b = 0x2D || isDigit b then number offset (b :: rest)
  else if b = 0x6E then word .null (offset + 1) [0x75, 0x6C, 0x6C] rest
  else if b = 0x74 then word (.bool true) (offset + 1) [0x72, 0x75, 0x65] rest
  else if b = 0x66 then word (.bool false) (offset + 1) [0x61, 0x6C, 0x73, 0x65] rest
  else ⟨.stray, 0⟩

end Scan

/-- Whether nothing is read after this lexeme. -/
def Lexeme.isBroken : Lexeme → Bool
  | .broken .. => true
  | _ => false

/-- Puts the tokens of the octets from the offset on behind those found before, last first. -/
def tokensOnto (acc : List Token) (offset : Nat) : Bytes → List Token
  | [] => acc.reverse
  | b :: rest =>
    let scan := Scan.token offset b rest
    let after := rest.drop scan.extra
    let stop := offset + 1 + scan.extra
    let gap := (after.takeWhile isSpace).length
    let acc := ⟨scan.lexeme, offset, stop, stop + gap⟩ :: acc
    if scan.lexeme.isBroken then acc.reverse
    else tokensOnto acc (stop + gap) (after.drop gap)
termination_by bs => bs.length
decreasing_by simp only [List.length_drop, List.length_cons]; omega

/-- The tokens of a text, up to its end or up to the first broken word. -/
def tokens (text : Bytes) : List Token :=
  let gap := (text.takeWhile isSpace).length
  tokensOnto [] gap (text.drop gap)

end OrderRelay.Json
