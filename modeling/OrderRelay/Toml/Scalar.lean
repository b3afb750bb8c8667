import OrderRelay.Number.Decimal
import OrderRelay.Text.Hex
import OrderRelay.Toml.Value

/-!
# TOML numbers, words and moments

A value that is neither quoted nor bracketed is a single word. `Value.ofWord?` says what it stands
for: a date or time, a number, or one of the words for truth.
-/

namespace OrderRelay.Toml

namespace Word

/-! ## Moments -/

/-- So many decimal digits as a number. -/
def fixed? (n : Nat) (cs : List Char) : Option (Nat × List Char) := do
  let ds ← (cs.take n).mapM Digits.ofChar?
  if ds.length = n then return (Digits.value ds, cs.drop n) else none

/-- One given character. -/
def char? (c : Char) : List Char → Option (List Char)
  | [] => none
  | d :: rest => if d = c then some rest else none

/-- The days of a month. -/
def daysIn (year month : Nat) : Nat :=
  if month = 2 then if year % 4 = 0 && (year % 100 ≠ 0 || year % 400 = 0) then 29 else 28
  else if month = 4 || month = 6 || month = 9 || month = 11 then 30
  else 31

/-- The characters after a date. -/
def date? (cs : List Char) : Option (List Char) := do
  let (year, cs) ← fixed? 4 cs
  let (month, cs) ← fixed? 2 (← char? '-' cs)
  let (day, cs) ← fixed? 2 (← char? '-' cs)
  if 1 ≤ month && month ≤ 12 && 1 ≤ day && day ≤ daysIn year month then return cs else none

/-- The characters after a time. A minute may have a leap second. -/
def time? (cs : List Char) : Option (List Char) := do
  let (hour, cs) ← fixed? 2 cs
  let (minute, cs) ← fixed? 2 (← char? ':' cs)
  let (second, cs) ← fixed? 2 (← char? ':' cs)
  if 23 < hour || 59 < minute || 60 < second then none
  else
    match cs with
    | '.' :: rest =>
      if (rest.takeWhile Char.isDigit).isEmpty then none else return rest.dropWhile Char.isDigit
    | _ => return cs

/-- Nothing, or the distance from universal time. -/
def isOffset (cs : List Char) : Bool :=
  match cs with
  | [] => true
  | ['Z'] => true
  | ['z'] => true
  | c :: rest =>
    (c = '+' || c = '-') &&
      match (do
        let (hour, cs) ← fixed? 2 rest
        let (minute, cs) ← fixed? 2 (← char? ':' cs)
        return hour ≤ 23 && minute ≤ 59 && cs.isEmpty) with
      | some ok => ok
      | none => false

/-- Whether a word is a date, a time or both, with a letter between the two. -/
def isMoment (cs : List Char) : Bool :=
  match date? cs with
  | some [] => true
  | some (c :: rest) => (c = 'T' || c = 't') && (time? rest).any isOffset
  | none => time? cs == some []

/-- Whether a word is a date. -/
def isDate (cs : List Char) : Bool := date? cs == some []

/-! ## Numbers -/

/-- The digits of a radix with single underscores between them. -/
def digits? (radix : Nat) (afterDigit : Bool) : List Char → Option (List Nat)
  | [] => if afterDigit then some [] else none
  | '_' :: rest => if afterDigit then digits? radix false rest else none
  | c :: rest => do
    let d ← Hex.digit? c
    if d < radix then return d :: (← digits? radix true rest) else none

/-- The number that digits of a radix stand for. -/
def valueOf (radix : Nat) (ds : List Nat) : Nat := ds.foldl (fun n d => radix * n + d) 0

/-- The sign in front, which may be left out. -/
def sign (cs : List Char) : Bool × List Char :=
  match cs with
  | '-' :: rest => (true, rest)
  | '+' :: rest => (false, rest)
  | _ => (false, cs)

/-- The digits of a decimal number without leading zeros. -/
def decimal? (cs : List Char) : Option (List Nat) := do
  let ds ← digits? 10 false cs
  if ds.head? = some 0 && 1 < ds.length then none else return ds

/-- A whole number within 64 bits. -/
def inRange? (n : Int) : Option Int :=
  if -9223372036854775808 ≤ n && n ≤ 9223372036854775807 then some n else none

/-- A whole number. Only decimal numbers have a sign. -/
def whole? (cs : List Char) : Option Int :=
  match cs with
  | '0' :: 'x' :: rest => do inRange? (valueOf 16 (← digits? 16 false rest))
  | '0' :: 'o' :: rest => do inRange? (valueOf 8 (← digits? 8 false rest))
  | '0' :: 'b' :: rest => do inRange? (valueOf 2 (← digits? 2 false rest))
  | _ => do
    let (negative, rest) := sign cs
    let n := valueOf 10 (← decimal? rest)
    inRange? (if negative then -n else n)

/-- The parts of a word before and after the first character that passes a test. -/
def cut (p : Char → Bool) (cs : List Char) : List Char × Option (List Char) :=
  match cs.dropWhile (!p ·) with
  | [] => (cs, none)
  | _ :: rest => (cs.takeWhile (!p ·), some rest)

/-- The exponent of a double; it may have leading zeros. -/
def power? (cs : List Char) : Option Int := do
  let (down, cs) := sign cs
  let n := valueOf 10 (← digits? 10 false cs)
  return if down then -(n : Int) else (n : Int)

/-- A double: a decimal number with a fraction, an exponent or both. One that is too large is refused
unless it is negative. -/
def double? (cs : List Char) : Option Double := do
  let (negative, cs) := sign cs
  if cs = ['i', 'n', 'f'] then return Double.infinity.signed negative
  else if cs = ['n', 'a', 'n'] then return Double.nan.signed negative
  else
    let (mantissa, power) := cut (fun c => c = 'e' || c = 'E') cs
    let (whole, fraction) := cut (· = '.') mantissa
    if power.isNone && fraction.isNone then none
    else
      let ws ← decimal? whole
      let fs ← match fraction with
        | none => some []
        | some f => digits? 10 false f
      let k ← match power with
        | none => some 0
        | some p => power? p
      let ds := (ws ++ fs).dropWhile (· == 0)
      let d := Double.nearest (valueOf 10 ds) ds.length (k - fs.length)
      if d.isInfinite && !negative then none else return d.signed negative

end Word

/-- What a word stands for. -/
def Value.ofWord? (cs : List Char) : Option Value :=
  if cs = "true".toList then some (.bool true)
  else if cs = "false".toList then some (.bool false)
  else if Word.isMoment cs then some .moment
  else
    match Word.double? cs with
    | some d => some (.double d)
    | none => (Word.whole? cs).map .whole

end OrderRelay.Toml
