import OrderRelay.Text.Utf8

/-!
# Boundaries between characters

The octets of a text may be cut between two characters only. An octet tells by itself whether it
goes on with a character, so the place for a cut is found octet by octet, back from where the cut
was wanted.

* `isBoundary`: whether a character begins at an offset, or the octets end there.
* `Search.look`: one look of the search, which steps back from an offset that is no boundary.
* `cutBack?`: the text up to the boundary that the search finds.
-/

namespace OrderRelay.Utf8

/-- An octet that goes on with a character. -/
def continues (b : UInt8) : Bool := 0x80 ≤ b && b < 0xC0

/-- Whether a character begins at an offset, or the octets begin or end there. -/
def isBoundary (bs : Bytes) (offset : Nat) : Bool :=
  offset == 0 ||
    match bs[offset]? with
    | some b => !continues b
    | none => offset == bs.length

/-- Where a search for a boundary stands. -/
inductive Search where
  /-- It looks at this offset next. -/
  | looking (offset : Nat)
  | found (offset : Nat)
  /-- It would have to step back from the start. -/
  | lost
  deriving DecidableEq, Repr

namespace Search

/-- The search after one more look. -/
def look (bs : Bytes) : Search → Search
  | looking offset =>
    if isBoundary bs offset then found offset
    else
      match offset with
      | 0 => lost
      | before + 1 => looking before
  | found offset => found offset
  | lost => lost

/-- The search after so many looks. It sets out from so many octets, or from the end of fewer. -/
def after (bs : Bytes) (room : Nat) : Nat → Search
  | 0 => looking (min bs.length room)
  | looks + 1 => (after bs room looks).look bs

end Search

/-- The text up to the boundary that the search has found after so many looks; none if it has found
none yet, or if the octets up to there are no text. -/
def cutBack? (looks room : Nat) (s : String) : Option String :=
  match Search.after (encode s) room looks with
  | .found offset => decode? ((encode s).take offset)
  | _ => none

end OrderRelay.Utf8
