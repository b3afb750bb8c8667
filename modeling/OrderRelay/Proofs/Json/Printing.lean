import OrderRelay.Proofs.Json.Arrays
import OrderRelay.Proofs.Json.Numerals

/-!
# Values as they are written

A value is written without any blank, so each of its words ends where the next begins. It
is scanned as the words it was made of, and read as the value again.

* `Prints`: octets that are scanned as certain lexemes.
* `Value.words`: the lexemes of a value.
* `Value.Proper`, `Value.Sound`: values whose numbers are written properly, and those that
  can be read.
* `prints_proper`, `prints_compact`: **a value is scanned as its words.**
* `ofText?_compact`: **a value is read as itself.**
-/

namespace OrderRelay.Json

/-! ## Octets and lexemes -/

/-- **Octets that are scanned as these lexemes**, as long as nothing comes after them that
could be part of a number. They do not begin with a blank. -/
structure Prints (bs : Bytes) (ls : List Lexeme) : Prop where
  solid : ∃ b more, bs = b :: more ∧ isSpace b = false
  lexes : ∀ (offset : ℕ) (rest : Bytes), Scan.Stops rest →
    lexemes (tokensOnto [] offset (bs ++ rest)) =
      ls ++ lexemes (tokensOnto [] (offset + bs.length) rest)

theorem gapAfter_cons {b : UInt8} {bs : Bytes} (h : isSpace b = false) : gapAfter (b :: bs) = 0 := by
  simp [gapAfter, h]

theorem gapAfter_stops {rest : Bytes} (h : Scan.Stops rest) : gapAfter rest = 0 := by
  cases rest with
  | nil => rfl
  | cons b more =>
    have hmem := h b more rfl
    simp only [List.mem_cons, List.not_mem_nil, or_false] at hmem
    rcases hmem with rfl | rfl | rfl | rfl <;> exact gapAfter_cons (by decide)

/-- One word, and what comes after it. -/
theorem lexemes_word {offset : ℕ} {b : UInt8} {l : Lexeme} (body : Bytes) {after : Bytes}
    (h : Scan.token offset b (body ++ after) = ⟨l, body.length⟩) (hl : l.isBroken = false)
    (hgap : gapAfter after = 0) :
    lexemes (tokensOnto [] offset (b :: (body ++ after))) =
      l :: lexemes (tokensOnto [] (offset + (b :: body).length) after) := by
  rw [tokensOnto_cons]
  simp only [h, hl, List.drop_left, hgap, List.drop_zero, Bool.false_eq_true, if_false,
    lexemes_cons, Nat.add_zero]
  rw [List.length_cons, Nat.add_comm body.length, Nat.add_assoc]

/-- One word that stands alone. -/
theorem Prints.word {b : UInt8} {body : Bytes} {l : Lexeme} (hb : isSpace b = false)
    (hl : l.isBroken = false)
    (h : ∀ offset after, Scan.Stops after → Scan.token offset b (body ++ after) = ⟨l, body.length⟩) :
    Prints (b :: body) [l] := by
  refine ⟨⟨b, body, rfl, hb⟩, ?_⟩
  intro offset rest hrest
  exact lexemes_word body (h offset rest hrest) hl (gapAfter_stops hrest)

theorem prints_quote (s : String) : Prints (Utf8.encode (quote s)) [.text (.ok s)] := by
  obtain ⟨body, hencode, -⟩ := Scan.token_quote 0 s []
  rw [hencode]
  refine .word (by decide) rfl fun offset after _ => ?_
  -- the octets of a text do not depend on where it stands
  obtain ⟨body', hencode', htoken⟩ := Scan.token_quote offset s after
  rw [hencode, List.cons.injEq] at hencode'
  obtain rfl := hencode'.2
  exact htoken

theorem prints_number {l : Literal} (hl : l.Proper) : Prints (Utf8.encode l.text) [.number l] := by
  obtain ⟨b, body, hencode, hb, -⟩ := Scan.token_number 0 hl Scan.Stops.nil
  have hsolid : isSpace b = false := by
    have hother : ∀ c : UInt8, c ∈ ([0x20, 0x0A, 0x09, 0x0D] : Bytes) → b ≠ c := by
      rintro c hc rfl
      simp only [List.mem_cons, List.not_mem_nil, or_false] at hc
      rcases hc with rfl | rfl | rfl | rfl <;> simp [Scan.isDigit] at hb
    simp [isSpace, hother]
  rw [hencode]
  refine .word hsolid rfl fun offset after hafter => ?_
  obtain ⟨b', body', hencode', -, htoken⟩ := Scan.token_number offset hl hafter
  rw [hencode, List.cons.injEq] at hencode'
  obtain ⟨rfl, rfl⟩ := hencode'
  exact htoken

/-! ## Parts between brackets -/

/-- Parts up to a closing bracket, with commas between them. -/
def joined (close : UInt8) (first : Bool) : List Bytes → Bytes
  | [] => [close]
  | bs :: parts => (if first then [] else [0x2C]) ++ (bs ++ joined close false parts)

/-- The same for lexemes. -/
def joinedLexemes (close : Lexeme) (first : Bool) : List (List Lexeme) → List Lexeme
  | [] => [close]
  | ls :: parts => lead first ++ (ls ++ joinedLexemes close false parts)

theorem elementLexemes_eq (first : Bool) (items : List (List Lexeme)) :
    elementLexemes first items = joinedLexemes .closeArray first items := by
  induction items generalizing first with
  | nil => rfl
  | cons ls items ih => rw [elementLexemes, joinedLexemes, ih]

theorem memberLexemes_eq (first : Bool) (es : List (String × List Lexeme)) :
    memberLexemes first es =
      joinedLexemes .closeObject first (es.map fun e => .text (.ok e.1) :: .colon :: e.2) := by
  induction es generalizing first with
  | nil => rfl
  | cons e es ih =>
    obtain ⟨name, ls⟩ := e
    rw [memberLexemes, List.map_cons, joinedLexemes, ih]
    rfl

/-- An octet that closes is scanned as the end that it closes. -/
structure Closes (b : UInt8) (l : Lexeme) : Prop where
  stops : b ∈ ([0x2C, 0x3A, 0x5D, 0x7D] : Bytes)
  token : ∀ offset rest, Scan.token offset b rest = ⟨l, 0⟩
  whole : l.isBroken = false

theorem closes_array : Closes 0x5D .closeArray := ⟨by decide, fun _ _ => rfl, rfl⟩

theorem closes_object : Closes 0x7D .closeObject := ⟨by decide, fun _ _ => rfl, rfl⟩

/-- **Parts between brackets are scanned one after another.** -/
theorem lexemes_joined {close : UInt8} {l : Lexeme} (hclose : Closes close l) {parts : List Bytes}
    {items : List (List Lexeme)} (h : List.Forall₂ Prints parts items) (first : Bool)
    (offset : ℕ) {rest : Bytes} (hrest : Scan.Stops rest) :
    lexemes (tokensOnto [] offset (joined close first parts ++ rest)) =
      joinedLexemes l first items ++
        lexemes (tokensOnto [] (offset + (joined close first parts).length) rest) := by
  induction h generalizing first offset with
  | nil =>
    exact lexemes_word [] (hclose.token offset rest) hclose.whole (gapAfter_stops hrest)
  | @cons bs ls parts items hbs hmore ih =>
    -- a part ends at a comma or at the bracket, and neither of them goes on with a number
    have hstops : Scan.Stops (joined close false parts ++ rest) := by
      cases parts with
      | nil => exact .cons hclose.stops
      | cons => exact .cons (by decide)
    have hpart : ∀ offset, lexemes (tokensOnto [] offset (bs ++ (joined close false parts ++ rest))) =
        ls ++ (joinedLexemes l false items ++ lexemes (tokensOnto []
          (offset + bs.length + (joined close false parts).length) rest)) := by
      intro offset
      rw [hbs.lexes offset _ hstops, ih]
    cases first with
    | true =>
      change lexemes (tokensOnto [] offset (bs ++ joined close false parts ++ rest)) =
        (ls ++ joinedLexemes l false items) ++ lexemes (tokensOnto []
          (offset + (bs ++ joined close false parts).length) rest)
      rw [List.append_assoc, hpart, List.append_assoc, List.length_append, Nat.add_assoc]
    | false =>
      -- no blank stands between a comma and the next part
      obtain ⟨b, more, rfl, hsolid⟩ := hbs.solid
      have hcomma : lexemes (tokensOnto [] offset
          (0x2C :: (b :: more ++ (joined close false parts ++ rest)))) =
          .comma :: lexemes (tokensOnto [] (offset + 1)
            (b :: more ++ (joined close false parts ++ rest))) :=
        lexemes_word [] rfl rfl (gapAfter_cons hsolid)
      have hlength : offset + 1 + (b :: more).length + (joined close false parts).length =
          offset + (0x2C :: (b :: more ++ joined close false parts)).length := by
        simp only [List.length_cons, List.length_append]
        omega
      change lexemes (tokensOnto [] offset
          (0x2C :: (b :: more ++ joined close false parts ++ rest))) =
        .comma :: ((ls ++ joinedLexemes l false items) ++ lexemes (tokensOnto []
          (offset + (0x2C :: (b :: more ++ joined close false parts)).length) rest))
      rw [List.append_assoc (b :: more), hcomma, hpart, hlength, List.append_assoc ls]

/-- What stands between brackets is scanned as what stands between them. -/
theorem Prints.brackets {opening close : UInt8} {l l' : Lexeme} (hclose : Closes close l')
    (hsolid : isSpace opening = false) (hwhole : l.isBroken = false)
    (hopening : ∀ offset rest, Scan.token offset opening rest = ⟨l, 0⟩) {parts : List Bytes}
    {items : List (List Lexeme)} (h : List.Forall₂ Prints parts items) :
    Prints (opening :: joined close true parts) (l :: joinedLexemes l' true items) := by
  refine ⟨⟨opening, _, rfl, hsolid⟩, ?_⟩
  intro offset rest hrest
  have hgap : gapAfter (joined close true parts ++ rest) = 0 := by
    cases h with
    | nil =>
      have hstops : Scan.Stops (close :: rest) := .cons hclose.stops
      exact gapAfter_stops hstops
    | cons hbs hmore =>
      obtain ⟨b, more, rfl, hb⟩ := hbs.solid
      exact gapAfter_cons hb
  have hopen : lexemes (tokensOnto [] offset (opening :: (joined close true parts ++ rest))) =
      l :: lexemes (tokensOnto [] (offset + 1) (joined close true parts ++ rest)) :=
    lexemes_word [] (hopening offset _) hwhole hgap
  rw [List.cons_append, hopen, lexemes_joined hclose h true _ hrest, List.cons_append,
    List.length_cons, Nat.add_assoc, Nat.add_comm 1]

/-- A name, and the value that it goes by. -/
theorem Prints.member (name : String) {bs : Bytes} {ls : List Lexeme} (h : Prints bs ls) :
    Prints (Utf8.encode (quote name) ++ 0x3A :: bs) (.text (.ok name) :: .colon :: ls) := by
  have hname := prints_quote name
  obtain ⟨b, more, hencode, hb⟩ := hname.solid
  refine ⟨⟨b, _, by rw [hencode, List.cons_append], hb⟩, ?_⟩
  intro offset rest hrest
  obtain ⟨c, cs, rfl, hc⟩ := h.solid
  have hcolon : ∀ offset, lexemes (tokensOnto [] offset (0x3A :: (c :: cs ++ rest))) =
      .colon :: lexemes (tokensOnto [] (offset + 1) (c :: cs ++ rest)) :=
    fun offset => lexemes_word [] rfl rfl (gapAfter_cons hc)
  rw [List.append_assoc, List.cons_append, hname.lexes offset _ (.cons (by decide)), hcolon,
    h.lexes _ rest hrest]
  simp only [List.cons_append, List.nil_append, List.length_append, List.length_cons, Nat.add_assoc,
    Nat.add_comm 1]

/-- A text of such octets holds these lexemes, also if blanks come before them. -/
theorem Prints.tokens_padded {bs : Bytes} {ls : List Lexeme} (h : Prints bs ls) {blanks : Bytes}
    (hblanks : ∀ b ∈ blanks, isSpace b = true) : lexemes (tokens (blanks ++ bs)) = ls := by
  obtain ⟨b, more, rfl, hb⟩ := h.solid
  have htake : (blanks ++ b :: more).takeWhile isSpace = blanks := by
    rw [List.takeWhile_append_of_pos hblanks, List.takeWhile_cons_of_neg (by simp [hb]),
      List.append_nil]
  have hlexes := h.lexes blanks.length [] Scan.Stops.nil
  rw [List.append_nil] at hlexes
  unfold tokens
  simp only [htake, List.drop_left]
  rw [hlexes, tokensOnto]
  exact List.append_nil ls

/-- A text of such octets holds these lexemes. -/
theorem Prints.tokens {bs : Bytes} {ls : List Lexeme} (h : Prints bs ls) :
    lexemes (tokens bs) = ls :=
  h.tokens_padded (List.forall_mem_nil _)

/-! ## Values -/

namespace Value

mutual

/-- The lexemes of a value. -/
def words : Value → List Lexeme
  | .null => [.null]
  | .bool b => [.bool b]
  | .number l => [.number l]
  | .text s => [.text (.ok s)]
  | .array items => .openArray :: elementLexemes true (itemWords items)
  | .object members => .openObject :: memberLexemes true (memberWords members)

/-- The lexemes of values. -/
def itemWords : List Value → List (List Lexeme)
  | [] => []
  | v :: vs => words v :: itemWords vs

/-- The lexemes of members. -/
def memberWords : List (String × Value) → List (String × List Lexeme)
  | [] => []
  | (name, v) :: ms => (name, words v) :: memberWords ms

end

/-- **Values whose numbers are written properly**, whether or not they are in range. -/
inductive Proper : Value → Prop where
  | null : Proper .null
  | bool (b : Bool) : Proper (.bool b)
  | number {l : Literal} (hl : l.Proper) : Proper (.number l)
  | text (s : String) : Proper (.text s)
  | array {items : List Value} (h : ∀ v ∈ items, Proper v) : Proper (.array items)
  | object {members : List (String × Value)} (h : ∀ m ∈ members, Proper m.2) :
      Proper (.object members)

/-- **Values that can be read**: their numbers are written properly, and are in range. -/
inductive Sound : Value → Prop where
  | null : Sound .null
  | bool (b : Bool) : Sound (.bool b)
  | number {l : Literal} (hl : l.Proper) {n : Number} (hn : l.number = .ok n) : Sound (.number l)
  | text (s : String) : Sound (.text s)
  | array {items : List Value} (h : ∀ v ∈ items, Sound v) : Sound (.array items)
  | object {members : List (String × Value)} (h : ∀ m ∈ members, Sound m.2) :
      Sound (.object members)

theorem Sound.proper {v : Value} (h : Sound v) : Proper v := by
  induction h with
  | null => exact .null
  | bool b => exact .bool b
  | number hl _ => exact .number hl
  | text s => exact .text s
  | array _ ih => exact .array ih
  | object _ ih => exact .object ih

/-- Texts with commas between them. -/
theorem encode_intercalate (close : UInt8) (texts : List String) :
    Utf8.encode (",".intercalate texts) ++ [close] = joined close true (texts.map Utf8.encode) := by
  have hcomma : Utf8.encode "," = [0x2C] := by decide
  have hempty : Utf8.encode "" = [] := by decide
  have hmore : ∀ (t : String) (ts : List String),
      Utf8.encode (",".intercalate (t :: ts)) ++ [close] =
        Utf8.encode t ++ joined close false (ts.map Utf8.encode) := by
    intro t ts
    induction ts generalizing t with
    | nil =>
      rw [String.intercalate_singleton]
      rfl
    | cons u us ih =>
      rw [String.intercalate_cons_cons, Utf8.encode_append, Utf8.encode_append, hcomma,
        List.append_assoc, ih u, List.append_assoc]
      rfl
  cases texts with
  | nil =>
    rw [String.intercalate_nil, hempty]
    rfl
  | cons t ts => exact hmore t ts

theorem encode_array (items : List Value) : Utf8.encode (compact (.array items)) =
    0x5B :: joined 0x5D true ((compactItems items).map Utf8.encode) := by
  have hopening : Utf8.encode "[" = [0x5B] := by decide
  have hclosing : Utf8.encode "]" = [0x5D] := by decide
  rw [compact, Utf8.encode_append, Utf8.encode_append, hopening, hclosing, List.append_assoc,
    encode_intercalate]
  rfl

theorem encode_object (members : List (String × Value)) : Utf8.encode (compact (.object members)) =
    0x7B :: joined 0x7D true ((compactMembers members).map Utf8.encode) := by
  have hopening : Utf8.encode "\x7b" = [0x7B] := by decide
  have hclosing : Utf8.encode "\x7d" = [0x7D] := by decide
  rw [compact, Utf8.encode_append, Utf8.encode_append, hopening, hclosing, List.append_assoc,
    encode_intercalate]
  rfl

theorem prints_items {items : List Value}
    (h : ∀ v ∈ items, Prints (Utf8.encode v.compact) v.words) :
    List.Forall₂ Prints ((compactItems items).map Utf8.encode) (itemWords items) := by
  induction items with
  | nil => exact .nil
  | cons v vs ih =>
    rw [List.forall_mem_cons] at h
    exact .cons h.1 (ih h.2)

theorem prints_members {members : List (String × Value)}
    (h : ∀ m ∈ members, Prints (Utf8.encode m.2.compact) m.2.words) :
    List.Forall₂ Prints ((compactMembers members).map Utf8.encode)
      ((memberWords members).map fun e => .text (.ok e.1) :: .colon :: e.2) := by
  have hcolon : Utf8.encode ":" = [0x3A] := by decide
  induction members with
  | nil => exact .nil
  | cons m ms ih =>
    obtain ⟨name, v⟩ := m
    rw [List.forall_mem_cons] at h
    have hfirst := h.1.member name
    rw [compactMembers, memberWords, List.map_cons, List.map_cons, Utf8.encode_append,
      Utf8.encode_append, hcolon, List.append_assoc]
    exact .cons hfirst (ih h.2)

/-- An object is scanned as its words if its members are. -/
theorem prints_object {members : List (String × Value)}
    (h : ∀ m ∈ members, Prints (Utf8.encode m.2.compact) m.2.words) :
    Prints (Utf8.encode (compact (.object members))) (words (.object members)) := by
  rw [encode_object, words, memberLexemes_eq]
  exact .brackets closes_object (by decide) rfl (fun _ _ => rfl) (prints_members h)

/-- **A value is scanned as its words.** -/
theorem prints_proper {v : Value} (h : Proper v) : Prints (Utf8.encode v.compact) v.words := by
  induction h with
  | null =>
    have hnull : Utf8.encode (compact .null) = [0x6E, 0x75, 0x6C, 0x6C] := by decide
    rw [hnull]
    exact .word (by decide) rfl fun _ _ _ => rfl
  | bool b =>
    cases b with
    | false =>
      have hfalse : Utf8.encode (compact (.bool false)) = [0x66, 0x61, 0x6C, 0x73, 0x65] := by
        decide
      rw [hfalse]
      exact .word (by decide) rfl fun _ _ _ => rfl
    | true =>
      have htrue : Utf8.encode (compact (.bool true)) = [0x74, 0x72, 0x75, 0x65] := by
        decide
      rw [htrue]
      exact .word (by decide) rfl fun _ _ _ => rfl
  | number hl => exact prints_number hl
  | text s => exact prints_quote s
  | array _ ih =>
    rw [encode_array, words, elementLexemes_eq]
    exact .brackets closes_array (by decide) rfl (fun _ _ => rfl) (prints_items ih)
  | object _ ih => exact prints_object ih

theorem prints_compact {v : Value} (h : Sound v) : Prints (Utf8.encode v.compact) v.words :=
  prints_proper h.proper

end Value

end OrderRelay.Json
