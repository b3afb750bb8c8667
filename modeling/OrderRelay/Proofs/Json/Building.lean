import OrderRelay.Proofs.Json.Printing

/-!
# Values that are read

The reader of values keeps the structures that are still open, and puts each complete
value into the innermost of them. So the words of a value come to the value, whatever
structures are open around it.

* `holdsObject_compact`: the members of an object that has been written.
* `build_words`: the words of a value come to the value.
* `ofText?_compact`: **what is written for a value is read as the value.**
-/

namespace OrderRelay.Json.Value

/-- Goes on after a token has been taken in. -/
def proceed (r : Value ⊕ Builder) (ts : List Token) : Option Value :=
  match r with
  | .inl v => if ts.isEmpty then some v else none
  | .inr b => build b ts

theorem build_of_feed {b : Builder} {t : Token} {ts : List Token} {r : Value ⊕ Builder}
    (h : feed b t = some r) : build b (t :: ts) = proceed r ts := by
  rw [build, h]
  cases r <;> rfl

/-- The reader takes in words that come to this value. -/
def Builds (v : Value) : Prop :=
  ∀ outer ts rest, lexemes ts = v.words →
    build ⟨outer, .value⟩ (ts ++ rest) = proceed (place v outer) rest

/-- The first value of an array is read like any other. -/
theorem build_first {outer : List Partial} {items : List Value} {ts : List Token}
    (h : IsValue (lexemes ts)) (rest : List Token) :
    build ⟨.array items :: outer, .first⟩ (ts ++ rest) =
      build ⟨.array items :: outer, .value⟩ (ts ++ rest) := by
  obtain ⟨l, more, hl, hclose⟩ := Skip.exists_cons_of_isValue h
  obtain ⟨⟨l', start, stop, next⟩, us, rfl, rfl, -⟩ := lexemes_eq_cons.1 hl
  rw [List.cons_append, build, build]
  cases l' <;> first | rfl | exact absurd rfl hclose

/-- A name and its colon are taken in. -/
theorem build_name {outer : List Partial} {members : List (String × Value)} {name : String}
    {key colon : Token} (hkey : key.lexeme = .text (.ok name)) (hcolon : colon.lexeme = .colon)
    (ts : List Token) :
    build ⟨.object members :: outer, .key⟩ (key :: colon :: ts) =
      build ⟨.named members name :: outer, .value⟩ ts := by
  obtain ⟨l, _, _, _⟩ := key
  obtain ⟨l', _, _, _⟩ := colon
  obtain rfl : l = .text (.ok name) := hkey
  obtain rfl : l' = .colon := hcolon
  rw [build_of_feed (r := .inr ⟨.named members name :: outer, .colon⟩) rfl, proceed,
    build_of_feed (r := .inr ⟨.named members name :: outer, .value⟩) rfl, proceed]

/-- The elements of an array that come after a first one, or after none. -/
theorem build_elements {items : List Value} (h : ∀ v ∈ items, Builds v) (acc : List Value)
    (outer : List Partial) {ts : List Token} (rest : List Token)
    (hts : lexemes ts = elementLexemes false (itemWords items)) :
    build ⟨.array acc :: outer, .after⟩ (ts ++ rest) =
      proceed (place (.array (acc.reverse ++ items)) outer) rest := by
  induction items generalizing acc ts with
  | nil =>
    obtain ⟨⟨l, _, _, _⟩, rfl, hclose⟩ := lexemes_eq_singleton.1 hts
    obtain rfl : l = .closeArray := hclose
    rw [List.append_nil]
    exact build_of_feed rfl
  | cons v vs ih =>
    rw [List.forall_mem_cons] at h
    obtain ⟨⟨l, _, _, _⟩, us, rfl, hcomma, hus⟩ := lexemes_eq_cons.1 hts
    obtain rfl : l = .comma := hcomma
    have hvs : lexemes us = v.words ++ elementLexemes false (itemWords vs) := hus
    obtain ⟨xs, ys, rfl, hxs, hys⟩ := lexemes_eq_append.1 hvs
    have hmore := ih h.2 (v :: acc) hys
    rw [List.reverse_cons, List.append_assoc, List.singleton_append] at hmore
    rw [List.cons_append, build_of_feed (r := .inr ⟨.array acc :: outer, .value⟩) rfl, proceed,
      List.append_assoc, h.1 _ xs _ hxs]
    exact hmore

/-- The members of an object that come after a first one, or after none. -/
theorem build_members {members : List (String × Value)} (h : ∀ m ∈ members, Builds m.2)
    (acc : List (String × Value)) (outer : List Partial) {ts : List Token} (rest : List Token)
    (hts : lexemes ts = memberLexemes false (memberWords members)) :
    build ⟨.object acc :: outer, .after⟩ (ts ++ rest) =
      proceed (place (.object (acc.reverse ++ members)) outer) rest := by
  induction members generalizing acc ts with
  | nil =>
    obtain ⟨⟨l, _, _, _⟩, rfl, hclose⟩ := lexemes_eq_singleton.1 hts
    obtain rfl : l = .closeObject := hclose
    rw [List.append_nil]
    exact build_of_feed rfl
  | cons m ms ih =>
    obtain ⟨name, v⟩ := m
    rw [List.forall_mem_cons] at h
    obtain ⟨⟨l, _, _, _⟩, us, rfl, hcomma, hus⟩ := lexemes_eq_cons.1 hts
    obtain rfl : l = .comma := hcomma
    obtain ⟨key, us, rfl, hkey, hus⟩ := lexemes_eq_cons.1 hus
    obtain ⟨colon, us, rfl, hcolon, hus⟩ := lexemes_eq_cons.1 hus
    obtain ⟨xs, ys, rfl, hxs, hys⟩ := lexemes_eq_append.1 hus
    have hmore := ih h.2 ((name, v) :: acc) hys
    rw [List.reverse_cons, List.append_assoc, List.singleton_append] at hmore
    rw [List.cons_append, build_of_feed (r := .inr ⟨.object acc :: outer, .key⟩) rfl, proceed,
      List.cons_append, List.cons_append, build_name hkey hcolon, List.append_assoc,
      h.1 _ xs _ hxs]
    exact hmore

theorem itemWords_eq (items : List Value) : itemWords items = items.map words := by
  induction items with
  | nil => rfl
  | cons v vs ih => rw [itemWords, ih, List.map_cons]

theorem memberWords_eq (members : List (String × Value)) :
    memberWords members = members.map fun m => (m.1, m.2.words) := by
  induction members with
  | nil => rfl
  | cons m ms ih => rw [memberWords, ih, List.map_cons]

theorem isValue_words {v : Value} (h : Proper v) : IsValue v.words := by
  induction h with
  | null | bool | number | text => exact .word rfl
  | array _ ih =>
    rw [words, itemWords_eq]
    exact isValue_array (List.forall_mem_map.2 ih)
  | object _ ih =>
    rw [words, memberWords_eq]
    exact isValue_object (List.forall_mem_map.2 ih)

/-- The members of an object that has been written. -/
theorem holdsObject_compact {members : List (String × Value)} (h : ∀ m ∈ members, Proper m.2) :
    HoldsObject (Utf8.encode (compact (.object members))) (memberWords members) := by
  refine ⟨(prints_proper (.object h)).tokens, ?_⟩
  rw [memberWords_eq]
  exact List.forall_mem_map.2 fun m hm => isValue_words (h m hm)

/-- **The words of a value come to the value.** -/
theorem build_words {v : Value} (h : Sound v) : Builds v := by
  -- on the value, with any open structures around it and any words behind it
  induction h with
  | null | bool | text =>
    intro outer ts rest hts
    obtain ⟨⟨l, _, _, _⟩, rfl, hl⟩ := lexemes_eq_singleton.1 hts
    cases hl
    exact build_of_feed rfl
  | @number l hl n hn =>
    intro outer ts rest hts
    obtain ⟨⟨l', _, _, _⟩, rfl, hl'⟩ := lexemes_eq_singleton.1 hts
    obtain rfl : l' = .number l := hl'
    refine build_of_feed ?_
    simp only [feed, start, hn]
  | @array items h ih =>
    intro outer ts rest hts
    obtain ⟨⟨l, _, _, _⟩, us, rfl, hopen, hus⟩ := lexemes_eq_cons.1 hts
    obtain rfl : l = .openArray := hopen
    rw [List.cons_append, build_of_feed (r := .inr ⟨.array [] :: outer, .first⟩) rfl, proceed]
    cases items with
    | nil =>
      obtain ⟨⟨l, _, _, _⟩, rfl, hclose⟩ := lexemes_eq_singleton.1 hus
      obtain rfl : l = .closeArray := hclose
      exact build_of_feed rfl
    | cons v vs =>
      -- the first element comes without a comma, the others are those of `build_elements`
      rw [List.forall_mem_cons] at h ih
      have hvs : lexemes us = v.words ++ elementLexemes false (itemWords vs) := hus
      obtain ⟨xs, ys, rfl, hxs, hys⟩ := lexemes_eq_append.1 hvs
      have hvalue : IsValue (lexemes xs) := by
        rw [hxs]
        exact isValue_words h.1.proper
      rw [List.append_assoc, build_first hvalue, ih.1 _ xs _ hxs]
      exact build_elements ih.2 [v] outer rest hys
  | @object members h ih =>
    intro outer ts rest hts
    obtain ⟨⟨l, _, _, _⟩, us, rfl, hopen, hus⟩ := lexemes_eq_cons.1 hts
    obtain rfl : l = .openObject := hopen
    rw [List.cons_append, build_of_feed (r := .inr ⟨.object [] :: outer, .first⟩) rfl, proceed]
    cases members with
    | nil =>
      obtain ⟨⟨l, _, _, _⟩, rfl, hclose⟩ := lexemes_eq_singleton.1 hus
      obtain rfl : l = .closeObject := hclose
      exact build_of_feed rfl
    | cons m ms =>
      obtain ⟨name, v⟩ := m
      rw [List.forall_mem_cons] at ih
      have hms : lexemes us = .text (.ok name) :: .colon ::
          (v.words ++ memberLexemes false (memberWords ms)) := hus
      obtain ⟨key, us, rfl, hkey, hrest⟩ := lexemes_eq_cons.1 hms
      obtain ⟨colon, us, rfl, hcolon, hrest⟩ := lexemes_eq_cons.1 hrest
      obtain ⟨xs, ys, rfl, hxs, hys⟩ := lexemes_eq_append.1 hrest
      -- the first name is taken in like any other
      have hfirst : ∀ ts, build ⟨.object [] :: outer, .first⟩ (key :: ts) =
          build ⟨.object [] :: outer, .key⟩ (key :: ts) := by
        intro ts
        obtain ⟨l, _, _, _⟩ := key
        obtain rfl : l = .text (.ok name) := hkey
        exact (build_of_feed rfl).trans (build_of_feed rfl).symm
      rw [List.cons_append, List.cons_append, hfirst, build_name hkey hcolon, List.append_assoc,
        ih.1 _ xs _ hxs]
      exact build_members ih.2 [(name, v)] outer rest hys

/-- **What is written for a value is read as the value.** -/
theorem ofText?_compact {v : Value} (h : Sound v) : ofText? (Utf8.encode v.compact) = some v := by
  have hbuild := build_words h [] (tokens (Utf8.encode v.compact)) [] (prints_compact h).tokens
  rw [List.append_nil] at hbuild
  exact hbuild

end OrderRelay.Json.Value
