import Mathlib
import OrderRelay.Proofs.Message.Objects

/-!
# What the JSON of a message keeps

The JSON of a message keeps all of it, but for doubles that are not finite, of which null is left.
An object is read as the message that its members make, in whichever order they come and whatever
else there is among them.

* `Json.Valid`: texts of one value that is not flawed anywhere.
* `Reworked`: other orders of members, members of unknown labels, and values written otherwise.
* `Record.madeBy_iff_of_reworked`: **reworked members make the same record.**
* `Message.KeptInJson`: what is asked of a type of messages.
* `Message.messages_keptInJson`: **all eleven types meet it.**
-/

namespace OrderRelay

open Json Relation

/-! ## Valid texts -/

namespace Json

/-- Each text among these lexemes says something. -/
def Clear (ls : List Lexeme) : Prop := ∀ fault, Lexeme.text (.error fault) ∉ ls

theorem clear_lead (first : Bool) : Clear (lead first) := by
  intro fault
  cases first <;> simp [lead]

theorem clear_append {ls ms : List Lexeme} : Clear (ls ++ ms) ↔ Clear ls ∧ Clear ms := by
  simp only [Clear, List.mem_append, not_or, forall_and]

theorem clear_elementLexemes {items : List (List Lexeme)} (h : ∀ ls ∈ items, Clear ls)
    (first : Bool) : Clear (elementLexemes first items) := by
  induction items generalizing first with
  | nil =>
    intro fault
    simp [elementLexemes]
  | cons ls items ih =>
    rw [List.forall_mem_cons] at h
    rw [elementLexemes, clear_append, clear_append]
    exact ⟨clear_lead first, h.1, ih h.2 false⟩

theorem clear_memberLexemes {es : List (String × List Lexeme)} (h : ∀ e ∈ es, Clear e.2)
    (first : Bool) : Clear (memberLexemes first es) := by
  induction es generalizing first with
  | nil =>
    intro fault
    simp [memberLexemes]
  | cons e es ih =>
    obtain ⟨name, ls⟩ := e
    rw [List.forall_mem_cons] at h
    have hname : Clear [.text (.ok name), .colon] := by
      intro fault
      simp
    have hmember : memberLexemes first ((name, ls) :: es) =
        lead first ++ ([.text (.ok name), .colon] ++ (ls ++ memberLexemes false es)) := rfl
    rw [hmember, clear_append, clear_append, clear_append]
    exact ⟨clear_lead first, hname, h.1, ih h.2 false⟩

theorem Value.clear_words {v : Value} (h : v.Proper) : Clear v.words := by
  induction h with
  | null | bool | number | text =>
    intro fault
    simp [words]
  | array _ ih =>
    rw [words, itemWords_eq, ← List.singleton_append, clear_append]
    exact ⟨fun fault => by simp, clear_elementLexemes (List.forall_mem_map.2 ih) true⟩
  | object _ ih =>
    rw [words, memberWords_eq, ← List.singleton_append, clear_append]
    exact ⟨fun fault => by simp, clear_memberLexemes (List.forall_mem_map.2 ih) true⟩

/-- **A text of one value and nothing else**, in which each text says something. -/
structure Valid (text : Bytes) : Prop where
  value : IsValue (lexemes (tokens text))
  clear : Clear (lexemes (tokens text))

/-- What is written for a proper value is valid. -/
theorem Value.valid_compact {v : Value} (h : v.Proper) : Valid (Utf8.encode v.compact) := by
  have htokens : lexemes (tokens (Utf8.encode v.compact)) = v.words := (prints_proper h).tokens
  constructor
  · rw [htokens]
    exact isValue_words h
  · rw [htokens]
    exact clear_words h

end Json

/-! ## Members written otherwise -/

/-- **The ways to write the members of a record otherwise**, where `Alike` values are written for
the same one. -/
inductive Reworked {κ : Type} (Alike : κ → List Lexeme → List Lexeme → Prop)
    (fields : List (Field κ)) : List Entry → List Entry → Prop where
  /-- The same members in another order. -/
  | reordered {es es' : List Entry} (h : es.Perm es') : Reworked Alike fields es es'
  /-- One more member, of a label that no field has. -/
  | extended {before after : List Entry} {name : String} {value : List Lexeme}
      (hname : name ∉ fields.map Field.label) :
      Reworked Alike fields (before ++ after) (before ++ (some name, value) :: after)
  /-- The value of one field written otherwise. -/
  | inside {before after : List Entry} {f : Field κ} {value value' : List Lexeme}
      (hf : f ∈ fields) (h : Alike f.kind value value') :
      Reworked Alike fields (before ++ (some f.label, value) :: after)
        (before ++ (some f.label, value') :: after)

section Records

variable {κ : Type} [Kinds κ] [Readable κ] [Spelled κ] [Defaulted κ]
  {Alike : κ → List Lexeme → List Lexeme → Prop} {fields : List (Field κ)} {es es' : List Entry}

omit [Kinds κ] [Readable κ] [Spelled κ] [Defaulted κ] in
theorem Reworked.named_iff (h : Reworked Alike fields es es') :
    (∀ e ∈ es, e.1.isSome = true) ↔ ∀ e ∈ es', e.1.isSome = true := by
  cases h with
  | reordered h =>
    constructor
    · exact fun hnames e he => hnames e (h.mem_iff.2 he)
    · exact fun hnames e he => hnames e (h.mem_iff.1 he)
  | extended | inside =>
    simp only [List.forall_mem_append, List.forall_mem_cons, Option.isSome_some, true_and]

/-- Each field takes the same from reworked members. -/
theorem Reworked.comes_iff (hs : (fields.map Field.label).Nodup)
    (halike : ∀ f ∈ fields, ∀ ls ls', Alike f.kind ls ls' →
      ∀ v, Spelled.Spells f.kind ls v ↔ Spelled.Spells f.kind ls' v)
    (h : Reworked Alike fields es es') :
    ∀ f ∈ fields, ∀ v, Comes f.kind (f.member.given es) v ↔ Comes f.kind (f.member.given es') v := by
  intro f hf v
  cases h with
  | reordered h => exact comes_perm_iff ((h.filter _).map _)
  | @extended before after name value hname =>
    have hother : f.member.names.contains name = false := by
      have hne : name ≠ f.label := fun heq => hname (heq ▸ List.mem_map_of_mem hf)
      simpa [Field.member] using hne
    rw [f.member.given_insert, hother]
    rfl
  | @inside before after g value value' hg hvalues =>
    rw [f.member.given_insert, f.member.given_insert]
    by_cases hlabel : f.member.names.contains g.label = true
    · -- no other field has the label
      obtain rfl : f = g := by
        have hsame : g.label = f.label := by simpa [Field.member] using hlabel
        exact List.inj_on_of_nodup_map hs hf hg hsame.symm
      rw [if_pos hlabel, if_pos hlabel, comes_insert_iff, comes_insert_iff,
        halike f hf value value' hvalues]
    · rw [if_neg hlabel, if_neg hlabel]

/-- **Reworked members make the same record**, however often they are reworked. -/
theorem Record.madeBy_iff_of_reworked (hs : (fields.map Field.label).Nodup)
    (halike : ∀ f ∈ fields, ∀ ls ls', Alike f.kind ls ls' →
      ∀ v, Spelled.Spells f.kind ls v ↔ Spelled.Spells f.kind ls' v)
    (h : EqvGen (Reworked Alike fields) es es') {r : Record fields} :
    MadeBy fields es r ↔ MadeBy fields es' r := by
  induction h with
  | rel es es' h => exact and_congr h.named_iff (madeOf_congr (h.comes_iff hs halike))
  | refl es => rfl
  | symm es es' _ ih => exact ih.symm
  | trans es es' es'' _ _ ih ih' => exact ih.trans ih'

end Records

/-! ## Values written otherwise -/

/-- **Rows that are written for the same one**: their members are reworked. -/
inductive Schema.Alike (entry : Schema Scalar) : List Lexeme → List Lexeme → Prop where
  | same {ls : List Lexeme} (h : IsValue ls) : Alike entry ls ls
  | reworked {ls ls' : List Lexeme} {es es' : List Entry} (h : Object ls es) (h' : Object ls' es')
      (hes : EqvGen (Reworked (fun _ _ _ => False) entry.fields) es es') : Alike entry ls ls'

namespace Schema

variable {entry : Schema Scalar} {ls ls' : List Lexeme} {items items' : List (List Lexeme)}

theorem Alike.spells_iff (hs : (entry.fields.map Field.label).Nodup) (h : entry.Alike ls ls')
    {r : Record entry.fields} : entry.Spells ls r ↔ entry.Spells ls' r := by
  cases h with
  | same => rfl
  | reworked h h' hes =>
    rw [spells_object_iff h hs, spells_object_iff h' hs]
    exact Record.madeBy_iff_of_reworked hs (fun _ _ _ _ hnone => hnone.elim) hes

theorem Alike.isValue (h : entry.Alike ls ls') : IsValue ls ∧ IsValue ls' := by
  cases h with
  | same h => exact ⟨h, h⟩
  | reworked h h' => exact ⟨h.isValue, h'.isValue⟩

theorem isValue_of_alike (h : List.Forall₂ entry.Alike items items') :
    (∀ ls ∈ items, IsValue ls) ∧ ∀ ls ∈ items', IsValue ls := by
  induction h with
  | nil => exact ⟨List.forall_mem_nil _, List.forall_mem_nil _⟩
  | cons hrow _ ih =>
    exact ⟨List.forall_mem_cons.2 ⟨hrow.isValue.1, ih.1⟩,
      List.forall_mem_cons.2 ⟨hrow.isValue.2, ih.2⟩⟩

theorem spellsAll_iff_of_alike (hs : (entry.fields.map Field.label).Nodup)
    (h : List.Forall₂ entry.Alike items items') {rs : List (Record entry.fields)} :
    SpellsAll entry items rs ↔ SpellsAll entry items' rs := by
  induction h generalizing rs with
  | nil => rfl
  | cons hrow _ ih =>
    cases rs with
    | nil => exact ⟨fun h => (nomatch h), fun h => (nomatch h)⟩
    | cons r rs =>
      have hfirst : entry.Spells _ r ↔ entry.Spells _ r := hrow.spells_iff hs
      exact List.forall₂_cons.trans ((and_congr hfirst ih).trans List.forall₂_cons.symm)

end Schema

/-- **Values that are written for the same one**: a list whose rows are. -/
def Kind.Alike : Kind → List Lexeme → List Lexeme → Prop
  | .one _, _, _ => False
  | .many entry, ls, ls' => ∃ items items', ls = .openArray :: elementLexemes true items ∧
      ls' = .openArray :: elementLexemes true items' ∧ List.Forall₂ entry.Alike items items'

/-- An array of values is the list of what they spell. -/
theorem Kind.spells_array_iff {entry : Schema Scalar} {items : List (List Lexeme)}
    (h : ∀ ls ∈ items, IsValue ls) {rs : List (Record entry.fields)} :
    Kind.Spells (.many entry) (.openArray :: elementLexemes true items) rs ↔
      SpellsAll entry items rs := by
  constructor
  · rintro ⟨items', hitems, hall⟩
    have hsame : elementLexemes true items = elementLexemes true items' := (List.cons.inj hitems).2
    rwa [elementLexemes_inj h (SpellsAll.isValue hall) hsame]
  · intro hall
    exact ⟨items, rfl, hall⟩

theorem Kind.Alike.spells_iff {k : Kind} (hk : k.told = true) {ls ls' : List Lexeme}
    (h : k.Alike ls ls') {v : Carrier k} : k.Spells ls v ↔ k.Spells ls' v := by
  cases k with
  | one s => exact h.elim
  | many entry =>
    obtain ⟨items, items', rfl, rfl, hrows⟩ := h
    obtain ⟨hitems, hitems'⟩ := Schema.isValue_of_alike hrows
    rw [spells_array_iff hitems, spells_array_iff hitems']
    exact Schema.spellsAll_iff_of_alike (Record.nodup_of_told hk) hrows

/-! ## Messages -/

namespace Message

variable {M : Type} [Message M]

/-- **Texts of an object that say the same of a message.** White space is left out of account. -/
def Rearranged (M : Type) [Message M] (text text' : Bytes) : Prop :=
  ∃ es es', Holds text es ∧ Holds text' es' ∧ EqvGen (Reworked Kind.Alike (schema M).fields) es es'

/-- **What the JSON of a type of messages keeps.** -/
structure KeptInJson (M : Type) [Message M] : Prop where
  /-- A message comes back if the text of each double in it does. -/
  returns : ∀ m : M, ReadsBack m → ofText M (Utf8.encode (text m)) = .ok m
  /-- Any message at all is written as a valid text. -/
  valid : ∀ m : M, Valid (Utf8.encode (text m))
  /-- It holds one member for each field, in their order. -/
  holds : ∀ m : M, HoldsObject (Utf8.encode (text m))
    (Value.memberWords (Record.members (schema M).fields (toRecord m)))
  /-- An object is read as the message that its members make, and a field without a member takes
  its initial value. -/
  reads : ∀ text es, Holds text es → ∀ m : M,
    ofText M text = .ok m ↔ Record.MadeBy (schema M).fields es (toRecord m)
  /-- However its members are rearranged, it is read as the same message, if as one. -/
  rearranged : ∀ text text', Rearranged M text text' → ∀ m : M,
    ofText M text = .ok m ↔ ofText M text' = .ok m

theorem ofText_eq_ok_iff_of_holds (hs : Record.told (schema M).fields = true) {text : Bytes}
    {es : List Entry} (h : Holds text es) {m : M} :
    ofText M text = .ok m ↔ Record.MadeBy (schema M).fields es (toRecord m) := by
  rw [ofText, map_ofRecord_eq_ok_iff, Record.ofText_eq_ok_iff]
  exact Schema.spells_object_iff h.object (Record.nodup_of_told hs)

/-- It is enough that the labels of the fields tell them apart. -/
theorem keptInJson_of_told (hs : Record.told (schema M).fields = true) : KeptInJson M where
  returns m h := (ofText_text hs h).2
  valid m := Value.valid_compact (.object (Record.proper_members _ _))
  holds m := Value.holdsObject_compact (Record.proper_members _ _)
  reads text es h m := ofText_eq_ok_iff_of_holds hs h
  rearranged := by
    rintro text text' ⟨es, es', h, h', hes⟩ m
    rw [ofText_eq_ok_iff_of_holds hs h, ofText_eq_ok_iff_of_holds hs h']
    refine Record.madeBy_iff_of_reworked (Record.nodup_of_told hs) ?_ hes
    intro f hf ls ls' halike v
    exact halike.spells_iff (Record.told_of_mem hs hf)

/-- **A double is written as null** exactly if it is not finite. -/
theorem words_double_iff {d : Double} :
    (Scalar.toJson .double d).words = [.null] ↔ d.isFinite = false := by
  change (Value.ofDouble d).words = [.null] ↔ _
  unfold Value.ofDouble
  split
  · rename_i hfinite
    simp [Value.words, hfinite]
  · rename_i hfinite
    simpa [Value.words] using hfinite

/-- **The JSON of all eleven types of messages keeps them**, but for doubles that are not finite, of
which null is left. -/
theorem messages_keptInJson :
    (∀ d : Double, (Scalar.toJson .double d).words = [.null] ↔ d.isFinite = false) ∧
      KeptInJson SubmitOrderRequest ∧ KeptInJson SubmitOrderResponse ∧
      KeptInJson GetOrderBookRequest ∧ KeptInJson OrderBookEntry ∧
      KeptInJson GetOrderBookResponse ∧ KeptInJson CancelOrderRequest ∧
      KeptInJson CancelOrderResponse ∧ KeptInJson ModifyOrderRequest ∧
      KeptInJson ModifyOrderResponse ∧ KeptInJson SubscribeTradesRequest ∧
      KeptInJson TradeUpdate := by
  refine ⟨fun _ => words_double_iff, ?_, ?_, ?_, ?_, ?_, ?_, ?_, ?_, ?_, ?_, ?_⟩
  all_goals exact keptInJson_of_told (by decide)

/-- A trade with quotes, backslashes, control characters and a letter of two octets in it. -/
def oddTrade : TradeUpdate :=
  ⟨"b\"1\"", "s\\2", ⟨0x4062C80000000000⟩, 3, "\u0001\n", "é"⟩

/-- A small book. -/
def plainBook : String := "\x7b\"bids\":[\x7b\"price\":2,\"quantity\":1\x7d],\"asks\":[]\x7d"

/-- The same book: its members and those of its row are the other way round, and there is one more. -/
def turnedBook : String :=
  "\x7b\"asks\":[],\"depth\":null,\"bids\":[\x7b\"quantity\":1,\"price\":2\x7d]\x7d"

theorem rearranged_plainBook :
    Rearranged GetOrderBookResponse (Utf8.encode plainBook) (Utf8.encode turnedBook) := by
  let price : Entry := (some "price", [.number (.ofInt 2)])
  let quantity : Entry := (some "quantity", [.number (.ofInt 1)])
  let bids (row : List Entry) : Entry :=
    (some "bids", .openArray :: elementLexemes true [.openObject :: entryLexemes true row])
  let asks : Entry := (some "asks", [.openArray, .closeArray])
  let depth : Entry := (some "depth", [.null])
  have hvalues : ∀ e ∈ [price, quantity], IsValue e.2 :=
    List.forall_mem_cons.2 ⟨.word rfl, List.forall_mem_singleton.2 (.word rfl)⟩
  have hrow : Object (.openObject :: entryLexemes true [price, quantity]) [price, quantity] :=
    ⟨rfl, hvalues⟩
  have hrow' : Object (.openObject :: entryLexemes true [quantity, price]) [quantity, price] :=
    ⟨rfl, fun e he => hvalues e ((List.Perm.swap _ _ _).mem_iff.1 he)⟩
  have hplain : Holds (Utf8.encode plainBook) [bids [price, quantity], asks] := by
    refine ⟨by cbv, List.forall_mem_cons.2 ⟨?_, List.forall_mem_singleton.2 .emptyArray⟩⟩
    exact isValue_array (List.forall_mem_singleton.2 hrow.isValue)
  have hturned : Holds (Utf8.encode turnedBook) [asks, depth, bids [quantity, price]] := by
    refine ⟨by cbv, List.forall_mem_cons.2 ⟨.emptyArray, List.forall_mem_cons.2 ⟨.word rfl, ?_⟩⟩⟩
    exact List.forall_mem_singleton.2 (isValue_array (List.forall_mem_singleton.2 hrow'.isValue))
  -- first the row is reworked, then the sides change places, and last the depth comes in
  have hinside : Reworked Kind.Alike (schema GetOrderBookResponse).fields
      ([] ++ bids [price, quantity] :: [asks]) ([] ++ bids [quantity, price] :: [asks]) := by
    have halike : OrderBookEntry.row.Alike _ _ :=
      .reworked hrow hrow' (.rel _ _ (.reordered (.swap _ _ _)))
    have hfield : ⟨"bids", "bids", 1, .many OrderBookEntry.row⟩ ∈
        (schema GetOrderBookResponse).fields := List.mem_cons_self
    exact .inside hfield ⟨_, _, rfl, rfl, .cons halike .nil⟩
  have hswap : Reworked Kind.Alike (schema GetOrderBookResponse).fields
      [bids [quantity, price], asks] [asks, bids [quantity, price]] :=
    .reordered (.swap _ _ _)
  have hdepth : Reworked Kind.Alike (schema GetOrderBookResponse).fields
      ([asks] ++ [bids [quantity, price]]) ([asks] ++ depth :: [bids [quantity, price]]) :=
    .extended (by decide)
  exact ⟨_, _, hplain, hturned,
    .trans _ _ _ (.rel _ _ hinside) (.trans _ _ _ (.rel _ _ hswap) (.rel _ _ hdepth))⟩

/-- The odd trade comes back, and the book that is turned round is read as ever. -/
theorem messages_keptInJson_trade_and_book :
    ofText TradeUpdate (Utf8.encode (text oddTrade)) = .ok oddTrade ∧
      ofText GetOrderBookResponse (Utf8.encode turnedBook) = .ok ⟨[⟨.ofInt 2, 1⟩], []⟩ := by
  obtain ⟨-, -, -, -, -, hbook, -, -, -, -, -, htrade⟩ := messages_keptInJson
  constructor
  · refine htrade.returns oddTrade ⟨trivial, trivial, ?_, trivial, trivial, trivial, trivial⟩
    exact ⟨by decide +kernel, by decide +kernel⟩
  · refine (hbook.rearranged _ _ rearranged_plainBook _).1 ?_
    have hread : (ofText GetOrderBookResponse (Utf8.encode plainBook)).toOption =
        some ⟨[⟨.ofInt 2, 1⟩], []⟩ := by
      decide +kernel
    generalize ofText GetOrderBookResponse _ = read at hread
    cases read with
    | ok m => exact congrArg Except.ok (Option.some.inj hread)
    | error e => cases hread

end Message

end OrderRelay
