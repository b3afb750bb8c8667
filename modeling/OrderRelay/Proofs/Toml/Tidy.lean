import Mathlib.Algebra.Ring.Int.Defs
import Mathlib.Data.List.Nodup
import Mathlib.Tactic.Common
import OrderRelay.Toml.Document

/-!
# What a document can hold

In a table of a document no name stands for two things, however its tables have been written down,
and no whole number is longer than 64 bits.

* `Value.Tidy`: the values of which this is true at every depth.
* `Node.Tidy.update`: a change to a table within a document keeps it so.
* `Reader.Yields`: what a reader can come up with.
* `Document.tidy_of_parse?`: **what a document is read as is tidy.**
-/

namespace OrderRelay.Toml

/-- **No name stands twice in a table, and no whole number is too long.** -/
inductive Value.Tidy : Value → Prop where
  | text (s : String) : Tidy (.text s)
  | whole {n : Int} (low : -2 ^ 63 ≤ n) (high : n < 2 ^ 63) : Tidy (.whole n)
  | double (d : Double) : Tidy (.double d)
  | bool (b : Bool) : Tidy (.bool b)
  | moment : Tidy .moment
  | array {items : List Value} (inner : ∀ v ∈ items, Tidy v) : Tidy (.array items)
  | table {entries : List (String × Value)} (names : (entries.map Prod.fst).Nodup)
      (inner : ∀ e ∈ entries, Tidy e.2) : Tidy (.table entries)

namespace Node

/-- The same of a part of a document that is being read. -/
inductive Tidy : Node → Prop where
  | value {v : Value} (h : v.Tidy) : Tidy (.value v)
  | table {passed dotted : Bool} {entries : List (String × Node)}
      (names : (entries.map Prod.fst).Nodup) (inner : ∀ e ∈ entries, Tidy e.2) :
      Tidy (.table passed dotted entries)
  | tables {elements : List Node} (inner : ∀ n ∈ elements, Tidy n) : Tidy (.tables elements)

/-- A table without entries is tidy. -/
theorem tidy_nil (passed dotted : Bool) : (table passed dotted []).Tidy :=
  .table List.nodup_nil (by simp)

/-! ## Entries -/

variable {name : String} {n child : Node} {entries : List (String × Node)} {passed dotted : Bool}

theorem mem_of_lookup (h : entries.lookup name = some n) : (name, n) ∈ entries := by
  obtain ⟨before, after, rfl, -⟩ := List.lookup_eq_some_iff.1 h
  exact List.mem_append_right before List.mem_cons_self

theorem not_mem_of_lookup (h : entries.lookup name = none) : name ∉ entries.map Prod.fst := by
  intro hmem
  obtain ⟨e, he, rfl⟩ := List.mem_map.1 hmem
  simpa using List.lookup_eq_none_iff.1 h e he

/-- What stands under a name is tidy if the table is. -/
theorem Tidy.of_lookup (h : (Node.table passed dotted entries).Tidy)
    (hn : entries.lookup name = some n) : n.Tidy := by
  cases h with
  | table _ inner => exact inner _ (mem_of_lookup hn)

theorem mem_put {e : String × Node} (h : e ∈ put name n entries) : e = (name, n) ∨ e ∈ entries := by
  induction entries with
  | nil => exact .inl (List.mem_singleton.1 h)
  | cons head rest ih =>
    rw [put] at h
    split at h
    case isTrue hname =>
      rcases List.mem_cons.1 h with rfl | h
      · exact .inl (by rw [hname])
      · exact .inr (List.mem_cons_of_mem _ h)
    case isFalse =>
      rcases List.mem_cons.1 h with rfl | h
      · exact .inr List.mem_cons_self
      · exact (ih h).imp_right (List.mem_cons_of_mem _)

theorem nodup_put (h : (entries.map Prod.fst).Nodup) : ((put name n entries).map Prod.fst).Nodup := by
  induction entries with
  | nil => exact List.nodup_singleton name
  | cons head rest ih =>
    obtain ⟨hnew, hrest⟩ := List.nodup_cons.1 h
    rw [put]
    split
    case isTrue => exact h
    case isFalse hname =>
      refine List.nodup_cons.2 ⟨fun hmem => ?_, ih hrest⟩
      obtain ⟨e, he, hfst⟩ := List.mem_map.1 hmem
      rcases mem_put he with rfl | he
      · exact hname hfst.symm
      · exact hnew (List.mem_map.2 ⟨e, he, hfst⟩)

/-- A name may be given another meaning. -/
theorem Tidy.put (h : (Node.table passed dotted entries).Tidy) (hn : n.Tidy) (name : String) :
    (Node.table passed dotted (put name n entries)).Tidy := by
  cases h with
  | table names inner =>
    refine .table (nodup_put names) fun e he => ?_
    rcases mem_put he with rfl | he
    · exact hn
    · exact inner e he

/-- A new name may be given a meaning. -/
theorem Tidy.append (h : (Node.table passed dotted entries).Tidy) (hnew : entries.lookup name = none)
    (hn : n.Tidy) : (Node.table passed dotted (entries ++ [(name, n)])).Tidy := by
  cases h with
  | table names inner =>
    refine .table ?_ fun e he => ?_
    · rw [List.map_append]
      refine names.append (List.nodup_singleton name) fun m hm hname => ?_
      obtain rfl : m = name := List.mem_singleton.1 hname
      exact not_mem_of_lookup hnew hm
    · rcases List.mem_append.1 he with he | he
      · exact inner e he
      · obtain rfl := List.mem_singleton.1 he
        exact hn

/-- The flags of a table do not matter. -/
theorem Tidy.flags (h : (Node.table passed dotted entries).Tidy) (p d : Bool) :
    (Node.table p d entries).Tidy := by
  cases h with
  | table names inner => exact .table names inner

/-! ## Changes -/

variable {change : Node → Option Node}

/-- **A change that keeps tables tidy can be made anywhere.** -/
theorem Tidy.update (hchange : ∀ m m', m.Tidy → change m = some m' → m'.Tidy) {path : List String}
    {node node' : Node} (h : node.Tidy) (hupdate : update dotted change path node = some node') :
    node'.Tidy := by
  induction path generalizing node node' with
  | nil =>
    rw [Node.update] at hupdate
    exact hchange _ _ h hupdate
  | cons name path ih =>
    cases node with
    | value v => cases hupdate
    | tables elements => cases hupdate
    | table passed isDotted entries =>
      rw [Node.update] at hupdate
      split at hupdate
      case h_1 hnone =>
        obtain ⟨child, hchild, hnode⟩ := Option.bind_eq_some_iff.1 hupdate
        have hnew : child.Tidy := ih (tidy_nil true dotted) hchild
        cases hnode
        exact h.append hnone hnew
      case h_2 => cases hupdate
      case h_3 elements hlookup =>
        cases h.of_lookup hlookup with
        | tables inner =>
          split at hupdate
          case h_1 => cases hupdate
          case h_2 last before hreverse =>
            obtain ⟨child, hchild, hnode⟩ := Option.bind_eq_some_iff.1 hupdate
            have hmem : ∀ m ∈ last :: before, m.Tidy := fun m hm =>
              inner m (List.mem_reverse.1 (hreverse ▸ hm))
            have hnew : child.Tidy := ih (hmem last List.mem_cons_self) hchild
            have htables : (Node.tables (child :: before).reverse).Tidy := by
              refine .tables fun m hm => ?_
              rcases List.mem_cons.1 (List.mem_reverse.1 hm) with rfl | hm
              · exact hnew
              · exact hmem m (List.mem_cons_of_mem _ hm)
            cases hnode
            exact h.put htables name
      case h_4 p d es hlookup =>
        split at hupdate
        case isTrue => cases hupdate
        case isFalse =>
          obtain ⟨child, hchild, hnode⟩ := Option.bind_eq_some_iff.1 hupdate
          have hnew : child.Tidy := ih (h.of_lookup hlookup) hchild
          cases hnode
          exact h.put hnew name

/-- A key is defined once. -/
theorem Tidy.define {path : List String} {v : Value} {node node' : Node} (h : node.Tidy)
    (hv : v.Tidy) (hdefine : define path v node = some node') : node'.Tidy := by
  refine h.update (fun m m' hm hm' => ?_) hdefine
  split at hm'
  case h_2 => cases hm'
  case h_1 passed dotted entries =>
    split at hm'
    case isTrue => cases hm'
    case isFalse hfree =>
      cases hm'
      simp only [Bool.or_eq_true, not_or, Bool.not_eq_true, Option.isSome_eq_false_iff,
        Option.isNone_iff_eq_none] at hfree
      exact hm.append hfree.2 (.value hv)

/-! ## Complete nodes -/

theorem entryValues_eq_map (entries : List (String × Node)) :
    entryValues entries = entries.map fun e => (e.1, e.2.toValue) := by
  induction entries with
  | nil => rfl
  | cons e rest ih => rw [entryValues, ih, List.map_cons]

theorem elementValues_eq_map (elements : List Node) :
    elementValues elements = elements.map toValue := by
  induction elements with
  | nil => rfl
  | cons n rest ih => rw [elementValues, ih, List.map_cons]

/-- What is tidy while it is being read is tidy when it is complete. -/
theorem Tidy.toValue {node : Node} (h : node.Tidy) : node.toValue.Tidy := by
  induction h with
  | value h =>
    rw [Node.toValue]
    exact h
  | table names _ ih =>
    rw [Node.toValue, entryValues_eq_map]
    refine .table (by simpa [List.map_map, Function.comp_def] using names) fun e he => ?_
    obtain ⟨e', he', rfl⟩ := List.mem_map.1 he
    exact ih e' he'
  | tables _ ih =>
    rw [Node.toValue, elementValues_eq_map]
    refine .array fun v hv => ?_
    obtain ⟨n, hn, rfl⟩ := List.mem_map.1 hv
    exact ih n hn

end Node

/-! ## Words -/

theorem Word.inRange?_eq_some {n m : Int} (h : inRange? n = some m) : -2 ^ 63 ≤ m ∧ m < 2 ^ 63 := by
  unfold inRange? at h
  split at h
  case isFalse => cases h
  case isTrue hrange =>
    simp only [Bool.and_eq_true, decide_eq_true_eq] at hrange
    cases h
    omega

theorem Word.whole?_eq_some {cs : List Char} {n : Int} (h : whole? cs = some n) :
    -2 ^ 63 ≤ n ∧ n < 2 ^ 63 := by
  unfold whole? at h
  split at h
  all_goals
    obtain ⟨_, _, hrange⟩ := Option.bind_eq_some_iff.1 h
    exact inRange?_eq_some hrange

theorem Value.tidy_of_ofWord? {cs : List Char} {v : Value} (h : ofWord? cs = some v) : v.Tidy := by
  unfold ofWord? at h
  split at h
  case isTrue =>
    cases h
    exact .bool true
  case isFalse =>
    split at h
    case isTrue =>
      cases h
      exact .bool false
    case isFalse =>
      split at h
      case isTrue =>
        cases h
        exact .moment
      case isFalse =>
        split at h
        case h_1 d _ =>
          cases h
          exact .double d
        case h_2 =>
          obtain ⟨n, hn, rfl⟩ := Option.map_eq_some_iff.1 h
          obtain ⟨hlow, hhigh⟩ := Word.whole?_eq_some hn
          exact .whole hlow hhigh

/-! ## Readers -/

namespace Reader

/-- **Whatever a reader comes up with** has a property. -/
def Yields {α : Type} (P : α → Prop) (r : Reader α) : Prop :=
  ∀ cs a rest, r cs = some (a, rest) → P a

section

variable {α β : Type} {P : α → Prop} {Q : β → Prop} {r : Reader α} {f : α → Reader β}

theorem Yields.pure {a : α} (h : P a) : Yields P (Pure.pure a : Reader α) := by
  intro cs b rest hrun
  cases hrun
  exact h

theorem Yields.failure : Yields P (failure : Reader α) := fun _ _ _ h => nomatch h

theorem Yields.bind (hr : Yields P r) (hf : ∀ a, P a → Yields Q (f a)) : Yields Q (r >>= f) := by
  intro cs b rest hrun
  obtain ⟨⟨a, cs'⟩, hfirst, hthen⟩ := Option.bind_eq_some_iff.1 hrun
  exact hf a (hr cs a cs' hfirst) cs' b rest hthen

/-- The result of the first reader need not matter. -/
theorem Yields.after (hf : ∀ a, Yields Q (f a)) : Yields Q (r >>= f) :=
  Yields.bind (P := fun _ => True) (fun _ _ _ _ => trivial) fun a _ => hf a

theorem Yields.lift {o : Option α} (h : ∀ a, o = some a → P a) : Yields P (liftM o : Reader α) := by
  intro cs a rest hrun
  obtain ⟨b, hb, hpure⟩ := Option.bind_eq_some_iff.1 hrun
  cases hpure
  exact h _ hb

end

theorem yields_word : Yields Value.Tidy word := by
  intro cs v rest hrun
  unfold word at hrun
  simp only at hrun
  split at hrun
  · split at hrun
    all_goals
      obtain ⟨v', hv', hpure⟩ := Option.bind_eq_some_iff.1 hrun
      cases hpure
      exact Value.tidy_of_ofWord? hv'
  · obtain ⟨v', hv', hpure⟩ := Option.bind_eq_some_iff.1 hrun
    cases hpure
    exact Value.tidy_of_ofWord? hv'

section

variable {fuel : ℕ} (hvalue : ∀ depth, Yields Value.Tidy (value fuel depth))
  (helements : ∀ depth, Yields (fun items => ∀ v ∈ items, v.Tidy) (elements fuel depth))
  (hpairs : ∀ depth before, before.Tidy → Yields Node.Tidy (pairs fuel depth before))

include helements hpairs in
theorem yields_value_succ (depth : ℕ) : Yields Value.Tidy (value (fuel + 1) depth) := by
  have hnothing : (Value.table []).Tidy := .table List.nodup_nil nofun
  have harray : Yields Value.Tidy (do return .array (← elements fuel (depth - 1))) :=
    .bind (helements _) fun items hitems => .pure (.array hitems)
  have htable : Yields Value.Tidy (do
      return (← pairs fuel (depth - 1) (.table false false [])).toValue) :=
    .bind (hpairs _ _ (Node.tidy_nil false false)) fun node hnode => .pure hnode.toValue
  rw [value.eq_def]
  refine .after fun c => ?_
  split
  · exact .after fun s => .pure (.text s)
  · exact .after fun s => .pure (.text s)
  · split
    · exact .failure
    · exact .after fun _ => harray
  · split
    · exact .failure
    · refine .after fun _ => .after fun _ => .after fun c => ?_
      split
      · exact .after fun _ => .pure hnothing
      · exact htable
  · exact yields_word

include hvalue helements in
theorem yields_elements_succ (depth : ℕ) :
    Yields (fun items => ∀ v ∈ items, v.Tidy) (elements (fuel + 1) depth) := by
  rw [elements]
  refine .after fun _ => .after fun c => ?_
  split
  · exact .after fun _ => .pure (by simp)
  · refine .bind (hvalue _) fun v hv => .after fun _ => .after fun c => ?_
    split
    · exact .after fun _ => .bind (helements _) fun items hitems =>
        .pure (List.forall_mem_cons.2 ⟨hv, hitems⟩)
    · exact .after fun _ => .pure (by simpa using hv)

include hvalue hpairs in
theorem yields_pairs_succ (depth : ℕ) {before : Node} (hbefore : before.Tidy) :
    Yields Node.Tidy (pairs (fuel + 1) depth before) := by
  rw [pairs]
  refine .after fun path => .after fun _ => .after fun _ => .bind (hvalue _) fun v hv => ?_
  have hdefine : ∀ node, before.define path v = some node → node.Tidy := fun node hnode =>
    hbefore.define hv hnode
  refine .after fun _ => .bind (.lift hdefine) fun node hnode => .after fun c => ?_
  split
  · exact .after fun _ => hpairs _ _ hnode
  · exact .after fun _ => .pure hnode

end

/-- **Every value that is read is tidy**, and so are the elements and the entries within it. -/
theorem yields_value (fuel : ℕ) :
    (∀ depth, Yields Value.Tidy (value fuel depth)) ∧
    (∀ depth, Yields (fun items => ∀ v ∈ items, v.Tidy) (elements fuel depth)) ∧
    ∀ depth before, before.Tidy → Yields Node.Tidy (pairs fuel depth before) := by
  -- each of the three readers calls the others with less fuel
  induction fuel with
  | zero => exact ⟨fun _ => .failure, fun _ => .failure, fun _ _ _ => .failure⟩
  | succ fuel ih =>
    obtain ⟨hvalue, helements, hpairs⟩ := ih
    exact ⟨yields_value_succ helements hpairs, yields_elements_succ hvalue helements,
      fun depth _ hbefore => yields_pairs_succ hvalue hpairs depth hbefore⟩

theorem yields_assignment : Yields (fun a => a.2.Tidy) assignment := by
  intro cs a rest hrun
  have h : Yields (fun a : List String × Value => a.2.Tidy) (do
      let path ← keyPath
      char '='
      blanks
      let v ← value (cs.length + 1) maxDepth
      return (path, v)) :=
    .after fun _ => .after fun _ => .after fun _ =>
      .bind ((yields_value _).1 _) fun v hv => .pure hv
  exact h cs a rest hrun

end Reader

/-! ## Documents -/

namespace Draft

open Reader

/-- The tables of a document that is being read are tidy. -/
structure Tidy (d : Draft) : Prop where
  root : d.root.Tidy
  current : d.current.Tidy

theorem tidy_start : start.Tidy := ⟨(Node.tidy_nil false false), (Node.tidy_nil false false)⟩

variable {d d' : Draft} {path : List String}

theorem Tidy.close {node : Node} (h : d.Tidy) (hclose : d.close = some node) : node.Tidy := by
  unfold Draft.close at hclose
  split at hclose
  case isTrue =>
    cases hclose
    exact h.current
  case isFalse =>
    refine h.root.update (fun m m' hm hm' => ?_) hclose
    split at hm'
    case h_2 => cases hm'
    case h_1 passed dotted entries =>
      split at hm'
      case h_1 hlookup _ =>
        cases hm'
        exact hm.append hlookup h.current
      case h_2 hlookup _ =>
        cases hm'
        have hone : (Node.tables [d.current]).Tidy := .tables (by simpa using h.current)
        exact hm.append hlookup hone
      case h_3 es hlookup _ =>
        cases hm'
        have hmore : (Node.tables (es ++ [d.current])).Tidy := by
          refine .tables fun n hn => ?_
          rcases List.mem_append.1 hn with hn | hn
          · cases hm.of_lookup hlookup with
            | tables inner => exact inner n hn
          · obtain rfl := List.mem_singleton.1 hn
            exact h.current
        exact hm.put hmore _
      case h_4 =>
        cases hm'
        exact hm.put h.current _
      case h_5 => cases hm'

/-- Taking a table out of a tidy one leaves two that are tidy. -/
theorem tidy_of_take {name : String} {parent table rest : Node} (h : parent.Tidy)
    (htake : take name parent = some (table, rest)) : table.Tidy ∧ rest.Tidy := by
  unfold take at htake
  split at htake
  case h_2 => cases htake
  case h_1 passed dotted entries =>
    split at htake
    case h_1 =>
      cases htake
      exact ⟨(Node.tidy_nil false false), h⟩
    case h_2 es hlookup =>
      cases htake
      refine ⟨(h.of_lookup hlookup).flags _ _, ?_⟩
      cases h with
      | table names inner =>
        exact .table ((List.filter_sublist.map Prod.fst).nodup names) fun e he =>
          inner e (List.mem_filter.1 he).1
    case h_3 => cases htake

theorem tidy_of_find? {name : String} {node table : Node} (h : node.Tidy)
    (hfind : openTable.find? name path node = some table) : table.Tidy := by
  induction path generalizing node with
  | nil =>
    rw [openTable.find?] at hfind
    obtain ⟨taken, htake, rfl⟩ := Option.map_eq_some_iff.1 hfind
    exact (tidy_of_take h htake).1
  | cons part path ih =>
    cases node with
    | value v => cases hfind
    | tables elements => cases hfind
    | table passed dotted entries =>
      rw [openTable.find?] at hfind
      split at hfind
      case h_1 =>
        cases hfind
        exact Node.tidy_nil false false
      case h_2 elements hlookup =>
        split at hfind
        case h_1 last hlast =>
          cases h.of_lookup hlookup with
          | tables inner =>
            have htidy : last.Tidy := inner last (List.mem_of_getLast? hlast)
            exact ih htidy hfind
        case h_2 => cases hfind
      case h_3 child _ hlookup => exact ih (h.of_lookup hlookup) hfind

theorem Tidy.openTable (h : d.Tidy) (hopen : d.openTable path = some d') : d'.Tidy := by
  obtain ⟨root, hclose, hthen⟩ := Option.bind_eq_some_iff.1 hopen
  obtain ⟨root', hupdate, hthen⟩ := Option.bind_eq_some_iff.1 hthen
  obtain ⟨current, hfind, hpure⟩ := Option.bind_eq_some_iff.1 hthen
  cases hpure
  have hroot := h.close hclose
  refine ⟨hroot.update (fun m m' hm hm' => ?_) hupdate, tidy_of_find? hroot hfind⟩
  obtain ⟨taken, htake, rfl⟩ := Option.map_eq_some_iff.1 hm'
  exact (tidy_of_take hm htake).2

theorem Tidy.openShared (h : d.Tidy) (hopen : d.openShared path = some d') : d'.Tidy := by
  obtain ⟨root, hclose, hthen⟩ := Option.bind_eq_some_iff.1 hopen
  obtain ⟨root', hupdate, hpure⟩ := Option.bind_eq_some_iff.1 hthen
  cases hpure
  refine ⟨(h.close hclose).update (fun m m' hm hm' => ?_) hupdate, (Node.tidy_nil false false)⟩
  split at hm'
  case h_2 => cases hm'
  case h_1 =>
    split at hm'
    case h_1 hlookup =>
      cases hm'
      exact hm.append hlookup (.tables (by simp))
    case h_2 =>
      cases hm'
      exact hm
    case h_3 => cases hm'

theorem Tidy.yields_header (h : d.Tidy) : Yields Tidy d.header := by
  unfold header
  refine .after fun _ => .after fun c => ?_
  split
  · exact .after fun _ => .after fun path => .after fun _ => .after fun _ => .after fun _ =>
      .lift fun d' hd' => h.openShared hd'
  · exact .after fun path => .after fun _ => .after fun _ => .lift fun d' hd' => h.openTable hd'

theorem Tidy.yields_entry (h : d.Tidy) : Yields Tidy d.entry := by
  unfold entry
  refine .bind yields_assignment fun a ha => .after fun _ =>
    .bind (.lift fun node hnode => h.current.define ha hnode) fun node hnode =>
      .pure ⟨h.root, hnode⟩

/-- What one line keeps, all lines keep. -/
theorem Tidy.yields_lines (h : d.Tidy) (fuel : ℕ) : Yields Tidy (lines fuel d) := by
  induction fuel generalizing d with
  | zero => exact .failure
  | succ fuel ih =>
    rw [lines]
    refine .after fun _ => .after fun c => ?_
    split
    · exact .pure h
    · exact .after fun _ => ih h
    · exact .after fun _ => ih h
    · exact .after fun _ => ih h
    · exact .bind h.yields_header fun d' hd' => ih hd'
    · exact .bind h.yields_entry fun d' hd' => ih hd'

end Draft

/-- **What a document is read as is tidy.** -/
theorem Document.tidy_of_parse? {text : String} {entries : List (String × Value)}
    (h : parse? text = some entries) : (Value.table entries).Tidy := by
  obtain ⟨⟨d, rest⟩, hlines, hthen⟩ := Option.bind_eq_some_iff.1 h
  obtain ⟨node, hclose, hvalue⟩ := Option.bind_eq_some_iff.1 hthen
  have hnode := (Draft.tidy_start.yields_lines _ _ d rest hlines).close hclose
  split at hvalue
  case h_1 hentries =>
    cases hvalue
    exact hentries ▸ hnode.toValue
  case h_2 => cases hvalue

end OrderRelay.Toml
