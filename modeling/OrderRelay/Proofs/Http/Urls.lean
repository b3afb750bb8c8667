import Mathlib.Data.List.DropRight
import Mathlib.Data.List.Infix
import OrderRelay.Http.Url
import OrderRelay.Proofs.Front.Paths
import OrderRelay.Proofs.Text.Escapes
import OrderRelay.Proofs.Text.Octets

/-!
# What is left of the end of an address

Of what is written at the end of an address, blanks may go, a number sign or a question mark ends
the path, slashes cut it into segments, and dots take segments away. Only the last segment of what
is left can name something.

* `inPath`: what is left of the end of an address for the path.
* `inPath_eq_self_iff`: an end of which nothing goes.
* `pathOf_eq`: a path whose segments are all kept.
* `exists_pathOf`: the last segment of any path.
* `Intact`, `intact_of_decodeText?`: **the names that arrive**, and no others do.
* `IsService`, `IsService.path_of_parse?`: the paths of the addresses of a service.
* `exists_target`: what a request asks for, path and query.
-/

namespace OrderRelay.Http.Url

/-! ## Characters that count -/

theorem not_isIgnored {c : Char} (h : isTrimmed c = false) : isIgnored c = false := by
  have hlt : 0x20 < c.toNat := by simpa [isTrimmed] using h
  have hne : ∀ d : Char, d.toNat ≤ 0x20 → (c == d) = false := by
    intro d hd
    refine beq_eq_false_iff_ne.2 ?_
    rintro rfl
    omega
  simp [isIgnored, hne]

/-- What counts of the characters at the end of an address. -/
def kept (cs : List Char) : List Char := (cs.rdropWhile isTrimmed).filter (!isIgnored ·)

theorem kept_sublist (cs : List Char) : (kept cs).Sublist cs :=
  List.filter_sublist.trans (List.rdropWhile_prefix isTrimmed cs).sublist

/-- Nothing goes of what stands in front without blanks. -/
theorem kept_append {front : List Char} (h : ∀ c ∈ front, isTrimmed c = false) (cs : List Char) :
    kept (front ++ cs) = front ++ kept cs := by
  have hfront : front.filter (!isIgnored ·) = front :=
    List.filter_eq_self.2 fun c hc => by simp [not_isIgnored (h c hc)]
  have hdrop : (front ++ cs).rdropWhile isTrimmed = front ++ cs.rdropWhile isTrimmed := by
    have hself : front.reverse.dropWhile isTrimmed = front.reverse := by
      refine List.dropWhile_eq_self_iff.2 fun hl => ?_
      have hfirst := h _ (List.mem_reverse.1 (List.getElem_mem hl))
      simpa using hfirst
    unfold List.rdropWhile
    rw [List.reverse_append, List.dropWhile_append, hself]
    split
    · rename_i hempty
      rw [List.isEmpty_iff.1 hempty]
      simp
    · simp
  rw [kept, hdrop, List.filter_append, hfront, kept]

/-- Nothing is lost of a front without blanks. -/
theorem significant_append {s : String} {front cs : List Char} (hs : s.toList = front ++ cs)
    (hne : front ≠ []) (h : ∀ c ∈ front, isTrimmed c = false) :
    significant s = front ++ kept cs := by
  obtain ⟨c, front, rfl⟩ := List.exists_cons_of_ne_nil hne
  have hstart : (c :: front ++ cs).dropWhile isTrimmed = c :: front ++ cs := by
    rw [List.cons_append, List.dropWhile_cons, if_neg (by simp [h c List.mem_cons_self])]
  rw [← kept_append h, significant, hs, hstart]
  rfl

/-- What is left of the end of an address for the path. -/
def inPath (cs : List Char) : List Char :=
  ((kept cs).takeWhile (· != '#')).takeWhile (· != '?')

theorem inPath_sublist (cs : List Char) : (inPath cs).Sublist cs :=
  ((List.takeWhile_sublist _).trans (List.takeWhile_sublist _)).trans (kept_sublist cs)

theorem kept_eq_self_iff {cs : List Char} : kept cs = cs ↔
    (∀ c ∈ cs, isIgnored c = false) ∧ ∀ c ∈ cs.getLast?, isTrimmed c = false := by
  have hlast : cs.rdropWhile isTrimmed = cs ↔ ∀ c ∈ cs.getLast?, isTrimmed c = false := by
    rw [List.rdropWhile_eq_self_iff]
    cases cs using List.reverseRecOn with
    | nil => simp
    | append_singleton cs c => simp
  have hcounts : cs.filter (!isIgnored ·) = cs ↔ ∀ c ∈ cs, isIgnored c = false := by
    simp [List.filter_eq_self]
  rw [← hlast, ← hcounts]
  constructor
  · intro h
    -- neither step can have dropped anything
    have hsub := (List.rdropWhile_prefix isTrimmed cs).sublist
    have hle : cs.length ≤ (cs.rdropWhile isTrimmed).length := by
      have hfilter := List.length_filter_le (!isIgnored ·) (cs.rdropWhile isTrimmed)
      rwa [← kept, h] at hfilter
    have hself := hsub.eq_of_length_le hle
    rw [kept, hself] at h
    exact ⟨h, hself⟩
  · rintro ⟨hfilter, hdrop⟩
    rw [kept, hdrop, hfilter]

theorem takeWhile_ne_eq_self_iff {d : Char} {cs : List Char} :
    cs.takeWhile (· != d) = cs ↔ d ∉ cs := by
  rw [List.takeWhile_eq_self_iff]
  constructor
  · intro h hd
    simpa using h d hd
  · intro h c hc
    exact bne_iff_ne.2 fun heq => h (heq ▸ hc)

/-- **All of an end is left for the path** if no character in it counts for nothing or ends a path,
and the last one is no blank. -/
theorem inPath_eq_self_iff {cs : List Char} : inPath cs = cs ↔
    (∀ c ∈ cs, isIgnored c = false) ∧ '#' ∉ cs ∧ '?' ∉ cs ∧
      ∀ c ∈ cs.getLast?, isTrimmed c = false := by
  constructor
  · intro h
    have hkept : kept cs = cs := by
      refine (kept_sublist cs).eq_of_length_le ?_
      rw [← congrArg List.length h]
      exact ((List.takeWhile_sublist _).trans (List.takeWhile_sublist _)).length_le
    rw [inPath, hkept] at h
    have hsharp : cs.takeWhile (· != '#') = cs := by
      refine (List.takeWhile_sublist _).eq_of_length_le ?_
      rw [← congrArg List.length h]
      exact (List.takeWhile_sublist _).length_le
    rw [hsharp] at h
    obtain ⟨hcounts, hlast⟩ := kept_eq_self_iff.1 hkept
    exact ⟨hcounts, takeWhile_ne_eq_self_iff.1 hsharp, takeWhile_ne_eq_self_iff.1 h, hlast⟩
  · rintro ⟨hcounts, hsharp, hmark, hlast⟩
    rw [inPath, kept_eq_self_iff.2 ⟨hcounts, hlast⟩, takeWhile_ne_eq_self_iff.2 hsharp,
      takeWhile_ne_eq_self_iff.2 hmark]

/-! ## Segments -/

theorem segmentsOnto_append {seg : List Char} (hseg : ∀ c ∈ seg, isSlash c = false) {c : Char}
    (hc : isSlash c = true) (acc rest : List Char) :
    segmentsOnto acc (seg ++ c :: rest) = (acc.reverse ++ seg) :: segmentsOnto [] rest := by
  induction seg generalizing acc with
  | nil => simp [segmentsOnto, hc]
  | cons d seg ih =>
    rw [List.forall_mem_cons] at hseg
    rw [List.cons_append, segmentsOnto, if_neg (by simp [hseg.1]), ih hseg.2]
    simp

theorem segmentsOnto_of_plain {seg : List Char} (hseg : ∀ c ∈ seg, isSlash c = false)
    (acc : List Char) : segmentsOnto acc seg = [acc.reverse ++ seg] := by
  induction seg generalizing acc with
  | nil => simp [segmentsOnto]
  | cons d seg ih =>
    rw [List.forall_mem_cons] at hseg
    rw [segmentsOnto, if_neg (by simp [hseg.1]), ih hseg.2]
    simp

/-- The last segment is what stands behind the last slash. -/
theorem exists_getLast_segmentsOnto {acc : List Char} (hacc : ∀ c ∈ acc, isSlash c = false)
    (cs : List Char) : ∃ seg, (segmentsOnto acc cs).getLast? = some seg ∧
      seg <:+ acc.reverse ++ cs ∧ ∀ c ∈ seg, isSlash c = false := by
  induction cs generalizing acc with
  | nil => exact ⟨acc.reverse, rfl, by simp, by simpa using hacc⟩
  | cons c cs ih =>
    rw [segmentsOnto]
    by_cases hc : isSlash c = true
    · rw [if_pos hc]
      obtain ⟨seg, hlast, hsuffix, hplain⟩ := ih (List.forall_mem_nil _)
      refine ⟨seg, ?_, ?_, hplain⟩
      · rw [List.getLast?_cons, hlast]
        rfl
      · exact hsuffix.trans ((List.suffix_cons c cs).trans (List.suffix_append _ _))
    · rw [if_neg hc]
      have hc : isSlash c = false := by simpa using hc
      obtain ⟨seg, hlast, hsuffix, hplain⟩ := ih (List.forall_mem_cons.2 ⟨hc, hacc⟩)
      exact ⟨seg, hlast, by simpa using hsuffix, hplain⟩

/-- A segment that is made of dots. -/
def isDots (seg : List Char) : Bool := isDotDot seg || isDot seg

/-- Of the last segment dots leave nothing but an empty one. -/
theorem getLast?_resolve {segments : List (List Char)} {last : List Char}
    (h : segments.getLast? = some last) (above : List (List Char)) :
    (resolve above segments).getLast? = some (if isDots last then [] else last) := by
  induction segments generalizing above with
  | nil => cases h
  | cons segment rest ih =>
    rw [resolve]
    cases rest with
    | nil =>
      obtain rfl : segment = last := by simpa using h
      unfold isDots
      by_cases hdots : (isDotDot segment || isDot segment) = true
      · simp [hdots]
      · obtain ⟨hdotdot, hdot⟩ := by simpa using hdots
        simp [hdotdot, hdot, resolve]
    | cons next rest =>
      simp only [List.isEmpty_cons, Bool.false_and, Bool.false_eq_true, if_false]
      exact ih (by simpa using h) _

/-- Segments without dots all stay. -/
theorem resolve_of_plain {segments : List (List Char)} (h : ∀ seg ∈ segments, isDots seg = false)
    (above : List (List Char)) : resolve above segments = above.reverse ++ segments := by
  induction segments generalizing above with
  | nil => simp [resolve]
  | cons seg rest ih =>
    rw [List.forall_mem_cons] at h
    obtain ⟨hdotdot, hdot⟩ : isDotDot seg = false ∧ isDot seg = false := by
      simpa [isDots] using h.1
    simp [resolve, hdotdot, hdot, ih h.2]

/-- A dot is a dot, unless it is escaped. -/
theorem dot?_cases {cs rest : List Char} (h : dot? cs = some rest) :
    cs = '.' :: rest ∨ Percent.HasEscape (Utf8.encode (String.ofList cs)) := by
  unfold dot? at h
  split at h
  · cases h
    exact .inl rfl
  · rename_i c cs
    split at h
    · rename_i hc
      right
      rw [Utf8.encode_ofList]
      rcases hc with rfl | rfl
      · exact ⟨[], _, rfl, 0x32, 0x65, _, rfl, by decide, by decide⟩
      · exact ⟨[], _, rfl, 0x32, 0x45, _, rfl, by decide, by decide⟩
    · cases h
  · cases h

theorem isDots_cases {seg : List Char} (h : isDots seg = true) :
    seg = ['.'] ∨ seg = ['.', '.'] ∨ Percent.HasEscape (Utf8.encode (String.ofList seg)) := by
  simp only [isDots, isDotDot, isDot, Bool.or_eq_true, beq_iff_eq, Option.bind_eq_some_iff] at h
  rcases h with ⟨rest, hfirst, hsecond⟩ | h
  · rcases dot?_cases hfirst with rfl | hescape
    · rcases dot?_cases hsecond with rfl | hescape
      · exact .inr (.inl rfl)
      · have hcons : Utf8.encode (String.ofList ('.' :: rest)) =
            0x2E :: Utf8.encode (String.ofList rest) := by
          rw [Utf8.encode_ofList, Utf8.encode_ofList]
          rfl
        rw [hcons, Percent.hasEscape_cons_iff fun h => absurd h (by decide)]
        exact .inr (.inr hescape)
    · exact .inr (.inr hescape)
  · rcases dot?_cases h with rfl | hescape
    · exact .inl rfl
    · exact .inr (.inr hescape)

/-! ## Paths -/

/-- A segment as it goes out. -/
def sentAs (seg : List Char) : Bytes := Percent.encode keptInPath (Utf8.encode (String.ofList seg))

/-- What ends a path does not stand in a segment, and a slash does so in no segment without one. -/
theorem not_mem_sentAs {seg : List Char} {b : UInt8}
    (hb : b = 0x3F ∨ b = 0x23 ∨ b = 0x2F ∧ '/' ∉ seg) : b ∉ sentAs seg := by
  intro hmem
  obtain ⟨-, hdigit⟩ := Percent.not_isUnreserved (b := b) (by tauto)
  rcases Percent.mem_encode hmem with ⟨hmem, hkeep⟩ | rfl | hsome
  · rcases hb with rfl | rfl | ⟨rfl, hslash⟩
    · exact absurd hkeep (by decide)
    · exact absurd hkeep (by decide)
    · exact hslash (Utf8.mem_of_mem_encode (c := '/') (by decide) hmem)
  · simp at hb
  · rw [hdigit] at hsome
    cases hsome

/-- A segment is decoded like its octets alone. -/
theorem decode_sentAs (seg : List Char) :
    Percent.decode (sentAs seg) = Percent.decode (Utf8.encode (String.ofList seg)) := by
  refine Percent.decode_encode_of_keeps (by decide) (fun b hb => ?_) _
  have hdigits : ∀ n, n < 256 → (Percent.digit? (UInt8.ofNat n)).isSome →
      keptInPath (UInt8.ofNat n) = true := by decide +kernel
  have hkeep := hdigits b.toNat b.toNat_lt
  rw [UInt8.ofNat_toNat] at hkeep
  exact hkeep hb

/-- A path whose segments all stay. -/
theorem pathOf_eq {front : List (List Char)} {last : List Char}
    (h : ∀ seg ∈ front ++ [last], (∀ c ∈ seg, isSlash c = false) ∧ isDots seg = false) :
    pathOf (front.flatMap (· ++ ['/']) ++ last) =
      (front ++ [last]).flatMap fun seg => 0x2F :: sentAs seg := by
  have hsegments : segmentsOnto [] (front.flatMap (· ++ ['/']) ++ last) = front ++ [last] := by
    induction front with
    | nil => exact segmentsOnto_of_plain (h last (by simp)).1 []
    | cons seg front ih =>
      rw [List.cons_append, List.forall_mem_cons] at h
      rw [List.flatMap_cons, List.append_assoc, List.append_assoc, List.singleton_append,
        segmentsOnto_append h.1.1 rfl, ih h.2]
      rfl
  rw [pathOf, hsegments, resolve_of_plain fun seg hseg => (h seg hseg).2]
  rfl

/-- **The last segment of any path** is what stands behind the last slash, or nothing. -/
theorem exists_pathOf (cs : List Char) : ∃ before seg, pathOf cs = before ++ 0x2F :: sentAs seg ∧
    (∀ c ∈ seg, isSlash c = false) ∧ (seg = [] ∨ seg <:+ cs ∧ isDots seg = false) := by
  obtain ⟨last, hlast, hsuffix, hplain⟩ := exists_getLast_segmentsOnto (List.forall_mem_nil _) cs
  obtain ⟨above, hsegments⟩ := List.getLast?_eq_some_iff.1 (getLast?_resolve hlast [])
  have hpath : pathOf cs = (above.flatMap fun seg => 0x2F :: sentAs seg) ++
      0x2F :: sentAs (if isDots last then [] else last) := by
    unfold pathOf
    rw [hsegments, List.flatMap_append, List.flatMap_singleton]
    rfl
  by_cases hdots : isDots last = true
  · rw [if_pos hdots] at hpath
    exact ⟨_, [], hpath, List.forall_mem_nil _, .inl rfl⟩
  · rw [if_neg hdots] at hpath
    exact ⟨_, last, hpath, hplain, .inr ⟨hsuffix, by simpa using hdots⟩⟩

/-- The path of a request is that of its address. -/
theorem path_pathOf (cs : List Char) {query : Bytes} (hquery : IsQuery query) :
    Uri.path (pathOf cs ++ query) = pathOf cs := by
  have hclean : ∀ b : UInt8, b = 0x3F ∨ b = 0x23 → b ∉ pathOf cs := by
    intro b hb hmem
    obtain ⟨seg, -, hmem⟩ := List.mem_flatMap.1 hmem
    rcases List.mem_cons.1 hmem with rfl | hmem
    · simp at hb
    · exact not_mem_sentAs (by tauto) hmem
  have hstart : ∃ rest, pathOf cs = 0x2F :: rest := by
    obtain ⟨last, hlast, -⟩ := exists_getLast_segmentsOnto (List.forall_mem_nil _) cs
    unfold pathOf
    cases hsegments : resolve [] (segmentsOnto [] cs) with
    | nil =>
      have hsome := getLast?_resolve hlast []
      rw [hsegments] at hsome
      cases hsome
    | cons seg rest => exact ⟨_, List.flatMap_cons⟩
  obtain ⟨rest, hrest⟩ := hstart
  exact path_eq hrest hquery (hclean _ (.inl rfl)) (hclean _ (.inr rfl))

/-! ## Segments that arrive -/

/-- **A text that arrives as it was written** at the end of an address: nothing in it counts for
nothing, cuts it or ends it, the last character is no blank, and it is neither made of dots nor
escaped already. -/
structure Intact (s : String) : Prop where
  counts : ∀ c ∈ s.toList, isIgnored c = false
  whole : ∀ c ∈ s.toList, endsAuthority c = false
  last : ∀ c ∈ s.toList.getLast?, isTrimmed c = false
  dots : s ≠ "." ∧ s ≠ ".."
  plain : ¬Percent.HasEscape (Utf8.encode s)

theorem endsAuthority_eq_false_iff {c : Char} :
    endsAuthority c = false ↔ isSlash c = false ∧ c ≠ '?' ∧ c ≠ '#' := by
  simp [endsAuthority, and_assoc]

variable {s : String}

theorem Intact.isDots (h : Intact s) : isDots s.toList = false := by
  by_contra hdots
  have hone : String.ofList s.toList = s := String.ofList_toList
  rcases isDots_cases (by simpa using hdots) with hdot | hdots | hescape
  · exact h.dots.1 (by rw [← hone, hdot])
  · exact h.dots.2 (by rw [← hone, hdots])
  · rw [hone] at hescape
    exact h.plain hescape

theorem Intact.inPath (h : Intact s) : inPath s.toList = s.toList := by
  refine inPath_eq_self_iff.2 ⟨h.counts, ?_, ?_, h.last⟩
  · exact fun hmem => (endsAuthority_eq_false_iff.1 (h.whole _ hmem)).2.2 rfl
  · exact fun hmem => (endsAuthority_eq_false_iff.1 (h.whole _ hmem)).2.1 rfl

/-- A text that arrives is read as it was written. -/
theorem Intact.decodeText? (h : Intact s) : Percent.decodeText? (sentAs s.toList) = some s := by
  rw [Percent.decodeText?, decode_sentAs, String.ofList_toList,
    Percent.decode_eq_self_iff.2 h.plain,
    Utf8.decode?_encode]

/-- **A text that arrives is the last segment of its path.** -/
theorem Intact.pathOf (h : Intact s) {front : List (List Char)}
    (hfront : ∀ seg ∈ front, (∀ c ∈ seg, isSlash c = false) ∧ Url.isDots seg = false) :
    Url.pathOf (front.flatMap (· ++ ['/']) ++ Url.inPath s.toList) =
      (front.flatMap fun seg => 0x2F :: sentAs seg) ++ 0x2F :: sentAs s.toList := by
  rw [h.inPath, pathOf_eq, List.flatMap_append, List.flatMap_singleton]
  intro seg hseg
  rcases List.mem_append.1 hseg with hseg | hseg
  · exact hfront seg hseg
  · obtain rfl := List.mem_singleton.1 hseg
    exact ⟨fun c hc => (endsAuthority_eq_false_iff.1 (h.whole c hc)).1, h.isDots⟩

/-- What stands behind the last slash is told by what it stands in. -/
theorem eq_of_append_slash {before before' octets octets' : Bytes}
    (h : before ++ 0x2F :: octets = before' ++ 0x2F :: octets') (hoctets : 0x2F ∉ octets)
    (hoctets' : 0x2F ∉ octets') : octets = octets' := by
  rcases List.append_eq_append_iff.1 h with ⟨mid, -, hmid⟩ | ⟨mid, -, hmid⟩
  · rcases List.cons_eq_append_iff.1 hmid with ⟨-, heq⟩ | ⟨mid, -, rfl⟩
    · exact (List.cons_eq_cons.1 heq).2.symm
    · simp at hoctets
  · rcases List.cons_eq_append_iff.1 hmid with ⟨-, heq⟩ | ⟨mid, -, rfl⟩
    · exact (List.cons_eq_cons.1 heq).2
    · simp at hoctets'

/-- **Only a text that arrives is read as it was written.** -/
theorem intact_of_decodeText? {front : List Char} {before octets : Bytes}
    (hpath : Url.pathOf (front ++ '/' :: Url.inPath s.toList) = before ++ 0x2F :: octets)
    (hoctets : 0x2F ∉ octets) (hread : Percent.decodeText? octets = some s) (hs : s ≠ "") :
    Intact s := by
  obtain ⟨before', seg, hseg, hplain, hlast⟩ := exists_pathOf (front ++ '/' :: Url.inPath s.toList)
  have hslash : '/' ∉ seg := fun hmem => by cases hplain '/' hmem
  obtain rfl : octets = sentAs seg :=
    eq_of_append_slash (hpath.symm.trans hseg) hoctets (not_mem_sentAs (by tauto))
  -- the text has as many octets as the segment stands for, and these are no more than it has
  have hdecode : Percent.decode (Utf8.encode (String.ofList seg)) = Utf8.encode s := by
    rw [← decode_sentAs]
    exact Utf8.eq_encode_of_decode? hread
  rcases hlast with rfl | ⟨hsuffix, hdots⟩
  · have hempty : Utf8.encode "" = Utf8.encode s := hdecode
    have htext := Utf8.decode?_encode ""
    rw [hempty, Utf8.decode?_encode] at htext
    exact absurd (Option.some.inj htext) hs
  · have hsub : seg.Sublist (Url.inPath s.toList) := by
      rcases List.suffix_or_suffix_of_suffix hsuffix (List.suffix_append front _) with h | h
      · rcases List.suffix_cons_iff.1 h with rfl | h
        · simp at hslash
        · exact h.sublist
      · exact absurd (h.subset List.mem_cons_self) hslash
    have hself : seg = s.toList := by
      refine Utf8.eq_of_sublist (hsub.trans (inPath_sublist _)) ?_
      rw [String.ofList_toList, ← hdecode]
      exact Percent.length_decode_le _
    subst hself
    rw [String.ofList_toList, Percent.decode_eq_self_iff] at hdecode
    have hinPath : Url.inPath s.toList = s.toList :=
      (inPath_sublist _).eq_of_length_le hsub.length_le
    obtain ⟨hcounts, hsharp, hmark, hend⟩ := inPath_eq_self_iff.1 hinPath
    refine ⟨hcounts, fun c hc => ?_, hend, ⟨?_, ?_⟩, hdecode⟩
    · exact endsAuthority_eq_false_iff.2
        ⟨hplain c hc, fun h => hmark (h ▸ hc), fun h => hsharp (h ▸ hc)⟩
    · rintro rfl
      cases hdots
    · rintro rfl
      cases hdots

/-! ## Services -/

/-- The name of a scheme in letters of any case. -/
def IsScheme (name : String) : Prop := lowerAscii name = "http" ∨ lowerAscii name = "https"

/-- The name of a scheme is made of letters. -/
theorem IsScheme.letter {name : String} (h : IsScheme name) {c : Char} (hc : c ∈ name.toList) :
    0x41 ≤ c.toNat := by
  have hlower : c.toLower ∈ "http".toList ∨ c.toLower ∈ "https".toList := by
    have hmem : c.toLower ∈ (lowerAscii name).toList := by
      rw [lowerAscii, String.toList_ofList]
      exact List.mem_map_of_mem hc
    rcases h with h | h <;> rw [h] at hmem
    · exact .inl hmem
    · exact .inr hmem
  by_contra hlow
  -- nothing below the letters has another case
  have hself : c.toLower = c := by
    have hval : c.val.toNat = c.toNat := rfl
    unfold Char.toLower
    rw [dif_neg]
    rintro ⟨hle, -⟩
    rw [ge_iff_le, UInt32.le_iff_toNat_le] at hle
    simp at hle
    omega
  have hletters : ∀ d ∈ "https".toList, 0x41 ≤ d.toNat := by simp
  have hsub : "http".toList ⊆ "https".toList := by simp
  rw [hself] at hlower
  rcases hlower with hmem | hmem
  · exact hlow (hletters c (hsub hmem))
  · exact hlow (hletters c hmem)

theorem exists_scheme? {name : String} (h : IsScheme name) :
    ∃ isSecure, ∀ rest, scheme? (name.toList ++ ':' :: rest) = some (isSecure, rest) := by
  have hletters : ∀ c ∈ name.toList, (c != ':') = true := by
    intro c hc
    refine bne_iff_ne.2 ?_
    rintro rfl
    exact absurd (h.letter hc) (by decide)
  unfold scheme?
  simp only [List.dropWhile_append_of_pos hletters, List.takeWhile_append_of_pos hletters,
    List.dropWhile_cons, List.takeWhile_cons, bne_self_eq_false, Bool.false_eq_true, if_false,
    List.append_nil, String.ofList_toList]
  rcases h with h | h <;> rw [h]
  · exact ⟨false, fun _ => rfl⟩
  · exact ⟨true, fun _ => rfl⟩

/-- **The address of a service**: a scheme and an authority, without a path and without blanks. -/
structure IsService (base scheme authority : String) : Prop where
  eq : base = scheme ++ "://" ++ authority
  scheme : IsScheme scheme
  nonempty : authority ≠ ""
  ends : ∀ c ∈ authority.toList, endsAuthority c = false
  blank : ∀ c ∈ authority.toList, isTrimmed c = false
  valid : (parse? base).isSome

/-- What is written behind the address of a service does not change where it is. -/
theorem IsService.exists_parse? {base scheme authority : String}
    (h : IsService base scheme authority) : ∃ isSecure, ∀ (tail : String) (front cs : List Char),
      tail.toList = front ++ cs → (∀ c ∈ front, isTrimmed c = false) →
        parse? (base ++ tail) = ofAuthority? isSecure (authority.toList ++ (front ++ kept cs)) := by
  obtain ⟨isSecure, hscheme⟩ := exists_scheme? h.scheme
  refine ⟨isSecure, fun tail front cs htail hfront => ?_⟩
  have hsignificant : significant (base ++ tail) =
      scheme.toList ++ ':' :: '/' :: '/' :: (authority.toList ++ (front ++ kept cs)) := by
    have hs : (base ++ tail).toList =
        (scheme.toList ++ ':' :: '/' :: '/' :: (authority.toList ++ front)) ++ cs := by
      simp [h.eq, htail]
    rw [significant_append hs (by simp)]
    · simp
    · intro c hc
      simp only [List.mem_append, List.mem_cons] at hc
      rcases hc with hc | rfl | rfl | rfl | hc | hc
      · have hletter := h.scheme.letter hc
        simp only [isTrimmed, decide_eq_false_iff_not]
        omega
      · rfl
      · rfl
      · rfl
      · exact h.blank c hc
      · exact hfront c hc
  have hauthority : ('/' :: '/' :: (authority.toList ++ (front ++ kept cs))).dropWhile isSlash =
      authority.toList ++ (front ++ kept cs) := by
    have hnil : authority.toList ≠ [] := fun hnil => h.nonempty (String.toList_eq_nil_iff.1 hnil)
    obtain ⟨c, more, hmore⟩ := List.exists_cons_of_ne_nil hnil
    have hc := (endsAuthority_eq_false_iff.1 (h.ends c (hmore ▸ List.mem_cons_self))).1
    have hslash : isSlash '/' = true := rfl
    rw [List.dropWhile_cons_of_pos hslash, List.dropWhile_cons_of_pos hslash, hmore,
      List.cons_append, List.dropWhile_cons_of_neg (by simp [hc])]
  rw [parse?, hsignificant, hscheme]
  simp only [hauthority]

/-- Whether there is an address depends on the authority alone. -/
theorem isSome_ofAuthority? {isSecure : Bool} {cs cs' : List Char}
    (h : cs.takeWhile (!endsAuthority ·) = cs'.takeWhile (!endsAuthority ·)) :
    (ofAuthority? isSecure cs).isSome = (ofAuthority? isSecure cs').isSome := by
  unfold ofAuthority?
  simp only [h]
  split
  · rfl
  · split <;> rfl

/-- What stands behind an authority up to its query is the path. -/
theorem path_of_ofAuthority? {isSecure : Bool} {authority rest : List Char} {u : Url}
    (h : ofAuthority? isSecure (authority ++ '/' :: rest) = some u)
    (hends : ∀ c ∈ authority, endsAuthority c = false) :
    u.path = pathOf ((rest.takeWhile (· != '#')).takeWhile (· != '?')) := by
  have hends : ∀ c ∈ authority, (!endsAuthority c) = true := fun c hc => by simp [hends c hc]
  have hslash : ('/' :: rest).dropWhile (!endsAuthority ·) = '/' :: rest := rfl
  unfold ofAuthority? at h
  rw [List.dropWhile_append_of_pos hends, hslash] at h
  simp only at h
  split at h
  · cases h
  · split at h
    · cases h
    · cases h
      rfl

variable {base scheme authority path : String} {front cs : List Char}

/-- Whatever is written behind the address of a service, it makes an address. -/
theorem IsService.isSome_parse? (h : IsService base scheme authority)
    (hpath : path.toList = '/' :: (front ++ cs)) (hblank : ∀ c ∈ front, isTrimmed c = false) :
    (parse? (base ++ path)).isSome := by
  obtain ⟨isSecure, hparse⟩ := h.exists_parse?
  have hself := hparse "" [] [] rfl (List.forall_mem_nil _)
  rw [String.append_empty] at hself
  have hends : ∀ c ∈ authority.toList, (!endsAuthority c) = true :=
    fun c hc => by simp [h.ends c hc]
  have hvalid := h.valid
  rw [hself] at hvalid
  rw [hparse path ('/' :: front) cs hpath (List.forall_mem_cons.2 ⟨rfl, hblank⟩), ← hvalid]
  refine isSome_ofAuthority? ?_
  rw [List.takeWhile_append_of_pos hends, List.takeWhile_append_of_pos hends]
  rfl

/-- **The path of an address of a service** is what is left of its end. -/
theorem IsService.path_of_parse? (hservice : IsService base scheme authority)
    (hpath : path.toList = '/' :: (front ++ cs)) (hblank : ∀ c ∈ front, isTrimmed c = false)
    (hsharp : '#' ∉ front) (hmark : '?' ∉ front) {u : Url} (h : parse? (base ++ path) = some u) :
    u.path = pathOf (front ++ inPath cs) := by
  obtain ⟨isSecure, hparse⟩ := hservice.exists_parse?
  have hfront : ∀ d, d ∉ front → ∀ c ∈ front, (c != d) = true := by
    intro d hd c hc
    refine bne_iff_ne.2 ?_
    rintro rfl
    exact hd hc
  rw [hparse path ('/' :: front) cs hpath (List.forall_mem_cons.2 ⟨rfl, hblank⟩),
    List.cons_append] at h
  rw [path_of_ofAuthority? h hservice.ends, List.takeWhile_append_of_pos (hfront _ hsharp),
    List.takeWhile_append_of_pos (hfront _ hmark)]
  rfl

/-- A target is a path with perhaps a query. -/
theorem exists_target (u : Url) : ∃ query, IsQuery query ∧ u.target = u.path ++ query := by
  refine ⟨_, ?_, rfl⟩
  cases u.query with
  | none => exact .inl rfl
  | some query => exact .inr ⟨query, rfl⟩

end OrderRelay.Http.Url
