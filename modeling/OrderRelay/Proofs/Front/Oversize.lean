import OrderRelay.Proofs.Front.Limits

/-!
# Bodies that are longer than the settings allow

A body may be announced as shorter than it is, or not be announced at all. It is never taken in
beyond what the settings allow, nor beyond what has been announced, so the engine does not hear of
it. A request that announces too much is turned away before anything else is looked at; any other
one once too much has come in.

* `refused_submit`, `refused_action`, `refused_modify`: a body of which too much has been taken in
  is refused on each of the three ways, with a status of the caller's fault.
* `planOf_of_exceeds`: the plan of such a request, which is known when too much has come in, or
  before.
* `oversized_turned_away`: **no body gets through that is longer than the settings allow.**
-/

namespace OrderRelay

open Http Json

namespace Front

variable {f : Front} {relay : Relay} {fresh : Bytes} {patience : Option ℕ} {upload : Upload}
  {r : Request} {octets : Bytes} {n time : ℕ}

/-- **A status that turns a request away** for its body. -/
def TurnsAway (status : ℕ) : Prop := status = 413 ∨ status = 400

/-! ## Too much has been taken in -/

/-- No body is cut down to what the settings allow. -/
theorem bodyCap_le (n : ℕ) (declared : Option ℕ) : bodyCap n declared ≤ n :=
  (Nat.min_le_left _ _).trans (Nat.min_le_left _ _)

/-- A body of which too much has been taken in is not read as JSON. -/
theorem exists_fault_of_long {α : Type} (ofText : Bytes → Except Json.Error α)
    (hlong : bodyCap n r.declaredLength? < r.body.length) :
    ∃ fault, readJson ofText n r = .error fault := by
  by_cases hjson : saysJson r = true
  · exact ⟨.tooLong, readJson_of_long ofText hjson hlong⟩
  · refine ⟨.notJson, ?_⟩
    unfold readJson
    rw [if_neg hjson]

theorem refused_submit (hlong : bodyCap n r.declaredLength? < r.body.length) :
    ∃ e, submitRequest n r = .error e ∧ TurnsAway e.response.status := by
  obtain ⟨fault, hread⟩ := exists_fault_of_long SubmitDraft.ofText hlong
  have hstatus : TurnsAway (Refusal.ofBody fault).response.status := .inr rfl
  refine ⟨.ofBody fault, ?_, hstatus⟩
  unfold submitRequest
  rw [hread]

/-- A path that is no text is at fault itself, whatever comes with it. -/
theorem turnsAway_of_pathText {name : String} {e : Refusal} (h : pathText? name octets = .error e) :
    TurnsAway e.response.status := by
  unfold pathText? at h
  split at h
  · cases h
  · cases h
    exact .inr rfl

theorem refused_action (hlong : bodyCap n r.declaredLength? < r.body.length) :
    ∃ e, actionRequest n octets r = .error e ∧ TurnsAway e.response.status := by
  have hbody : readBody n r = none := if_neg (Nat.not_le.2 hlong)
  unfold actionRequest
  cases hpath : pathText? "order_ref" octets with
  | error e => exact ⟨e, rfl, turnsAway_of_pathText hpath⟩
  | ok ref =>
    -- it does not matter yet whether there is such an action
    have hstatus : TurnsAway Refusal.bodyTooLong.response.status := .inl rfl
    refine ⟨.bodyTooLong, ?_, hstatus⟩
    simp only [hbody]

theorem refused_modify (hlong : bodyCap n r.declaredLength? < r.body.length) :
    ∃ e, modifyRequest n octets r = .error e ∧ TurnsAway e.response.status := by
  unfold modifyRequest
  cases hpath : pathText? "order_ref" octets with
  | error e => exact ⟨e, rfl, turnsAway_of_pathText hpath⟩
  | ok ref =>
    obtain ⟨fault, hread⟩ := exists_fault_of_long ModifyDraft.ofText hlong
    have hstatus : TurnsAway (Refusal.ofBody fault).response.status := .inr rfl
    refine ⟨.ofBody fault, ?_, hstatus⟩
    simp only [hread]

/-- **The plan of a request of which too much has been taken in** is to turn it away. -/
theorem plan_of_long (h : ChangesOrder r)
    (hlong : bodyCap f.maxBodySize r.declaredLength? < r.body.length) :
    ∃ a, f.plan r = .respond a ∧ TurnsAway a.status := by
  -- what is refused is answered with the response of the refusal
  have hrefused : ∀ {α : Type} {x : Except Refusal α} (g : α → EngineRequest),
      (∃ e, x = .error e ∧ TurnsAway e.response.status) →
        ∃ a, Plan.ofResult g x = .respond a ∧ TurnsAway a.status := by
    rintro α x g ⟨e, rfl, hstatus⟩
    exact ⟨e.response, rfl, hstatus⟩
  rcases h with ⟨hroute, hmethod⟩ | ⟨hroute, hmethod⟩
  · rw [plan_submit hroute hmethod]
    exact hrefused _ (refused_submit hlong)
  · rcases hmethod with hmethod | hmethod
    · rw [plan_cancel hroute hmethod]
      exact hrefused _ (refused_action hlong)
    · rw [plan_modify hroute hmethod]
      exact hrefused _ (refused_modify hlong)

/-! ## When it is known -/

/-- **The plan of a request whose body is longer than the settings allow** is to turn it away. It is
known by the time when too much has come in, and right away if the body is not looked at. -/
theorem planOf_of_exceeds (h : ChangesOrder r) (hlong : upload.exceeds? f.maxBodySize = some time) :
    ∃ start ≤ time, ∃ a, f.planOf upload r = some (start, .respond a) ∧ TurnsAway a.status := by
  obtain ⟨route, hroute⟩ := h.exists_routeOf
  have hcap : bodyCap f.maxBodySize r.declaredLength? ≤ ([] : Bytes).length + f.maxBodySize := by
    have hle := bodyCap_le f.maxBodySize r.declaredLength?
    rw [List.length_nil]
    omega
  obtain ⟨start, hstart, taken, htake, htaken⟩ := Upload.take_of_exceeds hlong hcap
  have hchanges : ChangesOrder { r with body := taken } := by
    rcases h with ⟨hroute, hmethod⟩ | ⟨hroute, hmethod⟩
    · exact .orders hroute hmethod
    · exact .order hroute hmethod
  obtain ⟨a, hplan, hstatus⟩ := plan_of_long (f := f) hchanges htaken
  cases hreads : Plan.readsBody route r with
  | true =>
    rw [planOf_of_take hroute hreads htake, hplan]
    exact ⟨start, hstart, a, rfl, hstatus⟩
  | false =>
    -- a body that is not read might as well be the one that is too long
    have hsame := plan_of_not_readsBody (f := f) hroute hreads taken
    rw [planOf_of_not_readsBody hroute hreads, ← hsame, hplan]
    exact ⟨0, Nat.zero_le time, a, rfl, hstatus⟩

/-! ## No such body gets through -/

/-- Who is there at a moment before the time is up is answered. -/
theorem fate_answered_of_lt {limit time : ℕ} (htime : time < limit)
    (hwaits : waits patience time = true) : Fate.of limit patience time = .answered := by
  have hlimit : limit ≠ 0 := by omega
  have hlate : ¬(limit ≤ time ∧ waits patience limit = true) := by
    rintro ⟨hle, -⟩
    omega
  unfold Fate.of
  rw [if_neg hlimit, if_neg hlate, if_pos hwaits]

/-- Who is not answered although he waits has no time left. -/
theorem limit_le_of_cut {limit time : ℕ} {a : Response}
    (hfate : Fate.of limit patience time ≠ .answered)
    (ha : (cut (Fate.of limit patience time)).response = some a) :
    a.status = 408 ∧ limit ≤ time := by
  have hstatus : a.status = 408 := by
    rw [eq_expired_of_cut ha]
    rfl
  refine ⟨hstatus, ?_⟩
  unfold Fate.of at hfate ha
  split at hfate
  · omega
  · rename_i hlimit
    rw [if_neg hlimit] at ha
    split at hfate
    · rename_i hlate
      exact hlate.1
    · rename_i hlate
      rw [if_neg hlate] at ha
      split at hfate
      · exact absurd rfl hfate
      · -- who has left is not answered at all
        rename_i hwaits
        rw [if_neg hwaits] at ha
        cases ha

/-- A request whose body is longer than the settings allow is turned away, or its time is up. -/
theorem attend_of_exceeds (relay : Relay) (fresh : Bytes) (patience : Option ℕ)
    (h : ChangesOrder r) (hlong : upload.exceeds? f.maxBodySize = some time) :
    (∃ a, f.attend relay fresh patience upload r = .quiet a ∧ TurnsAway a.status) ∨
    ∃ start ≤ time, Fate.of f.limitMs patience start ≠ .answered ∧
      f.attend relay fresh patience upload r =
        { cut (Fate.of f.limitMs patience start) with
          response := (cut (Fate.of f.limitMs patience start)).response.map (sent fresh r) } := by
  have hstatus : ∀ a, TurnsAway a.status → TurnsAway (sent fresh r a).status := by
    intro a ha
    rwa [status_sent]
  by_cases hannounced : f.announcesTooMuch r = true
  · refine .inl ⟨sent fresh r tooLongResponse, ?_, hstatus tooLongResponse (.inl rfl)⟩
    exact attend_of_announcesTooMuch hannounced relay fresh patience upload
  · obtain ⟨start, hstart, a, hplan, haway⟩ := planOf_of_exceeds (f := f) h hlong
    have hattend := attend_of_announced (Bool.eq_false_iff.2 hannounced) relay fresh patience upload
    simp only [hplan] at hattend
    rw [hattend]
    by_cases hfate : Fate.of f.limitMs patience start = .answered
    · rw [carryOut_respond hfate]
      exact .inl ⟨sent fresh r a, rfl, hstatus a haway⟩
    · rw [carryOut_late hfate]
      exact .inr ⟨start, hstart, hfate, rfl⟩

/-- **No body gets through that is longer than the settings allow**, whatever the request says of
its length, and however the body goes on. The engine does not hear of it, and nothing is counted.

* If too much has come in before the time is up, the request is turned away: so it is always if its
  body is there at once and there is any time at all.
* Otherwise it may also be that the time is up first, and that the response says so. -/
theorem oversized_turned_away (f : Front) (relay : Relay) (fresh : Bytes) (patience : Option ℕ)
    (h : ChangesOrder r) (hlong : upload.exceeds? f.maxBodySize = some time) :
    let x := f.attend relay fresh patience upload r
    (x.calls = [] ∧ x.feed = none ∧ ∀ readings : Readings, readings.recordAll x.counted = readings) ∧
    (time < f.limitMs → waits patience time = true →
      ∃ a, x.response = some a ∧ (a.status = 413 ∨ a.status = 400)) ∧
    ∀ a, x.response = some a →
      (a.status = 413 ∨ a.status = 400) ∨ a.status = 408 ∧ f.limitMs ≤ time := by
  intro x
  have huncalled : x.calls = [] →
      x.calls = [] ∧ x.feed = none ∧
        ∀ readings : Readings, readings.recordAll x.counted = readings := by
    intro hcalls
    obtain ⟨hcounted, hfeed⟩ := (contained_attend f relay fresh patience upload r).uncalled hcalls
    refine ⟨hcalls, hfeed, fun readings => ?_⟩
    rw [hcounted]
    rfl
  rcases attend_of_exceeds relay fresh patience h hlong with
    ⟨a, hx, haway⟩ | ⟨start, hstart, hfate, hx⟩
  · have hanswer : x.response = some a := congrArg Exchange.response hx
    refine ⟨huncalled (congrArg Exchange.calls hx), fun _ _ => ⟨a, hanswer, haway⟩, fun b hb => ?_⟩
    rw [hanswer] at hb
    cases hb
    exact .inl haway
  · have hcalls : x.calls = [] := (congrArg Exchange.calls hx).trans (calls_cut _)
    refine ⟨huncalled hcalls, fun htime hwaits => ?_, fun b hb => ?_⟩
    · -- who would be answered later would have been answered sooner
      exact absurd (fate_answered_mono (fate_answered_of_lt htime hwaits) hstart) hfate
    · have hanswer := congrArg Exchange.response hx
      obtain ⟨c, hc, rfl⟩ := Option.map_eq_some_iff.1 (hanswer.symm.trans hb)
      obtain ⟨hlate, hle⟩ := limit_le_of_cut hfate hc
      exact .inr ⟨(status_sent fresh r c).trans hlate, hle.trans hstart⟩

/-- Asks to cancel one order, and says that its body has three octets. -/
def understatedRequest : Request :=
  { cancelRequest with headers := [("content-length", Utf8.encode "3")] }

/-- A front that allows bodies of five octets. -/
def tightFront : Front := { defaultFront with maxBodySize := 5 }

/-- A body of sixteen octets does not get through as one of three. -/
theorem oversized_turned_away_understated :
    understatedRequest.declaredLength? = some 3 ∧ cancelBody.length = 16 ∧
      let x := tightFront.attend slowRelay [] none (.atOnce cancelBody) understatedRequest
      (x.calls = [] ∧ x.feed = none ∧
        ∀ readings : Readings, readings.recordAll x.counted = readings) ∧
      ∃ a, x.response = some a ∧ (a.status = 413 ∨ a.status = 400) := by
  have hdeclared : understatedRequest.declaredLength? = some 3 := by decide
  have hlength : cancelBody.length = 16 := by decide
  have hroute : routeOf understatedRequest = some (.order (Utf8.encode "A1:cancel")) := by decide
  have hlong : (Upload.atOnce cancelBody).exceeds? tightFront.maxBodySize = some 0 :=
    Upload.exceeds?_atOnce (by rw [hlength]; decide)
  obtain ⟨huntouched, haway, -⟩ := oversized_turned_away tightFront slowRelay [] none
    (.order hroute (.inl rfl)) hlong
  exact ⟨hdeclared, hlength, huntouched, haway (by decide) rfl⟩

end Front

end OrderRelay
