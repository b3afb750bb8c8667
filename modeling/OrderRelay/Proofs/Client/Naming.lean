import OrderRelay.Proofs.Client.Bodies
import OrderRelay.Proofs.Front.Identity
import OrderRelay.Proofs.Front.Translation
import OrderRelay.Proofs.Http.Urls

/-!
# What a command names

The client writes the name of an order or of a symbol into an address as it is. The name reaches
the engine if it arrives at the end of the address as it was written. Otherwise the engine may hear
of something else, but never of what the command names.

* `ClientCommand.name?`, `ClientCommand.lastSegment`: what a command names, and what it writes.
* `ClientCommand.Means`: what a command asks of the engine.
* `intact_cancel_iff`: the names that arrive with an action behind them.
* `path_of_request?`: the path of the request of a command.
* `command_heard`: **a command is heard as it was meant just if its name arrives.**
-/

namespace OrderRelay

open Http Json

/-! ## What is meant -/

namespace ClientCommand

/-- **What a command names**: an order or a symbol. -/
def name? : ClientCommand → Option String
  | .book symbol => some symbol
  | .cancel orderId _ | .modify orderId .. => some orderId
  | .submit .. | .health => none

/-- What stands behind the last slash that a command writes. -/
def lastSegment : ClientCommand → String
  | .book symbol => symbol
  | .cancel orderId _ => orderId ++ ":cancel"
  | .modify orderId .. => orderId
  | .submit .. => "orders"
  | .health => "health"

/-- What stands between the last two slashes that a command writes. -/
def folder : ClientCommand → String
  | .book _ => "orderbook"
  | .cancel .. | .modify .. => "orders"
  | .submit .. => "v1"
  | .health => ""

/-- **What a command asks of the engine.** A price is as it is read. -/
def Means : ClientCommand → EngineRequest → Prop
  | .book symbol, request => request = .order .getOrderBook ⟨symbol⟩
  | .cancel orderId clientId, request => request = .order .cancelOrder ⟨orderId, clientId⟩
  | .modify orderId newPrice newQuantity clientId, request => ∃ price, newPrice.ReadAs price ∧
      request = .order .modifyOrder ⟨orderId, price, newQuantity, clientId⟩
  | .submit .., _ | .health, _ => False

/-- The route that a command asks for. -/
def route (octets : Bytes) : ClientCommand → Route
  | .book _ => .orderBook octets
  | .cancel .. | .modify .. => .order octets
  | .submit .. => .orders
  | .health => .health

variable {c : ClientCommand} {s : String}

theorem lastSegment_ne_empty (h : c.name? = some s) (hs : s ≠ "") : c.lastSegment ≠ "" := by
  cases c with
  | book | modify =>
    cases h
    exact hs
  | cancel => simp [lastSegment]
  | submit | health => cases h

/-- Only an order that is cancelled is named with an action behind it. -/
theorem lastSegment_eq (h : c.name? = some s) :
    c.lastSegment = if c.method = "POST" then s ++ ":cancel" else s := by
  cases c with
  | book | cancel | modify =>
    cases h
    simp [lastSegment, method]
  | submit | health => cases h

theorem folder_cases (h : c.name? = some s) : c.folder = "orders" ∨ c.folder = "orderbook" := by
  cases c with
  | book => exact .inr rfl
  | cancel | modify => exact .inl rfl
  | submit | health => cases h

theorem plain_folder (h : c.name? = some s) :
    ∀ d ∈ ["v1".toList, c.folder.toList].flatMap (· ++ ['/']),
      Url.isTrimmed d = false ∧ d ≠ '#' ∧ d ≠ '?' := by
  rcases folder_cases h with h | h <;> rw [h] <;> simp [Url.isTrimmed]

/-- The slashes of a path, and what stands between them and behind the last one. -/
theorem path_toList (h : c.name? = some s) :
    c.path.toList = '/' :: (["v1".toList, c.folder.toList].flatMap (· ++ ['/']) ++
      c.lastSegment.toList) := by
  cases c with
  | book | cancel | modify => simp [path, folder, lastSegment]
  | submit | health => cases h

end ClientCommand

/-- **A request to the engine is about** an order or a symbol. -/
def EngineRequest.IsAbout (s : String) : EngineRequest → Prop
  | .order .submitOrder _ => False
  | .order .cancelOrder m => m.orderId = s
  | .order .modifyOrder m => m.orderId = s
  | .order .getOrderBook m => m.symbol = s
  | .trades m => m.symbol = s

/-! ## Names that arrive -/

/-- With an action behind it a name arrives if nothing in it cuts it, counts for nothing or is
escaped. -/
theorem intact_cancel_iff {s : String} : Url.Intact (s ++ ":cancel") ↔
    (∀ c ∈ s.toList, Url.isIgnored c = false ∧ Url.endsAuthority c = false) ∧
      ¬Percent.HasEscape (Utf8.encode s) := by
  have hescape : Percent.HasEscape (Utf8.encode (s ++ ":cancel")) ↔
      Percent.HasEscape (Utf8.encode s) := by
    have hnone : ¬Percent.HasEscape (Utf8.encode ":cancel") := by
      rw [← Percent.decode_eq_self_iff]
      decide
    rw [Utf8.encode_append]
    exact Percent.hasEscape_append_iff (c := 0x3A) (by decide) (by decide) hnone
  have hforall : ∀ p : Char → Bool, (∀ c ∈ ":cancel".toList, p c = false) →
      ((∀ c ∈ (s ++ ":cancel").toList, p c = false) ↔ ∀ c ∈ s.toList, p c = false) := by
    intro p hp
    rw [String.toList_append, List.forall_mem_append]
    exact and_iff_left hp
  have hignored : ∀ c ∈ ":cancel".toList, Url.isIgnored c = false := by
    simp [Url.isIgnored]
  have hends : ∀ c ∈ ":cancel".toList, Url.endsAuthority c = false := by
    simp [Url.endsAuthority, Url.isSlash]
  constructor
  · intro h
    have hcounts := (hforall _ hignored).1 h.counts
    have hwhole := (hforall _ hends).1 h.whole
    exact ⟨fun c hc => ⟨hcounts c hc, hwhole c hc⟩, hescape.not.1 h.plain⟩
  · rintro ⟨hplain, hnone⟩
    have hlast : (s ++ ":cancel").toList.getLast? = some 'l' := by
      rw [String.toList_append, List.getLast?_append]
      rfl
    refine ⟨(hforall _ hignored).2 fun c hc => (hplain c hc).1,
      (hforall _ hends).2 fun c hc => (hplain c hc).2, ?_, ⟨?_, ?_⟩, hescape.not.2 hnone⟩
    · rw [hlast]
      simp [Url.isTrimmed]
    · intro h
      rw [h] at hlast
      cases hlast
    · intro h
      rw [h] at hlast
      cases hlast

/-! ## Where a command leads -/

/-- What a path says is found behind its last slash. -/
theorem Route.exists_start {path : Bytes} {route : Route} (h : ofPath? path = some route)
    (hne : route.parameter ≠ []) :
    ∃ start, path = start ++ 0x2F :: route.parameter ∧ 0x2F ∉ route.parameter := by
  have hsegment : ∀ (start : Bytes) {name : String} {rest : Bytes},
      Utf8.encode name = start ++ [0x2F] → segment? name path = some rest →
        ∃ start, path = start ++ 0x2F :: rest ∧ 0x2F ∉ rest := by
    intro start name rest hname h
    obtain ⟨hrest, hkeep⟩ := Option.filter_eq_some_iff.1 h
    have hpath := List.isPrefixOf?_eq_some_iff_append_eq.1 hrest
    rw [hname, List.append_assoc, List.singleton_append] at hpath
    refine ⟨start, hpath.symm, ?_⟩
    simp only [Bool.and_eq_true, Bool.not_eq_true'] at hkeep
    simpa using hkeep.2
  unfold ofPath? at h
  split at h
  · cases h
    exact absurd rfl hne
  · split at h
    · cases h
      exact absurd rfl hne
    · simp only [Option.or_eq_some_iff, Option.map_eq_some_iff] at h
      rcases h with ⟨octets, h, rfl⟩ | ⟨-, ⟨octets, h, rfl⟩ | ⟨-, octets, h, rfl⟩⟩
      · exact hsegment (Utf8.encode "/v1/orders") (by decide) h
      · exact hsegment (Utf8.encode "/v1/orderbook") (by decide) h
      · exact hsegment (Utf8.encode "/v1/trades") (by decide) h

section Requests

variable {f : Front} {relay : Relay} {fresh : Bytes} {patience : Option ℕ} {upload : Upload}
  {l : ClientLine} {r : Request} {request : EngineRequest} {s scheme authority : String}

/-- **The path of the request of a command.** -/
theorem ClientLine.path_of_request? (hname : l.command.name? = some s)
    (hservice : Url.IsService (withoutSlashes l.url) scheme authority) (hr : l.request? = some r) :
    Uri.path r.target = Url.pathOf (["v1".toList, l.command.folder.toList].flatMap (· ++ ['/']) ++
      Url.inPath l.command.lastSegment.toList) := by
  obtain ⟨url, hparse, -, htarget, -⟩ := exists_url hr
  obtain ⟨query, hquery, hsent⟩ := Url.exists_target url
  have hfolder := ClientCommand.plain_folder hname
  have hpath := hservice.path_of_parse? (ClientCommand.path_toList hname)
    (fun c hc => (hfolder c hc).1) (fun h => (hfolder _ h).2.1 rfl)
    (fun h => (hfolder _ h).2.2 rfl) hparse
  rw [htarget, hsent, hpath]
  exact Url.path_pathOf _ hquery

theorem sentAs_ne_nil (hs : s ≠ "") (hintact : Url.Intact s) : Url.sentAs s.toList ≠ [] := by
  intro hnil
  have hread := hintact.decodeText?
  rw [hnil, Percent.decodeText?_nil] at hread
  exact hs (Option.some.inj hread).symm

/-- A name that arrives leads where its command wants to go. -/
theorem Front.routeOf_intact (hname : l.command.name? = some s) (hs : s ≠ "")
    (hservice : Url.IsService (ClientLine.withoutSlashes l.url) scheme authority)
    (hr : l.request? = some r)
    (hintact : Url.Intact l.command.lastSegment) :
    routeOf r = some (l.command.route (Url.sentAs l.command.lastSegment.toList)) := by
  have hfront : ∀ seg ∈ ["v1".toList, l.command.folder.toList],
      (∀ c ∈ seg, Url.isSlash c = false) ∧ Url.isDots seg = false := by
    rcases ClientCommand.folder_cases hname with h | h <;> rw [h] <;>
      simp [Url.isSlash, Url.isDots, Url.isDotDot, Url.isDot, Url.dot?]
  have hstart :
      (["v1".toList, l.command.folder.toList].flatMap fun seg => 0x2F :: Url.sentAs seg) ++
        [0x2F] = Utf8.encode ("/v1/" ++ l.command.folder ++ "/") := by
    rcases ClientCommand.folder_cases hname with h | h <;> rw [h] <;> decide
  have hne := sentAs_ne_nil (ClientCommand.lastSegment_ne_empty hname hs) hintact
  have hslash : 0x2F ∉ Url.sentAs l.command.lastSegment.toList := by
    refine Url.not_mem_sentAs (.inr (.inr ⟨rfl, fun hmem => ?_⟩))
    cases hintact.whole '/' hmem
  unfold routeOf
  rw [ClientLine.path_of_request? hname hservice hr, hintact.pathOf hfront,
    ← List.singleton_append (l := Url.sentAs _), ← List.append_assoc, hstart]
  cases hcommand : l.command with
  | book symbol =>
    rw [hcommand] at hne hslash
    exact Route.ofPath?_orderBook hne hslash
  | cancel orderId clientId =>
    rw [hcommand] at hne hslash
    exact Route.ofPath?_order hne hslash
  | modify orderId newPrice newQuantity clientId =>
    rw [hcommand] at hne hslash
    exact Route.ofPath?_order hne hslash
  | submit | health =>
    rw [hcommand] at hname
    cases hname

/-! ## What is heard -/

namespace Front

/-- Only one body is taken in. -/
theorem ReceivesInTime.unique {body body' : Bytes} (h : f.ReceivesInTime patience upload r body)
    (h' : f.ReceivesInTime patience upload r body') : body' = body := by
  obtain ⟨time, h, -⟩ := h
  obtain ⟨time', h', -⟩ := h'
  have hsame := h.taken.symm.trans h'.taken
  cases hsame
  rfl

/-- **What a command means is heard** if its name arrives. -/
theorem heard_iff_means (hname : l.command.name? = some s) (hs : isBlank s = false)
    (hservice : Url.IsService (ClientLine.withoutSlashes l.url) scheme authority)
    (hr : l.request? = some r)
    (hin : f.ReceivesInTime patience upload r r.body) (hintact : Url.Intact l.command.lastSegment) :
    f.Heard relay fresh patience upload r request ↔ l.command.Means request := by
  have hne := ne_empty_of_not_isBlank hs
  have hroute := routeOf_intact hname hne hservice hr hintact
  have hread := hintact.decodeText?
  obtain ⟨-, -, hmethod, -, hbody⟩ := ClientLine.exists_url hr
  cases hcommand : l.command with
  | book symbol =>
    rw [hcommand] at hname hroute hread hmethod
    obtain rfl : symbol = s := Option.some.inj hname
    rw [heard_orderBook_iff hroute (.inl hmethod) hread hs]
    obtain ⟨time, hreceives, htime⟩ := hin
    have hstart := fate_answered_mono htime (Nat.zero_le time)
    exact ⟨fun h => h.2.2, fun h => ⟨hreceives.announced, hstart, h⟩⟩
  | cancel orderId clientId =>
    rw [hcommand] at hname hroute hread hmethod hbody
    obtain rfl : orderId = s := Option.some.inj hname
    have hdraft := cancelDraft_body orderId clientId rfl
    rw [← (hbody _ rfl).1] at hdraft
    rw [heard_cancel_iff hroute hmethod hread hs]
    constructor
    · rintro ⟨body, draft, client, hreceives, hother, hclient, rfl⟩
      obtain rfl := hin.unique hreceives
      rw [hdraft] at hother
      cases hother
      cases hclient
      rfl
    · rintro rfl
      exact ⟨_, _, clientId, hin, hdraft, rfl, rfl⟩
  | modify orderId newPrice newQuantity clientId =>
    rw [hcommand] at hname hroute hread hmethod hbody
    obtain rfl : orderId = s := Option.some.inj hname
    obtain ⟨hsent, hjson⟩ := hbody _ rfl
    rw [heard_modify_iff hroute hmethod hread hs]
    constructor
    · rintro ⟨-, body, draft, price, quantity, client, hreceives, htext, hprice, hquantity, hclient,
        rfl⟩
      obtain rfl := hin.unique hreceives
      rw [hsent] at htext
      obtain ⟨hprice, rfl, rfl⟩ := (modifyDraft_body_iff orderId clientId newPrice newQuantity rfl).1
        ⟨draft, htext, hprice, hquantity, hclient⟩
      exact ⟨price, hprice, rfl⟩
    · rintro ⟨price, hprice, rfl⟩
      obtain ⟨draft, htext, hprice, hquantity, hclient⟩ :=
        (modifyDraft_body_iff orderId clientId newPrice newQuantity rfl).2 ⟨hprice, rfl, rfl⟩
      rw [← hsent] at htext
      exact ⟨hjson, _, draft, price, newQuantity, clientId, hin, htext, hprice, hquantity, hclient,
        rfl⟩
  | submit | health =>
    rw [hcommand] at hname
    cases hname

/-- What is asked about a name stands at the end of the path. -/
theorem exists_route_of_asks {c : ClientCommand} (hname : c.name? = some s)
    (hmethod : r.method = c.method) (h : f.Asks upload r request) (habout : request.IsAbout s) :
    ∃ route, routeOf r = some route ∧
      Percent.decodeText? route.parameter = some c.lastSegment := by
  rw [ClientCommand.lastSegment_eq hname, ← hmethod]
  cases h with
  | submit => exact habout.elim
  | cancel hroute hpost href _ htarget _ horder =>
    obtain ⟨-, _, -, rfl⟩ := CancelDraft.toRequest_eq_ok_iff.1 horder
    obtain rfl := habout
    rw [cancelTarget?_eq_some_iff.1 htarget] at href
    rw [hpost, if_pos rfl]
    exact ⟨_, hroute, href⟩
  | modify hroute hpatch href _ _ _ horder =>
    obtain ⟨-, _, _, _, -, -, -, rfl⟩ := ModifyDraft.toRequest_eq_ok_iff.1 horder
    obtain rfl := habout
    rw [hpatch, if_neg (by decide)]
    exact ⟨_, hroute, href⟩
  | orderBook hroute hget hsymbol hrequest =>
    obtain ⟨-, rfl⟩ := orderBookRequest_eq_ok_iff.1 hrequest
    obtain rfl := habout
    rw [if_neg (by rcases hget with h | h <;> rw [h] <;> decide)]
    exact ⟨_, hroute, hsymbol⟩
  | trades hroute hget _ hsymbol hrequest =>
    obtain ⟨-, rfl⟩ := tradesRequest_eq_ok_iff.1 hrequest
    obtain rfl := habout
    rw [if_neg (by rcases hget with h | h <;> rw [h] <;> decide)]
    exact ⟨_, hroute, hsymbol⟩

/-- **Nothing is heard about a name that does not arrive.** -/
theorem intact_of_heard (hname : l.command.name? = some s) (hs : s ≠ "")
    (hservice : Url.IsService (ClientLine.withoutSlashes l.url) scheme authority)
    (hr : l.request? = some r)
    (h : f.Heard relay fresh patience upload r request) (habout : request.IsAbout s) :
    Url.Intact l.command.lastSegment := by
  obtain ⟨-, -, hmethod, -⟩ := ClientLine.exists_url hr
  obtain ⟨-, time, hplan, -⟩ := heard_iff.1 h
  obtain ⟨route, hroute, hread⟩ :=
    exists_route_of_asks hname hmethod (planOf_eq_ask_iff.1 ⟨time, hplan⟩) habout
  have hlast := ClientCommand.lastSegment_ne_empty hname hs
  have hne : route.parameter ≠ [] := by
    intro hnil
    rw [hnil, Percent.decodeText?_nil] at hread
    exact hlast (Option.some.inj hread).symm
  obtain ⟨start, hpath, hslash⟩ := Route.exists_start hroute hne
  have hfront : ["v1".toList, l.command.folder.toList].flatMap (· ++ ['/']) =
      ("v1/".toList ++ l.command.folder.toList) ++ ['/'] := by
    simp
  rw [ClientLine.path_of_request? hname hservice hr, hfront, List.append_assoc,
    List.singleton_append] at hpath
  exact Url.intact_of_decodeText? hpath hslash hread hlast

/-- **A command is heard as it was meant just if its name arrives.** Let a command name an order or
a symbol that is not blank. Whatever the name is, its address can be read, so that a request goes
out unless the address is too long or the id of the request cannot be sent. If the request is
received in time, and the last segment of its address arrives as it was written, the engine hears
what the command means, and nothing else. If it does not arrive so, the engine hears nothing about
what the command names, so that whatever it hears is about something else. -/
theorem command_heard (f : Front) (relay : Relay) (fresh : Bytes) (patience : Option ℕ)
    (upload : Upload) {l : ClientLine} {s scheme authority : String}
    (hname : l.command.name? = some s) (hs : isBlank s = false)
    (hservice : Url.IsService (ClientLine.withoutSlashes l.url) scheme authority) :
    (∃ url, Url.parse? l.address = some url ∧ (l.request?.isSome ↔
      url.octets.length ≤ Uri.maxLength ∧ (ClientLine.idHeaders? l.requestId).isSome)) ∧
    ∀ r, l.request? = some r → f.ReceivesInTime patience upload r r.body →
      (Url.Intact l.command.lastSegment → ∀ request,
        f.Heard relay fresh patience upload r request ↔ l.command.Means request) ∧
      (¬Url.Intact l.command.lastSegment → ∀ request,
        f.Heard relay fresh patience upload r request → ¬request.IsAbout s) := by
  have hne := ne_empty_of_not_isBlank hs
  refine ⟨?_, fun r hr hin => ⟨fun hintact request => ?_, fun hbroken request hheard habout => ?_⟩⟩
  · have hfolder := ClientCommand.plain_folder hname
    have hparse : (Url.parse? l.address).isSome :=
      hservice.isSome_parse? (ClientCommand.path_toList hname) fun c hc => (hfolder c hc).1
    obtain ⟨url, hurl⟩ := Option.isSome_iff_exists.1 hparse
    refine ⟨url, hurl, ?_⟩
    rw [l.isSome_request?, ClientLine.url?, hurl]
    simp
  · exact heard_iff_means hname hs hservice hr hin hintact
  · exact hbroken (intact_of_heard hname hne hservice hr hheard habout)

theorem isService_defaultUrl : Url.IsService (ClientLine.withoutSlashes ClientLine.defaultUrl) "http"
    "localhost:8080" :=
  ⟨by decide, .inl (by decide), by decide, by simp [Url.endsAuthority, Url.isSlash],
    by simp [Url.isTrimmed], by decide⟩

/-- Cancels an order with a percent sign and a blank in its name. -/
def cancelLine : ClientLine := ⟨ClientLine.defaultUrl, none, .cancel "A%1 b" "me"⟩

/-- The request that goes out for it. -/
def cancelSent : Request :=
  ⟨"POST", Utf8.encode "/v1/orders/A%1%20b:cancel", ClientLine.bodyHeaders clientBody, clientBody⟩

theorem request?_cancelLine : cancelLine.request? = some cancelSent := by
  have hbody : Utf8.encode (Value.compact (.object [("clientId", .text "me")])) = clientBody := by
    decide
  have hurl : cancelLine.url? = some
      ⟨false, "localhost", some 8080, Utf8.encode "/v1/orders/A%1%20b:cancel", none, none⟩ := by
    decide
  rw [ClientLine.request?_of_url? hurl rfl rfl, hbody]
  rfl

/-- The percent sign and the blank arrive. -/
theorem command_heard_percent : defaultFront.Heard slowRelay [] none (.atOnce clientBody) cancelSent
    (.order .cancelOrder ⟨"A%1 b", "me"⟩) := by
  have hreceives : defaultFront.Receives (.atOnce clientBody) cancelSent clientBody 0 :=
    ⟨by decide, by decide, Upload.take_atOnce _ _⟩
  have hintact : Url.Intact ("A%1 b" ++ ":cancel") :=
    intact_cancel_iff.2 ⟨by simp [Url.isIgnored, Url.endsAuthority, Url.isSlash],
      Percent.decode_eq_self_iff.1 (by decide)⟩
  have hheard := (command_heard defaultFront slowRelay [] none (.atOnce clientBody)
    (l := cancelLine) rfl (by decide) isService_defaultUrl).2 _ request?_cancelLine
    ⟨0, hreceives, by decide⟩
  exact (hheard.1 hintact _).2 rfl

/-- A price of 150.25. -/
def price : Double := ⟨0x4062C80000000000⟩

/-- Changes an order with a question mark in its name. -/
def modifyLine : ClientLine := ⟨ClientLine.defaultUrl, none, .modify "A1?x" price 5 "me"⟩

/-- The body of its request. -/
def modifyBody : Bytes :=
  Utf8.encode "\x7b\"clientId\":\"me\",\"newPrice\":150.25,\"newQuantity\":5\x7d"

/-- The request that goes out for it. -/
def modifySent : Request :=
  ⟨"PATCH", Utf8.encode "/v1/orders/A1?x", ClientLine.bodyHeaders modifyBody, modifyBody⟩

theorem compact_modifyBody : Utf8.encode (Value.compact (.object [("clientId", .text "me"),
    ("newPrice", .ofDouble price), ("newQuantity", .ofInt (Int32.toInt 5))])) = modifyBody := by
  decide

theorem request?_modifyLine : modifyLine.request? = some modifySent := by
  have hurl : modifyLine.url? = some ⟨false, "localhost", some 8080, Utf8.encode "/v1/orders/A1",
      some (Utf8.encode "x"), none⟩ := by
    decide
  have htarget : Utf8.encode "/v1/orders/A1" ++ 0x3F :: Utf8.encode "x" =
      Utf8.encode "/v1/orders/A1?x" := by
    decide
  rw [ClientLine.request?_of_url? hurl rfl rfl, compact_modifyBody, Url.target, htarget]
  rfl

/-- It changes another order, whose name ends at the question mark. -/
theorem not_command_heard : ¬∀ (f : Front) (relay : Relay) (fresh : Bytes) (patience : Option ℕ)
    (upload : Upload) (l : ClientLine) (s scheme authority : String) (r : Request),
    l.command.name? = some s → isBlank s = false →
      Url.IsService (ClientLine.withoutSlashes l.url) scheme authority → l.request? = some r →
        f.ReceivesInTime patience upload r r.body →
          ∀ request, f.Heard relay fresh patience upload r request → request.IsAbout s := by
  intro h
  have hreceives : defaultFront.Receives (.atOnce modifyBody) modifySent modifyBody 0 :=
    ⟨by decide, by decide, Upload.take_atOnce _ _⟩
  have hroute : routeOf modifySent = some (.order (Utf8.encode "A1")) := by decide
  have hpath : Percent.decodeText? (Utf8.encode "A1") = some "A1" := by decide
  have hprice : price.ReadsBack := ⟨by decide, by decide +kernel⟩
  have hdraft := (modifyDraft_body_iff "A1?x" "me" price 5 rfl).2 ⟨hprice.readAs, rfl, rfl⟩
  rw [compact_modifyBody] at hdraft
  obtain ⟨draft, htext, hnew⟩ := hdraft
  have hheard : defaultFront.Heard slowRelay [] none (.atOnce modifyBody) modifySent
      (.order .modifyOrder ⟨"A1", price, 5, "me"⟩) :=
    (heard_modify_iff hroute rfl hpath (by decide)).2 ⟨saysJson_bodyHeaders _ [] rfl, modifyBody,
      draft, price, 5, "me", ⟨0, hreceives, by decide⟩, htext, hnew.1, hnew.2.1, hnew.2.2, rfl⟩
  have hsame : "A1" = "A1?x" := h defaultFront slowRelay [] none (.atOnce modifyBody) modifyLine
    "A1?x" _ _ _ rfl (by decide) isService_defaultUrl request?_modifyLine
    ⟨0, hreceives, by decide⟩ _ hheard
  exact absurd hsame (by decide)

end Front

end Requests

end OrderRelay
