import StepGraph.Proofs.Document.NormalForm

/-!
# Requests and responses are rewritten once

What is sent to an engine and what comes back may leave out fields, set them to `null`, add unknown
ones, repeat keys in free objects and have lists for records, in the graph of a request and in the
state of a response as well. Whatever such a text looks like, the text that is written for its value
is accepted and has the same value (`ofText?_of_written`).
-/

namespace StepGraph
namespace Run

open Finite64 (half half_readsBack)

/-- A request or a response that was accepted is accepted again in the text that is written for it,
in both layouts, and stays the same. Its floats must be read back. -/
theorem ofText?_of_written :
    (∀ text request, Request.ofText? text = .ok request →
      (∀ x ∈ request.toJson.floats, x.ReadsBack) →
        Request.ofText? request.toJson.compact = .ok request ∧
        Request.ofText? request.toJson.indented = .ok request) ∧
    ∀ text response, Response.ofText? text = .ok response →
      (∀ x ∈ response.toJson.floats, x.ReadsBack) →
        Response.ofText? response.toJson.compact = .ok response ∧
        Response.ofText? response.toJson.indented = .ok response := by
  have hrequest : (Document.Shape.record .request).reserve ≤ Json.depthLimit := by decide
  have hresponse : (Document.Shape.record .response).reserve ≤ Json.depthLimit := by decide
  refine ⟨fun text request h hfloats => ?_, fun text response h hfloats => ?_⟩
  · exact Document.ofText?_rewritten (s := .record .request) hrequest h hfloats
  · exact Document.ofText?_rewritten (s := .record .response) hresponse h hfloats

/-- A request with a key that comes twice, an unknown field and a graph in the form of a list. -/
def looseRequest : String :=
  "\x7b\"studio_id\":\"s\",\"params\":\x7b\"k\":[1],\"k\":0.5\x7d,\"version\":null,\"y\":0," ++
  "\"studio_override\":[\"o\",\"\",\"\",[\x7b\x7d],[[[\"a\",\"t\",\x7b\x7d,null]]]]\x7d"

theorem ofText?_looseRequest : (Request.ofText? looseRequest).toOption.map
    (fun r => (Dict.keys r.params, r.override.map fun g => g.steps.map (·.name), r.toJson.floats)) =
      some (["k"], some ["a"], [half]) := by
  decide +kernel

/-- A response with a status in the form of an object, an error in the form of a list, and results
that repeat a key. -/
def looseResponse : String :=
  "\x7b\"status\":\x7b\"failed\":null\x7d,\"errors\":[[\"r\",\"b\"]],\"x\":\x7b\x7d,\"state\":" ++
  "\x7b\"steps\":\x7b\"a\":\x7b\"executionTime\":0.5,\"skipped\":null," ++
  "\"results\":[\x7b\"k\":1,\"k\":2\x7d],\"skippedItems\":[]\x7d\x7d\x7d\x7d"

theorem ofText?_looseResponse : (Response.ofText? looseResponse).toOption.map
    (fun r => (r.status, r.errors.map (·.body), r.state.map fun s => Dict.keys s.steps,
      r.toJson.floats)) = some (.failed, ["b"], some ["a"], [half]) := by
  decide +kernel

/-- Both texts are accepted, and so are the texts that are written for their values. -/
theorem ofText?_of_written_loose :
    (∃ r, Request.ofText? looseRequest = .ok r ∧ Dict.keys r.params = ["k"] ∧
      (r.override.map fun g => g.steps.map (·.name)) = some ["a"] ∧
      (∀ x ∈ r.toJson.floats, x.ReadsBack) ∧
      Request.ofText? r.toJson.compact = .ok r ∧ Request.ofText? r.toJson.indented = .ok r) ∧
    ∃ r, Response.ofText? looseResponse = .ok r ∧ r.status = .failed ∧
      r.errors.map (·.body) = ["b"] ∧ (r.state.map fun s => Dict.keys s.steps) = some ["a"] ∧
      (∀ x ∈ r.toJson.floats, x.ReadsBack) ∧
      Response.ofText? r.toJson.compact = .ok r ∧ Response.ofText? r.toJson.indented = .ok r := by
  have hhalf {xs : List Finite64} (h : xs = [half]) : ∀ x ∈ xs, x.ReadsBack := by
    rw [h]
    exact List.forall_mem_singleton.mpr half_readsBack
  obtain ⟨request, hrequest, hq⟩ := map_toOption_eq_some.mp ofText?_looseRequest
  obtain ⟨response, hresponse, hp⟩ := map_toOption_eq_some.mp ofText?_looseResponse
  simp only [Prod.mk.injEq] at hq hp
  obtain ⟨hkeys, hsteps, hfloats⟩ := hq
  obtain ⟨hstatus, herrors, hstate, hfloats'⟩ := hp
  refine ⟨⟨request, hrequest, hkeys, hsteps, hhalf hfloats, ?_⟩,
    response, hresponse, hstatus, herrors, hstate, hhalf hfloats', ?_⟩
  · exact ofText?_of_written.1 looseRequest request hrequest (hhalf hfloats)
  · exact ofText?_of_written.2 looseResponse response hresponse (hhalf hfloats')

end Run
end StepGraph
