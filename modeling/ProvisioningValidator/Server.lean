import Mathlib
import ProvisioningValidator.Apply
import ProvisioningValidator.Encoder
import ProvisioningValidator.Parser

/-!
# The service

`handleHttp2Request`: the body goes through the check of the interface description, the parser, the
rules and the encoder. The check of requests and responses is another component; it is a parameter
here, which gives the reason of a rejection.
-/

namespace ProvisioningValidator

open Lib

/-- The check of requests and of responses against the interface description. -/
structure OaiValidator where
  validateRequest : Option Json → Option String
  validateResponse : Nat → Json → Option String

/-- What goes back to the client. -/
structure Answer where
  status : Nat
  body : Json

/-- `composeError(message, {{"description", reason}})` -/
def composeError (message reason : String) : Error where
  errorMessage := message
  errorDetails := OrdMap.emplaceAll ∅ [("description", reason)]

section

variable (oai : OaiValidator) (ind : Indeterminate)

/-- `sendResponse`, with the check of the response. -/
def sendResponse (status : Nat) (json : Json) : Answer :=
  match oai.validateResponse status json with
  | some reason =>
    ⟨httpInternalServerError, errorToJson (composeError "Malformed response" reason)⟩
  | none => ⟨status, json⟩

/-- The answer to a request that the parser has read. -/
def answerParsed (data : ValidationData Json) (events : List Event) : Option Answer :=
  if data.ret = false then
    some (sendResponse oai httpBadRequest
      (errorToJson (composeError "Malformed request" (errorString events))))
  else if recordedErrors events ≠ [] then
    some (sendResponse oai httpConflict
      (validatorResponseToJson ind { errors := recordedErrors events }))
  else do
    let resp ← applyValidationRules ind data.relatedResources data.changes
    let status := if resp.ret = true then httpOk else resp.code
    return sendResponse oai status (validatorResponseToJson ind resp.response)

/-- `handleHttp2Request`. There is no answer when an assertion fails in the parser or an exception
is thrown by the rules. -/
def handleHttp2Request (requestBody : Option Json) : Option Answer :=
  match oai.validateRequest requestBody with
  | some reason =>
    some ⟨httpBadRequest, errorToJson (composeError "Malformed request" reason)⟩
  | none =>
    match parse id requestBody with
    | .abort => none
    | .ret data events => answerParsed oai ind data events

end

/-! ## Requests that the interface description admits -/

/-- A change as the interface description has it. -/
def ChangeAdmitted (v : Json) : Prop :=
  (∃ s, v.member? jsonOperation = some (.str s) ∧
      (s = jsonOperationCreate ∨ s = jsonOperationUpdate ∨ s = jsonOperationDelete)) ∧
    (∃ s, v.member? jsonResourcePath = some (.str s)) ∧
    ∀ w, v.member? jsonData = some w → w.IsObject

/-- A request as the interface description has it. -/
structure Admitted (doc : Json) : Prop where
  root : doc.IsObject
  changes : ∀ w, doc.member? jsonChanges = some w →
    ∃ xs, w = .arr xs ∧ ∀ x ∈ xs, ChangeAdmitted x
  relatedResources : ∀ w, doc.member? jsonRelatedResources = some w → w.IsObject

/-- A request with one change. -/
theorem Admitted.single {doc x : Json} (hroot : doc.IsObject)
    (hchanges : doc.member? jsonChanges = some (.arr [x])) (hx : ChangeAdmitted x)
    (hrelated : ∀ w, doc.member? jsonRelatedResources = some w → w.IsObject) : Admitted doc where
  root := hroot
  changes w hw := by
    rw [hchanges, Option.some.injEq] at hw
    refine ⟨[x], hw.symm, fun y hy => ?_⟩
    rw [List.mem_singleton.1 hy]
    exact hx
  relatedResources := hrelated

end ProvisioningValidator
