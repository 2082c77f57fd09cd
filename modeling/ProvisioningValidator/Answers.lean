import Mathlib
import ProvisioningValidator.Documents

/-!
# How a request is answered

`handleHttp2Request` turned around: what an answer says about the request. There are four ways to be
answered before the check of the response, and a response that fails the check is replaced by status
500 (`status_sendResponse`).
-/

namespace ProvisioningValidator

open Lib Lib.Run

variable {oai : OaiValidator} {ind : Indeterminate} {doc : Json} {a : Answer}

/-! ## The check of the response -/

theorem sendResponse_cases (oai : OaiValidator) (status : Nat) (json : Json) :
    sendResponse oai status json = ⟨status, json⟩ ∨
      (sendResponse oai status json).status = httpInternalServerError := by
  rw [sendResponse]
  cases oai.validateResponse status json with
  | none => exact Or.inl rfl
  | some reason => exact Or.inr rfl

/-- A response that passes the check is sent as it is. -/
theorem sendResponse_of_status {status : Nat} {json : Json}
    (h : (sendResponse oai status json).status ≠ httpInternalServerError) :
    sendResponse oai status json = ⟨status, json⟩ :=
  (sendResponse_cases oai status json).resolve_right h

/-! ## The four ways -/

/-- A document that was read with no error recorded. -/
theorem yields_quiet {data : ValidationData Json} {events : List Event}
    (h : getValidationData id doc = .ret data events) (hquiet : recordedErrors events = []) :
    Yields Quiet (getValidationData id doc) data := by
  refine ⟨events, h, fun e he => ?_⟩
  cases e with
  | error err =>
    have hmem : err ∈ recordedErrors events := List.mem_filterMap.2 ⟨_, he, rfl⟩
    rw [hquiet] at hmem
    cases hmem
  | parsingError err => trivial

/-- What the rules have decided, on what the parser has read. -/
structure RulesRun (ind : Indeterminate) (doc : Json) (data : ValidationData Json)
    (events : List Event) (st : ApplyState Json) : Prop where
  read : getValidationData id doc = .ret data events
  ret : data.ret = true
  quiet : recordedErrors events = []
  rules : applyValidationRules ind data.relatedResources data.changes = some st

/-- How an answer that passed the check has come about. -/
inductive Answered (oai : OaiValidator) (ind : Indeterminate) (doc : Json) : Answer → Prop
  | notAdmitted (reason : String) (h : oai.validateRequest (some doc) = some reason) :
      Answered oai ind doc
        ⟨httpBadRequest, errorToJson (composeError "Malformed request" reason)⟩
  | notRead (data : ValidationData Json) (events : List Event)
      (h : getValidationData id doc = .ret data events) (hret : data.ret = false) :
      Answered oai ind doc
        ⟨httpBadRequest, errorToJson (composeError "Malformed request" (errorString events))⟩
  | refusedByParser (data : ValidationData Json) (events : List Event)
      (h : getValidationData id doc = .ret data events) (hret : data.ret = true)
      (herrors : recordedErrors events ≠ []) :
      Answered oai ind doc
        ⟨httpConflict, validatorResponseToJson ind { errors := recordedErrors events }⟩
  | decided (data : ValidationData Json) (events : List Event) (st : ApplyState Json)
      (h : RulesRun ind doc data events st) :
      Answered oai ind doc
        ⟨if st.ret = true then httpOk else st.code, validatorResponseToJson ind st.response⟩

/-- **Every answer that passed the check has come about in one of these ways.** -/
theorem answered (h : handleHttp2Request oai ind (some doc) = some a)
    (hpass : a.status ≠ httpInternalServerError) : Answered oai ind doc a := by
  rw [handleHttp2Request] at h
  cases hreq : oai.validateRequest (some doc) with
  | some reason =>
    rw [hreq, Option.some.injEq] at h
    exact h ▸ .notAdmitted reason hreq
  | none =>
    rw [hreq] at h
    have hparse : parse id (some doc) = getValidationData id doc := rfl
    simp only [hparse] at h
    cases hread : getValidationData id doc with
    | abort =>
      rw [hread] at h
      cases h
    | ret data events =>
      simp only [hread, answerParsed] at h
      split_ifs at h with hret herrors
      · rw [Option.some.injEq] at h
        subst h
        rw [sendResponse_of_status hpass]
        exact .notRead data events hread hret
      · rw [Option.some.injEq] at h
        subst h
        rw [sendResponse_of_status hpass]
        exact .refusedByParser data events hread (by simpa using hret) herrors
      · obtain ⟨st, hst, hsent⟩ := Option.bind_eq_some_iff.1 h
        rw [Option.pure_def, Option.some.injEq] at hsent
        subst hsent
        rw [sendResponse_of_status hpass]
        exact .decided data events st ⟨hread, by simpa using hret, by simpa using herrors, hst⟩

/-! ## Requests that are answered with 200 -/

/-- A request that the rules accept: what was read, and what is sent. -/
structure AnsweredOk (ind : Indeterminate) (doc : Json) (a : Answer) (data : ValidationData Json)
    (events : List Event) (st : ApplyState Json) : Prop extends RulesRun ind doc data events st where
  accepted : st.ret = true
  errors : st.response.errors = []
  changes : st.response.changes = data.changes.map computeMutations
  body : a.body = validatorResponseToJson ind st.response

theorem answeredOk (h : handleHttp2Request oai ind (some doc) = some a)
    (hok : a.status = httpOk) : ∃ data events st, AnsweredOk ind doc a data events st := by
  cases answered h (by simp [hok]) with
  | notAdmitted => cases hok
  | notRead => cases hok
  | refusedByParser => cases hok
  | decided data events st hrun =>
    have hagrees := agrees_applyValidationRules hrun.rules
    have hret : st.ret = true := by
      by_contra hret
      simp only [if_neg hret] at hok
      exact hret (hagrees.sound.code_ok.1 hok)
    refine ⟨data, events, st, hrun, hret, hagrees.sound.ret_iff.1 hret, ?_, rfl⟩
    rw [hagrees.changes, List.takeWhile_eq_self_iff.2 (hagrees.ret_iff.1 hret)]

/-- Nothing was recorded while the request was read. -/
theorem AnsweredOk.yields {data : ValidationData Json} {events : List Event}
    {st : ApplyState Json} (h : AnsweredOk ind doc a data events st) :
    Yields Quiet (getValidationData id doc) data :=
  yields_quiet h.read h.quiet

end ProvisioningValidator
