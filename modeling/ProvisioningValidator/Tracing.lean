import Mathlib
import ProvisioningValidator.AllOrNothing

/-!
# The headers of an answer

The tracing headers of a request are copied into a `Context`, and every answer to it is sent with
them and a content type. The headers are a multimap without an order: they are given here as the list
of their entries in the order in which they are gone through, and what is shown of them is which
entries there are.

**Theorem (`handleStream_headers`).** Whatever the answer is, it has the content type once, and every
tracing header of the request once, in each spelling, with the last of its values.
-/

namespace ProvisioningValidator

open Lib

/-! ## Contexts -/

/-- The entries of an `http2::headers_t`. -/
abbrev Headers := List (String × String)

/-- `TRACING_KEYS` -/
def tracingKeys : List String :=
  ["x-request-id", "x-b3-traceid", "x-b3-spanid", "x-b3-parentspanid", "x-b3-sampled", "x-b3-flags",
    "x-ot-span-context"]

/-- `isTracingHeader` -/
def isTracingHeader (headerKey : String) : Bool := tracingKeys.contains (toLowerCopy headerKey)

/-- The entries with `key` get the value. -/
def setValue (key value : String) (headers : Headers) : Headers :=
  headers.map fun e => if e.1 = key then (e.1, value) else e

theorem keys_setValue (key value : String) (headers : Headers) :
    (setValue key value headers).map Prod.fst = headers.map Prod.fst := by
  rw [setValue, List.map_map]
  refine List.map_congr_left fun e _ => ?_
  show (if e.1 = key then (e.1, value) else e).1 = e.1
  split_ifs
  · rfl
  · rfl

/-- The headers that go with the answers to a request: `update` gives no key a second entry. -/
structure Context where
  tracingHeaders : Headers
  distinct : (tracingHeaders.map Prod.fst).Nodup

namespace Context

instance : EmptyCollection Context := ⟨⟨[], List.nodup_nil⟩⟩

@[simp] theorem tracingHeaders_empty : (∅ : Context).tracingHeaders = [] := rfl

/-- `update`: the entry that is found gets the value, or there is a new one. -/
def update (ctx : Context) (key value : String) : Context :=
  if h : key ∈ ctx.tracingHeaders.map Prod.fst then
    { tracingHeaders := setValue key value ctx.tracingHeaders
      distinct := by
        rw [keys_setValue]
        exact ctx.distinct }
  else
    { tracingHeaders := ctx.tracingHeaders ++ [(key, value)]
      distinct := by
        rw [List.map_append]
        exact List.nodup_append'.2 ⟨ctx.distinct, List.nodup_singleton _, by simpa using h⟩ }

/-- One round of `copyTracingHeaders`. -/
def copyHeader (ctx : Context) (e : String × String) : Context :=
  if isTracingHeader e.1 then ctx.update e.1 e.2 else ctx

/-- `copyTracingHeaders` -/
def copyTracingHeaders (ctx : Context) (headers : Headers) : Context := headers.foldl copyHeader ctx

theorem mem_update {ctx : Context} {key value k v : String} :
    (k, v) ∈ (ctx.update key value).tracingHeaders ↔
      k = key ∧ v = value ∨ k ≠ key ∧ (k, v) ∈ ctx.tracingHeaders := by
  rw [update]
  split_ifs with hkey
  · -- The key is there, and its entry gets the value.
    show (k, v) ∈ setValue key value ctx.tracingHeaders ↔ _
    rw [setValue, List.mem_map]
    obtain ⟨e, he, rfl⟩ := List.mem_map.1 hkey
    constructor
    · rintro ⟨e', he', heq⟩
      split_ifs at heq with hsame
      · exact .inl ⟨(congrArg Prod.fst heq).symm.trans hsame, (congrArg Prod.snd heq).symm⟩
      · subst heq
        exact .inr ⟨hsame, he'⟩
    · rintro (⟨rfl, rfl⟩ | ⟨hne, hmem⟩)
      · exact ⟨e, he, if_pos rfl⟩
      · exact ⟨(k, v), hmem, if_neg hne⟩
  · show (k, v) ∈ ctx.tracingHeaders ++ [(key, value)] ↔ _
    rw [List.mem_append, List.mem_singleton, Prod.mk.injEq]
    constructor
    · rintro (hmem | hnew)
      · refine .inr ⟨?_, hmem⟩
        rintro rfl
        exact hkey (List.mem_map.2 ⟨_, hmem, rfl⟩)
      · exact .inl hnew
    · rintro (hnew | ⟨-, hmem⟩)
      · exact .inr hnew
      · exact .inl hmem

end Context

/-- The value of the last entry with a key. -/
def lastValue (headers : Headers) (key : String) : Option String := headers.reverse.lookup key

theorem lastValue_concat (headers : Headers) (e : String × String) (key : String) :
    lastValue (headers ++ [e]) key = if key = e.1 then some e.2 else lastValue headers key := by
  rw [lastValue, List.reverse_append, List.reverse_singleton, List.singleton_append,
    List.lookup_cons, lastValue]
  split_ifs with h
  · rw [beq_iff_eq.2 h]
  · rw [beq_eq_false_iff_ne.2 h]

/-- **What is copied**: the tracing headers, with the last value of each. -/
theorem mem_copyTracingHeaders {headers : Headers} {key value : String} :
    (key, value) ∈ ((∅ : Context).copyTracingHeaders headers).tracingHeaders ↔
      isTracingHeader key = true ∧ lastValue headers key = some value := by
  induction headers using List.reverseRecOn with
  | nil => simp [Context.copyTracingHeaders, lastValue]
  | append_singleton headers e ih =>
    rw [Context.copyTracingHeaders] at ih ⊢
    rw [List.foldl_append, List.foldl_cons, List.foldl_nil, lastValue_concat, Context.copyHeader]
    by_cases htracing : isTracingHeader e.1 = true
    · rw [if_pos htracing, Context.mem_update, ih]
      by_cases hkey : key = e.1
      · subst hkey
        simp [htracing, eq_comm]
      · simp [hkey]
    · rw [if_neg htracing, ih]
      refine and_congr_right fun hkey => ?_
      rw [if_neg]
      rintro rfl
      exact htracing hkey

/-! ## Answers with their headers -/

/-- What the stream ends with. -/
structure SentAnswer extends Answer where
  headers : Headers

/-- The check of requests and of responses, which sees their headers too. -/
structure HttpInfoValidator where
  validateRequest : Headers → Option Json → Option String
  validateResponse : Headers → Nat → Json → Option String

/-- The check, for one request and the headers of its answer. -/
def HttpInfoValidator.forHeaders (oai : HttpInfoValidator) (request response : Headers) :
    OaiValidator where
  validateRequest := oai.validateRequest request
  validateResponse := oai.validateResponse response

/-- `getTracingHeaders`, and the content type. -/
def Context.responseHeaders (ctx : Context) : Headers :=
  ctx.tracingHeaders ++ [("content-type", "application/json")]

section

variable (oai : HttpInfoValidator) (ind : Indeterminate)

/-- `sendResponse`, with the check of the response. The error in its place is sent unchecked. -/
def sendWithHeaders (ctx : Context) (status : Nat) (json : Json) : SentAnswer :=
  match oai.validateResponse ctx.responseHeaders status json with
  | some reason =>
    { status := httpInternalServerError
      body := errorToJson (composeError "Malformed response" reason)
      headers := ctx.responseHeaders }
  | none => { status := status, body := json, headers := ctx.responseHeaders }

/-- The answer to a request that the parser has read. -/
def streamParsed (ctx : Context) (data : ValidationData Json) (events : List Event) :
    Option SentAnswer :=
  if data.ret = false then
    some (sendWithHeaders oai ctx httpBadRequest
      (errorToJson (composeError "Malformed request" (errorString events))))
  else if recordedErrors events ≠ [] then
    some (sendWithHeaders oai ctx httpConflict
      (validatorResponseToJson ind { errors := recordedErrors events }))
  else do
    let resp ← applyValidationRules ind data.relatedResources data.changes
    let status := if resp.ret = true then httpOk else resp.code
    return sendWithHeaders oai ctx status (validatorResponseToJson ind resp.response)

/-- `handleHttp2Request`, with the headers of the stream. -/
def handleStream (requestHeaders : Headers) (requestBody : Option Json) : Option SentAnswer :=
  let contextRequest := (∅ : Context).copyTracingHeaders requestHeaders
  match oai.validateRequest requestHeaders requestBody with
  | some reason =>
    some { status := httpBadRequest
           body := errorToJson (composeError "Malformed request" reason)
           headers := contextRequest.responseHeaders }
  | none =>
    match parse id requestBody with
    | .abort => none
    | .ret data events => streamParsed oai ind contextRequest data events

variable {oai ind} (request : Headers) (ctx : Context)

theorem sendWithHeaders_eq (status : Nat) (json : Json) : sendWithHeaders oai ctx status json =
    ⟨sendResponse (oai.forHeaders request ctx.responseHeaders) status json,
      ctx.responseHeaders⟩ := by
  simp only [sendWithHeaders, sendResponse, HttpInfoValidator.forHeaders]
  cases oai.validateResponse ctx.responseHeaders status json with
  | some reason => rfl
  | none => rfl

theorem streamParsed_eq (data : ValidationData Json) (events : List Event) :
    streamParsed oai ind ctx data events =
      (answerParsed (oai.forHeaders request ctx.responseHeaders) ind data events).map fun a =>
        ⟨a, ctx.responseHeaders⟩ := by
  unfold streamParsed answerParsed
  simp only [sendWithHeaders_eq request ctx]
  split_ifs
  · rfl
  · rfl
  · cases applyValidationRules ind data.relatedResources data.changes with
    | none => rfl
    | some resp => rfl

/-- **The headers change nothing about the rest of the answer**, but through what the check says. -/
theorem handleStream_eq (body : Option Json) : handleStream oai ind request body =
    (handleHttp2Request (oai.forHeaders request
      ((∅ : Context).copyTracingHeaders request).responseHeaders) ind body).map fun a =>
        ⟨a, ((∅ : Context).copyTracingHeaders request).responseHeaders⟩ := by
  have hcheck : ∀ response, (oai.forHeaders request response).validateRequest body =
      oai.validateRequest request body := fun _ => rfl
  simp only [handleStream, handleHttp2Request, hcheck]
  cases oai.validateRequest request body with
  | some reason => rfl
  | none =>
    cases parse id body with
    | abort => rfl
    | ret data events => exact streamParsed_eq request _ data events

theorem not_tracing_content_type : isTracingHeader "content-type" = false := by decide

/-- **The headers of every answer.** -/
theorem handleStream_headers {body : Option Json} {a : SentAnswer}
    (h : handleStream oai ind request body = some a) :
    (a.headers.map Prod.fst).Nodup ∧ ∀ key value, (key, value) ∈ a.headers ↔
      (key, value) = ("content-type", "application/json") ∨
        isTracingHeader key = true ∧ lastValue request key = some value := by
  rw [handleStream_eq, Option.map_eq_some_iff] at h
  obtain ⟨-, -, rfl⟩ := h
  have hmem : ∀ {key value}, _ ↔ _ := @mem_copyTracingHeaders request
  have hdistinct := ((∅ : Context).copyTracingHeaders request).distinct
  unfold Context.responseHeaders
  constructor
  · have hnew : "content-type" ∉ ((∅ : Context).copyTracingHeaders request).tracingHeaders.map
        Prod.fst := by
      intro hkey
      obtain ⟨⟨key, value⟩, he, rfl⟩ := List.mem_map.1 hkey
      exact absurd (hmem.1 he).1 (by rw [not_tracing_content_type]; decide)
    rw [List.map_append]
    exact List.nodup_append'.2 ⟨hdistinct, List.nodup_singleton _, by simpa using hnew⟩
  · intro key value
    rw [List.mem_append, List.mem_singleton, hmem, or_comm]

end

/-- Two spellings, one of them with two values, and a header that is not sent back. -/
def tracedHeaders : Headers :=
  [("X-Request-Id", "1"), ("accept", "*/*"), ("x-request-id", "2"), ("X-Request-Id", "3")]

theorem handleStream_headers_traced : ∃ a, handleStream ⟨fun _ _ => none, fun _ _ _ => none⟩
      ⟨0, false⟩ tracedHeaders (some (oneDeletion "/profiles/udmProfiles/udmSliceProfiles/a")) =
        some a ∧
    ("X-Request-Id", "3") ∈ a.headers ∧ ("x-request-id", "2") ∈ a.headers := by
  refine ⟨_, rfl, ?_⟩
  have hmem := (@handleStream_headers ⟨fun _ _ => none, fun _ _ _ => none⟩ ⟨0, false⟩ tracedHeaders
    (some (oneDeletion "/profiles/udmProfiles/udmSliceProfiles/a")) _ rfl).2
  exact ⟨(hmem _ _).2 (.inr ⟨by decide, by decide⟩), (hmem _ _).2 (.inr ⟨by decide, by decide⟩)⟩

end ProvisioningValidator
