import Mathlib
import ProvisioningValidator.Deletions
import ProvisioningValidator.ReaderErrors

/-!
# Errors name what the client has sent

Readers and rules report about the path that they are given. Which paths these are is decided in few
places: the parser reads the data of a change under the path that it has met before them, and a
related resource under the name of its member; the rules take the path of the change.

**Theorem (`errors_located`).** An answer with status 409 or 422 lists at least one error. Each of
them is one of three messages with two details, a description and a path, and the path is one of those
that the request has a resource under (`requestPaths`).
-/

namespace ProvisioningValidator

open Lib Lib.Run Checked

variable {V : Type}

/-! ## The parser -/

/-- An error that is recorded is about one of the resources. -/
def Event.AboutOneOf (paths : List String) : Event → Prop
  | .error e => ∃ path ∈ paths, e.About path
  | .parsingError _ => True

theorem Event.About.oneOf {path : String} {paths : List String} (hpath : path ∈ paths)
    {event : Event} (h : event.About path) : event.AboutOneOf paths := by
  cases event with
  | error e => exact ⟨path, hpath, h⟩
  | parsingError err => trivial

theorem Event.AboutOneOf.mono {paths paths' : List String} (hsub : paths ⊆ paths') {event : Event}
    (h : event.AboutOneOf paths) : event.AboutOneOf paths' := by
  cases event with
  | error e =>
    obtain ⟨path, hpath, he⟩ := h
    exact ⟨path, hsub hpath, he⟩
  | parsingError err => trivial

/-- The paths that a request has a resource under: those of its changes, those under which data of
changes are read, and the names of the related resources. -/
def requestPaths (doc : Json) : List String :=
  (requestChanges doc).map (changeText jsonResourcePath) ++
    ((dataReadings doc).map Prod.fst ++ (relatedMembers doc).map fun m => cstr m.1)

section

variable {val : Json → V}

theorem records_getChangeData (d : Json) (c : Change V) :
    Records (Event.About c.resourcePath) (getChangeData val d c) := by
  have hall : ∀ (ks : List ResourceKind) (c : Change V),
      Records (Event.About c.resourcePath) (ks.foldlM (ResourceKind.readIfNamed val d) c) := by
    intro ks
    induction ks with
    | nil => exact fun c => records_pure c
    | cons k ks ih =>
      intro c
      rw [List.foldlM_cons]
      have hfirst : Records (Event.About c.resourcePath) (ResourceKind.readIfNamed val d c k) := by
        unfold ResourceKind.readIfNamed
        split_ifs
        · exact records_bind_pure.2 (records_reader val c.resourcePath d k (k.entity c))
        · exact records_pure c
      exact hfirst.bind fun c₁ hc₁ => (ResourceKind.header_readIfNamed hc₁).2 ▸ ih c₁
  rw [ResourceKind.getChangeData_eq_foldlM]
  exact hall _ c

/-- Each of the data is read under the path that was met before it. -/
theorem records_foldlM_changeStep (ms : List (String × Json)) (c : Change V) :
    Records (Event.AboutOneOf ((readings c.resourcePath ms).map Prod.fst))
      (ms.foldlM (changeStep val) c) := by
  induction ms generalizing c with
  | nil => exact records_pure c
  | cons m ms ih =>
    rw [List.foldlM_cons, readings_cons, List.map_append]
    refine Records.bind ?_ fun c₁ hc₁ => ?_
    · rw [readings_singleton]
      by_cases h : cstr m.1 = jsonData
      · rw [changeStep_data h, if_pos h]
        exact (records_getChangeData m.2 c).mono fun event hevent =>
          hevent.oneOf (List.mem_append_left _ List.mem_cons_self)
      · rw [changeStep, if_neg h, if_neg h]
        split_ifs
        all_goals exact records_pure _
    · rw [← resourcePath_changeStep hc₁]
      exact (ih c₁).mono fun event hevent => hevent.mono (List.subset_append_right _ _)

theorem records_getChanges (xs : List Json) :
    Records (Event.AboutOneOf ((listReadings xs).map Prod.fst)) (getChanges val xs) := by
  induction xs with
  | nil => exact records_pure _
  | cons x xs ih =>
    obtain ⟨err, herr⟩ := getChanges_cons val x
    rw [herr, listReadings, List.map_append]
    refine Records.bind ?_ fun c _ => ?_
    · exact (records_foldlM_changeStep (usable (changeMembers x)) ({} : Change V)).mono
        fun event hevent => hevent.mono (List.subset_append_left _ _)
    · split_ifs
      · exact records_bind_pure.2 (ih.mono fun event hevent =>
          hevent.mono (List.subset_append_right _ _))
      · exact records_bind_pure.2 (records_emit.2 trivial)

theorem records_getChangesToValidate {doc : Json} (hdoc : doc.IsObject) :
    Records (Event.AboutOneOf ((dataReadings doc).map Prod.fst)) (getChangesToValidate val doc) := by
  rw [getChangesToValidate_eq hdoc, dataReadings, requestChanges]
  cases doc.member? jsonChanges with
  | none => exact records_pure _
  | some w =>
    dsimp only
    rw [Option.bind_some]
    cases asArray w with
    | none => exact records_bind_pure.2 (records_emit.2 trivial)
    | some xs => exact records_getChanges xs

/-- The reader of a journal finds no fault with anything: it returns where it may not record. -/
theorem records_getProvJournal (p : String) (v : Json) (e : ProvJournal) :
    Records (Event.About p) (getProvJournal v e) := by
  intro a es h
  have hloose : Yields (Allowed { quiet := false, strict := false }) (getProvJournal v e) a := by
    refine ⟨es, h, fun event _ => ?_⟩
    cases event with
    | error err => rfl
    | parsingError err => rfl
  have hsafe : JournalSafe v := (returnsIff_getProvJournal v e).1 ⟨a, hloose⟩
  obtain ⟨a', es', h', hnone⟩ :=
    (@returnsIff_getProvJournal { quiet := true, strict := true } v e).2 hsafe
  rw [h, ret.injEq] at h'
  intro event hevent
  have hallowed := hnone event (h'.2 ▸ hevent)
  cases event with
  | error err => cases hallowed
  | parsingError err => trivial

theorem records_getRelatedMember (m : String × Json) :
    Records (Event.About (cstr m.1)) (getRelatedMember val m) := by
  refine records_bind_pure.2 ?_
  rw [getRelatedResource_eq]
  cases classify (cstr m.1) with
  | resource k => exact records_bind_pure.2 (records_reader val _ m.2 k _)
  | journal => exact records_bind_pure.2 (records_getProvJournal _ m.2 _)
  | passedOver => exact records_pure _

theorem records_getRelatedResources {doc : Json} (hdoc : doc.IsObject) :
    Records (Event.AboutOneOf ((relatedMembers doc).map fun m => cstr m.1))
      (getRelatedResources val doc) := by
  rw [getRelatedResources, Json.findMember_of_isObject hdoc, lift_some, pure_bind, relatedMembers]
  cases doc.member? jsonRelatedResources with
  | none => exact records_pure _
  | some w =>
    cases w with
    | obj ms =>
      refine Records.bind (records_lift _) fun members hmembers => ?_
      obtain rfl : ms = members := Option.some.inj (yields_lift.1 hmembers)
      refine records_bind_pure.2 (records_collect fun m hm => ?_)
      exact (records_getRelatedMember m).mono fun event hevent =>
        hevent.oneOf (List.mem_map_of_mem hm)
    | _ => exact records_abort

theorem records_getValidationData {doc : Json} (hdoc : doc.IsObject) :
    Records (Event.AboutOneOf (requestPaths doc)) (getValidationData val doc) := by
  refine Records.bind ?_ fun r _ => ?_
  · refine (records_getChangesToValidate hdoc).mono fun event hevent => hevent.mono ?_
    exact fun path hpath => List.mem_append_right _ (List.mem_append_left _ hpath)
  · obtain ⟨ok, changes⟩ := r
    dsimp only
    split_ifs
    · refine records_bind_pure.2 ((records_getRelatedResources hdoc).mono fun event hevent =>
        hevent.mono ?_)
      exact fun path hpath => List.mem_append_right _ (List.mem_append_right _ hpath)
    · exact records_pure _

end

/-! ## The rules -/

theorem about_of_reports {p : String} {r : Checked} (h : r.Reports p) :
    ∀ e ∈ r.errors, e.About p := by
  induction h with
  | pass => exact fun _ he => absurd he List.not_mem_nil
  | violation description =>
    intro e he
    obtain rfl := List.mem_singleton.1 he
    exact ⟨_, by decide, description, rfl⟩
  | append _ _ iha ihb =>
    intro e he
    exact (List.mem_append.1 he).elim (iha e) (ihb e)

/-- Every error of the verdict is about the resource. -/
def Verdict.About (p : String) (v : Verdict) : Prop := ∀ e ∈ v.errors, e.About p

theorem about_verdict {p : String} {r : Checked} (h : r.Reports p) : r.verdict.About p :=
  about_of_reports h

theorem about_unprocessable_after {p : String} {r : Checked} (h : r.Reports p)
    (description : String) : ((unprocessable p description).after r.errors).About p := by
  intro e he
  rcases List.mem_append.1 he with he | he
  · exact about_of_reports h e he
  · obtain rfl := List.mem_singleton.1 he
    exact ⟨_, by decide, description, rfl⟩

theorem about_unprocessable (p description : String) : (unprocessable p description).About p :=
  about_unprocessable_after reports_pass description

theorem about_accept (p : String) : Verdict.About p ⟨true, httpOk, []⟩ :=
  fun _ he => absurd he List.not_mem_nil

theorem about_worst {p : String} {v w : Verdict} (hv : v.About p) (hw : w.About p) :
    (getWorstResponseCode [v, w]).About p := by
  intro e he
  simp only [getWorstResponseCode, List.foldl_cons, List.foldl_nil, List.nil_append,
    List.mem_append] at he
  exact he.elim (hv e) (hw e)

section

variable {ind : Indeterminate} {rr : RelatedResources V} {c : Change V} {v : Verdict}

theorem about_subscriptionRulesWithProfile {before : Checked}
    (hbefore : before.Reports c.resourcePath)
    (h : subscriptionRulesWithProfile ind rr c before = some v) : v.About c.resourcePath := by
  obtain ⟨found, -, hv⟩ := Option.bind_eq_some_iff.1 h
  cases found with
  | none =>
    obtain rfl := Option.some.inj hv
    exact about_unprocessable_after hbefore _
  | some sliceProfile =>
    obtain rfl := Option.some.inj hv
    exact about_verdict (reports_append hbefore (by simp))

theorem about_checkForCreationUdmSubscriptionRules
    (h : checkForCreationUdmSubscriptionRules ind rr c = some v) : v.About c.resourcePath := by
  simp only [checkForCreationUdmSubscriptionRules] at h
  split at h
  · obtain rfl := Option.some.inj h
    exact about_unprocessable _ _
  · obtain ⟨journal, -, hv⟩ := Option.bind_eq_some_iff.1 h
    exact about_subscriptionRulesWithProfile (reports_checkImsiIsInProvJournal _ _ _) hv

theorem about_checkForUpdateUdmSubscriptionRules
    (h : checkForUpdateUdmSubscriptionRules ind rr c = some v) : v.About c.resourcePath := by
  rw [checkForUpdateUdmSubscriptionRules] at h
  split_ifs at h
  · obtain rfl := Option.some.inj h
    exact about_unprocessable _ _
  · exact about_subscriptionRulesWithProfile reports_pass h

theorem about_checkForUpdateUdmSliceProfileRules
    (h : checkForUpdateUdmSliceProfileRules ind rr c = some v) : v.About c.resourcePath := by
  rw [checkForUpdateUdmSliceProfileRules] at h
  split at h
  · obtain rfl := Option.some.inj h
    exact about_unprocessable _ _
  · obtain ⟨relResource, -, hv⟩ := Option.bind_eq_some_iff.1 h
    obtain rfl := Option.some.inj hv
    exact about_verdict (reports_append (reports_commonSliceProfileRules ind c) (by simp))

theorem about_checkForUpdateUdmRoamingAreaRules :
    (checkForUpdateUdmRoamingAreaRules rr c).About c.resourcePath := by
  rw [checkForUpdateUdmRoamingAreaRules]
  split_ifs
  · exact about_unprocessable _ _
  · exact about_verdict (by simp)

theorem about_commonSmsValidationRules :
    (commonSmsValidationRules ind c).About c.resourcePath := by
  refine about_verdict (reports_inOrder ?_)
  simp [checkSmsSubscribed, checkMtSmsSubscribed, checkMoSmsSubscribed]

theorem about_createSpecificSmsValidationRules
    (h : createSpecificSmsValidationRules rr c = some v) : v.About c.resourcePath := by
  simp only [createSpecificSmsValidationRules] at h
  split at h
  · obtain rfl := Option.some.inj h
    exact about_unprocessable _ _
  · obtain ⟨journal, -, hv⟩ := Option.bind_eq_some_iff.1 h
    obtain rfl := Option.some.inj hv
    exact about_verdict (reports_checkImsiIsInProvJournal _ _ _)

theorem about_updateSpecificSmsValidationRules :
    (updateSpecificSmsValidationRules rr c).About c.resourcePath := by
  rw [updateSpecificSmsValidationRules]
  split_ifs
  · exact about_accept _
  · exact about_unprocessable _ _

theorem about_smsValidationData (h : smsValidationData ind rr c = some v) :
    v.About c.resourcePath := by
  rw [smsValidationData] at h
  split_ifs at h
  · obtain rfl := Option.some.inj h
    exact about_worst about_commonSmsValidationRules about_updateSpecificSmsValidationRules
  · obtain ⟨create, hcreate, hv⟩ := Option.bind_eq_some_iff.1 h
    obtain rfl := Option.some.inj hv
    exact about_worst about_commonSmsValidationRules
      (about_createSpecificSmsValidationRules hcreate)
  · obtain rfl := Option.some.inj h
    exact about_accept _

/-- **Every rule function gives errors about its change only.** -/
theorem about_changeRules (h : changeRules ind rr c = some v) : v.About c.resourcePath := by
  rw [changeRules] at h
  split_ifs at h
  · exact about_checkForCreationUdmSubscriptionRules h
  · exact about_checkForUpdateUdmSubscriptionRules h
  · obtain rfl := Option.some.inj h
    exact about_verdict (reports_append (reports_commonSliceProfileRules ind c)
      (by simp [checkForCreationSpecificUdmSliceProfileRules]))
  · exact about_checkForUpdateUdmSliceProfileRules h
  · obtain rfl := Option.some.inj h
    exact about_verdict (by simp)
  · obtain rfl := Option.some.inj h
    exact about_checkForUpdateUdmRoamingAreaRules
  · exact about_smsValidationData h
  · obtain rfl := Option.some.inj h
    exact about_unprocessable _ _
  · obtain rfl := Option.some.inj h
    exact about_accept _

theorem about_applyStep {st st' : ApplyState V} {paths : List String}
    (hst : ∀ e ∈ st.response.errors, ∃ path ∈ paths, e.About path)
    (hc : c.resourcePath ∈ paths) (h : applyStep ind rr st c = some st') :
    ∀ e ∈ st'.response.errors, ∃ path ∈ paths, e.About path := by
  obtain ⟨v, hv, hst'⟩ := Option.bind_eq_some_iff.1 h
  obtain rfl := Option.some.inj hst'
  intro e he
  rcases List.mem_append.1 he with he | he
  · exact hst e he
  · exact ⟨c.resourcePath, hc, about_changeRules hv e he⟩

/-- **The errors of a run are about its changes.** -/
theorem about_applyValidationRules {paths : List String} {cs : List (Change V)}
    (hcs : ∀ c ∈ cs, c.resourcePath ∈ paths) {st : ApplyState V}
    (h : applyValidationRules ind rr cs = some st) :
    ∀ e ∈ st.response.errors, ∃ path ∈ paths, e.About path := by
  have hrun : ∀ (cs : List (Change V)) (st st' : ApplyState V),
      (∀ c ∈ cs, c.resourcePath ∈ paths) →
      (∀ e ∈ st.response.errors, ∃ path ∈ paths, e.About path) →
      cs.foldlM (applyStep ind rr) st = some st' →
        ∀ e ∈ st'.response.errors, ∃ path ∈ paths, e.About path := by
    intro cs
    induction cs with
    | nil =>
      intro st st' _ hst h
      obtain rfl := Option.some.inj h
      exact hst
    | cons c cs ih =>
      intro st st' hcs hst h
      rw [List.foldlM_cons] at h
      obtain ⟨st₁, hstep, hrest⟩ := Option.bind_eq_some_iff.1 h
      exact ih st₁ st' (fun c' hc' => hcs c' (List.mem_cons_of_mem c hc'))
        (about_applyStep hst (hcs c List.mem_cons_self) hstep) hrest
  exact hrun cs {} st hcs (fun _ he => absurd he List.not_mem_nil) h

end

/-! ## Answers -/

/-- An error of an answer: one of the messages, with a description and the path. -/
def ErrorAbout (path : String) (y : Json) : Prop :=
  ∃ message ∈ errorMessages, ∃ description, y = .obj [
    (jsonErrorMessage, .str message),
    (jsonErrorDetails, .obj [
      ("description", .str description),
      (jsonResourcePath, .str path)])]

/-- The details stand in the order of their names. -/
theorem entries_mkError (message path description : String) :
    (mkError message path description).errorDetails.entries =
      [("description", description), ("resource_path", path)] := by
  have horder : ("description" : String) < "resource_path" := by decide
  simp only [mkError, OrdMap.emplaceAll, List.foldl_cons, List.foldl_nil, OrdMap.emplace,
    OrdMap.entries_empty, OrdMap.insertEntry, if_pos horder]

theorem errorToJson_mkError (message path description : String) :
    errorToJson (mkError message path description) = .obj [
      (jsonErrorMessage, .str (cstr message)),
      (jsonErrorDetails, .obj [
        ("description", .str (cstr description)),
        (jsonResourcePath, .str (cstr path))])] := by
  have hdescription : cstr "description" = "description" := by decide
  have hpath : cstr "resource_path" = "resource_path" := by decide
  rw [errorToJson, entries_mkError, errorMessage_mkError, List.map_cons, List.map_cons,
    List.map_nil, hdescription, hpath]

theorem errorAbout_of_about {path : String} (hpath : cstr path = path) {e : Error}
    (h : e.About path) : ErrorAbout path (errorToJson e) := by
  obtain ⟨message, hmessage, description, rfl⟩ := h
  have hplain : ∀ m ∈ errorMessages, cstr m = m := by decide
  refine ⟨message, hmessage, cstr description, ?_⟩
  rw [errorToJson_mkError, hpath, hplain message hmessage]

/-- The paths of a request are read up to their first NUL. -/
theorem cstr_readings {p : String} (hp : cstr p = p) (ms : List (String × Json)) :
    ∀ r ∈ readings p ms, cstr r.1 = r.1 := by
  induction ms generalizing p with
  | nil => exact fun _ hr => absurd hr List.not_mem_nil
  | cons m ms ih =>
    rw [readings]
    split_ifs
    · exact ih (cstr_textOf m.2)
    · exact List.forall_mem_cons.2 ⟨hp, ih hp⟩
    · exact ih hp

theorem cstr_listReadings (xs : List Json) : ∀ r ∈ listReadings xs, cstr r.1 = r.1 := by
  induction xs with
  | nil => exact fun _ hr => absurd hr List.not_mem_nil
  | cons x xs ih =>
    rw [listReadings, List.forall_mem_append]
    refine ⟨cstr_readings cstr_empty _, ?_⟩
    split_ifs
    · exact ih
    · exact fun _ hr => absurd hr List.not_mem_nil

theorem cstr_requestPath {doc : Json} {path : String} (h : path ∈ requestPaths doc) :
    cstr path = path := by
  rcases List.mem_append.1 h with hchange | hother
  · obtain ⟨x, -, rfl⟩ := List.mem_map.1 hchange
    exact cstr_changeText jsonResourcePath x
  · rcases List.mem_append.1 hother with hread | hrelated
    · obtain ⟨r, hr, rfl⟩ := List.mem_map.1 hread
      exact cstr_listReadings (requestChanges doc) r hr
    · obtain ⟨m, -, rfl⟩ := List.mem_map.1 hrelated
      exact cstr_cstr m.1

variable {oai : OaiValidator} {ind : Indeterminate} {doc : Json} {a : Answer}

/-- What the parser has recorded. -/
theorem about_recordedErrors {data : ValidationData Json} {events : List Event}
    (h : getValidationData id doc = .ret data events) :
    ∀ e ∈ recordedErrors events, ∃ path ∈ requestPaths doc, e.About path := by
  have hdoc := isObject_of_getValidationData h
  intro e he
  obtain ⟨event, hevent, heq⟩ := List.mem_filterMap.1 he
  have habout := records_getValidationData hdoc data events h event hevent
  cases event with
  | error err =>
    obtain rfl := Option.some.inj heq
    exact habout
  | parsingError err => cases heq

/-- What the rules have found. -/
theorem about_errors {data : ValidationData Json} {events : List Event} {st : ApplyState Json}
    (h : RulesRun ind doc data events st) :
    ∀ e ∈ st.response.errors, ∃ path ∈ requestPaths doc, e.About path := by
  refine about_applyValidationRules (fun c hc => ?_) h.rules
  have hread : Yields (fun _ => True) (getValidationData id doc) data :=
    ⟨events, h.read, fun _ _ => trivial⟩
  obtain ⟨x, hx, -, hpath⟩ := exists_of_forall₂ ((result_getValidationData hread).2 h.ret) c hc
  exact List.mem_append_left _ (hpath ▸ List.mem_map_of_mem hx)

/-- The list of errors of an answer. -/
theorem listed_of_about {errors : List Error} (herrors : errors ≠ [])
    (h : ∀ e ∈ errors, ∃ path ∈ requestPaths doc, e.About path) :
    ∃ ys, ys ≠ [] ∧ validatorResponseToJson ind { errors } = .obj [(jsonErrors, .arr ys)] ∧
      ∀ y ∈ ys, ∃ path ∈ requestPaths doc, ErrorAbout path y := by
  refine ⟨errors.map errorToJson, fun hnil => herrors (List.map_eq_nil_iff.1 hnil), ?_, ?_⟩
  · rw [validatorResponseToJson, if_neg herrors]
  · intro y hy
    obtain ⟨e, he, rfl⟩ := List.mem_map.1 hy
    obtain ⟨path, hpath, habout⟩ := h e he
    exact ⟨path, hpath, errorAbout_of_about (cstr_requestPath hpath) habout⟩

/-- **Every error of an answer is about something that the client has sent.** -/
theorem errors_located (h : handleHttp2Request oai ind (some doc) = some a)
    (hstatus : a.status = httpConflict ∨ a.status = httpUnprocessableEntity) :
    ∃ ys, ys ≠ [] ∧ a.body = .obj [(jsonErrors, .arr ys)] ∧
      ∀ y ∈ ys, ∃ path ∈ requestPaths doc, ErrorAbout path y := by
  have hpass : a.status ≠ httpInternalServerError := by
    rcases hstatus with hconflict | hunprocessable
    · simp [hconflict]
    · simp [hunprocessable]
  cases answered h hpass with
  | notAdmitted => simp at hstatus
  | notRead => simp at hstatus
  | refusedByParser data events hread _ herrors =>
    exact listed_of_about herrors (about_recordedErrors hread)
  | decided data events st hrun =>
    have hagrees := agrees_applyValidationRules hrun.rules
    have hret : st.ret ≠ true := by
      intro hret
      simp [hret] at hstatus
    have herrors : st.response.errors ≠ [] := fun hnil => hret (hagrees.sound.ret_iff.2 hnil)
    have hbody : validatorResponseToJson ind st.response =
        validatorResponseToJson ind { errors := st.response.errors } := by
      rw [validatorResponseToJson, if_neg herrors, validatorResponseToJson, if_neg herrors]
    rw [hbody]
    exact listed_of_about herrors (about_errors hrun)

/-- An update of an area that is not there, whose error is about the path of the change. -/
theorem errors_located_area_update : ∃ a ys, handleHttp2Request passAll ⟨0, false⟩
      (some (oneChange "UPDATE" "/profiles/udmProfiles/udmRoamingAreas/a" (.obj []))) = some a ∧
    a.status = httpUnprocessableEntity ∧ ys ≠ [] ∧ a.body = .obj [(jsonErrors, .arr ys)] ∧
    ∀ y ∈ ys, ErrorAbout "/profiles/udmProfiles/udmRoamingAreas/a" y := by
  obtain ⟨ys, hys, hbody, habout⟩ := @errors_located passAll ⟨0, false⟩
    (oneChange "UPDATE" "/profiles/udmProfiles/udmRoamingAreas/a" (.obj [])) _ rfl (.inr rfl)
  have hpaths : requestPaths
      (oneChange "UPDATE" "/profiles/udmProfiles/udmRoamingAreas/a" (.obj [])) =
      ["/profiles/udmProfiles/udmRoamingAreas/a", "/profiles/udmProfiles/udmRoamingAreas/a"] := by
    decide +kernel
  refine ⟨_, ys, rfl, rfl, hys, hbody, fun y hy => ?_⟩
  obtain ⟨path, hpath, hy⟩ := habout y hy
  rw [hpaths] at hpath
  simp only [List.mem_cons, List.not_mem_nil, or_false, or_self] at hpath
  exact hpath ▸ hy

end ProvisioningValidator
