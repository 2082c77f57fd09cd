import Mathlib
import ProvisioningValidator.AllOrNothing

/-!
# Requests that only delete

The rules let every deletion pass, whatever its path. The parser comes first, though, and it reads
the data of a change by the path alone: what it finds fault with there refuses the request, and
what it cannot use ends it. `deletions_accepted_iff` says when such a request is accepted.
-/

namespace ProvisioningValidator

open Lib Lib.Run Lib.Shape

/-! ## The rules -/

section

variable {V : Type} (ind : Indeterminate) (rr : RelatedResources V)

/-- Every deletion passes the rules. -/
theorem changeRules_of_deletion {c : Change V} (h : c.operation = jsonOperationDelete) :
    changeRules ind rr c = some ⟨true, httpOk, []⟩ := by
  have hcreate : ¬ c.operation = jsonOperationCreate := by
    rw [h]
    decide
  have hupdate : ¬ c.operation = jsonOperationUpdate := by
    rw [h]
    decide
  have hsms : smsValidationData ind rr c = some ⟨true, httpOk, []⟩ := by
    rw [smsValidationData, if_neg hupdate, if_neg hcreate]
    rfl
  unfold changeRules
  simp only [hcreate, hupdate, and_false, if_false]
  by_cases hpath : isSmsSubscription c.resourcePath = true
  · rw [if_pos hpath, hsms]
  · rw [if_neg hpath, if_neg (not_not.2 h)]

/-- A run over deletions accepts all of them. -/
theorem applyValidationRules_of_deletions {changes : List (Change V)}
    (h : ∀ c ∈ changes, c.operation = jsonOperationDelete) :
    ∃ st, applyValidationRules ind rr changes = some st ∧ st.ret = true ∧
      st.response = ⟨changes.map computeMutations, []⟩ := by
  have hrun : ∀ (cs : List (Change V)) (st : ApplyState V),
      (∀ c ∈ cs, c.operation = jsonOperationDelete) → st.ret = true →
        ∃ st', cs.foldlM (applyStep ind rr) st = some st' ∧ st'.ret = true ∧
          st'.response = ⟨st.response.changes ++ cs.map computeMutations, st.response.errors⟩ := by
    intro cs
    induction cs with
    | nil =>
      intro st _ hret
      exact ⟨st, rfl, hret, by simp⟩
    | cons c cs ih =>
      intro st hall hret
      have hstep : applyStep ind rr st c = some ⟨true, max st.code httpOk,
          ⟨st.response.changes ++ [computeMutations c], st.response.errors⟩⟩ := by
        unfold applyStep
        rw [changeRules_of_deletion ind rr (hall c List.mem_cons_self)]
        simp [hret]
      have hrest := ih ⟨true, max st.code httpOk,
        ⟨st.response.changes ++ [computeMutations c], st.response.errors⟩⟩
        (fun c hc => hall c (List.mem_cons_of_mem _ hc)) rfl
      rw [List.foldlM_cons, hstep]
      obtain ⟨st', hst', hret', hresponse⟩ := hrest
      refine ⟨st', hst', hret', ?_⟩
      rw [hresponse, List.map_cons, List.append_assoc]
      rfl
  obtain ⟨st, hst, hret, hresponse⟩ := hrun changes {} h rfl
  exact ⟨st, hst, hret, by simpa using hresponse⟩

end

/-! ## The answer -/

variable {oai : OaiValidator} {ind : Indeterminate} {doc : Json}

/-- The changes of the request are deletions, and nothing is related to them. -/
structure OnlyDeletions (doc : Json) : Prop where
  operation : ∀ x ∈ requestChanges doc, x.member? jsonOperation = some (.str jsonOperationDelete)
  unrelated : relatedMembers doc = []

/-- The echo of deletions under these paths. -/
def deletionsToJson (resourcePaths : List String) : Json :=
  .obj (listToJson resourcePaths jsonChanges fun resourcePath => .obj
    [(jsonOperation, .str jsonOperationDelete), (jsonResourcePath, .str resourcePath)])

/-- The parser finds no fault with the request: it gives up on no change, and the data of each
change, read by the kinds that its path names, are as those kinds ask for. -/
def ReadableChanges (doc : Json) : Prop :=
  changesOk doc = true ∧ ∀ r ∈ dataReadings doc, AsNamed Faultless r

theorem changeToJson_of_deletion {c : Change Json} (h : c.operation = jsonOperationDelete) :
    changeToJson ind c = .obj [(jsonOperation, .str jsonOperationDelete),
      (jsonResourcePath, .str (cstr c.resourcePath))] := by
  have hcstr : cstr jsonOperationDelete = jsonOperationDelete := by decide +kernel
  rw [changeToJson, h, hcstr, bne_self_eq_false]
  rfl

/-- What deletions are answered with. -/
theorem body_of_deletions {changes : List (Change Json)}
    (h : ∀ c ∈ changes, c.operation = jsonOperationDelete) :
    validatorResponseToJson ind ⟨changes.map computeMutations, []⟩ =
      deletionsToJson (changes.map fun c => cstr c.resourcePath) := by
  rw [validatorResponseToJson, if_pos rfl, deletionsToJson, listToJson, listToJson]
  by_cases hnil : changes = []
  · simp [hnil]
  · rw [if_neg (by simpa using hnil), if_neg (by simpa using hnil), List.map_map, List.map_map]
    have hmap : changes.map (changeToJson ind ∘ computeMutations) = changes.map
        ((fun resourcePath => .obj [(jsonOperation, .str jsonOperationDelete),
          (jsonResourcePath, .str resourcePath)]) ∘ fun c => cstr c.resourcePath) := by
      refine List.map_congr_left fun c hc => ?_
      have hop : (computeMutations c).operation = jsonOperationDelete :=
        (operation_computeMutations c).trans (h c hc)
      rw [Function.comp_apply, changeToJson_of_deletion hop, resourcePath_computeMutations]
      rfl
    rw [hmap]

/-- What is read without fault is answered with 200. -/
theorem answer_of_readable (h : Admitted doc) (hdelete : OnlyDeletions doc)
    (hrequest : oai.validateRequest (some doc) = none)
    (hresponse : ∀ paths, oai.validateResponse httpOk (deletionsToJson paths) = none)
    (hplain : PlainChanges doc) (hread : ReadableChanges doc) :
    ∃ a, handleHttp2Request oai ind (some doc) = some a ∧ a.status = httpOk := by
  have hquiet : ∃ data, Yields Quiet (getValidationData id doc) data := by
    refine (returnsIff_getValidationData h.root).2 ⟨⟨hread.2, by simp⟩, fun _ => ⟨?_, ?_⟩⟩
    · exact h.relatedResources
    · rw [hdelete.unrelated]
      simp
  obtain ⟨data, hdata⟩ := hquiet
  obtain ⟨hret, hchanges⟩ := result_getValidationData hdata
  have hret : data.ret = true := hret.trans hread.1
  have hops : ∀ c ∈ data.changes, c.operation = jsonOperationDelete := by
    intro c hc
    obtain ⟨x, hx, hop, -⟩ := exists_of_forall₂ (hchanges hret) c hc
    have hmember := (hplain x hx).1.symm.trans (hdelete.operation x hx)
    rw [hop]
    exact Json.str.inj (Option.some.inj hmember)
  obtain ⟨st, hst, hok, hst'⟩ := applyValidationRules_of_deletions ind data.relatedResources hops
  obtain ⟨events, hevents, hallowed⟩ := hdata
  have hnone : recordedErrors events = [] := by
    rw [recordedErrors, List.filterMap_eq_nil_iff]
    intro e he
    cases e with
    | error err => exact absurd (hallowed _ he) (by simp)
    | parsingError err => rfl
  have hparse : parse id (some doc) = getValidationData id doc := rfl
  refine ⟨⟨httpOk, validatorResponseToJson ind st.response⟩, ?_, rfl⟩
  rw [handleHttp2Request, hrequest]
  simp only [hparse, hevents]
  rw [answerParsed, if_neg (by simp [hret]), if_neg (by simp [hnone]), hst]
  show some (sendResponse oai _ _) = _
  rw [if_pos hok, sendResponse, hst', body_of_deletions hops, hresponse]

/-- **A request that only deletes is accepted exactly if the parser finds no fault with it**, and its
operations and paths survive the parser. An echo of a deletion has no data. -/
theorem deletions_accepted_iff (h : Admitted doc) (hdelete : OnlyDeletions doc)
    (hrequest : oai.validateRequest (some doc) = none)
    (hresponse : ∀ paths, oai.validateResponse httpOk (deletionsToJson paths) = none) :
    (∃ a, handleHttp2Request oai ind (some doc) = some a ∧ Accepted doc a) ↔
      PlainChanges doc ∧ ReadableChanges doc := by
  constructor
  · intro haccepted
    obtain ⟨a, ha, hok⟩ := haccepted
    obtain ⟨data, events, st, hst⟩ := answeredOk ha hok.status
    have hret : changesOk doc = true := by
      rw [← (result_getValidationData hst.yields).1]
      exact hst.ret
    have hfaultless := faultless_of_getValidationData h.root hst.yields
    exact ⟨(accepted_iff ha hok.status).1 hok, hret, hfaultless.1⟩
  · intro hcond
    obtain ⟨a, ha, hok⟩ := answer_of_readable h hdelete hrequest hresponse hcond.1 hcond.2
    exact ⟨a, ha, (accepted_iff ha hok).2 hcond.1⟩

/-- A deletion of a profile, with the profile as its data. -/
def deletionWithData : Json := oneChange "DELETE" "/profiles/udmProfiles/udmSliceProfiles/a"
  (.obj [("udmSliceProfileId", .str "a"), ("plmnIdSets", .arr [])])

/-- The data of a deletion are read, and where no fault is found in them it is accepted. -/
theorem deletions_accepted_iff_with_data : ∃ a,
    handleHttp2Request passAll ⟨0, false⟩ (some deletionWithData) = some a ∧
      Accepted deletionWithData a := by
  have hadmitted : Admitted deletionWithData :=
    admitted_oneChange (Or.inr (Or.inr rfl)) _ ⟨_, rfl⟩
  have hdelete : OnlyDeletions deletionWithData :=
    ⟨fun x hx => by rw [List.mem_singleton.1 hx]; rfl, rfl⟩
  refine (deletions_accepted_iff hadmitted hdelete rfl fun _ => rfl).2
    ⟨fun x hx => ?_, rfl, fun r hr => ?_⟩
  · rw [List.mem_singleton.1 hx]
    exact ⟨rfl, rfl⟩
  · rw [List.mem_singleton.1 hr]
    intro k hk
    cases k with
    | udmSliceProfile =>
      have hread := @conforms_reader Json id "" .udmSliceProfile {}
      exact (hread.returns { quiet := true, strict := false } _).1 ⟨_, _, rfl, nofun⟩
    | udmStaticData => exact absurd hk (by decide +kernel)
    | udmRoamingArea => exact absurd hk (by decide +kernel)
    | smsStaticData => exact absurd hk (by decide +kernel)

/-- With an identifier that is no text in its data, the deletion of a profile is refused. -/
theorem deletion_refused_for_data : ∃ doc, Admitted doc ∧ OnlyDeletions doc ∧
    ¬ ∃ a, handleHttp2Request passAll ⟨0, false⟩ (some doc) = some a ∧ Accepted doc a := by
  refine ⟨oneChange "DELETE" "/profiles/udmProfiles/udmSliceProfiles/a"
    (.obj [("udmSliceProfileId", .int 5)]),
    admitted_oneChange (Or.inr (Or.inr rfl)) _ ⟨_, rfl⟩, ⟨fun x hx => ?_, rfl⟩, ?_⟩
  · obtain rfl := List.mem_singleton.1 hx
    rfl
  · rintro ⟨a, ha, hok⟩
    have hstatus : a.status = httpConflict := by
      have heq := Option.some.inj ((show some _ = some a from ha))
      rw [← heq]
      rfl
    cases hstatus.symm.trans hok.status

end ProvisioningValidator
