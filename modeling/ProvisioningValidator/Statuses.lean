import Mathlib
import ProvisioningValidator.AcceptableChanges

/-!
# What a status says

A client sees a status before anything else. For a request that passes the check against the
interface description and is answered, each of the four statuses stands for a condition on the
document and on the changes in it, and the conditions exclude one another.

* 400 — the parser gives up on a change.
* 409 — the parser finds fault with the data of a change or with a related resource, or finds none
  and the rules do, although everything they need is there.
* 422 — something that the rules need is not there.
* 200 — the changes are acceptable.

**Theorem (`status_iff`).** A request is answered with each of them exactly under its condition.
-/

namespace ProvisioningValidator

open Lib Lib.Run Lib.Shape

/-- The parser finds fault neither with the data of the changes nor with the related resources. -/
structure FaultlessDocument (doc : Json) : Prop where
  data : ∀ r ∈ dataReadings doc, AsNamed Faultless r
  relatedIsObject : RelatedIsObject doc
  related : ∀ m ∈ relatedMembers doc, AsClassified Faultless JournalSafe m

variable {oai : OaiValidator} {ind : Indeterminate} {doc : Json} {a : Answer}
  {data : ValidationData Json} {events : List Event}

/-- Nothing is recorded exactly for documents without a fault. -/
theorem quiet_iff (hdoc : doc.IsObject) (hread : getValidationData id doc = .ret data events)
    (hok : changesOk doc = true) : recordedErrors events = [] ↔ FaultlessDocument doc := by
  have hreturns := @returnsIff_getValidationData Json id { quiet := true, strict := false } doc hdoc
  rw [recordedErrors_eq_nil_iff]
  constructor
  · intro hquiet
    obtain ⟨⟨hdata, -⟩, hrelated⟩ := hreturns.1 ⟨data, events, hread, hquiet⟩
    exact ⟨hdata, (hrelated hok).1, (hrelated hok).2⟩
  · intro h
    obtain ⟨data', events', hread', hquiet⟩ := hreturns.2
      ⟨⟨h.data, fun hstrict => Bool.noConfusion hstrict⟩, fun _ => ⟨h.relatedIsObject, h.related⟩⟩
    obtain ⟨-, rfl⟩ := Run.ret.inj (hread.symm.trans hread')
    exact hquiet

/-- **What each status says.** -/
theorem status_iff (hdoc : doc.IsObject) (hadmitted : oai.validateRequest (some doc) = none)
    (h : handleHttp2Request oai ind (some doc) = some a)
    (hpass : a.status ≠ httpInternalServerError) :
    ∃ data events, getValidationData id doc = .ret data events ∧
      (a.status = httpBadRequest ↔ changesOk doc = false) ∧
      (a.status = httpConflict ↔ changesOk doc = true ∧ (FaultlessDocument doc →
        (∀ c ∈ data.changes, ¬ Missing data.relatedResources c) ∧
          ∃ c ∈ data.changes, ¬ Acceptable ind data.relatedResources c)) ∧
      (a.status = httpUnprocessableEntity ↔ changesOk doc = true ∧ FaultlessDocument doc ∧
        ∃ c ∈ data.changes, Missing data.relatedResources c) ∧
      (a.status = httpOk ↔ changesOk doc = true ∧ FaultlessDocument doc ∧
        ∀ c ∈ data.changes, Acceptable ind data.relatedResources c) := by
  have hret : ∀ {data : ValidationData Json} {events : List Event},
      getValidationData id doc = .ret data events → data.ret = changesOk doc := fun hread =>
    (result_getValidationData (q := fun _ => True) ⟨_, hread, fun _ _ => trivial⟩).1
  cases answered h hpass with
  | notAdmitted reason hrefused =>
    rw [hadmitted] at hrefused
    cases hrefused
  | notRead data events hread hfalse =>
    have hok : changesOk doc = false := (hret hread).symm.trans hfalse
    refine ⟨data, events, hread, ?_⟩
    simp [hok]
  | refusedByParser data events hread htrue herrors =>
    have hok : changesOk doc = true := (hret hread).symm.trans htrue
    have hfault : ¬ FaultlessDocument doc := fun hfaultless =>
      herrors ((quiet_iff hdoc hread hok).2 hfaultless)
    refine ⟨data, events, hread, ?_⟩
    simp [hok, hfault]
  | decided data events st hrun =>
    have hok : changesOk doc = true := (hret hrun.read).symm.trans hrun.ret
    have hfaultless : FaultlessDocument doc := (quiet_iff hdoc hrun.read hok).1 hrun.quiet
    have hsound := (agrees_applyValidationRules hrun.rules).sound
    have hstatus : (if st.ret = true then httpOk else st.code) = st.code := by
      split_ifs with hst
      · exact (hsound.code_ok.2 hst).symm
      · rfl
    obtain ⟨hall, hmissing, hconflict⟩ := outcome_iff hrun.rules
    refine ⟨data, events, hrun.read, ?_⟩
    simp only [hstatus, hok, hfaultless, true_and, forall_const]
    refine ⟨?_, hconflict, hmissing, hall⟩
    have hcode := hsound.code_mem
    simp only [httpBadRequest, Bool.true_eq_false, iff_false] at hcode ⊢
    omega

/-- An update of an area that is not there. -/
def areaUpdate : Json :=
  oneChange "UPDATE" "/profiles/udmProfiles/udmRoamingAreas/a" (.obj [])

/-- Its answer says that something is missing. -/
theorem status_iff_area_update : ∃ a data events,
    handleHttp2Request passAll ⟨0, false⟩ (some areaUpdate) = some a ∧
      getValidationData id areaUpdate = .ret data events ∧
      ∃ c ∈ data.changes, Missing data.relatedResources c := by
  obtain ⟨data, events, hread, -, -, hmissing, -⟩ := @status_iff passAll ⟨0, false⟩ areaUpdate _
    ⟨_, rfl⟩ rfl rfl (by decide)
  exact ⟨_, data, events, rfl, hread, (hmissing.1 rfl).2.2⟩

end ProvisioningValidator
