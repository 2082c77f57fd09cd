import Mathlib
import ProvisioningValidator.Batches
import ProvisioningValidator.Completeness

/-!
# Answers, sent back

A client may send the changes of an answer again, beside the resources that it sent with the request.
Where the request was read without loss, the parser finds the changes as they were delivered
(`storable_of_redeliverable`), and the rules decide on them as on the first run, but for the entries
that were given a list (`accepted_computeMutations_iff`).

**Theorem (`resubmitted_iff`).** The answer to them has status 200 and the same body exactly if all
changes are settled.
-/

namespace ProvisioningValidator

open Lib Lib.Run

variable {oai : OaiValidator} {ind : Indeterminate} {doc body : Json} {xs : List Json}

/-- What can be stored is read as it was. -/
theorem readsChange_written {c : Change Json} (h : c.Storable) :
    ReadsChange (changeToJson ind c) c := by
  obtain ⟨ms, hms, hread⟩ := getChange_written ind h
  exact ⟨ms, hms, hread ▸ yields_pure.2 rfl⟩

/-- The changes that a request is read as are determined by it. -/
theorem readsChange_unique {cs ds : List (Change Json)} (h : List.Forall₂ ReadsChange xs cs)
    (h' : List.Forall₂ ReadsChange xs ds) : cs = ds :=
  (Prod.mk.inj ((yields_getChanges.2 h).unique (yields_getChanges.2 h'))).2

/-- **The changes of an answer, sent back beside the same resources.** For a request that is answered
with 200 and whose changes are redeliverable: the request with the changes of the answer in their
place has the same answer exactly if the changes are settled. -/
theorem resubmitted_iff (h : handleHttp2Request oai ind (some doc) = some ⟨httpOk, body⟩)
    (hadmitted : oai.validateRequest (some (withChanges doc (changesOf body))) = none) :
    ∃ data, Yields Quiet (getValidationData id doc) data ∧
      (List.Forall₂ Redeliverable (requestChanges doc) data.changes →
        (handleHttp2Request oai ind (some (withChanges doc (changesOf body))) =
            some ⟨httpOk, body⟩ ↔
          ∀ c ∈ data.changes, Delivers c → Settled ind data.relatedResources c)) := by
  obtain ⟨⟨-, hresponse⟩, data, ⟨hdata, hret⟩, hall, rfl⟩ := answered_ok_iff.1 h
  refine ⟨data, hdata, fun hchanges => ?_⟩
  have hstorable := storable_of_redeliverable hdata hret hchanges
  obtain ⟨hdoc, -, hrr⟩ := readsChanges_of_yields hdata hret
  have hagain : List.Forall₂ ReadsChange
      (changesOf (validatorResponseToJson ind { changes := data.changes.map computeMutations }))
      (data.changes.map computeMutations) := by
    rw [changesOf_response, List.forall₂_map_left_iff, List.forall₂_same]
    exact fun c hc => readsChange_written (hstorable c hc)
  have hsettled : (∀ c ∈ data.changes.map computeMutations,
      accepted ind data.relatedResources c = true) ↔
        ∀ c ∈ data.changes, Delivers c → Settled ind data.relatedResources c := by
    rw [List.forall_mem_map]
    exact forall₂_congr fun c hc => accepted_computeMutations_iff (hall c hc)
  rw [answered_ok_iff, ← hsettled]
  constructor
  · intro hanswer
    obtain ⟨-, data', hdata', hall', -⟩ := hanswer
    obtain ⟨hcs, hrr', -⟩ := (yields_withChanges hdoc).1 hdata'
    rw [readsChange_unique hagain hcs, hrr.unique hrr']
    exact hall'
  · intro hmap
    have htwice : (data.changes.map computeMutations).map computeMutations =
        data.changes.map computeMutations := by
      simp only [List.map_map, Function.comp_def, computeMutations_computeMutations]
    refine ⟨⟨hadmitted, hresponse⟩,
      ⟨true, data.changes.map computeMutations, data.relatedResources⟩,
      (yields_withChanges hdoc).2 ⟨hagain, hrr, rfl⟩, hmap, ?_⟩
    rw [htwice]

/-- An area with one area code can be sent back. -/
theorem resubmitted_iff_area : ∃ body,
    handleHttp2Request passAll ⟨0, false⟩ (some areaCreation) = some ⟨httpOk, body⟩ ∧
      handleHttp2Request passAll ⟨0, false⟩ (some (withChanges areaCreation (changesOf body))) =
        some ⟨httpOk, body⟩ := by
  have hread : getValidationData id areaCreation = .ret ⟨true, [createdArea], ∅⟩ [] := rfl
  obtain ⟨data, ⟨events, hdata, -⟩, hagain⟩ := @resubmitted_iff passAll ⟨0, false⟩
    areaCreation _ rfl rfl
  obtain ⟨rfl, -⟩ := Run.ret.inj (hread.symm.trans hdata)
  refine ⟨_, rfl, (hagain (.cons redeliverable_createdArea .nil)).2 fun c hc _ => ?_⟩
  obtain rfl := List.mem_singleton.1 hc
  have hprofile : isUdmSliceProfile createdArea.resourcePath = false := by decide
  have hstatic : isUdmStaticData createdArea.resourcePath = false := by decide
  exact ⟨fun h => by simp [hprofile] at h, fun h => by simp [hprofile] at h,
    fun h => by simp [hstatic] at h⟩

end ProvisioningValidator
