import Mathlib
import ProvisioningValidator.SliceReferences

/-!
# The references of slice data, one by one

The last step of the common rules of a subscription collects three multimaps: what the entries of
the slice data name (A), what the slice data define (B) and what the associated profile defines
(C). It goes over the first and looks up the other two.

**Theorem (`missing_references_reported`).** The step reports exactly the elements of A that are in
neither B nor C, as often as they are there and sorted by key.
-/

namespace ProvisioningValidator

open Lib Checked

variable {V : Type}

/-! ## The three collections -/

/-- A: what the entries of some sets name, each time with the identifier of the set. -/
def references (sets : List (PlmnIdSets V)) : List (String × String) :=
  sets.flatMap fun s =>
    ((nssaiEntries s).map fun n => (s.plmnIdSetIdentifier, n.dnnListId)).filter (·.2 ≠ "")

/-- C: the lists of some sets, each with the identifier of the set. -/
def definitions (sets : List (PlmnIdSets V)) : List (String × String) :=
  sets.flatMap fun s => s.dnnLists.map fun l => (s.plmnIdSetIdentifier, l.dnnListId)

/-- B: the same without the lists that have no id. -/
def namedDefinitions (sets : List (PlmnIdSets V)) : List (String × String) :=
  sets.flatMap fun s =>
    (s.dnnLists.map fun l => (s.plmnIdSetIdentifier, l.dnnListId)).filter (·.2 ≠ "")

/-- The elements of A that are in neither B nor C, in the order of the sets. -/
def missingReferences (sets : List (PlmnIdSets V)) (profile : UdmSliceProfile V) :
    List (String × String) :=
  (references sets).filter fun a =>
    a ∉ namedDefinitions sets ∧ a ∉ definitions profile.plmnIdSets

/-- The error for one of them. -/
def notFound (resourcePath : String) (profile : UdmSliceProfile V) (a : String × String) :
    Error :=
  constraintViolation resourcePath (quoted jsonDnnListId ++ "=" ++ quoted a.2 ++ " for " ++
    quoted jsonPlmnIdSetIdentifier ++ "=" ++ quoted a.1 ++
    " not found neither in the subscription nor in the " ++ quoted jsonUdmSliceProfileId ++ "=" ++
    quoted profile.udmSliceProfileId)

theorem entries_dnnListIdsReferencedInSliceData (sets : List (PlmnIdSets V)) :
    MultiMap.SortedByKey (references sets) (dnnListIdsReferencedInSliceData sets).entries := by
  have hsame : references sets =
      sets.flatMap fun s => (dnnVector s).map fun id => (s.plmnIdSetIdentifier, id) := by
    simp only [references, dnnVector, nssaiEntries, List.filter_map, List.map_map]
    rfl
  rw [hsame]
  exact MultiMap.sortedByKey_insertAll _

theorem definedUnder_dnnListIdsDefinedInSliceData (sets : List (PlmnIdSets V))
    (a : String × String) :
    definedUnder (dnnListIdsDefinedInSliceData sets) a.1 a.2 = true ↔
      a ∈ namedDefinitions sets := by
  have hsame : namedDefinitions sets =
      sets.flatMap fun s => (dnnListIdVector s).map fun id => (s.plmnIdSetIdentifier, id) := by
    simp only [namedDefinitions, dnnListIdVector, List.filter_map, List.map_map]
    rfl
  rw [definedUnder_iff, dnnListIdsDefinedInSliceData, mem_insertAll_empty, hsame]

theorem definedUnder_dnnListIdsOnChange (sets : List (PlmnIdSets V)) (a : String × String) :
    definedUnder (dnnListIdsOnChange sets) a.1 a.2 = true ↔ a ∈ definitions sets := by
  rw [definedUnder_iff, dnnListIdsOnChange, mem_insertAll_empty, definitions]

/-! ## The step -/

theorem errors_forEach_failIf {α : Type} {c : α → Prop} [DecidablePred c] (resourcePath : String)
    (description : α → String) (xs : List α) :
    (forEach xs fun x => failIf (c x) resourcePath (description x)).errors =
      (xs.filter c).map fun x => constraintViolation resourcePath (description x) := by
  induction xs with
  | nil => rfl
  | cons x xs ih =>
    rw [forEach_cons, errors_append, ih]
    by_cases hx : c x
    · rw [List.filter_cons_of_pos (by simpa using hx), failIf, if_pos hx]
      rfl
    · rw [List.filter_cons_of_neg (by simpa using hx), failIf, if_neg hx]
      rfl

/-- **The errors of the step**: one for each missing reference, sorted by key. -/
theorem errors_sliceDataReferenceRules (resourcePath : String) (sets : List (PlmnIdSets V))
    (profile : UdmSliceProfile V) :
    ∃ missing, MultiMap.SortedByKey (missingReferences sets profile) missing ∧
      (sliceDataReferenceRules resourcePath sets profile).errors =
        missing.map (notFound resourcePath profile) := by
  have hsorted := (entries_dnnListIdsReferencedInSliceData sets).filter fun a =>
    a ∉ namedDefinitions sets ∧ a ∉ definitions profile.plmnIdSets
  refine ⟨_, hsorted, ?_⟩
  rw [sliceDataReferenceRules, errors_forEach_failIf]
  congr 1
  refine List.filter_congr fun a _ => ?_
  rw [decide_eq_decide, ← Bool.not_eq_true, ← Bool.not_eq_true,
    definedUnder_dnnListIdsDefinedInSliceData, definedUnder_dnnListIdsOnChange]

/-! ## In the rules of a subscription -/

section

variable (ind : Indeterminate)

/-- The rules of a subscription without the ones for its slice data. -/
def rulesBeforeSliceData (c : Change V) (profile : UdmSliceProfile V) : Checked :=
  checkForCommonUdmSubscriptionRules ind { c with
    udmStaticData := { c.udmStaticData with
      fieldExistence := { c.udmStaticData.fieldExistence with hasUdmSliceData := false } } } profile

/-- What is checked before the references. -/
def rulesBeforeReferences (c : Change V) (profile : UdmSliceProfile V) : Checked :=
  let sets := c.udmStaticData.udmSliceData.plmnIdSets
  rulesBeforeSliceData ind c profile ++
    (guard (sets ≠ []) (checkForCommonUdmSliceProfileRules ind sets false c.resourcePath) ++
      checkForRepeatedDnnsandNssais ind sets c.resourcePath)

theorem checkForCommonUdmSubscriptionRules_eq {c : Change V}
    (has : c.udmStaticData.fieldExistence.hasUdmSliceData = true) (profile : UdmSliceProfile V) :
    checkForCommonUdmSubscriptionRules ind c profile =
      rulesBeforeReferences ind c profile ++
        sliceDataReferenceRules c.resourcePath c.udmStaticData.udmSliceData.plmnIdSets profile := by
  have hslice : ∀ r : Checked,
      guard (c.udmStaticData.fieldExistence.hasUdmSliceData = true) r = r := fun r => if_pos has
  have hrules : udmSliceDataRules ind c.resourcePath c.udmStaticData.udmSliceData.plmnIdSets
      profile = guard (c.udmStaticData.udmSliceData.plmnIdSets ≠ [])
          (checkForCommonUdmSliceProfileRules ind c.udmStaticData.udmSliceData.plmnIdSets false
            c.resourcePath) ++
        (checkForRepeatedDnnsandNssais ind c.udmStaticData.udmSliceData.plmnIdSets
            c.resourcePath ++
          sliceDataReferenceRules c.resourcePath c.udmStaticData.udmSliceData.plmnIdSets
            profile) := by
    rw [udmSliceDataRules, inOrder_cons, inOrder_cons, inOrder_cons, inOrder_nil, append_pass]
  rw [checkForCommonUdmSubscriptionRules, hslice, rulesBeforeReferences, append_assoc,
    append_assoc, ← hrules]
  exact inOrder_concat [_, _, _, _, _, _, _, _, _, _] _

/-- **The references of slice data are checked exactly.** The step is the last of the common rules;
behind the others it adds one error for each missing reference, sorted by key, and it refuses
exactly when there is one. -/
theorem missing_references_reported {c : Change V}
    (has : c.udmStaticData.fieldExistence.hasUdmSliceData = true) (profile : UdmSliceProfile V) :
    ∃ missing,
      MultiMap.SortedByKey
          (missingReferences c.udmStaticData.udmSliceData.plmnIdSets profile) missing ∧
        (checkForCommonUdmSubscriptionRules ind c profile).errors =
          (rulesBeforeReferences ind c profile).errors ++
            missing.map (notFound c.resourcePath profile) ∧
        (checkForCommonUdmSubscriptionRules ind c profile).ret =
          if missing = [] then (rulesBeforeReferences ind c profile).ret else false := by
  obtain ⟨missing, hsorted, herrors⟩ := errors_sliceDataReferenceRules c.resourcePath
    c.udmStaticData.udmSliceData.plmnIdSets profile
  have hret := (reports_sliceDataReferenceRules c.resourcePath
    c.udmStaticData.udmSliceData.plmnIdSets profile).balanced.ret_iff
  rw [herrors, List.map_eq_nil_iff] at hret
  rw [checkForCommonUdmSubscriptionRules_eq ind has]
  refine ⟨missing, hsorted, by rw [errors_append, herrors], ?_⟩
  by_cases hnil : missing = []
  · rw [if_pos hnil, ret_append, hret.2 hnil, Bool.and_true]
  · have hfalse := Bool.eq_false_iff.2 fun h => hnil (hret.1 h)
    rw [if_neg hnil, ret_append, hfalse, Bool.and_false]

end

/-- Slice data with one entry that names a list, and no list. -/
def danglingSliceData : Change Json where
  udmStaticData := {
    fieldExistence := { hasUdmSliceData := true }
    udmSliceData := { plmnIdSets := [{
      plmnIdSetIdentifier := "Default"
      nssai := { defaultSingleNssais := [{ nssai := { sst := some 1 }, dnnListId := "a" }] } }] } }

theorem dangling_reference_reported :
    ∃ missing,
      MultiMap.SortedByKey
          (missingReferences danglingSliceData.udmStaticData.udmSliceData.plmnIdSets {}) missing ∧
        (checkForCommonUdmSubscriptionRules ⟨0, false⟩ danglingSliceData {}).errors =
          (rulesBeforeReferences ⟨0, false⟩ danglingSliceData {}).errors ++
            missing.map (@notFound Json "" {}) ∧
        (checkForCommonUdmSubscriptionRules ⟨0, false⟩ danglingSliceData {}).ret =
          if missing = [] then (rulesBeforeReferences ⟨0, false⟩ danglingSliceData {}).ret
          else false :=
  missing_references_reported ⟨0, false⟩ rfl {}

end ProvisioningValidator
