import Mathlib
import ProvisioningValidator.Paths
import ProvisioningValidator.SmsRules
import ProvisioningValidator.SubscriptionRules

/-!
# `applyValidationRules`

The rules of one change (`changeRules`) depend on the change and on the related resources only.
The loop conjoins their flags, keeps the largest code, appends their errors, and copies a change
into the response, with its mutations, as long as nothing has been refused.
-/

namespace ProvisioningValidator

open Lib

variable {V : Type}

/-! ## Mutations -/

/-- `includeNssai`: an entry without a list id gets the default one. -/
def includeNssai (nssai : List (NssaiDetails V)) : List (NssaiDetails V) :=
  nssai.map fun n => if n.dnnListId = "" then { n with dnnListId := defaultValue } else n

/-- The body of the loops of `computeMutations`. -/
def mutatePlmnIdSet (s : PlmnIdSets V) : PlmnIdSets V :=
  { s with nssai := { s.nssai with
      defaultSingleNssais := includeNssai s.nssai.defaultSingleNssais
      singleNssais :=
        if s.fieldExistenceUdmSliceProfile.hasNssai then includeNssai s.nssai.singleNssais
        else s.nssai.singleNssais } }

/-- The first half of `computeMutations`: the sets of a slice profile. -/
def mutateSliceProfile (change : Change V) : Change V :=
  if contains change.resourcePath jsonUdmSliceProfiles = true ∧
      (change.operation = jsonOperationCreate ∨ change.operation = jsonOperationUpdate) then
    { change with udmSliceProfile := { change.udmSliceProfile with
        plmnIdSets := change.udmSliceProfile.plmnIdSets.map mutatePlmnIdSet } }
  else change

/-- The second half: the sets of the slice data of a subscription, whatever the operation. -/
def mutateSliceData (change : Change V) : Change V :=
  if contains change.resourcePath jsonUdmStaticData = true then
    { change with udmStaticData := { change.udmStaticData with
        udmSliceData := { change.udmStaticData.udmSliceData with
          plmnIdSets := change.udmStaticData.udmSliceData.plmnIdSets.map mutatePlmnIdSet } } }
  else change

def computeMutations (change : Change V) : Change V := mutateSliceData (mutateSliceProfile change)

@[simp] theorem operation_computeMutations (c : Change V) :
    (computeMutations c).operation = c.operation := by
  unfold computeMutations mutateSliceData mutateSliceProfile
  split_ifs <;> rfl

@[simp] theorem resourcePath_computeMutations (c : Change V) :
    (computeMutations c).resourcePath = c.resourcePath := by
  unfold computeMutations mutateSliceData mutateSliceProfile
  split_ifs <;> rfl

/-! ## Rules of one change -/

/-- The loop of `getRelatedUdmSliceProfile`, over the resources in path order. -/
def findUdmSliceProfile (profId : String) :
    List (String × Resource V) → Option (Option (UdmSliceProfile V))
  | [] => some none
  | (key, val) :: rest =>
    if isUdmSliceProfile key = true then do
      let profile ← val.getUdmSliceProfile
      if profile.udmSliceProfileId = profId then return some profile
      else findUdmSliceProfile profId rest
    else findUdmSliceProfile profId rest

def getRelatedUdmSliceProfile (relatedResources : RelatedResources V) (profId : String) :
    Option (Option (UdmSliceProfile V)) :=
  findUdmSliceProfile profId relatedResources.entries

def sliceProfileNotIncluded (profId mscId : String) : String :=
  "UdmSliceProfile with id=" ++ profId ++ " for subscriber mscId=" ++ mscId ++
    " not included as relatedResource."

section

variable (ind : Indeterminate) (relatedResources : RelatedResources V)

/-- The end of both subscription rules: the related profile, and the common rules with it, behind
what was found wrong before. -/
def subscriptionRulesWithProfile (change : Change V) (before : Checked) : Option Verdict := do
  let profId := change.udmStaticData.udmSliceProfileId.id
  match ← getRelatedUdmSliceProfile relatedResources profId with
  | none => return (unprocessable change.resourcePath
      (sliceProfileNotIncluded profId (getMscId change.resourcePath))).after before.errors
  | some sliceProfile =>
    return (before ++ checkForCommonUdmSubscriptionRules ind change sliceProfile).verdict

def checkForCreationUdmSubscriptionRules (change : Change V) : Option Verdict :=
  let mscId := getMscId change.resourcePath
  let pathToFind := buildProvJournalResourcePathFromMscId mscId
  match relatedResources.find? pathToFind with
  | none => some (unprocessable change.resourcePath (provJournalNotIncluded mscId pathToFind))
  | some resource => do
    let journal ← resource.getProvJournal
    subscriptionRulesWithProfile ind relatedResources change
      (checkImsiIsInProvJournal change.resourcePath mscId journal)

def checkForUpdateUdmSubscriptionRules (change : Change V) : Option Verdict :=
  if relatedResources.contains change.resourcePath = false then
    some (unprocessable change.resourcePath (noAssociatedRelatedResource change.resourcePath))
  else subscriptionRulesWithProfile ind relatedResources change .pass

/-- The common rules of a profile, which an empty one skips. -/
def commonSliceProfileRules (change : Change V) : Checked :=
  .guard (change.udmSliceProfile.plmnIdSets ≠ []) (checkForCommonUdmSliceProfileRules ind
    change.udmSliceProfile.plmnIdSets true change.resourcePath)

def checkForCreationUdmSliceProfileRules (change : Change V) : Verdict :=
  (commonSliceProfileRules ind change ++ checkForCreationSpecificUdmSliceProfileRules ind
    change.udmSliceProfile.plmnIdSets change.resourcePath).verdict

def checkForUpdateUdmSliceProfileRules (change : Change V) : Option Verdict :=
  match relatedResources.find? change.resourcePath with
  | none =>
    some (unprocessable change.resourcePath (noAssociatedRelatedResource change.resourcePath))
  | some resource => do
    let relResource ← resource.getUdmSliceProfile
    return (commonSliceProfileRules ind change ++
      checkForUpdateSpecificUdmSliceProfileRules ind change relResource).verdict

def checkForCreationUdmRoamingAreaRules (change : Change V) : Verdict :=
  (checkForCommonUdmRoamingAreaRules change).verdict

def checkForUpdateUdmRoamingAreaRules (change : Change V) : Verdict :=
  if relatedResources.contains change.resourcePath = false then
    unprocessable change.resourcePath (noAssociatedRelatedResource change.resourcePath)
  else (checkForCommonUdmRoamingAreaRules change).verdict

def notPerformed : String :=
  "Validation could not be performed on the specified resource_path"

/-- The chain of tests that picks the rules of a change by its path and operation. -/
def changeRules (c : Change V) : Option Verdict :=
  if isUdmStaticData c.resourcePath = true ∧ c.operation = jsonOperationCreate then
    checkForCreationUdmSubscriptionRules ind relatedResources c
  else if isUdmStaticData c.resourcePath = true ∧ c.operation = jsonOperationUpdate then
    checkForUpdateUdmSubscriptionRules ind relatedResources c
  else if isUdmSliceProfile c.resourcePath = true ∧ c.operation = jsonOperationCreate then
    some (checkForCreationUdmSliceProfileRules ind c)
  else if isUdmSliceProfile c.resourcePath = true ∧ c.operation = jsonOperationUpdate then
    checkForUpdateUdmSliceProfileRules ind relatedResources c
  else if isUdmRoamingArea c.resourcePath = true ∧ c.operation = jsonOperationCreate then
    some (checkForCreationUdmRoamingAreaRules c)
  else if isUdmRoamingArea c.resourcePath = true ∧ c.operation = jsonOperationUpdate then
    some (checkForUpdateUdmRoamingAreaRules relatedResources c)
  else if isSmsSubscription c.resourcePath = true then
    smsValidationData ind relatedResources c
  else if c.operation ≠ jsonOperationDelete then
    some (unprocessable c.resourcePath notPerformed)
  else some ⟨true, httpOk, []⟩

/-! ## The loop -/

/-- What the loop carries from one change to the next. -/
structure ApplyState (V : Type) where
  ret : Bool := true
  code : Nat := httpOk
  response : Response V := {}

/-- One turn of the loop. -/
def applyStep (st : ApplyState V) (c : Change V) : Option (ApplyState V) := do
  let resp ← changeRules ind relatedResources c
  let ret := st.ret && resp.ret
  -- 422 has preference over 409, and 409 over 200
  let code := max st.code resp.code
  let changes :=
    if ret then st.response.changes ++ [computeMutations c] else st.response.changes
  return ⟨ret, code, ⟨changes, st.response.errors ++ resp.errors⟩⟩

/-- `applyValidationRules`, from an empty response. -/
def applyValidationRules (changes : List (Change V)) : Option (ApplyState V) :=
  changes.foldlM (applyStep ind relatedResources) {}

end

end ProvisioningValidator
