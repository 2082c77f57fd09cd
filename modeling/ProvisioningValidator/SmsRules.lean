import Mathlib
import ProvisioningValidator.Constants
import ProvisioningValidator.Errors
import ProvisioningValidator.Paths

/-!
# The rules for SMS subscriptions

`CommonSmsValidationRules`, `CreateSpecificSmsValidationRules`, `UpdateSpecificSmsValidationRules`
and `SmsValidationData`, which runs the common rules and then the specific ones and reports the
worst result of the two.

A `Verdict` is a `validation_response_t` with the errors appended on the way to it. A function
that gets at an alternative of a resource has no result where `boost::get` throws.
-/

namespace ProvisioningValidator

open Lib

variable {V : Type}

/-! ## Verdicts -/

/-- `validation_response_t`, and the errors that were appended. -/
structure Verdict where
  ret : Bool
  code : Nat
  errors : List Error

/-- `{true, HTTP_OK}` if the rules are met, `{false, HTTP_CONFLICT}` if not. -/
def Checked.verdict (r : Checked) : Verdict :=
  ⟨r.ret, if r.ret then httpOk else httpConflict, r.errors⟩

/-- `addError("Unprocessable entity", ..); return {false, HTTP_UNPROCESSABLE_ENTITY}` -/
def unprocessable (resourcePath description : String) : Verdict :=
  ⟨false, httpUnprocessableEntity, [unprocessableEntity resourcePath description]⟩

/-- The verdict of a check with the errors of an earlier one in front. -/
def Verdict.after (errors : List Error) (v : Verdict) : Verdict :=
  { v with errors := errors ++ v.errors }

def noAssociatedRelatedResource (path : String) : String :=
  "There is no associated relatedResource: " ++ path

def provJournalNotIncluded (mscId pathToFind : String) : String :=
  "provJournal for subscriber mscId=" ++ mscId ++
    " not included. Needed to check if IMSI is defined: " ++ pathToFind

def noImsiDefined (mscId : String) : String :=
  "There must be an IMSI defined for the subscriber mscId=" ++ mscId

/-! ## Common rules -/

section

variable (ind : Indeterminate)

/-- A flag that counts only if it was there. -/
def flag (exist : Bool) (b : Option Bool) : Bool := exist && ind.readBool b

/-- R5: `smsSubscribed` must be true if either `mtSmsSubscribed` or `moSmsSubscribed` is. -/
def checkSmsSubscribed (resourcePath : String) (d : SmsStaticData V) : Checked :=
  let has := d.fieldExistenceSmsStaticData
  let management := d.smsManagementSubscriptionData
  .failIf ((flag ind has.hasMtSmsSubscribed management.mtSmsSubscribed ||
        flag ind has.hasMoSmsSubscribed management.moSmsSubscribed) = true ∧
      flag ind has.hasSmsSubscribed d.smsSubscriptionData.smsSubscribed = false) resourcePath
    "smsSubscribed must be true if either mtSmsSubscribed or moSmsSubscribed is true"

/-- R6: `mtSmsSubscribed` must be true if either of its barrings is. -/
def checkMtSmsSubscribed (resourcePath : String) (d : SmsStaticData V) : Checked :=
  let has := d.fieldExistenceSmsStaticData
  let management := d.smsManagementSubscriptionData
  .failIf ((flag ind has.hasMtSmsBarringAll management.mtSmsBarringAll ||
        flag ind has.hasMtSmsBarringRoaming management.mtSmsBarringRoaming) = true ∧
      flag ind has.hasMtSmsSubscribed management.mtSmsSubscribed = false) resourcePath
    "mtSmsSubscribed must be true if either mtSmsBarringAll or mtSmsBarringRoaming is true"

/-- R7: `moSmsSubscribed` must be true if either of its barrings is. -/
def checkMoSmsSubscribed (resourcePath : String) (d : SmsStaticData V) : Checked :=
  let has := d.fieldExistenceSmsStaticData
  let management := d.smsManagementSubscriptionData
  .failIf ((flag ind has.hasMoSmsBarringAll management.moSmsBarringAll ||
        flag ind has.hasMoSmsBarringRoaming management.moSmsBarringRoaming) = true ∧
      flag ind has.hasMoSmsSubscribed management.moSmsSubscribed = false) resourcePath
    "moSmsSubscribed must be true if either moSmsBarringAll or moSmsBarringRoaming is true"

/-- `CommonSmsValidationRules::applyValidationRules`. -/
def commonSmsValidationRules (change : Change V) : Verdict :=
  (Checked.inOrder [
    checkSmsSubscribed ind change.resourcePath change.smsStaticData,
    checkMtSmsSubscribed ind change.resourcePath change.smsStaticData,
    checkMoSmsSubscribed ind change.resourcePath change.smsStaticData]).verdict

end

/-! ## Specific rules -/

/-- `checkImsiIsInProvJournal`, of the journal that was found. -/
def checkImsiIsInProvJournal (resourcePath mscId : String) (journal : ProvJournal) : Checked :=
  .failIf (journal.imsi = "") resourcePath (noImsiDefined mscId)

/-- `CreateSpecificSmsValidationRules::applyValidationRules`. -/
def createSpecificSmsValidationRules (relatedResources : RelatedResources V) (change : Change V) :
    Option Verdict :=
  let mscId := getSmsStaticDataMscId change.resourcePath
  let pathToFind := buildProvJournalResourcePathFromMscId mscId
  match relatedResources.find? pathToFind with
  | none => some (unprocessable change.resourcePath (provJournalNotIncluded mscId pathToFind))
  | some resource => do
    let journal ← resource.getProvJournal
    return (checkImsiIsInProvJournal change.resourcePath mscId journal).verdict

/-- `UpdateSpecificSmsValidationRules::applyValidationRules`. -/
def updateSpecificSmsValidationRules (relatedResources : RelatedResources V) (change : Change V) :
    Verdict :=
  if relatedResources.contains change.resourcePath = true then ⟨true, httpOk, []⟩
  else unprocessable change.resourcePath (noAssociatedRelatedResource change.resourcePath)

/-! ## All rules of a change -/

/-- `getWorstResponseCode`: the conjunction of the flags and the largest code. -/
def getWorstResponseCode (responses : List Verdict) : Verdict :=
  responses.foldl (fun w r => ⟨w.ret && r.ret, max w.code r.code, w.errors ++ r.errors⟩)
    ⟨true, httpOk, []⟩

/-- `SmsValidationData::applyValidationRules`. -/
def smsValidationData (ind : Indeterminate) (relatedResources : RelatedResources V)
    (change : Change V) : Option Verdict :=
  if change.operation = jsonOperationUpdate then
    some (getWorstResponseCode [commonSmsValidationRules ind change,
      updateSpecificSmsValidationRules relatedResources change])
  else if change.operation = jsonOperationCreate then do
    let create ← createSpecificSmsValidationRules relatedResources change
    return getWorstResponseCode [commonSmsValidationRules ind change, create]
  else some (getWorstResponseCode [])

end ProvisioningValidator
