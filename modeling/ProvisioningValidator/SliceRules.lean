import Mathlib
import ProvisioningValidator.Constants
import ProvisioningValidator.Errors
import ProvisioningValidator.Formats

/-!
# The rules for `plmnIdSets`

`checkForCommonUdmSliceProfileRules` holds for slice profiles and for the slice data of a
subscription, on creation and on update. It is one long function of nested loops in the source;
here each level of the nest is a definition, in the order of the source.

The specific rules are about repetitions: on creation nothing may be repeated, on update what the
stored profile repeats already is tolerated, and no DNN list of it may go.
-/

namespace ProvisioningValidator

open Lib Checked

variable {V : Type}

/-- `DEFAULT_VALUE` -/
@[simp] abbrev defaultValue : String := "Default"

/-- A member name in quotes, as the descriptions have it. -/
def quoted (s : String) : String := "\"" ++ s ++ "\""

/-- `"field" in "parent"` and what is wrong with it. -/
def fieldIn (field parent wrong : String) : String :=
  quoted field ++ " in " ++ quoted parent ++ wrong

/-! ## Repetitions in one list -/

/-- `checkSscRepeated` and `checkPduSessionTypeRepeated`: an error for an element that was met
before, and the list of those met so far. -/
def checkRepeated (description resourcePath : String) (list : List String) (elem : String) :
    Checked × List String :=
  if list.count elem ≥ 1 then (violation resourcePath description, list)
  else (pass, list ++ [elem])

def checkSscRepeated (resourcePath : String) (sscList : List String) (elem : String) :
    Checked × List String :=
  checkRepeated ("There are duplicated SSC modes between in " ++ quoted jsonDefaultSscMode ++
    " and " ++ quoted jsonAllowedSscModes) resourcePath sscList elem

def checkPduSessionTypeRepeated (resourcePath : String) (sessionList : List String)
    (elem : String) : Checked × List String :=
  checkRepeated ("There are duplicated PDU session types between in " ++
    quoted jsonDefaultSessionType ++ " and " ++ quoted jsonAllowedSessionTypes) resourcePath
    sessionList elem

/-- A required mode: an error if it is missing or not one of `valid`; otherwise it is noted as
met. -/
def checkDefaultMode (resourcePath field parent elem : String) (valid : List String)
    (repeated : List String → String → Checked × List String) : Checked × List String :=
  if elem = "" then (violation resourcePath (fieldIn field parent " is a required Field"), [])
  else if elem ∉ valid then
    (violation resourcePath (fieldIn field parent " has an Invalid Value"), [])
  else repeated [] elem

/-- The loop over the allowed modes: each is either not one of `valid`, or checked against those
met before. -/
def checkAllowedModes (resourcePath field parent : String) (valid : List String)
    (repeated : List String → String → Checked × List String) :
    List String → List String → Checked
  | _, [] => pass
  | met, elem :: rest =>
    if elem ∉ valid then
      violation resourcePath (fieldIn field parent " has an Invalid Value") ++
        checkAllowedModes resourcePath field parent valid repeated met rest
    else
      (repeated met elem).1 ++
        checkAllowedModes resourcePath field parent valid repeated (repeated met elem).2 rest

/-! ## Common rules -/

def sscModesRules (resourcePath : String) (m : SscModes V) : Checked :=
  let valid := [jsonSscMode1, jsonSscMode2, jsonSscMode3]
  let first := checkDefaultMode resourcePath jsonDefaultSscMode jsonSscModes m.defaultSscMode valid
    (checkSscRepeated resourcePath)
  inOrder [
    first.1,
    guard (m.allowedSscModes ≠ []) (
      if m.allowedSscModes.length > 2 then
        violation resourcePath (fieldIn jsonAllowedSscModes jsonSscModes " has an Invalid Size")
      else
        checkAllowedModes resourcePath jsonAllowedSscModes jsonSscModes valid
          (checkSscRepeated resourcePath) first.2 m.allowedSscModes)]

def pduSessionTypesRules (resourcePath : String) (hasAllowedSessionTypes : Bool)
    (t : PduSessionTypes V) : Checked :=
  let valid := [jsonIpv4, jsonIpv6, jsonIpv4V6, jsonUnstructured, jsonEthernet]
  let first := checkDefaultMode resourcePath jsonDefaultSessionType jsonPduSessionTypes
    t.defaultSessionType valid (checkPduSessionTypeRepeated resourcePath)
  inOrder [
    first.1,
    guard (hasAllowedSessionTypes = true) (
      if t.allowedSessionTypes.length < 1 then
        violation resourcePath
          (fieldIn jsonAllowedSessionTypes jsonPduSessionTypes " has an Invalid Size")
      else
        checkAllowedModes resourcePath jsonAllowedSessionTypes jsonPduSessionTypes valid
          (checkPduSessionTypeRepeated resourcePath) first.2 t.allowedSessionTypes)]

section

variable (ind : Indeterminate)

def fivegQosProfileRules (resourcePath : String) (p : FivegQosProfile V) : Checked :=
  inOrder [
    failIf (ind.readInt p.fiveqi < 0 ∨ ind.readInt p.fiveqi > 255) resourcePath
      (fieldIn json5qi json5gQosProfile " has an Invalid Value"),
    guard (p.fieldExistence.hasPriorityLevel = true)
      (failIf (ind.readInt p.priorityLevel < 1 ∨ ind.readInt p.priorityLevel > 127) resourcePath
        (fieldIn jsonPriorityLevel json5gQosProfile " has an Invalid Value")),
    failIf (ind.readInt p.arp.priorityLevel < 1 ∨ ind.readInt p.arp.priorityLevel > 15)
      resourcePath (fieldIn jsonPriorityLevel jsonArp " has an Invalid Value"),
    failIf (p.arp.preemptCap ≠ jsonNotPreempt ∧ p.arp.preemptCap ≠ jsonMayPreempt) resourcePath
      (fieldIn jsonPreemptcap jsonArp " has an Invalid Value"),
    failIf (p.arp.preemptVuln ≠ jsonNotPreemptable ∧ p.arp.preemptVuln ≠ jsonPreemptable)
      resourcePath (fieldIn jsonPreemptvuln jsonArp " has an Invalid Value")]

/-- A text that may be empty, and otherwise must have the format. -/
def formatRule (resourcePath field parent s : String) (valid : String → Bool) : Checked :=
  failIf (s ≠ "" ∧ valid s = false) resourcePath
    (fieldIn field parent " has not the valid format")

def sessionAmbrRules (resourcePath : String) (ambr : Ambr V) : Checked :=
  inOrder [
    formatRule resourcePath jsonUplink jsonSessionAmbr ambr.uplink (matchesCStr bitRateRegexp),
    formatRule resourcePath jsonDownlink jsonSessionAmbr ambr.downlink
      (matchesCStr bitRateRegexp)]

def upSecurityRules (resourcePath : String) (s : UpSecurity V) : Checked :=
  let valid := fun x => decide (x ∈ [jsonRequired, jsonPreferred, jsonNotNeeded])
  inOrder [
    formatRule resourcePath jsonUpIntegr jsonUpSecurity s.upIntegr valid,
    formatRule resourcePath jsonUpConfid jsonUpSecurity s.upConfid valid]

def smfListRules (resourcePath : String) (smfList : List String) : Checked :=
  inOrder [
    failIf (smfList.length < 1) resourcePath
      ("At least one element in " ++ quoted jsonSmfList ++ " must exist"),
    forEach smfList fun elem =>
      failIf (matchesCStr uuidRegex elem = false) resourcePath
        ("Element in " ++ quoted jsonSmfList ++ " has an invalid format")]

/-- Charging characteristics: the whole text is matched, not its `c_str()`. -/
def validChargingCharacteristics (s : String) : Bool :=
  threegppChargingCharacteristicsRegex.isMatch s && s.length == 4

/-- `defaultDnnIndicator` is there and set. -/
def isDefaultDnn (d : DnnData V) : Bool :=
  d.fieldExistence.hasDefaultDnnIndicator && ind.readBool d.defaultDnnIndicator

def dnnDataRules (resourcePath : String) (d : DnnData V) : Checked :=
  inOrder [
    guard (isDefaultDnn ind d = true)
      (failIf (d.dnn = "*") resourcePath
        (fieldIn jsonDefaultDnnIndicator jsonDnnDataList
          (" cannot be set to true when " ++ quoted jsonDnn ++ " is \"*\""))),
    guard (d.fieldExistence.hasSscModes = true) (sscModesRules resourcePath d.sscModes),
    guard (d.fieldExistence.hasPduSessionTypes = true)
      (pduSessionTypesRules resourcePath d.fieldExistence.hasAllowedSessionTypes
        d.pduSessionTypes),
    guard (d.fieldExistence.hasFivegQosProfile = true)
      (fivegQosProfileRules ind resourcePath d.fivegQosProfile),
    guard (d.fieldExistence.hasSessionAmbr = true)
      (sessionAmbrRules resourcePath d.sessionAmbr),
    guard (d.fieldExistence.hasUpSecurity = true) (upSecurityRules resourcePath d.upSecurity),
    guard (d.fieldExistence.hasSmfList = true) (smfListRules resourcePath d.smfList),
    formatRule resourcePath json3gppChargingCharacteristics jsonDnnDataList
      d.threegppChargingCharacteristics validChargingCharacteristics]

def dnnListRules (resourcePath : String) (l : DnnList V) : Checked :=
  inOrder [
    forEach l.dnnDataList (dnnDataRules ind resourcePath),
    failIf (l.dnnDataList.any (isDefaultDnn ind) = false) resourcePath
      ("At least a " ++ quoted jsonDefaultDnnIndicator ++ " with \"true\" value must exist")]

/-- An entry of `defaultSingleNssais` or of `singleNssais`, whichever `parent` names. -/
def nssaiDetailsRules (resourcePath parent : String) (n : NssaiDetails V) : Checked :=
  inOrder [
    failIf (ind.readInt n.nssai.sst > 255 ∨ ind.readInt n.nssai.sst < 0) resourcePath
      (fieldIn jsonSst parent " has an Invalid Value"),
    failIf (n.nssai.sd ≠ "" ∧ matchesCStr sdRegexp n.nssai.sd = false) resourcePath
      (fieldIn jsonSd parent " has an Invalid Value"),
    formatRule resourcePath json3gppChargingCharacteristics parent
      n.threegppChargingCharacteristics validChargingCharacteristics]

/-- `dnnVector`: the list ids that the entries of both lists name. -/
def dnnVector (s : PlmnIdSets V) : List String :=
  ((s.nssai.defaultSingleNssais ++ s.nssai.singleNssais).map (·.dnnListId)).filter (· ≠ "")

/-- `dnnListIdVector`: the list ids that are defined. -/
def dnnListIdVector (s : PlmnIdSets V) : List String :=
  (s.dnnLists.map (·.dnnListId)).filter (· ≠ "")

/-- The body of the loop over the sets. -/
def plmnIdSetRules (isSliceProfile : Bool) (resourcePath : String) (s : PlmnIdSets V) : Checked :=
  inOrder [
    failIf (s.plmnIdSetIdentifier ≠ "" ∧
        matchesCStr plmnidSetIdentifierRegexp s.plmnIdSetIdentifier = false) resourcePath
      (quoted jsonPlmnIdSetIdentifier ++ " has not the valid format"),
    forEach s.nssai.defaultSingleNssais
      (nssaiDetailsRules ind resourcePath jsonDefaultSingleNssais),
    forEach s.nssai.singleNssais (nssaiDetailsRules ind resourcePath jsonSingleNssais),
    guard (s.dnnLists ≠ []) (inOrder [
      forEach s.dnnLists (dnnListRules ind resourcePath),
      failIf ((∀ l ∈ s.dnnLists, l.dnnListId ≠ defaultValue) ∧ isSliceProfile = true)
        resourcePath ("At least a " ++ quoted jsonDnnListId ++
          " with \"Default\" value must exist")]),
    guard (isSliceProfile = true) (forEach (dnnVector s) fun id =>
      failIf (id ∉ dnnListIdVector s) resourcePath
        (fieldIn jsonDnnListId "nssaiDetails"
          (" must point to existing " ++ quoted jsonDnnLists)))]

def checkForCommonUdmSliceProfileRules (plmnIdSets : List (PlmnIdSets V)) (isSliceProfile : Bool)
    (resourcePath : String) : Checked :=
  inOrder [
    forEach plmnIdSets (plmnIdSetRules ind isSliceProfile resourcePath),
    failIf ((∀ s ∈ plmnIdSets, s.plmnIdSetIdentifier ≠ defaultValue) ∧ isSliceProfile = true)
      resourcePath ("At least a " ++ quoted jsonPlmnIdSetIdentifier ++
        " with \"Default\" value must exist")]

/-! ## Rules for a created profile -/

/-- `checkForRepeatedNssais` for one entry: an error if the pair was met before. -/
def checkForRepeatedNssais (resourcePath : String) (nssaiList : List (Int × String)) (sst : Int)
    (sd : String) : Checked × List (Int × String) :=
  let theNssai := (sst, toLowerCopy sd)
  if nssaiList.countP (fun n => theNssai.1 = n.1 ∧ theNssai.2 = toLowerCopy n.2) ≥ 1 then
    (violation resourcePath ("There are " ++ quoted jsonNssai ++ " repeated in the " ++
      quoted jsonNssai ++ " attribute"), nssaiList)
  else (pass, nssaiList ++ [theNssai])

/-- The loops over the entries, with the pairs met so far. -/
def checkRepeatedInNssais (resourcePath : String) :
    List (Int × String) → List (NssaiDetails V) → Checked
  | _, [] => pass
  | met, n :: rest =>
    let r := checkForRepeatedNssais resourcePath met (ind.readInt n.nssai.sst) n.nssai.sd
    r.1 ++ checkRepeatedInNssais resourcePath r.2 rest

def duplicatedDnn : String := quoted jsonDnn ++ " is duplicated in " ++ quoted jsonDnnLists

/-- The loop over the DNNs of one list, with those met so far. -/
def checkRepeatedInDnns (resourcePath : String) : List String → List (DnnData V) → Checked
  | _, [] => pass
  | met, d :: rest =>
    if d.dnn ≠ "" then
      let lowDnn := toLowerCopy d.dnn
      if met.count lowDnn ≥ 1 then
        violation resourcePath duplicatedDnn ++ checkRepeatedInDnns resourcePath met rest
      else checkRepeatedInDnns resourcePath (met ++ [lowDnn]) rest
    else checkRepeatedInDnns resourcePath met rest

/-- The flag that is handed in stays as it is unless something is repeated. -/
def checkForRepeatedDnnsandNssais (plmnIdSets : List (PlmnIdSets V)) (resourcePath : String) :
    Checked :=
  forEach plmnIdSets fun s =>
    checkRepeatedInNssais ind resourcePath []
        (s.nssai.defaultSingleNssais ++ s.nssai.singleNssais) ++
      forEach s.dnnLists fun l => checkRepeatedInDnns resourcePath [] l.dnnDataList

def checkForCreationSpecificUdmSliceProfileRules (plmnIdSets : List (PlmnIdSets V))
    (resourcePath : String) : Checked :=
  checkForRepeatedDnnsandNssais ind plmnIdSets resourcePath

/-! ## Rules for an updated profile -/

/-- What is stored for each identifier of a set and each DNN list: its DNNs in lower case. -/
def getAllDnnsUdmSliceProfile (sProf : UdmSliceProfile V) :
    OrdMap (String ×ₗ String) (List String) :=
  OrdMap.emplaceAll ∅ (sProf.plmnIdSets.flatMap fun s => s.dnnLists.map fun l =>
    (toLex (s.plmnIdSetIdentifier, l.dnnListId),
      ((l.dnnDataList.map (·.dnn)).filter (· ≠ "")).map toLowerCopy))

def getNssais (nssais : List (NssaiDetails V)) : List (Int × String × String) :=
  nssais.map fun n => (ind.readInt n.nssai.sst, toLowerCopy n.nssai.sd, n.dnnListId)

@[simp] abbrev defaultKey : String := "default"
@[simp] abbrev singleKey : String := "single"

/-- What is stored for each identifier of a set: the entries of both lists. -/
def getAllNssaisUdmSliceProfile (sProf : UdmSliceProfile V) :
    OrdMap (String ×ₗ String) (List (Int × String × String)) :=
  OrdMap.emplaceAll ∅ (sProf.plmnIdSets.flatMap fun s =>
    [(toLex (s.plmnIdSetIdentifier, defaultKey), getNssais ind s.nssai.defaultSingleNssais),
      (toLex (s.plmnIdSetIdentifier, singleKey), getNssais ind s.nssai.singleNssais)])

/-- `checkForRepeatedNssaisOnUpdate` for one entry: a pair that was met before is an error unless
it is stored with the same list id. -/
def checkForRepeatedNssaisOnUpdate (resourcePath : String) (nssaiList : List (Int × String))
    (stored : OrdMap (String ×ₗ String) (List (Int × String × String))) (plmnId key : String)
    (sst : Int) (sd dnnListId : String) : Checked × List (Int × String) :=
  let theNssai := (sst, toLowerCopy sd)
  if nssaiList.countP (fun n => theNssai.1 = n.1 ∧ theNssai.2 = toLowerCopy n.2) ≥ 1 then
    let duplicatedInRelResource := (stored.find? (toLex (plmnId, key))).getD []
    if duplicatedInRelResource.any
        (fun n => theNssai.1 = n.1 ∧ theNssai.2 = n.2.1 ∧ dnnListId = n.2.2) then
      (pass, nssaiList)
    else
      (violation resourcePath ("There are " ++ quoted jsonNssai ++ " repeated in the " ++
        quoted jsonNssai ++ " attribute"), nssaiList)
  else (pass, nssaiList ++ [theNssai])

/-- The loops over the entries of a set, each with the key of its list. -/
def checkRepeatedInNssaisOnUpdate (resourcePath : String)
    (stored : OrdMap (String ×ₗ String) (List (Int × String × String))) (plmnId : String) :
    List (Int × String) → List (String × NssaiDetails V) → Checked
  | _, [] => pass
  | met, (key, n) :: rest =>
    let r := checkForRepeatedNssaisOnUpdate resourcePath met stored plmnId key
      (ind.readInt n.nssai.sst) n.nssai.sd n.dnnListId
    r.1 ++ checkRepeatedInNssaisOnUpdate resourcePath stored plmnId r.2 rest

/-- The loop over the DNNs of one list, with those met so far and those stored. -/
def checkRepeatedInDnnsOnUpdate (resourcePath : String) (stored : List String) :
    List String → List (DnnData V) → Checked
  | _, [] => pass
  | met, d :: rest =>
    if d.dnn ≠ "" then
      let lowDnn := toLowerCopy d.dnn
      let isRepeated := met.count lowDnn
      failIf (isRepeated ≥ 1 ∧ ¬ stored.count lowDnn > isRepeated) resourcePath duplicatedDnn ++
        checkRepeatedInDnnsOnUpdate resourcePath stored (met ++ [lowDnn]) rest
    else checkRepeatedInDnnsOnUpdate resourcePath stored met rest

/-- The lists that the change defines, by the identifier of their set. -/
def dnnListIdsOnChange (plmnIdSets : List (PlmnIdSets V)) : MultiMap String String :=
  MultiMap.empty.insertAll (plmnIdSets.flatMap fun s =>
    s.dnnLists.map fun l => (s.plmnIdSetIdentifier, l.dnnListId))

/-- No list of the stored profile may go. The loop runs from the first list under the identifier
to the end of the multimap. -/
def checkDeletedDnnLists (resourcePath : String) (onChange : MultiMap String String)
    (relResource : UdmSliceProfile V) : Checked :=
  forEach relResource.plmnIdSets fun s => forEach s.dnnLists fun l =>
    failIf ((onChange.findFrom s.plmnIdSetIdentifier).any (fun e => e.2 = l.dnnListId) = false)
      resourcePath (quoted jsonDnnListId ++ "=" ++ quoted l.dnnListId ++
        " cannot be deleted for " ++ quoted jsonPlmnIdSetIdentifier ++ "=" ++
        quoted s.plmnIdSetIdentifier)

def checkForUpdateSpecificUdmSliceProfileRules (change : Change V)
    (relResource : UdmSliceProfile V) : Checked :=
  let dnnsRelResource := getAllDnnsUdmSliceProfile relResource
  let nssaiRelResource := getAllNssaisUdmSliceProfile ind relResource
  forEach change.udmSliceProfile.plmnIdSets (fun s =>
      checkRepeatedInNssaisOnUpdate ind change.resourcePath nssaiRelResource
          s.plmnIdSetIdentifier []
          (s.nssai.defaultSingleNssais.map (defaultKey, ·) ++
            s.nssai.singleNssais.map (singleKey, ·)) ++
        forEach s.dnnLists fun l =>
          checkRepeatedInDnnsOnUpdate change.resourcePath
            ((dnnsRelResource.find? (toLex (s.plmnIdSetIdentifier, l.dnnListId))).getD []) []
            l.dnnDataList) ++
    checkDeletedDnnLists change.resourcePath
      (dnnListIdsOnChange change.udmSliceProfile.plmnIdSets) relResource

end

end ProvisioningValidator
