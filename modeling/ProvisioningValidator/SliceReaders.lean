import Mathlib
import ProvisioningValidator.Constants
import ProvisioningValidator.Readers

/-!
# Reading slice data

The readers of `plmnIdSets`, which slice profiles and the slice data of a subscription share, from
the inside out: S-NSSAIs, the attributes of a DNN, the lists of DNNs, the set itself.
-/

namespace ProvisioningValidator

open Lib

variable {V : Type} (val : Json → V) (resourcePath : String)

/-! ## S-NSSAIs -/

/-- The value of `nssai`, in an element of a list and in a static address alike. -/
def getSnssai : Reader (Snssai V) := .inOrder [
  .into (·.vendorSpecific) (fun m e => { e with vendorSpecific := m }) (getVendorSpecific val),
  .ifMember jsonSst (.int resourcePath jsonSst fun n e => { e with sst := some n })
    (Reader.mandatory resourcePath (unfoundMandatoryFieldOfError jsonSst jsonNssai)),
  .ifMember jsonSd (.string resourcePath jsonSd fun s e => { e with sd := s }) Reader.skip]

/-- An element of `defaultSingleNssais` or of `singleNssais`, which is `key`. -/
def getNssaiDetails (key : String) : Json → ParserM (Option (NssaiDetails V)) :=
  Reader.objectElement resourcePath key <| Reader.fresh {} <| .inOrder [
    .into (·.vendorSpecific) (fun m e => { e with vendorSpecific := m }) (getVendorSpecific val),
    .ifMember jsonDnnListId
      (.string resourcePath jsonDnnListId fun s e => { e with dnnListId := s }) Reader.skip,
    .ifMember json3gppChargingCharacteristics
      (.string resourcePath json3gppChargingCharacteristics
        fun s e => { e with threegppChargingCharacteristics := s }) Reader.skip,
    .ifMember jsonNssai
      (.object resourcePath jsonNssai <|
        .into (·.nssai) (fun a e => { e with nssai := a }) (getSnssai val resourcePath))
      (Reader.mandatory resourcePath (unfoundMandatoryFieldOfError jsonNssai key))]

/-- The value of `nssai` in a set, once it is known to be an object. -/
def getSliceInfoNssai : Reader (PlmnIdSets V) := .inOrder [
  .into (·.nssai.vendorSpecific) (fun m e => { e with nssai.vendorSpecific := m })
    (getVendorSpecific val),
  .ifMember jsonDefaultSingleNssais
    (.array resourcePath jsonDefaultSingleNssais
      (getNssaiDetails val resourcePath jsonDefaultSingleNssais)
      fun as e => { e with
        nssai.defaultSingleNssais := e.nssai.defaultSingleNssais ++ as }) Reader.skip,
  .ifMember jsonSingleNssais
    (.marking (fun e => { e with fieldExistenceUdmSliceProfile.hasNssai := true }) <|
      .array resourcePath jsonSingleNssais (getNssaiDetails val resourcePath jsonSingleNssais)
        fun as e => { e with nssai.singleNssais := e.nssai.singleNssais ++ as })
    (Reader.without fun e => { e with fieldExistenceUdmSliceProfile.hasNssai := false })]

/-! ## The attributes of a DNN -/

/-- The value of `pduSessionTypes`, once it is known to be an object. -/
def getPduSessionTypes : Reader (DnnData V) := .inOrder [
  .into (·.pduSessionTypes.vendorSpecific)
    (fun m e => { e with pduSessionTypes.vendorSpecific := m }) (getVendorSpecific val),
  .ifMember jsonDefaultSessionType
    (.string resourcePath jsonDefaultSessionType
      fun s e => { e with pduSessionTypes.defaultSessionType := s }) Reader.skip,
  .ifMember jsonAllowedSessionTypes
    (.marking (fun e => { e with fieldExistence.hasAllowedSessionTypes := true }) <|
      .strings resourcePath jsonAllowedSessionTypes fun ss e => { e with
        pduSessionTypes.allowedSessionTypes := e.pduSessionTypes.allowedSessionTypes ++ ss })
    (Reader.without fun e => { e with fieldExistence.hasAllowedSessionTypes := false })]

/-- The value of `sscModes`, once it is known to be an object. -/
def getSscModes : Reader (SscModes V) := .inOrder [
  .into (·.vendorSpecific) (fun m e => { e with vendorSpecific := m }) (getVendorSpecific val),
  .ifMember jsonDefaultSscMode
    (.string resourcePath jsonDefaultSscMode fun s e => { e with defaultSscMode := s })
    Reader.skip,
  .ifMember jsonAllowedSscModes
    (.strings resourcePath jsonAllowedSscModes
      fun ss e => { e with allowedSscModes := e.allowedSscModes ++ ss }) Reader.skip]

/-- The value of `upSecurity`, once it is known to be an object. -/
def getUpSecurity : Reader (UpSecurity V) := .inOrder [
  .into (·.vendorSpecific) (fun m e => { e with vendorSpecific := m }) (getVendorSpecific val),
  .ifMember jsonUpIntegr (.string resourcePath jsonUpIntegr fun s e => { e with upIntegr := s })
    Reader.skip,
  .ifMember jsonUpConfid (.string resourcePath jsonUpConfid fun s e => { e with upConfid := s })
    Reader.skip]

/-- The value of `sessionAmbr`, once it is known to be an object. -/
def getSessionAmbr : Reader (Ambr V) := .inOrder [
  .into (·.vendorSpecific) (fun m e => { e with vendorSpecific := m }) (getVendorSpecific val),
  .ifMember jsonUplink (.string resourcePath jsonUplink fun s e => { e with uplink := s })
    (Reader.mandatory resourcePath (unfoundMandatoryFieldOfError jsonUplink jsonSessionAmbr)),
  .ifMember jsonDownlink (.string resourcePath jsonDownlink fun s e => { e with downlink := s })
    (Reader.mandatory resourcePath (unfoundMandatoryFieldOfError jsonDownlink jsonSessionAmbr))]

/-- The value of `arp`, once it is known to be an object. -/
def getArp : Reader (Arp V) := .inOrder [
  .into (·.vendorSpecific) (fun m e => { e with vendorSpecific := m }) (getVendorSpecific val),
  .ifMember jsonPriorityLevel
    (.int resourcePath jsonPriorityLevel fun n e => { e with priorityLevel := some n })
    (Reader.mandatory resourcePath (unfoundMandatoryFieldOfError jsonPriorityLevel jsonArp)),
  .ifMember jsonPreemptcap
    (.string resourcePath jsonPreemptcap fun s e => { e with preemptCap := s })
    (Reader.mandatory resourcePath (unfoundMandatoryFieldOfError jsonPreemptcap jsonArp)),
  .ifMember jsonPreemptvuln
    (.string resourcePath jsonPreemptvuln fun s e => { e with preemptVuln := s })
    (Reader.mandatory resourcePath (unfoundMandatoryFieldOfError jsonPreemptvuln jsonArp))]

/-- The value of `5gQosProfile`, once it is known to be an object. -/
def getFivegQosProfile : Reader (FivegQosProfile V) := .inOrder [
  .into (·.vendorSpecific) (fun m e => { e with vendorSpecific := m }) (getVendorSpecific val),
  .ifMember json5qi (.int resourcePath json5qi fun n e => { e with fiveqi := some n })
    (Reader.mandatory resourcePath (unfoundMandatoryFieldOfError json5qi json5gQosProfile)),
  .ifMember jsonArp
    (.object resourcePath jsonArp <|
      .into (·.arp) (fun a e => { e with arp := a }) (getArp val resourcePath))
    (Reader.mandatory resourcePath (unfoundMandatoryFieldOfError jsonArp json5gQosProfile)),
  .ifMember jsonPriorityLevel
    (.marking (fun e => { e with fieldExistence.hasPriorityLevel := true }) <|
      .int resourcePath jsonPriorityLevel fun n e => { e with priorityLevel := some n })
    (Reader.without fun e => { e with fieldExistence.hasPriorityLevel := false })]

/-- A boolean attribute of a DNN whose flag says whether the member was there. -/
def getDnnDataFlag (key : String) (setFlag : Bool → DnnData V → DnnData V)
    (put : Bool → DnnData V → DnnData V) : Reader (DnnData V) :=
  .ifMember key (.marking (setFlag true) (.bool resourcePath key put))
    (Reader.without (setFlag false))

/-- An element of `dnnDataList`, once it is known to be an object. -/
def getDnnData : Reader (DnnData V) := .inOrder [
  .into (·.vendorSpecific) (fun m e => { e with vendorSpecific := m }) (getVendorSpecific val),
  .ifMember jsonDnn (.string resourcePath jsonDnn fun s e => { e with dnn := s }) Reader.skip,
  getDnnDataFlag resourcePath jsonDefaultDnnIndicator
    (fun b e => { e with fieldExistence.hasDefaultDnnIndicator := b })
    (fun b e => { e with defaultDnnIndicator := some b }),
  getDnnDataFlag resourcePath jsonLboRoamingAllowed
    (fun b e => { e with fieldExistence.hasLboRoamingAllowed := b })
    (fun b e => { e with lboRoamingAllowed := some b }),
  getDnnDataFlag resourcePath jsonIwkEpsInd
    (fun b e => { e with fieldExistence.hasIwkEpsInd := b })
    (fun b e => { e with iwkEpsInd := some b }),
  getDnnDataFlag resourcePath jsonLadnIndicator
    (fun b e => { e with fieldExistence.hasLadnIndicator := b })
    (fun b e => { e with ladnIndicator := some b }),
  .ifMember jsonPduSessionTypes
    (.marking (fun e => { e with fieldExistence.hasPduSessionTypes := true }) <|
      .object resourcePath jsonPduSessionTypes (getPduSessionTypes val resourcePath))
    (Reader.without fun e => { e with fieldExistence.hasPduSessionTypes := false }),
  .ifMember jsonSscModes
    (.marking (fun e => { e with fieldExistence.hasSscModes := true }) <|
      .object resourcePath jsonSscModes <|
        .into (·.sscModes) (fun a e => { e with sscModes := a }) (getSscModes val resourcePath))
    (Reader.without fun e => { e with fieldExistence.hasSscModes := false }),
  .ifMember json3gppChargingCharacteristics
    (.string resourcePath json3gppChargingCharacteristics
      fun s e => { e with threegppChargingCharacteristics := s }) Reader.skip,
  .ifMember jsonUpSecurity
    (.marking (fun e => { e with fieldExistence.hasUpSecurity := true }) <|
      .object resourcePath jsonUpSecurity <|
        .into (·.upSecurity) (fun a e => { e with upSecurity := a })
          (getUpSecurity val resourcePath))
    (Reader.without fun e => { e with fieldExistence.hasUpSecurity := false }),
  .ifMember jsonSessionAmbr
    (.marking (fun e => { e with fieldExistence.hasSessionAmbr := true }) <|
      .object resourcePath jsonSessionAmbr <|
        .into (·.sessionAmbr) (fun a e => { e with sessionAmbr := a })
          (getSessionAmbr val resourcePath))
    (Reader.without fun e => { e with fieldExistence.hasSessionAmbr := false }),
  .ifMember jsonSmfList
    (.marking (fun e => { e with fieldExistence.hasSmfList := true }) <|
      .strings resourcePath jsonSmfList fun ss e => { e with smfList := e.smfList ++ ss })
    (Reader.without fun e => { e with fieldExistence.hasSmfList := false }),
  getDnnDataFlag resourcePath jsonSameSmfInd
    (fun b e => { e with fieldExistence.hasSameSmfInd := b })
    (fun b e => { e with sameSmfInd := some b }),
  .ifMember json5gQosProfile
    (.marking (fun e => { e with fieldExistence.hasFivegQosProfile := true }) <|
      .object resourcePath json5gQosProfile <|
        .into (·.fivegQosProfile) (fun a e => { e with fivegQosProfile := a })
          (getFivegQosProfile val resourcePath))
    (Reader.without fun e => { e with fieldExistence.hasFivegQosProfile := false })]

/-! ## Lists of DNNs -/

/-- An element of `dnnLists`, once it is known to be an object. -/
def getDnnList : Reader (DnnList V) := .inOrder [
  .into (·.vendorSpecific) (fun m e => { e with vendorSpecific := m }) (getVendorSpecific val),
  .ifMember jsonDnnListId
    (.string resourcePath jsonDnnListId fun s e => { e with dnnListId := s })
    (Reader.mandatory resourcePath (unfoundMandatoryFieldError jsonDnnListId)),
  .ifMember jsonDnnDataList
    (.array resourcePath jsonDnnDataList
      (Reader.objectElement resourcePath jsonDnnDataList <|
        Reader.fresh {} (getDnnData val resourcePath))
      fun as e => { e with dnnDataList := e.dnnDataList ++ as }) Reader.skip]

/-! ## Sets of PLMNs -/

/-- `if (hasAnyNssai && defaultSingleNssais.size() == 0) addError(..)` -/
def checkAnyNssai : Reader (PlmnIdSets V) := fun _ plmnIdSet => do
  if plmnIdSet.fieldExistenceUdmSliceProfile.hasAnyNssai = true ∧
      plmnIdSet.nssai.defaultSingleNssais.length = 0 then
    addError resourcePath ("When \"" ++ jsonNssai ++
      "\" is included, it must have at least one element in \"" ++ jsonDefaultSingleNssais ++ "\"")
  return plmnIdSet

/-- One set: an element of `plmnIdSets`, which is taken for an object without a test. -/
def getPlmnIdSet (isSliceData : Bool) : Reader (PlmnIdSets V) := .inOrder [
  .into (·.vendorSpecific) (fun m e => { e with vendorSpecific := m }) (getVendorSpecific val),
  .ifMember jsonPlmnIdSetIdentifier
    (.string resourcePath jsonPlmnIdSetIdentifier fun s e => { e with plmnIdSetIdentifier := s })
    (Reader.mandatory resourcePath (unfoundMandatoryFieldError jsonPlmnIdSetIdentifier)),
  .mark fun e => { e with fieldExistenceUdmSliceProfile.hasAnyNssai := false },
  .ifMember jsonNssai
    (.marking (fun e => { e with fieldExistenceUdmSliceProfile.hasAnyNssai := true }) <|
      .object resourcePath jsonNssai (getSliceInfoNssai val resourcePath)) Reader.skip,
  checkAnyNssai resourcePath,
  .ifMember jsonDnnLists
    (.array resourcePath jsonDnnLists
      (Reader.objectElement resourcePath jsonDnnLists <|
        Reader.fresh {} (getDnnList val resourcePath))
      fun as e => { e with dnnLists := e.dnnLists ++ as })
    (if isSliceData then Reader.skip
      else Reader.mandatory resourcePath (unfoundMandatoryFieldError jsonDnnLists))]

/-- `getPlmnIdSets`, on the elements of the array. -/
def getPlmnIdSets (isSliceData : Bool) (attrData : List Json) : ParserM (List (PlmnIdSets V)) :=
  Run.collect (Reader.fresh {} (getPlmnIdSet val resourcePath isSliceData)) attrData

/-- `getUdmSliceProfile`. A `plmnIdSets` that is not an array goes to the flag of the parser. -/
def getUdmSliceProfile : Reader (UdmSliceProfile V) := .inOrder [
  .into (·.vendorSpecific) (fun m e => { e with vendorSpecific := m }) (getVendorSpecific val),
  .ifMember jsonUdmSliceProfileId
    (.string resourcePath jsonUdmSliceProfileId fun s e => { e with udmSliceProfileId := s })
    Reader.skip,
  .ifMember jsonPlmnIdSets
    (fun v e =>
      match asArray v with
      | some xs => do
        let plmnIdSets ← getPlmnIdSets val resourcePath false xs
        return { e with plmnIdSets := plmnIdSets }
      | none => do
        setParsingError "data is not an Array"
        return e) Reader.skip]

end ProvisioningValidator
