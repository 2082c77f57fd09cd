import Mathlib
import ProvisioningValidator.Constants
import ProvisioningValidator.Errors

/-!
# The encoder

`ValidatorRapidJsonEncoder`: the body of an answer. An object is written as the list of its members
in the order of the `AddMember` calls. Texts and lists that are empty are left out, with the
exceptions that the functions show; integers and truth values are written when their flag is set,
and `sst`, `5qi` and the priority of `arp` always.
-/

namespace ProvisioningValidator

open Lib

/-! ## Members -/

/-- `vendorSpecificToJson`. -/
def vendorSpecificToJson (vendorSpecific : VendorSpecific Json) : List (String × Json) :=
  vendorSpecific.map.entries.map fun e => (cstr e.1, e.2)

/-- `strToJson`: an empty text is left out. -/
def strToJson (str keyName : String) : List (String × Json) :=
  if str = "" then [] else [(keyName, .str (cstr str))]

/-- `boolToJson`. -/
def boolToJson (ind : Indeterminate) (attr : Option Bool) (keyName : String) :
    List (String × Json) := [(keyName, .bool (ind.readBool attr))]

/-- `intToJson`. -/
def intToJson (ind : Indeterminate) (attr : Option Int) (keyName : String) :
    List (String × Json) := [(keyName, .int (ind.readInt attr))]

/-- The members that are written if the flag is set. -/
def whenFlag (flag : Bool) (members : List (String × Json)) : List (String × Json) :=
  if flag = true then members else []

/-- An array of texts. -/
def stringsToJson (ss : List String) : Json := .arr (ss.map fun s => .str (cstr s))

/-- A list that is left out when it is empty. -/
def listToJson {A : Type} (as : List A) (keyName : String) (toJson : A → Json) :
    List (String × Json) :=
  if as = [] then [] else [(keyName, .arr (as.map toJson))]

/-- An array of texts that is left out when it is empty. -/
def stringListToJson (ss : List String) (keyName : String) : List (String × Json) :=
  if ss = [] then [] else [(keyName, stringsToJson ss)]

variable (ind : Indeterminate)

/-! ## Slice data -/

/-- The object `nssai` of an element of `defaultSingleNssais` or `singleNssais`. -/
def snssaiToJson (nssai : Snssai Json) : Json := .obj (
  vendorSpecificToJson nssai.vendorSpecific ++
  intToJson ind nssai.sst jsonSst ++
  strToJson nssai.sd jsonSd)

/-- An element of `defaultSingleNssais` or `singleNssais`. -/
def nssaiDetailsToJson (e : NssaiDetails Json) : Json := .obj (
  vendorSpecificToJson e.vendorSpecific ++
  strToJson e.dnnListId jsonDnnListId ++
  strToJson e.threegppChargingCharacteristics json3gppChargingCharacteristics ++
  [(jsonNssai, snssaiToJson ind e.nssai)])

def pduSessionTypesToJson (e : PduSessionTypes Json) : Json := .obj (
  vendorSpecificToJson e.vendorSpecific ++
  strToJson e.defaultSessionType jsonDefaultSessionType ++
  stringListToJson e.allowedSessionTypes jsonAllowedSessionTypes)

def sscModesToJson (e : SscModes Json) : Json := .obj (
  vendorSpecificToJson e.vendorSpecific ++
  strToJson e.defaultSscMode jsonDefaultSscMode ++
  stringListToJson e.allowedSscModes jsonAllowedSscModes)

def arpToJson (e : Arp Json) : Json := .obj (
  vendorSpecificToJson e.vendorSpecific ++
  intToJson ind e.priorityLevel jsonPriorityLevel ++
  strToJson e.preemptCap jsonPreemptcap ++
  strToJson e.preemptVuln jsonPreemptvuln)

def fivegQosProfileToJson (e : FivegQosProfile Json) : Json := .obj (
  vendorSpecificToJson e.vendorSpecific ++
  intToJson ind e.fiveqi json5qi ++
  [(jsonArp, arpToJson ind e.arp)] ++
  whenFlag e.fieldExistence.hasPriorityLevel
    (intToJson ind e.priorityLevel jsonPriorityLevel))

/-- An `ambr` of a DNN. -/
def sessionAmbrToJson (e : Ambr Json) : Json := .obj (
  vendorSpecificToJson e.vendorSpecific ++
  strToJson e.uplink jsonUplink ++
  strToJson e.downlink jsonDownlink)

def upSecurityToJson (e : UpSecurity Json) : Json := .obj (
  vendorSpecificToJson e.vendorSpecific ++
  strToJson e.upIntegr jsonUpIntegr ++
  strToJson e.upConfid jsonUpConfid)

/-- An element of `dnnDataList`. -/
def dnnDataToJson (e : DnnData Json) : Json := .obj (
  vendorSpecificToJson e.vendorSpecific ++
  strToJson e.dnn jsonDnn ++
  whenFlag e.fieldExistence.hasDefaultDnnIndicator
    (boolToJson ind e.defaultDnnIndicator jsonDefaultDnnIndicator) ++
  whenFlag e.fieldExistence.hasLboRoamingAllowed
    (boolToJson ind e.lboRoamingAllowed jsonLboRoamingAllowed) ++
  whenFlag e.fieldExistence.hasIwkEpsInd (boolToJson ind e.iwkEpsInd jsonIwkEpsInd) ++
  whenFlag e.fieldExistence.hasLadnIndicator
    (boolToJson ind e.ladnIndicator jsonLadnIndicator) ++
  whenFlag e.fieldExistence.hasPduSessionTypes
    [(jsonPduSessionTypes, pduSessionTypesToJson e.pduSessionTypes)] ++
  whenFlag e.fieldExistence.hasSscModes [(jsonSscModes, sscModesToJson e.sscModes)] ++
  whenFlag e.fieldExistence.hasFivegQosProfile
    [(json5gQosProfile, fivegQosProfileToJson ind e.fivegQosProfile)] ++
  whenFlag e.fieldExistence.hasSessionAmbr
    [(jsonSessionAmbr, sessionAmbrToJson e.sessionAmbr)] ++
  strToJson e.threegppChargingCharacteristics json3gppChargingCharacteristics ++
  whenFlag e.fieldExistence.hasUpSecurity [(jsonUpSecurity, upSecurityToJson e.upSecurity)] ++
  whenFlag e.fieldExistence.hasSmfList [(jsonSmfList, stringsToJson e.smfList)] ++
  whenFlag e.fieldExistence.hasSameSmfInd (boolToJson ind e.sameSmfInd jsonSameSmfInd))

/-- An element of `dnnLists`. -/
def dnnListToJson (e : DnnList Json) : Json := .obj (
  vendorSpecificToJson e.vendorSpecific ++
  strToJson e.dnnListId jsonDnnListId ++
  listToJson e.dnnDataList jsonDnnDataList (dnnDataToJson ind))

/-- The object `nssai` of a set. -/
def sliceInfoNssaiToJson (e : PlmnIdSets Json) : Json := .obj (
  vendorSpecificToJson e.nssai.vendorSpecific ++
  listToJson e.nssai.defaultSingleNssais jsonDefaultSingleNssais (nssaiDetailsToJson ind) ++
  whenFlag e.fieldExistenceUdmSliceProfile.hasNssai
    (listToJson e.nssai.singleNssais jsonSingleNssais (nssaiDetailsToJson ind)))

/-- An element of `plmnIdSets`. -/
def plmnIdSetToJson (e : PlmnIdSets Json) : Json := .obj (
  vendorSpecificToJson e.vendorSpecific ++
  strToJson e.plmnIdSetIdentifier jsonPlmnIdSetIdentifier ++
  whenFlag e.fieldExistenceUdmSliceProfile.hasAnyNssai
    [(jsonNssai, sliceInfoNssaiToJson ind e)] ++
  listToJson e.dnnLists jsonDnnLists (dnnListToJson ind))

/-- `plmnIdsToJson`. -/
def plmnIdsToJson (plmns : List (PlmnIdSets Json)) : List (String × Json) :=
  listToJson plmns jsonPlmnIdSets (plmnIdSetToJson ind)

/-- `udmSliceProfileToJson`. -/
def udmSliceProfileToJson (e : UdmSliceProfile Json) : Json := .obj (
  vendorSpecificToJson e.vendorSpecific ++
  strToJson e.udmSliceProfileId jsonUdmSliceProfileId ++
  plmnIdsToJson ind e.plmnIdSets)

/-! ## Static data -/

/-- An element of `forbiddenAreas` or of `areas`. -/
def udmRoamingAreaReferenceToJson (e : UdmRoamingAreaReference Json) : Json := .obj (
  strToJson e.id jsonId ++
  vendorSpecificToJson e.vendorSpecific)

def udmSliceProfileIdToJson (e : UdmSliceProfileId Json) : Json := .obj (
  strToJson e.id jsonId ++
  vendorSpecificToJson e.vendorSpecific)

def subscribedUeAmbrToJson (e : Ambr Json) : Json := .obj (
  strToJson e.uplink jsonUplink ++
  strToJson e.downlink jsonDownlink ++
  vendorSpecificToJson e.vendorSpecific)

def serviceAreaRestrictionToJson (e : UdmStaticData Json) : Json := .obj (
  strToJson e.serviceAreaRestriction.restrictionType jsonRestrictionType ++
  listToJson e.serviceAreaRestriction.areas jsonAreas udmRoamingAreaReferenceToJson ++
  whenFlag e.fieldExistence.hasMaxNumOfTas
    (intToJson ind e.serviceAreaRestriction.maxNumOfTas jsonMaxNumOfTas) ++
  vendorSpecificToJson e.serviceAreaRestriction.vendorSpecific)

/-- The name under which an address is written. -/
def IpAddrType.key : IpAddrType → String
  | .ipv4 => jsonIpv4Addr
  | .ipv6 => jsonIpv6Addr
  | .ipv6Prefix => jsonIpv6Prefix

/-- An element of `ipAddress`. -/
def ipAddrToJson (ip : IpAddr Json) : Json := .obj (
  strToJson ip.ip ip.ipType.key ++
  vendorSpecificToJson ip.vendorSpecific)

/-- An element of `dnnIpList`. Its `ipAddress` is written also when it is empty. -/
def dnnIpsToJson (e : DnnIps Json) : Json := .obj (
  strToJson e.dnn jsonDnn ++
  [(jsonIpaddress, .arr (e.ipAddress.map ipAddrToJson))] ++
  vendorSpecificToJson e.vendorSpecific)

/-- The object `nssai` of a static address. -/
def staticSnssaiToJson (nssai : Snssai Json) : Json := .obj (
  intToJson ind nssai.sst jsonSst ++
  strToJson nssai.sd jsonSd ++
  vendorSpecificToJson nssai.vendorSpecific)

/-- An element of `nssaiDnnIpLists`. -/
def nssaiDnnIpsToJson (e : NssaiDnnIps Json) : Json := .obj (
  [(jsonNssai, staticSnssaiToJson ind e.snssai)] ++
  [(jsonDnnIpList, .arr (e.dnnIpList.map dnnIpsToJson))] ++
  vendorSpecificToJson e.vendorSpecific)

def staticIpAddressToJson (e : StaticIpAddress Json) : Json := .obj (
  listToJson e.nssaiDnnIpLists jsonNssAiDnnIpLists (nssaiDnnIpsToJson ind) ++
  vendorSpecificToJson e.vendorSpecific)

/-- The vendor-specific members of `udmSliceData` are not written. -/
def udmSliceDataToJson (e : UdmSliceData Json) : Json := .obj (plmnIdsToJson ind e.plmnIdSets)

/-- `udmStaticDataToJson`. -/
def udmStaticDataToJson (e : UdmStaticData Json) : Json := .obj (
  [(jsonUdmSliceProfileId, udmSliceProfileIdToJson e.udmSliceProfileId)] ++
  vendorSpecificToJson e.vendorSpecific ++
  whenFlag e.fieldExistence.hasSubscribedUeAmbr
    [(jsonSubscribedUeAmbr, subscribedUeAmbrToJson e.subscribedUeAmbr)] ++
  stringListToJson e.ratRestrictions jsonRatRestrictions ++
  listToJson e.forbiddenAreas jsonForbiddenAreas udmRoamingAreaReferenceToJson ++
  whenFlag e.fieldExistence.hasServiceAreaRestriction
    [(jsonServiceAreaRestriction, serviceAreaRestrictionToJson ind e)] ++
  stringListToJson e.coreNetworkTypeRestrictions jsonCoreNetworkTypeRestrictions ++
  whenFlag e.fieldExistence.hasMpsPriority (boolToJson ind e.mpsPriority jsonMpsPriority) ++
  whenFlag e.fieldExistence.hasMcsPriority (boolToJson ind e.mcsPriority jsonMcsPriority) ++
  whenFlag e.fieldExistence.hasDlPacketCount
    (intToJson ind e.dlPacketCount jsonDlPacketCount) ++
  whenFlag e.fieldExistence.hasMicoAllowed (boolToJson ind e.micoAllowed jsonMicoAllowed) ++
  whenFlag e.fieldExistence.hasStaticIpAddress
    [(jsonStaticIpAddress, staticIpAddressToJson ind e.staticIpAddress)] ++
  strToJson e.roamingOdb jsonRoamingOdb ++
  whenFlag e.fieldExistence.hasUeUsageType (intToJson ind e.ueUsageType jsonUeUsageType) ++
  whenFlag e.fieldExistence.hasRfspIndex (intToJson ind e.rfspIndex jsonRfsIndex) ++
  whenFlag e.fieldExistence.hasSubsRegTimer (intToJson ind e.subsRegTimer jsonSubsRegTimer) ++
  whenFlag e.fieldExistence.hasUdmSliceData
    [(jsonUdmSliceData, udmSliceDataToJson ind e.udmSliceData)])

/-! ## Roaming areas and SMS subscriptions -/

/-- An element of `areaList`. -/
def areaListToJson (e : AreaList Json) : Json := .obj (
  vendorSpecificToJson e.vendorSpecific ++
  match e.area with
  | .tacs tacs => stringListToJson tacs jsonTacs
  | .areaCode code => strToJson code jsonAreaCode)

/-- `udmRoamingAreaToJson`. -/
def udmRoamingAreaToJson (e : UdmRoamingArea Json) : Json := .obj (
  vendorSpecificToJson e.vendorSpecific ++
  strToJson e.udmRoamingAreaId jsonUdmRoamingAreaId ++
  listToJson e.areaList jsonAreaList areaListToJson)

/-- The object `smsSubscriptionData`. -/
def smsSubscriptionDataToJson (e : SmsStaticData Json) : Json := .obj (
  whenFlag e.fieldExistenceSmsStaticData.hasSmsSubscribed
    (boolToJson ind e.smsSubscriptionData.smsSubscribed jsonSmsSubscribed) ++
  vendorSpecificToJson e.smsSubscriptionData.vendorSpecific)

/-- The object `smsManagementSubscriptionData`. -/
def smsManagementSubscriptionDataToJson (e : SmsStaticData Json) : Json := .obj (
  whenFlag e.fieldExistenceSmsStaticData.hasMtSmsSubscribed
    (boolToJson ind e.smsManagementSubscriptionData.mtSmsSubscribed jsonMtSmsSubscribed) ++
  whenFlag e.fieldExistenceSmsStaticData.hasMtSmsBarringAll
    (boolToJson ind e.smsManagementSubscriptionData.mtSmsBarringAll jsonMtSmsBarringAll) ++
  whenFlag e.fieldExistenceSmsStaticData.hasMtSmsBarringRoaming
    (boolToJson ind e.smsManagementSubscriptionData.mtSmsBarringRoaming
      jsonMtSmsBarringRoaming) ++
  whenFlag e.fieldExistenceSmsStaticData.hasMoSmsSubscribed
    (boolToJson ind e.smsManagementSubscriptionData.moSmsSubscribed jsonMoSmsSubscribed) ++
  whenFlag e.fieldExistenceSmsStaticData.hasMoSmsBarringAll
    (boolToJson ind e.smsManagementSubscriptionData.moSmsBarringAll jsonMoSmsBarringAll) ++
  whenFlag e.fieldExistenceSmsStaticData.hasMoSmsBarringRoaming
    (boolToJson ind e.smsManagementSubscriptionData.moSmsBarringRoaming
      jsonMoSmsBarringRoaming) ++
  vendorSpecificToJson e.smsManagementSubscriptionData.vendorSpecific)

/-- `smsStaticDataToJson`. -/
def smsStaticDataToJson (e : SmsStaticData Json) : Json := .obj (
  vendorSpecificToJson e.vendorSpecific ++
  whenFlag e.fieldExistenceSmsStaticData.hasSmsSubscriptionData
    [(jsonSmsSubscriptionData, smsSubscriptionDataToJson ind e)] ++
  whenFlag e.fieldExistenceSmsStaticData.hasSmsManagementSubscriptionData
    [(jsonSmsManagementSubscriptionData, smsManagementSubscriptionDataToJson ind e)])

/-! ## Bodies -/

/-- The members of an error object. -/
def errorToJson (err : Error) : Json := .obj [
  (jsonErrorMessage, .str (cstr err.errorMessage)),
  (jsonErrorDetails, .obj (err.errorDetails.entries.map fun e => (cstr e.1, .str (cstr e.2))))]

/-- The data of a change that is not a `DELETE`: the first keyword that its path contains decides
which of its entities is written. -/
def changeDataToJson (elem : Change Json) : Json :=
  if contains elem.resourcePath jsonUdmStaticData = true then
    udmStaticDataToJson ind elem.udmStaticData
  else if contains elem.resourcePath jsonUdmSliceProfiles = true then
    udmSliceProfileToJson ind elem.udmSliceProfile
  else if contains elem.resourcePath jsonUdmRoamingAreas = true then
    udmRoamingAreaToJson elem.udmRoamingArea
  else if contains elem.resourcePath jsonSmsStaticData = true then
    smsStaticDataToJson ind elem.smsStaticData
  else .obj []

/-- An element of `changes`. -/
def changeToJson (elem : Change Json) : Json := .obj (
  [(jsonOperation, .str (cstr elem.operation)),
    (jsonResourcePath, .str (cstr elem.resourcePath))] ++
  whenFlag (elem.operation != jsonOperationDelete) [(jsonData, changeDataToJson ind elem)])

/-- `validatorResponseToJson`. -/
def validatorResponseToJson (response : Response Json) : Json :=
  if response.errors = [] then
    .obj (listToJson response.changes jsonChanges (changeToJson ind))
  else .obj [(jsonErrors, .arr (response.errors.map errorToJson))]

end ProvisioningValidator
