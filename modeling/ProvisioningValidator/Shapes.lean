import Mathlib
import ProvisioningValidator.Constants
import ProvisioningValidator.Paths
import ProvisioningValidator.ReaderRules

/-!
# The shapes of the resources

Which attributes the parser recognises in the data of each kind of resource, with the JSON type
that it reads, and where it uses a value as an object without a test: the objects marked `false`.
What it finds fault with besides a wrong type stands in `demanding`.
-/

namespace ProvisioningValidator

open Lib Lib.Shape

/-! ## Slice data -/

def snssaiFields : List (String × Shape) := [(jsonSst, integer), (jsonSd, string)]

def snssaiShape : Shape := demanding (has [jsonSst]) (object true [] snssaiFields)

def nssaiDetailsFields : List (String × Shape) := [
  (jsonDnnListId, string),
  (json3gppChargingCharacteristics, string),
  (jsonNssai, snssaiShape)]

def nssaiDetailsShape : Shape :=
  demanding (has [jsonNssai]) (object true [] nssaiDetailsFields)

def sliceInfoNssaiFields : List (String × Shape) := [
  (jsonDefaultSingleNssais, array nssaiDetailsShape),
  (jsonSingleNssais, array nssaiDetailsShape)]

/-- There is at least one default S-NSSAI. -/
def hasDefaultSingleNssais (v : Json) : Bool :=
  ((v.member? jsonDefaultSingleNssais).bind asArray).any fun xs => !xs.isEmpty

def sliceInfoNssaiShape : Shape :=
  demanding hasDefaultSingleNssais (object true [] sliceInfoNssaiFields)

def pduSessionTypesFields : List (String × Shape) := [
  (jsonDefaultSessionType, string),
  (jsonAllowedSessionTypes, array string)]

def sscModesFields : List (String × Shape) := [
  (jsonDefaultSscMode, string),
  (jsonAllowedSscModes, array string)]

def upSecurityFields : List (String × Shape) := [(jsonUpIntegr, string), (jsonUpConfid, string)]

def sessionAmbrFields : List (String × Shape) := [(jsonUplink, string), (jsonDownlink, string)]

def sessionAmbrShape : Shape :=
  demanding (has [jsonUplink, jsonDownlink]) (object true [] sessionAmbrFields)

def arpFields : List (String × Shape) := [
  (jsonPriorityLevel, integer),
  (jsonPreemptcap, string),
  (jsonPreemptvuln, string)]

def arpShape : Shape :=
  demanding (has [jsonPriorityLevel, jsonPreemptcap, jsonPreemptvuln]) (object true [] arpFields)

def fivegQosProfileFields : List (String × Shape) := [
  (json5qi, integer),
  (jsonArp, arpShape),
  (jsonPriorityLevel, integer)]

def fivegQosProfileShape : Shape :=
  demanding (has [json5qi, jsonArp]) (object true [] fivegQosProfileFields)

def dnnDataFields : List (String × Shape) := [
  (jsonDnn, string),
  (jsonDefaultDnnIndicator, boolean),
  (jsonLboRoamingAllowed, boolean),
  (jsonIwkEpsInd, boolean),
  (jsonLadnIndicator, boolean),
  (jsonPduSessionTypes, object true [] pduSessionTypesFields),
  (jsonSscModes, object true [] sscModesFields),
  (json3gppChargingCharacteristics, string),
  (jsonUpSecurity, object true [] upSecurityFields),
  (jsonSessionAmbr, sessionAmbrShape),
  (jsonSmfList, array string),
  (jsonSameSmfInd, boolean),
  (json5gQosProfile, fivegQosProfileShape)]

def dnnListFields : List (String × Shape) := [
  (jsonDnnListId, string),
  (jsonDnnDataList, array (object true [] dnnDataFields))]

def dnnListShape : Shape := demanding (has [jsonDnnListId]) (object true [] dnnListFields)

def plmnIdSetFields : List (String × Shape) := [
  (jsonPlmnIdSetIdentifier, string),
  (jsonNssai, sliceInfoNssaiShape),
  (jsonDnnLists, array dnnListShape)]

/-- The members that a set must have. -/
def plmnIdSetMust (isSliceData : Bool) : List String :=
  jsonPlmnIdSetIdentifier :: if isSliceData then [] else [jsonDnnLists]

/-- The elements of `plmnIdSets` are used without a test. -/
def plmnIdSetsShape (isSliceData : Bool) : Shape :=
  array (demanding (has (plmnIdSetMust isSliceData)) (object false [] plmnIdSetFields))

/-- In a slice profile, a `plmnIdSets` that is not an array is passed over. -/
def udmSliceProfileShape : Shape := object false [] [
  (jsonUdmSliceProfileId, string),
  (jsonPlmnIdSets, lax (plmnIdSetsShape false))]

/-! ## Static data -/

def subscribedUeAmbrFields : List (String × Shape) := [
  (jsonUplink, nonEmptyText),
  (jsonDownlink, nonEmptyText)]

def subscribedUeAmbrShape : Shape :=
  demanding (has [jsonUplink, jsonDownlink]) (object true [] subscribedUeAmbrFields)

/-- A reference to an area; an element of `forbiddenAreas` is used without a test. -/
def areaReferenceShape (tested : Bool) : Shape :=
  demanding (has [jsonId]) (object tested [] [(jsonId, string)])

def serviceAreaRestrictionFields : List (String × Shape) := [
  (jsonRestrictionType, string),
  (jsonAreas, array (areaReferenceShape true)),
  (jsonMaxNumOfTas, integer)]

/-- Of the three forms of an address, the first that is there is read. -/
def ipAddrShape : Shape := choice false [
  (jsonIpv4Addr, string),
  (jsonIpv6Addr, string),
  (jsonIpv6Prefix, string)]

def dnnIpsFields : List (String × Shape) := [
  (jsonDnn, string),
  (jsonIpaddress, array ipAddrShape)]

def nssaiDnnIpsFields : List (String × Shape) := [
  (jsonNssai, snssaiShape),
  (jsonDnnIpList, array (object true [] dnnIpsFields))]

/-- The members of an element of `nssaiDnnIpLists` are met in a loop. -/
def nssaiDnnIpsShape : Shape := loop nssaiDnnIpsFields

/-- `nssaiDnnIpLists` is used without a test that it is there. -/
def staticIpAddressShape : Shape := object false [jsonNssAiDnnIpLists] [
  (jsonNssAiDnnIpLists, array nssaiDnnIpsShape)]

def udmSliceDataShape : Shape := object false [] [(jsonPlmnIdSets, plmnIdSetsShape true)]

def udmSliceProfileIdShape : Shape :=
  demanding (has [jsonId]) (object true [] [(jsonId, nonEmptyText)])

def udmStaticDataFields : List (String × Shape) := [
  (jsonSubscribedUeAmbr, subscribedUeAmbrShape),
  (jsonRatRestrictions, array string),
  (jsonForbiddenAreas, array (areaReferenceShape false)),
  (jsonServiceAreaRestriction, object true [] serviceAreaRestrictionFields),
  (jsonCoreNetworkTypeRestrictions, array string),
  (jsonMpsPriority, boolean),
  (jsonMcsPriority, boolean),
  (jsonDlPacketCount, integer),
  (jsonMicoAllowed, boolean),
  (jsonUdmSliceProfileId, udmSliceProfileIdShape),
  (jsonStaticIpAddress, staticIpAddressShape),
  (jsonRoamingOdb, nonEmptyText),
  (jsonUeUsageType, integer),
  (jsonRfsIndex, integer),
  (jsonSubsRegTimer, integer),
  (jsonUdmSliceData, udmSliceDataShape)]

def udmStaticDataShape : Shape :=
  demanding (has [jsonUdmSliceProfileId]) (object false [] udmStaticDataFields)

/-! ## Roaming areas and SMS subscriptions -/

def areaFields : List (String × Shape) := [(jsonAreaCode, string), (jsonTacs, array string)]

/-- `tacs` is read only where there are no `areaCodes`. -/
def areaShape : Shape :=
  demanding (fun v => (pick areaFields v).isSome) (choice true areaFields)

def udmRoamingAreaShape : Shape := object false [] [
  (jsonUdmRoamingAreaId, string),
  (jsonAreaList, array areaShape)]

def smsSubscriptionDataFields : List (String × Shape) := [(jsonSmsSubscribed, boolean)]

def smsManagementSubscriptionDataFields : List (String × Shape) := [
  (jsonMtSmsSubscribed, boolean),
  (jsonMtSmsBarringAll, boolean),
  (jsonMtSmsBarringRoaming, boolean),
  (jsonMoSmsSubscribed, boolean),
  (jsonMoSmsBarringAll, boolean),
  (jsonMoSmsBarringRoaming, boolean)]

def smsStaticDataShape : Shape := object false [] [
  (jsonSmsSubscriptionData, object true [] smsSubscriptionDataFields),
  (jsonSmsManagementSubscriptionData, object true [] smsManagementSubscriptionDataFields)]

/-- The shape of the data of a kind. -/
def ResourceKind.shape : ResourceKind → Shape
  | .udmStaticData => udmStaticDataShape
  | .udmSliceProfile => udmSliceProfileShape
  | .udmRoamingArea => udmRoamingAreaShape
  | .smsStaticData => smsStaticDataShape

end ProvisioningValidator
