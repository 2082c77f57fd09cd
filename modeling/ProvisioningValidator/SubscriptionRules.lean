import Mathlib
import ProvisioningValidator.Constants
import ProvisioningValidator.Errors
import ProvisioningValidator.Formats
import ProvisioningValidator.SliceRules

/-!
# The common rules for static data and for roaming areas

`checkForCommonUdmSubscriptionRules` holds for a subscription on creation and on update. Its last
group is about slice data: every DNN list that an NSSAI names must be defined there, or in the
slice profile that goes with the subscription.
-/

namespace ProvisioningValidator

open Lib Checked

variable {V : Type}

def hasInvalidValue (field : String) : String := quoted field ++ " has an Invalid Value"

/-! ## Areas, rates and enumerations -/

def serviceAreaRestrictionRules (resourcePath : String) (hasMaxNumOfTas : Bool)
    (r : ServiceAreaRestriction V) : Checked :=
  inOrder [
    failIf (r.restrictionType ≠ "" ∧ r.areas = []) resourcePath
      (fieldIn jsonRestrictionType jsonServiceAreaRestriction
        (" can be only present if " ++ quoted jsonAreas ++ " is present")),
    failIf (hasMaxNumOfTas = true ∧ r.restrictionType = jsonNotAllowedAreas) resourcePath
      (fieldIn jsonMaxNumOfTas jsonServiceAreaRestriction
        (" can be only present if " ++ quoted jsonRestrictionType ++ " is not " ++
          quoted jsonNotAllowedAreas)),
    failIf (r.restrictionType ≠ "" ∧
        r.restrictionType ∉ [jsonNotAllowedAreas, jsonAllowedAreas]) resourcePath
      (fieldIn jsonRestrictionType jsonServiceAreaRestriction " has an Invalid Value")]

def subscribedUeAmbrRules (resourcePath : String) (ambr : Ambr V) : Checked :=
  inOrder [
    failIf (matchesCStr bitRateRegexp ambr.uplink = false) resourcePath
      (fieldIn jsonUplink jsonSubscribedUeAmbr " has not the valid format"),
    failIf (matchesCStr bitRateRegexp ambr.downlink = false) resourcePath
      (fieldIn jsonDownlink jsonSubscribedUeAmbr " has not the valid format")]

/-- A list of values of an enumeration. -/
def enumeratedRules (resourcePath field : String) (valid xs : List String) : Checked :=
  forEach xs fun x => failIf (x ∉ valid) resourcePath (hasInvalidValue field)

/-! ## Static IP addresses -/

/-- An IPv6 address and a prefix must match both of their expressions. -/
def validIp (ip : IpAddr V) : Bool :=
  match ip.ipType with
  | .ipv4 => matchesCStr ipv4Regexp ip.ip
  | .ipv6 => matchesCStr ipv6Regexp1 ip.ip && matchesCStr ipv6Regexp2 ip.ip
  | .ipv6Prefix => matchesCStr ipv6PrefixRegexp1 ip.ip && matchesCStr ipv6PrefixRegexp2 ip.ip

def ipField (ip : IpAddr V) : String :=
  match ip.ipType with
  | .ipv4 => jsonIpv4Addr
  | .ipv6 => jsonIpv6Addr
  | .ipv6Prefix => jsonIpv6Prefix

@[simp] abbrev ipAddressDnnMinSize : Nat := 1
@[simp] abbrev ipAddressDnnMaxSize : Nat := 2

def dnnIpsRules (resourcePath : String) (d : DnnIps V) : Checked :=
  inOrder [
    failIf (d.ipAddress.length < ipAddressDnnMinSize ∨ d.ipAddress.length > ipAddressDnnMaxSize)
      resourcePath (fieldIn jsonIpaddress jsonDnnIpList
        (" has an Invalid Size. It should have at least " ++ toString ipAddressDnnMinSize ++
          " and at most " ++ toString ipAddressDnnMaxSize ++ " elements")),
    forEach d.ipAddress fun ip =>
      failIf (validIp ip = false) resourcePath
        (fieldIn (ipField ip) jsonStaticIpAddress " has an Invalid Value")]

section

variable (ind : Indeterminate)

def nssaiDnnIpsRules (resourcePath : String) (n : NssaiDnnIps V) : Checked :=
  inOrder [
    failIf (ind.readInt n.snssai.sst > 255 ∨ ind.readInt n.snssai.sst < 0) resourcePath
      (fieldIn jsonSst jsonStaticIpAddress " has an Invalid Value"),
    failIf (n.snssai.sd ≠ "" ∧ matchesCStr sdRegexp n.snssai.sd = false) resourcePath
      (fieldIn jsonSd jsonStaticIpAddress " has an Invalid Value"),
    forEach n.dnnIpList (dnnIpsRules resourcePath)]

/-! ## References from slice data -/

/-- `dnnListIdsReferencedInSliceData`: set A of the rule. -/
def dnnListIdsReferencedInSliceData (plmnIdSets : List (PlmnIdSets V)) : MultiMap String String :=
  MultiMap.empty.insertAll (plmnIdSets.flatMap fun s =>
    (dnnVector s).map fun id => (s.plmnIdSetIdentifier, id))

/-- `dnnListIdsDefinedInSliceData`: set B of the rule. -/
def dnnListIdsDefinedInSliceData (plmnIdSets : List (PlmnIdSets V)) : MultiMap String String :=
  MultiMap.empty.insertAll (plmnIdSets.flatMap fun s =>
    (dnnListIdVector s).map fun id => (s.plmnIdSetIdentifier, id))

/-- The walk over the entries of a multimap with one key, until `id` is met. -/
def definedUnder (m : MultiMap String String) (identifier id : String) : Bool :=
  ((m.findFrom identifier).takeWhile (·.1 = identifier)).any (·.2 = id)

/-- All elements of A are in B or among the lists of the associated profile, set C. -/
def sliceDataReferenceRules (resourcePath : String) (plmnIdSets : List (PlmnIdSets V))
    (sliceProfile : UdmSliceProfile V) : Checked :=
  let inSliceData := dnnListIdsDefinedInSliceData plmnIdSets
  -- the ids of the profile are taken as they are, empty ones too
  let inAssocSliceProfile := dnnListIdsOnChange sliceProfile.plmnIdSets
  forEach (dnnListIdsReferencedInSliceData plmnIdSets).entries fun a =>
    failIf (definedUnder inSliceData a.1 a.2 = false ∧
        definedUnder inAssocSliceProfile a.1 a.2 = false) resourcePath
      (quoted jsonDnnListId ++ "=" ++ quoted a.2 ++ " for " ++ quoted jsonPlmnIdSetIdentifier ++
        "=" ++ quoted a.1 ++ " not found neither in the subscription nor in the " ++
        quoted jsonUdmSliceProfileId ++ "=" ++ quoted sliceProfile.udmSliceProfileId)

def udmSliceDataRules (resourcePath : String) (plmnIdSets : List (PlmnIdSets V))
    (sliceProfile : UdmSliceProfile V) : Checked :=
  inOrder [
    guard (plmnIdSets ≠ [])
      (checkForCommonUdmSliceProfileRules ind plmnIdSets false resourcePath),
    checkForRepeatedDnnsandNssais ind plmnIdSets resourcePath,
    sliceDataReferenceRules resourcePath plmnIdSets sliceProfile]

/-! ## All common rules of a subscription -/

@[simp] abbrev ueUsageTypeMin : Int := 0
@[simp] abbrev ueUsageTypeMax : Int := 255

def checkForCommonUdmSubscriptionRules (change : Change V) (sliceProfile : UdmSliceProfile V) :
    Checked :=
  let resourcePath := change.resourcePath
  let d := change.udmStaticData
  inOrder [
    failIf (d.serviceAreaRestriction.areas.length > 1) resourcePath
      ("Only one reference to an udmRoamingArea allowed in " ++
        quoted jsonServiceAreaRestriction),
    failIf (d.forbiddenAreas.length > 1) resourcePath
      ("Only one reference to an udmRoamingArea allowed in " ++ quoted jsonForbiddenAreas),
    serviceAreaRestrictionRules resourcePath d.fieldExistence.hasMaxNumOfTas
      d.serviceAreaRestriction,
    guard (d.fieldExistence.hasSubscribedUeAmbr = true)
      (subscribedUeAmbrRules resourcePath d.subscribedUeAmbr),
    enumeratedRules resourcePath jsonRatRestrictions
      [jsonNr, jsonEutra, jsonWlan, jsonVirtual] d.ratRestrictions,
    enumeratedRules resourcePath jsonCoreNetworkTypeRestrictions [json5gc, jsonEpc]
      d.coreNetworkTypeRestrictions,
    guard (d.fieldExistence.hasDlPacketCount = true)
      (failIf (ind.readInt d.dlPacketCount < -1) resourcePath
        (hasInvalidValue jsonDlPacketCount)),
    guard (d.fieldExistence.hasStaticIpAddress = true)
      (forEach d.staticIpAddress.nssaiDnnIpLists (nssaiDnnIpsRules ind resourcePath)),
    failIf (d.roamingOdb ≠ "" ∧
        d.roamingOdb ∉ [jsonOutsideHomePlmn, jsonOutsideHomePlmnCountry]) resourcePath
      (hasInvalidValue jsonRoamingOdb),
    guard (d.fieldExistence.hasUeUsageType = true)
      (failIf (ind.readInt d.ueUsageType < ueUsageTypeMin ∨
          ind.readInt d.ueUsageType > ueUsageTypeMax) resourcePath
        (hasInvalidValue jsonUeUsageType)),
    guard (d.fieldExistence.hasUdmSliceData = true)
      (udmSliceDataRules ind resourcePath d.udmSliceData.plmnIdSets sliceProfile)]

end

/-! ## Roaming areas -/

def areaRules (resourcePath : String) (a : AreaList V) : Checked :=
  match a.area with
  | .areaCode _ => pass
  | .tacs tacs =>
    inOrder [
      failIf (tacs.length < 1) resourcePath
        ("At least one element in " ++ quoted jsonTacs ++ " must exist"),
      forEach tacs fun tac =>
        failIf (isTac tac = false) resourcePath
          (fieldIn jsonTacs jsonAreaList " has an invalid format")]

def checkForCommonUdmRoamingAreaRules (change : Change V) : Checked :=
  inOrder [
    failIf (change.udmRoamingArea.areaList.length < 1) change.resourcePath
      ("At least one " ++ quoted jsonAreaList ++ " must exist"),
    forEach change.udmRoamingArea.areaList (areaRules change.resourcePath)]

end ProvisioningValidator
