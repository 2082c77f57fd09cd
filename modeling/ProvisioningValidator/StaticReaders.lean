import Mathlib
import ProvisioningValidator.SliceReaders

/-!
# Reading the static data of a subscription

`getUdmStaticData`, with the readers of the objects in it. Most members are tested before they are
used. Three places are not: the elements of `forbiddenAreas`, everything from `staticIpAddress`
down to the elements of `nssaiDnnIpLists` and of `ipAddress`, and `udmSliceData`.
-/

namespace ProvisioningValidator

open Lib

variable {V : Type} (val : Json → V) (resourcePath : String)

/-- The value of `subscribedUeAmbr`, once it is known to be an object. -/
def getSubscribedUeAmbr : Reader (Ambr V) := .inOrder [
  .into (·.vendorSpecific) (fun m e => { e with vendorSpecific := m }) (getVendorSpecific val),
  .ifMember jsonUplink
    (.nonEmptyString resourcePath jsonUplink jsonUplink fun s e => { e with uplink := s })
    (Reader.mandatory resourcePath (unfoundMandatoryFieldOfError jsonUplink jsonSubscribedUeAmbr)),
  .ifMember jsonDownlink
    (.nonEmptyString resourcePath jsonDownlink jsonDownlink fun s e => { e with downlink := s })
    (Reader.mandatory resourcePath
      (unfoundMandatoryFieldOfError jsonDownlink jsonSubscribedUeAmbr))]

/-! ## Areas -/

/-- An element of `forbiddenAreas` or of `areas`, which is `parent`; without a test. It is kept if
its `id` is a text. -/
def getUdmRoamingAreaReference (parent : String) (v : Json) :
    ParserM (Option (UdmRoamingAreaReference V)) := do
  let vendorSpecific ← getVendorSpecific val v ∅
  match ← Run.lift (v.findMember jsonId) with
  | some w =>
    match asString w with
    | some id => return some { id, vendorSpecific }
    | none => do
      addError resourcePath (notStringFieldError jsonId)
      return none
  | none => do
    addError resourcePath (unfoundMandatoryFieldOfError jsonId parent)
    return none

/-- The value of `serviceAreaRestriction`, once it is known to be an object. -/
def getServiceAreaRestriction : Reader (UdmStaticData V) := .inOrder [
  .into (·.serviceAreaRestriction.vendorSpecific)
    (fun m e => { e with serviceAreaRestriction.vendorSpecific := m }) (getVendorSpecific val),
  .ifMember jsonRestrictionType
    (.string resourcePath jsonRestrictionType
      fun s e => { e with serviceAreaRestriction.restrictionType := s }) Reader.skip,
  .ifMember jsonAreas
    (.array resourcePath jsonAreas
      (Reader.objectElement resourcePath jsonAreas
        (getUdmRoamingAreaReference val resourcePath jsonAreas))
      fun as e => { e with
        serviceAreaRestriction.areas := e.serviceAreaRestriction.areas ++ as }) Reader.skip,
  .ifMember jsonMaxNumOfTas
    (.int resourcePath jsonMaxNumOfTas fun n e => { e with
      serviceAreaRestriction.maxNumOfTas := some n, fieldExistence.hasMaxNumOfTas := true })
    (Reader.without fun e => { e with fieldExistence.hasMaxNumOfTas := false }),
  .mark fun e => { e with fieldExistence.hasServiceAreaRestriction := true }]

/-- The value of `udmSliceProfileId`, once it is known to be an object. An empty `id` is reported
under the name of the object. -/
def getUdmSliceProfileId : Reader (UdmSliceProfileId V) := .inOrder [
  .into (·.vendorSpecific) (fun m e => { e with vendorSpecific := m }) (getVendorSpecific val),
  .ifMember jsonId
    (.nonEmptyString resourcePath jsonId jsonUdmSliceProfileId fun s e => { e with id := s })
    (Reader.mandatory resourcePath (unfoundMandatoryFieldOfError jsonId jsonUdmSliceProfileId))]

/-! ## Static addresses -/

/-- The text of one of the three alternatives of an address. -/
def getIp (key : String) (ipType : IpAddrType) (vendorSpecific : VendorSpecific V) (w : Json) :
    ParserM (Option (IpAddr V)) :=
  match asString w with
  | some ip => return some { ip, ipType, vendorSpecific }
  | none => do
    addError resourcePath (notStringFieldError key)
    return none

/-- An element of `ipAddress`, without a test. The first of the three alternatives that is there
decides; an element with none of them is passed over. -/
def getIpAddr (z : Json) : ParserM (Option (IpAddr V)) := do
  let vendorSpecific ← getVendorSpecific val z ∅
  Reader.firstMember (pure none) [
    (jsonIpv4Addr, getIp resourcePath jsonIpv4Addr .ipv4 vendorSpecific),
    (jsonIpv6Addr, getIp resourcePath jsonIpv6Addr .ipv6 vendorSpecific),
    (jsonIpv6Prefix, getIp resourcePath jsonIpv6Prefix .ipv6Prefix vendorSpecific)] z

/-- An element of `dnnIpList`, once it is known to be an object. Without a `dnn` of its own, it takes
over the one that the elements before it have left. -/
def getDnnIps (dnn : String) (w : Json) : ParserM (DnnIps V) := Reader.inOrder [
  .ifMember jsonDnn (.string resourcePath jsonDnn fun s e => { e with dnn := s }) Reader.skip,
  .ifMember jsonIpaddress
    (.array resourcePath jsonIpaddress (getIpAddr val resourcePath)
      fun as e => { e with ipAddress := e.ipAddress ++ as }) Reader.skip,
  .into (·.vendorSpecific) (fun m e => { e with vendorSpecific := m }) (getVendorSpecific val)]
  w { dnn }

/-- The elements of `dnnIpList`, from the one on whose predecessors have left `dnn` and
`ddnlist`. -/
def getDnnIpList (dnn : String) (ddnlist : List (DnnIps V)) :
    List Json → ParserM (List (DnnIps V))
  | [] => pure ddnlist
  | w :: ws =>
    if w.IsObject then do
      let dnnIps ← getDnnIps val resourcePath dnn w
      getDnnIpList dnnIps.dnn (ddnlist ++ [dnnIps]) ws
    else do
      addError resourcePath (notObjectFieldError jsonDnnIpList)
      getDnnIpList dnn ddnlist ws

/-- The value of `dnnIpList`, in addition to what an earlier one has left. -/
def getDnnIpLists : Reader (List (DnnIps V)) := fun v ddnlist =>
  match asArray v with
  | some ws => getDnnIpList val resourcePath "" ddnlist ws
  | none => do
    Run.emit (.error (mkError "ConstraintViolation" resourcePath
      (notArrayFieldError jsonDnnIpList)))
    return ddnlist

/-- One member of an element of `nssaiDnnIpLists`: every member of one of the two names is read. -/
def getNssaiDnnIpsMember (e : NssaiDnnIps V) (itr : String × Json) : ParserM (NssaiDnnIps V) :=
  if cstr itr.1 = jsonNssai then
    Reader.into (·.snssai) (fun a e => { e with snssai := a })
      (.object resourcePath jsonNssai (getSnssai val resourcePath)) itr.2 e
  else if cstr itr.1 = jsonDnnIpList then
    Reader.into (·.dnnIpList) (fun as e => { e with dnnIpList := as })
      (getDnnIpLists val resourcePath) itr.2 e
  else pure e

/-- An element of `nssaiDnnIpLists`, without a test: its members one by one. -/
def getNssaiDnnIps (v : Json) : ParserM (Option (NssaiDnnIps V)) := do
  let vendorSpecific ← getVendorSpecific val v ∅
  let members ← Run.lift v.members
  let e ← members.foldlM (getNssaiDnnIpsMember val resourcePath) { vendorSpecific }
  return some e

/-- The value of `staticIpAddress`, without a test: `nssaiDnnIpLists` has to be there. -/
def getStaticIpAddress : Reader (StaticIpAddress V) := .inOrder [
  .into (·.vendorSpecific) (fun m e => { e with vendorSpecific := m }) (getVendorSpecific val),
  fun v e => do
    let w ← Run.lift (v.index jsonNssAiDnnIpLists)
    Reader.array resourcePath jsonNssAiDnnIpLists (getNssaiDnnIps val resourcePath)
      (fun as e => { e with nssaiDnnIpLists := e.nssaiDnnIpLists ++ as }) w e]

/-- The value of `udmSliceData`, without a test. -/
def getUdmSliceData : Reader (UdmSliceData V) := .inOrder [
  .into (·.vendorSpecific) (fun m e => { e with vendorSpecific := m }) (getVendorSpecific val),
  .ifMember jsonPlmnIdSets
    (fun v e =>
      match asArray v with
      | some xs => do
        let plmnIdSets ← getPlmnIdSets val resourcePath true xs
        return { e with plmnIdSets := plmnIdSets }
      | none => do
        Run.emit (.error (mkError "ConstraintViolation" resourcePath
          (notArrayFieldError jsonPlmnIdSets)))
        return e) Reader.skip]

/-! ## Static data -/

/-- A truth value whose flag says whether it was there; of another kind, it leaves the flag. -/
def getStaticBool (key : String) (setFlag : Bool → UdmStaticData V → UdmStaticData V)
    (put : Bool → UdmStaticData V → UdmStaticData V) : Reader (UdmStaticData V) :=
  .ifMember key (.bool resourcePath key fun b e => setFlag true (put b e))
    (Reader.without (setFlag false))

/-- An integer whose flag says whether it was there; of another kind, it leaves the flag. -/
def getStaticInt (key : String) (setFlag : Bool → UdmStaticData V → UdmStaticData V)
    (put : Int → UdmStaticData V → UdmStaticData V) : Reader (UdmStaticData V) :=
  .ifMember key (.int resourcePath key fun n e => setFlag true (put n e))
    (Reader.without (setFlag false))

/-- `getUdmStaticData`. -/
def getUdmStaticData : Reader (UdmStaticData V) := .inOrder [
  .into (·.vendorSpecific) (fun m e => { e with vendorSpecific := m }) (getVendorSpecific val),
  .ifMember jsonSubscribedUeAmbr
    (.marking (fun e => { e with fieldExistence.hasSubscribedUeAmbr := true }) <|
      .object resourcePath jsonSubscribedUeAmbr <|
        .into (·.subscribedUeAmbr) (fun a e => { e with subscribedUeAmbr := a })
          (getSubscribedUeAmbr val resourcePath))
    (Reader.without fun e => { e with fieldExistence.hasSubscribedUeAmbr := false }),
  .ifMember jsonRatRestrictions
    (.strings resourcePath jsonRatRestrictions
      fun ss e => { e with ratRestrictions := e.ratRestrictions ++ ss }) Reader.skip,
  .ifMember jsonForbiddenAreas
    (.array resourcePath jsonForbiddenAreas
      (getUdmRoamingAreaReference val resourcePath jsonForbiddenAreas)
      fun as e => { e with forbiddenAreas := e.forbiddenAreas ++ as }) Reader.skip,
  .ifMember jsonServiceAreaRestriction
    (.object resourcePath jsonServiceAreaRestriction (getServiceAreaRestriction val resourcePath))
    (Reader.without fun e => { e with fieldExistence.hasServiceAreaRestriction := false }),
  .ifMember jsonCoreNetworkTypeRestrictions
    (.strings resourcePath jsonCoreNetworkTypeRestrictions fun ss e => { e with
      coreNetworkTypeRestrictions := e.coreNetworkTypeRestrictions ++ ss }) Reader.skip,
  getStaticBool resourcePath jsonMpsPriority
    (fun b e => { e with fieldExistence.hasMpsPriority := b })
    (fun b e => { e with mpsPriority := some b }),
  getStaticBool resourcePath jsonMcsPriority
    (fun b e => { e with fieldExistence.hasMcsPriority := b })
    (fun b e => { e with mcsPriority := some b }),
  getStaticInt resourcePath jsonDlPacketCount
    (fun b e => { e with fieldExistence.hasDlPacketCount := b })
    (fun n e => { e with dlPacketCount := some n }),
  getStaticBool resourcePath jsonMicoAllowed
    (fun b e => { e with fieldExistence.hasMicoAllowed := b })
    (fun b e => { e with micoAllowed := some b }),
  .ifMember jsonUdmSliceProfileId
    (.object resourcePath jsonUdmSliceProfileId <|
      .into (·.udmSliceProfileId) (fun a e => { e with udmSliceProfileId := a })
        (getUdmSliceProfileId val resourcePath))
    (Reader.mandatory resourcePath (unfoundMandatoryFieldError jsonUdmSliceProfileId)),
  .ifMember jsonStaticIpAddress
    (.marking (fun e => { e with fieldExistence.hasStaticIpAddress := true }) <|
      .into (·.staticIpAddress) (fun a e => { e with staticIpAddress := a })
        (getStaticIpAddress val resourcePath))
    (Reader.without fun e => { e with fieldExistence.hasStaticIpAddress := false }),
  .ifMember jsonRoamingOdb
    (.nonEmptyString resourcePath jsonRoamingOdb jsonRoamingOdb
      fun s e => { e with roamingOdb := s }) Reader.skip,
  getStaticInt resourcePath jsonUeUsageType
    (fun b e => { e with fieldExistence.hasUeUsageType := b })
    (fun n e => { e with ueUsageType := some n }),
  getStaticInt resourcePath jsonRfsIndex
    (fun b e => { e with fieldExistence.hasRfspIndex := b })
    (fun n e => { e with rfspIndex := some n }),
  getStaticInt resourcePath jsonSubsRegTimer
    (fun b e => { e with fieldExistence.hasSubsRegTimer := b })
    (fun n e => { e with subsRegTimer := some n }),
  .ifMember jsonUdmSliceData
    (.marking (fun e => { e with fieldExistence.hasUdmSliceData := true }) <|
      .into (·.udmSliceData) (fun a e => { e with udmSliceData := a })
        (getUdmSliceData val resourcePath))
    (Reader.without fun e => { e with fieldExistence.hasUdmSliceData := false })]

end ProvisioningValidator
