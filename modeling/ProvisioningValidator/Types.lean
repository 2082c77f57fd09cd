import Mathlib
import ProvisioningValidator.Lib.Json
import ProvisioningValidator.Lib.Regex

/-!
# The entities

The records that the parser fills, the rules check and the encoder writes, field by field.

* A field of type `int` or `bool` has no value before it is assigned: it is an `Option`, and
  `Indeterminate` says what reading it yields before that.
* The entities never look into a vendor-specific value. They are generic in its type `V`: the
  service keeps the JSON value itself.
* `VendorSpecific` carries the shape of its names, so that no other member can get into it.
-/

namespace ProvisioningValidator

open Lib

/-! ## Vendor-specific members -/

/-- `^vendorSpecific-(.*?)` -/
def vendorSpecificRegexp : Regex := .seq (.lit "vendorSpecific-") (.star .any)

/-- `isVendorSpecific`. -/
def isVendorSpecific (vs : String) : Bool := vendorSpecificRegexp.isMatch (cstr vs)

theorem isVendorSpecific_eq (vs : String) :
    isVendorSpecific vs = startsWith (cstr vs) "vendorSpecific-" := by
  rw [isVendorSpecific, vendorSpecificRegexp, Regex.isMatch_lit_any]

/-- `vendorSpecific_t`: values by name, each name of the vendor-specific form. -/
structure VendorSpecific (V : Type) where
  map : OrdMap String V
  names : ∀ e ∈ map.entries, NulFree e.1 ∧ isVendorSpecific e.1 = true

namespace VendorSpecific

variable {V : Type}

/-- No vendor-specific member. -/
def empty : VendorSpecific V := ⟨∅, by simp⟩

instance : EmptyCollection (VendorSpecific V) := ⟨empty⟩

instance : Inhabited (VendorSpecific V) := ⟨empty⟩

@[simp] theorem map_empty : (∅ : VendorSpecific V).map = ∅ := rfl

theorem ext_map {a b : VendorSpecific V} (h : a.map = b.map) : a = b := by
  cases a
  cases b
  simpa using h

instance [DecidableEq V] : DecidableEq (VendorSpecific V) := fun a b =>
  decidable_of_iff (a.map = b.map) ⟨ext_map, fun h => h ▸ rfl⟩

/-- `if (isVendorSpecific(name)) vendorSpecific.emplace(name, value)`, the name read through
`GetString()`. -/
def add (m : VendorSpecific V) (name : String) (value : V) : VendorSpecific V :=
  if h : isVendorSpecific (cstr name) = true then
    ⟨m.map.emplace (cstr name) value, fun e he => by
      rcases OrdMap.mem_insertEntry he with rfl | he
      · exact ⟨nulFree_cstr name, h⟩
      · exact m.names e he⟩
  else m

end VendorSpecific

/-! ## Fields without a value -/

/-- What a field of type `int` or `bool` yields when it is read before it is assigned. -/
structure Indeterminate where
  int : Int
  bool : Bool

namespace Indeterminate

/-- Read an `int` field. -/
def readInt (ind : Indeterminate) (n : Option Int) : Int := n.getD ind.int

/-- Read a `bool` field. -/
def readBool (ind : Indeterminate) (b : Option Bool) : Bool := b.getD ind.bool

@[simp] theorem readInt_some (ind : Indeterminate) (n : Int) : ind.readInt (some n) = n := rfl

@[simp] theorem readBool_some (ind : Indeterminate) (b : Bool) : ind.readBool (some b) = b := rfl

end Indeterminate

/-! ## Static data of a subscription -/

/-- `fieldExistence`: which members of `udmStaticData` were there. -/
structure FieldExistence where
  hasMpsPriority : Bool := false
  hasMcsPriority : Bool := false
  hasDlPacketCount : Bool := false
  hasMicoAllowed : Bool := false
  hasUeUsageType : Bool := false
  hasRfspIndex : Bool := false
  hasSubsRegTimer : Bool := false
  hasServiceAreaRestriction : Bool := false
  hasMaxNumOfTas : Bool := false
  hasStaticIpAddress : Bool := false
  hasSubscribedUeAmbr : Bool := false
  hasUdmSliceData : Bool := false
  deriving DecidableEq

inductive IpAddrType where
  | ipv4
  | ipv6
  | ipv6Prefix
  deriving DecidableEq

/-- One address. The three alternatives of the source's variant are the same type, so only
`ipType` tells them apart. -/
structure IpAddr (V : Type) where
  ip : String := ""
  ipType : IpAddrType
  vendorSpecific : VendorSpecific V := ∅
  deriving DecidableEq

structure Ambr (V : Type) where
  uplink : String := ""
  downlink : String := ""
  vendorSpecific : VendorSpecific V := ∅
  deriving DecidableEq

structure UdmRoamingAreaReference (V : Type) where
  id : String := ""
  vendorSpecific : VendorSpecific V := ∅
  deriving DecidableEq

structure UdmSliceProfileId (V : Type) where
  id : String := ""
  vendorSpecific : VendorSpecific V := ∅
  deriving DecidableEq

structure ServiceAreaRestriction (V : Type) where
  restrictionType : String := ""
  areas : List (UdmRoamingAreaReference V) := []
  maxNumOfTas : Option Int := none
  vendorSpecific : VendorSpecific V := ∅
  deriving DecidableEq

structure Snssai (V : Type) where
  sst : Option Int := none
  sd : String := ""
  vendorSpecific : VendorSpecific V := ∅
  deriving DecidableEq

structure DnnIps (V : Type) where
  dnn : String := ""
  ipAddress : List (IpAddr V) := []
  vendorSpecific : VendorSpecific V := ∅
  deriving DecidableEq

structure NssaiDnnIps (V : Type) where
  snssai : Snssai V := {}
  dnnIpList : List (DnnIps V) := []
  vendorSpecific : VendorSpecific V := ∅
  deriving DecidableEq

structure StaticIpAddress (V : Type) where
  nssaiDnnIpLists : List (NssaiDnnIps V) := []
  vendorSpecific : VendorSpecific V := ∅
  deriving DecidableEq

/-! ## Slice data -/

/-- `fieldExistenceUdmSliceProfile`. -/
structure FieldExistenceUdmSliceProfile where
  hasNssai : Bool := false
  hasAnyNssai : Bool := false
  deriving DecidableEq

/-- `fieldExistenceDnnData`: which members of a `dnnData` were there. -/
structure FieldExistenceDnnData where
  hasDefaultDnnIndicator : Bool := false
  hasLboRoamingAllowed : Bool := false
  hasIwkEpsInd : Bool := false
  hasLadnIndicator : Bool := false
  hasPduSessionTypes : Bool := false
  hasAllowedSessionTypes : Bool := false
  hasSscModes : Bool := false
  hasSessionAmbr : Bool := false
  hasFivegQosProfile : Bool := false
  hasUpSecurity : Bool := false
  hasSmfList : Bool := false
  hasSameSmfInd : Bool := false
  deriving DecidableEq

/-- `fieldExistenceFivegQosProfile`. -/
structure FieldExistenceFivegQosProfile where
  hasPriorityLevel : Bool := false
  deriving DecidableEq

structure NssaiDetails (V : Type) where
  nssai : Snssai V := {}
  dnnListId : String := ""
  vendorSpecific : VendorSpecific V := ∅
  threegppChargingCharacteristics : String := ""
  deriving DecidableEq

structure SliceInfoNssai (V : Type) where
  defaultSingleNssais : List (NssaiDetails V) := []
  singleNssais : List (NssaiDetails V) := []
  vendorSpecific : VendorSpecific V := ∅
  deriving DecidableEq

structure PduSessionTypes (V : Type) where
  defaultSessionType : String := ""
  allowedSessionTypes : List String := []
  vendorSpecific : VendorSpecific V := ∅
  deriving DecidableEq

structure SscModes (V : Type) where
  defaultSscMode : String := ""
  allowedSscModes : List String := []
  vendorSpecific : VendorSpecific V := ∅
  deriving DecidableEq

structure Arp (V : Type) where
  priorityLevel : Option Int := none
  preemptCap : String := ""
  preemptVuln : String := ""
  vendorSpecific : VendorSpecific V := ∅
  deriving DecidableEq

structure FivegQosProfile (V : Type) where
  fiveqi : Option Int := none
  arp : Arp V := {}
  priorityLevel : Option Int := none
  fieldExistence : FieldExistenceFivegQosProfile := {}
  vendorSpecific : VendorSpecific V := ∅
  deriving DecidableEq

structure UpSecurity (V : Type) where
  upIntegr : String := ""
  upConfid : String := ""
  vendorSpecific : VendorSpecific V := ∅
  deriving DecidableEq

structure DnnData (V : Type) where
  dnn : String := ""
  defaultDnnIndicator : Option Bool := none
  lboRoamingAllowed : Option Bool := none
  iwkEpsInd : Option Bool := none
  ladnIndicator : Option Bool := none
  pduSessionTypes : PduSessionTypes V := {}
  sscModes : SscModes V := {}
  fivegQosProfile : FivegQosProfile V := {}
  sessionAmbr : Ambr V := {}
  threegppChargingCharacteristics : String := ""
  upSecurity : UpSecurity V := {}
  smfList : List String := []
  sameSmfInd : Option Bool := none
  fieldExistence : FieldExistenceDnnData := {}
  vendorSpecific : VendorSpecific V := ∅
  deriving DecidableEq

structure DnnList (V : Type) where
  dnnListId : String := ""
  dnnDataList : List (DnnData V) := []
  vendorSpecific : VendorSpecific V := ∅
  deriving DecidableEq

structure PlmnIdSets (V : Type) where
  plmnIdSetIdentifier : String := ""
  nssai : SliceInfoNssai V := {}
  dnnLists : List (DnnList V) := []
  fieldExistenceUdmSliceProfile : FieldExistenceUdmSliceProfile := {}
  vendorSpecific : VendorSpecific V := ∅
  deriving DecidableEq

structure UdmSliceProfile (V : Type) where
  udmSliceProfileId : String := ""
  plmnIdSets : List (PlmnIdSets V) := []
  vendorSpecific : VendorSpecific V := ∅
  deriving DecidableEq

structure UdmSliceData (V : Type) where
  plmnIdSets : List (PlmnIdSets V) := []
  vendorSpecific : VendorSpecific V := ∅
  deriving DecidableEq

structure UdmStaticData (V : Type) where
  subscribedUeAmbr : Ambr V := {}
  ratRestrictions : List String := []
  forbiddenAreas : List (UdmRoamingAreaReference V) := []
  serviceAreaRestriction : ServiceAreaRestriction V := {}
  coreNetworkTypeRestrictions : List String := []
  mpsPriority : Option Bool := none
  mcsPriority : Option Bool := none
  dlPacketCount : Option Int := none
  micoAllowed : Option Bool := none
  udmSliceProfileId : UdmSliceProfileId V := {}
  staticIpAddress : StaticIpAddress V := {}
  roamingOdb : String := ""
  ueUsageType : Option Int := none
  rfspIndex : Option Int := none
  subsRegTimer : Option Int := none
  udmSliceData : UdmSliceData V := {}
  fieldExistence : FieldExistence := {}
  vendorSpecific : VendorSpecific V := ∅
  deriving DecidableEq

/-! ## Roaming areas -/

/-- `area_t`: an area code or a list of tracking area codes. -/
inductive Area where
  | areaCode (code : String)
  | tacs (tacs : List String)
  deriving DecidableEq

structure AreaList (V : Type) where
  area : Area := .areaCode ""
  vendorSpecific : VendorSpecific V := ∅
  deriving DecidableEq

structure UdmRoamingArea (V : Type) where
  udmRoamingAreaId : String := ""
  areaList : List (AreaList V) := []
  vendorSpecific : VendorSpecific V := ∅
  deriving DecidableEq

/-! ## SMS subscriptions -/

/-- `fieldExistenceSmsStaticData`. -/
structure FieldExistenceSmsStaticData where
  hasSmsSubscriptionData : Bool := false
  hasSmsManagementSubscriptionData : Bool := false
  hasSmsSubscribed : Bool := false
  hasMtSmsSubscribed : Bool := false
  hasMtSmsBarringAll : Bool := false
  hasMtSmsBarringRoaming : Bool := false
  hasMoSmsSubscribed : Bool := false
  hasMoSmsBarringAll : Bool := false
  hasMoSmsBarringRoaming : Bool := false
  deriving DecidableEq

structure SmsManagementSubscriptionData (V : Type) where
  mtSmsSubscribed : Option Bool := none
  mtSmsBarringAll : Option Bool := none
  mtSmsBarringRoaming : Option Bool := none
  moSmsSubscribed : Option Bool := none
  moSmsBarringAll : Option Bool := none
  moSmsBarringRoaming : Option Bool := none
  vendorSpecific : VendorSpecific V := ∅
  deriving DecidableEq

structure SmsSubscriptionData (V : Type) where
  smsSubscribed : Option Bool := none
  vendorSpecific : VendorSpecific V := ∅
  deriving DecidableEq

structure SmsStaticData (V : Type) where
  smsSubscriptionData : SmsSubscriptionData V := {}
  smsManagementSubscriptionData : SmsManagementSubscriptionData V := {}
  vendorSpecific : VendorSpecific V := ∅
  fieldExistenceSmsStaticData : FieldExistenceSmsStaticData := {}
  deriving DecidableEq

/-! ## The provisioning journal -/

structure SubscriberIdentitiesId where
  id : String := ""
  subsPrefix : String := ""
  deriving DecidableEq

structure ProvJournal where
  notifRef : String := ""
  imsi : String := ""
  imsiMask : String := ""
  imsiExtMask : String := ""
  msisdn : String := ""
  msisdnMask : String := ""
  msisdnExtMask : String := ""
  imsiAux : String := ""
  imsiAuxMask : String := ""
  imsiAuxExtMask : String := ""
  impi : String := ""
  impiMask : String := ""
  impiExtMask : String := ""
  secImpi : String := ""
  impiAux : String := ""
  username : String := ""
  usernameMask : String := ""
  usernameExtMask : String := ""
  imsiChoStatus : Option Int := none
  imsiExpiryDate : String := ""
  imsiChoExec : String := ""
  impuChoIds : List String := []
  mscIdAux : String := ""
  notifInfo : String := ""
  ueFunctionMask : String := ""
  extIdList : List String := []
  nai : String := ""
  naiMask : String := ""
  naiExtMask : String := ""
  subsIdList : List SubscriberIdentitiesId := []
  deriving DecidableEq

/-! ## Requests and responses -/

/-- One change of a request: the entity of the kind its path names is the one that counts. -/
structure Change (V : Type) where
  operation : String := ""
  resourcePath : String := ""
  udmStaticData : UdmStaticData V := {}
  udmSliceProfile : UdmSliceProfile V := {}
  udmRoamingArea : UdmRoamingArea V := {}
  smsStaticData : SmsStaticData V := {}
  deriving DecidableEq

/-- `resource_t`: a resource as it is stored. -/
inductive Resource (V : Type) where
  | udmStaticData (e : UdmStaticData V)
  | provJournal (e : ProvJournal)
  | udmSliceProfile (e : UdmSliceProfile V)
  | udmRoamingArea (e : UdmRoamingArea V)
  | smsStaticData (e : SmsStaticData V)

namespace Resource

variable {V : Type}

/-- `boost::get<prov_journal_t>`: throws when the variant holds another alternative. -/
def getProvJournal : Resource V → Option ProvJournal
  | provJournal e => some e
  | _ => none

/-- `boost::get<udm_slice_prof_t>`: throws when the variant holds another alternative. -/
def getUdmSliceProfile : Resource V → Option (UdmSliceProfile V)
  | udmSliceProfile e => some e
  | _ => none

end Resource

/-- `related_resources_t`. -/
abbrev RelatedResources (V : Type) := OrdMap String (Resource V)

structure Error where
  errorMessage : String
  errorDetails : OrdMap String String
  deriving DecidableEq

structure Response (V : Type) where
  changes : List (Change V) := []
  errors : List Error := []

end ProvisioningValidator
