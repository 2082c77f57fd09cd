import Mathlib
import ProvisioningValidator.Documents

/-!
# The values of vendor-specific members

The parser keeps the value of a vendor-specific member and never looks into it. So it does the same
whatever these values are kept as: what it reads with `f` applied to each of them is what it reads,
with `f` applied afterwards (`getValidationData_map`).

`mapVendor` applies `f` to every value that an entity keeps. `Follows f r r'` says that a reader `r'`
reads into `f e` what `r` reads into `e`; there is a rule for every way in which readers are put
together, and one result for every reader that keeps vendor-specific members.
-/

namespace ProvisioningValidator

open Lib Lib.Run

variable {V W : Type}

/-! ## Entities -/

section

variable (f : V → W)

/-- The same names, with `f` of the values. -/
def VendorSpecific.mapVendor (m : VendorSpecific V) : VendorSpecific W where
  map := m.map.mapVal f
  names := by
    intro e he
    obtain ⟨e', he', rfl⟩ := List.mem_map.1 he
    exact m.names e' he'

def IpAddr.mapVendor (e : IpAddr V) : IpAddr W :=
  ⟨e.ip, e.ipType, e.vendorSpecific.mapVendor f⟩

def Ambr.mapVendor (e : Ambr V) : Ambr W :=
  ⟨e.uplink, e.downlink, e.vendorSpecific.mapVendor f⟩

def UdmRoamingAreaReference.mapVendor (e : UdmRoamingAreaReference V) :
    UdmRoamingAreaReference W := ⟨e.id, e.vendorSpecific.mapVendor f⟩

def UdmSliceProfileId.mapVendor (e : UdmSliceProfileId V) : UdmSliceProfileId W :=
  ⟨e.id, e.vendorSpecific.mapVendor f⟩

def ServiceAreaRestriction.mapVendor (e : ServiceAreaRestriction V) : ServiceAreaRestriction W :=
  ⟨e.restrictionType, e.areas.map (·.mapVendor f), e.maxNumOfTas, e.vendorSpecific.mapVendor f⟩

def Snssai.mapVendor (e : Snssai V) : Snssai W := ⟨e.sst, e.sd, e.vendorSpecific.mapVendor f⟩

def DnnIps.mapVendor (e : DnnIps V) : DnnIps W :=
  ⟨e.dnn, e.ipAddress.map (·.mapVendor f), e.vendorSpecific.mapVendor f⟩

def NssaiDnnIps.mapVendor (e : NssaiDnnIps V) : NssaiDnnIps W :=
  ⟨e.snssai.mapVendor f, e.dnnIpList.map (·.mapVendor f), e.vendorSpecific.mapVendor f⟩

def StaticIpAddress.mapVendor (e : StaticIpAddress V) : StaticIpAddress W :=
  ⟨e.nssaiDnnIpLists.map (·.mapVendor f), e.vendorSpecific.mapVendor f⟩

def NssaiDetails.mapVendor (e : NssaiDetails V) : NssaiDetails W :=
  ⟨e.nssai.mapVendor f, e.dnnListId, e.vendorSpecific.mapVendor f,
    e.threegppChargingCharacteristics⟩

def SliceInfoNssai.mapVendor (e : SliceInfoNssai V) : SliceInfoNssai W :=
  ⟨e.defaultSingleNssais.map (·.mapVendor f), e.singleNssais.map (·.mapVendor f),
    e.vendorSpecific.mapVendor f⟩

def PduSessionTypes.mapVendor (e : PduSessionTypes V) : PduSessionTypes W :=
  ⟨e.defaultSessionType, e.allowedSessionTypes, e.vendorSpecific.mapVendor f⟩

def SscModes.mapVendor (e : SscModes V) : SscModes W :=
  ⟨e.defaultSscMode, e.allowedSscModes, e.vendorSpecific.mapVendor f⟩

def Arp.mapVendor (e : Arp V) : Arp W :=
  ⟨e.priorityLevel, e.preemptCap, e.preemptVuln, e.vendorSpecific.mapVendor f⟩

def FivegQosProfile.mapVendor (e : FivegQosProfile V) : FivegQosProfile W :=
  ⟨e.fiveqi, e.arp.mapVendor f, e.priorityLevel, e.fieldExistence, e.vendorSpecific.mapVendor f⟩

def UpSecurity.mapVendor (e : UpSecurity V) : UpSecurity W :=
  ⟨e.upIntegr, e.upConfid, e.vendorSpecific.mapVendor f⟩

def DnnData.mapVendor (e : DnnData V) : DnnData W where
  dnn := e.dnn
  defaultDnnIndicator := e.defaultDnnIndicator
  lboRoamingAllowed := e.lboRoamingAllowed
  iwkEpsInd := e.iwkEpsInd
  ladnIndicator := e.ladnIndicator
  pduSessionTypes := e.pduSessionTypes.mapVendor f
  sscModes := e.sscModes.mapVendor f
  fivegQosProfile := e.fivegQosProfile.mapVendor f
  sessionAmbr := e.sessionAmbr.mapVendor f
  threegppChargingCharacteristics := e.threegppChargingCharacteristics
  upSecurity := e.upSecurity.mapVendor f
  smfList := e.smfList
  sameSmfInd := e.sameSmfInd
  fieldExistence := e.fieldExistence
  vendorSpecific := e.vendorSpecific.mapVendor f

def DnnList.mapVendor (e : DnnList V) : DnnList W :=
  ⟨e.dnnListId, e.dnnDataList.map (·.mapVendor f), e.vendorSpecific.mapVendor f⟩

def PlmnIdSets.mapVendor (e : PlmnIdSets V) : PlmnIdSets W :=
  ⟨e.plmnIdSetIdentifier, e.nssai.mapVendor f, e.dnnLists.map (·.mapVendor f),
    e.fieldExistenceUdmSliceProfile, e.vendorSpecific.mapVendor f⟩

def UdmSliceProfile.mapVendor (e : UdmSliceProfile V) : UdmSliceProfile W :=
  ⟨e.udmSliceProfileId, e.plmnIdSets.map (·.mapVendor f), e.vendorSpecific.mapVendor f⟩

def UdmSliceData.mapVendor (e : UdmSliceData V) : UdmSliceData W :=
  ⟨e.plmnIdSets.map (·.mapVendor f), e.vendorSpecific.mapVendor f⟩

def UdmStaticData.mapVendor (e : UdmStaticData V) : UdmStaticData W where
  subscribedUeAmbr := e.subscribedUeAmbr.mapVendor f
  ratRestrictions := e.ratRestrictions
  forbiddenAreas := e.forbiddenAreas.map (·.mapVendor f)
  serviceAreaRestriction := e.serviceAreaRestriction.mapVendor f
  coreNetworkTypeRestrictions := e.coreNetworkTypeRestrictions
  mpsPriority := e.mpsPriority
  mcsPriority := e.mcsPriority
  dlPacketCount := e.dlPacketCount
  micoAllowed := e.micoAllowed
  udmSliceProfileId := e.udmSliceProfileId.mapVendor f
  staticIpAddress := e.staticIpAddress.mapVendor f
  roamingOdb := e.roamingOdb
  ueUsageType := e.ueUsageType
  rfspIndex := e.rfspIndex
  subsRegTimer := e.subsRegTimer
  udmSliceData := e.udmSliceData.mapVendor f
  fieldExistence := e.fieldExistence
  vendorSpecific := e.vendorSpecific.mapVendor f

def AreaList.mapVendor (e : AreaList V) : AreaList W := ⟨e.area, e.vendorSpecific.mapVendor f⟩

def UdmRoamingArea.mapVendor (e : UdmRoamingArea V) : UdmRoamingArea W :=
  ⟨e.udmRoamingAreaId, e.areaList.map (·.mapVendor f), e.vendorSpecific.mapVendor f⟩

def SmsManagementSubscriptionData.mapVendor (e : SmsManagementSubscriptionData V) :
    SmsManagementSubscriptionData W :=
  ⟨e.mtSmsSubscribed, e.mtSmsBarringAll, e.mtSmsBarringRoaming, e.moSmsSubscribed,
    e.moSmsBarringAll, e.moSmsBarringRoaming, e.vendorSpecific.mapVendor f⟩

def SmsSubscriptionData.mapVendor (e : SmsSubscriptionData V) : SmsSubscriptionData W :=
  ⟨e.smsSubscribed, e.vendorSpecific.mapVendor f⟩

def SmsStaticData.mapVendor (e : SmsStaticData V) : SmsStaticData W :=
  ⟨e.smsSubscriptionData.mapVendor f, e.smsManagementSubscriptionData.mapVendor f,
    e.vendorSpecific.mapVendor f, e.fieldExistenceSmsStaticData⟩

def Change.mapVendor (c : Change V) : Change W where
  operation := c.operation
  resourcePath := c.resourcePath
  udmStaticData := c.udmStaticData.mapVendor f
  udmSliceProfile := c.udmSliceProfile.mapVendor f
  udmRoamingArea := c.udmRoamingArea.mapVendor f
  smsStaticData := c.smsStaticData.mapVendor f

def Resource.mapVendor : Resource V → Resource W
  | .udmStaticData e => .udmStaticData (e.mapVendor f)
  | .provJournal e => .provJournal e
  | .udmSliceProfile e => .udmSliceProfile (e.mapVendor f)
  | .udmRoamingArea e => .udmRoamingArea (e.mapVendor f)
  | .smsStaticData e => .smsStaticData (e.mapVendor f)

def ValidationData.mapVendor (d : ValidationData V) : ValidationData W where
  ret := d.ret
  changes := d.changes.map (·.mapVendor f)
  relatedResources := d.relatedResources.mapVal (·.mapVendor f)

end

/-! ## Readers that do the same -/

section

variable {E E' A A' : Type} {f : E → E'} {g : A → A'}

/-- `r'` reads into `f e` what `r` reads into `e`. -/
def Follows (f : E → E') (r : Reader E) (r' : Reader E') : Prop :=
  ∀ v e, r' v (f e) = f <$> r v e

/-- `element'` gives `g` of what `element` gives. -/
def GivesSame (g : A → A') (element : Json → ParserM (Option A))
    (element' : Json → ParserM (Option A')) : Prop :=
  ∀ v, element' v = Option.map g <$> element v

theorem collect_map {ι : Type} {element : ι → ParserM (Option A)}
    {element' : ι → ParserM (Option A')} (h : ∀ x, element' x = Option.map g <$> element x)
    (xs : List ι) : collect element' xs = List.map g <$> collect element xs := by
  induction xs with
  | nil => simp
  | cons x xs ih =>
    simp only [collect_cons, h x, ih, map_eq_pure_bind, bind_assoc, pure_bind, List.map_append]
    refine bind_congr fun o => bind_congr fun as => ?_
    cases o <;> rfl

namespace Follows

variable {r : Reader E} {r' : Reader E'} {rs : List (Reader E)} {rs' : List (Reader E')}

theorem run (h : Follows f r r') (v : Json) (e : E) : r' v (f e) = f <$> r v e := h v e

theorem nil : Follows f (.inOrder []) (.inOrder []) := by
  intro v e
  rw [Reader.inOrder, Reader.inOrder, map_pure]

theorem cons (h : Follows f r r') (hs : Follows f (.inOrder rs) (.inOrder rs')) :
    Follows f (.inOrder (r :: rs)) (.inOrder (r' :: rs')) := by
  intro v e
  rw [Reader.inOrder, Reader.inOrder, h v e, map_eq_pure_bind, bind_assoc, map_bind]
  refine bind_congr fun e₁ => ?_
  rw [pure_bind, hs v e₁]

theorem mark {set : E → E} {set' : E' → E'} (h : ∀ e, set' (f e) = f (set e)) :
    Follows f (.mark set) (.mark set') := by
  intro v e
  rw [Reader.mark, Reader.mark, map_pure, h]

theorem marking {set : E → E} {set' : E' → E'} (hr : Follows f r r')
    (h : ∀ e, set' (f e) = f (set e)) : Follows f (.marking set r) (.marking set' r') := by
  intro v e
  rw [Reader.marking, Reader.marking, h, hr]

theorem into {s : Reader A} {s' : Reader A'} {get : E → A} {put : A → E → E} {get' : E' → A'}
    {put' : A' → E' → E'} (h : Follows g s s') (hget : ∀ e, get' (f e) = g (get e))
    (hput : ∀ a e, put' (g a) (f e) = f (put a e)) :
    Follows f (.into get put s) (.into get' put' s') := by
  intro v e
  simp only [Reader.into, hget, h v, map_eq_pure_bind, bind_assoc, pure_bind, hput]

/-! ### Members -/

theorem ifMember {key : String} {absent : E → ParserM E} {absent' : E' → ParserM E'}
    (h : Follows f r r') (habsent : ∀ e, absent' (f e) = f <$> absent e) :
    Follows f (.ifMember key r absent) (.ifMember key r' absent') := by
  intro v e
  rw [Reader.ifMember, Reader.ifMember, map_bind]
  refine bind_congr fun o => ?_
  cases o with
  | some w => exact h w e
  | none => exact habsent e

theorem optional {key : String} (h : Follows f r r') :
    Follows f (.ifMember key r Reader.skip) (.ifMember key r' Reader.skip) :=
  ifMember h fun e => (map_pure f e).symm

theorem flagged {key : String} {set : E → E} {set' : E' → E'} (h : Follows f r r')
    (hset : ∀ e, set' (f e) = f (set e)) :
    Follows f (.ifMember key r (Reader.without set)) (.ifMember key r' (Reader.without set')) :=
  ifMember h fun e => by rw [Reader.without, Reader.without, map_pure, hset]

theorem mandatory {key p d : String} (h : Follows f r r') :
    Follows f (.ifMember key r (Reader.mandatory p d)) (.ifMember key r' (Reader.mandatory p d)) :=
  ifMember h fun e => by rw [Reader.mandatory, Reader.mandatory, map_bind]; simp only [map_pure]

/-! ### Values -/

theorem leaf {view : Json → Option A} {p d : String} {put : A → E → E} {put' : A → E' → E'}
    (h : ∀ a e, put' a (f e) = f (put a e)) :
    Follows f (.leaf view p d put) (.leaf view p d put') := by
  intro v e
  rw [Reader.leaf, Reader.leaf]
  cases view v <;> simp [h]

theorem string {p key : String} {put : String → E → E} {put' : String → E' → E'}
    (h : ∀ s e, put' s (f e) = f (put s e)) :
    Follows f (.string p key put) (.string p key put') := leaf h

theorem int {p key : String} {put : Int → E → E} {put' : Int → E' → E'}
    (h : ∀ n e, put' n (f e) = f (put n e)) : Follows f (.int p key put) (.int p key put') := leaf h

theorem bool {p key : String} {put : Bool → E → E} {put' : Bool → E' → E'}
    (h : ∀ b e, put' b (f e) = f (put b e)) :
    Follows f (.bool p key put) (.bool p key put') := leaf h

theorem nonEmptyString {p key field : String} {put : String → E → E} {put' : String → E' → E'}
    (h : ∀ s e, put' s (f e) = f (put s e)) :
    Follows f (.nonEmptyString p key field put) (.nonEmptyString p key field put') := by
  intro v e
  rw [Reader.nonEmptyString, Reader.nonEmptyString]
  cases asString v with
  | none => simp
  | some s =>
    dsimp only
    split_ifs <;> simp [h]

theorem array {p key : String} {element : Json → ParserM (Option A)}
    {element' : Json → ParserM (Option A')} {put : List A → E → E} {put' : List A' → E' → E'}
    (helement : GivesSame g element element') (h : ∀ as e, put' (as.map g) (f e) = f (put as e)) :
    Follows f (.array p key element put) (.array p key element' put') := by
  intro v e
  rw [Reader.array, Reader.array]
  cases asArray v with
  | none => simp
  | some xs => simp only [collect_map helement, map_eq_pure_bind, bind_assoc, pure_bind, h]

theorem strings {p key : String} {put : List String → E → E} {put' : List String → E' → E'}
    (h : ∀ ss e, put' ss (f e) = f (put ss e)) :
    Follows f (.strings p key put) (.strings p key put') := by
  refine array (g := id) (fun v => ?_) fun ss e => ?_
  · simp
  · rw [List.map_id, h]

theorem object {p key : String} (h : Follows f r r') :
    Follows f (.object p key r) (.object p key r') := by
  intro v e
  rw [Reader.object, Reader.object]
  split_ifs
  · exact h v e
  · simp

end Follows

namespace GivesSame

theorem objectElement {p key : String} {element : Json → ParserM (Option A)}
    {element' : Json → ParserM (Option A')} (h : GivesSame g element element') :
    GivesSame g (Reader.objectElement p key element) (Reader.objectElement p key element') := by
  intro v
  rw [Reader.objectElement, Reader.objectElement]
  split_ifs
  · exact h v
  · simp

theorem fresh {start : A} {start' : A'} {r : Reader A} {r' : Reader A'} (h : Follows g r r')
    (hstart : start' = g start) : GivesSame g (Reader.fresh start r) (Reader.fresh start' r') := by
  intro v
  simp only [Reader.fresh, hstart, h v, map_eq_pure_bind, bind_assoc, pure_bind, Option.map_some]

end GivesSame

end

/-! ## Slice data -/

section

variable (f : V → W) (val : Json → V) (p : String)

theorem insertEntry_map {κ α β : Type} [LinearOrder κ] (g : α → β) (k : κ) (a : α)
    (l : List (κ × α)) : OrdMap.insertEntry k (g a) (l.map fun e => (e.1, g e.2)) =
      (OrdMap.insertEntry k a l).map fun e => (e.1, g e.2) := by
  induction l with
  | nil => rfl
  | cons e l ih =>
    rw [List.map_cons, OrdMap.insertEntry, OrdMap.insertEntry, ih]
    split_ifs <;> rfl

theorem add_mapVendor (m : VendorSpecific V) (name : String) (v : V) :
    (m.mapVendor f).add name (f v) = (m.add name v).mapVendor f := by
  rw [VendorSpecific.add, VendorSpecific.add]
  split_ifs
  · exact VendorSpecific.ext_map (OrdMap.entries_injective (insertEntry_map f (cstr name) v _))
  · rfl

theorem follows_getVendorSpecific :
    Follows (·.mapVendor f) (getVendorSpecific val) (getVendorSpecific (f ∘ val)) := by
  intro v m
  rw [getVendorSpecific, getVendorSpecific, map_bind]
  refine bind_congr fun members => ?_
  rw [map_pure]
  refine congrArg pure ?_
  induction members generalizing m with
  | nil => rfl
  | cons itr members ih =>
    rw [List.foldl_cons, List.foldl_cons, ← ih, Function.comp_apply, add_mapVendor]

variable {f val}

/-- A reader that takes the vendor-specific members first. -/
theorem Follows.vendor {E E' : Type} {g : E → E'} {get : E → VendorSpecific V}
    {put : VendorSpecific V → E → E} {get' : E' → VendorSpecific W}
    {put' : VendorSpecific W → E' → E'} {rs : List (Reader E)} {rs' : List (Reader E')}
    (hs : Follows g (.inOrder rs) (.inOrder rs'))
    (hget : ∀ e, get' (g e) = (get e).mapVendor f)
    (hput : ∀ m e, put' (m.mapVendor f) (g e) = g (put m e)) :
    Follows g (.inOrder (.into get put (getVendorSpecific val) :: rs))
      (.inOrder (.into get' put' (getVendorSpecific (f ∘ val)) :: rs')) :=
  .cons (.into (follows_getVendorSpecific f val) hget hput) hs

variable (f val)

theorem follows_getSnssai :
    Follows (·.mapVendor f) (getSnssai val p) (getSnssai (f ∘ val) p) :=
  .vendor (.cons (.mandatory (.int fun _ _ => rfl)) <|
    .cons (.optional (.string fun _ _ => rfl)) .nil) (fun _ => rfl) (fun _ _ => rfl)

theorem givesSame_getNssaiDetails (key : String) :
    GivesSame (·.mapVendor f) (getNssaiDetails val p key) (getNssaiDetails (f ∘ val) p key) := by
  refine .objectElement (.fresh (.vendor ?_ (fun _ => rfl) (fun _ _ => rfl)) rfl)
  exact .cons (.optional (.string fun _ _ => rfl)) <|
    .cons (.optional (.string fun _ _ => rfl)) <| .cons (.mandatory (.object
      (.into (follows_getSnssai f val p) (fun _ => rfl) (fun _ _ => rfl)))) .nil

theorem follows_getSliceInfoNssai :
    Follows (·.mapVendor f) (getSliceInfoNssai val p) (getSliceInfoNssai (f ∘ val) p) := by
  have helement := givesSame_getNssaiDetails f val p
  refine .vendor (.cons (.optional (.array (helement jsonDefaultSingleNssais) ?_)) <|
    .cons (.flagged (.marking (.array (helement jsonSingleNssais) ?_) fun _ => rfl)
      fun _ => rfl) .nil) (fun _ => rfl) (fun _ _ => rfl)
  all_goals
    intro as e
    simp [PlmnIdSets.mapVendor, SliceInfoNssai.mapVendor]

theorem follows_getPduSessionTypes :
    Follows (·.mapVendor f) (getPduSessionTypes val p) (getPduSessionTypes (f ∘ val) p) :=
  .vendor (.cons (.optional (.string fun _ _ => rfl)) <|
    .cons (.flagged (.marking (.strings fun _ _ => rfl) fun _ => rfl) fun _ => rfl) .nil)
    (fun _ => rfl) (fun _ _ => rfl)

theorem follows_getSscModes :
    Follows (·.mapVendor f) (getSscModes val p) (getSscModes (f ∘ val) p) :=
  .vendor (.cons (.optional (.string fun _ _ => rfl)) <|
    .cons (.optional (.strings fun _ _ => rfl)) .nil) (fun _ => rfl) (fun _ _ => rfl)

theorem follows_getUpSecurity :
    Follows (·.mapVendor f) (getUpSecurity val p) (getUpSecurity (f ∘ val) p) :=
  .vendor (.cons (.optional (.string fun _ _ => rfl)) <|
    .cons (.optional (.string fun _ _ => rfl)) .nil) (fun _ => rfl) (fun _ _ => rfl)

theorem follows_getSessionAmbr :
    Follows (·.mapVendor f) (getSessionAmbr val p) (getSessionAmbr (f ∘ val) p) :=
  .vendor (.cons (.mandatory (.string fun _ _ => rfl)) <|
    .cons (.mandatory (.string fun _ _ => rfl)) .nil) (fun _ => rfl) (fun _ _ => rfl)

theorem follows_getArp : Follows (·.mapVendor f) (getArp val p) (getArp (f ∘ val) p) :=
  .vendor (.cons (.mandatory (.int fun _ _ => rfl)) <|
    .cons (.mandatory (.string fun _ _ => rfl)) <|
    .cons (.mandatory (.string fun _ _ => rfl)) .nil) (fun _ => rfl) (fun _ _ => rfl)

theorem follows_getFivegQosProfile :
    Follows (·.mapVendor f) (getFivegQosProfile val p) (getFivegQosProfile (f ∘ val) p) := by
  refine .vendor (.cons (.mandatory (.int fun _ _ => rfl)) <|
    .cons (.mandatory (.object ?_)) <|
    .cons (.flagged (.marking (.int fun _ _ => rfl) fun _ => rfl) fun _ => rfl) .nil)
    (fun _ => rfl) (fun _ _ => rfl)
  exact .into (follows_getArp f val p) (fun _ => rfl) (fun _ _ => rfl)

theorem follows_getDnnDataFlag {key : String} {setFlag put : Bool → DnnData V → DnnData V}
    {setFlag' put' : Bool → DnnData W → DnnData W}
    (hset : ∀ b e, setFlag' b (e.mapVendor f) = (setFlag b e).mapVendor f)
    (hput : ∀ b e, put' b (e.mapVendor f) = (put b e).mapVendor f) :
    Follows (·.mapVendor f) (getDnnDataFlag p key setFlag put)
      (getDnnDataFlag p key setFlag' put') :=
  .flagged (.marking (.bool hput) (hset true)) (hset false)

theorem follows_getDnnData :
    Follows (·.mapVendor f) (getDnnData val p) (getDnnData (f ∘ val) p) := by
  refine .vendor (.cons (.optional (.string fun _ _ => rfl)) <|
    .cons (follows_getDnnDataFlag f p (fun _ _ => rfl) fun _ _ => rfl) <|
    .cons (follows_getDnnDataFlag f p (fun _ _ => rfl) fun _ _ => rfl) <|
    .cons (follows_getDnnDataFlag f p (fun _ _ => rfl) fun _ _ => rfl) <|
    .cons (follows_getDnnDataFlag f p (fun _ _ => rfl) fun _ _ => rfl) <|
    .cons (.flagged (.marking (.object ?_) fun _ => rfl) fun _ => rfl) <|
    .cons (.flagged (.marking (.object ?_) fun _ => rfl) fun _ => rfl) <|
    .cons (.optional (.string fun _ _ => rfl)) <|
    .cons (.flagged (.marking (.object ?_) fun _ => rfl) fun _ => rfl) <|
    .cons (.flagged (.marking (.object ?_) fun _ => rfl) fun _ => rfl) <|
    .cons (.flagged (.marking (.strings fun _ _ => rfl) fun _ => rfl) fun _ => rfl) <|
    .cons (follows_getDnnDataFlag f p (fun _ _ => rfl) fun _ _ => rfl) <|
    .cons (.flagged (.marking (.object ?_) fun _ => rfl) fun _ => rfl) .nil)
    (fun _ => rfl) (fun _ _ => rfl)
  · exact follows_getPduSessionTypes f val p
  · exact .into (follows_getSscModes f val p) (fun _ => rfl) (fun _ _ => rfl)
  · exact .into (follows_getUpSecurity f val p) (fun _ => rfl) (fun _ _ => rfl)
  · exact .into (follows_getSessionAmbr f val p) (fun _ => rfl) (fun _ _ => rfl)
  · exact .into (follows_getFivegQosProfile f val p) (fun _ => rfl) (fun _ _ => rfl)

theorem follows_getDnnList :
    Follows (·.mapVendor f) (getDnnList val p) (getDnnList (f ∘ val) p) := by
  refine .vendor (.cons (.mandatory (.string fun _ _ => rfl)) <| .cons (.optional (.array
    (.objectElement (.fresh (follows_getDnnData f val p) rfl)) fun as e => ?_)) .nil)
    (fun _ => rfl) (fun _ _ => rfl)
  simp [DnnList.mapVendor]

theorem follows_checkAnyNssai :
    Follows (·.mapVendor f) (checkAnyNssai (V := V) p) (checkAnyNssai (V := W) p) := by
  intro v e
  have hlength : (e.mapVendor f).nssai.defaultSingleNssais.length =
      e.nssai.defaultSingleNssais.length := List.length_map _
  have hflag : (e.mapVendor f).fieldExistenceUdmSliceProfile = e.fieldExistenceUdmSliceProfile :=
    rfl
  simp only [checkAnyNssai, hlength, hflag]
  split_ifs <;> simp

theorem follows_getPlmnIdSet (isSliceData : Bool) : Follows (·.mapVendor f)
    (getPlmnIdSet val p isSliceData) (getPlmnIdSet (f ∘ val) p isSliceData) := by
  refine .vendor (.cons (.mandatory (.string fun _ _ => rfl)) <| .cons (.mark fun _ => rfl) <|
    .cons (.optional (.marking (.object (follows_getSliceInfoNssai f val p)) fun _ => rfl)) <|
    .cons (follows_checkAnyNssai f p) <| .cons (.ifMember (.array (.objectElement
      (.fresh (follows_getDnnList f val p) rfl)) ?_) ?_) .nil) (fun _ => rfl) (fun _ _ => rfl)
  · intro as e
    simp [PlmnIdSets.mapVendor]
  · intro e
    cases isSliceData <;> simp [Reader.skip, Reader.mandatory]

theorem getPlmnIdSets_map (isSliceData : Bool) (xs : List Json) :
    getPlmnIdSets (f ∘ val) p isSliceData xs =
      List.map (·.mapVendor f) <$> getPlmnIdSets val p isSliceData xs := by
  have helement : GivesSame (·.mapVendor f) (Reader.fresh {} (getPlmnIdSet val p isSliceData))
      (Reader.fresh {} (getPlmnIdSet (f ∘ val) p isSliceData)) :=
    .fresh (follows_getPlmnIdSet f val p isSliceData) rfl
  exact collect_map helement xs

theorem follows_getUdmSliceProfile :
    Follows (·.mapVendor f) (getUdmSliceProfile val p) (getUdmSliceProfile (f ∘ val) p) := by
  refine .vendor (.cons (.optional (.string fun _ _ => rfl)) <| .cons (.optional ?_) .nil)
    (fun _ => rfl) (fun _ _ => rfl)
  intro v e
  dsimp only
  cases asArray v with
  | none => simp
  | some xs =>
    simp only [getPlmnIdSets_map, map_eq_pure_bind, bind_assoc, pure_bind]
    rfl

/-! ## Static data -/

theorem follows_getSubscribedUeAmbr :
    Follows (·.mapVendor f) (getSubscribedUeAmbr val p) (getSubscribedUeAmbr (f ∘ val) p) :=
  .vendor (.cons (.mandatory (.nonEmptyString fun _ _ => rfl)) <|
    .cons (.mandatory (.nonEmptyString fun _ _ => rfl)) .nil) (fun _ => rfl) (fun _ _ => rfl)

theorem givesSame_getUdmRoamingAreaReference (parent : String) : GivesSame (·.mapVendor f)
    (getUdmRoamingAreaReference val p parent) (getUdmRoamingAreaReference (f ∘ val) p parent) := by
  intro v
  have hvendor : getVendorSpecific (f ∘ val) v ∅ =
      (·.mapVendor f) <$> getVendorSpecific val v ∅ := follows_getVendorSpecific f val v ∅
  rw [getUdmRoamingAreaReference, getUdmRoamingAreaReference, hvendor, map_eq_pure_bind,
    bind_assoc, map_bind]
  refine bind_congr fun m => ?_
  rw [pure_bind, map_bind]
  refine bind_congr fun o => ?_
  cases o with
  | none => simp
  | some w =>
    dsimp only
    cases asString w with
    | none => simp
    | some id =>
      simp only [map_pure]
      rfl

theorem follows_getServiceAreaRestriction : Follows (·.mapVendor f)
    (getServiceAreaRestriction val p) (getServiceAreaRestriction (f ∘ val) p) := by
  refine .vendor (.cons (.optional (.string fun _ _ => rfl)) <|
    .cons (.optional (.array (.objectElement (givesSame_getUdmRoamingAreaReference f val p
      jsonAreas)) fun as e => ?_)) <|
    .cons (.flagged (.int fun _ _ => rfl) fun _ => rfl) <| .cons (.mark fun _ => rfl) .nil)
    (fun _ => rfl) (fun _ _ => rfl)
  simp [UdmStaticData.mapVendor, ServiceAreaRestriction.mapVendor]

theorem follows_getUdmSliceProfileId :
    Follows (·.mapVendor f) (getUdmSliceProfileId val p) (getUdmSliceProfileId (f ∘ val) p) :=
  .vendor (.cons (.mandatory (.nonEmptyString fun _ _ => rfl)) .nil)
    (fun _ => rfl) (fun _ _ => rfl)

/-! ### Static addresses -/

theorem givesSame_getIp (key : String) (ipType : IpAddrType) (m : VendorSpecific V) :
    GivesSame (·.mapVendor f) (getIp p key ipType m) (getIp p key ipType (m.mapVendor f)) := by
  intro w
  rw [getIp, getIp]
  cases asString w with
  | none => simp
  | some ip =>
    simp only [map_pure]
    rfl

theorem givesSame_getIpAddr :
    GivesSame (·.mapVendor f) (getIpAddr val p) (getIpAddr (f ∘ val) p) := by
  intro z
  have hvendor : getVendorSpecific (f ∘ val) z ∅ =
      (·.mapVendor f) <$> getVendorSpecific val z ∅ := follows_getVendorSpecific f val z ∅
  rw [getIpAddr, getIpAddr, hvendor, map_eq_pure_bind, bind_assoc, map_bind]
  refine bind_congr fun m => ?_
  rw [pure_bind]
  simp only [Reader.firstMember, map_bind]
  -- one alternative after the other, up to the first that is there
  refine bind_congr fun o => ?_
  cases o with
  | some w => exact givesSame_getIp f p jsonIpv4Addr .ipv4 m w
  | none =>
    simp only [map_bind]
    refine bind_congr fun o => ?_
    cases o with
    | some w => exact givesSame_getIp f p jsonIpv6Addr .ipv6 m w
    | none =>
      simp only [map_bind]
      refine bind_congr fun o => ?_
      cases o with
      | some w => exact givesSame_getIp f p jsonIpv6Prefix .ipv6Prefix m w
      | none => simp

theorem getDnnIps_map (dnn : String) (w : Json) :
    getDnnIps (f ∘ val) p dnn w = (·.mapVendor f) <$> getDnnIps val p dnn w := by
  have hlist : ∀ (as : List (IpAddr V)) (e : DnnIps V),
      { e.mapVendor f with
        ipAddress := (e.mapVendor f).ipAddress ++ as.map (·.mapVendor f) } =
        ({ e with ipAddress := e.ipAddress ++ as } : DnnIps V).mapVendor f := by
    intro as e
    simp [DnnIps.mapVendor]
  rw [getDnnIps, getDnnIps]
  exact Follows.run (f := DnnIps.mapVendor f) (.cons (.optional (.string fun _ _ => rfl)) <|
    .cons (.optional (.array (givesSame_getIpAddr f val p) hlist)) <|
    .cons (.into (follows_getVendorSpecific f val) (fun _ => rfl) fun _ _ => rfl) .nil) w { dnn }

theorem getDnnIpList_map (ws : List Json) (dnn : String) (ddnlist : List (DnnIps V)) :
    getDnnIpList (f ∘ val) p dnn (ddnlist.map (·.mapVendor f)) ws =
      List.map (·.mapVendor f) <$> getDnnIpList val p dnn ddnlist ws := by
  induction ws generalizing dnn ddnlist with
  | nil => simp [getDnnIpList]
  | cons w ws ih =>
    rw [getDnnIpList, getDnnIpList]
    split_ifs
    · simp only [getDnnIps_map, map_eq_pure_bind, bind_assoc, pure_bind]
      refine bind_congr fun dnnIps => ?_
      rw [← map_eq_pure_bind, ← ih, List.map_append]
      rfl
    · rw [map_bind]
      exact bind_congr fun _ => ih dnn ddnlist

theorem follows_getDnnIpLists :
    Follows (List.map (·.mapVendor f)) (getDnnIpLists val p) (getDnnIpLists (f ∘ val) p) := by
  intro v ddnlist
  rw [getDnnIpLists, getDnnIpLists]
  cases asArray v with
  | some ws => exact getDnnIpList_map f val p ws "" ddnlist
  | none => simp

theorem getNssaiDnnIpsMember_map (e : NssaiDnnIps V) (itr : String × Json) :
    getNssaiDnnIpsMember (f ∘ val) p (e.mapVendor f) itr =
      (·.mapVendor f) <$> getNssaiDnnIpsMember val p e itr := by
  rw [getNssaiDnnIpsMember, getNssaiDnnIpsMember]
  split_ifs
  · exact Follows.run (f := NssaiDnnIps.mapVendor f)
      (.into (.object (follows_getSnssai f val p)) (fun _ => rfl) fun _ _ => rfl) itr.2 e
  · exact Follows.run (f := NssaiDnnIps.mapVendor f)
      (.into (follows_getDnnIpLists f val p) (fun _ => rfl) fun _ _ => rfl) itr.2 e
  · rw [map_pure]

theorem foldlM_map {E E' A : Type} {g : E → E'} {step : E → A → ParserM E}
    {step' : E' → A → ParserM E'} (h : ∀ e a, step' (g e) a = g <$> step e a) (as : List A)
    (e : E) : as.foldlM step' (g e) = g <$> as.foldlM step e := by
  induction as generalizing e with
  | nil => rw [List.foldlM_nil, List.foldlM_nil, map_pure]
  | cons a as ih =>
    rw [List.foldlM_cons, List.foldlM_cons, h, map_eq_pure_bind, bind_assoc, map_bind]
    refine bind_congr fun e₁ => ?_
    rw [pure_bind, ih]

theorem givesSame_getNssaiDnnIps :
    GivesSame (·.mapVendor f) (getNssaiDnnIps val p) (getNssaiDnnIps (f ∘ val) p) := by
  intro v
  have hvendor : getVendorSpecific (f ∘ val) v ∅ =
      (·.mapVendor f) <$> getVendorSpecific val v ∅ := follows_getVendorSpecific f val v ∅
  rw [getNssaiDnnIps, getNssaiDnnIps, hvendor, map_eq_pure_bind, bind_assoc, map_bind]
  refine bind_congr fun m => ?_
  rw [pure_bind, map_bind]
  refine bind_congr fun members => ?_
  have hmembers : members.foldlM (getNssaiDnnIpsMember (f ∘ val) p)
      { vendorSpecific := m.mapVendor f } = NssaiDnnIps.mapVendor f <$>
        members.foldlM (getNssaiDnnIpsMember val p) { vendorSpecific := m } :=
    foldlM_map (getNssaiDnnIpsMember_map f val p) members { vendorSpecific := m }
  simp only [hmembers, map_eq_pure_bind, bind_assoc, pure_bind, Option.map_some]

theorem follows_getStaticIpAddress :
    Follows (·.mapVendor f) (getStaticIpAddress val p) (getStaticIpAddress (f ∘ val) p) := by
  refine .vendor (.cons (fun v e => ?_) .nil) (fun _ => rfl) (fun _ _ => rfl)
  rw [map_bind]
  refine bind_congr fun w => ?_
  refine Follows.run (f := StaticIpAddress.mapVendor f)
    (.array (givesSame_getNssaiDnnIps f val p) fun as e => ?_) w e
  simp [StaticIpAddress.mapVendor]

theorem follows_getUdmSliceData :
    Follows (·.mapVendor f) (getUdmSliceData val p) (getUdmSliceData (f ∘ val) p) := by
  refine .vendor (.cons (.optional fun v e => ?_) .nil) (fun _ => rfl) (fun _ _ => rfl)
  cases asArray v with
  | none => simp
  | some xs =>
    simp only [getPlmnIdSets_map, map_eq_pure_bind, bind_assoc, pure_bind]
    rfl

theorem follows_getStaticBool {key : String}
    {setFlag put : Bool → UdmStaticData V → UdmStaticData V}
    {setFlag' put' : Bool → UdmStaticData W → UdmStaticData W}
    (hset : ∀ b e, setFlag' b (e.mapVendor f) = (setFlag b e).mapVendor f)
    (hput : ∀ b e, put' b (e.mapVendor f) = (put b e).mapVendor f) :
    Follows (·.mapVendor f) (getStaticBool p key setFlag put)
      (getStaticBool p key setFlag' put') :=
  .flagged (.bool fun b e => by rw [hput, hset]) (hset false)

theorem follows_getStaticInt {key : String} {setFlag : Bool → UdmStaticData V → UdmStaticData V}
    {put : Int → UdmStaticData V → UdmStaticData V}
    {setFlag' : Bool → UdmStaticData W → UdmStaticData W}
    {put' : Int → UdmStaticData W → UdmStaticData W}
    (hset : ∀ b e, setFlag' b (e.mapVendor f) = (setFlag b e).mapVendor f)
    (hput : ∀ n e, put' n (e.mapVendor f) = (put n e).mapVendor f) :
    Follows (·.mapVendor f) (getStaticInt p key setFlag put)
      (getStaticInt p key setFlag' put') :=
  .flagged (.int fun n e => by rw [hput, hset]) (hset false)

theorem follows_getUdmStaticData :
    Follows (·.mapVendor f) (getUdmStaticData val p) (getUdmStaticData (f ∘ val) p) := by
  refine .vendor (.cons (.flagged (.marking (.object ?_) fun _ => rfl) fun _ => rfl) <|
    .cons (.optional (.strings fun _ _ => rfl)) <|
    .cons (.optional (.array (givesSame_getUdmRoamingAreaReference f val p jsonForbiddenAreas)
      fun as e => ?_)) <|
    .cons (.flagged (.object (follows_getServiceAreaRestriction f val p)) fun _ => rfl) <|
    .cons (.optional (.strings fun _ _ => rfl)) <|
    .cons (follows_getStaticBool f p (fun _ _ => rfl) fun _ _ => rfl) <|
    .cons (follows_getStaticBool f p (fun _ _ => rfl) fun _ _ => rfl) <|
    .cons (follows_getStaticInt f p (fun _ _ => rfl) fun _ _ => rfl) <|
    .cons (follows_getStaticBool f p (fun _ _ => rfl) fun _ _ => rfl) <|
    .cons (.mandatory (.object ?_)) <|
    .cons (.flagged (.marking ?_ fun _ => rfl) fun _ => rfl) <|
    .cons (.optional (.nonEmptyString fun _ _ => rfl)) <|
    .cons (follows_getStaticInt f p (fun _ _ => rfl) fun _ _ => rfl) <|
    .cons (follows_getStaticInt f p (fun _ _ => rfl) fun _ _ => rfl) <|
    .cons (follows_getStaticInt f p (fun _ _ => rfl) fun _ _ => rfl) <|
    .cons (.flagged (.marking ?_ fun _ => rfl) fun _ => rfl) .nil)
    (fun _ => rfl) (fun _ _ => rfl)
  · exact .into (follows_getSubscribedUeAmbr f val p) (fun _ => rfl) (fun _ _ => rfl)
  · simp [UdmStaticData.mapVendor]
  · exact .into (follows_getUdmSliceProfileId f val p) (fun _ => rfl) (fun _ _ => rfl)
  · exact .into (follows_getStaticIpAddress f val p) (fun _ => rfl) (fun _ _ => rfl)
  · exact .into (follows_getUdmSliceData f val p) (fun _ => rfl) (fun _ _ => rfl)

/-! ## Roaming areas -/

theorem follows_getAreaList :
    Follows (·.mapVendor f) (getAreaList val p) (getAreaList (f ∘ val) p) := by
  refine .vendor (.cons (fun v e => ?_) .nil) (fun _ => rfl) (fun _ _ => rfl)
  simp only [Reader.firstMember, map_bind]
  refine bind_congr fun o => ?_
  cases o with
  | some w => exact Follows.run (f := AreaList.mapVendor f) (.string fun _ _ => rfl) w e
  | none =>
    simp only [map_bind]
    refine bind_congr fun o => ?_
    cases o with
    | some w => exact Follows.run (f := AreaList.mapVendor f) (.strings fun _ _ => rfl) w e
    | none => simp [Reader.mandatory]

theorem follows_getUdmRoamingAreas :
    Follows (·.mapVendor f) (getUdmRoamingAreas val p) (getUdmRoamingAreas (f ∘ val) p) :=
  .vendor (.cons (.optional (.string fun _ _ => rfl)) <| .cons (.optional (.array
    (.objectElement (.fresh (follows_getAreaList f val p) rfl)) fun _ _ => rfl)) .nil)
    (fun _ => rfl) (fun _ _ => rfl)

/-! ## SMS subscriptions -/

theorem follows_setOptionalBooleanField {key : String}
    {setFlag put : Bool → SmsStaticData V → SmsStaticData V}
    {setFlag' put' : Bool → SmsStaticData W → SmsStaticData W}
    (hset : ∀ b e, setFlag' b (e.mapVendor f) = (setFlag b e).mapVendor f)
    (hput : ∀ b e, put' b (e.mapVendor f) = (put b e).mapVendor f) :
    Follows (·.mapVendor f) (setOptionalBooleanField p key setFlag put)
      (setOptionalBooleanField p key setFlag' put') := by
  refine .flagged (fun v e => ?_) (hset false)
  cases asBool v with
  | some b => simp only [hput, hset, map_pure]
  | none => simp [hset]

theorem follows_getSmsSubscriptionDataObject : Follows (·.mapVendor f)
    (getSmsSubscriptionDataObject val p) (getSmsSubscriptionDataObject (f ∘ val) p) :=
  .cons (follows_setOptionalBooleanField f p (fun _ _ => rfl) fun _ _ => rfl) <|
    .vendor .nil (fun _ => rfl) (fun _ _ => rfl)

theorem follows_getSmsManagementSubscriptionDataObject : Follows (·.mapVendor f)
    (getSmsManagementSubscriptionDataObject val p)
    (getSmsManagementSubscriptionDataObject (f ∘ val) p) :=
  .cons (follows_setOptionalBooleanField f p (fun _ _ => rfl) fun _ _ => rfl) <|
    .cons (follows_setOptionalBooleanField f p (fun _ _ => rfl) fun _ _ => rfl) <|
    .cons (follows_setOptionalBooleanField f p (fun _ _ => rfl) fun _ _ => rfl) <|
    .cons (follows_setOptionalBooleanField f p (fun _ _ => rfl) fun _ _ => rfl) <|
    .cons (follows_setOptionalBooleanField f p (fun _ _ => rfl) fun _ _ => rfl) <|
    .cons (follows_setOptionalBooleanField f p (fun _ _ => rfl) fun _ _ => rfl) <|
    .vendor .nil (fun _ => rfl) (fun _ _ => rfl)

theorem follows_getSmsObject {key : String} {setFlag : Bool → SmsStaticData V → SmsStaticData V}
    {setFlag' : Bool → SmsStaticData W → SmsStaticData W} {r : Reader (SmsStaticData V)}
    {r' : Reader (SmsStaticData W)} (h : Follows (·.mapVendor f) r r')
    (hset : ∀ b e, setFlag' b (e.mapVendor f) = (setFlag b e).mapVendor f) :
    Follows (·.mapVendor f) (getSmsObject p key setFlag r) (getSmsObject p key setFlag' r') := by
  refine .flagged (fun v e => ?_) (hset false)
  split_ifs
  · simp only [h v e, map_eq_pure_bind, bind_assoc, pure_bind, hset]
  · simp [hset]

theorem follows_getOptionalSmsStaticData : Follows (·.mapVendor f)
    (getOptionalSmsStaticData val p) (getOptionalSmsStaticData (f ∘ val) p) := by
  refine .vendor (.cons (follows_getSmsObject f p ?_ fun _ _ => rfl) <|
    .cons (follows_getSmsObject f p ?_ fun _ _ => rfl) .nil) (fun _ => rfl) (fun _ _ => rfl)
  · exact follows_getSmsSubscriptionDataObject f val p
  · exact follows_getSmsManagementSubscriptionDataObject f val p

/-! ## The whole request -/

/-- `f` of the values that an entity of the kind keeps. -/
def ResourceKind.mapVendor : (k : ResourceKind) → k.Entity V → k.Entity W
  | udmStaticData, e => UdmStaticData.mapVendor f e
  | udmSliceProfile, e => UdmSliceProfile.mapVendor f e
  | udmRoamingArea, e => UdmRoamingArea.mapVendor f e
  | smsStaticData, e => SmsStaticData.mapVendor f e

theorem follows_reader (k : ResourceKind) :
    Follows (k.mapVendor f) (k.reader val p) (k.reader (f ∘ val) p) := by
  cases k with
  | udmStaticData => exact follows_getUdmStaticData f val p
  | udmSliceProfile => exact follows_getUdmSliceProfile f val p
  | udmRoamingArea => exact follows_getUdmRoamingAreas f val p
  | smsStaticData => exact follows_getOptionalSmsStaticData f val p

theorem getRelatedMember_map (it : String × Json) : getRelatedMember (f ∘ val) it =
    Option.map (Prod.map id (·.mapVendor f)) <$> getRelatedMember val it := by
  have hresource : getRelatedResource (f ∘ val) (cstr it.1) it.2 =
      Option.map (·.mapVendor f) <$> getRelatedResource val (cstr it.1) it.2 := by
    rw [getRelatedResource_eq, getRelatedResource_eq]
    cases classify (cstr it.1) with
    | resource k =>
      have hread := follows_reader f val (cstr it.1) k it.2 (k.blank V)
      have hblank : k.mapVendor f (k.blank V) = k.blank W := by cases k <;> rfl
      rw [hblank] at hread
      simp only [hread, map_eq_pure_bind, bind_assoc, pure_bind]
      refine bind_congr fun e => ?_
      cases k <;> rfl
    | journal =>
      simp only [map_eq_pure_bind, bind_assoc, pure_bind]
      rfl
    | passedOver => rw [map_pure, Option.map_none]
  simp only [getRelatedMember, hresource, map_eq_pure_bind, bind_assoc, pure_bind]
  refine bind_congr fun o => ?_
  cases o <;> rfl

theorem emplaceAll_map {κ α β : Type} [LinearOrder κ] (g : α → β) (es : List (κ × α))
    (m : OrdMap κ α) : (m.mapVal g).emplaceAll (es.map (Prod.map id g)) =
      (m.emplaceAll es).mapVal g := by
  induction es generalizing m with
  | nil => rfl
  | cons e es ih =>
    have hemplace : (m.mapVal g).emplace e.1 (g e.2) = (m.emplace e.1 e.2).mapVal g :=
      OrdMap.entries_injective (insertEntry_map g e.1 e.2 m.entries)
    rw [List.map_cons, OrdMap.emplaceAll_cons, OrdMap.emplaceAll_cons, ← ih, ← hemplace]
    rfl

theorem getRelatedResources_map (doc : Json) : getRelatedResources (f ∘ val) doc =
    (·.mapVal (·.mapVendor f)) <$> getRelatedResources val doc := by
  rw [getRelatedResources, getRelatedResources, map_bind]
  refine bind_congr fun o => ?_
  cases o with
  | none => rfl
  | some resourcesList =>
    rw [map_bind]
    refine bind_congr fun members => ?_
    simp only [collect_map (getRelatedMember_map f val), map_eq_pure_bind, bind_assoc, pure_bind]
    exact bind_congr fun rs => congrArg pure (emplaceAll_map (Resource.mapVendor f) rs ∅)

theorem getChangeData_map (d : Json) (c : Change V) :
    getChangeData (f ∘ val) d (c.mapVendor f) = (·.mapVendor f) <$> getChangeData val d c := by
  rw [ResourceKind.getChangeData_eq_foldlM, ResourceKind.getChangeData_eq_foldlM]
  refine foldlM_map (fun c k => ?_) ResourceKind.inParserOrder c
  have hpath : (c.mapVendor f).resourcePath = c.resourcePath := rfl
  rw [ResourceKind.readIfNamed, ResourceKind.readIfNamed, hpath]
  split_ifs
  · have hentity : k.entity (c.mapVendor f) = k.mapVendor f (k.entity c) := by cases k <;> rfl
    have hread := follows_reader f val c.resourcePath k d (k.entity c)
    simp only [ResourceKind.readInto, hpath, hentity, hread, map_eq_pure_bind, bind_assoc,
      pure_bind]
    refine bind_congr fun e => ?_
    cases k <;> rfl
  · rw [map_pure]

theorem getChange_map (members : List (String × Json)) (c : Change V) :
    getChange (f ∘ val) (c.mapVendor f) members =
      Option.map (·.mapVendor f) <$> getChange val c members := by
  induction members generalizing c with
  | nil => rw [getChange, getChange, map_pure, Option.map_some]
  | cons m members ih =>
    obtain ⟨name, value⟩ := m
    rw [getChange, getChange]
    split_ifs
    · rw [map_bind]
      refine bind_congr fun o => ?_
      cases o with
      | some operation => exact ih { c with operation }
      | none => rw [map_pure, Option.map_none]
    · rw [map_bind]
      refine bind_congr fun o => ?_
      cases o with
      | some resourcePath => exact ih { c with resourcePath }
      | none => rw [map_pure, Option.map_none]
    · simp only [getChangeData_map, map_eq_pure_bind, bind_assoc, pure_bind]
      refine bind_congr fun c₁ => ?_
      rw [ih c₁, map_eq_pure_bind]
    · simp
    · exact ih c

theorem getChanges_map (xs : List Json) : getChanges (f ∘ val) xs =
    Prod.map id (List.map (·.mapVendor f)) <$> getChanges val xs := by
  induction xs with
  | nil => rfl
  | cons x xs ih =>
    cases x with
    | obj members =>
      have hchange : getChange (f ∘ val) {} members =
          Option.map (·.mapVendor f) <$> getChange val {} members :=
        getChange_map f val members {}
      simp only [getChanges, hchange, ih, map_eq_pure_bind, bind_assoc, pure_bind]
      refine bind_congr fun o => ?_
      cases o with
      | none => rfl
      | some c => simp
    | _ => rfl

/-- **The parser never looks into a vendor-specific value**: with `f` of these values it reads what
it reads without, and records the same. -/
theorem getValidationData_map (doc : Json) : getValidationData (f ∘ val) doc =
    (·.mapVendor f) <$> getValidationData val doc := by
  have hchanges : getChangesToValidate (f ∘ val) doc =
      Prod.map id (List.map (·.mapVendor f)) <$> getChangesToValidate val doc := by
    rw [getChangesToValidate, getChangesToValidate, map_bind]
    refine bind_congr fun o => ?_
    cases o with
    | none => rfl
    | some changesList =>
      dsimp only
      cases asArray changesList with
      | none => rfl
      | some changes => exact getChanges_map f val changes
  simp only [getValidationData, hchanges, getRelatedResources_map, map_eq_pure_bind, bind_assoc,
    pure_bind]
  refine bind_congr fun r => ?_
  obtain ⟨ok, changes⟩ := r
  dsimp only [Prod.map_apply, id_eq]
  split_ifs
  · simp only [bind_assoc, pure_bind]
    rfl
  · rfl

end

end ProvisioningValidator
