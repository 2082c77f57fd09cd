import Mathlib
import ProvisioningValidator.SliceRoundTrip

/-!
# Static data and roaming areas, written and read again

The same as for slice data. Two parts of static data take more than the steps of an object: an
element of `nssaiDnnIpLists` is read by a loop over its members, and the elements of `dnnIpList` are
read in order, each one taking over the `dnn` of the one before it if it has none of its own. So an
element whose `dnn` is empty is stored only behind elements that have none either (`HandedOn`).
-/

namespace ProvisioningValidator

open Lib Lib.Run

variable {V : Type}

/-! ## What can be stored -/

structure UdmRoamingAreaReference.Storable (e : UdmRoamingAreaReference V) : Prop where
  id : MandatoryText e.id

structure UdmSliceProfileId.Storable (e : UdmSliceProfileId V) : Prop where
  id : MandatoryText e.id

structure ServiceAreaRestriction.Storable (hasMaxNumOfTas : Bool) (e : ServiceAreaRestriction V) :
    Prop where
  restrictionType : NulFree e.restrictionType
  areas : ∀ a ∈ e.areas, a.Storable
  maxNumOfTas : StoredInt hasMaxNumOfTas e.maxNumOfTas

structure IpAddr.Storable (e : IpAddr V) : Prop where
  ip : MandatoryText e.ip

structure DnnIps.Storable (e : DnnIps V) : Prop where
  dnn : NulFree e.dnn
  ipAddress : ∀ a ∈ e.ipAddress, a.Storable

/-- No element without a `dnn` stands behind one that has left `dnn`. -/
def HandedOn : String → List (DnnIps V) → Prop
  | _, [] => True
  | dnn, e :: es => (e.dnn = "" → dnn = "") ∧ HandedOn e.dnn es

structure NssaiDnnIps.Storable (e : NssaiDnnIps V) : Prop where
  snssai : e.snssai.Storable
  dnnIpList : ∀ d ∈ e.dnnIpList, d.Storable
  handedOn : HandedOn "" e.dnnIpList

/-- There is no member `nssaiDnnIpLists` where there are no elements, and the reader takes it for
granted. -/
structure StaticIpAddress.Storable (e : StaticIpAddress V) : Prop where
  nssaiDnnIpLists : ∀ l ∈ e.nssaiDnnIpLists, l.Storable
  some_list : e.nssaiDnnIpLists ≠ []

structure UdmSliceData.Storable (e : UdmSliceData V) : Prop where
  plmnIdSets : ∀ s ∈ e.plmnIdSets, s.Storable true
  vendorSpecific : e.vendorSpecific = ∅

structure UdmStaticData.Storable (e : UdmStaticData V) : Prop where
  subscribedUeAmbr : Flagged e.fieldExistence.hasSubscribedUeAmbr Ambr.Storable {}
    e.subscribedUeAmbr
  ratRestrictions : ∀ s ∈ e.ratRestrictions, NulFree s
  forbiddenAreas : ∀ a ∈ e.forbiddenAreas, a.Storable
  serviceAreaRestriction : Flagged e.fieldExistence.hasServiceAreaRestriction
    (ServiceAreaRestriction.Storable e.fieldExistence.hasMaxNumOfTas) {} e.serviceAreaRestriction
  hasMaxNumOfTas : e.fieldExistence.hasMaxNumOfTas = e.serviceAreaRestriction.maxNumOfTas.isSome
  coreNetworkTypeRestrictions : ∀ s ∈ e.coreNetworkTypeRestrictions, NulFree s
  mpsPriority : e.mpsPriority.isSome = e.fieldExistence.hasMpsPriority
  mcsPriority : e.mcsPriority.isSome = e.fieldExistence.hasMcsPriority
  dlPacketCount : StoredInt e.fieldExistence.hasDlPacketCount e.dlPacketCount
  micoAllowed : e.micoAllowed.isSome = e.fieldExistence.hasMicoAllowed
  udmSliceProfileId : e.udmSliceProfileId.Storable
  staticIpAddress : Flagged e.fieldExistence.hasStaticIpAddress StaticIpAddress.Storable {}
    e.staticIpAddress
  roamingOdb : NulFree e.roamingOdb
  ueUsageType : StoredInt e.fieldExistence.hasUeUsageType e.ueUsageType
  rfspIndex : StoredInt e.fieldExistence.hasRfspIndex e.rfspIndex
  subsRegTimer : StoredInt e.fieldExistence.hasSubsRegTimer e.subsRegTimer
  udmSliceData : Flagged e.fieldExistence.hasUdmSliceData UdmSliceData.Storable {} e.udmSliceData

variable (ind : Indeterminate) {p : String}

/-! ## Small objects -/

theorem written_udmRoamingAreaReference (e : UdmRoamingAreaReference Json) :
    ∃ os, udmRoamingAreaReferenceToJson e = .obj os ∧ Holds os e.vendorSpecific [
      (jsonId, given (e.id != "") (.str (cstr e.id)))] := by
  refine holds_written [_] _ [] [jsonId] ?_ rfl (by decide) (by decide)
  simp only [udmRoamingAreaReferenceToJson, writtenObject, strToJson_eq, Json.present_nil,
    List.append_nil]

theorem getUdmRoamingAreaReference_written {e : UdmRoamingAreaReference Json} (h : e.Storable)
    (parent : String) : getUdmRoamingAreaReference id p parent (udmRoamingAreaReferenceToJson e) =
      pure (some e) := by
  obtain ⟨os, hv, hos⟩ := written_udmRoamingAreaReference e
  have hid : os.lookup jsonId = given (e.id != "") (.str (cstr e.id)) := hos.found
  have hne : (e.id != "") = true := by simpa using h.id.2
  rw [hne, given_true, cstr_eq_self.2 h.id.1] at hid
  have hmember : Run.lift ((Json.obj os).findMember jsonId) = (pure (some (.str e.id)) :
      ParserM (Option Json)) := congrArg (fun o => Run.lift (some o)) hid
  rw [hv, getUdmRoamingAreaReference, getVendorSpecific_eq hos, pure_bind, hmember, pure_bind]
  simp only [asString, cstr_eq_self.2 h.id.1]

theorem written_udmSliceProfileId (e : UdmSliceProfileId Json) :
    ∃ os, udmSliceProfileIdToJson e = .obj os ∧ Holds os e.vendorSpecific [
      (jsonId, given (e.id != "") (.str (cstr e.id)))] := by
  refine holds_written [_] _ [] [jsonId] ?_ rfl (by decide) (by decide)
  simp only [udmSliceProfileIdToJson, writtenObject, strToJson_eq, Json.present_nil,
    List.append_nil]

theorem getUdmSliceProfileId_written {e : UdmSliceProfileId Json} (h : e.Storable) :
    getUdmSliceProfileId id p (udmSliceProfileIdToJson e) {} = pure e := by
  obtain ⟨os, hv, hos⟩ := written_udmSliceProfileId e
  have hid : os.lookup jsonId = given (e.id != "") (.str (cstr e.id)) := hos.found
  rw [hv]
  refine inOrder_step (into_vendor hos rfl) ?_
  exact inOrder_step (mandatoryNonEmptyText hid h.id) rfl

theorem written_subscribedUeAmbr (e : Ambr Json) :
    ∃ os, subscribedUeAmbrToJson e = .obj os ∧ Holds os e.vendorSpecific [
      (jsonUplink, given (e.uplink != "") (.str (cstr e.uplink))),
      (jsonDownlink, given (e.downlink != "") (.str (cstr e.downlink)))] := by
  refine holds_written [_, _] _ [] [jsonUplink, jsonDownlink] ?_ rfl (by decide)
    (by decide)
  simp only [subscribedUeAmbrToJson, writtenObject, strToJson_eq, Json.present_nil,
    List.append_nil, ← Json.present_append, List.cons_append, List.nil_append]

theorem getSubscribedUeAmbr_written {e : Ambr Json} (h : e.Storable) :
    getSubscribedUeAmbr id p (subscribedUeAmbrToJson e) {} = pure e := by
  obtain ⟨os, hv, hos⟩ := written_subscribedUeAmbr e
  obtain ⟨huplink, hdownlink⟩ := hos.found
  rw [hv]
  refine inOrder_step (into_vendor hos rfl) ?_
  refine inOrder_step (mandatoryNonEmptyText huplink h.uplink) ?_
  exact inOrder_step (mandatoryNonEmptyText hdownlink h.downlink) rfl

/-! ## The restriction to service areas -/

theorem written_serviceAreaRestriction (e : UdmStaticData Json) :
    ∃ os, serviceAreaRestrictionToJson ind e = .obj os ∧
      Holds os e.serviceAreaRestriction.vendorSpecific [
        (jsonRestrictionType, given (e.serviceAreaRestriction.restrictionType != "")
          (.str (cstr e.serviceAreaRestriction.restrictionType))),
        (jsonAreas, given (!e.serviceAreaRestriction.areas.isEmpty)
          (.arr (e.serviceAreaRestriction.areas.map udmRoamingAreaReferenceToJson))),
        (jsonMaxNumOfTas, given e.fieldExistence.hasMaxNumOfTas
          (.int (ind.readInt e.serviceAreaRestriction.maxNumOfTas)))] := by
  refine holds_written [_, _, _] _ [] [jsonRestrictionType, jsonAreas, jsonMaxNumOfTas] ?_ rfl
    (by decide) (by decide)
  simp only [serviceAreaRestrictionToJson, writtenObject, intToJson, member_eq, whenFlag_eq,
    strToJson_eq, listToJson_eq, Json.present_nil, List.append_nil, List.append_assoc]
  simp only [← List.append_assoc, ← Json.present_append, List.cons_append, List.nil_append]

/-- The object is read into the static data, which it leaves two flags in. -/
theorem getServiceAreaRestriction_written {e t : UdmStaticData Json}
    (h : e.serviceAreaRestriction.Storable e.fieldExistence.hasMaxNumOfTas)
    (hblank : t.serviceAreaRestriction = {}) :
    getServiceAreaRestriction id p (serviceAreaRestrictionToJson ind e) t = pure { t with
      serviceAreaRestriction := e.serviceAreaRestriction
      fieldExistence.hasMaxNumOfTas := e.serviceAreaRestriction.maxNumOfTas.isSome
      fieldExistence.hasServiceAreaRestriction := true } := by
  obtain ⟨os, hv, hos⟩ := written_serviceAreaRestriction ind e
  obtain ⟨htype, hareas, hmax⟩ := hos.found
  have helement : ∀ a ∈ e.serviceAreaRestriction.areas, Reader.objectElement p jsonAreas
      (getUdmRoamingAreaReference id p jsonAreas) (udmRoamingAreaReferenceToJson a) =
        pure (some a) := by
    intro a ha
    obtain ⟨as, has, -⟩ := written_udmRoamingAreaReference a
    refine Eq.trans (if_pos (has ▸ Json.isObject_obj as)) ?_
    exact getUdmRoamingAreaReference_written (h.areas a ha) jsonAreas
  rw [hv]
  refine inOrder_step (into_vendor hos (by rw [hblank])) ?_
  refine inOrder_step (optionalText htype h.restrictionType (by rw [hblank])) ?_
  refine inOrder_step (optionalArray hareas helement (by rw [hblank]; rfl)) ?_
  refine inOrder_step (flaggedInt ind hmax h.maxNumOfTas
    (fun b x t => { t with
      serviceAreaRestriction.maxNumOfTas := x, fieldExistence.hasMaxNumOfTas := b })
    (fun n hn => int_eq hn) (by rw [hblank]; rfl)) ?_
  rw [hblank, h.maxNumOfTas.1]
  rfl

/-! ## Static addresses -/

theorem written_ipAddr (e : IpAddr Json) :
    ∃ os, ipAddrToJson e = .obj os ∧ Holds os e.vendorSpecific [
      (jsonIpv4Addr, given (decide (e.ipType = .ipv4) && e.ip != "") (.str (cstr e.ip))),
      (jsonIpv6Addr, given (decide (e.ipType = .ipv6) && e.ip != "") (.str (cstr e.ip))),
      (jsonIpv6Prefix, given (decide (e.ipType = .ipv6Prefix) && e.ip != "") (.str (cstr e.ip)))] := by
  refine holds_written [_, _, _] _ [] [jsonIpv4Addr, jsonIpv6Addr, jsonIpv6Prefix] ?_ rfl
    (by decide) (by decide)
  obtain ⟨ip, ipType, vendorSpecific⟩ := e
  simp only [ipAddrToJson, writtenObject, strToJson_eq, Json.present_nil, List.append_nil]
  cases ipType <;> simp [IpAddrType.key, Json.present_cons]

/-- The text of an address, in an object of its own. -/
theorem getIp_eq {key ip : String} (hip : NulFree ip) (ipType : IpAddrType)
    (vendorSpecific : VendorSpecific Json) :
    getIp p key ipType vendorSpecific (.str (cstr ip)) = pure (some { ip, ipType, vendorSpecific }) := by
  rw [getIp, asString, cstr_cstr, cstr_eq_self.2 hip]

theorem getIpAddr_written {e : IpAddr Json} (h : e.Storable) :
    getIpAddr id p (ipAddrToJson e) = pure (some e) := by
  obtain ⟨os, hv, hos⟩ := written_ipAddr e
  obtain ⟨h4, h6, h6pre⟩ := hos.found
  have hne : (e.ip != "") = true := by simpa using h.ip.2
  rw [hne] at h4 h6 h6pre
  rw [hv, getIpAddr, getVendorSpecific_eq hos, pure_bind]
  obtain ⟨ip, ipType, vendorSpecific⟩ := e
  cases ipType with
  | ipv4 => rw [firstMember_some h4, getIp_eq h.ip.1]
  | ipv6 => rw [firstMember_none h4, firstMember_some h6, getIp_eq h.ip.1]
  | ipv6Prefix =>
    rw [firstMember_none h4, firstMember_none h6, firstMember_some h6pre, getIp_eq h.ip.1]

theorem written_dnnIps (e : DnnIps Json) :
    ∃ os, dnnIpsToJson e = .obj os ∧ Holds os e.vendorSpecific [
      (jsonDnn, given (e.dnn != "") (.str (cstr e.dnn))),
      (jsonIpaddress, some (.arr (e.ipAddress.map ipAddrToJson)))] := by
  refine holds_written [_, _] _ [] [jsonDnn, jsonIpaddress] ?_ rfl (by decide) (by decide)
  simp only [dnnIpsToJson, writtenObject, member_eq, strToJson_eq, Json.present_nil,
    List.append_nil, ← Json.present_append, List.cons_append, List.nil_append]

/-- What is found depends on the `dnn` that was left before: it must not be taken over. -/
theorem getDnnIps_written {e : DnnIps Json} (h : e.Storable) {dnn : String}
    (hdnn : e.dnn = "" → dnn = "") : getDnnIps id p dnn (dnnIpsToJson e) = pure e := by
  obtain ⟨os, hv, hos⟩ := written_dnnIps e
  obtain ⟨hname, haddresses⟩ := hos.found
  rw [hv]
  refine inOrder_step (ifMember_given hname (fun _ => string_eq h.dnn) fun hnone => ?_) ?_
  · have hempty : e.dnn = "" := by simpa using hnone
    rw [hempty, hdnn hempty]
    rfl
  refine inOrder_step (ifMember_some haddresses
    (array_eq fun a ha => getIpAddr_written (h.ipAddress a ha))) ?_
  exact inOrder_step (into_vendor hos rfl) rfl

/-- **The elements of `dnnIpList`**, from the one on that is read behind `ds`, which has left
`dnn`. -/
theorem getDnnIpList_written {es : List (DnnIps Json)} (h : ∀ e ∈ es, e.Storable) {dnn : String}
    (hhanded : HandedOn dnn es) (ds : List (DnnIps Json)) :
    getDnnIpList id p dnn ds (es.map dnnIpsToJson) = pure (ds ++ es) := by
  induction es generalizing dnn ds with
  | nil =>
    rw [List.append_nil]
    rfl
  | cons e es ih =>
    obtain ⟨hdnn, hrest⟩ := hhanded
    obtain ⟨os, hv, -⟩ := written_dnnIps e
    rw [List.map_cons, getDnnIpList, if_pos (hv ▸ Json.isObject_obj os),
      getDnnIps_written (h e List.mem_cons_self) hdnn, pure_bind,
      ih (fun e he => h e (List.mem_cons_of_mem _ he)) hrest, List.append_assoc]
    rfl

theorem written_staticSnssai (e : Snssai Json) :
    ∃ os, staticSnssaiToJson ind e = .obj os ∧ Holds os e.vendorSpecific [
      (jsonSst, some (.int (ind.readInt e.sst))),
      (jsonSd, given (e.sd != "") (.str (cstr e.sd)))] := by
  refine holds_written [_, _] _ [] [jsonSst, jsonSd] ?_ rfl (by decide) (by decide)
  simp only [staticSnssaiToJson, writtenObject, intToJson, member_eq, strToJson_eq,
    Json.present_nil, List.append_nil, ← Json.present_append, List.cons_append, List.nil_append]

/-- A vendor-specific member is passed over by the loop. -/
theorem foldlM_vendor (m : VendorSpecific Json) (e : NssaiDnnIps Json) :
    (vendorSpecificToJson m).foldlM (getNssaiDnnIpsMember id p) e = pure e := by
  have hplain : ∀ n ∈ vendorSpecificToJson m, cstr n.1 ≠ jsonNssai ∧ cstr n.1 ≠ jsonDnnIpList := by
    intro n hn
    obtain ⟨hfree, hvendor⟩ := name_of_vendor (List.mem_map_of_mem hn)
    have hne : ∀ name : String, vendorName name = false → cstr n.1 ≠ name := by
      intro name hname heq
      rw [← heq, cstr_eq_self.2 hfree, hvendor] at hname
      exact Bool.noConfusion hname
    exact ⟨hne _ (by decide), hne _ (by decide)⟩
  generalize vendorSpecificToJson m = ns at hplain
  induction ns with
  | nil => rfl
  | cons n ns ih =>
    obtain ⟨hnssai, hlist⟩ := hplain n List.mem_cons_self
    rw [List.foldlM_cons, getNssaiDnnIpsMember, if_neg hnssai, if_neg hlist, pure_bind,
      ih fun k hk => hplain k (List.mem_cons_of_mem _ hk)]

theorem written_nssaiDnnIps (e : NssaiDnnIps Json) :
    ∃ os, nssaiDnnIpsToJson ind e = .obj os ∧ Holds os e.vendorSpecific [
      (jsonNssai, some (staticSnssaiToJson ind e.snssai)),
      (jsonDnnIpList, some (.arr (e.dnnIpList.map dnnIpsToJson)))] := by
  refine holds_written [_, _] _ [] [jsonNssai, jsonDnnIpList] ?_ rfl (by decide) (by decide)
  simp only [nssaiDnnIpsToJson, writtenObject, member_eq, Json.present_nil, List.append_nil,
    ← Json.present_append, List.cons_append, List.nil_append]

/-- **An element of `nssaiDnnIpLists`**, member by member. -/
theorem getNssaiDnnIps_written {e : NssaiDnnIps Json} (h : e.Storable) :
    getNssaiDnnIps id p (nssaiDnnIpsToJson ind e) = pure (some e) := by
  obtain ⟨ns, hns, hnsHolds⟩ := written_staticSnssai ind e.snssai
  obtain ⟨os, hv, hos⟩ := written_nssaiDnnIps ind e
  have hmembers : os = (jsonNssai, .obj ns) :: (jsonDnnIpList, .arr (e.dnnIpList.map dnnIpsToJson)) ::
      vendorSpecificToJson e.vendorSpecific := by
    rw [nssaiDnnIpsToJson, hns] at hv
    exact (Json.obj.inj hv).symm
  have hsnssai : ∀ t : NssaiDnnIps Json, t.snssai = {} →
      getNssaiDnnIpsMember id p t (jsonNssai, .obj ns) = pure { t with snssai := e.snssai } := by
    intro t ht
    refine Eq.trans (if_pos (show cstr jsonNssai = jsonNssai by decide)) ?_
    refine into_eq ((object_eq (Json.isObject_obj ns)).trans ?_)
    rw [ht]
    exact getSnssai_eq ind h.snssai hnsHolds
  have hlist : ∀ t : NssaiDnnIps Json, t.dnnIpList = [] →
      getNssaiDnnIpsMember id p t (jsonDnnIpList, .arr (e.dnnIpList.map dnnIpsToJson)) =
        pure { t with dnnIpList := e.dnnIpList } := by
    intro t ht
    refine (if_neg (show ¬ cstr jsonDnnIpList = jsonNssai by decide)).trans ?_
    refine Eq.trans (if_pos (show cstr jsonDnnIpList = jsonDnnIpList by decide)) ?_
    refine into_eq ?_
    rw [ht]
    exact getDnnIpList_written h.dnnIpList h.handedOn []
  rw [hv, getNssaiDnnIps, getVendorSpecific_eq hos, pure_bind, Json.members_obj, lift_some,
    pure_bind, hmembers, List.foldlM_cons, hsnssai _ rfl, pure_bind, List.foldlM_cons,
    hlist _ rfl, pure_bind, foldlM_vendor, pure_bind]

theorem written_staticIpAddress (e : StaticIpAddress Json) :
    ∃ os, staticIpAddressToJson ind e = .obj os ∧ Holds os e.vendorSpecific [
      (jsonNssAiDnnIpLists, given (!e.nssaiDnnIpLists.isEmpty)
        (.arr (e.nssaiDnnIpLists.map (nssaiDnnIpsToJson ind))))] := by
  refine holds_written [_] _ [] [jsonNssAiDnnIpLists] ?_ rfl (by decide) (by decide)
  simp only [staticIpAddressToJson, writtenObject, listToJson_eq, Json.present_nil,
    List.append_nil]

theorem getStaticIpAddress_written {e : StaticIpAddress Json} (h : e.Storable) :
    getStaticIpAddress id p (staticIpAddressToJson ind e) {} = pure e := by
  obtain ⟨os, hv, hos⟩ := written_staticIpAddress ind e
  have hsome : (!e.nssaiDnnIpLists.isEmpty) = true := by simpa using h.some_list
  have hlists : (Json.obj os).index jsonNssAiDnnIpLists =
      some (.arr (e.nssaiDnnIpLists.map (nssaiDnnIpsToJson ind))) := by
    have hfound := hos.found
    rw [hsome] at hfound
    rw [Json.index_eq_member?]
    exact hfound
  rw [hv]
  refine inOrder_step (into_vendor hos rfl) ?_
  refine @inOrder_step _ _ _ _ _ e _ ?_ rfl
  rw [hlists, lift_some, pure_bind,
    array_eq fun l hl => getNssaiDnnIps_written ind (h.nssaiDnnIpLists l hl)]
  rfl

theorem written_udmSliceData (e : UdmSliceData Json) :
    ∃ os, udmSliceDataToJson ind e = .obj os ∧ Holds os ∅ [
      (jsonPlmnIdSets, given (!e.plmnIdSets.isEmpty)
        (.arr (e.plmnIdSets.map (plmnIdSetToJson ind))))] := by
  refine holds_written [_] _ [] [jsonPlmnIdSets] ?_ rfl (by decide) (by decide)
  simp only [udmSliceDataToJson, plmnIdsToJson, writtenObject, listToJson_eq, Json.present_nil,
    List.append_nil]
  rw [show vendorSpecificToJson ∅ = [] from rfl, List.append_nil]

theorem getUdmSliceData_written {e : UdmSliceData Json} (h : e.Storable) :
    getUdmSliceData id p (udmSliceDataToJson ind e) {} = pure e := by
  obtain ⟨os, hv, hos⟩ := written_udmSliceData ind e
  have hsets : os.lookup jsonPlmnIdSets = given (!e.plmnIdSets.isEmpty)
    (.arr (e.plmnIdSets.map (plmnIdSetToJson ind))) := hos.found
  obtain ⟨plmnIdSets, vendorSpecific⟩ := e
  obtain rfl : vendorSpecific = ∅ := h.vendorSpecific
  rw [hv]
  refine inOrder_step (into_vendor hos rfl) ?_
  refine inOrder_step (ifMember_given hsets (fun _ => ?_) fun hnone => ?_) rfl
  · show (getPlmnIdSets id p true (plmnIdSets.map (plmnIdSetToJson ind)) >>= fun sets =>
      pure { ({} : UdmSliceData Json) with plmnIdSets := sets }) = _
    rw [getPlmnIdSets_written ind h.plmnIdSets, pure_bind]
  · obtain rfl : plmnIdSets = [] := by simpa using hnone
    rfl

/-! ## The whole -/

theorem written_udmStaticData (e : UdmStaticData Json) :
    ∃ os, udmStaticDataToJson ind e = .obj os ∧ Holds os e.vendorSpecific [
      (jsonUdmSliceProfileId, some (udmSliceProfileIdToJson e.udmSliceProfileId)),
      (jsonSubscribedUeAmbr, given e.fieldExistence.hasSubscribedUeAmbr
        (subscribedUeAmbrToJson e.subscribedUeAmbr)),
      (jsonRatRestrictions, given (!e.ratRestrictions.isEmpty) (stringsToJson e.ratRestrictions)),
      (jsonForbiddenAreas, given (!e.forbiddenAreas.isEmpty)
        (.arr (e.forbiddenAreas.map udmRoamingAreaReferenceToJson))),
      (jsonServiceAreaRestriction, given e.fieldExistence.hasServiceAreaRestriction
        (serviceAreaRestrictionToJson ind e)),
      (jsonCoreNetworkTypeRestrictions, given (!e.coreNetworkTypeRestrictions.isEmpty)
        (stringsToJson e.coreNetworkTypeRestrictions)),
      (jsonMpsPriority, given e.fieldExistence.hasMpsPriority (.bool (ind.readBool e.mpsPriority))),
      (jsonMcsPriority, given e.fieldExistence.hasMcsPriority (.bool (ind.readBool e.mcsPriority))),
      (jsonDlPacketCount, given e.fieldExistence.hasDlPacketCount
        (.int (ind.readInt e.dlPacketCount))),
      (jsonMicoAllowed, given e.fieldExistence.hasMicoAllowed (.bool (ind.readBool e.micoAllowed))),
      (jsonStaticIpAddress, given e.fieldExistence.hasStaticIpAddress
        (staticIpAddressToJson ind e.staticIpAddress)),
      (jsonRoamingOdb, given (e.roamingOdb != "") (.str (cstr e.roamingOdb))),
      (jsonUeUsageType, given e.fieldExistence.hasUeUsageType (.int (ind.readInt e.ueUsageType))),
      (jsonRfsIndex, given e.fieldExistence.hasRfspIndex (.int (ind.readInt e.rfspIndex))),
      (jsonSubsRegTimer, given e.fieldExistence.hasSubsRegTimer
        (.int (ind.readInt e.subsRegTimer))),
      (jsonUdmSliceData, given e.fieldExistence.hasUdmSliceData
        (udmSliceDataToJson ind e.udmSliceData))] := by
  refine holds_written [_] _ _ [jsonUdmSliceProfileId, jsonSubscribedUeAmbr, jsonRatRestrictions,
    jsonForbiddenAreas, jsonServiceAreaRestriction, jsonCoreNetworkTypeRestrictions,
    jsonMpsPriority, jsonMcsPriority, jsonDlPacketCount, jsonMicoAllowed, jsonStaticIpAddress,
    jsonRoamingOdb, jsonUeUsageType, jsonRfsIndex, jsonSubsRegTimer, jsonUdmSliceData] ?_ rfl
    (by decide) (by decide)
  simp only [udmStaticDataToJson, writtenObject, intToJson, boolToJson, member_eq, whenFlag_eq,
    strToJson_eq, listToJson_eq, stringListToJson_eq, List.append_assoc, ← Json.present_append,
    List.cons_append, List.nil_append]

/-- An integer of static data. -/
theorem getStaticInt_written {os : List (String × Json)} {key : String} {flag : Bool}
    {x : Option Int} (hos : os.lookup key = given flag (.int (ind.readInt x)))
    (hx : StoredInt flag x) {setFlag : Bool → UdmStaticData Json → UdmStaticData Json}
    {put : Int → UdmStaticData Json → UdmStaticData Json} {e : UdmStaticData Json}
    (set : Bool → Option Int → UdmStaticData Json → UdmStaticData Json)
    (hsome : ∀ n, setFlag true (put n e) = set true (some n) e)
    (hnone : setFlag false e = set false none e) :
    getStaticInt p key setFlag put (.obj os) e = pure (set flag x e) := by
  refine flaggedInt ind hos hx set (fun n hn => ?_) (congrArg pure hnone)
  rw [int_eq hn, hsome]

/-- A truth value of static data. -/
theorem getStaticBool_written {os : List (String × Json)} {key : String} {flag : Bool}
    {x : Option Bool} (hos : os.lookup key = given flag (.bool (ind.readBool x)))
    (hx : x.isSome = flag) {setFlag put : Bool → UdmStaticData Json → UdmStaticData Json}
    {e : UdmStaticData Json} (set : Bool → Option Bool → UdmStaticData Json → UdmStaticData Json)
    (hsome : ∀ b, setFlag true (put b e) = set true (some b) e)
    (hnone : setFlag false e = set false none e) :
    getStaticBool p key setFlag put (.obj os) e = pure (set flag x e) := by
  refine flaggedBool ind hos hx set (fun b => ?_) (congrArg pure hnone)
  rw [← hsome]
  rfl

/-- **Static data that is written can be read again**: the reader finds it as it was, and records
nothing. -/
theorem getUdmStaticData_written {e : UdmStaticData Json} (h : e.Storable) :
    getUdmStaticData id p (udmStaticDataToJson ind e) {} = pure e := by
  obtain ⟨os, hv, hos⟩ := written_udmStaticData ind e
  obtain ⟨hprofile, hambr, hrat, hforbidden, harea, hcore, hmps, hmcs, hcount, hmico, haddress,
    hodb, husage, hrfsp, htimer, hslice⟩ := hos.found
  obtain ⟨profile, hprofileObject, -⟩ := written_udmSliceProfileId e.udmSliceProfileId
  obtain ⟨ambr, hambrObject, -⟩ := written_subscribedUeAmbr e.subscribedUeAmbr
  obtain ⟨area, hareaObject, -⟩ := written_serviceAreaRestriction ind e
  rw [hv]
  refine inOrder_step (into_vendor hos rfl) ?_
  refine inOrder_step (flaggedPart hambr h.subscribedUeAmbr
    (fun b a t => { t with subscribedUeAmbr := a, fieldExistence.hasSubscribedUeAmbr := b })
    (fun hstored => ?_) rfl) ?_
  · refine marking_eq ((object_eq (hambrObject ▸ Json.isObject_obj ambr)).trans ?_)
    exact into_eq (getSubscribedUeAmbr_written hstored)
  refine inOrder_step (optionalStrings hrat h.ratRestrictions rfl) ?_
  refine inOrder_step (optionalArray hforbidden
    (fun a ha => getUdmRoamingAreaReference_written (h.forbiddenAreas a ha) _) rfl) ?_
  refine inOrder_step (flaggedPart harea h.serviceAreaRestriction
    (fun b a t => { t with
      serviceAreaRestriction := a
      fieldExistence.hasMaxNumOfTas := a.maxNumOfTas.isSome
      fieldExistence.hasServiceAreaRestriction := b })
    (fun hstored => ?_) rfl) ?_
  · refine (object_eq (hareaObject ▸ Json.isObject_obj area)).trans ?_
    exact getServiceAreaRestriction_written ind hstored rfl
  dsimp only
  refine inOrder_step (optionalStrings hcore h.coreNetworkTypeRestrictions rfl) ?_
  refine inOrder_step (getStaticBool_written ind hmps h.mpsPriority
    (fun b x t => { t with mpsPriority := x, fieldExistence.hasMpsPriority := b })
    (fun _ => rfl) rfl) ?_
  refine inOrder_step (getStaticBool_written ind hmcs h.mcsPriority
    (fun b x t => { t with mcsPriority := x, fieldExistence.hasMcsPriority := b })
    (fun _ => rfl) rfl) ?_
  refine inOrder_step (getStaticInt_written ind hcount h.dlPacketCount
    (fun b x t => { t with dlPacketCount := x, fieldExistence.hasDlPacketCount := b })
    (fun _ => rfl) rfl) ?_
  refine inOrder_step (getStaticBool_written ind hmico h.micoAllowed
    (fun b x t => { t with micoAllowed := x, fieldExistence.hasMicoAllowed := b })
    (fun _ => rfl) rfl) ?_
  dsimp only
  refine inOrder_step (mandatoryPart hprofile (hprofileObject ▸ Json.isObject_obj profile)
    (getUdmSliceProfileId_written h.udmSliceProfileId)) ?_
  refine inOrder_step (flaggedPart haddress h.staticIpAddress
    (fun b a t => { t with staticIpAddress := a, fieldExistence.hasStaticIpAddress := b })
    (fun hstored => ?_) rfl) ?_
  · refine marking_eq (into_eq ?_)
    exact getStaticIpAddress_written ind hstored
  refine inOrder_step (ifMember_given hodb
    (fun hsome => nonEmptyString_eq h.roamingOdb (by simpa using hsome)) fun hnone => ?_) ?_
  · have hempty : e.roamingOdb = "" := by simpa using hnone
    rw [hempty]
    rfl
  refine inOrder_step (getStaticInt_written ind husage h.ueUsageType
    (fun b x t => { t with ueUsageType := x, fieldExistence.hasUeUsageType := b })
    (fun _ => rfl) rfl) ?_
  refine inOrder_step (getStaticInt_written ind hrfsp h.rfspIndex
    (fun b x t => { t with rfspIndex := x, fieldExistence.hasRfspIndex := b })
    (fun _ => rfl) rfl) ?_
  refine inOrder_step (getStaticInt_written ind htimer h.subsRegTimer
    (fun b x t => { t with subsRegTimer := x, fieldExistence.hasSubsRegTimer := b })
    (fun _ => rfl) rfl) ?_
  refine inOrder_step (flaggedPart hslice h.udmSliceData
    (fun b a t => { t with udmSliceData := a, fieldExistence.hasUdmSliceData := b })
    (fun hstored => ?_) rfl) ?_
  · refine marking_eq (into_eq ?_)
    exact getUdmSliceData_written ind hstored
  show pure { e with
    fieldExistence.hasMaxNumOfTas := e.serviceAreaRestriction.maxNumOfTas.isSome } = _
  rw [← h.hasMaxNumOfTas]

/-! ## Roaming areas -/

/-- An area code or a list of codes: something is written. -/
def Area.Storable : Area → Prop
  | .areaCode code => MandatoryText code
  | .tacs codes => codes ≠ [] ∧ ∀ s ∈ codes, NulFree s

structure UdmRoamingArea.Storable (e : UdmRoamingArea V) : Prop where
  udmRoamingAreaId : NulFree e.udmRoamingAreaId
  areaList : ∀ a ∈ e.areaList, a.area.Storable

/-- What is written under `areaCode`. -/
def Area.writtenCode : Area → Option Json
  | .areaCode code => given (code != "") (.str (cstr code))
  | .tacs _ => none

/-- What is written under `tacs`. -/
def Area.writtenTacs : Area → Option Json
  | .areaCode _ => none
  | .tacs codes => given (!codes.isEmpty) (stringsToJson codes)

theorem written_areaList (e : AreaList Json) :
    ∃ os, areaListToJson e = .obj os ∧ Holds os e.vendorSpecific [
      (jsonAreaCode, e.area.writtenCode),
      (jsonTacs, e.area.writtenTacs)] := by
  refine holds_written [] _ _ [jsonAreaCode, jsonTacs] ?_ rfl (by decide) (by decide)
  rw [areaListToJson]
  cases e.area with
  | areaCode code =>
    simp [writtenObject, strToJson_eq, Json.present_cons, Area.writtenCode, Area.writtenTacs]
  | tacs codes =>
    simp [writtenObject, stringListToJson_eq, Json.present_cons, Area.writtenCode,
      Area.writtenTacs]

theorem getAreaList_written {e : AreaList Json} (h : e.area.Storable) :
    getAreaList id p (areaListToJson e) {} = pure e := by
  obtain ⟨os, hv, hos⟩ := written_areaList e
  obtain ⟨hcode, htacs⟩ := hos.found
  obtain ⟨area, vendorSpecific⟩ := e
  rw [hv]
  refine inOrder_step (into_vendor hos rfl) ?_
  refine @inOrder_step _ _ _ _ _ { area, vendorSpecific } _ ?_ rfl
  cases area with
  | areaCode code =>
    have hne : (code != "") = true := by simpa using h.2
    simp only [Area.writtenCode, hne, given_true] at hcode
    rw [firstMember_some hcode]
    exact string_eq h.1
  | tacs codes =>
    have hsome : (!codes.isEmpty) = true := by simpa using h.1
    simp only [List.Forall, Area.writtenTacs, hsome, given_true] at htacs
    rw [firstMember_none hcode, firstMember_some htacs]
    exact strings_eq h.2

theorem written_udmRoamingArea (e : UdmRoamingArea Json) :
    ∃ os, udmRoamingAreaToJson e = .obj os ∧ Holds os e.vendorSpecific [
      (jsonUdmRoamingAreaId, given (e.udmRoamingAreaId != "") (.str (cstr e.udmRoamingAreaId))),
      (jsonAreaList, given (!e.areaList.isEmpty) (.arr (e.areaList.map areaListToJson)))] := by
  refine holds_written [] _ _ [jsonUdmRoamingAreaId, jsonAreaList] ?_ rfl (by decide) (by decide)
  simp only [udmRoamingAreaToJson, writtenObject, strToJson_eq, listToJson_eq, List.append_assoc,
    ← Json.present_append, List.cons_append, List.nil_append, Json.present_nil]

/-- **A roaming area that is written can be read again**, as it was and with nothing recorded. -/
theorem getUdmRoamingAreas_written {e : UdmRoamingArea Json} (h : e.Storable) :
    getUdmRoamingAreas id p (udmRoamingAreaToJson e) {} = pure e := by
  obtain ⟨os, hv, hos⟩ := written_udmRoamingArea e
  obtain ⟨hid, hareas⟩ := hos.found
  have helement : ∀ a ∈ e.areaList, Reader.objectElement p jsonAreaList
      (Reader.fresh {} (getAreaList id p)) (areaListToJson a) = pure (some a) := by
    intro a ha
    obtain ⟨as, has, -⟩ := written_areaList a
    exact objectElement_eq (has ▸ Json.isObject_obj as) (getAreaList_written (h.areaList a ha))
  rw [hv]
  refine inOrder_step (into_vendor hos rfl) ?_
  refine inOrder_step (optionalText hid h.udmRoamingAreaId rfl) ?_
  exact inOrder_step (optionalArray hareas helement rfl) rfl

end ProvisioningValidator
