import Mathlib
import ProvisioningValidator.ReadBack

/-!
# Slice data, written and read again

A set of PLMNs that is `Storable` is written without loss: the readers find it again as it was, and
record nothing (`getPlmnIdSet_written`), and so they do with the whole profile. What makes a set
storable can be read off the encoder: an integer or a truth value is there where its flag says so,
an object that is not flagged is blank, and a text or a list that the readers ask for is not empty.
-/

namespace ProvisioningValidator

open Lib Lib.Run

variable {V : Type}

/-! ## What can be stored -/

structure Snssai.Storable (e : Snssai V) : Prop where
  sst : StoredInt true e.sst
  sd : NulFree e.sd

structure NssaiDetails.Storable (e : NssaiDetails V) : Prop where
  nssai : e.nssai.Storable
  dnnListId : NulFree e.dnnListId
  threegppChargingCharacteristics : NulFree e.threegppChargingCharacteristics

structure PduSessionTypes.Storable (e : PduSessionTypes V) : Prop where
  defaultSessionType : NulFree e.defaultSessionType
  allowedSessionTypes : ∀ s ∈ e.allowedSessionTypes, NulFree s

structure SscModes.Storable (e : SscModes V) : Prop where
  defaultSscMode : NulFree e.defaultSscMode
  allowedSscModes : ∀ s ∈ e.allowedSscModes, NulFree s

structure Arp.Storable (e : Arp V) : Prop where
  priorityLevel : StoredInt true e.priorityLevel
  preemptCap : MandatoryText e.preemptCap
  preemptVuln : MandatoryText e.preemptVuln

structure FivegQosProfile.Storable (e : FivegQosProfile V) : Prop where
  fiveqi : StoredInt true e.fiveqi
  arp : e.arp.Storable
  priorityLevel : StoredInt e.fieldExistence.hasPriorityLevel e.priorityLevel

structure Ambr.Storable (e : Ambr V) : Prop where
  uplink : MandatoryText e.uplink
  downlink : MandatoryText e.downlink

structure UpSecurity.Storable (e : UpSecurity V) : Prop where
  upIntegr : NulFree e.upIntegr
  upConfid : NulFree e.upConfid

structure DnnData.Storable (e : DnnData V) : Prop where
  dnn : NulFree e.dnn
  defaultDnnIndicator : e.defaultDnnIndicator.isSome = e.fieldExistence.hasDefaultDnnIndicator
  lboRoamingAllowed : e.lboRoamingAllowed.isSome = e.fieldExistence.hasLboRoamingAllowed
  iwkEpsInd : e.iwkEpsInd.isSome = e.fieldExistence.hasIwkEpsInd
  ladnIndicator : e.ladnIndicator.isSome = e.fieldExistence.hasLadnIndicator
  pduSessionTypes : Flagged e.fieldExistence.hasPduSessionTypes PduSessionTypes.Storable {}
    e.pduSessionTypes
  hasAllowedSessionTypes : e.fieldExistence.hasAllowedSessionTypes =
    !e.pduSessionTypes.allowedSessionTypes.isEmpty
  sscModes : Flagged e.fieldExistence.hasSscModes SscModes.Storable {} e.sscModes
  threegppChargingCharacteristics : NulFree e.threegppChargingCharacteristics
  upSecurity : Flagged e.fieldExistence.hasUpSecurity UpSecurity.Storable {} e.upSecurity
  sessionAmbr : Flagged e.fieldExistence.hasSessionAmbr Ambr.Storable {} e.sessionAmbr
  smfList : Flagged e.fieldExistence.hasSmfList (∀ s ∈ ·, NulFree s) [] e.smfList
  sameSmfInd : e.sameSmfInd.isSome = e.fieldExistence.hasSameSmfInd
  fivegQosProfile : Flagged e.fieldExistence.hasFivegQosProfile FivegQosProfile.Storable {}
    e.fivegQosProfile

structure DnnList.Storable (e : DnnList V) : Prop where
  dnnListId : MandatoryText e.dnnListId
  dnnDataList : ∀ d ∈ e.dnnDataList, d.Storable

/-- The object `nssai` of a set. -/
structure SliceInfoNssai.Storable (e : SliceInfoNssai V) : Prop where
  defaultSingleNssais : ∀ n ∈ e.defaultSingleNssais, n.Storable
  singleNssais : ∀ n ∈ e.singleNssais, n.Storable
  some_default : e.defaultSingleNssais ≠ []

/-- A set of a slice profile, or of the slice data of a subscription. -/
structure PlmnIdSets.Storable (isSliceData : Bool) (e : PlmnIdSets V) : Prop where
  plmnIdSetIdentifier : MandatoryText e.plmnIdSetIdentifier
  nssai : Flagged e.fieldExistenceUdmSliceProfile.hasAnyNssai SliceInfoNssai.Storable {} e.nssai
  hasNssai : e.fieldExistenceUdmSliceProfile.hasNssai = !e.nssai.singleNssais.isEmpty
  dnnLists : ∀ l ∈ e.dnnLists, l.Storable
  some_dnnList : isSliceData = false → e.dnnLists ≠ []

structure UdmSliceProfile.Storable (e : UdmSliceProfile V) : Prop where
  udmSliceProfileId : NulFree e.udmSliceProfileId
  plmnIdSets : ∀ s ∈ e.plmnIdSets, s.Storable false

variable (ind : Indeterminate) {p : String}

/-! ## S-NSSAIs -/

theorem written_snssai (e : Snssai Json) :
    ∃ os, snssaiToJson ind e = .obj os ∧ Holds os e.vendorSpecific [
      (jsonSst, some (.int (ind.readInt e.sst))),
      (jsonSd, given (e.sd != "") (.str (cstr e.sd)))] := by
  refine holds_written [] _ _ [jsonSst, jsonSd] ?_ rfl (by decide) (by decide)
  simp only [snssaiToJson, writtenObject, intToJson, member_eq, strToJson_eq, List.append_assoc,
    ← Json.present_append, List.cons_append, List.nil_append, Json.present_nil]

/-- The readers of an S-NSSAI are the same wherever it stands. -/
theorem getSnssai_eq {e : Snssai Json} (h : e.Storable) {os : List (String × Json)}
    (hos : Holds os e.vendorSpecific [
      (jsonSst, some (.int (ind.readInt e.sst))),
      (jsonSd, given (e.sd != "") (.str (cstr e.sd)))]) :
    getSnssai id p (.obj os) {} = pure e := by
  obtain ⟨hsst, hsd⟩ := hos.found
  refine inOrder_step (into_vendor hos rfl) ?_
  refine inOrder_step (mandatoryInt ind hsst h.sst (fun x t => { t with sst := x }) fun _ => rfl) ?_
  exact inOrder_step (optionalText hsd h.sd rfl) rfl

theorem written_nssaiDetails (e : NssaiDetails Json) :
    ∃ os, nssaiDetailsToJson ind e = .obj os ∧ Holds os e.vendorSpecific [
      (jsonDnnListId, given (e.dnnListId != "") (.str (cstr e.dnnListId))),
      (json3gppChargingCharacteristics, given (e.threegppChargingCharacteristics != "")
        (.str (cstr e.threegppChargingCharacteristics))),
      (jsonNssai, some (snssaiToJson ind e.nssai))] := by
  refine holds_written [] _ _ [jsonDnnListId, json3gppChargingCharacteristics, jsonNssai] ?_ rfl
    (by decide) (by decide)
  simp only [nssaiDetailsToJson, writtenObject, member_eq, strToJson_eq, List.append_assoc,
    ← Json.present_append, List.cons_append, List.nil_append, Json.present_nil]

theorem getNssaiDetails_written {e : NssaiDetails Json} (h : e.Storable) (key : String) :
    getNssaiDetails id p key (nssaiDetailsToJson ind e) = pure (some e) := by
  obtain ⟨os, hv, hos⟩ := written_nssaiDetails ind e
  obtain ⟨hdnnListId, hcharging, hnssai⟩ := hos.found
  obtain ⟨ns, hns, hnsHolds⟩ := written_snssai ind e.nssai
  rw [hns] at hnssai
  rw [hv]
  refine objectElement_eq (Json.isObject_obj os) ?_
  refine inOrder_step (into_vendor hos rfl) ?_
  refine inOrder_step (optionalText hdnnListId h.dnnListId rfl) ?_
  refine inOrder_step (optionalText hcharging h.threegppChargingCharacteristics rfl) ?_
  exact inOrder_step (mandatoryPart hnssai (Json.isObject_obj ns)
    (getSnssai_eq ind h.nssai hnsHolds)) rfl

/-! ## The attributes of a DNN -/

theorem written_pduSessionTypes (e : PduSessionTypes Json) :
    ∃ os, pduSessionTypesToJson e = .obj os ∧ Holds os e.vendorSpecific [
      (jsonDefaultSessionType, given (e.defaultSessionType != "")
        (.str (cstr e.defaultSessionType))),
      (jsonAllowedSessionTypes, given (!e.allowedSessionTypes.isEmpty)
        (stringsToJson e.allowedSessionTypes))] := by
  refine holds_written [] _ _ [jsonDefaultSessionType, jsonAllowedSessionTypes] ?_ rfl (by decide)
    (by decide)
  simp only [pduSessionTypesToJson, writtenObject, strToJson_eq, stringListToJson_eq,
    List.append_assoc, ← Json.present_append, List.cons_append, List.nil_append, Json.present_nil]

/-- The object is read into the DNN, which it leaves a flag in. -/
theorem getPduSessionTypes_written {e : PduSessionTypes Json} (h : e.Storable) {t : DnnData Json}
    (hblank : t.pduSessionTypes = {}) :
    getPduSessionTypes id p (pduSessionTypesToJson e) t = pure { t with
      pduSessionTypes := e
      fieldExistence.hasAllowedSessionTypes := !e.allowedSessionTypes.isEmpty } := by
  obtain ⟨os, hv, hos⟩ := written_pduSessionTypes e
  obtain ⟨hdefault, hallowed⟩ := hos.found
  rw [hv]
  refine inOrder_step (into_vendor hos (by rw [hblank])) ?_
  refine inOrder_step (optionalText hdefault h.defaultSessionType (by rw [hblank])) ?_
  refine inOrder_step (ifMember_given hallowed (fun hsome => ?_) fun hnone => ?_) rfl
  · refine (strings_eq h.allowedSessionTypes).trans ?_
    rw [hblank, hsome]
    rfl
  · have hempty : e.allowedSessionTypes = [] := by simpa using hnone
    obtain ⟨defaultSessionType, allowedSessionTypes, vendorSpecific⟩ := e
    subst hempty
    rw [hblank]
    rfl

theorem written_sscModes (e : SscModes Json) :
    ∃ os, sscModesToJson e = .obj os ∧ Holds os e.vendorSpecific [
      (jsonDefaultSscMode, given (e.defaultSscMode != "") (.str (cstr e.defaultSscMode))),
      (jsonAllowedSscModes, given (!e.allowedSscModes.isEmpty)
        (stringsToJson e.allowedSscModes))] := by
  refine holds_written [] _ _ [jsonDefaultSscMode, jsonAllowedSscModes] ?_ rfl (by decide)
    (by decide)
  simp only [sscModesToJson, writtenObject, strToJson_eq, stringListToJson_eq, List.append_assoc,
    ← Json.present_append, List.cons_append, List.nil_append, Json.present_nil]

theorem getSscModes_written {e : SscModes Json} (h : e.Storable) :
    getSscModes id p (sscModesToJson e) {} = pure e := by
  obtain ⟨os, hv, hos⟩ := written_sscModes e
  obtain ⟨hdefault, hallowed⟩ := hos.found
  rw [hv]
  refine inOrder_step (into_vendor hos rfl) ?_
  refine inOrder_step (optionalText hdefault h.defaultSscMode rfl) ?_
  exact inOrder_step (optionalStrings hallowed h.allowedSscModes rfl) rfl

theorem written_upSecurity (e : UpSecurity Json) :
    ∃ os, upSecurityToJson e = .obj os ∧ Holds os e.vendorSpecific [
      (jsonUpIntegr, given (e.upIntegr != "") (.str (cstr e.upIntegr))),
      (jsonUpConfid, given (e.upConfid != "") (.str (cstr e.upConfid)))] := by
  refine holds_written [] _ _ [jsonUpIntegr, jsonUpConfid] ?_ rfl (by decide) (by decide)
  simp only [upSecurityToJson, writtenObject, strToJson_eq, List.append_assoc,
    ← Json.present_append, List.cons_append, List.nil_append, Json.present_nil]

theorem getUpSecurity_written {e : UpSecurity Json} (h : e.Storable) :
    getUpSecurity id p (upSecurityToJson e) {} = pure e := by
  obtain ⟨os, hv, hos⟩ := written_upSecurity e
  obtain ⟨hintegr, hconfid⟩ := hos.found
  rw [hv]
  refine inOrder_step (into_vendor hos rfl) ?_
  refine inOrder_step (optionalText hintegr h.upIntegr rfl) ?_
  exact inOrder_step (optionalText hconfid h.upConfid rfl) rfl

theorem written_sessionAmbr (e : Ambr Json) :
    ∃ os, sessionAmbrToJson e = .obj os ∧ Holds os e.vendorSpecific [
      (jsonUplink, given (e.uplink != "") (.str (cstr e.uplink))),
      (jsonDownlink, given (e.downlink != "") (.str (cstr e.downlink)))] := by
  refine holds_written [] _ _ [jsonUplink, jsonDownlink] ?_ rfl (by decide) (by decide)
  simp only [sessionAmbrToJson, writtenObject, strToJson_eq, List.append_assoc,
    ← Json.present_append, List.cons_append, List.nil_append, Json.present_nil]

theorem getSessionAmbr_written {e : Ambr Json} (h : e.Storable) :
    getSessionAmbr id p (sessionAmbrToJson e) {} = pure e := by
  obtain ⟨os, hv, hos⟩ := written_sessionAmbr e
  obtain ⟨huplink, hdownlink⟩ := hos.found
  rw [hv]
  refine inOrder_step (into_vendor hos rfl) ?_
  refine inOrder_step (mandatoryText huplink h.uplink) ?_
  exact inOrder_step (mandatoryText hdownlink h.downlink) rfl

theorem written_arp (e : Arp Json) :
    ∃ os, arpToJson ind e = .obj os ∧ Holds os e.vendorSpecific [
      (jsonPriorityLevel, some (.int (ind.readInt e.priorityLevel))),
      (jsonPreemptcap, given (e.preemptCap != "") (.str (cstr e.preemptCap))),
      (jsonPreemptvuln, given (e.preemptVuln != "") (.str (cstr e.preemptVuln)))] := by
  refine holds_written [] _ _ [jsonPriorityLevel, jsonPreemptcap, jsonPreemptvuln] ?_ rfl
    (by decide) (by decide)
  simp only [arpToJson, writtenObject, intToJson, member_eq, strToJson_eq, List.append_assoc,
    ← Json.present_append, List.cons_append, List.nil_append, Json.present_nil]

theorem getArp_written {e : Arp Json} (h : e.Storable) :
    getArp id p (arpToJson ind e) {} = pure e := by
  obtain ⟨os, hv, hos⟩ := written_arp ind e
  obtain ⟨hlevel, hcap, hvuln⟩ := hos.found
  rw [hv]
  refine inOrder_step (into_vendor hos rfl) ?_
  refine inOrder_step (mandatoryInt ind hlevel h.priorityLevel
    (fun x t => { t with priorityLevel := x }) fun _ => rfl) ?_
  refine inOrder_step (mandatoryText hcap h.preemptCap) ?_
  exact inOrder_step (mandatoryText hvuln h.preemptVuln) rfl

theorem written_fivegQosProfile (e : FivegQosProfile Json) :
    ∃ os, fivegQosProfileToJson ind e = .obj os ∧ Holds os e.vendorSpecific [
      (json5qi, some (.int (ind.readInt e.fiveqi))),
      (jsonArp, some (arpToJson ind e.arp)),
      (jsonPriorityLevel, given e.fieldExistence.hasPriorityLevel
        (.int (ind.readInt e.priorityLevel)))] := by
  refine holds_written [] _ _ [json5qi, jsonArp, jsonPriorityLevel] ?_ rfl (by decide)
    (by decide)
  simp only [fivegQosProfileToJson, writtenObject, intToJson, member_eq, whenFlag_eq,
    List.append_assoc, ← Json.present_append, List.cons_append, List.nil_append, Json.present_nil]

theorem getFivegQosProfile_written {e : FivegQosProfile Json} (h : e.Storable) :
    getFivegQosProfile id p (fivegQosProfileToJson ind e) {} = pure e := by
  obtain ⟨os, hv, hos⟩ := written_fivegQosProfile ind e
  obtain ⟨hfiveqi, harp, hlevel⟩ := hos.found
  obtain ⟨as, has, -⟩ := written_arp ind e.arp
  rw [hv]
  refine inOrder_step (into_vendor hos rfl) ?_
  refine inOrder_step (mandatoryInt ind hfiveqi h.fiveqi (fun x t => { t with fiveqi := x })
    fun _ => rfl) ?_
  refine inOrder_step (mandatoryPart harp (has ▸ Json.isObject_obj as)
    (getArp_written ind h.arp)) ?_
  exact inOrder_step (flaggedInt ind hlevel h.priorityLevel
    (fun b x t => { t with priorityLevel := x, fieldExistence.hasPriorityLevel := b })
    (fun n hn => marking_eq (int_eq hn)) rfl) rfl

/-- A truth value of a DNN. -/
theorem getDnnDataFlag_written {os : List (String × Json)} {key : String} {flag : Bool}
    {x : Option Bool} (hos : os.lookup key = given flag (.bool (ind.readBool x)))
    (hx : x.isSome = flag) {setFlag put : Bool → DnnData Json → DnnData Json} {e : DnnData Json}
    (set : Bool → Option Bool → DnnData Json → DnnData Json)
    (hsome : ∀ b, put b (setFlag true e) = set true (some b) e)
    (hnone : setFlag false e = set false none e) :
    getDnnDataFlag p key setFlag put (.obj os) e = pure (set flag x e) := by
  refine flaggedBool ind hos hx set (fun b => ?_) (congrArg pure hnone)
  rw [← hsome]
  rfl

theorem written_dnnData (e : DnnData Json) :
    ∃ os, dnnDataToJson ind e = .obj os ∧ Holds os e.vendorSpecific [
      (jsonDnn, given (e.dnn != "") (.str (cstr e.dnn))),
      (jsonDefaultDnnIndicator, given e.fieldExistence.hasDefaultDnnIndicator
        (.bool (ind.readBool e.defaultDnnIndicator))),
      (jsonLboRoamingAllowed, given e.fieldExistence.hasLboRoamingAllowed
        (.bool (ind.readBool e.lboRoamingAllowed))),
      (jsonIwkEpsInd, given e.fieldExistence.hasIwkEpsInd (.bool (ind.readBool e.iwkEpsInd))),
      (jsonLadnIndicator, given e.fieldExistence.hasLadnIndicator
        (.bool (ind.readBool e.ladnIndicator))),
      (jsonPduSessionTypes, given e.fieldExistence.hasPduSessionTypes
        (pduSessionTypesToJson e.pduSessionTypes)),
      (jsonSscModes, given e.fieldExistence.hasSscModes (sscModesToJson e.sscModes)),
      (json5gQosProfile, given e.fieldExistence.hasFivegQosProfile
        (fivegQosProfileToJson ind e.fivegQosProfile)),
      (jsonSessionAmbr, given e.fieldExistence.hasSessionAmbr (sessionAmbrToJson e.sessionAmbr)),
      (json3gppChargingCharacteristics, given (e.threegppChargingCharacteristics != "")
        (.str (cstr e.threegppChargingCharacteristics))),
      (jsonUpSecurity, given e.fieldExistence.hasUpSecurity (upSecurityToJson e.upSecurity)),
      (jsonSmfList, given e.fieldExistence.hasSmfList (stringsToJson e.smfList)),
      (jsonSameSmfInd, given e.fieldExistence.hasSameSmfInd
        (.bool (ind.readBool e.sameSmfInd)))] := by
  refine holds_written [] _ _ [jsonDnn, jsonDefaultDnnIndicator, jsonLboRoamingAllowed,
    jsonIwkEpsInd, jsonLadnIndicator, jsonPduSessionTypes, jsonSscModes, json5gQosProfile,
    jsonSessionAmbr, json3gppChargingCharacteristics, jsonUpSecurity, jsonSmfList,
    jsonSameSmfInd] ?_ rfl (by decide) (by decide)
  simp only [dnnDataToJson, writtenObject, boolToJson, member_eq, whenFlag_eq, strToJson_eq,
    List.append_assoc, ← Json.present_append, List.cons_append, List.nil_append, Json.present_nil]

/-- **The attributes of a DNN are found again.** -/
theorem getDnnData_written {e : DnnData Json} (h : e.Storable) :
    getDnnData id p (dnnDataToJson ind e) {} = pure e := by
  obtain ⟨os, hv, hos⟩ := written_dnnData ind e
  obtain ⟨hdnn, hdefault, hlbo, hiwk, hladn, hpdu, hssc, hqos, hambr, hcharging, hsecurity, hsmf,
    hsame⟩ := hos.found
  obtain ⟨pdu, hpduObject, -⟩ := written_pduSessionTypes e.pduSessionTypes
  obtain ⟨ssc, hsscObject, -⟩ := written_sscModes e.sscModes
  obtain ⟨qos, hqosObject, -⟩ := written_fivegQosProfile ind e.fivegQosProfile
  obtain ⟨ambr, hambrObject, -⟩ := written_sessionAmbr e.sessionAmbr
  obtain ⟨security, hsecurityObject, -⟩ := written_upSecurity e.upSecurity
  rw [hv]
  refine inOrder_step (into_vendor hos rfl) ?_
  refine inOrder_step (optionalText hdnn h.dnn rfl) ?_
  refine inOrder_step (getDnnDataFlag_written ind hdefault h.defaultDnnIndicator
    (fun b x t => { t with
      defaultDnnIndicator := x, fieldExistence.hasDefaultDnnIndicator := b })
    (fun _ => rfl) rfl) ?_
  refine inOrder_step (getDnnDataFlag_written ind hlbo h.lboRoamingAllowed
    (fun b x t => { t with lboRoamingAllowed := x, fieldExistence.hasLboRoamingAllowed := b })
    (fun _ => rfl) rfl) ?_
  refine inOrder_step (getDnnDataFlag_written ind hiwk h.iwkEpsInd
    (fun b x t => { t with iwkEpsInd := x, fieldExistence.hasIwkEpsInd := b })
    (fun _ => rfl) rfl) ?_
  refine inOrder_step (getDnnDataFlag_written ind hladn h.ladnIndicator
    (fun b x t => { t with ladnIndicator := x, fieldExistence.hasLadnIndicator := b })
    (fun _ => rfl) rfl) ?_
  refine inOrder_step (flaggedPart hpdu h.pduSessionTypes
    (fun b a t => { t with
      pduSessionTypes := a
      fieldExistence.hasPduSessionTypes := b
      fieldExistence.hasAllowedSessionTypes := !a.allowedSessionTypes.isEmpty })
    (fun hstored => ?_) rfl) ?_
  · refine marking_eq ((object_eq (hpduObject ▸ Json.isObject_obj pdu)).trans ?_)
    exact getPduSessionTypes_written hstored rfl
  refine inOrder_step (flaggedPart hssc h.sscModes
    (fun b a t => { t with sscModes := a, fieldExistence.hasSscModes := b })
    (fun hstored => ?_) rfl) ?_
  · refine marking_eq ((object_eq (hsscObject ▸ Json.isObject_obj ssc)).trans ?_)
    exact into_eq (getSscModes_written hstored)
  refine inOrder_step (optionalText hcharging h.threegppChargingCharacteristics rfl) ?_
  refine inOrder_step (flaggedPart hsecurity h.upSecurity
    (fun b a t => { t with upSecurity := a, fieldExistence.hasUpSecurity := b })
    (fun hstored => ?_) rfl) ?_
  · refine marking_eq ((object_eq (hsecurityObject ▸ Json.isObject_obj security)).trans ?_)
    exact into_eq (getUpSecurity_written hstored)
  refine inOrder_step (flaggedPart hambr h.sessionAmbr
    (fun b a t => { t with sessionAmbr := a, fieldExistence.hasSessionAmbr := b })
    (fun hstored => ?_) rfl) ?_
  · refine marking_eq ((object_eq (hambrObject ▸ Json.isObject_obj ambr)).trans ?_)
    exact into_eq (getSessionAmbr_written hstored)
  refine inOrder_step (flaggedPart hsmf h.smfList
    (fun b a t => { t with smfList := a, fieldExistence.hasSmfList := b })
    (fun hstored => marking_eq (strings_eq hstored)) rfl) ?_
  refine inOrder_step (getDnnDataFlag_written ind hsame h.sameSmfInd
    (fun b x t => { t with sameSmfInd := x, fieldExistence.hasSameSmfInd := b })
    (fun _ => rfl) rfl) ?_
  refine inOrder_step (flaggedPart hqos h.fivegQosProfile
    (fun b a t => { t with fivegQosProfile := a, fieldExistence.hasFivegQosProfile := b })
    (fun hstored => ?_) rfl) ?_
  · refine marking_eq ((object_eq (hqosObject ▸ Json.isObject_obj qos)).trans ?_)
    exact into_eq (getFivegQosProfile_written ind hstored)
  show pure { e with
    fieldExistence.hasAllowedSessionTypes := !e.pduSessionTypes.allowedSessionTypes.isEmpty } = _
  rw [← h.hasAllowedSessionTypes]

/-! ## Lists of DNNs -/

theorem written_dnnList (e : DnnList Json) :
    ∃ os, dnnListToJson ind e = .obj os ∧ Holds os e.vendorSpecific [
      (jsonDnnListId, given (e.dnnListId != "") (.str (cstr e.dnnListId))),
      (jsonDnnDataList, given (!e.dnnDataList.isEmpty)
        (.arr (e.dnnDataList.map (dnnDataToJson ind))))] := by
  refine holds_written [] _ _ [jsonDnnListId, jsonDnnDataList] ?_ rfl (by decide)
    (by decide)
  simp only [dnnListToJson, writtenObject, strToJson_eq, listToJson_eq, List.append_assoc,
    ← Json.present_append, List.cons_append, List.nil_append, Json.present_nil]

theorem getDnnList_written {e : DnnList Json} (h : e.Storable) :
    getDnnList id p (dnnListToJson ind e) {} = pure e := by
  obtain ⟨os, hv, hos⟩ := written_dnnList ind e
  obtain ⟨hid, hdata⟩ := hos.found
  have helement : ∀ d ∈ e.dnnDataList, Reader.objectElement p jsonDnnDataList
      (Reader.fresh {} (getDnnData id p)) (dnnDataToJson ind d) = pure (some d) := by
    intro d hd
    obtain ⟨ds, hds, -⟩ := written_dnnData ind d
    exact objectElement_eq (hds ▸ Json.isObject_obj ds)
      (getDnnData_written ind (h.dnnDataList d hd))
  rw [hv]
  refine inOrder_step (into_vendor hos rfl) ?_
  refine inOrder_step (mandatoryText hid h.dnnListId) ?_
  exact inOrder_step (optionalArray hdata helement rfl) rfl

/-! ## Sets of PLMNs -/

theorem written_sliceInfoNssai (e : PlmnIdSets Json) :
    ∃ os, sliceInfoNssaiToJson ind e = .obj os ∧ Holds os e.nssai.vendorSpecific [
      (jsonDefaultSingleNssais, given (!e.nssai.defaultSingleNssais.isEmpty)
        (.arr (e.nssai.defaultSingleNssais.map (nssaiDetailsToJson ind)))),
      (jsonSingleNssais, given (e.fieldExistenceUdmSliceProfile.hasNssai &&
        !e.nssai.singleNssais.isEmpty)
          (.arr (e.nssai.singleNssais.map (nssaiDetailsToJson ind))))] := by
  have hboth : ∀ (flag flag' : Bool) (key : String) (w : Json),
      whenFlag flag (Json.present [(key, given flag' w)]) =
        Json.present [(key, given (flag && flag') w)] := by
    intro flag flag' key w
    cases flag <;> cases flag' <;> rfl
  refine holds_written [] _ _ [jsonDefaultSingleNssais, jsonSingleNssais] ?_ rfl (by decide)
    (by decide)
  simp only [sliceInfoNssaiToJson, writtenObject, listToJson_eq, hboth, List.append_assoc,
    ← Json.present_append, List.cons_append, List.nil_append, Json.present_nil]

/-- The object is read into the set, which it leaves a flag in. -/
theorem getSliceInfoNssai_written {e t : PlmnIdSets Json} (h : e.nssai.Storable)
    (hflag : e.fieldExistenceUdmSliceProfile.hasNssai = !e.nssai.singleNssais.isEmpty)
    (hblank : t.nssai = {}) :
    getSliceInfoNssai id p (sliceInfoNssaiToJson ind e) t = pure { t with
      nssai := e.nssai
      fieldExistenceUdmSliceProfile.hasNssai := e.fieldExistenceUdmSliceProfile.hasNssai } := by
  obtain ⟨os, hv, hos⟩ := written_sliceInfoNssai ind e
  rw [hflag, Bool.and_self] at hos
  obtain ⟨hdefaults, hsingles⟩ := hos.found
  obtain ⟨plmnIdSetIdentifier, nssai, dnnLists, flags, vendorSpecific⟩ := t
  obtain rfl : nssai = {} := hblank
  rw [hv, hflag]
  refine inOrder_step (into_vendor hos rfl) ?_
  refine inOrder_step (optionalArray hdefaults
    (fun n hn => getNssaiDetails_written ind (h.defaultSingleNssais n hn) _) rfl) ?_
  refine inOrder_step (ifMember_given hsingles (fun hsome => ?_) fun hnone => ?_) rfl
  · rw [hsome]
    exact marking_eq (array_eq fun n hn =>
      getNssaiDetails_written ind (h.singleNssais n hn) _)
  · have hempty : e.nssai.singleNssais = [] := by simpa using hnone
    have hnssai : e.nssai = { e.nssai with singleNssais := [] } := by rw [← hempty]
    rw [hnssai]
    rfl

/-- The check that an object `nssai` has a default finds nothing. -/
theorem checkAnyNssai_eq {e : PlmnIdSets Json}
    (h : e.fieldExistenceUdmSliceProfile.hasAnyNssai = true → e.nssai.defaultSingleNssais ≠ [])
    (v : Json) : checkAnyNssai p v e = pure e := by
  have hcond : ¬ (e.fieldExistenceUdmSliceProfile.hasAnyNssai = true ∧
      e.nssai.defaultSingleNssais.length = 0) := fun hboth =>
    h hboth.1 (List.length_eq_zero_iff.1 hboth.2)
  rw [checkAnyNssai, if_neg hcond]

theorem written_plmnIdSet (e : PlmnIdSets Json) :
    ∃ os, plmnIdSetToJson ind e = .obj os ∧ Holds os e.vendorSpecific [
      (jsonPlmnIdSetIdentifier, given (e.plmnIdSetIdentifier != "")
        (.str (cstr e.plmnIdSetIdentifier))),
      (jsonNssai, given e.fieldExistenceUdmSliceProfile.hasAnyNssai (sliceInfoNssaiToJson ind e)),
      (jsonDnnLists, given (!e.dnnLists.isEmpty) (.arr (e.dnnLists.map (dnnListToJson ind))))] := by
  refine holds_written [] _ _ [jsonPlmnIdSetIdentifier, jsonNssai, jsonDnnLists] ?_ rfl
    (by decide) (by decide)
  simp only [plmnIdSetToJson, writtenObject, member_eq, whenFlag_eq, strToJson_eq, listToJson_eq,
    List.append_assoc, ← Json.present_append, List.cons_append, List.nil_append, Json.present_nil]

/-- **A set is found again.** -/
theorem getPlmnIdSet_written {isSliceData : Bool} {e : PlmnIdSets Json}
    (h : e.Storable isSliceData) :
    getPlmnIdSet id p isSliceData (plmnIdSetToJson ind e) {} = pure e := by
  obtain ⟨os, hv, hos⟩ := written_plmnIdSet ind e
  obtain ⟨hidentifier, hnssai, hlists⟩ := hos.found
  obtain ⟨ns, hns, -⟩ := written_sliceInfoNssai ind e
  have helement : ∀ l ∈ e.dnnLists, Reader.objectElement p jsonDnnLists
      (Reader.fresh {} (getDnnList id p)) (dnnListToJson ind l) = pure (some l) := by
    intro l hl
    obtain ⟨ls, hls, -⟩ := written_dnnList ind l
    exact objectElement_eq (hls ▸ Json.isObject_obj ls) (getDnnList_written ind (h.dnnLists l hl))
  rw [hv]
  refine inOrder_step (into_vendor hos rfl) ?_
  refine inOrder_step (mandatoryText hidentifier h.plmnIdSetIdentifier) ?_
  refine inOrder_step rfl ?_
  refine inOrder_step (flaggedPart hnssai h.nssai
    (fun b a t => { t with
      nssai := a
      fieldExistenceUdmSliceProfile.hasNssai := !a.singleNssais.isEmpty
      fieldExistenceUdmSliceProfile.hasAnyNssai := b })
    (fun hstored => ?_) rfl) ?_
  · refine marking_eq ((object_eq (hns ▸ Json.isObject_obj ns)).trans ?_)
    refine (getSliceInfoNssai_written ind hstored h.hasNssai rfl).trans ?_
    rw [h.hasNssai]
  refine inOrder_step (checkAnyNssai_eq ?_ _) ?_
  · exact fun hany => (h.nssai.1 hany).some_default
  refine inOrder_step (ifMember_given hlists (fun _ => array_eq helement) fun hnone => ?_) ?_
  · have hempty : e.dnnLists = [] := by simpa using hnone
    cases isSliceData with
    | true =>
      rw [hempty]
      rfl
    | false => exact absurd hempty (h.some_dnnList rfl)
  show pure { e with
    fieldExistenceUdmSliceProfile.hasNssai := !e.nssai.singleNssais.isEmpty } = _
  rw [← h.hasNssai]

theorem getPlmnIdSets_written {isSliceData : Bool} {sets : List (PlmnIdSets Json)}
    (h : ∀ s ∈ sets, s.Storable isSliceData) :
    getPlmnIdSets id p isSliceData (sets.map (plmnIdSetToJson ind)) = pure sets := by
  refine collect_eq fun s hs => ?_
  show (getPlmnIdSet id p isSliceData (plmnIdSetToJson ind s) {} >>= fun a => pure (some a)) = _
  rw [getPlmnIdSet_written ind (h s hs), pure_bind]

/-! ## The profile -/

theorem written_udmSliceProfile (e : UdmSliceProfile Json) :
    ∃ os, udmSliceProfileToJson ind e = .obj os ∧ Holds os e.vendorSpecific [
      (jsonUdmSliceProfileId, given (e.udmSliceProfileId != "") (.str (cstr e.udmSliceProfileId))),
      (jsonPlmnIdSets, given (!e.plmnIdSets.isEmpty)
        (.arr (e.plmnIdSets.map (plmnIdSetToJson ind))))] := by
  refine holds_written [] _ _ [jsonUdmSliceProfileId, jsonPlmnIdSets] ?_ rfl (by decide)
    (by decide)
  simp only [udmSliceProfileToJson, plmnIdsToJson, writtenObject, strToJson_eq, listToJson_eq,
    List.append_assoc, ← Json.present_append, List.cons_append, List.nil_append, Json.present_nil]

/-- **A slice profile that is written can be read again**: the reader finds it as it was, and
records nothing. -/
theorem getUdmSliceProfile_written {e : UdmSliceProfile Json} (h : e.Storable) :
    getUdmSliceProfile id p (udmSliceProfileToJson ind e) {} = pure e := by
  obtain ⟨os, hv, hos⟩ := written_udmSliceProfile ind e
  obtain ⟨hid, hsets⟩ := hos.found
  rw [hv]
  refine inOrder_step (into_vendor hos rfl) ?_
  refine inOrder_step (optionalText hid h.udmSliceProfileId rfl) ?_
  refine inOrder_step (ifMember_given hsets (fun _ => ?_) fun hnone => ?_) rfl
  · show (getPlmnIdSets id p false (e.plmnIdSets.map (plmnIdSetToJson ind)) >>= fun sets =>
      pure { ({} : UdmSliceProfile Json) with
        vendorSpecific := e.vendorSpecific
        udmSliceProfileId := e.udmSliceProfileId
        plmnIdSets := sets }) = pure e
    rw [getPlmnIdSets_written ind h.plmnIdSets, pure_bind]
  · have hempty : e.plmnIdSets = [] := by simpa using hnone
    obtain ⟨udmSliceProfileId, plmnIdSets, vendorSpecific⟩ := e
    obtain rfl : plmnIdSets = [] := hempty
    rfl

end ProvisioningValidator
