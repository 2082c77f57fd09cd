import Mathlib
import ProvisioningValidator.Batches
import ProvisioningValidator.StaticAddresses
import ProvisioningValidator.SubscriberLookup

/-!
# Acceptable changes

What a provisioned resource has to look like, and what has to be found beside it, said without the
rules: a predicate for each level of a subscription, of a roaming area and of SMS data, beside those
for the sets of a slice profile (`WellFormedSets`), and from them what each kind of resource asks of
a change, and `Acceptable`.

**Theorem (`answered_iff_acceptable`).** A request is answered with 200 exactly if request and
response pass the check against the interface description, the request is read without an error, and
its changes are acceptable.

What is not acceptable may be so for want of a resource: `Missing` says when, and `outcome_iff` tells
the codes of a run apart by the two.
-/

namespace ProvisioningValidator

open Lib Lib.Regex Lib.Run Checked

variable {V : Type}

/-! ## Static addresses -/

/-- An address is one of its type. -/
structure AddressWellFormed (a : IpAddr V) : Prop where
  ipv4 : a.ipType = .ipv4 → IsIpv4 (cstr a.ip).toList
  ipv6 : a.ipType = .ipv6 → IsIpv6 (cstr a.ip).toList
  ipv6Prefix : a.ipType = .ipv6Prefix → IsIpv6Prefix (cstr a.ip).toList

/-- A DNN has one address or two. -/
structure DnnIpsWellFormed (d : DnnIps V) : Prop where
  some_address : d.ipAddress ≠ []
  at_most_two : d.ipAddress.length ≤ 2
  addresses : ∀ a ∈ d.ipAddress, AddressWellFormed a

/-- The addresses under one S-NSSAI. -/
structure NssaiDnnIpsWellFormed (ind : Indeterminate) (l : NssaiDnnIps V) : Prop where
  sst : 0 ≤ ind.readInt l.snssai.sst ∧ ind.readInt l.snssai.sst ≤ 255
  sd : l.snssai.sd = "" ∨ HexDigits 6 (cstr l.snssai.sd).toList
  dnns : ∀ d ∈ l.dnnIpList, DnnIpsWellFormed d

theorem validIp_iff_wellFormed {a : IpAddr V} : validIp a = true ↔ AddressWellFormed a := by
  have hwhole : ∀ re : Regex, matchesCStr re a.ip = true ↔ (cstr a.ip).toList ∈ re.lang :=
    fun re => isMatch_iff re _
  constructor
  · intro h
    rw [validIp] at h
    refine ⟨fun htype => ?_, fun htype => ?_, fun htype => ?_⟩
    · simp only [htype] at h
      exact mem_lang_ipv4.1 ((hwhole _).1 h)
    · simp only [htype, Bool.and_eq_true, hwhole] at h
      exact mem_lang_ipv6.1 h
    · simp only [htype, Bool.and_eq_true, hwhole] at h
      exact mem_lang_ipv6Prefix.1 h
  · intro h
    rw [validIp]
    cases htype : a.ipType with
    | ipv4 => exact (hwhole _).2 (mem_lang_ipv4.2 (h.ipv4 htype))
    | ipv6 =>
      simp only [Bool.and_eq_true, hwhole]
      exact mem_lang_ipv6.2 (h.ipv6 htype)
    | ipv6Prefix =>
      simp only [Bool.and_eq_true, hwhole]
      exact mem_lang_ipv6Prefix.2 (h.ipv6Prefix htype)

section

variable {ind : Indeterminate} {resourcePath : String}

theorem ret_dnnIpsRules {d : DnnIps V} :
    (dnnIpsRules resourcePath d).ret = true ↔ DnnIpsWellFormed d := by
  rw [dnnIpsRules, ret_inOrder]
  simp only [List.forall_mem_cons, ret_failIf, ret_forEach, List.not_mem_nil, false_implies,
    implies_true, and_true, Bool.not_eq_false, validIp_iff_wellFormed, not_or, not_lt, gt_iff_lt]
  constructor
  · intro h
    obtain ⟨⟨hsome, htwo⟩, haddresses⟩ := h
    exact ⟨List.length_pos_iff.1 hsome, htwo, haddresses⟩
  · intro h
    exact ⟨⟨List.length_pos_iff.2 h.some_address, h.at_most_two⟩, h.addresses⟩

theorem ret_nssaiDnnIpsRules {l : NssaiDnnIps V} :
    (nssaiDnnIpsRules ind resourcePath l).ret = true ↔ NssaiDnnIpsWellFormed ind l := by
  rw [nssaiDnnIpsRules, ret_inOrder]
  simp only [List.forall_mem_cons, ret_failIf, ret_forEach, ret_dnnIpsRules, List.not_mem_nil,
    false_implies, implies_true, and_true, not_or, not_and_or, not_not, not_lt, gt_iff_lt,
    Bool.not_eq_false, matchesCStr_sd]
  exact ⟨fun h => ⟨h.1.symm, h.2.1, h.2.2⟩, fun h => ⟨h.sst.symm, h.sd, h.dnns⟩⟩

end

/-! ## Subscriptions -/

/-- One area at most. A restriction has a type and areas to apply to, and a number of tracking areas
only where it is not a list of forbidden ones. -/
structure RestrictionWellFormed (hasMaxNumOfTas : Bool) (r : ServiceAreaRestriction V) : Prop where
  one_area : r.areas.length ≤ 1
  has_areas : r.restrictionType ≠ "" → r.areas ≠ []
  maxNumOfTas : hasMaxNumOfTas = true → r.restrictionType ≠ jsonNotAllowedAreas
  restrictionType : r.restrictionType ∈ ["", jsonNotAllowedAreas, jsonAllowedAreas]

section

variable (ind : Indeterminate)

/-- Slice data fit the profile of the subscription: a list that an entry names is defined under the
identifier of its set, here or there. -/
structure SliceDataWellFormed (profile : UdmSliceProfile V) (sets : List (PlmnIdSets V)) : Prop where
  each : SetsWellFormed ind false sets
  nothingRepeated : NothingRepeated ind sets
  references : ∀ s ∈ sets, ∀ n ∈ nssaiEntries s, n.dnnListId ≠ "" →
    DefinedIn sets s.plmnIdSetIdentifier n.dnnListId ∨
      DefinedIn profile.plmnIdSets s.plmnIdSetIdentifier n.dnnListId

/-- What is there of a subscription is well-formed. -/
structure SubscriptionWellFormed (profile : UdmSliceProfile V) (d : UdmStaticData V) : Prop where
  forbiddenAreas : d.forbiddenAreas.length ≤ 1
  serviceAreaRestriction : RestrictionWellFormed d.fieldExistence.hasMaxNumOfTas
    d.serviceAreaRestriction
  subscribedUeAmbr : d.fieldExistence.hasSubscribedUeAmbr = true →
    IsBitRate (cstr d.subscribedUeAmbr.uplink) ∧ IsBitRate (cstr d.subscribedUeAmbr.downlink)
  ratRestrictions : ∀ x ∈ d.ratRestrictions, x ∈ [jsonNr, jsonEutra, jsonWlan, jsonVirtual]
  coreNetworkTypeRestrictions : ∀ x ∈ d.coreNetworkTypeRestrictions, x ∈ [json5gc, jsonEpc]
  dlPacketCount : d.fieldExistence.hasDlPacketCount = true → -1 ≤ ind.readInt d.dlPacketCount
  staticIpAddress : d.fieldExistence.hasStaticIpAddress = true →
    ∀ l ∈ d.staticIpAddress.nssaiDnnIpLists, NssaiDnnIpsWellFormed ind l
  roamingOdb : d.roamingOdb ∈ ["", jsonOutsideHomePlmn, jsonOutsideHomePlmnCountry]
  ueUsageType : d.fieldExistence.hasUeUsageType = true →
    0 ≤ ind.readInt d.ueUsageType ∧ ind.readInt d.ueUsageType ≤ 255
  udmSliceData : d.fieldExistence.hasUdmSliceData = true →
    SliceDataWellFormed ind profile d.udmSliceData.plmnIdSets

end

section

variable {ind : Indeterminate} {resourcePath : String}

theorem mem_cons_empty {s : String} {valid : List String} :
    s ∈ "" :: valid ↔ (s ≠ "" → s ∈ valid) := by
  rw [List.mem_cons, or_iff_not_imp_left]

theorem ret_serviceAreaRestrictionRules {hasMaxNumOfTas : Bool} {r : ServiceAreaRestriction V} :
    r.areas.length ≤ 1 ∧
        (serviceAreaRestrictionRules resourcePath hasMaxNumOfTas r).ret = true ↔
      RestrictionWellFormed hasMaxNumOfTas r := by
  rw [serviceAreaRestrictionRules, ret_inOrder]
  simp only [List.forall_mem_cons, ret_failIf, List.not_mem_nil, false_implies, implies_true,
    and_true, not_and, not_not]
  constructor
  · intro h
    obtain ⟨hone, hareas, htas, htype⟩ := h
    exact ⟨hone, hareas, htas, mem_cons_empty.2 htype⟩
  · intro h
    exact ⟨h.one_area, h.has_areas, h.maxNumOfTas, mem_cons_empty.1 h.restrictionType⟩

theorem ret_udmSliceDataRules {profile : UdmSliceProfile V} {sets : List (PlmnIdSets V)} :
    (udmSliceDataRules ind resourcePath sets profile).ret = true ↔
      SliceDataWellFormed ind profile sets := by
  rw [udmSliceDataRules, ret_inOrder]
  simp only [List.forall_mem_cons, ret_guard, ret_checkForCommonUdmSliceProfileRules,
    ret_checkForRepeatedDnnsandNssais, ret_sliceDataReferenceRules, List.not_mem_nil, false_implies,
    implies_true, and_true]
  constructor
  · intro h
    obtain ⟨hsets, hrepeated, hreferences⟩ := h
    refine ⟨?_, hrepeated, hreferences⟩
    by_cases hnone : sets = []
    · rw [hnone]
      exact ⟨List.forall_mem_nil _, fun h => Bool.noConfusion h⟩
    · exact hsets hnone
  · intro h
    exact ⟨fun _ => h.each, h.nothingRepeated, h.references⟩

/-- **The common rules accept exactly the well-formed subscriptions.** -/
theorem ret_checkForCommonUdmSubscriptionRules {c : Change V} {profile : UdmSliceProfile V} :
    (checkForCommonUdmSubscriptionRules ind c profile).ret = true ↔
      SubscriptionWellFormed ind profile c.udmStaticData := by
  rw [checkForCommonUdmSubscriptionRules, ret_inOrder]
  simp only [List.forall_mem_cons, ret_failIf, ret_guard, ret_forEach, ret_subscribedUeAmbrRules,
    enumeratedRules, ret_nssaiDnnIpsRules, ret_udmSliceDataRules, List.not_mem_nil, false_implies,
    implies_true, and_true, not_and, not_or, not_not, not_lt, gt_iff_lt]
  constructor
  · intro h
    obtain ⟨hareas, hforbidden, harea, hambr, hrats, hcores, hcount, hips, hodb, husage, hslice⟩ := h
    exact {
      forbiddenAreas := hforbidden
      serviceAreaRestriction := ret_serviceAreaRestrictionRules.1 ⟨hareas, harea⟩
      subscribedUeAmbr := hambr
      ratRestrictions := hrats
      coreNetworkTypeRestrictions := hcores
      dlPacketCount := hcount
      staticIpAddress := hips
      roamingOdb := mem_cons_empty.2 hodb
      ueUsageType := husage
      udmSliceData := hslice }
  · intro h
    obtain ⟨hareas, harea⟩ := ret_serviceAreaRestrictionRules.2 h.serviceAreaRestriction
    exact ⟨hareas, h.forbiddenAreas, harea, h.subscribedUeAmbr, h.ratRestrictions,
      h.coreNetworkTypeRestrictions, h.dlPacketCount, h.staticIpAddress,
      mem_cons_empty.1 h.roamingOdb, h.ueUsageType, h.udmSliceData⟩

end

/-! ## Roaming areas and SMS data -/

/-- A tracking area code has four hexadecimal digits, or six. -/
def IsTac (s : String) : Prop := HexDigits 4 (cstr s).toList ∨ HexDigits 6 (cstr s).toList

/-- An area that is given by tracking area codes has some. -/
def AreaWellFormed (a : Area) : Prop := ∀ tacs, a = .tacs tacs → tacs ≠ [] ∧ ∀ t ∈ tacs, IsTac t

structure RoamingAreaWellFormed (e : UdmRoamingArea V) : Prop where
  some_area : e.areaList ≠ []
  areas : ∀ a ∈ e.areaList, AreaWellFormed a.area

theorem isTac_iff {s : String} : isTac s = true ↔ IsTac s := by
  rw [isTac, matchesCStr, isMatch_iff, tacsRegexp, mem_lang_alt, mem_lang_times_hexDigit,
    mem_lang_times_hexDigit, IsTac]

theorem ret_areaRules {resourcePath : String} {a : AreaList V} :
    (areaRules resourcePath a).ret = true ↔ AreaWellFormed a.area := by
  rw [areaRules]
  cases a.area with
  | areaCode code =>
    refine iff_of_true rfl fun tacs htacs => ?_
    cases htacs
  | tacs tacs =>
    rw [ret_inOrder]
    simp only [List.forall_mem_cons, ret_failIf, ret_forEach, List.not_mem_nil, false_implies,
      implies_true, and_true, Bool.not_eq_false, isTac_iff, Nat.lt_one_iff,
      List.length_eq_zero_iff]
    constructor
    · intro h tacs' htacs
      rw [← Area.tacs.inj htacs]
      exact h
    · intro h
      exact h tacs rfl

theorem ret_checkForCommonUdmRoamingAreaRules {c : Change V} :
    (checkForCommonUdmRoamingAreaRules c).ret = true ↔ RoamingAreaWellFormed c.udmRoamingArea := by
  rw [checkForCommonUdmRoamingAreaRules, ret_inOrder]
  simp only [List.forall_mem_cons, ret_failIf, ret_forEach, ret_areaRules, List.not_mem_nil,
    false_implies, implies_true, and_true, Nat.lt_one_iff, List.length_eq_zero_iff]
  exact ⟨fun h => ⟨h.1, h.2⟩, fun h => ⟨h.some_area, h.areas⟩⟩

section

variable (ind : Indeterminate)

/-- Barring needs the subscription that is barred, and that one SMS at all. -/
structure SmsConsistent (d : SmsStaticData V) : Prop where
  smsSubscribed :
    flag ind d.fieldExistenceSmsStaticData.hasMtSmsSubscribed
        d.smsManagementSubscriptionData.mtSmsSubscribed = true ∨
      flag ind d.fieldExistenceSmsStaticData.hasMoSmsSubscribed
        d.smsManagementSubscriptionData.moSmsSubscribed = true →
      flag ind d.fieldExistenceSmsStaticData.hasSmsSubscribed
        d.smsSubscriptionData.smsSubscribed = true
  mtSmsSubscribed :
    flag ind d.fieldExistenceSmsStaticData.hasMtSmsBarringAll
        d.smsManagementSubscriptionData.mtSmsBarringAll = true ∨
      flag ind d.fieldExistenceSmsStaticData.hasMtSmsBarringRoaming
        d.smsManagementSubscriptionData.mtSmsBarringRoaming = true →
      flag ind d.fieldExistenceSmsStaticData.hasMtSmsSubscribed
        d.smsManagementSubscriptionData.mtSmsSubscribed = true
  moSmsSubscribed :
    flag ind d.fieldExistenceSmsStaticData.hasMoSmsBarringAll
        d.smsManagementSubscriptionData.moSmsBarringAll = true ∨
      flag ind d.fieldExistenceSmsStaticData.hasMoSmsBarringRoaming
        d.smsManagementSubscriptionData.moSmsBarringRoaming = true →
      flag ind d.fieldExistenceSmsStaticData.hasMoSmsSubscribed
        d.smsManagementSubscriptionData.moSmsSubscribed = true

end

theorem ret_verdict (r : Checked) : r.verdict.ret = r.ret := rfl

theorem ret_commonSmsValidationRules {ind : Indeterminate} {c : Change V} :
    (commonSmsValidationRules ind c).ret = true ↔ SmsConsistent ind c.smsStaticData := by
  have hrule : ∀ a b d : Bool, ¬ ((a || b) = true ∧ d = false) ↔ (a = true ∨ b = true → d = true) := by
    decide
  rw [commonSmsValidationRules, ret_verdict, ret_inOrder]
  simp only [List.forall_mem_cons, checkSmsSubscribed, checkMtSmsSubscribed, checkMoSmsSubscribed,
    ret_failIf, List.not_mem_nil, false_implies, implies_true, and_true, hrule]
  exact ⟨fun h => ⟨h.1, h.2.1, h.2.2⟩,
    fun h => ⟨h.smsSubscribed, h.mtSmsSubscribed, h.moSmsSubscribed⟩⟩

/-! ## The profile of a subscription -/

/-- The profile that an id names: of the resources under paths of profiles, the first in the order
of their paths that has the id. Those in front of it are profiles. -/
def NamedProfile (rr : RelatedResources V) (profId : String) (profile : UdmSliceProfile V) : Prop :=
  ∃ path, isUdmSliceProfile path = true ∧ profile.udmSliceProfileId = profId ∧
    rr.find? path = some (.udmSliceProfile profile) ∧
    ∀ e ∈ rr.entries, e.1 < path → isUdmSliceProfile e.1 = true →
      ∃ p, e.2 = .udmSliceProfile p ∧ p.udmSliceProfileId ≠ profId

theorem findUdmSliceProfile_eq_some_iff {profId : String} {l : List (String × Resource V)}
    {profile : UdmSliceProfile V} : findUdmSliceProfile profId l = some (some profile) ↔
      ∃ path, isUdmSliceProfile path = true ∧ profile.udmSliceProfileId = profId ∧
        ∃ before after, l = before ++ (path, .udmSliceProfile profile) :: after ∧
          ∀ e ∈ before, isUdmSliceProfile e.1 = true →
            ∃ p, e.2 = .udmSliceProfile p ∧ p.udmSliceProfileId ≠ profId := by
  induction l with
  | nil => simp [findUdmSliceProfile]
  | cons e l ih =>
    obtain ⟨key, r⟩ := e
    -- The head is passed over if it is not the profile: the rest of the split is one of the rest.
    have hskip : (isUdmSliceProfile key = true →
        ∃ p, r = .udmSliceProfile p ∧ p.udmSliceProfileId ≠ profId) →
        findUdmSliceProfile profId ((key, r) :: l) = findUdmSliceProfile profId l := by
      intro hpassed
      rw [findUdmSliceProfile]
      split_ifs with hkey
      · obtain ⟨p, rfl, hid⟩ := hpassed hkey
        simp [Resource.getUdmSliceProfile, hid]
      · rfl
    constructor
    · intro h
      by_cases hpassed : isUdmSliceProfile key = true →
          ∃ p, r = .udmSliceProfile p ∧ p.udmSliceProfileId ≠ profId
      · rw [hskip hpassed] at h
        obtain ⟨path, hpath, hid, before, after, rfl, hbefore⟩ := ih.1 h
        exact ⟨path, hpath, hid, (key, r) :: before, after, rfl,
          List.forall_mem_cons.2 ⟨hpassed, hbefore⟩⟩
      · rw [Classical.not_imp] at hpassed
        obtain ⟨hkey, hother⟩ := hpassed
        rw [findUdmSliceProfile, if_pos hkey] at h
        obtain ⟨p, hp, hrest⟩ := Option.bind_eq_some_iff.1 h
        have hr : r = .udmSliceProfile p := by
          cases r with
          | udmSliceProfile q => exact congrArg Resource.udmSliceProfile (Option.some.inj hp)
          | _ => cases hp
        by_cases hid : p.udmSliceProfileId = profId
        · simp only [if_pos hid, Option.pure_def, Option.some.injEq] at hrest
          subst hrest
          exact ⟨key, hkey, hid, [], l, by rw [hr]; rfl, List.forall_mem_nil _⟩
        · exact absurd ⟨p, hr, hid⟩ hother
    · intro h
      obtain ⟨path, hpath, hid, before, after, hsplit, hbefore⟩ := h
      cases before with
      | nil =>
        obtain ⟨⟨rfl, rfl⟩, rfl⟩ := List.cons.inj hsplit
        simp [findUdmSliceProfile, hpath, Resource.getUdmSliceProfile, hid]
      | cons b before =>
        obtain ⟨rfl, rfl⟩ := List.cons.inj hsplit
        rw [List.forall_mem_cons] at hbefore
        rw [hskip hbefore.1]
        exact ih.2 ⟨path, hpath, hid, before, after, rfl, hbefore.2⟩

/-- **The lookup finds the profile that the id names.** -/
theorem getRelatedUdmSliceProfile_iff {rr : RelatedResources V} {profId : String}
    {profile : UdmSliceProfile V} :
    getRelatedUdmSliceProfile rr profId = some (some profile) ↔ NamedProfile rr profId profile := by
  rw [getRelatedUdmSliceProfile, findUdmSliceProfile_eq_some_iff, NamedProfile]
  simp only [OrdMap.exists_split_iff]

/-! ## What each kind asks for -/

section

variable (ind : Indeterminate) (rr : RelatedResources V)

/-- What a creation or an update of a resource of the kind has to bring, and has to find. -/
def ResourceKind.Accepts : ResourceKind → Change V → Prop
  | udmStaticData, c =>
    (c.operation = jsonOperationCreate → ImsiIncluded rr (getMscId c.resourcePath)) ∧
      (c.operation = jsonOperationUpdate → rr.contains c.resourcePath = true) ∧
      ∃ profile, NamedProfile rr c.udmStaticData.udmSliceProfileId.id profile ∧
        SubscriptionWellFormed ind profile c.udmStaticData
  | udmSliceProfile, c =>
    ProfileWellFormed ind c.udmSliceProfile.plmnIdSets ∧
      (c.operation = jsonOperationCreate → NothingRepeated ind c.udmSliceProfile.plmnIdSets) ∧
      (c.operation = jsonOperationUpdate → ∃ p, storedProfile rr c.resourcePath = some p ∧
        (∀ s ∈ c.udmSliceProfile.plmnIdSets, NssaisTolerated ind p s) ∧
        DnnsTolerated p c.udmSliceProfile.plmnIdSets ∧
        ListsCovered p c.udmSliceProfile.plmnIdSets)
  | udmRoamingArea, c =>
    (c.operation = jsonOperationUpdate → rr.contains c.resourcePath = true) ∧
      RoamingAreaWellFormed c.udmRoamingArea
  | smsStaticData, c =>
    (c.operation = jsonOperationCreate →
      ImsiIncluded rr (getSmsStaticDataMscId c.resourcePath)) ∧
      (c.operation = jsonOperationUpdate → rr.contains c.resourcePath = true) ∧
      SmsConsistent ind c.smsStaticData

/-- A change that the rules let pass: a creation or an update as the kind of its path asks for, or a
deletion. Other operations are let pass on SMS data. -/
structure Acceptable (c : Change V) : Prop where
  delivered : Delivers c → ∃ k : ResourceKind, k.routes c.resourcePath = true ∧ k.Accepts ind rr c
  other : ¬ Delivers c → c.operation ≠ jsonOperationDelete →
    isSmsSubscription c.resourcePath = true

end

variable {ind : Indeterminate} {rr : RelatedResources V} {c : Change V}

theorem create_ne_update : jsonOperationCreate ≠ jsonOperationUpdate := by decide

theorem imsiIncluded_iff {m : String} : ImsiIncluded rr m ↔ ∃ journal,
    (rr.find? (buildProvJournalResourcePathFromMscId m)).bind Resource.getProvJournal =
      some journal ∧ journal.imsi ≠ "" := by
  refine exists_congr fun journal => and_congr_left fun _ => ?_
  cases rr.find? (buildProvJournalResourcePathFromMscId m) with
  | none => simp
  | some r => cases r <;> simp [Resource.getProvJournal]

theorem accepted_static_iff (hpath : isUdmStaticData c.resourcePath = true) (hop : Delivers c) :
    accepted ind rr c = true ↔ ResourceKind.udmStaticData.Accepts ind rr c := by
  rw [accepted_subscription_iff hpath hop, SubscriberFound, ResourceKind.Accepts, and_assoc]
  simp only [imsiIncluded_iff, getRelatedUdmSliceProfile_iff, ret_checkForCommonUdmSubscriptionRules]

theorem accepted_sliceProfile_iff (hpath : isUdmSliceProfile c.resourcePath = true)
    (hop : Delivers c) :
    accepted ind rr c = true ↔ ResourceKind.udmSliceProfile.Accepts ind rr c := by
  rw [ResourceKind.Accepts]
  rcases hop with hop | hop
  · rw [accepted_creation_iff hpath hop, hop]
    simp [create_ne_update]
  · rw [accepted_update_iff hpath hop, hop]
    simp only [create_ne_update.symm, false_implies, true_and, forall_const]
    constructor
    · intro h
      obtain ⟨p, hstored, hsets, hrest⟩ := h
      exact ⟨hsets, p, hstored, hrest⟩
    · intro h
      obtain ⟨hsets, p, hstored, hrest⟩ := h
      exact ⟨p, hstored, hsets, hrest⟩

theorem accepted_roamingArea_iff (hpath : isUdmRoamingArea c.resourcePath = true)
    (hop : Delivers c) :
    accepted ind rr c = true ↔ ResourceKind.udmRoamingArea.Accepts ind rr c := by
  have hother : ∀ k : ResourceKind, k ≠ .udmRoamingArea → ¬ k.routes c.resourcePath = true :=
    fun k hne hroute => hne (ResourceKind.eq_of_routes k .udmRoamingArea hroute hpath)
  have hstatic : ¬ isUdmStaticData c.resourcePath = true := hother .udmStaticData (by decide)
  have hslice : ¬ isUdmSliceProfile c.resourcePath = true := hother .udmSliceProfile (by decide)
  rw [accepted_iff_rules, changeRules, if_neg fun h => hstatic h.1, if_neg fun h => hstatic h.1,
    if_neg fun h => hslice h.1, if_neg fun h => hslice h.1, ResourceKind.Accepts]
  rcases hop with hop | hop
  · rw [if_pos ⟨hpath, hop⟩, hop]
    simp only [create_ne_update, false_implies, true_and, Option.some.injEq, exists_eq_left']
    exact ret_checkForCommonUdmRoamingAreaRules
  · rw [if_neg fun h => create_ne_update (h.2.symm.trans hop), if_pos ⟨hpath, hop⟩, hop]
    simp only [Option.some.injEq, exists_eq_left', forall_const]
    rw [checkForUpdateUdmRoamingAreaRules]
    cases rr.contains c.resourcePath with
    | false => simp [unprocessable]
    | true => simp [ret_verdict, ret_checkForCommonUdmRoamingAreaRules]

theorem accepted_sms_iff (hpath : isSmsSubscription c.resourcePath = true) (hop : Delivers c) :
    accepted ind rr c = true ↔ ResourceKind.smsStaticData.Accepts ind rr c := by
  have hother : ∀ k : ResourceKind, k ≠ .smsStaticData → ¬ k.routes c.resourcePath = true :=
    fun k hne hroute => hne (ResourceKind.eq_of_routes k .smsStaticData hroute hpath)
  have hstatic : ¬ isUdmStaticData c.resourcePath = true := hother .udmStaticData (by decide)
  have hslice : ¬ isUdmSliceProfile c.resourcePath = true := hother .udmSliceProfile (by decide)
  have hroaming : ¬ isUdmRoamingArea c.resourcePath = true := hother .udmRoamingArea (by decide)
  have hworst : ∀ v w : Verdict, (getWorstResponseCode [v, w]).ret = (v.ret && w.ret) :=
    fun v w => rfl
  rw [accepted_iff_rules, changeRules, if_neg fun h => hstatic h.1, if_neg fun h => hstatic h.1,
    if_neg fun h => hslice h.1, if_neg fun h => hslice h.1, if_neg fun h => hroaming h.1,
    if_neg fun h => hroaming h.1, if_pos hpath, smsValidationData, ResourceKind.Accepts]
  rcases hop with hop | hop
  · rw [if_neg fun h => create_ne_update (hop.symm.trans h), if_pos hop, hop]
    simp only [create_ne_update, false_implies, true_and, forall_const, imsiIncluded_iff,
      createSpecificSmsValidationRules]
    cases rr.find? (buildProvJournalResourcePathFromMscId
        (getSmsStaticDataMscId c.resourcePath)) with
    | none => simp [hworst, unprocessable]
    | some r =>
      cases hj : r.getProvJournal with
      | none => simp [hj]
      | some journal =>
        simp [hj, hworst, ret_commonSmsValidationRules, checkImsiIsInProvJournal, verdict, and_comm]
  · rw [if_pos hop, hop]
    simp only [create_ne_update.symm, false_implies, true_and, forall_const, Option.some.injEq,
      exists_eq_left', hworst, Bool.and_eq_true, ret_commonSmsValidationRules,
      updateSpecificSmsValidationRules]
    cases rr.contains c.resourcePath with
    | false => simp [unprocessable]
    | true => simp

/-! ## All changes -/

/-- **The rules of a kind accept what the kind asks for.** -/
theorem accepted_of_kind (k : ResourceKind) (hpath : k.routes c.resourcePath = true)
    (hop : Delivers c) : accepted ind rr c = true ↔ k.Accepts ind rr c := by
  cases k with
  | udmStaticData => exact accepted_static_iff hpath hop
  | udmSliceProfile => exact accepted_sliceProfile_iff hpath hop
  | udmRoamingArea => exact accepted_roamingArea_iff hpath hop
  | smsStaticData => exact accepted_sms_iff hpath hop

/-- What is left of the rules for a path of no kind, and for other operations. -/
theorem changeRules_of_unrouted (h : Delivers c → ∀ k : ResourceKind,
    ¬ k.routes c.resourcePath = true) : changeRules ind rr c =
      if isSmsSubscription c.resourcePath = true then smsValidationData ind rr c
      else if c.operation ≠ jsonOperationDelete then
        some (unprocessable c.resourcePath notPerformed)
      else some ⟨true, httpOk, []⟩ := by
  have hskip : ∀ (k : ResourceKind) {op : String}, op = jsonOperationCreate ∨
      op = jsonOperationUpdate → ¬ (k.routes c.resourcePath = true ∧ c.operation = op) := by
    intro k op hop hboth
    refine h ?_ k hboth.1
    rw [Delivers, hboth.2]
    exact hop
  have hstatic : ∀ {op : String}, op = jsonOperationCreate ∨ op = jsonOperationUpdate →
      ¬ (isUdmStaticData c.resourcePath = true ∧ c.operation = op) := hskip .udmStaticData
  have hslice : ∀ {op : String}, op = jsonOperationCreate ∨ op = jsonOperationUpdate →
      ¬ (isUdmSliceProfile c.resourcePath = true ∧ c.operation = op) := hskip .udmSliceProfile
  have hroaming : ∀ {op : String}, op = jsonOperationCreate ∨ op = jsonOperationUpdate →
      ¬ (isUdmRoamingArea c.resourcePath = true ∧ c.operation = op) := hskip .udmRoamingArea
  rw [changeRules, if_neg (hstatic (.inl rfl)), if_neg (hstatic (.inr rfl)),
    if_neg (hslice (.inl rfl)), if_neg (hslice (.inr rfl)), if_neg (hroaming (.inl rfl)),
    if_neg (hroaming (.inr rfl))]

/-- **The rules accept exactly the acceptable changes.** -/
theorem accepted_iff_acceptable : accepted ind rr c = true ↔ Acceptable ind rr c := by
  by_cases hop : Delivers c
  · by_cases hroute : ∃ k : ResourceKind, k.routes c.resourcePath = true
    · obtain ⟨k, hk⟩ := hroute
      rw [accepted_of_kind k hk hop]
      constructor
      · intro h
        exact ⟨fun _ => ⟨k, hk, h⟩, fun hother => absurd hop hother⟩
      · intro h
        obtain ⟨k', hk', haccepts⟩ := h.delivered hop
        rw [ResourceKind.eq_of_routes k k' hk hk']
        exact haccepts
    · rw [not_exists] at hroute
      have hnot : c.operation ≠ jsonOperationDelete := by
        rcases hop with hop | hop <;> rw [hop] <;> decide
      have hsms : ¬ isSmsSubscription c.resourcePath = true := hroute .smsStaticData
      rw [accepted_iff_rules, changeRules_of_unrouted fun _ => hroute, if_neg hsms, if_pos hnot]
      refine iff_of_false ?_ fun h => ?_
      · simp [unprocessable]
      · obtain ⟨k, hk, -⟩ := h.delivered hop
        exact hroute k hk
  · have hrules := @changeRules_of_unrouted V ind rr c fun h => absurd h hop
    have hsms : smsValidationData ind rr c = some ⟨true, httpOk, []⟩ := by
      rw [Delivers, not_or] at hop
      rw [smsValidationData, if_neg hop.2, if_neg hop.1]
      rfl
    rw [accepted_iff_rules, hrules, hsms]
    have hacceptable : Acceptable ind rr c ↔
        (c.operation ≠ jsonOperationDelete → isSmsSubscription c.resourcePath = true) :=
      ⟨fun h => h.other hop, fun h => ⟨fun hdelivers => absurd hdelivers hop, fun _ => h⟩⟩
    rw [hacceptable]
    split_ifs with hpath hdelete
    · simp [hpath]
    · simp [hpath, hdelete, unprocessable]
    · simp [hdelete]

/-- **A request is answered with 200 exactly if its changes are acceptable**, where it is read
without an error and passes the check, and with it the answer. -/
theorem answered_iff_acceptable {oai : OaiValidator} {ind : Indeterminate} {doc body : Json} :
    handleHttp2Request oai ind (some doc) = some ⟨httpOk, body⟩ ↔
      (oai.validateRequest (some doc) = none ∧ oai.validateResponse httpOk body = none) ∧
        ∃ data, (Yields Quiet (getValidationData id doc) data ∧ data.ret = true) ∧
          (∀ c ∈ data.changes, Acceptable ind data.relatedResources c) ∧
          body = validatorResponseToJson ind
            { changes := data.changes.map computeMutations } := by
  rw [answered_ok_iff]
  simp only [accepted_iff_acceptable]

/-! ## What is missing -/

section

variable (rr : RelatedResources V)

/-- A resource that a creation or an update of the kind needs is not there. -/
def ResourceKind.Misses : ResourceKind → Change V → Prop
  | udmStaticData, c =>
    c.operation = jsonOperationCreate ∧ ¬ JournalIncluded rr (getMscId c.resourcePath) ∨
      c.operation = jsonOperationUpdate ∧ rr.contains c.resourcePath = false ∨
      ¬ ∃ profile, NamedProfile rr c.udmStaticData.udmSliceProfileId.id profile
  | udmSliceProfile, c =>
    c.operation = jsonOperationUpdate ∧ rr.contains c.resourcePath = false
  | udmRoamingArea, c =>
    c.operation = jsonOperationUpdate ∧ rr.contains c.resourcePath = false
  | smsStaticData, c =>
    c.operation = jsonOperationCreate ∧
        ¬ JournalIncluded rr (getSmsStaticDataMscId c.resourcePath) ∨
      c.operation = jsonOperationUpdate ∧ rr.contains c.resourcePath = false

/-- A change that the rules cannot be applied to: its path is of no kind, or a resource that they
need is not there. -/
def Missing (c : Change V) : Prop :=
  Delivers c ∧ (∀ k : ResourceKind, k.routes c.resourcePath = true → k.Misses rr c) ∨
    ¬ Delivers c ∧ c.operation ≠ jsonOperationDelete ∧ isSmsSubscription c.resourcePath = false

end

theorem code_unprocessable (resourcePath description : String) :
    (unprocessable resourcePath description).code = httpUnprocessableEntity := rfl

/-- The worst of two verdicts is unprocessable if either is. -/
theorem code_worst {v w : Verdict} (hv : v.Sound) (hw : w.Sound) :
    (getWorstResponseCode [v, w]).code = httpUnprocessableEntity ↔
      v.code = httpUnprocessableEntity ∨ w.code = httpUnprocessableEntity := by
  have hcodes := hv.code_mem
  have hcodes' := hw.code_mem
  show max (max httpOk v.code) w.code = httpUnprocessableEntity ↔ _
  simp only [httpOk, httpUnprocessableEntity] at *
  omega

theorem code_subscriptionRulesWithProfile {before : Checked} {v : Verdict}
    (h : subscriptionRulesWithProfile ind rr c before = some v) :
    v.code = httpUnprocessableEntity ↔
      ¬ ∃ profile, NamedProfile rr c.udmStaticData.udmSliceProfileId.id profile := by
  simp only [← getRelatedUdmSliceProfile_iff]
  obtain ⟨found, hfound, hrest⟩ := Option.bind_eq_some_iff.1 h
  cases found with
  | none =>
    simp only [Option.pure_def, Option.some.injEq] at hrest
    subst hrest
    exact iff_of_true rfl (by simp [hfound])
  | some profile =>
    simp only [Option.pure_def, Option.some.injEq] at hrest
    subst hrest
    exact iff_of_false (code_verdict_ne _) (by simp [hfound])

theorem contains_eq_false_iff {path : String} :
    rr.contains path = false ↔ rr.find? path = none := by
  rw [OrdMap.contains, Option.isSome_eq_false_iff, Option.isNone_iff_eq_none]

theorem not_journalIncluded_iff {m : String} : ¬ JournalIncluded rr m ↔
    rr.find? (buildProvJournalResourcePathFromMscId m) = none := by
  rw [JournalIncluded, Bool.not_eq_true, contains_eq_false_iff]

/-- What the rules of static data say of a creation or an update. -/
theorem code_static (hpath : isUdmStaticData c.resourcePath = true) (hop : Delivers c)
    {v : Verdict} (h : changeRules ind rr c = some v) :
    v.code = httpUnprocessableEntity ↔ ResourceKind.udmStaticData.Misses rr c := by
  rw [changeRules] at h
  rw [ResourceKind.Misses]
  rcases hop with hop | hop
  · rw [if_pos ⟨hpath, hop⟩, checkForCreationUdmSubscriptionRules] at h
    simp only [hop, create_ne_update, true_and, false_and, false_or, not_journalIncluded_iff]
    cases hr : rr.find? (buildProvJournalResourcePathFromMscId (getMscId c.resourcePath)) with
    | none =>
      simp only [hr, Option.some.injEq] at h
      subst h
      simp [unprocessable]
    | some r =>
      simp only [hr] at h
      obtain ⟨journal, -, hrest⟩ := Option.bind_eq_some_iff.1 h
      simpa using code_subscriptionRulesWithProfile hrest
  · rw [if_neg fun hboth => create_ne_update (hboth.2.symm.trans hop), if_pos ⟨hpath, hop⟩,
      checkForUpdateUdmSubscriptionRules] at h
    simp only [hop, create_ne_update.symm, false_and, true_and, false_or]
    cases hfound : rr.contains c.resourcePath with
    | false =>
      simp only [hfound, if_true, Option.some.injEq] at h
      subst h
      simp [unprocessable]
    | true =>
      simp only [hfound, Bool.true_eq_false, if_false] at h
      simpa using code_subscriptionRulesWithProfile h

theorem code_sliceProfile (hpath : isUdmSliceProfile c.resourcePath = true) (hop : Delivers c)
    {v : Verdict} (h : changeRules ind rr c = some v) :
    v.code = httpUnprocessableEntity ↔ ResourceKind.udmSliceProfile.Misses rr c := by
  have hstatic : ¬ isUdmStaticData c.resourcePath = true :=
    Bool.eq_false_iff.1 (not_static_of_sliceProfile hpath)
  rw [changeRules, if_neg fun h => hstatic h.1, if_neg fun h => hstatic h.1] at h
  rw [ResourceKind.Misses]
  rcases hop with hop | hop
  · rw [if_pos ⟨hpath, hop⟩, Option.some.injEq] at h
    subst h
    exact iff_of_false (code_verdict_ne _) fun hboth => create_ne_update (hop.symm.trans hboth.1)
  · rw [if_neg fun hboth => create_ne_update (hboth.2.symm.trans hop), if_pos ⟨hpath, hop⟩,
      checkForUpdateUdmSliceProfileRules] at h
    rw [contains_eq_false_iff]
    cases hr : rr.find? c.resourcePath with
    | none =>
      simp only [hr, Option.some.injEq] at h
      subst h
      simp [unprocessable, hop]
    | some r =>
      simp only [hr] at h
      obtain ⟨p, -, hrest⟩ := Option.bind_eq_some_iff.1 h
      simp only [Option.pure_def, Option.some.injEq] at hrest
      subst hrest
      exact iff_of_false (code_verdict_ne _) (by simp)

theorem code_roamingArea (hpath : isUdmRoamingArea c.resourcePath = true) (hop : Delivers c)
    {v : Verdict} (h : changeRules ind rr c = some v) :
    v.code = httpUnprocessableEntity ↔ ResourceKind.udmRoamingArea.Misses rr c := by
  have hother : ∀ k : ResourceKind, k ≠ .udmRoamingArea → ¬ k.routes c.resourcePath = true :=
    fun k hne hroute => hne (ResourceKind.eq_of_routes k .udmRoamingArea hroute hpath)
  have hstatic : ¬ isUdmStaticData c.resourcePath = true := hother .udmStaticData (by decide)
  have hslice : ¬ isUdmSliceProfile c.resourcePath = true := hother .udmSliceProfile (by decide)
  rw [changeRules, if_neg fun h => hstatic h.1, if_neg fun h => hstatic h.1,
    if_neg fun h => hslice h.1, if_neg fun h => hslice h.1] at h
  rw [ResourceKind.Misses]
  rcases hop with hop | hop
  · rw [if_pos ⟨hpath, hop⟩, Option.some.injEq] at h
    subst h
    exact iff_of_false (code_verdict_ne _) fun hboth => create_ne_update (hop.symm.trans hboth.1)
  · rw [if_neg fun hboth => create_ne_update (hboth.2.symm.trans hop), if_pos ⟨hpath, hop⟩,
      Option.some.injEq, checkForUpdateUdmRoamingAreaRules] at h
    split_ifs at h with hfound
    · subst h
      exact iff_of_true rfl ⟨hop, hfound⟩
    · subst h
      exact iff_of_false (code_verdict_ne _) fun hboth => hfound hboth.2

theorem code_sms (hpath : isSmsSubscription c.resourcePath = true) (hop : Delivers c)
    {v : Verdict} (h : changeRules ind rr c = some v) :
    v.code = httpUnprocessableEntity ↔ ResourceKind.smsStaticData.Misses rr c := by
  have hother : ∀ k : ResourceKind, k ≠ .smsStaticData → ¬ k.routes c.resourcePath = true :=
    fun k hne hroute => hne (ResourceKind.eq_of_routes k .smsStaticData hroute hpath)
  have hstatic : ¬ isUdmStaticData c.resourcePath = true := hother .udmStaticData (by decide)
  have hslice : ¬ isUdmSliceProfile c.resourcePath = true := hother .udmSliceProfile (by decide)
  have hroaming : ¬ isUdmRoamingArea c.resourcePath = true := hother .udmRoamingArea (by decide)
  have hcommon := (@soundAt_commonSmsValidationRules V ind c).toSound
  have hne : ¬ (commonSmsValidationRules ind c).code = httpUnprocessableEntity := code_verdict_ne _
  rw [changeRules, if_neg fun h => hstatic h.1, if_neg fun h => hstatic h.1,
    if_neg fun h => hslice h.1, if_neg fun h => hslice h.1, if_neg fun h => hroaming h.1,
    if_neg fun h => hroaming h.1, if_pos hpath, smsValidationData] at h
  rw [ResourceKind.Misses]
  rcases hop with hop | hop
  · rw [if_neg fun hupdate => create_ne_update (hop.symm.trans hupdate), if_pos hop] at h
    obtain ⟨create, hcreate, hrest⟩ := Option.bind_eq_some_iff.1 h
    simp only [Option.pure_def, Option.some.injEq] at hrest
    subst hrest
    rw [code_worst hcommon (soundAt_createSpecificSmsValidationRules hcreate).toSound,
      or_iff_right hne]
    rw [createSpecificSmsValidationRules] at hcreate
    simp only [hop, create_ne_update, true_and, false_and, or_false, not_journalIncluded_iff]
    cases hr : rr.find? (buildProvJournalResourcePathFromMscId
        (getSmsStaticDataMscId c.resourcePath)) with
    | none =>
      simp only [hr, Option.some.injEq] at hcreate
      subst hcreate
      simp [unprocessable]
    | some r =>
      simp only [hr] at hcreate
      obtain ⟨journal, -, hrest⟩ := Option.bind_eq_some_iff.1 hcreate
      simp only [Option.pure_def, Option.some.injEq] at hrest
      subst hrest
      exact iff_of_false (code_verdict_ne _) (by simp)
  · rw [if_pos hop, Option.some.injEq] at h
    subst h
    rw [code_worst hcommon soundAt_updateSpecificSmsValidationRules.toSound,
      or_iff_right hne, updateSpecificSmsValidationRules]
    simp only [hop, create_ne_update.symm, false_and, true_and, false_or]
    cases rr.contains c.resourcePath with
    | false => simp [unprocessable]
    | true => simp

/-- **The code of a change is 422 exactly if something is missing.** -/
theorem code_changeRules {v : Verdict} (h : changeRules ind rr c = some v) :
    v.code = httpUnprocessableEntity ↔ Missing rr c := by
  by_cases hop : Delivers c
  · have hmissing : Missing rr c ↔
        ∀ k : ResourceKind, k.routes c.resourcePath = true → k.Misses rr c := by
      simp [Missing, hop]
    rw [hmissing]
    by_cases hroute : ∃ k : ResourceKind, k.routes c.resourcePath = true
    · obtain ⟨k, hk⟩ := hroute
      have hcode : v.code = httpUnprocessableEntity ↔ k.Misses rr c := by
        cases k with
        | udmStaticData => exact code_static hk hop h
        | udmSliceProfile => exact code_sliceProfile hk hop h
        | udmRoamingArea => exact code_roamingArea hk hop h
        | smsStaticData => exact code_sms hk hop h
      rw [hcode]
      constructor
      · intro hmisses k' hk'
        rw [ResourceKind.eq_of_routes k' k hk' hk]
        exact hmisses
      · intro hall
        exact hall k hk
    · rw [not_exists] at hroute
      have hsms : ¬ isSmsSubscription c.resourcePath = true := hroute .smsStaticData
      have hnot : c.operation ≠ jsonOperationDelete := by
        rcases hop with hop | hop <;> rw [hop] <;> decide
      rw [changeRules_of_unrouted fun _ => hroute, if_neg hsms, if_pos hnot, Option.some.injEq] at h
      subst h
      exact iff_of_true rfl fun k hk => absurd hk (hroute k)
  · have hmissing : Missing rr c ↔
        c.operation ≠ jsonOperationDelete ∧ isSmsSubscription c.resourcePath = false := by
      simp [Missing, hop]
    have hsms : smsValidationData ind rr c = some ⟨true, httpOk, []⟩ := by
      rw [Delivers, not_or] at hop
      rw [smsValidationData, if_neg hop.2, if_neg hop.1]
      rfl
    rw [hmissing]
    rw [changeRules_of_unrouted fun hdelivers => absurd hdelivers hop, hsms] at h
    split_ifs at h with hpath hdelete
    · obtain rfl := Option.some.inj h
      simp [hpath]
    · obtain rfl := Option.some.inj h
      simpa [unprocessable, hdelete] using hpath
    · obtain rfl := Option.some.inj h
      simp [not_not.1 hdelete]

/-- The code of a run is the worst of its changes. -/
theorem code_run {changes : List (Change V)} {st : ApplyState V}
    (h : applyValidationRules ind rr changes = some st) :
    st.code = httpUnprocessableEntity ↔ ∃ c ∈ changes, Missing rr c := by
  induction changes generalizing st with
  | nil =>
    obtain rfl := Option.some.inj h
    simp
  | cons c cs ih =>
    rw [applyValidationRules_cons] at h
    obtain ⟨a, ha, hrest⟩ := Option.bind_eq_some_iff.1 h
    obtain ⟨b, hb, rfl⟩ := Option.map_eq_some_iff.1 hrest
    obtain ⟨a', ha', hsame⟩ := Option.bind_eq_some_iff.1 ha
    obtain rfl := Option.some.inj hsame
    rw [applyStep_eq] at ha'
    obtain ⟨v, hv, rfl⟩ := Option.map_eq_some_iff.1 ha'
    have hcodes := (soundAt_changeRules hv).code_mem
    have hrest := (agrees_applyValidationRules hb).sound.code_mem
    simp only [List.mem_cons, exists_eq_or_imp, ← ih hb, ← code_changeRules hv]
    show max (max httpOk v.code) b.code = httpUnprocessableEntity ↔ _
    simp only [httpOk, httpUnprocessableEntity] at *
    omega

/-- **What the code of a run says.** It is 200 if all changes are acceptable, 422 if something is
missing for one of them, and 409 if nothing is missing and one is not acceptable. -/
theorem outcome_iff {changes : List (Change V)} {st : ApplyState V}
    (h : applyValidationRules ind rr changes = some st) :
    (st.code = httpOk ↔ ∀ c ∈ changes, Acceptable ind rr c) ∧
      (st.code = httpUnprocessableEntity ↔ ∃ c ∈ changes, Missing rr c) ∧
      (st.code = httpConflict ↔
        (∀ c ∈ changes, ¬ Missing rr c) ∧ ∃ c ∈ changes, ¬ Acceptable ind rr c) := by
  have hagrees := agrees_applyValidationRules h
  have hok : st.code = httpOk ↔ ∀ c ∈ changes, Acceptable ind rr c := by
    simp only [← accepted_iff_acceptable, ← hagrees.ret_iff]
    exact hagrees.sound.code_ok
  refine ⟨hok, code_run h, ?_⟩
  have hmissing : (∀ c ∈ changes, ¬ Missing rr c) ↔ st.code ≠ httpUnprocessableEntity := by
    rw [ne_eq, code_run h, not_exists]
    exact forall_congr' fun c => not_and.symm
  have hother : (∃ c ∈ changes, ¬ Acceptable ind rr c) ↔ st.code ≠ httpOk := by
    rw [ne_eq, hok]
    simp
  rw [hmissing, hother]
  have hcodes := hagrees.sound.code_mem
  simp only [httpOk, httpUnprocessableEntity, httpConflict] at *
  omega

end ProvisioningValidator
