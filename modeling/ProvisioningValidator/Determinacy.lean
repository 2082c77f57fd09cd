import Mathlib
import ProvisioningValidator.AssignedFields
import ProvisioningValidator.Independence

/-!
# What the rules and the encoder compute from assigned fields

Where the fields that are read have a value, nothing that the rules find and the encoder writes
depends on what unassigned fields hold. There is one result for each function that reads such a
field, from the inside out, and at the end the rules of a change (`changeRules_iff`) and the change
in the response (`changeToJson_computeMutations_iff`), both up to the static addresses: there a
missing value makes a difference (`addressesAssigned_of_eq`, `addressesAssigned_of_members_eq`).
-/

namespace ProvisioningValidator

open Lib Checked

variable {A V : Type} (ind ind' : Indeterminate)

/-! ## Fields -/

theorem readInt_eq {x : Option Int} (h : x.isSome = true) : ind.readInt x = ind'.readInt x := by
  obtain ⟨n, rfl⟩ := Option.isSome_iff_exists.1 h
  rfl

theorem readBool_eq {x : Option Bool} (h : x.isSome = true) :
    ind.readBool x = ind'.readBool x := by
  obtain ⟨b, rfl⟩ := Option.isSome_iff_exists.1 h
  rfl

/-! ## Rules for slice data -/

section

variable {p : String}

theorem fivegQosProfileRules_eq {q : FivegQosProfile V} (h : FivegQosProfileAssigned q) :
    fivegQosProfileRules ind p q = fivegQosProfileRules ind' p q := by
  have hlevel : guard (q.fieldExistence.hasPriorityLevel = true) (failIf
        (ind.readInt q.priorityLevel < 1 ∨ ind.readInt q.priorityLevel > 127) p
        (fieldIn jsonPriorityLevel json5gQosProfile " has an Invalid Value")) =
      guard (q.fieldExistence.hasPriorityLevel = true) (failIf
        (ind'.readInt q.priorityLevel < 1 ∨ ind'.readInt q.priorityLevel > 127) p
        (fieldIn jsonPriorityLevel json5gQosProfile " has an Invalid Value")) :=
    guard_congr fun hflag => by rw [readInt_eq ind ind' (h.2.2 hflag)]
  rw [fivegQosProfileRules, fivegQosProfileRules, hlevel, readInt_eq ind ind' h.1,
    readInt_eq ind ind' h.2.1]

theorem isDefaultDnn_eq {d : DnnData V} (h : DnnDataAssigned d) :
    isDefaultDnn ind d = isDefaultDnn ind' d := by
  rw [isDefaultDnn, isDefaultDnn]
  cases hflag : d.fieldExistence.hasDefaultDnnIndicator with
  | true => rw [readBool_eq ind ind' (h.1 hflag)]
  | false => rfl

theorem dnnDataRules_eq {d : DnnData V} (h : DnnDataAssigned d) :
    dnnDataRules ind p d = dnnDataRules ind' p d := by
  have hqos : guard (d.fieldExistence.hasFivegQosProfile = true)
        (fivegQosProfileRules ind p d.fivegQosProfile) =
      guard (d.fieldExistence.hasFivegQosProfile = true)
        (fivegQosProfileRules ind' p d.fivegQosProfile) :=
    guard_congr fun hflag => fivegQosProfileRules_eq ind ind' (h.2.2.2.2.2 hflag)
  simp only [dnnDataRules, isDefaultDnn_eq ind ind' h, hqos]

theorem dnnListRules_eq {l : DnnList V} (h : DnnListAssigned l) :
    dnnListRules ind p l = dnnListRules ind' p l := by
  have hany : l.dnnDataList.any (isDefaultDnn ind) = l.dnnDataList.any (isDefaultDnn ind') := by
    rw [Bool.eq_iff_iff, List.any_eq_true, List.any_eq_true]
    exact exists_congr fun d => and_congr_right fun hd => by rw [isDefaultDnn_eq ind ind' (h d hd)]
  rw [dnnListRules, dnnListRules, hany,
    forEach_congr fun d hd => dnnDataRules_eq ind ind' (h d hd)]

theorem nssaiDetailsRules_eq {parent : String} {n : NssaiDetails V} (h : SnssaiAssigned n.nssai) :
    nssaiDetailsRules ind p parent n = nssaiDetailsRules ind' p parent n := by
  rw [nssaiDetailsRules, nssaiDetailsRules, readInt_eq ind ind' h]

theorem plmnIdSetRules_eq {isSliceProfile : Bool} {s : PlmnIdSets V} (h : PlmnIdSetAssigned s) :
    plmnIdSetRules ind isSliceProfile p s = plmnIdSetRules ind' isSliceProfile p s := by
  rw [plmnIdSetRules, plmnIdSetRules,
    forEach_congr fun n hn => nssaiDetailsRules_eq ind ind' (h.1 n hn),
    forEach_congr fun n hn => nssaiDetailsRules_eq ind ind' (h.2.1 n hn),
    forEach_congr fun l hl => dnnListRules_eq ind ind' (h.2.2 l hl)]

theorem checkForCommonUdmSliceProfileRules_eq {sets : List (PlmnIdSets V)} {isSliceProfile : Bool}
    (h : ∀ s ∈ sets, PlmnIdSetAssigned s) :
    checkForCommonUdmSliceProfileRules ind sets isSliceProfile p =
      checkForCommonUdmSliceProfileRules ind' sets isSliceProfile p := by
  rw [checkForCommonUdmSliceProfileRules, checkForCommonUdmSliceProfileRules,
    forEach_congr fun s hs => plmnIdSetRules_eq ind ind' (h s hs)]

theorem nssaiEntries_assigned {s : PlmnIdSets V} (h : PlmnIdSetAssigned s) :
    ∀ n ∈ s.nssai.defaultSingleNssais ++ s.nssai.singleNssais, SnssaiAssigned n.nssai :=
  List.forall_mem_append.2 ⟨h.1, h.2.1⟩

theorem checkRepeatedInNssais_eq {met : List (Int × String)} {ns : List (NssaiDetails V)}
    (h : ∀ n ∈ ns, SnssaiAssigned n.nssai) :
    checkRepeatedInNssais ind p met ns = checkRepeatedInNssais ind' p met ns := by
  induction ns generalizing met with
  | nil => rfl
  | cons n ns ih =>
    rw [List.forall_mem_cons] at h
    simp only [checkRepeatedInNssais, readInt_eq ind ind' h.1]
    rw [ih h.2]

theorem checkForRepeatedDnnsandNssais_eq {sets : List (PlmnIdSets V)}
    (h : ∀ s ∈ sets, PlmnIdSetAssigned s) :
    checkForRepeatedDnnsandNssais ind sets p = checkForRepeatedDnnsandNssais ind' sets p :=
  forEach_congr fun s hs => by
    rw [checkRepeatedInNssais_eq ind ind' (nssaiEntries_assigned (h s hs))]

theorem getNssais_eq {ns : List (NssaiDetails V)} (h : ∀ n ∈ ns, SnssaiAssigned n.nssai) :
    getNssais ind ns = getNssais ind' ns :=
  List.map_congr_left fun n hn => by rw [readInt_eq ind ind' (h n hn)]

theorem getAllNssaisUdmSliceProfile_eq {e : UdmSliceProfile V} (h : UdmSliceProfileAssigned e) :
    getAllNssaisUdmSliceProfile ind e = getAllNssaisUdmSliceProfile ind' e := by
  rw [getAllNssaisUdmSliceProfile, getAllNssaisUdmSliceProfile]
  refine congrArg _ (List.flatMap_congr fun s hs => ?_)
  rw [getNssais_eq ind ind' (h s hs).1, getNssais_eq ind ind' (h s hs).2.1]

theorem checkRepeatedInNssaisOnUpdate_eq
    {stored : OrdMap (String ×ₗ String) (List (Int × String × String))} {plmnId : String}
    {met : List (Int × String)} {ns : List (String × NssaiDetails V)}
    (h : ∀ n ∈ ns, SnssaiAssigned n.2.nssai) :
    checkRepeatedInNssaisOnUpdate ind p stored plmnId met ns =
      checkRepeatedInNssaisOnUpdate ind' p stored plmnId met ns := by
  induction ns generalizing met with
  | nil => rfl
  | cons n ns ih =>
    rw [List.forall_mem_cons] at h
    simp only [checkRepeatedInNssaisOnUpdate, readInt_eq ind ind' h.1]
    rw [ih h.2]

end

theorem checkForUpdateSpecificUdmSliceProfileRules_eq {c : Change V} {e : UdmSliceProfile V}
    (hc : UdmSliceProfileAssigned c.udmSliceProfile) (he : UdmSliceProfileAssigned e) :
    checkForUpdateSpecificUdmSliceProfileRules ind c e =
      checkForUpdateSpecificUdmSliceProfileRules ind' c e := by
  rw [checkForUpdateSpecificUdmSliceProfileRules, checkForUpdateSpecificUdmSliceProfileRules,
    getAllNssaisUdmSliceProfile_eq ind ind' he]
  refine congrArg (· ++ _) (forEach_congr fun s hs => ?_)
  have hset := hc s hs
  rw [checkRepeatedInNssaisOnUpdate_eq ind ind']
  intro n hn
  rw [List.mem_append, List.mem_map, List.mem_map] at hn
  rcases hn with ⟨m, hm, rfl⟩ | ⟨m, hm, rfl⟩
  · exact hset.1 m hm
  · exact hset.2.1 m hm

/-! ## Rules for subscriptions -/

/-- The rules for static addresses. -/
def staticAddressRules (p : String) (e : UdmStaticData V) : Checked :=
  guard (e.fieldExistence.hasStaticIpAddress = true)
    (forEach e.staticIpAddress.nssaiDnnIpLists (nssaiDnnIpsRules ind p))

theorem staticAddressRules_eq {p : String} {e : UdmStaticData V}
    (h : e.fieldExistence.hasStaticIpAddress = true →
      AddressesAssigned e.staticIpAddress.nssaiDnnIpLists) :
    staticAddressRules ind p e = staticAddressRules ind' p e :=
  guard_congr fun hflag => forEach_congr fun n hn => by
    rw [nssaiDnnIpsRules, nssaiDnnIpsRules, readInt_eq ind ind' (h hflag n hn)]

theorem udmSliceDataRules_eq {p : String} {sets : List (PlmnIdSets V)} {e : UdmSliceProfile V}
    (h : ∀ s ∈ sets, PlmnIdSetAssigned s) :
    udmSliceDataRules ind p sets e = udmSliceDataRules ind' p sets e := by
  rw [udmSliceDataRules, udmSliceDataRules, checkForRepeatedDnnsandNssais_eq ind ind' h,
    checkForCommonUdmSliceProfileRules_eq ind ind' h]

/-- **The common rules of a subscription**: only those for the addresses can depend on what
unassigned fields hold. -/
theorem checkForCommonUdmSubscriptionRules_iff {c : Change V} {e : UdmSliceProfile V}
    (h : UdmStaticDataAssigned c.udmStaticData) :
    (checkForCommonUdmSubscriptionRules ind c e).errors =
        (checkForCommonUdmSubscriptionRules ind' c e).errors ↔
      (staticAddressRules ind c.resourcePath c.udmStaticData).errors =
        (staticAddressRules ind' c.resourcePath c.udmStaticData).errors := by
  obtain ⟨-, -, hcount, -, husage, -, -, -, hsets⟩ := h
  have hcount' : guard (c.udmStaticData.fieldExistence.hasDlPacketCount = true)
        (failIf (ind.readInt c.udmStaticData.dlPacketCount < -1) c.resourcePath
          (hasInvalidValue jsonDlPacketCount)) =
      guard (c.udmStaticData.fieldExistence.hasDlPacketCount = true)
        (failIf (ind'.readInt c.udmStaticData.dlPacketCount < -1) c.resourcePath
          (hasInvalidValue jsonDlPacketCount)) :=
    guard_congr fun hflag => by rw [readInt_eq ind ind' (hcount hflag)]
  have husage' : guard (c.udmStaticData.fieldExistence.hasUeUsageType = true)
        (failIf (ind.readInt c.udmStaticData.ueUsageType < ueUsageTypeMin ∨
          ind.readInt c.udmStaticData.ueUsageType > ueUsageTypeMax) c.resourcePath
          (hasInvalidValue jsonUeUsageType)) =
      guard (c.udmStaticData.fieldExistence.hasUeUsageType = true)
        (failIf (ind'.readInt c.udmStaticData.ueUsageType < ueUsageTypeMin ∨
          ind'.readInt c.udmStaticData.ueUsageType > ueUsageTypeMax) c.resourcePath
          (hasInvalidValue jsonUeUsageType)) :=
    guard_congr fun hflag => by rw [readInt_eq ind ind' (husage hflag)]
  rw [checkForCommonUdmSubscriptionRules, checkForCommonUdmSubscriptionRules, hcount', husage',
    udmSliceDataRules_eq ind ind' hsets]
  simp only [inOrder_cons, errors_append, List.append_cancel_left_eq,
    List.append_cancel_right_eq]
  rfl

theorem Checked.eq_of_errors {p : String} {a b : Checked} (ha : a.Reports p) (hb : b.Reports p)
    (h : a.errors = b.errors) : a = b := by
  have hret : a.ret = b.ret := by
    rw [Bool.eq_iff_iff, ha.balanced.ret_iff, hb.balanced.ret_iff, h]
  cases a
  cases b
  rw [Checked.mk.injEq]
  exact ⟨hret, h⟩

/-- An address whose S-NSSAI has no value: whether there is an error depends on what it holds. -/
theorem length_nssaiDnnIpsRules (p : String) (n : NssaiDnnIps V) :
    (nssaiDnnIpsRules ⟨256, false⟩ p n).errors.length =
      (nssaiDnnIpsRules ⟨0, false⟩ p n).errors.length +
        if n.snssai.sst = none then 1 else 0 := by
  rw [nssaiDnnIpsRules, nssaiDnnIpsRules]
  cases n.snssai.sst with
  | some sst => simp
  | none =>
    simp only [inOrder_cons, errors_append, List.length_append]
    simp [failIf, violation, Indeterminate.readInt]
    omega

/-- **Addresses without a value are noticed**: what they hold makes a difference to the errors. -/
theorem addressesAssigned_of_eq {p : String} {as : List (NssaiDnnIps V)}
    (h : (forEach as (nssaiDnnIpsRules ⟨0, false⟩ p)).errors =
      (forEach as (nssaiDnnIpsRules ⟨256, false⟩ p)).errors) : AddressesAssigned as := by
  have hlength : ∀ as : List (NssaiDnnIps V),
      (forEach as (nssaiDnnIpsRules ⟨256, false⟩ p)).errors.length =
        (forEach as (nssaiDnnIpsRules ⟨0, false⟩ p)).errors.length +
          as.countP fun a => a.snssai.sst = none := by
    intro as
    induction as with
    | nil => rfl
    | cons a as ih =>
      rw [forEach_cons, forEach_cons, errors_append, errors_append, List.length_append,
        List.length_append, ih, length_nssaiDnnIpsRules, List.countP_cons]
      simp only [decide_eq_true_eq]
      omega
  intro a ha
  have hcount := hlength as
  rw [h] at hcount
  have hzero : (as.countP fun a => a.snssai.sst = none) = 0 := by omega
  have hall := List.countP_eq_zero.1 hzero a ha
  rw [decide_eq_true_eq] at hall
  exact Option.isSome_iff_ne_none.2 hall

/-! ## Rules for SMS subscriptions -/

theorem flag_eq {exist : Bool} {b : Option Bool} (h : SetIf exist b) :
    flag ind exist b = flag ind' exist b := by
  rw [flag, flag]
  cases exist with
  | true => rw [readBool_eq ind ind' (h rfl)]
  | false => rfl

theorem smsValidationData_eq {rr : RelatedResources V} {c : Change V}
    (h : SmsStaticDataAssigned c.smsStaticData) :
    smsValidationData ind rr c = smsValidationData ind' rr c := by
  obtain ⟨hsms, hmt, hmtAll, hmtRoaming, hmo, hmoAll, hmoRoaming⟩ := h
  have hcommon : commonSmsValidationRules ind c = commonSmsValidationRules ind' c := by
    simp only [commonSmsValidationRules, checkSmsSubscribed, checkMtSmsSubscribed,
      checkMoSmsSubscribed, flag_eq ind ind' hsms, flag_eq ind ind' hmt, flag_eq ind ind' hmtAll,
      flag_eq ind ind' hmtRoaming, flag_eq ind ind' hmo, flag_eq ind ind' hmoAll,
      flag_eq ind ind' hmoRoaming]
  rw [smsValidationData, smsValidationData, hcommon]

/-! ## Rules of a change -/

/-- What is read of the slice profiles among the related resources has a value. -/
def RelatedAssigned (rr : RelatedResources V) : Prop :=
  ∀ p e, rr.find? p = some (.udmSliceProfile e) → UdmSliceProfileAssigned e

/-- The rules of the change look at the addresses: the change is a creation whose journal is there,
or an update of a related resource, and the slice profile it names is there. -/
def RulesReachAddresses (rr : RelatedResources V) (c : Change V) : Prop :=
  isUdmStaticData c.resourcePath = true ∧
  (c.operation = jsonOperationCreate ∧ (∃ journal, rr.find?
      (buildProvJournalResourcePathFromMscId (getMscId c.resourcePath)) =
        some (.provJournal journal)) ∨
    c.operation = jsonOperationUpdate ∧ rr.contains c.resourcePath = true) ∧
  ∃ profile, getRelatedUdmSliceProfile rr c.udmStaticData.udmSliceProfileId.id =
    some (some profile)

/-- The errors for the addresses do not depend on what unassigned fields hold. -/
def SameAddressErrors (c : Change V) : Prop :=
  (staticAddressRules ind c.resourcePath c.udmStaticData).errors =
    (staticAddressRules ind' c.resourcePath c.udmStaticData).errors

variable {rr : RelatedResources V} {c : Change V}

theorem verdict_append_iff {before a b : Checked} {p : String} (ha : a.Reports p)
    (hb : b.Reports p) :
    (before ++ a).verdict = (before ++ b).verdict ↔ a.errors = b.errors := by
  constructor
  · intro heq
    have herrors : (before ++ a).errors = (before ++ b).errors := congrArg Verdict.errors heq
    rw [errors_append, errors_append] at herrors
    exact List.append_cancel_left herrors
  · intro herrors
    rw [Checked.eq_of_errors ha hb herrors]

theorem subscriptionRulesWithProfile_iff (h : UdmStaticDataAssigned c.udmStaticData)
    (before : Checked) :
    subscriptionRulesWithProfile ind rr c before = subscriptionRulesWithProfile ind' rr c before ↔
      ((∃ profile, getRelatedUdmSliceProfile rr c.udmStaticData.udmSliceProfileId.id =
        some (some profile)) → SameAddressErrors ind ind' c) := by
  simp only [subscriptionRulesWithProfile]
  cases getRelatedUdmSliceProfile rr c.udmStaticData.udmSliceProfileId.id with
  | none => simp
  | some o =>
    cases o with
    | none => simp
    | some profile =>
      simp only [Option.bind_eq_bind, Option.bind_some, Option.pure_def, Option.some.injEq,
        exists_eq', forall_const]
      rw [verdict_append_iff (reports_checkForCommonUdmSubscriptionRules ind c profile)
        (reports_checkForCommonUdmSubscriptionRules ind' c profile)]
      exact checkForCommonUdmSubscriptionRules_iff ind ind' h

theorem checkForCreationUdmSubscriptionRules_iff (h : UdmStaticDataAssigned c.udmStaticData) :
    checkForCreationUdmSubscriptionRules ind rr c =
        checkForCreationUdmSubscriptionRules ind' rr c ↔
      ((∃ journal, rr.find? (buildProvJournalResourcePathFromMscId (getMscId c.resourcePath)) =
          some (.provJournal journal)) →
        (∃ profile, getRelatedUdmSliceProfile rr c.udmStaticData.udmSliceProfileId.id =
          some (some profile)) → SameAddressErrors ind ind' c) := by
  simp only [checkForCreationUdmSubscriptionRules]
  cases rr.find? (buildProvJournalResourcePathFromMscId (getMscId c.resourcePath)) with
  | none => simp
  | some resource =>
    cases resource with
    | provJournal journal =>
      simp only [Resource.getProvJournal, Option.bind_eq_bind, Option.bind_some,
        subscriptionRulesWithProfile_iff ind ind' h, Option.some.injEq, Resource.provJournal.injEq,
        exists_eq', forall_const]
    | _ => simp [Resource.getProvJournal]

theorem checkForUpdateUdmSubscriptionRules_iff (h : UdmStaticDataAssigned c.udmStaticData) :
    checkForUpdateUdmSubscriptionRules ind rr c = checkForUpdateUdmSubscriptionRules ind' rr c ↔
      (rr.contains c.resourcePath = true →
        (∃ profile, getRelatedUdmSliceProfile rr c.udmStaticData.udmSliceProfileId.id =
          some (some profile)) → SameAddressErrors ind ind' c) := by
  simp only [checkForUpdateUdmSubscriptionRules]
  cases rr.contains c.resourcePath with
  | false => simp
  | true =>
    simp only [Bool.true_eq_false, if_false, subscriptionRulesWithProfile_iff ind ind' h,
      forall_const]

theorem commonSliceProfileRules_eq (h : UdmSliceProfileAssigned c.udmSliceProfile) :
    commonSliceProfileRules ind c = commonSliceProfileRules ind' c := by
  rw [commonSliceProfileRules, commonSliceProfileRules,
    checkForCommonUdmSliceProfileRules_eq ind ind' h]

theorem checkForUpdateUdmSliceProfileRules_eq (hrr : RelatedAssigned rr)
    (h : UdmSliceProfileAssigned c.udmSliceProfile) :
    checkForUpdateUdmSliceProfileRules ind rr c = checkForUpdateUdmSliceProfileRules ind' rr c := by
  simp only [checkForUpdateUdmSliceProfileRules, commonSliceProfileRules_eq ind ind' h]
  cases hfind : rr.find? c.resourcePath with
  | none => simp
  | some resource =>
    cases resource with
    | udmSliceProfile e =>
      simp only [Resource.getUdmSliceProfile, Option.bind_eq_bind, Option.bind_some]
      rw [checkForUpdateSpecificUdmSliceProfileRules_eq ind ind' h (hrr _ e hfind)]
    | _ => simp [Resource.getUdmSliceProfile]

/-- **The rules of a change depend on unassigned fields only where they look at the addresses.** -/
theorem changeRules_iff (hrr : RelatedAssigned rr) (hc : ChangeAssigned c) :
    changeRules ind rr c = changeRules ind' rr c ↔
      (RulesReachAddresses rr c → SameAddressErrors ind ind' c) := by
  have hstatic : UdmStaticDataAssigned c.udmStaticData := hc .udmStaticData
  have hprofile : UdmSliceProfileAssigned c.udmSliceProfile := hc .udmSliceProfile
  have hsms : SmsStaticDataAssigned c.smsStaticData := hc .smsStaticData
  have hne : jsonOperationCreate ≠ jsonOperationUpdate := by decide
  rw [changeRules, changeRules, RulesReachAddresses]
  by_cases hcreate : isUdmStaticData c.resourcePath = true ∧ c.operation = jsonOperationCreate
  · rw [if_pos hcreate, if_pos hcreate, checkForCreationUdmSubscriptionRules_iff ind ind' hstatic,
      hcreate.2]
    simp [hcreate.1, hne]
  · by_cases hupdate : isUdmStaticData c.resourcePath = true ∧ c.operation = jsonOperationUpdate
    · rw [if_neg hcreate, if_neg hcreate, if_pos hupdate, if_pos hupdate,
        checkForUpdateUdmSubscriptionRules_iff ind ind' hstatic, hupdate.2]
      simp [hupdate.1, hne.symm]
    · rw [if_neg hcreate, if_neg hcreate, if_neg hupdate, if_neg hupdate]
      refine iff_of_true ?_ ?_
      · rw [checkForUpdateUdmSliceProfileRules_eq ind ind' hrr hprofile,
          smsValidationData_eq ind ind' hsms, checkForCreationUdmSliceProfileRules,
          checkForCreationUdmSliceProfileRules, commonSliceProfileRules_eq ind ind' hprofile,
          checkForCreationSpecificUdmSliceProfileRules,
          checkForCreationSpecificUdmSliceProfileRules,
          checkForRepeatedDnnsandNssais_eq ind ind' hprofile]
      · intro hreach
        rcases hreach.2.1 with h | h
        · exact absurd ⟨hreach.1, h.1⟩ hcreate
        · exact absurd ⟨hreach.1, h.1⟩ hupdate

/-! ## The encoder -/

section

variable {key : String}

theorem whenFlag_congr {flag : Bool} {ms ms' : List (String × Json)} (h : flag = true → ms = ms') :
    whenFlag flag ms = whenFlag flag ms' := by
  cases flag with
  | true => rw [h rfl]
  | false => rfl

theorem intToJson_eq {x : Option Int} (h : x.isSome = true) :
    intToJson ind x key = intToJson ind' x key := by
  rw [intToJson, intToJson, readInt_eq ind ind' h]

theorem whenFlag_intToJson_eq {flag : Bool} {x : Option Int} (h : SetIf flag x) :
    whenFlag flag (intToJson ind x key) = whenFlag flag (intToJson ind' x key) :=
  whenFlag_congr fun hflag => intToJson_eq ind ind' (h hflag)

theorem whenFlag_boolToJson_eq {flag : Bool} {x : Option Bool} (h : SetIf flag x) :
    whenFlag flag (boolToJson ind x key) = whenFlag flag (boolToJson ind' x key) :=
  whenFlag_congr fun hflag => by rw [boolToJson, boolToJson, readBool_eq ind ind' (h hflag)]

theorem listToJson_congr {as : List A} {f g : A → Json} (h : ∀ a ∈ as, f a = g a) :
    listToJson as key f = listToJson as key g := by
  rw [listToJson, listToJson, List.map_congr_left h]

end

theorem nssaiDetailsToJson_eq {n : NssaiDetails Json} (h : SnssaiAssigned n.nssai) :
    nssaiDetailsToJson ind n = nssaiDetailsToJson ind' n := by
  rw [nssaiDetailsToJson, nssaiDetailsToJson, snssaiToJson, snssaiToJson, intToJson_eq ind ind' h]

theorem fivegQosProfileToJson_eq {q : FivegQosProfile Json} (h : FivegQosProfileAssigned q) :
    fivegQosProfileToJson ind q = fivegQosProfileToJson ind' q := by
  rw [fivegQosProfileToJson, fivegQosProfileToJson, arpToJson, arpToJson,
    intToJson_eq ind ind' h.1, intToJson_eq ind ind' h.2.1, whenFlag_intToJson_eq ind ind' h.2.2]

theorem dnnDataToJson_eq {d : DnnData Json} (h : DnnDataAssigned d) :
    dnnDataToJson ind d = dnnDataToJson ind' d := by
  obtain ⟨hdefault, hlbo, hiwk, hladn, hsmf, hqos⟩ := h
  have hqos' : whenFlag d.fieldExistence.hasFivegQosProfile
        [(json5gQosProfile, fivegQosProfileToJson ind d.fivegQosProfile)] =
      whenFlag d.fieldExistence.hasFivegQosProfile
        [(json5gQosProfile, fivegQosProfileToJson ind' d.fivegQosProfile)] :=
    whenFlag_congr fun hflag => by rw [fivegQosProfileToJson_eq ind ind' (hqos hflag)]
  rw [dnnDataToJson, dnnDataToJson, whenFlag_boolToJson_eq ind ind' hdefault,
    whenFlag_boolToJson_eq ind ind' hlbo, whenFlag_boolToJson_eq ind ind' hiwk,
    whenFlag_boolToJson_eq ind ind' hladn, whenFlag_boolToJson_eq ind ind' hsmf, hqos']

theorem dnnListToJson_eq {l : DnnList Json} (h : DnnListAssigned l) :
    dnnListToJson ind l = dnnListToJson ind' l := by
  rw [dnnListToJson, dnnListToJson,
    listToJson_congr fun d hd => dnnDataToJson_eq ind ind' (h d hd)]

theorem plmnIdSetToJson_eq {s : PlmnIdSets Json} (h : PlmnIdSetAssigned s) :
    plmnIdSetToJson ind s = plmnIdSetToJson ind' s := by
  have hnssai : sliceInfoNssaiToJson ind s = sliceInfoNssaiToJson ind' s := by
    rw [sliceInfoNssaiToJson, sliceInfoNssaiToJson,
      listToJson_congr fun n hn => nssaiDetailsToJson_eq ind ind' (h.1 n hn),
      listToJson_congr fun n hn => nssaiDetailsToJson_eq ind ind' (h.2.1 n hn)]
  rw [plmnIdSetToJson, plmnIdSetToJson, hnssai,
    listToJson_congr fun l hl => dnnListToJson_eq ind ind' (h.2.2 l hl)]

theorem plmnIdsToJson_eq {sets : List (PlmnIdSets Json)} (h : ∀ s ∈ sets, PlmnIdSetAssigned s) :
    plmnIdsToJson ind sets = plmnIdsToJson ind' sets :=
  listToJson_congr fun s hs => plmnIdSetToJson_eq ind ind' (h s hs)

theorem udmSliceProfileToJson_eq {e : UdmSliceProfile Json} (h : UdmSliceProfileAssigned e) :
    udmSliceProfileToJson ind e = udmSliceProfileToJson ind' e := by
  rw [udmSliceProfileToJson, udmSliceProfileToJson, plmnIdsToJson_eq ind ind' h]

theorem smsStaticDataToJson_eq {e : SmsStaticData Json} (h : SmsStaticDataAssigned e) :
    smsStaticDataToJson ind e = smsStaticDataToJson ind' e := by
  obtain ⟨hsms, hmt, hmtAll, hmtRoaming, hmo, hmoAll, hmoRoaming⟩ := h
  rw [smsStaticDataToJson, smsStaticDataToJson, smsSubscriptionDataToJson,
    smsSubscriptionDataToJson, smsManagementSubscriptionDataToJson,
    smsManagementSubscriptionDataToJson, whenFlag_boolToJson_eq ind ind' hsms,
    whenFlag_boolToJson_eq ind ind' hmt, whenFlag_boolToJson_eq ind ind' hmtAll,
    whenFlag_boolToJson_eq ind ind' hmtRoaming, whenFlag_boolToJson_eq ind ind' hmo,
    whenFlag_boolToJson_eq ind ind' hmoAll, whenFlag_boolToJson_eq ind ind' hmoRoaming]

/-- The static addresses as they are written. -/
def staticAddressMembers (e : UdmStaticData Json) : List (String × Json) :=
  whenFlag e.fieldExistence.hasStaticIpAddress
    [(jsonStaticIpAddress, staticIpAddressToJson ind e.staticIpAddress)]

theorem udmStaticDataToJson_iff {e : UdmStaticData Json} (h : UdmStaticDataAssigned e) :
    udmStaticDataToJson ind e = udmStaticDataToJson ind' e ↔
      staticAddressMembers ind e = staticAddressMembers ind' e := by
  obtain ⟨hmps, hmcs, hcount, hmico, husage, hrfsp, htimer, htas, hsets⟩ := h
  have harea : serviceAreaRestrictionToJson ind e = serviceAreaRestrictionToJson ind' e := by
    rw [serviceAreaRestrictionToJson, serviceAreaRestrictionToJson,
      whenFlag_intToJson_eq ind ind' htas]
  rw [udmStaticDataToJson, udmStaticDataToJson, harea, udmSliceDataToJson, udmSliceDataToJson,
    plmnIdsToJson_eq ind ind' hsets, whenFlag_boolToJson_eq ind ind' hmps,
    whenFlag_boolToJson_eq ind ind' hmcs, whenFlag_intToJson_eq ind ind' hcount,
    whenFlag_boolToJson_eq ind ind' hmico, whenFlag_intToJson_eq ind ind' husage,
    whenFlag_intToJson_eq ind ind' hrfsp, whenFlag_intToJson_eq ind ind' htimer]
  simp only [Json.obj.injEq, List.append_cancel_right_eq, List.append_cancel_left_eq]
  rfl

theorem staticAddressMembers_eq {e : UdmStaticData Json}
    (h : e.fieldExistence.hasStaticIpAddress = true →
      AddressesAssigned e.staticIpAddress.nssaiDnnIpLists) :
    staticAddressMembers ind e = staticAddressMembers ind' e :=
  whenFlag_congr fun hflag => by
    rw [staticIpAddressToJson, staticIpAddressToJson, listToJson_congr fun n hn => ?_]
    rw [nssaiDnnIpsToJson, nssaiDnnIpsToJson, staticSnssaiToJson, staticSnssaiToJson,
      intToJson_eq ind ind' (h hflag n hn)]

/-- **Addresses without a value are noticed** in what is written. -/
theorem addressesAssigned_of_members_eq {e : UdmStaticData Json}
    (hflag : e.fieldExistence.hasStaticIpAddress = true)
    (h : staticAddressMembers ⟨0, false⟩ e = staticAddressMembers ⟨256, false⟩ e) :
    AddressesAssigned e.staticIpAddress.nssaiDnnIpLists := by
  intro a ha
  have hne : e.staticIpAddress.nssaiDnnIpLists ≠ [] := List.ne_nil_of_mem ha
  simp only [staticAddressMembers, whenFlag, if_pos hflag, staticIpAddressToJson, listToJson,
    if_neg hne, List.cons.injEq, Prod.mk.injEq, and_true, true_and, Json.obj.injEq,
    List.append_cancel_right_eq, Json.arr.injEq, List.map_inj_left] at h
  have heq := h a ha
  simp only [nssaiDnnIpsToJson, staticSnssaiToJson, intToJson, List.cons_append, List.nil_append,
    Json.obj.injEq, List.cons.injEq, Prod.mk.injEq, and_true, true_and, Json.int.injEq] at heq
  by_contra hunset
  rw [SnssaiAssigned, Option.not_isSome_iff_eq_none] at hunset
  rw [hunset] at heq
  cases heq

/-! ## The mutations -/

theorem plmnIdSetAssigned_mutate {s : PlmnIdSets V} (h : PlmnIdSetAssigned s) :
    PlmnIdSetAssigned (mutatePlmnIdSet s) := by
  have hinclude : ∀ {ns : List (NssaiDetails V)}, (∀ n ∈ ns, SnssaiAssigned n.nssai) →
      ∀ n ∈ includeNssai ns, SnssaiAssigned n.nssai := by
    intro ns hns n hn
    obtain ⟨m, hm, rfl⟩ := List.mem_map.1 hn
    split_ifs
    · exact hns m hm
    · exact hns m hm
  refine ⟨hinclude h.1, ?_, h.2.2⟩
  show ∀ n ∈ (if s.fieldExistenceUdmSliceProfile.hasNssai then _ else _), _
  split_ifs
  · exact hinclude h.2.1
  · exact h.2.1

theorem forall_mutatePlmnIdSet {sets : List (PlmnIdSets V)} (h : ∀ s ∈ sets, PlmnIdSetAssigned s) :
    ∀ s ∈ sets.map mutatePlmnIdSet, PlmnIdSetAssigned s := by
  intro s hs
  obtain ⟨t, ht, rfl⟩ := List.mem_map.1 hs
  exact plmnIdSetAssigned_mutate (h t ht)

theorem changeAssigned_computeMutations (hc : ChangeAssigned c) :
    ChangeAssigned (computeMutations c) := by
  have hprofile : ChangeAssigned (mutateSliceProfile c) := by
    rw [mutateSliceProfile]
    split_ifs
    · intro k
      cases k with
      | udmSliceProfile => exact forall_mutatePlmnIdSet (hc .udmSliceProfile)
      | udmStaticData => exact hc .udmStaticData
      | udmRoamingArea => trivial
      | smsStaticData => exact hc .smsStaticData
    · exact hc
  rw [computeMutations, mutateSliceData]
  split_ifs
  · intro k
    cases k with
    | udmStaticData =>
      obtain ⟨hmps, hmcs, hcount, hmico, husage, hrfsp, htimer, htas, hsets⟩ :=
        hprofile .udmStaticData
      exact ⟨hmps, hmcs, hcount, hmico, husage, hrfsp, htimer, htas, forall_mutatePlmnIdSet hsets⟩
    | udmSliceProfile => exact hprofile .udmSliceProfile
    | udmRoamingArea => trivial
    | smsStaticData => exact hprofile .smsStaticData
  · exact hprofile

/-- The mutations leave the addresses. -/
theorem staticAddressMembers_computeMutations (c : Change Json) :
    staticAddressMembers ind (computeMutations c).udmStaticData =
      staticAddressMembers ind c.udmStaticData := by
  unfold computeMutations mutateSliceData mutateSliceProfile
  split_ifs <;> rfl

/-! ## Changes in the response -/

/-- The encoder looks at the addresses: it writes the data of a change as those of a subscription. -/
def EncoderReachesAddresses (c : Change V) : Prop :=
  c.operation ≠ jsonOperationDelete ∧ contains c.resourcePath jsonUdmStaticData = true

/-- **A change is written the same whatever unassigned fields hold**, but for the addresses. -/
theorem changeToJson_iff {c : Change Json} (hc : ChangeAssigned c) :
    changeToJson ind c = changeToJson ind' c ↔ (EncoderReachesAddresses c →
      staticAddressMembers ind c.udmStaticData = staticAddressMembers ind' c.udmStaticData) := by
  have hdata : UdmStaticDataAssigned c.udmStaticData := hc .udmStaticData
  have hprofile : UdmSliceProfileAssigned c.udmSliceProfile := hc .udmSliceProfile
  have hsms : SmsStaticDataAssigned c.smsStaticData := hc .smsStaticData
  rw [changeToJson, changeToJson, EncoderReachesAddresses]
  by_cases hdelete : c.operation = jsonOperationDelete
  · simp [hdelete, whenFlag]
  · have hflag : (c.operation != jsonOperationDelete) = true := bne_iff_ne.2 hdelete
    simp only [whenFlag, if_pos hflag, Json.obj.injEq, List.append_cancel_left_eq,
      List.cons.injEq, Prod.mk.injEq, and_true, true_and, ne_eq, hdelete, not_false_eq_true]
    rw [changeDataToJson, changeDataToJson]
    by_cases hstatic : contains c.resourcePath jsonUdmStaticData = true
    · rw [if_pos hstatic, if_pos hstatic, udmStaticDataToJson_iff ind ind' hdata]
      exact ⟨fun h _ => h, fun h => h hstatic⟩
    · rw [if_neg hstatic, if_neg hstatic, udmSliceProfileToJson_eq ind ind' hprofile,
        smsStaticDataToJson_eq ind ind' hsms]
      exact iff_of_true rfl fun h => absurd h hstatic

theorem changeToJson_computeMutations_iff {c : Change Json} (hc : ChangeAssigned c) :
    changeToJson ind (computeMutations c) = changeToJson ind' (computeMutations c) ↔
      (EncoderReachesAddresses c →
        staticAddressMembers ind c.udmStaticData = staticAddressMembers ind' c.udmStaticData) := by
  rw [changeToJson_iff ind ind' (changeAssigned_computeMutations hc), EncoderReachesAddresses,
    EncoderReachesAddresses, staticAddressMembers_computeMutations,
    staticAddressMembers_computeMutations, operation_computeMutations,
    resourcePath_computeMutations]

end ProvisioningValidator
