import Mathlib
import ProvisioningValidator.SliceRepetitions
import ProvisioningValidator.WellFormedSets

/-!
# What is accepted

For a slice profile and for a subscription, `accepted` is spelled out: which resources are found
beside the change, and which of the conditions of the rules the change meets. The other modules use
these three statements in place of the rules.

* `accepted_creation_iff`, `accepted_update_iff` — slice profiles;
* `accepted_subscription_iff` — static data, on creation and on update.
-/

namespace ProvisioningValidator

open Lib Checked

variable {V : Type} {ind : Indeterminate} {rr : RelatedResources V} {c : Change V}

theorem accepted_iff_rules :
    accepted ind rr c = true ↔ ∃ v, changeRules ind rr c = some v ∧ v.ret = true := by
  refine ⟨rules_of_accepted, ?_⟩
  rintro ⟨v, hv, hret⟩
  rw [accepted_eq ind rr hv, hret]

theorem not_static_of_sliceProfile (hpath : isUdmSliceProfile c.resourcePath = true) :
    isUdmStaticData c.resourcePath = false := by
  rw [Bool.eq_false_iff]
  intro hs
  cases ResourceKind.eq_of_routes .udmStaticData .udmSliceProfile hs hpath

/-! ## Slice profiles -/

/-- The common rules of a profile are about its sets, if there are any. -/
def ProfileWellFormed (ind : Indeterminate) (sets : List (PlmnIdSets V)) : Prop :=
  sets ≠ [] → SetsWellFormed ind true sets

theorem ret_commonSliceProfileRules : (commonSliceProfileRules ind c).ret = true ↔
    ProfileWellFormed ind c.udmSliceProfile.plmnIdSets := by
  rw [commonSliceProfileRules, ret_guard, ProfileWellFormed]
  exact imp_congr_right fun _ => ret_checkForCommonUdmSliceProfileRules

/-- **When a slice profile may be created.** -/
theorem accepted_creation_iff (hpath : isUdmSliceProfile c.resourcePath = true)
    (hop : c.operation = jsonOperationCreate) : accepted ind rr c = true ↔
      ProfileWellFormed ind c.udmSliceProfile.plmnIdSets ∧
        NothingRepeated ind c.udmSliceProfile.plmnIdSets := by
  have hrules : changeRules ind rr c = some (checkForCreationUdmSliceProfileRules ind c) := by
    rw [changeRules, not_static_of_sliceProfile hpath]
    simp [hpath, hop]
  rw [accepted_eq ind rr hrules, checkForCreationUdmSliceProfileRules]
  show (_ ++ _ : Checked).ret = true ↔ _
  rw [ret_append, Bool.and_eq_true, ret_commonSliceProfileRules,
    checkForCreationSpecificUdmSliceProfileRules, ret_checkForRepeatedDnnsandNssais]

/-- The profile that is stored at a path. -/
def storedProfile (rr : RelatedResources V) (path : String) : Option (UdmSliceProfile V) :=
  (rr.find? path).bind Resource.getUdmSliceProfile

/-- **When a slice profile may be updated.** -/
theorem accepted_update_iff (hpath : isUdmSliceProfile c.resourcePath = true)
    (hop : c.operation = jsonOperationUpdate) : accepted ind rr c = true ↔
      ∃ p, storedProfile rr c.resourcePath = some p ∧
        ProfileWellFormed ind c.udmSliceProfile.plmnIdSets ∧
        (∀ s ∈ c.udmSliceProfile.plmnIdSets, NssaisTolerated ind p s) ∧
        DnnsTolerated p c.udmSliceProfile.plmnIdSets ∧
        ListsCovered p c.udmSliceProfile.plmnIdSets := by
  have hrules : changeRules ind rr c = checkForUpdateUdmSliceProfileRules ind rr c := by
    rw [changeRules, not_static_of_sliceProfile hpath]
    simp [hpath, hop]
  rw [accepted_iff_rules, hrules, checkForUpdateUdmSliceProfileRules, storedProfile]
  cases rr.find? c.resourcePath with
  | none => simp [unprocessable]
  | some resource =>
    cases hp : resource.getUdmSliceProfile with
    | none => simp [hp]
    | some p =>
      simp [hp, verdict, ret_commonSliceProfileRules, ret_checkForUpdateSpecific]

/-! ## Subscriptions -/

/-- What has to be found beside a subscription: on creation the journal of the subscriber, with an
IMSI, and on update the subscription. -/
def SubscriberFound (rr : RelatedResources V) (c : Change V) : Prop :=
  (c.operation = jsonOperationCreate → ∃ journal,
    (rr.find? (buildProvJournalResourcePathFromMscId (getMscId c.resourcePath))).bind
      Resource.getProvJournal = some journal ∧ journal.imsi ≠ "") ∧
  (c.operation = jsonOperationUpdate → rr.contains c.resourcePath = true)

theorem withProfile_accepted_iff {before : Checked} :
    (∃ v, subscriptionRulesWithProfile ind rr c before = some v ∧ v.ret = true) ↔
      before.ret = true ∧ ∃ profile, getRelatedUdmSliceProfile rr
          c.udmStaticData.udmSliceProfileId.id = some (some profile) ∧
        (checkForCommonUdmSubscriptionRules ind c profile).ret = true := by
  rw [subscriptionRulesWithProfile]
  cases hfound : getRelatedUdmSliceProfile rr c.udmStaticData.udmSliceProfileId.id with
  | none => simp
  | some found =>
    cases found with
    | none => simp [unprocessable, Verdict.after]
    | some profile => simp [verdict]

/-- **When a subscription may be created or updated.** -/
theorem accepted_subscription_iff (hpath : isUdmStaticData c.resourcePath = true)
    (hop : Delivers c) : accepted ind rr c = true ↔
      SubscriberFound rr c ∧ ∃ profile, getRelatedUdmSliceProfile rr
          c.udmStaticData.udmSliceProfileId.id = some (some profile) ∧
        (checkForCommonUdmSubscriptionRules ind c profile).ret = true := by
  rw [accepted_iff_rules, changeRules, SubscriberFound]
  rcases hop with hop | hop
  · rw [if_pos ⟨hpath, hop⟩]
    simp only [checkForCreationUdmSubscriptionRules, hop]
    cases rr.find? (buildProvJournalResourcePathFromMscId (getMscId c.resourcePath)) with
    | none => simp [unprocessable]
    | some resource =>
      cases hj : resource.getProvJournal with
      | none => simp [hj]
      | some journal =>
        simp [hj, withProfile_accepted_iff, checkImsiIsInProvJournal]
  · have hne : ¬ (isUdmStaticData c.resourcePath = true ∧ c.operation = jsonOperationCreate) := by
      simp [hop]
    rw [if_neg hne, if_pos ⟨hpath, hop⟩, checkForUpdateUdmSubscriptionRules]
    cases hcontains : rr.contains c.resourcePath with
    | false => simp [hop, unprocessable]
    | true => simp [hop, withProfile_accepted_iff]

end ProvisioningValidator
