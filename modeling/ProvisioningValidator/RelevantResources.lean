import Mathlib
import ProvisioningValidator.Independence

/-!
# The resources that matter

A request carries whatever resources the client thinks are related. For a change the rules look up a
few paths only: its own, that of the journal of its subscriber, and, for static data, those of slice
profiles. `Relevant` says which, and two sets of resources that agree there lead to the same verdict,
with the same errors in the same order (`changeRules_congr`).

**Theorem (`irrelevant_resources_ignored`).** A run depends on the resources at the paths that are
relevant to one of its changes, and on no others.
-/

namespace ProvisioningValidator

open Lib Checked

variable {V : Type} {ind : Indeterminate} {rr rr' : RelatedResources V}

/-- A path that matters to a change. -/
inductive Relevant (c : Change V) : String → Prop
  | own : Relevant c c.resourcePath
  | journal (hpath : isUdmStaticData c.resourcePath = true) :
      Relevant c (buildProvJournalResourcePathFromMscId (getMscId c.resourcePath))
  | smsJournal (hpath : isSmsSubscription c.resourcePath = true) :
      Relevant c (buildProvJournalResourcePathFromMscId (getSmsStaticDataMscId c.resourcePath))
  | profile (hpath : isUdmStaticData c.resourcePath = true) {path : String}
      (hprofile : isUdmSliceProfile path = true) : Relevant c path

/-- The same resources at the paths that matter to a change. -/
def AgreeFor (rr rr' : RelatedResources V) (c : Change V) : Prop :=
  ∀ path, Relevant c path → rr.find? path = rr'.find? path

/-! ## The lookup of a profile -/

/-- What is not under the path of a profile is passed over. -/
theorem findUdmSliceProfile_filter (profId : String) (l : List (String × Resource V)) :
    findUdmSliceProfile profId l =
      findUdmSliceProfile profId (l.filter (isUdmSliceProfile ·.1)) := by
  induction l with
  | nil => rfl
  | cons e l ih =>
    obtain ⟨key, r⟩ := e
    rw [List.filter_cons]
    split_ifs with hkey
    · rw [findUdmSliceProfile, findUdmSliceProfile, if_pos hkey, if_pos hkey, ih]
    · rw [findUdmSliceProfile, if_neg hkey, ih]

theorem getRelatedUdmSliceProfile_congr
    (h : ∀ path, isUdmSliceProfile path = true → rr.find? path = rr'.find? path)
    (profId : String) :
    getRelatedUdmSliceProfile rr profId = getRelatedUdmSliceProfile rr' profId := by
  have hfilter : rr.filter isUdmSliceProfile = rr'.filter isUdmSliceProfile := by
    refine OrdMap.ext_find fun path => ?_
    rw [OrdMap.find?_filter, OrdMap.find?_filter]
    split_ifs with hpath
    · exact h path hpath
    · rfl
  rw [getRelatedUdmSliceProfile, getRelatedUdmSliceProfile, findUdmSliceProfile_filter,
    findUdmSliceProfile_filter profId rr'.entries]
  exact congrArg (fun m : RelatedResources V => findUdmSliceProfile profId m.entries) hfilter

/-! ## The rules -/

variable {c : Change V}

theorem subscriptionRulesWithProfile_congr (hpath : isUdmStaticData c.resourcePath = true)
    (h : AgreeFor rr rr' c) (before : Checked) :
    subscriptionRulesWithProfile ind rr c before =
      subscriptionRulesWithProfile ind rr' c before := by
  rw [subscriptionRulesWithProfile, subscriptionRulesWithProfile,
    getRelatedUdmSliceProfile_congr fun path hprofile => h path (.profile hpath hprofile)]

/-- **The rules of a change look at nothing else.** -/
theorem changeRules_congr (h : AgreeFor rr rr' c) :
    changeRules ind rr c = changeRules ind rr' c := by
  have hown : rr.find? c.resourcePath = rr'.find? c.resourcePath := h _ .own
  have hcontains : rr.contains c.resourcePath = rr'.contains c.resourcePath := by
    rw [OrdMap.contains, OrdMap.contains, hown]
  have hcreation : isUdmStaticData c.resourcePath = true →
      checkForCreationUdmSubscriptionRules ind rr c =
        checkForCreationUdmSubscriptionRules ind rr' c := by
    intro hpath
    unfold checkForCreationUdmSubscriptionRules
    simp only [h _ (.journal hpath), subscriptionRulesWithProfile_congr hpath h]
  have hupdate : isUdmStaticData c.resourcePath = true →
      checkForUpdateUdmSubscriptionRules ind rr c =
        checkForUpdateUdmSubscriptionRules ind rr' c := by
    intro hpath
    unfold checkForUpdateUdmSubscriptionRules
    rw [hcontains, subscriptionRulesWithProfile_congr hpath h]
  have hprofile : checkForUpdateUdmSliceProfileRules ind rr c =
      checkForUpdateUdmSliceProfileRules ind rr' c := by
    unfold checkForUpdateUdmSliceProfileRules
    rw [hown]
  have harea : checkForUpdateUdmRoamingAreaRules rr c =
      checkForUpdateUdmRoamingAreaRules rr' c := by
    unfold checkForUpdateUdmRoamingAreaRules
    rw [hcontains]
  have hsms : isSmsSubscription c.resourcePath = true →
      smsValidationData ind rr c = smsValidationData ind rr' c := by
    intro hpath
    have hcreate : createSpecificSmsValidationRules rr c =
        createSpecificSmsValidationRules rr' c := by
      unfold createSpecificSmsValidationRules
      simp only [h _ (.smsJournal hpath)]
    have hupdate : updateSpecificSmsValidationRules rr c =
        updateSpecificSmsValidationRules rr' c := by
      unfold updateSpecificSmsValidationRules
      rw [hcontains]
    unfold smsValidationData
    rw [hcreate, hupdate]
  unfold changeRules
  rw [hprofile, harea]
  -- The others are looked at only under a path of their kind.
  refine ite_congr rfl (fun hpath => hcreation hpath.1) fun _ => ?_
  refine ite_congr rfl (fun hpath => hupdate hpath.1) fun _ => ?_
  refine ite_congr rfl (fun _ => rfl) fun _ => ?_
  refine ite_congr rfl (fun _ => rfl) fun _ => ?_
  refine ite_congr rfl (fun _ => rfl) fun _ => ?_
  refine ite_congr rfl (fun _ => rfl) fun _ => ?_
  exact ite_congr rfl hsms fun _ => rfl

/-! ## Runs -/

/-- **Resources at other paths do not matter to a run**: neither to its verdict and its code, nor to
its errors and the changes it delivers, nor to whether it ends at all. -/
theorem irrelevant_resources_ignored {changes : List (Change V)}
    (h : ∀ c ∈ changes, AgreeFor rr rr' c) :
    applyValidationRules ind rr changes = applyValidationRules ind rr' changes := by
  induction changes with
  | nil => simp only [applyValidationRules, List.foldlM_nil]
  | cons c cs ih =>
    have hone : applyValidationRules ind rr [c] = applyValidationRules ind rr' [c] := by
      have hstep : ∀ st, applyStep ind rr st c = applyStep ind rr' st c := by
        intro st
        rw [applyStep_eq, applyStep_eq, changeRules_congr (h c List.mem_cons_self)]
      unfold applyValidationRules
      simp only [List.foldlM_cons, List.foldlM_nil, hstep]
    rw [applyValidationRules_cons, applyValidationRules_cons c cs, hone,
      ih fun d hd => h d (List.mem_cons_of_mem c hd)]

/-- An update of an area, and another area beside it. -/
theorem irrelevant_resources_ignored_other_area :
    let change : Change Json :=
      { operation := "UPDATE", resourcePath := "/profiles/udmProfiles/udmRoamingAreas/a" }
    let other : RelatedResources Json :=
      OrdMap.emplaceAll ∅ [("/profiles/udmProfiles/udmRoamingAreas/b", .udmRoamingArea {})]
    applyValidationRules ⟨0, false⟩ other [change] = applyValidationRules ⟨0, false⟩ ∅ [change] := by
  refine irrelevant_resources_ignored fun c hc path hpath => ?_
  obtain rfl := List.mem_singleton.1 hc
  have hstatic : isUdmStaticData "/profiles/udmProfiles/udmRoamingAreas/a" = false := by decide
  have hsms : isSmsSubscription "/profiles/udmProfiles/udmRoamingAreas/a" = false := by decide
  cases hpath with
  | own => rfl
  | journal hroute => exact absurd hroute (Bool.eq_false_iff.1 hstatic)
  | smsJournal hroute => exact absurd hroute (Bool.eq_false_iff.1 hsms)
  | profile hroute => exact absurd hroute (Bool.eq_false_iff.1 hstatic)

end ProvisioningValidator
