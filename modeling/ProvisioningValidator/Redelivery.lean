import Mathlib
import ProvisioningValidator.AcceptedChanges
import ProvisioningValidator.Independence

/-!
# Delivered changes, validated again

A run that accepts everything delivers its changes with `Default` filled in where an entry named no
list. Validated again beside the same resources, they go through the same rules, but for the entries
that were filled in: these name a list now, and an entry of an update that repeats a pair is
compared with what is stored by its list id.

**Theorem (`delivered_accepted_iff`).** The delivered changes are accepted, and delivered as they
are, exactly if all of them are `Settled`.
-/

namespace ProvisioningValidator

open Lib Checked

variable {V : Type}

/-! ## Mutations, made twice -/

@[simp] theorem includeNssai_includeNssai (ns : List (NssaiDetails V)) :
    includeNssai (includeNssai ns) = includeNssai ns := by
  rw [includeNssai, includeNssai, List.map_map]
  refine List.map_congr_left fun n _ => ?_
  show (if (if n.dnnListId = "" then { n with dnnListId := defaultValue } else n).dnnListId = ""
    then _ else _) = _
  by_cases hid : n.dnnListId = ""
  · simp [hid]
  · simp [hid]

@[simp] theorem mutatePlmnIdSet_mutatePlmnIdSet (s : PlmnIdSets V) :
    mutatePlmnIdSet (mutatePlmnIdSet s) = mutatePlmnIdSet s := by
  rw [mutatePlmnIdSet, mutatePlmnIdSet]
  dsimp only
  cases s.fieldExistenceUdmSliceProfile.hasNssai with
  | true => simp
  | false => simp

/-- **What was delivered is not changed any more.** -/
theorem computeMutations_computeMutations (c : Change V) :
    computeMutations (computeMutations c) = computeMutations c := by
  unfold computeMutations mutateSliceData mutateSliceProfile
  split_ifs
  all_goals simp_all

/-! ## Sets -/

/-- Some entry of the set has no list id, and is given one. -/
def FilledIn (s : PlmnIdSets V) : Prop :=
  (∃ n ∈ s.nssai.defaultSingleNssais, n.dnnListId = "") ∨
    (s.fieldExistenceUdmSliceProfile.hasNssai = true ∧
      ∃ n ∈ s.nssai.singleNssais, n.dnnListId = "")

/-- What does not depend on the list id of an entry is not changed. -/
theorem forall_mem_includeNssai {P : NssaiDetails V → Prop}
    (hP : ∀ n id, P { n with dnnListId := id } ↔ P n) {ns : List (NssaiDetails V)} :
    (∀ n ∈ includeNssai ns, P n) ↔ ∀ n ∈ ns, P n := by
  rw [includeNssai, List.forall_mem_map]
  refine forall₂_congr fun n _ => ?_
  split_ifs
  · exact hP n defaultValue
  · rfl

theorem forall_mem_nssaiEntries_mutate {P : NssaiDetails V → Prop}
    (hP : ∀ n id, P { n with dnnListId := id } ↔ P n) {s : PlmnIdSets V} :
    (∀ n ∈ nssaiEntries (mutatePlmnIdSet s), P n) ↔ ∀ n ∈ nssaiEntries s, P n := by
  have hsingle : (∀ n ∈ (mutatePlmnIdSet s).nssai.singleNssais, P n) ↔
      ∀ n ∈ s.nssai.singleNssais, P n := by
    show (∀ n ∈ (if s.fieldExistenceUdmSliceProfile.hasNssai then _ else _), P n) ↔ _
    split_ifs
    · exact forall_mem_includeNssai hP
    · rfl
  simp only [nssaiEntries, List.mem_append, or_imp, forall_and, hsingle]
  exact and_congr_left fun _ => forall_mem_includeNssai hP

/-- The lists that a set names, before and after. -/
theorem named_mutate_iff {s : PlmnIdSets V} {Q : String → Prop}
    (hnamed : ∀ n ∈ nssaiEntries s, n.dnnListId ≠ "" → Q n.dnnListId) :
    (∀ n ∈ nssaiEntries (mutatePlmnIdSet s), n.dnnListId ≠ "" → Q n.dnnListId) ↔
      (FilledIn s → Q defaultValue) := by
  rw [references_mutate_iff (P := fun id => id ≠ "" → Q id) fun n hn hid _ => hnamed n hn hid,
    DefaultsSatisfy, FilledIn, singleDefault]
  cases s.fieldExistenceUdmSliceProfile.hasNssai with
  | true => simp [or_imp]
  | false => simp

theorem setWellFormed_mutate_iff {ind : Indeterminate} {isSliceProfile : Bool} {s : PlmnIdSets V}
    (h : SetWellFormed ind isSliceProfile s) : SetWellFormed ind isSliceProfile (mutatePlmnIdSet s) ↔
      (isSliceProfile = true → FilledIn s → s.dnnLists ≠ []) := by
  have hdefault : isSliceProfile = true → (ListDefined s defaultValue ↔ s.dnnLists ≠ []) := by
    refine fun hprofile => ⟨fun hdef => ?_, h.defaultList hprofile⟩
    obtain ⟨l, hl, -⟩ := hdef
    exact List.ne_nil_of_mem hl
  constructor
  · intro h' hprofile
    rw [← hdefault hprofile]
    exact (named_mutate_iff (h.references hprofile)).1 (h'.references hprofile)
  · intro hfilled
    refine ⟨h.identifier, ?_, h.lists, h.defaultList, fun hprofile => ?_⟩
    · rw [forall_mem_nssaiEntries_mutate fun n id => ⟨fun h => ⟨h.1, h.2, h.3⟩,
        fun h => ⟨h.1, h.2, h.3⟩⟩]
      exact h.nssais
    · refine (named_mutate_iff (h.references hprofile)).2 fun hs => ?_
      exact (hdefault hprofile).2 (hfilled hprofile hs)

theorem setsWellFormed_mutate_iff {ind : Indeterminate} {isSliceProfile : Bool}
    {sets : List (PlmnIdSets V)} (h : SetsWellFormed ind isSliceProfile sets) :
    SetsWellFormed ind isSliceProfile (sets.map mutatePlmnIdSet) ↔
      (isSliceProfile = true → ∀ s ∈ sets, FilledIn s → s.dnnLists ≠ []) := by
  constructor
  · intro h' hprofile s hs
    have hset := h'.each _ (List.mem_map_of_mem hs)
    exact (setWellFormed_mutate_iff (h.each s hs)).1 hset hprofile
  · intro hfilled
    refine ⟨?_, fun hprofile => ?_⟩
    · rw [List.forall_mem_map]
      exact fun s hs => (setWellFormed_mutate_iff (h.each s hs)).2 fun hprofile =>
        hfilled hprofile s hs
    · obtain ⟨s, hs, hid⟩ := h.defaultSet hprofile
      exact ⟨_, List.mem_map_of_mem hs, hid⟩

/-- The pairs and the DNNs of a set stay as they are. -/
theorem nothingRepeated_mutate {ind : Indeterminate} {sets : List (PlmnIdSets V)} :
    NothingRepeated ind (sets.map mutatePlmnIdSet) ↔ NothingRepeated ind sets := by
  have hinclude : ∀ ns : List (NssaiDetails V),
      (includeNssai ns).map (nssaiPair ind) = ns.map (nssaiPair ind) := by
    intro ns
    rw [includeNssai, List.map_map]
    refine List.map_congr_left fun n _ => ?_
    show nssaiPair ind (if _ then _ else _) = _
    split_ifs
    · rfl
    · rfl
  have hpairs : ∀ s : PlmnIdSets V, nssaiPairs ind (mutatePlmnIdSet s) = nssaiPairs ind s := by
    intro s
    have hsingle : (mutatePlmnIdSet s).nssai.singleNssais.map (nssaiPair ind) =
        s.nssai.singleNssais.map (nssaiPair ind) := by
      show (if s.fieldExistenceUdmSliceProfile.hasNssai then _ else _ : List _).map _ = _
      split_ifs
      · exact hinclude _
      · rfl
    rw [nssaiPairs, nssaiPairs, nssaiEntries, nssaiEntries, List.map_append, List.map_append,
      hsingle]
    exact congrArg (· ++ _) (hinclude _)
  simp only [NothingRepeated, List.forall_mem_map, hpairs, dnnLists_mutatePlmnIdSet]

theorem profileWellFormed_mutate_iff {ind : Indeterminate} {sets : List (PlmnIdSets V)}
    (h : ProfileWellFormed ind sets) : ProfileWellFormed ind (sets.map mutatePlmnIdSet) ↔
      ∀ s ∈ sets, FilledIn s → s.dnnLists ≠ [] := by
  rw [ProfileWellFormed, Ne, List.map_eq_nil_iff]
  by_cases hnone : sets = []
  · simp [hnone]
  · simp only [hnone, not_false_eq_true, true_imp_iff]
    rw [setsWellFormed_mutate_iff (h hnone)]
    simp

/-! ## Changes -/

section

variable {ind : Indeterminate} {rr : RelatedResources V} {c : Change V}

@[simp] theorem udmRoamingArea_computeMutations (c : Change V) :
    (computeMutations c).udmRoamingArea = c.udmRoamingArea := by
  unfold computeMutations mutateSliceData mutateSliceProfile
  split_ifs <;> rfl

@[simp] theorem smsStaticData_computeMutations (c : Change V) :
    (computeMutations c).smsStaticData = c.smsStaticData := by
  unfold computeMutations mutateSliceData mutateSliceProfile
  split_ifs <;> rfl

variable (ind rr c) in
/-- The entries that are filled in name lists that there are; and in an update each entry that
repeats a pair is stored under the list id that it is given. -/
structure Settled : Prop where
  sliceProfile : isUdmSliceProfile c.resourcePath = true → ∀ s ∈ c.udmSliceProfile.plmnIdSets,
    FilledIn s → s.dnnLists ≠ []
  repeatedPairs : isUdmSliceProfile c.resourcePath = true → c.operation = jsonOperationUpdate →
    ∀ p, storedProfile rr c.resourcePath = some p →
      ∀ s ∈ c.udmSliceProfile.plmnIdSets, NssaisTolerated ind p (mutatePlmnIdSet s)
  sliceData : isUdmStaticData c.resourcePath = true →
    c.udmStaticData.fieldExistence.hasUdmSliceData = true →
      ∀ s ∈ c.udmStaticData.udmSliceData.plmnIdSets,
        FilledIn s → DefinedForChange rr c s.plmnIdSetIdentifier defaultValue

/-- The rules for all others look at nothing that the mutations change. -/
theorem changeRules_computeMutations (hstatic : Delivers c → isUdmStaticData c.resourcePath = false)
    (hprofile : Delivers c → isUdmSliceProfile c.resourcePath = false) :
    changeRules ind rr (computeMutations c) = changeRules ind rr c := by
  have hstatic' : ∀ op, (op = jsonOperationCreate ∨ op = jsonOperationUpdate) →
      ¬ (isUdmStaticData c.resourcePath = true ∧ c.operation = op) := by
    rintro op hop ⟨hpath, rfl⟩
    simp [hstatic hop] at hpath
  have hprofile' : ∀ op, (op = jsonOperationCreate ∨ op = jsonOperationUpdate) →
      ¬ (isUdmSliceProfile c.resourcePath = true ∧ c.operation = op) := by
    rintro op hop ⟨hpath, rfl⟩
    simp [hprofile hop] at hpath
  have hroaming : checkForCommonUdmRoamingAreaRules (computeMutations c) =
      checkForCommonUdmRoamingAreaRules c := by
    simp [checkForCommonUdmRoamingAreaRules]
  have hsms : smsValidationData ind rr (computeMutations c) = smsValidationData ind rr c := by
    simp [smsValidationData, commonSmsValidationRules, createSpecificSmsValidationRules,
      updateSpecificSmsValidationRules, checkSmsSubscribed, checkMtSmsSubscribed,
      checkMoSmsSubscribed]
  rw [changeRules, changeRules, operation_computeMutations, resourcePath_computeMutations]
  iterate 2
    rw [if_neg (hstatic' _ (.inl rfl)), if_neg (hstatic' _ (.inr rfl)),
      if_neg (hprofile' _ (.inl rfl)), if_neg (hprofile' _ (.inr rfl))]
  rw [hsms, checkForCreationUdmRoamingAreaRules, checkForCreationUdmRoamingAreaRules,
    checkForUpdateUdmRoamingAreaRules, checkForUpdateUdmRoamingAreaRules, hroaming,
    resourcePath_computeMutations]

theorem dnnsTolerated_mutate {p : UdmSliceProfile V} {sets : List (PlmnIdSets V)} :
    DnnsTolerated p (sets.map mutatePlmnIdSet) ↔ DnnsTolerated p sets := by
  simp only [DnnsTolerated, List.forall_mem_map, dnnLists_mutatePlmnIdSet,
    plmnIdSetIdentifier_mutatePlmnIdSet]

theorem listsCovered_mutate {p : UdmSliceProfile V} {sets : List (PlmnIdSets V)} :
    ListsCovered p (sets.map mutatePlmnIdSet) ↔ ListsCovered p sets := by
  simp only [ListsCovered, ListCovered, definedIn_map_mutate]

/-- A slice profile that was accepted. -/
theorem accepted_sliceProfile_again (h : accepted ind rr c = true) (hop : Delivers c)
    (hpath : isUdmSliceProfile c.resourcePath = true) :
    accepted ind rr (computeMutations c) = true ↔ Settled ind rr c := by
  have hsets := udmSliceProfile_computeMutations hpath hop
  have hpath' : isUdmSliceProfile (computeMutations c).resourcePath = true := by
    rw [resourcePath_computeMutations, hpath]
  have hstatic := not_static_of_sliceProfile hpath
  rcases hop with hop | hop
  · have hop' : (computeMutations c).operation = jsonOperationCreate := by
      rw [operation_computeMutations, hop]
    obtain ⟨hwell, hnone⟩ := (accepted_creation_iff hpath hop).1 h
    rw [accepted_creation_iff hpath' hop', hsets, profileWellFormed_mutate_iff hwell,
      nothingRepeated_mutate, and_iff_left hnone]
    refine ⟨fun hfilled => ⟨fun _ => hfilled, fun _ hop' => ?_, fun hs => ?_⟩,
      fun hs => hs.sliceProfile hpath⟩
    · exact absurd (hop.symm.trans hop') (by decide)
    · simp [hstatic] at hs
  · have hop' : (computeMutations c).operation = jsonOperationUpdate := by
      rw [operation_computeMutations, hop]
    obtain ⟨p, hp, hwell, -, hdnns, hlists⟩ := (accepted_update_iff hpath hop).1 h
    rw [accepted_update_iff hpath' hop', hsets, resourcePath_computeMutations,
      profileWellFormed_mutate_iff hwell]
    simp only [dnnsTolerated_mutate, listsCovered_mutate, List.forall_mem_map]
    constructor
    · rintro ⟨q, hq, hfilled, htolerated, -, -⟩
      refine ⟨fun _ => hfilled, fun _ _ q' hq' => ?_, fun hs => ?_⟩
      · obtain rfl := Option.some.inj (hq.symm.trans hq')
        exact htolerated
      · simp [hstatic] at hs
    · intro hs
      exact ⟨p, hp, hs.sliceProfile hpath, hs.repeatedPairs hpath hop p hp, hdnns, hlists⟩

/-- The rules for slice data, of sets that they have accepted. -/
theorem udmSliceDataRules_mutate_iff {resourcePath : String} {sets : List (PlmnIdSets V)}
    {profile : UdmSliceProfile V}
    (h : (udmSliceDataRules ind resourcePath sets profile).ret = true) :
    (udmSliceDataRules ind resourcePath (sets.map mutatePlmnIdSet) profile).ret = true ↔
      ∀ s ∈ sets, FilledIn s → DefinedIn sets s.plmnIdSetIdentifier defaultValue ∨
        DefinedIn profile.plmnIdSets s.plmnIdSetIdentifier defaultValue := by
  rw [udmSliceDataRules, ret_inOrder] at h ⊢
  simp only [List.forall_mem_cons, List.not_mem_nil, false_implies, implies_true, and_true,
    ret_guard, ret_checkForCommonUdmSliceProfileRules, ret_checkForRepeatedDnnsandNssais,
    ret_sliceDataReferenceRules, nothingRepeated_mutate, definedIn_map_mutate,
    List.forall_mem_map, plmnIdSetIdentifier_mutatePlmnIdSet, ne_eq, List.map_eq_nil_iff] at h ⊢
  obtain ⟨hwell, hnone, hnamed⟩ := h
  have hwell' : ¬ sets = [] → SetsWellFormed ind false (sets.map mutatePlmnIdSet) := fun hne =>
    (setsWellFormed_mutate_iff (hwell hne)).2 nofun
  rw [and_iff_right hwell', and_iff_right hnone]
  refine forall₂_congr fun s hs => ?_
  exact named_mutate_iff (Q := fun id => DefinedIn sets s.plmnIdSetIdentifier id ∨
    DefinedIn profile.plmnIdSets s.plmnIdSetIdentifier id) (hnamed s hs)

/-- Of the common rules for a subscription, only those for slice data look at what is changed. -/
theorem subscriptionRules_mutate_iff {profile : UdmSliceProfile V}
    (hpath : isUdmStaticData c.resourcePath = true)
    (h : (checkForCommonUdmSubscriptionRules ind c profile).ret = true) :
    (checkForCommonUdmSubscriptionRules ind (computeMutations c) profile).ret = true ↔
      (c.udmStaticData.fieldExistence.hasUdmSliceData = true →
        (udmSliceDataRules ind c.resourcePath
          (c.udmStaticData.udmSliceData.plmnIdSets.map mutatePlmnIdSet) profile).ret = true) := by
  rw [checkForCommonUdmSubscriptionRules, ret_inOrder] at h ⊢
  rw [udmStaticData_computeMutations hpath, resourcePath_computeMutations]
  simp only [List.forall_mem_cons, List.not_mem_nil, false_implies, implies_true, and_true,
    ret_guard] at h ⊢
  obtain ⟨h₁, h₂, h₃, h₄, h₅, h₆, h₇, h₈, h₉, h₁₀, -⟩ := h
  exact ⟨fun h => h.2.2.2.2.2.2.2.2.2.2,
    fun h => ⟨h₁, h₂, h₃, h₄, h₅, h₆, h₇, h₈, h₉, h₁₀, h⟩⟩

/-- A subscription that was accepted. -/
theorem accepted_subscription_again (h : accepted ind rr c = true) (hop : Delivers c)
    (hpath : isUdmStaticData c.resourcePath = true) :
    accepted ind rr (computeMutations c) = true ↔ Settled ind rr c := by
  have hpath' : isUdmStaticData (computeMutations c).resourcePath = true := by
    rw [resourcePath_computeMutations, hpath]
  have hop' : Delivers (computeMutations c) := by
    rw [Delivers, operation_computeMutations]
    exact hop
  have hfound : SubscriberFound rr (computeMutations c) ↔ SubscriberFound rr c := by
    simp only [SubscriberFound, operation_computeMutations, resourcePath_computeMutations]
  have hid : (computeMutations c).udmStaticData.udmSliceProfileId =
      c.udmStaticData.udmSliceProfileId := by
    rw [udmStaticData_computeMutations hpath]
  have hprofile : ¬ isUdmSliceProfile c.resourcePath = true := fun hs => by
    simp [not_static_of_sliceProfile hs] at hpath
  obtain ⟨hsubscriber, profile, hfoundProfile, hrules⟩ := (accepted_subscription_iff hpath hop).1 h
  have honly : ∀ q, getRelatedUdmSliceProfile rr c.udmStaticData.udmSliceProfileId.id =
      some (some q) ↔ q = profile := by
    intro q
    rw [hfoundProfile, Option.some.injEq, Option.some.injEq, eq_comm]
  rw [accepted_subscription_iff hpath' hop', hfound, and_iff_right hsubscriber, hid]
  simp only [honly, exists_eq_left]
  rw [subscriptionRules_mutate_iff hpath hrules]
  have hdefined : ∀ identifier id, DefinedForChange rr c identifier id ↔
      DefinedIn c.udmStaticData.udmSliceData.plmnIdSets identifier id ∨
        DefinedIn profile.plmnIdSets identifier id := by
    intro identifier id
    simp only [DefinedForChange, honly, exists_eq_left]
  constructor
  · intro hs
    refine ⟨fun hs => absurd hs hprofile, fun hs => absurd hs hprofile, fun _ hslice => ?_⟩
    simp only [hdefined]
    exact (udmSliceDataRules_mutate_iff (ret_udmSliceDataRules_of_common hrules hslice)).1
      (hs hslice)
  · intro hs hslice
    have hfilled := hs.sliceData hpath hslice
    simp only [hdefined] at hfilled
    exact (udmSliceDataRules_mutate_iff (ret_udmSliceDataRules_of_common hrules hslice)).2 hfilled

/-- **A change that was accepted, validated again as it was delivered.** -/
theorem accepted_computeMutations_iff (h : accepted ind rr c = true) :
    accepted ind rr (computeMutations c) = true ↔ (Delivers c → Settled ind rr c) := by
  by_cases hslice : Delivers c ∧ isUdmSliceProfile c.resourcePath = true
  · rw [accepted_sliceProfile_again h hslice.1 hslice.2]
    exact ⟨fun hs _ => hs, fun hs => hs hslice.1⟩
  by_cases hstatic : Delivers c ∧ isUdmStaticData c.resourcePath = true
  · rw [accepted_subscription_again h hstatic.1 hstatic.2]
    exact ⟨fun hs _ => hs, fun hs => hs hstatic.1⟩
  · have hslice' : Delivers c → ¬ isUdmSliceProfile c.resourcePath = true := not_and.1 hslice
    have hstatic' : Delivers c → ¬ isUdmStaticData c.resourcePath = true := not_and.1 hstatic
    refine iff_of_true ?_ fun hop => ⟨fun hs => absurd hs (hslice' hop),
      fun hs => absurd hs (hslice' hop), fun hs => absurd hs (hstatic' hop)⟩
    rw [accepted_iff_rules, changeRules_computeMutations (fun hop => by simpa using hstatic' hop)
      fun hop => by simpa using hslice' hop, ← accepted_iff_rules]
    exact h

/-- What a run that accepts everything comes to. -/
theorem response_of_accepted {cs : List (Change V)} {st : ApplyState V}
    (h : applyValidationRules ind rr cs = some st) (hret : st.ret = true) :
    st.response = { changes := cs.map computeMutations } := by
  have hagrees := agrees_applyValidationRules h
  have herrors : st.response.errors = [] := hagrees.sound.ret_iff.1 hret
  have hchanges : st.response.changes = cs.map computeMutations := by
    rw [hagrees.changes, List.takeWhile_eq_self_iff.2 (hagrees.ret_iff.1 hret)]
  rw [← herrors, ← hchanges]

/-- A run over changes that are accepted one by one. -/
theorem run_of_all_accepted {cs : List (Change V)} (h : ∀ c ∈ cs, accepted ind rr c = true) :
    ∃ st, applyValidationRules ind rr cs = some st ∧ st.ret = true := by
  induction cs with
  | nil => exact ⟨{}, rfl, rfl⟩
  | cons c cs ih =>
    obtain ⟨a, ha, haret⟩ := run_of_accepted (h c List.mem_cons_self)
    obtain ⟨b, hb, hbret⟩ := ih fun d hd => h d (List.mem_cons_of_mem c hd)
    refine ⟨a.followedBy b, ?_, ?_⟩
    · rw [applyValidationRules_cons, ha, Option.bind_some, hb, Option.map_some]
    · show (a.ret && b.ret) = true
      rw [haret, hbret, Bool.and_true]

/-- **Delivered changes are accepted again, and delivered as they are, exactly if they are
settled.** -/
theorem delivered_accepted_iff {changes : List (Change V)} {st : ApplyState V}
    (h : applyValidationRules ind rr changes = some st) (hret : st.ret = true) :
    (∃ st', applyValidationRules ind rr st.response.changes = some st' ∧ st'.ret = true ∧
        st'.response = st.response) ↔
      ∀ c ∈ changes, Delivers c → Settled ind rr c := by
  have hall := (agrees_applyValidationRules h).ret_iff.1 hret
  have hresponse := response_of_accepted h hret
  have hagain : (∀ c ∈ changes.map computeMutations, accepted ind rr c = true) ↔
      ∀ c ∈ changes, Delivers c → Settled ind rr c := by
    rw [List.forall_mem_map]
    exact forall₂_congr fun c hc => accepted_computeMutations_iff (hall c hc)
  rw [hresponse, ← hagain]
  constructor
  · rintro ⟨st', hst', hret', -⟩
    exact (agrees_applyValidationRules hst').ret_iff.1 hret'
  · intro hmap
    obtain ⟨st', hst', hret'⟩ := run_of_all_accepted hmap
    have htwice : (changes.map computeMutations).map computeMutations =
        changes.map computeMutations := by
      simp only [List.map_map, Function.comp_def, computeMutations_computeMutations]
    refine ⟨st', hst', hret', ?_⟩
    rw [response_of_accepted hst' hret', htwice]

end

/-- With a default list, the entry that was filled in is accepted again. -/
theorem delivered_accepted_iff_default_list :
    ∃ st, applyValidationRules ⟨0, false⟩ ∅ [profileWithLists [defaultDnnList]] = some st ∧
      ∃ st', applyValidationRules ⟨0, false⟩ ∅ st.response.changes = some st' ∧ st'.ret = true ∧
        st'.response = st.response := by
  have hacc : accepted ⟨0, false⟩ ∅ (profileWithLists [defaultDnnList]) = true := by
    decide +kernel
  obtain ⟨st, hrun, hret⟩ := run_of_accepted hacc
  refine ⟨st, hrun, (delivered_accepted_iff hrun hret).2 ?_⟩
  have hstatic : isUdmStaticData "/profiles/udmProfiles/udmSliceProfiles/a" = false := by
    decide +kernel
  intro c hc hop
  rw [List.mem_singleton] at hc
  subst hc
  refine ⟨fun _ s hs _ => ?_, fun _ hop => absurd hop (by decide), fun hs => ?_⟩
  · obtain rfl := List.mem_singleton.1 hs
    exact List.cons_ne_nil _ _
  · exact absurd (hstatic.symm.trans hs) (by decide)

/-- Without any list, it is refused the second time. -/
theorem delivered_refused_without_lists :
    accepted ⟨0, false⟩ ∅ (profileWithLists []) = true ∧
      accepted ⟨0, false⟩ ∅ (computeMutations (profileWithLists [])) = false := by
  decide +kernel

end ProvisioningValidator
