import Mathlib
import ProvisioningValidator.ApplyProof

/-!
# References to DNN lists after the mutations

The rules check the list ids that NSSAI entries name; then the mutations fill in `Default` where
an entry names none. This file relates the two: what the rules have checked
(`ret_plmnIdSetRules_imp`, `ret_sliceDataReferenceRules`), what the mutations change
(`references_mutate_iff`), and when the delivered references are all defined
(`accepted_references_iff`).
-/

namespace ProvisioningValidator

open Lib Checked

variable {V : Type}

/-! ## Defined lists -/

/-- The set has a DNN list with this id. -/
def ListDefined (s : PlmnIdSets V) (id : String) : Prop := ∃ l ∈ s.dnnLists, l.dnnListId = id

/-- Some set with this identifier has a DNN list with this id. -/
def DefinedIn (sets : List (PlmnIdSets V)) (identifier id : String) : Prop :=
  ∃ s ∈ sets, s.plmnIdSetIdentifier = identifier ∧ ListDefined s id

instance (sets : List (PlmnIdSets V)) (identifier id : String) :
    Decidable (DefinedIn sets identifier id) :=
  inferInstanceAs (Decidable (∃ s ∈ sets, s.plmnIdSetIdentifier = identifier ∧
    ∃ l ∈ s.dnnLists, l.dnnListId = id))

/-- The list is defined in the slice data of the change, or in the slice profile it names. -/
def DefinedForChange (rr : RelatedResources V) (c : Change V) (identifier id : String) : Prop :=
  DefinedIn c.udmStaticData.udmSliceData.plmnIdSets identifier id ∨
    ∃ profile, getRelatedUdmSliceProfile rr c.udmStaticData.udmSliceProfileId.id =
      some (some profile) ∧ DefinedIn profile.plmnIdSets identifier id

/-- The entries of both lists of a set. -/
def nssaiEntries (s : PlmnIdSets V) : List (NssaiDetails V) :=
  s.nssai.defaultSingleNssais ++ s.nssai.singleNssais

/-- The operation is a creation or an update. -/
def Delivers (c : Change V) : Prop :=
  c.operation = jsonOperationCreate ∨ c.operation = jsonOperationUpdate

/-- **Every list that an NSSAI entry of a delivered change names is defined.** -/
def ReferencesDefined (rr : RelatedResources V) (c : Change V) : Prop :=
  Delivers c →
    (isUdmSliceProfile c.resourcePath = true → ∀ s ∈ c.udmSliceProfile.plmnIdSets,
      ∀ n ∈ nssaiEntries s, ListDefined s n.dnnListId) ∧
    (isUdmStaticData c.resourcePath = true →
      c.udmStaticData.fieldExistence.hasUdmSliceData = true →
      ∀ s ∈ c.udmStaticData.udmSliceData.plmnIdSets, ∀ n ∈ nssaiEntries s,
        DefinedForChange rr c s.plmnIdSetIdentifier n.dnnListId)

theorem mem_insertAll_empty {e : String × String} {es : List (String × String)} :
    e ∈ (MultiMap.empty.insertAll es).entries ↔ e ∈ es := by
  rw [(MultiMap.perm_insertAll _ _).mem_iff]
  simp [MultiMap.empty]

theorem definedUnder_iff {m : MultiMap String String} {identifier id : String} :
    definedUnder m identifier id = true ↔ (identifier, id) ∈ m.entries := by
  rw [definedUnder, MultiMap.takeWhile_findFrom]
  simp

theorem mem_dnnListIdsOnChange {sets : List (PlmnIdSets V)} {identifier id : String} :
    (identifier, id) ∈ (dnnListIdsOnChange sets).entries ↔ DefinedIn sets identifier id := by
  rw [dnnListIdsOnChange, mem_insertAll_empty]
  simp only [List.mem_flatMap, List.mem_map, Prod.mk.injEq, DefinedIn, ListDefined]
  grind

theorem mem_dnnListIdsDefinedInSliceData {sets : List (PlmnIdSets V)} {identifier id : String}
    (hid : id ≠ "") : (identifier, id) ∈ (dnnListIdsDefinedInSliceData sets).entries ↔
      DefinedIn sets identifier id := by
  rw [dnnListIdsDefinedInSliceData, mem_insertAll_empty]
  simp only [List.mem_flatMap, List.mem_map, Prod.mk.injEq, DefinedIn, ListDefined,
    dnnListIdVector, List.mem_filter, decide_eq_true_eq]
  grind

theorem mem_dnnListIdsReferencedInSliceData {sets : List (PlmnIdSets V)}
    {e : String × String} : e ∈ (dnnListIdsReferencedInSliceData sets).entries ↔
      ∃ s ∈ sets, ∃ n ∈ nssaiEntries s, n.dnnListId ≠ "" ∧
        e = (s.plmnIdSetIdentifier, n.dnnListId) := by
  rw [dnnListIdsReferencedInSliceData, mem_insertAll_empty]
  simp only [List.mem_flatMap, List.mem_map, dnnVector, List.mem_filter, decide_eq_true_eq,
    nssaiEntries]
  grind

/-! ## What the rules have checked -/

section

variable {ind : Indeterminate}

/-- The rules of a slice profile: a list that is named is defined, and where there are lists the
default one is among them. -/
theorem ret_plmnIdSetRules_imp {resourcePath : String} {s : PlmnIdSets V}
    (h : (plmnIdSetRules ind true resourcePath s).ret = true) :
    (∀ n ∈ nssaiEntries s, n.dnnListId ≠ "" → ListDefined s n.dnnListId) ∧
      (s.dnnLists ≠ [] → ListDefined s defaultValue) := by
  rw [plmnIdSetRules, ret_inOrder] at h
  simp only [List.forall_mem_cons, ret_guard, ret_inOrder, ret_forEach, ret_failIf] at h
  obtain ⟨-, -, -, hlists, hrefs, -⟩ := h
  refine ⟨fun n hn hid => ?_, fun hne => ?_⟩
  · have hmem := hrefs trivial n.dnnListId (by
      simp only [dnnVector, List.mem_filter, List.mem_map, decide_eq_true_eq]
      exact ⟨⟨n, hn, rfl⟩, hid⟩)
    simp only [not_not, dnnListIdVector, List.mem_filter, List.mem_map] at hmem
    exact hmem.1
  · obtain ⟨-, hdefault, -⟩ := hlists hne
    simpa [ListDefined] using hdefault

/-- The reference rule of slice data. -/
theorem ret_sliceDataReferenceRules {resourcePath : String} {sets : List (PlmnIdSets V)}
    {profile : UdmSliceProfile V} :
    (sliceDataReferenceRules resourcePath sets profile).ret = true ↔
      ∀ s ∈ sets, ∀ n ∈ nssaiEntries s, n.dnnListId ≠ "" →
        DefinedIn sets s.plmnIdSetIdentifier n.dnnListId ∨
          DefinedIn profile.plmnIdSets s.plmnIdSetIdentifier n.dnnListId := by
  simp only [sliceDataReferenceRules, ret_forEach, ret_failIf, not_and_or,
    Bool.not_eq_false, definedUnder_iff, mem_dnnListIdsReferencedInSliceData]
  constructor
  · intro h s hs n hn hid
    have hdef := h _ ⟨s, hs, n, hn, hid, rfl⟩
    rwa [mem_dnnListIdsDefinedInSliceData hid, mem_dnnListIdsOnChange] at hdef
  · intro h e he
    obtain ⟨s, hs, n, hn, hid, rfl⟩ := he
    rw [mem_dnnListIdsDefinedInSliceData hid, mem_dnnListIdsOnChange]
    exact h s hs n hn hid

end

/-! ## What the mutations change -/

theorem mem_includeNssai {ns : List (NssaiDetails V)} {P : String → Prop} :
    (∀ n ∈ includeNssai ns, P n.dnnListId) ↔
      (∀ n ∈ ns, n.dnnListId ≠ "" → P n.dnnListId) ∧
        ((∃ n ∈ ns, n.dnnListId = "") → P defaultValue) := by
  simp only [includeNssai, List.mem_map, forall_exists_index, and_imp, forall_apply_eq_imp_iff₂]
  constructor
  · intro h
    refine ⟨fun n hn hid => ?_, fun n hn hid => ?_⟩
    · simpa [hid] using h n hn
    · simpa [hid] using h n hn
  · intro h n hn
    obtain ⟨hnamed, hdefault⟩ := h
    by_cases hid : n.dnnListId = ""
    · simpa [hid] using hdefault n hn hid
    · simpa [hid] using hnamed n hn hid

/-- What an entry of `singleNssais` without a list id is given. -/
def singleDefault (s : PlmnIdSets V) : String :=
  if s.fieldExistenceUdmSliceProfile.hasNssai then defaultValue else ""

/-- What the entries of a set without a list id come to name is defined. -/
def DefaultsSatisfy (s : PlmnIdSets V) (P : String → Prop) : Prop :=
  ((∃ n ∈ s.nssai.defaultSingleNssais, n.dnnListId = "") → P defaultValue) ∧
    ((∃ n ∈ s.nssai.singleNssais, n.dnnListId = "") → P (singleDefault s))

/-- **After the mutations a set names what it named before, and its defaults.** -/
theorem references_mutate_iff {s : PlmnIdSets V} {P : String → Prop}
    (hnamed : ∀ n ∈ nssaiEntries s, n.dnnListId ≠ "" → P n.dnnListId) :
    (∀ n ∈ nssaiEntries (mutatePlmnIdSet s), P n.dnnListId) ↔ DefaultsSatisfy s P := by
  simp only [nssaiEntries, List.mem_append, or_imp, forall_and] at hnamed
  have hsingle : (∀ n ∈ (mutatePlmnIdSet s).nssai.singleNssais, P n.dnnListId) ↔
      ((∃ n ∈ s.nssai.singleNssais, n.dnnListId = "") → P (singleDefault s)) := by
    simp only [mutatePlmnIdSet, singleDefault]
    cases s.fieldExistenceUdmSliceProfile.hasNssai with
    | true =>
      simp only [if_true, mem_includeNssai, and_iff_right_iff_imp]
      exact fun _ => hnamed.2
    | false =>
      simp only [Bool.false_eq_true, if_false]
      constructor
      · intro h hex
        obtain ⟨n, hn, hid⟩ := hex
        exact hid ▸ h n hn
      · intro h n hn
        by_cases hid : n.dnnListId = ""
        · exact hid ▸ h ⟨n, hn, hid⟩
        · exact hnamed.2 n hn hid
  simp only [nssaiEntries, List.mem_append, or_imp, forall_and, hsingle, DefaultsSatisfy]
  refine and_congr ?_ Iff.rfl
  simp only [mutatePlmnIdSet, mem_includeNssai, and_iff_right_iff_imp]
  exact fun _ => hnamed.1

@[simp] theorem dnnLists_mutatePlmnIdSet (s : PlmnIdSets V) :
    (mutatePlmnIdSet s).dnnLists = s.dnnLists := rfl

@[simp] theorem plmnIdSetIdentifier_mutatePlmnIdSet (s : PlmnIdSets V) :
    (mutatePlmnIdSet s).plmnIdSetIdentifier = s.plmnIdSetIdentifier := rfl

@[simp] theorem listDefined_mutatePlmnIdSet {s : PlmnIdSets V} {id : String} :
    ListDefined (mutatePlmnIdSet s) id ↔ ListDefined s id := Iff.rfl

@[simp] theorem definedIn_map_mutate {sets : List (PlmnIdSets V)} {identifier id : String} :
    DefinedIn (sets.map mutatePlmnIdSet) identifier id ↔ DefinedIn sets identifier id := by
  simp [DefinedIn]

/-! ## Accepted changes -/

section

variable {ind : Indeterminate} {rr : RelatedResources V} {c : Change V}

theorem rules_of_accepted (h : accepted ind rr c = true) :
    ∃ v, changeRules ind rr c = some v ∧ v.ret = true := by
  cases hv : changeRules ind rr c with
  | none => simp [accepted, applyValidationRules, applyStep, hv] at h
  | some v => exact ⟨v, rfl, (accepted_eq ind rr hv) ▸ h⟩

/-- A delivered slice profile has met the common rules. -/
theorem commonSliceProfileRules_of_accepted (h : accepted ind rr c = true)
    (hpath : isUdmSliceProfile c.resourcePath = true) (hop : Delivers c) :
    (commonSliceProfileRules ind c).ret = true := by
  obtain ⟨v, hv, hret⟩ := rules_of_accepted h
  have hstatic : isUdmStaticData c.resourcePath = false := by
    rw [Bool.eq_false_iff]
    intro hs
    cases ResourceKind.eq_of_routes .udmStaticData .udmSliceProfile hs hpath
  rw [changeRules] at hv
  rcases hop with hop | hop
  · simp only [hstatic, hpath, hop, Bool.false_eq_true, false_and, if_false, and_self, if_true,
      Option.some.injEq] at hv
    subst hv
    simp only [checkForCreationUdmSliceProfileRules, Checked.verdict, ret_append,
      Bool.and_eq_true] at hret
    exact hret.1
  · simp only [hstatic, hpath, hop, Bool.false_eq_true, false_and, if_false, and_self, if_true,
      jsonOperationUpdate, jsonOperationCreate, String.reduceEq, and_false] at hv
    rw [checkForUpdateUdmSliceProfileRules] at hv
    split at hv
    · cases hv
      cases hret
    · obtain ⟨relResource, -, hv⟩ := Option.bind_eq_some_iff.1 hv
      cases hv
      simp only [Checked.verdict, ret_append, Bool.and_eq_true] at hret
      exact hret.1

/-- Behind both subscription rules stand a related profile and the common rules with it. -/
theorem profile_of_subscriptionRules {before : Checked} {v : Verdict}
    (h : subscriptionRulesWithProfile ind rr c before = some v) (hret : v.ret = true) :
    ∃ profile, getRelatedUdmSliceProfile rr c.udmStaticData.udmSliceProfileId.id =
        some (some profile) ∧
      (checkForCommonUdmSubscriptionRules ind c profile).ret = true := by
  rw [subscriptionRulesWithProfile] at h
  obtain ⟨found, hfound, hv⟩ := Option.bind_eq_some_iff.1 h
  cases found with
  | none =>
    cases hv
    cases hret
  | some profile =>
    cases hv
    simp only [Checked.verdict, ret_append, Bool.and_eq_true] at hret
    exact ⟨profile, hfound, hret.2⟩

/-- A delivered subscription names a related profile and has met the common rules with it. -/
theorem profile_of_accepted (h : accepted ind rr c = true)
    (hpath : isUdmStaticData c.resourcePath = true) (hop : Delivers c) :
    ∃ profile, getRelatedUdmSliceProfile rr c.udmStaticData.udmSliceProfileId.id =
        some (some profile) ∧
      (checkForCommonUdmSubscriptionRules ind c profile).ret = true := by
  obtain ⟨v, hv, hret⟩ := rules_of_accepted h
  rw [changeRules] at hv
  rcases hop with hop | hop
  · rw [if_pos ⟨hpath, hop⟩] at hv
    simp only [checkForCreationUdmSubscriptionRules] at hv
    split at hv
    · cases hv
      cases hret
    · obtain ⟨journal, -, hv⟩ := Option.bind_eq_some_iff.1 hv
      exact profile_of_subscriptionRules hv hret
  · have hne : ¬ (isUdmStaticData c.resourcePath = true ∧ c.operation = jsonOperationCreate) := by
      simp [hop]
    rw [if_neg hne, if_pos ⟨hpath, hop⟩, checkForUpdateUdmSubscriptionRules] at hv
    split_ifs at hv
    · cases hv
      cases hret
    · exact profile_of_subscriptionRules hv hret

theorem ret_udmSliceDataRules_of_common {profile : UdmSliceProfile V}
    (h : (checkForCommonUdmSubscriptionRules ind c profile).ret = true)
    (has : c.udmStaticData.fieldExistence.hasUdmSliceData = true) :
    (udmSliceDataRules ind c.resourcePath c.udmStaticData.udmSliceData.plmnIdSets profile).ret =
      true := by
  rw [checkForCommonUdmSubscriptionRules, ret_inOrder] at h
  simp only [List.forall_mem_cons, ret_guard] at h
  exact h.2.2.2.2.2.2.2.2.2.2.1 has

end

/-! ## The delivered references -/

/-- What the entries without a list id come to name in a delivered change is defined. -/
def DefaultsDefined (rr : RelatedResources V) (c : Change V) : Prop :=
  Delivers c →
    (isUdmSliceProfile c.resourcePath = true → ∀ s ∈ c.udmSliceProfile.plmnIdSets,
      ((∃ n ∈ s.nssai.defaultSingleNssais, n.dnnListId = "") → s.dnnLists ≠ []) ∧
      ((∃ n ∈ s.nssai.singleNssais, n.dnnListId = "") →
        if s.fieldExistenceUdmSliceProfile.hasNssai = true then s.dnnLists ≠ []
        else ListDefined s "")) ∧
    (isUdmStaticData c.resourcePath = true →
      c.udmStaticData.fieldExistence.hasUdmSliceData = true →
      ∀ s ∈ c.udmStaticData.udmSliceData.plmnIdSets,
        DefaultsSatisfy s (DefinedForChange rr c s.plmnIdSetIdentifier))

section

variable {ind : Indeterminate} {rr : RelatedResources V} {c : Change V}

theorem udmSliceProfile_computeMutations (hpath : isUdmSliceProfile c.resourcePath = true)
    (hop : Delivers c) : (computeMutations c).udmSliceProfile.plmnIdSets =
      c.udmSliceProfile.plmnIdSets.map mutatePlmnIdSet := by
  have hkey : contains c.resourcePath jsonUdmSliceProfiles = true :=
    ResourceKind.contains_keyword .udmSliceProfile hpath
  rw [computeMutations, mutateSliceProfile, if_pos ⟨hkey, hop⟩, mutateSliceData]
  split_ifs <;> rfl

theorem udmStaticData_computeMutations (hpath : isUdmStaticData c.resourcePath = true) :
    (computeMutations c).udmStaticData = { c.udmStaticData with
      udmSliceData := { c.udmStaticData.udmSliceData with
        plmnIdSets := c.udmStaticData.udmSliceData.plmnIdSets.map mutatePlmnIdSet } } := by
  have hkey : contains c.resourcePath jsonUdmStaticData = true :=
    ResourceKind.contains_keyword .udmStaticData hpath
  have hdata : (mutateSliceProfile c).udmStaticData = c.udmStaticData := by
    unfold mutateSliceProfile
    split_ifs <;> rfl
  have hsame : (mutateSliceProfile c).resourcePath = c.resourcePath := by
    unfold mutateSliceProfile
    split_ifs <;> rfl
  rw [computeMutations, mutateSliceData, hsame, if_pos hkey, hdata]

theorem definedForChange_computeMutations (hpath : isUdmStaticData c.resourcePath = true)
    {identifier id : String} : DefinedForChange rr (computeMutations c) identifier id ↔
      DefinedForChange rr c identifier id := by
  simp only [DefinedForChange, udmStaticData_computeMutations hpath, definedIn_map_mutate]

/-- An accepted change: its references are defined when its defaults are. -/
theorem referencesDefined_computeMutations_iff (h : accepted ind rr c = true) :
    ReferencesDefined rr (computeMutations c) ↔ DefaultsDefined rr c := by
  simp only [ReferencesDefined, DefaultsDefined, Delivers, operation_computeMutations,
    resourcePath_computeMutations]
  refine forall_congr' fun hop => and_congr (forall_congr' fun hpath => ?_)
    (forall_congr' fun hpath => ?_)
  · rw [udmSliceProfile_computeMutations hpath hop, List.forall_mem_map]
    refine forall₂_congr fun s hs => ?_
    have hcommon := commonSliceProfileRules_of_accepted h hpath hop
    rw [commonSliceProfileRules, ret_guard, checkForCommonUdmSliceProfileRules,
      ret_inOrder] at hcommon
    have hrules := hcommon (List.ne_nil_of_mem hs)
    simp only [List.forall_mem_cons, ret_forEach] at hrules
    obtain ⟨hnamed, hdefault⟩ := ret_plmnIdSetRules_imp (hrules.1 s hs)
    have hlists : ListDefined s defaultValue ↔ s.dnnLists ≠ [] := by
      refine ⟨fun hdef => ?_, hdefault⟩
      obtain ⟨l, hl, -⟩ := hdef
      exact List.ne_nil_of_mem hl
    simp only [listDefined_mutatePlmnIdSet]
    rw [references_mutate_iff hnamed, DefaultsSatisfy, hlists, singleDefault]
    split_ifs with has
    · rw [hlists]
    · rfl
  · obtain ⟨profile, hprofile, hrules⟩ := profile_of_accepted h hpath hop
    simp only [udmStaticData_computeMutations hpath]
    refine forall_congr' fun has => ?_
    rw [List.forall_mem_map]
    refine forall₂_congr fun s hs => ?_
    have hslice := ret_udmSliceDataRules_of_common hrules has
    rw [udmSliceDataRules, ret_inOrder] at hslice
    simp only [List.forall_mem_cons, ret_sliceDataReferenceRules] at hslice
    have hnamed : ∀ n ∈ nssaiEntries s, n.dnnListId ≠ "" →
        DefinedForChange rr c s.plmnIdSetIdentifier n.dnnListId := by
      intro n hn hid
      rcases hslice.2.2.1 s hs n hn hid with hdef | hdef
      · exact Or.inl hdef
      · exact Or.inr ⟨profile, hprofile, hdef⟩
    simp only [definedForChange_computeMutations hpath, plmnIdSetIdentifier_mutatePlmnIdSet]
    exact references_mutate_iff hnamed

/-- **A run that accepts everything delivers no dangling reference exactly when all defaults are
defined.** -/
theorem accepted_references_iff {changes : List (Change V)} {st : ApplyState V}
    (h : applyValidationRules ind rr changes = some st) (hret : st.ret = true) :
    (∀ c ∈ st.response.changes, ReferencesDefined rr c) ↔ ∀ c ∈ changes, DefaultsDefined rr c := by
  have hagrees := agrees_applyValidationRules h
  have hall := hagrees.ret_iff.1 hret
  rw [hagrees.changes, List.takeWhile_eq_self_iff.2 hall, List.forall_mem_map]
  exact forall₂_congr fun c hc => referencesDefined_computeMutations_iff (hall c hc)

theorem run_of_accepted (h : accepted ind rr c = true) :
    ∃ st, applyValidationRules ind rr [c] = some st ∧ st.ret = true := by
  cases hrun : applyValidationRules ind rr [c] with
  | none => simp [accepted, hrun] at h
  | some st => exact ⟨st, rfl, by simpa [accepted, hrun] using h⟩

end

/-- A profile with one set, one NSSAI without a list id, and these DNN lists. -/
def profileWithLists (dnnLists : List (DnnList Json)) : Change Json where
  operation := jsonOperationCreate
  resourcePath := "/profiles/udmProfiles/udmSliceProfiles/a"
  udmSliceProfile := { plmnIdSets := [{
    plmnIdSetIdentifier := "Default"
    nssai := { defaultSingleNssais := [{ nssai := { sst := some 1 } }] }
    dnnLists := dnnLists
    fieldExistenceUdmSliceProfile := { hasAnyNssai := true } }] }

/-- A DNN list with the default id and a default DNN. -/
def defaultDnnList : DnnList Json where
  dnnListId := defaultValue
  dnnDataList := [{
    dnn := "a"
    defaultDnnIndicator := some true
    fieldExistence := { hasDefaultDnnIndicator := true } }]

/-- With a default list the reference of the entry is delivered defined. -/
theorem accepted_references_iff_default_list :
    ∃ st, applyValidationRules ⟨0, false⟩ ∅ [profileWithLists [defaultDnnList]] = some st ∧
      ∀ c ∈ st.response.changes, ReferencesDefined ∅ c := by
  have hacc : accepted ⟨0, false⟩ ∅ (profileWithLists [defaultDnnList]) = true := by
    decide +kernel
  obtain ⟨st, hrun, hret⟩ := run_of_accepted hacc
  refine ⟨st, hrun, (accepted_references_iff hrun hret).2 ?_⟩
  have hstatic : isUdmStaticData "/profiles/udmProfiles/udmSliceProfiles/a" = false := by
    decide +kernel
  intro c hc hop
  rw [List.mem_singleton] at hc
  subst hc
  simp [profileWithLists, hstatic]

/-- Without any list the entry is accepted, and delivered with a reference to nothing. -/
theorem dangling_without_lists :
    ∃ st, applyValidationRules ⟨0, false⟩ ∅ [profileWithLists []] = some st ∧ st.ret = true ∧
      ¬ ∀ c ∈ st.response.changes, ReferencesDefined ∅ c := by
  have hacc : accepted ⟨0, false⟩ ∅ (profileWithLists []) = true := by decide +kernel
  obtain ⟨st, hrun, hret⟩ := run_of_accepted hacc
  have hagrees := agrees_applyValidationRules hrun
  have hpath : isUdmSliceProfile "/profiles/udmProfiles/udmSliceProfiles/a" = true := by
    decide +kernel
  refine ⟨st, hrun, hret, ?_⟩
  rw [hagrees.changes, List.takeWhile_cons_of_pos hacc]
  simp only [List.takeWhile_nil, List.map_cons, List.map_nil, List.forall_mem_singleton]
  rw [referencesDefined_computeMutations_iff hacc]
  intro hdef
  simpa [profileWithLists] using (hdef (Or.inl rfl)).1 hpath _ List.mem_cons_self

end ProvisioningValidator
