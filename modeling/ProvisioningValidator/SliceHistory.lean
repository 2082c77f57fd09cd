import Mathlib
import ProvisioningValidator.Redelivery
import ProvisioningValidator.UpdateTolerance

/-!
# The history of a slice profile

A slice profile is created once and updated any number of times, each time against what was
delivered before. Every update is checked by itself, and tolerates what the stored profile repeats;
this file is about what that comes to over a whole history.

**Theorem (`history_invariants`).** In a profile that was created under the rules no list ever
repeats a DNN, although each update could repeat what is stored. Every profile of the history whose
sets have lists is well-formed. And a list that was there once is covered ever after: its set still
has some list, and its id is defined for that set or for a later one.
-/

namespace ProvisioningValidator

open Lib Checked

variable {V : Type} (ind : Indeterminate) (path : String)

/-- An update is accepted where `p` is stored, and delivers `p'`. -/
def Updates (p p' : UdmSliceProfile V) : Prop :=
  ∃ rr c, accepted ind rr c = true ∧ c.operation = jsonOperationUpdate ∧ c.resourcePath = path ∧
    storedProfile rr path = some p ∧ (computeMutations c).udmSliceProfile = p'

/-- The profiles that were delivered one after the other for a path, the newest one first. -/
inductive History : List (UdmSliceProfile V) → Prop
  | created {rr : RelatedResources V} {c : Change V} (h : accepted ind rr c = true)
      (hop : c.operation = jsonOperationCreate) (hc : c.resourcePath = path) :
      History [(computeMutations c).udmSliceProfile]
  | updated {p p' : UdmSliceProfile V} {ps : List (UdmSliceProfile V)} (h : History (p :: ps))
      (hupdate : Updates ind path p p') : History (p' :: p :: ps)

variable {ind path}

/-! ## One step -/

/-- No list of the profile repeats a DNN. -/
def DnnsDistinct (p : UdmSliceProfile V) : Prop :=
  ∀ s ∈ p.plmnIdSets, ∀ l ∈ s.dnnLists, (dnnNames l.dnnDataList).Nodup

/-- A profile whose sets have lists is well-formed. -/
def WellFormedWithLists (ind : Indeterminate) (p : UdmSliceProfile V) : Prop :=
  (∀ s ∈ p.plmnIdSets, s.dnnLists ≠ []) → ProfileWellFormed ind p.plmnIdSets

/-- The lists of a profile are covered in another one. -/
def CoveredBy (p p' : UdmSliceProfile V) : Prop :=
  ∀ plmnId listId, DefinedIn p.plmnIdSets plmnId listId → ListCovered p'.plmnIdSets plmnId listId

theorem dnnsDistinct_iff {p : UdmSliceProfile V} : DnnsDistinct p ↔
    ∀ s ∈ p.plmnIdSets, ∀ l ∈ s.dnnLists, ∀ d, dnnCount d l ≤ 1 := by
  simp only [DnnsDistinct, List.nodup_iff_count_le_one, count_dnnNames]

/-- What is stored of a DNN is in one of the lists. -/
theorem storedCount_le_one {p : UdmSliceProfile V} (h : DnnsDistinct p) (plmnId listId d : String) :
    storedCount p plmnId listId d ≤ 1 := by
  rw [storedCount, firstDnnList]
  cases hfind : (profileLists p).find?
      fun e => toLex (e.1, e.2.dnnListId) = toLex (plmnId, listId) with
  | none => exact Nat.zero_le 1
  | some e =>
    have hmem := List.mem_of_find?_eq_some hfind
    rw [profileLists, List.mem_flatMap] at hmem
    obtain ⟨s, hs, hl⟩ := hmem
    obtain ⟨l, hmem, rfl⟩ := List.mem_map.1 hl
    exact dnnsDistinct_iff.1 h s hs l hmem d

theorem dnnsDistinct_of_tolerated {p p' : UdmSliceProfile V} (h : DnnsDistinct p)
    (htolerated : DnnsTolerated p p'.plmnIdSets) : DnnsDistinct p' := by
  rw [dnnsDistinct_iff]
  intro s hs l hl d
  refine (htolerated s hs l hl d).trans ?_
  exact max_le le_rfl (storedCount_le_one h s.plmnIdSetIdentifier l.dnnListId d)

theorem coveredBy_of_listsCovered {p p' : UdmSliceProfile V}
    (h : ListsCovered p p'.plmnIdSets) : CoveredBy p p' := by
  rintro plmnId listId ⟨s, hs, rfl, l, hl, rfl⟩
  exact h s hs l hl

/-- The id may be defined for a later set each time; the set itself keeps some list. -/
theorem CoveredBy.trans {p q r : UdmSliceProfile V} (hpq : CoveredBy p q) (hqr : CoveredBy q r) :
    CoveredBy p r := by
  intro plmnId listId h
  obtain ⟨⟨id, hid⟩, later, hle, hlater⟩ := hpq plmnId listId h
  obtain ⟨-, later', hle', hlater'⟩ := hqr later listId hlater
  exact ⟨(hqr plmnId id hid).1, later', hle.trans hle', hlater'⟩

/-- What is delivered of sets that were well-formed. -/
theorem wellFormed_delivered {sets : List (PlmnIdSets V)} {p : UdmSliceProfile V}
    (h : ProfileWellFormed ind sets) (hp : p.plmnIdSets = sets.map mutatePlmnIdSet) :
    WellFormedWithLists ind p := by
  rw [WellFormedWithLists, hp, List.forall_mem_map]
  intro hlists
  exact (profileWellFormed_mutate_iff h).2 fun s hs _ => hlists s hs

theorem dnnsDistinct_delivered {sets : List (PlmnIdSets V)} {p : UdmSliceProfile V}
    (h : NothingRepeated ind sets) (hp : p.plmnIdSets = sets.map mutatePlmnIdSet) :
    DnnsDistinct p := by
  rw [DnnsDistinct, hp]
  exact fun s hs => ((nothingRepeated_mutate.2 h) s hs).2

/-- **What a creation delivers.** -/
theorem created_spec {rr : RelatedResources V} {c : Change V} (h : accepted ind rr c = true)
    (hop : c.operation = jsonOperationCreate) (hpath : isUdmSliceProfile c.resourcePath = true) :
    DnnsDistinct (computeMutations c).udmSliceProfile ∧
      WellFormedWithLists ind (computeMutations c).udmSliceProfile := by
  have hsets := udmSliceProfile_computeMutations hpath (.inl hop)
  obtain ⟨hwell, hnone⟩ := (accepted_creation_iff hpath hop).1 h
  exact ⟨dnnsDistinct_delivered hnone hsets, wellFormed_delivered hwell hsets⟩

/-- **What an update delivers**, from what was stored. -/
theorem Updates.spec {p p' : UdmSliceProfile V} (hpath : isUdmSliceProfile path = true)
    (h : Updates ind path p p') :
    (DnnsDistinct p → DnnsDistinct p') ∧ WellFormedWithLists ind p' ∧ CoveredBy p p' := by
  obtain ⟨rr, c, hacc, hop, rfl, hp, rfl⟩ := h
  have hsets := udmSliceProfile_computeMutations hpath (.inr hop)
  obtain ⟨q, hq, hwell, -, hdnns, hlists⟩ := (accepted_update_iff hpath hop).1 hacc
  obtain rfl := Option.some.inj (hp.symm.trans hq)
  refine ⟨fun h => dnnsDistinct_of_tolerated h ?_, wellFormed_delivered hwell hsets,
    coveredBy_of_listsCovered ?_⟩
  · rw [hsets]
    exact dnnsTolerated_mutate.2 hdnns
  · rw [hsets]
    exact listsCovered_mutate.2 hlists

/-! ## Whole histories -/

/-- The newest profile covers the lists of all that came before. -/
theorem History.covered {ps : List (UdmSliceProfile V)} (hpath : isUdmSliceProfile path = true)
    (h : History ind path ps) : ps.Pairwise fun newer older => CoveredBy older newer := by
  induction h with
  | created h hop hc => exact List.pairwise_singleton _ _
  | @updated p p' ps h hupdate ih =>
    have hstep := (hupdate.spec hpath).2.2
    rw [List.pairwise_cons]
    refine ⟨fun q hq => ?_, ih⟩
    obtain rfl | hq := List.mem_cons.1 hq
    · exact hstep
    · exact ((List.pairwise_cons.1 ih).1 q hq).trans hstep

theorem History.each {ps : List (UdmSliceProfile V)} (hpath : isUdmSliceProfile path = true)
    (h : History ind path ps) : ∀ p ∈ ps, DnnsDistinct p ∧ WellFormedWithLists ind p := by
  induction h with
  | created h hop hc =>
    subst hc
    simpa using created_spec h hop hpath
  | @updated p p' ps h hupdate ih =>
    obtain ⟨hdnns, hwell, -⟩ := hupdate.spec hpath
    rw [List.forall_mem_cons]
    exact ⟨⟨hdnns (ih p List.mem_cons_self).1, hwell⟩, ih⟩

/-- **Whatever was created and updated under the rules**: no list repeats a DNN, every profile whose
sets have lists is well-formed, and no list is ever lost without one to stand in for it. -/
theorem history_invariants {ps : List (UdmSliceProfile V)} (hpath : isUdmSliceProfile path = true)
    (h : History ind path ps) :
    (∀ p ∈ ps, ∀ s ∈ p.plmnIdSets, ∀ l ∈ s.dnnLists, (dnnNames l.dnnDataList).Nodup) ∧
    (∀ p ∈ ps, p.plmnIdSets ≠ [] → (∀ s ∈ p.plmnIdSets, s.dnnLists ≠ []) →
      SetsWellFormed ind true p.plmnIdSets) ∧
    ps.Pairwise fun newer older => ∀ plmnId listId, DefinedIn older.plmnIdSets plmnId listId →
      (∃ id, DefinedIn newer.plmnIdSets plmnId id) ∧
        ∃ later, plmnId ≤ later ∧ DefinedIn newer.plmnIdSets later listId := by
  have heach := h.each hpath
  exact ⟨fun p hp => (heach p hp).1, fun p hp hne hlists => (heach p hp).2 hlists hne,
    h.covered hpath⟩

/-- An update that adds a list to the default one. -/
def secondList : Change Json :=
  { profileWithLists [defaultDnnList, { defaultDnnList with dnnListId := "b" }] with
    operation := jsonOperationUpdate }

/-- A profile with a default list, and an update that adds a list: the profile is well-formed
after it, and has the default list still. -/
theorem history_invariants_second_list :
    ∃ p p' : UdmSliceProfile Json,
      History ⟨0, false⟩ "/profiles/udmProfiles/udmSliceProfiles/a" [p', p] ∧
        (∀ s ∈ p'.plmnIdSets, ∀ l ∈ s.dnnLists, (dnnNames l.dnnDataList).Nodup) ∧
        SetsWellFormed ⟨0, false⟩ true p'.plmnIdSets ∧
        ∃ later, "Default" ≤ later ∧ DefinedIn p'.plmnIdSets later "Default" := by
  have hpath : isUdmSliceProfile "/profiles/udmProfiles/udmSliceProfiles/a" = true := by
    decide +kernel
  have hcreated : accepted ⟨0, false⟩ ∅ (profileWithLists [defaultDnnList]) = true := by
    decide +kernel
  have hupdated : accepted ⟨0, false⟩ (OrdMap.emplaceAll ∅
      [("/profiles/udmProfiles/udmSliceProfiles/a", .udmSliceProfile
        (computeMutations (profileWithLists [defaultDnnList])).udmSliceProfile)])
      secondList = true := by
    decide +kernel
  have hhistory : History ⟨0, false⟩ "/profiles/udmProfiles/udmSliceProfiles/a"
      [(computeMutations secondList).udmSliceProfile,
        (computeMutations (profileWithLists [defaultDnnList])).udmSliceProfile] := by
    refine .updated (.created hcreated rfl rfl) ⟨_, secondList, hupdated, rfl, rfl, ?_, rfl⟩
    rw [storedProfile, OrdMap.find?_emplaceAll]
    rfl
  obtain ⟨hdnns, hwell, hcovered⟩ := history_invariants hpath hhistory
  refine ⟨_, _, hhistory, hdnns _ List.mem_cons_self,
    hwell _ List.mem_cons_self (by decide +kernel) (by decide +kernel), ?_⟩
  refine ((List.pairwise_cons.1 hcovered).1 _ List.mem_cons_self "Default" "Default" ?_).2
  exact ⟨_, List.mem_singleton_self _, by decide +kernel, _, List.mem_singleton_self _, rfl⟩

end ProvisioningValidator
