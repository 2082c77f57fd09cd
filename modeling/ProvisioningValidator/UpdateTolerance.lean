import Mathlib
import ProvisioningValidator.SliceUpdates

/-!
# What an update tolerates

An update may repeat what the stored profile repeats, and may not take a list away. How far the
rules for updates get there, from the conditions that they accept under:

* `duplicate_dnn_tolerance` — for the DNNs the tolerance is exact;
* `update_adds_no_repetition_iff` — for the pairs a stored entry is tolerated any number of times;
* `update_keeps_lists_iff` — a list of a later set stands in for a list that is gone;
* `resubmission_tolerated_iff` — of two stored lists with the same ids only the first is looked up;
* `update_against_empty` — without stored sets, an update is judged as a creation.
-/

namespace ProvisioningValidator

open Lib Checked

variable {V : Type}

/-! ## DNNs -/

/-- **The tolerance for DNNs is exact.** The rules of an update look at the DNNs list by list. Each
list of the change gets an error for every occurrence of a DNN beyond the first and beyond those
stored, and the flag stays exactly without such. -/
theorem duplicate_dnn_tolerance (ind : Indeterminate) (c : Change V) (p : UdmSliceProfile V) :
    checkForUpdateSpecificUdmSliceProfileRules ind c p =
      forEach c.udmSliceProfile.plmnIdSets (fun s => nssaiRulesOnUpdate ind c.resourcePath p s ++
          forEach s.dnnLists (dnnRulesOnUpdate c.resourcePath p s)) ++
        checkDeletedDnnLists c.resourcePath (dnnListIdsOnChange c.udmSliceProfile.plmnIdSets) p ∧
    (∀ s ∈ c.udmSliceProfile.plmnIdSets, ∀ l ∈ s.dnnLists,
      (dnnRulesOnUpdate c.resourcePath p s l).errors.length =
        ∑ᶠ d, (dnnCount d l - max 1 (storedCount p s.plmnIdSetIdentifier l.dnnListId d))) ∧
    ((forEach c.udmSliceProfile.plmnIdSets fun s =>
        forEach s.dnnLists (dnnRulesOnUpdate c.resourcePath p s)).ret = true ↔
      ∀ s ∈ c.udmSliceProfile.plmnIdSets, ∀ l ∈ s.dnnLists, ∀ d,
        dnnCount d l ≤ max 1 (storedCount p s.plmnIdSetIdentifier l.dnnListId d)) := by
  refine ⟨checkForUpdateSpecific_eq ind c p, ?_, ?_⟩
  · intro s _ l _
    rw [length_errors_dnnRulesOnUpdate, overruns_eq_finsum]
    simp only [count_dnnNames]
    rfl
  · simp only [ret_forEach, ret_dnnRulesOnUpdate]
    rfl

/-! ## Small profiles -/

/-- A set with DNN lists, each an id and its DNNs. -/
def setWithLists (identifier : String) (lists : List (String × List String)) :
    PlmnIdSets Json where
  plmnIdSetIdentifier := identifier
  dnnLists := lists.map fun l => { dnnListId := l.1, dnnDataList := l.2.map fun d => { dnn := d } }

/-- A set with default entries for one list, each with its `sd`. -/
def setWithEntries (identifier : String) (sds : List String) : PlmnIdSets Json where
  plmnIdSetIdentifier := identifier
  nssai := { defaultSingleNssais := sds.map fun sd =>
    { nssai := { sst := some 1, sd := sd }, dnnListId := defaultValue } }

/-- An update with the sets. -/
def updateOf (sets : List (PlmnIdSets Json)) : Change Json where
  operation := jsonOperationUpdate
  resourcePath := "/profiles/udmProfiles/udmSliceProfiles/a"
  udmSliceProfile := { plmnIdSets := sets }

/-! ## Entries -/

section

variable (ind : Indeterminate)

/-- The entries of a set that have the pair. -/
def entriesWith (q : Int × String) (s : PlmnIdSets V) : List (String × NssaiDetails V) :=
  (keyedEntries s).filter fun e => nssaiPair ind e.2 = q

/-- Every entry of the set with the pair, but for the first one, is stored. -/
def RepeatsStored (p : UdmSliceProfile V) (s : PlmnIdSets V) (q : Int × String) : Prop :=
  ∀ e ∈ (entriesWith ind q s).tail, IsStored ind p s.plmnIdSetIdentifier e

theorem nssaisTolerated_iff {p : UdmSliceProfile V} {s : PlmnIdSets V} :
    NssaisTolerated ind p s ↔ ∀ q, RepeatsStored ind p s q := eachAfter_met_iff

/-- Every stored list is in the change, for the same identifier. -/
def ListsKept (p : UdmSliceProfile V) (sets : List (PlmnIdSets V)) : Prop :=
  ∀ s ∈ p.plmnIdSets, ∀ l ∈ s.dnnLists, DefinedIn sets s.plmnIdSetIdentifier l.dnnListId

/-- A list is gone from its set, which still has some list, and is met under a later identifier. -/
def StoodIn (sets : List (PlmnIdSets V)) (plmnId listId : String) : Prop :=
  ¬ DefinedIn sets plmnId listId ∧ (∃ id, DefinedIn sets plmnId id) ∧
    ∃ later, plmnId < later ∧ DefinedIn sets later listId

/-- No stored list that is gone from its own set is met under a later identifier. -/
def NoneStoodIn (p : UdmSliceProfile V) (sets : List (PlmnIdSets V)) : Prop :=
  ∀ s ∈ p.plmnIdSets, ∀ l ∈ s.dnnLists, ¬ StoodIn sets s.plmnIdSetIdentifier l.dnnListId

theorem listCovered_iff {sets : List (PlmnIdSets V)} {plmnId listId : String} :
    ListCovered sets plmnId listId ↔
      DefinedIn sets plmnId listId ∨ StoodIn sets plmnId listId := by
  constructor
  · rintro ⟨hsome, later, hle, hlater⟩
    by_cases hkept : DefinedIn sets plmnId listId
    · exact Or.inl hkept
    · refine Or.inr ⟨hkept, hsome, later, hle.lt_of_ne ?_, hlater⟩
      rintro rfl
      exact hkept hlater
  · rintro (hkept | ⟨-, hsome, later, hlt, hlater⟩)
    · exact ⟨⟨listId, hkept⟩, plmnId, le_rfl, hkept⟩
    · exact ⟨hsome, later, hlt.le, hlater⟩

/-- The stored lists that are gone from their sets. -/
def goneLists (p : UdmSliceProfile V) (sets : List (PlmnIdSets V)) : List (String × DnnList V) :=
  (profileLists p).filter fun e => ¬ DefinedIn sets e.1 e.2.dnnListId

/-- The error for a list that is gone. -/
def listDeleted (resourcePath : String) (e : String × DnnList V) : Error :=
  constraintViolation resourcePath (quoted jsonDnnListId ++ "=" ++ quoted e.2.dnnListId ++
    " cannot be deleted for " ++ quoted jsonPlmnIdSetIdentifier ++ "=" ++ quoted e.1)

/-- The walk meets the id of a stored list. -/
def walkMeets (sets : List (PlmnIdSets V)) (e : String × DnnList V) : Bool :=
  ((dnnListIdsOnChange sets).findFrom e.1).any fun x => x.2 = e.2.dnnListId

theorem walkMeets_iff {sets : List (PlmnIdSets V)} {e : String × DnnList V} :
    walkMeets sets e = true ↔ ListCovered sets e.1 e.2.dnnListId := any_findFrom_iff

theorem gone_of_not_meets {sets : List (PlmnIdSets V)} {e : String × DnnList V}
    (h : (!walkMeets sets e) = true) : decide (¬ DefinedIn sets e.1 e.2.dnnListId) = true := by
  rw [Bool.not_eq_true', Bool.eq_false_iff, Ne, walkMeets_iff, listCovered_iff] at h
  exact decide_eq_true fun hkept => h (Or.inl hkept)

theorem noneStoodIn_iff {p : UdmSliceProfile V} {sets : List (PlmnIdSets V)} :
    NoneStoodIn p sets ↔ ∀ e ∈ profileLists p, ¬ StoodIn sets e.1 e.2.dnnListId := by
  simp only [profileLists, List.forall_mem_flatMap, List.forall_mem_map]
  rfl

theorem errors_checkDeletedDnnLists (resourcePath : String) (sets : List (PlmnIdSets V))
    (p : UdmSliceProfile V) :
    (checkDeletedDnnLists resourcePath (dnnListIdsOnChange sets) p).errors =
      ((profileLists p).filter fun e => !walkMeets sets e).map (listDeleted resourcePath) := by
  have hlists : ∀ (id : String) (ls : List (DnnList V)),
      (forEach ls fun l => failIf (walkMeets sets (id, l) = false) resourcePath
        (quoted jsonDnnListId ++ "=" ++ quoted l.dnnListId ++ " cannot be deleted for " ++
          quoted jsonPlmnIdSetIdentifier ++ "=" ++ quoted id)).errors =
        ((ls.map fun l => (id, l)).filter fun e => !walkMeets sets e).map
          (listDeleted resourcePath) := by
    intro id ls
    induction ls with
    | nil => rfl
    | cons l ls ih =>
      rw [forEach_cons, errors_append, ih, List.map_cons]
      by_cases hmeets : walkMeets sets (id, l) = true
      · rw [List.filter_cons_of_neg (by simp [hmeets])]
        simp [failIf, hmeets]
      · rw [List.filter_cons_of_pos (by simp [hmeets]), List.map_cons]
        simp only [failIf, Bool.eq_false_iff.2 hmeets, if_true]
        rfl
  unfold checkDeletedDnnLists profileLists
  induction p.plmnIdSets with
  | nil => rfl
  | cons s rest ih =>
    rw [forEach_cons, errors_append, ih, List.flatMap_cons, List.filter_append, List.map_append,
      ← hlists]
    rfl

/-- Each list that is gone has its error exactly when none is stood in. -/
theorem errors_checkDeletedDnnLists_iff {resourcePath : String} {sets : List (PlmnIdSets V)}
    {p : UdmSliceProfile V} :
    (checkDeletedDnnLists resourcePath (dnnListIdsOnChange sets) p).errors =
        (goneLists p sets).map (listDeleted resourcePath) ↔ NoneStoodIn p sets := by
  rw [errors_checkDeletedDnnLists, noneStoodIn_iff]
  constructor
  · intro herrors e he hstood
    have hcounts := congrArg List.length herrors
    rw [List.length_map, List.length_map, ← List.countP_eq_length_filter, goneLists,
      ← List.countP_eq_length_filter, countP_eq_countP_iff fun e _ => gone_of_not_meets] at hcounts
    have hmissed := hcounts e he (decide_eq_true hstood.1)
    rw [Bool.not_eq_true', Bool.eq_false_iff, Ne, walkMeets_iff] at hmissed
    exact hmissed (listCovered_iff.2 (Or.inr hstood))
  · intro hnone
    rw [goneLists]
    congr 1
    refine List.filter_congr fun e he => Bool.eq_iff_iff.2 ⟨gone_of_not_meets, fun hgone => ?_⟩
    rw [Bool.not_eq_true', Bool.eq_false_iff, Ne, walkMeets_iff, listCovered_iff]
    exact not_or.2 ⟨of_decide_eq_true hgone, hnone e he⟩

/-- The rules of an update that look at its entries and DNNs. -/
def repetitionRulesOnUpdate (c : Change V) (p : UdmSliceProfile V) : Checked :=
  forEach c.udmSliceProfile.plmnIdSets fun s => nssaiRulesOnUpdate ind c.resourcePath p s ++
    forEach s.dnnLists (dnnRulesOnUpdate c.resourcePath p s)

/-- **When an update keeps the stored lists.** An accepted one does exactly when no list that is
gone from its own set is met under a later identifier; and exactly then each list that is gone has
its error, in an update that is refused as well. -/
theorem update_keeps_lists_iff (c : Change V) (p : UdmSliceProfile V) :
    ((checkForUpdateSpecificUdmSliceProfileRules ind c p).ret = true →
      (ListsKept p c.udmSliceProfile.plmnIdSets ↔ NoneStoodIn p c.udmSliceProfile.plmnIdSets)) ∧
    ((checkForUpdateSpecificUdmSliceProfileRules ind c p).errors =
        (repetitionRulesOnUpdate ind c p).errors ++
          (goneLists p c.udmSliceProfile.plmnIdSets).map (listDeleted c.resourcePath) ↔
      NoneStoodIn p c.udmSliceProfile.plmnIdSets) := by
  constructor
  · intro h
    have hcovered := (ret_checkForUpdateSpecific ind).1 h |>.2.2
    constructor
    · intro hkept s hs l hl hstood
      exact hstood.1 (hkept s hs l hl)
    · intro hnone s hs l hl
      exact (listCovered_iff.1 (hcovered s hs l hl)).resolve_right (hnone s hs l hl)
  · rw [checkForUpdateSpecific_eq, errors_append]
    show (repetitionRulesOnUpdate ind c p).errors ++ _ = _ ↔ _
    rw [List.append_cancel_left_eq, errors_checkDeletedDnnLists_iff]

/-- The list of a later set stands in for the one that is gone. -/
theorem list_of_later_set_stands_in :
    (checkForUpdateSpecificUdmSliceProfileRules ⟨0, false⟩
        (updateOf [setWithLists "21401" [("b", [])], setWithLists "21402" [("a", [])]])
        { plmnIdSets :=
          [setWithLists "21401" [("a", [])], setWithLists "21402" [("a", [])]] }).ret = true ∧
      ¬ ListsKept
        { plmnIdSets := [setWithLists "21401" [("a", [])], setWithLists "21402" [("a", [])]] }
        (updateOf [setWithLists "21401" [("b", [])],
          setWithLists "21402" [("a", [])]]).udmSliceProfile.plmnIdSets := by
  refine ⟨by decide +kernel, fun h => ?_⟩
  obtain ⟨s, hs, hid, hlist⟩ := h _ List.mem_cons_self _ List.mem_cons_self
  rcases List.mem_cons.1 hs with rfl | hs
  · simp [ListDefined, setWithLists] at hlist
  · obtain rfl := List.mem_singleton.1 hs
    simp [setWithLists] at hid

/-- A list that is kept is covered. -/
theorem ListsKept.covered {p : UdmSliceProfile V} {sets : List (PlmnIdSets V)}
    (h : ListsKept p sets) : ListsCovered p sets := by
  intro s hs l hl
  have hkept := h s hs l hl
  exact ⟨⟨l.dnnListId, hkept⟩, s.plmnIdSetIdentifier, le_rfl, hkept⟩

/-! ## Resubmission -/

theorem listsKept_self (p : UdmSliceProfile V) : ListsKept p p.plmnIdSets := by
  intro s hs l hl
  exact ⟨s, hs, rfl, l, hl, rfl⟩

/-- **When the stored sets may be submitted again**: an entry that repeats a pair is in the first
set with its identifier, and no DNN of a list occurs more often than in the first list with the
same ids. -/
theorem resubmission_tolerated_iff {c : Change V} {p : UdmSliceProfile V}
    (h : c.udmSliceProfile.plmnIdSets = p.plmnIdSets) :
    (checkForUpdateSpecificUdmSliceProfileRules ind c p).ret = true ∧
        (checkForUpdateSpecificUdmSliceProfileRules ind c p).errors = [] ↔
      (∀ s ∈ p.plmnIdSets, NssaisTolerated ind p s) ∧ DnnsTolerated p p.plmnIdSets := by
  have hbalanced := (reports_checkForUpdateSpecificUdmSliceProfileRules ind c p).balanced
  have hcovered : ListsCovered p p.plmnIdSets := (listsKept_self p).covered
  rw [← hbalanced.ret_iff, and_self, ret_checkForUpdateSpecific, h]
  simp only [hcovered, and_true]

/-- A stored profile that repeats a pair and a DNN. -/
def repetitiveProfile : UdmSliceProfile Json where
  plmnIdSets := [{ setWithEntries "Default" ["aaaaaa", "AAAAAA"] with
    dnnLists := (setWithLists "Default" [("Default", ["a", "A"])]).dnnLists }]

/-- What is stored with its repetitions may be submitted again. -/
theorem resubmission_tolerated_iff_repetitive :
    (checkForUpdateSpecificUdmSliceProfileRules ⟨0, false⟩
        (updateOf repetitiveProfile.plmnIdSets) repetitiveProfile).ret = true ∧
      (checkForUpdateSpecificUdmSliceProfileRules ⟨0, false⟩
        (updateOf repetitiveProfile.plmnIdSets) repetitiveProfile).errors = [] := by
  refine (@resubmission_tolerated_iff Json ⟨0, false⟩ (updateOf repetitiveProfile.plmnIdSets)
    repetitiveProfile rfl).2 ⟨?_, ?_⟩
  · intro s hs
    have hstored : storedSet repetitiveProfile s.plmnIdSetIdentifier = some s := by
      obtain rfl := List.mem_singleton.1 hs
      rfl
    rw [nssaisTolerated_iff]
    intro q e he
    exact ⟨s, hstored, e, (List.mem_filter.1 (List.mem_of_mem_tail he)).1, rfl, rfl, rfl⟩
  · intro s hs l hl d
    have hstored : firstDnnList repetitiveProfile s.plmnIdSetIdentifier l.dnnListId = some l := by
      obtain rfl := List.mem_singleton.1 hs
      obtain rfl := List.mem_singleton.1 hl
      rfl
    rw [dnnTolerance, storedCount, hstored]
    exact le_max_right _ _

/-- Of two lists with the same ids, the second repeats a DNN, and is held against the first. -/
theorem second_list_refused :
    (checkForUpdateSpecificUdmSliceProfileRules ⟨0, false⟩
        (updateOf [setWithLists "Default" [("Default", ["a"]), ("Default", ["b", "b"])]])
        { plmnIdSets :=
          [setWithLists "Default" [("Default", ["a"]), ("Default", ["b", "b"])]] }).ret =
      false := by
  decide +kernel

/-! ## Against an empty profile -/

/-- With nothing stored, a pair that was met before is an error. -/
theorem checkRepeatedInNssaisOnUpdate_empty (resourcePath plmnId : String)
    (met : List (Int × String)) (es : List (String × NssaiDetails V)) :
    checkRepeatedInNssaisOnUpdate ind resourcePath ∅ plmnId met es =
      checkRepeatedInNssais ind resourcePath met (es.map (·.2)) := by
  induction es generalizing met with
  | nil => rfl
  | cons e es ih =>
    have hstep : checkForRepeatedNssaisOnUpdate resourcePath met ∅ plmnId e.1
        (ind.readInt e.2.nssai.sst) e.2.nssai.sd e.2.dnnListId =
        checkForRepeatedNssais resourcePath met (ind.readInt e.2.nssai.sst) e.2.nssai.sd := rfl
    rw [checkRepeatedInNssaisOnUpdate, hstep, List.map_cons, checkRepeatedInNssais, ih]

/-- The two loops keep different lists of the DNNs met, with the same members. -/
theorem checkRepeatedInDnnsOnUpdate_empty (resourcePath : String) {met met' : List String}
    (h : ∀ d, d ∈ met ↔ d ∈ met') (ds : List (DnnData V)) :
    checkRepeatedInDnnsOnUpdate resourcePath [] met ds =
      checkRepeatedInDnns resourcePath met' ds := by
  induction ds generalizing met met' with
  | nil => rfl
  | cons d ds ih =>
    rw [checkRepeatedInDnnsOnUpdate, checkRepeatedInDnns]
    by_cases hd : d.dnn = ""
    · rw [if_neg (not_not.2 hd), if_neg (not_not.2 hd)]
      exact ih h
    · rw [if_pos hd, if_pos hd]
      have hcount : (met.count (toLowerCopy d.dnn) ≥ 1 ∧
          ¬ List.count (toLowerCopy d.dnn) [] > met.count (toLowerCopy d.dnn)) ↔
          met'.count (toLowerCopy d.dnn) ≥ 1 := by
        have hpos := h (toLowerCopy d.dnn)
        rw [← List.count_pos_iff, ← List.count_pos_iff] at hpos
        simp only [List.count_nil]
        omega
      by_cases hmet : met'.count (toLowerCopy d.dnn) ≥ 1
      · have hmem : toLowerCopy d.dnn ∈ met' := List.count_pos_iff.1 hmet
        have hrest : ∀ x, x ∈ met ++ [toLowerCopy d.dnn] ↔ x ∈ met' := by
          intro x
          rw [List.mem_append, List.mem_singleton, h x]
          exact ⟨fun hx => hx.elim id fun hx => hx ▸ hmem, Or.inl⟩
        rw [if_pos hmet, ← ih hrest]
        simp only [failIf, hcount, hmet, if_true]
      · have hrest : ∀ x, x ∈ met ++ [toLowerCopy d.dnn] ↔ x ∈ met' ++ [toLowerCopy d.dnn] := by
          intro x
          rw [List.mem_append, List.mem_append, h x]
        rw [if_neg hmet, ← ih hrest]
        simp only [failIf, hcount, hmet, if_false]
        rfl

/-- Without stored sets the specific rules of an update are those of a creation. -/
theorem checkForUpdateSpecific_empty (c : Change V) {p : UdmSliceProfile V}
    (hp : p.plmnIdSets = []) :
    checkForUpdateSpecificUdmSliceProfileRules ind c p =
      checkForCreationSpecificUdmSliceProfileRules ind c.udmSliceProfile.plmnIdSets
        c.resourcePath := by
  have hnssais : getAllNssaisUdmSliceProfile ind p = ∅ := by
    simp [getAllNssaisUdmSliceProfile, hp]
  have hstored (plmnId listId : String) : storedDnns p plmnId listId = [] := by
    simp [storedDnns, getAllDnnsUdmSliceProfile, hp]
  have hdeleted : checkDeletedDnnLists c.resourcePath
      (dnnListIdsOnChange c.udmSliceProfile.plmnIdSets) p = pass := by
    simp [checkDeletedDnnLists, hp]
  rw [checkForUpdateSpecific_eq, hdeleted, append_pass]
  show _ = checkForRepeatedDnnsandNssais ind c.udmSliceProfile.plmnIdSets c.resourcePath
  unfold checkForRepeatedDnnsandNssais
  congr 1
  funext s
  rw [nssaiRulesOnUpdate, hnssais, checkRepeatedInNssaisOnUpdate_empty, map_snd_keyedEntries]
  congr 2
  funext l
  rw [dnnRulesOnUpdate, hstored]
  exact checkRepeatedInDnnsOnUpdate_empty c.resourcePath (fun _ => Iff.rfl) l.dnnDataList

/-- **An update against an empty profile is a creation**: verdict, code and errors are the same. -/
theorem update_against_empty {rr : RelatedResources V} {c : Change V} {r : Resource V}
    {p : UdmSliceProfile V} (hr : rr.find? c.resourcePath = some r)
    (hp : r.getUdmSliceProfile = some p) (hempty : p.plmnIdSets = []) :
    checkForUpdateUdmSliceProfileRules ind rr c =
      some (checkForCreationUdmSliceProfileRules ind c) := by
  have hupdate : checkForUpdateUdmSliceProfileRules ind rr c =
      some (commonSliceProfileRules ind c ++
        checkForUpdateSpecificUdmSliceProfileRules ind c p).verdict := by
    rw [checkForUpdateUdmSliceProfileRules, hr]
    simp only [hp, Option.bind_eq_bind, Option.bind_some]
    rfl
  rw [hupdate, checkForUpdateSpecific_empty ind c hempty]
  rfl

/-- A repeated DNN, against a profile without sets. -/
theorem update_against_empty_repeated :
    checkForUpdateUdmSliceProfileRules ⟨0, false⟩
        (OrdMap.emplaceAll ∅
          [("/profiles/udmProfiles/udmSliceProfiles/a", Resource.udmSliceProfile {})])
        (updateOf [setWithLists "Default" [("Default", ["a", "A"])]]) =
      some (checkForCreationUdmSliceProfileRules ⟨0, false⟩
        (updateOf [setWithLists "Default" [("Default", ["a", "A"])]])) :=
  update_against_empty ⟨0, false⟩ rfl rfl rfl

end

end ProvisioningValidator
