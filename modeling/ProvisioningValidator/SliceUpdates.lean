import Mathlib
import ProvisioningValidator.Lib.Repeats
import ProvisioningValidator.SliceReferences

/-!
# Updates of a slice profile

What `checkForUpdateSpecificUdmSliceProfileRules` accepts, as conditions on the change and on the
stored profile:

* `NssaisTolerated` — an entry whose pair was met before is stored, in the same list and with the
  same list id;
* `DnnsTolerated` — no DNN of a list occurs more often than once, or than it is stored;
* `ListsCovered` — for every stored list, its set is there with some list, and its id is defined
  for this set or for one that comes later in the order of the identifiers.

**Theorem (`ret_checkForUpdateSpecific`).** The rules accept exactly under these three.
-/

namespace ProvisioningValidator

open Lib Checked

variable {V : Type}

/-! ## The DNNs of a list -/

/-- How many entries of a list have a DNN that is `d` in lower case. -/
def dnnCount (d : String) (l : DnnList V) : ℕ :=
  l.dnnDataList.countP fun x => x.dnn ≠ "" ∧ toLowerCopy x.dnn = d

/-- The DNNs of a list, in lower case. -/
def dnnNames (ds : List (DnnData V)) : List String :=
  ((ds.map (·.dnn)).filter (· ≠ "")).map toLowerCopy

theorem count_dnnNames (d : String) (l : DnnList V) :
    (dnnNames l.dnnDataList).count d = dnnCount d l := by
  rw [dnnNames, dnnCount, List.count, List.countP_map, List.countP_filter, List.countP_map]
  congr 1
  funext x
  simp [Bool.and_comm, beq_eq_decide]

/-- The lists of a profile, each with the identifier of its set. -/
def profileLists (p : UdmSliceProfile V) : List (String × DnnList V) :=
  p.plmnIdSets.flatMap fun s => s.dnnLists.map fun l => (s.plmnIdSetIdentifier, l)

/-- The first list of a profile with the two identifiers. -/
def firstDnnList (p : UdmSliceProfile V) (plmnId listId : String) : Option (DnnList V) :=
  ((profileLists p).find? fun e => toLex (e.1, e.2.dnnListId) = toLex (plmnId, listId)).map (·.2)

/-- How often `d` is stored, in the first list with the two identifiers. -/
def storedCount (p : UdmSliceProfile V) (plmnId listId d : String) : ℕ :=
  (firstDnnList p plmnId listId).elim 0 (dnnCount d)

/-- What the map of the stored DNNs has for a list. -/
def storedDnns (p : UdmSliceProfile V) (plmnId listId : String) : List String :=
  ((getAllDnnsUdmSliceProfile p).find? (toLex (plmnId, listId))).getD []

theorem find?_getAllDnnsUdmSliceProfile (p : UdmSliceProfile V) (plmnId listId : String) :
    (getAllDnnsUdmSliceProfile p).find? (toLex (plmnId, listId)) =
      (firstDnnList p plmnId listId).map fun l => dnnNames l.dnnDataList := by
  have hes : (p.plmnIdSets.flatMap fun s => s.dnnLists.map fun l =>
      (toLex (s.plmnIdSetIdentifier, l.dnnListId), dnnNames l.dnnDataList)) =
      (profileLists p).map fun e => (toLex (e.1, e.2.dnnListId), dnnNames e.2.dnnDataList) := by
    simp [profileLists, List.map_flatMap, Function.comp_def]
  have hmap : getAllDnnsUdmSliceProfile p = OrdMap.emplaceAll ∅ (p.plmnIdSets.flatMap fun s =>
      s.dnnLists.map fun l =>
        (toLex (s.plmnIdSetIdentifier, l.dnnListId), dnnNames l.dnnDataList)) := rfl
  rw [hmap, hes, OrdMap.find?_emplaceAll, OrdMap.find?_empty, Option.none_or, OrdMap.lookup_map,
    firstDnnList, Option.map_map]
  rfl

theorem count_storedDnns (p : UdmSliceProfile V) (plmnId listId d : String) :
    (storedDnns p plmnId listId).count d = storedCount p plmnId listId d := by
  rw [storedDnns, find?_getAllDnnsUdmSliceProfile, storedCount]
  cases firstDnnList p plmnId listId with
  | none => rfl
  | some l => exact count_dnnNames d l

/-- How often a DNN may occur in a list of the change. -/
def dnnTolerance (p : UdmSliceProfile V) (plmnId listId d : String) : ℕ :=
  max 1 (storedCount p plmnId listId d)

/-- No DNN of a list occurs more often than once, or than it is stored. -/
def DnnsTolerated (p : UdmSliceProfile V) (sets : List (PlmnIdSets V)) : Prop :=
  ∀ s ∈ sets, ∀ l ∈ s.dnnLists, ∀ d,
    dnnCount d l ≤ dnnTolerance p s.plmnIdSetIdentifier l.dnnListId d

/-! ## The loop over the DNNs -/

/-- The rules for the DNNs of one list of the change. -/
def dnnRulesOnUpdate (resourcePath : String) (p : UdmSliceProfile V) (s : PlmnIdSets V)
    (l : DnnList V) : Checked :=
  checkRepeatedInDnnsOnUpdate resourcePath (storedDnns p s.plmnIdSetIdentifier l.dnnListId) []
    l.dnnDataList

/-- Each overrun is one error. -/
theorem length_errors_checkRepeatedInDnnsOnUpdate (resourcePath : String)
    (stored met : List String) (ds : List (DnnData V)) :
    (checkRepeatedInDnnsOnUpdate resourcePath stored met ds).errors.length =
      overruns (fun d => max 1 (stored.count d)) met (dnnNames ds) := by
  induction ds generalizing met with
  | nil => rfl
  | cons d ds ih =>
    rw [checkRepeatedInDnnsOnUpdate]
    by_cases hd : d.dnn = ""
    · have hnames : dnnNames (d :: ds) = dnnNames ds := by simp [dnnNames, hd]
      rw [if_neg (by simpa using hd), hnames, ih]
    · have hnames : dnnNames (d :: ds) = toLowerCopy d.dnn :: dnnNames ds := by
        simp [dnnNames, hd]
      have hover : (met.count (toLowerCopy d.dnn) ≥ 1 ∧
          ¬ stored.count (toLowerCopy d.dnn) > met.count (toLowerCopy d.dnn)) ↔
          max 1 (stored.count (toLowerCopy d.dnn)) ≤ met.count (toLowerCopy d.dnn) := by
        omega
      rw [if_pos hd, hnames, overruns, errors_append, List.length_append, ih]
      congr 1
      simp only [failIf, hover]
      split_ifs <;> rfl

theorem length_errors_dnnRulesOnUpdate (resourcePath : String) (p : UdmSliceProfile V)
    (s : PlmnIdSets V) (l : DnnList V) :
    (dnnRulesOnUpdate resourcePath p s l).errors.length =
      overruns (dnnTolerance p s.plmnIdSetIdentifier l.dnnListId) []
        (dnnNames l.dnnDataList) := by
  rw [dnnRulesOnUpdate, length_errors_checkRepeatedInDnnsOnUpdate]
  simp only [count_storedDnns]
  rfl

theorem ret_dnnRulesOnUpdate {resourcePath : String} {p : UdmSliceProfile V} {s : PlmnIdSets V}
    {l : DnnList V} : (dnnRulesOnUpdate resourcePath p s l).ret = true ↔
      ∀ d, dnnCount d l ≤ dnnTolerance p s.plmnIdSetIdentifier l.dnnListId d := by
  have hbalanced := (reports_checkRepeatedInDnnsOnUpdate resourcePath
    (storedDnns p s.plmnIdSetIdentifier l.dnnListId) [] l.dnnDataList).balanced
  rw [dnnRulesOnUpdate, hbalanced.ret_iff, ← List.length_eq_zero_iff, ← dnnRulesOnUpdate,
    length_errors_dnnRulesOnUpdate, overruns_eq_zero_iff]
  simp only [count_dnnNames]

/-! ## The entries of a set -/

section

variable (ind : Indeterminate)

/-- The pair of an entry, in lower case. -/
def nssaiPair (n : NssaiDetails V) : Int × String :=
  (ind.readInt n.nssai.sst, toLowerCopy n.nssai.sd)

/-- The entries of a set, each with the key of its list. -/
def keyedEntries (s : PlmnIdSets V) : List (String × NssaiDetails V) :=
  s.nssai.defaultSingleNssais.map (defaultKey, ·) ++ s.nssai.singleNssais.map (singleKey, ·)

theorem map_snd_keyedEntries (s : PlmnIdSets V) : (keyedEntries s).map (·.2) = nssaiEntries s := by
  simp [keyedEntries, nssaiEntries, Function.comp_def]

/-- The first set of a profile with an identifier. -/
def storedSet (p : UdmSliceProfile V) (plmnId : String) : Option (PlmnIdSets V) :=
  p.plmnIdSets.find? fun s => s.plmnIdSetIdentifier = plmnId

/-- An entry is stored under the identifier: in the list of the same key there is one with its pair
and its list id. -/
def IsStored (p : UdmSliceProfile V) (plmnId : String) (e : String × NssaiDetails V) : Prop :=
  ∃ s, storedSet p plmnId = some s ∧ ∃ e' ∈ keyedEntries s,
    e'.1 = e.1 ∧ nssaiPair ind e'.2 = nssaiPair ind e.2 ∧ e'.2.dnnListId = e.2.dnnListId

/-- Every entry of a set whose pair was met before is stored. -/
def NssaisTolerated (p : UdmSliceProfile V) (s : PlmnIdSets V) : Prop :=
  EachAfter (fun before e => nssaiPair ind e.2 ∈ before.map (fun e' => nssaiPair ind e'.2) →
    IsStored ind p s.plmnIdSetIdentifier e) (keyedEntries s)

/-- What the map of the stored entries has for a list. -/
theorem find?_getAllNssaisUdmSliceProfile (p : UdmSliceProfile V) (plmnId : String) :
    (getAllNssaisUdmSliceProfile ind p).find? (toLex (plmnId, defaultKey)) =
        (storedSet p plmnId).map (fun s => getNssais ind s.nssai.defaultSingleNssais) ∧
      (getAllNssaisUdmSliceProfile ind p).find? (toLex (plmnId, singleKey)) =
        (storedSet p plmnId).map (fun s => getNssais ind s.nssai.singleNssais) := by
  simp only [getAllNssaisUdmSliceProfile, OrdMap.find?_emplaceAll, OrdMap.find?_empty,
    Option.none_or, storedSet]
  induction p.plmnIdSets with
  | nil => exact ⟨rfl, rfl⟩
  | cons s rest ih =>
    have hkeys : toLex (plmnId, singleKey) ≠ toLex (s.plmnIdSetIdentifier, defaultKey) := by
      simp
    by_cases hs : s.plmnIdSetIdentifier = plmnId
    · subst hs
      rw [List.find?_cons_of_pos (by simp), List.flatMap_cons]
      exact ⟨OrdMap.lookup_head _ _ _,
        (OrdMap.lookup_cons_of_ne hkeys _).trans (OrdMap.lookup_head _ _ _)⟩
    · have hne : ∀ key key' : String,
          toLex (plmnId, key) ≠ toLex (s.plmnIdSetIdentifier, key') := by
        simp [Ne.symm hs]
      rw [List.find?_cons_of_neg (by simpa using hs), List.flatMap_cons]
      simp only [List.cons_append, List.nil_append]
      rw [OrdMap.lookup_cons_of_ne (hne _ _), OrdMap.lookup_cons_of_ne (hne _ _),
        OrdMap.lookup_cons_of_ne (hne _ _), OrdMap.lookup_cons_of_ne (hne _ _)]
      exact ih

/-- The search in the stored entries, for an entry of the change. -/
theorem any_stored_iff {p : UdmSliceProfile V} {plmnId : String} {s : PlmnIdSets V}
    {e : String × NssaiDetails V} (he : e ∈ keyedEntries s) :
    (((getAllNssaisUdmSliceProfile ind p).find? (toLex (plmnId, e.1))).getD []).any
        (fun n => (nssaiPair ind e.2).1 = n.1 ∧ (nssaiPair ind e.2).2 = n.2.1 ∧
          e.2.dnnListId = n.2.2) = true ↔ IsStored ind p plmnId e := by
  have hdefault := (find?_getAllNssaisUdmSliceProfile ind p plmnId).1
  have hsingle := (find?_getAllNssaisUdmSliceProfile ind p plmnId).2
  have hkeys : e.1 = defaultKey ∨ e.1 = singleKey := by
    simp only [keyedEntries, List.mem_append, List.mem_map] at he
    rcases he with ⟨n, -, rfl⟩ | ⟨n, -, rfl⟩
    · exact Or.inl rfl
    · exact Or.inr rfl
  rw [IsStored]
  rcases hkeys with hkey | hkey <;> rw [hkey]
  · rw [hdefault]
    cases storedSet p plmnId with
    | none => simp
    | some t => simp [getNssais, keyedEntries, nssaiPair, Prod.ext_iff]; grind
  · rw [hsingle]
    cases storedSet p plmnId with
    | none => simp
    | some t => simp [getNssais, keyedEntries, nssaiPair, Prod.ext_iff]; grind

/-! ## The loop over the entries -/

/-- The pairs met so far are in lower case. -/
def LowerCase (met : List (Int × String)) : Prop := ∀ n ∈ met, toLowerCopy n.2 = n.2

/-- Against pairs in lower case, the count in the source is a search. -/
theorem met_iff {met : List (Int × String)} (h : LowerCase met) (n : NssaiDetails V) :
    met.countP (fun m => (nssaiPair ind n).1 = m.1 ∧ (nssaiPair ind n).2 = toLowerCopy m.2) ≥ 1 ↔
      nssaiPair ind n ∈ met := by
  rw [ge_iff_le, Nat.one_le_iff_ne_zero, ← Nat.pos_iff_ne_zero, List.countP_pos_iff]
  constructor
  · rintro ⟨m, hm, heq⟩
    simp only [h m hm, decide_eq_true_eq] at heq
    have hpair : nssaiPair ind n = m := Prod.ext heq.1 heq.2
    exact hpair ▸ hm
  · intro hmem
    refine ⟨_, hmem, ?_⟩
    simp [nssaiPair]

theorem LowerCase.concat {met : List (Int × String)} (h : LowerCase met) (n : NssaiDetails V) :
    LowerCase (met ++ [nssaiPair ind n]) := by
  intro m hm
  rcases List.mem_append.1 hm with hm | hm
  · exact h m hm
  · obtain rfl := List.mem_singleton.1 hm
    exact toLowerCopy_toLowerCopy n.nssai.sd

/-- One entry: refused when its pair was met and it is not stored; afterwards its pair is met. -/
theorem checkForRepeatedNssaisOnUpdate_spec {resourcePath plmnId : String}
    {p : UdmSliceProfile V} {s : PlmnIdSets V} {met : List (Int × String)} (h : LowerCase met)
    {e : String × NssaiDetails V} (he : e ∈ keyedEntries s) :
    let r := checkForRepeatedNssaisOnUpdate resourcePath met (getAllNssaisUdmSliceProfile ind p)
      plmnId e.1 (ind.readInt e.2.nssai.sst) e.2.nssai.sd e.2.dnnListId
    (r.1.ret = true ↔ (nssaiPair ind e.2 ∈ met → IsStored ind p plmnId e)) ∧
      LowerCase r.2 ∧ ∀ q, q ∈ r.2 ↔ q ∈ met ∨ q = nssaiPair ind e.2 := by
  intro r
  have hmet := met_iff ind h e.2
  have hstored : _ ↔ IsStored ind p plmnId e := any_stored_iff ind he
  by_cases hmem : nssaiPair ind e.2 ∈ met
  · have hlist : ∀ q, q ∈ met ↔ q ∈ met ∨ q = nssaiPair ind e.2 := by
      intro q
      exact ⟨Or.inl, fun hq => hq.elim id fun hq => hq ▸ hmem⟩
    by_cases his : IsStored ind p plmnId e
    · have hr : r = (pass, met) :=
        (if_pos (hmet.2 hmem)).trans (if_pos (hstored.2 his))
      rw [hr]
      exact ⟨by simp [his], h, hlist⟩
    · have hr : r = (violation resourcePath _, met) :=
        (if_pos (hmet.2 hmem)).trans (if_neg fun hany => his (hstored.1 hany))
      rw [hr]
      exact ⟨by simp [violation, hmem, his], h, hlist⟩
  · have hr : r = (pass, met ++ [nssaiPair ind e.2]) := if_neg fun hcount => hmem (hmet.1 hcount)
    rw [hr]
    exact ⟨by simp [hmem], h.concat ind e.2, by simp⟩

/-- The loop over the entries of a set, behind the pairs met before. -/
theorem ret_checkRepeatedInNssaisOnUpdate {resourcePath plmnId : String}
    {p : UdmSliceProfile V} {s : PlmnIdSets V} {es : List (String × NssaiDetails V)}
    (hes : ∀ e ∈ es, e ∈ keyedEntries s) {met : List (Int × String)} (h : LowerCase met) :
    (checkRepeatedInNssaisOnUpdate ind resourcePath (getAllNssaisUdmSliceProfile ind p) plmnId met
        es).ret = true ↔
      EachAfter (fun before e => nssaiPair ind e.2 ∈ met ∨
        nssaiPair ind e.2 ∈ before.map (fun e' => nssaiPair ind e'.2) →
          IsStored ind p plmnId e) es := by
  induction es generalizing met with
  | nil => simp [checkRepeatedInNssaisOnUpdate]
  | cons e rest ih =>
    obtain ⟨hret, hlower, hmem⟩ := @checkForRepeatedNssaisOnUpdate_spec V ind resourcePath plmnId
      p s met h e (hes e List.mem_cons_self)
    have hrest := ih (fun e' he' => hes e' (List.mem_cons_of_mem e he')) hlower
    rw [checkRepeatedInNssaisOnUpdate, ret_append, Bool.and_eq_true, hret, hrest, eachAfter_cons]
    refine and_congr (by simp) ?_
    simp only [hmem, List.map_cons, List.mem_cons, or_assoc]

/-- The rules for the entries of one set of the change. -/
def nssaiRulesOnUpdate (resourcePath : String) (p : UdmSliceProfile V) (s : PlmnIdSets V) :
    Checked :=
  checkRepeatedInNssaisOnUpdate ind resourcePath (getAllNssaisUdmSliceProfile ind p)
    s.plmnIdSetIdentifier [] (keyedEntries s)

theorem ret_nssaiRulesOnUpdate {resourcePath : String} {p : UdmSliceProfile V}
    {s : PlmnIdSets V} :
    (nssaiRulesOnUpdate ind resourcePath p s).ret = true ↔ NssaisTolerated ind p s := by
  have hempty : LowerCase [] := by simp [LowerCase]
  rw [nssaiRulesOnUpdate, ret_checkRepeatedInNssaisOnUpdate ind (fun _ he => he) hempty,
    NssaisTolerated]
  simp only [List.not_mem_nil, false_or]

end

/-! ## The stored lists -/

/-- The walk from the identifier of the set meets the list id: the set is there with some list,
and the id is defined for this set or a later one. -/
def ListCovered (sets : List (PlmnIdSets V)) (plmnId listId : String) : Prop :=
  (∃ id, DefinedIn sets plmnId id) ∧ ∃ later, plmnId ≤ later ∧ DefinedIn sets later listId

/-- The walk meets every stored list. -/
def ListsCovered (p : UdmSliceProfile V) (sets : List (PlmnIdSets V)) : Prop :=
  ∀ s ∈ p.plmnIdSets, ∀ l ∈ s.dnnLists, ListCovered sets s.plmnIdSetIdentifier l.dnnListId

theorem any_findFrom_iff {sets : List (PlmnIdSets V)} {plmnId listId : String} :
    ((dnnListIdsOnChange sets).findFrom plmnId).any (fun e => e.2 = listId) = true ↔
      ListCovered sets plmnId listId := by
  simp only [List.any_eq_true, MultiMap.mem_findFrom, decide_eq_true_eq, ListCovered,
    ← mem_dnnListIdsOnChange]
  constructor
  · rintro ⟨e, ⟨he, hle, id, hid⟩, rfl⟩
    exact ⟨⟨id, hid⟩, e.1, hle, he⟩
  · rintro ⟨⟨id, hid⟩, later, hle, hlater⟩
    exact ⟨(later, listId), ⟨hlater, hle, id, hid⟩, rfl⟩

theorem ret_checkDeletedDnnLists {resourcePath : String} {sets : List (PlmnIdSets V)}
    {p : UdmSliceProfile V} :
    (checkDeletedDnnLists resourcePath (dnnListIdsOnChange sets) p).ret = true ↔
      ListsCovered p sets := by
  simp only [checkDeletedDnnLists, ret_forEach, ret_failIf, Bool.not_eq_false, any_findFrom_iff,
    ListsCovered]

/-! ## All rules of an update -/

section

variable (ind : Indeterminate)

theorem checkForUpdateSpecific_eq (c : Change V) (p : UdmSliceProfile V) :
    checkForUpdateSpecificUdmSliceProfileRules ind c p =
      forEach c.udmSliceProfile.plmnIdSets (fun s => nssaiRulesOnUpdate ind c.resourcePath p s ++
          forEach s.dnnLists (dnnRulesOnUpdate c.resourcePath p s)) ++
        checkDeletedDnnLists c.resourcePath (dnnListIdsOnChange c.udmSliceProfile.plmnIdSets)
          p := rfl

/-- **What an update is accepted under.** -/
theorem ret_checkForUpdateSpecific {c : Change V} {p : UdmSliceProfile V} :
    (checkForUpdateSpecificUdmSliceProfileRules ind c p).ret = true ↔
      (∀ s ∈ c.udmSliceProfile.plmnIdSets, NssaisTolerated ind p s) ∧
        DnnsTolerated p c.udmSliceProfile.plmnIdSets ∧
        ListsCovered p c.udmSliceProfile.plmnIdSets := by
  rw [checkForUpdateSpecific_eq, ret_append, Bool.and_eq_true, ret_checkDeletedDnnLists,
    ret_forEach]
  simp only [ret_append, Bool.and_eq_true, ret_forEach, ret_nssaiRulesOnUpdate,
    ret_dnnRulesOnUpdate, forall₂_and, DnnsTolerated, and_assoc]

end

end ProvisioningValidator
