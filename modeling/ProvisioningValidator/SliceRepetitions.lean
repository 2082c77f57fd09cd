import Mathlib
import ProvisioningValidator.Lib.Repeats
import ProvisioningValidator.SliceUpdates

/-!
# Repetitions in a created slice profile

`checkForRepeatedDnnsandNssais` goes over the entries of a set with the pairs met so far, and over
the DNNs of each list with the names met so far. One entry or one DNN that was met is one error and
is not noted again, so that a pass leaves as many errors as its list has repetitions.

**Theorem (`repetition_check_exact`).** The flag that is handed in stays as it is exactly when
nothing is repeated, and the errors are counted list by list.
-/

namespace ProvisioningValidator

open Lib Checked

variable {V : Type} (ind : Indeterminate)

/-- The pairs of a set, from both of its lists of entries. -/
def nssaiPairs (s : PlmnIdSets V) : List (Int × String) := (nssaiEntries s).map (nssaiPair ind)

/-- No set has a pair twice, and no list a DNN. -/
def NothingRepeated (sets : List (PlmnIdSets V)) : Prop :=
  ∀ s ∈ sets, (nssaiPairs ind s).Nodup ∧ ∀ l ∈ s.dnnLists, (dnnNames l.dnnDataList).Nodup

instance (sets : List (PlmnIdSets V)) : Decidable (NothingRepeated ind sets) :=
  inferInstanceAs (Decidable (∀ s ∈ sets, (nssaiPairs ind s).Nodup ∧
    ∀ l ∈ s.dnnLists, (dnnNames l.dnnDataList).Nodup))

/-- The error for an entry whose pair was met before. -/
def repeatedNssai (resourcePath : String) : Error :=
  constraintViolation resourcePath ("There are " ++ quoted jsonNssai ++ " repeated in the " ++
    quoted jsonNssai ++ " attribute")

/-- The error for a DNN that was met before. -/
def repeatedDnn (resourcePath : String) : Error := constraintViolation resourcePath duplicatedDnn

/-- The errors for one set: first those of its entries, then those of its lists. -/
def repetitionErrors (resourcePath : String) (s : PlmnIdSets V) : List Error :=
  List.replicate (repetitions (nssaiPairs ind s)) (repeatedNssai resourcePath) ++
    s.dnnLists.flatMap fun l =>
      List.replicate (repetitions (dnnNames l.dnnDataList)) (repeatedDnn resourcePath)

/-! ## The loop over the entries -/

/-- One entry: an error when its pair was met, and afterwards its pair is met. -/
theorem checkForRepeatedNssais_spec {resourcePath : String} {met : List (Int × String)}
    (h : LowerCase met) (n : NssaiDetails V) :
    let r := checkForRepeatedNssais resourcePath met (ind.readInt n.nssai.sst) n.nssai.sd
    r.1.errors = List.replicate (if nssaiPair ind n ∈ met then 1 else 0)
        (repeatedNssai resourcePath) ∧
      LowerCase r.2 ∧ ∀ q, q ∈ r.2 ↔ q ∈ met ++ [nssaiPair ind n] := by
  intro r
  have hmet := met_iff ind h n
  by_cases hmem : nssaiPair ind n ∈ met
  · have hr : r = (violation resourcePath _, met) := if_pos (hmet.2 hmem)
    rw [hr, if_pos hmem]
    refine ⟨rfl, h, fun q => ?_⟩
    simp only [List.mem_append, List.mem_singleton]
    exact ⟨Or.inl, fun hq => hq.elim id fun hq => hq ▸ hmem⟩
  · have hr : r = (pass, met ++ [nssaiPair ind n]) := if_neg fun hc => hmem (hmet.1 hc)
    rw [hr, if_neg hmem]
    exact ⟨rfl, h.concat ind n, fun q => Iff.rfl⟩

/-- The loop behind the pairs met before: the overruns of a pass that tolerates one of each. -/
theorem errors_checkRepeatedInNssais {resourcePath : String} {met : List (Int × String)}
    (h : LowerCase met) (ns : List (NssaiDetails V)) :
    (checkRepeatedInNssais ind resourcePath met ns).errors =
      List.replicate (overruns (fun _ => 1) met (ns.map (nssaiPair ind)))
        (repeatedNssai resourcePath) := by
  induction ns generalizing met with
  | nil => rfl
  | cons n ns ih =>
    obtain ⟨herrors, hlower, hmem⟩ := @checkForRepeatedNssais_spec V ind resourcePath met h n
    rw [checkRepeatedInNssais, errors_append, herrors, ih hlower, List.map_cons,
      overruns_one_cons, overruns_one_congr hmem, List.replicate_append_replicate]

/-! ## The loop over the DNNs -/

theorem errors_checkRepeatedInDnns (resourcePath : String) (met : List String)
    (ds : List (DnnData V)) :
    (checkRepeatedInDnns resourcePath met ds).errors =
      List.replicate (overruns (fun _ => 1) met (dnnNames ds)) (repeatedDnn resourcePath) := by
  induction ds generalizing met with
  | nil => rfl
  | cons d ds ih =>
    rw [checkRepeatedInDnns]
    by_cases hd : d.dnn = ""
    · have hnames : dnnNames (d :: ds) = dnnNames ds := by simp [dnnNames, hd]
      rw [if_neg (by simpa using hd), hnames, ih]
    · have hnames : dnnNames (d :: ds) = toLowerCopy d.dnn :: dnnNames ds := by
        simp [dnnNames, hd]
      rw [if_pos hd, hnames, overruns_one_cons]
      by_cases hmem : toLowerCopy d.dnn ∈ met
      · -- a name that was met is not noted again, which makes no difference
        have hsame : ∀ x, x ∈ met ↔ x ∈ met ++ [toLowerCopy d.dnn] := by
          intro x
          simp only [List.mem_append, List.mem_singleton]
          exact ⟨Or.inl, fun hx => hx.elim id fun hx => hx ▸ hmem⟩
        have hmet : met.count (toLowerCopy d.dnn) ≥ 1 := List.one_le_count_iff.2 hmem
        rw [if_pos hmem]
        simp only [hmet, if_true]
        rw [errors_append, ih, overruns_one_congr hsame, ← List.replicate_append_replicate]
        rfl
      · have hmet : ¬ met.count (toLowerCopy d.dnn) ≥ 1 :=
          fun hc => hmem (List.one_le_count_iff.1 hc)
        rw [if_neg hmem]
        simp only [hmet, if_false]
        rw [ih, Nat.zero_add]

/-! ## All sets -/

theorem errors_checkForRepeatedDnnsandNssais (sets : List (PlmnIdSets V)) (resourcePath : String) :
    (checkForRepeatedDnnsandNssais ind sets resourcePath).errors =
      sets.flatMap (repetitionErrors ind resourcePath) := by
  have hlower : LowerCase [] := by simp [LowerCase]
  have hlists : ∀ ls : List (DnnList V),
      (forEach ls fun l => checkRepeatedInDnns resourcePath [] l.dnnDataList).errors =
        ls.flatMap fun l =>
          List.replicate (repetitions (dnnNames l.dnnDataList)) (repeatedDnn resourcePath) := by
    intro ls
    induction ls with
    | nil => rfl
    | cons l ls ih =>
      rw [forEach_cons, errors_append, errors_checkRepeatedInDnns, overruns_one, ih,
        List.flatMap_cons]
  induction sets with
  | nil => rfl
  | cons s sets ih =>
    rw [checkForRepeatedDnnsandNssais] at ih ⊢
    rw [forEach_cons, errors_append, errors_append, errors_checkRepeatedInNssais ind hlower,
      overruns_one, hlists, ih]
    rfl

/-- There are no errors exactly when nothing is repeated. -/
theorem repetitionErrors_eq_nil_iff {sets : List (PlmnIdSets V)} {resourcePath : String} :
    sets.flatMap (repetitionErrors ind resourcePath) = [] ↔ NothingRepeated ind sets := by
  simp only [List.flatMap_eq_nil_iff, repetitionErrors, List.append_eq_nil_iff,
    List.replicate_eq_nil_iff, repetitions_eq_zero_iff, NothingRepeated]

theorem ret_checkForRepeatedDnnsandNssais (sets : List (PlmnIdSets V)) (resourcePath : String) :
    (checkForRepeatedDnnsandNssais ind sets resourcePath).ret = true ↔
      NothingRepeated ind sets := by
  rw [(reports_checkForRepeatedDnnsandNssais ind sets resourcePath).balanced.ret_iff,
    errors_checkForRepeatedDnnsandNssais, repetitionErrors_eq_nil_iff]

/-- **The check for repetitions is exact.** Behind whatever was checked before, the flag stays as
it is when nothing is repeated and is `false` otherwise; each set adds as many errors as its
entries have repetitions, and each of its lists as many as its DNNs have. -/
theorem repetition_check_exact (sets : List (PlmnIdSets V)) (resourcePath : String) :
    let r := checkForRepeatedDnnsandNssais ind sets resourcePath
    ((∀ before : Checked, (before ++ r).ret = before.ret) ↔ NothingRepeated ind sets) ∧
      (∀ before : Checked,
        (before ++ r).ret = if NothingRepeated ind sets then before.ret else false) ∧
      ∀ before : Checked,
        (before ++ r).errors = before.errors ++ sets.flatMap (repetitionErrors ind resourcePath) := by
  intro r
  have hret : r.ret = true ↔ NothingRepeated ind sets :=
    ret_checkForRepeatedDnnsandNssais ind sets resourcePath
  refine ⟨⟨fun h => ?_, fun h before => ?_⟩, fun before => ?_, fun before => ?_⟩
  · have hpass := h pass
    rw [ret_append, ret_pass, Bool.true_and] at hpass
    exact hret.1 hpass
  · rw [ret_append, hret.2 h, Bool.and_true]
  · by_cases hnone : NothingRepeated ind sets
    · rw [if_pos hnone, ret_append, hret.2 hnone, Bool.and_true]
    · have hfalse : r.ret = false := Bool.eq_false_iff.2 fun h => hnone (hret.1 h)
      rw [if_neg hnone, ret_append, hfalse, Bool.and_false]
  · rw [errors_append, errors_checkForRepeatedDnnsandNssais]

end ProvisioningValidator
