import Mathlib
import ProvisioningValidator.Apply

/-!
# Verdict, code, errors and accepted changes agree

About sixty branches of the rules each have to set the flag and append an error. `Reports` says
that a group of rules does both or neither, always about the same resource; `Verdict.SoundAt` adds
the code. Each rule function has one lemma, and the loop keeps the relation (`Agrees`) between what
it has carried so far and the changes it has met:

* `agrees_step` — one turn of the loop;
* `agrees_run` — a whole run;
* `applyValidationRules_agrees` — what callers can rely on.
-/

namespace ProvisioningValidator

open Lib Checked

variable {V : Type}

/-! ## The groups of rules -/

@[simp] theorem reports_checkRepeated (description resourcePath : String) (list : List String)
    (elem : String) :
    (checkRepeated description resourcePath list elem).1.Reports resourcePath := by
  rw [checkRepeated]
  split_ifs <;> simp

@[simp] theorem reports_checkSscRepeated (resourcePath : String) (list : List String)
    (elem : String) : (checkSscRepeated resourcePath list elem).1.Reports resourcePath :=
  reports_checkRepeated _ _ _ _

@[simp] theorem reports_checkPduSessionTypeRepeated (resourcePath : String)
    (list : List String) (elem : String) :
    (checkPduSessionTypeRepeated resourcePath list elem).1.Reports resourcePath :=
  reports_checkRepeated _ _ _ _

@[simp] theorem reports_checkDefaultMode {resourcePath field parent elem : String}
    {valid : List String} {repeated : List String → String → Checked × List String}
    (h : ∀ met x, (repeated met x).1.Reports resourcePath) :
    (checkDefaultMode resourcePath field parent elem valid repeated).1.Reports resourcePath := by
  rw [checkDefaultMode]
  split_ifs
  · exact reports_violation _
  · exact h _ _
  · exact reports_violation _

@[simp] theorem reports_checkAllowedModes {resourcePath field parent : String}
    {valid : List String} {repeated : List String → String → Checked × List String}
    (h : ∀ met x, (repeated met x).1.Reports resourcePath) (met xs : List String) :
    (checkAllowedModes resourcePath field parent valid repeated met xs).Reports resourcePath := by
  induction xs generalizing met with
  | nil => exact reports_pass
  | cons x xs ih =>
    rw [checkAllowedModes]
    split_ifs
    · exact reports_append (h met x) (ih _)
    · exact reports_append (reports_violation _) (ih met)

@[simp] theorem reports_sscModesRules (resourcePath : String) (m : SscModes V) :
    (sscModesRules resourcePath m).Reports resourcePath := by
  refine reports_inOrder ?_
  simp only [List.forall_mem_cons, List.not_mem_nil, false_implies, implies_true, and_true]
  exact ⟨by simp, reports_guard _ (reports_ite (by simp) (by simp))⟩

@[simp] theorem reports_pduSessionTypesRules (resourcePath : String) (has : Bool)
    (t : PduSessionTypes V) : (pduSessionTypesRules resourcePath has t).Reports resourcePath := by
  refine reports_inOrder ?_
  simp only [List.forall_mem_cons, List.not_mem_nil, false_implies, implies_true, and_true]
  exact ⟨by simp, reports_guard _ (reports_ite (by simp) (by simp))⟩

@[simp] theorem reports_formatRule (resourcePath field parent s : String)
    (valid : String → Bool) :
    (formatRule resourcePath field parent s valid).Reports resourcePath :=
  reports_failIf _ _

@[simp] theorem reports_sessionAmbrRules (resourcePath : String) (ambr : Ambr V) :
    (sessionAmbrRules resourcePath ambr).Reports resourcePath := by
  refine reports_inOrder ?_
  simp

@[simp] theorem reports_upSecurityRules (resourcePath : String) (s : UpSecurity V) :
    (upSecurityRules resourcePath s).Reports resourcePath := by
  refine reports_inOrder ?_
  simp

@[simp] theorem reports_smfListRules (resourcePath : String) (smfList : List String) :
    (smfListRules resourcePath smfList).Reports resourcePath := by
  refine reports_inOrder ?_
  simp

section

variable (ind : Indeterminate)

@[simp] theorem reports_fivegQosProfileRules (resourcePath : String) (p : FivegQosProfile V) :
    (fivegQosProfileRules ind resourcePath p).Reports resourcePath := by
  refine reports_inOrder ?_
  simp

@[simp] theorem reports_dnnDataRules (resourcePath : String) (d : DnnData V) :
    (dnnDataRules ind resourcePath d).Reports resourcePath := by
  refine reports_inOrder ?_
  simp

@[simp] theorem reports_dnnListRules (resourcePath : String) (l : DnnList V) :
    (dnnListRules ind resourcePath l).Reports resourcePath := by
  refine reports_inOrder ?_
  simp

@[simp] theorem reports_nssaiDetailsRules (resourcePath parent : String) (n : NssaiDetails V) :
    (nssaiDetailsRules ind resourcePath parent n).Reports resourcePath := by
  refine reports_inOrder ?_
  simp

@[simp] theorem reports_plmnIdSetRules (isSliceProfile : Bool) (resourcePath : String)
    (s : PlmnIdSets V) :
    (plmnIdSetRules ind isSliceProfile resourcePath s).Reports resourcePath := by
  refine reports_inOrder ?_
  simp only [List.forall_mem_cons, List.not_mem_nil, false_implies, implies_true, and_true]
  refine ⟨by simp, by simp, by simp, reports_guard _ (reports_inOrder ?_), by simp⟩
  simp

@[simp] theorem reports_checkForCommonUdmSliceProfileRules (plmnIdSets : List (PlmnIdSets V))
    (isSliceProfile : Bool) (resourcePath : String) :
    (checkForCommonUdmSliceProfileRules ind plmnIdSets isSliceProfile resourcePath).Reports
      resourcePath := by
  refine reports_inOrder ?_
  simp

@[simp] theorem reports_checkRepeatedInNssais (resourcePath : String)
    (met : List (Int × String)) (ns : List (NssaiDetails V)) :
    (checkRepeatedInNssais ind resourcePath met ns).Reports resourcePath := by
  induction ns generalizing met with
  | nil => exact reports_pass
  | cons n ns ih =>
    refine reports_append ?_ (ih _)
    unfold checkForRepeatedNssais
    simp only
    split_ifs <;> simp

@[simp] theorem reports_checkRepeatedInDnns (resourcePath : String) (met : List String)
    (ds : List (DnnData V)) : (checkRepeatedInDnns resourcePath met ds).Reports resourcePath := by
  induction ds generalizing met with
  | nil => exact reports_pass
  | cons d ds ih =>
    unfold checkRepeatedInDnns
    simp only
    split_ifs
    · exact reports_append (reports_violation _) (ih met)
    · exact ih _
    · exact ih met

@[simp] theorem reports_checkForRepeatedDnnsandNssais (plmnIdSets : List (PlmnIdSets V))
    (resourcePath : String) :
    (checkForRepeatedDnnsandNssais ind plmnIdSets resourcePath).Reports resourcePath := by
  refine reports_forEach fun s => ?_
  simp

@[simp] theorem reports_checkRepeatedInNssaisOnUpdate (resourcePath : String)
    (stored : OrdMap (String ×ₗ String) (List (Int × String × String))) (plmnId : String)
    (met : List (Int × String)) (ns : List (String × NssaiDetails V)) :
    (checkRepeatedInNssaisOnUpdate ind resourcePath stored plmnId met ns).Reports resourcePath := by
  induction ns generalizing met with
  | nil => exact reports_pass
  | cons n ns ih =>
    refine reports_append ?_ (ih _)
    unfold checkForRepeatedNssaisOnUpdate
    simp only
    split_ifs <;> simp

@[simp] theorem reports_checkRepeatedInDnnsOnUpdate (resourcePath : String)
    (stored met : List String) (ds : List (DnnData V)) :
    (checkRepeatedInDnnsOnUpdate resourcePath stored met ds).Reports resourcePath := by
  induction ds generalizing met with
  | nil => exact reports_pass
  | cons d ds ih => simp [checkRepeatedInDnnsOnUpdate, ih]

@[simp] theorem reports_checkDeletedDnnLists (resourcePath : String)
    (onChange : MultiMap String String) (relResource : UdmSliceProfile V) :
    (checkDeletedDnnLists resourcePath onChange relResource).Reports resourcePath := by
  refine reports_forEach fun s => reports_forEach fun l => ?_
  simp

@[simp] theorem reports_checkForUpdateSpecificUdmSliceProfileRules (change : Change V)
    (relResource : UdmSliceProfile V) :
    (checkForUpdateSpecificUdmSliceProfileRules ind change relResource).Reports
      change.resourcePath := by
  refine reports_append (reports_forEach fun s => ?_) (by simp)
  simp

/-! ## Subscriptions and roaming areas -/

@[simp] theorem reports_sliceDataReferenceRules (resourcePath : String)
    (plmnIdSets : List (PlmnIdSets V)) (sliceProfile : UdmSliceProfile V) :
    (sliceDataReferenceRules resourcePath plmnIdSets sliceProfile).Reports resourcePath := by
  refine reports_forEach fun a => ?_
  simp

@[simp] theorem reports_udmSliceDataRules (resourcePath : String)
    (plmnIdSets : List (PlmnIdSets V)) (sliceProfile : UdmSliceProfile V) :
    (udmSliceDataRules ind resourcePath plmnIdSets sliceProfile).Reports resourcePath := by
  refine reports_inOrder ?_
  simp

@[simp] theorem reports_serviceAreaRestrictionRules (resourcePath : String) (has : Bool)
    (r : ServiceAreaRestriction V) :
    (serviceAreaRestrictionRules resourcePath has r).Reports resourcePath := by
  refine reports_inOrder ?_
  simp

@[simp] theorem reports_subscribedUeAmbrRules (resourcePath : String) (ambr : Ambr V) :
    (subscribedUeAmbrRules resourcePath ambr).Reports resourcePath := by
  refine reports_inOrder ?_
  simp

@[simp] theorem reports_enumeratedRules (resourcePath field : String) (valid xs : List String) :
    (enumeratedRules resourcePath field valid xs).Reports resourcePath := by
  refine reports_forEach fun x => ?_
  simp

@[simp] theorem reports_dnnIpsRules (resourcePath : String) (d : DnnIps V) :
    (dnnIpsRules resourcePath d).Reports resourcePath := by
  refine reports_inOrder ?_
  simp

@[simp] theorem reports_nssaiDnnIpsRules (resourcePath : String) (n : NssaiDnnIps V) :
    (nssaiDnnIpsRules ind resourcePath n).Reports resourcePath := by
  refine reports_inOrder ?_
  simp

@[simp] theorem reports_checkForCommonUdmSubscriptionRules (change : Change V)
    (sliceProfile : UdmSliceProfile V) :
    (checkForCommonUdmSubscriptionRules ind change sliceProfile).Reports change.resourcePath := by
  refine reports_inOrder ?_
  simp

end

@[simp] theorem reports_areaRules (resourcePath : String) (a : AreaList V) :
    (areaRules resourcePath a).Reports resourcePath := by
  unfold areaRules
  split
  · exact reports_pass
  · refine reports_inOrder ?_
    simp

@[simp] theorem reports_checkForCommonUdmRoamingAreaRules (change : Change V) :
    (checkForCommonUdmRoamingAreaRules change).Reports change.resourcePath := by
  refine reports_inOrder ?_
  simp

/-! ## Verdicts -/

/-- The three parts of a verdict agree. -/
structure Verdict.Sound (v : Verdict) : Prop where
  ret_iff : v.ret = true ↔ v.errors = []
  code_mem : v.code = 200 ∨ v.code = 409 ∨ v.code = 422
  code_ok : v.code = 200 ↔ v.ret = true
  code_unprocessable : v.code = 422 ↔ ∃ e ∈ v.errors, e.errorMessage = "Unprocessable entity"

/-- The parts agree, and every error names the resource. -/
structure Verdict.SoundAt (resourcePath : String) (v : Verdict) : Prop extends v.Sound where
  located : ∀ e ∈ v.errors, e.errorDetails.find? "resource_path" = some resourcePath

theorem sound_accept : Verdict.Sound ⟨true, httpOk, []⟩ :=
  ⟨by simp, by simp, by simp, by simp⟩

theorem soundAt_accept (resourcePath : String) :
    Verdict.SoundAt resourcePath ⟨true, httpOk, []⟩ :=
  ⟨sound_accept, by simp⟩

/-- Errors that were found before leave an unprocessable verdict sound. -/
theorem soundAt_unprocessable_after {errors : List Error} {resourcePath : String}
    (h : ∀ e ∈ errors, e.errorDetails.find? "resource_path" = some resourcePath)
    (description : String) :
    ((unprocessable resourcePath description).after errors).SoundAt resourcePath where
  ret_iff := by simp [unprocessable, Verdict.after]
  code_mem := by simp [unprocessable, Verdict.after]
  code_ok := by simp [unprocessable, Verdict.after]
  code_unprocessable := by simp [unprocessable, Verdict.after]
  located := by
    intro e he
    rcases List.mem_append.1 he with he | he
    · exact h e he
    · obtain rfl := List.mem_singleton.1 he
      exact find?_resourcePath_mkError _ resourcePath description

theorem soundAt_unprocessable (resourcePath description : String) :
    (unprocessable resourcePath description).SoundAt resourcePath :=
  @soundAt_unprocessable_after [] resourcePath (by simp) description

theorem Checked.Balanced.not_unprocessable {r : Checked} (hr : r.Balanced) :
    ¬ ∃ e ∈ r.errors, e.errorMessage = "Unprocessable entity" := by
  intro h
  obtain ⟨e, he, hmsg⟩ := h
  rw [hr.message e he] at hmsg
  simp at hmsg

theorem sound_verdict {r : Checked} (hr : r.Balanced) : r.verdict.Sound := by
  have hnot := hr.not_unprocessable
  refine ⟨hr.ret_iff, ?_, ?_, ?_⟩ <;>
    cases hret : r.ret <;> simp_all [Checked.verdict]

theorem soundAt_verdict {r : Checked} {resourcePath : String} (hr : r.Reports resourcePath) :
    r.verdict.SoundAt resourcePath :=
  ⟨sound_verdict hr.balanced, hr.resourcePath_eq⟩

theorem sound_worst {v w : Verdict} (hv : v.Sound) (hw : w.Sound) :
    (getWorstResponseCode [v, w]).Sound := by
  obtain ⟨hv₁, hv₂, hv₃, hv₄⟩ := hv
  obtain ⟨hw₁, hw₂, hw₃, hw₄⟩ := hw
  refine ⟨?_, ?_, ?_, ?_⟩
  · simp [getWorstResponseCode, hv₁, hw₁]
  · simp only [getWorstResponseCode, List.foldl_cons, List.foldl_nil, httpOk]
    omega
  · simp only [getWorstResponseCode, List.foldl_cons, List.foldl_nil, httpOk, Bool.true_and,
      Bool.and_eq_true, ← hv₃, ← hw₃]
    omega
  · simp only [getWorstResponseCode, List.foldl_cons, List.foldl_nil, httpOk, List.nil_append,
      List.mem_append, or_and_right, exists_or, ← hv₄, ← hw₄]
    omega

theorem soundAt_worst {v w : Verdict} {resourcePath : String} (hv : v.SoundAt resourcePath)
    (hw : w.SoundAt resourcePath) : (getWorstResponseCode [v, w]).SoundAt resourcePath := by
  refine ⟨sound_worst hv.toSound hw.toSound, fun e he => ?_⟩
  simp only [getWorstResponseCode, List.foldl_cons, List.foldl_nil, List.nil_append,
    List.mem_append] at he
  rcases he with he | he
  · exact hv.located e he
  · exact hw.located e he

/-! ## Rules of one change -/

section

variable {ind : Indeterminate} {rr : RelatedResources V} {c : Change V}

theorem soundAt_subscriptionRulesWithProfile {before : Checked} {v : Verdict}
    (hbefore : before.Reports c.resourcePath)
    (h : subscriptionRulesWithProfile ind rr c before = some v) : v.SoundAt c.resourcePath := by
  unfold subscriptionRulesWithProfile at h
  cases hp : getRelatedUdmSliceProfile rr c.udmStaticData.udmSliceProfileId.id with
  | none => simp [hp] at h
  | some found =>
    cases found with
    | none =>
      simp only [hp, Option.bind_eq_bind, Option.bind_some, Option.pure_def,
        Option.some.injEq] at h
      exact h ▸ soundAt_unprocessable_after hbefore.resourcePath_eq _
    | some sliceProfile =>
      simp only [hp, Option.bind_eq_bind, Option.bind_some, Option.pure_def,
        Option.some.injEq] at h
      exact h ▸ soundAt_verdict (reports_append hbefore (by simp))

theorem reports_checkImsiIsInProvJournal (resourcePath mscId : String) (journal : ProvJournal) :
    (checkImsiIsInProvJournal resourcePath mscId journal).Reports resourcePath :=
  reports_failIf _ _

theorem soundAt_checkForCreationUdmSubscriptionRules {v : Verdict}
    (h : checkForCreationUdmSubscriptionRules ind rr c = some v) : v.SoundAt c.resourcePath := by
  simp only [checkForCreationUdmSubscriptionRules] at h
  split at h
  · simp only [Option.some.injEq] at h
    exact h ▸ soundAt_unprocessable _ _
  · obtain ⟨journal, -, hv⟩ := Option.bind_eq_some_iff.1 h
    exact soundAt_subscriptionRulesWithProfile (reports_checkImsiIsInProvJournal _ _ _) hv

theorem soundAt_checkForUpdateUdmSubscriptionRules {v : Verdict}
    (h : checkForUpdateUdmSubscriptionRules ind rr c = some v) : v.SoundAt c.resourcePath := by
  rw [checkForUpdateUdmSubscriptionRules] at h
  split_ifs at h
  · simp only [Option.some.injEq] at h
    exact h ▸ soundAt_unprocessable _ _
  · exact soundAt_subscriptionRulesWithProfile reports_pass h

theorem reports_commonSliceProfileRules (ind : Indeterminate) (c : Change V) :
    (commonSliceProfileRules ind c).Reports c.resourcePath :=
  reports_guard _ (by simp)

theorem soundAt_checkForUpdateUdmSliceProfileRules {v : Verdict}
    (h : checkForUpdateUdmSliceProfileRules ind rr c = some v) : v.SoundAt c.resourcePath := by
  rw [checkForUpdateUdmSliceProfileRules] at h
  split at h
  · simp only [Option.some.injEq] at h
    exact h ▸ soundAt_unprocessable _ _
  · obtain ⟨relResource, -, hv⟩ := Option.bind_eq_some_iff.1 h
    simp only [Option.pure_def, Option.some.injEq] at hv
    exact hv ▸ soundAt_verdict (reports_append (reports_commonSliceProfileRules ind c) (by simp))

theorem soundAt_checkForUpdateUdmRoamingAreaRules :
    (checkForUpdateUdmRoamingAreaRules rr c).SoundAt c.resourcePath := by
  rw [checkForUpdateUdmRoamingAreaRules]
  split_ifs
  · exact soundAt_unprocessable _ _
  · exact soundAt_verdict (by simp)

theorem soundAt_commonSmsValidationRules :
    (commonSmsValidationRules ind c).SoundAt c.resourcePath := by
  refine soundAt_verdict (reports_inOrder ?_)
  simp [checkSmsSubscribed, checkMtSmsSubscribed, checkMoSmsSubscribed]

theorem soundAt_createSpecificSmsValidationRules {v : Verdict}
    (h : createSpecificSmsValidationRules rr c = some v) : v.SoundAt c.resourcePath := by
  simp only [createSpecificSmsValidationRules] at h
  split at h
  · simp only [Option.some.injEq] at h
    exact h ▸ soundAt_unprocessable _ _
  · obtain ⟨journal, -, hv⟩ := Option.bind_eq_some_iff.1 h
    simp only [Option.pure_def, Option.some.injEq] at hv
    exact hv ▸ soundAt_verdict (reports_checkImsiIsInProvJournal _ _ _)

theorem soundAt_updateSpecificSmsValidationRules :
    (updateSpecificSmsValidationRules rr c).SoundAt c.resourcePath := by
  rw [updateSpecificSmsValidationRules]
  split_ifs
  · exact soundAt_accept _
  · exact soundAt_unprocessable _ _

theorem soundAt_smsValidationData {v : Verdict} (h : smsValidationData ind rr c = some v) :
    v.SoundAt c.resourcePath := by
  rw [smsValidationData] at h
  split_ifs at h
  · simp only [Option.some.injEq] at h
    exact h ▸ soundAt_worst soundAt_commonSmsValidationRules
      soundAt_updateSpecificSmsValidationRules
  · obtain ⟨create, hcreate, hv⟩ := Option.bind_eq_some_iff.1 h
    simp only [Option.pure_def, Option.some.injEq] at hv
    exact hv ▸ soundAt_worst soundAt_commonSmsValidationRules
      (soundAt_createSpecificSmsValidationRules hcreate)
  · simp only [Option.some.injEq] at h
    exact h ▸ soundAt_accept _

/-- **Every rule function that returns gives a verdict whose parts agree, about its change.** -/
theorem soundAt_changeRules {v : Verdict} (h : changeRules ind rr c = some v) :
    v.SoundAt c.resourcePath := by
  rw [changeRules] at h
  split_ifs at h
  · exact soundAt_checkForCreationUdmSubscriptionRules h
  · exact soundAt_checkForUpdateUdmSubscriptionRules h
  · simp only [Option.some.injEq] at h
    exact h ▸ soundAt_verdict (reports_append (reports_commonSliceProfileRules ind c)
      (by simp [checkForCreationSpecificUdmSliceProfileRules]))
  · exact soundAt_checkForUpdateUdmSliceProfileRules h
  · simp only [Option.some.injEq] at h
    exact h ▸ soundAt_verdict (by simp)
  · simp only [Option.some.injEq] at h
    exact h ▸ soundAt_checkForUpdateUdmRoamingAreaRules
  · exact soundAt_smsValidationData h
  · simp only [Option.some.injEq] at h
    exact h ▸ soundAt_unprocessable _ _
  · simp only [Option.some.injEq] at h
    exact h ▸ soundAt_accept _

end

/-! ## The loop -/

section

variable (ind : Indeterminate) (rr : RelatedResources V)

/-- The change is accepted when it is the only one. -/
def accepted (c : Change V) : Bool := (applyValidationRules ind rr [c]).any (·.ret)

theorem accepted_eq {c : Change V} {v : Verdict} (h : changeRules ind rr c = some v) :
    accepted ind rr c = v.ret := by
  simp [accepted, applyValidationRules, applyStep, h]

/-- What the loop carries fits the changes it has met. -/
structure Agrees (done : List (Change V)) (st : ApplyState V) : Prop where
  sound : Verdict.Sound ⟨st.ret, st.code, st.response.errors⟩
  ret_iff : st.ret = true ↔ ∀ c ∈ done, accepted ind rr c = true
  changes : st.response.changes = (done.takeWhile (accepted ind rr)).map computeMutations

theorem agrees_start : Agrees ind rr [] {} :=
  ⟨sound_accept, by simp, rfl⟩

/-- One more change: what was carried and the verdict of the change are combined. -/
theorem agrees_step {done : List (Change V)} {st st' : ApplyState V} {c : Change V}
    (hst : Agrees ind rr done st) (h : applyStep ind rr st c = some st') :
    Agrees ind rr (done ++ [c]) st' := by
  obtain ⟨v, hv, hst'⟩ := Option.bind_eq_some_iff.1 h
  simp only [Option.pure_def, Option.some.injEq] at hst'
  subst hst'
  have hsound : Verdict.Sound ⟨st.ret && v.ret, max st.code v.code,
      st.response.errors ++ v.errors⟩ := by
    have hworst := sound_worst hst.sound (soundAt_changeRules hv).toSound
    have hcode := hst.sound.code_mem
    have hmax : max (max httpOk st.code) v.code = max st.code v.code := by
      simp only [httpOk] at hcode ⊢
      omega
    simpa only [getWorstResponseCode, List.foldl_cons, List.foldl_nil, Bool.true_and,
      List.nil_append, hmax] using hworst
  have hacc := accepted_eq ind rr hv
  refine ⟨hsound, ?_, ?_⟩
  · simp [hst.ret_iff, hacc, or_imp, forall_and]
  · rw [List.takeWhile_append]
    cases hret : st.ret with
    | false =>
      have hlt : ¬ (done.takeWhile (accepted ind rr)).length = done.length := by
        intro hlen
        have hpre : done.takeWhile (accepted ind rr) <+: done := List.takeWhile_prefix _
        have hall := List.takeWhile_eq_self_iff.1 (hpre.eq_of_length hlen)
        rw [hst.ret_iff.2 hall] at hret
        cases hret
      simp [hlt, hst.changes]
    | true =>
      have hall : done.takeWhile (accepted ind rr) = done :=
        List.takeWhile_eq_self_iff.2 (hst.ret_iff.1 hret)
      cases hvret : v.ret <;> simp [hall, hst.changes, hacc, hvret]

/-- **A whole run keeps the agreement.** -/
theorem agrees_run {done changes : List (Change V)} {st st' : ApplyState V}
    (hst : Agrees ind rr done st)
    (h : changes.foldlM (applyStep ind rr) st = some st') :
    Agrees ind rr (done ++ changes) st' := by
  induction changes generalizing done st with
  | nil =>
    simp only [List.foldlM_nil, Option.pure_def, Option.some.injEq] at h
    subst h
    simpa using hst
  | cons c changes ih =>
    rw [List.foldlM_cons] at h
    obtain ⟨st₁, hstep, hrest⟩ := Option.bind_eq_some_iff.1 h
    simpa using ih (agrees_step ind rr hst hstep) hrest

variable {ind rr} in
theorem agrees_applyValidationRules {changes : List (Change V)} {st : ApplyState V}
    (h : applyValidationRules ind rr changes = some st) : Agrees ind rr changes st := by
  simpa using agrees_run ind rr (agrees_start ind rr) h

/-- **Verdict, code, error list and accepted list never disagree.** -/
theorem applyValidationRules_agrees {changes : List (Change V)} {st : ApplyState V}
    (h : applyValidationRules ind rr changes = some st) :
    (st.ret = true ↔ st.response.errors = []) ∧
      (st.ret = true ↔ st.code = httpOk) ∧
      (st.code = httpUnprocessableEntity ↔
        ∃ e ∈ st.response.errors, e.errorMessage = "Unprocessable entity") ∧
      (st.code = httpConflict ↔ st.response.errors ≠ [] ∧
        ∀ e ∈ st.response.errors, e.errorMessage ≠ "Unprocessable entity") ∧
      st.response.changes = (changes.takeWhile (accepted ind rr)).map computeMutations ∧
      (st.ret = true → st.response.changes = changes.map computeMutations) := by
  have hagrees := agrees_applyValidationRules h
  obtain ⟨hret, hmem, hok, hunproc⟩ := hagrees.sound
  simp only at hret hmem hok hunproc
  refine ⟨hret, hok.symm, hunproc, ?_, hagrees.changes, fun htrue => ?_⟩
  · have hnone : (∀ e ∈ st.response.errors, e.errorMessage ≠ "Unprocessable entity") ↔
        st.code ≠ 422 := by
      rw [Ne, hunproc]
      simp only [not_exists, not_and, ne_eq]
    rw [hnone, Ne, ← hret, ← hok, httpConflict]
    omega
  · rw [hagrees.changes, List.takeWhile_eq_self_iff.2 (hagrees.ret_iff.1 htrue)]

/-- A deletion, which is accepted, in front of a change that no rule is for. -/
theorem applyValidationRules_agrees_unknown_path :
    ∃ st, applyValidationRules ⟨0, false⟩ (∅ : RelatedResources Json)
        [{ operation := jsonOperationDelete, resourcePath := "a" },
          { operation := jsonOperationCreate, resourcePath := "b" }] = some st ∧
      st.code = httpUnprocessableEntity ∧ st.ret = false ∧
      st.response.changes = [{ operation := jsonOperationDelete, resourcePath := "a" }] := by
  have hrun : applyValidationRules ⟨0, false⟩ (∅ : RelatedResources Json)
      [{ operation := jsonOperationDelete, resourcePath := "a" },
        { operation := jsonOperationCreate, resourcePath := "b" }] =
      some ⟨false, 422, ⟨[{ operation := jsonOperationDelete, resourcePath := "a" }],
        [unprocessableEntity "b" notPerformed]⟩⟩ := by
    rfl
  obtain ⟨-, -, hunproc, -, -, -⟩ := applyValidationRules_agrees _ _ hrun
  exact ⟨_, hrun, hunproc.2 ⟨_, List.mem_singleton_self _, rfl⟩, rfl, rfl⟩

end

end ProvisioningValidator
