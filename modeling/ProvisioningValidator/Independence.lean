import Mathlib
import ProvisioningValidator.ApplyProof

/-!
# Changes are validated independently

What the loop carries after two runs one behind the other is the first put before the second
(`followedBy`). So a run over a list is made of the runs over its parts, and only the list of
accepted changes, which ends at the first change that is refused, depends on what came before.

**Theorem (`changes_validated_independently`).** The flag of `xs ++ ys` is the conjunction of the
flags, its code the larger code, its errors those of `xs` and then those of `ys`, each naming its
change; and another order of the changes gives the same flag and code, and the same errors up to
order.
-/

namespace ProvisioningValidator

open Lib

variable {V : Type}

/-! ## Runs one behind the other -/

namespace ApplyState

/-- What is carried after two runs, from what each carries by itself. -/
def followedBy (a b : ApplyState V) : ApplyState V where
  ret := a.ret && b.ret
  code := max a.code b.code
  response := {
    changes := if a.ret then a.response.changes ++ b.response.changes else a.response.changes
    errors := a.response.errors ++ b.response.errors }

/-- The part of one change. -/
def ofVerdict (v : Verdict) (c : Change V) : ApplyState V where
  ret := v.ret
  code := v.code
  response := { changes := if v.ret then [computeMutations c] else [], errors := v.errors }

theorem followedBy_assoc (a b c : ApplyState V) :
    (a.followedBy b).followedBy c = a.followedBy (b.followedBy c) := by
  unfold followedBy
  cases a.ret <;> cases b.ret <;> simp [max_assoc]

/-- A run that has met nothing leaves what is carried as it is. -/
theorem followedBy_start {a : ApplyState V} (h : httpOk ≤ a.code) :
    a.followedBy {} = a := by
  obtain ⟨ret, code, changes, errors⟩ := a
  have hmax : max code httpOk = code := max_eq_left h
  unfold followedBy
  cases ret <;> simp [hmax]

/-- Flag and code are the same, the errors too up to order. -/
structure SameOutcome (a b : ApplyState V) : Prop where
  ret : a.ret = b.ret
  code : a.code = b.code
  errors : a.response.errors.Perm b.response.errors

theorem SameOutcome.refl (a : ApplyState V) : a.SameOutcome a := ⟨rfl, rfl, .refl _⟩

theorem SameOutcome.trans {a b c : ApplyState V} (h : a.SameOutcome b) (h' : b.SameOutcome c) :
    a.SameOutcome c :=
  ⟨h.ret.trans h'.ret, h.code.trans h'.code, h.errors.trans h'.errors⟩

theorem SameOutcome.followedBy {a a' b b' : ApplyState V} (ha : a.SameOutcome a')
    (hb : b.SameOutcome b') : (a.followedBy b).SameOutcome (a'.followedBy b') where
  ret := by
    show (a.ret && b.ret) = (a'.ret && b'.ret)
    rw [ha.ret, hb.ret]
  code := by
    show max a.code b.code = max a'.code b'.code
    rw [ha.code, hb.code]
  errors := ha.errors.append hb.errors

theorem sameOutcome_comm (a b : ApplyState V) :
    (a.followedBy b).SameOutcome (b.followedBy a) :=
  ⟨Bool.and_comm a.ret b.ret, max_comm a.code b.code, List.perm_append_comm⟩

end ApplyState

open ApplyState

section

variable {ind : Indeterminate} {rr : RelatedResources V}

/-- One turn of the loop puts the part of the change behind what is carried. -/
theorem applyStep_eq (st : ApplyState V) (c : Change V) :
    applyStep ind rr st c = (changeRules ind rr c).map fun v => st.followedBy (ofVerdict v c) := by
  unfold applyStep
  cases changeRules ind rr c with
  | none => rfl
  | some v =>
    show some _ = some _
    unfold followedBy ofVerdict
    cases st.ret <;> cases hv : v.ret <;> simp [hv]

/-- What is carried at the start of a loop stays in front. -/
theorem foldlM_followedBy (a b : ApplyState V) (cs : List (Change V)) :
    cs.foldlM (applyStep ind rr) (a.followedBy b) =
      (cs.foldlM (applyStep ind rr) b).map a.followedBy := by
  induction cs generalizing b with
  | nil => rfl
  | cons c cs ih =>
    rw [List.foldlM_cons, List.foldlM_cons, applyStep_eq, applyStep_eq]
    cases changeRules ind rr c with
    | none => rfl
    | some v =>
      show cs.foldlM (applyStep ind rr) ((a.followedBy b).followedBy (ofVerdict v c)) =
        (cs.foldlM (applyStep ind rr) (b.followedBy (ofVerdict v c))).map a.followedBy
      rw [followedBy_assoc]
      exact ih (b.followedBy (ofVerdict v c))

theorem httpOk_le_code {cs : List (Change V)} {st : ApplyState V}
    (h : applyValidationRules ind rr cs = some st) : httpOk ≤ st.code := by
  have hcode := (agrees_applyValidationRules h).sound.code_mem
  show 200 ≤ st.code
  simp only at hcode
  omega

/-- **The run over `xs ++ ys` is the run over `xs` and then the run over `ys`.** -/
theorem applyValidationRules_append (xs ys : List (Change V)) :
    applyValidationRules ind rr (xs ++ ys) = (applyValidationRules ind rr xs).bind fun a =>
      (applyValidationRules ind rr ys).map a.followedBy := by
  have hsplit : applyValidationRules ind rr (xs ++ ys) = (applyValidationRules ind rr xs).bind
      fun a => ys.foldlM (applyStep ind rr) a := List.foldlM_append
  rw [hsplit]
  refine Option.bind_congr fun a ha => ?_
  have hstart : a.followedBy {} = a := followedBy_start (httpOk_le_code ha)
  rw [← hstart, foldlM_followedBy, hstart]
  rfl

theorem applyValidationRules_cons (c : Change V) (cs : List (Change V)) :
    applyValidationRules ind rr (c :: cs) = (applyValidationRules ind rr [c]).bind fun a =>
      (applyValidationRules ind rr cs).map a.followedBy :=
  applyValidationRules_append [c] cs

/-! ## Errors by change -/

variable (ind rr) in
/-- The errors of a change when it is the only one. -/
def ownErrors (c : Change V) : List Error :=
  (applyValidationRules ind rr [c]).elim [] (·.response.errors)

/-- A run over one change. -/
theorem run_singleton {c : Change V} {a : ApplyState V}
    (h : applyValidationRules ind rr [c] = some a) :
    a.response.errors = ownErrors ind rr c ∧
      ∀ e ∈ ownErrors ind rr c, e.errorDetails.find? "resource_path" = some c.resourcePath := by
  have hown : a.response.errors = ownErrors ind rr c := by simp [ownErrors, h]
  refine ⟨hown, fun e he => ?_⟩
  rw [← hown] at he
  obtain ⟨st, hst, ha⟩ := Option.bind_eq_some_iff.1 h
  rw [applyStep_eq] at hst
  obtain ⟨v, hv, rfl⟩ := Option.map_eq_some_iff.1 hst
  obtain rfl := Option.some.inj ha
  exact (soundAt_changeRules hv).located e he

/-- **The errors of a run are those of its changes, each naming its change.** -/
theorem errors_of_run {cs : List (Change V)} {st : ApplyState V}
    (h : applyValidationRules ind rr cs = some st) :
    st.response.errors = cs.flatMap (ownErrors ind rr) ∧
      ∀ c ∈ cs, ∀ e ∈ ownErrors ind rr c,
        e.errorDetails.find? "resource_path" = some c.resourcePath := by
  induction cs generalizing st with
  | nil =>
    obtain rfl := Option.some.inj h
    simp
  | cons c cs ih =>
    rw [applyValidationRules_cons] at h
    obtain ⟨a, ha, hrest⟩ := Option.bind_eq_some_iff.1 h
    obtain ⟨b, hb, rfl⟩ := Option.map_eq_some_iff.1 hrest
    obtain ⟨herrors, hlocated⟩ := ih hb
    obtain ⟨hown, hown_located⟩ := run_singleton ha
    constructor
    · show a.response.errors ++ b.response.errors = _
      rw [hown, herrors, List.flatMap_cons]
    · intro c' hc'
      rcases List.mem_cons.1 hc' with rfl | hc'
      · exact hown_located
      · exact hlocated c' hc'

/-! ## Other orders -/

/-- **Another order of the changes has the same outcome.** -/
theorem run_perm {cs cs' : List (Change V)} (hp : cs.Perm cs') {a : ApplyState V}
    (h : applyValidationRules ind rr cs = some a) :
    ∃ b, applyValidationRules ind rr cs' = some b ∧ a.SameOutcome b := by
  induction hp generalizing a with
  | nil => exact ⟨a, h, .refl a⟩
  | @cons c cs cs' _ ih =>
    rw [applyValidationRules_cons] at h
    obtain ⟨x, hx, hrest⟩ := Option.bind_eq_some_iff.1 h
    obtain ⟨y, hy, rfl⟩ := Option.map_eq_some_iff.1 hrest
    obtain ⟨y', hy', hsame⟩ := ih hy
    refine ⟨x.followedBy y', ?_, (SameOutcome.refl x).followedBy hsame⟩
    rw [applyValidationRules_cons, hx, Option.bind_some, hy', Option.map_some]
  | swap c d cs =>
    rw [applyValidationRules_cons] at h
    obtain ⟨x, hx, hrest⟩ := Option.bind_eq_some_iff.1 h
    obtain ⟨z, hz, rfl⟩ := Option.map_eq_some_iff.1 hrest
    rw [applyValidationRules_cons] at hz
    obtain ⟨y, hy, hrest⟩ := Option.bind_eq_some_iff.1 hz
    obtain ⟨w, hw, rfl⟩ := Option.map_eq_some_iff.1 hrest
    refine ⟨y.followedBy (x.followedBy w), ?_, ?_⟩
    · rw [applyValidationRules_cons, hy, Option.bind_some, applyValidationRules_cons, hx,
        Option.bind_some, hw, Option.map_some, Option.map_some]
    · rw [← followedBy_assoc, ← followedBy_assoc]
      exact (sameOutcome_comm x y).followedBy (.refl w)
  | trans _ _ ih₁ ih₂ =>
    obtain ⟨b, hb, hab⟩ := ih₁ h
    obtain ⟨d, hd, hbd⟩ := ih₂ hb
    exact ⟨d, hd, hab.trans hbd⟩

/-- **Changes are validated independently of one another.** -/
theorem changes_validated_independently {xs ys : List (Change V)} {a b : ApplyState V}
    (hx : applyValidationRules ind rr xs = some a)
    (hy : applyValidationRules ind rr ys = some b) :
    ∃ st, applyValidationRules ind rr (xs ++ ys) = some st ∧
      st.ret = (a.ret && b.ret) ∧ st.code = max a.code b.code ∧
      st.response.errors = a.response.errors ++ b.response.errors ∧
      st.response.errors = (xs ++ ys).flatMap (ownErrors ind rr) ∧
      (∀ c ∈ xs ++ ys, ∀ e ∈ ownErrors ind rr c,
        e.errorDetails.find? "resource_path" = some c.resourcePath) ∧
      ∀ zs, (xs ++ ys).Perm zs → ∃ st', applyValidationRules ind rr zs = some st' ∧
        st'.ret = st.ret ∧ st'.code = st.code ∧
        st'.response.errors.Perm st.response.errors := by
  have hrun : applyValidationRules ind rr (xs ++ ys) = some (a.followedBy b) := by
    rw [applyValidationRules_append, hx, Option.bind_some, hy, Option.map_some]
  obtain ⟨herrors, hlocated⟩ := errors_of_run hrun
  refine ⟨a.followedBy b, hrun, rfl, rfl, rfl, herrors, hlocated, fun zs hzs => ?_⟩
  obtain ⟨st', hst', hsame⟩ := run_perm hzs hrun
  exact ⟨st', hst', hsame.ret.symm, hsame.code.symm, hsame.errors.symm⟩

end

/-- A deletion is accepted next to a change that no rule is for. -/
theorem changes_validated_independently_deletion :
    ∃ st, applyValidationRules ⟨0, false⟩ (∅ : RelatedResources Json)
        ([{ operation := jsonOperationDelete, resourcePath := "y" }] ++
          [{ operation := jsonOperationCreate, resourcePath := "x" }]) = some st ∧
      st.ret = false ∧ st.code = httpUnprocessableEntity ∧
      st.response.errors = [unprocessableEntity "x" notPerformed] := by
  have hx : applyValidationRules ⟨0, false⟩ (∅ : RelatedResources Json)
      [{ operation := jsonOperationDelete, resourcePath := "y" }] =
      some ⟨true, 200, ⟨[{ operation := jsonOperationDelete, resourcePath := "y" }], []⟩⟩ := by
    rfl
  have hy : applyValidationRules ⟨0, false⟩ (∅ : RelatedResources Json)
      [{ operation := jsonOperationCreate, resourcePath := "x" }] =
      some ⟨false, 422, ⟨[], [unprocessableEntity "x" notPerformed]⟩⟩ := by
    rfl
  obtain ⟨st, hst, hret, hcode, herrors, -⟩ := changes_validated_independently hx hy
  exact ⟨st, hst, hret, hcode, herrors⟩

end ProvisioningValidator
