import Mathlib
import ProvisioningValidator.AccessorSafety
import ProvisioningValidator.Answers

/-!
# All or nothing

An answer refuses the request with one error object, or lists errors and nothing else, or echoes
every change of the request. The parser reads names and texts up to their first NUL, so the last of
these needs that operation and path of every change survive that: `answer_all_or_nothing`.
-/

namespace ProvisioningValidator

open Lib Lib.Run

/-! ## The three kinds of answers -/

/-- Status 400 and one error object. -/
def Refused (a : Answer) : Prop := a.status = httpBadRequest ∧ ∃ e : Error, a.body = errorToJson e

/-- Status 409 or 422 and a list of errors, and nothing else. -/
def Rejected (a : Answer) : Prop :=
  (a.status = httpConflict ∨ a.status = httpUnprocessableEntity) ∧
    ∃ errors : List Error, errors ≠ [] ∧ a.body = .obj [(jsonErrors, .arr (errors.map errorToJson))]

/-- An element of the response stands for an element of the request. -/
structure Echoes (x y : Json) : Prop where
  operation : y.member? jsonOperation = x.member? jsonOperation
  resourcePath : y.member? jsonResourcePath = x.member? jsonResourcePath
  data : (y.member? jsonData).isSome = true ↔
    x.member? jsonOperation ≠ some (.str jsonOperationDelete)

/-- Status 200 and, if there were changes, all of them in their order. -/
structure Accepted (doc : Json) (a : Answer) : Prop where
  status : a.status = httpOk
  noErrors : a.body.IsObject ∧ a.body.member? jsonErrors = none
  changes : requestChanges doc ≠ [] → ∃ ys, a.body.member? jsonChanges = some (.arr ys) ∧
    List.Forall₂ Echoes (requestChanges doc) ys

/-- Operation and path of every change are what the parser makes of them: the last members whose
names are read as theirs, with texts without a NUL. -/
def PlainChanges (doc : Json) : Prop := ∀ x ∈ requestChanges doc,
  x.member? jsonOperation = some (.str (changeText jsonOperation x)) ∧
    x.member? jsonResourcePath = some (.str (changeText jsonResourcePath x))

/-! ## What is echoed -/

variable (ind : Indeterminate)

theorem cstr_textOf (v : Json) : cstr (textOf v) = textOf v := by
  cases v with
  | str s => exact cstr_cstr s
  | _ => exact cstr_empty

theorem cstr_lastText (key : String) {start : String} (h : cstr start = start)
    (ms : List (String × Json)) : cstr (lastText key start ms) = lastText key start ms := by
  induction ms generalizing start with
  | nil => exact h
  | cons m ms ih =>
    refine ih ?_
    dsimp only
    split_ifs
    · exact cstr_textOf m.2
    · exact h

theorem cstr_changeText (key : String) (x : Json) : cstr (changeText key x) = changeText key x :=
  cstr_lastText key cstr_empty _

/-- The echo of a change with the operation and the path that the parser has made out. -/
theorem member_changeToJson {x : Json} {c : Change Json}
    (hop : c.operation = changeText jsonOperation x)
    (hpath : c.resourcePath = changeText jsonResourcePath x) :
    (changeToJson ind c).member? jsonOperation = some (.str (changeText jsonOperation x)) ∧
      (changeToJson ind c).member? jsonResourcePath =
        some (.str (changeText jsonResourcePath x)) ∧
      (((changeToJson ind c).member? jsonData).isSome = true ↔
        changeText jsonOperation x ≠ jsonOperationDelete) := by
  rw [changeToJson, hop, hpath, cstr_changeText, cstr_changeText]
  refine ⟨rfl, rfl, ?_⟩
  by_cases h : changeText jsonOperation x = jsonOperationDelete
  · rw [h, bne_self_eq_false]
    refine iff_of_false (fun hdata => ?_) (fun hne => hne rfl)
    cases hdata
  · refine iff_of_true ?_ h
    have hflag : (changeText jsonOperation x != jsonOperationDelete) = true := by simpa using h
    rw [hflag]
    rfl

theorem echoes_iff {x : Json} {c : Change Json} (hop : c.operation = changeText jsonOperation x)
    (hpath : c.resourcePath = changeText jsonResourcePath x) :
    Echoes x (changeToJson ind c) ↔
      x.member? jsonOperation = some (.str (changeText jsonOperation x)) ∧
        x.member? jsonResourcePath = some (.str (changeText jsonResourcePath x)) := by
  obtain ⟨hop', hpath', hdata'⟩ := member_changeToJson ind hop hpath
  constructor
  · intro h
    exact ⟨h.operation.symm.trans hop', h.resourcePath.symm.trans hpath'⟩
  · intro h
    refine ⟨hop'.trans h.1.symm, hpath'.trans h.2.symm, ?_⟩
    rw [hdata', h.1]
    simp

/-! ## The answer -/

variable {oai : OaiValidator} {ind} {doc : Json} {a : Answer}

theorem rejected_of_errors {status : Nat} {response : Response Json}
    (hstatus : status = httpConflict ∨ status = httpUnprocessableEntity)
    (herrors : response.errors ≠ []) :
    Rejected ⟨status, validatorResponseToJson ind response⟩ := by
  refine ⟨hstatus, response.errors, herrors, ?_⟩
  rw [validatorResponseToJson, if_neg herrors]

/-- An answer with another status than 200 refuses or rejects the request. -/
theorem refused_or_rejected (h : Answered oai ind doc a) (hok : a.status ≠ httpOk) :
    Refused a ∨ Rejected a := by
  cases h with
  | notAdmitted reason h => exact Or.inl ⟨rfl, _, rfl⟩
  | notRead data events h hret => exact Or.inl ⟨rfl, _, rfl⟩
  | refusedByParser data events h hret herrors =>
    exact Or.inr (rejected_of_errors (Or.inl rfl) herrors)
  | decided data events st h =>
    have hsound := (agrees_applyValidationRules h.rules).sound
    by_cases hret : st.ret = true
    · simp [hret] at hok
    · have hcode : st.code ≠ 200 := fun hcode => hret (hsound.code_ok.1 hcode)
      have herrors : st.response.errors ≠ [] := fun herrors => hret (hsound.ret_iff.2 herrors)
      rw [if_neg hret]
      exact Or.inr (rejected_of_errors (hsound.code_mem.resolve_left hcode) herrors)

/-- The body of a request that is accepted. -/
theorem accepted_body {data : ValidationData Json} {events : List Event} {st : ApplyState Json}
    (h : AnsweredOk ind doc a data events st) : a.body = .obj (listToJson
      (data.changes.map computeMutations) jsonChanges (changeToJson ind)) := by
  rw [h.body, validatorResponseToJson, if_pos h.errors, h.changes]

theorem exists_of_forall₂ {A B : Type} {R : A → B → Prop} {xs : List A} {ys : List B}
    (h : List.Forall₂ R xs ys) : ∀ y ∈ ys, ∃ x ∈ xs, R x y := by
  induction h with
  | nil => simp
  | @cons x y xs ys hxy _ ih =>
    intro z hz
    rcases List.mem_cons.1 hz with rfl | hz
    · exact ⟨x, List.mem_cons_self, hxy⟩
    · obtain ⟨x', hx', hR⟩ := ih z hz
      exact ⟨x', List.mem_cons_of_mem _ hx', hR⟩

theorem forall₂_iff_of_forall₂ {A B : Type} {R S : A → B → Prop} {P : A → Prop} {xs : List A}
    {ys : List B} (h : List.Forall₂ R xs ys) (hS : ∀ x y, R x y → (S x y ↔ P x)) :
    List.Forall₂ S xs ys ↔ ∀ x ∈ xs, P x := by
  induction h with
  | nil => simp
  | cons hxy _ ih => rw [List.forall₂_cons, List.forall_mem_cons, hS _ _ hxy, ih]

theorem accepted_iff (h : handleHttp2Request oai ind (some doc) = some a)
    (hok : a.status = httpOk) : Accepted doc a ↔ PlainChanges doc := by
  obtain ⟨data, events, st, hst⟩ := answeredOk h hok
  have hbody := accepted_body hst
  have hchanges := (result_getValidationData hst.yields).2 hst.ret
  have hheader : List.Forall₂ (fun x c => c.operation = changeText jsonOperation x ∧
      c.resourcePath = changeText jsonResourcePath x) (requestChanges doc)
      (data.changes.map computeMutations) := by
    rw [List.forall₂_map_right_iff]
    refine hchanges.imp fun x c hc => ?_
    rw [operation_computeMutations, resourcePath_computeMutations]
    exact hc
  have hcount : requestChanges doc = [] ↔ data.changes.map computeMutations = [] := by
    rw [← List.length_eq_zero_iff, hheader.length_eq, List.length_eq_zero_iff]
  have hiff : List.Forall₂ Echoes (requestChanges doc)
      ((data.changes.map computeMutations).map (changeToJson ind)) ↔ PlainChanges doc := by
    rw [List.forall₂_map_right_iff]
    exact forall₂_iff_of_forall₂ hheader fun x c hc => echoes_iff ind hc.1 hc.2
  constructor
  · intro h
    by_cases hnone : requestChanges doc = []
    · simp [PlainChanges, hnone]
    · obtain ⟨ys, hys, hechoes⟩ := h.changes hnone
      rw [hbody, listToJson, if_neg (fun hmap => hnone (hcount.2 hmap))] at hys
      have heq := Json.arr.inj (Option.some.inj hys)
      exact hiff.1 (heq ▸ hechoes)
  · intro hplain
    refine ⟨hok, ?_, fun hsome => ?_⟩
    · rw [hbody, listToJson]
      split_ifs <;> exact ⟨⟨_, rfl⟩, rfl⟩
    · rw [hbody, listToJson, if_neg (fun hmap => hsome (hcount.2 hmap))]
      exact ⟨_, rfl, hiff.2 hplain⟩

/-- An answer is of exactly one kind, since the kinds have different statuses. -/
def AllOrNothing (doc : Json) (a : Answer) : Prop := Refused a ∨ Rejected a ∨ Accepted doc a

/-- **Every answer refuses the request, or rejects it, or accepts it as a whole.** The last needs the
operation and the path of every change to be what the parser makes of them. -/
theorem answer_all_or_nothing (h : handleHttp2Request oai ind (some doc) = some a)
    (hpass : a.status ≠ httpInternalServerError) :
    (a.status ≠ httpOk → AllOrNothing doc a) ∧
      (a.status = httpOk → (AllOrNothing doc a ↔ PlainChanges doc)) := by
  refine ⟨fun hok => ?_, fun hok => ?_⟩
  · exact (refused_or_rejected (answered h hpass) hok).imp_right Or.inl
  · have hrefused : ¬ Refused a := fun hrefused => by
      have hstatus := hok.symm.trans hrefused.1
      cases hstatus
    have hrejected : ¬ Rejected a := fun hrejected => by
      rcases hrejected.1 with hstatus | hstatus <;> cases hok.symm.trans hstatus
    rw [AllOrNothing, or_iff_right hrefused, or_iff_right hrejected]
    exact accepted_iff h hok

/-- A check that lets every request and every response pass. -/
def passAll : OaiValidator := ⟨fun _ => none, fun _ _ => none⟩

/-- A request that deletes one resource. -/
def oneDeletion (resourcePath : String) : Json :=
  .obj [("changes", .arr [.obj [("operation", .str "DELETE"),
    ("resource_path", .str resourcePath)]])]

theorem admitted_oneDeletion (resourcePath : String) : Admitted (oneDeletion resourcePath) :=
  .single ⟨_, rfl⟩ rfl
    ⟨⟨"DELETE", rfl, Or.inr (Or.inr rfl)⟩, ⟨resourcePath, rfl⟩, fun d hd => by cases hd⟩
    fun w hw => by cases hw

/-- A deletion is echoed as it was. -/
theorem answer_all_or_nothing_deletion : ∃ a, handleHttp2Request passAll ⟨0, false⟩
      (some (oneDeletion "/profiles/udmProfiles/udmSliceProfiles/a")) = some a ∧
    AllOrNothing (oneDeletion "/profiles/udmProfiles/udmSliceProfiles/a") a := by
  refine ⟨_, rfl, ?_⟩
  refine ((@answer_all_or_nothing ⟨0, false⟩ passAll _ _ rfl (by decide)).2 rfl).2 ?_
  intro x hx
  have hx' : x = .obj [("operation", .str "DELETE"),
    ("resource_path", .str "/profiles/udmProfiles/udmSliceProfiles/a")] := List.mem_singleton.1 hx
  subst hx'
  exact ⟨rfl, rfl⟩

/-- With a NUL in the path, what follows it is not echoed. -/
theorem path_cut_at_nul : ∃ doc a, Admitted doc ∧
    handleHttp2Request passAll ⟨0, false⟩ (some doc) = some a ∧ a.status = httpOk ∧
      ¬ AllOrNothing doc a := by
  refine ⟨oneDeletion "/profiles/udmProfiles/udmSliceProfiles/a\x00b", _,
    admitted_oneDeletion _, rfl, rfl, fun h => ?_⟩
  rcases h with hrefused | hrejected | haccepted
  · cases hrefused.1
  · rcases hrejected.1 with hstatus | hstatus <;> cases hstatus
  · obtain ⟨ys, hys, hechoes⟩ := haccepted.changes (List.cons_ne_nil _ _)
    have hys' : ys = [.obj [("operation", .str "DELETE"),
        ("resource_path", .str "/profiles/udmProfiles/udmSliceProfiles/a")]] :=
      (Json.arr.inj (Option.some.inj hys)).symm
    subst hys'
    have hpath := (List.forall₂_cons.1 hechoes).1.resourcePath
    have heq : "/profiles/udmProfiles/udmSliceProfiles/a" =
        "/profiles/udmProfiles/udmSliceProfiles/a\x00b" := Json.str.inj (Option.some.inj hpath)
    exact absurd heq (by decide)

end ProvisioningValidator
