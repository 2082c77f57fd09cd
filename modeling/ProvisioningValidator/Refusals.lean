import Mathlib
import ProvisioningValidator.AllOrNothing

/-!
# Why a request is refused

A body that is no JSON is refused, and one whose changes the parser gives up on. The parser keeps
one text for this and overwrites it; one of its readers sets it too, without giving up on anything.
What the answer says is still determined by the list of changes alone: it is what is wrong with the
first member that cannot be used, in the first change that has one (`requestFault`).

**Theorem (`refused_because`).** A request that passes the check has the answer 400 with this text
if there is one, and no answer 400 otherwise.
-/

namespace ProvisioningValidator

open Lib Lib.Run

variable {A B V : Type} {val : Json → V}

/-! ## What is wrong -/

/-- What is wrong with the operation of a change. -/
def operationFault (value : Json) : Option String :=
  match asString value with
  | some operation =>
    if operation = "" then some (emptyFieldError jsonOperation)
    else if operation = jsonOperationCreate ∨ operation = jsonOperationUpdate ∨
        operation = jsonOperationDelete then none
    else some "operation value is not allowed. It should be either: CREATE, UPDATE or DELETE"
  | none => some (jsonOperation ++ " is not string")

/-- What is wrong with the path of a change. -/
def resourcePathFault (value : Json) : Option String :=
  match asString value with
  | some path => if path = "" then some (emptyFieldError jsonResourcePath) else none
  | none => some (jsonResourcePath ++ " is not string")

/-- What is wrong with a member of a change. -/
def memberFault (m : String × Json) : Option String :=
  if cstr m.1 = jsonOperation then operationFault m.2
  else if cstr m.1 = jsonResourcePath then resourcePathFault m.2
  else if cstr m.1 = jsonData then
    if m.2.IsObject then none else some (jsonData ++ " is not an object")
  else none

/-- What is wrong with an element of `changes`. -/
def changeFault : Json → Option String
  | .obj ms => ms.findSome? memberFault
  | _ => some "change is not an object"

/-- What is wrong with the value of `changes`. -/
def changesFault (changesList : Json) : Option String :=
  match asArray changesList with
  | some changes => changes.findSome? changeFault
  | none => some (jsonChanges ++ " is not a list")

/-- What is wrong with a body, `none` for one that is not JSON. -/
def requestFault : Option Json → Option String
  | none => some "wrong json format"
  | some doc => (doc.member? jsonChanges).bind changesFault

theorem requestFault_some (doc : Json) :
    requestFault (some doc) = (doc.member? jsonChanges).bind changesFault := rfl

/-! ## Giving up -/

/-- The last thing that `m` does is to set the flag of the parser. -/
def GivesUp (err : String) (m : ParserM A) : Prop :=
  ∃ before : ParserM A, m = before >>= fun a => setParsingError err >>= fun _ => pure a

theorem givesUp_set (err : String) (a : A) :
    GivesUp err (setParsingError err >>= fun _ => pure a) :=
  ⟨pure a, (pure_bind a fun a => setParsingError err >>= fun _ => pure a).symm⟩

theorem GivesUp.after {err : String} (n : ParserM B) {f : B → ParserM A}
    (h : ∀ b, GivesUp err (f b)) : GivesUp err (n >>= f) := by
  choose before hbefore using h
  refine ⟨n >>= before, ?_⟩
  rw [bind_assoc]
  exact congrArg _ (funext hbefore)

theorem GivesUp.map {err : String} {m : ParserM A} (h : GivesUp err m) (g : A → B) :
    GivesUp err (m >>= fun a => pure (g a)) := by
  obtain ⟨before, rfl⟩ := h
  refine ⟨before >>= fun a => pure (g a), ?_⟩
  simp only [bind_assoc, pure_bind]

/-- The text that is left then. -/
theorem GivesUp.errorString_eq {err : String} {m : ParserM A} (h : GivesUp err m) {a : A}
    {events : List Event} (hm : m = .ret a events) : errorString events = err := by
  obtain ⟨before, rfl⟩ := h
  obtain ⟨b, es₁, es₂, -, hset, rfl⟩ := bind_eq_ret.1 hm
  have hset : Run.ret b [.parsingError err] = .ret a es₂ := hset
  obtain ⟨-, rfl⟩ := Run.ret.inj hset
  rw [errorString, List.foldl_append]
  rfl

/-! ## The loop over the changes -/

theorem memberOk_iff {m : String × Json} : memberOk m = true ↔ memberFault m = none := by
  unfold memberOk memberFault operationFault resourcePathFault
  split_ifs with hop hpath hdata hobject
  · cases asString m.2 with
    | none => simp
    | some s =>
      by_cases hs : s = ""
      · simp [hs]
      · simp only [Option.any_some, decide_eq_true_eq, if_neg hs]
        split_ifs with hallowed
        · exact iff_of_true hallowed rfl
        · exact iff_of_false hallowed not_false
  · cases asString m.2 <;> simp
  · simp [hobject]
  · simp [hobject]
  · simp

theorem getOperation_of_fault {value : Json} {err : String} (h : operationFault value = some err) :
    getOperation value = setParsingError err >>= fun _ => pure none := by
  unfold operationFault at h
  unfold getOperation
  generalize asString value = o at h ⊢
  cases o with
  | none =>
    obtain rfl := Option.some.inj h
    rfl
  | some s =>
    dsimp only at h ⊢
    split_ifs at h with hempty hallowed
    · obtain rfl := Option.some.inj h
      rw [if_pos hempty]
    · obtain rfl := Option.some.inj h
      simp only [not_or] at hallowed
      rw [if_neg hempty, if_pos hallowed]

theorem getResourcePath_of_fault {value : Json} {err : String}
    (h : resourcePathFault value = some err) :
    getResourcePath value = setParsingError err >>= fun _ => pure none := by
  unfold resourcePathFault at h
  unfold getResourcePath
  generalize asString value = o at h ⊢
  cases o with
  | none =>
    obtain rfl := Option.some.inj h
    rfl
  | some s =>
    dsimp only at h ⊢
    split_ifs at h with hempty
    obtain rfl := Option.some.inj h
    rw [if_pos hempty]

theorem getChange_cons_of_fault {m : String × Json} {err : String}
    (h : memberFault m = some err) (c : Change V) (ms : List (String × Json)) :
    getChange val c (m :: ms) = setParsingError err >>= fun _ => pure none := by
  obtain ⟨name, value⟩ := m
  unfold memberFault at h
  rw [getChange]
  dsimp only at h
  split_ifs at h with hop hpath hdata hobject
  · rw [if_pos hop, getOperation_of_fault h, bind_assoc]
    rfl
  · rw [if_neg hop, if_pos hpath, getResourcePath_of_fault h, bind_assoc]
    rfl
  · obtain rfl := Option.some.inj h
    rw [if_neg hop, if_neg hpath, if_pos hdata, if_neg hobject]

/-- The members before the first one with a fault are read. -/
theorem getChange_of_fault {ms : List (String × Json)} {err : String}
    (h : ms.findSome? memberFault = some err) : ∃ before : Change V → ParserM (Change V), ∀ c,
      getChange val c ms = before c >>= fun _ => setParsingError err >>= fun _ => pure none := by
  induction ms with
  | nil => cases h
  | cons m ms ih =>
    rw [List.findSome?_cons] at h
    cases hm : memberFault m with
    | some fault =>
      rw [hm] at h
      obtain rfl := Option.some.inj h
      refine ⟨pure, fun c => ?_⟩
      rw [getChange_cons_of_fault hm, pure_bind]
    | none =>
      rw [hm] at h
      obtain ⟨before, hbefore⟩ := ih h
      refine ⟨fun c => changeStep val c m >>= before, fun c => ?_⟩
      rw [getChange_cons_of_ok (memberOk_iff.2 hm), bind_assoc]
      exact congrArg _ (funext hbefore)

theorem changeOk_iff {x : Json} : changeOk x = true ↔ changeFault x = none := by
  cases x with
  | obj ms =>
    simp only [changeOk, changeMembers, Json.members, Option.getD_some, Bool.and_eq_true,
      decide_eq_true_eq, Json.isObject_obj, true_and, List.all_eq_true, memberOk_iff, changeFault,
      List.findSome?_eq_none_iff]
  | _ => exact iff_of_false (by simp [changeOk, Json.IsObject]) (Option.some_ne_none _)

theorem givesUp_getChanges {xs : List Json} {err : String}
    (h : xs.findSome? changeFault = some err) : GivesUp err (getChanges val xs) := by
  induction xs with
  | nil => cases h
  | cons x xs ih =>
    rw [List.findSome?_cons] at h
    cases hx : changeFault x with
    | some fault =>
      rw [hx] at h
      obtain rfl := Option.some.inj h
      cases x with
      | obj ms =>
        obtain ⟨before, hbefore⟩ := @getChange_of_fault V val ms fault hx
        rw [getChanges, hbefore, bind_assoc]
        exact .after (before {}) fun _ => givesUp_set fault (false, [])
      | _ =>
        obtain rfl := Option.some.inj hx
        exact givesUp_set _ (false, [])
    | none =>
      rw [hx] at h
      obtain ⟨err', hcons⟩ := getChanges_cons val x
      rw [hcons]
      simp only [changeOk_iff.2 hx, if_true]
      exact .after _ fun c => (ih h).map fun r => (r.1, c :: r.2)

/-! ## The parser -/

theorem changesOk_iff {doc : Json} : changesOk doc = true ↔ requestFault (some doc) = none := by
  rw [requestFault_some]
  unfold changesOk
  cases doc.member? jsonChanges with
  | none => exact iff_of_true rfl rfl
  | some w =>
    rw [Option.bind_some]
    unfold changesFault
    dsimp only
    cases asArray w with
    | none => exact iff_of_false (by simp) (Option.some_ne_none _)
    | some xs =>
      simp only [Option.any_some, List.all_eq_true, changeOk_iff, List.findSome?_eq_none_iff]

theorem givesUp_getChangesToValidate {doc : Json} (hdoc : doc.IsObject) {err : String}
    (h : requestFault (some doc) = some err) : GivesUp err (getChangesToValidate val doc) := by
  obtain ⟨w, hw, hfault⟩ := Option.bind_eq_some_iff.1 h
  rw [getChangesToValidate_eq hdoc, hw]
  unfold changesFault at hfault
  cases hxs : asArray w with
  | none =>
    rw [hxs] at hfault
    obtain rfl := Option.some.inj hfault
    simp only [hxs]
    exact givesUp_set _ (false, [])
  | some xs =>
    rw [hxs] at hfault
    simp only [hxs]
    exact givesUp_getChanges hfault

/-- **What the parser is left with when it gives up on a document.** -/
theorem errorString_getValidationData {doc : Json} {data : ValidationData V} {events : List Event}
    (hread : getValidationData val doc = .ret data events) {err : String}
    (h : requestFault (some doc) = some err) : data.ret = false ∧ errorString events = err := by
  have hdoc := isObject_of_getValidationData hread
  have hfalse : changesOk doc = false := by
    rw [Bool.eq_false_iff, Ne, changesOk_iff, h]
    exact Option.some_ne_none err
  obtain ⟨r, es₁, es₂, hchanges, hrest, rfl⟩ := bind_eq_ret.1 hread
  have hr : r.1 = false := (result_getChangesToValidate
    (⟨es₁, hchanges, fun _ _ => trivial⟩ : Yields (fun _ => True) _ r)).1.trans hfalse
  obtain ⟨ok, cs⟩ := r
  obtain rfl : ok = false := hr
  obtain ⟨rfl, rfl⟩ := Run.ret.inj hrest
  rw [List.append_nil]
  exact ⟨rfl, (givesUp_getChangesToValidate hdoc h).errorString_eq hchanges⟩

/-! ## The answer -/

variable {oai : OaiValidator} {ind : Indeterminate} {requestBody : Option Json} {a : Answer}

/-- **A request is refused for what is wrong with its changes**, and for nothing else. -/
theorem refused_because (h : handleHttp2Request oai ind requestBody = some a)
    (hadmitted : oai.validateRequest requestBody = none)
    (hpass : a.status ≠ httpInternalServerError) :
    (∀ err, requestFault requestBody = some err →
      a = ⟨httpBadRequest, errorToJson (composeError "Malformed request" err)⟩) ∧
    (requestFault requestBody = none → a.status ≠ httpBadRequest) := by
  cases requestBody with
  | none =>
    unfold handleHttp2Request at h
    rw [hadmitted] at h
    obtain rfl := Option.some.inj h
    refine ⟨fun err herr => ?_, fun hnone => absurd hnone (Option.some_ne_none _)⟩
    obtain rfl := Option.some.inj herr
    exact sendResponse_of_status hpass
  | some doc =>
    have hdata : ∀ {data : ValidationData Json} {events : List Event},
        getValidationData id doc = .ret data events → data.ret = changesOk doc := fun hread =>
      (result_getValidationData
        (⟨_, hread, fun _ _ => trivial⟩ : Yields (fun _ => True) _ _)).1
    cases answered h hpass with
    | notAdmitted reason hrefused =>
      rw [hadmitted] at hrefused
      cases hrefused
    | notRead data events hread hret =>
      have hok : changesOk doc = false := (hdata hread).symm.trans hret
      have hfault : requestFault (some doc) ≠ none := fun hnone => by
        rw [changesOk_iff.2 hnone] at hok
        cases hok
      refine ⟨fun err herr => ?_, fun hnone => absurd hnone hfault⟩
      rw [(errorString_getValidationData hread herr).2]
    | refusedByParser data events hread hret herrors =>
      have hnone := changesOk_iff.1 ((hdata hread).symm.trans hret)
      refine ⟨fun err herr => ?_, fun _ => by simp⟩
      rw [hnone] at herr
      cases herr
    | decided data events st hrun =>
      have hnone := changesOk_iff.1 ((hdata hrun.read).symm.trans hrun.ret)
      have hcode := (agrees_applyValidationRules hrun.rules).sound.code_mem
      refine ⟨fun err herr => ?_, fun _ => ?_⟩
      · rw [hnone] at herr
        cases herr
      · simp only at hcode
        dsimp only
        split_ifs
        · simp
        · simp only [httpBadRequest]
          omega

/-- A second change with an operation that does not exist, behind one that leaves a text of its
own. -/
def unknownOperation : Json := .obj [("changes", .arr [
  .obj [("operation", .str "UPDATE"), ("resource_path", .str "/udmSliceProfiles/a"),
    ("data", .obj [("plmnIdSets", .int 0)])],
  .obj [("operation", .str "MOVE")]])]

theorem refused_because_unknown_operation :
    handleHttp2Request passAll ⟨0, false⟩ (some unknownOperation) =
      some ⟨httpBadRequest, errorToJson (composeError "Malformed request"
        "operation value is not allowed. It should be either: CREATE, UPDATE or DELETE")⟩ := by
  obtain ⟨hrefused, -⟩ := @refused_because passAll ⟨0, false⟩ (some unknownOperation) _ rfl rfl
    (by decide)
  rw [← hrefused _ rfl]
  rfl

end ProvisioningValidator
