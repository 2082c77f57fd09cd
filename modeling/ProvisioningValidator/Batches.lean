import Mathlib
import ProvisioningValidator.AllOrNothing
import ProvisioningValidator.Lib.Members
import ProvisioningValidator.Redelivery

/-!
# A request, change by change

The service takes many changes at once, reads them in one pass, and runs the rules over all of them.
Whether it accepts them, and what it delivers, is still decided change by change: for the parser as
for the rules the changes have nothing to do with one another.

**Theorem (`delivers_each`).** A request is accepted exactly if it is without any change and if
every one of its changes is when it comes alone, beside the same resources. What it delivers is then
what these deliver, in their order. The check against the interface description must let these
requests and their answers pass (`PassesCheck`).
-/

namespace ProvisioningValidator

open Lib Lib.Run

variable (oai : OaiValidator) (ind : Indeterminate)

/-- The request with these changes, and with whatever else is in it. -/
def withChanges (doc : Json) (xs : List Json) : Json := doc.withMember jsonChanges (.arr xs)

/-- The elements of `changes` in a body. -/
def changesOf (body : Json) : List Json :=
  ((body.member? jsonChanges).bind asArray).getD []

/-- What comes back for a request that is answered with 200. -/
def delivers (doc : Json) : Option (List Json) :=
  (handleHttp2Request oai ind (some doc)).bind fun a =>
    if a.status = httpOk then some (changesOf a.body) else none

/-- The request passes the check against the interface description, and so does its answer. -/
structure PassesCheck (doc : Json) : Prop where
  request : oai.validateRequest (some doc) = none
  answer : ∀ a, handleHttp2Request oai ind (some doc) = some a →
    a.status ≠ httpInternalServerError

/-! ## What the parser reads -/

/-- An element of `changes` that is read without an error. -/
def ReadsChange (x : Json) (c : Change Json) : Prop :=
  ∃ ms, x = .obj ms ∧ Yields Quiet (getChange id {} ms) (some c)

theorem yields_getChanges {xs : List Json} {cs : List (Change Json)} :
    Yields Quiet (getChanges id xs) (true, cs) ↔ List.Forall₂ ReadsChange xs cs := by
  induction xs generalizing cs with
  | nil => simp [getChanges]
  | cons x xs ih =>
    rw [List.forall₂_cons_left_iff]
    cases x with
    | obj ms =>
      rw [getChanges, yields_bind]
      constructor
      · rintro ⟨o, ho, h⟩
        cases o with
        | none => simp at h
        | some c =>
          obtain ⟨r, hr, h⟩ := yields_bind.1 h
          obtain ⟨h₁, rfl⟩ := Prod.mk.inj (yields_pure.1 h)
          obtain ⟨ok, ds⟩ := r
          obtain rfl : true = ok := h₁
          exact ⟨c, ds, ⟨ms, rfl, ho⟩, ih.1 hr, rfl⟩
      · rintro ⟨c, ds, ⟨ns, hns, hc⟩, hds, rfl⟩
        obtain rfl := Json.obj.inj hns
        exact ⟨some c, hc, yields_bind.2 ⟨(true, ds), ih.2 hds, yields_pure.2 rfl⟩⟩
    | _ =>
      refine iff_of_false (fun h => ?_) ?_
      · obtain ⟨-, -, h⟩ := yields_bind.1 h
        simp at h
      · rintro ⟨c, ds, ⟨ms, hms, -⟩, -⟩
        cases hms

/-- The resources are read without regard to the changes. -/
theorem related_withChanges {V : Type} {val : Json → V} (doc : Json) (xs : List Json) :
    getRelatedResources val (withChanges doc xs) = getRelatedResources val doc := by
  have hfind : (withChanges doc xs).findMember jsonRelatedResources =
      doc.findMember jsonRelatedResources :=
    Json.findMember_withMember_of_ne (by decide) _
  rw [getRelatedResources, getRelatedResources, hfind]

/-- What was read from a request without an error. -/
theorem readsChanges_of_yields {doc : Json} {data : ValidationData Json}
    (h : Yields Quiet (getValidationData id doc) data) (hret : data.ret = true) :
    doc.IsObject ∧ List.Forall₂ ReadsChange (requestChanges doc) data.changes ∧
      Yields Quiet (getRelatedResources id doc) data.relatedResources := by
  obtain ⟨⟨ok, cs⟩, hcs, hrest⟩ := yields_bind.1 h
  have hdoc := isObject_of_getChangesToValidate hcs
  cases ok with
  | false =>
    rw [yields_pure.1 hrest] at hret
    cases hret
  | true =>
    obtain ⟨rr, hrr, hdata⟩ := yields_bind.1 hrest
    rw [yields_pure.1 hdata]
    refine ⟨hdoc, ?_, hrr⟩
    rw [getChangesToValidate_eq hdoc] at hcs
    rw [requestChanges]
    cases hw : doc.member? jsonChanges with
    | none =>
      rw [hw] at hcs
      obtain ⟨-, rfl⟩ := Prod.mk.inj (yields_pure.1 hcs)
      exact .nil
    | some w =>
      rw [hw] at hcs
      dsimp only at hcs
      rw [Option.bind_some]
      cases hxs : asArray w with
      | some xs =>
        rw [hxs] at hcs
        exact yields_getChanges.1 hcs
      | none =>
        rw [hxs] at hcs
        obtain ⟨-, -, hr⟩ := yields_bind.1 hcs
        cases (Prod.mk.inj (yields_pure.1 hr)).1

/-- **What is read from a request** when it is read without an error: each change by itself, and
the resources. -/
theorem yields_withChanges {doc : Json} (hdoc : doc.IsObject) {xs : List Json}
    {data : ValidationData Json} :
    Yields Quiet (getValidationData id (withChanges doc xs)) data ∧ data.ret = true ↔
      List.Forall₂ ReadsChange xs data.changes ∧
        Yields Quiet (getRelatedResources id doc) data.relatedResources ∧
        data.ret = true := by
  have hlist : requestChanges (withChanges doc xs) = xs := by
    rw [requestChanges, withChanges, Json.member?_withMember hdoc]
    rfl
  constructor
  · rintro ⟨h, hret⟩
    obtain ⟨-, hcs, hrr⟩ := readsChanges_of_yields h hret
    rw [hlist] at hcs
    rw [related_withChanges] at hrr
    exact ⟨hcs, hrr, hret⟩
  · rintro ⟨hcs, hrr, hret⟩
    obtain ⟨ret, cs, rr⟩ := data
    obtain rfl : ret = true := hret
    have hread : getChangesToValidate id (withChanges doc xs) = getChanges id xs := by
      rw [withChanges, getChangesToValidate_eq ((Json.isObject_withMember _ _).2 hdoc),
        Json.member?_withMember hdoc]
      rfl
    rw [getValidationData, yields_bind, hread]
    refine ⟨⟨(true, cs), yields_getChanges.2 hcs, ?_⟩, rfl⟩
    rw [← related_withChanges doc xs] at hrr
    exact yields_bind.2 ⟨rr, hrr, yields_pure.2 rfl⟩

/-! ## What the service answers -/

variable {oai ind}

theorem recordedErrors_eq_nil_iff {events : List Event} :
    recordedErrors events = [] ↔ ∀ e ∈ events, Quiet e := by
  rw [recordedErrors, List.filterMap_eq_nil_iff]
  refine forall₂_congr fun e _ => ?_
  cases e with
  | error err => simp
  | parsingError err => simp

/-- What is sent for a request that is read without an error and whose changes are accepted. -/
theorem handleHttp2Request_of_accepted {doc : Json}
    {data : ValidationData Json} {events : List Event} {st : ApplyState Json}
    (hreq : oai.validateRequest (some doc) = none) (h : RulesRun ind doc data events st)
    (hret : st.ret = true) : handleHttp2Request oai ind (some doc) =
      some (sendResponse oai httpOk (validatorResponseToJson ind st.response)) := by
  have hparse : parse id (some doc) = .ret data events := h.read
  simp [handleHttp2Request, hreq, hparse, answerParsed, h.ret, h.quiet, h.rules, hret]

/-- A request is answered with 200 exactly if request and response pass the check, the request is
read without an error and its changes are accepted. -/
theorem answered_ok_iff {doc body : Json} :
    handleHttp2Request oai ind (some doc) = some ⟨httpOk, body⟩ ↔
      (oai.validateRequest (some doc) = none ∧ oai.validateResponse httpOk body = none) ∧
        ∃ data, (Yields Quiet (getValidationData id doc) data ∧ data.ret = true) ∧
          (∀ c ∈ data.changes, accepted ind data.relatedResources c = true) ∧
          body = validatorResponseToJson ind { changes := data.changes.map computeMutations } := by
  constructor
  · intro h
    obtain ⟨data, events, st, hst⟩ := answeredOk h rfl
    have hreq : oai.validateRequest (some doc) = none := by
      cases hreq : oai.validateRequest (some doc) with
      | none => rfl
      | some reason =>
        rw [handleHttp2Request, hreq] at h
        cases h
    refine ⟨⟨hreq, ?_⟩, data, ⟨hst.yields, hst.ret⟩,
      (agrees_applyValidationRules hst.rules).ret_iff.1 hst.accepted, ?_⟩
    · rw [handleHttp2Request_of_accepted hreq hst.toRulesRun hst.accepted, Option.some.injEq,
        ← hst.body, sendResponse] at h
      cases hresponse : oai.validateResponse httpOk body with
      | none => rfl
      | some reason =>
        simp only [hresponse] at h
        cases h
    · rw [← response_of_accepted hst.rules hst.accepted]
      exact hst.body
  · rintro ⟨⟨hreq, hresponse⟩, data, ⟨⟨events, hread, hquiet⟩, hret⟩, hall, rfl⟩
    obtain ⟨st, hst, hstret⟩ := run_of_all_accepted hall
    rw [handleHttp2Request_of_accepted hreq
        ⟨hread, hret, recordedErrors_eq_nil_iff.2 hquiet, hst⟩ hstret,
      response_of_accepted hst hstret, sendResponse, hresponse]

theorem changesOf_response (cs : List (Change Json)) :
    changesOf (validatorResponseToJson ind { changes := cs }) = cs.map (changeToJson ind) := by
  cases cs with
  | nil => rfl
  | cons c cs => rfl

/-- **When a request is accepted**: its changes and its resources are read without an error, and
each change is accepted beside the resources. -/
theorem delivers_eq_some_iff {doc : Json} (hdoc : doc.IsObject) {xs ys : List Json}
    (hpass : PassesCheck oai ind (withChanges doc xs)) :
    delivers oai ind (withChanges doc xs) = some ys ↔
      ∃ rr cs, Yields Quiet (getRelatedResources id doc) rr ∧
        List.Forall₂ ReadsChange xs cs ∧ (∀ c ∈ cs, accepted ind rr c = true) ∧
        ys = cs.map fun c => changeToJson ind (computeMutations c) := by
  have hanswer : delivers oai ind (withChanges doc xs) = some ys ↔ ∃ body,
      handleHttp2Request oai ind (some (withChanges doc xs)) = some ⟨httpOk, body⟩ ∧
        ys = changesOf body := by
    rw [delivers, Option.bind_eq_some_iff]
    constructor
    · rintro ⟨⟨status, body⟩, ha, h⟩
      split_ifs at h with hok
      obtain rfl : status = httpOk := hok
      exact ⟨body, ha, (Option.some.inj h).symm⟩
    · rintro ⟨body, ha, rfl⟩
      exact ⟨_, ha, if_pos rfl⟩
  rw [hanswer]
  constructor
  · rintro ⟨body, h, rfl⟩
    obtain ⟨-, data, hdata, hall, rfl⟩ := answered_ok_iff.1 h
    obtain ⟨hcs, hrr, -⟩ := (yields_withChanges hdoc).1 hdata
    refine ⟨data.relatedResources, data.changes, hrr, hcs, hall, ?_⟩
    rw [changesOf_response, List.map_map]
    rfl
  · rintro ⟨rr, cs, hrr, hcs, hall, rfl⟩
    have hdata := (yields_withChanges hdoc).2 ⟨hcs, hrr, (rfl : (⟨true, cs, rr⟩ :
      ValidationData Json).ret = true)⟩
    obtain ⟨⟨events, hread, hquiet⟩, hret⟩ := hdata
    obtain ⟨st, hst, hstret⟩ := run_of_all_accepted hall
    have hsent := handleHttp2Request_of_accepted hpass.request
      ⟨hread, hret, recordedErrors_eq_nil_iff.2 hquiet, hst⟩ hstret
    rw [sendResponse_of_status (hpass.answer _ hsent), response_of_accepted hst hstret] at hsent
    refine ⟨_, hsent, ?_⟩
    rw [changesOf_response, List.map_map]
    rfl

/-- A request with one change. -/
theorem delivers_one_iff {doc : Json} (hdoc : doc.IsObject) {x : Json} {zs : List Json}
    (hpass : PassesCheck oai ind (withChanges doc [x])) :
    delivers oai ind (withChanges doc [x]) = some zs ↔
      ∃ rr c, Yields Quiet (getRelatedResources id doc) rr ∧ ReadsChange x c ∧
        accepted ind rr c = true ∧ zs = [changeToJson ind (computeMutations c)] := by
  rw [delivers_eq_some_iff hdoc hpass]
  constructor
  · rintro ⟨rr, cs, hrr, hcs, hall, rfl⟩
    obtain ⟨c, ds, hc, hds, rfl⟩ := List.forall₂_cons_left_iff.1 hcs
    obtain rfl := List.forall₂_nil_left_iff.1 hds
    exact ⟨rr, c, hrr, hc, hall c List.mem_cons_self, rfl⟩
  · rintro ⟨rr, c, hrr, hc, hacc, rfl⟩
    exact ⟨rr, [c], hrr, .cons hc .nil, by simpa using hacc, rfl⟩

/-- Changes that are accepted beside the same resources, and what each of them delivers. -/
theorem delivers_singles {doc : Json} (hdoc : doc.IsObject) {rr : RelatedResources Json}
    (hrr : Yields Quiet (getRelatedResources id doc) rr) {xs : List Json}
    (hpass : ∀ x ∈ xs, PassesCheck oai ind (withChanges doc [x])) {yss : List (List Json)} :
    xs.mapM (fun x => delivers oai ind (withChanges doc [x])) = some yss ↔
      ∃ cs, List.Forall₂ ReadsChange xs cs ∧ (∀ c ∈ cs, accepted ind rr c = true) ∧
        yss = cs.map fun c => [changeToJson ind (computeMutations c)] := by
  induction xs generalizing yss with
  | nil =>
    rw [List.mapM_nil, Option.pure_def, Option.some.injEq]
    constructor
    · rintro rfl
      exact ⟨[], .nil, by simp, rfl⟩
    · rintro ⟨cs, hcs, -, rfl⟩
      rw [List.forall₂_nil_left_iff.1 hcs]
      rfl
  | cons x xs ih =>
    obtain ⟨hx, hxs⟩ := List.forall_mem_cons.1 hpass
    rw [List.mapM_cons, Option.bind_eq_bind, Option.bind_eq_some_iff]
    simp only [Option.bind_eq_bind, Option.bind_eq_some_iff, Option.pure_def, Option.some.injEq,
      ih hxs, delivers_one_iff hdoc hx]
    constructor
    · rintro ⟨zs, ⟨rr', c, hrr', hc, hacc, rfl⟩, zss, ⟨cs, hcs, hall, rfl⟩, rfl⟩
      obtain rfl := hrr.unique hrr'
      exact ⟨c :: cs, .cons hc hcs, List.forall_mem_cons.2 ⟨hacc, hall⟩, rfl⟩
    · rintro ⟨cs', hcs', hall, rfl⟩
      obtain ⟨c, cs, hc, hcs, rfl⟩ := List.forall₂_cons_left_iff.1 hcs'
      obtain ⟨hacc, hall⟩ := List.forall_mem_cons.1 hall
      exact ⟨_, ⟨rr, c, hrr, hc, hacc, rfl⟩, _, ⟨cs, hcs, hall, rfl⟩, rfl⟩

/-- **A request is accepted change by change, and delivers what its changes deliver.** -/
theorem delivers_each {doc : Json} {xs : List Json}
    (h : doc.member? jsonChanges = some (.arr xs)) (hwhole : PassesCheck oai ind doc)
    (hnone : PassesCheck oai ind (withChanges doc []))
    (heach : ∀ x ∈ xs, PassesCheck oai ind (withChanges doc [x])) :
    delivers oai ind doc = (delivers oai ind (withChanges doc [])).bind fun _ =>
      (xs.mapM fun x => delivers oai ind (withChanges doc [x])).map List.flatten := by
  have hdoc : doc.IsObject := Json.isObject_of_member? h
  have hsame : withChanges doc xs = doc := Json.withMember_of_member? h
  have hempty : ∀ ys, delivers oai ind (withChanges doc []) = some ys ↔
      (∃ rr, Yields Quiet (getRelatedResources id doc) rr) ∧ ys = [] := by
    intro ys
    rw [delivers_eq_some_iff hdoc hnone]
    constructor
    · rintro ⟨rr, cs, hrr, hcs, -, rfl⟩
      obtain rfl := List.forall₂_nil_left_iff.1 hcs
      exact ⟨⟨rr, hrr⟩, rfl⟩
    · rintro ⟨⟨rr, hrr⟩, rfl⟩
      exact ⟨rr, [], hrr, .nil, by simp, rfl⟩
  have hflatten : ∀ cs : List (Change Json),
      (cs.map fun c => [changeToJson ind (computeMutations c)]).flatten =
        cs.map fun c => changeToJson ind (computeMutations c) := by
    intro cs
    rw [← List.flatMap_def]
    exact List.map_eq_flatMap.symm
  have hall : ∀ ys, delivers oai ind doc = some ys ↔
      ∃ rr cs, Yields Quiet (getRelatedResources id doc) rr ∧ List.Forall₂ ReadsChange xs cs ∧
        (∀ c ∈ cs, accepted ind rr c = true) ∧
        ys = cs.map fun c => changeToJson ind (computeMutations c) := by
    intro ys
    have hiff := @delivers_eq_some_iff oai ind doc hdoc xs ys (hsame.symm ▸ hwhole)
    rwa [hsame] at hiff
  refine Option.ext fun ys => ?_
  rw [hall, Option.bind_eq_some_iff]
  simp only [hempty, Option.map_eq_some_iff]
  constructor
  · rintro ⟨rr, cs, hrr, hcs, hacc, rfl⟩
    exact ⟨[], ⟨⟨rr, hrr⟩, rfl⟩, _, (delivers_singles hdoc hrr heach).2 ⟨cs, hcs, hacc, rfl⟩,
      hflatten cs⟩
  · rintro ⟨-, ⟨⟨rr, hrr⟩, rfl⟩, yss, hyss, rfl⟩
    obtain ⟨cs, hcs, hacc, rfl⟩ := (delivers_singles hdoc hrr heach).1 hyss
    exact ⟨rr, cs, hrr, hcs, hacc, hflatten cs⟩

theorem passesCheck_of_answer {doc : Json} {a : Answer}
    (hrequest : oai.validateRequest (some doc) = none)
    (h : handleHttp2Request oai ind (some doc) = some a)
    (hpass : a.status ≠ httpInternalServerError) : PassesCheck oai ind doc := by
  refine ⟨hrequest, fun a' ha' => ?_⟩
  rw [h] at ha'
  exact Option.some.inj ha' ▸ hpass

/-- A check that asks for a list of changes, and lets every response pass. -/
def asksForChanges : OaiValidator :=
  ⟨fun body => if (body.bind (·.member? jsonChanges)).isSome then none else some "no changes",
    fun _ _ => none⟩

/-- The creation of a roaming area and the deletion of another, behind the resources. -/
def creationAndDeletion : Json := .obj [("relatedResources", .obj []), ("changes", .arr [
  .obj [("operation", .str "CREATE"),
    ("resource_path", .str "/profiles/udmProfiles/udmRoamingAreas/a"),
    ("data", .obj [("areaList", .arr [.obj [("areaCodes", .str "b")]])])],
  .obj [("operation", .str "DELETE"),
    ("resource_path", .str "/profiles/udmProfiles/udmRoamingAreas/c")]])]

/-- Together they deliver what they deliver one by one. -/
theorem delivers_each_creationAndDeletion : ∃ created deleted,
    delivers asksForChanges ⟨0, false⟩ creationAndDeletion = some [created, deleted] ∧
      created.member? jsonData =
        some (.obj [("areaList", .arr [.obj [("areaCodes", .str "b")]])]) ∧
      deleted.member? jsonData = none := by
  rw [delivers_each rfl (passesCheck_of_answer rfl rfl (by decide))
    (passesCheck_of_answer rfl rfl (by decide)) ?_]
  · exact ⟨_, _, rfl, rfl, rfl⟩
  · intro x hx
    rcases List.mem_cons.1 hx with rfl | hx
    · exact passesCheck_of_answer rfl rfl (by decide)
    · obtain rfl := List.mem_singleton.1 hx
      exact passesCheck_of_answer rfl rfl (by decide)

end ProvisioningValidator
