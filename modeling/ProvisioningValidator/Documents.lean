import Mathlib
import ProvisioningValidator.Requests

/-!
# What a document makes the parser read

The changes of a document come first, and if all of them were read, its related resources follow.
This module adds the related resources, among them the journal, whose reader has no shape since it
passes over what it does not expect, and puts the parts together (`returnsIff_getValidationData`,
`result_getValidationData`).
-/

namespace ProvisioningValidator

open Lib Lib.Run Lib.Shape

variable {V : Type} {val : Json → V} {mode : Mode}

/-! ## The journal -/

/-- What the reader of an element of `subsIdList` takes for granted. -/
def SubsIdSafe (x : Json) : Prop :=
  ∀ key ∈ [jsonSubsId, jsonSubsPrefix], ∀ w, x.member? key = some w → w.IsString

/-- What the reader of `subsIdList` takes for granted. -/
def SubsIdListSafe (v : Json) : Prop :=
  ∀ w, v.member? jsonSubsIdList = some w → ∀ xs, w = .arr xs → ∀ x ∈ xs, SubsIdSafe x

/-- What the reader of a journal takes for granted. -/
def JournalSafe (v : Json) : Prop := v.IsObject ∧ SubsIdListSafe v

theorem filterMap_asString_reorder {xs ys : List Json}
    (h : List.Forall₂ (Json.Reorder cstr) xs ys) : xs.filterMap asString = ys.filterMap asString := by
  induction h with
  | nil => rfl
  | cons hxy _ ih =>
    rw [List.filterMap_cons, List.filterMap_cons, asString_reorder hxy, ih]

theorem reads_journalString {key : String} {put : String → ProvJournal → ProvJournal}
    (e : ProvJournal) : ReadsFields val (journalString key put · e) [] := by
  have hget : ReadsFields val (getString · key) [] := by
    refine .unread (fun o => ?_) fun v w h => ?_
    · cases o <;> exact returnsIff_pure _
    · dsimp only
      rw [asString_reorder h]
      exact same_refl _
  exact hget.map fun s => put s e

theorem reads_journalStrings {key : String} {put : List String → ProvJournal → ProvJournal}
    (e : ProvJournal) : ReadsFields val (journalStrings key put · e) [] := by
  refine .unread (fun o => ?_) fun v w h => ?_
  · cases o with
    | none => exact returnsIff_pure e
    | some w =>
      dsimp only
      cases asArray w <;> exact returnsIff_pure _
  · dsimp only
    have hrel := asArray_reorder h
    generalize asArray v = xs, asArray w = ys at hrel
    cases hrel with
    | none => exact same_refl _
    | some hxy =>
      dsimp only
      rw [filterMap_asString_reorder hxy]
      exact same_refl _

theorem reads_imsiChoStatus (e : ProvJournal) : ReadsFields val
    (Reader.ifMember jsonImsichoStatus (fun v e => match asInt v with
      | some n => return { e with imsiChoStatus := some n }
      | none => return e) Reader.skip · e) [] := by
  refine .unread (fun o => ?_) fun v w h => ?_
  · cases o with
    | none => exact returnsIff_pure e
    | some w =>
      dsimp only
      cases asInt w <;> exact returnsIff_pure _
  · dsimp only
    rw [asInt_reorder h]
    exact same_refl _

theorem reads_getSubsIdMember {key : String}
    {put : String → SubscriberIdentitiesId → SubscriberIdentitiesId} (e : SubscriberIdentitiesId) :
    Reads val (getSubsIdMember key put · e)
      (fun _ x => ∀ w, x.member? key = some w → w.IsString) where
  returns mode x hx := by
    rw [getSubsIdMember, Reader.ifMember, Json.findMember_of_isObject hx, lift_some, pure_bind]
    cases x.member? key with
    | none => exact (returnsIff_pure e).congr (by simp)
    | some w =>
      refine ((returnsIff_lift w.getString).bind fun s _ => returnsIff_pure (put s e)).congr ?_
      simp [Json.isSome_getString]
  stable _ v w hv hvw := by
    rw [getSubsIdMember, Reader.ifMember, Reader.ifMember, Json.findMember_of_isObject hv,
      Json.findMember_of_isObject (hvw.isObject_iff.1 hv), lift_some, lift_some, pure_bind, pure_bind]
    have hrel := hvw.member? key
    generalize v.member? key = o, w.member? key = o' at hrel
    cases hrel with
    | none => exact same_refl _
    | some hxy =>
      dsimp only
      rw [hxy.getString_eq]
      exact same_refl _

/-- An element of `subsIdList` that is an object. -/
theorem reads_subsIdFields (val : Json → V) (e : SubscriberIdentitiesId) :
    Reads val (Reader.inOrder [
      getSubsIdMember jsonSubsId fun s e => { e with id := s },
      getSubsIdMember jsonSubsPrefix fun s e => { e with subsPrefix := s }] · e)
    (fun _ => SubsIdSafe) :=
  ((reads_getSubsIdMember e).andThen fun e => (reads_getSubsIdMember e).map id).congr
    (by simp [SubsIdSafe])

theorem returnsIff_getSubsId (x : Json) :
    ReturnsIff (Allowed mode) (getSubsId x) (SubsIdSafe x) := by
  rw [getSubsId]
  split_ifs with hx
  · exact (Reads.fresh (reads_subsIdFields id {})).returns mode x hx
  · refine (returnsIff_pure _).congr (iff_of_true trivial ?_)
    exact fun _ _ w hw => absurd (Json.isObject_of_member? hw) hx

theorem same_getSubsId {x y : Json} (h : Json.Reorder cstr x y) :
    Same (getSubsId x) (getSubsId y) := by
  rw [getSubsId, getSubsId]
  by_cases hx : x.IsObject
  · rw [if_pos hx, if_pos (h.isObject_iff.1 hx)]
    have hnone : Respects fun _ : Json => () := fun _ _ _ => rfl
    exact (Reads.fresh (reads_subsIdFields (fun _ => ()) {})).stable hnone x y hx h
  · rw [if_neg hx, if_neg fun hy => hx (h.isObject_iff.2 hy)]
    exact same_refl _

/-- The list of identities in a journal. -/
theorem reads_subsIdList (e : ProvJournal) : Reads val (Reader.ifMember jsonSubsIdList
      (fun v e => match asArray v with
        | some xs => do
          let ids ← Run.collect getSubsId xs
          return { e with subsIdList := e.subsIdList ++ ids }
        | none => return e) Reader.skip · e)
    (fun _ => SubsIdListSafe) where
  returns mode v hv := by
    rw [Reader.ifMember, Json.findMember_of_isObject hv, lift_some, pure_bind]
    cases hw : v.member? jsonSubsIdList with
    | none => exact (returnsIff_pure e).congr (by simp [SubsIdListSafe, hw])
    | some w =>
      dsimp only
      cases hxs : asArray w with
      | none =>
        refine (returnsIff_pure e).congr (iff_of_true trivial ?_)
        intro w' hw' xs hxs'
        rw [hw, Option.some.injEq] at hw'
        subst hw' hxs'
        cases hxs
      | some xs =>
        have harr := eq_arr_of_asArray hxs
        subst harr
        refine ((ReturnsIff.collect fun x (_ : x ∈ xs) => returnsIff_getSubsId x).bind
          fun ids _ => returnsIff_pure _).congr ?_
        simp [SubsIdListSafe, hw]
  stable _ v w hv hvw := by
    rw [Reader.ifMember, Reader.ifMember, Json.findMember_of_isObject hv,
      Json.findMember_of_isObject (hvw.isObject_iff.1 hv), lift_some, lift_some, pure_bind,
      pure_bind]
    have hrel := hvw.member? jsonSubsIdList
    generalize v.member? jsonSubsIdList = o, w.member? jsonSubsIdList = o' at hrel
    cases hrel with
    | none => exact same_refl _
    | some hxy =>
      have hlists := asArray_reorder hxy
      dsimp only
      rename_i a b
      generalize asArray a = xs, asArray b = ys at hlists
      cases hlists with
      | none => exact same_refl _
      | some hxs =>
        exact (same_collect hxs fun x y hxy => same_getSubsId hxy).bind fun ids => same_refl _

/-- **The reader of a journal**: it returns exactly on the values that are safe for it. -/
theorem reads_getProvJournal (e : ProvJournal) :
    Reads val (getProvJournal · e) (fun _ => SubsIdListSafe) := by
  refine .silent reads_journalString (.silent reads_journalString <|
    .silent reads_journalString <| .silent reads_journalString <|
    .silent reads_journalString <| .silent reads_journalString <|
    .silent reads_journalString <| .silent reads_journalString <|
    .silent reads_journalString <| .silent reads_journalString <|
    .silent reads_journalString <| .silent reads_journalString <|
    .silent reads_journalString <| .silent reads_journalString <|
    .silent reads_journalString <| .silent reads_journalString <|
    .silent reads_journalString <| .silent reads_journalString <|
    .silent reads_imsiChoStatus <| .silent reads_journalString <|
    .silent reads_journalString <| .silent reads_journalStrings <|
    .silent reads_journalString <| .silent reads_journalString <|
    .silent reads_journalString <| .silent reads_journalStrings <|
    .silent reads_journalString <| .silent reads_journalString <|
    .silent reads_journalString fun e => (reads_subsIdList e).map id) e

theorem returnsIff_getProvJournal (v : Json) (e : ProvJournal) :
    ReturnsIff (Allowed mode) (getProvJournal v e) (JournalSafe v) := by
  by_cases hv : v.IsObject
  · exact ((@reads_getProvJournal Json id e).returns mode v hv).congr (by simp [JournalSafe, hv])
  · have habort : getProvJournal v e = .abort := by
      cases v with
      | obj ms => exact absurd ⟨ms, rfl⟩ hv
      | _ => rfl
    rw [habort]
    exact returnsIff_abort.congr (iff_of_false id fun h => hv h.1)

/-! ## Related resources -/

/-- How a related resource is read. -/
inductive Classification where
  | resource (k : ResourceKind)
  | journal
  | passedOver

/-- How a related resource is read, by its path. -/
def classify (p : String) : Classification :=
  if endsWith p jsonUdmStaticData = true then .resource .udmStaticData
  else if endsWith p jsonProvJournal = true then .journal
  else if contains p jsonUdmSliceProfiles = true then .resource .udmSliceProfile
  else if contains p jsonUdmRoamingAreas = true then .resource .udmRoamingArea
  else if contains p jsonSmsStaticData = true then .resource .smsStaticData
  else .passedOver

/-- An entity as a related resource. -/
def ResourceKind.toResource : (k : ResourceKind) → k.Entity V → Resource V
  | .udmStaticData => .udmStaticData
  | .udmSliceProfile => .udmSliceProfile
  | .udmRoamingArea => .udmRoamingArea
  | .smsStaticData => .smsStaticData

theorem getRelatedResource_eq (p : String) (v : Json) :
    getRelatedResource val p v = match classify p with
      | .resource k => k.reader val p v (k.blank V) >>= fun e => pure (some (k.toResource e))
      | .journal => getProvJournal v {} >>= fun e => pure (some (.provJournal e))
      | .passedOver => pure none := by
  rw [getRelatedResource, classify]
  split_ifs <;> rfl

/-- `P` holds of a related resource in the shape in which it is read, or `J`, of a journal. -/
def AsClassified (P : Shape → Json → Prop) (J : Json → Prop) (m : String × Json) : Prop :=
  match classify (cstr m.1) with
  | .resource k => P k.shape m.2
  | .journal => J m.2
  | .passedOver => True

theorem returnsIff_getRelatedMember (m : String × Json) :
    ReturnsIff (Allowed mode) (getRelatedMember val m)
      (AsClassified (Passes mode) JournalSafe m) := by
  have hread : ReturnsIff (Allowed mode) (getRelatedResource val (cstr m.1) m.2)
      (AsClassified (Passes mode) JournalSafe m) := by
    rw [getRelatedResource_eq, AsClassified]
    cases classify (cstr m.1) with
    | resource k =>
      exact (((conforms_reader (cstr m.1) k _).returns mode m.2).bind fun e _ =>
        returnsIff_pure _).congr (iff_of_eq (and_true _))
    | journal =>
      exact ((returnsIff_getProvJournal m.2 _).bind fun e _ =>
        returnsIff_pure _).congr (iff_of_eq (and_true _))
    | passedOver => exact returnsIff_pure _
  exact (hread.bind fun r _ => returnsIff_pure _).congr (iff_of_eq (and_true _))

/-- `relatedResources` is an object, if it is there. -/
def RelatedIsObject (doc : Json) : Prop := ∀ w, doc.member? jsonRelatedResources = some w → w.IsObject

theorem returnsIff_getRelatedResources {doc : Json} (hdoc : doc.IsObject) :
    ReturnsIff (Allowed mode) (getRelatedResources val doc) (RelatedIsObject doc ∧
      ∀ m ∈ relatedMembers doc, AsClassified (Passes mode) JournalSafe m) := by
  rw [getRelatedResources, Json.findMember_of_isObject hdoc, lift_some, pure_bind, RelatedIsObject,
    relatedMembers]
  cases doc.member? jsonRelatedResources with
  | none => exact (returnsIff_pure _).congr (by simp)
  | some w =>
    cases w with
    | obj ms =>
      simp only [Json.members, lift_some, pure_bind]
      refine ((ReturnsIff.collect fun m (_ : m ∈ ms) => returnsIff_getRelatedMember m).bind
        fun rs _ => returnsIff_pure _).congr ?_
      simp
    | _ =>
      refine returnsIff_abort.congr (iff_of_false id fun h => ?_)
      obtain ⟨ms, hms⟩ := h.1 _ rfl
      cases hms

/-! ## The whole document -/

/-- The data that are read in the changes of a document. -/
def dataReadings (doc : Json) : List (String × Json) := listReadings (requestChanges doc)

/-- **The parser returns exactly if the changes can be read, and after them, if all were read, the
related resources**; and likewise in the other modes. -/
theorem returnsIff_getValidationData {doc : Json} (hdoc : doc.IsObject) :
    ReturnsIff (Allowed mode) (getValidationData val doc)
      (((∀ r ∈ dataReadings doc, AsNamed (Passes mode) r) ∧
        (mode.strict = true → changesOk doc = true)) ∧
      (changesOk doc = true → RelatedIsObject doc ∧
        ∀ m ∈ relatedMembers doc, AsClassified (Passes mode) JournalSafe m)) := by
  refine (returnsIff_getChangesToValidate hdoc).bind fun r hr => ?_
  have hret := (result_getChangesToValidate hr).1
  obtain ⟨ok, changes⟩ := r
  simp only at hret
  subst hret
  dsimp only
  split_ifs with hok
  · refine ((returnsIff_getRelatedResources hdoc).bind fun rr _ => returnsIff_pure _).congr ?_
    rw [and_true, forall_prop_of_true hok]
  · exact (returnsIff_pure _).congr (iff_of_true trivial fun h => absurd h hok)

/-- A document on which the parser returns is an object. -/
theorem isObject_of_getValidationData {doc : Json} {data : ValidationData V} {events : List Event}
    (h : getValidationData val doc = .ret data events) : doc.IsObject := by
  have hyields : Yields (fun _ => True) (getValidationData val doc) data :=
    ⟨events, h, fun _ _ => trivial⟩
  obtain ⟨r, hr, -⟩ := yields_bind.1 hyields
  exact isObject_of_getChangesToValidate hr

/-- **What the parser lets pass without an error, it has found no fault with**: the data of the
changes, and after them the related resources. -/
theorem faultless_of_getValidationData {doc : Json} {data : ValidationData V} (hdoc : doc.IsObject)
    (h : Yields Quiet (getValidationData val doc) data) :
    (∀ r ∈ dataReadings doc, AsNamed Faultless r) ∧ (changesOk doc = true →
      ∀ m ∈ relatedMembers doc, AsClassified Faultless JournalSafe m) := by
  obtain ⟨hdata, hrelated⟩ := (returnsIff_getValidationData hdoc).1 ⟨data, h⟩
  exact ⟨hdata.1, fun hok => (hrelated hok).2⟩

/-- The result of the parser, and the changes in it. -/
theorem result_getValidationData {q : Event → Prop} {doc : Json} {data : ValidationData V}
    (h : Yields q (getValidationData val doc) data) : data.ret = changesOk doc ∧
      (data.ret = true → List.Forall₂ (fun x c => c.operation = changeText jsonOperation x ∧
        c.resourcePath = changeText jsonResourcePath x) (requestChanges doc) data.changes) := by
  obtain ⟨⟨ok, changes⟩, hchanges, hrest⟩ := yields_bind.1 h
  obtain ⟨hret, hall⟩ := result_getChangesToValidate hchanges
  simp only at hret hall
  dsimp only at hrest
  split_ifs at hrest with hok
  · obtain ⟨rr, -, hdata⟩ := yields_bind.1 hrest
    rw [yields_pure.1 hdata]
    exact ⟨hok.symm.trans hret, fun _ => hall hok⟩
  · rw [yields_pure.1 hrest]
    exact ⟨(Bool.eq_false_iff.2 hok).symm.trans hret, by simp⟩

end ProvisioningValidator
