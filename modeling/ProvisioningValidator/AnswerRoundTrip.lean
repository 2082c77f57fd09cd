import Mathlib
import ProvisioningValidator.Answers
import ProvisioningValidator.SliceReferences
import ProvisioningValidator.StaticRoundTrip

/-!
# Answers, read again as requests

The changes of an answer have the form of the changes of a request. Where each of them is `Storable`,
the parser finds them again as they were and records nothing (`getChanges_written`): for each kind
of resource its reader takes back what its writer has written, and a change is the kind that its
path names, with nothing in the parts of the other kinds.
-/

namespace ProvisioningValidator

open Lib Lib.Run

variable {V : Type} (ind : Indeterminate) {p : String}

/-! ## SMS subscriptions -/

structure SmsStaticData.Storable (e : SmsStaticData V) : Prop where
  smsSubscriptionData : e.fieldExistenceSmsStaticData.hasSmsSubscriptionData = false →
    e.smsSubscriptionData = {}
  smsManagementSubscriptionData :
    e.fieldExistenceSmsStaticData.hasSmsManagementSubscriptionData = false →
      e.smsManagementSubscriptionData = {}
  smsSubscribed : e.smsSubscriptionData.smsSubscribed.isSome =
    e.fieldExistenceSmsStaticData.hasSmsSubscribed
  mtSmsSubscribed : e.smsManagementSubscriptionData.mtSmsSubscribed.isSome =
    e.fieldExistenceSmsStaticData.hasMtSmsSubscribed
  mtSmsBarringAll : e.smsManagementSubscriptionData.mtSmsBarringAll.isSome =
    e.fieldExistenceSmsStaticData.hasMtSmsBarringAll
  mtSmsBarringRoaming : e.smsManagementSubscriptionData.mtSmsBarringRoaming.isSome =
    e.fieldExistenceSmsStaticData.hasMtSmsBarringRoaming
  moSmsSubscribed : e.smsManagementSubscriptionData.moSmsSubscribed.isSome =
    e.fieldExistenceSmsStaticData.hasMoSmsSubscribed
  moSmsBarringAll : e.smsManagementSubscriptionData.moSmsBarringAll.isSome =
    e.fieldExistenceSmsStaticData.hasMoSmsBarringAll
  moSmsBarringRoaming : e.smsManagementSubscriptionData.moSmsBarringRoaming.isSome =
    e.fieldExistenceSmsStaticData.hasMoSmsBarringRoaming

/-- A flag of an SMS subscription. -/
theorem setOptionalBooleanField_written {os : List (String × Json)} {key : String} {flag : Bool}
    {x : Option Bool} (hos : os.lookup key = given flag (.bool (ind.readBool x)))
    (hx : x.isSome = flag) {setFlag put : Bool → SmsStaticData Json → SmsStaticData Json}
    {e : SmsStaticData Json} (set : Bool → Option Bool → SmsStaticData Json → SmsStaticData Json)
    (hsome : ∀ b, setFlag true (put b e) = set true (some b) e)
    (hnone : setFlag false e = set false none e) :
    setOptionalBooleanField p key setFlag put (.obj os) e = pure (set flag x e) := by
  refine flaggedBool ind hos hx set (fun b => ?_) (congrArg pure hnone)
  rw [← hsome]
  rfl

theorem written_smsSubscriptionDataObject (e : SmsStaticData Json) :
    ∃ os, smsSubscriptionDataToJson ind e = .obj os ∧
      Holds os e.smsSubscriptionData.vendorSpecific [
        (jsonSmsSubscribed, given e.fieldExistenceSmsStaticData.hasSmsSubscribed
          (.bool (ind.readBool e.smsSubscriptionData.smsSubscribed)))] := by
  refine holds_written [_] _ [] [jsonSmsSubscribed] ?_ rfl (by decide) (by decide)
  simp only [smsSubscriptionDataToJson, writtenObject, boolToJson, member_eq, whenFlag_eq,
    Json.present_nil, List.append_nil]

/-- The object is read into the subscription, which it leaves a flag in. -/
theorem getSmsSubscriptionDataObject_written {e t : SmsStaticData Json} (h : e.Storable)
    (hblank : t.smsSubscriptionData = {}) :
    getSmsSubscriptionDataObject id p (smsSubscriptionDataToJson ind e) t = pure { t with
      smsSubscriptionData := e.smsSubscriptionData
      fieldExistenceSmsStaticData.hasSmsSubscribed :=
        e.smsSubscriptionData.smsSubscribed.isSome } := by
  obtain ⟨os, hv, hos⟩ := written_smsSubscriptionDataObject ind e
  rw [hv]
  refine inOrder_step (setOptionalBooleanField_written ind hos.found h.smsSubscribed
    (fun b x t => { t with
      smsSubscriptionData.smsSubscribed := x
      fieldExistenceSmsStaticData.hasSmsSubscribed := b }) (fun _ => rfl) (by rw [hblank])) ?_
  refine inOrder_step (into_vendor hos (by rw [hblank])) ?_
  rw [h.smsSubscribed]
  rfl

theorem written_smsManagementSubscriptionDataObject (e : SmsStaticData Json) :
    ∃ os, smsManagementSubscriptionDataToJson ind e = .obj os ∧
      Holds os e.smsManagementSubscriptionData.vendorSpecific [
        (jsonMtSmsSubscribed, given e.fieldExistenceSmsStaticData.hasMtSmsSubscribed
          (.bool (ind.readBool e.smsManagementSubscriptionData.mtSmsSubscribed))),
        (jsonMtSmsBarringAll, given e.fieldExistenceSmsStaticData.hasMtSmsBarringAll
          (.bool (ind.readBool e.smsManagementSubscriptionData.mtSmsBarringAll))),
        (jsonMtSmsBarringRoaming, given e.fieldExistenceSmsStaticData.hasMtSmsBarringRoaming
          (.bool (ind.readBool e.smsManagementSubscriptionData.mtSmsBarringRoaming))),
        (jsonMoSmsSubscribed, given e.fieldExistenceSmsStaticData.hasMoSmsSubscribed
          (.bool (ind.readBool e.smsManagementSubscriptionData.moSmsSubscribed))),
        (jsonMoSmsBarringAll, given e.fieldExistenceSmsStaticData.hasMoSmsBarringAll
          (.bool (ind.readBool e.smsManagementSubscriptionData.moSmsBarringAll))),
        (jsonMoSmsBarringRoaming, given e.fieldExistenceSmsStaticData.hasMoSmsBarringRoaming
          (.bool (ind.readBool e.smsManagementSubscriptionData.moSmsBarringRoaming)))] := by
  refine holds_written [_, _, _, _, _, _] _ [] smsManagementFlags ?_ rfl (by decide)
    plain_smsManagementFlags
  simp only [smsManagementSubscriptionDataToJson, writtenObject, boolToJson, member_eq,
    whenFlag_eq, Json.present_nil, List.append_nil, ← Json.present_append, List.cons_append,
    List.nil_append]

/-- The object is read into the subscription, which it leaves its flags in. -/
theorem getSmsManagementSubscriptionDataObject_written {e t : SmsStaticData Json} (h : e.Storable)
    (hblank : t.smsManagementSubscriptionData = {}) :
    getSmsManagementSubscriptionDataObject id p (smsManagementSubscriptionDataToJson ind e) t =
      pure { t with
        smsManagementSubscriptionData := e.smsManagementSubscriptionData
        fieldExistenceSmsStaticData := {
          t.fieldExistenceSmsStaticData with
          hasMtSmsSubscribed := e.smsManagementSubscriptionData.mtSmsSubscribed.isSome
          hasMtSmsBarringAll := e.smsManagementSubscriptionData.mtSmsBarringAll.isSome
          hasMtSmsBarringRoaming := e.smsManagementSubscriptionData.mtSmsBarringRoaming.isSome
          hasMoSmsSubscribed := e.smsManagementSubscriptionData.moSmsSubscribed.isSome
          hasMoSmsBarringAll := e.smsManagementSubscriptionData.moSmsBarringAll.isSome
          hasMoSmsBarringRoaming :=
            e.smsManagementSubscriptionData.moSmsBarringRoaming.isSome } } := by
  obtain ⟨os, hv, hos⟩ := written_smsManagementSubscriptionDataObject ind e
  obtain ⟨hmt, hmtAll, hmtRoaming, hmo, hmoAll, hmoRoaming⟩ := hos.found
  obtain ⟨subscription, management, vendorSpecific, flags⟩ := t
  obtain rfl : management = {} := hblank
  rw [hv]
  refine inOrder_step (setOptionalBooleanField_written ind hmt h.mtSmsSubscribed
    (fun b x t => { t with
      smsManagementSubscriptionData.mtSmsSubscribed := x
      fieldExistenceSmsStaticData.hasMtSmsSubscribed := b }) (fun _ => rfl) rfl) ?_
  refine inOrder_step (setOptionalBooleanField_written ind hmtAll h.mtSmsBarringAll
    (fun b x t => { t with
      smsManagementSubscriptionData.mtSmsBarringAll := x
      fieldExistenceSmsStaticData.hasMtSmsBarringAll := b }) (fun _ => rfl) rfl) ?_
  refine inOrder_step (setOptionalBooleanField_written ind hmtRoaming h.mtSmsBarringRoaming
    (fun b x t => { t with
      smsManagementSubscriptionData.mtSmsBarringRoaming := x
      fieldExistenceSmsStaticData.hasMtSmsBarringRoaming := b }) (fun _ => rfl) rfl) ?_
  refine inOrder_step (setOptionalBooleanField_written ind hmo h.moSmsSubscribed
    (fun b x t => { t with
      smsManagementSubscriptionData.moSmsSubscribed := x
      fieldExistenceSmsStaticData.hasMoSmsSubscribed := b }) (fun _ => rfl) rfl) ?_
  refine inOrder_step (setOptionalBooleanField_written ind hmoAll h.moSmsBarringAll
    (fun b x t => { t with
      smsManagementSubscriptionData.moSmsBarringAll := x
      fieldExistenceSmsStaticData.hasMoSmsBarringAll := b }) (fun _ => rfl) rfl) ?_
  refine inOrder_step (setOptionalBooleanField_written ind hmoRoaming h.moSmsBarringRoaming
    (fun b x t => { t with
      smsManagementSubscriptionData.moSmsBarringRoaming := x
      fieldExistenceSmsStaticData.hasMoSmsBarringRoaming := b }) (fun _ => rfl) rfl) ?_
  refine inOrder_step (into_vendor hos rfl) ?_
  rw [h.mtSmsSubscribed, h.mtSmsBarringAll, h.mtSmsBarringRoaming, h.moSmsSubscribed,
    h.moSmsBarringAll, h.moSmsBarringRoaming]
  rfl

/-- One of the two objects; `e'` is what becomes of the subscription. -/
theorem getSmsObject_written {os : List (String × Json)} {key : String} {flag : Bool} {w : Json}
    (hos : os.lookup key = given flag w) (hw : w.IsObject)
    {setFlag : Bool → SmsStaticData Json → SmsStaticData Json} {r : Reader (SmsStaticData Json)}
    {e e₁ : SmsStaticData Json} (e' : SmsStaticData Json) (hread : r w e = pure e₁)
    (hsome : flag = true → setFlag true e₁ = e') (hnone : flag = false → setFlag false e = e') :
    getSmsObject p key setFlag r (.obj os) e = pure e' := by
  refine ifMember_given hos (fun hflag => ?_) fun hflag => ?_
  · refine Eq.trans (if_pos hw) ?_
    rw [hread, pure_bind, hsome hflag]
  · rw [← hnone hflag]
    rfl

theorem written_smsStaticData (e : SmsStaticData Json) :
    ∃ os, smsStaticDataToJson ind e = .obj os ∧ Holds os e.vendorSpecific [
      (jsonSmsSubscriptionData, given e.fieldExistenceSmsStaticData.hasSmsSubscriptionData
        (smsSubscriptionDataToJson ind e)),
      (jsonSmsManagementSubscriptionData,
        given e.fieldExistenceSmsStaticData.hasSmsManagementSubscriptionData
          (smsManagementSubscriptionDataToJson ind e))] := by
  refine holds_written [] _ _ smsObjectNames ?_ rfl (by decide) plain_smsObjectNames
  simp only [smsStaticDataToJson, writtenObject, member_eq, whenFlag_eq, List.append_assoc,
    ← Json.present_append, List.cons_append, List.nil_append, Json.present_nil]

/-- **An SMS subscription that is written can be read again.** -/
theorem getOptionalSmsStaticData_written {e : SmsStaticData Json} (h : e.Storable) :
    getOptionalSmsStaticData id p (smsStaticDataToJson ind e) {} = pure e := by
  obtain ⟨os, hv, hos⟩ := written_smsStaticData ind e
  obtain ⟨hsubscription, hmanagement⟩ := hos.found
  obtain ⟨ss, hss, -⟩ := written_smsSubscriptionDataObject ind e
  obtain ⟨ns, hns, -⟩ := written_smsManagementSubscriptionDataObject ind e
  rw [hv]
  refine inOrder_step (into_vendor hos rfl) ?_
  refine inOrder_step (getSmsObject_written hsubscription (hss ▸ Json.isObject_obj ss)
    { ({} : SmsStaticData Json) with
      vendorSpecific := e.vendorSpecific
      smsSubscriptionData := e.smsSubscriptionData
      fieldExistenceSmsStaticData.hasSmsSubscribed := e.smsSubscriptionData.smsSubscribed.isSome
      fieldExistenceSmsStaticData.hasSmsSubscriptionData :=
        e.fieldExistenceSmsStaticData.hasSmsSubscriptionData }
    (getSmsSubscriptionDataObject_written ind h rfl) (fun hflag => by rw [hflag])
    (fun hflag => by rw [hflag, h.smsSubscriptionData hflag]; rfl)) ?_
  refine inOrder_step (getSmsObject_written hmanagement (hns ▸ Json.isObject_obj ns)
    { e with fieldExistenceSmsStaticData := {
        hasSmsSubscriptionData := e.fieldExistenceSmsStaticData.hasSmsSubscriptionData
        hasSmsManagementSubscriptionData :=
          e.fieldExistenceSmsStaticData.hasSmsManagementSubscriptionData
        hasSmsSubscribed := e.smsSubscriptionData.smsSubscribed.isSome
        hasMtSmsSubscribed := e.smsManagementSubscriptionData.mtSmsSubscribed.isSome
        hasMtSmsBarringAll := e.smsManagementSubscriptionData.mtSmsBarringAll.isSome
        hasMtSmsBarringRoaming := e.smsManagementSubscriptionData.mtSmsBarringRoaming.isSome
        hasMoSmsSubscribed := e.smsManagementSubscriptionData.moSmsSubscribed.isSome
        hasMoSmsBarringAll := e.smsManagementSubscriptionData.moSmsBarringAll.isSome
        hasMoSmsBarringRoaming :=
          e.smsManagementSubscriptionData.moSmsBarringRoaming.isSome } }
    (getSmsManagementSubscriptionDataObject_written ind h rfl) (fun hflag => by rw [hflag])
    (fun hflag => by rw [hflag, h.smsManagementSubscriptionData hflag]; rfl)) ?_
  rw [h.smsSubscribed, h.mtSmsSubscribed, h.mtSmsBarringAll, h.mtSmsBarringRoaming,
    h.moSmsSubscribed, h.moSmsBarringAll, h.moSmsBarringRoaming]
  rfl

/-! ## Changes -/

/-- An entity of a kind that is written without loss. -/
def ResourceKind.Storable : (k : ResourceKind) → k.Entity V → Prop
  | udmStaticData, e => UdmStaticData.Storable e
  | udmSliceProfile, e => UdmSliceProfile.Storable e
  | udmRoamingArea, e => UdmRoamingArea.Storable e
  | smsStaticData, e => SmsStaticData.Storable e

/-- The reader of a kind takes back what its writer has written. -/
theorem reader_written (k : ResourceKind) {e : k.Entity Json} (h : k.Storable e) :
    k.reader id p (k.toJson ind e) (k.blank Json) = pure e := by
  cases k with
  | udmStaticData => exact getUdmStaticData_written ind h
  | udmSliceProfile => exact getUdmSliceProfile_written ind h
  | udmRoamingArea => exact getUdmRoamingAreas_written h
  | smsStaticData => exact getOptionalSmsStaticData_written ind h

/-- The operation and the path of a change, with blank entities. -/
def Change.header (c : Change V) : Change V :=
  { operation := c.operation, resourcePath := c.resourcePath }

/-- A change that is sent without loss: the one entity that counts can be stored, and there is
nothing in the others; with a deletion, nothing in any of them. -/
inductive Change.Storable (c : Change V) : Prop
  | deleted (hop : c.operation = jsonOperationDelete) (hpath : MandatoryText c.resourcePath)
      (hblank : c = c.header)
  | delivered (k : ResourceKind) (hop : Delivers c) (hpath : MandatoryText c.resourcePath)
      (hk : contains c.resourcePath k.keyword = true)
      (honly : ∀ k' ≠ k, contains c.resourcePath k'.keyword = false)
      (hstored : k.Storable (k.entity c)) (hblank : c = k.withEntity (k.entity c) c.header)

theorem isObject_toJson (k : ResourceKind) (e : k.Entity Json) : (k.toJson ind e).IsObject := by
  cases k with
  | udmStaticData => exact Json.isObject_obj _
  | udmSliceProfile => exact Json.isObject_obj _
  | udmRoamingArea => exact Json.isObject_obj _
  | smsStaticData => exact Json.isObject_obj _

theorem getOperation_eq {op : String}
    (h : op = jsonOperationCreate ∨ op = jsonOperationUpdate ∨ op = jsonOperationDelete) :
    getOperation (.str (cstr op)) = pure (some op) := by
  rcases h with rfl | rfl | rfl
  · rfl
  · rfl
  · rfl

theorem getResourcePath_eq {path : String} (h : MandatoryText path) :
    getResourcePath (.str (cstr path)) = pure (some path) := by
  rw [getResourcePath, asString, cstr_cstr, cstr_eq_self.2 h.1]
  simp only [if_neg h.2]

/-- The member `data` of a change, read into the header of it. -/
theorem getChangeData_written {c : Change Json} {k : ResourceKind}
    (hk : contains c.resourcePath k.keyword = true)
    (honly : ∀ k' ≠ k, contains c.resourcePath k'.keyword = false)
    (hstored : k.Storable (k.entity c)) (hblank : c = k.withEntity (k.entity c) c.header) :
    getChangeData id (k.toJson ind (k.entity c)) c.header = pure c := by
  have hstart : k.entity c.header = k.blank Json := by
    cases k <;> rfl
  rw [ResourceKind.getChangeData_of_only (c := c.header) id hk honly, ResourceKind.readInto, hstart,
    reader_written ind k hstored, pure_bind, ← hblank]

/-- **A change that is sent without loss is found again.** -/
theorem getChange_written {c : Change Json} (h : c.Storable) :
    ∃ ms, changeToJson ind c = .obj ms ∧ getChange id {} ms = pure (some c) := by
  have hstart : ∀ {op path : String} (ms : List (String × Json)),
      (op = jsonOperationCreate ∨ op = jsonOperationUpdate ∨ op = jsonOperationDelete) →
      MandatoryText path →
        getChange id {} ((jsonOperation, .str (cstr op)) :: (jsonResourcePath, .str (cstr path)) ::
          ms) = getChange id ({ operation := op, resourcePath := path } : Change Json) ms := by
    intro op path ms hop hpath
    rw [getChange, if_pos (by decide), getOperation_eq hop, pure_bind]
    show getChange id _ ((jsonResourcePath, .str (cstr path)) :: ms) = _
    rw [getChange, if_neg (by decide), if_pos (by decide), getResourcePath_eq hpath, pure_bind]
  cases h with
  | deleted hop hpath hblank =>
    refine ⟨_, rfl, ?_⟩
    have hflag : (c.operation != jsonOperationDelete) = false := by simp [hop]
    rw [hflag, whenFlag, if_neg Bool.false_ne_true, List.append_nil,
      hstart [] (.inr (.inr hop)) hpath]
    exact congrArg (fun c => pure (some c)) hblank.symm
  | delivered k hop hpath hk honly hstored hblank =>
    refine ⟨_, rfl, ?_⟩
    have hne : c.operation ≠ jsonOperationDelete := by
      rcases hop with hop | hop
      · simp [hop]
      · simp [hop]
    have hflag : (c.operation != jsonOperationDelete) = true := bne_iff_ne.2 hne
    rw [hflag, whenFlag, if_pos rfl, ResourceKind.changeDataToJson_of_only hk honly]
    refine (hstart _ (hop.elim .inl (.inr ∘ .inl)) hpath).trans ?_
    show getChange id c.header [(jsonData, k.toJson ind (k.entity c))] = _
    rw [getChange, if_neg (by decide), if_neg (by decide), if_pos (by decide),
      if_pos (isObject_toJson ind k _), getChangeData_written ind hk honly hstored hblank, pure_bind]
    rfl

/-- **The changes of an answer, read as the changes of a request.** -/
theorem getChanges_written {cs : List (Change Json)} (h : ∀ c ∈ cs, c.Storable) :
    getChanges id (cs.map (changeToJson ind)) = pure (true, cs) := by
  induction cs with
  | nil => rfl
  | cons c cs ih =>
    obtain ⟨ms, hms, hread⟩ := getChange_written ind (h c List.mem_cons_self)
    rw [List.map_cons, hms, getChanges, hread, pure_bind]
    simp only [ih fun c hc => h c (List.mem_cons_of_mem _ hc), pure_bind]

/-- A document with the changes of an answer, whatever else is in it. -/
theorem getChangesToValidate_written {cs : List (Change Json)} (h : ∀ c ∈ cs, c.Storable)
    {doc : Json} (hdoc : doc.IsObject) (hchanges : doc.member? jsonChanges =
      (validatorResponseToJson ind { changes := cs }).member? jsonChanges) :
    getChangesToValidate id doc = pure (true, cs) := by
  rw [getChangesToValidate_eq hdoc, hchanges, validatorResponseToJson, if_pos rfl,
    Json.member?_obj]
  cases cs with
  | nil => rfl
  | cons c cs => exact getChanges_written ind h

end ProvisioningValidator
