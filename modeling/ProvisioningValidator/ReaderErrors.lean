import Mathlib
import ProvisioningValidator.KindAgreement

/-!
# Readers report about their resource

Every reader of the parser is given the path of the resource that it reads a part of, and hands it
on to the readers it calls. `Event.About` says that an error which is recorded is about the resource
under a path; each reader records nothing else (`records_reader`).
-/

namespace ProvisioningValidator

open Lib Lib.Run

variable {A E V : Type}

/-! ## What an error is about -/

/-- The messages of errors that are about a resource. -/
def errorMessages : List String :=
  ["Constraint Violation", "ConstraintViolation", "Unprocessable entity"]

/-- One of the messages, with a description and the path as its details. -/
def Error.About (path : String) (e : Error) : Prop :=
  ∃ message ∈ errorMessages, ∃ description, e = mkError message path description

/-- An error that is recorded is about the resource. -/
def Event.About (path : String) : Event → Prop
  | .error e => e.About path
  | .parsingError _ => True

@[simp] theorem about_parsingError (p err : String) : (Event.parsingError err).About p := trivial

@[simp] theorem about_constraintViolation (p description : String) :
    (Event.error (constraintViolation p description)).About p :=
  ⟨_, by decide, description, rfl⟩

@[simp] theorem about_mkError (p description : String) :
    (Event.error (mkError "ConstraintViolation" p description)).About p :=
  ⟨_, by decide, description, rfl⟩

@[simp] theorem records_addError (p description : String) :
    Records (Event.About p) (addError p description) := by
  simp [addError]

@[simp] theorem records_setParsingError (p err : String) :
    Records (Event.About p) (setParsingError err) := by
  simp [setParsingError]

/-! ## The steps of the readers -/

section

variable {p : String} {v : Json} {e : E}

@[simp] theorem records_inOrder {rs : List (Reader E)}
    (h : ∀ r ∈ rs, ∀ e, Records (Event.About p) (r v e)) :
    Records (Event.About p) (Reader.inOrder rs v e) := by
  induction rs generalizing e with
  | nil => exact records_pure e
  | cons r rs ih =>
    exact (h r List.mem_cons_self e).bind fun e' _ =>
      ih fun r' hr => h r' (List.mem_cons_of_mem r hr)

@[simp] theorem records_mark (set : E → E) :
    Records (Event.About p) (Reader.mark set v e) := records_pure _

@[simp] theorem records_marking {set : E → E} {r : Reader E} :
    Records (Event.About p) (Reader.marking set r v e) ↔ Records (Event.About p) (r v (set e)) :=
  Iff.rfl

@[simp] theorem records_into {get : E → A} {put : A → E → E} {r : Reader A} :
    Records (Event.About p) (Reader.into get put r v e) ↔
      Records (Event.About p) (r v (get e)) := records_bind_pure

@[simp] theorem records_ifMember {key : String} {r : Reader E} {absent : E → ParserM E}
    (hpresent : ∀ w, Records (Event.About p) (r w e))
    (habsent : Records (Event.About p) (absent e)) :
    Records (Event.About p) (Reader.ifMember key r absent v e) := by
  refine (records_lift _).bind fun o _ => ?_
  cases o with
  | none => exact habsent
  | some w => exact hpresent w

@[simp] theorem records_skip : Records (Event.About p) (Reader.skip e) := records_pure e

@[simp] theorem records_without (set : E → E) :
    Records (Event.About p) (Reader.without set e) := records_pure _

@[simp] theorem records_mandatory (description : String) :
    Records (Event.About p) (Reader.mandatory p description e) := by
  simp [Reader.mandatory]

theorem records_firstMember {absent : ParserM A} {rest : List (String × (Json → ParserM A))}
    (habsent : Records (Event.About p) absent)
    (h : ∀ m ∈ rest, ∀ w, Records (Event.About p) (m.2 w)) :
    Records (Event.About p) (Reader.firstMember absent rest v) := by
  induction rest with
  | nil => exact habsent
  | cons m rest ih =>
    refine (records_lift _).bind fun o _ => ?_
    cases o with
    | none => exact ih fun m' hm => h m' (List.mem_cons_of_mem m hm)
    | some w => exact h m List.mem_cons_self w

@[simp] theorem records_leaf (view : Json → Option A) (description : String)
    (put : A → E → E) : Records (Event.About p) (Reader.leaf view p description put v e) := by
  rw [Reader.leaf]
  cases view v <;> simp

@[simp] theorem records_string (key : String) (put : String → E → E) :
    Records (Event.About p) (Reader.string p key put v e) := records_leaf _ _ _

@[simp] theorem records_int (key : String) (put : Int → E → E) :
    Records (Event.About p) (Reader.int p key put v e) := records_leaf _ _ _

@[simp] theorem records_bool (key : String) (put : Bool → E → E) :
    Records (Event.About p) (Reader.bool p key put v e) := records_leaf _ _ _

@[simp] theorem records_nonEmptyString (key field : String) (put : String → E → E) :
    Records (Event.About p) (Reader.nonEmptyString p key field put v e) := by
  rw [Reader.nonEmptyString]
  cases asString v with
  | none => simp
  | some s => by_cases hs : s = "" <;> simp [hs]

@[simp] theorem records_array {key : String} {element : Json → ParserM (Option A)}
    {put : List A → E → E} (h : ∀ w, Records (Event.About p) (element w)) :
    Records (Event.About p) (Reader.array p key element put v e) := by
  rw [Reader.array]
  cases asArray v with
  | none => simp
  | some xs => simp [h]

@[simp] theorem records_object {key : String} {r : Reader E} :
    Records (Event.About p) (Reader.object p key r v e) ↔
      (v.IsObject → Records (Event.About p) (r v e)) := by
  rw [Reader.object]
  by_cases hv : v.IsObject <;> simp [hv]

@[simp] theorem records_stringElement (key : String) :
    Records (Event.About p) (Reader.stringElement p key v) := by
  rw [Reader.stringElement]
  cases asString v <;> simp

@[simp] theorem records_strings (key : String) (put : List String → E → E) :
    Records (Event.About p) (Reader.strings p key put v e) :=
  records_array fun _ => records_stringElement key

@[simp] theorem records_objectElement {key : String} {element : Json → ParserM (Option A)} :
    Records (Event.About p) (Reader.objectElement p key element v) ↔
      (v.IsObject → Records (Event.About p) (element v)) := by
  rw [Reader.objectElement]
  by_cases hv : v.IsObject <;> simp [hv]

@[simp] theorem records_fresh {start : A} {r : Reader A} :
    Records (Event.About p) (Reader.fresh start r v) ↔ Records (Event.About p) (r v start) :=
  records_bind_pure

end

/-! ## Readers of slice data -/

section

variable (val : Json → V) (p : String) (v : Json)

@[simp] theorem records_getVendorSpecific (m : VendorSpecific V) :
    Records (Event.About p) (getVendorSpecific val v m) := by
  simp [getVendorSpecific]

@[simp] theorem records_getSnssai (e : Snssai V) :
    Records (Event.About p) (getSnssai val p v e) := by
  apply records_inOrder
  simp

@[simp] theorem records_getNssaiDetails (key : String) :
    Records (Event.About p) (getNssaiDetails val p key v) := by
  refine records_objectElement.2 fun _ => records_fresh.2 ?_
  apply records_inOrder
  simp

@[simp] theorem records_getSliceInfoNssai (e : PlmnIdSets V) :
    Records (Event.About p) (getSliceInfoNssai val p v e) := by
  apply records_inOrder
  simp

@[simp] theorem records_getPduSessionTypes (e : DnnData V) :
    Records (Event.About p) (getPduSessionTypes val p v e) := by
  apply records_inOrder
  simp

@[simp] theorem records_getSscModes (e : SscModes V) :
    Records (Event.About p) (getSscModes val p v e) := by
  apply records_inOrder
  simp

@[simp] theorem records_getUpSecurity (e : UpSecurity V) :
    Records (Event.About p) (getUpSecurity val p v e) := by
  apply records_inOrder
  simp

@[simp] theorem records_getSessionAmbr (e : Ambr V) :
    Records (Event.About p) (getSessionAmbr val p v e) := by
  apply records_inOrder
  simp

@[simp] theorem records_getArp (e : Arp V) : Records (Event.About p) (getArp val p v e) := by
  apply records_inOrder
  simp

@[simp] theorem records_getFivegQosProfile (e : FivegQosProfile V) :
    Records (Event.About p) (getFivegQosProfile val p v e) := by
  apply records_inOrder
  simp

@[simp] theorem records_getDnnDataFlag (key : String) (setFlag put : Bool → DnnData V → DnnData V)
    (e : DnnData V) : Records (Event.About p) (getDnnDataFlag p key setFlag put v e) := by
  apply records_ifMember
  all_goals simp

@[simp] theorem records_getDnnData (e : DnnData V) :
    Records (Event.About p) (getDnnData val p v e) := by
  apply records_inOrder
  simp

@[simp] theorem records_getDnnList (e : DnnList V) :
    Records (Event.About p) (getDnnList val p v e) := by
  apply records_inOrder
  simp

@[simp] theorem records_checkAnyNssai (e : PlmnIdSets V) :
    Records (Event.About p) (checkAnyNssai p v e) := by
  unfold checkAnyNssai
  split_ifs
  all_goals simp

@[simp] theorem records_getPlmnIdSet (isSliceData : Bool) (e : PlmnIdSets V) :
    Records (Event.About p) (getPlmnIdSet val p isSliceData v e) := by
  apply records_inOrder
  cases isSliceData
  all_goals simp

@[simp] theorem records_getPlmnIdSets (isSliceData : Bool) (xs : List Json) :
    Records (Event.About p) (getPlmnIdSets val p isSliceData xs) := by
  apply records_collect
  simp

@[simp] theorem records_getUdmSliceProfile (e : UdmSliceProfile V) :
    Records (Event.About p) (getUdmSliceProfile val p v e) := by
  apply records_inOrder
  simp only [List.forall_mem_cons, List.not_mem_nil, false_implies, implies_true, and_true]
  refine ⟨by simp, by simp, fun e => records_ifMember (fun w => ?_) records_skip⟩
  cases asArray w <;> simp

/-! ## Readers of static data -/

@[simp] theorem records_getSubscribedUeAmbr (e : Ambr V) :
    Records (Event.About p) (getSubscribedUeAmbr val p v e) := by
  apply records_inOrder
  simp

@[simp] theorem records_getUdmRoamingAreaReference (parent : String) :
    Records (Event.About p) (getUdmRoamingAreaReference val p parent v) := by
  refine (records_getVendorSpecific val p v ∅).bind fun m _ => (records_lift _).bind fun o _ => ?_
  cases o with
  | none => simp
  | some w =>
    dsimp only
    cases asString w <;> simp

@[simp] theorem records_getServiceAreaRestriction (e : UdmStaticData V) :
    Records (Event.About p) (getServiceAreaRestriction val p v e) := by
  apply records_inOrder
  simp

@[simp] theorem records_getUdmSliceProfileId (e : UdmSliceProfileId V) :
    Records (Event.About p) (getUdmSliceProfileId val p v e) := by
  apply records_inOrder
  simp

@[simp] theorem records_getIp (key : String) (ipType : IpAddrType) (m : VendorSpecific V) :
    Records (Event.About p) (getIp p key ipType m v) := by
  unfold getIp
  cases asString v <;> simp

@[simp] theorem records_getIpAddr : Records (Event.About p) (getIpAddr val p v) := by
  refine (records_getVendorSpecific val p v ∅).bind fun m _ => ?_
  apply records_firstMember
  all_goals simp

@[simp] theorem records_getDnnIps (dnn : String) :
    Records (Event.About p) (getDnnIps val p dnn v) := by
  apply records_inOrder
  simp

@[simp] theorem records_getDnnIpList (dnn : String) (ddnlist : List (DnnIps V)) (ws : List Json) :
    Records (Event.About p) (getDnnIpList val p dnn ddnlist ws) := by
  induction ws generalizing dnn ddnlist with
  | nil => exact records_pure ddnlist
  | cons w ws ih =>
    rw [getDnnIpList]
    split_ifs
    · exact (records_getDnnIps val p w dnn).bind fun e _ => ih _ _
    · exact (records_addError p _).bind fun _ _ => ih _ _

@[simp] theorem records_getDnnIpLists (e : List (DnnIps V)) :
    Records (Event.About p) (getDnnIpLists val p v e) := by
  unfold getDnnIpLists
  cases asArray v <;> simp

@[simp] theorem records_getNssaiDnnIpsMember (e : NssaiDnnIps V) (m : String × Json) :
    Records (Event.About p) (getNssaiDnnIpsMember val p e m) := by
  unfold getNssaiDnnIpsMember
  split_ifs <;> simp

theorem records_foldlM {f : E → A → ParserM E} (h : ∀ e a, Records (Event.About p) (f e a))
    (e : E) (as : List A) : Records (Event.About p) (as.foldlM f e) := by
  induction as generalizing e with
  | nil => exact records_pure e
  | cons a as ih =>
    rw [List.foldlM_cons]
    exact (h e a).bind fun e' _ => ih e'

@[simp] theorem records_getNssaiDnnIps : Records (Event.About p) (getNssaiDnnIps val p v) := by
  refine (records_getVendorSpecific val p v ∅).bind fun m _ => (records_lift _).bind fun ms _ => ?_
  rw [records_bind_pure]
  exact records_foldlM p (fun e m => records_getNssaiDnnIpsMember val p e m) _ ms

@[simp] theorem records_getStaticIpAddress (e : StaticIpAddress V) :
    Records (Event.About p) (getStaticIpAddress val p v e) := by
  apply records_inOrder
  simp only [List.forall_mem_cons, List.not_mem_nil, false_implies, implies_true, and_true]
  refine ⟨by simp, fun e => (records_lift _).bind fun w _ => ?_⟩
  simp

@[simp] theorem records_getUdmSliceData (e : UdmSliceData V) :
    Records (Event.About p) (getUdmSliceData val p v e) := by
  apply records_inOrder
  simp only [List.forall_mem_cons, List.not_mem_nil, false_implies, implies_true, and_true]
  refine ⟨by simp, fun e => records_ifMember (fun w => ?_) records_skip⟩
  cases asArray w <;> simp

@[simp] theorem records_getStaticBool (key : String)
    (setFlag put : Bool → UdmStaticData V → UdmStaticData V) (e : UdmStaticData V) :
    Records (Event.About p) (getStaticBool p key setFlag put v e) := by
  apply records_ifMember
  all_goals simp

@[simp] theorem records_getStaticInt (key : String)
    (setFlag : Bool → UdmStaticData V → UdmStaticData V)
    (put : Int → UdmStaticData V → UdmStaticData V) (e : UdmStaticData V) :
    Records (Event.About p) (getStaticInt p key setFlag put v e) := by
  apply records_ifMember
  all_goals simp

@[simp] theorem records_getUdmStaticData (e : UdmStaticData V) :
    Records (Event.About p) (getUdmStaticData val p v e) := by
  apply records_inOrder
  simp

/-! ## The other readers -/

@[simp] theorem records_getAreaList (e : AreaList V) :
    Records (Event.About p) (getAreaList val p v e) := by
  apply records_inOrder
  simp only [List.forall_mem_cons, List.not_mem_nil, false_implies, implies_true, and_true]
  refine ⟨by simp, fun e => ?_⟩
  apply records_firstMember
  all_goals simp

@[simp] theorem records_getUdmRoamingAreas (e : UdmRoamingArea V) :
    Records (Event.About p) (getUdmRoamingAreas val p v e) := by
  apply records_inOrder
  simp

@[simp] theorem records_setOptionalBooleanField (fieldName : String)
    (setFlag put : Bool → SmsStaticData V → SmsStaticData V) (e : SmsStaticData V) :
    Records (Event.About p) (setOptionalBooleanField p fieldName setFlag put v e) := by
  refine records_ifMember (fun w => ?_) (records_without _)
  cases asBool w <;> simp

@[simp] theorem records_getSmsSubscriptionDataObject (e : SmsStaticData V) :
    Records (Event.About p) (getSmsSubscriptionDataObject val p v e) := by
  apply records_inOrder
  simp

@[simp] theorem records_getSmsManagementSubscriptionDataObject (e : SmsStaticData V) :
    Records (Event.About p) (getSmsManagementSubscriptionDataObject val p v e) := by
  apply records_inOrder
  simp

@[simp] theorem records_getSmsObject {key : String}
    {setFlag : Bool → SmsStaticData V → SmsStaticData V} {r : Reader (SmsStaticData V)}
    (h : ∀ w e, Records (Event.About p) (r w e)) (e : SmsStaticData V) :
    Records (Event.About p) (getSmsObject p key setFlag r v e) := by
  refine records_ifMember (fun w => ?_) (records_without _)
  split_ifs
  · exact records_bind_pure.2 (h w e)
  · simp

@[simp] theorem records_getOptionalSmsStaticData (e : SmsStaticData V) :
    Records (Event.About p) (getOptionalSmsStaticData val p v e) := by
  apply records_inOrder
  simp

theorem records_reader (k : ResourceKind) (e : k.Entity V) :
    Records (Event.About p) (k.reader val p v e) := by
  cases k with
  | udmStaticData => exact records_getUdmStaticData val p v e
  | udmSliceProfile => exact records_getUdmSliceProfile val p v e
  | udmRoamingArea => exact records_getUdmRoamingAreas val p v e
  | smsStaticData => exact records_getOptionalSmsStaticData val p v e

end

end ProvisioningValidator
