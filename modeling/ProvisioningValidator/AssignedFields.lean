import Mathlib
import ProvisioningValidator.Entities
import ProvisioningValidator.ReaderOutcomes

/-!
# Which fields the parser assigns

The fields of type `int` and `bool` have no value before they are assigned. The rules and the encoder
read most of them under a flag, and `sst`, `5qi` and the priority of `arp` always. The predicates of
this module say of an entity that what is read in this way has a value. Every reader that records no
error keeps them (`leads_reader`): a member that is missing clears the flag or is an error, and a
value of another kind is an error.

The S-NSSAIs of static addresses are left out: their `nssai` may be missing without an error.
-/

namespace ProvisioningValidator

open Lib Lib.Run

variable {E A V : Type} {val : Json → V}

/-! ## Assigned entities -/

/-- A field that is read under a flag has a value if the flag is set. -/
def SetIf (flag : Bool) (x : Option A) : Prop := flag = true → x.isSome = true

def SnssaiAssigned (n : Snssai V) : Prop := n.sst.isSome = true

def ArpAssigned (a : Arp V) : Prop := a.priorityLevel.isSome = true

def FivegQosProfileAssigned (p : FivegQosProfile V) : Prop :=
  p.fiveqi.isSome = true ∧ ArpAssigned p.arp ∧
    SetIf p.fieldExistence.hasPriorityLevel p.priorityLevel

def DnnDataAssigned (d : DnnData V) : Prop :=
  SetIf d.fieldExistence.hasDefaultDnnIndicator d.defaultDnnIndicator ∧
  SetIf d.fieldExistence.hasLboRoamingAllowed d.lboRoamingAllowed ∧
  SetIf d.fieldExistence.hasIwkEpsInd d.iwkEpsInd ∧
  SetIf d.fieldExistence.hasLadnIndicator d.ladnIndicator ∧
  SetIf d.fieldExistence.hasSameSmfInd d.sameSmfInd ∧
  (d.fieldExistence.hasFivegQosProfile = true → FivegQosProfileAssigned d.fivegQosProfile)

def DnnListAssigned (l : DnnList V) : Prop := ∀ d ∈ l.dnnDataList, DnnDataAssigned d

def PlmnIdSetAssigned (s : PlmnIdSets V) : Prop :=
  (∀ n ∈ s.nssai.defaultSingleNssais, SnssaiAssigned n.nssai) ∧
  (∀ n ∈ s.nssai.singleNssais, SnssaiAssigned n.nssai) ∧
  ∀ l ∈ s.dnnLists, DnnListAssigned l

def UdmSliceProfileAssigned (e : UdmSliceProfile V) : Prop :=
  ∀ s ∈ e.plmnIdSets, PlmnIdSetAssigned s

def UdmStaticDataAssigned (e : UdmStaticData V) : Prop :=
  SetIf e.fieldExistence.hasMpsPriority e.mpsPriority ∧
  SetIf e.fieldExistence.hasMcsPriority e.mcsPriority ∧
  SetIf e.fieldExistence.hasDlPacketCount e.dlPacketCount ∧
  SetIf e.fieldExistence.hasMicoAllowed e.micoAllowed ∧
  SetIf e.fieldExistence.hasUeUsageType e.ueUsageType ∧
  SetIf e.fieldExistence.hasRfspIndex e.rfspIndex ∧
  SetIf e.fieldExistence.hasSubsRegTimer e.subsRegTimer ∧
  SetIf e.fieldExistence.hasMaxNumOfTas e.serviceAreaRestriction.maxNumOfTas ∧
  ∀ s ∈ e.udmSliceData.plmnIdSets, PlmnIdSetAssigned s

def SmsStaticDataAssigned (e : SmsStaticData V) : Prop :=
  SetIf e.fieldExistenceSmsStaticData.hasSmsSubscribed e.smsSubscriptionData.smsSubscribed ∧
  SetIf e.fieldExistenceSmsStaticData.hasMtSmsSubscribed
    e.smsManagementSubscriptionData.mtSmsSubscribed ∧
  SetIf e.fieldExistenceSmsStaticData.hasMtSmsBarringAll
    e.smsManagementSubscriptionData.mtSmsBarringAll ∧
  SetIf e.fieldExistenceSmsStaticData.hasMtSmsBarringRoaming
    e.smsManagementSubscriptionData.mtSmsBarringRoaming ∧
  SetIf e.fieldExistenceSmsStaticData.hasMoSmsSubscribed
    e.smsManagementSubscriptionData.moSmsSubscribed ∧
  SetIf e.fieldExistenceSmsStaticData.hasMoSmsBarringAll
    e.smsManagementSubscriptionData.moSmsBarringAll ∧
  SetIf e.fieldExistenceSmsStaticData.hasMoSmsBarringRoaming
    e.smsManagementSubscriptionData.moSmsBarringRoaming

/-- What is read of an entity of the kind has a value. -/
def ResourceKind.Assigned : (k : ResourceKind) → k.Entity V → Prop
  | .udmStaticData => UdmStaticDataAssigned
  | .udmSliceProfile => UdmSliceProfileAssigned
  | .udmRoamingArea => fun _ => True
  | .smsStaticData => SmsStaticDataAssigned

/-- What is read of the entities of a change has a value, static addresses apart. -/
def ChangeAssigned (c : Change V) : Prop := ∀ k : ResourceKind, k.Assigned (k.entity c)

theorem setIf_some {flag : Bool} {a : A} : SetIf flag (some a) := fun _ => rfl

theorem setIf_false {x : Option A} : SetIf false x := nofun

theorem changeAssigned_blank : ChangeAssigned ({} : Change V) := by
  intro k
  cases k with
  | udmStaticData =>
    exact ⟨setIf_false, setIf_false, setIf_false, setIf_false, setIf_false, setIf_false,
      setIf_false, setIf_false, List.forall_mem_nil _⟩
  | udmSliceProfile => exact List.forall_mem_nil _
  | udmRoamingArea => trivial
  | smsStaticData =>
    exact ⟨setIf_false, setIf_false, setIf_false, setIf_false, setIf_false, setIf_false,
      setIf_false⟩

/-! ## Slice data -/

variable (p : String)

theorem leads_getSnssai : Leads (fun _ => True) (getSnssai val p) SnssaiAssigned := by
  refine .keep (.part ?_) <| .reach (.demanded (.leaf ?_)) <|
    .keep (.optional (.leaf ?_) ?_) .nil
  · exact fun _ _ _ => trivial
  · exact fun n e _ => rfl
  · exact fun s e h => h
  · exact fun e h => h

theorem gives_getNssaiDetails (key : String) :
    Gives (getNssaiDetails val p key) fun n => SnssaiAssigned n.nssai := by
  refine .objectElement (.fresh (I := fun _ => True) (.keep (.part ?_) <|
    .keep (.optional (.leaf ?_) ?_) <| .keep (.optional (.leaf ?_) ?_) <|
    .reach (.demanded (.object (.into (leads_getSnssai p) ?_ ?_))) .nil) trivial)
  · exact fun _ _ _ => trivial
  · exact fun _ _ _ => trivial
  · exact fun _ _ => trivial
  · exact fun _ _ _ => trivial
  · exact fun _ _ => trivial
  · exact fun _ _ => trivial
  · exact fun a e _ ha => ha

theorem leads_getSliceInfoNssai :
    Leads PlmnIdSetAssigned (getSliceInfoNssai val p) PlmnIdSetAssigned := by
  refine .keep (.part ?_) <|
    .keep (.optional (.array (gives_getNssaiDetails p jsonDefaultSingleNssais) ?_) ?_) <|
    .keep (.flagged (.marked ?_ (.array (gives_getNssaiDetails p jsonSingleNssais) ?_)) ?_) .nil
  · exact fun m e h => h
  · exact fun as e h has => ⟨List.forall_mem_append.2 ⟨h.1, has⟩, h.2⟩
  · exact fun e h => h
  · exact fun e h => h
  · exact fun as e h has => ⟨h.1, List.forall_mem_append.2 ⟨h.2.1, has⟩, h.2.2⟩
  · exact fun e h => h

theorem leads_getArp : Leads (fun _ => True) (getArp val p) ArpAssigned := by
  refine .keep (.part ?_) <| .reach (.demanded (.leaf ?_)) <|
    .keep (.demanded (.leaf ?_)) <| .keep (.demanded (.leaf ?_)) .nil
  · exact fun _ _ _ => trivial
  · exact fun n e _ => rfl
  · exact fun s e h => h
  · exact fun s e h => h

theorem leads_getFivegQosProfile :
    Leads (fun _ => True) (getFivegQosProfile val p) FivegQosProfileAssigned := by
  refine .keep (.part ?_) <|
    .cons (J := fun e => e.fiveqi.isSome = true) (.demanded (.leaf ?_)) <|
    .cons (J := fun e => e.fiveqi.isSome = true ∧ ArpAssigned e.arp)
      (.demanded (.object (.into (leads_getArp p) ?_ ?_))) <|
    .reach (.flagged (.marked ?_ (.leaf ?_)) ?_) .nil
  · exact fun _ _ _ => trivial
  · exact fun n e _ => rfl
  · exact fun _ _ => trivial
  · exact fun a e h ha => ⟨h, ha⟩
  · exact fun e h => h
  · exact fun n e h => ⟨h.1, h.2, setIf_some⟩
  · exact fun e h => ⟨h.1, h.2, setIf_false⟩

/-- A flag that is set with the value and cleared without. -/
theorem leads_getDnnDataFlag {key : String} {setFlag put : Bool → DnnData V → DnnData V}
    {I : DnnData V → Prop} (hset : ∀ b e, I e → I (put b (setFlag true e)))
    (hclear : ∀ e, I e → I (setFlag false e)) :
    Leads I (getDnnDataFlag p key setFlag put) I := by
  refine .flagged (.marking (.leaf ?_)) hclear
  intro b e he
  obtain ⟨e₀, he₀, rfl⟩ := he
  exact hset b e₀ he₀

theorem leads_getPduSessionTypes :
    Leads DnnDataAssigned (getPduSessionTypes val p) DnnDataAssigned := by
  refine .keep (.part ?_) <| .keep (.optional (.leaf ?_) ?_) <|
    .keep (.flagged (.marked ?_ (.anyArray ?_)) ?_) .nil
  all_goals first | exact fun _ _ h => h | exact fun _ h => h

/-- The attributes of a DNN: those with a value are read with their flags. -/
theorem leads_getDnnData : Leads DnnDataAssigned (getDnnData val p) DnnDataAssigned := by
  have hqos : ∀ (a : FivegQosProfile V) (e : DnnData V),
      (∃ e₀, DnnDataAssigned e₀ ∧ { e₀ with fieldExistence.hasFivegQosProfile := true } = e) →
        FivegQosProfileAssigned a → DnnDataAssigned { e with fivegQosProfile := a } := by
    intro a e he ha
    obtain ⟨e₀, h, rfl⟩ := he
    exact ⟨h.1, h.2.1, h.2.2.1, h.2.2.2.1, h.2.2.2.2.1, fun _ => ha⟩
  refine .keep (.part ?_) <| .keep (.optional (.leaf ?_) ?_) <|
    .keep (leads_getDnnDataFlag p (fun b e h => ⟨setIf_some, h.2⟩)
      fun e h => ⟨setIf_false, h.2⟩) <|
    .keep (leads_getDnnDataFlag p (fun b e h => ⟨h.1, setIf_some, h.2.2⟩)
      fun e h => ⟨h.1, setIf_false, h.2.2⟩) <|
    .keep (leads_getDnnDataFlag p (fun b e h => ⟨h.1, h.2.1, setIf_some, h.2.2.2⟩)
      fun e h => ⟨h.1, h.2.1, setIf_false, h.2.2.2⟩) <|
    .keep (leads_getDnnDataFlag p (fun b e h => ⟨h.1, h.2.1, h.2.2.1, setIf_some, h.2.2.2.2⟩)
      fun e h => ⟨h.1, h.2.1, h.2.2.1, setIf_false, h.2.2.2.2⟩) <|
    .keep (.flagged (.marked ?_ (.object (leads_getPduSessionTypes p))) ?_) <|
    .keep (.flagged (.marked ?_ (.object (.part ?_))) ?_) <| .keep (.optional (.leaf ?_) ?_) <|
    .keep (.flagged (.marked ?_ (.object (.part ?_))) ?_) <|
    .keep (.flagged (.marked ?_ (.object (.part ?_))) ?_) <|
    .keep (.flagged (.marked ?_ (.anyArray ?_)) ?_) <|
    .keep (leads_getDnnDataFlag p
      (fun b e h => ⟨h.1, h.2.1, h.2.2.1, h.2.2.2.1, setIf_some, h.2.2.2.2.2⟩)
      fun e h => ⟨h.1, h.2.1, h.2.2.1, h.2.2.2.1, setIf_false, h.2.2.2.2.2⟩) <|
    .keep (.flagged (.marking (.object (.into (leads_getFivegQosProfile p)
      (fun _ _ => trivial) hqos)))
      fun e h => ⟨h.1, h.2.1, h.2.2.1, h.2.2.2.1, h.2.2.2.2.1, nofun⟩) .nil
  all_goals first | exact fun _ _ h => h | exact fun _ h => h

theorem dnnDataAssigned_blank : DnnDataAssigned ({} : DnnData V) :=
  ⟨setIf_false, setIf_false, setIf_false, setIf_false, setIf_false, nofun⟩

theorem leads_getDnnList : Leads DnnListAssigned (getDnnList val p) DnnListAssigned := by
  have helement : Gives (Reader.objectElement p jsonDnnDataList <|
      Reader.fresh {} (getDnnData val p)) DnnDataAssigned :=
    .objectElement (.fresh (leads_getDnnData p) dnnDataAssigned_blank)
  refine .keep (.part ?_) <| .keep (.demanded (.leaf ?_)) <|
    .keep (.optional (.array helement ?_) ?_) .nil
  · exact fun m e h => h
  · exact fun s e h => h
  · exact fun as e h has => List.forall_mem_append.2 ⟨h, has⟩
  · exact fun e h => h

theorem leads_checkAnyNssai {I : PlmnIdSets V → Prop} : Leads I (checkAnyNssai p) I := by
  intro v e e' he hrun
  rw [checkAnyNssai] at hrun
  split_ifs at hrun
  · obtain ⟨u, hreport, -⟩ := yields_bind.1 hrun
    exact absurd hreport not_quiet_addError
  · exact (yields_pure.1 hrun) ▸ he

theorem leads_getPlmnIdSet (isSliceData : Bool) :
    Leads PlmnIdSetAssigned (getPlmnIdSet val p isSliceData) PlmnIdSetAssigned := by
  have helement : Gives (Reader.objectElement p jsonDnnLists <|
      Reader.fresh {} (getDnnList val p)) DnnListAssigned :=
    .objectElement (.fresh (leads_getDnnList p) (List.forall_mem_nil _))
  have hlists : ∀ as (e : PlmnIdSets V), PlmnIdSetAssigned e → (∀ l ∈ as, DnnListAssigned l) →
      PlmnIdSetAssigned { e with dnnLists := e.dnnLists ++ as } :=
    fun as e h has => ⟨h.1, h.2.1, List.forall_mem_append.2 ⟨h.2.2, has⟩⟩
  refine .keep (.part ?_) <| .keep (.demanded (.leaf ?_)) <| .keep (.mark ?_) <|
    .keep (.optional (.marked ?_ (.object (leads_getSliceInfoNssai p))) ?_) <|
    .keep (leads_checkAnyNssai p) <| .keep (.ifMember (.array helement hlists) ?_) .nil
  · exact fun m e h => h
  · exact fun s e h => h
  · exact fun e h => h
  · exact fun e h => h
  · exact fun e h => h
  · cases isSliceData with
    | true => exact .skip fun e h => h
    | false => exact .mandatory

theorem gives_getPlmnIdSet (isSliceData : Bool) :
    Gives (Reader.fresh {} (getPlmnIdSet val p isSliceData)) PlmnIdSetAssigned := by
  have hblank : PlmnIdSetAssigned ({} : PlmnIdSets V) :=
    ⟨List.forall_mem_nil _, List.forall_mem_nil _, List.forall_mem_nil _⟩
  exact .fresh (leads_getPlmnIdSet p isSliceData) hblank

theorem leads_getUdmSliceProfile :
    Leads UdmSliceProfileAssigned (getUdmSliceProfile val p) UdmSliceProfileAssigned := by
  refine .keep (.part ?_) <| .keep (.optional (.leaf ?_) ?_) <|
    .keep (.optional (.arrayOr (gives_getPlmnIdSet p false) ?_ ?_) ?_) .nil
  · exact fun m e h => h
  · exact fun s e h => h
  · exact fun e h => h
  · exact fun as e _ has => has
  · intro e e' h hrun
    obtain ⟨u, -, hrest⟩ := yields_bind.1 hrun
    exact (yields_pure.1 hrest) ▸ h
  · exact fun e h => h

/-! ## Static data -/

theorem leads_getServiceAreaRestriction : Leads UdmStaticDataAssigned
    (getServiceAreaRestriction val p) UdmStaticDataAssigned := by
  refine .keep (.part ?_) <| .keep (.optional (.leaf ?_) ?_) <|
    .keep (.optional (.anyArray ?_) ?_) <| .keep (.flagged (.leaf ?_) ?_) <| .keep (.mark ?_) .nil
  · exact fun m e h => h
  · exact fun s e h => h
  · exact fun e h => h
  · exact fun as e h => h
  · exact fun e h => h
  · exact fun n e h => ⟨h.1, h.2.1, h.2.2.1, h.2.2.2.1, h.2.2.2.2.1, h.2.2.2.2.2.1,
      h.2.2.2.2.2.2.1, setIf_some, h.2.2.2.2.2.2.2.2⟩
  · exact fun e h => ⟨h.1, h.2.1, h.2.2.1, h.2.2.2.1, h.2.2.2.2.1, h.2.2.2.2.2.1,
      h.2.2.2.2.2.2.1, setIf_false, h.2.2.2.2.2.2.2.2⟩
  · exact fun e h => h

theorem leads_getUdmSliceData : Leads (fun e => ∀ s ∈ e.plmnIdSets, PlmnIdSetAssigned s)
    (getUdmSliceData val p) fun e => ∀ s ∈ e.plmnIdSets, PlmnIdSetAssigned s := by
  refine .keep (.part ?_) <|
    .keep (.optional (.arrayOr (gives_getPlmnIdSet p true) ?_ ?_) ?_) .nil
  · exact fun m e h => h
  · exact fun as e _ has => has
  · intro e e' _ hrun
    obtain ⟨u, hreport, -⟩ := yields_bind.1 hrun
    exact absurd hreport not_quiet_emit
  · exact fun e h => h

theorem leads_getUdmStaticData :
    Leads UdmStaticDataAssigned (getUdmStaticData val p) UdmStaticDataAssigned := by
  refine .keep (.part ?_) <| .keep (.flagged (.marked ?_ (.object (.part ?_))) ?_) <|
    .keep (.optional (.anyArray ?_) ?_) <| .keep (.optional (.anyArray ?_) ?_) <|
    .keep (.flagged (.object (leads_getServiceAreaRestriction p)) ?_) <|
    .keep (.optional (.anyArray ?_) ?_) <|
    .keep (.flagged (.leaf fun b e h => ⟨setIf_some, h.2⟩) fun e h => ⟨setIf_false, h.2⟩) <|
    .keep (.flagged (.leaf fun b e h => ⟨h.1, setIf_some, h.2.2⟩)
      fun e h => ⟨h.1, setIf_false, h.2.2⟩) <|
    .keep (.flagged (.leaf fun b e h => ⟨h.1, h.2.1, setIf_some, h.2.2.2⟩)
      fun e h => ⟨h.1, h.2.1, setIf_false, h.2.2.2⟩) <|
    .keep (.flagged (.leaf fun b e h => ⟨h.1, h.2.1, h.2.2.1, setIf_some, h.2.2.2.2⟩)
      fun e h => ⟨h.1, h.2.1, h.2.2.1, setIf_false, h.2.2.2.2⟩) <|
    .keep (.demanded (.object (.part ?_))) <| .keep (.flagged (.marked ?_ (.part ?_)) ?_) <|
    .keep (.optional (.nonEmptyString ?_) ?_) <|
    .keep (.flagged
      (.leaf fun b e h => ⟨h.1, h.2.1, h.2.2.1, h.2.2.2.1, setIf_some, h.2.2.2.2.2⟩)
      fun e h => ⟨h.1, h.2.1, h.2.2.1, h.2.2.2.1, setIf_false, h.2.2.2.2.2⟩) <|
    .keep (.flagged
      (.leaf fun b e h => ⟨h.1, h.2.1, h.2.2.1, h.2.2.2.1, h.2.2.2.2.1, setIf_some,
        h.2.2.2.2.2.2⟩)
      fun e h => ⟨h.1, h.2.1, h.2.2.1, h.2.2.2.1, h.2.2.2.2.1, setIf_false, h.2.2.2.2.2.2⟩) <|
    .keep (.flagged
      (.leaf fun b e h => ⟨h.1, h.2.1, h.2.2.1, h.2.2.2.1, h.2.2.2.2.1, h.2.2.2.2.2.1, setIf_some,
        h.2.2.2.2.2.2.2⟩)
      fun e h => ⟨h.1, h.2.1, h.2.2.1, h.2.2.2.1, h.2.2.2.2.1, h.2.2.2.2.2.1, setIf_false,
        h.2.2.2.2.2.2.2⟩) <|
    .keep (.flagged (.marked ?_ (.into (leads_getUdmSliceData p)
      (fun e h => h.2.2.2.2.2.2.2.2) fun a e h ha => ⟨h.1, h.2.1, h.2.2.1, h.2.2.2.1, h.2.2.2.2.1,
        h.2.2.2.2.2.1, h.2.2.2.2.2.2.1, h.2.2.2.2.2.2.2.1, ha⟩)) ?_) .nil
  all_goals first | exact fun _ _ h => h | exact fun _ h => h

/-! ## SMS subscriptions -/

/-- A flag that is set with the value and cleared without. -/
theorem leads_setOptionalBooleanField {fieldName : String}
    {setFlag put : Bool → SmsStaticData V → SmsStaticData V} {I : SmsStaticData V → Prop}
    (hset : ∀ b e, I e → I (setFlag true (put b e))) (hclear : ∀ e, I e → I (setFlag false e)) :
    Leads I (setOptionalBooleanField p fieldName setFlag put) I := by
  refine .ifMember ?_ (.without hclear)
  intro v e e' he hrun
  cases hv : asBool v with
  | some b =>
    simp only [hv] at hrun
    exact (yields_pure.1 hrun) ▸ hset b e he
  | none =>
    simp only [hv] at hrun
    obtain ⟨u, hreport, -⟩ := yields_bind.1 hrun
    exact absurd hreport not_quiet_addError

theorem leads_getSmsObject {key : String} {setFlag : Bool → SmsStaticData V → SmsStaticData V}
    {r : Reader (SmsStaticData V)} {I : SmsStaticData V → Prop} (h : Leads I r I)
    (hflag : ∀ b e, I e → I (setFlag b e)) : Leads I (getSmsObject p key setFlag r) I := by
  refine .ifMember ?_ (.without (hflag false))
  intro v e e' he hrun
  dsimp only at hrun
  split_ifs at hrun
  · obtain ⟨e₁, hobject, hrest⟩ := yields_bind.1 hrun
    exact (yields_pure.1 hrest) ▸ hflag true e₁ (h v e e₁ he hobject)
  · obtain ⟨u, hreport, -⟩ := yields_bind.1 hrun
    exact absurd hreport not_quiet_addError

theorem leads_getOptionalSmsStaticData : Leads SmsStaticDataAssigned
    (getOptionalSmsStaticData val p) SmsStaticDataAssigned := by
  refine .keep (.part ?_) <|
    .keep (leads_getSmsObject p (.keep (leads_setOptionalBooleanField p
      (fun b e h => ⟨setIf_some, h.2⟩) fun e h => ⟨setIf_false, h.2⟩) <|
      .keep (.part ?_) .nil) ?_) <|
    .keep (leads_getSmsObject p (.keep (leads_setOptionalBooleanField p
        (fun b e h => ⟨h.1, setIf_some, h.2.2⟩) fun e h => ⟨h.1, setIf_false, h.2.2⟩) <|
      .keep (leads_setOptionalBooleanField p
        (fun b e h => ⟨h.1, h.2.1, setIf_some, h.2.2.2⟩)
        fun e h => ⟨h.1, h.2.1, setIf_false, h.2.2.2⟩) <|
      .keep (leads_setOptionalBooleanField p
        (fun b e h => ⟨h.1, h.2.1, h.2.2.1, setIf_some, h.2.2.2.2⟩)
        fun e h => ⟨h.1, h.2.1, h.2.2.1, setIf_false, h.2.2.2.2⟩) <|
      .keep (leads_setOptionalBooleanField p
        (fun b e h => ⟨h.1, h.2.1, h.2.2.1, h.2.2.2.1, setIf_some, h.2.2.2.2.2⟩)
        fun e h => ⟨h.1, h.2.1, h.2.2.1, h.2.2.2.1, setIf_false, h.2.2.2.2.2⟩) <|
      .keep (leads_setOptionalBooleanField p
        (fun b e h => ⟨h.1, h.2.1, h.2.2.1, h.2.2.2.1, h.2.2.2.2.1, setIf_some, h.2.2.2.2.2.2⟩)
        fun e h => ⟨h.1, h.2.1, h.2.2.1, h.2.2.2.1, h.2.2.2.2.1, setIf_false,
          h.2.2.2.2.2.2⟩) <|
      .keep (leads_setOptionalBooleanField p
        (fun b e h => ⟨h.1, h.2.1, h.2.2.1, h.2.2.2.1, h.2.2.2.2.1, h.2.2.2.2.2.1, setIf_some⟩)
        fun e h => ⟨h.1, h.2.1, h.2.2.1, h.2.2.2.1, h.2.2.2.2.1, h.2.2.2.2.2.1, setIf_false⟩) <|
      .keep (.part ?_) .nil) ?_) .nil
  all_goals exact fun _ _ h => h

/-! ## Changes -/

/-- **What is read of an entity has a value after its reader has recorded no error.** -/
theorem leads_reader (k : ResourceKind) : Leads k.Assigned (k.reader val p) k.Assigned := by
  cases k with
  | udmStaticData => exact leads_getUdmStaticData p
  | udmSliceProfile => exact leads_getUdmSliceProfile p
  | udmRoamingArea => exact fun _ _ _ _ _ => trivial
  | smsStaticData => exact leads_getOptionalSmsStaticData p

theorem assigned_foldlM {k : ResourceKind} {rs : List (String × Json)} {e e' : k.Entity V}
    (he : k.Assigned e) (h : Yields Quiet (rs.foldlM (k.readOne val) e) e') : k.Assigned e' := by
  induction rs generalizing e with
  | nil =>
    rw [List.foldlM_nil, yields_pure] at h
    exact h ▸ he
  | cons r rs ih =>
    obtain ⟨e₁, hfirst, hrest⟩ := yields_bind.1 h
    exact ih (leads_reader r.1 k r.2 e e₁ he hfirst) hrest

/-- **In a change that was read without an error, every field that is read has a value**, the
S-NSSAIs of static addresses apart. -/
theorem changeAssigned_of_read {x : Json} {c : Change V} (h : ReadFrom val Quiet x c) :
    ChangeAssigned c := by
  intro k
  have hblank := changeAssigned_blank k (V := V)
  have hentity : k.entity ({} : Change V) = k.blank V := by cases k <;> rfl
  rw [hentity] at hblank
  exact assigned_foldlM hblank (h.entity k)

/-! ## Static addresses -/

/-- The S-NSSAI of an element of `nssaiDnnIpLists` is there. -/
def NamesNssai (y : Json) : Prop := ∃ m ∈ y.members.getD [], cstr m.1 = jsonNssai

/-- The elements of `nssaiDnnIpLists` in the data of a subscription. -/
def addressElements (d : Json) : List Json :=
  (((d.member? jsonStaticIpAddress).bind (·.member? jsonNssAiDnnIpLists)).bind asArray).getD []

/-- The S-NSSAIs of the addresses have a value. -/
def AddressesAssigned (as : List (NssaiDnnIps V)) : Prop := ∀ a ∈ as, SnssaiAssigned a.snssai

/-- What is kept of `staticIpAddress`: the addresses, and whether it was there. -/
def addressesOf (e : UdmStaticData V) : List (NssaiDnnIps V) × Bool :=
  (e.staticIpAddress.nssaiDnnIpLists, e.fieldExistence.hasStaticIpAddress)

theorem snssai_getNssaiDnnIpsMember {e e' : NssaiDnnIps V} {m : String × Json}
    (h : Yields Quiet (getNssaiDnnIpsMember val p e m) e') :
    SnssaiAssigned e'.snssai ↔ SnssaiAssigned e.snssai ∨ cstr m.1 = jsonNssai := by
  rw [getNssaiDnnIpsMember] at h
  split_ifs at h with hnssai hlist
  · have hread : Leads (fun _ => True) (Reader.into (E := NssaiDnnIps V) (·.snssai)
        (fun a e => { e with snssai := a }) (Reader.object p jsonNssai (getSnssai val p)))
        fun e => SnssaiAssigned e.snssai :=
      .into (.object (leads_getSnssai p)) (fun _ _ => trivial) fun a e _ ha => ha
    exact iff_of_true (hread m.2 e e' trivial h) (Or.inr hnssai)
  · obtain ⟨as, -, hput⟩ := yields_bind.1 h
    rw [yields_pure.1 hput]
    simp [hnssai]
  · rw [yields_pure.1 h]
    simp [hnssai]

/-- The members of an element: the S-NSSAI has a value if one of them is `nssai`. -/
theorem snssai_foldlM {ms : List (String × Json)} {e e' : NssaiDnnIps V}
    (h : Yields Quiet (ms.foldlM (getNssaiDnnIpsMember val p) e) e') :
    SnssaiAssigned e'.snssai ↔ SnssaiAssigned e.snssai ∨ ∃ m ∈ ms, cstr m.1 = jsonNssai := by
  induction ms generalizing e with
  | nil =>
    rw [List.foldlM_nil, yields_pure] at h
    simp [h]
  | cons m ms ih =>
    obtain ⟨e₁, hfirst, hrest⟩ := yields_bind.1 h
    rw [ih hrest, snssai_getNssaiDnnIpsMember p hfirst, or_assoc, List.exists_mem_cons_iff]

theorem snssai_getNssaiDnnIps {y : Json} {o : Option (NssaiDnnIps V)}
    (h : Yields Quiet (getNssaiDnnIps val p y) o) :
    ∃ a, o = some a ∧ (SnssaiAssigned a.snssai ↔ NamesNssai y) := by
  obtain ⟨m, -, hrest⟩ := yields_bind.1 h
  obtain ⟨ms, hms, hrest⟩ := yields_bind.1 hrest
  obtain ⟨a, ha, hput⟩ := yields_bind.1 hrest
  refine ⟨a, yields_pure.1 hput, ?_⟩
  rw [snssai_foldlM p ha, NamesNssai, yields_lift.1 hms, Option.getD_some]
  exact or_iff_right nofun

/-- The addresses that one value of `staticIpAddress` adds. -/
theorem addresses_getStaticIpAddress {v : Json} {e e' : StaticIpAddress V}
    (h : Yields Quiet (getStaticIpAddress val p v e) e') :
    AddressesAssigned e'.nssaiDnnIpLists ↔ AddressesAssigned e.nssaiDnnIpLists ∧
      ∀ y ∈ ((v.member? jsonNssAiDnnIpLists).bind asArray).getD [], NamesNssai y := by
  obtain ⟨e₁, hvendor, h⟩ := yields_inOrder_cons.1 h
  obtain ⟨e₂, hlists, h⟩ := yields_inOrder_cons.1 h
  rw [yields_inOrder_nil] at h
  subst h
  obtain ⟨m, -, hput⟩ := yields_bind.1 hvendor
  rw [yields_pure] at hput
  subst hput
  obtain ⟨w, hw, harray⟩ := yields_bind.1 hlists
  rw [yields_lift, Json.index_eq_member?] at hw
  rw [hw, Option.bind_some]
  rw [Reader.array] at harray
  cases hxs : asArray w with
  | some ys =>
    rw [hxs] at harray
    obtain ⟨as, has, hput⟩ := yields_bind.1 harray
    rw [yields_pure.1 hput, Option.getD_some]
    refine List.forall_mem_append.trans (and_congr_right fun _ => ⟨fun hall y hy => ?_,
      fun hall a ha => ?_⟩)
    · obtain ⟨o, ho, hmem⟩ := has.collect_mem y hy
      obtain ⟨a, rfl, hiff⟩ := snssai_getNssaiDnnIps p ho
      exact hiff.1 (hall a (hmem a rfl))
    · obtain ⟨y, hy, ho⟩ := has.mem_collect a ha
      obtain ⟨a', ha', hiff⟩ := snssai_getNssaiDnnIps p ho
      rw [Option.some.injEq] at ha'
      rw [ha']
      exact hiff.2 (hall y hy)
  | none =>
    rw [hxs] at harray
    obtain ⟨u, hreport, -⟩ := yields_bind.1 harray
    exact absurd hreport not_quiet_addError

/-- The member `staticIpAddress` and its flag. -/
theorem turns_staticIpAddress : Turns addressesOf (Reader.ifMember jsonStaticIpAddress
      (.marking (fun e => { e with fieldExistence.hasStaticIpAddress := true }) <|
        .into (·.staticIpAddress) (fun a e => { e with staticIpAddress := a })
          (getStaticIpAddress val p))
      (Reader.without fun e => { e with fieldExistence.hasStaticIpAddress := false }))
    fun d a a' => (AddressesAssigned a'.1 ↔ AddressesAssigned a.1 ∧
      ∀ y ∈ addressElements d, NamesNssai y) ∧ a'.2 = (d.member? jsonStaticIpAddress).isSome := by
  intro d e e' hrun
  obtain ⟨o, ho, hread⟩ := yields_bind.1 hrun
  rw [addressElements, Json.member?_of_findMember (yields_lift.1 ho)]
  cases o with
  | some v =>
    obtain ⟨a, ha, hput⟩ := yields_bind.1 hread
    rw [yields_pure.1 hput]
    exact ⟨addresses_getStaticIpAddress p ha, rfl⟩
  | none =>
    have heq := yields_pure.1 hread
    rw [heq]
    exact ⟨by simp [addressesOf], rfl⟩

/-- **The addresses after data were read**: those of before, and those in the data. -/
theorem turns_getUdmStaticData : Turns addressesOf (getUdmStaticData val p) fun d a a' =>
    (AddressesAssigned a'.1 ↔ AddressesAssigned a.1 ∧ ∀ y ∈ addressElements d, NamesNssai y) ∧
      a'.2 = (d.member? jsonStaticIpAddress).isSome := by
  refine .before (fun _ => .part ?_) <|
    .before (fun _ => .flagged (.marked ?_ (.object (.part ?_))) ?_) <|
    .before (fun _ => .optional (.anyArray ?_) ?_) <|
    .before (fun _ => .optional (.anyArray ?_) ?_) <|
    .before (fun _ => .flagged (.object (.keep (.part ?_) <| .keep (.optional (.leaf ?_) ?_) <|
      .keep (.optional (.anyArray ?_) ?_) <| .keep (.flagged (.leaf ?_) ?_) <|
      .keep (.mark ?_) .nil)) ?_) <|
    .before (fun _ => .optional (.anyArray ?_) ?_) <| .before (fun _ => .flagged (.leaf ?_) ?_) <|
    .before (fun _ => .flagged (.leaf ?_) ?_) <| .before (fun _ => .flagged (.leaf ?_) ?_) <|
    .before (fun _ => .flagged (.leaf ?_) ?_) <|
    .before (fun _ => .demanded (.object (.part ?_))) <|
    .here (turns_staticIpAddress p) fun _ => .keep (.optional (.nonEmptyString ?_) ?_) <|
    .keep (.flagged (.leaf ?_) ?_) <| .keep (.flagged (.leaf ?_) ?_) <|
    .keep (.flagged (.leaf ?_) ?_) <| .keep (.flagged (.marked ?_ (.part ?_)) ?_) .nil
  all_goals first | exact fun _ _ h => h | exact fun _ h => h

/-- The data that are read as those of a subscription, in a change. -/
def staticReadings (x : Json) : List (String × Json) :=
  ResourceKind.udmStaticData.readingsFor (changeReadings x)

/-- Every address in the data of a change has its S-NSSAI. -/
def AddressesNamed (x : Json) : Prop :=
  ∀ r ∈ staticReadings x, ∀ y ∈ addressElements r.2, NamesNssai y

/-- The last data of a change have addresses. -/
def hasAddresses (x : Json) : Bool :=
  (staticReadings x).getLast?.any fun r => (r.2.member? jsonStaticIpAddress).isSome

theorem addresses_foldlM {rs : List (String × Json)} {e e' : UdmStaticData V}
    (h : Yields Quiet (rs.foldlM (ResourceKind.udmStaticData.readOne val) e) e') :
    (AddressesAssigned (addressesOf e').1 ↔ AddressesAssigned (addressesOf e).1 ∧
      ∀ r ∈ rs, ∀ y ∈ addressElements r.2, NamesNssai y) ∧
    (addressesOf e').2 = rs.getLast?.elim (addressesOf e).2 fun r =>
      (r.2.member? jsonStaticIpAddress).isSome := by
  induction rs generalizing e with
  | nil =>
    rw [List.foldlM_nil, yields_pure] at h
    rw [h]
    exact ⟨by simp, rfl⟩
  | cons r rs ih =>
    obtain ⟨e₁, hfirst, hrest⟩ := yields_bind.1 h
    obtain ⟨haddresses, hflag⟩ := turns_getUdmStaticData r.1 r.2 e e₁ hfirst
    obtain ⟨haddresses', hflag'⟩ := ih hrest
    refine ⟨?_, ?_⟩
    · rw [haddresses', haddresses, List.forall_mem_cons, and_assoc]
    · rw [hflag', hflag]
      cases rs with
      | nil => rfl
      | cons s rs => rw [List.getLast?_cons_cons, List.getLast?_cons]; rfl

/-- **The addresses of a change that was read without an error** have their S-NSSAIs where those of
the request have, and the flag is set if the last data have addresses. -/
theorem addresses_of_read {x : Json} {c : Change V} (h : ReadFrom val Quiet x c) :
    (AddressesAssigned c.udmStaticData.staticIpAddress.nssaiDnnIpLists ↔ AddressesNamed x) ∧
      c.udmStaticData.fieldExistence.hasStaticIpAddress = hasAddresses x := by
  obtain ⟨haddresses, hflag⟩ := addresses_foldlM (h.entity .udmStaticData)
  refine ⟨haddresses.trans (and_iff_right (List.forall_mem_nil _)), hflag.trans ?_⟩
  rw [hasAddresses, staticReadings]
  cases (ResourceKind.udmStaticData.readingsFor (changeReadings x)).getLast? <;> rfl

end ProvisioningValidator
