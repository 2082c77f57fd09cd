import Mathlib
import ProvisioningValidator.Encoder
import ProvisioningValidator.Lib.Members
import ProvisioningValidator.Parser
import ProvisioningValidator.ReaderOutcomes

/-!
# SMS subscriptions, read and written again

The data of an SMS subscription has three levels: the object itself, and in it the objects
`smsSubscriptionData` and `smsManagementSubscriptionData`. `restrictSms` is what the service keeps
of it: at each level the members it knows, and the vendor-specific ones.

The two halves meet at `written`, the members in the order in which the encoder writes them. The
reader gives an entity that is written like that (`written_of_read`), and up to the order of
members it is `restrictSms` exactly where no vendor-specific name has a NUL in it: such a name is
kept only up to the NUL.
-/

namespace ProvisioningValidator

open Lib Lib.Run

variable {E : Type}

/-! ## What is kept -/

/-- `smsSubscribed` -/
def smsSubscriptionFlags : List String := [jsonSmsSubscribed]

/-- The flags of `smsManagementSubscriptionData`. -/
def smsManagementFlags : List String :=
  [jsonMtSmsSubscribed, jsonMtSmsBarringAll, jsonMtSmsBarringRoaming, jsonMoSmsSubscribed,
    jsonMoSmsBarringAll, jsonMoSmsBarringRoaming]

/-- The objects of an SMS subscription. -/
def smsObjectNames : List String := [jsonSmsSubscriptionData, jsonSmsManagementSubscriptionData]

/-- A name `vendorSpecific-*`. -/
def vendorName (name : String) : Bool := startsWith name "vendorSpecific-"

/-- One of the names, or a vendor-specific one. -/
def keptName (names : List String) (name : String) : Bool := decide (name ∈ names) || vendorName name

/-- An object restricted to these members and the vendor-specific ones; `inner` is what is kept of
the value of a member. -/
def restrict (names : List String) (inner : String → Json → Json) : Json → Json
  | .obj ms => .obj ((ms.filter fun m => keptName names m.1).map fun m => (m.1, inner m.1 m.2))
  | v => v

/-- What is kept of a member of an SMS subscription. -/
def restrictSmsObject (name : String) (v : Json) : Json :=
  if name = jsonSmsSubscriptionData then restrict smsSubscriptionFlags (fun _ w => w) v
  else if name = jsonSmsManagementSubscriptionData then restrict smsManagementFlags (fun _ w => w) v
  else v

/-- The data of an SMS subscription, restricted to what the service knows of it. -/
def restrictSms (d : Json) : Json := restrict smsObjectNames restrictSmsObject d

/-- The three levels. -/
def smsLevels (d : Json) : List Json :=
  d :: ((d.member? jsonSmsSubscriptionData).toList ++
    (d.member? jsonSmsManagementSubscriptionData).toList)

/-- The names in an object. -/
def memberNames (v : Json) : List String := (v.members.getD []).map Prod.fst

/-- A name is recognized as vendor-specific also where it is cut. -/
theorem isVendorSpecific_cstr (name : String) : isVendorSpecific (cstr name) = vendorName name := by
  have hfree : NulFree "vendorSpecific-" := by decide +kernel
  rw [isVendorSpecific_eq, cstr_cstr, vendorName, Bool.eq_iff_iff, startsWith_iff, startsWith_iff]
  constructor
  · intro h
    exact h.trans (cstr_isPrefix name)
  · intro h
    obtain ⟨t, ht⟩ := h
    have hne : ∀ c ∈ "vendorSpecific-".toList, decide (c ≠ '\x00') = true := fun c hc =>
      decide_eq_true fun heq => hfree (heq ▸ hc)
    rw [toList_cstr, ← ht, List.takeWhile_append_of_pos hne]
    exact List.prefix_append _ _

/-! ## What the encoder writes -/

/-- The members of these names. -/
def membersAt (keys : List String) (ms : List (String × Json)) : List (String × Json) :=
  keys.flatMap fun key => ((ms.lookup key).map (key, ·)).toList

/-- The vendor-specific members. -/
def vendorAt (ms : List (String × Json)) : VendorSpecific Json :=
  ms.foldl (fun m itr => m.add itr.1 itr.2) ∅

/-- One of the two objects: its flags, and then its vendor-specific members. -/
def written (keys : List String) : Json → Json
  | .obj ms => .obj (membersAt keys ms ++ vendorSpecificToJson (vendorAt ms))
  | v => v

/-- What is written of a member of an SMS subscription. -/
def writtenSmsObject (name : String) (v : Json) : Json :=
  if name = jsonSmsSubscriptionData then written smsSubscriptionFlags v
  else if name = jsonSmsManagementSubscriptionData then written smsManagementFlags v
  else v

/-- The data of an SMS subscription: its vendor-specific members, and then its objects. -/
def writtenSms (ms : List (String × Json)) : List (String × Json) :=
  vendorSpecificToJson (vendorAt ms) ++
    (membersAt smsObjectNames ms).map fun m => (m.1, writtenSmsObject m.1 m.2)

/-! ## What the reader gives -/

/-- The truth value of that name. -/
def flagAt (ms : List (String × Json)) (key : String) : Option Bool := (ms.lookup key).bind asBool

/-- Where there is a member of one of the names, it is a truth value. -/
def FlagsAt (ms : List (String × Json)) (keys : List String) : Prop :=
  ∀ key ∈ keys, ms.lookup key = (flagAt ms key).map .bool

/-- What the object `smsSubscriptionData` becomes. -/
def readSubscription (ms : List (String × Json)) (e : SmsStaticData Json) : SmsStaticData Json :=
  { e with
    smsSubscriptionData := {
      smsSubscribed := (flagAt ms jsonSmsSubscribed).or e.smsSubscriptionData.smsSubscribed
      vendorSpecific := vendorAt ms }
    fieldExistenceSmsStaticData.hasSmsSubscribed := (flagAt ms jsonSmsSubscribed).isSome }

/-- What the object `smsManagementSubscriptionData` becomes. -/
def readManagement (ms : List (String × Json)) (e : SmsStaticData Json) : SmsStaticData Json :=
  let part := e.smsManagementSubscriptionData
  { e with
    smsManagementSubscriptionData := {
      mtSmsSubscribed := (flagAt ms jsonMtSmsSubscribed).or part.mtSmsSubscribed
      mtSmsBarringAll := (flagAt ms jsonMtSmsBarringAll).or part.mtSmsBarringAll
      mtSmsBarringRoaming := (flagAt ms jsonMtSmsBarringRoaming).or part.mtSmsBarringRoaming
      moSmsSubscribed := (flagAt ms jsonMoSmsSubscribed).or part.moSmsSubscribed
      moSmsBarringAll := (flagAt ms jsonMoSmsBarringAll).or part.moSmsBarringAll
      moSmsBarringRoaming := (flagAt ms jsonMoSmsBarringRoaming).or part.moSmsBarringRoaming
      vendorSpecific := vendorAt ms }
    fieldExistenceSmsStaticData := {
      e.fieldExistenceSmsStaticData with
      hasMtSmsSubscribed := (flagAt ms jsonMtSmsSubscribed).isSome
      hasMtSmsBarringAll := (flagAt ms jsonMtSmsBarringAll).isSome
      hasMtSmsBarringRoaming := (flagAt ms jsonMtSmsBarringRoaming).isSome
      hasMoSmsSubscribed := (flagAt ms jsonMoSmsSubscribed).isSome
      hasMoSmsBarringAll := (flagAt ms jsonMoSmsBarringAll).isSome
      hasMoSmsBarringRoaming := (flagAt ms jsonMoSmsBarringRoaming).isSome } }

section

variable {p key : String} {ms : List (String × Json)}

theorem yields_getVendorSpecific {get : E → VendorSpecific Json}
    {put : VendorSpecific Json → E → E} {e e' : E}
    (hrun : Yields Quiet (Reader.into get put (getVendorSpecific id) (.obj ms) e) e')
    (hget : get e = ∅) :
    e' = put (vendorAt ms) e := by
  obtain ⟨m, hm, hput⟩ := yields_bind.1 hrun
  obtain ⟨ns, hns, hfold⟩ := yields_bind.1 hm
  rw [yields_pure.1 hput, yields_pure.1 hfold, ← Option.some.inj (yields_lift.1 hns), hget]
  rfl

/-- A flag: `f` is what becomes of the entity. -/
theorem yields_setOptionalBooleanField {setFlag : Bool → SmsStaticData Json → SmsStaticData Json}
    {put : Bool → SmsStaticData Json → SmsStaticData Json}
    (f : Option Bool → SmsStaticData Json → SmsStaticData Json) {e e' : SmsStaticData Json}
    (hrun : Yields Quiet (setOptionalBooleanField p key setFlag put (.obj ms) e) e')
    (hsome : ∀ b, setFlag true (put b e) = f (some b) e) (hnone : setFlag false e = f none e) :
    ms.lookup key = (flagAt ms key).map .bool ∧ e' = f (flagAt ms key) e := by
  obtain ⟨o, ho, hrest⟩ := yields_bind.1 hrun
  have hfound : ms.lookup key = o := Option.some.inj (yields_lift.1 ho)
  rw [flagAt, hfound]
  cases o with
  | none =>
    refine ⟨rfl, ?_⟩
    rw [yields_pure.1 hrest, hnone]
    rfl
  | some w =>
    simp only [Option.bind_some]
    cases hview : asBool w with
    | none =>
      simp only [hview] at hrest
      obtain ⟨u, hreport, -⟩ := yields_bind.1 hrest
      exact absurd hreport not_quiet_addError
    | some b =>
      simp only [hview] at hrest
      have hw : w = .bool b := by
        cases w with
        | bool b' => rw [Option.some.inj hview]
        | _ => cases hview
      refine ⟨congrArg some hw, ?_⟩
      rw [yields_pure.1 hrest, hsome]

theorem yields_getSmsSubscriptionDataObject {e e' : SmsStaticData Json}
    (hvendor : e.smsSubscriptionData.vendorSpecific = ∅)
    (hrun : Yields Quiet (getSmsSubscriptionDataObject id p (.obj ms) e) e') :
    FlagsAt ms smsSubscriptionFlags ∧ e' = readSubscription ms e := by
  obtain ⟨e₁, h₁, hrun⟩ := yields_inOrder_cons.1 hrun
  obtain ⟨e₂, h₂, hrun⟩ := yields_inOrder_cons.1 hrun
  obtain ⟨hkey, rfl⟩ := yields_setOptionalBooleanField (fun o e => { e with
    smsSubscriptionData.smsSubscribed := o.or e.smsSubscriptionData.smsSubscribed
    fieldExistenceSmsStaticData.hasSmsSubscribed := o.isSome }) h₁ (fun _ => rfl) rfl
  obtain rfl := yields_getVendorSpecific h₂ hvendor
  obtain rfl := yields_inOrder_nil.1 hrun
  refine ⟨?_, rfl⟩
  intro key hkey'
  obtain rfl := List.mem_singleton.1 hkey'
  exact hkey

theorem yields_getSmsManagementSubscriptionDataObject {e e' : SmsStaticData Json}
    (hvendor : e.smsManagementSubscriptionData.vendorSpecific = ∅)
    (hrun : Yields Quiet (getSmsManagementSubscriptionDataObject id p (.obj ms) e) e') :
    FlagsAt ms smsManagementFlags ∧ e' = readManagement ms e := by
  obtain ⟨e₁, h₁, hrun⟩ := yields_inOrder_cons.1 hrun
  obtain ⟨e₂, h₂, hrun⟩ := yields_inOrder_cons.1 hrun
  obtain ⟨e₃, h₃, hrun⟩ := yields_inOrder_cons.1 hrun
  obtain ⟨e₄, h₄, hrun⟩ := yields_inOrder_cons.1 hrun
  obtain ⟨e₅, h₅, hrun⟩ := yields_inOrder_cons.1 hrun
  obtain ⟨e₆, h₆, hrun⟩ := yields_inOrder_cons.1 hrun
  obtain ⟨e₇, h₇, hrun⟩ := yields_inOrder_cons.1 hrun
  obtain ⟨hkey₁, rfl⟩ := yields_setOptionalBooleanField (fun o e => { e with
    smsManagementSubscriptionData.mtSmsSubscribed :=
      o.or e.smsManagementSubscriptionData.mtSmsSubscribed
    fieldExistenceSmsStaticData.hasMtSmsSubscribed := o.isSome }) h₁ (fun _ => rfl) rfl
  obtain ⟨hkey₂, rfl⟩ := yields_setOptionalBooleanField (fun o e => { e with
    smsManagementSubscriptionData.mtSmsBarringAll :=
      o.or e.smsManagementSubscriptionData.mtSmsBarringAll
    fieldExistenceSmsStaticData.hasMtSmsBarringAll := o.isSome }) h₂ (fun _ => rfl) rfl
  obtain ⟨hkey₃, rfl⟩ := yields_setOptionalBooleanField (fun o e => { e with
    smsManagementSubscriptionData.mtSmsBarringRoaming :=
      o.or e.smsManagementSubscriptionData.mtSmsBarringRoaming
    fieldExistenceSmsStaticData.hasMtSmsBarringRoaming := o.isSome }) h₃ (fun _ => rfl) rfl
  obtain ⟨hkey₄, rfl⟩ := yields_setOptionalBooleanField (fun o e => { e with
    smsManagementSubscriptionData.moSmsSubscribed :=
      o.or e.smsManagementSubscriptionData.moSmsSubscribed
    fieldExistenceSmsStaticData.hasMoSmsSubscribed := o.isSome }) h₄ (fun _ => rfl) rfl
  obtain ⟨hkey₅, rfl⟩ := yields_setOptionalBooleanField (fun o e => { e with
    smsManagementSubscriptionData.moSmsBarringAll :=
      o.or e.smsManagementSubscriptionData.moSmsBarringAll
    fieldExistenceSmsStaticData.hasMoSmsBarringAll := o.isSome }) h₅ (fun _ => rfl) rfl
  obtain ⟨hkey₆, rfl⟩ := yields_setOptionalBooleanField (fun o e => { e with
    smsManagementSubscriptionData.moSmsBarringRoaming :=
      o.or e.smsManagementSubscriptionData.moSmsBarringRoaming
    fieldExistenceSmsStaticData.hasMoSmsBarringRoaming := o.isSome }) h₆ (fun _ => rfl) rfl
  obtain rfl := yields_getVendorSpecific h₇ hvendor
  obtain rfl := yields_inOrder_nil.1 hrun
  refine ⟨?_, rfl⟩
  intro key hkey
  simp only [smsManagementFlags, List.mem_cons, List.not_mem_nil, or_false] at hkey
  rcases hkey with rfl | rfl | rfl | rfl | rfl | rfl
  · exact hkey₁
  · exact hkey₂
  · exact hkey₃
  · exact hkey₄
  · exact hkey₅
  · exact hkey₆

/-- One of the two objects, in the data of an SMS subscription. -/
theorem yields_getSmsObject {setFlag : Bool → SmsStaticData Json → SmsStaticData Json}
    {r : Reader (SmsStaticData Json)} {e e' : SmsStaticData Json}
    (hrun : Yields Quiet (getSmsObject p key setFlag r (.obj ms) e) e') :
    (ms.lookup key = none ∧ e' = setFlag false e) ∨
      ∃ ns e₁, ms.lookup key = some (.obj ns) ∧ Yields Quiet (r (.obj ns) e) e₁ ∧
        e' = setFlag true e₁ := by
  obtain ⟨o, ho, hrest⟩ := yields_bind.1 hrun
  have hfound : ms.lookup key = o := Option.some.inj (yields_lift.1 ho)
  rw [hfound]
  cases o with
  | none => exact .inl ⟨rfl, yields_pure.1 hrest⟩
  | some w =>
    by_cases hw : w.IsObject
    · obtain ⟨ns, rfl⟩ := hw
      simp only [Json.isObject_obj, if_true] at hrest
      obtain ⟨e₁, hr, hput⟩ := yields_bind.1 hrest
      exact .inr ⟨ns, e₁, rfl, hr, yields_pure.1 hput⟩
    · simp only [if_neg hw] at hrest
      obtain ⟨u, hreport, -⟩ := yields_bind.1 hrest
      exact absurd hreport not_quiet_addError

variable (ind : Indeterminate)

theorem whenFlag_flagAt (h : ms.lookup key = (flagAt ms key).map .bool) :
    whenFlag (flagAt ms key).isSome (boolToJson ind ((flagAt ms key).or none) key) =
      ((ms.lookup key).map (key, ·)).toList := by
  rw [h]
  cases flagAt ms key <;> rfl

theorem smsSubscriptionDataToJson_readSubscription {e : SmsStaticData Json}
    (hempty : e.smsSubscriptionData = {}) (h : FlagsAt ms smsSubscriptionFlags) :
    smsSubscriptionDataToJson ind (readSubscription ms e) =
      written smsSubscriptionFlags (.obj ms) := by
  have hflag := whenFlag_flagAt ind (h jsonSmsSubscribed (by decide))
  rw [smsSubscriptionDataToJson, readSubscription, hempty]
  show Json.obj (whenFlag _ _ ++ _) = _
  rw [hflag]
  simp [written, membersAt, smsSubscriptionFlags]

theorem smsManagementSubscriptionDataToJson_readManagement {e : SmsStaticData Json}
    (hempty : e.smsManagementSubscriptionData = {}) (h : FlagsAt ms smsManagementFlags) :
    smsManagementSubscriptionDataToJson ind (readManagement ms e) =
      written smsManagementFlags (.obj ms) := by
  have hflag : ∀ key ∈ smsManagementFlags,
      whenFlag (flagAt ms key).isSome (boolToJson ind ((flagAt ms key).or none) key) =
        ((ms.lookup key).map (key, ·)).toList := fun key hkey =>
        whenFlag_flagAt ind (h key hkey)
  rw [smsManagementSubscriptionDataToJson, readManagement, hempty]
  simp only [smsManagementFlags, List.forall_mem_cons] at hflag
  obtain ⟨h₁, h₂, h₃, h₄, h₅, h₆, -⟩ := hflag
  simp only [h₁, h₂, h₃, h₄, h₅, h₆]
  simp [written, membersAt, smsManagementFlags]

/-- One of the objects, as a member that is written. -/
def objectMember (ms : List (String × Json)) (key : String) : List (String × Json) :=
  ((ms.lookup key).map fun w => (key, writtenSmsObject key w)).toList

theorem writtenSms_eq (ms : List (String × Json)) :
    writtenSms ms = vendorSpecificToJson (vendorAt ms) ++
      objectMember ms jsonSmsSubscriptionData ++
        objectMember ms jsonSmsManagementSubscriptionData := by
  have hmap : ∀ key, (((ms.lookup key).map (key, ·)).toList.map fun m =>
      (m.1, writtenSmsObject m.1 m.2)) = objectMember ms key := by
    intro key
    rw [objectMember]
    cases ms.lookup key <;> rfl
  rw [writtenSms, membersAt, smsObjectNames, List.flatMap_cons, List.flatMap_cons,
    List.flatMap_nil, List.append_nil, List.map_append, hmap, hmap, List.append_assoc]

/-- After the first object: it is written, and the other one was not touched. -/
theorem written_smsSubscriptionData {e e' : SmsStaticData Json}
    (hempty : e.smsSubscriptionData = {})
    (hrun : Yields Quiet (getSmsObject p jsonSmsSubscriptionData
      (fun b e => { e with fieldExistenceSmsStaticData.hasSmsSubscriptionData := b })
      (getSmsSubscriptionDataObject id p) (.obj ms) e) e') :
    whenFlag e'.fieldExistenceSmsStaticData.hasSmsSubscriptionData
        [(jsonSmsSubscriptionData, smsSubscriptionDataToJson ind e')] =
      objectMember ms jsonSmsSubscriptionData ∧
    e'.vendorSpecific = e.vendorSpecific ∧
    e'.smsManagementSubscriptionData = e.smsManagementSubscriptionData := by
  rcases yields_getSmsObject hrun with ⟨hnone, rfl⟩ | ⟨ns, e₁, hfound, hr, rfl⟩
  · refine ⟨?_, rfl, rfl⟩
    rw [objectMember, hnone]
    rfl
  · obtain ⟨hflags, rfl⟩ := yields_getSmsSubscriptionDataObject (by rw [hempty]) hr
    refine ⟨?_, rfl, rfl⟩
    rw [objectMember, hfound, Option.map_some, writtenSmsObject, if_pos rfl,
      ← smsSubscriptionDataToJson_readSubscription ind hempty hflags]
    rfl

/-- After the second object: it is written, and so is what was read before. -/
theorem written_smsManagementSubscriptionData {e e' : SmsStaticData Json}
    (hempty : e.smsManagementSubscriptionData = {})
    (hrun : Yields Quiet (getSmsObject p jsonSmsManagementSubscriptionData
      (fun b e => { e with fieldExistenceSmsStaticData.hasSmsManagementSubscriptionData := b })
      (getSmsManagementSubscriptionDataObject id p) (.obj ms) e) e') :
    smsStaticDataToJson ind e' = .obj (vendorSpecificToJson e.vendorSpecific ++
      whenFlag e.fieldExistenceSmsStaticData.hasSmsSubscriptionData
        [(jsonSmsSubscriptionData, smsSubscriptionDataToJson ind e)] ++
      objectMember ms jsonSmsManagementSubscriptionData) := by
  rcases yields_getSmsObject hrun with ⟨hnone, rfl⟩ | ⟨ns, e₁, hfound, hr, rfl⟩
  · rw [objectMember, hnone]
    rfl
  · obtain ⟨hflags, rfl⟩ := yields_getSmsManagementSubscriptionDataObject (by rw [hempty]) hr
    rw [objectMember, hfound, Option.map_some, writtenSmsObject, if_neg (by decide), if_pos rfl,
      ← smsManagementSubscriptionDataToJson_readManagement ind hempty hflags]
    rfl

/-- **What is read without an error is written as `writtenSms`.** -/
theorem written_of_read {e : SmsStaticData Json}
    (hrun : Yields Quiet (getOptionalSmsStaticData id p (.obj ms) {}) e) :
    smsStaticDataToJson ind e = .obj (writtenSms ms) := by
  obtain ⟨e₁, h₁, hrun⟩ := yields_inOrder_cons.1 hrun
  obtain ⟨e₂, h₂, hrun⟩ := yields_inOrder_cons.1 hrun
  obtain ⟨e₃, h₃, hrun⟩ := yields_inOrder_cons.1 hrun
  obtain rfl := yields_inOrder_nil.1 hrun
  obtain rfl := yields_getVendorSpecific h₁ rfl
  obtain ⟨hwritten, hvendor, hmanagement⟩ := written_smsSubscriptionData ind rfl h₂
  rw [written_smsManagementSubscriptionData ind hmanagement h₃, hwritten, hvendor, writtenSms_eq]

end

/-! ## The same members -/

theorem lookup_membersAt (keys : List String) (ms : List (String × Json)) (name : String) :
    (membersAt keys ms).lookup name = if name ∈ keys then ms.lookup name else none := by
  induction keys with
  | nil => rfl
  | cons key keys ih =>
    have hstep : membersAt (key :: keys) ms =
        ((ms.lookup key).map (key, ·)).toList ++ membersAt keys ms := List.flatMap_cons
    rw [hstep, List.lookup_append, ih]
    by_cases hname : name = key
    · subst hname
      rw [if_pos List.mem_cons_self]
      cases hfound : ms.lookup name with
      | none => simp
      | some w => rw [Option.map_some, Option.toList_some, OrdMap.lookup_head, Option.some_or]
    · have hfirst : (((ms.lookup key).map (key, ·)).toList).lookup name = none := by
        cases ms.lookup key with
        | none => rfl
        | some w => exact OrdMap.lookup_cons_of_ne (e := (key, w)) hname []
      rw [hfirst, Option.none_or]
      simp only [List.mem_cons, or_iff_right hname]

theorem names_membersAt (keys : List String) (ms : List (String × Json)) :
    ((membersAt keys ms).map Prod.fst).Sublist keys := by
  induction keys with
  | nil => exact List.Sublist.refl []
  | cons key keys ih =>
    have hstep : membersAt (key :: keys) ms =
        ((ms.lookup key).map (key, ·)).toList ++ membersAt keys ms := List.flatMap_cons
    rw [hstep, List.map_append]
    cases ms.lookup key with
    | none => exact ih.cons key
    | some w => exact ih.cons_cons key

theorem vendorSpecificToJson_eq (m : VendorSpecific Json) :
    vendorSpecificToJson m = m.map.entries := by
  have hname : ∀ e ∈ m.map.entries, (cstr e.1, e.2) = e := fun e he =>
    Prod.ext (cstr_eq_self.2 (m.names e he).1) rfl
  rw [vendorSpecificToJson, List.map_congr_left hname, List.map_id']

/-- The names of what is written of the vendor-specific members. -/
theorem name_of_vendor {m : VendorSpecific Json} {name : String}
    (h : name ∈ (vendorSpecificToJson m).map Prod.fst) :
    NulFree name ∧ vendorName name = true := by
  rw [vendorSpecificToJson_eq] at h
  obtain ⟨e, he, rfl⟩ := List.mem_map.1 h
  obtain ⟨hfree, hvendor⟩ := m.names e he
  refine ⟨hfree, ?_⟩
  rw [← isVendorSpecific_cstr, cstr_eq_self.2 hfree]
  exact hvendor

theorem nodup_vendor (m : VendorSpecific Json) :
    ((vendorSpecificToJson m).map Prod.fst).Nodup := by
  rw [vendorSpecificToJson_eq]
  exact List.pairwise_map.2 (m.map.sorted.imp fun h => h.ne)

/-- The vendor-specific members, found by name, where no name is cut. -/
theorem lookup_vendor {ms : List (String × Json)}
    (hfree : ∀ m ∈ ms, vendorName m.1 = true → NulFree m.1) (name : String) :
    (vendorSpecificToJson (vendorAt ms)).lookup name =
      if vendorName name = true then ms.lookup name else none := by
  have hentries : vendorEntries id ms = ms.filter fun m => vendorName m.1 := by
    have hfilter : (ms.filter fun itr => isVendorSpecific (cstr itr.1)) =
        ms.filter fun m => vendorName m.1 :=
      List.filter_congr fun m _ => isVendorSpecific_cstr m.1
    have hname : ∀ m ∈ ms.filter fun m => vendorName m.1, (cstr m.1, id m.2) = m := by
      intro m hm
      obtain ⟨hm, hvendor⟩ := List.mem_filter.1 hm
      exact Prod.ext (cstr_eq_self.2 (hfree m hm hvendor)) rfl
    rw [vendorEntries, hfilter, List.map_congr_left hname, List.map_id']
  have hmap : (vendorAt ms).map = OrdMap.emplaceAll ∅ (vendorEntries id ms) :=
    @map_foldl_add Json id ms ∅
  rw [vendorSpecificToJson_eq]
  show (vendorAt ms).map.find? name = _
  rw [hmap, OrdMap.find?_emplaceAll, OrdMap.find?_empty, Option.none_or, hentries,
    Json.lookup_filter]

/-- What is found under a name in an object that is restricted. -/
theorem lookup_restrict (names : List String) (inner : String → Json → Json)
    (ms : List (String × Json)) (name : String) :
    (((ms.filter fun m => keptName names m.1).map fun m => (m.1, inner m.1 m.2))).lookup name =
      if keptName names name = true then (ms.lookup name).map (inner name) else none := by
  rw [Json.lookup_map_snd, Json.lookup_filter (keptName names)]
  split_ifs <;> rfl

theorem keptName_iff {names : List String} {name : String} :
    keptName names name = true ↔ name ∈ names ∨ vendorName name = true := by
  rw [keptName, Bool.or_eq_true, decide_eq_true_eq]

/-- **One level.** The members of these names, each written as `f` says, together with the
vendor-specific ones are the object restricted to them, up to the order of members, if names are
distinct and no vendor-specific one is cut. -/
theorem reorder_level {keys : List String} {ms os : List (String × Json)}
    {f g : String → Json → Json} (hkeys : keys.Nodup)
    (hplain : ∀ key ∈ keys, vendorName key = false)
    (hos : os.Perm (vendorSpecificToJson (vendorAt ms) ++
      (membersAt keys ms).map fun m => (m.1, f m.1 m.2)))
    (hdistinct : (ms.map Prod.fst).Nodup)
    (hfree : ∀ m ∈ ms, vendorName m.1 = true → NulFree m.1)
    (hinner : ∀ key ∈ keys, ∀ w, ms.lookup key = some w → Json.Reorder id (f key w) (g key w))
    (hvendor : ∀ name w, vendorName name = true → g name w = w) :
    Json.Reorder id (.obj os) (restrict keys g (.obj ms)) := by
  have hnames : ∀ name ∈ ((membersAt keys ms).map fun m => (m.1, f m.1 m.2)).map Prod.fst,
      name ∈ keys := by
    intro name hname
    rw [List.map_map] at hname
    exact (names_membersAt keys ms).subset hname
  have hnodup : ((vendorSpecificToJson (vendorAt ms) ++
      (membersAt keys ms).map fun m => (m.1, f m.1 m.2)).map Prod.fst).Nodup := by
    rw [List.map_append, List.nodup_append']
    refine ⟨nodup_vendor _, ?_, ?_⟩
    · rw [List.map_map]
      exact hkeys.sublist (names_membersAt keys ms)
    · intro name hname hname'
      have hyes := (name_of_vendor hname).2
      rw [hplain name (hnames name hname')] at hyes
      exact Bool.noConfusion hyes
  refine .of_lookup ((hos.map Prod.fst).nodup_iff.2 hnodup) ?_ fun name => ?_
  · have hmap : ((ms.filter fun m => keptName keys m.1).map fun m => (m.1, g m.1 m.2)).map
        Prod.fst = (ms.filter fun m => keptName keys m.1).map Prod.fst := by simp
    rw [hmap]
    exact hdistinct.sublist (List.filter_sublist.map Prod.fst)
  · rw [OrdMap.lookup_perm hos ((hos.map Prod.fst).nodup_iff.2 hnodup) name, List.lookup_append,
      lookup_vendor hfree, Json.lookup_map_snd, lookup_membersAt, lookup_restrict]
    by_cases hmember : name ∈ keys
    · rw [if_pos hmember, if_pos (keptName_iff.2 (.inl hmember)), hplain name hmember,
        if_neg Bool.false_ne_true, Option.none_or]
      cases hfound : ms.lookup name with
      | none => exact .none
      | some w => exact .some (hinner name hmember w hfound)
    · rw [if_neg hmember, Option.map_none, Option.or_none]
      by_cases hname : vendorName name = true
      · rw [if_pos hname, if_pos (keptName_iff.2 (.inr hname))]
        cases ms.lookup name with
        | none => exact .none
        | some w =>
          rw [Option.map_some, hvendor name w hname]
          exact .some (.refl w)
      · rw [if_neg hname, if_neg fun hkept => (keptName_iff.1 hkept).elim hmember hname]
        exact .none

/-- Where an object is the same as one that was restricted, and no vendor-specific name in it has a
NUL, there was none before. -/
theorem nulFree_of_reorder {keys : List String} {ms os : List (String × Json)}
    {g : String → Json → Json} (h : Json.Reorder id (.obj os) (restrict keys g (.obj ms)))
    (hos : ∀ name ∈ os.map Prod.fst, vendorName name = true → NulFree name) :
    ∀ m ∈ ms, vendorName m.1 = true → NulFree m.1 := by
  intro m hm hvendor
  refine hos m.1 ((h.mem_names_iff m.1).2 ?_) hvendor
  have hkept : m ∈ ms.filter fun m => keptName keys m.1 :=
    List.mem_filter.2 ⟨hm, keptName_iff.2 (.inr hvendor)⟩
  exact List.mem_map.2 ⟨_, List.mem_map_of_mem hkept, rfl⟩

/-! ## The three levels -/

/-- The vendor-specific names in an object have no NUL in them. -/
def VendorNamesFree (v : Json) : Prop :=
  ∀ name ∈ memberNames v, vendorName name = true → NulFree name

instance (v : Json) : Decidable (VendorNamesFree v) :=
  inferInstanceAs (Decidable (∀ name ∈ memberNames v, vendorName name = true → NulFree name))

theorem vendorNamesFree_obj {ms : List (String × Json)} :
    VendorNamesFree (.obj ms) ↔ ∀ m ∈ ms, vendorName m.1 = true → NulFree m.1 :=
  List.forall_mem_map

/-- One of the objects of an SMS subscription. -/
theorem reorder_written {keys : List String} (hkeys : keys.Nodup)
    (hplain : ∀ key ∈ keys, vendorName key = false) {v : Json} (hdistinct : (memberNames v).Nodup)
    (hfree : VendorNamesFree v) :
    Json.Reorder id (written keys v) (restrict keys (fun _ w => w) v) := by
  cases v with
  | obj ms =>
    refine reorder_level hkeys hplain ?_ hdistinct (vendorNamesFree_obj.1 hfree)
      (fun _ _ w _ => .refl w) fun _ _ _ => rfl
    have hsame : ((membersAt keys ms).map fun m => (m.1, m.2)) = membersAt keys ms :=
      List.map_id' _
    rw [hsame]
    exact List.perm_append_comm
  | _ => exact .refl _

theorem nulFree_of_reorder_written {keys : List String}
    (hplain : ∀ key ∈ keys, vendorName key = false) {v : Json}
    (h : Json.Reorder id (written keys v) (restrict keys (fun _ w => w) v)) :
    VendorNamesFree v := by
  cases v with
  | obj ms =>
    refine vendorNamesFree_obj.2 (nulFree_of_reorder h fun name hname hvendor => ?_)
    rw [List.map_append, List.mem_append] at hname
    rcases hname with hname | hname
    · have hno := hplain name ((names_membersAt keys ms).subset hname)
      rw [hvendor] at hno
      exact Bool.noConfusion hno
    · exact (name_of_vendor hname).1
  | _ => exact nofun

theorem plain_smsSubscriptionFlags : ∀ key ∈ smsSubscriptionFlags, vendorName key = false := by
  decide +kernel

theorem plain_smsManagementFlags : ∀ key ∈ smsManagementFlags, vendorName key = false := by
  decide +kernel

theorem plain_smsObjectNames : ∀ key ∈ smsObjectNames, vendorName key = false := by
  decide +kernel

/-- What is written of one of the objects is what is kept of it, exactly where no vendor-specific
name in it is cut. -/
theorem reorder_smsObject_iff {key : String} (hkey : key ∈ smsObjectNames) {v : Json}
    (hdistinct : (memberNames v).Nodup) :
    Json.Reorder id (writtenSmsObject key v) (restrictSmsObject key v) ↔ VendorNamesFree v := by
  simp only [smsObjectNames, List.mem_cons, List.not_mem_nil, or_false] at hkey
  rcases hkey with rfl | rfl
  · rw [writtenSmsObject, restrictSmsObject, if_pos rfl, if_pos rfl]
    exact ⟨nulFree_of_reorder_written plain_smsSubscriptionFlags,
      reorder_written (by decide) plain_smsSubscriptionFlags hdistinct⟩
  · rw [writtenSmsObject, if_neg (by decide), if_pos rfl, restrictSmsObject, if_neg (by decide),
      if_pos rfl]
    exact ⟨nulFree_of_reorder_written plain_smsManagementFlags,
      reorder_written (by decide) plain_smsManagementFlags hdistinct⟩

theorem lookup_writtenSms {ms : List (String × Json)} {key : String} (hkey : key ∈ smsObjectNames) :
    (writtenSms ms).lookup key = (ms.lookup key).map (writtenSmsObject key) := by
  have hvendor : (vendorSpecificToJson (vendorAt ms)).lookup key = none := by
    rw [← Option.not_isSome_iff_eq_none, Json.isSome_lookup]
    intro hmem
    have hyes := (name_of_vendor hmem).2
    rw [plain_smsObjectNames key hkey] at hyes
    exact Bool.noConfusion hyes
  rw [writtenSms, List.lookup_append, hvendor, Option.none_or, Json.lookup_map_snd,
    lookup_membersAt, if_pos hkey]

/-- **What is written is what is kept of the data, exactly where no vendor-specific name in it is
cut**, in any of the three levels. -/
theorem reorder_writtenSms_iff {ms : List (String × Json)}
    (hdistinct : ∀ v ∈ smsLevels (.obj ms), (memberNames v).Nodup) :
    Json.Reorder id (.obj (writtenSms ms)) (restrictSms (.obj ms)) ↔
      ∀ v ∈ smsLevels (.obj ms), VendorNamesFree v := by
  have hlevel : ∀ v, v ∈ smsLevels (.obj ms) ↔
      v = .obj ms ∨ ∃ key ∈ smsObjectNames, ms.lookup key = some v := by
    intro v
    simp [smsLevels, smsObjectNames]
  have hinner : ∀ key ∈ smsObjectNames, ∀ w, ms.lookup key = some w →
      (Json.Reorder id (writtenSmsObject key w) (restrictSmsObject key w) ↔ VendorNamesFree w) :=
    fun key hkey w hw =>
      reorder_smsObject_iff hkey (hdistinct w ((hlevel w).2 (.inr ⟨key, hkey, hw⟩)))
  constructor
  · intro h v hv
    rcases (hlevel v).1 hv with rfl | ⟨key, hkey, hfound⟩
    · refine vendorNamesFree_obj.2 (nulFree_of_reorder h fun name hname hvendor => ?_)
      rw [writtenSms, List.map_append, List.mem_append] at hname
      rcases hname with hname | hname
      · exact (name_of_vendor hname).1
      · rw [List.map_map] at hname
        have hno := plain_smsObjectNames name ((names_membersAt _ ms).subset hname)
        rw [hvendor] at hno
        exact Bool.noConfusion hno
    · refine (hinner key hkey v hfound).1 ?_
      have hrel := h.member? key
      rw [Json.member?_obj, restrictSms, restrict, Json.member?_obj, lookup_writtenSms hkey,
        lookup_restrict, if_pos (keptName_iff.2 (.inl hkey)), hfound] at hrel
      cases hrel with
      | some hrel => exact hrel
  · intro h
    refine reorder_level (by decide) plain_smsObjectNames (.refl _)
      (hdistinct _ ((hlevel _).2 (.inl rfl)))
      (vendorNamesFree_obj.1 (h _ ((hlevel _).2 (.inl rfl)))) (fun key hkey w hfound => ?_)
      fun name w hname => ?_
    · exact (hinner key hkey w hfound).2 (h w ((hlevel w).2 (.inr ⟨key, hkey, hfound⟩)))
    · have hne : ∀ key ∈ smsObjectNames, name ≠ key := by
        intro key hkey heq
        have hno := plain_smsObjectNames key hkey
        rw [← heq, hname] at hno
        exact Bool.noConfusion hno
      rw [restrictSmsObject, if_neg (hne _ (by decide)), if_neg (hne _ (by decide))]

/-- Data that is not an object is not read. -/
theorem isObject_of_read {p : String} {d : Json} {e : SmsStaticData Json}
    (hrun : Yields Quiet (getOptionalSmsStaticData id p d {}) e) : d.IsObject := by
  by_contra hd
  obtain ⟨e₁, h₁, -⟩ := yields_inOrder_cons.1 hrun
  obtain ⟨m, hm, -⟩ := yields_bind.1 h₁
  rw [getVendorSpecific_of_not_isObject hd] at hm
  obtain ⟨es, hm, -⟩ := hm
  cases hm

/-- **The data of an SMS subscription goes through the service unchanged exactly where no
vendor-specific name in it has a NUL.** The names in each of the three objects are distinct, and
nothing is found wrong. -/
theorem sms_data_kept_iff (ind : Indeterminate) {p : String} {d : Json} {e : SmsStaticData Json}
    (hdistinct : ∀ v ∈ smsLevels d, (memberNames v).Nodup)
    (hrun : Yields Quiet (getOptionalSmsStaticData id p d {}) e) :
    Json.Reorder id (smsStaticDataToJson ind e) (restrictSms d) ↔
      ∀ v ∈ smsLevels d, VendorNamesFree v := by
  obtain ⟨ms, rfl⟩ := isObject_of_read hrun
  rw [written_of_read ind hrun]
  exact reorder_writtenSms_iff hdistinct

/-- A subscription with an object that is empty. -/
def smsWithEmptyObject : Json := .obj [
  ("vendorSpecific-a", .int 1),
  (jsonSmsManagementSubscriptionData, .obj []),
  (jsonSmsSubscriptionData, .obj [("vendorSpecific-b", .null), (jsonSmsSubscribed, .bool true)])]

theorem sms_data_kept_empty_object :
    ∃ e, Yields Quiet (getOptionalSmsStaticData id "" smsWithEmptyObject {}) e ∧
      Json.Reorder id (smsStaticDataToJson ⟨0, false⟩ e) (restrictSms smsWithEmptyObject) := by
  have hdistinct : ∀ v ∈ smsLevels smsWithEmptyObject, (memberNames v).Nodup := by decide +kernel
  have hfree : ∀ v ∈ smsLevels smsWithEmptyObject, VendorNamesFree v := by
    decide +kernel
  obtain ⟨e, hrun⟩ : ∃ e, Yields Quiet (getOptionalSmsStaticData id "" smsWithEmptyObject {}) e :=
    ⟨_, [], rfl, nofun⟩
  exact ⟨e, hrun, (sms_data_kept_iff ⟨0, false⟩ hdistinct hrun).2 hfree⟩

/-- A subscription with a vendor-specific name that has a NUL in it. -/
def smsWithCutName : Json := .obj [
  (jsonSmsSubscriptionData, .obj [(jsonSmsSubscribed, .bool true)]),
  ("vendorSpecific-a\x00b", .int 1)]

/-- The vendor-specific member of it is written under another name. -/
theorem cut_name_not_kept : (∀ v ∈ smsLevels smsWithCutName, (memberNames v).Nodup) ∧
    ∃ e, Yields Quiet (getOptionalSmsStaticData id "" smsWithCutName {}) e ∧
      ¬ Json.Reorder id (smsStaticDataToJson ⟨0, false⟩ e) (restrictSms smsWithCutName) := by
  have hdistinct : ∀ v ∈ smsLevels smsWithCutName, (memberNames v).Nodup := by decide +kernel
  obtain ⟨e, hrun⟩ : ∃ e, Yields Quiet (getOptionalSmsStaticData id "" smsWithCutName {}) e :=
    ⟨_, [], rfl, nofun⟩
  refine ⟨hdistinct, e, hrun, fun h => ?_⟩
  rw [written_of_read ⟨0, false⟩ hrun] at h
  have hfree := (reorder_writtenSms_iff hdistinct).1 h smsWithCutName List.mem_cons_self
  exact absurd (hfree "vendorSpecific-a\x00b" (by decide) (by decide +kernel)) (by decide +kernel)

end ProvisioningValidator
