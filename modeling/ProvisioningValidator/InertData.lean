import Mathlib
import ProvisioningValidator.Completeness

/-!
# Inert data

Data that a reader is given and that leave its entity blank without an error are as if they had not
been read. For each kind of resource they can be described without the reader: they have no
vendor-specific member, and of the members that the reader looks for they have none, or one with
nothing in it (`blank_iff`). Static data without the name of a slice profile are an error, so there
are none.
-/

namespace ProvisioningValidator

open Lib Lib.Run

variable {V : Type} {val : Json → V} {p : String}

/-- An object without vendor-specific members. -/
def Unmarked (d : Json) : Prop :=
  ∃ ms, d = .obj ms ∧ ∀ m ∈ ms, isVendorSpecific (cstr m.1) = false

/-- Data of a kind that leave its entity blank, and are read without an error. -/
def ResourceKind.Inert : ResourceKind → Json → Prop
  | udmStaticData, _ => False
  | udmSliceProfile, d => Unmarked d ∧
    (∀ w ∈ d.member? jsonUdmSliceProfileId, asString w = some "") ∧
      ∀ w ∈ d.member? jsonPlmnIdSets, (asArray w).getD [] = []
  | udmRoamingArea, d => Unmarked d ∧
    (∀ w ∈ d.member? jsonUdmRoamingAreaId, asString w = some "") ∧
      ∀ w ∈ d.member? jsonAreaList, asArray w = some []
  | smsStaticData, d => Unmarked d ∧ d.member? jsonSmsSubscriptionData = none ∧
    d.member? jsonSmsManagementSubscriptionData = none

/-! ## Steps of readers -/

theorem vendorEntries_eq_nil_iff {ms : List (String × Json)} :
    vendorEntries val ms = [] ↔ ∀ m ∈ ms, isVendorSpecific (cstr m.1) = false := by
  simp [vendorEntries]

theorem foldl_add_eq_empty_iff {ms : List (String × Json)} :
    ms.foldl (fun m itr => m.add itr.1 (val itr.2)) (∅ : VendorSpecific V) = ∅ ↔
      ∀ m ∈ ms, isVendorSpecific (cstr m.1) = false := by
  rw [← @vendorEntries_eq_nil_iff V val, ← OrdMap.emplaceAll_eq_empty_iff]
  have hmap := @map_foldl_add V val ms ∅
  rw [VendorSpecific.map_empty] at hmap
  rw [← hmap]
  exact ⟨fun h => congrArg VendorSpecific.map h, fun h => VendorSpecific.ext_map h⟩

/-- The vendor-specific members are taken from an object. -/
theorem yields_vendor_iff {q : Event → Prop} {E : Type} {get : E → VendorSpecific V}
    {put : VendorSpecific V → E → E} {d : Json} {e e' : E} :
    Yields q (Reader.into get put (getVendorSpecific val) d e) e' ↔ ∃ ms, d = .obj ms ∧
      e' = put (ms.foldl (fun m itr => m.add itr.1 (val itr.2)) (get e)) e := by
  constructor
  · intro h
    obtain ⟨m, hm, he⟩ := yields_bind.1 h
    obtain ⟨ms, hms, hm⟩ := yields_bind.1 hm
    rw [yields_pure.1 he, yields_pure.1 hm]
    cases d with
    | obj ns =>
      obtain rfl := Option.some.inj (yields_lift.1 hms)
      exact ⟨ns, rfl, rfl⟩
    | _ => exact absurd (yields_lift.1 hms) (Option.some_ne_none _).symm
  · rintro ⟨ms, rfl, rfl⟩
    exact yields_bind.2 ⟨_, yields_pure.2 rfl, yields_pure.2 rfl⟩

/-- A text that may be missing, and is empty then. -/
theorem yields_optionalString_iff {E : Type} {key field : String} {put : String → E → E} {d : Json}
    (hd : d.IsObject) {e e' : E} (hblank : put "" e = e) :
    Yields Quiet (Reader.ifMember key (Reader.string p field put) Reader.skip d e) e' ↔
      ∃ s, (d.member? key).elim (some "") asString = some s ∧ e' = put s e := by
  rw [Reader.ifMember, Json.findMember_of_isObject hd, lift_some, pure_bind]
  cases d.member? key with
  | none => simp [Reader.skip, hblank]
  | some w =>
    dsimp only [Option.elim]
    rw [Reader.string, Reader.leaf]
    cases asString w with
    | none => simp
    | some s => simp

theorem elim_asString_iff {o : Option Json} :
    o.elim (some "") asString = some "" ↔ ∀ w ∈ o, asString w = some "" := by
  cases o with
  | none => simp
  | some w => simp

theorem not_yields_fresh_none {q : Event → Prop} {A : Type} {start : A} {r : Reader A} {v : Json} :
    ¬ Yields q (Reader.fresh start r v) none := by
  intro h
  obtain ⟨a, -, hnone⟩ := yields_bind.1 h
  exact absurd (yields_pure.1 hnone) (Option.some_ne_none a).symm

theorem not_yields_objectElement_none {A : Type} {start : A} {r : Reader A} {key : String}
    {v : Json} : ¬ Yields Quiet (Reader.objectElement p key (Reader.fresh start r) v) none := by
  rw [Reader.objectElement]
  split_ifs
  · exact not_yields_fresh_none
  · intro h
    obtain ⟨u, hreport, -⟩ := yields_bind.1 h
    exact not_quiet_addError hreport

/-- An array that may be missing, and gives nothing then. -/
theorem yields_optionalArray_iff {E A : Type} {key field : String}
    {element : Json → ParserM (Option A)} {put : List A → E → E} {d : Json} (hd : d.IsObject)
    {e e' : E} (hblank : put [] e = e) :
    Yields Quiet (Reader.ifMember key (Reader.array p field element put) Reader.skip d e) e' ↔
      ∃ as, (d.member? key).elim (as = [])
        (fun w => ∃ xs, asArray w = some xs ∧ Yields Quiet (collect element xs) as) ∧
          e' = put as e := by
  rw [Reader.ifMember, Json.findMember_of_isObject hd, lift_some, pure_bind]
  cases d.member? key with
  | none => simp [Reader.skip, hblank]
  | some w =>
    dsimp only [Option.elim]
    rw [Reader.array]
    cases asArray w with
    | none => simp
    | some xs => simp

/-! ## The readers -/

theorem blank_udmRoamingArea_iff {d : Json} :
    Yields Quiet (getUdmRoamingAreas val p d {}) {} ↔ ResourceKind.udmRoamingArea.Inert d := by
  rw [getUdmRoamingAreas, yields_inOrder_cons]
  constructor
  · rintro ⟨_, h₁, h⟩
    obtain ⟨ms, rfl, rfl⟩ := yields_vendor_iff.1 h₁
    obtain ⟨_, h₂, h⟩ := yields_inOrder_cons.1 h
    obtain ⟨s, hs, rfl⟩ := (yields_optionalString_iff ⟨ms, rfl⟩ rfl).1 h₂
    obtain ⟨_, h₃, h⟩ := yields_inOrder_cons.1 h
    obtain ⟨as, has, rfl⟩ := (yields_optionalArray_iff ⟨ms, rfl⟩ rfl).1 h₃
    have heq := yields_inOrder_nil.1 h
    simp only [UdmRoamingArea.mk.injEq] at heq
    obtain ⟨rfl, rfl, hvendor⟩ := heq
    refine ⟨⟨ms, rfl, foldl_add_eq_empty_iff.1 hvendor.symm⟩, elim_asString_iff.1 hs, ?_⟩
    intro w hw
    rw [Option.mem_def.1 hw] at has
    obtain ⟨xs, hxs, hnil⟩ := has
    rw [hxs, (yields_collect_nil_iff fun _ => not_yields_objectElement_none).1 hnil]
  · rintro ⟨⟨ms, rfl, hvendor⟩, hid, hareas⟩
    refine ⟨_, yields_vendor_iff.2 ⟨ms, rfl, rfl⟩, ?_⟩
    rw [foldl_add_eq_empty_iff.2 hvendor]
    refine yields_inOrder_cons.2 ⟨_, (yields_optionalString_iff ⟨ms, rfl⟩ rfl).2
      ⟨"", elim_asString_iff.2 hid, rfl⟩, ?_⟩
    refine yields_inOrder_cons.2 ⟨_, (yields_optionalArray_iff ⟨ms, rfl⟩ rfl).2
      ⟨[], ?_, rfl⟩, yields_inOrder_nil.2 rfl⟩
    cases hlist : (Json.obj ms).member? jsonAreaList with
    | none => rfl
    | some w => exact ⟨[], hareas w hlist, yields_pure.2 rfl⟩

/-- A `plmnIdSets` that is no array is no error of the response, and gives nothing. -/
theorem yields_plmnIdSets_iff {d : Json} (hd : d.IsObject) {e e' : UdmSliceProfile V}
    (hblank : e.plmnIdSets = []) :
    Yields Quiet (Reader.ifMember jsonPlmnIdSets
      (fun v e =>
        match asArray v with
        | some xs => do
          let plmnIdSets ← getPlmnIdSets val p false xs
          return { e with plmnIdSets := plmnIdSets }
        | none => do
          setParsingError "data is not an Array"
          return e) Reader.skip d e) e' ↔
      ∃ sets, Yields Quiet (getPlmnIdSets val p false
          (((d.member? jsonPlmnIdSets).bind asArray).getD [])) sets ∧
        e' = { e with plmnIdSets := sets } := by
  have hnil : Yields Quiet (getPlmnIdSets val p false []) [] := yields_pure.2 rfl
  have hkeep : e = { e with plmnIdSets := [] } := by rw [← hblank]
  rw [Reader.ifMember, Json.findMember_of_isObject hd, lift_some, pure_bind]
  have hskip : e' = e ↔ ∃ sets, Yields Quiet (getPlmnIdSets val p false []) sets ∧
      e' = { e with plmnIdSets := sets } := by
    constructor
    · exact fun h => ⟨[], hnil, h.trans hkeep⟩
    · rintro ⟨sets, hsets, h⟩
      obtain rfl := yields_pure.1 hsets
      exact h.trans hkeep.symm
  cases d.member? jsonPlmnIdSets with
  | none => exact yields_pure.trans hskip
  | some w =>
    rw [Option.bind_some]
    dsimp only
    cases asArray w with
    | none =>
      have hflag : ∃ u, Yields Quiet (setParsingError "data is not an Array") u :=
        ⟨(), yields_emit.2 rfl⟩
      simpa [hflag] using hskip
    | some xs => simp

theorem blank_udmSliceProfile_iff {d : Json} :
    Yields Quiet (getUdmSliceProfile val p d {}) {} ↔ ResourceKind.udmSliceProfile.Inert d := by
  have hsets : ∀ ms : List (String × Json), (((Json.obj ms).member? jsonPlmnIdSets).bind
      asArray).getD [] = [] ↔ ∀ w ∈ (Json.obj ms).member? jsonPlmnIdSets,
        (asArray w).getD [] = [] := by
    intro ms
    cases (Json.obj ms).member? jsonPlmnIdSets with
    | none => simp
    | some w => simp
  rw [getUdmSliceProfile, yields_inOrder_cons]
  constructor
  · rintro ⟨_, h₁, h⟩
    obtain ⟨ms, rfl, rfl⟩ := yields_vendor_iff.1 h₁
    obtain ⟨_, h₂, h⟩ := yields_inOrder_cons.1 h
    obtain ⟨s, hs, rfl⟩ := (yields_optionalString_iff ⟨ms, rfl⟩ rfl).1 h₂
    obtain ⟨_, h₃, h⟩ := yields_inOrder_cons.1 h
    obtain ⟨sets, hread, rfl⟩ := (yields_plmnIdSets_iff ⟨ms, rfl⟩ rfl).1 h₃
    have heq := yields_inOrder_nil.1 h
    simp only [UdmSliceProfile.mk.injEq] at heq
    obtain ⟨rfl, rfl, hvendor⟩ := heq
    refine ⟨⟨ms, rfl, foldl_add_eq_empty_iff.1 hvendor.symm⟩, elim_asString_iff.1 hs, ?_⟩
    exact (hsets ms).1 ((yields_collect_nil_iff fun _ => not_yields_fresh_none).1 hread)
  · rintro ⟨⟨ms, rfl, hvendor⟩, hid, hlist⟩
    refine ⟨_, yields_vendor_iff.2 ⟨ms, rfl, rfl⟩, ?_⟩
    rw [foldl_add_eq_empty_iff.2 hvendor]
    refine yields_inOrder_cons.2 ⟨_, (yields_optionalString_iff ⟨ms, rfl⟩ rfl).2
      ⟨"", elim_asString_iff.2 hid, rfl⟩, ?_⟩
    refine yields_inOrder_cons.2 ⟨_, (yields_plmnIdSets_iff ⟨ms, rfl⟩ rfl).2 ⟨[], ?_, rfl⟩,
      yields_inOrder_nil.2 rfl⟩
    rw [(hsets ms).2 hlist]
    exact yields_pure.2 rfl

/-- `smsSubscriptionData` and its neighbour leave a flag, or an error. -/
theorem yields_getSmsObject_iff {key : String} {setFlag : Bool → SmsStaticData V → SmsStaticData V}
    {r : Reader (SmsStaticData V)} {d : Json} (hd : d.IsObject) {e e' : SmsStaticData V}
    {f : SmsStaticData V → Bool} (hf : ∀ b e, f (setFlag b e) = b) (he' : f e' = false) :
    Yields Quiet (getSmsObject p key setFlag r d e) e' ↔
      d.member? key = none ∧ e' = setFlag false e := by
  rw [getSmsObject, Reader.ifMember, Json.findMember_of_isObject hd, lift_some, pure_bind]
  cases d.member? key with
  | none => simp [Reader.without]
  | some w =>
    refine iff_of_false (fun h => ?_) (fun h => absurd h.1 (Option.some_ne_none w))
    dsimp only at h
    split_ifs at h
    · obtain ⟨e₁, -, h⟩ := yields_bind.1 h
      rw [yields_pure.1 h, hf] at he'
      cases he'
    · obtain ⟨u, hreport, -⟩ := yields_bind.1 h
      exact not_quiet_addError hreport

theorem blank_smsStaticData_iff {d : Json} :
    Yields Quiet (getOptionalSmsStaticData val p d {}) {} ↔
      ResourceKind.smsStaticData.Inert d := by
  rw [getOptionalSmsStaticData, yields_inOrder_cons]
  constructor
  · rintro ⟨_, h₁, h⟩
    obtain ⟨ms, rfl, rfl⟩ := yields_vendor_iff.1 h₁
    obtain ⟨e₂, h₂, h⟩ := yields_inOrder_cons.1 h
    obtain ⟨_, h₃, h⟩ := yields_inOrder_cons.1 h
    obtain rfl := yields_inOrder_nil.1 h
    obtain ⟨hmanagement, hlast⟩ := (yields_getSmsObject_iff ⟨ms, rfl⟩
      (f := (·.fieldExistenceSmsStaticData.hasSmsManagementSubscriptionData))
      (fun b e => rfl) rfl).1 h₃
    have hflag : e₂.fieldExistenceSmsStaticData.hasSmsSubscriptionData = false :=
      (congrArg (·.fieldExistenceSmsStaticData.hasSmsSubscriptionData) hlast).symm
    obtain ⟨hsubscription, rfl⟩ := (yields_getSmsObject_iff ⟨ms, rfl⟩
      (f := (·.fieldExistenceSmsStaticData.hasSmsSubscriptionData))
      (fun b e => rfl) hflag).1 h₂
    have hvendor := congrArg SmsStaticData.vendorSpecific hlast
    exact ⟨⟨ms, rfl, foldl_add_eq_empty_iff.1 hvendor.symm⟩, hsubscription, hmanagement⟩
  · rintro ⟨⟨ms, rfl, hvendor⟩, hsubscription, hmanagement⟩
    refine ⟨_, yields_vendor_iff.2 ⟨ms, rfl, rfl⟩, ?_⟩
    rw [foldl_add_eq_empty_iff.2 hvendor]
    refine yields_inOrder_cons.2 ⟨{}, (yields_getSmsObject_iff ⟨ms, rfl⟩
      (f := (·.fieldExistenceSmsStaticData.hasSmsSubscriptionData))
      (fun b e => rfl) rfl).2 ⟨hsubscription, rfl⟩, ?_⟩
    exact yields_inOrder_cons.2 ⟨{}, (yields_getSmsObject_iff ⟨ms, rfl⟩
      (f := (·.fieldExistenceSmsStaticData.hasSmsManagementSubscriptionData))
      (fun b e => rfl) rfl).2 ⟨hmanagement, rfl⟩, yields_inOrder_nil.2 rfl⟩

/-- Static data name a slice profile, or an error is recorded. -/
theorem not_blank_udmStaticData {d : Json} : ¬ Yields Quiet (getUdmStaticData val p d {}) {} := by
  intro h
  have hstored := storable_getUdmStaticData d {} {} rfl h ⟨by simp, by simp, by simp, by simp⟩
  exact hstored.udmSliceProfileId.id.2 rfl

/-- **Data leave their entity blank, and are read without an error, exactly if they are inert.** -/
theorem blank_iff (k : ResourceKind) {d : Json} :
    Yields Quiet (k.reader val p d (k.blank V)) (k.blank V) ↔ k.Inert d := by
  cases k with
  | udmStaticData => exact iff_of_false not_blank_udmStaticData id
  | udmSliceProfile => exact blank_udmSliceProfile_iff
  | udmRoamingArea => exact blank_udmRoamingArea_iff
  | smsStaticData => exact blank_smsStaticData_iff

end ProvisioningValidator
