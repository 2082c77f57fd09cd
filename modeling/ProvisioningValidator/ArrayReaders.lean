import Mathlib
import ProvisioningValidator.Lib.Members
import ProvisioningValidator.ReaderRules
import ProvisioningValidator.StaticReaders

/-!
# Readers of the objects around an array

An array of objects stands under a name of an object, and the reader of that object reads other
members before it and behind it. `ReadsArray` says that in between it reads the elements, puts what
they give into a field of its entity, and leaves it there. The steps of such a reader that do not
look at the array (`Ignores`) do the same whatever its elements are.

There is one theorem for each of the ten arrays that the parser reads.
-/

namespace ProvisioningValidator

open Lib Lib.Run

variable {A E F V : Type} {val : Json → V}

/-- What the reader does to an object does not depend on the member of that name. -/
def Ignores (key : String) (r : Reader E) : Prop := ∀ v w e, r (v.withMember key w) e = r v e

/-- The reader reads the elements of the array under `key`, whatever the other members are: between
what it does before and behind, it puts what they give into its entity, and the field `get` keeps
it. -/
def ReadsArray (r : Reader E) (key : String) (parse : List Json → ParserM (List A))
    (get : E → List A) (put : List A → E → E) : Prop :=
  ∀ v : Json, v.IsObject → ∃ before after : E → ParserM E,
    (∀ e xs, r (v.withMember key (.arr xs)) e = (do
      let e ← before e
      let as ← parse xs
      after (put as e))) ∧
    ∀ e e', Yields (fun _ => True) (after e) e' → get e <+: get e'

/-! ## Steps that look elsewhere -/

namespace Ignores

variable {key : String}

theorem ifMember {key' : String} (h : key' ≠ key) (r : Reader E) (absent : E → ParserM E) :
    Ignores key (Reader.ifMember key' r absent) := fun v w e => by
  rw [Reader.ifMember, Reader.ifMember, Json.findMember_withMember_of_ne h]

theorem into {get : E → F} {put : F → E → E} {r : Reader F} (h : Ignores key r) :
    Ignores key (Reader.into get put r) := fun v w e => by
  rw [Reader.into, Reader.into, h]

theorem mark (set : E → E) : Ignores key (Reader.mark set) := fun _ _ _ => rfl

theorem inOrder {rs : List (Reader E)} (h : ∀ r ∈ rs, Ignores key r) :
    Ignores key (Reader.inOrder rs) := by
  induction rs with
  | nil => exact fun _ _ _ => rfl
  | cons r rs ih =>
    obtain ⟨hr, hrs⟩ := List.forall_mem_cons.1 h
    intro v w e
    rw [Reader.inOrder, Reader.inOrder, hr]
    exact congrArg _ (funext fun e₁ => ih hrs v w e₁)

/-- A name that is not vendor-specific is passed over. -/
theorem vendorEntries_putMember (h : isVendorSpecific (cstr key) = false) (w : Json)
    (ms : List (String × Json)) :
    vendorEntries val (Json.putMember key w ms) = vendorEntries val ms := by
  induction ms with
  | nil => rw [Json.putMember, vendorEntries_cons, if_neg (by simp [h])]
  | cons m ms ih =>
    rw [Json.putMember]
    split_ifs with hname
    · subst hname
      rw [vendorEntries_cons, vendorEntries_cons, if_neg (by simp [h]), if_neg (by simp [h])]
    · rw [vendorEntries_cons, vendorEntries_cons, ih]

theorem vendor (h : isVendorSpecific (cstr key) = false) :
    Ignores key (getVendorSpecific val) := fun v w m => by
  cases v with
  | obj ms =>
    refine congrArg Run.pure (VendorSpecific.ext_map ?_)
    rw [map_foldl_add, map_foldl_add, vendorEntries_putMember h]
  | _ => rfl

end Ignores

/-! ## The step that reads the array -/

namespace ReadsArray

variable {key : String} {parse : List Json → ParserM (List A)} {get : E → List A}
  {put : List A → E → E} {r : Reader E} {rs : List (Reader E)}

/-- A step before the one that reads the array. -/
theorem later (h : Ignores key r) (hs : ReadsArray (Reader.inOrder rs) key parse get put) :
    ReadsArray (Reader.inOrder (r :: rs)) key parse get put := by
  intro v hv
  obtain ⟨before, after, hread, hkept⟩ := hs v hv
  refine ⟨fun e => r v e >>= before, after, fun e xs => ?_, hkept⟩
  rw [Reader.inOrder, h, bind_assoc]
  exact congrArg _ (funext fun e₁ => hread e₁ xs)

/-- The step that reads the array; the others look elsewhere and leave what it has put. -/
theorem here (h : ReadsArray r key parse get put) (hs : ∀ r' ∈ rs, Ignores key r')
    (hkept : ∀ as, ∀ r' ∈ rs, Keeps (fun _ => True) (fun e => as <+: get e) r') :
    ReadsArray (Reader.inOrder (r :: rs)) key parse get put := by
  intro v hv
  obtain ⟨before, after, hread, hafter⟩ := h v hv
  refine ⟨before, fun e => after e >>= Reader.inOrder rs v, fun e xs => ?_, fun e e' hrun => ?_⟩
  · rw [Reader.inOrder, hread]
    simp only [bind_assoc, Ignores.inOrder hs v]
  · obtain ⟨e₁, hfirst, hrest⟩ := yields_bind.1 hrun
    exact Keeps.inOrder (hkept (get e)) v e₁ e' (hafter e e₁ hfirst) hrest

/-- A member that is read, where it is an array, by reading its elements. -/
theorem ifMember {present : Reader E} {absent : E → ParserM E} {set : E → E}
    (h : ∀ xs e, present (.arr xs) e = parse xs >>= fun as => pure (put as (set e))) :
    ReadsArray (Reader.ifMember key present absent) key parse get put := by
  intro v hv
  refine ⟨fun e => pure (set e), pure, fun e xs => ?_, fun e e' hrun => ?_⟩
  · rw [Reader.ifMember, Json.findMember_of_isObject ((Json.isObject_withMember _ _).2 hv),
      Json.member?_withMember hv, lift_some, pure_bind, pure_bind]
    exact h xs e
  · rw [yields_pure.1 hrun]

end ReadsArray

/-! ## The arrays in slice data -/

section

variable (val : Json → V) (p : String)

theorem reads_defaultSingleNssais : ReadsArray (getSliceInfoNssai val p) jsonDefaultSingleNssais
    (collect (getNssaiDetails val p jsonDefaultSingleNssais)) (·.nssai.defaultSingleNssais)
    fun as e => { e with nssai.defaultSingleNssais := e.nssai.defaultSingleNssais ++ as } := by
  refine .later (.into (.vendor (by decide))) (.here (.ifMember fun _ _ => rfl) ?_ fun as => ?_)
  · simp only [List.forall_mem_singleton]
    exact .ifMember (by decide) _ _
  · simp only [List.forall_mem_singleton]
    exact .ifMember (.marking (fun _ h => h) (.array fun _ _ h => h)) (.without fun _ h => h)

theorem reads_singleNssais : ReadsArray (getSliceInfoNssai val p) jsonSingleNssais
    (collect (getNssaiDetails val p jsonSingleNssais)) (·.nssai.singleNssais)
    fun as e => { e with nssai.singleNssais := e.nssai.singleNssais ++ as } := by
  refine .later (.into (.vendor (by decide))) <| .later (.ifMember (by decide) _ _) <|
    .here (.ifMember fun _ _ => rfl) ?_ fun as => ?_
  · exact List.forall_mem_nil _
  · exact List.forall_mem_nil _

theorem reads_dnnDataList : ReadsArray (getDnnList val p) jsonDnnDataList
    (collect (Reader.objectElement p jsonDnnDataList (Reader.fresh {} (getDnnData val p))))
    (·.dnnDataList) fun as e => { e with dnnDataList := e.dnnDataList ++ as } := by
  refine .later (.into (.vendor (by decide))) <| .later (.ifMember (by decide) _ _) <|
    .here (.ifMember fun _ _ => rfl) ?_ fun as => ?_
  · exact List.forall_mem_nil _
  · exact List.forall_mem_nil _

theorem reads_dnnLists (isSliceData : Bool) :
    ReadsArray (getPlmnIdSet val p isSliceData) jsonDnnLists
      (collect (Reader.objectElement p jsonDnnLists (Reader.fresh {} (getDnnList val p))))
      (·.dnnLists) fun as e => { e with dnnLists := e.dnnLists ++ as } := by
  refine .later (.into (.vendor (by decide))) <| .later (.ifMember (by decide) _ _) <|
    .later (.mark _) <| .later (.ifMember (by decide) _ _) <| .later (fun _ _ _ => rfl) <|
    .here (.ifMember fun _ _ => rfl) ?_ fun as => ?_
  · exact List.forall_mem_nil _
  · exact List.forall_mem_nil _

theorem reads_plmnIdSets_udmSliceProfile : ReadsArray (getUdmSliceProfile val p) jsonPlmnIdSets
    (getPlmnIdSets val p false) (·.plmnIdSets) fun as e => { e with plmnIdSets := as } := by
  refine .later (.into (.vendor (by decide))) <| .later (.ifMember (by decide) _ _) <|
    .here (.ifMember fun _ _ => rfl) ?_ fun as => ?_
  · exact List.forall_mem_nil _
  · exact List.forall_mem_nil _

theorem reads_plmnIdSets_udmSliceData : ReadsArray (getUdmSliceData val p) jsonPlmnIdSets
    (getPlmnIdSets val p true) (·.plmnIdSets) fun as e => { e with plmnIdSets := as } := by
  refine .later (.into (.vendor (by decide))) <| .here (.ifMember fun _ _ => rfl) ?_ fun as => ?_
  · exact List.forall_mem_nil _
  · exact List.forall_mem_nil _

/-! ## The arrays in static data -/

theorem reads_forbiddenAreas : ReadsArray (getUdmStaticData val p) jsonForbiddenAreas
    (collect (getUdmRoamingAreaReference val p jsonForbiddenAreas)) (·.forbiddenAreas)
    fun as e => { e with forbiddenAreas := e.forbiddenAreas ++ as } := by
  refine .later (.into (.vendor (by decide))) <| .later (.ifMember (by decide) _ _) <|
    .later (.ifMember (by decide) _ _) <| .here (.ifMember fun _ _ => rfl) ?_ fun as => ?_
  · simp only [List.forall_mem_cons]
    exact ⟨.ifMember (by decide) _ _, .ifMember (by decide) _ _, .ifMember (by decide) _ _,
      .ifMember (by decide) _ _, .ifMember (by decide) _ _, .ifMember (by decide) _ _,
      .ifMember (by decide) _ _, .ifMember (by decide) _ _, .ifMember (by decide) _ _,
      .ifMember (by decide) _ _, .ifMember (by decide) _ _, .ifMember (by decide) _ _,
      .ifMember (by decide) _ _, List.forall_mem_nil _⟩
  · have harea : Keeps (fun _ => True) (fun e : UdmStaticData V => as <+: e.forbiddenAreas)
        (getServiceAreaRestriction val p) := by
      refine .inOrder ?_
      simp only [List.forall_mem_cons]
      exact ⟨.into fun _ _ h => h, .ifMember (.leaf fun _ _ h => h) .skip,
        .ifMember (.array fun _ _ h => h) .skip,
        .ifMember (.leaf fun _ _ h => h) (.without fun _ h => h), .mark fun _ h => h,
        List.forall_mem_nil _⟩
    simp only [List.forall_mem_cons]
    exact ⟨.ifMember (.object harea) (.without fun _ h => h),
      .ifMember (.array fun _ _ h => h) .skip,
      .ifMember (.leaf fun _ _ h => h) (.without fun _ h => h),
      .ifMember (.leaf fun _ _ h => h) (.without fun _ h => h),
      .ifMember (.leaf fun _ _ h => h) (.without fun _ h => h),
      .ifMember (.leaf fun _ _ h => h) (.without fun _ h => h),
      .ifMember (.object (.into fun _ _ h => h)) .mandatory,
      .ifMember (.marking (fun _ h => h) (.into fun _ _ h => h)) (.without fun _ h => h),
      .ifMember (.nonEmptyString fun _ _ h => h) .skip,
      .ifMember (.leaf fun _ _ h => h) (.without fun _ h => h),
      .ifMember (.leaf fun _ _ h => h) (.without fun _ h => h),
      .ifMember (.leaf fun _ _ h => h) (.without fun _ h => h),
      .ifMember (.marking (fun _ h => h) (.into fun _ _ h => h)) (.without fun _ h => h),
      List.forall_mem_nil _⟩

theorem reads_areas : ReadsArray (getServiceAreaRestriction val p) jsonAreas
    (collect (Reader.objectElement p jsonAreas (getUdmRoamingAreaReference val p jsonAreas)))
    (·.serviceAreaRestriction.areas)
    fun as e => { e with
      serviceAreaRestriction.areas := e.serviceAreaRestriction.areas ++ as } := by
  refine .later (.into (.vendor (by decide))) <| .later (.ifMember (by decide) _ _) <|
    .here (.ifMember fun _ _ => rfl) ?_ fun as => ?_
  · exact List.forall_mem_cons.2 ⟨.ifMember (by decide) _ _, List.forall_mem_singleton.2 (.mark _)⟩
  · exact List.forall_mem_cons.2 ⟨.ifMember (.leaf fun _ _ h => h) (.without fun _ h => h),
      List.forall_mem_singleton.2 (.mark fun _ h => h)⟩

theorem reads_nssaiDnnIpLists : ReadsArray (getStaticIpAddress val p) jsonNssAiDnnIpLists
    (collect (getNssaiDnnIps val p)) (·.nssaiDnnIpLists)
    fun as e => { e with nssaiDnnIpLists := e.nssaiDnnIpLists ++ as } := by
  refine .later (.into (.vendor (by decide))) <| .here ?_ (List.forall_mem_nil _) fun _ =>
    List.forall_mem_nil _
  intro v hv
  refine ⟨pure, pure, fun e xs => ?_, fun e e' hrun => ?_⟩
  · show Run.lift ((v.withMember jsonNssAiDnnIpLists (.arr xs)).index jsonNssAiDnnIpLists) >>= _ = _
    rw [Json.index_eq_member?, Json.member?_withMember hv, lift_some, pure_bind, pure_bind]
    rfl
  · rw [yields_pure.1 hrun]

theorem getDnnIpList_append (dnn : String) (ddnlist : List (DnnIps V)) (ws : List Json) :
    getDnnIpList val p dnn ddnlist ws = (ddnlist ++ ·) <$> getDnnIpList val p dnn [] ws := by
  induction ws generalizing dnn ddnlist with
  | nil => simp [getDnnIpList]
  | cons w ws ih =>
    rw [getDnnIpList, getDnnIpList]
    by_cases hw : w.IsObject
    · simp only [if_pos hw, map_bind]
      refine congrArg _ (funext fun dnnIps => ?_)
      rw [ih _ (ddnlist ++ [dnnIps]), ih _ ([] ++ [dnnIps])]
      simp
    · simp only [if_neg hw, map_bind]
      exact congrArg _ (funext fun _ => ih dnn ddnlist)

theorem grown_getNssaiDnnIpsMember {e e' : NssaiDnnIps V} {itr : String × Json}
    (h : Yields (fun _ => True) (getNssaiDnnIpsMember val p e itr) e') :
    e.dnnIpList <+: e'.dnnIpList := by
  rw [getNssaiDnnIpsMember] at h
  split_ifs at h
  · obtain ⟨a, -, he⟩ := yields_bind.1 h
    rw [yields_pure.1 he]
  · obtain ⟨as, has, he⟩ := yields_bind.1 h
    rw [yields_pure.1 he]
    rw [getDnnIpLists] at has
    cases hv : asArray itr.2 with
    | some ws =>
      simp only [hv] at has
      rw [getDnnIpList_append, yields_map] at has
      obtain ⟨bs, -, rfl⟩ := has
      exact List.prefix_append _ _
    | none =>
      simp only [hv] at has
      obtain ⟨-, -, has⟩ := yields_bind.1 has
      rw [yields_pure.1 has]
  · rw [yields_pure.1 h]

theorem grown_nssaiDnnIpsMembers {ms : List (String × Json)} {e e' : NssaiDnnIps V}
    (h : Yields (fun _ => True) (ms.foldlM (getNssaiDnnIpsMember val p) e) e') :
    e.dnnIpList <+: e'.dnnIpList := by
  induction ms generalizing e with
  | nil =>
    rw [List.foldlM_nil, yields_pure] at h
    rw [h]
  | cons m ms ih =>
    rw [List.foldlM_cons, yields_bind] at h
    obtain ⟨e₁, hfirst, hrest⟩ := h
    exact (grown_getNssaiDnnIpsMember val p hfirst).trans (ih hrest)

/-- Every member of that name is read, and what they give is appended. -/
theorem reads_dnnIpList : ReadsArray
    (fun v e => do
      let o ← getNssaiDnnIps val p v
      return o.getD e) jsonDnnIpList
    (getDnnIpList val p "" []) (·.dnnIpList)
    fun as e => { e with dnnIpList := e.dnnIpList ++ as } := by
  rintro - ⟨ms, rfl⟩
  obtain ⟨ms₁, ms₂, hput⟩ := Json.exists_putMember (β := Json) jsonDnnIpList ms
  refine ⟨fun _ => do
      let vendorSpecific ← getVendorSpecific val (.obj ms) ∅
      ms₁.foldlM (getNssaiDnnIpsMember val p) { vendorSpecific },
    fun e => ms₂.foldlM (getNssaiDnnIpsMember val p) e, fun e xs => ?_, fun e e' hrun => ?_⟩
  · have hmember : ∀ e₁ : NssaiDnnIps V,
        getNssaiDnnIpsMember val p e₁ (jsonDnnIpList, .arr xs) = (do
          let as ← getDnnIpList val p "" [] xs
          return { e₁ with dnnIpList := e₁.dnnIpList ++ as }) := by
      intro e₁
      have hnssai : cstr jsonDnnIpList ≠ jsonNssai := by decide
      have hlist : cstr jsonDnnIpList = jsonDnnIpList := by decide
      rw [getNssaiDnnIpsMember, if_neg hnssai, if_pos hlist]
      show getDnnIpList val p "" e₁.dnnIpList xs >>= _ = _
      rw [getDnnIpList_append, bind_map_left]
    show getNssaiDnnIps val p (Json.withMember (.obj ms) jsonDnnIpList (.arr xs)) >>= _ = _
    rw [getNssaiDnnIps, Ignores.vendor (by decide)]
    simp only [Json.withMember, Json.members, lift_some, pure_bind, hput, List.foldlM_append,
      List.foldlM_cons, hmember, bind_assoc, Option.getD_some]
    simp only [bind_pure]
  · exact grown_nssaiDnnIpsMembers val p hrun

/-- The `dnn` that the elements before it have left belongs to the entity that is read. -/
theorem reads_ipAddress : ReadsArray (fun w e => getDnnIps val p e.dnn w) jsonIpaddress
    (collect (getIpAddr val p)) (·.ipAddress)
    fun as e => { e with ipAddress := e.ipAddress ++ as } := by
  have hread : ReadsArray (Reader.inOrder [
      .ifMember jsonDnn (.string p jsonDnn fun s e => { e with dnn := s }) Reader.skip,
      .ifMember jsonIpaddress (.array p jsonIpaddress (getIpAddr val p)
        fun as e => { e with ipAddress := e.ipAddress ++ as }) Reader.skip,
      .into (·.vendorSpecific) (fun m e => { e with vendorSpecific := m })
        (getVendorSpecific val)]) jsonIpaddress (collect (getIpAddr val p)) (·.ipAddress)
      fun as (e : DnnIps V) => { e with ipAddress := e.ipAddress ++ as } := by
    refine .later (.ifMember (by decide) _ _) (.here (.ifMember fun _ _ => rfl) ?_ fun as => ?_)
    · simp only [List.forall_mem_singleton]
      exact .into (.vendor (by decide))
    · simp only [List.forall_mem_singleton]
      exact .into fun _ _ h => h
  intro v hv
  obtain ⟨before, after, hbetween, hkept⟩ := hread v hv
  exact ⟨fun e => before { dnn := e.dnn }, after, fun e xs => hbetween { dnn := e.dnn } xs, hkept⟩

end

end ProvisioningValidator
