import Mathlib
import ProvisioningValidator.AnswerRoundTrip
import ProvisioningValidator.Deletions
import ProvisioningValidator.Entities
import ProvisioningValidator.Redelivery
import ProvisioningValidator.SliceCompleteness

/-!
# Answers that mean the same when they come back

What was said of slice data is said here of the data of the other kinds, and from there of whole
requests. A change is `Redeliverable` if it is a deletion without data, or a creation or update whose
one member `data` is read for one kind and gives a complete entity.

**Theorem (`answer_read_again`).** The changes of an answer with 200 that are redeliverable are read
from it again, just as they were delivered.
-/

namespace ProvisioningValidator

open Lib Lib.Run

variable {V : Type} {val : Json → V} {p : String}

/-! ## What is left to ask of static data -/

def UdmRoamingAreaReference.Complete (e : UdmRoamingAreaReference V) : Prop := e.id ≠ ""

/-- An address of a subscription. An element of `dnnIpList` without a `dnn` takes over the one before
it, so an empty one is lost behind another. -/
structure NssaiDnnIps.Complete (e : NssaiDnnIps V) : Prop where
  sst : e.snssai.sst.isSome = true
  ip : ∀ d ∈ e.dnnIpList, ∀ a ∈ d.ipAddress, a.ip ≠ ""
  handedOn : HandedOn "" e.dnnIpList

structure StaticIpAddress.Complete (e : StaticIpAddress V) : Prop where
  nssaiDnnIpLists : ∀ l ∈ e.nssaiDnnIpLists, l.Complete
  some_list : e.nssaiDnnIpLists ≠ []

/-- The vendor-specific members of slice data are read and not written. -/
structure UdmSliceData.Complete (e : UdmSliceData V) : Prop where
  plmnIdSets : ∀ s ∈ e.plmnIdSets, s.Complete true
  vendorSpecific : e.vendorSpecific = ∅

structure UdmStaticData.Complete (e : UdmStaticData V) : Prop where
  forbiddenAreas : ∀ a ∈ e.forbiddenAreas, a.Complete
  areas : ∀ a ∈ e.serviceAreaRestriction.areas, a.Complete
  staticIpAddress : e.fieldExistence.hasStaticIpAddress = true → e.staticIpAddress.Complete
  udmSliceData : e.fieldExistence.hasUdmSliceData = true → e.udmSliceData.Complete

def Area.Complete : Area → Prop
  | .areaCode code => code ≠ ""
  | .tacs codes => codes ≠ []

def UdmRoamingArea.Complete (e : UdmRoamingArea V) : Prop := ∀ a ∈ e.areaList, a.area.Complete

/-- What is left to ask of an entity. -/
def ResourceKind.Complete : (k : ResourceKind) → k.Entity V → Prop
  | udmStaticData, e => UdmStaticData.Complete e
  | udmSliceProfile, e => UdmSliceProfile.Complete e
  | udmRoamingArea, e => UdmRoamingArea.Complete e
  | smsStaticData, _ => True

/-! ## Areas -/

theorem storable_getSubscribedUeAmbr :
    Leads (· = {}) (getSubscribedUeAmbr val p) Ambr.Storable := by
  refine Puts.step .vendor fun m _ => ?_
  refine Puts.step (.demanded .nonEmptyString) fun uplink huplink => ?_
  refine Puts.step (.demanded .nonEmptyString) fun downlink hdownlink => ?_
  exact Puts.done ⟨huplink, hdownlink⟩

theorem storable_getUdmSliceProfileId :
    Leads (· = {}) (getUdmSliceProfileId val p) UdmSliceProfileId.Storable := by
  refine Puts.step .vendor fun m _ => ?_
  refine Puts.step (.demanded .nonEmptyString) fun id hid => ?_
  exact Puts.done ⟨hid⟩

theorem gives_getUdmRoamingAreaReference {parent : String} :
    Gives (getUdmRoamingAreaReference val p parent) fun a => a.Complete → a.Storable := by
  intro v a hrun hcomplete
  obtain ⟨m, -, hrun⟩ := yields_bind.1 hrun
  obtain ⟨o, -, hrun⟩ := yields_bind.1 hrun
  cases o with
  | some w =>
    dsimp only at hrun
    cases hw : asString w with
    | some id =>
      rw [hw, yields_pure, Option.some.injEq] at hrun
      subst hrun
      exact ⟨nulFree_asString w id hw, hcomplete⟩
    | none =>
      rw [hw] at hrun
      obtain ⟨u, hreport, -⟩ := yields_bind.1 hrun
      exact absurd hreport not_quiet_addError
  | none =>
    obtain ⟨u, hreport, -⟩ := yields_bind.1 hrun
    exact absurd hreport not_quiet_addError

/-- The object `serviceAreaRestriction` with its two flags. -/
def UdmStaticData.setServiceArea (x : Bool × Bool × ServiceAreaRestriction V)
    (e : UdmStaticData V) : UdmStaticData V :=
  { e with
    fieldExistence.hasServiceAreaRestriction := x.1
    fieldExistence.hasMaxNumOfTas := x.2.1
    serviceAreaRestriction := x.2.2 }

/-- `serviceAreaRestriction` is read into a part that was not touched before. -/
theorem puts_serviceAreaRestriction {e : UdmStaticData V}
    (hblank : e.setServiceArea (false, false, {}) = e) :
    Puts e (.ifMember jsonServiceAreaRestriction
      (.object p jsonServiceAreaRestriction (getServiceAreaRestriction val p))
      (Reader.without fun e => { e with fieldExistence.hasServiceAreaRestriction := false }))
      (fun x => e.setServiceArea x) fun x =>
        Flagged x.1 (fun a => (∀ b ∈ a.areas, b.Complete) → a.Storable x.2.1) {} x.2.2 ∧
          x.2.1 = x.2.2.maxNumOfTas.isSome := by
  rw [← hblank]
  refine Leads.flagged (.object ?_) fun e₁ he₁ => ?_
  · refine Puts.step .vendor fun m _ => ?_
    refine Puts.step (.optional "" nulFree_empty .string rfl) fun kind hkind => ?_
    refine Puts.step (.optional [] (List.forall_mem_nil _)
      (.array (.objectElement gives_getUdmRoamingAreaReference)) rfl) fun areas hareas => ?_
    refine Puts.step (.flagged (fun b x e => { e with
      serviceAreaRestriction.maxNumOfTas := x, fieldExistence.hasMaxNumOfTas := b })
      .int (fun n => rfl) rfl) fun tas htas => ?_
    refine Puts.step .mark fun _ _ => ?_
    exact Puts.done ⟨(true, tas.isSome, ⟨kind, areas, tas, m⟩), ⟨⟨fun _ hcomplete =>
      ⟨hkind, fun a ha => hareas a ha (hcomplete a ha), ⟨rfl, htas⟩⟩,
        fun hflag => Bool.noConfusion hflag⟩, rfl⟩, rfl⟩
  · rw [he₁]
    exact ⟨(false, false, {}), ⟨⟨fun hflag => Bool.noConfusion hflag, fun _ => rfl⟩, rfl⟩, rfl⟩

/-! ## Static addresses -/

/-- What the readers make sure of, in whatever order the members of an element come. -/
structure NssaiDnnIps.Kept (e : NssaiDnnIps V) : Prop where
  sst : ∀ n ∈ e.snssai.sst, Json.Int32 n
  sd : NulFree e.snssai.sd
  dnn : ∀ d ∈ e.dnnIpList, NulFree d.dnn
  ip : ∀ d ∈ e.dnnIpList, ∀ a ∈ d.ipAddress, NulFree a.ip

theorem leads_getSnssai_kept : Leads (fun e => (∀ n ∈ e.sst, Json.Int32 n) ∧ NulFree e.sd)
    (getSnssai val p) fun e : Snssai V => (∀ n ∈ e.sst, Json.Int32 n) ∧ NulFree e.sd := by
  intro v e e' he
  obtain ⟨sst, sd, m⟩ := e
  suffices h : Leads (· = ⟨sst, sd, m⟩) (getSnssai val p)
      fun e : Snssai V => (∀ n ∈ e.sst, Json.Int32 n) ∧ NulFree e.sd from h v _ e' rfl
  refine Puts.step .vendor fun m _ => ?_
  refine Puts.step (.demanded .int) fun n hn => ?_
  refine Puts.step (.optional sd he.2 .string rfl) fun s hs => ?_
  exact Puts.done ⟨(storedInt_some hn).2, hs⟩

theorem gives_getIpAddr : Gives (getIpAddr val p) fun a : IpAddr V => NulFree a.ip := by
  intro z a hrun
  obtain ⟨m, -, hrun⟩ := yields_bind.1 hrun
  have hip : ∀ {key : String} {ipType : IpAddrType} {w : Json},
      Yields Quiet (getIp p key ipType m w) (some a) → NulFree a.ip := by
    intro key ipType w hget
    rw [getIp] at hget
    cases hw : asString w with
    | some ip =>
      rw [hw, yields_pure, Option.some.injEq] at hget
      rw [hget]
      exact nulFree_asString w ip hw
    | none =>
      rw [hw] at hget
      obtain ⟨u, hreport, -⟩ := yields_bind.1 hget
      exact absurd hreport not_quiet_addError
  -- One of the three alternatives, or none of them.
  obtain ⟨o, -, hrun⟩ := yields_bind.1 hrun
  cases o with
  | some w => exact hip hrun
  | none =>
    obtain ⟨o, -, hrun⟩ := yields_bind.1 hrun
    cases o with
    | some w => exact hip hrun
    | none =>
      obtain ⟨o, -, hrun⟩ := yields_bind.1 hrun
      cases o with
      | some w => exact hip hrun
      | none => exact absurd (yields_pure.1 hrun) (Option.some_ne_none a)

theorem kept_getDnnIps {dnn : String} (hdnn : NulFree dnn) {w : Json} {d : DnnIps V}
    (hrun : Yields Quiet (getDnnIps val p dnn w) d) :
    NulFree d.dnn ∧ ∀ a ∈ d.ipAddress, NulFree a.ip := by
  suffices h : Leads (· = { dnn }) (Reader.inOrder [
      .ifMember jsonDnn (.string p jsonDnn fun s e => { e with dnn := s }) Reader.skip,
      .ifMember jsonIpaddress
        (.array p jsonIpaddress (getIpAddr val p)
          fun as e => { e with ipAddress := e.ipAddress ++ as }) Reader.skip,
      .into (·.vendorSpecific) (fun m e => { e with vendorSpecific := m }) (getVendorSpecific val)])
      fun d : DnnIps V => NulFree d.dnn ∧ ∀ a ∈ d.ipAddress, NulFree a.ip from h w _ d rfl hrun
  refine Puts.step (.optional dnn hdnn .string rfl) fun s hs => ?_
  refine Puts.step (.optional [] (List.forall_mem_nil _) (.array gives_getIpAddr) rfl)
    fun ips hips => ?_
  refine Puts.step .vendor fun m _ => ?_
  exact Puts.done ⟨hs, hips⟩

/-- The elements of `dnnIpList`, behind those that were read before. -/
theorem kept_getDnnIpList {ws : List Json} {dnn : String} (hdnn : NulFree dnn)
    {ds ds' : List (DnnIps V)} (hds : ∀ d ∈ ds, NulFree d.dnn ∧ ∀ a ∈ d.ipAddress, NulFree a.ip)
    (hrun : Yields Quiet (getDnnIpList val p dnn ds ws) ds') :
    ∀ d ∈ ds', NulFree d.dnn ∧ ∀ a ∈ d.ipAddress, NulFree a.ip := by
  induction ws generalizing dnn ds with
  | nil =>
    rw [getDnnIpList, yields_pure] at hrun
    exact hrun ▸ hds
  | cons w ws ih =>
    rw [getDnnIpList] at hrun
    split_ifs at hrun with hw
    · obtain ⟨d, hd, hrest⟩ := yields_bind.1 hrun
      have hkept := kept_getDnnIps hdnn hd
      refine ih hkept.1 (List.forall_mem_append.2 ⟨hds, ?_⟩) hrest
      exact List.forall_mem_singleton.2 hkept
    · obtain ⟨u, hreport, -⟩ := yields_bind.1 hrun
      exact absurd hreport not_quiet_addError

theorem kept_getNssaiDnnIpsMember {e e' : NssaiDnnIps V} (he : e.Kept) {itr : String × Json}
    (hrun : Yields Quiet (getNssaiDnnIpsMember val p e itr) e') : e'.Kept := by
  rw [getNssaiDnnIpsMember] at hrun
  split_ifs at hrun
  · obtain ⟨a, ha, hput⟩ := yields_bind.1 hrun
    have hkept := Leads.object leads_getSnssai_kept _ _ a ⟨he.sst, he.sd⟩ ha
    rw [yields_pure.1 hput]
    exact ⟨hkept.1, hkept.2, he.dnn, he.ip⟩
  · obtain ⟨ds, hds, hput⟩ := yields_bind.1 hrun
    rw [getDnnIpLists] at hds
    cases hws : asArray itr.2 with
    | some ws =>
      simp only [hws] at hds
      have hkept := kept_getDnnIpList nulFree_empty (fun d hd => ⟨he.dnn d hd, he.ip d hd⟩) hds
      rw [yields_pure.1 hput]
      exact ⟨he.sst, he.sd, fun d hd => (hkept d hd).1, fun d hd => (hkept d hd).2⟩
    | none =>
      simp only [hws] at hds
      obtain ⟨u, hreport, -⟩ := yields_bind.1 hds
      exact absurd hreport not_quiet_emit
  · rw [yields_pure.1 hrun]
    exact he

theorem gives_getNssaiDnnIps :
    Gives (getNssaiDnnIps val p) fun a : NssaiDnnIps V => a.Complete → a.Storable := by
  intro v a hrun hcomplete
  obtain ⟨m, -, hrun⟩ := yields_bind.1 hrun
  obtain ⟨ms, -, hrun⟩ := yields_bind.1 hrun
  obtain ⟨e', hfold, hput⟩ := yields_bind.1 hrun
  rw [yields_pure, Option.some.injEq] at hput
  subst hput
  have hall : ∀ {ms : List (String × Json)} {e : NssaiDnnIps V}, e.Kept →
      Yields Quiet (ms.foldlM (getNssaiDnnIpsMember val p) e) a → a.Kept := by
    intro ms
    induction ms with
    | nil =>
      intro e he hfold
      rw [List.foldlM_nil, yields_pure] at hfold
      exact hfold ▸ he
    | cons itr ms ih =>
      intro e he hfold
      obtain ⟨e₁, hfirst, hrest⟩ := yields_bind.1 hfold
      exact ih (kept_getNssaiDnnIpsMember he hfirst) hrest
  have hkept := hall ⟨by simp, nulFree_empty, List.forall_mem_nil _, List.forall_mem_nil _⟩ hfold
  exact {
    snssai := ⟨⟨hcomplete.sst, hkept.sst⟩, hkept.sd⟩
    dnnIpList := fun d hd => ⟨hkept.dnn d hd, fun a ha => ⟨⟨hkept.ip d hd a ha,
      hcomplete.ip d hd a ha⟩⟩⟩
    handedOn := hcomplete.handedOn }

theorem storable_getStaticIpAddress :
    Leads (· = {}) (getStaticIpAddress val p) fun e => e.Complete → e.Storable := by
  refine Puts.step .vendor fun m _ => ?_
  have hlists : Puts ({ vendorSpecific := m } : StaticIpAddress V) (fun v e => do
      let w ← Run.lift (v.index jsonNssAiDnnIpLists)
      Reader.array p jsonNssAiDnnIpLists (getNssaiDnnIps val p)
        (fun as e => { e with nssaiDnnIpLists := e.nssaiDnnIpLists ++ as }) w e)
      (fun as => { nssaiDnnIpLists := as, vendorSpecific := m })
      fun as => ∀ a ∈ as, a.Complete → a.Storable := by
    intro v e e' he hrun
    obtain ⟨w, -, hrest⟩ := yields_bind.1 hrun
    exact Puts.array gives_getNssaiDnnIps w e e' he hrest
  refine Puts.step hlists fun lists hlists => ?_
  exact Puts.done fun hcomplete => ⟨fun l hl => hlists l hl (hcomplete.nssaiDnnIpLists l hl),
    hcomplete.some_list⟩

/-! ## Static data -/

theorem storable_getUdmSliceData :
    Leads (· = {}) (getUdmSliceData val p) fun e => e.Complete → e.Storable := by
  refine Puts.step .vendor fun m _ => ?_
  refine Puts.step (.optional [] (List.forall_mem_nil _) (.arrayOr (gives_storablePlmnIdSet true)
    fun e' hrun => ?_) rfl) fun sets hsets => ?_
  · obtain ⟨u, hreport, -⟩ := yields_bind.1 hrun
    exact absurd hreport not_quiet_emit
  · exact Puts.done fun hcomplete => ⟨fun s hs => hsets s hs (hcomplete.plmnIdSets s hs),
      hcomplete.vendorSpecific⟩

/-- A truth value with its flag. -/
theorem puts_getStaticBool {key : String} {setFlag put : Bool → UdmStaticData V → UdmStaticData V}
    {e : UdmStaticData V} (f : Bool → Option Bool → UdmStaticData V → UdmStaticData V)
    (hsome : ∀ b, setFlag true (put b e) = f true (some b) e)
    (hnone : setFlag false e = f false none e) :
    Puts e (getStaticBool p key setFlag put) (fun x => f x.isSome x e) fun x => ∀ b ∈ x, True :=
  Puts.flagged f .bool hsome hnone

/-- An integer with its flag. -/
theorem puts_getStaticInt {key : String} {setFlag : Bool → UdmStaticData V → UdmStaticData V}
    {put : Int → UdmStaticData V → UdmStaticData V} {e : UdmStaticData V}
    (f : Bool → Option Int → UdmStaticData V → UdmStaticData V)
    (hsome : ∀ n, setFlag true (put n e) = f true (some n) e)
    (hnone : setFlag false e = f false none e) :
    Puts e (getStaticInt p key setFlag put) (fun x => f x.isSome x e)
      fun x => ∀ n ∈ x, Json.Int32 n :=
  Puts.flagged f .int hsome hnone

/-- A text that must not be empty, where it may be missing. -/
theorem puts_roamingOdb {e : UdmStaticData V} : Puts e (.nonEmptyString p jsonRoamingOdb
    jsonRoamingOdb fun s e => { e with roamingOdb := s }) (fun s => { e with roamingOdb := s })
    NulFree := by
  intro v e₁ e' he hrun
  obtain ⟨s, hs, heq⟩ := Puts.nonEmptyString v e₁ e' he hrun
  exact ⟨s, hs.1, heq⟩

theorem storable_getUdmStaticData :
    Leads (· = {}) (getUdmStaticData val p) fun e => e.Complete → e.Storable := by
  refine Puts.step .vendor fun m _ => ?_
  refine Puts.step (.flaggedPart (fun b a e => { e with
    subscribedUeAmbr := a, fieldExistence.hasSubscribedUeAmbr := b })
    (.marking (.object (.into storable_getSubscribedUeAmbr))) (fun a => rfl) rfl)
    fun ambr hambr => ?_
  dsimp only
  refine Puts.step (.optional [] (List.forall_mem_nil _) .strings rfl) fun rats hrats => ?_
  dsimp only
  refine Puts.step (.optional [] (List.forall_mem_nil _)
    (.array gives_getUdmRoamingAreaReference) rfl) fun forbidden hforbidden => ?_
  dsimp only
  refine Puts.step (puts_serviceAreaRestriction rfl) fun area harea => ?_
  dsimp only [UdmStaticData.setServiceArea]
  refine Puts.step (.optional [] (List.forall_mem_nil _) .strings rfl) fun cores hcores => ?_
  dsimp only
  refine Puts.step (puts_getStaticBool (fun b x e => { e with
    mpsPriority := x, fieldExistence.hasMpsPriority := b }) (fun b => rfl) rfl) fun mps _ => ?_
  dsimp only
  refine Puts.step (puts_getStaticBool (fun b x e => { e with
    mcsPriority := x, fieldExistence.hasMcsPriority := b }) (fun b => rfl) rfl) fun mcs _ => ?_
  dsimp only
  refine Puts.step (puts_getStaticInt (fun b x e => { e with
    dlPacketCount := x, fieldExistence.hasDlPacketCount := b }) (fun n => rfl) rfl)
    fun count hcount => ?_
  dsimp only
  refine Puts.step (puts_getStaticBool (fun b x e => { e with
    micoAllowed := x, fieldExistence.hasMicoAllowed := b }) (fun b => rfl) rfl) fun mico _ => ?_
  dsimp only
  refine Puts.step (.demanded (.object (.into storable_getUdmSliceProfileId))) fun id hid => ?_
  dsimp only
  refine Puts.step (.flaggedPart (fun b a e => { e with
    staticIpAddress := a, fieldExistence.hasStaticIpAddress := b })
    (.marking (.into storable_getStaticIpAddress)) (fun a => rfl) rfl) fun ips hips => ?_
  dsimp only
  refine Puts.step (.optional "" nulFree_empty puts_roamingOdb rfl) fun odb hodb => ?_
  dsimp only
  refine Puts.step (puts_getStaticInt (fun b x e => { e with
    ueUsageType := x, fieldExistence.hasUeUsageType := b }) (fun n => rfl) rfl) fun usage husage => ?_
  dsimp only
  refine Puts.step (puts_getStaticInt (fun b x e => { e with
    rfspIndex := x, fieldExistence.hasRfspIndex := b }) (fun n => rfl) rfl) fun rfsp hrfsp => ?_
  dsimp only
  refine Puts.step (puts_getStaticInt (fun b x e => { e with
    subsRegTimer := x, fieldExistence.hasSubsRegTimer := b }) (fun n => rfl) rfl)
    fun timer htimer => ?_
  dsimp only
  refine Puts.step (.flaggedPart (fun b a e => { e with
    udmSliceData := a, fieldExistence.hasUdmSliceData := b })
    (.marking (.into storable_getUdmSliceData)) (fun a => rfl) rfl) fun slice hslice => ?_
  dsimp only
  refine Puts.done fun hcomplete => ?_
  exact {
    subscribedUeAmbr := hambr
    ratRestrictions := hrats
    forbiddenAreas := fun a ha => hforbidden a ha (hcomplete.forbiddenAreas a ha)
    serviceAreaRestriction := harea.1.complete fun _ => hcomplete.areas
    hasMaxNumOfTas := harea.2
    coreNetworkTypeRestrictions := hcores
    mpsPriority := rfl
    mcsPriority := rfl
    dlPacketCount := ⟨rfl, hcount⟩
    micoAllowed := rfl
    udmSliceProfileId := hid
    staticIpAddress := hips.complete hcomplete.staticIpAddress
    roamingOdb := hodb
    ueUsageType := ⟨rfl, husage⟩
    rfspIndex := ⟨rfl, hrfsp⟩
    subsRegTimer := ⟨rfl, htimer⟩
    udmSliceData := hslice.complete hcomplete.udmSliceData }

/-! ## Roaming areas -/

theorem gives_getAreaList : Gives (Reader.objectElement p jsonAreaList <|
    Reader.fresh {} (getAreaList val p)) fun a : AreaList V => a.area.Complete → a.area.Storable := by
  refine .objectElement (.fresh (I := (· = {})) ?_ rfl)
  refine Puts.step .vendor fun m _ => ?_
  have harea : Puts ({ vendorSpecific := m } : AreaList V) (fun v e => Reader.firstMember
      (Reader.mandatory p ("Mandatory fields:[" ++ jsonAreaCode ++ "] or [" ++ jsonTacs ++
        "] not found") e) [
      (jsonAreaCode,
        (Reader.string p jsonAreaCode (fun s e => { e with area := .areaCode s }) · e)),
      (jsonTacs, (Reader.strings p jsonTacs (fun ss e => { e with area := .tacs ss }) · e))] v)
      (fun a => { area := a, vendorSpecific := m }) fun a => a.Complete → a.Storable := by
    intro v e e' he hrun
    obtain ⟨o, -, hrun⟩ := yields_bind.1 hrun
    cases o with
    | some w =>
      obtain ⟨s, hs, heq⟩ := Puts.string w e e' he hrun
      exact ⟨.areaCode s, fun hcomplete => ⟨hs, hcomplete⟩, heq⟩
    | none =>
      obtain ⟨o, -, hrun⟩ := yields_bind.1 hrun
      cases o with
      | some w =>
        obtain ⟨ss, hss, heq⟩ := Puts.strings w e e' he hrun
        exact ⟨.tacs ss, fun hcomplete => ⟨hcomplete, hss⟩, heq⟩
      | none =>
        obtain ⟨u, hreport, -⟩ := yields_bind.1 hrun
        exact absurd hreport not_quiet_addError
  refine Puts.step harea fun a ha => ?_
  exact Puts.done ha

theorem storable_getUdmRoamingAreas :
    Leads (· = {}) (getUdmRoamingAreas val p) fun e => e.Complete → e.Storable := by
  refine Puts.step .vendor fun m _ => ?_
  refine Puts.step (.optional "" nulFree_empty .string rfl) fun id hid => ?_
  refine Puts.step (.optional [] (List.forall_mem_nil _) (.array gives_getAreaList) rfl)
    fun areas hareas => ?_
  exact Puts.done fun hcomplete => ⟨hid, fun a ha => hareas a ha (hcomplete a ha)⟩

/-! ## SMS subscriptions -/

/-- A truth value with its flag. -/
theorem puts_setOptionalBooleanField {key : String}
    {setFlag put : Bool → SmsStaticData V → SmsStaticData V} {e : SmsStaticData V}
    (f : Bool → Option Bool → SmsStaticData V → SmsStaticData V)
    (hsome : ∀ b, setFlag true (put b e) = f true (some b) e)
    (hnone : setFlag false e = f false none e) :
    Puts e (setOptionalBooleanField p key setFlag put) (fun x => f x.isSome x e)
      fun x => ∀ b ∈ x, True := by
  refine Puts.flagged (Q := fun _ => True) f (fun v e₁ e' he hrun => ?_) hsome hnone
  cases hv : asBool v with
  | some b =>
    simp only [hv] at hrun
    exact ⟨b, trivial, he ▸ yields_pure.1 hrun⟩
  | none =>
    simp only [hv] at hrun
    obtain ⟨u, hreport, -⟩ := yields_bind.1 hrun
    exact absurd hreport not_quiet_addError

/-- An object with its flag. -/
theorem puts_getSmsObject {B : Type} {key : String}
    {setFlag : Bool → SmsStaticData V → SmsStaticData V} {r : Reader (SmsStaticData V)}
    {e : SmsStaticData V} {get : B → SmsStaticData V} {Q : B → Prop} {blank : B}
    (f : Bool → B → SmsStaticData V → SmsStaticData V) (h : Puts e r get Q)
    (hget : ∀ b, setFlag true (get b) = f true b e) (hclear : setFlag false e = f false blank e) :
    Puts e (getSmsObject p key setFlag r) (fun x : Bool × B => f x.1 x.2 e)
      fun x => Flagged x.1 Q blank x.2 := by
  refine Leads.flagged (fun v e₁ e' he hrun => ?_) fun e₁ he => ?_
  · split_ifs at hrun
    · obtain ⟨e₂, hobject, hrest⟩ := yields_bind.1 hrun
      obtain ⟨b, hb, heq⟩ := h v e₁ e₂ he hobject
      refine ⟨(true, b), ⟨fun _ => hb, fun hflag => Bool.noConfusion hflag⟩, ?_⟩
      rw [yields_pure.1 hrest, heq]
      exact hget b
    · obtain ⟨u, hreport, -⟩ := yields_bind.1 hrun
      exact absurd hreport not_quiet_addError
  · rw [he]
    exact ⟨(false, blank), ⟨fun hflag => Bool.noConfusion hflag, fun _ => rfl⟩, hclear⟩

/-- `smsSubscriptionData` and the flag in it. -/
def SmsStaticData.setSubscription (b : Bool) (a : SmsSubscriptionData V) (e : SmsStaticData V) :
    SmsStaticData V :=
  { e with
    smsSubscriptionData := a
    fieldExistenceSmsStaticData.hasSmsSubscriptionData := b
    fieldExistenceSmsStaticData.hasSmsSubscribed := a.smsSubscribed.isSome }

/-- `smsManagementSubscriptionData` and the flags in it. -/
def SmsStaticData.setManagement (b : Bool) (a : SmsManagementSubscriptionData V)
    (e : SmsStaticData V) : SmsStaticData V :=
  { e with
    smsManagementSubscriptionData := a
    fieldExistenceSmsStaticData.hasSmsManagementSubscriptionData := b
    fieldExistenceSmsStaticData.hasMtSmsSubscribed := a.mtSmsSubscribed.isSome
    fieldExistenceSmsStaticData.hasMtSmsBarringAll := a.mtSmsBarringAll.isSome
    fieldExistenceSmsStaticData.hasMtSmsBarringRoaming := a.mtSmsBarringRoaming.isSome
    fieldExistenceSmsStaticData.hasMoSmsSubscribed := a.moSmsSubscribed.isSome
    fieldExistenceSmsStaticData.hasMoSmsBarringAll := a.moSmsBarringAll.isSome
    fieldExistenceSmsStaticData.hasMoSmsBarringRoaming := a.moSmsBarringRoaming.isSome }

theorem puts_getSmsSubscriptionDataObject {e : SmsStaticData V}
    (hblank : e.setSubscription false {} = e) :
    Puts e (getSmsSubscriptionDataObject val p) (fun a => e.setSubscription false a)
      fun _ => True := by
  rw [← hblank]
  refine Puts.step (puts_setOptionalBooleanField (fun b x e => { e with
    smsSubscriptionData.smsSubscribed := x, fieldExistenceSmsStaticData.hasSmsSubscribed := b })
    (fun b => rfl) rfl) fun x _ => ?_
  refine Puts.step .vendor fun m _ => ?_
  exact Puts.done ⟨⟨x, m⟩, trivial, rfl⟩

theorem puts_getSmsManagementSubscriptionDataObject {e : SmsStaticData V}
    (hblank : e.setManagement false {} = e) :
    Puts e (getSmsManagementSubscriptionDataObject val p) (fun a => e.setManagement false a)
      fun _ => True := by
  rw [← hblank]
  refine Puts.step (puts_setOptionalBooleanField (fun b x e => { e with
    smsManagementSubscriptionData.mtSmsSubscribed := x
    fieldExistenceSmsStaticData.hasMtSmsSubscribed := b }) (fun b => rfl) rfl) fun x₁ _ => ?_
  refine Puts.step (puts_setOptionalBooleanField (fun b x e => { e with
    smsManagementSubscriptionData.mtSmsBarringAll := x
    fieldExistenceSmsStaticData.hasMtSmsBarringAll := b }) (fun b => rfl) rfl) fun x₂ _ => ?_
  refine Puts.step (puts_setOptionalBooleanField (fun b x e => { e with
    smsManagementSubscriptionData.mtSmsBarringRoaming := x
    fieldExistenceSmsStaticData.hasMtSmsBarringRoaming := b }) (fun b => rfl) rfl) fun x₃ _ => ?_
  refine Puts.step (puts_setOptionalBooleanField (fun b x e => { e with
    smsManagementSubscriptionData.moSmsSubscribed := x
    fieldExistenceSmsStaticData.hasMoSmsSubscribed := b }) (fun b => rfl) rfl) fun x₄ _ => ?_
  refine Puts.step (puts_setOptionalBooleanField (fun b x e => { e with
    smsManagementSubscriptionData.moSmsBarringAll := x
    fieldExistenceSmsStaticData.hasMoSmsBarringAll := b }) (fun b => rfl) rfl) fun x₅ _ => ?_
  refine Puts.step (puts_setOptionalBooleanField (fun b x e => { e with
    smsManagementSubscriptionData.moSmsBarringRoaming := x
    fieldExistenceSmsStaticData.hasMoSmsBarringRoaming := b }) (fun b => rfl) rfl) fun x₆ _ => ?_
  refine Puts.step .vendor fun m _ => ?_
  exact Puts.done ⟨⟨x₁, x₂, x₃, x₄, x₅, x₆, m⟩, trivial, rfl⟩

theorem storable_getOptionalSmsStaticData :
    Leads (· = {}) (getOptionalSmsStaticData val p) SmsStaticData.Storable := by
  refine Puts.step .vendor fun m _ => ?_
  refine Puts.step (puts_getSmsObject SmsStaticData.setSubscription
    (puts_getSmsSubscriptionDataObject rfl) (fun a => rfl) rfl) fun x hx => ?_
  refine Puts.step (puts_getSmsObject SmsStaticData.setManagement
    (puts_getSmsManagementSubscriptionDataObject rfl) (fun a => rfl) rfl) fun y hy => ?_
  exact Puts.done ⟨hx.2, hy.2, rfl, rfl, rfl, rfl, rfl, rfl, rfl⟩

/-- **What the reader of a kind makes of a blank entity can be stored, if it is complete.** -/
theorem storable_reader (k : ResourceKind) :
    Leads (· = k.blank V) (k.reader val p) fun e => k.Complete e → k.Storable e := by
  cases k with
  | udmStaticData => exact storable_getUdmStaticData
  | udmSliceProfile => exact storable_getUdmSliceProfile
  | udmRoamingArea => exact storable_getUdmRoamingAreas
  | smsStaticData => exact fun v e e' he hrun _ => storable_getOptionalSmsStaticData v e e' he hrun

/-! ## Changes that are delivered -/

theorem nulFree_defaultValue : NulFree defaultValue := by decide

theorem storable_mutatePlmnIdSet {isSliceData : Bool} {s : PlmnIdSets V}
    (h : s.Storable isSliceData) : (mutatePlmnIdSet s).Storable isSliceData := by
  have hentries : ∀ {ns : List (NssaiDetails V)}, (∀ n ∈ ns, n.Storable) →
      ∀ n ∈ includeNssai ns, n.Storable := by
    intro ns hns n hn
    obtain ⟨m, hm, rfl⟩ := List.mem_map.1 hn
    have hstored := hns m hm
    split_ifs
    · exact ⟨hstored.nssai, nulFree_defaultValue, hstored.threegppChargingCharacteristics⟩
    · exact hstored
  obtain ⟨hset, hclear⟩ := h.nssai
  refine ⟨h.plmnIdSetIdentifier, ⟨fun hany => ?_, fun hany => ?_⟩, ?_, h.dnnLists, h.some_dnnList⟩
  · have hstored := hset hany
    refine ⟨hentries hstored.defaultSingleNssais, ?_, ?_⟩
    · rw [mutatePlmnIdSet]
      dsimp only
      split_ifs
      · exact hentries hstored.singleNssais
      · exact hstored.singleNssais
    · exact fun hnil => hstored.some_default (List.map_eq_nil_iff.1 hnil)
  · rw [mutatePlmnIdSet, hclear hany]
    simp [includeNssai]
  · rw [mutatePlmnIdSet]
    dsimp only
    rw [h.hasNssai]
    split_ifs
    · simp [includeNssai]
    · rfl

theorem forall_storable_mutate {isSliceData : Bool} {sets : List (PlmnIdSets V)}
    (h : ∀ s ∈ sets, s.Storable isSliceData) :
    ∀ s ∈ sets.map mutatePlmnIdSet, s.Storable isSliceData :=
  List.forall_mem_map.2 fun s hs => storable_mutatePlmnIdSet (h s hs)

/-- What the mutations make of the entity of a kind. -/
def ResourceKind.mutate : (k : ResourceKind) → k.Entity V → k.Entity V
  | udmStaticData, e => { (e : UdmStaticData V) with
      udmSliceData.plmnIdSets := e.udmSliceData.plmnIdSets.map mutatePlmnIdSet }
  | udmSliceProfile, e => { (e : UdmSliceProfile V) with
      plmnIdSets := e.plmnIdSets.map mutatePlmnIdSet }
  | udmRoamingArea, e => e
  | smsStaticData, e => e

theorem storable_mutate (k : ResourceKind) {e : k.Entity V} (h : k.Storable e) :
    k.Storable (k.mutate e) := by
  cases k with
  | udmStaticData =>
    have hstored : UdmStaticData.Storable e := h
    have hslice := hstored.udmSliceData
    exact { hstored with
      udmSliceData := ⟨fun hflag => ⟨forall_storable_mutate (hslice.1 hflag).plmnIdSets,
        (hslice.1 hflag).vendorSpecific⟩, fun hflag => by
          rw [ResourceKind.mutate, hslice.2 hflag]
          rfl⟩ }
  | udmSliceProfile =>
    have hstored : UdmSliceProfile.Storable e := h
    exact ⟨hstored.udmSliceProfileId, forall_storable_mutate hstored.plmnIdSets⟩
  | udmRoamingArea => exact h
  | smsStaticData => exact h

/-- On a path of one kind the mutations are those of its entity. -/
theorem computeMutations_of_only {c : Change V} {k : ResourceKind} (hop : Delivers c)
    (hk : contains c.resourcePath k.keyword = true)
    (honly : ∀ k' ≠ k, contains c.resourcePath k'.keyword = false) :
    computeMutations c = k.withEntity (k.mutate (k.entity c)) c := by
  have hprofile : k ≠ .udmSliceProfile → mutateSliceProfile c = c := fun hne =>
    if_neg fun h => Bool.eq_false_iff.1 (honly .udmSliceProfile hne.symm) h.1
  have hstatic : k ≠ .udmStaticData → ∀ c' : Change V, c'.resourcePath = c.resourcePath →
      mutateSliceData c' = c' := fun hne c' hpath =>
    if_neg (by rw [hpath]; exact Bool.eq_false_iff.1 (honly .udmStaticData hne.symm))
  rw [computeMutations]
  cases k with
  | udmStaticData =>
    rw [hprofile (by decide)]
    exact if_pos hk
  | udmSliceProfile =>
    have hmutated : mutateSliceProfile c = ResourceKind.udmSliceProfile.withEntity
        (ResourceKind.udmSliceProfile.mutate (ResourceKind.udmSliceProfile.entity c)) c :=
      if_pos ⟨hk, hop⟩
    rw [hmutated]
    exact hstatic (by decide) _ (ResourceKind.resourcePath_withEntity _ _ _)
  | udmRoamingArea =>
    rw [hprofile (by decide)]
    exact hstatic (by decide) c rfl
  | smsStaticData =>
    rw [hprofile (by decide)]
    exact hstatic (by decide) c rfl

/-- What can be stored is still so when it is delivered. -/
theorem storable_computeMutations {c : Change V} (h : c.Storable) :
    (computeMutations c).Storable := by
  have hheader : (computeMutations c).header = c.header := by
    rw [Change.header, operation_computeMutations, resourcePath_computeMutations]
    rfl
  cases h with
  | deleted hop hpath hblank =>
    refine .deleted (by rw [operation_computeMutations, hop])
      (by rw [resourcePath_computeMutations]; exact hpath) ?_
    rw [hheader, hblank, computeMutations, mutateSliceProfile, if_neg fun hdelivers => ?_,
      mutateSliceData]
    · split_ifs <;> rfl
    · rcases hdelivers.2 with hop' | hop' <;> exact absurd (hop'.symm.trans hop) (by decide)
  | delivered k hop hpath hk honly hstored hblank =>
    have hmutated := computeMutations_of_only hop hk honly
    have hentity : k.entity (computeMutations c) = k.mutate (k.entity c) := by
      rw [hmutated, ResourceKind.entity_withEntity]
    refine .delivered k ?_ ?_ ?_ ?_ ?_ ?_
    · rw [Delivers, operation_computeMutations]
      exact hop
    · rw [resourcePath_computeMutations]
      exact hpath
    · rw [resourcePath_computeMutations]
      exact hk
    · rw [resourcePath_computeMutations]
      exact honly
    · rw [hentity]
      exact storable_mutate k hstored
    · rw [hentity, hheader, hmutated]
      nth_rewrite 2 [hblank]
      cases k <;> rfl

/-! ## Changes that were read -/

/-- The change was read from this element without loss, if it is read again as it is delivered: a
deletion without data, or a creation or an update with one member `data`, read for the one kind that
the path names. -/
inductive Redeliverable (x : Json) (c : Change V) : Prop
  | deleted (hop : c.operation = jsonOperationDelete) (hpath : c.resourcePath ≠ "")
      (hdata : changeReadings x = [])
  | delivered (k : ResourceKind) (d : Json) (hop : Delivers c)
      (hk : contains c.resourcePath k.keyword = true)
      (honly : ∀ k' ≠ k, contains c.resourcePath k'.keyword = false)
      (hdata : changeReadings x = [(c.resourcePath, d)]) (hcomplete : k.Complete (k.entity c))

/-- A change is its header and its entities. -/
theorem eq_of_entities {c c' : Change V} (hheader : c.header = c'.header)
    (hentities : ∀ k : ResourceKind, k.entity c = k.entity c') : c = c' := by
  have hstatic := hentities .udmStaticData
  have hslice := hentities .udmSliceProfile
  have hroaming := hentities .udmRoamingArea
  have hsms := hentities .smsStaticData
  cases c
  cases c'
  simp_all [Change.header, ResourceKind.entity]

theorem entity_header (k : ResourceKind) (c : Change V) : k.entity c.header = k.blank V := by
  cases k <;> rfl

/-- **A change that was read without loss can be stored.** -/
theorem storable_of_read {x : Json} {c : Change V} (h : ReadFrom val Quiet x c)
    (hx : Redeliverable x c) : c.Storable := by
  have hfree : NulFree c.resourcePath := by
    rw [← cstr_eq_self, (header_of_read h.1 h.2).2, cstr_changeText]
  cases hx with
  | deleted hop hpath hdata =>
    refine .deleted hop ⟨hfree, hpath⟩ (eq_of_entities rfl fun k => ?_)
    have hread := h.entity k
    rw [hdata, ResourceKind.readingsFor, List.filter_nil, List.foldlM_nil, yields_pure] at hread
    rw [hread, entity_header]
  | delivered k d hop hk honly hdata hcomplete =>
    have hpath : c.resourcePath ≠ "" := by
      intro hpath
      rw [hpath] at hk
      cases k <;> exact absurd hk (by decide)
    refine .delivered k hop ⟨hfree, hpath⟩ hk honly ?_ (eq_of_entities ?_ fun k' => ?_)
    · have hread := h.entity k
      rw [hdata, ResourceKind.readingsFor_singleton, if_pos hk, List.foldlM_cons] at hread
      obtain ⟨e, he, hrest⟩ := yields_bind.1 hread
      rw [List.foldlM_nil, yields_pure] at hrest
      rw [hrest] at hcomplete ⊢
      exact storable_reader k d _ e rfl he hcomplete
    · cases k <;> rfl
    · by_cases hkind : k' = k
      · rw [hkind, ResourceKind.entity_withEntity]
      · have hread := h.entity k'
        rw [hdata, ResourceKind.readingsFor_singleton,
          if_neg (by rw [honly k' hkind]; exact Bool.false_ne_true), List.foldlM_nil,
          yields_pure] at hread
        rw [ResourceKind.entity_withEntity_of_ne hkind, entity_header, hread]

/-- The changes of a request that was read without loss can be stored as they are delivered. -/
theorem storable_of_redeliverable {doc : Json} {data : ValidationData Json}
    (hdata : Yields Quiet (getValidationData id doc) data) (hret : data.ret = true)
    (hchanges : List.Forall₂ Redeliverable (requestChanges doc) data.changes) :
    ∀ c ∈ data.changes.map computeMutations, c.Storable := by
  have hread := forall₂_read hdata hret
  have hall : List.Forall₂ (fun _ c => Change.Storable c) (requestChanges doc) data.changes :=
    List.Forall₂.mp (fun x c => storable_of_read) hread hchanges
  refine List.forall_mem_map.2 fun c hc => ?_
  obtain ⟨x, -, hstorable⟩ := exists_of_forall₂ hall c hc
  exact storable_computeMutations hstorable

/-! ## Answers that come back -/

variable {oai : OaiValidator} {ind : Indeterminate} {doc : Json} {a : Answer}

/-- **The changes of an answer mean the same when they come back.** For a request that is answered
with 200 and whose changes are redeliverable: any document with the `changes` of the answer is read
as the changes that were delivered, and nothing is recorded. -/
theorem answer_read_again (h : handleHttp2Request oai ind (some doc) = some a)
    (hok : a.status = httpOk) : ∃ data events, getValidationData id doc = .ret data events ∧
      (List.Forall₂ Redeliverable (requestChanges doc) data.changes →
        ∀ doc' : Json, doc'.IsObject → doc'.member? jsonChanges = a.body.member? jsonChanges →
          getChangesToValidate id doc' = pure (true, data.changes.map computeMutations)) := by
  obtain ⟨data, events, st, hst⟩ := answeredOk h hok
  refine ⟨data, events, hst.read, fun hchanges doc' hdoc' hsame => ?_⟩
  refine getChangesToValidate_written ind
    (storable_of_redeliverable hst.yields hst.ret hchanges) hdoc' ?_
  rw [hsame, hst.body, response_of_accepted hst.rules hst.accepted]

/-- A request that creates a roaming area with one area code. -/
def areaCreation : Json :=
  oneChange "CREATE" "/profiles/udmProfiles/udmRoamingAreas/a"
    (.obj [("areaList", .arr [.obj [("areaCodes", .str "b")]])])

/-- What is read. -/
def createdArea : Change Json where
  operation := "CREATE"
  resourcePath := "/profiles/udmProfiles/udmRoamingAreas/a"
  udmRoamingArea := { areaList := [{ area := .areaCode "b" }] }

theorem redeliverable_createdArea : Redeliverable
    (.obj [("operation", .str "CREATE"),
      ("resource_path", .str "/profiles/udmProfiles/udmRoamingAreas/a"),
      ("data", .obj [("areaList", .arr [.obj [("areaCodes", .str "b")]])])]) createdArea := by
  refine .delivered .udmRoamingArea _ (Or.inl rfl) (by decide) ?_ rfl ?_
  · intro k hk
    cases k with
    | udmStaticData => decide
    | udmSliceProfile => decide
    | udmRoamingArea => exact absurd rfl hk
    | smsStaticData => decide
  · intro b hb
    obtain rfl := List.mem_singleton.1 hb
    exact (by decide : "b" ≠ "")

/-- The area comes back as it was created. -/
theorem answer_read_again_area : ∃ a,
    handleHttp2Request passAll ⟨0, false⟩ (some areaCreation) = some a ∧
      getChangesToValidate id a.body = pure (true, [createdArea]) := by
  have hread : getValidationData id areaCreation = .ret ⟨true, [createdArea], ∅⟩ [] := rfl
  obtain ⟨data, events, hdata, hagain⟩ :=
    @answer_read_again passAll ⟨0, false⟩ areaCreation _ rfl rfl
  obtain ⟨rfl, -⟩ := Run.ret.inj (hread.symm.trans hdata)
  exact ⟨_, rfl, hagain (.cons redeliverable_createdArea .nil) _ ⟨_, rfl⟩ rfl⟩

end ProvisioningValidator
