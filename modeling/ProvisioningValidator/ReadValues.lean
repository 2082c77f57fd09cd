import Mathlib
import ProvisioningValidator.AcceptableChanges
import ProvisioningValidator.Answers
import ProvisioningValidator.Deletions
import ProvisioningValidator.Determinacy

/-!
# Whether what is read has been assigned

For a request that the parser returns from with no error recorded, the rules and the encoder read
assigned values only, with one exception: an element of `nssaiDnnIpLists` without `nssai` is kept,
its `sst` has no value, and the rules and the encoder read it. The parser records an error for a
missing `nssai` nowhere but in the lists of a slice.

**Theorem (`readsAssigned_iff`).** What is read is assigned exactly if, in every change whose
addresses are looked at, each address names its S-NSSAI.
-/

namespace ProvisioningValidator

open Lib Lib.Run

variable {V : Type} {val : Json → V}

/-! ## Related resources -/

theorem assigned_getRelatedResource {p : String} {v : Json} {e : UdmSliceProfile V}
    (h : Yields Quiet (getRelatedResource val p v) (some (.udmSliceProfile e))) :
    UdmSliceProfileAssigned e := by
  rw [getRelatedResource_eq] at h
  cases hkind : classify p with
  | resource k =>
    rw [hkind] at h
    obtain ⟨e', he', hput⟩ := yields_bind.1 h
    rw [yields_pure, Option.some.injEq] at hput
    cases k with
    | udmSliceProfile =>
      rw [ResourceKind.toResource, Resource.udmSliceProfile.injEq] at hput
      rw [hput]
      have hblank : UdmSliceProfileAssigned ({} : UdmSliceProfile V) := List.forall_mem_nil _
      exact leads_reader p .udmSliceProfile v _ e' hblank he'
    | _ => cases hput
  | journal =>
    rw [hkind] at h
    obtain ⟨e', -, hput⟩ := yields_bind.1 h
    cases yields_pure.1 hput
  | passedOver =>
    rw [hkind] at h
    cases yields_pure.1 h

/-- What is read of the related resources was assigned. -/
theorem relatedAssigned_of_read {doc : Json} {rr : RelatedResources V}
    (h : Yields Quiet (getRelatedResources val doc) rr) : RelatedAssigned rr := by
  intro p e hfind
  obtain ⟨o, -, hrest⟩ := yields_bind.1 h
  cases o with
  | none =>
    have hempty : rr = ∅ := yields_pure.1 hrest
    rw [hempty] at hfind
    cases hfind
  | some w =>
    obtain ⟨ms, -, hrest⟩ := yields_bind.1 hrest
    obtain ⟨rs, hrs, hput⟩ := yields_bind.1 hrest
    rw [yields_pure.1 hput, ← OrdMap.mem_entries_iff] at hfind
    have hmem : (p, Resource.udmSliceProfile e) ∈ rs :=
      (OrdMap.mem_emplaceAll hfind).resolve_left (List.not_mem_nil)
    obtain ⟨m, -, hm⟩ := hrs.mem_collect _ hmem
    obtain ⟨r, hr, hkeep⟩ := yields_bind.1 hm
    obtain ⟨r', hr', heq⟩ := Option.map_eq_some_iff.1 (yields_pure.1 hkeep).symm
    rw [Prod.mk.injEq] at heq
    rw [hr', heq.2] at hr
    exact assigned_getRelatedResource hr

theorem relatedAssigned_of_quiet {doc : Json} {data : ValidationData V}
    (h : Yields Quiet (getValidationData val doc) data) : RelatedAssigned data.relatedResources := by
  obtain ⟨⟨ok, changes⟩, -, hrest⟩ := yields_bind.1 h
  dsimp only at hrest
  split_ifs at hrest with hok
  · obtain ⟨rr, hrr, hdata⟩ := yields_bind.1 hrest
    rw [yields_pure.1 hdata]
    exact relatedAssigned_of_read hrr
  · rw [yields_pure.1 hrest]
    exact nofun

/-! ## What is read -/

/-- The rules and the encoder read assigned values only: those that are read under their flags, or
always, were assigned, and neither the rules of a change nor the response depend on what unassigned
fields hold. -/
structure ReadsAssigned (data : ValidationData Json) : Prop where
  assigned : ∀ c ∈ data.changes, ChangeAssigned c
  rules : ∀ c ∈ data.changes, ∀ ind ind',
    changeRules ind data.relatedResources c = changeRules ind' data.relatedResources c
  response : ∀ ind st, applyValidationRules ind data.relatedResources data.changes = some st →
    ∀ ind₁ ind₂, validatorResponseToJson ind₁ st.response = validatorResponseToJson ind₂ st.response

/-- All changes are acceptable, with some values in the unassigned fields. -/
def AllAcceptable (data : ValidationData Json) : Prop :=
  ∃ ind, ∀ c ∈ data.changes, Acceptable ind data.relatedResources c

/-- The addresses of the change are looked at, by the rules or when the response is written. -/
def LooksAtAddresses (data : ValidationData Json) (c : Change Json) : Prop :=
  RulesReachAddresses data.relatedResources c ∨ EncoderReachesAddresses c ∧ AllAcceptable data

/-- The addresses of the change that are looked at have their S-NSSAIs. -/
def AddressesReadable (data : ValidationData Json) (c : Change Json) : Prop :=
  LooksAtAddresses data c → c.udmStaticData.fieldExistence.hasStaticIpAddress = true →
    AddressesAssigned c.udmStaticData.staticIpAddress.nssaiDnnIpLists

variable {data : ValidationData Json}

/-- The rules refuse no change exactly if all are acceptable. -/
theorem allAcceptable_iff : AllAcceptable data ↔ ∃ ind st,
    applyValidationRules ind data.relatedResources data.changes = some st ∧ st.ret = true := by
  refine exists_congr fun ind => ?_
  simp only [← accepted_iff_acceptable]
  constructor
  · exact run_of_all_accepted
  · rintro ⟨st, hrun, hret⟩
    exact (agrees_applyValidationRules hrun).ret_iff.1 hret

theorem validatorResponseToJson_of_accepted (ind : Indeterminate) {st : ApplyState Json}
    (herrors : st.response.errors = [])
    (hchanges : st.response.changes = data.changes.map computeMutations) :
    validatorResponseToJson ind st.response = .obj (listToJson
      (data.changes.map computeMutations) jsonChanges (changeToJson ind)) := by
  rw [validatorResponseToJson, if_pos herrors, hchanges]

/-- Of the entities that were read, everything that is read was assigned exactly if the addresses
that are looked at have their S-NSSAIs. -/
theorem readsAssigned_iff_readable (hchanges : ∀ c ∈ data.changes, ChangeAssigned c)
    (hrelated : RelatedAssigned data.relatedResources) :
    ReadsAssigned data ↔ ∀ c ∈ data.changes, AddressesReadable data c := by
  constructor
  · intro h c hc hlooks hflag
    rcases hlooks with hrules | ⟨hwritten, hacceptable⟩
    · have hsame := (changeRules_iff _ _ hrelated (hchanges c hc)).1
        (h.rules c hc ⟨0, false⟩ ⟨256, false⟩) hrules
      simp only [SameAddressErrors, staticAddressRules, Checked.guard, if_pos hflag] at hsame
      exact addressesAssigned_of_eq hsame
    · obtain ⟨ind, st, hrun, hret⟩ := allAcceptable_iff.1 hacceptable
      have hagrees := agrees_applyValidationRules hrun
      have herrors := hagrees.sound.ret_iff.1 hret
      have hall : st.response.changes = data.changes.map computeMutations := by
        rw [hagrees.changes, List.takeWhile_eq_self_iff.2 (hagrees.ret_iff.1 hret)]
      have hsame := h.response ind st hrun ⟨0, false⟩ ⟨256, false⟩
      have hne : data.changes.map computeMutations ≠ [] :=
        List.ne_nil_of_mem (List.mem_map_of_mem hc)
      rw [validatorResponseToJson_of_accepted _ herrors hall,
        validatorResponseToJson_of_accepted _ herrors hall, listToJson, listToJson, if_neg hne,
        if_neg hne] at hsame
      simp only [Json.obj.injEq, List.cons.injEq, Prod.mk.injEq, and_true, true_and,
        Json.arr.injEq, List.map_map, List.map_inj_left, Function.comp_apply] at hsame
      exact addressesAssigned_of_members_eq hflag
        ((changeToJson_computeMutations_iff _ _ (hchanges c hc)).1 (hsame c hc) hwritten)
  · intro h
    refine ⟨hchanges, fun c hc ind ind' => ?_, fun ind st hrun ind₁ ind₂ => ?_⟩
    · refine (changeRules_iff _ _ hrelated (hchanges c hc)).2 fun hrules => ?_
      have heq := staticAddressRules_eq ind ind' (p := c.resourcePath) (h c hc (Or.inl hrules))
      exact congrArg Checked.errors heq
    · have hagrees := agrees_applyValidationRules hrun
      by_cases hret : st.ret = true
      · have herrors := hagrees.sound.ret_iff.1 hret
        have hall : st.response.changes = data.changes.map computeMutations := by
          rw [hagrees.changes, List.takeWhile_eq_self_iff.2 (hagrees.ret_iff.1 hret)]
        rw [validatorResponseToJson_of_accepted _ herrors hall,
          validatorResponseToJson_of_accepted _ herrors hall]
        refine congrArg _ (listToJson_congr fun c' hc' => ?_)
        obtain ⟨c, hc, rfl⟩ := List.mem_map.1 hc'
        refine (changeToJson_computeMutations_iff _ _ (hchanges c hc)).2 fun hwritten => ?_
        have hacceptable := allAcceptable_iff.2 ⟨ind, st, hrun, hret⟩
        exact staticAddressMembers_eq _ _ (h c hc (Or.inr ⟨hwritten, hacceptable⟩))
      · have herrors : st.response.errors ≠ [] := fun herrors =>
          hret (hagrees.sound.ret_iff.2 herrors)
        rw [validatorResponseToJson, validatorResponseToJson, if_neg herrors, if_neg herrors]

/-! ## Requests -/

/-- What holds of every change that was read holds of the elements they were read from. -/
theorem forall_iff_forall₂ {A B : Type} {R S : A → B → Prop} {P : B → Prop} {xs : List A}
    {ys : List B} (h : List.Forall₂ R xs ys) (hiff : ∀ x y, R x y → (P y ↔ S x y)) :
    (∀ y ∈ ys, P y) ↔ List.Forall₂ S xs ys := by
  induction h with
  | nil => simp
  | cons hxy _ ih => rw [List.forall_mem_cons, List.forall₂_cons, ih, hiff _ _ hxy]

/-- **What the rules and the encoder read was assigned** exactly if, in every change whose addresses
are looked at, each address names its S-NSSAI. -/
theorem readsAssigned_iff {doc : Json} {events : List Event}
    (h : getValidationData id doc = .ret data events) (hret : data.ret = true)
    (hquiet : recordedErrors events = []) :
    ReadsAssigned data ↔ List.Forall₂
      (fun x c => LooksAtAddresses data c → hasAddresses x = true → AddressesNamed x)
      (requestChanges doc) data.changes := by
  have hyields := yields_quiet h hquiet
  have hread := forall₂_read hyields hret
  have hassigned : ∀ c ∈ data.changes, ChangeAssigned c := by
    intro c hc
    obtain ⟨x, -, hx⟩ := exists_of_forall₂ hread c hc
    exact changeAssigned_of_read hx
  rw [readsAssigned_iff_readable hassigned (relatedAssigned_of_quiet hyields)]
  refine forall_iff_forall₂ hread fun x c hx => ?_
  obtain ⟨haddresses, hflag⟩ := addresses_of_read hx
  rw [AddressesReadable, haddresses, hflag]

/-- The update of a subscription with one static address. -/
def updateOfAddress (address : Json) : Json :=
  let path := "/subscribers/1/udmSubscription/udmStaticAndRegistrationData/udmStaticData"
  let profileId : Json := .obj [("id", .str "a")]
  .obj [
    ("changes", .arr [.obj [("operation", .str "UPDATE"), ("resource_path", .str path),
      ("data", .obj [("udmSliceProfileId", profileId),
        ("staticIpAddress", .obj [("nssaiDnnIpLists", .arr [address])])])]]),
    ("relatedResources", .obj [(path, .obj [("udmSliceProfileId", profileId)]),
      ("/profiles/udmProfiles/udmSliceProfiles/a", .obj [("udmSliceProfileId", .str "a")])])]

theorem admitted_updateOfAddress (address : Json) : Admitted (updateOfAddress address) := by
  refine .single ⟨_, rfl⟩ rfl ⟨⟨_, rfl, Or.inr (Or.inl rfl)⟩, ⟨_, rfl⟩, fun d hd => ?_⟩
    fun w hw => ?_
  · have heq := Option.some.inj (show some _ = some d from hd)
    exact heq ▸ ⟨_, rfl⟩
  · have heq := Option.some.inj (show some _ = some w from hw)
    exact heq ▸ ⟨_, rfl⟩

set_option maxRecDepth 4000 in
/-- An address with its S-NSSAI. -/
theorem readsAssigned_iff_named : ∃ data events,
    getValidationData id (updateOfAddress (.obj [("nssai", .obj [("sst", .int 1)])])) =
      .ret data events ∧ ReadsAssigned data := by
  obtain ⟨data, events, h, hret, hquiet⟩ : ∃ data events,
      getValidationData id (updateOfAddress (.obj [("nssai", .obj [("sst", .int 1)])])) =
        .ret data events ∧ data.ret = true ∧ recordedErrors events = [] :=
    ⟨_, _, rfl, rfl, rfl⟩
  refine ⟨data, events, h, (readsAssigned_iff h hret hquiet).2 ?_⟩
  have hread := forall₂_read (yields_quiet h hquiet) hret
  have hnamed : ∀ x ∈ requestChanges (updateOfAddress
      (.obj [("nssai", .obj [("sst", .int 1)])])), AddressesNamed x := by
    intro x hx r hr y hy
    obtain rfl := List.mem_singleton.1 hx
    obtain rfl := List.mem_singleton.1 hr
    obtain rfl := List.mem_singleton.1 hy
    exact ⟨_, List.mem_singleton_self _, rfl⟩
  exact ((List.forall₂_and_left _ _).2 ⟨hnamed, hread⟩).imp fun x c hx _ _ => hx.1

set_option maxRecDepth 4000 in
/-- An address without its S-NSSAI: what it holds decides whether the update is accepted. -/
theorem unassigned_sst_decides : ∃ data events, Admitted (updateOfAddress (.obj [])) ∧
    getValidationData id (updateOfAddress (.obj [])) = .ret data events ∧ data.ret = true ∧
      recordedErrors events = [] ∧ ¬ ReadsAssigned data := by
  refine ⟨_, _, admitted_updateOfAddress _, rfl, rfl, rfl, fun h => ?_⟩
  have hrules := h.rules _ (List.mem_singleton_self _) ⟨0, false⟩ ⟨256, false⟩
  have haccepted := congrArg (Option.map Verdict.ret) hrules
  revert haccepted
  decide +kernel

end ProvisioningValidator
