import Mathlib
import ProvisioningValidator.ApplyProof
import ProvisioningValidator.Server

/-!
# Access to related resources

The parser picks the alternative of a related resource by the end of its path and by keywords in it;
the rules infer the alternative from a regular expression on the path, or from the way they have
put the path together. `getRelatedResources_safe_iff` says for which documents the rules never ask
a variant for an alternative that it does not hold.
-/

namespace ProvisioningValidator

open Lib Lib.Run

variable {V : Type}

/-! ## What the parser stores under a path -/

/-- The alternative is the one that `getRelatedResources` picks for the path. -/
def Classified (resourcePath : String) : Resource V → Prop
  | .udmStaticData _ => endsWith resourcePath jsonUdmStaticData = true
  | .provJournal _ =>
    endsWith resourcePath jsonUdmStaticData = false ∧ endsWith resourcePath jsonProvJournal = true
  | .udmSliceProfile _ =>
    endsWith resourcePath jsonUdmStaticData = false ∧
      endsWith resourcePath jsonProvJournal = false
  | .udmRoamingArea _ | .smsStaticData _ =>
    endsWith resourcePath jsonProvJournal = false ∧
      contains resourcePath jsonUdmSliceProfiles = false

/-- Everything that was recorded is allowed. -/
abbrev Anything (_ : Event) : Prop := True

theorem classified_getRelatedResource {val : Json → V} {p : String} {v : Json} {r : Resource V}
    (h : Yields Anything (getRelatedResource val p v) (some r)) : Classified p r := by
  rw [getRelatedResource] at h
  split_ifs at h with hstatic hjournal hprofile hroaming hsms
  · obtain ⟨e, -, he⟩ := yields_bind.1 h
    rw [yields_pure, Option.some.injEq] at he
    exact he ▸ hstatic
  · obtain ⟨e, -, he⟩ := yields_bind.1 h
    rw [yields_pure, Option.some.injEq] at he
    exact he ▸ ⟨Bool.eq_false_iff.2 hstatic, hjournal⟩
  · obtain ⟨e, -, he⟩ := yields_bind.1 h
    rw [yields_pure, Option.some.injEq] at he
    exact he ▸ ⟨Bool.eq_false_iff.2 hstatic, Bool.eq_false_iff.2 hjournal⟩
  · obtain ⟨e, -, he⟩ := yields_bind.1 h
    rw [yields_pure, Option.some.injEq] at he
    exact he ▸ ⟨Bool.eq_false_iff.2 hjournal, Bool.eq_false_iff.2 hprofile⟩
  · obtain ⟨e, -, he⟩ := yields_bind.1 h
    rw [yields_pure, Option.some.injEq] at he
    exact he ▸ ⟨Bool.eq_false_iff.2 hjournal, Bool.eq_false_iff.2 hprofile⟩
  · rw [yields_pure] at h
    cases h

/-- A path with one of the two endings is always stored. -/
theorem stored_of_endsWith {val : Json → V} {p : String} {v : Json} {o : Option (Resource V)}
    (h : Yields Anything (getRelatedResource val p v) o)
    (hend : endsWith p jsonUdmStaticData = true ∨ endsWith p jsonProvJournal = true) :
    ∃ r, o = some r := by
  rw [getRelatedResource] at h
  split_ifs at h with hstatic hjournal
  · obtain ⟨e, -, he⟩ := yields_bind.1 h
    exact ⟨_, yields_pure.1 he⟩
  · obtain ⟨e, -, he⟩ := yields_bind.1 h
    exact ⟨_, yields_pure.1 he⟩
  all_goals exact absurd hend (by simp [hstatic, hjournal])

/-- The members of `relatedResources`, of a document that has them. -/
def relatedMembers (doc : Json) : List (String × Json) :=
  ((doc.member? jsonRelatedResources).bind Json.members).getD []

/-- What is known about a map that the parser has built. -/
structure Related (doc : Json) (relatedResources : RelatedResources V) : Prop where
  classified : ∀ e ∈ relatedResources.entries, Classified e.1 e.2
  named : ∀ e ∈ relatedResources.entries, ∃ m ∈ relatedMembers doc, cstr m.1 = e.1
  stored : ∀ m ∈ relatedMembers doc, (endsWith (cstr m.1) jsonUdmStaticData = true ∨
    endsWith (cstr m.1) jsonProvJournal = true) →
      relatedResources.contains (cstr m.1) = true

theorem related_emplaceAll {val : Json → V} {doc : Json} {resources : List (String × Resource V)}
    (h : Yields Anything (Run.collect (getRelatedMember val) (relatedMembers doc)) resources) :
    Related doc (OrdMap.emplaceAll ∅ resources) := by
  have hmem : ∀ e ∈ (OrdMap.emplaceAll ∅ resources : RelatedResources V).entries,
      ∃ m ∈ relatedMembers doc, cstr m.1 = e.1 ∧
        Yields Anything (getRelatedResource val (cstr m.1) m.2) (some e.2) := by
    intro e he
    have hin : e ∈ resources := (OrdMap.mem_emplaceAll he).resolve_left (by simp)
    obtain ⟨m, hm, hyields⟩ := h.mem_collect e hin
    obtain ⟨o, ho, heq⟩ := yields_bind.1 hyields
    cases o with
    | none => cases yields_pure.1 heq
    | some r =>
      have hpair := yields_pure.1 heq
      rw [Option.map_some, Option.some.injEq] at hpair
      subst hpair
      exact ⟨m, hm, rfl, ho⟩
  refine ⟨fun e he => ?_, fun e he => ?_, fun m hm hend => ?_⟩
  · obtain ⟨m, -, hname, hyields⟩ := hmem e he
    exact classified_getRelatedResource (hname ▸ hyields)
  · obtain ⟨m, hm, hname, -⟩ := hmem e he
    exact ⟨m, hm, hname⟩
  · obtain ⟨o, hyields, hkept⟩ := h.collect_mem m hm
    obtain ⟨o', ho', heq⟩ := yields_bind.1 hyields
    obtain ⟨r, rfl⟩ := stored_of_endsWith ho' hend
    exact OrdMap.contains_emplaceAll (hkept _ (yields_pure.1 heq))

/-- Whatever map the parser returns, it is built in this way. -/
theorem related_getRelatedResources {val : Json → V} {doc : Json} {rr : RelatedResources V}
    (h : Yields Anything (getRelatedResources val doc) rr) : Related doc rr := by
  obtain ⟨o, ho, hrun⟩ := yields_bind.1 h
  rw [yields_lift] at ho
  cases doc with
  | obj ms =>
    have hlookup : ms.lookup jsonRelatedResources = o := Option.some.inj ho
    cases o with
    | none =>
      have hrr := yields_pure.1 hrun
      have hmembers : relatedMembers (.obj ms) = [] := by
        rw [relatedMembers, Json.member?_obj, hlookup]
        rfl
      exact hrr ▸ ⟨by simp, by simp, by simp [hmembers]⟩
    | some v =>
      obtain ⟨members, hv, hrest⟩ := yields_bind.1 hrun
      obtain ⟨resources, hcollect, hrr⟩ := yields_bind.1 hrest
      rw [yields_lift] at hv
      have hmembers : relatedMembers (.obj ms) = members := by
        rw [relatedMembers, Json.member?_obj, hlookup, Option.bind_some, hv, Option.getD_some]
      rw [← hmembers] at hcollect
      exact yields_pure.1 hrr ▸ related_emplaceAll hcollect
  | _ => cases ho

/-! ## What the rules ask for -/

/-- Every resource whose path the rules take for that of a slice profile is one. -/
def ProfilesHeld (rr : RelatedResources V) : Prop :=
  ∀ e ∈ rr.entries, isUdmSliceProfile e.1 = true → ∃ profile, e.2 = .udmSliceProfile profile

/-- Every resource whose path ends like that of a journal is one. -/
def JournalsHeld (rr : RelatedResources V) : Prop :=
  ∀ e ∈ rr.entries, endsWith e.1 jsonProvJournal = true → ∃ journal, e.2 = .provJournal journal

theorem findUdmSliceProfile_isSome (profId : String) {l : List (String × Resource V)}
    (h : ∀ e ∈ l, isUdmSliceProfile e.1 = true → ∃ profile, e.2 = .udmSliceProfile profile) :
    (findUdmSliceProfile profId l).isSome = true := by
  induction l with
  | nil => rfl
  | cons e l ih =>
    obtain ⟨key, r⟩ := e
    have hrest := ih fun e he => h e (List.mem_cons_of_mem _ he)
    by_cases hkey : isUdmSliceProfile key = true
    · obtain ⟨profile, hprofile⟩ := h _ List.mem_cons_self hkey
      have hr : r = .udmSliceProfile profile := hprofile
      subst hr
      by_cases hid : profile.udmSliceProfileId = profId
      · simp [findUdmSliceProfile, hkey, Resource.getUdmSliceProfile, hid]
      · simpa [findUdmSliceProfile, hkey, Resource.getUdmSliceProfile, hid] using hrest
    · simpa [findUdmSliceProfile, hkey] using hrest

section

variable (ind : Indeterminate) {rr : RelatedResources V} (c : Change V)

theorem isSome_subscriptionRulesWithProfile (h : ProfilesHeld rr) (before : Checked) :
    (subscriptionRulesWithProfile ind rr c before).isSome = true := by
  have hfind := findUdmSliceProfile_isSome c.udmStaticData.udmSliceProfileId.id h
  obtain ⟨o, ho⟩ := Option.isSome_iff_exists.1 hfind
  rw [subscriptionRulesWithProfile, getRelatedUdmSliceProfile]
  simp only [ho, Option.bind_eq_bind, Option.bind_some]
  cases o <;> rfl

/-- The path of a journal is put together from its two ends. -/
theorem endsWith_provJournalPath (mscId : String) :
    endsWith (buildProvJournalResourcePathFromMscId mscId) jsonProvJournal = true := by
  rw [endsWith_iff, buildProvJournalResourcePathFromMscId, String.toList_append]
  have hsuffix : jsonProvJournal.toList <:+ "/journal/provJournal".toList := by decide +kernel
  exact hsuffix.trans (List.suffix_append _ _)

theorem getProvJournal_of_find? (h : JournalsHeld rr) {mscId : String} {r : Resource V}
    (hr : rr.find? (buildProvJournalResourcePathFromMscId mscId) = some r) :
    ∃ journal, r.getProvJournal = some journal := by
  obtain ⟨journal, rfl⟩ := h _ (OrdMap.mem_entries_iff.2 hr) (endsWith_provJournalPath mscId)
  exact ⟨journal, rfl⟩

/-- **With profiles and journals where the rules expect them, the rules return.** -/
theorem isSome_changeRules (hprofiles : ProfilesHeld rr) (hjournals : JournalsHeld rr) :
    (changeRules ind rr c).isSome = true := by
  rw [changeRules]
  split_ifs with hcreate hupdate hpcreate hpupdate hrcreate hrupdate hsms hdelete
  · rw [checkForCreationUdmSubscriptionRules]
    cases hr : rr.find? (buildProvJournalResourcePathFromMscId (getMscId c.resourcePath)) with
    | none => rfl
    | some r =>
      obtain ⟨journal, hjournal⟩ := getProvJournal_of_find? hjournals hr
      simp only [hjournal, Option.bind_eq_bind, Option.bind_some]
      exact isSome_subscriptionRulesWithProfile ind c hprofiles _
  · rw [checkForUpdateUdmSubscriptionRules]
    split_ifs
    · rfl
    · exact isSome_subscriptionRulesWithProfile ind c hprofiles _
  · rfl
  · rw [checkForUpdateUdmSliceProfileRules]
    cases hr : rr.find? c.resourcePath with
    | none => rfl
    | some r =>
      obtain ⟨profile, rfl⟩ := hprofiles _ (OrdMap.mem_entries_iff.2 hr) hpupdate.1
      rfl
  · rfl
  · rfl
  · rw [smsValidationData]
    split_ifs
    · rfl
    · rw [createSpecificSmsValidationRules]
      cases hr : rr.find? (buildProvJournalResourcePathFromMscId
          (getSmsStaticDataMscId c.resourcePath)) with
      | none => rfl
      | some r =>
        obtain ⟨journal, hjournal⟩ := getProvJournal_of_find? hjournals hr
        simp [hjournal]
    · rfl
  · rfl
  · rfl

theorem isSome_applyValidationRules (hprofiles : ProfilesHeld rr) (hjournals : JournalsHeld rr)
    (changes : List (Change V)) : (applyValidationRules ind rr changes).isSome = true := by
  have hrun : ∀ st : ApplyState V,
      (changes.foldlM (applyStep ind rr) st).isSome = true := by
    induction changes with
    | nil => exact fun st => rfl
    | cons c changes ih =>
      intro st
      obtain ⟨v, hv⟩ := Option.isSome_iff_exists.1
        (isSome_changeRules ind c hprofiles hjournals)
      rw [List.foldlM_cons]
      simp only [applyStep, hv, Option.bind_eq_bind, Option.bind_some]
      exact ih _
  exact hrun {}

/-- A path of a slice profile whose resource is none: an update of it fails. -/
theorem applyValidationRules_eq_none {p : String} {r : Resource V}
    (hroute : isUdmSliceProfile p = true) (hr : rr.find? p = some r)
    (hnone : r.getUdmSliceProfile = none) :
    applyValidationRules ind rr [{ operation := jsonOperationUpdate, resourcePath := p }] =
      none := by
  have hstatic : isUdmStaticData p = false := by
    rw [← Bool.not_eq_true]
    intro h
    cases ResourceKind.eq_of_routes .udmStaticData .udmSliceProfile h hroute
  have hupdate : checkForUpdateUdmSliceProfileRules ind rr
      ({ operation := jsonOperationUpdate, resourcePath := p } : Change V) = none := by
    simp [checkForUpdateUdmSliceProfileRules, hr, hnone]
  simp [applyValidationRules, applyStep, changeRules, hstatic, hroute, hupdate]

end

/-! ## Which documents are safe -/

theorem not_both_endings {p : String} (h : endsWith p jsonProvJournal = true) :
    endsWith p jsonUdmStaticData = false := by
  rw [← Bool.not_eq_true]
  intro h'
  exact absurd (List.suffix_or_suffix_of_suffix (endsWith_iff.1 h) (endsWith_iff.1 h'))
    (by decide +kernel)

theorem journalsHeld_of_related {doc : Json} {rr : RelatedResources V} (h : Related doc rr) :
    JournalsHeld rr := by
  intro e he hend
  obtain ⟨p, r⟩ := e
  have hclass := h.classified _ he
  have hstatic := not_both_endings hend
  simp only at hend hclass hstatic
  cases r with
  | provJournal journal => exact ⟨journal, rfl⟩
  | udmStaticData e => exact absurd (hstatic.symm.trans hclass) (by decide)
  | udmSliceProfile e => exact absurd (hclass.2.symm.trans hend) (by decide)
  | udmRoamingArea e => exact absurd (hclass.1.symm.trans hend) (by decide)
  | smsStaticData e => exact absurd (hclass.1.symm.trans hend) (by decide)

/-- The two kinds of paths that the parser and the rules see differently: a slice profile for the
rules, something else for the parser. -/
def Misclassified (p : String) : Prop :=
  isUdmSliceProfile p = true ∧
    (endsWith p jsonUdmStaticData = true ∨ endsWith p jsonProvJournal = true)

theorem profilesHeld_of_related {doc : Json} {rr : RelatedResources V} (h : Related doc rr)
    (hdoc : ∀ m ∈ relatedMembers doc, ¬ Misclassified (cstr m.1)) : ProfilesHeld rr := by
  intro e he hroute
  obtain ⟨p, r⟩ := e
  obtain ⟨m, hm, hname⟩ := h.named _ he
  have hclass := h.classified _ he
  have hends : ¬ (endsWith p jsonUdmStaticData = true ∨ endsWith p jsonProvJournal = true) :=
    fun hends => hdoc m hm (hname ▸ ⟨hroute, hends⟩)
  have hkeyword : contains p jsonUdmSliceProfiles = true :=
    ResourceKind.contains_keyword .udmSliceProfile hroute
  simp only at hclass
  cases r with
  | udmSliceProfile profile => exact ⟨profile, rfl⟩
  | udmStaticData e => exact absurd (Or.inl hclass) hends
  | provJournal e => exact absurd (Or.inr hclass.2) hends
  | udmRoamingArea e => exact absurd (hclass.2.symm.trans hkeyword) (by decide)
  | smsStaticData e => exact absurd (hclass.2.symm.trans hkeyword) (by decide)

/-- **The rules never ask a variant for an alternative that it does not hold, whatever the changes
are, exactly when no related resource has the path of a slice profile with the ending of another
kind.** -/
theorem getRelatedResources_safe_iff {val : Json → V} {doc : Json} {rr : RelatedResources V}
    {events : List Event} (h : getRelatedResources val doc = .ret rr events) :
    (∀ ind changes, applyValidationRules ind rr changes ≠ none) ↔
      ∀ m ∈ relatedMembers doc, ¬ Misclassified (cstr m.1) := by
  have hrelated : Related doc rr := related_getRelatedResources ⟨events, h, fun _ _ => trivial⟩
  constructor
  · intro hsafe m hm hmis
    obtain ⟨hroute, hends⟩ := hmis
    obtain ⟨r, hr⟩ := Option.isSome_iff_exists.1 (hrelated.stored m hm hends)
    have hclass := hrelated.classified _ (OrdMap.mem_entries_iff.2 hr)
    have hnone : r.getUdmSliceProfile = none := by
      cases r with
      | udmSliceProfile e =>
        rcases hends with hends | hends
        · exact absurd (hclass.1.symm.trans hends) (by decide)
        · exact absurd (hclass.2.symm.trans hends) (by decide)
      | _ => rfl
    exact hsafe ⟨0, false⟩ _ (applyValidationRules_eq_none ⟨0, false⟩ hroute hr hnone)
  · intro hdoc ind changes
    have hsome := isSome_applyValidationRules ind (profilesHeld_of_related hrelated hdoc)
      (journalsHeld_of_related hrelated) changes
    exact Option.isSome_iff_ne_none.1 hsome

/-- A document whose only related resource is empty. -/
def oneRelated (p : String) : Json := .obj [("relatedResources", .obj [(p, .obj [])])]

/-- With an ordinary slice profile as the only related resource, the rules return. -/
theorem getRelatedResources_safe_iff_profile :
    ∃ rr events, getRelatedResources id
        (oneRelated "/profiles/udmProfiles/udmSliceProfiles/a") = .ret rr events ∧
      ∀ ind changes, applyValidationRules ind rr changes ≠ none := by
  refine ⟨_, _, rfl, ?_⟩
  refine (@getRelatedResources_safe_iff _ id
    (oneRelated "/profiles/udmProfiles/udmSliceProfiles/a") _ _ rfl).2 fun m hm => ?_
  have hmem : m = ("/profiles/udmProfiles/udmSliceProfiles/a", .obj []) := by
    simpa [oneRelated, relatedMembers] using hm
  subst hmem
  rintro ⟨-, hends⟩
  have hneither : ¬ (endsWith (cstr "/profiles/udmProfiles/udmSliceProfiles/a")
      jsonUdmStaticData = true ∨ endsWith (cstr "/profiles/udmProfiles/udmSliceProfiles/a")
      jsonProvJournal = true) := by decide +kernel
  exact hneither hends

/-- A slice profile whose identifier is `provJournal` is read as a journal, and an update of it asks
for a profile. -/
theorem profile_read_as_journal :
    ∃ rr events, getRelatedResources id
        (oneRelated "/profiles/udmProfiles/udmSliceProfiles/provJournal") = .ret rr events ∧
      applyValidationRules ⟨0, false⟩ rr [{ operation := "UPDATE", resourcePath :=
        "/profiles/udmProfiles/udmSliceProfiles/provJournal" }] = none :=
  ⟨_, _, rfl, rfl⟩

end ProvisioningValidator
