import Mathlib
import ProvisioningValidator.VariantAccess

/-!
# The subscriber of a creation

The path of a subscription is put together from a subscriber and a tail. The rules take it apart
again with a search, whose anchors also hold at a line break inside the text: where the tail is
met in front of a line break, the search ends there, and the subscriber is cut.

* `mscId_path_iff` — for which subscribers the search gives them back;
* `creation_own_subscriber_iff` — for these and no others, a subscription is created against the
  journal of its own subscriber.
-/

namespace ProvisioningValidator

open Lib

variable {V : Type}

/-! ## The shortest match -/

/-- A match of the tail in front of an end of line, `x` before it. -/
def MatchesAt (suf w x : List Char) : Prop :=
  ∃ rest, w = x ++ suf ++ rest ∧ endOfLine suf.getLast? rest = true

theorem matchesAt_nil_iff {suf w : List Char} :
    MatchesAt suf w [] ↔
      (suf.isPrefixOf w && endOfLine suf.getLast? (w.drop suf.length)) = true := by
  rw [Bool.and_eq_true, List.isPrefixOf_iff_prefix]
  constructor
  · rintro ⟨rest, rfl, hend⟩
    refine ⟨⟨rest, rfl⟩, ?_⟩
    rwa [List.nil_append, List.drop_left]
  · rintro ⟨⟨rest, rfl⟩, hend⟩
    rw [List.drop_left] at hend
    exact ⟨rest, rfl, hend⟩

theorem matchesAt_cons_iff {suf w x : List Char} {c : Char} :
    MatchesAt suf (c :: w) (c :: x) ↔ MatchesAt suf w x := by
  simp [MatchesAt]

/-- The search finds a match if there is one, and none is shorter. -/
theorem lazyMatch_spec {suf : List Char} (hsuf : suf ≠ []) {w x : List Char}
    (h : MatchesAt suf w x) :
    ∃ y, lazyMatch suf w = some y ∧ MatchesAt suf w y ∧ y.length ≤ x.length := by
  induction w generalizing x with
  | nil =>
    obtain ⟨rest, hw, -⟩ := h
    simp [hsuf] at hw
  | cons c w ih =>
    rw [lazyMatch]
    by_cases hhere : MatchesAt suf (c :: w) []
    · rw [if_pos (matchesAt_nil_iff.1 hhere)]
      exact ⟨[], rfl, hhere, Nat.zero_le _⟩
    · rw [if_neg fun htest => hhere (matchesAt_nil_iff.2 htest)]
      cases x with
      | nil => exact absurd h hhere
      | cons d x =>
        obtain rfl : c = d := by
          obtain ⟨rest, hw, -⟩ := h
          exact (List.cons.inj hw).1
        obtain ⟨y, hy, hmatch, hle⟩ := ih (matchesAt_cons_iff.1 h)
        refine ⟨c :: y, by rw [hy]; rfl, matchesAt_cons_iff.2 hmatch, ?_⟩
        exact Nat.succ_le_succ hle

/-- Where the text begins with the head and matches the tail, the first line is searched. -/
theorem searchLine_of_head {pre suf w x : List Char} (hpre : pre ≠ []) (hsuf : suf ≠ [])
    (h : MatchesAt suf w x) : searchLine pre suf none (pre ++ w) = lazyMatch suf w := by
  obtain ⟨y, hy, -, -⟩ := lazyMatch_spec hsuf h
  cases pre with
  | nil => exact absurd rfl hpre
  | cons c pre =>
    have hstart : (startOfLine none (c :: (pre ++ w)) &&
        (c :: pre).isPrefixOf (c :: (pre ++ w))) = true := by
      rw [Bool.and_eq_true, List.isPrefixOf_iff_prefix]
      exact ⟨rfl, ⟨w, rfl⟩⟩
    have hdrop : (c :: (pre ++ w)).drop (c :: pre).length = w := List.drop_left
    rw [List.cons_append, searchLine]
    simp only [hstart, if_true, hdrop, hy, Option.some_or]

/-- The tail comes inside the text, in front of a line break. -/
def BrokenBy (suf m : List Char) : Prop := ∃ sep, isSeparator sep = true ∧ suf ++ [sep] <:+: m

/-- A tail without line breaks matches before the end only in front of one inside the text. -/
theorem matchesAt_before_end_iff {suf m x : List Char}
    (hsuf : ∀ c ∈ suf, isSeparator c = false) (hlt : x.length < m.length) :
    MatchesAt suf (m ++ suf) x ↔
      ∃ sep rest, isSeparator sep = true ∧ m = x ++ suf ++ sep :: rest := by
  constructor
  · rintro ⟨rest, hw, hend⟩
    cases rest with
    | nil =>
      have hlen := congrArg List.length hw
      simp only [List.length_append, List.length_nil] at hlen
      omega
    | cons sep rest =>
      have hsep : isSeparator sep = true := (Bool.and_eq_true _ _ ▸ hend).1
      have hnot : sep ∉ suf := fun hmem => by
        rw [hsuf sep hmem] at hsep
        cases hsep
      rcases List.append_eq_append_iff.1 hw with ⟨a, -, htail⟩ | ⟨b, hm, htail⟩
      · exact absurd (by rw [htail]; simp) hnot
      · cases b with
        | nil => exact absurd (by rw [← List.nil_append suf, ← htail]; simp) hnot
        | cons d b =>
          obtain ⟨rfl, -⟩ := List.cons.inj htail
          exact ⟨sep, b, hsep, hm⟩
  · rintro ⟨sep, rest, hsep, rfl⟩
    refine ⟨sep :: rest ++ suf, by simp, ?_⟩
    have hlast : suf.getLast? ≠ some '\r' := by
      intro hlast
      have hcr := hsuf _ (List.mem_of_getLast? hlast)
      cases hcr
    have hguard : (suf.getLast? == some '\r') = false := beq_eq_false_iff_ne.2 hlast
    simp [endOfLine, hsep, hguard]

theorem brokenBy_iff {suf m : List Char} : BrokenBy suf m ↔
    ∃ x sep rest, isSeparator sep = true ∧ m = x ++ suf ++ sep :: rest := by
  constructor
  · rintro ⟨sep, hsep, x, rest, hm⟩
    exact ⟨x, sep, rest, hsep, by simpa using hm.symm⟩
  · rintro ⟨x, sep, rest, hsep, rfl⟩
    exact ⟨sep, hsep, x, rest, by simp⟩

/-- **The search gives back what was put in front of the tail, unless it is broken.** -/
theorem lazyMatch_eq_some_iff {suf m : List Char} (hne : suf ≠ [])
    (hsuf : ∀ c ∈ suf, isSeparator c = false) :
    lazyMatch suf (m ++ suf) = some m ↔ ¬ BrokenBy suf m := by
  constructor
  · intro hm hbroken
    obtain ⟨x, sep, rest, hsep, hmx⟩ := brokenBy_iff.1 hbroken
    have hlt : x.length < m.length := by
      rw [hmx]
      simp only [List.length_append, List.length_cons]
      omega
    obtain ⟨y, hy, -, hle⟩ :=
      lazyMatch_spec hne ((matchesAt_before_end_iff hsuf hlt).2 ⟨sep, rest, hsep, hmx⟩)
    obtain rfl := Option.some.inj (hy.symm.trans hm)
    omega
  · intro hbroken
    have hend : MatchesAt suf (m ++ suf) m := ⟨[], by simp, rfl⟩
    obtain ⟨y, hy, hmatch, hle⟩ := lazyMatch_spec hne hend
    rw [hy]
    by_cases hlt : y.length < m.length
    · obtain ⟨sep, rest, hsep, hmy⟩ := (matchesAt_before_end_iff hsuf hlt).1 hmatch
      exact absurd (brokenBy_iff.2 ⟨y, sep, rest, hsep, hmy⟩) hbroken
    · obtain ⟨rest, hw, -⟩ := hmatch
      rw [List.append_assoc] at hw
      obtain ⟨rfl, -⟩ := List.append_inj hw (le_antisymm (not_lt.1 hlt) hle)
      rfl

/-! ## The two kinds of subscriptions -/

/-- What is created for a subscriber. -/
inductive Subscription where
  | udm
  | sms

namespace Subscription

/-- The end of the path. -/
def tail : Subscription → String
  | udm => "/udmSubscription/udmStaticAndRegistrationData/udmStaticData"
  | sms => "/smsSubscription/smsStaticAndRegistrationData/smsStaticData"

/-- The path for a subscriber. -/
def path (k : Subscription) (m : String) : String := "/subscribers/" ++ m ++ k.tail

/-- The test that the rules make. -/
def routes : Subscription → String → Bool
  | udm => isUdmStaticData
  | sms => isSmsSubscription

/-- The subscriber that the rules find in a path. -/
def mscId : Subscription → String → String
  | udm => getMscId
  | sms => getSmsStaticDataMscId

theorem mscId_eq (k : Subscription) (p : String) :
    k.mscId p = findMscId "/subscribers/" k.tail p := by
  cases k <;> rfl

theorem not_separator_tail (k : Subscription) : ∀ c ∈ k.tail.toList, isSeparator c = false := by
  have hall : k.tail.toList.all (fun c => !isSeparator c) = true := by
    cases k <;> decide +kernel
  simpa using hall

/-- **Which subscribers the rules find again.** -/
theorem mscId_path_iff (k : Subscription) (m : String) :
    k.mscId (k.path m) = m ↔ ¬ BrokenBy k.tail.toList m.toList := by
  have htail : k.tail.toList ≠ [] := by cases k <;> simp [tail]
  have hpath : (k.path m).toList = "/subscribers/".toList ++ (m.toList ++ k.tail.toList) := by
    simp [path, String.toList_append]
  have hend : MatchesAt k.tail.toList (m.toList ++ k.tail.toList) m.toList :=
    ⟨[], by simp, rfl⟩
  obtain ⟨y, hy, -, -⟩ := lazyMatch_spec htail hend
  have hfind : (k.mscId (k.path m)).toList = y := by
    rw [mscId_eq, findMscId, hpath, searchLine_of_head (by decide) htail hend, hy]
    simp
  rw [← lazyMatch_eq_some_iff htail k.not_separator_tail, hy, Option.some.injEq,
    ← String.toList_inj, hfind]

end Subscription

/-! ## What a creation needs -/

section

variable (rr : RelatedResources V)

/-- The journal of the subscriber is there. -/
def JournalIncluded (m : String) : Prop :=
  rr.contains (buildProvJournalResourcePathFromMscId m) = true

/-- The journal of the subscriber is there and has an IMSI. -/
def ImsiIncluded (m : String) : Prop :=
  ∃ journal, rr.find? (buildProvJournalResourcePathFromMscId m) = some (.provJournal journal) ∧
    journal.imsi ≠ ""

/-- A slice profile with the id is there, under the path of one. -/
def ProfileIncluded (profId : String) : Prop :=
  ∃ p profile, rr.find? p = some (.udmSliceProfile profile) ∧ isUdmSliceProfile p = true ∧
    profile.udmSliceProfileId = profId

/-- An accepted creation has the journal of the subscriber with an IMSI, and for static data the
profile it names; what is missing of them makes the code 422, and nothing else does. -/
structure CreatedFor (k : Subscription) (c : Change V) (v : Verdict) (m : String) : Prop where
  accepted : v.ret = true →
    ImsiIncluded rr m ∧ (k = .udm → ProfileIncluded rr c.udmStaticData.udmSliceProfileId.id)
  unprocessable : v.code = httpUnprocessableEntity ↔
    ¬ JournalIncluded rr m ∨
      k = .udm ∧ ¬ ProfileIncluded rr c.udmStaticData.udmSliceProfileId.id

end

variable {rr : RelatedResources V} {ind : Indeterminate} {c : Change V}

/-- The loop over the related resources finds a profile exactly when there is one. -/
theorem findUdmSliceProfile_cases (profId : String) {l : List (String × Resource V)}
    (h : ∀ e ∈ l, isUdmSliceProfile e.1 = true → ∃ profile, e.2 = .udmSliceProfile profile) :
    (∃ profile, findUdmSliceProfile profId l = some (some profile) ∧
        ∃ e ∈ l, e.2 = .udmSliceProfile profile ∧ isUdmSliceProfile e.1 = true ∧
          profile.udmSliceProfileId = profId) ∨
      findUdmSliceProfile profId l = some none ∧
        ¬ ∃ e ∈ l, ∃ profile, e.2 = .udmSliceProfile profile ∧ isUdmSliceProfile e.1 = true ∧
          profile.udmSliceProfileId = profId := by
  induction l with
  | nil => exact Or.inr ⟨rfl, by simp⟩
  | cons e l ih =>
    obtain ⟨key, r⟩ := e
    have hrest := ih fun e he => h e (List.mem_cons_of_mem _ he)
    by_cases hkey : isUdmSliceProfile key = true
    · obtain ⟨profile, hprofile⟩ := h _ List.mem_cons_self hkey
      obtain rfl : r = .udmSliceProfile profile := hprofile
      by_cases hid : profile.udmSliceProfileId = profId
      · refine Or.inl ⟨profile, ?_, _, List.mem_cons_self, rfl, hkey, hid⟩
        simp [findUdmSliceProfile, hkey, Resource.getUdmSliceProfile, hid]
      · have hskip : findUdmSliceProfile profId ((key, .udmSliceProfile profile) :: l) =
            findUdmSliceProfile profId l := by
          simp [findUdmSliceProfile, hkey, Resource.getUdmSliceProfile, hid]
        rw [hskip]
        refine hrest.imp (fun hfound => ?_) fun hnone => ⟨hnone.1, fun hex => hnone.2 ?_⟩
        · obtain ⟨p, hp, e, he, hrest⟩ := hfound
          exact ⟨p, hp, e, List.mem_cons_of_mem _ he, hrest⟩
        · obtain ⟨e, he, p, hep, hroute, hpid⟩ := hex
          rcases List.mem_cons.1 he with rfl | he
          · obtain rfl := Resource.udmSliceProfile.inj hep
            exact absurd hpid hid
          · exact ⟨e, he, p, hep, hroute, hpid⟩
    · have hskip : findUdmSliceProfile profId ((key, r) :: l) =
          findUdmSliceProfile profId l := by
        simp [findUdmSliceProfile, hkey]
      rw [hskip]
      refine hrest.imp (fun hfound => ?_) fun hnone => ⟨hnone.1, fun hex => hnone.2 ?_⟩
      · obtain ⟨p, hp, e, he, hrest⟩ := hfound
        exact ⟨p, hp, e, List.mem_cons_of_mem _ he, hrest⟩
      · obtain ⟨e, he, p, hep, hroute, hpid⟩ := hex
        rcases List.mem_cons.1 he with rfl | he
        · exact absurd hroute hkey
        · exact ⟨e, he, p, hep, hroute, hpid⟩

theorem getRelatedUdmSliceProfile_cases (h : ProfilesHeld rr) (profId : String) :
    (∃ profile, getRelatedUdmSliceProfile rr profId = some (some profile) ∧
        ProfileIncluded rr profId) ∨
      getRelatedUdmSliceProfile rr profId = some none ∧ ¬ ProfileIncluded rr profId := by
  rcases findUdmSliceProfile_cases profId h with ⟨profile, hfind, e, he, hep, hroute, hid⟩ |
    ⟨hfind, hnone⟩
  · refine Or.inl ⟨profile, hfind, e.1, profile, ?_, hroute, hid⟩
    exact hep ▸ OrdMap.mem_entries_iff.1 he
  · refine Or.inr ⟨hfind, fun hincluded => hnone ?_⟩
    obtain ⟨p, profile, hp, hroute, hid⟩ := hincluded
    exact ⟨_, OrdMap.mem_entries_iff.2 hp, profile, rfl, hroute, hid⟩

/-- A check, and the code it ends in. -/
theorem code_verdict_ne (r : Checked) : r.verdict.code ≠ httpUnprocessableEntity := by
  unfold Checked.verdict
  cases r.ret <;> simp

/-- The journal is either missing, or a journal. -/
theorem journal_cases (h : JournalsHeld rr) (m : String) :
    rr.find? (buildProvJournalResourcePathFromMscId m) = none ∧ ¬ JournalIncluded rr m ∨
      ∃ journal, rr.find? (buildProvJournalResourcePathFromMscId m) =
        some (.provJournal journal) ∧ JournalIncluded rr m := by
  unfold JournalIncluded OrdMap.contains
  cases hr : rr.find? (buildProvJournalResourcePathFromMscId m) with
  | none => exact Or.inl ⟨rfl, by simp⟩
  | some r =>
    obtain ⟨journal, hjournal⟩ := h _ (OrdMap.mem_entries_iff.2 hr) (endsWith_provJournalPath m)
    obtain rfl : r = .provJournal journal := hjournal
    exact Or.inr ⟨journal, rfl, rfl⟩

/-- Static data are created for the subscriber that the search finds. -/
theorem createdFor_udm (hprofiles : ProfilesHeld rr) (hjournals : JournalsHeld rr) {v : Verdict}
    (h : checkForCreationUdmSubscriptionRules ind rr c = some v) :
    CreatedFor rr .udm c v (getMscId c.resourcePath) := by
  rw [checkForCreationUdmSubscriptionRules] at h
  rcases journal_cases hjournals (getMscId c.resourcePath) with ⟨hfind, hnone⟩ |
    ⟨journal, hfind, hincluded⟩
  · simp only [hfind, Option.some.injEq] at h
    subst h
    exact ⟨fun hret => (by cases hret), iff_of_true rfl (Or.inl hnone)⟩
  · simp only [hfind, Resource.getProvJournal, Option.bind_eq_bind, Option.bind_some,
      subscriptionRulesWithProfile] at h
    rcases getRelatedUdmSliceProfile_cases hprofiles c.udmStaticData.udmSliceProfileId.id with
      ⟨profile, hprofile, hthere⟩ | ⟨hprofile, hmissing⟩
    · simp only [hprofile, Option.bind_some, Option.pure_def, Option.some.injEq] at h
      subst h
      refine ⟨fun hret => ⟨⟨journal, hfind, ?_⟩, fun _ => hthere⟩, iff_of_false ?_ ?_⟩
      · have hboth : (checkImsiIsInProvJournal c.resourcePath (getMscId c.resourcePath)
            journal).ret = true ∧ _ := Bool.and_eq_true_iff.1 hret
        exact Checked.ret_failIf.1 hboth.1
      · exact code_verdict_ne _
      · rintro (hnone | ⟨-, hmissing⟩)
        · exact hnone hincluded
        · exact hmissing hthere
    · simp only [hprofile, Option.bind_some, Option.pure_def, Option.some.injEq] at h
      subst h
      exact ⟨fun hret => (by cases hret), iff_of_true rfl (Or.inr ⟨rfl, hmissing⟩)⟩

/-- SMS data are created for the subscriber that the search finds. -/
theorem createdFor_sms (hjournals : JournalsHeld rr) (hop : c.operation = jsonOperationCreate)
    {v : Verdict} (h : smsValidationData ind rr c = some v) :
    CreatedFor rr .sms c v (getSmsStaticDataMscId c.resourcePath) := by
  have hcommon : (commonSmsValidationRules ind c).code ≠ httpUnprocessableEntity :=
    code_verdict_ne _
  have hcode : (commonSmsValidationRules ind c).code = 200 ∨
      (commonSmsValidationRules ind c).code = 409 := by
    have hmem := (@soundAt_commonSmsValidationRules V ind c).code_mem
    simp only [httpUnprocessableEntity] at hcommon
    omega
  rw [smsValidationData, if_neg (by simp [hop]), if_pos hop, createSpecificSmsValidationRules] at h
  rcases journal_cases hjournals (getSmsStaticDataMscId c.resourcePath) with ⟨hfind, hnone⟩ |
    ⟨journal, hfind, hincluded⟩
  · simp only [hfind, Option.bind_eq_bind, Option.bind_some, Option.pure_def,
      Option.some.injEq] at h
    subst h
    refine ⟨fun hret => ?_, iff_of_true ?_ (Or.inl hnone)⟩
    · simp [getWorstResponseCode, ProvisioningValidator.unprocessable] at hret
    · simp only [getWorstResponseCode, List.foldl_cons, List.foldl_nil,
        ProvisioningValidator.unprocessable, httpOk, httpUnprocessableEntity]
      omega
  · simp only [hfind, Resource.getProvJournal, Option.bind_eq_bind, Option.bind_some,
      Option.pure_def, Option.some.injEq] at h
    subst h
    refine ⟨fun hret => ⟨⟨journal, hfind, ?_⟩, fun hk => (by cases hk)⟩, iff_of_false ?_ ?_⟩
    · simp only [getWorstResponseCode, List.foldl_cons, List.foldl_nil, Bool.true_and,
        Bool.and_eq_true] at hret
      exact Checked.ret_failIf.1 hret.2
    · intro h422
      have hne := code_verdict_ne (checkImsiIsInProvJournal c.resourcePath
        (getSmsStaticDataMscId c.resourcePath) journal)
      simp only [getWorstResponseCode, List.foldl_cons, List.foldl_nil, httpOk,
        httpUnprocessableEntity] at h422 hne
      omega
    · rintro (hnone | ⟨hk, -⟩)
      · exact hnone hincluded
      · cases hk

/-! ## Routes -/

/-- Only the rules for profiles and areas look for paths with another beginning. -/
theorem not_profile_or_area {p : String} (h : "/subscribers/".toList <+: p.toList) :
    isUdmSliceProfile p = false ∧ isUdmRoamingArea p = false := by
  have hroot : ∀ pre : String, startsWith (cstr p) pre = true →
      pre.toList <+: "/subscribers/".toList ∨ "/subscribers/".toList <+: pre.toList := by
    intro pre hpre
    exact List.prefix_or_prefix_of_prefix ((startsWith_iff.1 hpre).trans (cstr_isPrefix p)) h
  constructor
  · rw [isUdmSliceProfile_eq, Bool.eq_false_iff]
    intro hpre
    exact absurd (hroot _ hpre) (by decide +kernel)
  · rw [isUdmRoamingArea_eq, Bool.eq_false_iff]
    intro hpre
    exact absurd (hroot _ hpre) (by decide +kernel)

theorem Subscription.subscribers_prefix (k : Subscription) (m : String) :
    "/subscribers/".toList <+: (k.path m).toList := by
  rw [Subscription.path, String.toList_append, String.toList_append, List.append_assoc]
  exact List.prefix_append _ _

/-- The rules for a creation under the path of a subscription. -/
theorem changeRules_creation {k : Subscription} {m : String} (hpath : c.resourcePath = k.path m)
    (hop : c.operation = jsonOperationCreate) : changeRules ind rr c =
      if isUdmStaticData c.resourcePath = true then
        checkForCreationUdmSubscriptionRules ind rr c
      else if isSmsSubscription c.resourcePath = true then smsValidationData ind rr c
      else some (unprocessable c.resourcePath notPerformed) := by
  obtain ⟨hprofile, harea⟩ := not_profile_or_area (k.subscribers_prefix m)
  rw [← hpath] at hprofile harea
  rw [changeRules]
  by_cases hstatic : isUdmStaticData c.resourcePath = true
  · simp [hstatic, hop]
  · by_cases hsms : isSmsSubscription c.resourcePath = true
    · simp [hstatic, hsms, hprofile, harea]
    · simp [hstatic, hsms, hprofile, harea, hop]

/-- **A creation that the rules route is one for the subscriber that they find.** -/
theorem createdFor_of_routes (hprofiles : ProfilesHeld rr) (hjournals : JournalsHeld rr)
    {k k' : Subscription} {m : String} (hpath : c.resourcePath = k.path m)
    (hop : c.operation = jsonOperationCreate) (hroute : k'.routes c.resourcePath = true)
    {v : Verdict} (h : changeRules ind rr c = some v) :
    CreatedFor rr k' c v (k'.mscId c.resourcePath) := by
  rw [changeRules_creation hpath hop] at h
  cases k' with
  | udm =>
    have hstatic : isUdmStaticData c.resourcePath = true := hroute
    rw [if_pos hstatic] at h
    exact createdFor_udm hprofiles hjournals h
  | sms =>
    have hstatic : isUdmStaticData c.resourcePath ≠ true := by
      intro hstatic
      cases ResourceKind.eq_of_routes .udmStaticData .smsStaticData hstatic hroute
    have hsms : isSmsSubscription c.resourcePath = true := hroute
    rw [if_neg hstatic, if_pos hsms] at h
    exact createdFor_sms hjournals hop h

/-! ## Small maps of related resources -/

/-- Journals with an IMSI for some subscribers, and a slice profile if it is wanted. -/
def relatedWith (ms : List String) (withProfile : Bool) : RelatedResources V :=
  OrdMap.emplaceAll ∅ (ms.map (fun m => (buildProvJournalResourcePathFromMscId m,
      Resource.provJournal { imsi := "1" })) ++
    if withProfile then [("/profiles/udmProfiles/udmSliceProfiles/a", .udmSliceProfile {})] else [])

theorem mem_relatedWith {ms : List String} {withProfile : Bool} {e : String × Resource V}
    (h : e ∈ (relatedWith ms withProfile).entries) :
    (∃ m ∈ ms, e = (buildProvJournalResourcePathFromMscId m, .provJournal { imsi := "1" })) ∨
      withProfile = true ∧
        e = ("/profiles/udmProfiles/udmSliceProfiles/a", .udmSliceProfile {}) := by
  have hmem := (OrdMap.mem_emplaceAll h).resolve_left (by simp)
  rcases List.mem_append.1 hmem with hmem | hmem
  · obtain ⟨m, hm, rfl⟩ := List.mem_map.1 hmem
    exact Or.inl ⟨m, hm, rfl⟩
  · cases withProfile with
    | false => cases hmem
    | true => exact Or.inr ⟨rfl, List.mem_singleton.1 hmem⟩

theorem journalPath_not_profile (m : String) :
    isUdmSliceProfile (buildProvJournalResourcePathFromMscId m) = false := by
  refine (not_profile_or_area ?_).1
  rw [buildProvJournalResourcePathFromMscId, String.toList_append, String.toList_append,
    List.append_assoc]
  exact List.prefix_append _ _

theorem journalPath_injective {m m' : String}
    (h : buildProvJournalResourcePathFromMscId m = buildProvJournalResourcePathFromMscId m') :
    m = m' := by
  have hlist := String.toList_inj.2 h
  simp only [buildProvJournalResourcePathFromMscId, String.toList_append, List.append_assoc] at hlist
  exact String.toList_inj.1 (List.append_cancel_right (List.append_cancel_left hlist))

theorem profilesHeld_relatedWith (ms : List String) (withProfile : Bool) :
    ProfilesHeld (relatedWith ms withProfile : RelatedResources V) := by
  intro e he hroute
  rcases mem_relatedWith he with ⟨m, -, rfl⟩ | ⟨-, rfl⟩
  · rw [journalPath_not_profile] at hroute
    cases hroute
  · exact ⟨_, rfl⟩

theorem journalsHeld_relatedWith (ms : List String) (withProfile : Bool) :
    JournalsHeld (relatedWith ms withProfile : RelatedResources V) := by
  intro e he hend
  rcases mem_relatedWith he with ⟨m, -, rfl⟩ | ⟨-, rfl⟩
  · exact ⟨_, rfl⟩
  · have hprofile : endsWith "/profiles/udmProfiles/udmSliceProfiles/a" jsonProvJournal =
        false := by
      decide +kernel
    rw [hprofile] at hend
    cases hend

theorem journalIncluded_relatedWith {ms : List String} {withProfile : Bool} {m : String} :
    JournalIncluded (relatedWith ms withProfile : RelatedResources V) m ↔ m ∈ ms := by
  constructor
  · intro h
    obtain ⟨r, hr⟩ := Option.isSome_iff_exists.1 h
    rcases mem_relatedWith (OrdMap.mem_entries_iff.2 hr) with ⟨m', hm', heq⟩ | ⟨-, heq⟩
    · exact journalPath_injective (Prod.mk.inj heq).1 ▸ hm'
    · have hroute := journalPath_not_profile m
      rw [(Prod.mk.inj heq).1] at hroute
      exact absurd hroute (by decide +kernel)
  · intro h
    exact OrdMap.contains_emplaceAll (List.mem_append_left _ (List.mem_map.2 ⟨m, h, rfl⟩))

theorem profileIncluded_relatedWith {ms : List String} {withProfile : Bool} :
    ProfileIncluded (relatedWith ms withProfile : RelatedResources V) "" ↔
      withProfile = true := by
  constructor
  · rintro ⟨p, profile, hp, hroute, -⟩
    rcases mem_relatedWith (OrdMap.mem_entries_iff.2 hp) with ⟨m', -, heq⟩ | ⟨hwith, -⟩
    · cases (Prod.mk.inj heq).2
    · exact hwith
  · rintro rfl
    have hcontains : (relatedWith ms true : RelatedResources V).contains
        "/profiles/udmProfiles/udmSliceProfiles/a" = true :=
      OrdMap.contains_emplaceAll (List.mem_append_right _ List.mem_cons_self)
    obtain ⟨r, hr⟩ := Option.isSome_iff_exists.1 hcontains
    rcases mem_relatedWith (OrdMap.mem_entries_iff.2 hr) with ⟨m', -, heq⟩ | ⟨-, heq⟩
    · have hroute := journalPath_not_profile m'
      rw [← (Prod.mk.inj heq).1] at hroute
      exact absurd hroute (by decide +kernel)
    · refine ⟨_, {}, (Prod.mk.inj heq).2 ▸ hr, by decide +kernel, rfl⟩

/-! ## Creations for their own subscribers -/

/-- Every creation under the path of a subscriber is one for this subscriber. -/
def CreatedForOwn (V : Type) (k : Subscription) (m : String) : Prop :=
  ∀ (ind : Indeterminate) (rr : RelatedResources V) (c : Change V) (v : Verdict),
    ProfilesHeld rr → JournalsHeld rr → c.resourcePath = k.path m →
      c.operation = jsonOperationCreate → changeRules ind rr c = some v → CreatedFor rr k c v m

/-- What an empty creation under the path is answered with, where it is one for its subscriber. -/
theorem CreatedForOwn.outcome {k : Subscription} {m : String} (h : CreatedForOwn V k m)
    {ms : List String} (hm : m ∈ ms) (withProfile : Bool) : ∃ v,
      changeRules ⟨0, false⟩ (relatedWith ms withProfile : RelatedResources V)
        { operation := jsonOperationCreate, resourcePath := k.path m } = some v ∧
      (v.code = httpUnprocessableEntity ↔ k = .udm ∧ withProfile = false) := by
  have hprofiles := @profilesHeld_relatedWith V ms withProfile
  have hjournals := @journalsHeld_relatedWith V ms withProfile
  obtain ⟨v, hv⟩ := Option.isSome_iff_exists.1 (isSome_changeRules ⟨0, false⟩
    { operation := jsonOperationCreate, resourcePath := k.path m } hprofiles hjournals)
  refine ⟨v, hv, ?_⟩
  have hcode := (h _ _ _ v hprofiles hjournals rfl rfl hv).unprocessable
  rw [journalIncluded_relatedWith] at hcode
  have hprofile := @profileIncluded_relatedWith V ms withProfile
  rw [hcode, or_iff_right (not_not.2 hm)]
  refine and_congr_right fun _ => ?_
  rw [← Bool.not_eq_true, ← hprofile]

/-- Under a path that the rules do not route to the subscription, a creation is judged by something
else. -/
theorem routes_of_createdForOwn {k : Subscription} {m : String} (h : CreatedForOwn V k m) :
    k.routes (k.path m) = true := by
  by_contra hroute
  by_cases hother : ∃ k' : Subscription, k'.routes (k.path m) = true
  · obtain ⟨k', hroute'⟩ := hother
    have hne : k' ≠ k := fun he => hroute (he ▸ hroute')
    obtain ⟨v, hv, hcode⟩ := h.outcome
      (List.mem_cons_self : m ∈ [m, k'.mscId (k.path m)]) false
    have hcreated := (createdFor_of_routes (profilesHeld_relatedWith _ false)
      (journalsHeld_relatedWith _ false) (k := k) rfl rfl hroute' hv).unprocessable
    rw [journalIncluded_relatedWith, profileIncluded_relatedWith] at hcreated
    have hkinds : k = .udm ↔ k' = .udm := by
      simpa using hcode.symm.trans hcreated
    cases k <;> cases k' <;> simp at hkinds hne
  · obtain ⟨v, hv, hcode⟩ := h.outcome (List.mem_singleton_self m) true
    have hstatic : isUdmStaticData (k.path m) ≠ true := fun hs => hother ⟨.udm, hs⟩
    have hsms : isSmsSubscription (k.path m) ≠ true := fun hs => hother ⟨.sms, hs⟩
    rw [changeRules_creation (k := k) rfl rfl, if_neg hstatic, if_neg hsms,
      Option.some.injEq] at hv
    subst hv
    simp [ProvisioningValidator.unprocessable] at hcode

/-- **When a subscription is created against its own subscriber.** The path must be one for the
rules, and the tail must not come in the subscriber in front of a line break. -/
theorem creation_own_subscriber_iff (k : Subscription) (m : String) :
    CreatedForOwn V k m ↔
      k.routes (k.path m) = true ∧ ¬ BrokenBy k.tail.toList m.toList := by
  constructor
  · intro h
    have hroute := routes_of_createdForOwn h
    refine ⟨hroute, fun hbroken => ?_⟩
    have hne : k.mscId (k.path m) ≠ m := fun he => (k.mscId_path_iff m).1 he hbroken
    obtain ⟨v, hv, hcode⟩ := h.outcome (List.mem_singleton_self m) true
    have hcreated := (createdFor_of_routes (profilesHeld_relatedWith _ true)
      (journalsHeld_relatedWith _ true) (k := k) rfl rfl hroute hv).unprocessable
    rw [journalIncluded_relatedWith] at hcreated
    have h422 : v.code = httpUnprocessableEntity :=
      hcreated.2 (Or.inl fun hmem => hne (List.mem_singleton.1 hmem))
    simpa using hcode.1 h422
  · rintro ⟨hroute, hbroken⟩ ind rr c v hprofiles hjournals hpath hop hv
    have hcreated := createdFor_of_routes hprofiles hjournals hpath hop (hpath ▸ hroute) hv
    rwa [hpath, (k.mscId_path_iff m).2 hbroken] at hcreated

/-- A subscriber with the tail and a line break in it. -/
def brokenSubscriber : String :=
  "1/udmSubscription/udmStaticAndRegistrationData/udmStaticData\n2"

/-- It is created against the journal of another subscriber. -/
theorem created_for_other_subscriber : ∃ v,
    ProfilesHeld (relatedWith ["1"] true : RelatedResources Json) ∧
    JournalsHeld (relatedWith ["1"] true : RelatedResources Json) ∧
    changeRules ⟨0, false⟩ (relatedWith ["1"] true : RelatedResources Json)
      { operation := jsonOperationCreate,
        resourcePath := Subscription.udm.path brokenSubscriber } = some v ∧
    v.ret = true ∧ ¬ ImsiIncluded (relatedWith ["1"] true : RelatedResources Json)
      brokenSubscriber := by
  have hret : (changeRules ⟨0, false⟩ (relatedWith ["1"] true : RelatedResources Json)
      { operation := jsonOperationCreate,
        resourcePath := Subscription.udm.path brokenSubscriber }).map (·.ret) = some true := by
    decide +kernel
  obtain ⟨v, hv, hvret⟩ := Option.map_eq_some_iff.1 hret
  refine ⟨v, profilesHeld_relatedWith _ _, journalsHeld_relatedWith _ _, hv, hvret, ?_⟩
  rintro ⟨journal, hjournal, -⟩
  have hincluded : JournalIncluded (relatedWith ["1"] true : RelatedResources Json)
      brokenSubscriber := Option.isSome_iff_exists.2 ⟨_, hjournal⟩
  rw [journalIncluded_relatedWith, List.mem_singleton] at hincluded
  exact absurd hincluded (by decide)

end ProvisioningValidator
