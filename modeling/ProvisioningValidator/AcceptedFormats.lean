import Mathlib
import ProvisioningValidator.AllOrNothing
import ProvisioningValidator.SetReadings
import ProvisioningValidator.SliceReferences

/-!
# Formats of accepted sets

The parser asks for the identifier of a set and for both rates of a `sessionAmbr` to be there, and
the rules ask for their formats unless they are empty. So the texts that are read of an accepted
request have their formats exactly when none of them is empty or goes on behind a NUL, unlike the
rates of `subscribedUeAmbr`, whose format is asked for in any case (`ret_subscribedUeAmbrRules`).
A request can hold more than what is read: further members of a name, and data that no path
precedes. `accepted_formats_iff` counts all of it.
-/

namespace ProvisioningValidator

open Lib Lib.Run Lib.Json Lib.Regex Checked

/-! ## The two formats -/

/-- Some decimal digits. -/
def Digits (w : List Char) : Prop := w ≠ [] ∧ ∀ c ∈ w, c.isDigit = true

/-- Five or six decimal digits, or `Default`. -/
def IsPlmnIdSetIdentifier (s : String) : Prop :=
  (s.toList.length = 5 ∨ s.toList.length = 6) ∧ (∀ c ∈ s.toList, c.isDigit = true) ∨
    s = defaultValue

/-- Digits, perhaps with decimals, a space and a unit. -/
def IsBitRate (s : String) : Prop :=
  ∃ whole decimals unit, Digits whole ∧
    (decimals = [] ∨ ∃ ds, Digits ds ∧ decimals = '.' :: ds) ∧
    unit ∈ ["bps", "Kbps", "Mbps", "Gbps", "Tbps"] ∧
    s.toList = whole ++ decimals ++ ' ' :: unit.toList

theorem matchesCStr_plmnIdSetIdentifier {s : String} :
    matchesCStr plmnidSetIdentifierRegexp s = true ↔ IsPlmnIdSetIdentifier (cstr s) := by
  rw [matchesCStr, isMatch_iff, plmnidSetIdentifierRegexp, mem_lang_alt, mem_lang_lit,
    String.toList_inj, IsPlmnIdSetIdentifier]
  refine or_congr_left ?_
  rw [mem_lang_seq]
  constructor
  · rintro ⟨a, ha, b, hb, hab⟩
    obtain ⟨hlen, hdigits⟩ := mem_lang_times_cls.1 ha
    rw [← hab]
    rcases mem_lang_opt.1 hb with hb | rfl
    · obtain ⟨c, hc, rfl⟩ := mem_lang_cls.1 hb
      refine ⟨Or.inr (by simp [hlen]), fun d hd => ?_⟩
      rcases List.mem_append.1 hd with hd | hd
      · exact hdigits d hd
      · obtain rfl := List.mem_singleton.1 hd
        exact hc
    · rw [List.append_nil]
      exact ⟨Or.inl hlen, hdigits⟩
  · intro h
    obtain ⟨hlen, hdigits⟩ := h
    refine ⟨(cstr s).toList.take 5, mem_lang_times_cls.2 ⟨?_, fun c hc => ?_⟩,
      (cstr s).toList.drop 5, mem_lang_opt.2 ?_, List.take_append_drop _ _⟩
    · rw [List.length_take]
      omega
    · exact hdigits c (List.mem_of_mem_take hc)
    · rcases hlen with hlen | hlen
      · exact Or.inr (List.drop_eq_nil_of_le hlen.le)
      · left
        have hone : ((cstr s).toList.drop 5).length = 1 := by
          rw [List.length_drop, hlen]
        obtain ⟨c, hc⟩ := List.length_eq_one_iff.1 hone
        rw [hc]
        exact ⟨c, hdigits c (List.mem_of_mem_drop (hc ▸ List.mem_singleton_self c)), rfl⟩

theorem matchesCStr_bitRate {s : String} :
    matchesCStr bitRateRegexp s = true ↔ IsBitRate (cstr s) := by
  rw [matchesCStr, isMatch_iff, bitRateRegexp, mem_lang_seq, IsBitRate]
  constructor
  · rintro ⟨whole, hwhole, rest, hrest, hs⟩
    obtain ⟨decimals, hdecimals, tail, htail, rfl⟩ := mem_lang_seq.1 hrest
    obtain ⟨space, hspace, unit, hunit, rfl⟩ := mem_lang_seq.1 htail
    obtain rfl := mem_lang_char.1 hspace
    obtain ⟨r, hr, hru⟩ := mem_lang_oneOf.1 hunit
    have hunits : ∃ u ∈ ["bps", "Kbps", "Mbps", "Gbps", "Tbps"], r = lit u := by
      simpa using hr
    obtain ⟨u, hu, rfl⟩ := hunits
    obtain rfl := mem_lang_lit.1 hru
    refine ⟨whole, decimals, u, mem_lang_plus_cls.1 hwhole, ?_, hu, ?_⟩
    · rcases mem_lang_opt.1 hdecimals with hdecimals | rfl
      · obtain ⟨point, hpoint, ds, hds, rfl⟩ := mem_lang_seq.1 hdecimals
        obtain rfl := mem_lang_char.1 hpoint
        exact Or.inr ⟨ds, mem_lang_plus_cls.1 hds, rfl⟩
      · exact Or.inl rfl
    · rw [← hs, List.append_assoc]
      rfl
  · rintro ⟨whole, decimals, u, hwhole, hdecimals, hu, hs⟩
    have hlist : (cstr s).toList = whole ++ (decimals ++ ([' '] ++ u.toList)) := by
      rw [hs, List.append_assoc]
      rfl
    have hunit : u.toList ∈
        (oneOf [lit "bps", lit "Kbps", lit "Mbps", lit "Gbps", lit "Tbps"]).lang := by
      refine mem_lang_oneOf.2 ⟨lit u, ?_, mem_lang_lit.2 rfl⟩
      simpa using List.mem_map_of_mem (f := lit) hu
    refine ⟨whole, mem_lang_plus_cls.2 hwhole, _, mem_lang_seq.2 ⟨decimals, ?_, _,
      mem_lang_seq.2 ⟨[' '], mem_lang_char.2 rfl, _, hunit, rfl⟩, rfl⟩, hlist.symm⟩
    rcases hdecimals with rfl | ⟨ds, hds, rfl⟩
    · exact mem_lang_opt.2 (Or.inr rfl)
    · refine mem_lang_opt.2 (Or.inl ?_)
      exact mem_lang_seq.2 ⟨['.'], mem_lang_char.2 rfl, ds, mem_lang_plus_cls.2 hds, rfl⟩

/-! ## What the rules ask of a set -/

variable {V : Type}

/-- `P` holds of the identifier of a set, and `Q` of both rates of each of its `sessionAmbr`s. -/
structure SetWith (P Q : String → Prop) (s : PlmnIdSets V) : Prop where
  identifier : P s.plmnIdSetIdentifier
  rates : ∀ l ∈ s.dnnLists, ∀ d ∈ l.dnnDataList, d.fieldExistence.hasSessionAmbr = true →
    Q d.sessionAmbr.uplink ∧ Q d.sessionAmbr.downlink

/-- Identifier and rates are in their formats, unless they are empty. -/
abbrev SetAccepted : PlmnIdSets V → Prop :=
  SetWith (fun s => s ≠ "" → IsPlmnIdSetIdentifier (cstr s)) (fun s => s ≠ "" → IsBitRate (cstr s))

section

variable {ind : Indeterminate} {resourcePath : String}

theorem ret_formatRule_bitRate {field parent s : String} :
    (formatRule resourcePath field parent s (matchesCStr bitRateRegexp)).ret = true ↔
      (s ≠ "" → IsBitRate (cstr s)) := by
  rw [formatRule, ret_failIf, ← matchesCStr_bitRate, not_and, Bool.not_eq_false]

/-- The rules for a DNN ask for the format of the rates that are not empty. -/
theorem rates_of_dnnDataRules {d : DnnData V} (h : (dnnDataRules ind resourcePath d).ret = true)
    (has : d.fieldExistence.hasSessionAmbr = true) :
    (d.sessionAmbr.uplink ≠ "" → IsBitRate (cstr d.sessionAmbr.uplink)) ∧
      (d.sessionAmbr.downlink ≠ "" → IsBitRate (cstr d.sessionAmbr.downlink)) := by
  rw [dnnDataRules, ret_inOrder] at h
  simp only [List.forall_mem_cons, ret_guard] at h
  have hambr := h.2.2.2.2.1 has
  rw [sessionAmbrRules, ret_inOrder] at hambr
  simp only [List.forall_mem_cons, ret_formatRule_bitRate] at hambr
  exact ⟨hambr.1, hambr.2.1⟩

/-- The rules for a set ask for the formats of what is not empty. -/
theorem setWith_of_plmnIdSetRules {isSliceProfile : Bool} {s : PlmnIdSets V}
    (h : (plmnIdSetRules ind isSliceProfile resourcePath s).ret = true) :
    SetAccepted s := by
  rw [plmnIdSetRules, ret_inOrder] at h
  simp only [List.forall_mem_cons, ret_guard, ret_forEach, ret_failIf, ret_inOrder] at h
  obtain ⟨hidentifier, -, -, hlists, -⟩ := h
  rw [not_and, Bool.not_eq_false, matchesCStr_plmnIdSetIdentifier] at hidentifier
  refine ⟨hidentifier, fun l hl d hd has => ?_⟩
  have hlist := (hlists (List.ne_nil_of_mem hl)).1 l hl
  rw [dnnListRules, ret_inOrder] at hlist
  simp only [List.forall_mem_cons, ret_forEach] at hlist
  exact rates_of_dnnDataRules (hlist.1 d hd) has

/-- The rules for a list of sets are the rules for each of them, and more. -/
theorem accepted_of_commonRules {isSliceProfile : Bool} {sets : List (PlmnIdSets V)}
    (h : (checkForCommonUdmSliceProfileRules ind sets isSliceProfile resourcePath).ret = true) :
    ∀ s ∈ sets, SetAccepted s := by
  rw [checkForCommonUdmSliceProfileRules, ret_inOrder] at h
  simp only [List.forall_mem_cons, ret_forEach] at h
  exact fun s hs => setWith_of_plmnIdSetRules (h.1 s hs)

end

/-- The rules for the rates of a subscription ask for their format in any case. -/
theorem ret_subscribedUeAmbrRules {resourcePath : String} {ambr : Ambr V} :
    (subscribedUeAmbrRules resourcePath ambr).ret = true ↔
      IsBitRate (cstr ambr.uplink) ∧ IsBitRate (cstr ambr.downlink) := by
  rw [subscribedUeAmbrRules, ret_inOrder]
  simp only [List.forall_mem_cons, List.not_mem_nil, false_implies, implies_true, and_true,
    ret_failIf, Bool.not_eq_false, matchesCStr_bitRate]

/-! ## Accepted changes -/

/-- The sets of a change: those of its profile, or of its slice data. -/
def setsOf (c : Change V) : List (PlmnIdSets V) :=
  if isUdmSliceProfile c.resourcePath = true then c.udmSliceProfile.plmnIdSets
  else if isUdmStaticData c.resourcePath = true ∧
      c.udmStaticData.fieldExistence.hasUdmSliceData = true then
    c.udmStaticData.udmSliceData.plmnIdSets
  else []

/-- The rules accept the sets of an accepted change. -/
theorem setsOf_accepted {ind : Indeterminate} {rr : RelatedResources V} {c : Change V}
    (h : accepted ind rr c = true) (hop : Delivers c) : ∀ s ∈ setsOf c, SetAccepted s := by
  unfold setsOf
  split_ifs with hprofile hstatic
  · have hrules := commonSliceProfileRules_of_accepted h hprofile hop
    rw [commonSliceProfileRules, ret_guard] at hrules
    exact fun s hs => accepted_of_commonRules (hrules (List.ne_nil_of_mem hs)) s hs
  · obtain ⟨profile, -, hcommon⟩ := profile_of_accepted h hstatic.1 hop
    have hrules := ret_udmSliceDataRules_of_common hcommon hstatic.2
    rw [udmSliceDataRules, ret_inOrder] at hrules
    simp only [List.forall_mem_cons, ret_guard] at hrules
    exact fun s hs => accepted_of_commonRules (hrules.1 (List.ne_nil_of_mem hs)) s hs
  · exact List.forall_mem_nil _

/-! ## The texts in a request -/

/-- A text that must be there: where the objects that have it stand in a set, its name, and its
format. -/
structure CheckedText where
  path : List Step
  key : String
  Format : String → Prop

/-- The mandatory texts with a format. -/
def checkedTexts : List CheckedText := [
  ⟨[], jsonPlmnIdSetIdentifier, IsPlmnIdSetIdentifier⟩,
  ⟨sessionAmbrs, jsonUplink, IsBitRate⟩,
  ⟨sessionAmbrs, jsonDownlink, IsBitRate⟩]

namespace CheckedText

variable (m : CheckedText)

/-- A text in the format. -/
def Is (w : Json) : Prop := ∃ s, w = .str s ∧ m.Format s

/-- The text is there, and in its format in every member of the name. -/
def Formatted (u : Json) : Prop := u.membersNamed m.key ≠ [] ∧ ∀ w ∈ u.membersNamed m.key, m.Is w

/-- The first member of the name is not empty and has no NUL; any others are in the format. -/
def Plain (u : Json) : Prop :=
  (∀ s, u.member? m.key = some (.str s) → s ≠ "" ∧ NulFree s) ∧
    ∀ w ∈ (u.membersNamed m.key).tail, m.Is w

/-- What is known of the objects that are found: the text is there, and if it is not empty, its part
up to a NUL is in the format. -/
def Accepted (u : Json) : Prop :=
  ∃ s, u.member? m.key = some (.str s) ∧ (cstr s ≠ "" → m.Format (cstr s))

variable {m}

theorem formatted_iff_of_accepted {u : Json} (hformat : ∀ s, m.Format s → s ≠ "" ∧ NulFree s)
    (h : m.Accepted u) : m.Formatted u ↔ m.Plain u := by
  obtain ⟨s, hs, haccepted⟩ := h
  rw [Formatted, membersNamed_eq hs, Plain, hs, List.forall_mem_cons,
    and_iff_right (List.cons_ne_nil _ _)]
  refine and_congr_left fun _ => ?_
  constructor
  · rintro ⟨s', hs', hformatted⟩ t ht
    obtain rfl := Json.str.inj (Option.some.inj ht)
    obtain rfl := Json.str.inj hs'
    exact hformat s hformatted
  · intro hplain
    obtain ⟨hne, hnul⟩ := hplain s rfl
    have hcstr := cstr_eq_self.2 hnul
    rw [hcstr] at haccepted
    exact ⟨s, rfl, haccepted hne⟩

end CheckedText

/-- All mandatory texts that stand in the set are in their formats. -/
def SetFormatted (v : Json) : Prop :=
  ∀ m ∈ checkedTexts, ∀ u ∈ v.standing m.path, m.Formatted u

/-- The mandatory texts that are found in the set are not empty and have no NUL; all the others are
in their formats. -/
def SetPlain (v : Json) : Prop := ∀ m ∈ checkedTexts, ∀ u ∈ v.standing m.path,
  (u ∈ v.found m.path → m.Plain u) ∧ (u ∉ v.found m.path → m.Formatted u)

theorem digits_nulFree {w : List Char} (h : ∀ c ∈ w, c.isDigit = true) : '\x00' ∉ w :=
  fun hmem => absurd (h _ hmem) (by decide)

theorem IsPlmnIdSetIdentifier.plain {s : String} (h : IsPlmnIdSetIdentifier s) :
    s ≠ "" ∧ NulFree s := by
  rcases h with ⟨hlength, hdigits⟩ | rfl
  · refine ⟨?_, digits_nulFree hdigits⟩
    rintro rfl
    simp at hlength
  · exact ⟨by decide, by decide⟩

theorem IsBitRate.plain {s : String} (h : IsBitRate s) : s ≠ "" ∧ NulFree s := by
  obtain ⟨whole, decimals, u, ⟨hne, hwhole⟩, hdecimals, hu, hs⟩ := h
  refine ⟨?_, ?_⟩
  · rintro rfl
    simp at hs
  · have hdecimal : '\x00' ∉ decimals := by
      rcases hdecimals with rfl | ⟨ds, ⟨-, hds⟩, rfl⟩
      · exact List.not_mem_nil
      · exact fun hmem => (List.mem_cons.1 hmem).elim (by decide) (digits_nulFree hds)
    have hunits : ∀ u ∈ ["bps", "Kbps", "Mbps", "Gbps", "Tbps"], '\x00' ∉ u.toList := by decide
    rw [NulFree, hs]
    simp only [List.mem_append, List.mem_cons, not_or]
    exact ⟨⟨digits_nulFree hwhole, hdecimal⟩, by decide, hunits u hu⟩

theorem plain_of_format : ∀ m ∈ checkedTexts, ∀ s, m.Format s → s ≠ "" ∧ NulFree s := by
  simp only [checkedTexts, List.forall_mem_cons]
  exact ⟨fun _ h => h.plain, fun _ h => h.plain, fun _ h => h.plain, List.forall_mem_nil _⟩

/-- A set whose texts are accepted where they are found. -/
theorem setFormatted_iff {v : Json}
    (h : ∀ m ∈ checkedTexts, ∀ u ∈ v.found m.path, m.Accepted u) :
    SetFormatted v ↔ SetPlain v := by
  refine forall₂_congr fun m hm => forall₂_congr fun u hu => ?_
  have hiff := fun hfound => CheckedText.formatted_iff_of_accepted (plain_of_format m hm)
    (h m hm u hfound)
  by_cases hfound : u ∈ v.found m.path
  · simp [hfound, hiff hfound]
  · simp [hfound]

theorem TextRead.accepted {m : CheckedText} {u : Json} {s : String} (h : TextRead m.key u s)
    (haccepted : s ≠ "" → m.Format (cstr s)) : m.Accepted u := by
  obtain ⟨t, ht, rfl⟩ := h
  rw [cstr_cstr] at haccepted
  exact ⟨t, ht, haccepted⟩

/-- The texts that are found in an element that an accepted set was read from. -/
theorem accepted_of_readSets {val : Json → V} {xs : List Json} {sets : List (PlmnIdSets V)}
    (h : ReadSets val xs sets) (haccepted : ∀ s ∈ sets, SetAccepted s) {v : Json} (hv : v ∈ xs) :
    ∀ m ∈ checkedTexts, ∀ u ∈ v.found m.path, m.Accepted u := by
  obtain ⟨s, hs, hidentifier, hrates⟩ := texts_of_readSets h hv
  have hset := haccepted s hs
  simp only [checkedTexts, List.forall_mem_cons, mem_found_nil, forall_eq]
  refine ⟨hidentifier.accepted hset.identifier, fun u hu => ?_, fun u hu => ?_,
    List.forall_mem_nil _⟩
  · obtain ⟨l, hl, d, hd, has, huplink, -⟩ := hrates u hu
    exact huplink.accepted (hset.rates l hl d hd has).1
  · obtain ⟨l, hl, d, hd, has, -, hdownlink⟩ := hrates u hu
    exact hdownlink.accepted (hset.rates l hl d hd has).2

/-! ## The sets in a request -/

/-- A set in the data of a change that creates or updates a slice profile or static data, whichever
of its members say so, and wherever the data stand. -/
def ProvisionedSet (x v : Json) : Prop :=
  Provisions x ∧ ∃ resourcePath ∈ changeTexts jsonResourcePath x,
    ∃ m ∈ changeMembers x, cstr m.1 = jsonData ∧
    (isUdmSliceProfile resourcePath = true ∧
        v ∈ m.2.standing [.member jsonPlmnIdSets, .elements] ∨
      isUdmStaticData resourcePath = true ∧
        v ∈ m.2.standing [.member jsonUdmSliceData, .member jsonPlmnIdSets, .elements])

/-- A set that the rules are applied to: what the change has in the end is created or updated, and the
set is read last. -/
def CheckedSet (x v : Json) : Prop :=
  (changeText jsonOperation x = jsonOperationCreate ∨
    changeText jsonOperation x = jsonOperationUpdate) ∧
  (isUdmSliceProfile (changeText jsonResourcePath x) = true ∧ v ∈ profileElements x ∨
    isUdmStaticData (changeText jsonResourcePath x) = true ∧ hasSliceData x = true ∧
      v ∈ sliceDataElements x)

/-- Every mandatory text in the sets of the changes that create or update is in its format. -/
def FormatsKept (doc : Json) : Prop :=
  ∀ x ∈ doc.standing [.member jsonChanges, .elements], ∀ v, ProvisionedSet x v → SetFormatted v

/-- Of the sets that the rules are applied to, the mandatory texts that are read are not empty and
have no NUL. Everything else is in its format. -/
def NothingSlipsThrough (doc : Json) : Prop :=
  ∀ x ∈ doc.standing [.member jsonChanges, .elements], ∀ v, ProvisionedSet x v →
    (x ∈ requestChanges doc ∧ CheckedSet x v → SetPlain v) ∧
    (¬ (x ∈ requestChanges doc ∧ CheckedSet x v) → SetFormatted v)

/-- A set that is checked in an accepted change. -/
theorem checkedSet_accepted {ind : Indeterminate} {rr : RelatedResources V} {val : Json → V}
    {x v : Json} {c : Change V} (hread : ReadFrom val Quiet x c) (h : accepted ind rr c = true)
    (hv : CheckedSet x v) : SetFormatted v ↔ SetPlain v := by
  obtain ⟨hop, hpath⟩ := header_of_read hread.1 hread.2
  obtain ⟨hdelivers, hset⟩ := hv
  rw [← hop] at hdelivers
  have haccepted := setsOf_accepted h hdelivers
  rw [← hpath] at hset
  rw [setsOf] at haccepted
  rcases hset with ⟨hprofile, hmem⟩ | ⟨hstatic, hhas, hmem⟩
  · rw [if_pos hprofile] at haccepted
    exact setFormatted_iff (accepted_of_readSets (readSets_profile hread) haccepted hmem)
  · have hprofile : ¬ isUdmSliceProfile c.resourcePath = true := fun hprofile => by
      cases ResourceKind.eq_of_routes .udmStaticData .udmSliceProfile hstatic hprofile
    obtain ⟨hsets, hflag⟩ := readSets_sliceData hread
    rw [if_neg hprofile, if_pos ⟨hstatic, hflag.trans hhas⟩] at haccepted
    exact setFormatted_iff (accepted_of_readSets hsets haccepted hmem)

/-- **When accepted sets are formatted.** In a request that is answered with 200, identifiers and
rates are in their formats exactly when nothing slips through: of those that are read, none is empty
or goes on behind a NUL, and those that are not read are in their formats. -/
theorem accepted_formats_iff {oai : OaiValidator} {ind : Indeterminate} {doc : Json} {a : Answer}
    (h : handleHttp2Request oai ind (some doc) = some a) (hok : a.status = httpOk) :
    FormatsKept doc ↔ NothingSlipsThrough doc := by
  obtain ⟨data, events, st, hanswer⟩ := answeredOk h hok
  have hagrees := agrees_applyValidationRules hanswer.rules
  have haccepted := hagrees.ret_iff.1 hanswer.accepted
  have hread := forall₂_read (yields_quiet hanswer.read hanswer.quiet) hanswer.ret
  refine forall₂_congr fun x _ => forall₂_congr fun v _ => ?_
  by_cases hv : x ∈ requestChanges doc ∧ CheckedSet x v
  · obtain ⟨c, hc, hx⟩ := exists_of_forall₂ hread.flip x hv.1
    have hiff := checkedSet_accepted hx (haccepted c hc) hv.2
    simp only [hv, hiff, and_self, true_imp_iff, not_true_eq_false, false_imp_iff, and_true]
  · simp only [hv, false_imp_iff, true_and, not_false_eq_true, forall_const]

/-! ## An empty identifier -/

/-- A list with one DNN that has rates. -/
def listWithRates : Json := .obj [("dnnListId", .str "Default"), ("dnnDataList", .arr [
  .obj [("dnn", .str "d"), ("defaultDnnIndicator", .bool true),
    ("sessionAmbr", .obj [("uplink", .str "1 Mbps"), ("downlink", .str "1.5 Gbps")])]])]

/-- The default set and one more. -/
def setsWith (identifier : String) : List Json := [
  .obj [("plmnIdSetIdentifier", .str "Default"), ("dnnLists", .arr [])],
  .obj [("plmnIdSetIdentifier", .str identifier), ("dnnLists", .arr [listWithRates])]]

/-- The change that creates a profile with these sets. -/
def creationWith (identifier : String) : Json :=
  .obj [("operation", .str "CREATE"),
    ("resource_path", .str "/profiles/udmProfiles/udmSliceProfiles/a"),
    ("data", .obj [("plmnIdSets", .arr (setsWith identifier))])]

def profileWithSet (identifier : String) : Json :=
  .obj [("changes", .arr [creationWith identifier])]

theorem isUdmSliceProfile_a :
    isUdmSliceProfile "/profiles/udmProfiles/udmSliceProfiles/a" = true := by
  decide +kernel

theorem standing_setsWith (identifier : String) :
    (Json.obj [("plmnIdSets", .arr (setsWith identifier))]).standing
      [.member jsonPlmnIdSets, .elements] = setsWith identifier := by
  simp [standing, membersNamed, members, getArray, jsonPlmnIdSets]

theorem standing_profileWithSet (identifier : String) :
    (profileWithSet identifier).standing [.member jsonChanges, .elements] =
      [creationWith identifier] := by
  simp [standing, membersNamed, members, getArray, jsonChanges, profileWithSet]

theorem provisionedSet_creationWith_iff {identifier : String} {v : Json} :
    ProvisionedSet (creationWith identifier) v ↔ v ∈ setsWith identifier := by
  have hoperation : cstr "operation" ≠ jsonData := by decide
  have hpath : cstr "resource_path" ≠ jsonData := by decide
  have hdata : cstr "data" = jsonData := by decide
  constructor
  · rintro ⟨-, path, htext, m, hm, hname, hset⟩
    have htexts : changeTexts jsonResourcePath (creationWith identifier) =
        ["/profiles/udmProfiles/udmSliceProfiles/a"] := by
      have hoperation : cstr "operation" ≠ jsonResourcePath := by decide
      have hpath : cstr "resource_path" = jsonResourcePath := by decide
      have hdata : cstr "data" ≠ jsonResourcePath := by decide
      have htext : cstr "/profiles/udmProfiles/udmSliceProfiles/a" =
          "/profiles/udmProfiles/udmSliceProfiles/a" := by decide
      simp [changeTexts, changeMembers, creationWith, members, textOf, asString, hoperation, hpath,
        hdata, htext]
    rw [htexts, List.mem_singleton] at htext
    subst htext
    rcases List.mem_cons.1 hm with rfl | hm
    · exact absurd hname hoperation
    rcases List.mem_cons.1 hm with rfl | hm
    · exact absurd hname hpath
    obtain rfl := List.mem_singleton.1 hm
    rcases hset with ⟨-, hmem⟩ | ⟨hstatic, -⟩
    · rwa [standing_setsWith] at hmem
    · cases ResourceKind.eq_of_routes .udmStaticData .udmSliceProfile hstatic isUdmSliceProfile_a
  · intro hv
    refine ⟨⟨"CREATE", List.mem_cons_self, Or.inl rfl⟩, _, List.mem_cons_self, _,
      List.mem_cons_of_mem _ (List.mem_cons_of_mem _ List.mem_cons_self), hdata,
      Or.inl ⟨isUdmSliceProfile_a, ?_⟩⟩
    rw [standing_setsWith]
    exact hv

/-- A text that is the only member of its name. -/
theorem CheckedText.Plain.of_single {m : CheckedText} {u : Json} {s : String}
    (h : u.membersNamed m.key = [.str s]) (hne : s ≠ "") (hnul : NulFree s) : m.Plain u := by
  refine ⟨fun t ht => ?_, by simp [h]⟩
  rw [← head?_membersNamed, h, List.head?_cons, Option.some.injEq, Json.str.injEq] at ht
  exact ht ▸ ⟨hne, hnul⟩

theorem setPlain_setsWith : ∀ v ∈ setsWith "21401", SetPlain v := by
  -- in these sets a decoder finds all that stands there
  have hfound : ∀ v ∈ setsWith "21401", ∀ m ∈ checkedTexts, v.standing m.path = v.found m.path := by
    simp only [setsWith, checkedTexts, List.forall_mem_cons]
    exact ⟨⟨rfl, rfl, rfl, List.forall_mem_nil _⟩, ⟨rfl, rfl, rfl, List.forall_mem_nil _⟩,
      List.forall_mem_nil _⟩
  have hplain : ∀ v ∈ setsWith "21401", ∀ m ∈ checkedTexts, ∀ u ∈ v.found m.path, m.Plain u := by
    simp only [setsWith, checkedTexts, List.forall_mem_cons]
    refine ⟨⟨?_, ?_, ?_, List.forall_mem_nil _⟩, ⟨?_, ?_, ?_, List.forall_mem_nil _⟩,
      List.forall_mem_nil _⟩
    · exact List.forall_mem_singleton.2 (.of_single rfl (by decide) (by decide))
    · exact List.forall_mem_nil _
    · exact List.forall_mem_nil _
    · exact List.forall_mem_singleton.2 (.of_single rfl (by decide) (by decide))
    · exact List.forall_mem_singleton.2 (.of_single rfl (by decide) (by decide))
    · exact List.forall_mem_singleton.2 (.of_single rfl (by decide) (by decide))
  intro v hv m hm u hu
  rw [hfound v hv m hm] at hu
  exact ⟨fun _ => hplain v hv m hm u hu, fun hnot => absurd hu hnot⟩

/-- With an identifier of five digits the request is accepted, and formatted. -/
theorem accepted_formats_iff_five_digits : ∃ a,
    handleHttp2Request passAll ⟨0, false⟩ (some (profileWithSet "21401")) = some a ∧
      a.status = httpOk ∧ FormatsKept (profileWithSet "21401") := by
  have hok : (handleHttp2Request passAll ⟨0, false⟩ (some (profileWithSet "21401"))).map
      (·.status) = some httpOk := by
    decide +kernel
  obtain ⟨a, ha, hok⟩ := Option.map_eq_some_iff.1 hok
  refine ⟨a, ha, hok, (accepted_formats_iff ha hok).2 fun x hx v hv => ?_⟩
  rw [standing_profileWithSet, List.mem_singleton] at hx
  subst hx
  rw [provisionedSet_creationWith_iff] at hv
  have hchecked : CheckedSet (creationWith "21401") v := by
    refine ⟨Or.inl rfl, Or.inl ⟨isUdmSliceProfile_a, ?_⟩⟩
    have helements : profileElements (creationWith "21401") = setsWith "21401" := by
      rfl
    exact helements ▸ hv
  have hread : creationWith "21401" ∈ requestChanges (profileWithSet "21401") := List.mem_cons_self
  exact ⟨fun _ => setPlain_setsWith v hv, fun hnot => absurd ⟨hread, hchecked⟩ hnot⟩

/-- An empty identifier is accepted. -/
theorem empty_identifier_accepted : ∃ doc a, Admitted doc ∧
    handleHttp2Request passAll ⟨0, false⟩ (some doc) = some a ∧ a.status = httpOk ∧
      ¬ FormatsKept doc := by
  have hok : (handleHttp2Request passAll ⟨0, false⟩ (some (profileWithSet ""))).map
      (·.status) = some httpOk := by
    decide +kernel
  obtain ⟨a, ha, hok⟩ := Option.map_eq_some_iff.1 hok
  refine ⟨profileWithSet "", a, admitted_oneChange (Or.inl rfl) _ ⟨_, rfl⟩, ha, hok, fun h => ?_⟩
  have hx : creationWith "" ∈ (profileWithSet "").standing [.member jsonChanges, .elements] := by
    rw [standing_profileWithSet]
    exact List.mem_cons_self
  have hset := h _ hx _ (provisionedSet_creationWith_iff.2
    (List.mem_cons_of_mem _ List.mem_cons_self))
  have hidentifier := (hset _ List.mem_cons_self _ List.mem_cons_self).2 (.str "")
    List.mem_cons_self
  obtain ⟨s, hs, hformat⟩ := hidentifier
  obtain rfl := Json.str.inj hs
  exact (IsPlmnIdSetIdentifier.plain hformat).1 rfl

end ProvisioningValidator
