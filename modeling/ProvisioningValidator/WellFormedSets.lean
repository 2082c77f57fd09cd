import Mathlib
import ProvisioningValidator.AcceptedFormats

/-!
# Well-formed sets

What `checkForCommonUdmSliceProfileRules` asks for, level by level of its loops, as predicates
that do not mention the rules:

* `DnnWellFormed`, `ListWellFormed` — a DNN, and a list of them;
* `NssaiWellFormed` — an entry of `defaultSingleNssais` or of `singleNssais`;
* `SetWellFormed`, `SetsWellFormed` — a set, and all of them.

Texts that are matched through `c_str()` are described by what is in front of the first NUL, which
is all of a text that was read from a document.

**Theorem (`well_formed_sets_accepted`).** The rules append no error exactly for well-formed sets.
-/

namespace ProvisioningValidator

open Lib Lib.Regex Checked

variable {V : Type}

/-! ## Formats -/

/-- A decimal digit, or one of the letters `A` to `F` in either case. -/
def IsHexDigit (c : Char) : Prop :=
  ('A' ≤ c ∧ c ≤ 'F') ∨ ('a' ≤ c ∧ c ≤ 'f') ∨ ('0' ≤ c ∧ c ≤ '9')

instance (c : Char) : Decidable (IsHexDigit c) :=
  inferInstanceAs (Decidable (('A' ≤ c ∧ c ≤ 'F') ∨ ('a' ≤ c ∧ c ≤ 'f') ∨ ('0' ≤ c ∧ c ≤ '9')))

/-- So many hexadecimal digits. -/
def HexDigits (n : ℕ) (w : List Char) : Prop := w.length = n ∧ ∀ c ∈ w, IsHexDigit c

/-- Five groups of hexadecimal digits with hyphens between them. -/
def IsUuid (s : String) : Prop :=
  ∃ a b c d e, HexDigits 8 a ∧ HexDigits 4 b ∧ HexDigits 4 c ∧ HexDigits 4 d ∧ HexDigits 12 e ∧
    s.toList = a ++ '-' :: (b ++ '-' :: (c ++ '-' :: (d ++ '-' :: e)))

theorem lang_hexDigit : hexDigit.lang = (cls fun c => decide (IsHexDigit c)).lang := by
  ext w
  rw [hexDigit, mem_lang_oneOf, mem_lang_cls]
  simp only [List.mem_cons, List.not_mem_nil, or_false, exists_eq_or_imp, exists_eq_left,
    mem_lang_range, IsHexDigit]
  grind

theorem mem_lang_times_hexDigit {n : ℕ} {w : List Char} :
    w ∈ (times n hexDigit).lang ↔ HexDigits n w := by
  rw [lang_times_congr lang_hexDigit, mem_lang_times_cls, HexDigits]
  simp only [decide_eq_true_eq]

theorem matchesCStr_sd {s : String} :
    matchesCStr sdRegexp s = true ↔ HexDigits 6 (cstr s).toList := by
  rw [matchesCStr, isMatch_iff, sdRegexp, mem_lang_times_hexDigit]

theorem validChargingCharacteristics_iff {s : String} :
    validChargingCharacteristics s = true ↔ HexDigits 4 s.toList := by
  rw [validChargingCharacteristics, Bool.and_eq_true, isMatch_iff,
    threegppChargingCharacteristicsRegex, mem_lang_times_hexDigit, beq_iff_eq,
    ← String.length_toList]
  exact and_iff_left_of_imp fun h => h.1

/-- A group of digits, a hyphen, and the rest. -/
theorem mem_lang_hexGroup {n : ℕ} {r : Regex} {w : List Char} :
    w ∈ (seq (times n hexDigit) (seq (char '-') r)).lang ↔
      ∃ a, HexDigits n a ∧ ∃ rest, rest ∈ r.lang ∧ w = a ++ '-' :: rest := by
  rw [mem_lang_seq]
  constructor
  · intro h
    obtain ⟨a, ha, b, hb, hw⟩ := h
    obtain ⟨hyphen, hhyphen, rest, hrest, rfl⟩ := mem_lang_seq.1 hb
    obtain rfl := mem_lang_char.1 hhyphen
    exact ⟨a, mem_lang_times_hexDigit.1 ha, rest, hrest, hw.symm⟩
  · intro h
    obtain ⟨a, ha, rest, hrest, hw⟩ := h
    refine ⟨a, mem_lang_times_hexDigit.2 ha, '-' :: rest, ?_, hw.symm⟩
    exact mem_lang_seq.2 ⟨['-'], mem_lang_char.2 rfl, rest, hrest, rfl⟩

theorem matchesCStr_uuid {s : String} : matchesCStr uuidRegex s = true ↔ IsUuid (cstr s) := by
  rw [matchesCStr, isMatch_iff, uuidRegex, IsUuid]
  simp only [mem_lang_hexGroup, mem_lang_times_hexDigit]
  grind

/-! ## Modes -/

/-- Pairwise distinct, and each of them one of `valid`. -/
def DistinctModes (valid modes : List String) : Prop := modes.Nodup ∧ ∀ m ∈ modes, m ∈ valid

/-- The SSC modes. -/
def sscModeValues : List String := [jsonSscMode1, jsonSscMode2, jsonSscMode3]

/-- The types of a PDU session. -/
def sessionTypeValues : List String :=
  [jsonIpv4, jsonIpv6, jsonIpv4V6, jsonUnstructured, jsonEthernet]

theorem ret_checkRepeated {description resourcePath elem : String} {met : List String} :
    (checkRepeated description resourcePath met elem).1.ret = true ↔ elem ∉ met := by
  rw [checkRepeated]
  by_cases hmem : elem ∈ met
  · rw [if_pos (List.one_le_count_iff.2 hmem)]
    simp [violation, hmem]
  · rw [if_neg fun hcount => hmem (List.one_le_count_iff.1 hcount)]
    simp [hmem]

theorem met_checkRepeated {description resourcePath elem : String} {met : List String}
    (h : elem ∉ met) : (checkRepeated description resourcePath met elem).2 = met ++ [elem] := by
  rw [checkRepeated, if_neg fun hcount => h (List.one_le_count_iff.1 hcount)]

/-- The loop over the allowed modes, behind those met before. -/
theorem ret_checkAllowedModes {resourcePath field parent description : String}
    {valid met modes : List String} (hmet : met.Nodup) :
    (checkAllowedModes resourcePath field parent valid (checkRepeated description resourcePath)
        met modes).ret = true ↔ (met ++ modes).Nodup ∧ ∀ m ∈ modes, m ∈ valid := by
  induction modes generalizing met with
  | nil => simpa [checkAllowedModes] using hmet
  | cons m modes ih =>
    rw [checkAllowedModes]
    by_cases hvalid : m ∈ valid
    · rw [if_neg (not_not.2 hvalid), ret_append, Bool.and_eq_true, ret_checkRepeated]
      have hsplit : met ++ m :: modes = (met ++ [m]) ++ modes := by simp
      by_cases hmem : m ∈ met
      · -- a mode that was met is repeated in the whole
        have hrepeated : ¬ (met ++ m :: modes).Nodup := by
          rw [List.nodup_middle, List.nodup_cons]
          exact fun h => h.1 (List.mem_append_left modes hmem)
        exact ⟨fun h => absurd hmem h.1, fun h => absurd h.1 hrepeated⟩
      · have hnodup : (met ++ [m]).Nodup := by
          rw [← List.concat_eq_append, List.nodup_concat]
          exact ⟨hmem, hmet⟩
        rw [met_checkRepeated hmem, ih hnodup, hsplit, List.forall_mem_cons]
        exact ⟨fun h => ⟨h.2.1, hvalid, h.2.2⟩, fun h => ⟨hmem, h.1, h.2.2⟩⟩
    · rw [if_pos hvalid]
      exact ⟨fun h => by simp [violation] at h,
        fun h => absurd (h.2 m List.mem_cons_self) hvalid⟩

/-- The check of a required mode, and what it leaves for the loop. -/
theorem checkDefaultMode_spec {resourcePath field parent description elem : String}
    {valid : List String} (hempty : "" ∉ valid) :
    let r := checkDefaultMode resourcePath field parent elem valid
      (checkRepeated description resourcePath)
    (r.1.ret = true ↔ elem ∈ valid) ∧ (elem ∈ valid → r.2 = [elem]) := by
  intro r
  by_cases hvalid : elem ∈ valid
  · have hne : elem ≠ "" := fun he => hempty (he ▸ hvalid)
    have hr : r = checkRepeated description resourcePath [] elem :=
      (if_neg hne).trans (if_neg (not_not.2 hvalid))
    have hnone : elem ∉ ([] : List String) := List.not_mem_nil
    rw [hr, ret_checkRepeated, met_checkRepeated hnone]
    exact ⟨⟨fun _ => hvalid, fun _ => hnone⟩, fun _ => rfl⟩
  · have hfalse : r.1.ret = false := by
      show (checkDefaultMode _ _ _ _ _ _).1.ret = false
      rw [checkDefaultMode]
      split_ifs
      · rfl
      · rfl
    exact ⟨by simp [hfalse, hvalid], fun h => absurd h hvalid⟩

/-- A required mode and allowed ones, checked one after the other. -/
theorem ret_modes {resourcePath field allowedField parent description elem : String}
    {valid modes : List String} (hempty : "" ∉ valid) :
    let first := checkDefaultMode resourcePath field parent elem valid
      (checkRepeated description resourcePath)
    (first.1.ret = true ∧ (checkAllowedModes resourcePath allowedField parent valid
        (checkRepeated description resourcePath) first.2 modes).ret = true) ↔
      DistinctModes valid (elem :: modes) := by
  intro first
  obtain ⟨hfirst, hmet⟩ : (first.1.ret = true ↔ elem ∈ valid) ∧ (elem ∈ valid → first.2 = [elem]) :=
    checkDefaultMode_spec hempty
  rw [hfirst, DistinctModes, List.forall_mem_cons]
  by_cases hvalid : elem ∈ valid
  · rw [hmet hvalid, ret_checkAllowedModes (List.nodup_singleton elem), List.singleton_append]
    exact ⟨fun h => ⟨h.2.1, h.1, h.2.2⟩, fun h => ⟨h.2.1, h.1, h.2.2⟩⟩
  · exact ⟨fun h => absurd h.1 hvalid, fun h => absurd h.2.1 hvalid⟩

theorem DistinctModes.length_le {valid modes : List String} (h : DistinctModes valid modes) :
    modes.length ≤ valid.length :=
  (h.1.subperm h.2).length_le

/-! ## A DNN -/

/-- The default mode and the allowed ones are distinct modes. -/
def SscModesWellFormed (m : SscModes V) : Prop :=
  DistinctModes sscModeValues (m.defaultSscMode :: m.allowedSscModes)

/-- The default type is one; where there are allowed types, some type is allowed, and default and
allowed types are distinct. -/
structure PduSessionTypesWellFormed (hasAllowedSessionTypes : Bool) (t : PduSessionTypes V) :
    Prop where
  default : t.defaultSessionType ∈ sessionTypeValues
  allowed : hasAllowedSessionTypes = true → t.allowedSessionTypes ≠ [] ∧
    DistinctModes sessionTypeValues (t.defaultSessionType :: t.allowedSessionTypes)

section

variable (ind : Indeterminate)

/-- The numbers of a QoS profile are in range, and the values of its `arp` among those there are. -/
structure QosWellFormed (p : FivegQosProfile V) : Prop where
  fiveqi : 0 ≤ ind.readInt p.fiveqi ∧ ind.readInt p.fiveqi ≤ 255
  priorityLevel : p.fieldExistence.hasPriorityLevel = true →
    1 ≤ ind.readInt p.priorityLevel ∧ ind.readInt p.priorityLevel ≤ 127
  arpPriorityLevel : 1 ≤ ind.readInt p.arp.priorityLevel ∧ ind.readInt p.arp.priorityLevel ≤ 15
  preemptCap : p.arp.preemptCap ∈ [jsonNotPreempt, jsonMayPreempt]
  preemptVuln : p.arp.preemptVuln ∈ [jsonNotPreemptable, jsonPreemptable]

/-- What is there of a DNN is well-formed. -/
structure DnnWellFormed (d : DnnData V) : Prop where
  defaultDnn : isDefaultDnn ind d = true → d.dnn ≠ "*"
  sscModes : d.fieldExistence.hasSscModes = true → SscModesWellFormed d.sscModes
  pduSessionTypes : d.fieldExistence.hasPduSessionTypes = true →
    PduSessionTypesWellFormed d.fieldExistence.hasAllowedSessionTypes d.pduSessionTypes
  fivegQosProfile : d.fieldExistence.hasFivegQosProfile = true →
    QosWellFormed ind d.fivegQosProfile
  sessionAmbr : d.fieldExistence.hasSessionAmbr = true →
    (d.sessionAmbr.uplink = "" ∨ IsBitRate (cstr d.sessionAmbr.uplink)) ∧
      (d.sessionAmbr.downlink = "" ∨ IsBitRate (cstr d.sessionAmbr.downlink))
  upSecurity : d.fieldExistence.hasUpSecurity = true →
    d.upSecurity.upIntegr ∈ ["", jsonRequired, jsonPreferred, jsonNotNeeded] ∧
      d.upSecurity.upConfid ∈ ["", jsonRequired, jsonPreferred, jsonNotNeeded]
  smfList : d.fieldExistence.hasSmfList = true →
    d.smfList ≠ [] ∧ ∀ smf ∈ d.smfList, IsUuid (cstr smf)
  chargingCharacteristics : d.threegppChargingCharacteristics = "" ∨
    HexDigits 4 d.threegppChargingCharacteristics.toList

end

theorem ret_sscModesRules {resourcePath : String} {m : SscModes V} :
    (sscModesRules resourcePath m).ret = true ↔ SscModesWellFormed m := by
  have hmodes : _ ↔ SscModesWellFormed m := @ret_modes resourcePath jsonDefaultSscMode
    jsonAllowedSscModes jsonSscModes ("There are duplicated SSC modes between in " ++
      quoted jsonDefaultSscMode ++ " and " ++ quoted jsonAllowedSscModes) m.defaultSscMode
    sscModeValues m.allowedSscModes (by decide)
  rw [← hmodes, sscModesRules, ret_inOrder]
  simp only [List.forall_mem_cons, ret_guard, List.not_mem_nil, false_implies, implies_true,
    and_true]
  refine and_congr_right fun hfirst => ⟨fun h => ?_, fun h _ => ?_⟩
  · by_cases hnone : m.allowedSscModes = []
    · rw [hnone]
      rfl
    · have hsome := h hnone
      split_ifs at hsome with hlength
      · simp [violation] at hsome
      · exact hsome
  · -- three modes in all: no more than two of them are allowed ones
    have hshort := (hmodes.1 ⟨hfirst, h⟩).length_le
    have hlength : ¬ m.allowedSscModes.length > 2 := by
      have hvalues : sscModeValues.length = 3 := rfl
      rw [List.length_cons, hvalues] at hshort
      omega
    rw [if_neg hlength]
    exact h

theorem ret_pduSessionTypesRules {resourcePath : String} {hasAllowedSessionTypes : Bool}
    {t : PduSessionTypes V} :
    (pduSessionTypesRules resourcePath hasAllowedSessionTypes t).ret = true ↔
      PduSessionTypesWellFormed hasAllowedSessionTypes t := by
  have hempty : "" ∉ sessionTypeValues := by decide
  have hdefault := (@checkDefaultMode_spec resourcePath jsonDefaultSessionType
    jsonPduSessionTypes ("There are duplicated PDU session types between in " ++
      quoted jsonDefaultSessionType ++ " and " ++ quoted jsonAllowedSessionTypes)
    t.defaultSessionType sessionTypeValues hempty).1
  have hmodes := @ret_modes resourcePath jsonDefaultSessionType jsonAllowedSessionTypes
    jsonPduSessionTypes ("There are duplicated PDU session types between in " ++
      quoted jsonDefaultSessionType ++ " and " ++ quoted jsonAllowedSessionTypes)
    t.defaultSessionType sessionTypeValues t.allowedSessionTypes hempty
  have hsize : t.allowedSessionTypes.length < 1 ↔ t.allowedSessionTypes = [] := by
    rw [Nat.lt_one_iff, List.length_eq_zero_iff]
  rw [pduSessionTypesRules, ret_inOrder]
  simp only [List.forall_mem_cons, ret_guard, List.not_mem_nil, false_implies, implies_true,
    and_true]
  constructor
  · intro h
    obtain ⟨hfirst, hallowed⟩ := h
    refine ⟨hdefault.1 hfirst, fun has => ?_⟩
    have hsome := hallowed has
    split_ifs at hsome with hlength
    · simp [violation] at hsome
    · exact ⟨fun he => hlength (hsize.2 he), hmodes.1 ⟨hfirst, hsome⟩⟩
  · intro h
    refine ⟨hdefault.2 h.default, fun has => ?_⟩
    obtain ⟨hne, hdistinct⟩ := h.allowed has
    rw [if_neg fun hlength => hne (hsize.1 hlength)]
    exact (hmodes.2 hdistinct).2

section

variable {ind : Indeterminate} {resourcePath : String}

theorem ret_formatRule {field parent s : String} {valid : String → Bool} :
    (formatRule resourcePath field parent s valid).ret = true ↔ s = "" ∨ valid s = true := by
  rw [formatRule, ret_failIf, not_and_or, not_not, Bool.not_eq_false]

theorem ret_fivegQosProfileRules {p : FivegQosProfile V} :
    (fivegQosProfileRules ind resourcePath p).ret = true ↔ QosWellFormed ind p := by
  rw [fivegQosProfileRules, ret_inOrder]
  simp only [List.forall_mem_cons, ret_guard, ret_failIf, List.not_mem_nil, false_implies,
    implies_true, and_true, not_or, not_and_or, not_not, not_lt, gt_iff_lt]
  constructor
  · intro h
    obtain ⟨hqi, hpriority, harp, hcap, hvuln⟩ := h
    exact ⟨hqi, hpriority, harp, by simpa using hcap, by simpa using hvuln⟩
  · intro h
    exact ⟨h.fiveqi, h.priorityLevel, h.arpPriorityLevel, by simpa using h.preemptCap,
      by simpa using h.preemptVuln⟩

theorem ret_sessionAmbrRules {ambr : Ambr V} :
    (sessionAmbrRules resourcePath ambr).ret = true ↔
      (ambr.uplink = "" ∨ IsBitRate (cstr ambr.uplink)) ∧
        (ambr.downlink = "" ∨ IsBitRate (cstr ambr.downlink)) := by
  rw [sessionAmbrRules, ret_inOrder]
  simp only [List.forall_mem_cons, ret_formatRule, List.not_mem_nil, false_implies, implies_true,
    and_true, matchesCStr_bitRate]

theorem ret_upSecurityRules {u : UpSecurity V} :
    (upSecurityRules resourcePath u).ret = true ↔
      u.upIntegr ∈ ["", jsonRequired, jsonPreferred, jsonNotNeeded] ∧
        u.upConfid ∈ ["", jsonRequired, jsonPreferred, jsonNotNeeded] := by
  rw [upSecurityRules, ret_inOrder]
  simp only [List.forall_mem_cons, ret_formatRule, List.not_mem_nil, false_implies, implies_true,
    and_true, decide_eq_true_eq]
  exact and_congr List.mem_cons.symm List.mem_cons.symm

theorem ret_smfListRules {smfList : List String} :
    (smfListRules resourcePath smfList).ret = true ↔
      smfList ≠ [] ∧ ∀ smf ∈ smfList, IsUuid (cstr smf) := by
  rw [smfListRules, ret_inOrder]
  simp only [List.forall_mem_cons, ret_forEach, ret_failIf, List.not_mem_nil, false_implies,
    implies_true, and_true, Bool.not_eq_false, matchesCStr_uuid, Nat.lt_one_iff,
    List.length_eq_zero_iff, ne_eq]

theorem ret_chargingCharacteristicsRule {parent s : String} :
    (formatRule resourcePath json3gppChargingCharacteristics parent s
      validChargingCharacteristics).ret = true ↔ s = "" ∨ HexDigits 4 s.toList := by
  rw [ret_formatRule, validChargingCharacteristics_iff]

theorem ret_dnnDataRules {d : DnnData V} :
    (dnnDataRules ind resourcePath d).ret = true ↔ DnnWellFormed ind d := by
  rw [dnnDataRules, ret_inOrder]
  simp only [List.forall_mem_cons, ret_guard, ret_failIf, ret_sscModesRules,
    ret_pduSessionTypesRules, ret_fivegQosProfileRules, ret_sessionAmbrRules,
    ret_upSecurityRules, ret_smfListRules, ret_chargingCharacteristicsRule, List.not_mem_nil,
    false_implies, implies_true, and_true]
  constructor
  · intro h
    obtain ⟨hdnn, hssc, hpdu, hqos, hambr, hsecurity, hsmf, hcharging⟩ := h
    exact ⟨hdnn, hssc, hpdu, hqos, hambr, hsecurity, hsmf, hcharging⟩
  · intro h
    exact ⟨h.defaultDnn, h.sscModes, h.pduSessionTypes, h.fivegQosProfile, h.sessionAmbr,
      h.upSecurity, h.smfList, h.chargingCharacteristics⟩

end

/-! ## Lists, entries and sets -/

section

variable (ind : Indeterminate)

/-- All DNNs of a list are well-formed, and one of them is the default. -/
structure ListWellFormed (l : DnnList V) : Prop where
  dnns : ∀ d ∈ l.dnnDataList, DnnWellFormed ind d
  hasDefault : ∃ d ∈ l.dnnDataList, isDefaultDnn ind d = true

/-- The numbers and texts of an entry are in their formats. -/
structure NssaiWellFormed (n : NssaiDetails V) : Prop where
  sst : 0 ≤ ind.readInt n.nssai.sst ∧ ind.readInt n.nssai.sst ≤ 255
  sd : n.nssai.sd = "" ∨ HexDigits 6 (cstr n.nssai.sd).toList
  chargingCharacteristics : n.threegppChargingCharacteristics = "" ∨
    HexDigits 4 n.threegppChargingCharacteristics.toList

/-- A set is well-formed. In a slice profile, where there are lists one of them is `Default`, and
the entries name lists of the set. -/
structure SetWellFormed (isSliceProfile : Bool) (s : PlmnIdSets V) : Prop where
  identifier : s.plmnIdSetIdentifier = "" ∨ IsPlmnIdSetIdentifier (cstr s.plmnIdSetIdentifier)
  nssais : ∀ n ∈ nssaiEntries s, NssaiWellFormed ind n
  lists : ∀ l ∈ s.dnnLists, ListWellFormed ind l
  defaultList : isSliceProfile = true → s.dnnLists ≠ [] → ListDefined s defaultValue
  references : isSliceProfile = true → ∀ n ∈ nssaiEntries s, n.dnnListId ≠ "" →
    ListDefined s n.dnnListId

/-- All sets are well-formed. In a slice profile one of them is `Default`. -/
structure SetsWellFormed (isSliceProfile : Bool) (sets : List (PlmnIdSets V)) : Prop where
  each : ∀ s ∈ sets, SetWellFormed ind isSliceProfile s
  defaultSet : isSliceProfile = true → ∃ s ∈ sets, s.plmnIdSetIdentifier = defaultValue

end

section

variable {ind : Indeterminate} {resourcePath : String}

theorem ret_dnnListRules {l : DnnList V} :
    (dnnListRules ind resourcePath l).ret = true ↔ ListWellFormed ind l := by
  rw [dnnListRules, ret_inOrder]
  simp only [List.forall_mem_cons, ret_forEach, ret_failIf, ret_dnnDataRules, List.not_mem_nil,
    false_implies, implies_true, and_true, Bool.not_eq_false, List.any_eq_true]
  exact ⟨fun h => ⟨h.1, h.2⟩, fun h => ⟨h.dnns, h.hasDefault⟩⟩

theorem ret_nssaiDetailsRules {parent : String} {n : NssaiDetails V} :
    (nssaiDetailsRules ind resourcePath parent n).ret = true ↔ NssaiWellFormed ind n := by
  rw [nssaiDetailsRules, ret_inOrder]
  simp only [List.forall_mem_cons, ret_failIf, ret_chargingCharacteristicsRule, List.not_mem_nil,
    false_implies, implies_true, and_true, not_or, not_and_or, not_not, not_lt, gt_iff_lt,
    Bool.not_eq_false, matchesCStr_sd]
  exact ⟨fun h => ⟨h.1.symm, h.2.1, h.2.2⟩,
    fun h => ⟨h.sst.symm, h.sd, h.chargingCharacteristics⟩⟩

/-- The rule for the references of a set. -/
theorem references_iff {s : PlmnIdSets V} :
    (∀ id ∈ dnnVector s, id ∈ dnnListIdVector s) ↔
      ∀ n ∈ nssaiEntries s, n.dnnListId ≠ "" → ListDefined s n.dnnListId := by
  have hlists : ∀ id, id ∈ dnnListIdVector s ↔ ListDefined s id ∧ id ≠ "" := by
    intro id
    rw [dnnListIdVector, List.mem_filter, List.mem_map, decide_eq_true_eq, ListDefined]
  have hnamed : ∀ id, id ∈ dnnVector s ↔ (∃ n ∈ nssaiEntries s, n.dnnListId = id) ∧ id ≠ "" := by
    intro id
    rw [dnnVector, List.mem_filter, List.mem_map, decide_eq_true_eq, nssaiEntries]
  simp only [hlists, hnamed]
  constructor
  · intro h n hn hid
    exact (h n.dnnListId ⟨⟨n, hn, rfl⟩, hid⟩).1
  · intro h id hid
    obtain ⟨⟨n, hn, rfl⟩, hne⟩ := hid
    exact ⟨h n hn hne, hne⟩

theorem ret_plmnIdSetRules {isSliceProfile : Bool} {s : PlmnIdSets V} :
    (plmnIdSetRules ind isSliceProfile resourcePath s).ret = true ↔
      SetWellFormed ind isSliceProfile s := by
  have hdefault : (¬ ((∀ l ∈ s.dnnLists, l.dnnListId ≠ defaultValue) ∧ isSliceProfile = true)) ↔
      (isSliceProfile = true → ListDefined s defaultValue) := by
    simp only [ListDefined]
    grind
  rw [plmnIdSetRules, ret_inOrder]
  simp only [List.forall_mem_cons, ret_guard, ret_inOrder, ret_forEach, ret_failIf,
    List.not_mem_nil, false_implies, implies_true, and_true, ret_nssaiDetailsRules,
    ret_dnnListRules, hdefault, not_not, not_and_or, Bool.not_eq_false,
    matchesCStr_plmnIdSetIdentifier, references_iff]
  constructor
  · intro h
    obtain ⟨hidentifier, hdefaults, hsingles, hlists, hreferences⟩ := h
    refine ⟨hidentifier, fun n hn => ?_, fun l hl => ?_, fun hprofile hne => ?_, hreferences⟩
    · rcases List.mem_append.1 hn with hn | hn
      · exact hdefaults n hn
      · exact hsingles n hn
    · exact (hlists (List.ne_nil_of_mem hl)).1 l hl
    · exact (hlists hne).2 hprofile
  · intro h
    refine ⟨h.identifier, fun n hn => h.nssais n (List.mem_append_left _ hn),
      fun n hn => h.nssais n (List.mem_append_right _ hn), fun hne => ⟨h.lists, fun hprofile => ?_⟩,
      h.references⟩
    exact h.defaultList hprofile hne

theorem ret_checkForCommonUdmSliceProfileRules {isSliceProfile : Bool}
    {sets : List (PlmnIdSets V)} :
    (checkForCommonUdmSliceProfileRules ind sets isSliceProfile resourcePath).ret = true ↔
      SetsWellFormed ind isSliceProfile sets := by
  rw [checkForCommonUdmSliceProfileRules, ret_inOrder]
  simp only [List.forall_mem_cons, ret_forEach, ret_failIf, ret_plmnIdSetRules, List.not_mem_nil,
    false_implies, implies_true, and_true, not_and]
  constructor
  · intro h
    refine ⟨h.1, fun hprofile => ?_⟩
    by_contra hnone
    exact h.2 (fun s hs he => hnone ⟨s, hs, he⟩) hprofile
  · intro h
    refine ⟨h.each, fun hnone hprofile => ?_⟩
    obtain ⟨s, hs, he⟩ := h.defaultSet hprofile
    exact hnone s hs he

end

/-- **The common rules accept exactly the well-formed sets**, without an error; for all others
they leave an error and `false`. -/
theorem well_formed_sets_accepted (ind : Indeterminate) (sets : List (PlmnIdSets V))
    (isSliceProfile : Bool) (resourcePath : String) :
    let r := checkForCommonUdmSliceProfileRules ind sets isSliceProfile resourcePath
    (r.ret = true ∧ r.errors = [] ↔ SetsWellFormed ind isSliceProfile sets) ∧
      (r.ret = false ∧ r.errors ≠ [] ↔ ¬ SetsWellFormed ind isSliceProfile sets) := by
  intro r
  have hret : r.ret = true ↔ SetsWellFormed ind isSliceProfile sets :=
    ret_checkForCommonUdmSliceProfileRules
  have herrors : r.ret = true ↔ r.errors = [] :=
    (reports_checkForCommonUdmSliceProfileRules ind sets isSliceProfile resourcePath).balanced.ret_iff
  rw [← hret, ← herrors, and_self, Bool.not_eq_true, Ne, ← herrors, Bool.not_eq_true, and_self]
  exact ⟨Iff.rfl, Iff.rfl⟩

end ProvisioningValidator
