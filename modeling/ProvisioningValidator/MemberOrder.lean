import Mathlib
import ProvisioningValidator.AllOrNothing
import ProvisioningValidator.VendorValues

/-!
# The order of members

Two documents that differ in the order of members only are read alike, except for the members of a
change: there `data` is read under the `resource_path` met before it, and nothing is read behind a
member that the parser gives up on. So the outcome is the same if in every change that is reached
the same data are read under the same paths (`sameOutcome_of_readAlike`).

The proof reads vendor-specific values up to the order of their members (`unordered`), where the two
runs return the very same, and carries the result over to the values that are kept.
-/

namespace ProvisioningValidator

open Lib Lib.Run Lib.Shape

variable {V : Type} {val : Json → V}

/-! ## The outcome -/

/-- Values up to the order of members, at any depth. -/
def Unordered : Type := Quotient ⟨Json.Reorder cstr, Json.Reorder.equivalence cstr⟩

/-- A value, whatever the order of its members. -/
def unordered (v : Json) : Unordered := Quotient.mk _ v

theorem unordered_eq_iff {v w : Json} : unordered v = unordered w ↔ Json.Reorder cstr v w :=
  Quotient.eq

theorem respects_unordered : Respects unordered := fun _ _ h => unordered_eq_iff.2 h

/-- The event is an error of the response. -/
def isError : Event → Bool
  | .error _ => true
  | .parsingError _ => false

/-- Both are aborted, or both return the same and record the same errors, in some order. In what is
kept of vendor-specific members, too, only the order of members may differ. -/
def SameOutcome (m n : ParserM (ValidationData Json)) : Prop := (m = .abort ∧ n = .abort) ∨
  ∃ a es b fs, m = .ret a es ∧ n = .ret b fs ∧ a.mapVendor unordered = b.mapVendor unordered ∧
    (recordedErrors es).Perm (recordedErrors fs)

theorem filter_isError (es : List Event) :
    es.filter isError = (recordedErrors es).map Event.error := by
  induction es with
  | nil => rfl
  | cons e es ih =>
    cases e with
    | error err => exact congrArg (Event.error err :: ·) ih
    | parsingError err => exact ih

theorem filter_isError_perm_iff {es fs : List Event} :
    (es.filter isError).Perm (fs.filter isError) ↔
      (recordedErrors es).Perm (recordedErrors fs) := by
  rw [filter_isError, filter_isError]
  exact List.map_perm_map_iff fun _ _ h => Event.error.inj h

/-- The outcome is the same where the runs agree on the errors, whatever the order of members in
vendor-specific values. -/
theorem sameOutcome_iff {doc doc' : Json} :
    SameOutcome (getValidationData id doc) (getValidationData id doc') ↔
      Same ((getValidationData unordered doc).only isError)
        ((getValidationData unordered doc').only isError) := by
  have hread : ∀ d : Json, getValidationData unordered d =
      (·.mapVendor unordered) <$> getValidationData id d := getValidationData_map unordered id
  rw [hread, hread, only_map, only_map, Same, sim_map_iff, sim_only_iff]
  simp only [SameOutcome, filter_isError_perm_iff]

/-! ## The data of a change -/

/-- The same entities, whatever operation and path are. -/
structure SameEntities (c c' : Change V) : Prop where
  udmStaticData : c.udmStaticData = c'.udmStaticData
  udmSliceProfile : c.udmSliceProfile = c'.udmSliceProfile
  udmRoamingArea : c.udmRoamingArea = c'.udmRoamingArea
  smsStaticData : c.smsStaticData = c'.smsStaticData

/-- The same path and the same entities. -/
def Agree (c c' : Change V) : Prop := c.resourcePath = c'.resourcePath ∧ SameEntities c c'

theorem sameEntities_iff {c c' : Change V} :
    SameEntities c c' ↔ ∀ k : ResourceKind, k.entity c = k.entity c' := by
  constructor
  · intro h k
    cases k with
    | udmStaticData => exact h.udmStaticData
    | udmSliceProfile => exact h.udmSliceProfile
    | udmRoamingArea => exact h.udmRoamingArea
    | smsStaticData => exact h.smsStaticData
  · intro h
    exact ⟨h .udmStaticData, h .udmSliceProfile, h .udmRoamingArea, h .smsStaticData⟩

theorem sameEntities_withEntity {c c' : Change V} (h : SameEntities c c') (k : ResourceKind)
    (e : k.Entity V) : SameEntities (k.withEntity e c) (k.withEntity e c') := by
  rw [sameEntities_iff] at h ⊢
  intro k'
  by_cases hk : k' = k
  · subst hk
    rw [ResourceKind.entity_withEntity, ResourceKind.entity_withEntity]
  · rw [ResourceKind.entity_withEntity_of_ne hk, ResourceKind.entity_withEntity_of_ne hk, h k']

theorem sim_readIfNamed (hval : Respects val) {d d' : Json} (h : Json.Reorder cstr d d')
    (k : ResourceKind) {c c' : Change V} (hc : Agree c c') :
    Sim Agree (ResourceKind.readIfNamed val d c k) (ResourceKind.readIfNamed val d' c' k) := by
  rw [ResourceKind.readIfNamed, ResourceKind.readIfNamed, ← hc.1]
  split_ifs
  · have hread := (conforms_reader c.resourcePath k (k.entity c)).stable hval d d' h
    rw [ResourceKind.readInto, ResourceKind.readInto, ← hc.1,
      ← sameEntities_iff.1 hc.2 k]
    refine Sim.bind hread fun e e' he => sim_pure ?_
    subst he
    refine ⟨?_, sameEntities_withEntity hc.2 k e⟩
    rw [ResourceKind.resourcePath_withEntity, ResourceKind.resourcePath_withEntity, hc.1]
  · exact sim_pure hc

theorem sim_getChangeData (hval : Respects val) {d d' : Json} (h : Json.Reorder cstr d d')
    {c c' : Change V} (hc : Agree c c') :
    Sim Agree (getChangeData val d c) (getChangeData val d' c') := by
  rw [ResourceKind.getChangeData_eq_foldlM, ResourceKind.getChangeData_eq_foldlM]
  have hkinds : List.Forall₂ (· = ·) ResourceKind.inParserOrder ResourceKind.inParserOrder :=
    List.forall₂_refl _
  refine Sim.foldlM_rel hkinds (fun c c' k k' hc hk => ?_) hc
  subst hk
  exact sim_readIfNamed hval h k hc

/-! ## The members of a change -/

/-- Data are read under a path. -/
def readUnder (val : Json → V) (c : Change V) (r : String × Json) : ParserM (Change V) :=
  getChangeData val r.2 { c with resourcePath := r.1 }

/-- **Of the members of a change, only what is read under which path makes the entities.** -/
theorem sim_changeSteps (hval : Respects val) (ms : List (String × Json)) {c c' : Change V}
    (hc : SameEntities c c') : Sim SameEntities (ms.foldlM (changeStep val) c)
      ((readings c.resourcePath ms).foldlM (readUnder val) c') := by
  induction ms generalizing c c' with
  | nil => exact sim_pure hc
  | cons m ms ih =>
    rw [List.foldlM_cons]
    by_cases hdata : cstr m.1 = jsonData
    · have hpath : ¬ cstr m.1 = jsonResourcePath := by
        rw [hdata]
        decide
      rw [changeStep_data hdata, readings, if_neg hpath, if_pos hdata, List.foldlM_cons]
      have hagree : Agree c { c' with resourcePath := c.resourcePath } :=
        ⟨rfl, ⟨hc.1, hc.2, hc.3, hc.4⟩⟩
      have hread := (sim_getChangeData hval (.refl m.2) hagree).with_left
        (I := fun c₁ => c₁.resourcePath = c.resourcePath) fun c₁ h => (header_getChangeData h).2
      refine hread.bind fun c₁ c₁' h₁ => ?_
      rw [← h₁.2]
      exact ih h₁.1.2
    · by_cases hpath : cstr m.1 = jsonResourcePath
      · have hop : ¬ cstr m.1 = jsonOperation := by
          rw [hpath]
          decide
        rw [changeStep, if_neg hop, if_pos hpath, pure_bind, readings, if_pos hpath]
        exact ih (c := { c with resourcePath := textOf m.2 }) ⟨hc.1, hc.2, hc.3, hc.4⟩
      · rw [readings, if_neg hpath, if_neg hdata]
        by_cases hop : cstr m.1 = jsonOperation
        · rw [changeStep, if_pos hop, pure_bind]
          exact ih (c := { c with operation := textOf m.2 }) ⟨hc.1, hc.2, hc.3, hc.4⟩
        · rw [changeStep, if_neg hop, if_neg hpath, if_neg hdata, pure_bind]
          exact ih hc

/-- The data that are read under a path with a keyword in it. -/
def namedReadings (x : Json) : List (String × Json) :=
  (changeReadings x).filter fun r => ResourceKind.inParserOrder.any fun k => contains r.1 k.keyword

/-- The same data, up to the order of members, are read under the same paths, as long as reading
them does not abort. -/
def AlikeReadings : List (String × Json) → List (String × Json) → Prop
  | [], [] => True
  | r :: rs, s :: ss => (r.1 = s.1 ∧ Json.Reorder cstr r.2 s.2) ∧ (AsNamed Safe r →
      AlikeReadings rs ss)
  | _, _ => False

/-- Of the two changes, the same data are read under the same paths. -/
def SameReadings (x y : Json) : Prop := AlikeReadings (namedReadings x) (namedReadings y)

/-- In the changes that are reached, the same data are read under the same paths. A change is
followed by the next one if the parser does not give up on it, and reading it does not abort. -/
def ReadAlike : List Json → List Json → Prop
  | x :: xs, y :: ys => SameReadings x y ∧ (changeOk x = true →
      (∀ r ∈ changeReadings x, AsNamed Safe r) → ReadAlike xs ys)
  | _, _ => True

theorem sim_readUnder (hval : Respects val) {r s : String × Json}
    (h : r.1 = s.1 ∧ Json.Reorder cstr r.2 s.2) {c c' : Change V} (hc : SameEntities c c') :
    Sim SameEntities (readUnder val c r) (readUnder val c' s) := by
  have hagree : Agree { c with resourcePath := r.1 } { c' with resourcePath := s.1 } :=
    ⟨h.1, ⟨hc.1, hc.2, hc.3, hc.4⟩⟩
  exact (sim_getChangeData hval h.2 hagree).mono fun _ _ hab => hab.2

/-- Data that are read under a path without a keyword leave no trace. -/
theorem readUnder_of_not_named {r : String × Json} (h : (ResourceKind.inParserOrder.any fun k =>
    contains r.1 k.keyword) = false) (c : Change V) :
    readUnder val c r = pure { c with resourcePath := r.1 } := by
  rw [List.any_eq_false] at h
  rw [readUnder, ResourceKind.getChangeData_eq_foldlM]
  exact ResourceKind.foldlM_readIfNamed_of_not_contains val fun k hk => by simpa using h k hk

theorem sim_namedReadings (hval : Respects val) (rs : List (String × Json)) {c c' : Change V}
    (hc : SameEntities c c') : Sim SameEntities (rs.foldlM (readUnder val) c)
      ((rs.filter fun r => ResourceKind.inParserOrder.any fun k =>
        contains r.1 k.keyword).foldlM (readUnder val) c') := by
  induction rs generalizing c c' with
  | nil => exact sim_pure hc
  | cons r rs ih =>
    cases hr : ResourceKind.inParserOrder.any fun k => contains r.1 k.keyword with
    | true =>
      simp only [List.filter_cons, hr, if_true, List.foldlM_cons]
      exact (sim_readUnder hval ⟨rfl, .refl _⟩ hc).bind fun _ _ h => ih h
    | false =>
      simp only [List.filter_cons, hr, List.foldlM_cons, readUnder_of_not_named hr, pure_bind]
      exact ih ⟨hc.1, hc.2, hc.3, hc.4⟩

theorem sim_alikeReadings (hval : Respects val) {rs ss : List (String × Json)}
    (h : AlikeReadings rs ss) {c c' : Change V} (hc : SameEntities c c') :
    Sim SameEntities (rs.foldlM (readUnder val) c) (ss.foldlM (readUnder val) c') := by
  induction rs generalizing ss c c' with
  | nil =>
    cases ss with
    | nil => exact sim_pure hc
    | cons s ss => exact h.elim
  | cons r rs ih =>
    cases ss with
    | nil => exact h.elim
    | cons s ss =>
      obtain ⟨hrs, hrest⟩ := h
      have hread := (sim_readUnder hval hrs hc).with_left (I := fun _ => AsNamed Safe r)
        fun c₁ hc₁ => by
          rw [← allowed_loose] at hc₁
          have hpasses := (returnsIff_getChangeData r.2 { c with resourcePath := r.1 }).1 ⟨c₁, hc₁⟩
          rwa [passes_loose] at hpasses
      rw [List.foldlM_cons, List.foldlM_cons]
      exact hread.bind fun c₁ c₁' h₁ => ih (hrest h₁.2) h₁.1

/-- The entities of two changes that have the same data under the same paths. -/
theorem sim_entities (hval : Respects val) {x y : Json} (h : SameReadings x y) :
    Sim SameEntities ((usable (changeMembers x)).foldlM (changeStep val) {})
      ((usable (changeMembers y)).foldlM (changeStep val) {}) := by
  have hrefl : SameEntities ({} : Change V) {} := ⟨rfl, rfl, rfl, rfl⟩
  have hread : ∀ z : Json, Sim SameEntities
      ((usable (changeMembers z)).foldlM (changeStep val) {})
      ((namedReadings z).foldlM (readUnder val) {}) := by
    intro z
    refine ((sim_changeSteps hval (usable (changeMembers z)) hrefl).comp
      (sim_namedReadings hval _ hrefl)).mono fun a c hac => ?_
    obtain ⟨b, hab, hbc⟩ := hac
    exact ⟨hab.1.trans hbc.1, hab.2.trans hbc.2, hab.3.trans hbc.3, hab.4.trans hbc.4⟩
  have hsame := sim_alikeReadings hval h hrefl
  refine (((hread x).comp hsame).comp (hread y).symm).mono fun a d had => ?_
  obtain ⟨c, ⟨b, hab, hbc⟩, hdc⟩ := had
  exact ⟨hab.1.trans (hbc.1.trans hdc.1.symm), hab.2.trans (hbc.2.trans hdc.2.symm),
    hab.3.trans (hbc.3.trans hdc.3.symm), hab.4.trans (hbc.4.trans hdc.4.symm)⟩

/-! ## Operation and path -/

theorem memberOk_reorder {m n : String × Json} (hname : m.1 = n.1)
    (h : Json.Reorder cstr m.2 n.2) : memberOk m = memberOk n := by
  have hobject : decide m.2.IsObject = decide n.2.IsObject := decide_eq_decide.2 h.isObject_iff
  rw [memberOk, memberOk, hname, asString_reorder h, hobject]

theorem textOf_reorder {v w : Json} (h : Json.Reorder cstr v w) : textOf v = textOf w := by
  rw [textOf, textOf, asString_reorder h]

/-- Members that are read under different names leave the same texts in any order. -/
theorem lastText_shuffle {key : String} {ms ms' : List (String × Json)}
    (h : Shuffle (fun m => cstr m.1) ms ms') (start : String) :
    lastText key start ms = lastText key start ms' := by
  induction h generalizing start with
  | refl => rfl
  | cons m _ ih => exact ih _
  | @swap m n hne ms =>
    have hswap : (if cstr n.1 = key then textOf n.2
          else if cstr m.1 = key then textOf m.2 else start) =
        if cstr m.1 = key then textOf m.2 else if cstr n.1 = key then textOf n.2 else start := by
      by_cases hn : cstr n.1 = key
      · rw [if_pos hn, if_pos hn, if_neg fun hm => hne (hm.trans hn.symm)]
      · rw [if_neg hn, if_neg hn]
    simp only [lastText, List.foldl_cons, hswap]
  | trans _ _ ih ih' => exact (ih start).trans (ih' start)

theorem lastText_reorder {key : String} {ms ns : List (String × Json)}
    (h : List.Forall₂ (fun m n => m.1 = n.1 ∧ Json.Reorder cstr m.2 n.2) ms ns) (start : String) :
    lastText key start ms = lastText key start ns := by
  induction h generalizing start with
  | nil => rfl
  | cons hmn _ ih =>
    rw [lastText, lastText, List.foldl_cons, List.foldl_cons, hmn.1, textOf_reorder hmn.2]
    exact ih _

theorem all_memberOk_reorder {ms ns : List (String × Json)}
    (h : List.Forall₂ (fun m n => m.1 = n.1 ∧ Json.Reorder cstr m.2 n.2) ms ns) :
    ms.all memberOk = ns.all memberOk := by
  induction h with
  | nil => rfl
  | cons hmn _ ih => rw [List.all_cons, List.all_cons, memberOk_reorder hmn.1 hmn.2, ih]

/-- Up to the order of members, the parser gives up on the same changes, and the others have the
same operation and the same path. -/
theorem header_reorder {x y : Json} (h : Json.Reorder cstr x y) :
    changeOk x = changeOk y ∧ ∀ key, changeText key x = changeText key y := by
  cases h with
  | refl => exact ⟨rfl, fun _ => rfl⟩
  | arr => exact ⟨rfl, fun _ => rfl⟩
  | @obj ms ms' ns hshuffle hkeys hvalues =>
    have hmembers := Json.forall₂_members hkeys hvalues
    have hok : ms.all memberOk = ns.all memberOk :=
      hshuffle.perm.all_eq.trans (all_memberOk_reorder hmembers)
    refine ⟨?_, fun key => ?_⟩
    · simp only [changeOk, changeMembers, Json.members, Option.getD_some, hok, Json.isObject_obj]
    · exact (lastText_shuffle hshuffle "").trans (lastText_reorder hmembers "")

/-! ## The changes -/

/-- Operation and path are those of the request, in a change that is read to its end. -/
def HeaderOf (x : Json) (c : Change V) : Prop := changeOk x = true →
  c.operation = changeText jsonOperation x ∧ c.resourcePath = changeText jsonResourcePath x

theorem eq_of_header {x y : Json} {c c' : Change V} (h : Json.Reorder cstr x y)
    (hok : changeOk x = true) (hc : SameEntities c c') (hx : HeaderOf x c) (hy : HeaderOf y c') :
    c = c' := by
  obtain ⟨hsame, htext⟩ := header_reorder h
  obtain ⟨hop, hpath⟩ := hx hok
  obtain ⟨hop', hpath'⟩ := hy (hsame ▸ hok)
  have hop' : c.operation = c'.operation := by rw [hop, hop', htext]
  have hpath' : c.resourcePath = c'.resourcePath := by rw [hpath, hpath', htext]
  obtain ⟨hstatic, hprofile, harea, hsms⟩ := hc
  cases c
  cases c'
  simp only at hop' hpath' hstatic hprofile harea hsms
  rw [hop', hpath', hstatic, hprofile, harea, hsms]

/-- A change that is given up on records nothing for the response. -/
theorem only_parsingError (err : String) {β : Type} (b : β) :
    (setParsingError err >>= fun _ => (pure b : ParserM β)).only isError = pure b := by
  rw [setParsingError, only_bind, only_emit_of_not (by rfl), pure_bind, only_pure]

/-- The two changes leave the same errors behind and, unless the parser gives up on them, the same
entities. -/
def SameEffect (val : Json → V) (x y : Json) : Prop :=
  Sim (fun c c' => changeOk x = true → SameEntities c c')
    (((usable (changeMembers x)).foldlM (changeStep val) {}).only isError)
    (((usable (changeMembers y)).foldlM (changeStep val) {}).only isError)

/-- The changes that are reached have the same effect. -/
def SameEffects (val : Json → V) : List Json → List Json → Prop
  | x :: xs, y :: ys => SameEffect val x y ∧ (changeOk x = true →
      (∀ r ∈ changeReadings x, AsNamed Safe r) → SameEffects val xs ys)
  | _, _ => True

theorem sameEffects_of_readAlike (hval : Respects val) {xs ys : List Json} (h : ReadAlike xs ys) :
    SameEffects val xs ys := by
  induction xs generalizing ys with
  | nil => exact trivial
  | cons x xs ih =>
    cases ys with
    | nil => exact trivial
    | cons y ys =>
      exact ⟨(sim_entities hval h.1).only.mono fun c c' hc _ => hc,
        fun hok hsafe => ih (h.2 hok hsafe)⟩

theorem same_getChanges {xs ys : List Json} (h : List.Forall₂ (Json.Reorder cstr) xs ys)
    (heffects : SameEffects val xs ys) :
    Same ((getChanges val xs).only isError) ((getChanges val ys).only isError) := by
  induction h with
  | nil => exact same_refl _
  | @cons x y xs ys hxy _ ih =>
    obtain ⟨heffect, hrest⟩ := heffects
    obtain ⟨err, herr⟩ := getChanges_cons val x
    obtain ⟨err', herr'⟩ := getChanges_cons val y
    have hleft : ∀ c, Yields (fun _ => True)
        (((usable (changeMembers x)).foldlM (changeStep val) {}).only isError) c →
        HeaderOf x c ∧ ∀ r ∈ changeReadings x, AsNamed Safe r := by
      intro c hc
      rw [yields_only] at hc
      refine ⟨header_of_read hc, ?_⟩
      rw [← passes_loose]
      rw [← allowed_loose] at hc
      exact (returnsIff_foldlM_changeStep val (usable (changeMembers x)) {}).1 ⟨c, hc⟩
    have hheader := (Sim.with_left heffect hleft).symm.with_left fun c hc =>
      (header_of_read (yields_only.1 hc) : HeaderOf y c)
    rw [herr, herr', only_bind, only_bind]
    refine hheader.symm.bind fun c c' hcc' => ?_
    obtain ⟨⟨hc, hx, hsafe⟩, hy⟩ := hcc'
    rw [← (header_reorder hxy).1]
    by_cases hok : changeOk x = true
    · rw [if_pos hok, if_pos hok, only_bind, only_bind, eq_of_header hxy hok (hc hok) hx hy]
      exact (ih (hrest hok hsafe)).bind fun r => same_refl _
    · rw [if_neg hok, if_neg hok, only_parsingError, only_parsingError]
      exact same_refl _

/-- The changes of two documents that differ in the order of members. -/
theorem same_getChangesToValidate {doc doc' : Json} (hdoc : doc.IsObject)
    (h : Json.Reorder cstr doc doc')
    (heffects : SameEffects val (requestChanges doc) (requestChanges doc')) :
    Same ((getChangesToValidate val doc).only isError)
      ((getChangesToValidate val doc').only isError) := by
  rw [getChangesToValidate_eq hdoc, getChangesToValidate_eq (h.isObject_iff.1 hdoc)]
  rw [requestChanges, requestChanges] at heffects
  have hrel := h.member? jsonChanges
  generalize doc.member? jsonChanges = o, doc'.member? jsonChanges = o' at hrel heffects
  cases hrel with
  | none => exact same_refl _
  | some hlists =>
    have hxs := asArray_reorder hlists
    dsimp only at heffects ⊢
    rw [Option.bind_some, Option.bind_some] at heffects
    rename_i a b
    generalize asArray a = xs, asArray b = ys at hxs heffects
    cases hxs with
    | none => exact same_refl _
    | some hxs => exact same_getChanges hxs heffects

/-! ## The related resources -/

theorem same_getProvJournal {v w : Json} (h : Json.Reorder cstr v w) (e : ProvJournal) :
    Same (getProvJournal v e) (getProvJournal w e) := by
  have hnone : Respects fun _ : Json => () := fun _ _ _ => rfl
  by_cases hv : v.IsObject
  · exact (reads_getProvJournal e).stable hnone v w hv h
  · cases h with
    | refl => exact same_refl _
    | arr => exact same_refl _
    | obj => exact absurd (Json.isObject_obj _) hv

theorem same_getRelatedMember (hval : Respects val) {m n : String × Json} (hname : m.1 = n.1)
    (h : Json.Reorder cstr m.2 n.2) : Same (getRelatedMember val m) (getRelatedMember val n) := by
  rw [getRelatedMember, getRelatedMember, hname, getRelatedResource_eq, getRelatedResource_eq]
  refine Same.bind ?_ fun r => same_refl _
  cases classify (cstr n.1) with
  | resource k =>
    exact Same.bind ((conforms_reader (cstr n.1) k _).stable hval _ _ h) fun e => same_refl _
  | journal => exact Same.bind (same_getProvJournal h _) fun e => same_refl _
  | passedOver => exact same_refl _

/-- A related resource is kept by its path. -/
theorem name_getRelatedMember {q : Event → Prop} {m : String × Json} {e : String × Resource V}
    (h : Yields q (getRelatedMember val m) (some e)) : e.1 = cstr m.1 := by
  obtain ⟨r, -, hr⟩ := yields_bind.1 h
  have heq := yields_pure.1 hr
  rw [eq_comm, Option.map_eq_some_iff] at heq
  obtain ⟨r, -, rfl⟩ := heq
  rfl

theorem same_getRelatedResources (hval : Respects val) {doc doc' : Json} (hdoc : doc.IsObject)
    (h : Json.Reorder cstr doc doc') :
    Same (getRelatedResources val doc) (getRelatedResources val doc') := by
  rw [getRelatedResources, getRelatedResources, Json.findMember_of_isObject hdoc,
    Json.findMember_of_isObject (h.isObject_iff.1 hdoc), lift_some, lift_some, pure_bind, pure_bind]
  have hrel := h.member? jsonRelatedResources
  generalize doc.member? jsonRelatedResources = o, doc'.member? jsonRelatedResources = o' at hrel
  cases hrel with
  | none => exact same_refl _
  | some hlists =>
    cases hlists with
    | refl => exact same_refl _
    | arr => exact same_refl _
    | @obj ms ms' ns hshuffle hkeys hvalues =>
      simp only [Json.members, lift_some, pure_bind]
      have hshuffled : Sim (Shuffle Prod.fst) (collect (getRelatedMember val) ms)
          (collect (getRelatedMember val) ms') :=
        sim_collect_shuffle (fun m e he => name_getRelatedMember he) hshuffle
      have hvalued : Sim (List.Forall₂ Eq) (collect (getRelatedMember val) ms')
          (collect (getRelatedMember val) ns) := by
        refine Sim.collect (Json.forall₂_members hkeys hvalues) fun m n hmn => ?_
        refine (same_getRelatedMember hval hmn.1 hmn.2).mono fun o o' ho => ?_
        subst ho
        cases o with
        | none => exact .none
        | some e => exact .some rfl
      refine (hshuffled.comp hvalued).bind fun rs rs'' hrs => sim_pure ?_
      obtain ⟨rs', hrs', heq⟩ := hrs
      rw [List.forall₂_eq_eq_eq] at heq
      exact heq ▸ OrdMap.emplaceAll_shuffle ∅ hrs'

/-! ## The whole document -/

/-- Where the changes that are reached have the same effect, so have the documents. -/
theorem same_getValidationData {doc doc' : Json} (h : Json.Reorder cstr doc doc')
    (heffects : SameEffects unordered (requestChanges doc) (requestChanges doc')) :
    Same ((getValidationData unordered doc).only isError)
      ((getValidationData unordered doc').only isError) := by
  by_cases hdoc : doc.IsObject
  · rw [getValidationData, getValidationData, only_bind, only_bind]
    refine (same_getChangesToValidate hdoc h heffects).bind fun r => ?_
    obtain ⟨ok, changes⟩ := r
    dsimp only
    split_ifs
    · exact ((same_getRelatedResources respects_unordered hdoc h).bind fun rr =>
        same_refl _).only
    · exact same_refl _
  · have hother : ¬ doc'.IsObject := fun hdoc' => hdoc (h.isObject_iff.2 hdoc')
    refine Or.inl ⟨?_, ?_⟩
    · rw [getValidationData, getChangesToValidate, Json.findMember_eq_none hdoc]
      rfl
    · rw [getValidationData, getChangesToValidate, Json.findMember_eq_none hother]
      rfl

/-- **The order of members makes no difference to the outcome where in every change that is reached
the same data are read under the same paths.** -/
theorem sameOutcome_of_readAlike {doc doc' : Json} (h : Json.Reorder cstr doc doc')
    (hreadings : ReadAlike (requestChanges doc) (requestChanges doc')) :
    SameOutcome (getValidationData id doc) (getValidationData id doc') :=
  sameOutcome_iff.2 (same_getValidationData h
    (sameEffects_of_readAlike respects_unordered hreadings))

end ProvisioningValidator
