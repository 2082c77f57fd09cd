import Mathlib
import ProvisioningValidator.Batches
import ProvisioningValidator.InertData
import ProvisioningValidator.MemberOrder

/-!
# Rearranged requests

A change is read differently in another order of its members if its data are read under its path in
one order and not in the other, so the order makes no difference at all only for changes whose data
leave no trace when they are read.

* In a change that the parser gives up on, data without a fault leave none: nothing is recorded, and
  the entities are dropped.
* In another change they must be `Inert` besides, so that the entity stays blank.

**Theorem (`member_order_irrelevant`).** Two orders have the same outcome where they are read alike,
and all orders of a request have the same outcome exactly if it is `OrderFree`.
-/

namespace ProvisioningValidator

open Lib Lib.Run Lib.Shape

variable {V : Type} {val : Json → V}

/-! ## Changes that leave no trace -/

/-- Read under this path, the data leave no trace in a change that is read to its end (`ok`), or in
one that the parser gives up on. -/
def LeavesNoTrace (ok : Bool) (r : String × Json) : Prop :=
  ∀ k : ResourceKind, contains r.1 k.keyword = true →
    if ok = true then k.Inert r.2 else Faultless k.shape r.2

/-- Whatever the order of its members, the change leaves no trace: its data, read under its path,
leave none. -/
def ChangeOrderFree (x : Json) : Prop :=
  ∀ m ∈ changeMembers x, ∀ n ∈ changeMembers x, cstr m.1 = jsonResourcePath → cstr n.1 = jsonData →
    memberOk m = true → memberOk n = true → LeavesNoTrace (changeOk x) (textOf m.2, n.2)

/-- In the order in which it is written, the change leaves no trace. -/
def Traceless (val : Json → V) (x : Json) : Prop :=
  ∃ c, Yields Quiet ((usable (changeMembers x)).foldlM (changeStep val) {}) c ∧
    (changeOk x = true → SameEntities c {})

theorem faultless_of_inert {k : ResourceKind} {d : Json} (h : k.Inert d) : Faultless k.shape d :=
  ((conforms_reader "" k (k.blank Unit)).returns _ d).1
    ⟨_, (@blank_iff Unit (fun _ => ()) "" k d).2 h⟩

theorem faultless_of_leavesNoTrace {ok : Bool} {r : String × Json} (h : LeavesNoTrace ok r) :
    AsNamed Faultless r := by
  intro k hk
  have hfree := h k hk
  split_ifs at hfree
  · exact faultless_of_inert hfree
  · exact hfree

theorem blank_foldlM (k : ResourceKind) {rs : List (String × Json)} (h : ∀ r ∈ rs, k.Inert r.2) :
    Yields Quiet (rs.foldlM (k.readOne val) (k.blank V)) (k.blank V) := by
  induction rs with
  | nil => exact yields_pure.2 rfl
  | cons r rs ih =>
    rw [List.forall_mem_cons] at h
    exact yields_bind.2 ⟨k.blank V, (blank_iff k).2 h.1, ih h.2⟩

theorem entity_empty (k : ResourceKind) : k.entity ({} : Change V) = k.blank V := by
  cases k <;> rfl

/-- **Data that leave no trace leave the change without one.** -/
theorem traceless_of_readings {x : Json}
    (h : ∀ r ∈ changeReadings x, LeavesNoTrace (changeOk x) r) : Traceless val x := by
  obtain ⟨c, hc⟩ := (returnsIff_foldlM_changeStep val (usable (changeMembers x)) {}).2
    fun r hr => faultless_of_leavesNoTrace (h r hr)
  refine ⟨c, hc, fun hok => sameEntities_iff.2 fun k => ?_⟩
  have hentity := ResourceKind.entity_of_readings k hc
  rw [entity_empty] at hentity ⊢
  refine hentity.unique (blank_foldlM k fun r hr => ?_)
  obtain ⟨hr, hnamed⟩ := List.mem_filter.1 hr
  have hfree := h r hr k hnamed
  rwa [if_pos hok] at hfree

theorem leavesNoTrace_of_traceless {x : Json} {r : String × Json} (hone : changeReadings x = [r])
    (h : Traceless val x) : LeavesNoTrace (changeOk x) r := by
  obtain ⟨c, hc, hentities⟩ := h
  intro k hnamed
  split_ifs with hok
  · have hentity := ResourceKind.entity_of_readings k hc
    have hread : readings ({} : Change V).resourcePath (usable (changeMembers x)) = [r] := hone
    rw [entity_empty, sameEntities_iff.1 (hentities hok) k, entity_empty, hread,
      ResourceKind.readingsFor_singleton, if_pos hnamed] at hentity
    obtain ⟨e, he, hlast⟩ := yields_bind.1 hentity
    obtain rfl := yields_pure.1 hlast
    exact (blank_iff k).1 he
  · have hreadings := (returnsIff_foldlM_changeStep val (usable (changeMembers x)) {}).1 ⟨c, hc⟩
    have hr : r ∈ changeReadings x := by
      rw [hone]
      exact List.mem_singleton_self r
    exact hreadings r hr k hnamed

/-! ## The orders of a change -/

/-- Data are read under nothing, or under the text of a path. -/
theorem mem_readings {p : String} {ms : List (String × Json)} {r : String × Json}
    (h : r ∈ readings p ms) : (∃ n ∈ ms, cstr n.1 = jsonData ∧ n.2 = r.2) ∧
      (r.1 = p ∨ ∃ m ∈ ms, cstr m.1 = jsonResourcePath ∧ textOf m.2 = r.1) := by
  induction ms generalizing p with
  | nil => cases h
  | cons m ms ih =>
    rw [readings] at h
    split_ifs at h with hpath hdata
    · obtain ⟨⟨n, hn, hread⟩, hunder⟩ := ih h
      refine ⟨⟨n, List.mem_cons_of_mem m hn, hread⟩, .inr ?_⟩
      rcases hunder with hunder | ⟨m', hm', hunder⟩
      · exact ⟨m, List.mem_cons_self, hpath, hunder.symm⟩
      · exact ⟨m', List.mem_cons_of_mem m hm', hunder⟩
    · rcases List.mem_cons.1 h with rfl | h
      · exact ⟨⟨m, List.mem_cons_self, hdata, rfl⟩, .inl rfl⟩
      · obtain ⟨⟨n, hn, hread⟩, hunder⟩ := ih h
        refine ⟨⟨n, List.mem_cons_of_mem m hn, hread⟩, hunder.imp_right ?_⟩
        rintro ⟨m', hm', hunder⟩
        exact ⟨m', List.mem_cons_of_mem m hm', hunder⟩
    · obtain ⟨⟨n, hn, hread⟩, hunder⟩ := ih h
      refine ⟨⟨n, List.mem_cons_of_mem m hn, hread⟩, hunder.imp_right ?_⟩
      rintro ⟨m', hm', hunder⟩
      exact ⟨m', List.mem_cons_of_mem m hm', hunder⟩

theorem mem_usable {m : String × Json} {ms : List (String × Json)} (h : m ∈ usable ms) :
    m ∈ ms ∧ memberOk m = true :=
  ⟨List.takeWhile_subset _ h, List.mem_takeWhile_imp h⟩

/-- Data that are read under nothing leave no trace. -/
theorem leavesNoTrace_empty (ok : Bool) (d : Json) : LeavesNoTrace ok ("", d) := by
  intro k hk
  have hnamed : contains "" k.keyword = true := hk
  cases k <;> exact absurd hnamed (by decide)

theorem ChangeOrderFree.readings {x : Json} (h : ChangeOrderFree x) :
    ∀ r ∈ changeReadings x, LeavesNoTrace (changeOk x) r := by
  intro r hr
  obtain ⟨⟨n, hn, hdata, hread⟩, hunder⟩ := mem_readings hr
  obtain ⟨p, d⟩ := r
  obtain rfl : n.2 = d := hread
  rcases hunder with rfl | ⟨m, hm, hpath, rfl⟩
  · exact leavesNoTrace_empty _ _
  · obtain ⟨hm, hmok⟩ := mem_usable hm
    obtain ⟨hn, hnok⟩ := mem_usable hn
    exact h m hm n hn hpath hdata hmok hnok

theorem yields_of_same {q : Event → Prop} {A : Type} {m n : ParserM A} {a : A} (h : Same m n)
    (hm : Yields q m a) : Yields q n a := by
  obtain ⟨es, rfl, hes⟩ := hm
  rcases h with ⟨habort, -⟩ | ⟨b, fs, c, gs, hb, rfl, rfl, hperm⟩
  · cases habort
  · obtain ⟨rfl, rfl⟩ := Run.ret.inj hb
    exact ⟨gs, rfl, fun e he => hes e (hperm.mem_iff.2 he)⟩

theorem same_reader (k : ResourceKind) {d d' : Json} (h : Json.Reorder cstr d d')
    (e : k.Entity Unordered) : Same (k.reader unordered "" d e) (k.reader unordered "" d' e) :=
  (conforms_reader "" k e).stable respects_unordered d d' h

theorem leavesNoTrace_reorder {ok : Bool} {p : String} {d d' : Json} (h : Json.Reorder cstr d d')
    (hfree : LeavesNoTrace ok (p, d)) : LeavesNoTrace ok (p, d') := by
  intro k hk
  have hread := hfree k hk
  have hsame := same_reader k h (k.blank Unordered)
  split_ifs at hread ⊢
  · exact (blank_iff k).1 (yields_of_same hsame ((blank_iff k).2 hread))
  · have hreturns := (@conforms_reader Unordered unordered "" k (k.blank Unordered)).returns
      { quiet := true, strict := false }
    obtain ⟨e, he⟩ := (hreturns d).2 hread
    exact (hreturns d').1 ⟨e, yields_of_same hsame he⟩

theorem exists_mem_of_reorder {x y : Json} (h : Json.Reorder cstr x y) {n : String × Json}
    (hn : n ∈ changeMembers y) :
    ∃ m ∈ changeMembers x, m.1 = n.1 ∧ Json.Reorder cstr m.2 n.2 := by
  cases y with
  | obj ns =>
    cases x with
    | obj ms =>
      obtain ⟨ns', hmatches, hshuffle⟩ := Json.Reorder.exists_matches h
      obtain ⟨m, hm, hmn⟩ := exists_of_forall₂ hmatches n (hshuffle.perm.mem_iff.2 hn)
      exact ⟨m, hm, hmn⟩
    | _ => cases h
  | _ => cases hn

theorem changeOrderFree_reorder {x y : Json} (h : Json.Reorder cstr x y)
    (hfree : ChangeOrderFree x) : ChangeOrderFree y := by
  intro m hm n hn hpath hdata hmok hnok
  obtain ⟨m₀, hm₀, hmname, hmvalue⟩ := exists_mem_of_reorder h hm
  obtain ⟨n₀, hn₀, hnname, hnvalue⟩ := exists_mem_of_reorder h hn
  have hread := hfree m₀ hm₀ n₀ hn₀ (hmname ▸ hpath) (hnname ▸ hdata)
    ((memberOk_reorder hmname hmvalue).trans hmok) ((memberOk_reorder hnname hnvalue).trans hnok)
  rw [(header_reorder h).1, textOf_reorder hmvalue] at hread
  exact leavesNoTrace_reorder hnvalue hread

/-! ## Requests whose order does not matter -/

/-- No change before this one is given up on. -/
def Reached (xs : List Json) (x : Json) : Prop :=
  ∃ pre post, xs = pre ++ x :: post ∧ ∀ z ∈ pre, changeOk z = true

/-- The related resources can be read. -/
def RelatedSafe (doc : Json) : Prop :=
  RelatedIsObject doc ∧ ∀ m ∈ relatedMembers doc, AsClassified Safe JournalSafe m

/-- The order of members makes no difference: reading the related resources aborts in every order,
or the changes that are reached leave no trace in any. -/
def OrderFree (doc : Json) : Prop := (changesOk doc = true ∧ ¬ RelatedSafe doc) ∨
  ∀ x, Reached (requestChanges doc) x → ChangeOrderFree x

theorem quiet_iff_not_isError {e : Event} : Quiet e ↔ isError e = false := by
  cases e with
  | error err => exact Iff.rfl
  | parsingError err => exact iff_of_true rfl rfl

theorem only_of_quiet {A : Type} {m : ParserM A} {a : A} (h : Yields Quiet m a) :
    m.only isError = pure a :=
  only_eq_pure_iff.2 (h.mono fun _ he => quiet_iff_not_isError.1 he)

theorem quiet_of_only {A : Type} {m : ParserM A} {a : A} (h : m.only isError = pure a) :
    Yields Quiet m a :=
  (only_eq_pure_iff.1 h).mono fun _ he => quiet_iff_not_isError.2 he

theorem sameEffect_of_traceless {x y : Json} (hok : changeOk x = changeOk y)
    (hx : Traceless val x) (hy : Traceless val y) : SameEffect val x y := by
  obtain ⟨c, hc, hentities⟩ := hx
  obtain ⟨c', hc', hentities'⟩ := hy
  rw [SameEffect, only_of_quiet hc, only_of_quiet hc']
  refine sim_pure fun h => ?_
  have hleft := hentities h
  have hright := hentities' (hok ▸ h)
  exact ⟨hleft.1.trans hright.1.symm, hleft.2.trans hright.2.symm, hleft.3.trans hright.3.symm,
    hleft.4.trans hright.4.symm⟩

theorem sameEffects_of_free {xs ys : List Json} (h : List.Forall₂ (Json.Reorder cstr) xs ys)
    (hfree : ∀ x, Reached xs x → ChangeOrderFree x) : SameEffects val xs ys := by
  induction h with
  | nil => exact trivial
  | @cons x y xs ys hxy _ ih =>
    have hx : ChangeOrderFree x := hfree x ⟨[], xs, rfl, fun z hz => by cases hz⟩
    refine ⟨sameEffect_of_traceless (header_reorder hxy).1 (traceless_of_readings hx.readings)
      (traceless_of_readings (changeOrderFree_reorder hxy hx).readings), fun hok _ => ih ?_⟩
    rintro z ⟨pre, post, rfl, hpre⟩
    exact hfree z ⟨x :: pre, post, rfl, List.forall_mem_cons.2 ⟨hok, hpre⟩⟩

theorem reorder_requestChanges {doc doc' : Json} (h : Json.Reorder cstr doc doc') :
    List.Forall₂ (Json.Reorder cstr) (requestChanges doc) (requestChanges doc') := by
  have hrel := h.member? jsonChanges
  rw [requestChanges, requestChanges]
  generalize doc.member? jsonChanges = o, doc'.member? jsonChanges = o' at hrel
  cases hrel with
  | none => exact .nil
  | some hlists =>
    have hxs := asArray_reorder hlists
    rename_i v w
    rw [Option.bind_some, Option.bind_some]
    generalize asArray v = xs, asArray w = ys at hxs
    cases hxs with
    | none => exact .nil
    | some hxs => exact hxs

theorem changesOk_reorder {doc doc' : Json} (h : Json.Reorder cstr doc doc') :
    changesOk doc = changesOk doc' := by
  have hrel := h.member? jsonChanges
  rw [changesOk, changesOk]
  generalize doc.member? jsonChanges = o, doc'.member? jsonChanges = o' at hrel
  cases hrel with
  | none => rfl
  | some hlists =>
    have hxs := asArray_reorder hlists
    rename_i v w
    dsimp only
    generalize asArray v = xs, asArray w = ys at hxs
    cases hxs with
    | none => rfl
    | some hxs =>
      rw [Option.any_some, Option.any_some]
      induction hxs with
      | nil => rfl
      | cons hxy _ ih => rw [List.all_cons, List.all_cons, (header_reorder hxy).1, ih]

theorem relatedSafe_iff {doc : Json} (hdoc : doc.IsObject) :
    RelatedSafe doc ↔ ∃ rr, Yields (fun _ => True) (getRelatedResources val doc) rr := by
  have hreturns := @returnsIff_getRelatedResources V val { quiet := false, strict := false }
    doc hdoc
  rw [ReturnsIff, allowed_loose, passes_loose] at hreturns
  exact hreturns.symm

theorem relatedSafe_reorder {doc doc' : Json} (hdoc : doc.IsObject)
    (h : Json.Reorder cstr doc doc') : RelatedSafe doc → RelatedSafe doc' := by
  have hdoc' := h.isObject_iff.1 hdoc
  rw [@relatedSafe_iff Unordered unordered doc hdoc,
    @relatedSafe_iff Unordered unordered doc' hdoc']
  rintro ⟨rr, hrr⟩
  exact ⟨rr, yields_of_same (same_getRelatedResources respects_unordered hdoc h) hrr⟩

/-- Where the changes are used and the resources cannot be read, the parser is aborted. -/
theorem abort_of_not_relatedSafe {doc : Json} (hok : changesOk doc = true)
    (hclash : ¬ RelatedSafe doc) : getValidationData val doc = .abort := by
  cases hread : getValidationData val doc with
  | abort => rfl
  | ret data events =>
    have hdoc := isObject_of_getValidationData hread
    have hreturns := (@returnsIff_getValidationData V val { quiet := false, strict := false }
      doc hdoc).1 ⟨data, events, hread, fun e _ => by cases e <;> rfl⟩
    rw [passes_loose] at hreturns
    exact absurd (hreturns.2 hok) hclash

/-- **The orders of such a request have the same outcome.** -/
theorem sameOutcome_of_orderFree {doc doc' : Json} (hfree : OrderFree doc)
    (h : Json.Reorder cstr doc doc') :
    SameOutcome (getValidationData id doc) (getValidationData id doc') := by
  rcases hfree with ⟨hok, hclash⟩ | hfree
  · have hok' : changesOk doc' = true := (changesOk_reorder h).symm.trans hok
    have hdoc : doc.IsObject := by
      by_contra hdoc
      have hnone : doc.member? jsonRelatedResources = none :=
        Option.eq_none_iff_forall_ne_some.2 fun w hw => hdoc (Json.isObject_of_member? hw)
      refine hclash ⟨fun w hw => absurd (hnone.symm.trans hw) (Option.some_ne_none w).symm, ?_⟩
      simp [relatedMembers, hnone]
    have hclash' : ¬ RelatedSafe doc' := fun hsafe =>
      hclash (relatedSafe_reorder (h.isObject_iff.1 hdoc) (Json.Reorder.symm h) hsafe)
    exact Or.inl ⟨abort_of_not_relatedSafe hok hclash, abort_of_not_relatedSafe hok' hclash'⟩
  · exact sameOutcome_iff.2 (same_getValidationData h
      (sameEffects_of_free (reorder_requestChanges h) hfree))

/-! ## An order without a trace -/

/-- The name of the member is that of the data. -/
def isData (m : String × Json) : Bool := cstr m.1 = jsonData

/-- The change with its data written first. -/
def dataFirst (x : Json) : Json :=
  match x with
  | .obj ms => .obj (ms.filter isData ++ ms.filter fun m => !isData m)
  | v => v

/-- The names in a change are distinct, as the parser reads them. -/
def DistinctlyNamed (x : Json) : Prop := ((changeMembers x).map fun m => cstr m.1).Nodup

theorem reorder_of_perm {ms ns : List (String × Json)} (h : ms.Perm ns)
    (hnames : DistinctlyNamed (.obj ms)) : Json.Reorder cstr (.obj ms) (.obj ns) :=
  .obj (.of_perm h hnames) rfl (List.forall₂_refl _)

theorem reorder_dataFirst {x : Json} (hnames : DistinctlyNamed x) :
    Json.Reorder cstr x (dataFirst x) := by
  cases x with
  | obj ms => exact reorder_of_perm (List.filter_append_perm isData ms).symm hnames
  | _ => exact .refl _

theorem readings_of_no_data {p : String} {ms : List (String × Json)}
    (h : ∀ m ∈ ms, cstr m.1 ≠ jsonData) : readings p ms = [] := by
  refine List.eq_nil_iff_forall_not_mem.2 fun r hr => ?_
  obtain ⟨⟨n, hn, hdata, -⟩, -⟩ := mem_readings hr
  exact h n hn hdata

theorem readings_append_of_data {p : String} {ms ns : List (String × Json)}
    (h : ∀ m ∈ ms, cstr m.1 = jsonData) :
    readings p (ms ++ ns) = ms.map (fun m => (p, m.2)) ++ readings p ns := by
  have hne : jsonData ≠ jsonResourcePath := by decide
  induction ms with
  | nil => rfl
  | cons m ms ih =>
    rw [List.forall_mem_cons] at h
    rw [List.cons_append, readings, if_neg (fun hpath => hne (h.1.symm.trans hpath)), if_pos h.1,
      ih h.2, List.map_cons, List.cons_append]

/-- Data that are written first are read under nothing. -/
theorem mem_readings_dataFirst {ms ns : List (String × Json)} (hms : ∀ m ∈ ms, cstr m.1 = jsonData)
    (hns : ∀ n ∈ ns, cstr n.1 ≠ jsonData) {r : String × Json}
    (h : r ∈ readings "" (usable (ms ++ ns))) : r.1 = "" := by
  have hread : ∀ as bs : List (String × Json), as ⊆ ms → bs ⊆ ns →
      r ∈ readings "" (as ++ bs) → r.1 = "" := by
    intro as bs has hbs hr
    rw [readings_append_of_data fun m hm => hms m (has hm),
      readings_of_no_data fun n hn => hns n (hbs hn), List.append_nil] at hr
    obtain ⟨m, -, rfl⟩ := List.mem_map.1 hr
    rfl
  rw [usable, List.takeWhile_append] at h
  split_ifs at h
  · exact hread ms _ (List.Subset.refl ms) (List.takeWhile_subset _) h
  · exact hread _ [] (List.takeWhile_subset _) (List.nil_subset ns) (by rwa [List.append_nil])

/-- **With its data written first, a change leaves no trace.** -/
theorem traceless_dataFirst (x : Json) : Traceless val (dataFirst x) := by
  refine traceless_of_readings fun r hr => ?_
  cases x with
  | obj ms =>
    obtain ⟨p, d⟩ := r
    obtain rfl : p = "" := by
      refine mem_readings_dataFirst (fun m hm => ?_) (fun n hn => ?_) hr
      · simpa [isData] using List.of_mem_filter hm
      · simpa [isData] using List.of_mem_filter hn
    exact leavesNoTrace_empty _ d
  | _ => cases hr

/-- **Its data may be written just behind its path.** -/
theorem exists_pathFirst {x : Json} (hnames : DistinctlyNamed x) {m n : String × Json}
    (hm : m ∈ changeMembers x) (hn : n ∈ changeMembers x) (hpath : cstr m.1 = jsonResourcePath)
    (hdata : cstr n.1 = jsonData) (hmok : memberOk m = true) (hnok : memberOk n = true) :
    ∃ y, Json.Reorder cstr x y ∧ changeReadings y = [(textOf m.2, n.2)] := by
  have hne : jsonData ≠ jsonResourcePath := by decide
  cases x with
  | obj ms =>
    have hm : m ∈ ms := hm
    have hn : n ∈ ms := hn
    have hnames' : (ms.map fun m => cstr m.1).Nodup := hnames
    obtain ⟨as, bs, rfl⟩ := List.append_of_mem hm
    have hrest : n ∈ as ++ bs := by
      rcases List.mem_append.1 hn with hn | hn
      · exact List.mem_append_left bs hn
      · rcases List.mem_cons.1 hn with rfl | hn
        · exact absurd (hdata.symm.trans hpath) hne
        · exact List.mem_append_right as hn
    obtain ⟨cs, ds, hcs⟩ := List.append_of_mem hrest
    have hperm : (as ++ m :: bs).Perm (m :: n :: (cs ++ ds)) := by
      refine List.perm_middle.trans (.cons m ?_)
      rw [hcs]
      exact List.perm_middle
    refine ⟨.obj (m :: n :: (cs ++ ds)), reorder_of_perm hperm hnames, ?_⟩
    rw [(hperm.map fun o : String × Json => cstr o.1).nodup_iff, List.map_cons, List.map_cons,
      List.nodup_cons, List.nodup_cons] at hnames'
    have hother : ∀ o ∈ usable (cs ++ ds), cstr o.1 ≠ jsonData := by
      intro o ho hodata
      refine hnames'.2.1 ?_
      rw [hdata, ← hodata]
      exact List.mem_map_of_mem (mem_usable ho).1
    have hread : changeReadings (.obj (m :: n :: (cs ++ ds))) =
        readings "" (usable (m :: n :: (cs ++ ds))) := rfl
    rw [hread, usable, List.takeWhile_cons_of_pos hmok, List.takeWhile_cons_of_pos hnok, readings,
      if_pos hpath, readings, if_neg (fun hnpath => hne (hdata.symm.trans hnpath)), if_pos hdata]
    exact congrArg _ (readings_of_no_data hother)
  | _ => cases hm

/-! ## What the outcome says about a change -/

theorem quiet_getChanges_cons {x : Json} {xs : List Json} {r : Bool × List (Change V)} :
    Yields Quiet (getChanges val (x :: xs)) r ↔
      ∃ c, Yields Quiet ((usable (changeMembers x)).foldlM (changeStep val) {}) c ∧
        if changeOk x = true then ∃ r', Yields Quiet (getChanges val xs) r' ∧ r = (r'.1, c :: r'.2)
        else r = (false, []) := by
  obtain ⟨err, herr⟩ := getChanges_cons val x
  rw [herr, yields_bind]
  refine exists_congr fun c => and_congr_right fun _ => ?_
  split_ifs
  · simp only [yields_bind, yields_pure]
  · rw [yields_bind]
    constructor
    · rintro ⟨u, -, h⟩
      exact yields_pure.1 h
    · exact fun h => ⟨(), yields_emit.2 rfl, yields_pure.2 h⟩

theorem quiet_getChanges_of_traceless {xs : List Json} (h : ∀ x ∈ xs, Traceless val x) :
    ∃ r, Yields Quiet (getChanges val xs) r := by
  induction xs with
  | nil => exact ⟨(true, []), yields_pure.2 rfl⟩
  | cons x xs ih =>
    rw [List.forall_mem_cons] at h
    obtain ⟨r, hr⟩ := ih h.2
    obtain ⟨c, hc, -⟩ := h.1
    by_cases hok : changeOk x = true
    · exact ⟨_, quiet_getChanges_cons.2 ⟨c, hc, by rw [if_pos hok]; exact ⟨r, hr, rfl⟩⟩⟩
    · exact ⟨_, quiet_getChanges_cons.2 ⟨c, hc, by rw [if_neg hok]⟩⟩

/-- **Where two changes give the same at the same place, and one leaves no trace, nor does the
other.** -/
theorem traceless_of_same {pre post : List Json} {x y : Json} {r : Bool × List (Change V)}
    (hpre : ∀ z ∈ pre, changeOk z = true) (hok : changeOk x = changeOk y)
    (hx : Yields Quiet (getChanges val (pre ++ x :: post)) r)
    (hy : Yields Quiet (getChanges val (pre ++ y :: post)) r) (htraceless : Traceless val x) :
    Traceless val y := by
  induction pre generalizing r with
  | nil =>
    obtain ⟨c, hc, hr⟩ := quiet_getChanges_cons.1 hx
    obtain ⟨c', hc', hr'⟩ := quiet_getChanges_cons.1 hy
    refine ⟨c', hc', fun hoky => ?_⟩
    obtain ⟨c₀, hc₀, hentities⟩ := htraceless
    rw [if_pos (hok.trans hoky)] at hr
    rw [if_pos hoky] at hr'
    obtain ⟨r₁, -, rfl⟩ := hr
    obtain ⟨r₂, -, heq⟩ := hr'
    obtain ⟨hsame, -⟩ := List.cons.inj (Prod.mk.inj heq).2
    rw [← hsame, hc.unique hc₀]
    exact hentities (hok.trans hoky)
  | cons z pre ih =>
    rw [List.forall_mem_cons] at hpre
    obtain ⟨c, -, hr⟩ := quiet_getChanges_cons.1 hx
    obtain ⟨c', -, hr'⟩ := quiet_getChanges_cons.1 hy
    rw [if_pos hpre.1] at hr hr'
    obtain ⟨r₁, hr₁, rfl⟩ := hr
    obtain ⟨r₂, hr₂, heq⟩ := hr'
    obtain ⟨hfirst, hsecond⟩ := Prod.mk.inj heq
    obtain ⟨-, hsecond⟩ := List.cons.inj hsecond
    obtain rfl : r₁ = r₂ := Prod.ext hfirst hsecond
    exact ih hpre.2 hr₁ hr₂

/-- What is read behind the changes. -/
def behindChanges (val : Json → V) (doc : Json) (r : Bool × List (Change V)) :
    ParserM (ValidationData V) :=
  if r.1 = true then getRelatedResources val doc >>= fun rr => pure ⟨true, r.2, rr⟩
  else pure ⟨false, r.2, ∅⟩

theorem getValidationData_withChanges {doc : Json} (hdoc : doc.IsObject) (xs : List Json) :
    getValidationData val (withChanges doc xs) = getChanges val xs >>= behindChanges val doc := by
  have hchanges : getChangesToValidate val (withChanges doc xs) = getChanges val xs := by
    rw [withChanges, getChangesToValidate_eq ((Json.isObject_withMember _ _).2 hdoc),
      Json.member?_withMember hdoc]
    rfl
  rw [getValidationData, hchanges, related_withChanges]
  rfl

/-- The changes are kept as they were read. -/
theorem eq_of_behindChanges {q : Event → Prop} {doc : Json} {r : Bool × List (Change V)}
    {data : ValidationData V} (h : Yields q (behindChanges val doc r) data) :
    r = (data.ret, data.changes) := by
  obtain ⟨ok, cs⟩ := r
  cases ok with
  | true =>
    obtain ⟨rr, -, hdata⟩ := yields_bind.1 h
    rw [yields_pure.1 hdata]
  | false => rw [yields_pure.1 h]

/-- Beside the same resources: changes that give the same as changes without a fault have none. -/
theorem quiet_of_same {doc : Json} (hdoc : doc.IsObject) {xs ys : List Json}
    {r : Bool × List (Change V)} (hxs : Yields Quiet (getChanges val xs) r)
    (hrelated : r.1 = true → ∃ rr, Yields (fun _ => True) (getRelatedResources val doc) rr)
    (hsame : Same ((getValidationData val (withChanges doc xs)).only isError)
      ((getValidationData val (withChanges doc ys)).only isError)) :
    Yields Quiet (getChanges val ys) r := by
  have hread : ∃ data, Yields (fun _ => True) (behindChanges val doc r) data := by
    obtain ⟨ok, cs⟩ := r
    cases ok with
    | true =>
      obtain ⟨rr, hrr⟩ := hrelated rfl
      exact ⟨_, yields_bind.2 ⟨rr, hrr, yields_pure.2 rfl⟩⟩
    | false => exact ⟨_, yields_pure.2 rfl⟩
  obtain ⟨data, hdata⟩ := hread
  rw [getValidationData_withChanges hdoc, getValidationData_withChanges hdoc, only_bind, only_bind,
    only_of_quiet hxs, pure_bind] at hsame
  refine quiet_of_only (eq_pure_of_sim_bind (f := fun r => (behindChanges val doc r).only isError)
    (yields_only.2 hdata) (fun r' hr' => ?_) hsame)
  exact (eq_of_behindChanges (yields_only.1 hr')).trans (eq_of_behindChanges hdata).symm

/-! ## The whole request -/

theorem arr_of_mem_requestChanges {doc x : Json} (h : x ∈ requestChanges doc) :
    ∃ xs, doc.member? jsonChanges = some (.arr xs) ∧ requestChanges doc = xs := by
  rw [requestChanges] at h ⊢
  cases hw : doc.member? jsonChanges with
  | none =>
    rw [hw] at h
    cases h
  | some w =>
    rw [hw, Option.bind_some] at h
    cases hxs : asArray w with
    | none =>
      rw [hxs] at h
      cases h
    | some xs =>
      obtain rfl := eq_arr_of_asArray hxs
      exact ⟨xs, rfl, rfl⟩

theorem reorder_withChanges {doc : Json} {xs ys : List Json}
    (hxs : doc.member? jsonChanges = some (.arr xs)) (h : List.Forall₂ (Json.Reorder cstr) xs ys) :
    Json.Reorder cstr doc (withChanges doc ys) :=
  Json.Reorder.withMember hxs (.arr h)

theorem reorder_map_dataFirst {xs : List Json} (hnames : ∀ x ∈ xs, DistinctlyNamed x) :
    List.Forall₂ (Json.Reorder cstr) xs (xs.map dataFirst) := by
  rw [List.forall₂_map_right_iff, List.forall₂_same]
  exact fun x hx => reorder_dataFirst (hnames x hx)

/-- Where all orders of a request have the same outcome, a change that is reached leaves no trace in
any order: it is compared with the request in which all data are written first. -/
theorem traceless_of_sameOutcome {doc : Json} {pre post : List Json} {x y : Json}
    (hxs : doc.member? jsonChanges = some (.arr (pre ++ x :: post)))
    (hnames : ∀ z ∈ pre ++ x :: post, DistinctlyNamed z)
    (hrelated : changesOk doc = true → RelatedSafe doc)
    (hsame : ∀ doc', Json.Reorder cstr doc doc' →
      SameOutcome (getValidationData id doc) (getValidationData id doc'))
    (hpre : ∀ z ∈ pre, changeOk z = true) (hy : Json.Reorder cstr x y) :
    Traceless unordered y := by
  have hdoc := Json.isObject_of_member? hxs
  have hpre₀ : List.Forall₂ (Json.Reorder cstr) pre (pre.map dataFirst) :=
    reorder_map_dataFirst fun z hz => hnames z (List.mem_append_left _ hz)
  have hpost₀ : List.Forall₂ (Json.Reorder cstr) post (post.map dataFirst) :=
    reorder_map_dataFirst fun z hz =>
      hnames z (List.mem_append_right _ (List.mem_cons_of_mem x hz))
  have hx₀ := reorder_dataFirst (hnames x (List.mem_append_right _ List.mem_cons_self))
  have hblank := reorder_withChanges hxs (List.rel_append hpre₀ (.cons hx₀ hpost₀))
  have hmoved := reorder_withChanges hxs (List.rel_append hpre₀ (.cons hy hpost₀))
  have houtcome := ((sameOutcome_iff.1 (hsame _ hblank)).symm.mono fun a b hab => hab.symm).trans
    (sameOutcome_iff.1 (hsame _ hmoved))
  have htraceless : ∀ z ∈ pre.map dataFirst ++ dataFirst x :: post.map dataFirst,
      Traceless unordered z := by
    intro z hz
    rw [← List.map_cons, ← List.map_append] at hz
    obtain ⟨w, -, rfl⟩ := List.mem_map.1 hz
    exact traceless_dataFirst w
  obtain ⟨r, hr⟩ := quiet_getChanges_of_traceless htraceless
  have hok : r.1 = true → changesOk doc = true := by
    intro hret
    rw [changesOk_reorder hblank, changesOk, withChanges, Json.member?_withMember hdoc]
    exact List.all_eq_true.2 ((result_getChanges hr).1.1 hret)
  have hquiet := quiet_of_same hdoc hr (fun hret => (relatedSafe_iff hdoc).1 (hrelated (hok hret)))
    houtcome
  refine traceless_of_same (fun z hz => ?_) ?_ hr hquiet (traceless_dataFirst x)
  · obtain ⟨w, hw, rfl⟩ := List.mem_map.1 hz
    have hw₀ := reorder_dataFirst (hnames w (List.mem_append_left _ hw))
    exact (header_reorder hw₀).1 ▸ hpre w hw
  · exact (header_reorder hx₀).1.symm.trans (header_reorder hy).1

/-- **Where all orders of a request have the same outcome, the changes that are reached leave no
trace.** -/
theorem changeOrderFree_of_sameOutcome {doc : Json}
    (hnames : ∀ x ∈ requestChanges doc, DistinctlyNamed x)
    (hrelated : changesOk doc = true → RelatedSafe doc)
    (hsame : ∀ doc', Json.Reorder cstr doc doc' →
      SameOutcome (getValidationData id doc) (getValidationData id doc'))
    {x : Json} (hx : Reached (requestChanges doc) x) : ChangeOrderFree x := by
  obtain ⟨pre, post, hlist, hpre⟩ := hx
  have hmem : x ∈ requestChanges doc := by
    rw [hlist]
    exact List.mem_append_right pre List.mem_cons_self
  obtain ⟨xs, hxs, hrequest⟩ := arr_of_mem_requestChanges hmem
  obtain rfl := hrequest.symm.trans hlist
  intro m hm n hn hpath hdata hmok hnok
  obtain ⟨y, hy, hreadings⟩ := exists_pathFirst (hnames x hmem) hm hn hpath hdata hmok hnok
  rw [hrequest] at hnames
  rw [(header_reorder hy).1]
  exact leavesNoTrace_of_traceless hreadings
    (traceless_of_sameOutcome hxs hnames hrelated hsame hpre hy)

/-- **The order of members.** It makes no difference to the outcome between two orders of a request
in which the same data are read under the same paths, as far as the changes are reached; and it
makes none between all orders of a request exactly if the request is `OrderFree`. -/
theorem member_order_irrelevant (doc : Json) :
    (∀ doc', Json.Reorder cstr doc doc' →
      ReadAlike (requestChanges doc) (requestChanges doc') →
        SameOutcome (getValidationData id doc) (getValidationData id doc')) ∧
    ((∀ x ∈ requestChanges doc, DistinctlyNamed x) →
      ((∀ doc', Json.Reorder cstr doc doc' →
        SameOutcome (getValidationData id doc) (getValidationData id doc')) ↔ OrderFree doc)) := by
  refine ⟨fun doc' h hreadings => sameOutcome_of_readAlike h hreadings, fun hnames => ?_⟩
  constructor
  · intro hsame
    by_cases hrelated : changesOk doc = true ∧ ¬ RelatedSafe doc
    · exact .inl hrelated
    · refine .inr fun x hx => changeOrderFree_of_sameOutcome hnames (fun hok => ?_) hsame hx
      by_contra hclash
      exact hrelated ⟨hok, hclash⟩
  · exact fun hfree doc' h => sameOutcome_of_orderFree hfree h

/-- A request of one change with these members. -/
def changeOf (members : List (String × Json)) : Json := .obj [("changes", .arr [.obj members])]

theorem reorder_changeOf {ms ns : List (String × Json)}
    (h : Json.Reorder cstr (.obj ms) (.obj ns)) : Json.Reorder cstr (changeOf ms) (changeOf ns) :=
  .obj (.refl _) rfl (.cons (.arr (.cons h .nil)) .nil)

/-- Data with nothing in them that the reader of SMS subscriptions looks for. -/
def smsWithoutData : Json :=
  changeOf [("operation", .str "UPDATE"), ("resource_path", .str "/smsStaticData"),
    ("data", .obj [("note", .int 1)])]

theorem orderFree_smsWithoutData : OrderFree smsWithoutData := by
  refine .inr fun x hx => ?_
  obtain ⟨pre, post, hlist, -⟩ := hx
  have hmem : x ∈ requestChanges smsWithoutData := by
    rw [hlist]
    exact List.mem_append_right pre List.mem_cons_self
  obtain rfl := List.mem_singleton.1 hmem
  have hinert : ResourceKind.smsStaticData.Inert (.obj [("note", .int 1)]) :=
    ⟨⟨_, rfl, by decide⟩, rfl, rfl⟩
  have hfree : LeavesNoTrace true ("/smsStaticData", .obj [("note", .int 1)]) := by
    intro k hk
    have hnamed : contains "/smsStaticData" k.keyword = true := hk
    cases k with
    | smsStaticData => exact hinert
    | _ => exact absurd hnamed (by decide)
  intro m hm n hn hpath hdata _ _
  have hm' : m = ("resource_path", .str "/smsStaticData") := by
    rcases List.mem_cons.1 hm with rfl | hm
    · exact absurd hpath (by decide)
    · rcases List.mem_cons.1 hm with rfl | hm
      · rfl
      · rw [List.mem_singleton.1 hm] at hpath
        exact absurd hpath (by decide)
  have hn' : n = ("data", .obj [("note", .int 1)]) := by
    rcases List.mem_cons.1 hn with rfl | hn
    · exact absurd hdata (by decide)
    · rcases List.mem_cons.1 hn with rfl | hn
      · exact absurd hdata (by decide)
      · exact List.mem_singleton.1 hn
  rw [hm', hn']
  exact hfree

/-- The operation of a change may stand anywhere, and so may the members of the data and of what is
kept of a vendor-specific member; data without anything in them may stand anywhere, too. -/
theorem member_order_irrelevant_operation : SameOutcome
    (getValidationData id (changeOf [("operation", .str "UPDATE"),
      ("resource_path", .str "/udmRoamingAreas/a"),
      ("data", .obj [("vendorSpecific-1", .obj [("x", .int 1), ("y", .int 2)]),
        ("udmRoamingAreaId", .int 5)])]))
    (getValidationData id (changeOf [("resource_path", .str "/udmRoamingAreas/a"),
      ("data", .obj [("udmRoamingAreaId", .int 5),
        ("vendorSpecific-1", .obj [("y", .int 2), ("x", .int 1)])]),
      ("operation", .str "UPDATE")])) ∧
    ∀ doc', Json.Reorder cstr smsWithoutData doc' →
      SameOutcome (getValidationData id smsWithoutData) (getValidationData id doc') := by
  have hvendor : Json.Reorder cstr (.obj [("x", .int 1), ("y", .int 2)])
      (.obj [("y", .int 2), ("x", .int 1)]) :=
    .obj (.swap (by decide +kernel) []) rfl (List.forall₂_refl _)
  have hdata : Json.Reorder cstr
      (.obj [("vendorSpecific-1", .obj [("x", .int 1), ("y", .int 2)]),
        ("udmRoamingAreaId", .int 5)])
      (.obj [("udmRoamingAreaId", .int 5),
        ("vendorSpecific-1", .obj [("y", .int 2), ("x", .int 1)])]) :=
    .obj (.swap (by decide +kernel) []) rfl (.cons (.refl _) (.cons hvendor .nil))
  constructor
  · refine (member_order_irrelevant _).1 _ (reorder_changeOf ?_) ?_
    · exact .obj (.of_perm (@List.perm_append_comm _ [_] [_, _]) (by decide +kernel)) rfl
        (.cons (.refl _) (.cons hdata (.cons (.refl _) .nil)))
    · exact ⟨⟨⟨rfl, hdata⟩, fun _ => trivial⟩, fun _ _ => trivial⟩
  · refine ((member_order_irrelevant smsWithoutData).2 fun x hx => ?_).2 orderFree_smsWithoutData
    rw [List.mem_singleton.1 hx, DistinctlyNamed]
    decide +kernel

/-- Data that are written before the path are not read. -/
theorem data_before_path_differs : ∃ doc doc', Json.Reorder cstr doc doc' ∧
    ¬ SameOutcome (getValidationData id doc) (getValidationData id doc') := by
  refine ⟨changeOf [("operation", .str "UPDATE"), ("resource_path", .str "/udmRoamingAreas/a"),
      ("data", .obj [("udmRoamingAreaId", .str "a")])],
    changeOf [("operation", .str "UPDATE"), ("data", .obj [("udmRoamingAreaId", .str "a")]),
      ("resource_path", .str "/udmRoamingAreas/a")], reorder_changeOf ?_, ?_⟩
  · exact .obj (.cons _ (.swap (by decide +kernel) [])) rfl (List.forall₂_refl _)
  · rintro (⟨habort, -⟩ | ⟨a, es, b, fs, ha, hb, hsame, -⟩)
    · cases habort
    · have hread : a.changes.map (·.udmRoamingArea.udmRoamingAreaId) = ["a"] := by
        rw [← (Run.ret.inj ha).1]
        rfl
      have hskipped : b.changes.map (·.udmRoamingArea.udmRoamingAreaId) = [""] := by
        rw [← (Run.ret.inj hb).1]
        rfl
      have hids : a.changes.map (·.udmRoamingArea.udmRoamingAreaId) =
          b.changes.map (·.udmRoamingArea.udmRoamingAreaId) := by
        have hchanges := congrArg (fun d : ValidationData Unordered =>
          d.changes.map (·.udmRoamingArea.udmRoamingAreaId)) hsame
        simpa [ValidationData.mapVendor, Change.mapVendor, UdmRoamingArea.mapVendor,
          Function.comp_def] using hchanges
      rw [hread, hskipped] at hids
      exact absurd hids (by decide)

end ProvisioningValidator
