import Mathlib
import ProvisioningValidator.Documents

/-!
# How an entity comes about

A change holds an entity of each kind. What is read under a path without the keyword of the kind
leaves the entity as it is, so the entity is what the reader of its kind makes of the data that are
read under paths with the keyword, one after the other (`entity_of_readings`). What a reader keeps,
and what one of its turns does, is in this way known of the entities of every change that was read
(`forall₂_read`).
-/

namespace ProvisioningValidator

open Lib Lib.Run

variable {V : Type} {val : Json → V} {q : Event → Prop}

/-- The data that are read for a kind, with the paths under which they are. -/
def ResourceKind.readingsFor (k : ResourceKind) (rs : List (String × Json)) :
    List (String × Json) :=
  rs.filter fun r => contains r.1 k.keyword

/-- The reader of a kind, on one reading. -/
def ResourceKind.readOne (val : Json → V) (k : ResourceKind) (e : k.Entity V)
    (r : String × Json) : ParserM (k.Entity V) :=
  k.reader val r.1 r.2 e

namespace ResourceKind

theorem readingsFor_singleton (k : ResourceKind) (r : String × Json) :
    k.readingsFor [r] = if contains r.1 k.keyword = true then [r] else [] := by
  rw [readingsFor, List.filter_cons, List.filter_nil]

/-! ## One member `data` -/

/-- The reader of a kind leaves the entities of the others. -/
theorem entity_readIfNamed {d : Json} {k k' : ResourceKind} {c c' : Change V} (hne : k ≠ k')
    (h : Yields q (readIfNamed val d c k') c') : k.entity c' = k.entity c := by
  rw [readIfNamed] at h
  split_ifs at h
  · obtain ⟨e, -, hput⟩ := yields_bind.1 h
    rw [yields_pure.1 hput, entity_withEntity_of_ne hne]
  · rw [yields_pure.1 h]

theorem entity_foldlM_readIfNamed {d : Json} {k : ResourceKind} {ks : List ResourceKind}
    {c c' : Change V} (hk : k ∉ ks) (h : Yields q (ks.foldlM (readIfNamed val d) c) c') :
    k.entity c' = k.entity c ∧ c'.resourcePath = c.resourcePath := by
  induction ks generalizing c with
  | nil =>
    rw [List.foldlM_nil, yields_pure] at h
    exact h ▸ ⟨rfl, rfl⟩
  | cons k' ks ih =>
    rw [List.mem_cons, not_or] at hk
    obtain ⟨c₁, hfirst, hrest⟩ := yields_bind.1 h
    obtain ⟨hentity, hpath⟩ := ih hk.2 hrest
    exact ⟨hentity.trans (entity_readIfNamed hk.1 hfirst),
      hpath.trans (header_readIfNamed hfirst).2⟩

/-- The entity of a kind after a member `data`. -/
theorem entity_getChangeData (k : ResourceKind) {d : Json} {c c' : Change V}
    (h : Yields q (getChangeData val d c) c') :
    Yields q ((k.readingsFor [(c.resourcePath, d)]).foldlM (k.readOne val) (k.entity c))
      (k.entity c') := by
  obtain ⟨ks, ks', horder, hks, hks'⟩ := inParserOrder_eq k
  rw [getChangeData_eq_foldlM, horder, List.foldlM_append] at h
  obtain ⟨c₁, hbefore, hrest⟩ := yields_bind.1 h
  obtain ⟨c₂, hread, hafter⟩ := yields_bind.1 hrest
  obtain ⟨hentity, hpath⟩ := entity_foldlM_readIfNamed hks hbefore
  rw [(entity_foldlM_readIfNamed hks' hafter).1, ← hentity, ← hpath]
  rw [readIfNamed] at hread
  rw [readingsFor_singleton]
  split_ifs at hread with hnamed
  · obtain ⟨e, he, hput⟩ := yields_bind.1 hread
    rw [if_pos hnamed, yields_pure.1 hput, entity_withEntity]
    exact yields_bind.2 ⟨e, he, yields_pure.2 rfl⟩
  · rw [if_neg hnamed, yields_pure.1 hread]
    exact yields_pure.2 rfl

/-! ## The members of a change -/

/-- A member other than `data` leaves the entities. -/
theorem entity_changeStep (k : ResourceKind) {m : String × Json} {c c' : Change V}
    (h : Yields q (changeStep val c m) c') :
    Yields q ((k.readingsFor (readings c.resourcePath [m])).foldlM (k.readOne val) (k.entity c))
      (k.entity c') := by
  rw [readings_singleton]
  by_cases hdata : cstr m.1 = jsonData
  · rw [changeStep_data hdata] at h
    rw [if_pos hdata]
    exact entity_getChangeData k h
  · have hsame : k.entity c' = k.entity c := by
      rw [changeStep] at h
      split_ifs at h <;> rw [yields_pure.1 h] <;> cases k <;> rfl
    rw [if_neg hdata, hsame]
    exact yields_pure.2 rfl

/-- **The entity of a kind is what its reader makes of the data that are read for it.** -/
theorem entity_of_readings (k : ResourceKind) {ms : List (String × Json)} {c c' : Change V}
    (h : Yields q (ms.foldlM (changeStep val) c) c') :
    Yields q ((k.readingsFor (readings c.resourcePath ms)).foldlM (k.readOne val) (k.entity c))
      (k.entity c') := by
  induction ms generalizing c with
  | nil =>
    rw [List.foldlM_nil, yields_pure] at h
    rw [h]
    exact yields_pure.2 rfl
  | cons m ms ih =>
    obtain ⟨c₁, hfirst, hrest⟩ := yields_bind.1 h
    have hpath := resourcePath_changeStep hfirst
    rw [readings_cons, ← hpath, readingsFor, List.filter_append, List.foldlM_append]
    exact yields_bind.2 ⟨k.entity c₁, entity_changeStep k hfirst, ih hrest⟩

end ResourceKind

/-! ## The changes of a document -/

/-- The change was read from this element of `changes`. -/
def ReadFrom (val : Json → V) (q : Event → Prop) (x : Json) (c : Change V) : Prop :=
  Yields q ((usable (changeMembers x)).foldlM (changeStep val) {}) c ∧ changeOk x = true

/-- The changes that are returned were read, one from each element up to the one given up on. -/
theorem read_getChanges {xs : List Json} {r : Bool × List (Change V)}
    (h : Yields q (getChanges val xs) r) :
    List.Forall₂ (ReadFrom val q) (xs.take r.2.length) r.2 := by
  induction xs generalizing r with
  | nil =>
    rw [getChanges, yields_pure] at h
    rw [h]
    exact .nil
  | cons x xs ih =>
    obtain ⟨err, herr⟩ := getChanges_cons val x
    rw [herr] at h
    obtain ⟨c, hc, hrest⟩ := yields_bind.1 h
    split_ifs at hrest with hok
    · obtain ⟨r', hr', hr⟩ := yields_bind.1 hrest
      rw [yields_pure] at hr
      subst hr
      rw [List.length_cons, List.take_succ_cons]
      exact .cons ⟨hc, hok⟩ (ih hr')
    · obtain ⟨u, -, hr⟩ := yields_bind.1 hrest
      rw [yields_pure] at hr
      subst hr
      exact .nil

theorem read_getChangesToValidate {doc : Json} {r : Bool × List (Change V)}
    (h : Yields q (getChangesToValidate val doc) r) :
    List.Forall₂ (ReadFrom val q) ((requestChanges doc).take r.2.length) r.2 := by
  rw [getChangesToValidate_eq (isObject_of_getChangesToValidate h)] at h
  rw [requestChanges]
  cases hw : doc.member? jsonChanges with
  | none =>
    rw [hw, yields_pure] at h
    rw [h]
    exact .nil
  | some w =>
    rw [hw] at h
    dsimp only at h
    rw [Option.bind_some]
    cases hxs : asArray w with
    | some xs =>
      rw [hxs] at h
      exact read_getChanges h
    | none =>
      rw [hxs] at h
      obtain ⟨u, -, hr⟩ := yields_bind.1 h
      rw [yields_pure.1 hr]
      exact .nil

/-- **Each change of the result was read from its element of the request.** -/
theorem forall₂_read {doc : Json} {data : ValidationData V}
    (h : Yields q (getValidationData val doc) data) (hret : data.ret = true) :
    List.Forall₂ (ReadFrom val q) (requestChanges doc) data.changes := by
  obtain ⟨⟨ok, changes⟩, hchanges, hrest⟩ := yields_bind.1 h
  have hread := read_getChangesToValidate hchanges
  have hheaders := (result_getChangesToValidate hchanges).2
  dsimp only at hrest hread hheaders
  split_ifs at hrest with hok
  · obtain ⟨rr, -, hdata⟩ := yields_bind.1 hrest
    rw [yields_pure.1 hdata]
    rwa [← (hheaders hok).length_eq, List.take_length] at hread
  · rw [yields_pure] at hrest
    rw [hrest] at hret
    cases hret

/-- The entity of a kind, in a change that was read. -/
theorem ReadFrom.entity {x : Json} {c : Change V} (h : ReadFrom val q x c) (k : ResourceKind) :
    Yields q ((k.readingsFor (changeReadings x)).foldlM (k.readOne val) (k.blank V))
      (k.entity c) := by
  have hentity := ResourceKind.entity_of_readings k h.1
  have hblank : k.entity ({} : Change V) = k.blank V := by cases k <;> rfl
  rw [hblank] at hentity
  exact hentity

end ProvisioningValidator
