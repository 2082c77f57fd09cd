import Mathlib
import ProvisioningValidator.Entities

/-!
# Rules, parser and encoder on one path

The rules route a path by regular expressions that begin at the last segments, the parser and the
encoder look for a keyword anywhere in it. On the paths that the rules route to a kind, parser and
encoder treat a change as one of that kind exactly when the path has no keyword of another kind in it
(`routes_agree_iff`).
-/

namespace ProvisioningValidator

open Lib Lib.Run

namespace ResourceKind

/-- Parser and encoder take a path for one of the kind. -/
structure AgreeOn (k : ResourceKind) (p : String) : Prop where
  /-- `data` are read into the entity of the kind, and nothing else is done with them. -/
  read : ∀ (c : Change Json) (attrData : Json), c.resourcePath = p → attrData.IsObject →
    getChangeData id attrData c = k.readInto id attrData c
  /-- In a change whose data are all read under the path, the entity of the kind is what its reader
  makes of them, and the entities of the other kinds are as they were. -/
  filled : ∀ (q : Event → Prop) (doc : Json) (r : Bool × List (Change Json)),
    Yields q (getChangesToValidate id doc) r → List.Forall₂ (fun x c =>
      (∀ s ∈ changeReadings x, s.1 = p) →
        Yields q ((changeReadings x).foldlM (k.readOne id) (k.blank Json)) (k.entity c) ∧
          ∀ k' ≠ k, k'.entity c = k'.blank Json) ((requestChanges doc).take r.2.length) r.2
  /-- The encoder writes the entity of the kind into `data`. -/
  written : ∀ (ind : Indeterminate) (c : Change Json), c.resourcePath = p →
    c.operation ≠ jsonOperationDelete →
    (changeToJson ind c).member? jsonData = some (k.toJson ind (k.entity c))

/-- What a change holds whose data are all read under one path. -/
theorem ReadFrom.filled {q : Event → Prop} {x : Json} {c : Change Json} (h : ReadFrom id q x c)
    {k : ResourceKind} {p : String} (hk : contains p k.keyword = true)
    (honly : ∀ k' ≠ k, contains p k'.keyword = false) (hp : ∀ s ∈ changeReadings x, s.1 = p) :
    Yields q ((changeReadings x).foldlM (k.readOne id) (k.blank Json)) (k.entity c) ∧
      ∀ k' ≠ k, k'.entity c = k'.blank Json := by
  have hall : k.readingsFor (changeReadings x) = changeReadings x :=
    List.filter_eq_self.2 fun s hs => by rw [hp s hs, hk]
  have hnone : ∀ k' ≠ k, k'.readingsFor (changeReadings x) = [] := fun k' hne =>
    List.filter_eq_nil_iff.2 fun s hs => by simp [hp s hs, honly k' hne]
  refine ⟨hall ▸ h.entity k, fun k' hne => ?_⟩
  have hentity := h.entity k'
  rw [hnone k' hne] at hentity
  exact yields_pure.1 hentity

/-- **Rules, parser and encoder agree on what a path names exactly when the path has no keyword of
another kind in it.** -/
theorem routes_agree_iff (k : ResourceKind) {p : String} (h : k.routes p = true) :
    k.AgreeOn p ↔ ∀ k' ≠ k, contains p k'.keyword = false := by
  have hk := contains_keyword k h
  constructor
  · intro hagree k' hne
    rw [← Bool.not_eq_true]
    intro hk'
    exact probe_reaches id hne hk' (hagree.read { resourcePath := p } probe rfl ⟨_, rfl⟩)
  · intro honly
    refine ⟨fun c attrData hp _ => ?_, fun q doc r hr => ?_, fun ind c hp hop => ?_⟩
    · subst hp
      exact getChangeData_of_only id hk honly
    · exact (read_getChangesToValidate hr).imp fun x c hread => ReadFrom.filled hread hk honly
    · subst hp
      rw [member?_data_changeToJson hop, changeDataToJson_of_only hk honly]

/-- The path of a slice profile with an ordinary identifier. -/
theorem routes_agree_iff_plain :
    AgreeOn udmSliceProfile "/profiles/udmProfiles/udmSliceProfiles/a" := by
  have h : udmSliceProfile.routes "/profiles/udmProfiles/udmSliceProfiles/a" = true := by
    decide +kernel
  refine (routes_agree_iff udmSliceProfile h).2 fun k' hne => ?_
  cases k' with
  | udmSliceProfile => exact absurd rfl hne
  | udmStaticData => decide +kernel
  | udmRoamingArea => decide +kernel
  | smsStaticData => decide +kernel

/-- The identifier of a slice profile may be the keyword of another kind. -/
theorem keyword_as_identifier :
    udmSliceProfile.routes "/profiles/udmProfiles/udmSliceProfiles/udmStaticData" = true ∧
      ¬ AgreeOn udmSliceProfile "/profiles/udmProfiles/udmSliceProfiles/udmStaticData" := by
  refine ⟨by decide +kernel, fun hagree => ?_⟩
  have hread := hagree.read { resourcePath := "/profiles/udmProfiles/udmSliceProfiles/udmStaticData" }
    probe rfl ⟨_, rfl⟩
  have hcontains : contains "/profiles/udmProfiles/udmSliceProfiles/udmStaticData"
      udmStaticData.keyword = true := by decide +kernel
  exact probe_reaches id (by decide) hcontains hread

end ResourceKind

end ProvisioningValidator
