import Mathlib
import ProvisioningValidator.Server

/-!
# What kind of resource a path names

The rules decide by a regular expression, the parser and the encoder by keywords. For every kind
this module names its part of a change, its reader and its writer. The parser runs one reader for
each keyword in the path, one after the other (`getChangeData_eq_foldlM`); with a keyword of another
kind in the path, data can reach the entity of that kind (`probe_reaches`).
-/

namespace ProvisioningValidator

open Lib

namespace ResourceKind

/-! ## The parts of a change -/

/-- The entity of a kind. -/
abbrev Entity (V : Type) : ResourceKind → Type
  | udmStaticData => UdmStaticData V
  | udmSliceProfile => UdmSliceProfile V
  | udmRoamingArea => UdmRoamingArea V
  | smsStaticData => SmsStaticData V

variable {V : Type}

/-- The entity of the kind in a change. -/
def entity : (k : ResourceKind) → Change V → k.Entity V
  | udmStaticData, c => c.udmStaticData
  | udmSliceProfile, c => c.udmSliceProfile
  | udmRoamingArea, c => c.udmRoamingArea
  | smsStaticData, c => c.smsStaticData

/-- The change with another entity of the kind. -/
def withEntity : (k : ResourceKind) → k.Entity V → Change V → Change V
  | udmStaticData, e, c => { c with udmStaticData := e }
  | udmSliceProfile, e, c => { c with udmSliceProfile := e }
  | udmRoamingArea, e, c => { c with udmRoamingArea := e }
  | smsStaticData, e, c => { c with smsStaticData := e }

/-- The vendor-specific members at the top of an entity. -/
def vendorSpecific : (k : ResourceKind) → k.Entity V → VendorSpecific V
  | udmStaticData, e => UdmStaticData.vendorSpecific e
  | udmSliceProfile, e => UdmSliceProfile.vendorSpecific e
  | udmRoamingArea, e => UdmRoamingArea.vendorSpecific e
  | smsStaticData, e => SmsStaticData.vendorSpecific e

/-- The reader of the kind. -/
def reader (val : Json → V) (resourcePath : String) : (k : ResourceKind) → Reader (k.Entity V)
  | udmStaticData => getUdmStaticData val resourcePath
  | udmSliceProfile => getUdmSliceProfile val resourcePath
  | udmRoamingArea => getUdmRoamingAreas val resourcePath
  | smsStaticData => getOptionalSmsStaticData val resourcePath

/-- The writer of the kind. -/
def toJson (ind : Indeterminate) : (k : ResourceKind) → k.Entity Json → Json
  | udmStaticData => udmStaticDataToJson ind
  | udmSliceProfile => udmSliceProfileToJson ind
  | udmRoamingArea => udmRoamingAreaToJson
  | smsStaticData => smsStaticDataToJson ind

@[simp] theorem entity_withEntity (k : ResourceKind) (e : k.Entity V) (c : Change V) :
    k.entity (k.withEntity e c) = e := by
  cases k <;> rfl

theorem entity_withEntity_of_ne {k k' : ResourceKind} (h : k' ≠ k) (e : k.Entity V)
    (c : Change V) : k'.entity (k.withEntity e c) = k'.entity c := by
  cases k <;> cases k' <;> first | rfl | exact absurd rfl h

@[simp] theorem resourcePath_withEntity (k : ResourceKind) (e : k.Entity V) (c : Change V) :
    (k.withEntity e c).resourcePath = c.resourcePath := by
  cases k <;> rfl

@[simp] theorem operation_withEntity (k : ResourceKind) (e : k.Entity V) (c : Change V) :
    (k.withEntity e c).operation = c.operation := by
  cases k <;> rfl

/-! ## The parser, kind by kind -/

variable (val : Json → V)

/-- The reader of a kind, on its entity of a change. -/
def readInto (attrData : Json) (k : ResourceKind) (c : Change V) : ParserM (Change V) := do
  let e ← k.reader val c.resourcePath attrData (k.entity c)
  return k.withEntity e c

/-- The reader of a kind, if its keyword is in the path. -/
def readIfNamed (attrData : Json) (c : Change V) (k : ResourceKind) : ParserM (Change V) :=
  if contains c.resourcePath k.keyword = true then k.readInto val attrData c else pure c

/-- The kinds, in the order in which the parser looks for their keywords. -/
def inParserOrder : List ResourceKind :=
  [smsStaticData, udmStaticData, udmSliceProfile, udmRoamingArea]

theorem mem_inParserOrder (k : ResourceKind) : k ∈ inParserOrder := by
  cases k <;> decide

theorem getChangeData_eq_foldlM (attrData : Json) (c : Change V) :
    getChangeData val attrData c = inParserOrder.foldlM (readIfNamed val attrData) c := by
  simp only [inParserOrder, List.foldlM_cons, List.foldlM_nil, bind_pure]
  rfl

/-- A reader whose keyword is not in the path is not run. -/
theorem readIfNamed_of_not_contains {attrData : Json} {c : Change V} {k : ResourceKind}
    (h : contains c.resourcePath k.keyword = false) : readIfNamed val attrData c k = pure c := by
  simp [readIfNamed, h]

theorem foldlM_readIfNamed_of_not_contains {attrData : Json} {c : Change V}
    {ks : List ResourceKind} (h : ∀ k ∈ ks, contains c.resourcePath k.keyword = false) :
    ks.foldlM (readIfNamed val attrData) c = pure c := by
  induction ks with
  | nil => rfl
  | cons k ks ih =>
    rw [List.foldlM_cons, readIfNamed_of_not_contains val (h k List.mem_cons_self), pure_bind]
    exact ih fun k' hk' => h k' (List.mem_cons_of_mem _ hk')

theorem inParserOrder_eq (k : ResourceKind) : ∃ ks ks', inParserOrder = ks ++ k :: ks' ∧
    k ∉ ks ∧ k ∉ ks' := by
  cases k with
  | smsStaticData => exact ⟨[], _, rfl, by decide, by decide⟩
  | udmStaticData => exact ⟨[smsStaticData], _, rfl, by decide, by decide⟩
  | udmSliceProfile => exact ⟨[smsStaticData, udmStaticData], _, rfl, by decide, by decide⟩
  | udmRoamingArea =>
    exact ⟨[smsStaticData, udmStaticData, udmSliceProfile], _, rfl, by decide, by decide⟩

/-- With one keyword in the path, one reader is run. -/
theorem getChangeData_of_only {attrData : Json} {c : Change V} {k : ResourceKind}
    (hk : contains c.resourcePath k.keyword = true)
    (honly : ∀ k' ≠ k, contains c.resourcePath k'.keyword = false) :
    getChangeData val attrData c = k.readInto val attrData c := by
  obtain ⟨ks, ks', horder, hks, hks'⟩ := inParserOrder_eq k
  have hbefore : ∀ k' ∈ ks, contains c.resourcePath k'.keyword = false := fun k' hk' =>
    honly k' fun h => hks (h ▸ hk')
  have hafter : ∀ k' ∈ ks', contains c.resourcePath k'.keyword = false := fun k' hk' =>
    honly k' fun h => hks' (h ▸ hk')
  rw [getChangeData_eq_foldlM, horder, List.foldlM_append,
    foldlM_readIfNamed_of_not_contains val hbefore, pure_bind, List.foldlM_cons]
  have hstep : readIfNamed val attrData c k = k.readInto val attrData c := by
    simp [readIfNamed, hk]
  rw [hstep]
  have hrest : ∀ e, ks'.foldlM (readIfNamed val attrData) (k.withEntity e c) =
      pure (k.withEntity e c) := fun e =>
    foldlM_readIfNamed_of_not_contains val (by simpa using hafter)
  simp only [readInto, bind_assoc, pure_bind, hrest]

/-! ## A probe -/

/-- Data that every reader takes something from. -/
def probe : Json := .obj [("vendorSpecific-x", .null)]

/-- What a reader makes of the probe. -/
def probed : VendorSpecific V := (∅ : VendorSpecific V).add "vendorSpecific-x" (val .null)

theorem probed_ne_empty : probed val ≠ ∅ := by
  intro h
  have hmem : isVendorSpecific (cstr "vendorSpecific-x") = true := by decide +kernel
  have hmap := congrArg (fun m => m.map.find? (cstr "vendorSpecific-x")) h
  simp [probed, VendorSpecific.add, hmem, OrdMap.find?_emplace] at hmap

/-- The entity of a change before any data. -/
def blank (V : Type) : (k : ResourceKind) → k.Entity V
  | udmStaticData => ({} : UdmStaticData V)
  | udmSliceProfile => ({} : UdmSliceProfile V)
  | udmRoamingArea => ({} : UdmRoamingArea V)
  | smsStaticData => ({} : SmsStaticData V)

theorem reader_probe (resourcePath : String) (k : ResourceKind) : ∃ e es,
    k.reader val resourcePath probe (blank V k) = .ret e es ∧ k.vendorSpecific e = probed val := by
  cases k <;> exact ⟨_, _, rfl, rfl⟩

theorem vendorSpecific_blank (k : ResourceKind) : k.vendorSpecific (blank V k) = ∅ := by
  cases k <;> rfl

/-- On the probe, every reader that is run leaves its mark, and the others do not. -/
theorem foldlM_probe {ks : List ResourceKind} (hnodup : ks.Nodup) {c : Change V}
    (hblank : ∀ k ∈ ks, k.entity c = blank V k) : ∃ c' es,
    ks.foldlM (readIfNamed val probe) c = .ret c' es ∧
      (∀ k ∉ ks, k.entity c' = k.entity c) ∧
      ∀ k ∈ ks, contains c.resourcePath k.keyword = true →
        k.vendorSpecific (k.entity c') = probed val := by
  induction ks generalizing c with
  | nil => exact ⟨c, [], rfl, fun _ _ => rfl, by simp⟩
  | cons k ks ih =>
    obtain ⟨hk, hnodup⟩ := List.nodup_cons.1 hnodup
    have hstep : ∃ c₁ es₁, readIfNamed val probe c k = .ret c₁ es₁ ∧
        c₁.resourcePath = c.resourcePath ∧ (∀ k' ≠ k, k'.entity c₁ = k'.entity c) ∧
        (contains c.resourcePath k.keyword = true →
          k.vendorSpecific (k.entity c₁) = probed val) := by
      by_cases hc : contains c.resourcePath k.keyword = true
      · obtain ⟨e, es, hrun, hvendor⟩ := reader_probe val c.resourcePath k
        refine ⟨k.withEntity e c, es, ?_, resourcePath_withEntity k e c,
          fun k' hk' => entity_withEntity_of_ne hk' e c, fun _ => by simpa using hvendor⟩
        rw [readIfNamed, if_pos hc, readInto, hblank k List.mem_cons_self, hrun]
        exact Run.bind_eq_ret.2 ⟨e, es, [], rfl, rfl, (List.append_nil es).symm⟩
      · exact ⟨c, [], by rw [readIfNamed, if_neg hc]; rfl, rfl, fun _ _ => rfl,
          fun h => absurd h hc⟩
    obtain ⟨c₁, es₁, hrun₁, hpath₁, hother₁, hmark₁⟩ := hstep
    have hblank₁ : ∀ k' ∈ ks, k'.entity c₁ = blank V k' := fun k' hk' => by
      have hne : k' ≠ k := fun h => hk (h ▸ hk')
      rw [hother₁ k' hne]
      exact hblank k' (List.mem_cons_of_mem _ hk')
    obtain ⟨c', es, hrun, hother, hmark⟩ := ih hnodup hblank₁
    refine ⟨c', es₁ ++ es, ?_, fun k' hk' => ?_, fun k' hk' hc => ?_⟩
    · rw [List.foldlM_cons]
      exact Run.bind_eq_ret.2 ⟨c₁, es₁, es, hrun₁, hrun, rfl⟩
    · have hne : k' ≠ k := fun h => hk' (h ▸ List.mem_cons_self)
      rw [hother k' fun h => hk' (List.mem_cons_of_mem _ h), hother₁ k' hne]
    · rcases List.mem_cons.1 hk' with rfl | hmem
      · rw [hother k' hk]
        exact hmark₁ hc
      · exact hmark k' hmem (by rw [hpath₁]; exact hc)

/-- **Two keywords in a path, and data can reach the entity of a second kind.** -/
theorem probe_reaches {k k' : ResourceKind} (hne : k' ≠ k) {p : String}
    (hk' : contains p k'.keyword = true) :
    getChangeData val probe { resourcePath := p } ≠
      k.readInto val probe ({ resourcePath := p } : Change V) := by
  intro heq
  have hblank : ∀ k ∈ inParserOrder, k.entity ({ resourcePath := p } : Change V) = blank V k := by
    intro k _
    cases k <;> rfl
  obtain ⟨c', es, hrun, -, hmark⟩ := foldlM_probe val (by decide) hblank
  rw [← getChangeData_eq_foldlM, heq] at hrun
  obtain ⟨e, es₁, es₂, -, hput, -⟩ := Run.bind_eq_ret.1 hrun
  rw [Run.pure_def, Run.ret.injEq] at hput
  have hmarked := hmark k' (mem_inParserOrder k') hk'
  rw [← hput.1, entity_withEntity_of_ne hne, hblank k' (mem_inParserOrder k'),
    vendorSpecific_blank] at hmarked
  exact probed_ne_empty val hmarked.symm

/-! ## The encoder, kind by kind -/

theorem changeDataToJson_of_only {ind : Indeterminate} {c : Change Json} {k : ResourceKind}
    (hk : contains c.resourcePath k.keyword = true)
    (honly : ∀ k' ≠ k, contains c.resourcePath k'.keyword = false) :
    changeDataToJson ind c = k.toJson ind (k.entity c) := by
  have h := fun k' (hne : k' ≠ k) => honly k' hne
  cases k with
  | udmStaticData =>
    simp only [keyword] at hk
    simp [changeDataToJson, hk, toJson, entity]
  | udmSliceProfile =>
    have h₁ := h udmStaticData (by decide)
    simp only [keyword] at hk h₁
    simp [changeDataToJson, hk, h₁, toJson, entity]
  | udmRoamingArea =>
    have h₁ := h udmStaticData (by decide)
    have h₂ := h udmSliceProfile (by decide)
    simp only [keyword] at hk h₁ h₂
    simp [changeDataToJson, hk, h₁, h₂, toJson, entity]
  | smsStaticData =>
    have h₁ := h udmStaticData (by decide)
    have h₂ := h udmSliceProfile (by decide)
    have h₃ := h udmRoamingArea (by decide)
    simp only [keyword] at hk h₁ h₂ h₃
    simp [changeDataToJson, hk, h₁, h₂, h₃, toJson, entity]

theorem member?_data_changeToJson {ind : Indeterminate} {c : Change Json}
    (hop : c.operation ≠ jsonOperationDelete) :
    (changeToJson ind c).member? jsonData = some (changeDataToJson ind c) := by
  have hflag : (c.operation != jsonOperationDelete) = true := bne_iff_ne.2 hop
  rw [changeToJson, hflag]
  rfl

end ResourceKind

end ProvisioningValidator
