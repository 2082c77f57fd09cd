import Mathlib
import ProvisioningValidator.AssignedFields
import ProvisioningValidator.Lib.Members

/-!
# Which sets of a change are read

The sets that a change has in the end are those in the last `plmnIdSets` that was read under a path
of its kind (`lastElements`), and of the texts in a set those are read that a decoder finds
(`Json.found`): the first member of a name. `ReadSets` says that the sets of an entity were read from
elements of the request, and `texts_of_readSets` which texts they have then.
-/

namespace ProvisioningValidator

open Lib Lib.Run Lib.Json

variable {A E V : Type} {val : Json → V} (p : String)

/-! ## Texts and arrays -/

/-- The text was read from the member of that name. -/
def TextRead (key : String) (v : Json) (s : String) : Prop :=
  ∃ t, v.member? key = some (.str t) ∧ s = cstr t

/-- A text that must be there. -/
theorem turns_mandatoryString {key d : String} {get : E → String} {put : String → E → E}
    (hput : ∀ s e, get (put s e) = s) : Turns get (Reader.ifMember key (.string p key put)
      (Reader.mandatory p d)) fun v _ s => TextRead key v s := by
  intro v e e' hrun
  obtain ⟨o, ho, hread⟩ := yields_bind.1 hrun
  have hmember := Json.member?_of_findMember (yields_lift.1 ho)
  cases o with
  | some w =>
    dsimp only at hread
    rw [Reader.string, Reader.leaf] at hread
    cases w with
    | str t =>
      rw [yields_pure.1 hread, hput]
      exact ⟨t, hmember, rfl⟩
    | _ =>
      obtain ⟨u, hreport, -⟩ := yields_bind.1 hread
      exact absurd hreport not_quiet_addError
  | none =>
    obtain ⟨u, hreport, -⟩ := yields_bind.1 hread
    exact absurd hreport not_quiet_addError

/-- An array of objects: each of them is read. -/
theorem turns_objects {key : String} {start : A} {r : Reader A} {get : E → List A}
    {put : List A → E → E} {absent : E → ParserM E}
    (hput : ∀ as e, get (put as e) = get e ++ as) : Turns get (Reader.ifMember key
      (.array p key (Reader.objectElement p key (Reader.fresh start r)) put) absent)
      fun v _ as => ∀ u ∈ v.found [.member key, .elements],
        ∃ a ∈ as, Yields Quiet (r u start) a := by
  intro v e e' hrun u hu
  obtain ⟨w, hw, hu⟩ := mem_found_member.1 hu
  obtain ⟨xs, rfl, x, hx, hu⟩ := mem_found_elements.1 hu
  rw [mem_found_nil] at hu
  subst hu
  obtain ⟨o, ho, hread⟩ := yields_bind.1 hrun
  have hmember := Json.member?_of_findMember (yields_lift.1 ho)
  rw [hw] at hmember
  subst hmember
  obtain ⟨as, has, hres⟩ := yields_bind.1 hread
  rw [yields_pure.1 hres, hput]
  obtain ⟨o, ho, hmem⟩ := has.collect_mem u hx
  rw [Reader.objectElement] at ho
  split_ifs at ho
  · obtain ⟨a, ha, hsome⟩ := yields_bind.1 ho
    rw [yields_pure] at hsome
    exact ⟨a, List.mem_append_right _ (hmem a hsome), ha⟩
  · obtain ⟨u, hreport, -⟩ := yields_bind.1 ho
    exact absurd hreport not_quiet_addError

/-! ## The texts of a set -/

theorem turns_uplink : Turns (·.uplink) (getSessionAmbr val p) fun v _ s =>
    TextRead jsonUplink v s :=
  .before (fun _ => .part fun _ _ h => h) <| .here (turns_mandatoryString p fun _ _ => rfl)
    fun _ => .keep (.demanded (.leaf fun _ _ h => h)) .nil

theorem turns_downlink : Turns (·.downlink) (getSessionAmbr val p) fun v _ s =>
    TextRead jsonDownlink v s :=
  .before (fun _ => .part fun _ _ h => h) <| .before (fun _ => .demanded (.leaf fun _ _ h => h)) <|
    .here (turns_mandatoryString p fun _ _ => rfl) fun _ => .nil

/-- The rates of the `sessionAmbr` of a DNN. -/
def RatesRead (u : Json) (d : DnnData V) : Prop :=
  d.fieldExistence.hasSessionAmbr = true ∧ TextRead jsonUplink u d.sessionAmbr.uplink ∧
    TextRead jsonDownlink u d.sessionAmbr.downlink

/-- What is kept of `sessionAmbr`: the rates, and whether it was there. -/
def sessionAmbrOf (d : DnnData V) : Ambr V × Bool :=
  (d.sessionAmbr, d.fieldExistence.hasSessionAmbr)

theorem turns_sessionAmbr : Turns sessionAmbrOf (getDnnData val p) fun v _ a =>
    ∀ u ∈ v.found [.member jsonSessionAmbr], a.2 = true ∧ TextRead jsonUplink u a.1.uplink ∧
      TextRead jsonDownlink u a.1.downlink := by
  have hread : Turns sessionAmbrOf (Reader.ifMember jsonSessionAmbr
      (.marking (fun e => { e with fieldExistence.hasSessionAmbr := true }) <|
        .object p jsonSessionAmbr <|
          .into (·.sessionAmbr) (fun a e => { e with sessionAmbr := a }) (getSessionAmbr val p))
      (Reader.without fun e : DnnData V => { e with fieldExistence.hasSessionAmbr := false }))
      fun v _ a => ∀ u ∈ v.found [.member jsonSessionAmbr], a.2 = true ∧
        TextRead jsonUplink u a.1.uplink ∧ TextRead jsonDownlink u a.1.downlink := by
    intro v e e' hrun u hu
    obtain ⟨w, hw, hu⟩ := mem_found_member.1 hu
    rw [mem_found_nil] at hu
    subst hu
    obtain ⟨o, ho, hread⟩ := yields_bind.1 hrun
    have hmember := Json.member?_of_findMember (yields_lift.1 ho)
    rw [hw] at hmember
    subst hmember
    dsimp only at hread
    rw [Reader.marking, Reader.object] at hread
    split_ifs at hread
    · obtain ⟨a, ha, hres⟩ := yields_bind.1 hread
      rw [yields_pure.1 hres]
      exact ⟨rfl, turns_uplink p u _ a ha, turns_downlink p u _ a ha⟩
    · obtain ⟨u, hreport, -⟩ := yields_bind.1 hread
      exact absurd hreport not_quiet_addError
  refine .before (fun _ => .part ?_) <| .before (fun _ => .optional (.leaf ?_) ?_) <|
    .before (fun _ => .flagged (.marked ?_ (.leaf ?_)) ?_) <|
    .before (fun _ => .flagged (.marked ?_ (.leaf ?_)) ?_) <|
    .before (fun _ => .flagged (.marked ?_ (.leaf ?_)) ?_) <|
    .before (fun _ => .flagged (.marked ?_ (.leaf ?_)) ?_) <|
    .before (fun _ => .flagged (.marked ?_ (.object (.keep (.part ?_) <|
      .keep (.optional (.leaf ?_) ?_) <|
      .keep (.flagged (.marked ?_ (.anyArray ?_)) ?_) .nil))) ?_) <|
    .before (fun _ => .flagged (.marked ?_ (.object (.part ?_))) ?_) <|
    .before (fun _ => .optional (.leaf ?_) ?_) <|
    .before (fun _ => .flagged (.marked ?_ (.object (.part ?_))) ?_) <|
    .here hread fun _ => .keep (.flagged (.marked ?_ (.anyArray ?_)) ?_) <|
    .keep (.flagged (.marked ?_ (.leaf ?_)) ?_) <|
    .keep (.flagged (.marked ?_ (.object (.part ?_))) ?_) .nil
  all_goals first | exact fun _ _ h => h | exact fun _ h => h

theorem turns_dnnDataList : Turns (·.dnnDataList) (getDnnList val p) fun v _ ds =>
    ∀ u ∈ v.found [.member jsonDnnDataList, .elements],
      ∃ d ∈ ds, Yields Quiet (getDnnData val p u {}) d :=
  .before (fun _ => .part fun _ _ h => h) <| .before (fun _ => .demanded (.leaf fun _ _ h => h)) <|
    .here (turns_objects p fun _ _ => rfl) fun _ => .nil

theorem turns_plmnIdSetIdentifier (isSliceData : Bool) : Turns (·.plmnIdSetIdentifier)
    (getPlmnIdSet val p isSliceData) fun v _ s => TextRead jsonPlmnIdSetIdentifier v s := by
  refine .before (fun _ => .part fun _ _ h => h) <| .here (turns_mandatoryString p fun _ _ => rfl)
    fun _ => .keep (.mark fun _ h => h) <|
    .keep (.optional (.marked (fun _ h => h) (.object (.keep (.part fun _ _ h => h) <|
      .keep (.optional (.anyArray fun _ _ h => h) fun _ h => h) <|
      .keep (.flagged (.marked (fun _ h => h) (.anyArray fun _ _ h => h)) fun _ h => h) .nil)))
      fun _ h => h) <|
    .keep (leads_checkAnyNssai p) <| .keep (.ifMember (.anyArray fun _ _ h => h) ?_) .nil
  split_ifs
  · exact .skip fun _ h => h
  · exact .mandatory

theorem turns_dnnLists (isSliceData : Bool) : Turns (·.dnnLists) (getPlmnIdSet val p isSliceData)
    fun v _ ls => ∀ u ∈ v.found [.member jsonDnnLists, .elements],
      ∃ l ∈ ls, Yields Quiet (getDnnList val p u {}) l :=
  .before (fun _ => .part fun _ _ h => h) <| .before (fun _ => .demanded (.leaf fun _ _ h => h)) <|
    .before (fun _ => .mark fun _ h => h) <|
    .before (fun _ => .optional (.marked (fun _ h => h) (.object (.keep (.part fun _ _ h => h) <|
      .keep (.optional (.anyArray fun _ _ h => h) fun _ h => h) <|
      .keep (.flagged (.marked (fun _ h => h) (.anyArray fun _ _ h => h)) fun _ h => h) .nil)))
      fun _ h => h) <|
    .before (fun _ => leads_checkAnyNssai p) <| .here (turns_objects p fun _ _ => rfl) fun _ => .nil

/-- Where the rates stand in a set. -/
def sessionAmbrs : List Step :=
  [.member jsonDnnLists, .elements, .member jsonDnnDataList, .elements, .member jsonSessionAmbr]

/-- **The texts of a set that was read**: its identifier, and the rates that are found in it. -/
theorem texts_of_getPlmnIdSet {isSliceData : Bool} {v : Json} {s : PlmnIdSets V}
    (h : Yields Quiet (getPlmnIdSet val p isSliceData v {}) s) :
    TextRead jsonPlmnIdSetIdentifier v s.plmnIdSetIdentifier ∧
      ∀ u ∈ v.found sessionAmbrs, ∃ l ∈ s.dnnLists, ∃ d ∈ l.dnnDataList, RatesRead u d := by
  refine ⟨turns_plmnIdSetIdentifier p isSliceData v {} s h, fun u hu => ?_⟩
  obtain ⟨x, hx, hu⟩ := (mem_found_append [.member jsonDnnLists, .elements] _).1 hu
  obtain ⟨l, hl, hlist⟩ := turns_dnnLists p isSliceData v {} s h x hx
  obtain ⟨y, hy, hu⟩ := (mem_found_append [.member jsonDnnDataList, .elements] _).1 hu
  obtain ⟨d, hd, hdata⟩ := turns_dnnDataList p x {} l hlist y hy
  exact ⟨l, hl, d, hd, turns_sessionAmbr p y {} d hdata u hu⟩

/-! ## The sets of an entity -/

/-- The sets were read from these elements. -/
def ReadSets (val : Json → V) (xs : List Json) (sets : List (PlmnIdSets V)) : Prop :=
  ∃ p isSliceData, Yields Quiet (getPlmnIdSets val p isSliceData xs) sets

theorem readSets_nil : ReadSets val [] ([] : List (PlmnIdSets V)) :=
  ⟨"", false, yields_pure.2 rfl⟩

/-- Each of the elements is one of the sets. -/
theorem texts_of_readSets {xs : List Json} {sets : List (PlmnIdSets V)} (h : ReadSets val xs sets)
    {v : Json} (hv : v ∈ xs) : ∃ s ∈ sets, TextRead jsonPlmnIdSetIdentifier v s.plmnIdSetIdentifier ∧
      ∀ u ∈ v.found sessionAmbrs, ∃ l ∈ s.dnnLists, ∃ d ∈ l.dnnDataList, RatesRead u d := by
  obtain ⟨p, isSliceData, hsets⟩ := h
  obtain ⟨o, ho, hmem⟩ := hsets.collect_mem v hv
  obtain ⟨s, hs, hsome⟩ := yields_bind.1 ho
  exact ⟨s, hmem s (yields_pure.1 hsome), texts_of_getPlmnIdSet p hs⟩

/-- The elements of the array that is found under the path, or else those from before. -/
def elementsAt (path : List Step) (xs : List Json) (d : Json) : List Json :=
  ((d.found path).head?.bind asArray).getD xs

/-- The elements of the last array that is found under the path. -/
def lastElements (path : List Step) (rs : List (String × Json)) : List Json :=
  rs.foldl (fun xs r => elementsAt path xs r.2) []

/-- The member `plmnIdSets`. What is not an array leaves the sets, if it is no error. -/
theorem turns_plmnIdSets {isSliceData : Bool} {get : E → List (PlmnIdSets V)}
    {put : List (PlmnIdSets V) → E → E} {other : E → ParserM E}
    (hput : ∀ sets e, get (put sets e) = sets)
    (hother : ∀ e e', Yields Quiet (other e) e' → get e' = get e) :
    Turns get (Reader.ifMember jsonPlmnIdSets (fun v e => match asArray v with
      | some xs => getPlmnIdSets val p isSliceData xs >>= fun sets => pure (put sets e)
      | none => other e) Reader.skip) fun d a a' => ∀ xs, ReadSets val xs a →
        ReadSets val (elementsAt [.member jsonPlmnIdSets] xs d) a' := by
  intro d e e' hrun xs hxs
  obtain ⟨o, ho, hread⟩ := yields_bind.1 hrun
  have hmember := Json.member?_of_findMember (yields_lift.1 ho)
  have hfound : (d.found [.member jsonPlmnIdSets]).head? = o := by
    rw [found, hmember]
    cases o <;> rfl
  rw [elementsAt, hfound]
  cases o with
  | some w =>
    dsimp only at hread
    rw [Option.bind_some]
    cases hys : asArray w with
    | some ys =>
      rw [hys] at hread
      obtain ⟨sets, hsets, hres⟩ := yields_bind.1 hread
      rw [yields_pure.1 hres, hput]
      exact ⟨p, isSliceData, hsets⟩
    | none =>
      rw [hys] at hread
      rw [hother e e' hread]
      exact hxs
  | none =>
    rw [yields_pure.1 hread]
    exact hxs

theorem turns_udmSliceProfile : Turns (·.plmnIdSets) (getUdmSliceProfile val p) fun d a a' =>
    ∀ xs, ReadSets val xs a → ReadSets val (elementsAt [.member jsonPlmnIdSets] xs d) a' := by
  refine .before (fun _ => .part fun _ _ h => h) <|
    .before (fun _ => .optional (.leaf fun _ _ h => h) fun _ h => h) <|
    .here (turns_plmnIdSets p (fun _ _ => rfl) fun e e' hrun => ?_) fun _ => .nil
  obtain ⟨u, -, hres⟩ := yields_bind.1 hrun
  rw [yields_pure.1 hres]

theorem turns_udmSliceData : Turns (·.plmnIdSets) (getUdmSliceData val p) fun d a a' =>
    ∀ xs, ReadSets val xs a → ReadSets val (elementsAt [.member jsonPlmnIdSets] xs d) a' := by
  refine .before (fun _ => .part fun _ _ h => h) <|
    .here (turns_plmnIdSets p (fun _ _ => rfl) fun e e' hrun => ?_) fun _ => .nil
  obtain ⟨u, hreport, -⟩ := yields_bind.1 hrun
  exact absurd hreport not_quiet_emit

/-- What is kept of `udmSliceData`: the sets, and whether it was there. -/
def sliceDataOf (e : UdmStaticData V) : List (PlmnIdSets V) × Bool :=
  (e.udmSliceData.plmnIdSets, e.fieldExistence.hasUdmSliceData)

/-- Where the sets stand in static data. -/
def sliceDataArray : List Step := [.member jsonUdmSliceData, .member jsonPlmnIdSets]

theorem turns_sliceData : Turns sliceDataOf (getUdmStaticData val p) fun d a a' =>
    (∀ xs, ReadSets val xs a.1 → ReadSets val (elementsAt sliceDataArray xs d) a'.1) ∧
      a'.2 = (d.member? jsonUdmSliceData).isSome := by
  have hread : Turns sliceDataOf (Reader.ifMember jsonUdmSliceData
      (.marking (fun e => { e with fieldExistence.hasUdmSliceData := true }) <|
        .into (·.udmSliceData) (fun a e => { e with udmSliceData := a }) (getUdmSliceData val p))
      (Reader.without fun e : UdmStaticData V =>
        { e with fieldExistence.hasUdmSliceData := false }))
      fun d a a' =>
        (∀ xs, ReadSets val xs a.1 → ReadSets val (elementsAt sliceDataArray xs d) a'.1) ∧
        a'.2 = (d.member? jsonUdmSliceData).isSome := by
    intro d e e' hrun
    obtain ⟨o, ho, hread⟩ := yields_bind.1 hrun
    have hmember := Json.member?_of_findMember (yields_lift.1 ho)
    rw [hmember]
    cases o with
    | some w =>
      obtain ⟨a, ha, hres⟩ := yields_bind.1 hread
      rw [yields_pure.1 hres]
      refine ⟨fun xs hxs => ?_, rfl⟩
      have hfound : d.found sliceDataArray = w.found [.member jsonPlmnIdSets] := by
        rw [sliceDataArray, found, hmember]
        exact List.append_nil _
      rw [elementsAt, hfound]
      exact turns_udmSliceData p w _ a ha xs hxs
    | none =>
      have heq := yields_pure.1 hread
      rw [heq]
      refine ⟨fun xs hxs => ?_, rfl⟩
      rw [elementsAt, sliceDataArray, found, hmember]
      exact hxs
  refine .before (fun _ => .part ?_) <|
    .before (fun _ => .flagged (.marked ?_ (.object (.part ?_))) ?_) <|
    .before (fun _ => .optional (.anyArray ?_) ?_) <|
    .before (fun _ => .optional (.anyArray ?_) ?_) <|
    .before (fun _ => .flagged (.object (.keep (.part ?_) <| .keep (.optional (.leaf ?_) ?_) <|
      .keep (.optional (.anyArray ?_) ?_) <| .keep (.flagged (.leaf ?_) ?_) <|
      .keep (.mark ?_) .nil)) ?_) <|
    .before (fun _ => .optional (.anyArray ?_) ?_) <| .before (fun _ => .flagged (.leaf ?_) ?_) <|
    .before (fun _ => .flagged (.leaf ?_) ?_) <| .before (fun _ => .flagged (.leaf ?_) ?_) <|
    .before (fun _ => .flagged (.leaf ?_) ?_) <|
    .before (fun _ => .demanded (.object (.part ?_))) <|
    .before (fun _ => .flagged (.marked ?_ (.part ?_)) ?_) <|
    .before (fun _ => .optional (.nonEmptyString ?_) ?_) <|
    .before (fun _ => .flagged (.leaf ?_) ?_) <| .before (fun _ => .flagged (.leaf ?_) ?_) <|
    .before (fun _ => .flagged (.leaf ?_) ?_) <| .here hread fun _ => .nil
  all_goals first | exact fun _ _ h => h | exact fun _ h => h

/-! ## The sets of a change -/

/-- The sets of the slice profile of a change, as elements of the request. -/
def profileElements (x : Json) : List Json :=
  lastElements [.member jsonPlmnIdSets]
    (ResourceKind.udmSliceProfile.readingsFor (changeReadings x))

/-- The sets of the slice data of a change, as elements of the request. -/
def sliceDataElements (x : Json) : List Json := lastElements sliceDataArray (staticReadings x)

/-- The last static data of a change have slice data. -/
def hasSliceData (x : Json) : Bool :=
  (staticReadings x).foldl (fun _ r => (r.2.member? jsonUdmSliceData).isSome) false

/-- What each turn of a reader does to a part of an entity, along the readings of a change. -/
theorem turns_foldlM {k : ResourceKind} {f : k.Entity V → A} {R : E → A → Prop}
    {g : E → Json → E} (h : ∀ p, Turns f (k.reader val p)
      fun d a a' => ∀ b, R b a → R (g b d) a') {rs : List (String × Json)} {b : E}
    {e e' : k.Entity V} (hb : R b (f e)) (hrun : Yields Quiet (rs.foldlM (k.readOne val) e) e') :
    R (rs.foldl (fun b r => g b r.2) b) (f e') := by
  induction rs generalizing b e with
  | nil =>
    rw [List.foldlM_nil, yields_pure] at hrun
    exact hrun ▸ hb
  | cons r rs ih =>
    obtain ⟨e₁, hfirst, hrest⟩ := yields_bind.1 hrun
    exact ih (h r.1 r.2 e e₁ hfirst b hb) hrest

theorem readSets_profile {x : Json} {c : Change V} (h : ReadFrom val Quiet x c) :
    ReadSets val (profileElements x) c.udmSliceProfile.plmnIdSets :=
  turns_foldlM (k := .udmSliceProfile) (R := ReadSets val) turns_udmSliceProfile readSets_nil
    (h.entity .udmSliceProfile)

theorem readSets_sliceData {x : Json} {c : Change V} (h : ReadFrom val Quiet x c) :
    ReadSets val (sliceDataElements x) c.udmStaticData.udmSliceData.plmnIdSets ∧
      c.udmStaticData.fieldExistence.hasUdmSliceData = hasSliceData x := by
  have hentity := h.entity .udmStaticData
  constructor
  · refine turns_foldlM (k := .udmStaticData) (f := sliceDataOf)
      (R := fun xs a => ReadSets val xs a.1) (fun p v e e' hrun => ?_) readSets_nil hentity
    exact (turns_sliceData p v e e' hrun).1
  · refine turns_foldlM (k := .udmStaticData) (f := sliceDataOf) (R := fun b a => a.2 = b)
      (g := fun _ d => (d.member? jsonUdmSliceData).isSome) (fun p v e e' hrun _ _ => ?_) rfl
      hentity
    exact (turns_sliceData p v e e' hrun).2

end ProvisioningValidator
