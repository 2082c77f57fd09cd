import Mathlib
import ProvisioningValidator.AccessorSafety
import ProvisioningValidator.ArrayReaders
import ProvisioningValidator.Lib.Repeats

/-!
# Arrays read element by element

The parser reads ten arrays of objects. In nine of them what an element gives depends on the
element alone; in `dnnIpList` the text of `dnn` is kept from one element to the next, so that an
element without one takes over the last one before it.

* `ArrayKind.reader` — the function that meets such an array under `ArrayKind.key`;
* `ArrayKind.parse` — what it makes of the elements: `ArrayKind.reads`;
* `ArrayKind.alone` — the same, each element as if it were the only one.

**Theorem (`arrays_read_by_element_iff`).** The functions read their arrays with `parse`. Both
readings agree, and with them the parts of an array with the whole, exactly when no element of a
`dnnIpList` takes over a `dnn` that is not empty.
-/

namespace ProvisioningValidator

open Lib Lib.Run Lib.Shape

variable {V : Type}

/-- The arrays of objects that the parser reads. Those with a truth value stand in slice profiles
and in `udmSliceData`, where it is true. -/
inductive ArrayKind where
  | nssaiDnnIpLists | dnnIpList | ipAddress | forbiddenAreas | areas
  | plmnIdSets (isSliceData : Bool) | defaultSingleNssais | singleNssais
  | dnnLists (isSliceData : Bool) | dnnDataList

namespace ArrayKind

/-- What an element is read into. -/
abbrev Entity (V : Type) : ArrayKind → Type
  | nssaiDnnIpLists => NssaiDnnIps V
  | dnnIpList => DnnIps V
  | ipAddress => IpAddr V
  | forbiddenAreas | areas => UdmRoamingAreaReference V
  | plmnIdSets _ => PlmnIdSets V
  | defaultSingleNssais | singleNssais => NssaiDetails V
  | dnnLists _ => DnnList V
  | dnnDataList => DnnData V

/-- What the object around the array is read into. -/
abbrev Holder (V : Type) : ArrayKind → Type
  | nssaiDnnIpLists => StaticIpAddress V
  | dnnIpList => NssaiDnnIps V
  | ipAddress => DnnIps V
  | forbiddenAreas | areas => UdmStaticData V
  | plmnIdSets false => UdmSliceProfile V
  | plmnIdSets true => UdmSliceData V
  | defaultSingleNssais | singleNssais | dnnLists _ => PlmnIdSets V
  | dnnDataList => DnnList V

/-- The name that the array stands under. -/
def key : ArrayKind → String
  | nssaiDnnIpLists => jsonNssAiDnnIpLists
  | dnnIpList => jsonDnnIpList
  | ipAddress => jsonIpaddress
  | forbiddenAreas => jsonForbiddenAreas
  | areas => jsonAreas
  | plmnIdSets _ => jsonPlmnIdSets
  | defaultSingleNssais => jsonDefaultSingleNssais
  | singleNssais => jsonSingleNssais
  | dnnLists _ => jsonDnnLists
  | dnnDataList => jsonDnnDataList

/-- Where the entities are put. -/
def field : (k : ArrayKind) → k.Holder V → List (k.Entity V)
  | nssaiDnnIpLists, e => StaticIpAddress.nssaiDnnIpLists e
  | dnnIpList, e => NssaiDnnIps.dnnIpList e
  | ipAddress, e => DnnIps.ipAddress e
  | forbiddenAreas, e => UdmStaticData.forbiddenAreas e
  | areas, e => (UdmStaticData.serviceAreaRestriction e).areas
  | plmnIdSets false, e => UdmSliceProfile.plmnIdSets e
  | plmnIdSets true, e => UdmSliceData.plmnIdSets e
  | defaultSingleNssais, e => (PlmnIdSets.nssai e).defaultSingleNssais
  | singleNssais, e => (PlmnIdSets.nssai e).singleNssais
  | dnnLists _, e => PlmnIdSets.dnnLists e
  | dnnDataList, e => DnnList.dnnDataList e

/-- How they are put there: behind what is there, but in the place of earlier `plmnIdSets`. -/
def put : (k : ArrayKind) → List (k.Entity V) → k.Holder V → k.Holder V
  | nssaiDnnIpLists, as, e =>
    { (e : StaticIpAddress V) with nssaiDnnIpLists := e.nssaiDnnIpLists ++ as }
  | dnnIpList, as, e => { (e : NssaiDnnIps V) with dnnIpList := e.dnnIpList ++ as }
  | ipAddress, as, e => { (e : DnnIps V) with ipAddress := e.ipAddress ++ as }
  | forbiddenAreas, as, e => { (e : UdmStaticData V) with forbiddenAreas := e.forbiddenAreas ++ as }
  | areas, as, e => { (e : UdmStaticData V) with
      serviceAreaRestriction.areas := e.serviceAreaRestriction.areas ++ as }
  | plmnIdSets false, as, e => { (e : UdmSliceProfile V) with plmnIdSets := as }
  | plmnIdSets true, as, e => { (e : UdmSliceData V) with plmnIdSets := as }
  | defaultSingleNssais, as, e => { (e : PlmnIdSets V) with
      nssai.defaultSingleNssais := e.nssai.defaultSingleNssais ++ as }
  | singleNssais, as, e => { (e : PlmnIdSets V) with
      nssai.singleNssais := e.nssai.singleNssais ++ as }
  | dnnLists _, as, e => { (e : PlmnIdSets V) with dnnLists := e.dnnLists ++ as }
  | dnnDataList, as, e => { (e : DnnList V) with dnnDataList := e.dnnDataList ++ as }

variable (val : Json → V) (resourcePath : String)

/-- The reader of the object around the array. An element of `nssaiDnnIpLists` starts with nothing;
one of `dnnIpList` with the `dnn` that is left. -/
def reader : (k : ArrayKind) → Reader (k.Holder V)
  | nssaiDnnIpLists => getStaticIpAddress val resourcePath
  | dnnIpList => fun v e => do
    let o ← getNssaiDnnIps val resourcePath v
    return o.getD e
  | ipAddress => fun w e => getDnnIps val resourcePath (DnnIps.dnn e) w
  | forbiddenAreas => getUdmStaticData val resourcePath
  | areas => getServiceAreaRestriction val resourcePath
  | plmnIdSets false => getUdmSliceProfile val resourcePath
  | plmnIdSets true => getUdmSliceData val resourcePath
  | defaultSingleNssais | singleNssais => getSliceInfoNssai val resourcePath
  | dnnLists isSliceData => getPlmnIdSet val resourcePath isSliceData
  | dnnDataList => getDnnList val resourcePath

/-- What the readers do with the elements of an array of the kind. -/
def parse : (k : ArrayKind) → List Json → ParserM (List (k.Entity V))
  | nssaiDnnIpLists, xs => collect (getNssaiDnnIps val resourcePath) xs
  | dnnIpList, xs => getDnnIpList val resourcePath "" [] xs
  | ipAddress, xs => collect (getIpAddr val resourcePath) xs
  | forbiddenAreas, xs =>
    collect (getUdmRoamingAreaReference val resourcePath jsonForbiddenAreas) xs
  | areas, xs => collect (Reader.objectElement resourcePath jsonAreas
      (getUdmRoamingAreaReference val resourcePath jsonAreas)) xs
  | plmnIdSets isSliceData, xs => getPlmnIdSets val resourcePath isSliceData xs
  | defaultSingleNssais, xs =>
    collect (getNssaiDetails val resourcePath jsonDefaultSingleNssais) xs
  | singleNssais, xs => collect (getNssaiDetails val resourcePath jsonSingleNssais) xs
  | dnnLists _, xs => collect (Reader.objectElement resourcePath jsonDnnLists
      (Reader.fresh {} (getDnnList val resourcePath))) xs
  | dnnDataList, xs => collect (Reader.objectElement resourcePath jsonDnnDataList
      (Reader.fresh {} (getDnnData val resourcePath))) xs

/-- **Each array is read with `parse`** by the function that meets it, whatever stands beside it, and
what `parse` gives is what the function has in that field. -/
theorem reads (k : ArrayKind) : ReadsArray (k.reader val resourcePath) k.key
    (k.parse val resourcePath) k.field k.put := by
  cases k with
  | nssaiDnnIpLists => exact reads_nssaiDnnIpLists val resourcePath
  | dnnIpList => exact reads_dnnIpList val resourcePath
  | ipAddress => exact reads_ipAddress val resourcePath
  | forbiddenAreas => exact reads_forbiddenAreas val resourcePath
  | areas => exact reads_areas val resourcePath
  | plmnIdSets isSliceData =>
    cases isSliceData with
    | false => exact reads_plmnIdSets_udmSliceProfile val resourcePath
    | true => exact reads_plmnIdSets_udmSliceData val resourcePath
  | defaultSingleNssais => exact reads_defaultSingleNssais val resourcePath
  | singleNssais => exact reads_singleNssais val resourcePath
  | dnnLists isSliceData => exact reads_dnnLists val resourcePath isSliceData
  | dnnDataList => exact reads_dnnDataList val resourcePath

/-- One array and then another: the entities and the errors of the first, then those of the
second. -/
def inTurn {A : Type} (m n : ParserM (List A)) : ParserM (List A) := do
  let as ← m
  let bs ← n
  return as ++ bs

/-- The elements one by one, each as if it were the only one of its array. -/
def alone (k : ArrayKind) : List Json → ParserM (List (k.Entity V))
  | [] => pure []
  | x :: xs => inTurn (k.parse val resourcePath [x]) (alone k xs)

/-- Where appended arrays are read in turn, elements are read as if alone. -/
theorem parse_eq_alone {k : ArrayKind} (hnil : k.parse val resourcePath [] = pure [])
    (happend : ∀ xs ys, k.parse val resourcePath (xs ++ ys) =
      inTurn (k.parse val resourcePath xs) (k.parse val resourcePath ys)) (xs : List Json) :
    k.parse val resourcePath xs = k.alone val resourcePath xs := by
  induction xs with
  | nil => exact hnil
  | cons x xs ih => rw [← List.singleton_append, happend, List.singleton_append, alone, ih]

/-- Nine of the arrays are read by a loop that treats its elements one by one. -/
theorem parse_append {k : ArrayKind} (h : k ≠ dnnIpList) (xs ys : List Json) :
    k.parse val resourcePath (xs ++ ys) =
      inTurn (k.parse val resourcePath xs) (k.parse val resourcePath ys) := by
  cases k with
  | dnnIpList => exact absurd rfl h
  | _ => exact collect_append _ xs ys

theorem parse_nil (k : ArrayKind) : k.parse val resourcePath [] = pure [] := by
  cases k <;> rfl

end ArrayKind

/-! ## The `dnn` that is left -/

/-- The text of the member `dnn`. -/
def ownDnn (w : Json) : Option String := (w.member? jsonDnn).bind asString

/-- The texts that the objects of an array have, or do not have. -/
def ownDnns (ws : List Json) : List (Option String) := (ws.filter Json.IsObject).map ownDnn

/-- The last text among those, `dnn` if there is none. -/
def leftDnn (dnn : String) (os : List (Option String)) : String :=
  os.foldl (fun dnn o => o.getD dnn) dnn

/-- Entities that were read without a `dnn` from before, with the one they take over. -/
def takeOver : String → List (Option String × DnnIps V) → List (DnnIps V)
  | _, [] => []
  | dnn, (o, e) :: es => { e with dnn := o.getD dnn } :: takeOver (o.getD dnn) es

theorem takeOver_append (dnn : String) (es fs : List (Option String × DnnIps V)) :
    takeOver dnn (es ++ fs) =
      takeOver dnn es ++ takeOver (leftDnn dnn (es.map Prod.fst)) fs := by
  induction es generalizing dnn with
  | nil => rfl
  | cons e es ih => rw [List.cons_append, takeOver, takeOver, ih]; rfl

/-- What was left makes a difference when the first entity has no text of its own. -/
theorem takeOver_eq_iff {dnn : String} {es : List (Option String × DnnIps V)} :
    takeOver dnn es = takeOver "" es ↔ dnn = "" ∨ ∀ o ∈ (es.map Prod.fst).head?, o.isSome := by
  cases es with
  | nil => simp [takeOver]
  | cons p es =>
    obtain ⟨o, e⟩ := p
    cases o with
    | some s => simp [takeOver]
    | none =>
      simp only [takeOver, Option.getD_none, List.map_cons, List.head?_cons, Option.mem_some_iff,
        forall_eq', Option.isSome_none, Bool.false_eq_true, or_false]
      constructor
      · intro h
        have hhead := (List.cons.inj h).1
        exact congrArg DnnIps.dnn hhead
      · intro h
        rw [h]

/-- Each entity is the one of its element alone when none without a text finds one left. -/
theorem takeOver_eq_flatMap_iff {dnn : String} {es : List (Option String × DnnIps V)} :
    takeOver dnn es = es.flatMap (fun p => takeOver "" [p]) ↔
      EachAfter (fun before o => o = none → leftDnn dnn before = "") (es.map Prod.fst) := by
  induction es generalizing dnn with
  | nil => simp [takeOver]
  | cons p es ih =>
    obtain ⟨o, e⟩ := p
    have hhead : ({ e with dnn := o.getD dnn } : DnnIps V) = { e with dnn := o.getD "" } ↔
        (o = none → dnn = "") := by
      cases o with
      | some s => simp
      | none =>
        simp only [Option.getD_none, true_imp_iff]
        exact ⟨fun h => congrArg DnnIps.dnn h, fun h => by rw [h]⟩
    rw [List.map_cons, eachAfter_cons, List.flatMap_cons, takeOver, takeOver, takeOver,
      List.singleton_append, List.cons.injEq, hhead]
    exact and_congr Iff.rfl ih

/-! ## The loop over `dnnIpList` -/

section

variable (val : Json → V) (resourcePath : String)

/-- The `dnn` of an element. -/
def getDnn : Reader (DnnIps V) :=
  .ifMember jsonDnn (.string resourcePath jsonDnn fun s e => { e with dnn := s }) Reader.skip

/-- What is read of an element behind its `dnn`. -/
def getDnnIpsRest : Reader (DnnIps V) := Reader.inOrder [
  .ifMember jsonIpaddress
    (.array resourcePath jsonIpaddress (getIpAddr val resourcePath)
      fun as e => { e with ipAddress := e.ipAddress ++ as }) Reader.skip,
  .into (·.vendorSpecific) (fun m e => { e with vendorSpecific := m }) (getVendorSpecific val)]

theorem getDnnIpsRest_dnn (dnn : String) (w : Json) (e : DnnIps V) :
    getDnnIpsRest val resourcePath w { e with dnn := dnn } =
      (fun e => { e with dnn := dnn }) <$> getDnnIpsRest val resourcePath w e := by
  simp only [getDnnIpsRest, Reader.inOrder, Reader.ifMember, Reader.into, bind_assoc, map_bind]
  congr 1
  funext o
  cases o with
  | none => simp [Reader.skip]
  | some v =>
    simp only [Reader.array]
    cases asArray v with
    | none => simp
    | some zs => simp

theorem getDnn_dnn (dnn : String) (w : Json) (e : DnnIps V) :
    getDnn resourcePath w { e with dnn := dnn } =
      (fun e => { e with dnn := (ownDnn w).getD dnn }) <$> getDnn resourcePath w e := by
  rw [getDnn, Reader.ifMember, Reader.ifMember]
  by_cases hw : w.IsObject
  · simp only [Json.findMember_of_isObject hw, lift_some, pure_bind, ownDnn]
    cases w.member? jsonDnn with
    | none => rfl
    | some v =>
      simp only [Reader.string, Reader.leaf, Option.bind_some]
      cases asString v <;> rfl
  · rw [Json.findMember_eq_none hw]
    rfl

/-- Only the `dnn` of an element depends on what the elements before it have left. -/
theorem getDnnIps_eq (dnn : String) (w : Json) :
    getDnnIps val resourcePath dnn w =
      (fun e => { e with dnn := (ownDnn w).getD dnn }) <$> getDnnIps val resourcePath "" w := by
  have hsplit : ∀ d, getDnnIps val resourcePath d w =
      getDnn resourcePath w { dnn := d } >>= getDnnIpsRest val resourcePath w := fun _ => rfl
  have hdnn := getDnn_dnn resourcePath dnn w ({ dnn := "" } : DnnIps V)
  rw [hsplit, hsplit, hdnn, map_bind, bind_map_left]
  congr 1
  funext e
  exact getDnnIpsRest_dnn val resourcePath _ w e

/-- An element on its own, with the text it has. -/
def getDnnIpElement : Json → ParserM (Option (Option String × DnnIps V)) :=
  Reader.objectElement resourcePath jsonDnnIpList fun w => do
    let e ← getDnnIps val resourcePath "" w
    return some (ownDnn w, e)

/-- **The loop reads the elements on their own**, and hands the texts on. -/
theorem getDnnIpList_eq_takeOver (dnn : String) (ddnlist : List (DnnIps V)) (ws : List Json) :
    getDnnIpList val resourcePath dnn ddnlist ws = (do
      let es ← collect (getDnnIpElement val resourcePath) ws
      return ddnlist ++ takeOver dnn es) := by
  induction ws generalizing dnn ddnlist with
  | nil => simp [getDnnIpList, takeOver]
  | cons w ws ih =>
    rw [getDnnIpList, collect_cons, getDnnIpElement, Reader.objectElement]
    by_cases hw : w.IsObject
    · rw [if_pos hw, if_pos hw, getDnnIps_eq]
      simp only [bind_map_left, bind_assoc, pure_bind, ih, Option.toList_some,
        List.singleton_append, takeOver, List.append_assoc]
      rfl
    · rw [if_neg hw, if_neg hw]
      simp only [bind_assoc, pure_bind, ih, Option.toList_none, List.nil_append]
      rfl

/-- The texts of the entities are those of the elements. -/
theorem ownDnns_of_yields {q : Event → Prop} {ws : List Json}
    {es : List (Option String × DnnIps V)}
    (h : Yields q (collect (getDnnIpElement val resourcePath) ws) es) :
    es.map Prod.fst = ownDnns ws := by
  induction ws generalizing es with
  | nil =>
    rw [collect_nil, yields_pure] at h
    rw [h]
    rfl
  | cons w ws ih =>
    simp only [collect_cons, yields_bind, yields_pure] at h
    obtain ⟨o, ho, fs, hfs, rfl⟩ := h
    rw [getDnnIpElement, Reader.objectElement] at ho
    rw [List.map_append, ih hfs, ownDnns, ownDnns]
    by_cases hw : w.IsObject
    · rw [if_pos hw, yields_bind] at ho
      obtain ⟨e, -, he⟩ := ho
      obtain rfl := yields_pure.1 he
      rw [List.filter_cons_of_pos (by simpa using hw)]
      rfl
    · rw [if_neg hw, yields_bind] at ho
      obtain ⟨u, -, he⟩ := ho
      obtain rfl := yields_pure.1 he
      rw [List.filter_cons_of_neg (by simpa using hw)]
      rfl

/-- The addresses in the elements are objects where they are in an array. -/
def AddressesAreObjects (ws : List Json) : Prop :=
  ∀ w ∈ ws, AtMember jsonIpaddress ElementsAreObjects w

/-- The elements are read to their end exactly when the addresses in them are objects. -/
theorem yields_getDnnIpElement_iff {ws : List Json} :
    (∃ es, Yields (fun _ => True) (collect (getDnnIpElement val resourcePath) ws) es) ↔
      AddressesAreObjects ws := by
  have hreturns := (@conforms_getDnnIpLists V val resourcePath []).returns
    { quiet := false, strict := false } (.arr ws)
  have hread : getDnnIpLists val resourcePath (.arr ws) [] =
      takeOver "" <$> collect (getDnnIpElement val resourcePath) ws := by
    show getDnnIpList val resourcePath "" [] ws = _
    rw [getDnnIpList_eq_takeOver, ← bind_pure_comp]
    rfl
  rw [ReturnsIff, allowed_loose, passes_loose, hread, safe_array_iff] at hreturns
  have helements : AtElements (object true [] dnnIpsFields).Safe (.arr ws) ↔
      AddressesAreObjects ws := by
    simp only [AtElements, Json.arr.injEq, forall_eq', safe_dnnIps, AddressesAreObjects]
  rw [← helements, ← hreturns]
  simp only [yields_map]
  exact ⟨fun h => ⟨_, h.choose, h.choose_spec, rfl⟩, fun h =>
    ⟨h.choose_spec.choose, h.choose_spec.choose_spec.1⟩⟩

/-! ## When elements are read as if alone -/

/-- Behind `xs`, the first object of `ys` has a `dnn` of its own, or nothing is left for it. -/
def NothingHandedOn (xs ys : List Json) : Prop :=
  leftDnn "" (ownDnns xs) = "" ∨ ∀ o ∈ (ownDnns ys).head?, o.isSome

/-- For each object without a `dnn` of its own, nothing is left by those before it. -/
def NothingTakenOver (ws : List Json) : Prop :=
  EachAfter (fun before o => o = none → leftDnn "" before = "") (ownDnns ws)

theorem parse_dnnIpList (ws : List Json) : ArrayKind.dnnIpList.parse val resourcePath ws =
    takeOver "" <$> collect (getDnnIpElement val resourcePath) ws := by
  show getDnnIpList val resourcePath "" [] ws = _
  rw [getDnnIpList_eq_takeOver, ← bind_pure_comp]
  rfl

theorem alone_dnnIpList (ws : List Json) : ArrayKind.dnnIpList.alone val resourcePath ws =
    (fun es => es.flatMap fun p => takeOver "" [p]) <$>
      collect (getDnnIpElement val resourcePath) ws := by
  induction ws with
  | nil => rfl
  | cons w ws ih =>
    rw [ArrayKind.alone, ih, parse_dnnIpList, ArrayKind.inTurn, collect_cons, collect_cons,
      collect_nil]
    simp only [bind_map_left, map_bind, bind_assoc, pure_bind, map_pure, List.append_nil,
      List.flatMap_append]
    congr 1
    funext o
    cases o with
    | none => simp [takeOver]
    | some p => simp

theorem parse_dnnIpList_append_iff (xs ys : List Json) :
    ArrayKind.dnnIpList.parse val resourcePath (xs ++ ys) =
        ArrayKind.inTurn (ArrayKind.dnnIpList.parse val resourcePath xs)
          (ArrayKind.dnnIpList.parse val resourcePath ys) ↔
      (AddressesAreObjects (xs ++ ys) → NothingHandedOn xs ys) := by
  -- both sides do something with what the elements of both arrays give on their own
  let both : ParserM (List (Option String × DnnIps V) × List (Option String × DnnIps V)) := do
    let es ← collect (getDnnIpElement val resourcePath) xs
    let fs ← collect (getDnnIpElement val resourcePath) ys
    return (es, fs)
  have hwhole : ArrayKind.dnnIpList.parse val resourcePath (xs ++ ys) =
      (fun p => takeOver "" (p.1 ++ p.2)) <$> both := by
    rw [parse_dnnIpList, collect_append]
    simp only [both, map_bind, map_pure]
  have hturn : ArrayKind.inTurn (ArrayKind.dnnIpList.parse val resourcePath xs)
      (ArrayKind.dnnIpList.parse val resourcePath ys) =
        (fun p => takeOver "" p.1 ++ takeOver "" p.2) <$> both := by
    rw [parse_dnnIpList, parse_dnnIpList, ArrayKind.inTurn]
    simp only [both, map_bind, map_pure, bind_map_left]
  have hvalues : ∀ p, Yields (fun _ => True) both p →
      (takeOver "" (p.1 ++ p.2) = takeOver "" p.1 ++ takeOver "" p.2 ↔ NothingHandedOn xs ys) := by
    intro p hp
    obtain ⟨es, hes, hp⟩ := yields_bind.1 hp
    obtain ⟨fs, hfs, hp⟩ := yields_bind.1 hp
    obtain rfl := yields_pure.1 hp
    rw [takeOver_append, List.append_cancel_left_eq, takeOver_eq_iff,
      ownDnns_of_yields val resourcePath hes, ownDnns_of_yields val resourcePath hfs,
      NothingHandedOn]
  have hreturns : (∃ p, Yields (fun _ => True) both p) ↔ AddressesAreObjects (xs ++ ys) := by
    simp only [both, yields_bind, yields_pure, AddressesAreObjects, List.forall_mem_append]
    have hxs := @yields_getDnnIpElement_iff V val resourcePath xs
    have hys := @yields_getDnnIpElement_iff V val resourcePath ys
    rw [AddressesAreObjects] at hxs hys
    rw [← hxs, ← hys]
    constructor
    · rintro ⟨es, es₁, h₁, es₂, h₂, -⟩
      exact ⟨⟨es₁, h₁⟩, es₂, h₂⟩
    · rintro ⟨⟨es₁, h₁⟩, es₂, h₂⟩
      exact ⟨_, es₁, h₁, es₂, h₂, rfl⟩
  rw [hwhole, hturn, map_eq_map_iff, ← hreturns]
  constructor
  · intro h hp
    obtain ⟨p, hp⟩ := hp
    exact (hvalues p hp).1 (h p hp)
  · intro h p hp
    exact (hvalues p hp).2 (h ⟨p, hp⟩)

theorem parse_dnnIpList_alone_iff (ws : List Json) :
    ArrayKind.dnnIpList.parse val resourcePath ws =
        ArrayKind.dnnIpList.alone val resourcePath ws ↔
      (AddressesAreObjects ws → NothingTakenOver ws) := by
  rw [parse_dnnIpList, alone_dnnIpList, map_eq_map_iff,
    ← @yields_getDnnIpElement_iff V val resourcePath ws]
  have hvalues : ∀ es, Yields (fun _ => True) (collect (getDnnIpElement val resourcePath) ws) es →
      (takeOver "" es = es.flatMap (fun p => takeOver "" [p]) ↔ NothingTakenOver ws) := by
    intro es hes
    rw [takeOver_eq_flatMap_iff, ownDnns_of_yields val resourcePath hes, NothingTakenOver]
  constructor
  · intro h hes
    obtain ⟨es, hes⟩ := hes
    exact (hvalues es hes).1 (h es hes)
  · intro h es hes
    exact (hvalues es hes).2 (h ⟨es, hes⟩)

/-- **When arrays are read element by element.** The reader of the object around an array reads it
with `parse`, whatever the other members are, and keeps what that gives. Appended arrays give what
they give in turn, and each element gives what it gives alone: for nine of the ten arrays always, for
`dnnIpList` exactly when no object without a `dnn` stands behind one that is not empty. (Where an
address is not an object the run is aborted on either side.) -/
theorem arrays_read_by_element_iff (k : ArrayKind) (xs ys : List Json) :
    ReadsArray (k.reader val resourcePath) k.key (k.parse val resourcePath) k.field k.put ∧
    (k.parse val resourcePath (xs ++ ys) =
        ArrayKind.inTurn (k.parse val resourcePath xs) (k.parse val resourcePath ys) ↔
      (k = .dnnIpList → AddressesAreObjects (xs ++ ys) → NothingHandedOn xs ys)) ∧
    (k.parse val resourcePath xs = k.alone val resourcePath xs ↔
      (k = .dnnIpList → AddressesAreObjects xs → NothingTakenOver xs)) := by
  refine ⟨k.reads val resourcePath, ?_⟩
  by_cases hk : k = .dnnIpList
  · subst hk
    rw [forall_prop_of_true rfl, forall_prop_of_true rfl]
    exact ⟨parse_dnnIpList_append_iff val resourcePath xs ys,
      parse_dnnIpList_alone_iff val resourcePath xs⟩
  · have happend := ArrayKind.parse_append val resourcePath hk
    have halone := ArrayKind.parse_eq_alone val resourcePath
      (ArrayKind.parse_nil val resourcePath k) happend
    exact ⟨iff_of_true (happend xs ys) fun h => absurd h hk,
      iff_of_true (halone xs) fun h => absurd h hk⟩

end

/-- An element of `dnnIpList` with a `dnn`, and one with only an address. -/
def dnnAndNone : List Json :=
  [.obj [("dnn", .str "a"), ("ipAddress", .arr [.obj [("ipv4Addr", .str "10.0.0.1")]])],
    .obj [("ipAddress", .arr [.obj [("ipv4Addr", .str "10.0.0.2")]])]]

/-- The second element takes over the `dnn` of the first. -/
theorem dnn_taken_over :
    ArrayKind.dnnIpList.parse id "" dnnAndNone =
        pure [{ dnn := "a", ipAddress := [{ ip := "10.0.0.1", ipType := .ipv4 }] },
          { dnn := "a", ipAddress := [{ ip := "10.0.0.2", ipType := .ipv4 }] }] ∧
      ArrayKind.dnnIpList.alone id "" dnnAndNone =
        pure [{ dnn := "a", ipAddress := [{ ip := "10.0.0.1", ipType := .ipv4 }] },
          { dnn := "", ipAddress := [{ ip := "10.0.0.2", ipType := .ipv4 }] }] ∧
      ArrayKind.dnnIpList.parse id "" dnnAndNone ≠ ArrayKind.dnnIpList.alone id "" dnnAndNone := by
  have hparse : ArrayKind.dnnIpList.parse id "" dnnAndNone =
      pure [{ dnn := "a", ipAddress := [{ ip := "10.0.0.1", ipType := .ipv4 }] },
        { dnn := "a", ipAddress := [{ ip := "10.0.0.2", ipType := .ipv4 }] }] := rfl
  have halone : ArrayKind.dnnIpList.alone id "" dnnAndNone =
      pure [{ dnn := "a", ipAddress := [{ ip := "10.0.0.1", ipType := .ipv4 }] },
        { dnn := "", ipAddress := [{ ip := "10.0.0.2", ipType := .ipv4 }] }] := rfl
  refine ⟨hparse, halone, fun h => ?_⟩
  rw [hparse, halone] at h
  have hvalues := (Run.ret.inj h).1
  simp at hvalues

end ProvisioningValidator
