import Mathlib
import ProvisioningValidator.Conformance
import ProvisioningValidator.VariantAccess

/-!
# What a request makes the parser read

The loop over the members of a change reads `data` under the path that it has met so far, and gives
up on the first member that it cannot use. The functions here compute from a request, without any
reading, what is going to be read (`readings`), and the theorems say what the parser does by it:

* `returnsIff_getChanges` — it returns exactly if everything that is read is safe to read; without
  an error exactly if besides no fault is found with what is read; and without a text for its own
  flag exactly if nothing is passed over or given up on;
* `result_getChanges` — what its result is, and which operation and path each change has.
-/

namespace ProvisioningValidator

open Lib Lib.Run Lib.Shape

variable {V : Type} {val : Json → V} {mode : Mode}

/-! ## The members of a change -/

/-- The text of a value, empty for a value of another kind. -/
def textOf (v : Json) : String := (asString v).getD ""

/-- A member of a change that the parser does not give up on. -/
def memberOk (m : String × Json) : Bool :=
  if cstr m.1 = jsonOperation then (asString m.2).any fun s =>
    s = jsonOperationCreate ∨ s = jsonOperationUpdate ∨ s = jsonOperationDelete
  else if cstr m.1 = jsonResourcePath then (asString m.2).any fun s => s ≠ ""
  else if cstr m.1 = jsonData then decide m.2.IsObject
  else true

/-- The members up to the first one that the parser gives up on. -/
def usable (ms : List (String × Json)) : List (String × Json) := ms.takeWhile memberOk

/-- The data that are read, each with the path that was met before it. -/
def readings (resourcePath : String) : List (String × Json) → List (String × Json)
  | [] => []
  | m :: ms =>
    if cstr m.1 = jsonResourcePath then readings (textOf m.2) ms
    else if cstr m.1 = jsonData then (resourcePath, m.2) :: readings resourcePath ms
    else readings resourcePath ms

/-- What the members of a name leave behind: the text of the last one. -/
def lastText (key start : String) (ms : List (String × Json)) : String :=
  ms.foldl (fun s m => if cstr m.1 = key then textOf m.2 else s) start

section

variable (val)

/-- A member that the parser does not give up on. -/
def changeStep (c : Change V) (m : String × Json) : ParserM (Change V) :=
  if cstr m.1 = jsonOperation then pure { c with operation := textOf m.2 }
  else if cstr m.1 = jsonResourcePath then pure { c with resourcePath := textOf m.2 }
  else if cstr m.1 = jsonData then getChangeData val m.2 c
  else pure c

end

theorem getChange_cons_of_ok {m : String × Json} (h : memberOk m = true) (c : Change V)
    (ms : List (String × Json)) :
    getChange val c (m :: ms) = changeStep val c m >>= fun c => getChange val c ms := by
  obtain ⟨name, value⟩ := m
  rw [getChange, changeStep]
  simp only [memberOk] at h
  split_ifs at h with hop hpath hdata
  · rw [if_pos hop, if_pos hop, getOperation, textOf]
    cases hs : asString value with
    | none => simp [hs] at h
    | some s =>
      simp only [hs, Option.any_some, decide_eq_true_eq] at h
      have hne : s ≠ "" := by
        rintro rfl
        simp at h
      have hknown : ¬ (s ≠ jsonOperationCreate ∧ s ≠ jsonOperationUpdate ∧
          s ≠ jsonOperationDelete) := by tauto
      simp only [if_neg hne, if_neg hknown, pure_bind, Option.getD_some]
  · rw [if_neg hop, if_pos hpath, if_neg hop, if_pos hpath, getResourcePath, textOf]
    cases hs : asString value with
    | none => simp [hs] at h
    | some s =>
      simp only [hs, Option.any_some, decide_eq_true_eq] at h
      simp only [if_neg h, pure_bind, Option.getD_some]
  · rw [if_neg hop, if_neg hpath, if_pos hdata, if_neg hop, if_neg hpath, if_pos hdata,
      if_pos (of_decide_eq_true h)]
  · rw [if_neg hop, if_neg hpath, if_neg hdata, if_neg hop, if_neg hpath, if_neg hdata, pure_bind]

theorem getChange_cons_of_not_ok (val : Json → V) {m : String × Json} (h : memberOk m = false)
    (ms : List (String × Json)) : ∃ err, ∀ c : Change V,
      getChange val c (m :: ms) = setParsingError err >>= fun _ => pure none := by
  obtain ⟨name, value⟩ := m
  simp only [getChange]
  simp only [memberOk] at h
  split_ifs at h with hop hpath hdata
  · simp only [if_pos hop, getOperation]
    cases hs : asString value with
    | none => exact ⟨_, fun c => rfl⟩
    | some s =>
      simp only [hs, Option.any_some, decide_eq_false_iff_not, not_or] at h
      by_cases hs : s = ""
      · simp only [if_pos hs]
        exact ⟨_, fun c => rfl⟩
      · simp only [if_neg hs, if_pos h]
        exact ⟨_, fun c => rfl⟩
  · simp only [if_neg hop, if_pos hpath, getResourcePath]
    cases hs : asString value with
    | none => exact ⟨_, fun c => rfl⟩
    | some s =>
      simp only [hs, Option.any_some, decide_eq_false_iff_not, not_not] at h
      simp only [if_pos h]
      exact ⟨_, fun c => rfl⟩
  · simp only [if_neg hop, if_neg hpath, if_pos hdata, if_neg (of_decide_eq_false h)]
    exact ⟨_, fun c => rfl⟩

/-- **The loop over the members of a change**: the members up to the first one that it cannot use,
one after the other. -/
theorem getChange_eq (val : Json → V) (ms : List (String × Json)) : ∃ err, ∀ c : Change V,
    getChange val c ms = (usable ms).foldlM (changeStep val) c >>= fun c =>
      if ms.all memberOk then pure (some c)
      else setParsingError err >>= fun _ => pure none := by
  induction ms with
  | nil => exact ⟨"", fun c => by simp [getChange, usable]⟩
  | cons m ms ih =>
    by_cases h : memberOk m = true
    · obtain ⟨err, herr⟩ := ih
      refine ⟨err, fun c => ?_⟩
      rw [getChange_cons_of_ok h, usable, List.takeWhile_cons_of_pos h, List.foldlM_cons]
      simp only [herr, bind_assoc, List.all_cons, h, Bool.true_and, usable]
    · rw [Bool.not_eq_true] at h
      obtain ⟨err, herr⟩ := getChange_cons_of_not_ok val h ms
      refine ⟨err, fun c => ?_⟩
      rw [herr c, usable, List.takeWhile_cons_of_neg (by simp [h]), List.foldlM_nil, pure_bind,
        List.all_cons, h, Bool.false_and, if_neg (by decide)]

/-! ## The data of a change -/

/-- `P` holds of the data in the shape of every kind that the path names. -/
def AsNamed (P : Shape → Json → Prop) (r : String × Json) : Prop :=
  ∀ k : ResourceKind, contains r.1 k.keyword = true → P k.shape r.2

namespace ResourceKind

/-- A reader leaves the operation and the path of a change. -/
theorem header_readIfNamed {q : Event → Prop} {d : Json} {k : ResourceKind} {c c' : Change V}
    (h : Yields q (readIfNamed val d c k) c') :
    c'.operation = c.operation ∧ c'.resourcePath = c.resourcePath := by
  rw [readIfNamed] at h
  split_ifs at h
  · obtain ⟨e, -, he⟩ := yields_bind.1 h
    rw [yields_pure.1 he]
    exact ⟨operation_withEntity k e c, resourcePath_withEntity k e c⟩
  · rw [yields_pure.1 h]
    exact ⟨rfl, rfl⟩

theorem returnsIff_readIfNamed (d : Json) (k : ResourceKind) (c : Change V) :
    ReturnsIff (Allowed mode) (readIfNamed val d c k)
      (contains c.resourcePath k.keyword = true → k.shape.Passes mode d) := by
  rw [readIfNamed]
  split_ifs with h
  · have hread : ReturnsIff (Allowed mode) (k.reader val c.resourcePath d (k.entity c))
        (k.shape.Passes mode d) :=
      (conforms_reader c.resourcePath k (k.entity c)).returns mode d
    refine (hread.bind fun e _ => returnsIff_pure (k.withEntity e c)).congr ?_
    simp [h]
  · exact (returnsIff_pure c).congr (by simp [h])

end ResourceKind

open ResourceKind in
theorem header_getChangeData {q : Event → Prop} {d : Json} {c c' : Change V}
    (h : Yields q (getChangeData val d c) c') :
    c'.operation = c.operation ∧ c'.resourcePath = c.resourcePath := by
  rw [getChangeData_eq_foldlM] at h
  generalize inParserOrder = ks at h
  induction ks generalizing c with
  | nil =>
    rw [List.foldlM_nil, yields_pure] at h
    exact h ▸ ⟨rfl, rfl⟩
  | cons k ks ih =>
    obtain ⟨c₁, hfirst, hrest⟩ := yields_bind.1 h
    have hheader := header_readIfNamed hfirst
    obtain ⟨hop, hpath⟩ := ih hrest
    exact ⟨hop.trans hheader.1, hpath.trans hheader.2⟩

open ResourceKind in
theorem returnsIff_getChangeData (d : Json) (c : Change V) :
    ReturnsIff (Allowed mode) (getChangeData val d c)
      (AsNamed (Passes mode) (c.resourcePath, d)) := by
  have hall : ∀ (ks : List ResourceKind) (c : Change V),
      ReturnsIff (Allowed mode) (ks.foldlM (readIfNamed val d) c)
        (∀ k ∈ ks, contains c.resourcePath k.keyword = true → k.shape.Passes mode d) := by
    intro ks
    induction ks with
    | nil => exact fun c => (returnsIff_pure c).congr (by simp)
    | cons k ks ih =>
      intro c
      rw [List.foldlM_cons]
      have hrest : ∀ c₁, Yields (Allowed mode) (readIfNamed val d c k) c₁ →
          ReturnsIff (Allowed mode) (ks.foldlM (readIfNamed val d) c₁)
            (∀ k ∈ ks, contains c.resourcePath k.keyword = true → k.shape.Passes mode d) :=
        fun c₁ hc₁ => (header_readIfNamed hc₁).2 ▸ ih c₁
      refine ((returnsIff_readIfNamed d k c).bind hrest).congr ?_
      rw [List.forall_mem_cons]
  rw [getChangeData_eq_foldlM]
  refine (hall inParserOrder c).congr ⟨fun h k hk => ?_, fun h k _ => h k⟩
  exact h k (mem_inParserOrder k) hk

/-! ## A change -/

/-- Among the members that the parser uses: what they leave of operation and path. -/
theorem header_foldlM {q : Event → Prop} {ms : List (String × Json)} {c c' : Change V}
    (h : Yields q (ms.foldlM (changeStep val) c) c') :
    c'.operation = lastText jsonOperation c.operation ms ∧
      c'.resourcePath = lastText jsonResourcePath c.resourcePath ms := by
  induction ms generalizing c with
  | nil =>
    rw [List.foldlM_nil, yields_pure] at h
    exact h ▸ ⟨rfl, rfl⟩
  | cons m ms ih =>
    obtain ⟨c₁, hfirst, hrest⟩ := yields_bind.1 h
    obtain ⟨hop, hpath⟩ := ih hrest
    have hne : jsonOperation ≠ jsonResourcePath := by decide
    have hheader : c₁.operation = (if cstr m.1 = jsonOperation then textOf m.2 else c.operation) ∧
        c₁.resourcePath =
          if cstr m.1 = jsonResourcePath then textOf m.2 else c.resourcePath := by
      rw [changeStep] at hfirst
      split_ifs at hfirst with h₁ h₂ h₃
      · rw [yields_pure.1 hfirst, if_pos h₁, if_neg (h₁ ▸ hne)]
        exact ⟨rfl, rfl⟩
      · rw [yields_pure.1 hfirst, if_neg h₁, if_pos h₂]
        exact ⟨rfl, rfl⟩
      · rw [if_neg h₁, if_neg h₂]
        exact header_getChangeData hfirst
      · rw [yields_pure.1 hfirst, if_neg h₁, if_neg h₂]
        exact ⟨rfl, rfl⟩
    rw [hop, hpath, hheader.1, hheader.2]
    exact ⟨rfl, rfl⟩

theorem readings_cons (p : String) (m : String × Json) (ms : List (String × Json)) :
    readings p (m :: ms) =
      readings p [m] ++ readings (if cstr m.1 = jsonResourcePath then textOf m.2 else p) ms := by
  simp only [readings]
  split_ifs <;> rfl

theorem readings_singleton (p : String) (m : String × Json) :
    readings p [m] = if cstr m.1 = jsonData then [(p, m.2)] else [] := by
  have hne : jsonResourcePath ≠ jsonData := by decide
  simp only [readings]
  split_ifs with h₁ h₂
  · exact absurd (h₁.symm.trans h₂) hne
  · rfl
  · rfl
  · rfl

theorem changeStep_data {m : String × Json} (h : cstr m.1 = jsonData) (c : Change V) :
    changeStep val c m = getChangeData val m.2 c := by
  have hop : ¬ cstr m.1 = jsonOperation := by rw [h]; decide
  have hpath : ¬ cstr m.1 = jsonResourcePath := by rw [h]; decide
  rw [changeStep, if_neg hop, if_neg hpath, if_pos h]

theorem returnsIff_changeStep (m : String × Json) (c : Change V) :
    ReturnsIff (Allowed mode) (changeStep val c m)
      (∀ r ∈ readings c.resourcePath [m], AsNamed (Passes mode) r) := by
  rw [readings_singleton]
  by_cases h : cstr m.1 = jsonData
  · rw [changeStep_data h, if_pos h]
    exact (returnsIff_getChangeData m.2 c).congr (by simp)
  · rw [changeStep, if_neg h, if_neg h]
    split_ifs <;> exact (returnsIff_pure _).congr (by simp)

/-- What a step leaves as the path for the rest. -/
theorem resourcePath_changeStep {q : Event → Prop} {m : String × Json} {c c' : Change V}
    (h : Yields q (changeStep val c m) c') : c'.resourcePath =
      if cstr m.1 = jsonResourcePath then textOf m.2 else c.resourcePath := by
  have hone : Yields q ([m].foldlM (changeStep val) c) c' := by
    rw [List.foldlM_cons]
    exact yields_bind.2 ⟨c', h, yields_pure.2 rfl⟩
  exact (header_foldlM hone).2

theorem returnsIff_foldlM_changeStep (val : Json → V) (ms : List (String × Json)) (c : Change V) :
    ReturnsIff (Allowed mode) (ms.foldlM (changeStep val) c)
      (∀ r ∈ readings c.resourcePath ms, AsNamed (Passes mode) r) := by
  induction ms generalizing c with
  | nil => exact (returnsIff_pure c).congr (by simp [readings])
  | cons m ms ih =>
    rw [List.foldlM_cons, readings_cons]
    refine ((returnsIff_changeStep m c).bind fun c₁ hc₁ => ?_).congr List.forall_mem_append.symm
    exact resourcePath_changeStep hc₁ ▸ ih c₁

/-! ## The list of changes -/

/-- The members of a change, none for a value that is not an object. -/
def changeMembers (x : Json) : List (String × Json) := x.members.getD []

/-- An element of `changes` that the parser does not give up on. -/
def changeOk (x : Json) : Bool := decide x.IsObject && (changeMembers x).all memberOk

/-- The data that are read in an element of `changes`. -/
def changeReadings (x : Json) : List (String × Json) := readings "" (usable (changeMembers x))

/-- The data that are read in the elements of `changes`, up to the one that the parser gives up
on. -/
def listReadings : List Json → List (String × Json)
  | [] => []
  | x :: xs => changeReadings x ++ if changeOk x = true then listReadings xs else []

/-- The text that the last member of a name leaves in a change. -/
def changeText (key : String) (x : Json) : String := lastText key "" (changeMembers x)

/-- The texts of all members of a name in a change. -/
def changeTexts (key : String) (x : Json) : List String :=
  ((changeMembers x).filter (cstr ·.1 = key)).map (textOf ·.2)

/-- The change creates or updates, whichever of its members says so. -/
def Provisions (x : Json) : Prop := ∃ operation ∈ changeTexts jsonOperation x,
  operation = jsonOperationCreate ∨ operation = jsonOperationUpdate

/-- **The loop over the list of changes**, one element after the other. -/
theorem getChanges_cons (val : Json → V) (x : Json) : ∃ err, ∀ xs : List Json,
    getChanges val (x :: xs) = (usable (changeMembers x)).foldlM (changeStep val) {} >>= fun c =>
      if changeOk x = true then getChanges val xs >>= fun r => pure (r.1, c :: r.2)
      else setParsingError err >>= fun _ => pure (false, []) := by
  cases x with
  | obj ms =>
    obtain ⟨err, herr⟩ := getChange_eq val ms
    refine ⟨err, fun xs => ?_⟩
    have hok : changeOk (.obj ms) = ms.all memberOk := by
      simp [changeOk, changeMembers, Json.isObject_obj]
    rw [getChanges, herr, hok, bind_assoc]
    refine congrArg _ (funext fun c => ?_)
    split_ifs
    · rw [pure_bind]
    · rw [bind_assoc]
      exact congrArg _ (funext fun _ => pure_bind _ _)
  | _ => exact ⟨_, fun xs => rfl⟩

theorem returnsIff_getChanges (xs : List Json) :
    ReturnsIff (Allowed mode) (getChanges val xs)
      ((∀ r ∈ listReadings xs, AsNamed (Passes mode) r) ∧
        (mode.strict = true → ∀ x ∈ xs, changeOk x = true)) := by
  induction xs with
  | nil => exact (returnsIff_pure _).congr (by simp [listReadings])
  | cons x xs ih =>
    obtain ⟨err, herr⟩ := getChanges_cons val x
    have hchange : ReturnsIff (Allowed mode)
        ((usable (changeMembers x)).foldlM (changeStep val) {})
        (∀ r ∈ changeReadings x, AsNamed (Passes mode) r) :=
      returnsIff_foldlM_changeStep val (usable (changeMembers x)) {}
    rw [herr, listReadings]
    split_ifs with hok
    · refine (hchange.bind fun c _ => ih.bind fun r _ => returnsIff_pure _).congr ?_
      rw [List.forall_mem_append, List.forall_mem_cons, and_true, and_iff_right hok, and_assoc]
    · refine (hchange.bind fun c _ => (returnsIff_emit_iff _).bind
        fun _ _ => returnsIff_pure _).congr ?_
      rw [and_true, List.append_nil, List.forall_mem_cons]
      refine and_congr_right fun _ => ?_
      simp [Allowed, hok]

/-- All members are used where the parser gives up on none. -/
theorem usable_of_changeOk {x : Json} (h : changeOk x = true) :
    usable (changeMembers x) = changeMembers x := by
  rw [usable, List.takeWhile_eq_self_iff]
  simp only [changeOk, Bool.and_eq_true, List.all_eq_true] at h
  exact h.2

/-- A change that is read to its end has the operation and the path of the request. -/
theorem header_of_read {q : Event → Prop} {x : Json} {c : Change V}
    (h : Yields q ((usable (changeMembers x)).foldlM (changeStep val) {}) c)
    (hok : changeOk x = true) :
    c.operation = changeText jsonOperation x ∧ c.resourcePath = changeText jsonResourcePath x := by
  rw [usable_of_changeOk hok] at h
  exact header_foldlM h

/-- The changes of the result, if all were read. -/
theorem result_getChanges {q : Event → Prop} {xs : List Json} {r : Bool × List (Change V)}
    (h : Yields q (getChanges val xs) r) : (r.1 = true ↔ ∀ x ∈ xs, changeOk x = true) ∧
      (r.1 = true → List.Forall₂ (fun x c => c.operation = changeText jsonOperation x ∧
        c.resourcePath = changeText jsonResourcePath x) xs r.2) := by
  induction xs generalizing r with
  | nil =>
    rw [getChanges, yields_pure] at h
    subst h
    exact ⟨by simp, fun _ => .nil⟩
  | cons x xs ih =>
    obtain ⟨err, herr⟩ := getChanges_cons val x
    rw [herr] at h
    obtain ⟨c, hc, hrest⟩ := yields_bind.1 h
    rw [List.forall_mem_cons]
    split_ifs at hrest with hok
    · obtain ⟨r', hr', hr⟩ := yields_bind.1 hrest
      obtain ⟨hret, hall⟩ := ih hr'
      rw [yields_pure.1 hr]
      refine ⟨by rw [hret, and_iff_right hok], fun hret' => .cons ?_ (hall hret')⟩
      exact header_of_read hc hok
    · obtain ⟨-, -, hr⟩ := yields_bind.1 hrest
      rw [yields_pure.1 hr]
      exact ⟨by simp [hok], by simp⟩

/-- The elements of `changes`, none if there is no such array. -/
def requestChanges (doc : Json) : List Json :=
  ((doc.member? jsonChanges).bind asArray).getD []

/-- The parser does not give up on the changes of a document. -/
def changesOk (doc : Json) : Bool :=
  match doc.member? jsonChanges with
  | some w => (asArray w).any fun xs => xs.all changeOk
  | none => true

/-- What is done with `changes`, in a document that is an object. -/
theorem getChangesToValidate_eq {doc : Json} (hdoc : doc.IsObject) :
    getChangesToValidate val doc = match doc.member? jsonChanges with
      | some w => match asArray w with
        | some xs => getChanges val xs
        | none => setParsingError (jsonChanges ++ " is not a list") >>= fun _ => pure (false, [])
      | none => pure (true, []) := by
  have hfind := Json.findMember_of_isObject hdoc jsonChanges
  cases hchanges : doc.member? jsonChanges with
  | none => simp only [getChangesToValidate, hfind, hchanges, lift_some, pure_bind]
  | some w =>
    cases hw : asArray w with
    | none => simp only [getChangesToValidate, hfind, hchanges, hw, lift_some, pure_bind]
    | some xs => simp only [getChangesToValidate, hfind, hchanges, hw, lift_some, pure_bind]

/-- A document that is read is an object. -/
theorem isObject_of_getChangesToValidate {q : Event → Prop} {doc : Json}
    {r : Bool × List (Change V)} (h : Yields q (getChangesToValidate val doc) r) :
    doc.IsObject := by
  by_contra hdoc
  rw [getChangesToValidate, Json.findMember_eq_none hdoc] at h
  exact not_yields_abort h

theorem returnsIff_getChangesToValidate {doc : Json} (hdoc : doc.IsObject) :
    ReturnsIff (Allowed mode) (getChangesToValidate val doc)
      ((∀ r ∈ listReadings (requestChanges doc), AsNamed (Passes mode) r) ∧
        (mode.strict = true → changesOk doc = true)) := by
  rw [getChangesToValidate_eq hdoc, requestChanges, changesOk]
  cases doc.member? jsonChanges with
  | none => exact (returnsIff_pure _).congr (by simp [listReadings])
  | some w =>
    dsimp only
    rw [Option.bind_some]
    cases asArray w with
    | some xs =>
      rw [Option.getD_some, Option.any_some]
      simpa only [List.all_eq_true] using returnsIff_getChanges xs
    | none =>
      refine ((returnsIff_emit_iff _).bind fun _ _ => returnsIff_pure _).congr ?_
      simp [listReadings, Allowed]

theorem result_getChangesToValidate {q : Event → Prop} {doc : Json} {r : Bool × List (Change V)}
    (h : Yields q (getChangesToValidate val doc) r) : r.1 = changesOk doc ∧
      (r.1 = true → List.Forall₂ (fun x c => c.operation = changeText jsonOperation x ∧
        c.resourcePath = changeText jsonResourcePath x) (requestChanges doc) r.2) := by
  rw [getChangesToValidate_eq (isObject_of_getChangesToValidate h)] at h
  rw [changesOk, requestChanges]
  cases hw : doc.member? jsonChanges with
  | none =>
    rw [hw] at h
    rw [yields_pure.1 h]
    exact ⟨rfl, fun _ => .nil⟩
  | some w =>
    rw [hw] at h
    dsimp only at h ⊢
    rw [Option.bind_some]
    cases hxs : asArray w with
    | some xs =>
      rw [hxs] at h
      obtain ⟨hret, hall⟩ := result_getChanges h
      refine ⟨?_, hall⟩
      rw [Bool.eq_iff_iff, hret, Option.any_some, List.all_eq_true]
    | none =>
      rw [hxs] at h
      obtain ⟨-, -, hr⟩ := yields_bind.1 h
      rw [yields_pure.1 hr]
      exact ⟨rfl, by simp⟩

end ProvisioningValidator
