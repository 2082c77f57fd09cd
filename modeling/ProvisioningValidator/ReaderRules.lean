import Mathlib
import ProvisioningValidator.Lib.Shape
import ProvisioningValidator.Readers

/-!
# Rules for readers

What a reader does is stated once, against a shape. `Conforms val m s` says of a run `m` on a value

* when it returns: on the values that are safe for `s`; and when it does so without an error, or
  without a text for the flag of the parser: on the values that pass `s` in that mode;
* that the order of members makes no difference to it.

`Reads` is the same for a step that looks at some members of an object. There is a rule for every
way in which readers are put together, so that the readers of the parser are covered one by one
with their shapes.
-/

namespace ProvisioningValidator

open Lib Lib.Run Lib.Shape

variable {E A β γ V : Type} {mode : Mode}

/-! ## Events -/

/-- What may be recorded: an error of the response, unless the run is to be quiet, and a text for the
flag of the parser, unless it is to be strict. -/
def Allowed (mode : Mode) : Event → Prop
  | .error _ => mode.quiet = false
  | .parsingError _ => mode.strict = false

/-- Not an error of the response. -/
abbrev Quiet : Event → Prop := Allowed { quiet := true, strict := false }

@[simp] theorem yields_addError {q : Event → Prop} {p d : String} {u : Unit} :
    Yields q (addError p d) u ↔ q (.error (constraintViolation p d)) := yields_emit

@[simp] theorem allowed_error (e : Error) : Allowed mode (.error e) ↔ mode.quiet = false := Iff.rfl

@[simp] theorem allowed_parsingError (err : String) :
    Allowed mode (.parsingError err) ↔ mode.strict = false := Iff.rfl

theorem allowed_of_quiet (h : mode.quiet = true) : ∀ e, Allowed mode e → Quiet e
  | .error _, he => absurd (h.symm.trans he) (by simp)
  | .parsingError _, _ => rfl

theorem allowed_loose : Allowed { quiet := false, strict := false } = fun _ => True := by
  funext e
  cases e <;> simp [Allowed]

/-- An error is recorded, and a value returned. -/
theorem returnsIff_report (p d : String) (b : β) : ReturnsIff (Allowed mode)
    (addError p d >>= fun _ => (pure b : ParserM β)) (mode.quiet = false) :=
  ((returnsIff_emit_iff _).bind fun _ _ => returnsIff_pure b).congr (iff_of_eq (and_true _))

/-! ## The order of members -/

/-- What vendor-specific values are kept as does not depend on the order of members. -/
def Respects (val : Json → V) : Prop := ∀ v w, Json.Reorder cstr v w → val v = val w

/-- The same value, and the same events in some order. -/
abbrev Same (m n : ParserM β) : Prop := Sim Eq m n

theorem same_refl (m : ParserM β) : Same m m := sim_refl m

theorem Same.bind {m n : ParserM β} {f g : β → ParserM γ} (h : Same m n)
    (hf : ∀ b, Same (f b) (g b)) : Same (m >>= f) (n >>= g) :=
  Sim.bind h fun b _ hb => hb ▸ hf b

theorem same_collect {f : Json → ParserM (Option A)} {xs ys : List Json}
    (h : List.Forall₂ (Json.Reorder cstr) xs ys)
    (hf : ∀ x y, Json.Reorder cstr x y → Same (f x) (f y)) :
    Same (collect f xs) (collect f ys) := by
  have hrel := Sim.collect (R := Eq) h fun x y hxy => (hf x y hxy).mono fun a b hab => by
    subst hab
    cases a with
    | none => exact .none
    | some a => exact .some rfl
  exact hrel.mono fun as bs has => by simpa using has

/-! ## Readers and shapes -/

section

variable (val : Json → V)

/-- A step that looks at members of an object: on which objects it returns in each mode, and that the
order of members makes no difference. -/
structure Reads (m : Json → ParserM β) (P : Mode → Json → Prop) : Prop where
  returns : ∀ mode v, v.IsObject → ReturnsIff (Allowed mode) (m v) (P mode v)
  stable : Respects val → ∀ v w, v.IsObject → Json.Reorder cstr v w → Same (m v) (m w)

/-- A step that looks at these members, and finds fault if one of those in `must` is missing. -/
abbrev ReadsWith (m : Json → ParserM β) (fields : List (String × Shape)) (must : List String) :
    Prop :=
  Reads val m (FieldsMet fields must)

/-- A step that looks at these members, none of which has to be there. -/
abbrev ReadsFields (m : Json → ParserM β) (fields : List (String × Shape)) : Prop :=
  ReadsWith val m fields []

/-- A run on any value, against the shape in which it reads it. -/
structure Conforms (m : Json → ParserM β) (s : Shape) : Prop where
  returns : ∀ mode v, ReturnsIff (Allowed mode) (m v) (s.Passes mode v)
  stable : Respects val → ∀ v w, Json.Reorder cstr v w → Same (m v) (m w)

end

variable {val : Json → V}

namespace Reads

theorem congr {m : Json → ParserM β} {P P' : Mode → Json → Prop} (h : Reads val m P)
    (hP : ∀ mode v, P mode v ↔ P' mode v) : Reads val m P' :=
  ⟨fun mode v hv => (h.returns mode v hv).congr (hP mode v), h.stable⟩

/-- A step that looks at nothing. -/
theorem const (m : ParserM β) (h : ∀ {mode}, ReturnsIff (Allowed mode) m True) :
    ReadsFields val (fun _ => m) [] where
  returns _ _ _ := h.congr (iff_of_true trivial fieldsMet_nil)
  stable _ _ _ _ _ := same_refl m

/-- A step, and then another one on the same value, for the results that the first one can have. -/
theorem andThen_of {m : Json → ParserM β} {f : β → Json → ParserM γ} {P P' : Mode → Json → Prop}
    {I : β → Prop} (hm : Reads val m P) (hI : ∀ v b, Yields (fun _ => True) (m v) b → I b)
    (hf : ∀ b, I b → Reads val (f b) P') :
    Reads val (fun v => m v >>= fun b => f b v) (fun mode v => P mode v ∧ P' mode v) where
  returns mode v hv := by
    refine (hm.returns mode v hv).bind fun b hb => ?_
    exact (hf b (hI v b (hb.mono fun _ _ => trivial))).returns mode v hv
  stable hval v w hv hvw := by
    refine ((hm.stable hval v w hv hvw).with_left (hI v)).bind fun b b' hb => ?_
    rw [← hb.1]
    exact (hf b hb.2).stable hval v w hv hvw

/-- A step, and then another one on the same value. -/
theorem andThen {m : Json → ParserM β} {f : β → Json → ParserM γ} {P P' : Mode → Json → Prop}
    (hm : Reads val m P) (hf : ∀ b, Reads val (f b) P') :
    Reads val (fun v => m v >>= fun b => f b v) (fun mode v => P mode v ∧ P' mode v) :=
  hm.andThen_of (fun _ _ _ => trivial) fun b _ => hf b

theorem bind {m : Json → ParserM β} {f : β → Json → ParserM γ}
    {fields fields' : List (String × Shape)} {must must' : List String}
    (hm : ReadsWith val m fields must) (hf : ∀ b, ReadsWith val (f b) fields' must') :
    ReadsWith val (fun v => m v >>= fun b => f b v) (fields ++ fields') (must ++ must') :=
  (hm.andThen hf).congr fun _ _ => fieldsMet_append.symm

/-- A step that looks at nothing, and then another one. -/
theorem after {m : Json → ParserM β} {f : β → Json → ParserM γ} {P : Mode → Json → Prop}
    (hm : ReadsFields val m []) (hf : ∀ b, Reads val (f b) P) :
    Reads val (fun v => m v >>= fun b => f b v) P :=
  (hm.andThen hf).congr fun _ _ => and_iff_right fieldsMet_nil

end Reads

/-! ## Values -/

theorem asString_reorder {v w : Json} (h : Json.Reorder cstr v w) : asString v = asString w := by
  cases h <;> rfl

theorem asInt_reorder {v w : Json} (h : Json.Reorder cstr v w) : asInt v = asInt w := by
  cases h <;> rfl

theorem asBool_reorder {v w : Json} (h : Json.Reorder cstr v w) : asBool v = asBool w := by
  cases h <;> rfl

theorem isString_iff {v : Json} : v.IsString ↔ ∃ s, asString v = some s := by
  cases v with
  | str t => exact iff_of_true ⟨t, rfl⟩ ⟨_, rfl⟩
  | _ => exact iff_of_false nofun nofun

theorem isInt_iff {v : Json} : v.IsInt ↔ ∃ n, asInt v = some n := by
  cases v with
  | int m =>
    by_cases hm : Json.Int32 m
    · exact iff_of_true ⟨m, rfl, hm⟩ ⟨m, if_pos hm⟩
    · refine iff_of_false ?_ ?_
      · rintro ⟨n, hn, hn'⟩
        cases hn
        exact hm hn'
      · rintro ⟨n, hn⟩
        rw [asInt, if_neg hm] at hn
        cases hn
  | _ => exact iff_of_false nofun nofun

theorem isBool_iff {v : Json} : v.IsBool ↔ ∃ b, asBool v = some b := by
  cases v with
  | bool b => exact iff_of_true ⟨b, rfl⟩ ⟨b, rfl⟩
  | _ => exact iff_of_false nofun nofun

theorem eq_arr_of_asArray {v : Json} {xs : List Json} (h : asArray v = some xs) : v = .arr xs := by
  cases v with
  | arr ys => rw [Option.some.inj h]
  | _ => cases h

theorem not_isArray_of_asArray {v : Json} (h : asArray v = none) : ¬ v.IsArray := by
  rintro ⟨xs, rfl⟩
  cases h

theorem asArray_reorder {v w : Json} (h : Json.Reorder cstr v w) :
    Option.Rel (List.Forall₂ (Json.Reorder cstr)) (asArray v) (asArray w) := by
  cases h with
  | refl =>
    cases asArray v with
    | none => exact .none
    | some xs => exact .some (List.forall₂_refl xs)
  | arr h => exact .some h
  | obj => exact .none

/-! ## Loops over members -/

/-- One turn of a loop over the members of an object: a member that it reads conforms to the shape
of its name, another one is passed over, and members of different names can be read in either
order. -/
structure MemberLoop (val : Json → V) (step : A → String × Json → ParserM A)
    (fields : List (String × Shape)) : Prop where
  named : ∀ a name, ∀ f ∈ fields, cstr name = f.1 → Conforms val (fun w => step a (name, w)) f.2
  other : ∀ a m, (∀ f ∈ fields, cstr m.1 ≠ f.1) → step a m = pure a
  comm : ∀ a m n, cstr m.1 ≠ cstr n.1 →
    Same (step a m >>= fun b => step b n) (step a n >>= fun b => step b m)

namespace MemberLoop

variable {step : A → String × Json → ParserM A} {fields : List (String × Shape)}

theorem returns (h : MemberLoop val step fields) (mode : Mode) (a : A) (m : String × Json) :
    ReturnsIff (Allowed mode) (step a m)
      (∀ f ∈ fields, cstr m.1 = f.1 → f.2.Passes mode m.2) := by
  by_cases hm : ∃ f ∈ fields, cstr m.1 = f.1
  · obtain ⟨f, hf, hname⟩ := hm
    have hstep := (h.named a m.1 f hf hname).returns mode m.2
    refine hstep.congr ⟨fun hmet g hg hname' => ?_, fun hall => hall f hf hname⟩
    exact ((h.named a m.1 g hg hname').returns mode m.2).1 (hstep.2 hmet)
  · have hother : ∀ f ∈ fields, cstr m.1 ≠ f.1 := fun f hf hname => hm ⟨f, hf, hname⟩
    rw [h.other a m hother]
    exact (returnsIff_pure a).congr
      (iff_of_true trivial fun f hf hname => absurd hname (hother f hf))

theorem stable (h : MemberLoop val step fields) (hval : Respects val) (a : A)
    {m n : String × Json} (hname : m.1 = n.1) (hmn : Json.Reorder cstr m.2 n.2) :
    Same (step a m) (step a n) := by
  obtain ⟨name, v⟩ := m
  obtain ⟨_, w⟩ := n
  subst hname
  by_cases hm : ∃ f ∈ fields, cstr name = f.1
  · obtain ⟨f, hf, hname⟩ := hm
    exact (h.named a name f hf hname).stable hval v w hmn
  · have hother : ∀ f ∈ fields, cstr name ≠ f.1 := fun f hf hname => hm ⟨f, hf, hname⟩
    rw [h.other a (name, v) hother, h.other a (name, w) hother]
    exact same_refl _

end MemberLoop

/-- A text that must not be empty. -/
def nonEmptyText : Shape := .demanding (fun v => asString v != some "") .string

namespace Conforms

/-- A value of a kind that has no members; for another one, an error is recorded. -/
theorem view {view : Json → Option A} {s : Shape} {P : A → Prop} (p d : String) (b : β)
    (hpasses : ∀ {mode} v, s.Passes mode v ↔ (mode.quiet = true → ∃ a, view v = some a ∧ P a))
    (hreorder : ∀ v w, Json.Reorder cstr v w → view v = view w) {f : A → ParserM β}
    (hf : ∀ {mode} a, ReturnsIff (Allowed mode) (f a) (mode.quiet = true → P a))
    {m : Json → ParserM β}
    (hm : ∀ v, m v = (view v).elim (addError p d >>= fun _ => pure b) f) :
    Conforms val m s where
  returns mode v := by
    rw [hm]
    cases hv : view v with
    | some a => exact (hf a).congr (by simp [hpasses, hv])
    | none => exact (returnsIff_report _ _ _).congr (by simp [hpasses, hv])
  stable _ v w hvw := by
    rw [hm, hm, hreorder v w hvw]
    exact same_refl _

theorem asString (p d : String) (b : β) {f : String → ParserM β}
    (hf : ∀ {mode} s, ReturnsIff (Allowed mode) (f s) True) {m : Json → ParserM β}
    (hm : ∀ v, m v = (asString v).elim (addError p d >>= fun _ => pure b) f) :
    Conforms val m .string := by
  refine view p d b (fun v => ?_) (fun _ _ => asString_reorder) (P := fun _ => True)
    (fun a => (hf a).congr (by simp)) hm
  simp [Passes, everywhere_string, Met, Usable, KindOk, Demanded, Regular, isString_iff]

theorem asInt (p d : String) (b : β) {f : Int → ParserM β}
    (hf : ∀ {mode} n, ReturnsIff (Allowed mode) (f n) True) {m : Json → ParserM β}
    (hm : ∀ v, m v = (asInt v).elim (addError p d >>= fun _ => pure b) f) :
    Conforms val m .integer := by
  refine view p d b (fun v => ?_) (fun _ _ => asInt_reorder) (P := fun _ => True)
    (fun a => (hf a).congr (by simp)) hm
  simp [Passes, everywhere_integer, Met, Usable, KindOk, Demanded, Regular, isInt_iff]

theorem asBool (p d : String) (b : β) {f : Bool → ParserM β}
    (hf : ∀ {mode} b, ReturnsIff (Allowed mode) (f b) True) {m : Json → ParserM β}
    (hm : ∀ v, m v = (asBool v).elim (addError p d >>= fun _ => pure b) f) :
    Conforms val m .boolean := by
  refine view p d b (fun v => ?_) (fun _ _ => asBool_reorder) (P := fun _ => True)
    (fun a => (hf a).congr (by simp)) hm
  simp [Passes, everywhere_boolean, Met, Usable, KindOk, Demanded, Regular, isBool_iff]

theorem string {p key : String} {put : String → E → E} (e : E) :
    Conforms val (Reader.string p key put · e) .string := by
  refine asString p (notStringFieldError key) e (fun s => returnsIff_pure (put s e)) fun v => ?_
  rw [Reader.string, Reader.leaf]
  cases ProvisioningValidator.asString v <;> rfl

theorem int {p key : String} {put : Int → E → E} (e : E) :
    Conforms val (Reader.int p key put · e) .integer := by
  refine asInt p (notIntFieldError key) e (fun n => returnsIff_pure (put n e)) fun v => ?_
  rw [Reader.int, Reader.leaf]
  cases ProvisioningValidator.asInt v <;> rfl

theorem bool {p key : String} {put : Bool → E → E} (e : E) :
    Conforms val (Reader.bool p key put · e) .boolean := by
  refine asBool p (notBoolFieldError key) e (fun b => returnsIff_pure (put b e)) fun v => ?_
  rw [Reader.bool, Reader.leaf]
  cases ProvisioningValidator.asBool v <;> rfl

theorem nonEmptyString {p key field : String} {put : String → E → E} (e : E) :
    Conforms val (Reader.nonEmptyString p key field put · e) nonEmptyText := by
  have hf : ∀ {mode} s, ReturnsIff (Allowed mode) (do
      if s = "" then addError p (emptyFieldError field)
      return put s e : ParserM E) (mode.quiet = true → s ≠ "") := by
    intro mode s
    split_ifs with hs
    · exact (returnsIff_report _ _ _).congr (by simp [hs])
    · exact (returnsIff_pure _).congr (by simp [hs])
  refine view p (notStringFieldError key) e (fun v => ?_) (fun _ _ => asString_reorder) hf
    fun v => ?_
  · rw [nonEmptyText, passes_demanding]
    simp only [Passes, everywhere_string, Met, Usable, KindOk, Demanded, Regular, isString_iff]
    grind
  · rw [Reader.nonEmptyString]
    cases ProvisioningValidator.asString v <;> rfl

/-- A text among the elements of an array. -/
theorem stringElement {p key : String} :
    Conforms val (Reader.stringElement p key) .string := by
  refine asString p (notStringFieldError key) none (fun s => returnsIff_pure (some s)) fun v => ?_
  rw [Reader.stringElement]
  cases ProvisioningValidator.asString v <;> rfl

/-- An array whose elements are read one by one; for another value, an error is recorded. -/
theorem arrayOr {element : Json → ParserM (Option A)} {s : Shape} (h : Conforms val element s)
    {put : List A → β} {other : ParserM β}
    (hother : ∀ {mode}, ReturnsIff (Allowed mode) other (mode.quiet = false)) :
    Conforms val (fun v => match asArray v with
      | some xs => collect element xs >>= fun as => pure (put as)
      | none => other) (.array s) where
  returns mode v := by
    cases hv : asArray v with
    | some xs =>
      have hxs := eq_arr_of_asArray hv
      subst hxs
      have hcollect := (ReturnsIff.collect fun x (_ : x ∈ xs) => h.returns mode x).bind
        fun as _ => returnsIff_pure (put as)
      refine hcollect.congr ?_
      simp [passes_array]
    | none =>
      refine hother.congr ?_
      rw [passes_array_of_not (not_isArray_of_asArray hv)]
  stable hval v w hvw := by
    have hrel := asArray_reorder hvw
    show Same (match asArray v with | some xs => _ | none => _)
      (match asArray w with | some xs => _ | none => _)
    generalize asArray v = xs, asArray w = ys at hrel
    cases hrel with
    | none => exact same_refl _
    | some hxy => exact (same_collect hxy (h.stable hval)).bind fun as => same_refl _

theorem array {element : Json → ParserM (Option A)} {s : Shape} (h : Conforms val element s)
    {p key : String} {put : List A → E → E} (e : E) :
    Conforms val (Reader.array p key element put · e) (.array s) :=
  arrayOr h (returnsIff_report _ _ _)

/-- An array whose elements are read in a loop that carries a state. -/
theorem arrayFold {step : A → Json → ParserM A} {s : Shape} (h : ∀ a, Conforms val (step a) s)
    (a : A) (put : A → β) {other : ParserM β}
    (hother : ∀ {mode}, ReturnsIff (Allowed mode) other (mode.quiet = false))
    {m : Json → ParserM β}
    (hm : ∀ v, m v = (asArray v).elim other fun xs => put <$> xs.foldlM step a) :
    Conforms val m (.array s) where
  returns mode v := by
    rw [hm]
    cases hv : asArray v with
    | some xs =>
      have hxs := eq_arr_of_asArray hv
      subst hxs
      refine ((ReturnsIff.foldlM (fun x _ a => (h a).returns mode x) a).map put).congr ?_
      simp [passes_array]
    | none =>
      refine hother.congr ?_
      rw [passes_array_of_not (not_isArray_of_asArray hv)]
  stable hval v w hvw := by
    rw [hm, hm]
    have hrel := asArray_reorder hvw
    generalize asArray v = xs, asArray w = ys at hrel
    cases hrel with
    | none => exact same_refl _
    | some hxy =>
      rw [Option.elim_some, Option.elim_some, ← bind_pure_comp, ← bind_pure_comp]
      exact Same.bind (Sim.foldlM hxy (fun c x y hxy => (h c).stable hval x y hxy) a)
        fun b => same_refl _

/-- An array, where another value is passed over without an error. -/
theorem laxArray {element : Json → ParserM (Option A)} {s : Shape} (h : Conforms val element s)
    {put : List A → β} {other : ParserM β}
    (hother : ∀ {mode}, ReturnsIff (Allowed mode) other (mode.strict = false)) :
    Conforms val (fun v => match asArray v with
      | some xs => collect element xs >>= fun as => pure (put as)
      | none => other) (.lax (.array s)) where
  returns mode v := by
    cases hv : asArray v with
    | some xs =>
      have hxs := eq_arr_of_asArray hv
      subst hxs
      have hcollect := (ReturnsIff.collect fun x (_ : x ∈ xs) => h.returns mode x).bind
        fun as _ => returnsIff_pure (put as)
      refine hcollect.congr ?_
      simp [passes_lax, passes_array]
    | none =>
      refine hother.congr ?_
      simp [passes_lax, not_isArray_of_asArray hv]
  stable hval v w hvw := by
    have hrel := asArray_reorder hvw
    show Same (match asArray v with | some xs => _ | none => _)
      (match asArray w with | some xs => _ | none => _)
    generalize asArray v = xs, asArray w = ys at hrel
    cases hrel with
    | none => exact same_refl _
    | some hxy => exact (same_collect hxy (h.stable hval)).bind fun as => same_refl _

theorem strings {p key : String} {put : List String → E → E} (e : E) :
    Conforms val (Reader.strings p key put · e) (.array .string) :=
  array stringElement e

/-- A value that is tested to be an object; where it is none, an error is recorded. -/
theorem tested {m : Json → ParserM β} {s : Shape} {P : Mode → Json → Prop} (h : Reads val m P)
    (hs : Describes true s P) {p d : String} {b : β} :
    Conforms val (fun v => if v.IsObject then m v else addError p d >>= fun _ => pure b) s where
  returns mode v := by
    by_cases hv : v.IsObject
    · simp only [if_pos hv]
      exact (h.returns mode v hv).congr (hs.object mode v hv)
    · simp only [if_neg hv]
      exact (returnsIff_report _ _ _).congr ((hs.other mode v hv).trans (and_iff_right rfl)).symm
  stable hval v w hvw := by
    by_cases hv : v.IsObject
    · simp only [if_pos hv, if_pos (hvw.isObject_iff.1 hv)]
      exact h.stable hval v w hv hvw
    · simp only [if_neg hv, if_neg (fun hw => hv (hvw.isObject_iff.2 hw))]
      exact same_refl _

/-- A value that is used as an object without a test. -/
theorem untested {m : Json → ParserM β} {s : Shape} {P : Mode → Json → Prop} (h : Reads val m P)
    (hs : Describes false s P) (habort : ∀ v, ¬ v.IsObject → m v = .abort) :
    Conforms val m s where
  returns mode v := by
    by_cases hv : v.IsObject
    · exact (h.returns mode v hv).congr (hs.object mode v hv)
    · rw [habort v hv]
      exact returnsIff_abort.congr (iff_of_false id fun hpasses =>
        Bool.false_ne_true ((hs.other mode v hv).1 hpasses).1)
  stable hval v w hvw := by
    by_cases hv : v.IsObject
    · exact h.stable hval v w hv hvw
    · exact Or.inl ⟨habort v hv, habort w fun hw => hv (hvw.isObject_iff.2 hw)⟩

theorem object {r : Reader E} {fields : List (String × Shape)}
    (h : ∀ e, ReadsFields val (r · e) fields) {p key : String} (e : E) :
    Conforms val (Reader.object p key r · e) (.object true [] fields) :=
  tested (h e) describes_object

/-- An object some of whose members have to be there. -/
theorem objectWith {r : Reader E} {fields : List (String × Shape)} {must : List String}
    (h : ∀ e, ReadsWith val (r · e) fields must) (hmust : must ≠ []) {p key : String} (e : E) :
    Conforms val (Reader.object p key r · e) (.demanding (has must) (.object true [] fields)) :=
  tested (h e) (describes_must hmust)

theorem objectElement {element : Json → ParserM (Option A)} {s : Shape} {P : Mode → Json → Prop}
    (h : Reads val element P) (hs : Describes true s P) {p key : String} :
    Conforms val (Reader.objectElement p key element) s :=
  tested h hs

/-- The members of an object are met in a loop, after `first`. -/
theorem loop {step : A → String × Json → ParserM A} {fields : List (String × Shape)}
    (h : MemberLoop val step fields) {first : Json → ParserM A} (hfirst : ReadsFields val first [])
    (habort : ∀ v, ¬ v.IsObject → first v = .abort) :
    Conforms val (fun v => first v >>= fun a => lift v.members >>= fun ms => ms.foldlM step a)
      (.loop fields) := by
  refine untested ⟨?_, ?_⟩ describes_loop ?_
  · intro mode v hv
    obtain ⟨ms, rfl⟩ := hv
    have hrun := (hfirst.returns mode (.obj ms) ⟨ms, rfl⟩).bind fun a _ =>
      ReturnsIff.foldlM (fun m (_ : m ∈ ms) a => h.returns mode a m) a
    simp only [Json.members, lift_some, pure_bind]
    refine hrun.congr ?_
    rw [and_iff_right fieldsMet_nil]
    simp
  · intro hval v w hv hvw
    refine (hfirst.stable hval v w hv hvw).bind fun a => ?_
    cases hvw with
    | refl => exact same_refl _
    | arr =>
      obtain ⟨ms, hms⟩ := hv
      cases hms
    | @obj ms ms' ns hshuffle hkeys hvalues =>
      simp only [Json.members, lift_some, pure_bind]
      have hswap : Same (ms.foldlM step a) (ms'.foldlM step a) :=
        Sim.foldlM_shuffle h.comm hshuffle a
      have hturns : Same (ms'.foldlM step a) (ns.foldlM step a) := by
        refine Sim.foldlM (Json.forall₂_members hkeys hvalues) ?_ a
        intro b m n hmn
        exact h.stable hval b hmn.1 hmn.2
      exact hswap.trans hturns
  · intro v hv
    rw [habort v hv]
    rfl

/-- What is done with the value that was read does not matter. -/
theorem map {m : Json → ParserM β} {s : Shape} (h : Conforms val m s) (f : β → γ) :
    Conforms val (fun v => m v >>= fun b => pure (f b)) s where
  returns mode v := ((h.returns mode v).bind fun b _ => returnsIff_pure (f b)).congr (by simp)
  stable hval v w hvw := (h.stable hval v w hvw).bind fun b => same_refl _

theorem into {r : Reader A} {s : Shape} (h : ∀ a, Conforms val (r · a) s) {get : E → A}
    {put : A → E → E} (e : E) : Conforms val (Reader.into get put r · e) s :=
  (h (get e)).map fun a => put a e

theorem marking {r : Reader E} {s : Shape} (h : ∀ e, Conforms val (r · e) s) {set : E → E}
    (e : E) : Conforms val (Reader.marking set r · e) s :=
  h (set e)

end Conforms

/-! ## Members -/

namespace Reads

theorem map {m : Json → ParserM β} {P : Mode → Json → Prop} (h : Reads val m P) (f : β → γ) :
    Reads val (fun v => m v >>= fun b => pure (f b)) P where
  returns mode v hv :=
    ((h.returns mode v hv).bind fun b _ => returnsIff_pure (f b)).congr (by simp)
  stable hval v w hv hvw := (h.stable hval v w hv hvw).bind fun b => same_refl _

theorem into {r : Reader A} {P : Mode → Json → Prop} (h : ∀ a, Reads val (r · a) P) {get : E → A}
    {put : A → E → E} (e : E) : Reads val (Reader.into get put r · e) P :=
  (h (get e)).map fun a => put a e

theorem fresh {r : Reader A} {P : Mode → Json → Prop} {start : A} (h : Reads val (r · start) P) :
    Reads val (Reader.fresh start r) P :=
  h.map some

/-- A step that goes on with what is found under a name. -/
theorem findMember {key : String} {f : Option Json → ParserM β} {s : Shape} {must : List String}
    (hsome : Conforms val (fun w => f (some w)) s)
    (hnone : ∀ {mode}, ReturnsIff (Allowed mode) (f none) (mode.quiet = true → key ∉ must))
    (hmust : ∀ k ∈ must, k = key) :
    ReadsWith val (fun v => lift (v.findMember key) >>= f) [(key, s)] must where
  returns mode v hv := by
    rw [fieldsMet_one hmust]
    simp only [Json.findMember_of_isObject hv, lift_some, pure_bind]
    cases v.member? key with
    | none => exact hnone.congr (by simp)
    | some w => exact (hsome.returns mode w).congr (by simp)
  stable hval v w hv hvw := by
    have hw := hvw.isObject_iff.1 hv
    simp only [Json.findMember_of_isObject hv, Json.findMember_of_isObject hw, lift_some,
      pure_bind]
    have hrel := hvw.member? key
    generalize v.member? key = o, w.member? key = o' at hrel
    cases hrel with
    | none => exact same_refl _
    | some hxy => exact hsome.stable hval _ _ hxy

/-- A step that looks at a member, and returns whatever it is. -/
theorem unread {key : String} {f : Option Json → ParserM β}
    (hreturns : ∀ {mode} o, ReturnsIff (Allowed mode) (f o) True)
    (hreorder : ∀ v w, Json.Reorder cstr v w → Same (f (some v)) (f (some w))) :
    ReadsFields val (fun v => lift (v.findMember key) >>= f) [] where
  returns mode v hv := by
    rw [Json.findMember_of_isObject hv, lift_some, pure_bind]
    exact (hreturns _).congr (iff_of_true trivial fieldsMet_nil)
  stable _ v w hv hvw := by
    rw [Json.findMember_of_isObject hv, Json.findMember_of_isObject (hvw.isObject_iff.1 hv),
      lift_some, lift_some, pure_bind, pure_bind]
    have hrel := hvw.member? key
    generalize v.member? key = o, w.member? key = o' at hrel
    cases hrel with
    | none => exact same_refl _
    | some hxy => exact hreorder _ _ hxy

/-- A step that goes on with the member of a name, without a test that it is there. -/
theorem index {key : String} {f : Json → ParserM β} {s : Shape} (h : Conforms val f s) :
    Reads val (fun v => lift (v.index key) >>= f) (fun mode v => (v.member? key).isSome = true ∧
      FieldsMet [(key, s)] [] mode v) where
  returns mode v hv := by
    rw [fieldsMet_singleton, Json.index_eq_member?]
    cases v.member? key with
    | none => exact returnsIff_abort.congr (by simp)
    | some w =>
      rw [lift_some, pure_bind]
      exact (h.returns mode w).congr (by simp)
  stable hval v w hv hvw := by
    rw [Json.index_eq_member?, Json.index_eq_member?]
    have hrel := hvw.member? key
    generalize v.member? key = o, w.member? key = o' at hrel
    cases hrel with
    | none => exact same_refl _
    | some hxy =>
      rw [lift_some, lift_some, pure_bind, pure_bind]
      exact h.stable hval _ _ hxy

/-- The member of a name, if it is there; nothing is asked of an object without it. -/
theorem ifMember {key : String} {r : Reader E} {absent : E → ParserM E} {s : Shape}
    (h : ∀ e, Conforms val (r · e) s)
    (habsent : ∀ {mode} e, ReturnsIff (Allowed mode) (absent e) True) (e : E) :
    ReadsFields val (Reader.ifMember key r absent · e) [(key, s)] :=
  findMember (h e) ((habsent e).congr (by simp)) (by simp)

theorem optional {key : String} {r : Reader E} {s : Shape} (h : ∀ e, Conforms val (r · e) s)
    (e : E) : ReadsFields val (Reader.ifMember key r Reader.skip · e) [(key, s)] :=
  ifMember h (fun e => returnsIff_pure e) e

theorem flagged {key : String} {r : Reader E} {set : E → E} {s : Shape}
    (h : ∀ e, Conforms val (r · e) s) (e : E) :
    ReadsFields val (Reader.ifMember key r (Reader.without set) · e) [(key, s)] :=
  ifMember h (fun e => returnsIff_pure (set e)) e

theorem mandatory {key : String} {r : Reader E} {p d : String} {s : Shape}
    (h : ∀ e, Conforms val (r · e) s) (e : E) :
    ReadsWith val (Reader.ifMember key r (Reader.mandatory p d) · e) [(key, s)] [key] :=
  findMember (h e) ((returnsIff_report p d e).congr (by simp)) (by simp)

/-- The first of several members that is there decides. -/
theorem firstMember {absent : ParserM β} {alts : List (String × (Json → ParserM β))}
    {fields : List (String × Shape)} {Q : Mode → Prop}
    (h : List.Forall₂ (fun alt f => alt.1 = f.1 ∧ Conforms val alt.2 f.2) alts fields)
    (habsent : ∀ mode, ReturnsIff (Allowed mode) absent (Q mode)) :
    Reads val (Reader.firstMember absent alts)
      (fun mode v => FirstMet fields mode v ∧ (pick fields v = none → Q mode)) := by
  induction h with
  | nil =>
    exact ⟨fun mode v _ => (habsent mode).congr (by simp [FirstMet, pick]),
      fun _ _ _ _ _ => same_refl absent⟩
  | @cons alt f alts fields hone _ ih =>
    obtain ⟨key, present⟩ := alt
    obtain ⟨hkey, hconf⟩ := hone
    simp only at hkey hconf
    subst hkey
    refine ⟨fun mode v hv => ?_, fun hval v w hv hvw => ?_⟩
    · simp only [Reader.firstMember, Json.findMember_of_isObject hv, lift_some, pure_bind]
      cases hw : v.member? f.1 with
      | none =>
        refine (ih.returns mode v hv).congr ?_
        rw [firstMet_of_none hw, pick, hw]
      | some w =>
        refine (hconf.returns mode w).congr ?_
        rw [firstMet_of_some hw, pick, hw]
        simp
    · have hw := hvw.isObject_iff.1 hv
      simp only [Reader.firstMember, Json.findMember_of_isObject hv,
        Json.findMember_of_isObject hw, lift_some, pure_bind]
      have hrel := hvw.member? f.1
      generalize v.member? f.1 = o, w.member? f.1 = o' at hrel
      cases hrel with
      | none => exact ih.stable hval v w hv hvw
      | some hxy => exact hconf.stable hval _ _ hxy

/-! ## Steps one after the other -/

theorem nil (e : E) : ReadsFields val (Reader.inOrder [] · e) [] := const _ (returnsIff_pure e)

theorem cons {r : Reader E} {rs : List (Reader E)} {fields fields' : List (String × Shape)}
    {must must' : List String} (h : ∀ e, ReadsWith val (r · e) fields must)
    (hs : ∀ e, ReadsWith val (Reader.inOrder rs · e) fields' must') (e : E) :
    ReadsWith val (Reader.inOrder (r :: rs) · e) (fields ++ fields') (must ++ must') :=
  (h e).bind hs

/-- A step that looks at one member. -/
theorem step {r : Reader E} {rs : List (Reader E)} {f : String × Shape}
    {fields : List (String × Shape)} {must : List String} (h : ∀ e, ReadsFields val (r · e) [f])
    (hs : ∀ e, ReadsWith val (Reader.inOrder rs · e) fields must) (e : E) :
    ReadsWith val (Reader.inOrder (r :: rs) · e) (f :: fields) must :=
  cons h hs e

/-- A step that looks at one member, which has to be there. -/
theorem demand {r : Reader E} {rs : List (Reader E)} {f : String × Shape}
    {fields : List (String × Shape)} {must : List String}
    (h : ∀ e, ReadsWith val (r · e) [f] [f.1])
    (hs : ∀ e, ReadsWith val (Reader.inOrder rs · e) fields must) (e : E) :
    ReadsWith val (Reader.inOrder (r :: rs) · e) (f :: fields) (f.1 :: must) :=
  cons h hs e

/-- A step that looks at no member. -/
theorem silent {r : Reader E} {rs : List (Reader E)} {P : Mode → Json → Prop}
    (h : ∀ e, ReadsFields val (r · e) []) (hs : ∀ e, Reads val (Reader.inOrder rs · e) P) (e : E) :
    Reads val (Reader.inOrder (r :: rs) · e) P :=
  after (h e) hs

theorem mark {set : E → E} (e : E) : ReadsFields val (Reader.mark set · e) [] :=
  const _ (returnsIff_pure _)

end Reads

/-! ## What readers keep -/

theorem yields_inOrder_nil {q : Event → Prop} {v : Json} {e e' : E} :
    Yields q (Reader.inOrder [] v e) e' ↔ e' = e := yields_pure

theorem yields_inOrder_cons {q : Event → Prop} {r : Reader E} {rs : List (Reader E)} {v : Json}
    {e e' : E} : Yields q (Reader.inOrder (r :: rs) v e) e' ↔
      ∃ e₁, Yields q (r v e) e₁ ∧ Yields q (Reader.inOrder rs v e₁) e' := yields_bind

/-- What holds of an entity before the reader has run holds of it afterwards. -/
def Keeps (q : Event → Prop) (I : E → Prop) (r : Reader E) : Prop :=
  ∀ v e e', I e → Yields q (r v e) e' → I e'

namespace Keeps

variable {q : Event → Prop} {I : E → Prop}

theorem inOrder {rs : List (Reader E)} (h : ∀ r ∈ rs, Keeps q I r) :
    Keeps q I (Reader.inOrder rs) := by
  induction rs with
  | nil =>
    intro v e e' hI hrun
    rw [Reader.inOrder, yields_pure] at hrun
    exact hrun ▸ hI
  | cons r rs ih =>
    intro v e e' hI hrun
    obtain ⟨e₁, hfirst, hrest⟩ := yields_bind.1 hrun
    have hkept := h r List.mem_cons_self v e e₁ hI hfirst
    exact ih (fun r hr => h r (List.mem_cons_of_mem _ hr)) v e₁ e' hkept hrest

theorem into {r : Reader A} {get : E → A} {put : A → E → E} (h : ∀ a e, I e → I (put a e)) :
    Keeps q I (Reader.into get put r) := by
  intro v e e' hI hrun
  obtain ⟨a, -, hput⟩ := yields_bind.1 hrun
  rw [yields_pure.1 hput]
  exact h a e hI

theorem mark {set : E → E} (h : ∀ e, I e → I (set e)) : Keeps q I (Reader.mark set) := by
  intro v e e' hI hrun
  rw [Reader.mark, yields_pure] at hrun
  exact hrun ▸ h e hI

theorem leaf {view : Json → Option A} {p d : String} {put : A → E → E}
    (h : ∀ a e, I e → I (put a e)) : Keeps q I (Reader.leaf view p d put) := by
  intro v e e' hI hrun
  rw [Reader.leaf] at hrun
  cases hv : view v with
  | some a =>
    simp only [hv, yields_pure] at hrun
    exact hrun ▸ h a e hI
  | none =>
    simp only [hv, yields_bind, yields_pure] at hrun
    obtain ⟨-, -, rfl⟩ := hrun
    exact hI

theorem ifMember {key : String} {r : Reader E} {absent : E → ParserM E} (h : Keeps q I r)
    (habsent : Keeps q I fun _ => absent) : Keeps q I (Reader.ifMember key r absent) := by
  intro v e e' hI hrun
  obtain ⟨o, -, hrest⟩ := yields_bind.1 hrun
  cases o with
  | some w => exact h w e e' hI hrest
  | none => exact habsent v e e' hI hrest

theorem marking {set : E → E} {r : Reader E} (hset : ∀ e, I e → I (set e)) (h : Keeps q I r) :
    Keeps q I (Reader.marking set r) :=
  fun v e e' hI hrun => h v (set e) e' (hset e hI) hrun

theorem array {p key : String} {element : Json → ParserM (Option A)} {put : List A → E → E}
    (h : ∀ as e, I e → I (put as e)) : Keeps q I (Reader.array p key element put) := by
  intro v e e' hI hrun
  rw [Reader.array] at hrun
  cases hv : asArray v with
  | some xs =>
    simp only [hv, yields_bind, yields_pure] at hrun
    obtain ⟨as, -, rfl⟩ := hrun
    exact h as e hI
  | none =>
    simp only [hv, yields_bind, yields_pure] at hrun
    obtain ⟨-, -, rfl⟩ := hrun
    exact hI

theorem without {set : E → E} (h : ∀ e, I e → I (set e)) :
    Keeps q I fun _ => Reader.without set :=
  mark h

theorem skip : Keeps q I fun _ => Reader.skip := by
  intro v e e' hI hrun
  exact yields_pure.1 hrun ▸ hI

theorem mandatory {p d : String} : Keeps q I fun _ => Reader.mandatory p d := by
  intro v e e' hI hrun
  simp only [Reader.mandatory, yields_bind, yields_pure] at hrun
  obtain ⟨-, -, rfl⟩ := hrun
  exact hI

theorem nonEmptyString {p key field : String} {put : String → E → E}
    (h : ∀ s e, I e → I (put s e)) : Keeps q I (Reader.nonEmptyString p key field put) := by
  intro v e e' hI hrun
  rw [Reader.nonEmptyString] at hrun
  cases hv : asString v with
  | some s =>
    simp only [hv] at hrun
    split_ifs at hrun with hs
    · obtain ⟨-, -, he⟩ := yields_bind.1 hrun
      exact yields_pure.1 he ▸ h s e hI
    · exact yields_pure.1 hrun ▸ h s e hI
  | none =>
    simp only [hv, yields_bind, yields_pure] at hrun
    obtain ⟨-, -, rfl⟩ := hrun
    exact hI

theorem object {p key : String} {r : Reader E} (h : Keeps q I r) :
    Keeps q I (Reader.object p key r) := by
  intro v e e' hI hrun
  rw [Reader.object] at hrun
  split_ifs at hrun with hv
  · exact h v e e' hI hrun
  · obtain ⟨-, -, he⟩ := yields_bind.1 hrun
    rw [yields_pure.1 he]
    exact hI

end Keeps

/-- A step, and then the others, which rely on what holds after it. -/
theorem Reads.cons_of {r : Reader E} {rs : List (Reader E)} {fields fields' : List (String × Shape)}
    {must must' : List String} {I : E → Prop} {e : E} (h : ReadsWith val (r · e) fields must)
    (hI : ∀ v e', Yields (fun _ => True) (r v e) e' → I e')
    (hs : ∀ e, I e → ReadsWith val (Reader.inOrder rs · e) fields' must') :
    ReadsWith val (Reader.inOrder (r :: rs) · e) (fields ++ fields') (must ++ must') :=
  (h.andThen_of hI hs).congr fun _ _ => fieldsMet_append.symm

/-! ## Vendor-specific members -/

/-- The vendor-specific members among the members of an object, by the names they are kept under. -/
def vendorEntries (val : Json → V) (ms : List (String × Json)) : List (String × V) :=
  (ms.filter fun itr => isVendorSpecific (cstr itr.1)).map fun itr => (cstr itr.1, val itr.2)

theorem vendorEntries_cons (itr : String × Json) (ms : List (String × Json)) :
    vendorEntries val (itr :: ms) = if isVendorSpecific (cstr itr.1) = true then
      (cstr itr.1, val itr.2) :: vendorEntries val ms else vendorEntries val ms := by
  rw [vendorEntries, List.filter_cons]
  split_ifs <;> rfl

theorem map_foldl_add (ms : List (String × Json)) (m : VendorSpecific V) :
    (ms.foldl (fun m itr => m.add itr.1 (val itr.2)) m).map =
      m.map.emplaceAll (vendorEntries val ms) := by
  induction ms generalizing m with
  | nil => rfl
  | cons itr ms ih =>
    rw [List.foldl_cons, ih, vendorEntries_cons]
    by_cases h : isVendorSpecific (cstr itr.1) = true
    · rw [if_pos h, OrdMap.emplaceAll_cons, VendorSpecific.add, dif_pos h]
    · rw [if_neg h, VendorSpecific.add, dif_neg h]

/-- Members that are read under different names may be met in any order. -/
theorem shuffle_vendorEntries {ms ms' : List (String × Json)}
    (h : Shuffle (fun m => cstr m.1) ms ms') :
    Shuffle Prod.fst (vendorEntries val ms) (vendorEntries val ms') :=
  (h.filter _).map fun _ => rfl

theorem vendorEntries_congr (hval : Respects val) {ms ns : List (String × Json)}
    (hkeys : ms.map Prod.fst = ns.map Prod.fst)
    (h : List.Forall₂ (Json.Reorder cstr) (ms.map Prod.snd) (ns.map Prod.snd)) :
    vendorEntries val ms = vendorEntries val ns := by
  induction ms generalizing ns with
  | nil =>
    cases ns with
    | nil => rfl
    | cons n ns => simp at hkeys
  | cons m ms ih =>
    cases ns with
    | nil => simp at hkeys
    | cons n ns =>
      simp only [List.map_cons, List.cons.injEq] at hkeys
      simp only [List.map_cons, List.forall₂_cons] at h
      rw [vendorEntries_cons, vendorEntries_cons, ih hkeys.2 h.2, hkeys.1, hval _ _ h.1]

theorem getVendorSpecific_of_not_isObject {v : Json} (hv : ¬ v.IsObject) (m : VendorSpecific V) :
    getVendorSpecific val v m = .abort := by
  cases v with
  | obj ms => exact absurd ⟨ms, rfl⟩ hv
  | _ => rfl

/-- The vendor-specific members of any object are taken, whatever they are. -/
theorem reads_getVendorSpecific (m : VendorSpecific V) :
    ReadsFields val (getVendorSpecific val · m) [] where
  returns mode v hv := by
    obtain ⟨ms, rfl⟩ := hv
    exact (returnsIff_pure _).congr (iff_of_true trivial fieldsMet_nil)
  stable hval v w hv hvw := by
    cases hvw with
    | refl => exact same_refl _
    | arr => obtain ⟨ms, hms⟩ := hv; cases hms
    | obj hshuffle hkeys hvalues =>
      rename_i ms ms' ns
      have hentries := m.map.emplaceAll_shuffle (@shuffle_vendorEntries _ val _ _ hshuffle)
      have heq : getVendorSpecific val (.obj ms) m = getVendorSpecific val (.obj ns) m := by
        refine congrArg Run.pure (VendorSpecific.ext_map ?_)
        rw [map_foldl_add, map_foldl_add, hentries, vendorEntries_congr hval hkeys hvalues]
      rw [heq]
      exact same_refl _

/-- A reader that takes the vendor-specific members first. -/
theorem Reads.vendor {get : E → VendorSpecific V} {put : VendorSpecific V → E → E}
    {rs : List (Reader E)} {P : Mode → Json → Prop}
    (h : ∀ e, Reads val (Reader.inOrder rs · e) P) (e : E) :
    Reads val (Reader.inOrder (.into get put (getVendorSpecific val) :: rs) · e) P :=
  .silent (.into reads_getVendorSpecific) h e

/-- The same, on a value that was not tested to be an object: it has to be one. -/
theorem Conforms.vendor {get : E → VendorSpecific V} {put : VendorSpecific V → E → E}
    {rs : List (Reader E)} {s : Shape} {P : Mode → Json → Prop} {e : E}
    (h : Reads val (Reader.inOrder (.into get put (getVendorSpecific val) :: rs) · e) P)
    (hs : Describes false s P) :
    Conforms val (Reader.inOrder (.into get put (getVendorSpecific val) :: rs) · e) s := by
  refine .untested h hs fun v hv => ?_
  rw [Reader.inOrder, Reader.into, getVendorSpecific_of_not_isObject hv]
  rfl

end ProvisioningValidator
