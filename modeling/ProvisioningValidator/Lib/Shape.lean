import Mathlib
import ProvisioningValidator.Lib.Members

/-!
# Shapes

A shape says what a hand-written decoder looks at in a JSON value: which members of an object, of
which kinds, and whether it tests a value to be an object before it uses it as one. A decoder need
not be perfect, and three constructors are for habits that real decoders have: of several members
only the first that is there is read (`choice`); members are met in a loop and told apart by their
names up to the first NUL (`loop`); a value that is not an array is passed over (`lax`). What is
asked of a value besides its kind stands in `demanding`.

`Everywhere P s v` says that `P` holds at every value that is met while `v` is read in the shape
`s`. It comes with one equation for each constructor, and three instances of it are in use:

* `Safe` — no accessor is applied to a value of the wrong kind;
* `Accepts` — every value that is met has its kind;
* `Fits` — the same, with what the decoder leaves out: what `choice` and `lax` pass over, and all
  members of a name but the first.
-/

namespace Lib

/-- What a decoder looks at. `tested` says whether a value is tested to be an object first; `needs`
are the members that are used without a test that they are there. -/
inductive Shape where
  | string
  | integer
  | boolean
  | array (element : Shape)
  | object (tested : Bool) (needs : List String) (fields : List (String × Shape))
  | choice (tested : Bool) (fields : List (String × Shape))
  | loop (fields : List (String × Shape))
  | lax (s : Shape)
  | demanding (demand : Json → Bool) (s : Shape)

namespace Shape

/-! ## The values that are met -/

/-- The first of the members that is there. -/
def pick : List (String × Shape) → Json → Option (Shape × Json)
  | [], _ => none
  | (k, s) :: fields, v =>
    match v.member? k with
    | some w => some (s, w)
    | none => pick fields v

/-- While a value is read in a shape, another value is read in another shape. With `all`, also the
values that the decoder leaves out count. -/
inductive Child (all : Bool) : Shape → Json → Shape → Json → Prop
  | element {s : Shape} {xs : List Json} {x : Json} (h : x ∈ xs) :
      Child all (array s) (.arr xs) s x
  | field {tested : Bool} {needs : List String} {fields : List (String × Shape)} {v w : Json}
      {f : String × Shape} (hf : f ∈ fields) (h : v.member? f.1 = some w) :
      Child all (object tested needs fields) v f.2 w
  | first {tested : Bool} {fields : List (String × Shape)} {v w : Json} {s : Shape}
      (h : pick fields v = some (s, w)) : Child all (choice tested fields) v s w
  | repeated {tested : Bool} {needs : List String} {fields : List (String × Shape)} {v w : Json}
      {f : String × Shape} (hall : all = true) (hf : f ∈ fields) (h : w ∈ v.membersNamed f.1) :
      Child all (object tested needs fields) v f.2 w
  | other {tested : Bool} {fields : List (String × Shape)} {v w : Json} {f : String × Shape}
      (hall : all = true) (hf : f ∈ fields) (h : w ∈ v.membersNamed f.1) :
      Child all (choice tested fields) v f.2 w
  | named {fields : List (String × Shape)} {ms : List (String × Json)} {f : String × Shape}
      {m : String × Json} (hm : m ∈ ms) (hf : f ∈ fields) (h : cstr m.1 = f.1) :
      Child all (loop fields) (.obj ms) f.2 m.2
  | passed {s : Shape} {v : Json} (h : all = true ∨ v.IsArray) : Child all (lax s) v s v
  | whole {demand : Json → Bool} {s : Shape} {v : Json} : Child all (demanding demand s) v s v

/-- `P` holds at every value that is met. -/
inductive Everywhere (all : Bool) (P : Shape → Json → Prop) : Shape → Json → Prop
  | intro {s : Shape} {v : Json} (here : P s v)
      (below : ∀ t w, Child all s v t w → Everywhere all P t w) : Everywhere all P s v

variable {all : Bool} {P : Shape → Json → Prop}

theorem everywhere_iff {s : Shape} {v : Json} : Everywhere all P s v ↔
    P s v ∧ ∀ t w, Child all s v t w → Everywhere all P t w := by
  constructor
  · intro h
    cases h with
    | intro here below => exact ⟨here, below⟩
  · intro h
    exact .intro h.1 h.2

theorem Everywhere.mono {P Q : Shape → Json → Prop} (hPQ : ∀ s v, P s v → Q s v) {s : Shape}
    {v : Json} (h : Everywhere all P s v) : Everywhere all Q s v := by
  induction h with
  | intro here _ ih => exact .intro (hPQ _ _ here) ih

theorem everywhere_congr {P Q : Shape → Json → Prop} (hPQ : ∀ s v, P s v ↔ Q s v) {s : Shape}
    {v : Json} : Everywhere all P s v ↔ Everywhere all Q s v :=
  ⟨.mono fun s v => (hPQ s v).1, .mono fun s v => (hPQ s v).2⟩

theorem everywhere_and {P Q : Shape → Json → Prop} {s : Shape} {v : Json} :
    Everywhere all (fun s v => P s v ∧ Q s v) s v ↔
      Everywhere all P s v ∧ Everywhere all Q s v := by
  constructor
  · intro h
    exact ⟨h.mono fun _ _ => And.left, h.mono fun _ _ => And.right⟩
  · rintro ⟨hP, hQ⟩
    induction hP with
    | intro here _ ih =>
      obtain ⟨hereQ, belowQ⟩ := everywhere_iff.1 hQ
      exact .intro ⟨here, hereQ⟩ fun t w hchild => ih t w hchild (belowQ t w hchild)

/-- A condition under an assumption that does not depend on the value. -/
theorem everywhere_and_imp {P Q : Shape → Json → Prop} {p : Prop} {s : Shape} {v : Json} :
    Everywhere all (fun s v => P s v ∧ (p → Q s v)) s v ↔
      Everywhere all P s v ∧ (p → Everywhere all Q s v) := by
  by_cases hp : p
  · simp only [forall_prop_of_true hp]
    exact everywhere_and
  · simp only [forall_prop_of_false hp, and_true]

/-! ## One equation for each constructor -/

theorem everywhere_string {v : Json} : Everywhere all P string v ↔ P string v := by
  rw [everywhere_iff]
  refine and_iff_left ?_
  intro t w h
  cases h

theorem everywhere_integer {v : Json} : Everywhere all P integer v ↔ P integer v := by
  rw [everywhere_iff]
  refine and_iff_left ?_
  intro t w h
  cases h

theorem everywhere_boolean {v : Json} : Everywhere all P boolean v ↔ P boolean v := by
  rw [everywhere_iff]
  refine and_iff_left ?_
  intro t w h
  cases h

theorem everywhere_array {s : Shape} {v : Json} : Everywhere all P (array s) v ↔
    P (array s) v ∧ ∀ xs, v = .arr xs → ∀ x ∈ xs, Everywhere all P s x := by
  rw [everywhere_iff]
  refine and_congr_right fun _ => ⟨?_, ?_⟩
  · intro h xs hv x hx
    subst hv
    exact h s x (.element hx)
  · intro h t w hchild
    cases hchild with
    | element hx => exact h _ rfl _ hx

/-- `P` holds everywhere in the members of an object that are looked at. -/
def EverywhereFields (P : Shape → Json → Prop) (fields : List (String × Shape)) (v : Json) : Prop :=
  ∀ f ∈ fields, ∀ w, v.member? f.1 = some w → Everywhere false P f.2 w

theorem everywhere_object {tested : Bool} {needs : List String} {fields : List (String × Shape)}
    {v : Json} : Everywhere false P (object tested needs fields) v ↔
      P (object tested needs fields) v ∧ EverywhereFields P fields v := by
  rw [everywhere_iff]
  refine and_congr_right fun _ => ⟨?_, ?_⟩
  · intro h f hf w hw
    exact h f.2 w (.field hf hw)
  · intro h t w hchild
    cases hchild with
    | field hf hw => exact h _ hf _ hw
    | repeated hall => cases hall

theorem everywhere_choice {tested : Bool} {fields : List (String × Shape)} {v : Json} :
    Everywhere false P (choice tested fields) v ↔ P (choice tested fields) v ∧
      ∀ s w, pick fields v = some (s, w) → Everywhere false P s w := by
  rw [everywhere_iff]
  refine and_congr_right fun _ => ⟨?_, ?_⟩
  · intro h s w hpick
    exact h s w (.first hpick)
  · intro h t w hchild
    cases hchild with
    | first hpick => exact h _ _ hpick
    | other hall => cases hall

theorem everywhere_loop {fields : List (String × Shape)} {v : Json} :
    Everywhere all P (loop fields) v ↔ P (loop fields) v ∧ ∀ ms, v = .obj ms →
      ∀ m ∈ ms, ∀ f ∈ fields, cstr m.1 = f.1 → Everywhere all P f.2 m.2 := by
  rw [everywhere_iff]
  refine and_congr_right fun _ => ⟨?_, ?_⟩
  · intro h ms hv m hm f hf hname
    subst hv
    exact h f.2 m.2 (.named hm hf hname)
  · intro h t w hchild
    cases hchild with
    | named hm hf hname => exact h _ rfl _ hm _ hf hname

theorem everywhere_lax {s : Shape} {v : Json} : Everywhere false P (lax s) v ↔
    P (lax s) v ∧ (v.IsArray → Everywhere false P s v) := by
  rw [everywhere_iff]
  refine and_congr_right fun _ => ⟨?_, ?_⟩
  · intro h harr
    exact h s v (.passed (Or.inr harr))
  · intro h t w hchild
    cases hchild with
    | passed harr => exact h (harr.resolve_left (by simp))

theorem everywhere_demanding {demand : Json → Bool} {s : Shape} {v : Json} :
    Everywhere all P (demanding demand s) v ↔
      P (demanding demand s) v ∧ Everywhere all P s v := by
  rw [everywhere_iff]
  refine and_congr_right fun _ => ⟨?_, ?_⟩
  · intro h
    exact h s v .whole
  · intro h t w hchild
    cases hchild with
    | whole => exact h

theorem everywhereFields_nil {v : Json} : EverywhereFields P [] v := by
  simp [EverywhereFields]

theorem everywhereFields_append {fields fields' : List (String × Shape)} {v : Json} :
    EverywhereFields P (fields ++ fields') v ↔
      EverywhereFields P fields v ∧ EverywhereFields P fields' v := by
  simp only [EverywhereFields, List.forall_mem_append]

theorem everywhereFields_singleton {k : String} {s : Shape} {v : Json} :
    EverywhereFields P [(k, s)] v ↔ ∀ w, v.member? k = some w → Everywhere false P s w := by
  simp [EverywhereFields]

/-! ## Safety -/

/-- The value is one that the decoder can use in the way it does. -/
def Usable : Shape → Json → Prop
  | object tested needs _, v =>
    (tested = false → v.IsObject) ∧ ∀ k ∈ needs, (v.member? k).isSome = true
  | choice tested _, v => tested = false → v.IsObject
  | loop _, v => v.IsObject
  | _, _ => True

/-- No accessor is applied to a value of the wrong kind while the value is read. -/
def Safe : Shape → Json → Prop := Everywhere false Usable

/-! ## Kinds -/

/-- The value has the kind that the decoder reads. -/
def KindOk : Shape → Json → Prop
  | string, v => v.IsString
  | integer, v => v.IsInt
  | boolean, v => v.IsBool
  | array _, v => v.IsArray
  | object _ _ _, v => v.IsObject
  | choice _ _, v => v.IsObject
  | loop _, v => v.IsObject
  | lax _, _ => True
  | demanding _ _, _ => True

/-- Every value that is met has its kind. -/
def Accepts : Shape → Json → Prop := Everywhere false KindOk

/-- Nothing is passed over because it is not an array. -/
def Regular : Shape → Json → Prop
  | lax _, v => v.IsArray
  | _, _ => True

/-- What is asked of the value besides its kind. -/
def Demanded : Shape → Json → Prop
  | demanding demand _, v => demand v = true
  | _, _ => True

/-! ## Modes -/

/-- In a quiet reading nothing is found fault with; in a strict one nothing is passed over. -/
structure Mode where
  quiet : Bool
  strict : Bool

/-- The value can be used, and it gives no occasion for what the mode excludes. -/
def Met (mode : Mode) (s : Shape) (v : Json) : Prop :=
  Usable s v ∧ (mode.quiet = true → KindOk s v ∧ Demanded s v) ∧ (mode.strict = true → Regular s v)

/-- The value can be read in the mode. -/
def Passes (mode : Mode) : Shape → Json → Prop := Everywhere false (Met mode)

theorem passes_iff {mode : Mode} {s : Shape} {v : Json} : Passes mode s v ↔
    s.Safe v ∧ (mode.quiet = true → s.Accepts v ∧ Everywhere false Demanded s v) ∧
      (mode.strict = true → Everywhere false Regular s v) := by
  rw [Passes, Safe, Accepts, ← everywhere_and, ← and_assoc, ← everywhere_and_imp,
    ← everywhere_and_imp]
  exact everywhere_congr fun s v => by simp only [Met, and_assoc]

/-- Where anything may be found with a value, it only has to be safe. -/
theorem passes_loose : Passes { quiet := false, strict := false } = Safe := by
  funext s v
  simp [passes_iff]

/-- No fault is found with the value. -/
abbrev Faultless : Shape → Json → Prop := Passes { quiet := true, strict := false }

/-! ## What a mode asks of each constructor -/

/-- The members are there. -/
def has (keys : List String) (v : Json) : Bool := keys.all fun k => (v.member? k).isSome

/-- The members of an object pass, and these are there. -/
def FieldsMet (fields : List (String × Shape)) (must : List String) (mode : Mode) (v : Json) :
    Prop :=
  EverywhereFields (Met mode) fields v ∧ (mode.quiet = true → has must v = true)

/-- The first of the members that is there passes. -/
def FirstMet (fields : List (String × Shape)) (mode : Mode) (v : Json) : Prop :=
  ∀ s w, pick fields v = some (s, w) → Passes mode s w

variable {mode : Mode}

/-- Where no member has to be there. -/
theorem fieldsMet_nil_iff {fields : List (String × Shape)} {v : Json} :
    FieldsMet fields [] mode v ↔ EverywhereFields (Met mode) fields v :=
  and_iff_left fun _ => rfl

theorem fieldsMet_append {fields fields' : List (String × Shape)} {must must' : List String}
    {v : Json} : FieldsMet (fields ++ fields') (must ++ must') mode v ↔
      FieldsMet fields must mode v ∧ FieldsMet fields' must' mode v := by
  simp only [FieldsMet, everywhereFields_append, has, List.all_append, Bool.and_eq_true]
  tauto

theorem fieldsMet_nil {v : Json} : FieldsMet [] [] mode v :=
  fieldsMet_nil_iff.2 everywhereFields_nil

/-- One member, which may have to be there. -/
theorem fieldsMet_one {k : String} {s : Shape} {must : List String} (hmust : ∀ k' ∈ must, k' = k)
    {v : Json} : FieldsMet [(k, s)] must mode v ↔ (∀ w, v.member? k = some w → Passes mode s w) ∧
      (mode.quiet = true → k ∈ must → (v.member? k).isSome = true) := by
  rw [FieldsMet, everywhereFields_singleton, has, List.all_eq_true]
  refine and_congr_right fun _ => forall_congr' fun _ => ⟨fun h hk => h k hk, fun h k' hk' => ?_⟩
  obtain rfl := hmust k' hk'
  exact h hk'

theorem fieldsMet_singleton {k : String} {s : Shape} {v : Json} :
    FieldsMet [(k, s)] [] mode v ↔ ∀ w, v.member? k = some w → Passes mode s w :=
  (fieldsMet_one (by simp)).trans (and_iff_left (by simp))

theorem firstMet_of_none {fields : List (String × Shape)} {f : String × Shape} {v : Json}
    (h : v.member? f.1 = none) : FirstMet (f :: fields) mode v ↔ FirstMet fields mode v := by
  simp only [FirstMet, pick, h]

theorem firstMet_of_some {fields : List (String × Shape)} {f : String × Shape} {v w : Json}
    (h : v.member? f.1 = some w) : FirstMet (f :: fields) mode v ↔ Passes mode f.2 w := by
  simp only [FirstMet, pick, h, Option.some.injEq, Prod.mk.injEq]
  exact ⟨fun hall => hall _ _ ⟨rfl, rfl⟩, by rintro hw _ _ ⟨rfl, rfl⟩; exact hw⟩

theorem passes_demanding {demand : Json → Bool} {s : Shape} {v : Json} :
    (demanding demand s).Passes mode v ↔
      (mode.quiet = true → demand v = true) ∧ s.Passes mode v := by
  simp [Passes, everywhere_demanding, Met, Usable, KindOk, Demanded, Regular]

/-- `s` is a shape of objects that are tested, or not, and `P` is what is asked of them. -/
structure Describes (tested : Bool) (s : Shape) (P : Mode → Json → Prop) : Prop where
  object : ∀ mode v, v.IsObject → (P mode v ↔ s.Passes mode v)
  other : ∀ mode v, ¬ v.IsObject → (s.Passes mode v ↔ tested = true ∧ mode.quiet = false)

theorem Describes.demanding {tested : Bool} {s : Shape} {P : Mode → Json → Prop}
    (h : Describes tested s P) {demand : Json → Bool} (hdemand : ∀ v, ¬ v.IsObject → demand v = false) :
    Describes tested (demanding demand s)
      (fun mode v => P mode v ∧ (mode.quiet = true → demand v = true)) where
  object mode v hv := by
    rw [passes_demanding, h.object mode v hv, and_comm]
  other mode v hv := by
    rw [passes_demanding, h.other mode v hv, hdemand v hv]
    cases mode.quiet <;> simp

/-- Nothing is met in a value that is no object. -/
theorem everywhereFields_of_not_isObject {P : Shape → Json → Prop} {fields : List (String × Shape)}
    {v : Json} (hv : ¬ v.IsObject) : EverywhereFields P fields v :=
  fun _ _ _ hw => absurd (Json.isObject_of_member? hw) hv

theorem describes_object {tested : Bool} {fields : List (String × Shape)} :
    Describes tested (object tested [] fields) (FieldsMet fields []) where
  object mode v hv := by
    simp [Passes, everywhere_object, FieldsMet, Met, Usable, KindOk, Demanded, Regular, hv, has]
  other mode v hv := by
    have hfields : EverywhereFields (Met mode) fields v :=
      everywhereFields_of_not_isObject hv
    cases tested <;> simp [Passes, everywhere_object, Met, Usable, KindOk, Demanded, Regular, hv,
      hfields]

theorem has_of_not_isObject {keys : List String} (hkeys : keys ≠ []) {v : Json}
    (hv : ¬ v.IsObject) : has keys v = false := by
  cases keys with
  | nil => exact absurd rfl hkeys
  | cons k keys =>
    cases hw : v.member? k with
    | none => simp [has, hw]
    | some w => exact absurd (Json.isObject_of_member? hw) hv

/-- An object with members that must be there. -/
theorem describes_must {tested : Bool} {fields : List (String × Shape)} {must : List String}
    (hmust : must ≠ []) :
    Describes tested (demanding (has must) (object tested [] fields)) (FieldsMet fields must) where
  object mode v hv := by
    rw [passes_demanding, ← describes_object.object mode v hv, fieldsMet_nil_iff, FieldsMet,
      and_comm]
  other mode v hv := by
    rw [passes_demanding, describes_object.other mode v hv, has_of_not_isObject hmust hv]
    cases mode.quiet <;> simp

theorem pick_of_not_isObject {v : Json} (hv : ¬ v.IsObject) (fields : List (String × Shape)) :
    pick fields v = none := by
  induction fields with
  | nil => rfl
  | cons f fields ih =>
    have hnone : v.member? f.1 = none := by
      rw [Option.eq_none_iff_forall_ne_some]
      exact fun w hw => hv (Json.isObject_of_member? hw)
    rw [pick, hnone]
    exact ih

theorem describes_choice {tested : Bool} {fields : List (String × Shape)} :
    Describes tested (choice tested fields) (FirstMet fields) where
  object mode v hv := by
    simp [Passes, everywhere_choice, FirstMet, Met, Usable, KindOk, Demanded, Regular, hv]
  other mode v hv := by
    cases tested <;> simp [Passes, everywhere_choice, Met, Usable, KindOk, Demanded, Regular, hv,
      pick_of_not_isObject hv]

theorem describes_loop {fields : List (String × Shape)} :
    Describes false (loop fields) (fun mode v => ∀ ms, v = .obj ms → ∀ m ∈ ms, ∀ f ∈ fields,
      cstr m.1 = f.1 → f.2.Passes mode m.2) where
  object mode v hv := by
    simp [Passes, everywhere_loop, Met, Usable, KindOk, Demanded, Regular, hv]
  other mode v hv := by
    simp [Passes, everywhere_loop, Met, Usable, hv]

theorem passes_array {s : Shape} {v : Json} : (array s).Passes mode v ↔
    (mode.quiet = true → v.IsArray) ∧ ∀ xs, v = .arr xs → ∀ x ∈ xs, s.Passes mode x := by
  simp [Passes, everywhere_array, Met, Usable, KindOk, Demanded, Regular]

/-- A value that is no array passes only where fault may be found with it. -/
theorem passes_array_of_not {s : Shape} {v : Json} (hv : ¬ v.IsArray) :
    (array s).Passes mode v ↔ mode.quiet = false := by
  rw [passes_array]
  have helements : ∀ xs, v = .arr xs → ∀ x ∈ xs, s.Passes mode x := fun xs hxs =>
    absurd ⟨xs, hxs⟩ hv
  rw [and_iff_left helements]
  simp [hv]

theorem passes_lax {s : Shape} {v : Json} : (lax s).Passes mode v ↔
    (mode.strict = true → v.IsArray) ∧ (v.IsArray → s.Passes mode v) := by
  simp [Passes, everywhere_lax, Met, Usable, KindOk, Demanded, Regular]

/-! ## Shapes that are safe for every value -/

mutual

/-- Every object in the shape is tested before it is used. -/
def guarded : Shape → Bool
  | string | integer | boolean => true
  | array s => guarded s
  | object tested needs fields => tested && needs.isEmpty && guardedFields fields
  | choice tested fields => tested && guardedFields fields
  | loop _ => false
  | lax s => guarded s
  | demanding _ s => guarded s

def guardedFields : List (String × Shape) → Bool
  | [] => true
  | (_, s) :: fields => guarded s && guardedFields fields

end

theorem usable_of_guarded {s : Shape} (h : guarded s = true) (v : Json) : Usable s v := by
  cases s with
  | object tested needs fields =>
    simp only [guarded, Bool.and_eq_true, List.isEmpty_iff] at h
    obtain ⟨⟨rfl, rfl⟩, -⟩ := h
    exact ⟨by simp, by simp⟩
  | choice tested fields =>
    simp only [guarded, Bool.and_eq_true] at h
    obtain ⟨rfl, -⟩ := h
    simp [Usable]
  | loop fields => cases h
  | _ => trivial

theorem mem_of_pick {fields : List (String × Shape)} {v w : Json} {s : Shape}
    (h : pick fields v = some (s, w)) : ∃ f ∈ fields, f.2 = s := by
  induction fields with
  | nil => cases h
  | cons f fields ih =>
    rw [pick] at h
    cases hw : v.member? f.1 with
    | none =>
      rw [hw] at h
      obtain ⟨g, hg, hs⟩ := ih h
      exact ⟨g, List.mem_cons_of_mem _ hg, hs⟩
    | some x =>
      rw [hw, Option.some.injEq, Prod.mk.injEq] at h
      exact ⟨f, List.mem_cons_self, h.1⟩

mutual

/-- **A guarded shape is safe for every value.** -/
theorem safe_of_guarded : ∀ {s : Shape}, guarded s = true → ∀ v, s.Safe v
  | string, _, _ => everywhere_string.2 trivial
  | integer, _, _ => everywhere_integer.2 trivial
  | boolean, _, _ => everywhere_boolean.2 trivial
  | array s, h, _ => everywhere_array.2 ⟨trivial, fun _ _ x _ => safe_of_guarded (s := s) h x⟩
  | object tested needs fields, h, v => by
    have hfields : guardedFields fields = true := by
      rw [guarded, Bool.and_eq_true] at h
      exact h.2
    exact everywhere_object.2 ⟨usable_of_guarded h v,
      fun f hf w _ => safe_of_guardedFields hfields f hf w⟩
  | choice tested fields, h, v => by
    have hfields : guardedFields fields = true := by
      rw [guarded, Bool.and_eq_true] at h
      exact h.2
    refine everywhere_choice.2 ⟨usable_of_guarded h v, fun s w hpick => ?_⟩
    obtain ⟨f, hf, rfl⟩ := mem_of_pick hpick
    exact safe_of_guardedFields hfields f hf w
  | loop _, h, _ => by cases h
  | lax s, h, v => everywhere_lax.2 ⟨trivial, fun _ => @safe_of_guarded s h v⟩
  | demanding _ s, h, v => everywhere_demanding.2 ⟨trivial, @safe_of_guarded s h v⟩

theorem safe_of_guardedFields : ∀ {fields : List (String × Shape)}, guardedFields fields = true →
    ∀ f ∈ fields, ∀ w, f.2.Safe w
  | [], _ => by simp
  | (k, s) :: fields, h => by
    rw [guardedFields, Bool.and_eq_true] at h
    rw [List.forall_mem_cons]
    exact ⟨safe_of_guarded h.1, safe_of_guardedFields h.2⟩

end

/-- Of the members of an object, only those whose shapes are not guarded matter. -/
theorem safe_fields_iff (fields : List (String × Shape)) (v : Json) :
    EverywhereFields Usable fields v ↔
      EverywhereFields Usable (fields.filter fun f => !guarded f.2) v := by
  constructor
  · intro h f hf
    exact h f (List.mem_of_mem_filter hf)
  · intro h f hf w hw
    by_cases hg : guarded f.2 = true
    · exact safe_of_guarded hg w
    · exact h f (List.mem_filter.2 ⟨hf, by simpa using hg⟩) w hw

end Shape

end Lib
