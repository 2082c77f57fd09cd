import Mathlib
import ProvisioningValidator.Lib.OrdMap
import ProvisioningValidator.Lib.Text

/-!
# JSON values and their accessors

A value as RapidJSON holds it: the members of an object are a list, in the order in which they
were written, and a name may occur twice. An accessor that is called on a value of another kind
violates its precondition, an assertion of the library; here it has no result.

`Reorder` relates two values that differ in the order of members only, at any depth. It depends on
how names are told apart: where a program reads a name only up to its first NUL, two members can
have names that differ and still be the same to it.
-/

namespace Lib

/-- A JSON value. `real` stands for a number that is not an integer, as its text. -/
inductive Json where
  | null
  | bool (b : Bool)
  | int (n : Int)
  | real (text : String)
  | str (s : String)
  | arr (xs : List Json)
  | obj (members : List (String × Json))
  deriving Inhabited

namespace Json

/-! ## Kinds -/

/-- The values of a 32-bit `int`. -/
def Int32 (n : Int) : Prop := -2 ^ 31 ≤ n ∧ n < 2 ^ 31

instance (n : Int) : Decidable (Int32 n) := inferInstanceAs (Decidable (_ ∧ _))

/-- The value is an object. -/
def IsObject (v : Json) : Prop := ∃ ms, v = obj ms

/-- The value is an array. -/
def IsArray (v : Json) : Prop := ∃ xs, v = arr xs

/-- The value is a string. -/
def IsString (v : Json) : Prop := ∃ s, v = str s

/-- `IsInt()`: the value is an integer that fits an `int`. -/
def IsInt (v : Json) : Prop := ∃ n, v = int n ∧ Int32 n

/-- The value is a truth value. -/
def IsBool (v : Json) : Prop := ∃ b, v = bool b

instance : DecidablePred IsObject := fun v =>
  match v with
  | obj ms => .isTrue ⟨ms, rfl⟩
  | null | bool _ | int _ | real _ | str _ | arr _ => .isFalse (by rintro ⟨ms, h⟩; cases h)

@[simp] theorem isObject_obj (ms : List (String × Json)) : IsObject (obj ms) := ⟨ms, rfl⟩

@[simp] theorem isArray_arr (xs : List Json) : IsArray (arr xs) := ⟨xs, rfl⟩

/-! ## Accessors -/

/-- `MemberBegin()..MemberEnd()`: the members of an object. -/
def members : Json → Option (List (String × Json))
  | obj ms => some ms
  | _ => none

/-- `GetArray()`: the elements of an array. -/
def getArray : Json → Option (List Json)
  | arr xs => some xs
  | _ => none

/-- `std::string{v.GetString()}`: the text of a string up to its first NUL. -/
def getString : Json → Option String
  | str s => some (cstr s)
  | _ => none

/-- `FindMember(name)`: the first member of that name, in an object. -/
def findMember (v : Json) (name : String) : Option (Option Json) :=
  v.members.map (·.lookup name)

/-- `v[name]`, of an object that has the member. -/
def index (v : Json) (name : String) : Option Json := (v.findMember name).join

/-- The first member of that name, if the value is an object that has one. -/
def member? : Json → String → Option Json
  | obj ms, name => ms.lookup name
  | _, _ => none

@[simp] theorem members_obj (ms : List (String × Json)) : (obj ms).members = some ms := rfl

@[simp] theorem member?_obj (ms : List (String × Json)) (name : String) :
    (obj ms).member? name = ms.lookup name := rfl

theorem isSome_getString {v : Json} : v.getString.isSome = true ↔ v.IsString := by
  cases v <;> simp [getString, IsString]

theorem findMember_of_isObject {v : Json} (h : v.IsObject) (name : String) :
    v.findMember name = some (v.member? name) := by
  obtain ⟨ms, rfl⟩ := h
  rfl

theorem isObject_of_member? {v w : Json} {name : String} (h : v.member? name = some w) :
    v.IsObject := by
  cases v with
  | obj ms => exact isObject_obj ms
  | _ => cases h

theorem member?_of_findMember {v : Json} {name : String} {o : Option Json}
    (h : v.findMember name = some o) : v.member? name = o := by
  cases v with
  | obj ms => exact Option.some.inj h
  | _ => cases h

theorem findMember_eq_none {v : Json} (h : ¬ v.IsObject) (name : String) :
    v.findMember name = none := by
  cases v with
  | obj ms => exact absurd (isObject_obj ms) h
  | _ => rfl

theorem index_eq_member? (v : Json) (name : String) : v.index name = v.member? name := by
  cases v <;> rfl

/-! ## The order of members -/

/-- The two values differ at most in the order of the members of objects, at any depth. Members of
one object whose names are the same when they are read through `key` keep their order. -/
inductive Reorder (key : String → String) : Json → Json → Prop
  | refl (v : Json) : Reorder key v v
  | arr {xs ys : List Json} (h : List.Forall₂ (Reorder key) xs ys) : Reorder key (arr xs) (arr ys)
  | obj {ms ms' ns : List (String × Json)} (hshuffle : Shuffle (fun m => key m.1) ms ms')
      (hkeys : ms'.map Prod.fst = ns.map Prod.fst)
      (h : List.Forall₂ (Reorder key) (ms'.map Prod.snd) (ns.map Prod.snd)) :
      Reorder key (obj ms) (obj ns)

namespace Reorder

variable {key : String → String} {v w : Json}

instance : Std.Refl (Reorder key) := ⟨.refl⟩

theorem isObject_iff (h : Reorder key v w) : v.IsObject ↔ w.IsObject := by
  cases h with
  | refl => exact Iff.rfl
  | arr => exact iff_of_false (by rintro ⟨_, h⟩; cases h) (by rintro ⟨_, h⟩; cases h)
  | obj => exact iff_of_true ⟨_, rfl⟩ ⟨_, rfl⟩

theorem getString_eq (h : Reorder key v w) : v.getString = w.getString := by
  cases h <;> rfl

/-- Two lists of members with the same names in the same places. -/
theorem lookup_of_keys_eq {R : Json → Json → Prop} {ms ns : List (String × Json)}
    (hkeys : ms.map Prod.fst = ns.map Prod.fst)
    (h : List.Forall₂ R (ms.map Prod.snd) (ns.map Prod.snd)) (name : String) :
    Option.Rel R (ms.lookup name) (ns.lookup name) := by
  induction ms generalizing ns with
  | nil =>
    cases ns with
    | nil => exact .none
    | cons n ns => simp at hkeys
  | cons m ms ih =>
    cases ns with
    | nil => simp at hkeys
    | cons n ns =>
      simp only [List.map_cons, List.cons.injEq] at hkeys
      simp only [List.map_cons, List.forall₂_cons] at h
      by_cases hname : name = m.1
      · have hname' : name = n.1 := hname.trans hkeys.1
        rw [List.lookup_cons, List.lookup_cons, ← hname, ← hname', beq_self_eq_true]
        exact .some h.1
      · have hname' : ¬ name = n.1 := fun h => hname (h.trans hkeys.1.symm)
        rw [OrdMap.lookup_cons_of_ne hname, OrdMap.lookup_cons_of_ne hname']
        exact ih hkeys.2 h.2

/-- What a decoder finds under a name is the same up to the order of members. -/
theorem member? (h : Reorder key v w) (name : String) :
    Option.Rel (Reorder key) (v.member? name) (w.member? name) := by
  cases h with
  | refl =>
    cases v.member? name with
    | none => exact .none
    | some x => exact .some (.refl x)
  | arr => exact .none
  | obj hshuffle hkeys hvalues =>
    rename_i ms ms' ns
    rw [Json.member?_obj, Json.member?_obj, OrdMap.lookup_shuffle hshuffle]
    exact lookup_of_keys_eq hkeys hvalues name

end Reorder

end Json

end Lib
