import Mathlib
import ProvisioningValidator.Types

/-!
# Errors

An error of a response is a message with details, among them always the path of the change or of
the related resource it is about. Two messages are in use: `Constraint Violation` where something
given is wrong, and `Unprocessable entity` where something needed for the check is missing.

`Checked` is what a group of rules leaves behind: a flag, and the errors it has appended. The
functions of the rules share one flag by reference and append to one list, so that groups combine
by `++`.
-/

namespace ProvisioningValidator

open Lib

/-! ## The texts -/

def emptyFieldError (field : String) : String := "Field:[" ++ field ++ "] is empty"

def unfoundMandatoryFieldError (field : String) : String :=
  "Mandatory field:[" ++ field ++ "] not found"

/-- `unfoundMandatoryFieldError(field, parent)`. -/
def unfoundMandatoryFieldOfError (field parent : String) : String :=
  "Mandatory field:[" ++ field ++ "] not found as child of:[" ++ parent ++ "]"

def notObjectFieldError (field : String) : String := "Field:[" ++ field ++ "] is not an object"

def notArrayFieldError (field : String) : String := "Field:[" ++ field ++ "] is not an array"

def notStringFieldError (field : String) : String := "Field:[" ++ field ++ "] is not string"

def notIntFieldError (field : String) : String := "Field:[" ++ field ++ "] is not integer"

def notBoolFieldError (field : String) : String := "Field:[" ++ field ++ "] is not boolean"

/-- What `addError` appends: the message, and the two details in a map. -/
def mkError (message resourcePath description : String) : Error where
  errorMessage := message
  errorDetails :=
    OrdMap.emplaceAll ∅ [("resource_path", resourcePath), ("description", description)]

@[simp] theorem errorMessage_mkError (message resourcePath description : String) :
    (mkError message resourcePath description).errorMessage = message := rfl

/-- Every error names the resource it is about. -/
theorem find?_resourcePath_mkError (message resourcePath description : String) :
    (mkError message resourcePath description).errorDetails.find? "resource_path" =
      some resourcePath := by
  simp [mkError, OrdMap.find?_emplace]

/-- Every error describes what is wrong. -/
theorem find?_description_mkError (message resourcePath description : String) :
    (mkError message resourcePath description).errorDetails.find? "description" =
      some description := by
  simp [mkError, OrdMap.find?_emplace]

def constraintViolation (resourcePath description : String) : Error :=
  mkError "Constraint Violation" resourcePath description

def unprocessableEntity (resourcePath description : String) : Error :=
  mkError "Unprocessable entity" resourcePath description

@[simp] theorem errorMessage_constraintViolation (resourcePath description : String) :
    (constraintViolation resourcePath description).errorMessage = "Constraint Violation" := rfl

@[simp] theorem errorMessage_unprocessableEntity (resourcePath description : String) :
    (unprocessableEntity resourcePath description).errorMessage = "Unprocessable entity" := rfl

/-! ## What a group of rules leaves behind -/

/-- A flag that is still `true`, or has been set to `false`, and the errors appended so far. -/
structure Checked where
  ret : Bool
  errors : List Error

namespace Checked

variable {α : Type}

/-- Nothing wrong. -/
def pass : Checked := ⟨true, []⟩

/-- `ret = false; addError("Constraint Violation", ..)` -/
def violation (resourcePath description : String) : Checked :=
  ⟨false, [constraintViolation resourcePath description]⟩

/-- One group of rules and then another: `ret &= ..`, and the errors in order. -/
instance : Append Checked := ⟨fun a b => ⟨a.ret && b.ret, a.errors ++ b.errors⟩⟩

/-- A violation if the condition holds. -/
def failIf (c : Prop) [Decidable c] (resourcePath description : String) : Checked :=
  if c then violation resourcePath description else pass

/-- `if (c) { .. }` -/
def guard (c : Prop) [Decidable c] (r : Checked) : Checked := if c then r else pass

/-- Groups of rules one after the other. -/
def inOrder (rs : List Checked) : Checked := rs.foldr (· ++ ·) pass

/-- `for (x : xs) { .. }` -/
def forEach (xs : List α) (f : α → Checked) : Checked := xs.foldr (fun x r => f x ++ r) pass

@[simp] theorem ret_pass : pass.ret = true := rfl

@[simp] theorem errors_pass : pass.errors = [] := rfl

@[simp] theorem ret_append (a b : Checked) : (a ++ b).ret = (a.ret && b.ret) := rfl

@[simp] theorem errors_append (a b : Checked) : (a ++ b).errors = a.errors ++ b.errors := rfl

@[simp] theorem append_pass (a : Checked) : a ++ pass = a := by
  obtain ⟨ret, errors⟩ := a
  show (⟨ret && true, errors ++ []⟩ : Checked) = _
  rw [Bool.and_true, List.append_nil]

theorem append_assoc (a b c : Checked) : a ++ b ++ c = a ++ (b ++ c) := by
  show (⟨a.ret && b.ret && c.ret, a.errors ++ b.errors ++ c.errors⟩ : Checked) = _
  rw [Bool.and_assoc, List.append_assoc]
  rfl

@[simp] theorem forEach_nil (f : α → Checked) : forEach [] f = pass := rfl

@[simp] theorem forEach_cons (x : α) (xs : List α) (f : α → Checked) :
    forEach (x :: xs) f = f x ++ forEach xs f := rfl

theorem inOrder_nil : inOrder [] = pass := rfl

theorem inOrder_cons (r : Checked) (rs : List Checked) : inOrder (r :: rs) = r ++ inOrder rs := rfl

/-- The last group comes behind all others. -/
theorem inOrder_concat (rs : List Checked) (r : Checked) :
    inOrder (rs ++ [r]) = inOrder (rs ++ [pass]) ++ r := by
  induction rs with
  | nil =>
    show r ++ pass = pass ++ pass ++ r
    rw [append_pass, append_pass]
    show r = ⟨true && r.ret, [] ++ r.errors⟩
    rw [Bool.true_and, List.nil_append]
  | cons a rs ih => rw [List.cons_append, inOrder_cons, ih, List.cons_append, inOrder_cons,
      append_assoc]

@[simp] theorem ret_failIf {c : Prop} {_ : Decidable c} {resourcePath description : String} :
    (failIf c resourcePath description).ret = true ↔ ¬ c := by
  by_cases hc : c <;> simp [failIf, hc, violation]

@[simp] theorem ret_guard {c : Prop} {_ : Decidable c} {r : Checked} :
    (guard c r).ret = true ↔ c → r.ret = true := by
  by_cases hc : c <;> simp [guard, hc]

@[simp] theorem ret_inOrder {rs : List Checked} :
    (inOrder rs).ret = true ↔ ∀ r ∈ rs, r.ret = true := by
  induction rs with
  | nil => simp [inOrder]
  | cons r rs ih =>
    show (r ++ inOrder rs).ret = true ↔ _
    simp [ih]

@[simp] theorem ret_forEach {xs : List α} {f : α → Checked} :
    (forEach xs f).ret = true ↔ ∀ x ∈ xs, (f x).ret = true := by
  induction xs with
  | nil => simp
  | cons x xs ih => simp [ih]

theorem forEach_congr {xs : List α} {f g : α → Checked} (h : ∀ x ∈ xs, f x = g x) :
    forEach xs f = forEach xs g := by
  induction xs with
  | nil => rfl
  | cons x xs ih =>
    rw [forEach_cons, forEach_cons, h x List.mem_cons_self,
      ih fun y hy => h y (List.mem_cons_of_mem x hy)]

theorem guard_congr {c : Prop} {_ : Decidable c} {r r' : Checked} (h : c → r = r') :
    guard c r = guard c r' := by
  by_cases hc : c
  · rw [h hc]
  · rw [guard, guard, if_neg hc, if_neg hc]

/-! ## Flag and errors agree -/

/-- The flag is `true` exactly when no error was appended, and every error is a violation. -/
structure Balanced (r : Checked) : Prop where
  ret_iff : r.ret = true ↔ r.errors = []
  message : ∀ e ∈ r.errors, e.errorMessage = "Constraint Violation"

/-- A group of rules that does nothing but report violations, all about one resource. -/
inductive Reports (resourcePath : String) : Checked → Prop
  | pass : Reports resourcePath pass
  | violation (description : String) : Reports resourcePath (violation resourcePath description)
  | append {a b : Checked} : Reports resourcePath a → Reports resourcePath b →
      Reports resourcePath (a ++ b)

section

variable {resourcePath : String}

@[simp] theorem reports_pass : pass.Reports resourcePath := .pass

@[simp] theorem reports_violation (description : String) :
    (violation resourcePath description).Reports resourcePath := .violation description

@[simp] theorem reports_append {a b : Checked} (ha : a.Reports resourcePath)
    (hb : b.Reports resourcePath) : (a ++ b).Reports resourcePath := .append ha hb

@[simp] theorem reports_ite {c : Prop} {_ : Decidable c} {a b : Checked}
    (ha : a.Reports resourcePath) (hb : b.Reports resourcePath) :
    (if c then a else b).Reports resourcePath := by
  split_ifs
  · exact ha
  · exact hb

@[simp] theorem reports_failIf (c : Prop) {_ : Decidable c} (description : String) :
    (failIf c resourcePath description).Reports resourcePath :=
  reports_ite (reports_violation _) reports_pass

@[simp] theorem reports_guard (c : Prop) {_ : Decidable c} {r : Checked}
    (hr : r.Reports resourcePath) : (guard c r).Reports resourcePath :=
  reports_ite hr reports_pass

@[simp] theorem reports_inOrder {rs : List Checked} (h : ∀ r ∈ rs, r.Reports resourcePath) :
    (inOrder rs).Reports resourcePath := by
  induction rs with
  | nil => exact reports_pass
  | cons r rs ih =>
    exact reports_append (h r List.mem_cons_self)
      (ih fun r' hr => h r' (List.mem_cons_of_mem _ hr))

@[simp] theorem reports_forEach {xs : List α} {f : α → Checked}
    (h : ∀ x, (f x).Reports resourcePath) : (forEach xs f).Reports resourcePath := by
  induction xs with
  | nil => exact reports_pass
  | cons x xs ih => exact reports_append (h x) ih

/-- Whoever only reports violations sets the flag with every error. -/
theorem Reports.balanced {r : Checked} (h : r.Reports resourcePath) : r.Balanced := by
  induction h with
  | pass => exact ⟨by simp, by simp⟩
  | violation description => exact ⟨by simp [Checked.violation], by simp [Checked.violation]⟩
  | @append a b _ _ iha ihb =>
    refine ⟨by simp [iha.ret_iff, ihb.ret_iff], fun e he => ?_⟩
    rcases List.mem_append.1 he with he | he
    · exact iha.message e he
    · exact ihb.message e he

/-- Every error names the resource. -/
theorem Reports.resourcePath_eq {r : Checked} (h : r.Reports resourcePath) :
    ∀ e ∈ r.errors, e.errorDetails.find? "resource_path" = some resourcePath := by
  induction h with
  | pass => simp
  | violation description =>
    intro e he
    obtain rfl := List.mem_singleton.1 he
    exact find?_resourcePath_mkError _ resourcePath description
  | append _ _ iha ihb =>
    intro e he
    rcases List.mem_append.1 he with he | he
    · exact iha e he
    · exact ihb e he

end

end Checked

end ProvisioningValidator
