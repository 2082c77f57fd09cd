import Mathlib
import ProvisioningValidator.Errors
import ProvisioningValidator.Lib.Run

/-!
# Reading members of an object

The parser walks over a JSON object member by member: it tests whether the member is there, tests
the kind of its value, and either assigns a field or records an error. The readers below are these
steps, with the member, the texts and the field as parameters; the readers of the resource kinds
are put together from them.

A `Reader E` reads one value into an entity that may already hold something.
-/

namespace ProvisioningValidator

open Lib

variable {E A V : Type}

/-- What the parser records: an error of the response, through `data.addError`, or the text of its
own error flag, through `setParsingError`. -/
inductive Event where
  | error (e : Error)
  | parsingError (err : String)

abbrev ParserM (α : Type) := Run Event α

/-- `data.addError("Constraint Violation", {resource_path, description})` -/
def addError (resourcePath description : String) : ParserM Unit :=
  Run.emit (.error (constraintViolation resourcePath description))

def setParsingError (err : String) : ParserM Unit := Run.emit (.parsingError err)

abbrev Reader (E : Type) := Json → E → ParserM E

/-! ## The kinds of a value -/

/-- `IsString()`, and then `GetString()`. -/
def asString : Json → Option String
  | .str s => some (cstr s)
  | _ => none

/-- `IsInt()`, and then `GetInt()`. -/
def asInt : Json → Option Int
  | .int n => if Json.Int32 n then some n else none
  | _ => none

/-- `IsBool()`, and then `GetBool()`. -/
def asBool : Json → Option Bool
  | .bool b => some b
  | _ => none

/-- `IsArray()`, and then `GetArray()`. -/
def asArray : Json → Option (List Json)
  | .arr xs => some xs
  | _ => none

namespace Reader

/-! ## Steps -/

/-- One reader after the other, on the same value. -/
def inOrder : List (Reader E) → Reader E
  | [], _, e => pure e
  | r :: rs, v, e => do inOrder rs v (← r v e)

/-- Nothing is read; the entity is updated. -/
def mark (set : E → E) : Reader E := fun _ e => pure (set e)

/-- A flag is set, and then the value is read. -/
def marking (set : E → E) (r : Reader E) : Reader E := fun v e => r v (set e)

/-- The value is read into a part of the entity. -/
def into (get : E → A) (put : A → E → E) (r : Reader A) : Reader E := fun v e => do
  let a ← r v (get e)
  return put a e

/-! ## Members -/

/-- `if (v.HasMember(key)) { .. v[key] .. } else { .. }` -/
def ifMember (key : String) (present : Reader E) (absent : E → ParserM E) : Reader E :=
  fun v e => do
    match ← Run.lift (v.findMember key) with
    | some w => present w e
    | none => absent e

/-- An absent member that may be absent. -/
def skip (e : E) : ParserM E := pure e

/-- An absent member that leaves a trace in a flag. -/
def without (set : E → E) (e : E) : ParserM E := pure (set e)

/-- An absent member that must be there. -/
def mandatory (resourcePath description : String) (e : E) : ParserM E := do
  addError resourcePath description
  return e

/-- `if (v.HasMember(key)) { .. } else if (v.HasMember(key')) { .. } .. else { .. }` -/
def firstMember (absent : ParserM A) : List (String × (Json → ParserM A)) → Json → ParserM A
  | [], _ => absent
  | (key, present) :: rest, v => do
    match ← Run.lift (v.findMember key) with
    | some w => present w
    | none => firstMember absent rest v

/-! ## Values -/

/-- A value of the kind `view` is put into a field; another one is an error. -/
def leaf (view : Json → Option A) (resourcePath description : String) (put : A → E → E) :
    Reader E := fun v e =>
  match view v with
  | some a => return put a e
  | none => do
    addError resourcePath description
    return e

def string (resourcePath key : String) (put : String → E → E) : Reader E :=
  leaf asString resourcePath (notStringFieldError key) put

def int (resourcePath key : String) (put : Int → E → E) : Reader E :=
  leaf asInt resourcePath (notIntFieldError key) put

def bool (resourcePath key : String) (put : Bool → E → E) : Reader E :=
  leaf asBool resourcePath (notBoolFieldError key) put

/-- A text that is kept, but must not be empty. The error names `field`. -/
def nonEmptyString (resourcePath key field : String) (put : String → E → E) : Reader E := fun v e =>
  match asString v with
  | some s => do
    if s = "" then
      addError resourcePath (emptyFieldError field)
    return put s e
  | none => do
    addError resourcePath (notStringFieldError key)
    return e

/-- The elements of an array, each read on its own; what they give is put into a field. -/
def array (resourcePath key : String) (element : Json → ParserM (Option A))
    (put : List A → E → E) : Reader E := fun v e =>
  match asArray v with
  | some xs => do
    let as ← Run.collect element xs
    return put as e
  | none => do
    addError resourcePath (notArrayFieldError key)
    return e

/-- A value that is tested to be an object before its members are read. -/
def object (resourcePath key : String) (r : Reader E) : Reader E := fun v e =>
  if v.IsObject then r v e
  else do
    addError resourcePath (notObjectFieldError key)
    return e

/-! ## Elements of an array -/

/-- A text among the elements of the array `key`. -/
def stringElement (resourcePath key : String) (v : Json) : ParserM (Option String) :=
  match asString v with
  | some s => return some s
  | none => do
    addError resourcePath (notStringFieldError key)
    return none

/-- An array of texts. -/
def strings (resourcePath key : String) (put : List String → E → E) : Reader E :=
  array resourcePath key (stringElement resourcePath key) put

/-- An element of the array `key` that is tested to be an object. -/
def objectElement (resourcePath key : String) (element : Json → ParserM (Option A)) (v : Json) :
    ParserM (Option A) :=
  if v.IsObject then element v
  else do
    addError resourcePath (notObjectFieldError key)
    return none

/-- An element that is read into a fresh entity. -/
def fresh (start : A) (r : Reader A) (v : Json) : ParserM (Option A) := do
  let a ← r v start
  return some a

end Reader

/-! ## Vendor-specific members -/

-- `val` is what a vendor-specific value is kept as; the service keeps the value.
variable (val : Json → V)

/-- `ValidatorVendorSpecificParser::getVendorSpecific`. -/
def getVendorSpecific : Reader (VendorSpecific V) := fun attrData vendorSpecific => do
  let members ← Run.lift attrData.members
  return members.foldl (fun m itr => m.add itr.1 (val itr.2)) vendorSpecific

end ProvisioningValidator
