import Mathlib
import ProvisioningValidator.SmsRoundTrip

/-!
# Reading what the encoder writes

The bodies of answers have the form of the bodies of requests. What an entity is written as can be
read again, and the readers then find it as it was, as long as nothing was left out that they ask
for.

The encoder writes an object as its vendor-specific members among members that are there or not
(`Holds`). On such an object the steps of the readers are equations: `r (.obj os) e = pure e'` says
that the step takes `e` to `e'` and records nothing.
-/

namespace ProvisioningValidator

open Lib Lib.Run

variable {A E : Type}

/-! ## Objects as they are written -/

/-- A value that is written where the flag is set. -/
def given (flag : Bool) (w : Json) : Option Json := if flag = true then some w else none

@[simp] theorem given_true (w : Json) : given true w = some w := rfl

@[simp] theorem given_false (w : Json) : given false w = none := rfl

theorem member_eq (key : String) (w : Json) : [(key, w)] = Json.present [(key, some w)] := rfl

theorem whenFlag_eq (flag : Bool) (key : String) (w : Json) :
    whenFlag flag (Json.present [(key, some w)]) = Json.present [(key, given flag w)] := by
  cases flag <;> rfl

theorem strToJson_eq (s key : String) :
    strToJson s key = Json.present [(key, given (s != "") (.str (cstr s)))] := by
  rw [strToJson, ← whenFlag_eq, ← member_eq, whenFlag]
  by_cases hs : s = "" <;> simp [hs]

theorem listToJson_eq (as : List A) (key : String) (toJson : A → Json) :
    listToJson as key toJson = Json.present [(key, given (!as.isEmpty) (.arr (as.map toJson)))] := by
  rw [listToJson]
  cases as <;> rfl

theorem stringListToJson_eq (ss : List String) (key : String) :
    stringListToJson ss key = Json.present [(key, given (!ss.isEmpty) (stringsToJson ss))] := by
  rw [stringListToJson]
  cases ss <;> rfl

/-- An object as it is written: the vendor-specific members among the others. -/
def writtenObject (front : List (String × Option Json)) (m : VendorSpecific Json)
    (back : List (String × Option Json)) : List (String × Json) :=
  Json.present front ++ (vendorSpecificToJson m ++ Json.present back)

/-- The object holds these vendor-specific members, under each of the names what is said, and
nothing else, each under a name of its own. -/
structure Holds (os : List (String × Json)) (m : VendorSpecific Json)
    (ms : List (String × Option Json)) : Prop where
  vendor : vendorAt os = m
  found : ms.Forall fun n => os.lookup n.1 = n.2
  names : (os.map Prod.fst).Nodup
  nothingElse : ∀ o ∈ os, vendorName o.1 = false → (o.1, some o.2) ∈ ms

section

variable {os : List (String × Json)} {m : VendorSpecific Json}

theorem filter_vendor (m : VendorSpecific Json) :
    vendorEntries id (vendorSpecificToJson m) = m.map.entries := by
  rw [vendorSpecificToJson_eq, vendorEntries]
  have hall : ∀ e ∈ m.map.entries, isVendorSpecific (cstr e.1) = true := by
    intro e he
    obtain ⟨hfree, hvendor⟩ := m.names e he
    rw [cstr_eq_self.2 hfree]
    exact hvendor
  have hname : ∀ e ∈ m.map.entries, (cstr e.1, id e.2) = e := fun e he =>
    Prod.ext (cstr_eq_self.2 (m.names e he).1) rfl
  rw [List.filter_eq_self.2 hall, List.map_congr_left hname, List.map_id']

theorem filter_plain {ms : List (String × Json)} (h : ∀ n ∈ ms, vendorName n.1 = false) :
    vendorEntries id ms = [] := by
  rw [vendorEntries, List.filter_eq_nil_iff.2 fun n hn => ?_, List.map_nil]
  rw [isVendorSpecific_cstr, h n hn]
  exact Bool.false_ne_true

/-- What is written of the vendor-specific members has distinct names. -/
theorem names_vendorSpecificToJson (m : VendorSpecific Json) :
    ((vendorSpecificToJson m).map Prod.fst).Nodup := by
  rw [vendorSpecificToJson_eq, List.nodup_iff_pairwise_ne, List.pairwise_map]
  exact m.map.sorted.imp fun hlt => hlt.ne

/-- **What an object holds that is written like that.** The members before the vendor-specific ones
and those after them have names of their own. -/
theorem holds_written {v : Json} (front : List (String × Option Json)) (m : VendorSpecific Json)
    (back : List (String × Option Json)) (names : List String)
    (hv : v = .obj (writtenObject front m back)) (hnames : (front ++ back).map Prod.fst = names)
    (hnodup : names.Nodup) (hplain : ∀ name ∈ names, vendorName name = false) :
    ∃ os, v = .obj os ∧ Holds os m (front ++ back) := by
  subst hnames
  refine ⟨_, hv, ?_⟩
  have hfront : ∀ name ∈ front.map Prod.fst, vendorName name = false := fun name hname =>
    hplain name (by rw [List.map_append]; exact List.mem_append_left _ hname)
  have hback : ∀ name ∈ back.map Prod.fst, vendorName name = false := fun name hname =>
    hplain name (by rw [List.map_append]; exact List.mem_append_right _ hname)
  have hwritten : ∀ {ms : List (String × Option Json)},
      (∀ name ∈ ms.map Prod.fst, vendorName name = false) →
        vendorEntries id (Json.present ms) = [] := fun h =>
    filter_plain fun n hn => h n.1 ((Json.names_present _).subset (List.mem_map_of_mem hn))
  refine ⟨?_, List.forall_iff_forall_mem.2 fun n hn => ?_, ?_, fun o ho hname => ?_⟩
  · apply VendorSpecific.ext_map
    have hmap := @map_foldl_add Json id
      (Json.present front ++ (vendorSpecificToJson m ++ Json.present back)) ∅
    have hsplit : ∀ as bs : List (String × Json),
        vendorEntries id (as ++ bs) = vendorEntries id as ++ vendorEntries id bs := by
      intro as bs
      rw [vendorEntries, List.filter_append, List.map_append]
      rfl
    rw [hsplit, hsplit, hwritten hfront, hwritten hback, filter_vendor, List.nil_append,
      List.append_nil] at hmap
    exact hmap.trans (OrdMap.emplaceAll_entries m.map)
  · rw [writtenObject]
    have hname : vendorName n.1 = false := hplain n.1 (List.mem_map_of_mem hn)
    have hvendor : (vendorSpecificToJson m).lookup n.1 = none := by
      rw [← Option.not_isSome_iff_eq_none, Json.isSome_lookup]
      intro hmem
      rw [(name_of_vendor hmem).2] at hname
      exact Bool.noConfusion hname
    rw [List.lookup_append, List.lookup_append, hvendor, Option.none_or, ← List.lookup_append,
      ← Json.present_append]
    exact Json.lookup_present hnodup hn
  · have hplainNames : ((Json.present (front ++ back)).map Prod.fst).Nodup :=
      (Json.names_present _).nodup hnodup
    rw [Json.present_append] at hplainNames
    have hperm : (writtenObject front m back).Perm
        (vendorSpecificToJson m ++ (Json.present front ++ Json.present back)) := by
      rw [writtenObject, ← List.append_assoc, ← List.append_assoc]
      exact List.perm_append_comm.append_right _
    rw [(hperm.map Prod.fst).nodup_iff, List.map_append, List.nodup_append]
    refine ⟨names_vendorSpecificToJson m, hplainNames, fun a ha b hb => ?_⟩
    rintro rfl
    rw [← Json.present_append] at hb
    have hname := hplain a ((Json.names_present _).subset hb)
    rw [(name_of_vendor ha).2] at hname
    exact Bool.noConfusion hname
  · rw [writtenObject, List.mem_append, List.mem_append] at ho
    have hpresent : o ∈ Json.present (front ++ back) := by
      rw [Json.present_append, List.mem_append]
      refine ho.imp_right fun hother => hother.resolve_left fun hvendor => ?_
      rw [(name_of_vendor (List.mem_map_of_mem hvendor)).2] at hname
      exact Bool.noConfusion hname
    exact Json.mem_present.1 hpresent

/-! ## Steps on such an object -/

/-- A step, and then the others. -/
theorem inOrder_step {r : Reader E} {rs : List (Reader E)} {v : Json} {e e' t : E}
    (h : r v e = pure e') (hs : Reader.inOrder rs v e' = pure t) :
    Reader.inOrder (r :: rs) v e = pure t := by
  show (r v e >>= fun e' => Reader.inOrder rs v e') = pure t
  rw [h, pure_bind, hs]

theorem into_eq {get : E → A} {put : A → E → E} {r : Reader A} {v : Json} {e : E} {a : A}
    (h : r v (get e) = pure a) : Reader.into get put r v e = pure (put a e) := by
  show (r v (get e) >>= fun a => pure (put a e)) = pure (put a e)
  rw [h, pure_bind]

theorem marking_eq {set : E → E} {r : Reader E} {v : Json} {e e' : E}
    (h : r v (set e) = pure e') : Reader.marking set r v e = pure e' := h

/-- The vendor-specific members. -/
theorem getVendorSpecific_eq {ms : List (String × Option Json)} (h : Holds os m ms) :
    getVendorSpecific id (.obj os) ∅ = pure m := by
  rw [← h.vendor]
  rfl

/-- The vendor-specific members, into a field that holds none. -/
theorem into_vendor {ms : List (String × Option Json)} (h : Holds os m ms)
    {get : E → VendorSpecific Json} {put : VendorSpecific Json → E → E} {e : E}
    (hget : get e = ∅) :
    Reader.into get put (getVendorSpecific id) (.obj os) e = pure (put m e) :=
  into_eq (hget ▸ getVendorSpecific_eq h)

/-- A member that is there if the flag is set. -/
theorem ifMember_given {key : String} {flag : Bool} {w : Json} {r : Reader E}
    {absent : E → ParserM E} {e e' : E} (hos : os.lookup key = given flag w)
    (hpresent : flag = true → r w e = pure e') (habsent : flag = false → absent e = pure e') :
    Reader.ifMember key r absent (.obj os) e = pure e' := by
  have hfind : (Json.obj os).findMember key = some (os.lookup key) := rfl
  rw [Reader.ifMember, hfind, hos, lift_some, pure_bind]
  cases flag with
  | true => exact hpresent rfl
  | false => exact habsent rfl

/-- A member that is always there. -/
theorem ifMember_some {key : String} {w : Json} {r : Reader E} {absent : E → ParserM E} {e e' : E}
    (hos : os.lookup key = some w) (h : r w e = pure e') :
    Reader.ifMember key r absent (.obj os) e = pure e' :=
  ifMember_given (show os.lookup key = given true w from hos) (fun _ => h) nofun

/-- The first of several members, where it is there. -/
theorem firstMember_some {key : String} {w : Json} {absent : ParserM A} {f : Json → ParserM A}
    {rest : List (String × (Json → ParserM A))} (hos : os.lookup key = some w) :
    Reader.firstMember absent ((key, f) :: rest) (.obj os) = f w := by
  have hfind : (Json.obj os).findMember key = some (os.lookup key) := rfl
  rw [Reader.firstMember, hfind, hos, lift_some, pure_bind]

/-- The first of several members, where it is not there. -/
theorem firstMember_none {key : String} {absent : ParserM A} {f : Json → ParserM A}
    {rest : List (String × (Json → ParserM A))} (hos : os.lookup key = none) :
    Reader.firstMember absent ((key, f) :: rest) (.obj os) =
      Reader.firstMember absent rest (.obj os) := by
  have hfind : (Json.obj os).findMember key = some (os.lookup key) := rfl
  rw [Reader.firstMember, hfind, hos, lift_some, pure_bind]

end

/-! ## Values that are written -/

variable {p key : String}

theorem string_eq {s : String} (hs : NulFree s) {put : String → E → E} {e : E} :
    Reader.string p key put (.str (cstr s)) e = pure (put s e) := by
  rw [Reader.string, Reader.leaf, asString, cstr_cstr, cstr_eq_self.2 hs]

theorem nonEmptyString_eq {s field : String} (hs : NulFree s) (hne : s ≠ "")
    {put : String → E → E} {e : E} :
    Reader.nonEmptyString p key field put (.str (cstr s)) e = pure (put s e) := by
  rw [Reader.nonEmptyString, asString, cstr_cstr, cstr_eq_self.2 hs]
  simp only [if_neg hne]

theorem int_eq {n : Int} (hn : Json.Int32 n) {put : Int → E → E} {e : E} :
    Reader.int p key put (.int n) e = pure (put n e) := by
  rw [Reader.int, Reader.leaf, asInt, if_pos hn]

theorem collect_eq {element : Json → ParserM (Option A)} {toJson : A → Json} {as : List A}
    (h : ∀ a ∈ as, element (toJson a) = pure (some a)) :
    collect element (as.map toJson) = pure as := by
  induction as with
  | nil => rfl
  | cons a as ih =>
    rw [List.map_cons, collect_cons, h a List.mem_cons_self, pure_bind,
      ih fun b hb => h b (List.mem_cons_of_mem _ hb), pure_bind]
    rfl

theorem array_eq {element : Json → ParserM (Option A)} {toJson : A → Json} {as : List A}
    (h : ∀ a ∈ as, element (toJson a) = pure (some a)) {put : List A → E → E} {e : E} :
    Reader.array p key element put (.arr (as.map toJson)) e = pure (put as e) := by
  show (collect element (as.map toJson) >>= fun as => pure (put as e)) = pure (put as e)
  rw [collect_eq h, pure_bind]

theorem strings_eq {ss : List String} (h : ∀ s ∈ ss, NulFree s) {put : List String → E → E}
    {e : E} : Reader.strings p key put (stringsToJson ss) e = pure (put ss e) := by
  refine array_eq fun s hs => ?_
  rw [Reader.stringElement, asString, cstr_cstr, cstr_eq_self.2 (h s hs)]

theorem object_eq {r : Reader E} {v : Json} {e : E} (hv : v.IsObject) :
    Reader.object p key r v e = r v e := if_pos hv

theorem objectElement_eq {r : Reader A} {v : Json} {start a : A} (hv : v.IsObject)
    (h : r v start = pure a) :
    Reader.objectElement p key (Reader.fresh start r) v = pure (some a) := by
  show (if v.IsObject then r v start >>= fun a => pure (some a) else _) = _
  rw [if_pos hv, h, pure_bind]

/-- An object that is always there. -/
theorem mandatoryPart {os : List (String × Json)} {w : Json} {a : A}
    (hos : os.lookup key = some w) (hw : w.IsObject) {get : E → A} {put : A → E → E} {r : Reader A}
    {absent : E → ParserM E} {e : E} (h : r w (get e) = pure a) :
    Reader.ifMember key (.object p key (.into get put r)) absent (.obj os) e = pure (put a e) :=
  ifMember_some hos ((object_eq hw).trans (into_eq h))

/-! ## What can be stored -/

/-- A text that the readers ask for. -/
def MandatoryText (s : String) : Prop := NulFree s ∧ s ≠ ""

/-- An integer that is there where the flag says so. -/
def StoredInt (flag : Bool) (x : Option Int) : Prop := x.isSome = flag ∧ ∀ n ∈ x, Json.Int32 n

/-- A part that was never touched where the flag is not set. -/
def Flagged (flag : Bool) (Storable : A → Prop) (blank a : A) : Prop :=
  (flag = true → Storable a) ∧ (flag = false → a = blank)

/-! ## Members that may be missing -/

section

variable {os : List (String × Json)} (ind : Indeterminate)

/-- A text that is left out if it is empty. -/
theorem optionalText {s : String} (hos : os.lookup key = given (s != "") (.str (cstr s)))
    (hs : NulFree s) {put : String → E → E} {e : E} (hblank : put "" e = e) :
    Reader.ifMember key (.string p key put) Reader.skip (.obj os) e = pure (put s e) := by
  refine ifMember_given hos (fun _ => string_eq hs) fun hflag => ?_
  have hempty : s = "" := by simpa using hflag
  rw [hempty, hblank]
  rfl

/-- A text that has to be there. -/
theorem mandatoryText {s : String} (hos : os.lookup key = given (s != "") (.str (cstr s)))
    (hs : MandatoryText s) {put : String → E → E} {absent : E → ParserM E} {e : E} :
    Reader.ifMember key (.string p key put) absent (.obj os) e = pure (put s e) := by
  refine ifMember_given hos (fun _ => string_eq hs.1) fun hflag => ?_
  exact absurd (by simpa using hflag) hs.2

/-- A text that has to be there and must not be empty. -/
theorem mandatoryNonEmptyText {s field : String}
    (hos : os.lookup key = given (s != "") (.str (cstr s))) (hs : MandatoryText s)
    {put : String → E → E} {absent : E → ParserM E} {e : E} :
    Reader.ifMember key (.nonEmptyString p key field put) absent (.obj os) e = pure (put s e) := by
  refine ifMember_given hos (fun _ => nonEmptyString_eq hs.1 hs.2) fun hflag => ?_
  exact absurd (by simpa using hflag) hs.2

/-- An array that is left out if it is empty. -/
theorem optionalArray {element : Json → ParserM (Option A)} {toJson : A → Json} {as : List A}
    (hos : os.lookup key = given (!as.isEmpty) (.arr (as.map toJson)))
    (h : ∀ a ∈ as, element (toJson a) = pure (some a)) {put : List A → E → E} {e : E}
    (hblank : put [] e = e) :
    Reader.ifMember key (.array p key element put) Reader.skip (.obj os) e = pure (put as e) := by
  refine ifMember_given hos (fun _ => array_eq h) fun hflag => ?_
  have hempty : as = [] := by simpa using hflag
  rw [hempty, hblank]
  rfl

/-- An array of texts that is left out if it is empty. -/
theorem optionalStrings {ss : List String}
    (hos : os.lookup key = given (!ss.isEmpty) (stringsToJson ss)) (h : ∀ s ∈ ss, NulFree s)
    {put : List String → E → E} {e : E} (hblank : put [] e = e) :
    Reader.ifMember key (.strings p key put) Reader.skip (.obj os) e = pure (put ss e) := by
  refine ifMember_given hos (fun _ => strings_eq h) fun hflag => ?_
  have hempty : ss = [] := by simpa using hflag
  rw [hempty, hblank]
  rfl

/-- An integer; `set` is what becomes of the field and of its flag. -/
theorem flaggedInt {flag : Bool} {x : Option Int}
    (hos : os.lookup key = given flag (.int (ind.readInt x))) (hx : StoredInt flag x)
    {r : Reader E} {absent : E → ParserM E} {e : E} (set : Bool → Option Int → E → E)
    (hsome : ∀ n, Json.Int32 n → r (.int n) e = pure (set true (some n) e))
    (hnone : absent e = pure (set false none e)) :
    Reader.ifMember key r absent (.obj os) e = pure (set flag x e) := by
  obtain ⟨hflag, hint⟩ := hx
  cases x with
  | none =>
    subst hflag
    exact ifMember_given hos nofun fun _ => hnone
  | some n =>
    subst hflag
    exact ifMember_given hos (fun _ => hsome n (hint n rfl)) nofun

/-- An integer that is always written. -/
theorem mandatoryInt {x : Option Int} (hos : os.lookup key = some (.int (ind.readInt x)))
    (hx : StoredInt true x) {put : Int → E → E} {absent : E → ParserM E} {e : E}
    (set : Option Int → E → E) (hput : ∀ n, put n e = set (some n) e) :
    Reader.ifMember key (.int p key put) absent (.obj os) e = pure (set x e) := by
  obtain ⟨n, rfl⟩ := Option.isSome_iff_exists.1 hx.1
  refine ifMember_some hos ?_
  rw [← hput]
  exact int_eq (hx.2 n rfl)

/-- A truth value; `set` is what becomes of the field and of its flag. -/
theorem flaggedBool {flag : Bool} {x : Option Bool}
    (hos : os.lookup key = given flag (.bool (ind.readBool x))) (hx : x.isSome = flag)
    {r : Reader E} {absent : E → ParserM E} {e : E} (set : Bool → Option Bool → E → E)
    (hsome : ∀ b, r (.bool b) e = pure (set true (some b) e))
    (hnone : absent e = pure (set false none e)) :
    Reader.ifMember key r absent (.obj os) e = pure (set flag x e) := by
  subst hx
  cases x with
  | none => exact ifMember_given hos nofun fun _ => hnone
  | some b => exact ifMember_given hos (fun _ => hsome b) nofun

/-- A part that is flagged; `set` is what becomes of it and of its flag. -/
theorem flaggedPart {flag : Bool} {w : Json} {Storable : A → Prop} {blank a : A}
    (hos : os.lookup key = given flag w) (ha : Flagged flag Storable blank a) {r : Reader E}
    {absent : E → ParserM E} {e : E} (set : Bool → A → E → E)
    (hsome : Storable a → r w e = pure (set true a e))
    (hnone : absent e = pure (set false blank e)) :
    Reader.ifMember key r absent (.obj os) e = pure (set flag a e) := by
  cases flag with
  | true => exact ifMember_given hos (fun _ => hsome (ha.1 rfl)) nofun
  | false =>
    rw [ha.2 rfl]
    exact ifMember_given hos nofun fun _ => hnone

end

end ProvisioningValidator
