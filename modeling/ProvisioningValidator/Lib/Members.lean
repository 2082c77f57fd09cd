import Mathlib
import ProvisioningValidator.Lib.Json

/-!
# Objects as maps from names to values

To differ in the order of members only is an equivalence (`Reorder.equivalence`), and an object whose
member names are distinct is known, up to the order of its members, from what is found under each
name (`Reorder.of_lookup`). The other lemmas say what is found in lists of members
that are put together, filtered or mapped, in an object with another value under one name
(`withMember`), and in members that are written only where they have a value (`present`); and which
values stand, or are found, under a path (`standing`, `found`).
-/

namespace Lib

namespace Json

variable {β γ : Type}

/-! ## What is found under a name -/

/-- Among the members whose names are of a kind. -/
theorem lookup_filter (p : String → Bool) (ms : List (String × β)) (name : String) :
    (ms.filter fun m => p m.1).lookup name = if p name = true then ms.lookup name else none := by
  induction ms with
  | nil => simp
  | cons m ms ih =>
    obtain ⟨k, w⟩ := m
    rw [List.filter_cons]
    by_cases hname : name = k
    · subst hname
      by_cases hp : p name = true
      · rw [if_pos hp, if_pos hp, OrdMap.lookup_head, OrdMap.lookup_head]
      · rw [if_neg hp, ih, if_neg hp, if_neg hp]
    · rw [OrdMap.lookup_cons_of_ne (e := (k, w)) hname, ← ih]
      by_cases hp : p k = true
      · rw [if_pos hp, OrdMap.lookup_cons_of_ne (e := (k, w)) hname]
      · rw [if_neg hp]

/-- After a change of the values. -/
theorem lookup_map_snd (f : String → β → γ) (ms : List (String × β)) (name : String) :
    (ms.map fun m => (m.1, f m.1 m.2)).lookup name = (ms.lookup name).map (f name) := by
  induction ms with
  | nil => rfl
  | cons m ms ih =>
    obtain ⟨k, w⟩ := m
    by_cases hname : name = k
    · subst hname
      rw [List.map_cons, OrdMap.lookup_head, OrdMap.lookup_head, Option.map_some]
    · rw [List.map_cons, OrdMap.lookup_cons_of_ne (e := (k, f k w)) hname,
        OrdMap.lookup_cons_of_ne (e := (k, w)) hname, ih]

theorem isSome_lookup {ms : List (String × β)} {name : String} :
    (ms.lookup name).isSome = true ↔ name ∈ ms.map Prod.fst := by
  rw [List.lookup_isSome_iff, List.mem_map]
  refine exists_congr fun m => and_congr_right fun _ => ?_
  rw [beq_iff_eq, eq_comm]

/-- Members with distinct names are found under their names. -/
theorem mem_iff_lookup {ms : List (String × β)} (h : (ms.map Prod.fst).Nodup) {name : String}
    {w : β} : (name, w) ∈ ms ↔ ms.lookup name = some w := by
  induction ms with
  | nil => simp
  | cons m ms ih =>
    obtain ⟨k, w'⟩ := m
    rw [List.map_cons, List.nodup_cons] at h
    by_cases hname : name = k
    · subst hname
      have hnot : (name, w) ∉ ms := fun hmem =>
        h.1 (List.mem_map.2 ⟨(name, w), hmem, rfl⟩)
      rw [OrdMap.lookup_head, List.mem_cons, or_iff_left hnot, Prod.mk.injEq, Option.some.injEq,
        eq_comm (a := w)]
      exact and_iff_right rfl
    · have hne : (name, w) ≠ (k, w') := fun heq => hname (congrArg Prod.fst heq)
      rw [OrdMap.lookup_cons_of_ne (e := (k, w')) hname, List.mem_cons, or_iff_right hne]
      exact ih h.2

/-- Two lists of members with distinct names, in which the same is found under each name. -/
theorem perm_of_lookup {ms ns : List (String × β)} (hms : (ms.map Prod.fst).Nodup)
    (hns : (ns.map Prod.fst).Nodup) (h : ∀ name, ms.lookup name = ns.lookup name) :
    ms.Perm ns := by
  refine (List.perm_ext_iff_of_nodup hms.of_map hns.of_map).2 fun m => ?_
  obtain ⟨name, w⟩ := m
  rw [mem_iff_lookup hms, mem_iff_lookup hns, h name]

/-! ## Another value under a name -/

/-- The members with another value under the name: in the first one of that name, or behind all. -/
def putMember (name : String) (w : β) : List (String × β) → List (String × β)
  | [] => [(name, w)]
  | m :: ms => if name = m.1 then (m.1, w) :: ms else m :: putMember name w ms

theorem lookup_putMember (name : String) (w : β) (ms : List (String × β)) :
    (putMember name w ms).lookup name = some w := by
  induction ms with
  | nil => exact OrdMap.lookup_head name w []
  | cons m ms ih =>
    obtain ⟨k, w'⟩ := m
    rw [putMember]
    split_ifs with hname
    · subst hname
      exact OrdMap.lookup_head name w ms
    · rw [OrdMap.lookup_cons_of_ne (e := (k, w')) hname, ih]

theorem lookup_putMember_of_ne {name name' : String} (h : name' ≠ name) (w : β)
    (ms : List (String × β)) : (putMember name w ms).lookup name' = ms.lookup name' := by
  induction ms with
  | nil => exact OrdMap.lookup_cons_of_ne (e := (name, w)) h []
  | cons m ms ih =>
    obtain ⟨k, w'⟩ := m
    rw [putMember]
    split_ifs with hname
    · subst hname
      rw [OrdMap.lookup_cons_of_ne (e := (name, w)) h, OrdMap.lookup_cons_of_ne (e := (name, w')) h]
    · by_cases hk : name' = k
      · subst hk
        rw [OrdMap.lookup_head, OrdMap.lookup_head]
      · rw [OrdMap.lookup_cons_of_ne (e := (k, w')) hk, OrdMap.lookup_cons_of_ne (e := (k, w')) hk, ih]

theorem putMember_of_lookup {name : String} {w : β} {ms : List (String × β)}
    (h : ms.lookup name = some w) : putMember name w ms = ms := by
  induction ms with
  | nil => cases h
  | cons m ms ih =>
    obtain ⟨k, w'⟩ := m
    rw [putMember]
    split_ifs with hname
    · subst hname
      rw [OrdMap.lookup_head, Option.some.injEq] at h
      rw [h]
    · rw [OrdMap.lookup_cons_of_ne (e := (k, w')) hname] at h
      rw [ih h]

/-- The value is put between the same members, whatever it is. -/
theorem exists_putMember (name : String) (ms : List (String × β)) :
    ∃ ms₁ ms₂ : List (String × β), ∀ w, putMember name w ms = ms₁ ++ (name, w) :: ms₂ := by
  induction ms with
  | nil => exact ⟨[], [], fun _ => rfl⟩
  | cons m ms ih =>
    by_cases hname : name = m.1
    · refine ⟨[], ms, fun w => ?_⟩
      rw [putMember, if_pos hname, ← hname, List.nil_append]
    · obtain ⟨ms₁, ms₂, hput⟩ := ih
      refine ⟨m :: ms₁, ms₂, fun w => ?_⟩
      rw [putMember, if_neg hname, hput, List.cons_append]

/-- The object with another value under the name. -/
def withMember : Json → String → Json → Json
  | obj ms, name, w => obj (putMember name w ms)
  | v, _, _ => v

theorem isObject_withMember {v : Json} (name : String) (w : Json) :
    (v.withMember name w).IsObject ↔ v.IsObject := by
  cases v with
  | obj ms => exact iff_of_true ⟨_, rfl⟩ ⟨_, rfl⟩
  | _ => exact Iff.rfl

theorem member?_withMember {v : Json} (h : v.IsObject) (name : String) (w : Json) :
    (v.withMember name w).member? name = some w := by
  obtain ⟨ms, rfl⟩ := h
  exact lookup_putMember name w ms

theorem findMember_withMember_of_ne {v : Json} {name name' : String} (h : name' ≠ name) (w : Json) :
    (v.withMember name w).findMember name' = v.findMember name' := by
  cases v with
  | obj ms => exact congrArg some (lookup_putMember_of_ne h w ms)
  | _ => rfl

/-- With the value that is there, the object stays as it is. -/
theorem withMember_of_member? {v w : Json} {name : String} (h : v.member? name = some w) :
    v.withMember name w = v := by
  cases v with
  | obj ms => exact congrArg obj (putMember_of_lookup h)
  | _ => rfl

/-! ## Values under a path -/

/-- A step into a value: to what stands under a name, or to the elements of an array. -/
inductive Step where
  | member (name : String)
  | elements

/-- The values under a name, in an object. -/
def membersNamed (v : Json) (name : String) : List Json :=
  ((v.members.getD []).filter (·.1 = name)).map Prod.snd

/-- The values under a path, with every member of a name. -/
def standing : Json → List Step → List Json
  | v, [] => [v]
  | v, .member name :: path => (v.membersNamed name).flatMap (standing · path)
  | v, .elements :: path => (v.getArray.getD []).flatMap (standing · path)

/-- The values that a decoder finds under a path: of the members of a name, the first. -/
def found : Json → List Step → List Json
  | v, [] => [v]
  | v, .member name :: path => (v.member? name).toList.flatMap (found · path)
  | v, .elements :: path => (v.getArray.getD []).flatMap (found · path)

theorem head?_membersNamed (v : Json) (name : String) :
    (v.membersNamed name).head? = v.member? name := by
  cases v with
  | obj ms =>
    rw [membersNamed, members, Option.getD_some, member?]
    induction ms with
    | nil => rfl
    | cons m ms ih =>
      obtain ⟨k, w⟩ := m
      by_cases hname : name = k
      · subst hname
        rw [List.filter_cons_of_pos (by simp), OrdMap.lookup_head]
        rfl
      · rw [List.filter_cons_of_neg (by simpa using Ne.symm hname),
          OrdMap.lookup_cons_of_ne (e := (k, w)) hname, ih]
  | _ => rfl

/-- The first member of a name, and the others. -/
theorem membersNamed_eq {v w : Json} {name : String} (h : v.member? name = some w) :
    v.membersNamed name = w :: (v.membersNamed name).tail := by
  rw [← head?_membersNamed] at h
  exact (List.cons_head?_tail h).symm

@[simp] theorem mem_found_nil {u v : Json} : u ∈ v.found [] ↔ u = v := List.mem_singleton

theorem mem_found_member {u v : Json} {name : String} {path : List Step} :
    u ∈ v.found (.member name :: path) ↔ ∃ w, v.member? name = some w ∧ u ∈ w.found path := by
  simp only [found, List.mem_flatMap, Option.mem_toList]

theorem mem_found_elements {u v : Json} {path : List Step} :
    u ∈ v.found (.elements :: path) ↔ ∃ xs, v = .arr xs ∧ ∃ x ∈ xs, u ∈ x.found path := by
  rw [found, List.mem_flatMap]
  cases v with
  | arr xs => simp [getArray]
  | _ => simp [getArray]

/-- One path and then another. -/
theorem mem_found_append {u v : Json} (path path' : List Step) :
    u ∈ v.found (path ++ path') ↔ ∃ w ∈ v.found path, u ∈ w.found path' := by
  induction path generalizing v with
  | nil => simp
  | cons step path ih =>
    cases step with
    | member name =>
      simp only [List.cons_append, mem_found_member, ih]
      exact ⟨fun ⟨w, hw, x, hx, hu⟩ => ⟨x, ⟨w, hw, hx⟩, hu⟩,
        fun ⟨x, ⟨w, hw, hx⟩, hu⟩ => ⟨w, hw, x, hx, hu⟩⟩
    | elements =>
      simp only [List.cons_append, mem_found_elements, ih]
      exact ⟨fun ⟨xs, hv, x, hx, w, hw, hu⟩ => ⟨w, ⟨xs, hv, x, hx, hw⟩, hu⟩,
        fun ⟨w, ⟨xs, hv, x, hx, hw⟩, hu⟩ => ⟨xs, hv, x, hx, w, hw, hu⟩⟩

/-! ## Members that may be left out -/

/-- The members whose values are there. -/
def present (ms : List (String × Option β)) : List (String × β) :=
  ms.flatMap fun m => (m.2.map (m.1, ·)).toList

@[simp] theorem present_nil : present ([] : List (String × Option β)) = [] := rfl

theorem present_cons (m : String × Option β) (ms : List (String × Option β)) :
    present (m :: ms) = (m.2.map (m.1, ·)).toList ++ present ms := List.flatMap_cons

theorem present_append (ms ns : List (String × Option β)) :
    present (ms ++ ns) = present ms ++ present ns := List.flatMap_append

theorem mem_present {ms : List (String × Option β)} {n : String × β} :
    n ∈ present ms ↔ (n.1, some n.2) ∈ ms := by
  obtain ⟨k, w⟩ := n
  rw [present, List.mem_flatMap]
  constructor
  · rintro ⟨⟨k', o⟩, hm, hn⟩
    obtain ⟨w', rfl, heq⟩ := Option.map_eq_some_iff.1 (Option.mem_toList.1 hn)
    obtain ⟨rfl, rfl⟩ := Prod.mk.inj heq
    exact hm
  · intro hm
    exact ⟨_, hm, Option.mem_toList.2 rfl⟩

theorem names_present (ms : List (String × Option β)) :
    ((present ms).map Prod.fst).Sublist (ms.map Prod.fst) := by
  induction ms with
  | nil => exact List.Sublist.refl []
  | cons m ms ih =>
    obtain ⟨k, o⟩ := m
    rw [present_cons, List.map_append, List.map_cons]
    cases o with
    | none => exact ih.cons k
    | some w => exact ih.cons_cons k

theorem lookup_present_of_notMem {ms : List (String × Option β)} {name : String}
    (h : name ∉ ms.map Prod.fst) : (present ms).lookup name = none := by
  rw [← Option.not_isSome_iff_eq_none, isSome_lookup]
  exact fun hmem => h ((names_present ms).subset hmem)

/-- Under a name there is the value that was to be written there, if there was one. -/
theorem lookup_present {ms : List (String × Option β)} (h : (ms.map Prod.fst).Nodup)
    {m : String × Option β} (hm : m ∈ ms) : (present ms).lookup m.1 = m.2 := by
  induction ms with
  | nil => exact absurd hm List.not_mem_nil
  | cons n ms ih =>
    rw [List.map_cons, List.nodup_cons] at h
    rw [present_cons, List.lookup_append]
    rcases List.mem_cons.1 hm with rfl | hrest
    · obtain ⟨k, o⟩ := m
      cases o with
      | none => exact lookup_present_of_notMem h.1
      | some w =>
        show (List.lookup k [(k, w)]).or _ = some w
        rw [OrdMap.lookup_head, Option.some_or]
    · have hne : m.1 ≠ n.1 := fun heq => h.1 (heq ▸ List.mem_map_of_mem hrest)
      obtain ⟨k, o⟩ := n
      have hfirst : ((o.map (k, ·)).toList).lookup m.1 = none := by
        cases o with
        | none => rfl
        | some w => exact OrdMap.lookup_cons_of_ne (e := (k, w)) hne []
      rw [hfirst, Option.none_or, ih h.2 hrest]

/-! ## Values without repeated names -/

/-- No object has two members of one name, at any depth. What stands under a name of the kind `copied`
is not looked at. -/
inductive DistinctNames (copied : String → Bool) : Json → Prop
  | null : DistinctNames copied null
  | bool (b : Bool) : DistinctNames copied (bool b)
  | int (n : Int) : DistinctNames copied (int n)
  | real (text : String) : DistinctNames copied (real text)
  | str (s : String) : DistinctNames copied (str s)
  | arr {xs : List Json} (elements : ∀ x ∈ xs, DistinctNames copied x) :
      DistinctNames copied (arr xs)
  | obj {ms : List (String × Json)} (names : (ms.map Prod.fst).Nodup)
      (values : ∀ m ∈ ms, copied m.1 = false → DistinctNames copied m.2) :
      DistinctNames copied (obj ms)

attribute [simp] DistinctNames.bool DistinctNames.int DistinctNames.str

@[simp] theorem distinctNames_arr_map {copied : String → Bool} {f : β → Json} {xs : List β} :
    DistinctNames copied (arr (xs.map f)) ↔ ∀ x ∈ xs, DistinctNames copied (f x) := by
  constructor
  · intro h x hx
    cases h with
    | arr elements => exact elements (f x) (List.mem_map_of_mem hx)
  · intro h
    refine .arr fun y hy => ?_
    obtain ⟨x, hx, rfl⟩ := List.mem_map.1 hy
    exact h x hx

/-! ## The order of members -/

/-- Members with the same names, and values that are related one by one. -/
theorem forall₂_members {R : Json → Json → Prop} {ms ns : List (String × Json)}
    (hkeys : ms.map Prod.fst = ns.map Prod.fst)
    (h : List.Forall₂ R (ms.map Prod.snd) (ns.map Prod.snd)) :
    List.Forall₂ (fun m n => m.1 = n.1 ∧ R m.2 n.2) ms ns := by
  induction ms generalizing ns with
  | nil =>
    cases ns with
    | nil => exact .nil
    | cons n ns => simp at hkeys
  | cons m ms ih =>
    cases ns with
    | nil => simp at hkeys
    | cons n ns =>
      simp only [List.map_cons, List.cons.injEq] at hkeys
      simp only [List.map_cons, List.forall₂_cons] at h
      exact .cons ⟨hkeys.1, h.1⟩ (ih hkeys.2 h.2)

namespace Reorder

variable {key : String → String} {u v w : Json} {xs : List Json} {ms ns : List (String × Json)}

/-- The same name, and values that differ in the order of members only. -/
def Matches (key : String → String) (m n : String × Json) : Prop :=
  m.1 = n.1 ∧ Reorder key m.2 n.2

theorem matches_refl (ms : List (String × Json)) : List.Forall₂ (Matches key) ms ms :=
  List.forall₂_same.2 fun m _ => ⟨rfl, .refl m.2⟩

theorem map_of_matches {α : Type} {f : String → α} (h : List.Forall₂ (Matches key) ms ns) :
    ms.map (fun m => f m.1) = ns.map fun m => f m.1 := by
  induction h with
  | nil => rfl
  | cons hmn _ ih => rw [List.map_cons, List.map_cons, hmn.1, ih]

theorem arr_iff : Reorder key (.arr xs) v ↔
    ∃ ys, v = .arr ys ∧ List.Forall₂ (Reorder key) xs ys := by
  constructor
  · intro h
    cases h with
    | refl => exact ⟨xs, rfl, List.forall₂_refl xs⟩
    | arr h => exact ⟨_, rfl, h⟩
  · rintro ⟨ys, rfl, h⟩
    exact .arr h

theorem obj_iff : Reorder key (.obj ms) v ↔ ∃ ns, v = .obj ns ∧
    ∃ ms', Shuffle (fun m => key m.1) ms ms' ∧ List.Forall₂ (Matches key) ms' ns := by
  constructor
  · intro h
    cases h with
    | refl => exact ⟨ms, rfl, ms, .refl ms, matches_refl ms⟩
    | obj hshuffle hkeys hvalues => exact ⟨_, rfl, _, hshuffle, forall₂_members hkeys hvalues⟩
  · rintro ⟨ns, rfl, ms', hshuffle, hmatches⟩
    refine .obj hshuffle (map_of_matches (f := id) hmatches) ?_
    rw [List.forall₂_map_left_iff, List.forall₂_map_right_iff]
    exact hmatches.imp fun m n hmn => hmn.2

/-- Lists that are related one by one, with what is known of the elements of the first. -/
theorem forall₂_comp {α β γ : Type} {R : α → β → Prop} {S : β → γ → Prop} {T : α → γ → Prop}
    {xs : List α} {ys : List β} {zs : List γ} (h : List.Forall₂ R xs ys)
    (h' : List.Forall₂ S ys zs) (hT : ∀ x ∈ xs, ∀ y z, R x y → S y z → T x z) :
    List.Forall₂ T xs zs := by
  induction h generalizing zs with
  | nil =>
    cases h'
    exact .nil
  | cons hxy _ ih =>
    obtain - | ⟨hyz, h'⟩ := h'
    exact .cons (hT _ List.mem_cons_self _ _ hxy hyz)
      (ih h' fun x hx => hT x (List.mem_cons_of_mem _ hx))

theorem forall₂_flip {α β : Type} {R : α → β → Prop} {S : β → α → Prop} {xs : List α}
    {ys : List β} (h : List.Forall₂ R xs ys) (hS : ∀ x ∈ xs, ∀ y, R x y → S y x) :
    List.Forall₂ S ys xs := by
  have hsame : List.Forall₂ Eq ys ys := List.forall₂_refl ys
  have hflip := forall₂_comp (T := flip S) h hsame fun x hx y z hxy hyz => hyz ▸ hS x hx y hxy
  exact hflip.flip

theorem sizeOf_lt_of_mem_obj {m : String × Json} (h : m ∈ ms) :
    sizeOf m.2 < sizeOf (Json.obj ms) := by
  have hmem := List.sizeOf_lt_of_mem h
  obtain ⟨k, w⟩ := m
  simp only [Json.obj.sizeOf_spec, Prod.mk.sizeOf_spec] at hmem ⊢
  omega

theorem sizeOf_lt_of_mem_arr {x : Json} (h : x ∈ xs) : sizeOf x < sizeOf (Json.arr xs) := by
  have hmem := List.sizeOf_lt_of_mem h
  simp only [Json.arr.sizeOf_spec]
  omega

/-- The members may be matched first, and change places afterwards. -/
theorem exists_matches (h : Reorder key (.obj ms) (.obj ns)) : ∃ ns',
    List.Forall₂ (Matches key) ms ns' ∧ Shuffle (fun m => key m.1) ns' ns := by
  obtain ⟨_, heq, ms', hshuffle, hmatches⟩ := obj_iff.1 h
  cases heq
  exact hshuffle.forall₂ (fun m n hmn => congrArg key hmn.1.symm) hmatches

theorem symm (h : Reorder key v w) : Reorder key w v := by
  induction hn : sizeOf v using Nat.strong_induction_on generalizing v w with
  | _ n ih =>
    subst hn
    cases v with
    | arr xs =>
      obtain ⟨ys, rfl, hxs⟩ := arr_iff.1 h
      refine .arr (forall₂_flip hxs fun x hx y hxy => ?_)
      exact ih _ (sizeOf_lt_of_mem_arr hx) hxy rfl
    | obj ms =>
      obtain ⟨ns, rfl, -⟩ := obj_iff.1 h
      obtain ⟨ns', hmatches, hshuffle⟩ := exists_matches h
      refine obj_iff.2 ⟨ms, rfl, ns', hshuffle.symm, ?_⟩
      refine forall₂_flip hmatches fun m hm n hmn => ?_
      exact ⟨hmn.1.symm, ih _ (sizeOf_lt_of_mem_obj hm) hmn.2 rfl⟩
    | _ =>
      cases h
      exact .refl _

/-- Members that match may then change places. -/
theorem of_matches {ns' : List (String × Json)} (h : List.Forall₂ (Matches key) ms ns')
    (hshuffle : Shuffle (fun m => key m.1) ns' ns) : Reorder key (.obj ms) (.obj ns) := by
  have hmatches : List.Forall₂ (Matches key) ns' ms := h.flip.imp fun n m hnm =>
    ⟨hnm.1.symm, hnm.2.symm⟩
  exact symm (obj_iff.2 ⟨ms, rfl, ns', hshuffle.symm, hmatches⟩)

/-- A value that differs in the order of members only may take the place of another. -/
theorem withMember {v w w' : Json} {name : String} (h : v.member? name = some w)
    (hw : Reorder key w w') : Reorder key v (v.withMember name w') := by
  cases v with
  | obj ms =>
    refine obj_iff.2 ⟨_, rfl, ms, .refl ms, ?_⟩
    rw [Json.member?_obj] at h
    induction ms with
    | nil => cases h
    | cons m ms ih =>
      obtain ⟨k, u⟩ := m
      rw [putMember]
      split_ifs with hname
      · subst hname
        rw [OrdMap.lookup_head] at h
        exact .cons ⟨rfl, Option.some.inj h ▸ hw⟩ (matches_refl ms)
      · rw [OrdMap.lookup_cons_of_ne (e := (k, u)) hname] at h
        exact .cons ⟨rfl, .refl u⟩ (ih h)
  | _ => cases h

theorem trans (h : Reorder key u v) (h' : Reorder key v w) : Reorder key u w := by
  induction hn : sizeOf u using Nat.strong_induction_on generalizing u v w with
  | _ n ih =>
    subst hn
    cases u with
    | arr xs =>
      obtain ⟨ys, rfl, hxs⟩ := arr_iff.1 h
      obtain ⟨zs, rfl, hys⟩ := arr_iff.1 h'
      refine .arr (forall₂_comp hxs hys fun x hx y z hxy hyz => ?_)
      exact ih _ (sizeOf_lt_of_mem_arr hx) hxy hyz rfl
    | obj ms =>
      obtain ⟨ns, rfl, -⟩ := obj_iff.1 h
      obtain ⟨os, rfl, -⟩ := obj_iff.1 h'
      obtain ⟨ns', hms, hshuffle⟩ := exists_matches h
      obtain ⟨os', hns, hshuffle'⟩ := exists_matches h'
      -- the members of `os` in the order of `ms`
      obtain ⟨os'', hns', hshuffle''⟩ := hshuffle.forall₂
        (fun m n hmn => congrArg key hmn.1.symm) hns
      refine of_matches (forall₂_comp hms hns' fun m hm n o hmn hno => ?_)
        (.trans hshuffle'' hshuffle')
      exact ⟨hmn.1.trans hno.1, ih _ (sizeOf_lt_of_mem_obj hm) hmn.2 hno.2 rfl⟩
    | _ =>
      cases h
      exact h'

/-- To differ in the order of members only is an equivalence. -/
theorem equivalence (key : String → String) : Equivalence (Reorder key) :=
  ⟨.refl, symm, trans⟩

/-! ### What is found under each name -/

/-- **What is found under each name determines an object with distinct names**, up to the order
of its members. -/
theorem of_lookup (hms : (ms.map Prod.fst).Nodup) (hns : (ns.map Prod.fst).Nodup)
    (h : ∀ name, Option.Rel (Reorder id) (ms.lookup name) (ns.lookup name)) :
    Reorder id (.obj ms) (.obj ns) := by
  -- The members of `ms`, in the order of `ns`.
  let ms' := ns.map fun n => (n.1, (ms.lookup n.1).getD n.2)
  have hkeys : ms'.map Prod.fst = ns.map Prod.fst := by simp [ms']
  have hperm : ms.Perm ms' := by
    refine perm_of_lookup hms (hkeys ▸ hns) fun name => ?_
    have hrel := h name
    show _ = (ns.map fun n => (n.1, (ms.lookup n.1).getD n.2)).lookup name
    rw [lookup_map_snd (fun k w => (ms.lookup k).getD w)]
    cases hfound : ms.lookup name with
    | none =>
      rw [hfound] at hrel
      cases hother : ns.lookup name with
      | none => rfl
      | some w =>
        rw [hother] at hrel
        cases hrel
    | some w =>
      rw [hfound] at hrel
      cases hother : ns.lookup name with
      | none =>
        rw [hother] at hrel
        cases hrel
      | some w' => rfl
  have hvalues : List.Forall₂ (Reorder id) (ms'.map Prod.snd) (ns.map Prod.snd) := by
    rw [List.map_map, List.forall₂_map_left_iff, List.forall₂_map_right_iff, List.forall₂_same]
    intro n hn
    have hfound : ns.lookup n.1 = some n.2 := (mem_iff_lookup hns).1 hn
    have hrel := h n.1
    rw [hfound] at hrel
    show Reorder id ((ms.lookup n.1).getD n.2) n.2
    generalize ms.lookup n.1 = o at hrel
    cases hrel with
    | some hrel => exact hrel
  exact .obj (.of_perm hperm hms) hkeys hvalues

/-- The same names occur in both objects. -/
theorem mem_names_iff {key : String → String} (h : Reorder key (.obj ms) (.obj ns))
    (name : String) : name ∈ ms.map Prod.fst ↔ name ∈ ns.map Prod.fst := by
  rw [← isSome_lookup, ← isSome_lookup]
  have hrel : Option.Rel (Reorder key) (ms.lookup name) (ns.lookup name) := h.member? name
  generalize ms.lookup name = o, ns.lookup name = o' at hrel
  cases hrel with
  | some => exact Iff.rfl
  | none => exact Iff.rfl

end Reorder

end Json

end Lib
