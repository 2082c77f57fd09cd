import Mathlib
import ProvisioningValidator.Lib.Shuffle

/-!
# Ordered maps and multimaps

`std::map` and `std::multimap`, as the list of their entries in key order.

* `OrdMap` — distinct keys in increasing order, the order carried as a field. `emplace` keeps the
  entry that is already there, as `emplace` and `insert` do in C++.
* `MultiMap` — keys in non-decreasing order; an insertion goes behind the entries with an equal
  key, and `find` is the position of the first of them.

Two ordered maps with the same lookups are equal (`OrdMap.ext_find`), so the order in which
entries arrive matters only where two of them share a key (`OrdMap.emplaceAll_shuffle`).
-/

namespace Lib

variable {α β γ : Type} [LinearOrder α]

/-! ## Ordered maps -/

/-- A `std::map`: its entries, by strictly increasing key. -/
structure OrdMap (α β : Type) [LinearOrder α] where
  entries : List (α × β)
  sorted : entries.Pairwise fun a b => a.1 < b.1

namespace OrdMap

/-- The map without entries. -/
def empty : OrdMap α β := ⟨[], List.Pairwise.nil⟩

instance : EmptyCollection (OrdMap α β) := ⟨empty⟩

instance : Inhabited (OrdMap α β) := ⟨empty⟩

@[simp] theorem entries_empty : (∅ : OrdMap α β).entries = [] := rfl

theorem entries_injective {m n : OrdMap α β} (h : m.entries = n.entries) : m = n := by
  cases m
  cases n
  simpa using h

instance [DecidableEq β] : DecidableEq (OrdMap α β) := fun m n =>
  decidable_of_iff (m.entries = n.entries) ⟨entries_injective, fun h => h ▸ rfl⟩

/-- The value at a key, if the map has one. -/
def find? (m : OrdMap α β) (k : α) : Option β := m.entries.lookup k

/-- `m.contains(k)`. -/
def contains (m : OrdMap α β) (k : α) : Bool := (m.find? k).isSome

@[simp] theorem find?_empty (k : α) : (∅ : OrdMap α β).find? k = none := rfl

/-- Put `(k, v)` in its place, unless `k` is there already. -/
def insertEntry (k : α) (v : β) : List (α × β) → List (α × β)
  | [] => [(k, v)]
  | (k', v') :: rest =>
    if k < k' then (k, v) :: (k', v') :: rest
    else if k = k' then (k', v') :: rest
    else (k', v') :: insertEntry k v rest

theorem mem_insertEntry {k : α} {v : β} {e : α × β} {l : List (α × β)}
    (h : e ∈ insertEntry k v l) : e = (k, v) ∨ e ∈ l := by
  induction l with
  | nil => simpa [insertEntry] using h
  | cons a l ih =>
    obtain ⟨k', v'⟩ := a
    rw [insertEntry] at h
    split_ifs at h <;> grind

theorem insertEntry_sorted (k : α) (v : β) {l : List (α × β)}
    (h : l.Pairwise fun a b => a.1 < b.1) :
    (insertEntry k v l).Pairwise fun a b => a.1 < b.1 := by
  induction l with
  | nil => simp [insertEntry]
  | cons a l ih =>
    obtain ⟨k', v'⟩ := a
    obtain ⟨hhead, htail⟩ := List.pairwise_cons.1 h
    rw [insertEntry]
    split_ifs with hlt heq
    · refine List.pairwise_cons.2 ⟨fun e he => ?_, h⟩
      rcases List.mem_cons.1 he with rfl | he
      · exact hlt
      · exact hlt.trans (hhead e he)
    · exact h
    · refine List.pairwise_cons.2 ⟨fun e he => ?_, ih htail⟩
      rcases mem_insertEntry he with rfl | he
      · exact lt_of_le_of_ne (not_lt.1 hlt) (Ne.symm heq)
      · exact hhead e he

/-- `m.emplace(k, v)` and `m.insert({k, v})`: an entry that is there already stays. -/
def emplace (m : OrdMap α β) (k : α) (v : β) : OrdMap α β :=
  ⟨insertEntry k v m.entries, insertEntry_sorted k v m.sorted⟩

theorem lookup_cons_of_ne {k : α} {e : α × β} (h : k ≠ e.1) (l : List (α × β)) :
    (e :: l).lookup k = l.lookup k := by
  rw [List.lookup_cons, beq_eq_false_iff_ne.2 h]

theorem lookup_head (k : α) (v : β) (l : List (α × β)) : ((k, v) :: l).lookup k = some v :=
  List.lookup_cons_self

theorem lookup_insertEntry (k k' : α) (v : β) {l : List (α × β)}
    (h : l.Pairwise fun a b => a.1 < b.1) :
    (insertEntry k v l).lookup k' =
      if k' = k then some ((l.lookup k).getD v) else l.lookup k' := by
  induction l with
  | nil =>
    by_cases hk : k' = k
    · simp [insertEntry, hk]
    · rw [insertEntry, if_neg hk, lookup_cons_of_ne hk]
  | cons e l ih =>
    obtain ⟨a, b⟩ := e
    obtain ⟨hhead, htail⟩ := List.pairwise_cons.1 h
    rw [insertEntry]
    by_cases hlt : k < a
    · have hnone : ((a, b) :: l).lookup k = none := by
        rw [List.lookup_eq_none_iff]
        intro e he
        rcases List.mem_cons.1 he with rfl | he
        · simpa using hlt.ne
        · simpa using (hlt.trans (hhead e he)).ne
      rw [if_pos hlt]
      by_cases hk : k' = k
      · subst hk
        rw [if_pos rfl, hnone, List.lookup_cons_self]
        rfl
      · rw [if_neg hk, lookup_cons_of_ne hk]
    · rw [if_neg hlt]
      by_cases hka : k = a
      · subst hka
        rw [if_pos rfl]
        by_cases hk : k' = k
        · subst hk
          rw [if_pos rfl, List.lookup_cons_self]
          rfl
        · rw [if_neg hk]
      · rw [if_neg hka, lookup_cons_of_ne (k := k) (e := (a, b)) hka]
        by_cases hk' : k' = a
        · subst hk'
          rw [if_neg (Ne.symm hka), List.lookup_cons_self, List.lookup_cons_self]
        · rw [lookup_cons_of_ne hk', lookup_cons_of_ne hk']
          exact ih htail

theorem find?_emplace (m : OrdMap α β) (k k' : α) (v : β) :
    (m.emplace k v).find? k' = if k' = k then some ((m.find? k).getD v) else m.find? k' :=
  lookup_insertEntry k k' v m.sorted

/-- Entries are found by key. -/
theorem mem_entries_iff {m : OrdMap α β} {k : α} {v : β} :
    (k, v) ∈ m.entries ↔ m.find? k = some v := by
  obtain ⟨l, hl⟩ := m
  simp only [find?]
  induction l with
  | nil => simp
  | cons a l ih =>
    obtain ⟨a, b⟩ := a
    obtain ⟨hhead, htail⟩ := List.pairwise_cons.1 hl
    by_cases hk : k = a
    · subst hk
      have hnot : (k, v) ∉ l := fun he => lt_irrefl k (hhead _ he)
      simp [List.lookup_cons_self, hnot, eq_comm]
    · rw [List.lookup_cons, beq_eq_false_iff_ne.2 hk, List.mem_cons, ih htail]
      simp [hk]

/-- What stands in front of an entry is what has a smaller key. -/
theorem exists_split_iff {m : OrdMap α β} {Q : α × β → Prop} {k : α} {v : β} :
    (∃ before after, m.entries = before ++ (k, v) :: after ∧ ∀ e ∈ before, Q e) ↔
      m.find? k = some v ∧ ∀ e ∈ m.entries, e.1 < k → Q e := by
  have hsplit : ∀ {before after : List (α × β)}, m.entries = before ++ (k, v) :: after →
      (∀ e ∈ before, e.1 < k) ∧ ∀ e ∈ after, k < e.1 := by
    intro before after heq
    have hsorted := m.sorted
    rw [heq, List.pairwise_append, List.pairwise_cons] at hsorted
    exact ⟨fun e he => hsorted.2.2 e he _ List.mem_cons_self, hsorted.2.1.1⟩
  constructor
  · intro h
    obtain ⟨before, after, heq, hbefore⟩ := h
    refine ⟨mem_entries_iff.1 (by rw [heq]; simp), fun e he hlt => ?_⟩
    rw [heq, List.mem_append, List.mem_cons] at he
    rcases he with he | rfl | he
    · exact hbefore e he
    · exact absurd hlt (lt_irrefl _)
    · exact absurd hlt ((hsplit heq).2 e he).asymm
  · intro h
    obtain ⟨before, after, heq⟩ := List.append_of_mem (mem_entries_iff.2 h.1)
    refine ⟨before, after, heq, fun e he => h.2 e ?_ ((hsplit heq).1 e he)⟩
    rw [heq]
    exact List.mem_append_left _ he

/-- **Ordered maps are extensional**: equal lookups make equal maps. -/
theorem ext_find {m n : OrdMap α β} (h : ∀ k, m.find? k = n.find? k) : m = n := by
  apply entries_injective
  have hmem : ∀ e, e ∈ m.entries ↔ e ∈ n.entries := by
    rintro ⟨k, v⟩
    rw [mem_entries_iff, mem_entries_iff, h]
  have hnodup : ∀ p : OrdMap α β, p.entries.Nodup := fun p =>
    p.sorted.imp fun {a b} hab => fun he => (he ▸ hab).ne rfl
  exact List.Perm.eq_of_pairwise (fun a b _ _ hab hba => absurd hab hba.not_gt) m.sorted n.sorted
    ((List.perm_ext_iff_of_nodup (hnodup m) (hnodup n)).2 hmem)

/-- Emplace a list of entries, first to last. -/
def emplaceAll (m : OrdMap α β) (es : List (α × β)) : OrdMap α β :=
  es.foldl (fun m e => m.emplace e.1 e.2) m

@[simp] theorem emplaceAll_nil (m : OrdMap α β) : m.emplaceAll [] = m := rfl

@[simp] theorem emplaceAll_cons (m : OrdMap α β) (e : α × β) (es : List (α × β)) :
    m.emplaceAll (e :: es) = (m.emplace e.1 e.2).emplaceAll es := rfl

/-- After emplacing a list, a key holds what it held before, or else its first new value. -/
theorem find?_emplaceAll (m : OrdMap α β) (es : List (α × β)) (k : α) :
    (m.emplaceAll es).find? k = (m.find? k).or (es.lookup k) := by
  induction es generalizing m with
  | nil => simp
  | cons e es ih =>
    obtain ⟨a, b⟩ := e
    rw [emplaceAll_cons, ih, find?_emplace]
    by_cases hk : k = a
    · subst hk
      cases h : m.find? k <;> simp [List.lookup_cons_self]
    · rw [if_neg hk, lookup_cons_of_ne hk]

/-- The first value under a key, where the entries are computed from the elements of a list. -/
theorem lookup_map {ε : Type} (key : ε → α) (val : ε → β) (xs : List ε) (k : α) :
    (xs.map fun x => (key x, val x)).lookup k = (xs.find? fun x => key x = k).map val := by
  induction xs with
  | nil => rfl
  | cons x xs ih =>
    rw [List.map_cons]
    by_cases hk : key x = k
    · rw [List.find?_cons_of_pos (by simpa using hk), ← hk, List.lookup_cons_self]
      rfl
    · rw [lookup_cons_of_ne (e := (key x, val x)) (Ne.symm hk), ih,
        List.find?_cons_of_neg (by simpa using hk)]

theorem lookup_shuffle {κ : Type} {f : α → κ} {es es' : List (α × β)}
    (h : Shuffle (fun e => f e.1) es es') (k : α) : es.lookup k = es'.lookup k := by
  induction h with
  | refl es => rfl
  | cons e _ ih =>
    obtain ⟨a, b⟩ := e
    by_cases hk : k = a
    · subst hk
      rw [List.lookup_cons_self, List.lookup_cons_self]
    · rw [lookup_cons_of_ne hk, lookup_cons_of_ne hk, ih]
  | @swap e e' h es =>
    obtain ⟨a, x⟩ := e
    obtain ⟨b, y⟩ := e'
    have hne : a ≠ b := fun heq => h (congrArg f heq)
    by_cases hk : k = b
    · subst hk
      rw [List.lookup_cons_self, lookup_cons_of_ne hne.symm, List.lookup_cons_self]
    · rw [lookup_cons_of_ne (e := (b, y)) hk]
      by_cases hk' : k = a
      · subst hk'
        rw [List.lookup_cons_self, List.lookup_cons_self]
      · rw [lookup_cons_of_ne (e := (a, x)) hk', lookup_cons_of_ne (e := (a, x)) hk',
          lookup_cons_of_ne (e := (b, y)) hk]
  | trans _ _ ih ih' => exact ih.trans ih'

theorem lookup_perm {es es' : List (α × β)} (h : es.Perm es') (hnd : (es.map Prod.fst).Nodup)
    (k : α) : es.lookup k = es'.lookup k :=
  lookup_shuffle (f := id) (.of_perm h hnd) k

/-- **Entries with distinct keys may be emplaced in any order.** -/
theorem emplaceAll_shuffle (m : OrdMap α β) {es es' : List (α × β)} (h : Shuffle Prod.fst es es') :
    m.emplaceAll es = m.emplaceAll es' :=
  ext_find fun k => by
    rw [find?_emplaceAll, find?_emplaceAll, lookup_shuffle (f := id) h]

theorem emplaceAll_eq_empty_iff {es : List (α × β)} :
    (∅ : OrdMap α β).emplaceAll es = ∅ ↔ es = [] := by
  constructor
  · intro h
    cases es with
    | nil => rfl
    | cons e es =>
      obtain ⟨a, b⟩ := e
      have hfound := congrArg (find? · a) h
      rw [find?_emplaceAll, find?_empty, Option.none_or, List.lookup_cons_self] at hfound
      cases hfound
  · rintro rfl
    rfl

/-- A map is what its entries make. -/
theorem emplaceAll_entries (m : OrdMap α β) : emplaceAll ∅ m.entries = m :=
  ext_find fun k => by rw [find?_emplaceAll, find?_empty, Option.none_or, find?]

/-- The keys of a map after `emplaceAll` come from the map or from the list. -/
theorem mem_emplaceAll {m : OrdMap α β} {es : List (α × β)} {e : α × β}
    (h : e ∈ (m.emplaceAll es).entries) : e ∈ m.entries ∨ e ∈ es := by
  induction es generalizing m with
  | nil => exact Or.inl h
  | cons a es ih =>
    rcases ih h with h | h
    · rcases mem_insertEntry h with rfl | h
      · exact Or.inr List.mem_cons_self
      · exact Or.inl h
    · exact Or.inr (List.mem_cons_of_mem _ h)

/-- A key of the list is a key of the map after `emplaceAll`. -/
theorem contains_emplaceAll {es : List (α × β)} {e : α × β} (h : e ∈ es) :
    (emplaceAll ∅ es).contains e.1 = true := by
  rw [contains, find?_emplaceAll, find?_empty, Option.none_or, List.lookup_isSome_iff]
  exact ⟨e, h, beq_self_eq_true e.1⟩

/-- The entries whose keys are of interest. -/
def filter (m : OrdMap α β) (p : α → Bool) : OrdMap α β :=
  ⟨m.entries.filter (p ·.1), m.sorted.filter _⟩

theorem find?_filter (m : OrdMap α β) (p : α → Bool) (k : α) :
    (m.filter p).find? k = if p k = true then m.find? k else none := by
  refine Option.ext fun v => ?_
  rw [← mem_entries_iff, filter, List.mem_filter, mem_entries_iff]
  split_ifs with hk
  · exact and_iff_left hk
  · simp [hk]

/-- Apply a function to every value. -/
def mapVal (f : β → γ) (m : OrdMap α β) : OrdMap α γ :=
  ⟨m.entries.map fun e => (e.1, f e.2), by
    rw [List.pairwise_map]
    exact m.sorted⟩

end OrdMap

/-! ## Ordered multimaps -/

/-- A `std::multimap`: its entries, by non-decreasing key. -/
structure MultiMap (α β : Type) [LinearOrder α] where
  entries : List (α × β)
  sorted : entries.Pairwise fun a b => a.1 ≤ b.1

namespace MultiMap

/-- The multimap without entries. -/
def empty : MultiMap α β := ⟨[], List.Pairwise.nil⟩

/-- Put `(k, v)` behind the entries whose key is at most `k`. -/
def insertEntry (k : α) (v : β) : List (α × β) → List (α × β)
  | [] => [(k, v)]
  | (k', v') :: rest =>
    if k < k' then (k, v) :: (k', v') :: rest else (k', v') :: insertEntry k v rest

theorem perm_insertEntry (k : α) (v : β) (l : List (α × β)) :
    (insertEntry k v l).Perm ((k, v) :: l) := by
  induction l with
  | nil => rfl
  | cons e l ih =>
    rw [insertEntry]
    split_ifs
    · rfl
    · exact (ih.cons _).trans (.swap _ _ _)

theorem insertEntry_sorted (k : α) (v : β) {l : List (α × β)}
    (h : l.Pairwise fun a b => a.1 ≤ b.1) :
    (insertEntry k v l).Pairwise fun a b => a.1 ≤ b.1 := by
  induction l with
  | nil => simp [insertEntry]
  | cons a l ih =>
    obtain ⟨k', v'⟩ := a
    obtain ⟨hhead, htail⟩ := List.pairwise_cons.1 h
    rw [insertEntry]
    split_ifs with hlt
    · refine List.pairwise_cons.2 ⟨fun e he => ?_, h⟩
      rcases List.mem_cons.1 he with rfl | he
      · exact hlt.le
      · exact hlt.le.trans (hhead e he)
    · refine List.pairwise_cons.2 ⟨fun e he => ?_, ih htail⟩
      rcases List.mem_cons.1 ((perm_insertEntry k v l).mem_iff.1 he) with rfl | he
      · exact not_lt.1 hlt
      · exact hhead e he

/-- `m.insert({k, v})`. -/
def insert (m : MultiMap α β) (k : α) (v : β) : MultiMap α β :=
  ⟨insertEntry k v m.entries, insertEntry_sorted k v m.sorted⟩

/-- Insert a list of entries, first to last. -/
def insertAll (m : MultiMap α β) (es : List (α × β)) : MultiMap α β :=
  es.foldl (fun m e => m.insert e.1 e.2) m

/-- The entries from `m.find(k)` to `m.end()`: empty when the key is not there. -/
def findFrom (m : MultiMap α β) (k : α) : List (α × β) := m.entries.dropWhile (·.1 ≠ k)

theorem perm_insertAll (m : MultiMap α β) (es : List (α × β)) :
    (m.insertAll es).entries.Perm (m.entries ++ es) := by
  induction es generalizing m with
  | nil => simp [insertAll]
  | cons e es ih =>
    have hstep : (m.insert e.1 e.2).entries.Perm (e :: m.entries) := perm_insertEntry e.1 e.2 _
    calc ((m.insert e.1 e.2).insertAll es).entries.Perm ((m.insert e.1 e.2).entries ++ es) :=
          ih _
      List.Perm _ (e :: m.entries ++ es) := hstep.append_right es
      List.Perm _ (m.entries ++ e :: es) := by
          simpa using (@List.perm_middle _ e m.entries es).symm

/-- A list sorted by key, with the entries of one key in their old order. -/
structure SortedByKey (es sorted : List (α × β)) : Prop where
  perm : sorted.Perm es
  pairwise : sorted.Pairwise fun a b => a.1 ≤ b.1
  stable : ∀ k, sorted.filter (·.1 = k) = es.filter (·.1 = k)

theorem SortedByKey.filter {es sorted : List (α × β)} (h : SortedByKey es sorted)
    (p : α × β → Bool) : SortedByKey (es.filter p) (sorted.filter p) where
  perm := h.perm.filter p
  pairwise := h.pairwise.sublist List.filter_sublist
  stable k := by
    rw [List.filter_comm, h.stable k, List.filter_comm]

/-- An entry goes behind the others of its key. -/
theorem filter_insertEntry (k : α) (v : β) {l : List (α × β)}
    (h : l.Pairwise fun a b => a.1 ≤ b.1) (c : α) :
    (insertEntry k v l).filter (·.1 = c) = l.filter (·.1 = c) ++ [(k, v)].filter (·.1 = c) := by
  induction l with
  | nil => rfl
  | cons a l ih =>
    obtain ⟨hhead, htail⟩ := List.pairwise_cons.1 h
    rw [insertEntry]
    split_ifs with hlt
    · by_cases hk : k = c
      · -- behind a greater key there is no entry of the same key
        have hnone : (a :: l).filter (·.1 = c) = [] := by
          rw [List.filter_eq_nil_iff]
          intro e he
          have hle : a.1 ≤ e.1 := by
            rcases List.mem_cons.1 he with rfl | he
            · exact le_rfl
            · exact hhead e he
          simpa using (hk ▸ hlt.trans_le hle).ne'
        rw [List.filter_cons, hnone]
        simp [hk]
      · rw [List.filter_cons_of_neg (by simpa using hk)]
        simp [hk]
    · have hrest := ih htail
      generalize [(k, v)].filter (·.1 = c) = added at hrest ⊢
      show (a :: insertEntry k v l).filter (·.1 = c) = (a :: l).filter (·.1 = c) ++ added
      by_cases ha : a.1 = c
      · rw [List.filter_cons_of_pos (by simpa using ha), hrest,
          List.filter_cons_of_pos (by simpa using ha), List.cons_append]
      · rw [List.filter_cons_of_neg (by simpa using ha), hrest,
          List.filter_cons_of_neg (by simpa using ha)]

/-- **What was inserted is there, sorted by key.** -/
theorem sortedByKey_insertAll (es : List (α × β)) :
    SortedByKey es (empty.insertAll es).entries where
  perm := perm_insertAll empty es
  pairwise := (empty.insertAll es).sorted
  stable k := by
    have hrun : ∀ (m : MultiMap α β), (m.insertAll es).entries.filter (·.1 = k) =
        m.entries.filter (·.1 = k) ++ es.filter (·.1 = k) := by
      induction es with
      | nil => intro m; simp [insertAll]
      | cons e es ih =>
        intro m
        have hstep : (m.insertAll (e :: es)) = (m.insert e.1 e.2).insertAll es := rfl
        have hone : (m.insert e.1 e.2).entries.filter (·.1 = k) =
            m.entries.filter (·.1 = k) ++ [e].filter (·.1 = k) :=
          filter_insertEntry e.1 e.2 m.sorted k
        rw [hstep, ih, hone, List.append_assoc, ← List.filter_append, List.singleton_append]
    exact hrun empty

/-- Walking from `find(k)` while the key stays `k` meets exactly the entries with that key. -/
theorem takeWhile_findFrom (m : MultiMap α β) (k : α) :
    (m.findFrom k).takeWhile (·.1 = k) = m.entries.filter (·.1 = k) := by
  obtain ⟨l, hl⟩ := m
  simp only [findFrom]
  induction l with
  | nil => rfl
  | cons e l ih =>
    obtain ⟨hhead, htail⟩ := List.pairwise_cons.1 hl
    by_cases hk : e.1 = k
    · rw [List.dropWhile_cons_of_neg (by simpa using hk), List.takeWhile_cons_of_pos (by simpa using hk),
        List.filter_cons_of_pos (by simpa using hk)]
      congr 1
      -- behind an entry with key `k` every key is at least `k`: the walk stops where it changes
      clear ih
      induction l with
      | nil => rfl
      | cons a l ih =>
        obtain ⟨hhead', htail'⟩ := List.pairwise_cons.1 htail
        by_cases ha : a.1 = k
        · rw [List.takeWhile_cons_of_pos (by simpa using ha),
            List.filter_cons_of_pos (by simpa using ha),
            ih (List.pairwise_cons.2 ⟨fun x hx => hhead x (List.mem_cons_of_mem _ hx), htail'⟩)
              (fun x hx => hhead x (List.mem_cons_of_mem _ hx)) htail']
        · have hlt : k < a.1 :=
            lt_of_le_of_ne (hk ▸ hhead a List.mem_cons_self) (Ne.symm ha)
          rw [List.takeWhile_cons_of_neg (by simpa using ha),
            List.filter_cons_of_neg (by simpa using ha)]
          symm
          rw [List.filter_eq_nil_iff]
          intro x hx
          simpa using (hlt.trans_le (hhead' x hx)).ne'
    · rw [List.dropWhile_cons_of_pos (by simpa using hk),
        List.filter_cons_of_neg (by simpa using hk)]
      exact ih htail

/-- Walking from `find(k)` to the end meets the entries whose key is at least `k`, provided that
`k` is there at all. -/
theorem mem_findFrom {m : MultiMap α β} {k : α} {e : α × β} :
    e ∈ m.findFrom k ↔ e ∈ m.entries ∧ k ≤ e.1 ∧ ∃ v, (k, v) ∈ m.entries := by
  obtain ⟨l, hl⟩ := m
  simp only [findFrom]
  induction l with
  | nil => simp
  | cons a l ih =>
    obtain ⟨hhead, htail⟩ := List.pairwise_cons.1 hl
    by_cases hk : a.1 = k
    · subst hk
      rw [List.dropWhile_cons_of_neg (by simp)]
      refine ⟨fun he => ⟨he, ?_, a.2, List.mem_cons_self⟩, fun he => he.1⟩
      rcases List.mem_cons.1 he with rfl | he
      · exact le_rfl
      · exact hhead e he
    · rw [List.dropWhile_cons_of_pos (by simpa using hk), ih htail]
      constructor
      · rintro ⟨he, hle, v, hv⟩
        exact ⟨List.mem_cons_of_mem _ he, hle, v, List.mem_cons_of_mem _ hv⟩
      · rintro ⟨he, hle, v, hv⟩
        have hv' : (k, v) ∈ l := by
          rcases List.mem_cons.1 hv with rfl | hv
          · exact absurd rfl hk
          · exact hv
        refine ⟨?_, hle, v, hv'⟩
        rcases List.mem_cons.1 he with rfl | he
        · exact absurd (le_antisymm (hhead _ hv') hle) hk
        · exact he

end MultiMap

end Lib
