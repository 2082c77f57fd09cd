import Mathlib

/-!
# Repetitions met in one pass

A loop judges each element of a list by the elements before it.

* `EachAfter P xs` — `P before x` at every element `x` of `xs`, where `before` is what precedes it;
* `overruns tolerance met xs` — the number of elements that come when the tolerance for them is
  used up already.

**Theorem (`overruns_eq_finsum`).** Counted on the way or in the end, the overruns are the same:
each value contributes its occurrences beyond the tolerance.
-/

namespace Lib

variable {α β : Type}

/-! ## Each element after those before it -/

/-- `P` holds between the elements before an element and the element, all along the list. -/
def EachAfter (P : List α → α → Prop) (xs : List α) : Prop :=
  ∀ before x after, xs = before ++ x :: after → P before x

@[simp] theorem eachAfter_nil (P : List α → α → Prop) : EachAfter P [] := by
  intro before x after h
  simp at h

theorem eachAfter_cons {P : List α → α → Prop} {x : α} {xs : List α} :
    EachAfter P (x :: xs) ↔ P [] x ∧ EachAfter (fun before => P (x :: before)) xs := by
  constructor
  · intro h
    refine ⟨h [] x xs rfl, fun before y after hxs => h (x :: before) y after ?_⟩
    rw [hxs, List.cons_append]
  · rintro ⟨hhead, htail⟩ before y after hxs
    cases before with
    | nil =>
      obtain ⟨rfl, -⟩ := List.cons.inj hxs
      exact hhead
    | cons z before =>
      obtain ⟨rfl, hrest⟩ := List.cons.inj hxs
      exact htail before y after hrest

theorem EachAfter.mono {P Q : List α → α → Prop} {xs : List α} (h : EachAfter P xs)
    (hPQ : ∀ before, ∀ x ∈ xs, P before x → Q before x) : EachAfter Q xs := by
  intro before x after hxs
  refine hPQ before x ?_ (h before x after hxs)
  simp [hxs]

/-- What stands behind the first element that satisfies `p`, and satisfies it too. -/
theorem mem_tail_filter {p : α → Bool} {x : α} {xs : List α} : x ∈ (xs.filter p).tail ↔
    ∃ before after, xs = before ++ x :: after ∧ p x = true ∧ ∃ y ∈ before, p y = true := by
  induction xs with
  | nil => simp
  | cons z xs ih =>
    by_cases hz : p z = true
    · rw [List.filter_cons_of_pos hz, List.tail_cons, List.mem_filter]
      constructor
      · rintro ⟨hx, hpx⟩
        obtain ⟨before, after, rfl⟩ := List.append_of_mem hx
        exact ⟨z :: before, after, rfl, hpx, z, List.mem_cons_self, hz⟩
      · rintro ⟨before, after, hxs, hpx, y, hy, -⟩
        cases before with
        | nil => cases hy
        | cons w before =>
          obtain ⟨-, rfl⟩ := List.cons.inj hxs
          exact ⟨by simp, hpx⟩
    · rw [List.filter_cons_of_neg hz, ih]
      constructor
      · rintro ⟨before, after, rfl, hpx, y, hy, hpy⟩
        exact ⟨z :: before, after, rfl, hpx, y, List.mem_cons_of_mem z hy, hpy⟩
      · rintro ⟨before, after, hxs, hpx, y, hy, hpy⟩
        cases before with
        | nil => cases hy
        | cons w before =>
          obtain ⟨rfl, rfl⟩ := List.cons.inj hxs
          rcases List.mem_cons.1 hy with rfl | hy
          · exact absurd hpy hz
          · exact ⟨before, after, rfl, hpx, y, hy, hpy⟩

/-- An element judged only when its key was met before: behind the first one with its key. -/
theorem eachAfter_met_iff {κ : Type} [DecidableEq κ] {key : α → κ} {Q : α → Prop} {xs : List α} :
    EachAfter (fun before x => key x ∈ before.map key → Q x) xs ↔
      ∀ k, ∀ x ∈ (xs.filter (key · = k)).tail, Q x := by
  constructor
  · intro h k x hx
    obtain ⟨before, after, hxs, hkx, y, hy, hky⟩ := mem_tail_filter.1 hx
    have hkeys : key y = key x := (of_decide_eq_true hky).trans (of_decide_eq_true hkx).symm
    exact h before x after hxs (List.mem_map.2 ⟨y, hy, hkeys⟩)
  · intro h before x after hxs hmet
    obtain ⟨y, hy, hkeys⟩ := List.mem_map.1 hmet
    exact h (key x) x (mem_tail_filter.2
      ⟨before, after, hxs, decide_eq_true rfl, y, hy, decide_eq_true hkeys⟩)

/-- Of two filters, the stricter one leaves as much only when it leaves the same. -/
theorem countP_eq_countP_iff {p q : α → Bool} {xs : List α}
    (h : ∀ x ∈ xs, q x = true → p x = true) :
    xs.countP q = xs.countP p ↔ ∀ x ∈ xs, p x = true → q x = true := by
  induction xs with
  | nil => simp
  | cons x xs ih =>
    have hrest : ∀ y ∈ xs, q y = true → p y = true := fun y hy => h y (List.mem_cons_of_mem x hy)
    have hle : xs.countP q ≤ xs.countP p := List.countP_mono_left hrest
    have hx := h x List.mem_cons_self
    rw [List.forall_mem_cons, ← ih hrest, List.countP_cons, List.countP_cons]
    by_cases hq : q x = true
    · simp [hq, hx hq]
    · by_cases hp : p x = true
      · simp only [hp, hq, if_true, Bool.false_eq_true, if_false, true_imp_iff, false_and, iff_false]
        omega
      · simp [hp, hq]

/-! ## Beyond a tolerance -/

variable [DecidableEq α]

/-- How many elements of `xs` come when those met before use up the tolerance already. -/
def overruns (tolerance : α → ℕ) : List α → List α → ℕ
  | _, [] => 0
  | met, x :: rest =>
    (if tolerance x ≤ met.count x then 1 else 0) + overruns tolerance (met ++ [x]) rest

/-- One more element adds to what is beyond the tolerance exactly when it is used up. -/
theorem count_concat_sub (tolerance : α → ℕ) (met : List α) (x d : α) :
    (met ++ [x]).count d - tolerance d =
      met.count d - tolerance d + if d = x ∧ tolerance x ≤ met.count x then 1 else 0 := by
  by_cases hd : d = x
  · subst hd
    simp only [List.count_append, List.count_singleton_self, true_and]
    split_ifs with hle <;> omega
  · have hx : List.count d [x] = 0 := List.count_eq_zero_of_not_mem (by simpa using hd)
    simp [List.count_append, hx, hd]

/-- What was beyond the tolerance before, and the overruns on the way, make what is beyond it in
the end. -/
theorem sum_add_overruns (tolerance : α → ℕ) {s : Finset α} (met xs : List α)
    (hxs : ∀ x ∈ xs, x ∈ s) :
    ∑ d ∈ s, (met.count d - tolerance d) + overruns tolerance met xs =
      ∑ d ∈ s, ((met ++ xs).count d - tolerance d) := by
  induction xs generalizing met with
  | nil => simp [overruns]
  | cons x xs ih =>
    have hx : x ∈ s := hxs x List.mem_cons_self
    have hstep : ∑ d ∈ s, ((met ++ [x]).count d - tolerance d) =
        ∑ d ∈ s, (met.count d - tolerance d) + if tolerance x ≤ met.count x then 1 else 0 := by
      simp only [count_concat_sub, Finset.sum_add_distrib]
      congr 1
      by_cases hle : tolerance x ≤ met.count x
      · simp [hle, Finset.sum_ite_eq', hx]
      · simp [hle]
    have hrest := ih (met ++ [x]) fun y hy => hxs y (List.mem_cons_of_mem x hy)
    rw [hstep, List.append_assoc, List.singleton_append] at hrest
    rw [overruns, ← hrest, add_assoc]

/-- **The overruns of a pass, in closed form.** -/
theorem overruns_eq_finsum (tolerance : α → ℕ) (xs : List α) :
    overruns tolerance [] xs = ∑ᶠ d, (xs.count d - tolerance d) := by
  have hsupport : Function.support (fun d => xs.count d - tolerance d) ⊆ ↑xs.toFinset := by
    intro d hd
    have hpos : xs.count d ≠ 0 := fun h => hd (by simp [h])
    simpa using List.count_pos_iff.1 (Nat.pos_of_ne_zero hpos)
  rw [finsum_eq_sum_of_support_subset _ hsupport]
  have h := sum_add_overruns tolerance [] xs fun x hx => List.mem_toFinset.2 hx
  simpa using h

/-- There are no overruns exactly when no value occurs more often than tolerated. -/
theorem overruns_eq_zero_iff {tolerance : α → ℕ} {xs : List α} :
    overruns tolerance [] xs = 0 ↔ ∀ d, xs.count d ≤ tolerance d := by
  have h := sum_add_overruns tolerance [] xs fun x hx => List.mem_toFinset.2 hx
  simp only [List.count_nil, Nat.zero_sub, Finset.sum_const_zero, zero_add, List.nil_append] at h
  rw [h, Finset.sum_eq_zero_iff]
  constructor
  · intro hle d
    by_cases hd : d ∈ xs
    · exact Nat.sub_eq_zero_iff_le.1 (hle d (List.mem_toFinset.2 hd))
    · simp [List.count_eq_zero_of_not_mem hd]
  · intro hle d _
    exact Nat.sub_eq_zero_iff_le.2 (hle d)

/-! ## Nothing twice -/

/-- How many elements of a list are repetitions of others. -/
def repetitions (xs : List α) : ℕ := xs.length - xs.dedup.length

theorem overruns_one_cons (met : List α) (x : α) (xs : List α) [Decidable (x ∈ met)] :
    overruns (fun _ => 1) met (x :: xs) =
      (if x ∈ met then 1 else 0) + overruns (fun _ => 1) (met ++ [x]) xs := by
  have hcount : (1 ≤ met.count x) = (x ∈ met) := propext List.one_le_count_iff
  rw [overruns]
  simp only [hcount]

/-- With a tolerance of one, only what was met counts, not how often. -/
theorem overruns_one_congr {met met' : List α} (h : ∀ x, x ∈ met ↔ x ∈ met') (xs : List α) :
    overruns (fun _ => 1) met xs = overruns (fun _ => 1) met' xs := by
  induction xs generalizing met met' with
  | nil => rfl
  | cons x xs ih =>
    have hrest : ∀ y, y ∈ met ++ [x] ↔ y ∈ met' ++ [x] := by simp [h]
    rw [overruns_one_cons, overruns_one_cons, ih hrest]
    simp only [h x]

/-- **The repetitions met in a pass**: the elements without the distinct ones. -/
theorem overruns_one (xs : List α) : overruns (fun _ => 1) [] xs = repetitions xs := by
  have hsum := sum_add_overruns (fun _ => 1) [] xs fun x hx => List.mem_toFinset.2 hx
  simp only [List.count_nil, Nat.zero_sub, Finset.sum_const_zero, zero_add,
    List.nil_append] at hsum
  have hsplit : ∑ d ∈ xs.toFinset, (xs.count d - 1) + xs.toFinset.card =
      ∑ d ∈ xs.toFinset, xs.count d := by
    rw [Finset.card_eq_sum_ones, ← Finset.sum_add_distrib]
    refine Finset.sum_congr rfl fun d hd => ?_
    have hpos : 0 < xs.count d := List.count_pos_iff.2 (List.mem_toFinset.1 hd)
    omega
  rw [List.sum_toFinset_count_eq_length, List.card_toFinset] at hsplit
  rw [hsum, repetitions]
  omega

theorem repetitions_eq_zero_iff {xs : List α} : repetitions xs = 0 ↔ xs.Nodup := by
  rw [← overruns_one, overruns_eq_zero_iff, List.nodup_iff_count_le_one]

end Lib
