import Mathlib

/-!
# Lists in another order

`Shuffle f xs ys`: `ys` is `xs` in another order, in which elements that `f` does not tell apart
have kept theirs. It is what exchanging neighbours that `f` tells apart leads to, so a proof about
two such lists is an induction with one exchange as its only case of interest. Where `f` tells all
elements apart, every permutation is one (`Shuffle.of_perm`).
-/

namespace Lib

/-- The lists differ in the order of elements that `f` tells apart. -/
inductive Shuffle {α κ : Type} (f : α → κ) : List α → List α → Prop
  | refl (xs : List α) : Shuffle f xs xs
  | cons (x : α) {xs ys : List α} (h : Shuffle f xs ys) : Shuffle f (x :: xs) (x :: ys)
  | swap {x y : α} (h : f x ≠ f y) (xs : List α) : Shuffle f (x :: y :: xs) (y :: x :: xs)
  | trans {xs ys zs : List α} (h : Shuffle f xs ys) (h' : Shuffle f ys zs) : Shuffle f xs zs

namespace Shuffle

variable {α β κ : Type} {f : α → κ} {xs ys : List α}

theorem perm (h : Shuffle f xs ys) : xs.Perm ys := by
  induction h with
  | refl xs => exact .refl xs
  | cons x _ ih => exact .cons x ih
  | swap _ xs => exact .swap _ _ xs
  | trans _ _ ih ih' => exact ih.trans ih'

theorem symm (h : Shuffle f xs ys) : Shuffle f ys xs := by
  induction h with
  | refl xs => exact .refl xs
  | cons x _ ih => exact .cons x ih
  | swap h xs => exact .swap h.symm xs
  | trans _ _ ih ih' => exact .trans ih' ih

/-- **Elements that are told apart may stand in any order.** -/
theorem of_perm (h : xs.Perm ys) (hnodup : (xs.map f).Nodup) : Shuffle f xs ys := by
  induction h with
  | nil => exact .refl []
  | cons x _ ih => exact .cons x (ih (List.nodup_cons.1 hnodup).2)
  | swap x y xs => exact .swap (fun heq => by simp [heq] at hnodup) xs
  | trans h _ ih ih' => exact .trans (ih hnodup) (ih' ((h.map f).nodup_iff.1 hnodup))

theorem filter (p : α → Bool) (h : Shuffle f xs ys) : Shuffle f (xs.filter p) (ys.filter p) := by
  induction h with
  | refl xs => exact .refl _
  | cons x _ ih =>
    rw [List.filter_cons, List.filter_cons]
    split_ifs
    · exact .cons x ih
    · exact ih
  | @swap x y h xs =>
    simp only [List.filter_cons]
    split_ifs
    · exact .swap h _
    all_goals exact .refl _
  | trans _ _ ih ih' => exact .trans ih ih'

theorem map {g : α → β} {k : β → κ} (hk : ∀ x, k (g x) = f x) (h : Shuffle f xs ys) :
    Shuffle k (xs.map g) (ys.map g) := by
  induction h with
  | refl xs => exact .refl _
  | cons x _ ih => exact .cons _ ih
  | swap h xs => exact .swap (by rwa [hk, hk]) _
  | trans _ _ ih ih' => exact .trans ih ih'

/-- Elements that are changed one by one may be changed first, and exchanged afterwards. -/
theorem forall₂ {g : β → κ} {R : α → β → Prop} (hR : ∀ x y, R x y → g y = f x)
    (h : Shuffle f xs ys) {zs : List β} (hzs : List.Forall₂ R ys zs) :
    ∃ ws, List.Forall₂ R xs ws ∧ Shuffle g ws zs := by
  induction h generalizing zs with
  | refl xs => exact ⟨zs, hzs, .refl zs⟩
  | cons x _ ih =>
    obtain _ | ⟨hx, hzs⟩ := hzs
    obtain ⟨ws, hws, hshuffle⟩ := ih hzs
    exact ⟨_ :: ws, .cons hx hws, .cons _ hshuffle⟩
  | swap h xs =>
    obtain _ | ⟨hy, _ | ⟨hx, hzs⟩⟩ := hzs
    refine ⟨_, .cons hx (.cons hy hzs), .swap ?_ _⟩
    rwa [hR _ _ hx, hR _ _ hy]
  | trans _ _ ih ih' =>
    obtain ⟨ws, hws, hshuffle⟩ := ih' hzs
    obtain ⟨us, hus, hshuffle'⟩ := ih hws
    exact ⟨us, hus, .trans hshuffle' hshuffle⟩

end Shuffle

end Lib
