import Mathlib
import ProvisioningValidator.Lib.Shuffle

/-!
# Runs that record events and may be aborted

A `Run ε α` either is aborted, or returns a value together with the events it recorded, oldest
first. Nothing a run does depends on events recorded before it, which is what makes the rules
below compositional:

* `Yields q m a` — `m` returns `a` and records only events that satisfy `q`;
* `ReturnsIff q m p` — `m` returns, recording only events that satisfy `q`, exactly when `p` holds;
* `Sim R m n` — both are aborted, or both return, with values related by `R` and the same events
  up to their order;
* `Records q m` — `m` is aborted, or records only events that satisfy `q`.

`collect` is the loop over an array that pushes what each element gives, if it gives anything.
-/

namespace Lib

/-- A run: aborted, or a value and the events recorded on the way to it. -/
inductive Run (ε α : Type) where
  | abort
  | ret (a : α) (es : List ε)

namespace Run

variable {ε α β γ δ : Type}

/-! ## The monad -/

/-- Return a value, recording nothing. -/
protected def pure (a : α) : Run ε α := ret a []

/-- Run `m`, then `f` on its value; events in that order. -/
protected def bind (m : Run ε α) (f : α → Run ε β) : Run ε β :=
  match m with
  | abort => abort
  | ret a es =>
    match f a with
    | abort => abort
    | ret b fs => ret b (es ++ fs)

instance : Monad (Run ε) where
  pure := Run.pure
  bind := Run.bind

/-- Record an event. -/
def emit (e : ε) : Run ε Unit := ret () [e]

/-- The value of an operation that is aborted where it has none. -/
def lift : Option α → Run ε α
  | none => abort
  | some a => ret a []

theorem pure_def (a : α) : (pure a : Run ε α) = ret a [] := rfl

@[simp] theorem lift_none : (lift none : Run ε α) = abort := rfl

@[simp] theorem lift_some (a : α) : (lift (some a) : Run ε α) = pure a := rfl

@[simp] theorem abort_bind (f : α → Run ε β) : ((abort : Run ε α) >>= f) = abort := rfl

theorem bind_eq_ret {m : Run ε α} {f : α → Run ε β} {b : β} {es : List ε} :
    m >>= f = ret b es ↔ ∃ a es₁ es₂, m = ret a es₁ ∧ f a = ret b es₂ ∧ es = es₁ ++ es₂ := by
  show Run.bind m f = _ ↔ _
  cases m with
  | abort => simp [Run.bind]
  | ret a es₁ =>
    cases hf : f a with
    | abort => simp [Run.bind, hf]
    | ret b' es₂ =>
      simp only [Run.bind, hf, ret.injEq]
      constructor
      · rintro ⟨rfl, rfl⟩
        exact ⟨a, es₁, es₂, ⟨rfl, rfl⟩, hf, rfl⟩
      · rintro ⟨a', es₁', es₂', ⟨rfl, rfl⟩, hf', rfl⟩
        rw [hf, ret.injEq] at hf'
        exact ⟨hf'.1, by rw [hf'.2]⟩

protected theorem id_map (m : Run ε α) : Run.bind m Run.pure = m := by
  cases m with
  | abort => rfl
  | ret a es => simp [Run.bind, Run.pure]

protected theorem pure_bind (a : α) (f : α → Run ε β) : Run.bind (Run.pure a) f = f a := by
  simp only [Run.bind, Run.pure]
  cases f a <;> rfl

protected theorem bind_assoc (m : Run ε α) (f : α → Run ε β) (g : β → Run ε γ) :
    Run.bind (Run.bind m f) g = Run.bind m fun a => Run.bind (f a) g := by
  cases m with
  | abort => rfl
  | ret a es =>
    simp only [Run.bind]
    cases f a with
    | abort => rfl
    | ret b fs => cases hg : g b <;> simp [hg]

instance : LawfulMonad (Run ε) := LawfulMonad.mk' _ Run.id_map Run.pure_bind Run.bind_assoc

theorem map_abort (f : α → β) : f <$> (abort : Run ε α) = abort := rfl

theorem map_ret (f : α → β) (a : α) (es : List ε) : f <$> (ret a es : Run ε α) = ret (f a) es := by
  show ret (f a) (es ++ []) = ret (f a) es
  rw [List.append_nil]

/-! ## The loop -/

/-- `for (x : xs) ..push_back(..)`: what the elements give, in order. -/
def collect (f : α → Run ε (Option β)) : List α → Run ε (List β)
  | [] => pure []
  | x :: xs => do
    let b ← f x
    let bs ← collect f xs
    return b.toList ++ bs

@[simp] theorem collect_nil (f : α → Run ε (Option β)) : collect f [] = pure [] := rfl

theorem collect_cons (f : α → Run ε (Option β)) (x : α) (xs : List α) :
    collect f (x :: xs) = (do
      let b ← f x
      let bs ← collect f xs
      return b.toList ++ bs) := rfl

/-- **A loop treats its elements one by one**: appended inputs give appended results. -/
theorem collect_append (f : α → Run ε (Option β)) (xs ys : List α) :
    collect f (xs ++ ys) = (do
      let bs ← collect f xs
      let cs ← collect f ys
      return bs ++ cs) := by
  induction xs with
  | nil => simp
  | cons x xs ih =>
    simp only [List.cons_append, collect_cons, ih, bind_assoc, pure_bind, List.append_assoc]

/-! ## Runs that record nothing but what is allowed -/

/-- `m` returns `a`, and every event it records satisfies `q`. -/
def Yields (q : ε → Prop) (m : Run ε α) (a : α) : Prop :=
  ∃ es, m = ret a es ∧ ∀ e ∈ es, q e

variable {q : ε → Prop}

@[simp] theorem yields_pure {a b : α} : Yields q (pure a) b ↔ b = a := by
  constructor
  · rintro ⟨es, h, -⟩
    rw [pure_def, ret.injEq] at h
    exact h.1.symm
  · rintro rfl
    exact ⟨[], rfl, by simp⟩

@[simp] theorem yields_bind {m : Run ε α} {f : α → Run ε β} {b : β} :
    Yields q (m >>= f) b ↔ ∃ a, Yields q m a ∧ Yields q (f a) b := by
  constructor
  · rintro ⟨es, h, hq⟩
    obtain ⟨a, es₁, es₂, hm, hf, rfl⟩ := bind_eq_ret.1 h
    exact ⟨a, ⟨es₁, hm, fun e he => hq e (List.mem_append_left _ he)⟩,
      ⟨es₂, hf, fun e he => hq e (List.mem_append_right _ he)⟩⟩
  · rintro ⟨a, ⟨es₁, hm, hq₁⟩, ⟨es₂, hf, hq₂⟩⟩
    refine ⟨es₁ ++ es₂, bind_eq_ret.2 ⟨a, es₁, es₂, hm, hf, rfl⟩, fun e he => ?_⟩
    rcases List.mem_append.1 he with he | he
    · exact hq₁ e he
    · exact hq₂ e he

@[simp] theorem yields_map {m : Run ε α} {f : α → β} {b : β} :
    Yields q (f <$> m) b ↔ ∃ a, Yields q m a ∧ b = f a := by
  rw [← bind_pure_comp, yields_bind]
  simp only [yields_pure]

@[simp] theorem yields_emit {e : ε} {u : Unit} : Yields q (emit e) u ↔ q e := by
  constructor
  · rintro ⟨es, h, hq⟩
    rw [emit, ret.injEq] at h
    exact hq e (h.2 ▸ List.mem_cons_self)
  · intro h
    exact ⟨[e], rfl, by simpa using h⟩

@[simp] theorem not_yields_abort {a : α} : ¬ Yields q (abort : Run ε α) a := by
  rintro ⟨es, h, -⟩
  cases h

@[simp] theorem yields_lift {o : Option α} {a : α} : Yields q (lift o) a ↔ o = some a := by
  cases o with
  | none => simp
  | some b => simp [eq_comm]

theorem Yields.mono {q' : ε → Prop} {m : Run ε α} {a : α} (h : Yields q m a)
    (hq : ∀ e, q e → q' e) : Yields q' m a := by
  obtain ⟨es, hm, hes⟩ := h
  exact ⟨es, hm, fun e he => hq e (hes e he)⟩

theorem Yields.unique {m : Run ε α} {a b : α} (ha : Yields q m a) (hb : Yields q m b) : a = b := by
  obtain ⟨es, h, -⟩ := ha
  obtain ⟨fs, h', -⟩ := hb
  rw [h, ret.injEq] at h'
  exact h'.1

/-- What is done with the value of a run makes no difference where it is the same for every value
that the run may return. -/
theorem map_eq_map_iff {m : Run ε α} {f g : α → β} :
    f <$> m = g <$> m ↔ ∀ a, Yields (fun _ => True) m a → f a = g a := by
  cases m with
  | abort => exact iff_of_true rfl fun a h => absurd h not_yields_abort
  | ret a es =>
    constructor
    · intro h b hb
      obtain ⟨fs, hm, -⟩ := hb
      rw [ret.injEq] at hm
      have hvalues := congrArg (fun r : Run ε β => match r with
        | abort => none
        | ret c _ => some c) h
      exact hm.1 ▸ Option.some.inj hvalues
    · intro h
      have ha : f a = g a := h a ⟨es, rfl, fun _ _ => trivial⟩
      show ret (f a) (es ++ []) = ret (g a) (es ++ [])
      rw [ha]

/-- What a loop gives comes from its elements. -/
theorem Yields.mem_collect {f : α → Run ε (Option β)} {xs : List α} {bs : List β}
    (h : Yields q (collect f xs) bs) : ∀ b ∈ bs, ∃ x ∈ xs, Yields q (f x) (some b) := by
  induction xs generalizing bs with
  | nil =>
    intro b hb
    rw [collect_nil, yields_pure] at h
    exact absurd hb (by simp [h])
  | cons x xs ih =>
    simp only [collect_cons, yields_bind, yields_pure] at h
    obtain ⟨o, ho, cs, hcs, rfl⟩ := h
    intro b hb
    rcases List.mem_append.1 hb with hb | hb
    · rw [Option.mem_toList] at hb
      exact ⟨x, List.mem_cons_self, hb ▸ ho⟩
    · obtain ⟨y, hy, hyb⟩ := ih hcs b hb
      exact ⟨y, List.mem_cons_of_mem _ hy, hyb⟩

/-- Every element of a loop is run, and what it gives is kept. -/
theorem Yields.collect_mem {f : α → Run ε (Option β)} {xs : List α} {bs : List β}
    (h : Yields q (collect f xs) bs) :
    ∀ x ∈ xs, ∃ o, Yields q (f x) o ∧ ∀ b, o = some b → b ∈ bs := by
  induction xs generalizing bs with
  | nil => simp
  | cons x xs ih =>
    simp only [collect_cons, yields_bind, yields_pure] at h
    obtain ⟨o, ho, cs, hcs, rfl⟩ := h
    intro y hy
    rcases List.mem_cons.1 hy with rfl | hy
    · exact ⟨o, ho, fun b hb => List.mem_append_left _ (by simp [hb])⟩
    · obtain ⟨o', ho', hmem⟩ := ih hcs y hy
      exact ⟨o', ho', fun b hb => List.mem_append_right _ (hmem b hb)⟩

/-- Where every element gives something, nothing comes of nothing only. -/
theorem Yields.collect_eq_nil_iff {f : α → Run ε (Option β)} {xs : List α} {bs : List β}
    (h : Yields q (collect f xs) bs) (hsome : ∀ x o, Yields q (f x) o → ∃ b, o = some b) :
    bs = [] ↔ xs = [] := by
  simp only [List.eq_nil_iff_forall_not_mem]
  constructor
  · intro hbs x hx
    obtain ⟨o, ho, hmem⟩ := h.collect_mem x hx
    obtain ⟨b, rfl⟩ := hsome x o ho
    exact hbs b (hmem b rfl)
  · intro hxs b hb
    obtain ⟨x, hx, -⟩ := h.mem_collect b hb
    exact hxs x hx

/-- Elements each of which gives something give nothing only if there are none. -/
theorem yields_collect_nil_iff {f : α → Run ε (Option β)} (hf : ∀ x, ¬ Yields q (f x) none)
    {xs : List α} : Yields q (collect f xs) [] ↔ xs = [] := by
  cases xs with
  | nil => exact iff_of_true (yields_pure.2 rfl) rfl
  | cons x xs =>
    refine iff_of_false (fun h => ?_) (List.cons_ne_nil x xs)
    obtain ⟨o, ho, hrest⟩ := yields_bind.1 h
    obtain ⟨bs, -, hnil⟩ := yields_bind.1 hrest
    cases o with
    | none => exact hf x ho
    | some b => exact absurd (yields_pure.1 hnil) (List.cons_ne_nil b bs).symm

/-! ## Runs that return -/

/-- `m` returns, and records only events that satisfy `q`, exactly when `p` holds. -/
def ReturnsIff (q : ε → Prop) (m : Run ε α) (p : Prop) : Prop := (∃ a, Yields q m a) ↔ p

theorem returnsIff_pure (a : α) : ReturnsIff q (pure a : Run ε α) True :=
  iff_of_true ⟨a, yields_pure.2 rfl⟩ trivial

theorem returnsIff_emit_iff (e : ε) : ReturnsIff q (emit e) (q e) := by
  simp [ReturnsIff]

theorem returnsIff_abort : ReturnsIff q (abort : Run ε α) False :=
  iff_of_false (fun h => not_yields_abort h.choose_spec) id

theorem returnsIff_lift (o : Option α) : ReturnsIff q (lift o : Run ε α) (o.isSome = true) := by
  rw [ReturnsIff, Option.isSome_iff_exists]
  simp only [yields_lift]

theorem ReturnsIff.congr {m : Run ε α} {p p' : Prop} (h : ReturnsIff q m p) (hp : p ↔ p') :
    ReturnsIff q m p' := h.trans hp

theorem ReturnsIff.bind {m : Run ε α} {f : α → Run ε β} {p p' : Prop} (hm : ReturnsIff q m p)
    (hf : ∀ a, Yields q m a → ReturnsIff q (f a) p') : ReturnsIff q (m >>= f) (p ∧ p') := by
  constructor
  · intro h
    obtain ⟨b, hb⟩ := h
    obtain ⟨a, ha, hab⟩ := yields_bind.1 hb
    exact ⟨hm.1 ⟨a, ha⟩, (hf a ha).1 ⟨b, hab⟩⟩
  · intro h
    obtain ⟨a, ha⟩ := hm.2 h.1
    obtain ⟨b, hb⟩ := (hf a ha).2 h.2
    exact ⟨b, yields_bind.2 ⟨a, ha, hb⟩⟩

theorem ReturnsIff.map {m : Run ε α} {p : Prop} (hm : ReturnsIff q m p) (f : α → β) :
    ReturnsIff q (f <$> m) p := by
  rw [← bind_pure_comp]
  exact (hm.bind fun a _ => returnsIff_pure (f a)).congr (iff_of_eq (and_true p))

theorem ReturnsIff.collect {f : α → Run ε (Option β)} {P : α → Prop} {xs : List α}
    (h : ∀ x ∈ xs, ReturnsIff q (f x) (P x)) : ReturnsIff q (collect f xs) (∀ x ∈ xs, P x) := by
  induction xs with
  | nil => exact (returnsIff_pure []).congr (by simp)
  | cons x xs ih =>
    have hrest := ih fun y hy => h y (List.mem_cons_of_mem _ hy)
    refine ((h x List.mem_cons_self).bind fun o _ => hrest.bind fun bs _ =>
      returnsIff_pure _).congr ?_
    simp

/-! ## Runs that may record nothing else -/

/-- If `m` returns, every event it records satisfies `q`. -/
def Records (q : ε → Prop) (m : Run ε α) : Prop := ∀ a es, m = ret a es → ∀ e ∈ es, q e

@[simp] theorem records_ret {a : α} {es : List ε} :
    Records q (ret a es) ↔ ∀ e ∈ es, q e := by
  constructor
  · intro h
    exact h a es rfl
  · intro h b fs heq
    rw [ret.injEq] at heq
    exact heq.2 ▸ h

@[simp] theorem records_abort : Records q (abort : Run ε α) := by
  intro a es h
  cases h

@[simp] theorem records_pure (a : α) : Records q (pure a : Run ε α) := by
  rw [pure_def, records_ret]
  exact fun e he => absurd he List.not_mem_nil

@[simp] theorem records_emit {e : ε} : Records q (emit e) ↔ q e := by
  rw [emit, records_ret, List.forall_mem_singleton]

@[simp] theorem records_lift (o : Option α) : Records q (lift o : Run ε α) := by
  cases o with
  | none => exact records_abort
  | some a => exact records_pure a

theorem Records.yields {m : Run ε α} (h : Records q m) {q' : ε → Prop} {a : α}
    (ha : Yields q' m a) : Yields q m a := by
  obtain ⟨es, hm, -⟩ := ha
  exact ⟨es, hm, h a es hm⟩

theorem Records.bind {m : Run ε α} {f : α → Run ε β} (hm : Records q m)
    (hf : ∀ a, Yields q m a → Records q (f a)) : Records q (m >>= f) := by
  intro b es h e he
  obtain ⟨a, es₁, es₂, hret, hfa, rfl⟩ := bind_eq_ret.1 h
  rcases List.mem_append.1 he with he | he
  · exact hm a es₁ hret e he
  · exact hf a ⟨es₁, hret, hm a es₁ hret⟩ b es₂ hfa e he

/-- What is done with the value of a run records nothing. -/
@[simp] theorem records_map {m : Run ε α} {f : α → β} : Records q (f <$> m) ↔ Records q m := by
  cases m with
  | abort => exact iff_of_true records_abort records_abort
  | ret a es =>
    rw [map_ret, records_ret, records_ret]

theorem records_bind_pure {m : Run ε α} {f : α → β} :
    Records q (m >>= fun a => pure (f a)) ↔ Records q m := by
  rw [bind_pure_comp, records_map]

theorem Records.mono {q' : ε → Prop} {m : Run ε α} (h : Records q m) (hq : ∀ e, q e → q' e) :
    Records q' m := fun a es hm e he => hq e (h a es hm e he)

@[simp] theorem records_collect {f : α → Run ε (Option β)} {xs : List α}
    (h : ∀ x ∈ xs, Records q (f x)) : Records q (collect f xs) := by
  induction xs with
  | nil => exact records_pure []
  | cons x xs ih =>
    rw [collect_cons]
    refine (h x List.mem_cons_self).bind fun o _ => ?_
    rw [records_bind_pure]
    exact ih fun y hy => h y (List.mem_cons_of_mem x hy)

/-! ## Two runs that differ in the order of their events -/

/-- Both runs are aborted, or both return, with related values and the same events in some
order. -/
def Sim (R : α → β → Prop) (m : Run ε α) (n : Run ε β) : Prop :=
  (m = abort ∧ n = abort) ∨ ∃ a es b fs, m = ret a es ∧ n = ret b fs ∧ R a b ∧ es.Perm fs

variable {R : α → β → Prop} {S : γ → δ → Prop}

theorem sim_pure {a : α} {b : β} (h : R a b) : Sim R (pure a : Run ε α) (pure b) :=
  Or.inr ⟨a, [], b, [], rfl, rfl, h, .nil⟩

theorem Sim.of_ret {a : α} {es : List ε} {n : Run ε α} (h : Sim Eq (ret a es) n) :
    ∃ fs, n = ret a fs ∧ es.Perm fs := by
  rcases h with ⟨habort, -⟩ | ⟨b, es', c, fs, hb, rfl, rfl, hperm⟩
  · cases habort
  · obtain ⟨rfl, rfl⟩ := ret.inj hb
    exact ⟨fs, rfl, hperm⟩

/-- A run is the pure one if what follows it gives the same as behind the pure one, and shows which
value it was given. -/
theorem eq_pure_of_sim_bind {m : Run ε α} {a : α} {f : α → Run ε β} {b : β}
    (hb : Yields (fun _ => True) (f a) b)
    (hfrom : ∀ a', Yields (fun _ => True) (f a') b → a' = a) (h : Sim Eq (f a) (m >>= f)) :
    m = pure a := by
  obtain ⟨es, hes, -⟩ := hb
  obtain ⟨fs, hright, hperm⟩ := Sim.of_ret (hes ▸ h)
  obtain ⟨a', es₁, es₂, rfl, htail, rfl⟩ := bind_eq_ret.1 hright
  obtain rfl := hfrom a' ⟨es₂, htail, fun _ _ => trivial⟩
  obtain ⟨-, rfl⟩ := ret.inj (hes.symm.trans htail)
  rw [List.nil_perm.1 ((List.perm_append_right_iff es).1 hperm)]
  rfl

theorem Sim.bind {m : Run ε α} {n : Run ε β} {f : α → Run ε γ} {g : β → Run ε δ}
    (hm : Sim R m n) (hf : ∀ a b, R a b → Sim S (f a) (g b)) : Sim S (m >>= f) (n >>= g) := by
  rcases hm with ⟨rfl, rfl⟩ | ⟨a, es, b, fs, rfl, rfl, hR, hp⟩
  · exact Or.inl ⟨rfl, rfl⟩
  · show Sim S (Run.bind _ f) (Run.bind _ g)
    rcases hf a b hR with ⟨ha, hb⟩ | ⟨c, es', d, fs', ha, hb, hS, hp'⟩
    · exact Or.inl ⟨by simp [Run.bind, ha], by simp [Run.bind, hb]⟩
    · exact Or.inr ⟨c, es ++ es', d, fs ++ fs', by simp [Run.bind, ha], by simp [Run.bind, hb],
        hS, hp.append hp'⟩

theorem Sim.mono {R' : α → β → Prop} {m : Run ε α} {n : Run ε β} (h : Sim R m n)
    (hR : ∀ a b, R a b → R' a b) : Sim R' m n := by
  rcases h with h | ⟨a, es, b, fs, hm, hn, hab, hp⟩
  · exact Or.inl h
  · exact Or.inr ⟨a, es, b, fs, hm, hn, hR a b hab, hp⟩

/-- What is known of the first run is known of both. -/
theorem Sim.with_left {I : α → Prop} {m : Run ε α} {n : Run ε β} (h : Sim R m n)
    (hI : ∀ a, Yields (fun _ => True) m a → I a) : Sim (fun a b => R a b ∧ I a) m n := by
  rcases h with h | ⟨a, es, b, fs, hm, hn, hab, hp⟩
  · exact Or.inl h
  · exact Or.inr ⟨a, es, b, fs, hm, hn, ⟨hab, hI a ⟨es, hm, fun _ _ => trivial⟩⟩, hp⟩

theorem Sim.collect {ι κ : Type} {Q : ι → κ → Prop} {f : ι → Run ε (Option α)}
    {g : κ → Run ε (Option β)} {xs : List ι} {ys : List κ} (h : List.Forall₂ Q xs ys)
    (hf : ∀ x y, Q x y → Sim (Option.Rel R) (f x) (g y)) :
    Sim (List.Forall₂ R) (collect f xs) (collect g ys) := by
  induction h with
  | nil => exact sim_pure .nil
  | cons hxy _ ih =>
    refine (hf _ _ hxy).bind fun o o' ho => ih.bind fun bs cs hbs => sim_pure ?_
    cases ho with
    | none => exact hbs
    | some hab => exact .cons hab hbs

theorem sim_refl (m : Run ε α) : Sim Eq m m := by
  cases m with
  | abort => exact Or.inl ⟨rfl, rfl⟩
  | ret a es => exact Or.inr ⟨a, es, a, es, rfl, rfl, rfl, .refl es⟩

theorem Sim.comp {T : β → γ → Prop} {m : Run ε α} {n : Run ε β} {k : Run ε γ} (h : Sim R m n)
    (h' : Sim T n k) : Sim (Relation.Comp R T) m k := by
  rcases h with ⟨rfl, rfl⟩ | ⟨a, es, b, fs, rfl, rfl, hab, hp⟩
  · rcases h' with h' | ⟨a, es, b, fs, hm, -⟩
    · exact Or.inl ⟨rfl, h'.2⟩
    · cases hm
  · rcases h' with ⟨hm, -⟩ | ⟨c, es', d, fs', hm, rfl, hcd, hp'⟩
    · cases hm
    · rw [ret.injEq] at hm
      obtain ⟨rfl, rfl⟩ := hm
      exact Or.inr ⟨a, es, d, fs', rfl, rfl, ⟨b, hab, hcd⟩, hp.trans hp'⟩

theorem Sim.trans {m n k : Run ε α} (h : Sim Eq m n) (h' : Sim Eq n k) : Sim Eq m k :=
  (h.comp h').mono fun _ _ hac => by
    obtain ⟨b, rfl, rfl⟩ := hac
    rfl

theorem Sim.symm {m : Run ε α} {n : Run ε β} (h : Sim R m n) : Sim (flip R) n m := by
  rcases h with h | ⟨a, es, b, fs, hm, hn, hab, hp⟩
  · exact Or.inl h.symm
  · exact Or.inr ⟨b, fs, a, es, hn, hm, hab, hp.symm⟩

theorem sim_map_iff {m : Run ε α} {n : Run ε β} {f : α → γ} {g : β → γ} :
    Sim Eq (f <$> m) (g <$> n) ↔ Sim (fun a b => f a = g b) m n := by
  cases m with
  | abort =>
    cases n with
    | abort => exact iff_of_true (Or.inl ⟨rfl, rfl⟩) (Or.inl ⟨rfl, rfl⟩)
    | ret b fs => simp [Sim, map_abort, map_ret]
  | ret a es =>
    cases n with
    | abort => simp [Sim, map_abort, map_ret]
    | ret b fs => simp [Sim, map_ret, eq_comm]

/-- Two runs that do not depend on each other may change places. -/
theorem sim_comm (m : Run ε α) (n : Run ε β) (f : α → β → γ) :
    Sim Eq (do let a ← m; let b ← n; return f a b) (do let b ← n; let a ← m; return f a b) := by
  show Sim Eq (Run.bind m fun a => Run.bind n fun b => Run.pure (f a b))
    (Run.bind n fun b => Run.bind m fun a => Run.pure (f a b))
  cases m with
  | abort => cases n <;> exact Or.inl ⟨rfl, rfl⟩
  | ret a es =>
    cases n with
    | abort => exact Or.inl ⟨rfl, rfl⟩
    | ret b fs =>
      refine Or.inr ⟨f a b, es ++ (fs ++ []), f a b, fs ++ (es ++ []), rfl, rfl, rfl, ?_⟩
      simpa using List.perm_append_comm

/-- A loop whose turns are related one by one. -/
theorem Sim.foldlM_rel {ι κ : Type} {Q : ι → κ → Prop} {f : α → ι → Run ε α} {g : β → κ → Run ε β}
    {xs : List ι} {ys : List κ} (h : List.Forall₂ Q xs ys)
    (hf : ∀ a b x y, R a b → Q x y → Sim R (f a x) (g b y)) {a : α} {b : β} (hab : R a b) :
    Sim R (xs.foldlM f a) (ys.foldlM g b) := by
  induction h generalizing a b with
  | nil => exact sim_pure hab
  | cons hxy _ ih =>
    rw [List.foldlM_cons, List.foldlM_cons]
    exact (hf a b _ _ hab hxy).bind fun a' b' hab' => ih hab'

/-- A loop whose turns are the same one by one. -/
theorem Sim.foldlM {ι κ : Type} {Q : ι → κ → Prop} {f : α → ι → Run ε α} {g : α → κ → Run ε α}
    {xs : List ι} {ys : List κ} (h : List.Forall₂ Q xs ys)
    (hf : ∀ a x y, Q x y → Sim Eq (f a x) (g a y)) (a : α) :
    Sim Eq (xs.foldlM f a) (ys.foldlM g a) :=
  .foldlM_rel h (fun a _ x y hab hxy => hab ▸ hf a x y hxy) rfl

/-- **A loop whose turns may change places, unless they have the same key, may run over its
elements in any order.** -/
theorem Sim.foldlM_shuffle {ι κ : Type} {key : ι → κ} {f : α → ι → Run ε α}
    (hcomm : ∀ a x y, key x ≠ key y →
      Sim Eq (f a x >>= fun b => f b y) (f a y >>= fun b => f b x))
    {xs ys : List ι} (h : Shuffle key xs ys) (a : α) :
    Sim Eq (xs.foldlM f a) (ys.foldlM f a) := by
  induction h generalizing a with
  | refl xs => exact sim_refl _
  | cons x _ ih =>
    rw [List.foldlM_cons, List.foldlM_cons]
    refine (sim_refl (f a x)).bind fun b c hbc => ?_
    subst hbc
    exact ih b
  | @swap x y h xs =>
    simp only [List.foldlM_cons, ← bind_assoc]
    refine (hcomm a x y h).bind fun b c hbc => ?_
    subst hbc
    exact sim_refl _
  | trans _ _ ih ih' => exact (ih a).trans (ih' a)

/-- What the elements of an array give keeps its order where they keep theirs, if it is told apart
as they are. -/
theorem sim_collect_shuffle {ι κ : Type} {f : ι → Run ε (Option β)} {key : ι → κ} {key' : β → κ}
    (hkey : ∀ x b, Yields (fun _ => True) (f x) (some b) → key' b = key x) {xs ys : List ι}
    (h : Shuffle key xs ys) : Sim (Shuffle key') (collect f xs) (collect f ys) := by
  induction h with
  | refl xs => exact (sim_refl _).mono fun bs cs hbs => hbs ▸ .refl bs
  | cons x _ ih =>
    refine (sim_refl (f x)).bind fun o o' ho => ih.bind fun bs cs hbs => sim_pure ?_
    subst ho
    cases o with
    | none => exact hbs
    | some b => exact .cons b hbs
  | @swap x y h xs =>
    simp only [collect_cons]
    have hboth := (sim_comm (f x) (f y) fun o o' => (o, o')).with_left
      (I := fun p => ∀ b b', p.1 = some b → p.2 = some b' → key' b ≠ key' b') fun p hp => by
        obtain ⟨o, ho, hp⟩ := yields_bind.1 hp
        obtain ⟨o', ho', hp⟩ := yields_bind.1 hp
        obtain rfl := yields_pure.1 hp
        rintro b b' rfl rfl
        rwa [hkey x b ho, hkey y b' ho']
    have hrest : ∀ p p' : Option β × Option β,
        (p = p' ∧ ∀ b b', p.1 = some b → p.2 = some b' → key' b ≠ key' b') → Sim (Shuffle key')
          (collect f xs >>= fun bs => pure (p.1.toList ++ (p.2.toList ++ bs)))
          (collect f xs >>= fun bs => pure (p'.2.toList ++ (p'.1.toList ++ bs))) := by
      rintro ⟨o, o'⟩ _ ⟨rfl, hne⟩
      refine (sim_refl _).bind fun bs cs hbs => sim_pure ?_
      subst hbs
      cases o with
      | none => exact .refl _
      | some b =>
        cases o' with
        | none => exact .refl _
        | some b' => exact .swap (hne b b' rfl rfl) bs
    have hall := hboth.bind hrest
    simpa only [bind_assoc, pure_bind] using hall
  | trans _ _ ih ih' =>
    refine (ih.comp ih').mono fun a c hac => ?_
    obtain ⟨b, hab, hbc⟩ := hac
    exact .trans hab hbc

/-! ## Some of the events -/

/-- The run, with those events only. -/
def only (keep : ε → Bool) : Run ε α → Run ε α
  | abort => abort
  | ret a es => ret a (es.filter keep)

variable {keep : ε → Bool}

@[simp] theorem only_pure (a : α) : (pure a : Run ε α).only keep = pure a := rfl

@[simp] theorem only_emit_of_not {e : ε} (h : keep e = false) : (emit e).only keep = pure () := by
  rw [emit, only, List.filter_cons_of_neg (by simp [h]), List.filter_nil]
  rfl

@[simp] theorem only_bind (m : Run ε α) (f : α → Run ε β) :
    (m >>= f).only keep = m.only keep >>= fun a => (f a).only keep := by
  show only keep (Run.bind m f) = Run.bind (m.only keep) fun a => (f a).only keep
  cases m with
  | abort => rfl
  | ret a es =>
    simp only [only, Run.bind]
    cases f a with
    | abort => rfl
    | ret b fs => simp

theorem only_map (f : α → β) (m : Run ε α) : (f <$> m).only keep = f <$> m.only keep := by
  cases m with
  | abort => rfl
  | ret a es => rw [only, map_ret, map_ret, only]

theorem sim_only_iff {m : Run ε α} {n : Run ε β} : Sim R (m.only keep) (n.only keep) ↔
    (m = abort ∧ n = abort) ∨ ∃ a es b fs, m = ret a es ∧ n = ret b fs ∧ R a b ∧
      (es.filter keep).Perm (fs.filter keep) := by
  cases m with
  | abort => cases n <;> simp [Sim, only]
  | ret a es => cases n <;> simp [Sim, only]

/-- What is returned does not depend on which events are looked at. -/
theorem yields_only {m : Run ε α} {a : α} :
    Yields (fun _ => True) (m.only keep) a ↔ Yields (fun _ => True) m a := by
  cases m with
  | abort => exact Iff.rfl
  | ret b es => simp [only, Yields]

/-- A run that records none of the events that are looked at. -/
theorem only_eq_pure_iff {m : Run ε α} {a : α} :
    m.only keep = pure a ↔ Yields (fun e => keep e = false) m a := by
  cases m with
  | abort => exact iff_of_false (fun h => by cases h) not_yields_abort
  | ret b es =>
    show Run.ret b (es.filter keep) = Run.ret a [] ↔ ∃ fs, Run.ret b es = Run.ret a fs ∧ _
    simp

theorem Sim.only {m : Run ε α} {n : Run ε β} (h : Sim R m n) : Sim R (m.only keep) (n.only keep) := by
  rcases h with ⟨rfl, rfl⟩ | ⟨a, es, b, fs, rfl, rfl, hab, hp⟩
  · exact Or.inl ⟨rfl, rfl⟩
  · exact Or.inr ⟨a, es.filter keep, b, fs.filter keep, rfl, rfl, hab, hp.filter keep⟩

/-- A loop whose turns return under conditions that do not depend on what is carried. -/
theorem ReturnsIff.foldlM {ι : Type} {f : α → ι → Run ε α} {P : ι → Prop} {xs : List ι}
    (h : ∀ x ∈ xs, ∀ a, ReturnsIff q (f a x) (P x)) (a : α) :
    ReturnsIff q (xs.foldlM f a) (∀ x ∈ xs, P x) := by
  induction xs generalizing a with
  | nil => exact (returnsIff_pure a).congr (by simp)
  | cons x xs ih =>
    rw [List.foldlM_cons]
    refine ((h x List.mem_cons_self a).bind fun b _ =>
      ih (fun y hy => h y (List.mem_cons_of_mem _ hy)) b).congr ?_
    simp

end Run

end Lib
