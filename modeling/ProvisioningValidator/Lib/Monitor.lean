import Mathlib

/-!
# Monitors

Threads that share a state behind one mutex and one condition variable. An operation locks the
mutex, waits on the condition variable for as long as it cannot be done, is done in one critical
section, and unlocks; some operations notify one waiting thread afterwards.

* `Monitor.Step` — one step of one thread; threads call operations as they like, wake up without
  being notified, and the mutex goes to any thread that asks for it;
* `Monitor.Reachable.exclusive` — one thread at most is inside;
* `Monitor.Reachable.replays` — whatever the interleaving, the operations take effect one after the
  other, as a sequential execution in the order of the log;
* `Monitor.Reachable.attended` — where every operation that may wait takes one token, and notifying
  ones provide one at most, no thread is left waiting while there are tokens and nobody is about to
  act on them.
-/

namespace Lib

/-- What the operations do under the lock: nothing yet, where they have to wait, or a new state and
a result. -/
structure Monitor (Op σ β : Type) where
  run : Op → σ → Option (σ × β)
  notifies : Op → Bool

namespace Monitor

variable {ι Op σ β : Type}

/-- Where a thread is. -/
inductive Phase (Op : Type) where
  | idle
  /-- It asks for the mutex. -/
  | entering (op : Op)
  /-- It holds the mutex, and is about to see if the operation can be done. -/
  | inside (op : Op)
  /-- It waits on the condition variable. -/
  | waiting (op : Op)
  /-- It was woken up, and asks for the mutex again. -/
  | woken (op : Op)
  /-- It has done the operation and has unlocked the mutex, and is about to notify. -/
  | notifying

/-- The shared state, the holder of the mutex, the threads, and the operations that were done,
oldest first. -/
structure State (ι Op σ β : Type) where
  shared : σ
  holder : Option ι := none
  phase : ι → Phase Op := fun _ => .idle
  log : List (ι × Op × β) := []

variable [DecidableEq ι]

/-- A thread gets into another phase. -/
def State.move (s : State ι Op σ β) (t : ι) (p : Phase Op) : State ι Op σ β :=
  { s with phase := Function.update s.phase t p }

@[simp] theorem State.shared_move (s : State ι Op σ β) (t : ι) (p : Phase Op) :
    (s.move t p).shared = s.shared := rfl

@[simp] theorem State.holder_move (s : State ι Op σ β) (t : ι) (p : Phase Op) :
    (s.move t p).holder = s.holder := rfl

@[simp] theorem State.log_move (s : State ι Op σ β) (t : ι) (p : Phase Op) :
    (s.move t p).log = s.log := rfl

@[simp] theorem State.phase_move (s : State ι Op σ β) (t : ι) (p : Phase Op) (u : ι) :
    (s.move t p).phase u = if u = t then p else s.phase u :=
  Function.update_apply s.phase t p u

variable (M : Monitor Op σ β)

/-- One step of one thread. -/
inductive Step : State ι Op σ β → State ι Op σ β → Prop
  | call (s : State ι Op σ β) (t : ι) (op : Op) (h : s.phase t = .idle) :
      Step s (s.move t (.entering op))
  | lock (s : State ι Op σ β) (t : ι) (op : Op)
      (h : s.phase t = .entering op ∨ s.phase t = .woken op) (hfree : s.holder = none) :
      Step s { s.move t (.inside op) with holder := some t }
  /-- `wait` unlocks the mutex and blocks, in one step. -/
  | block (s : State ι Op σ β) (t : ι) (op : Op) (h : s.phase t = .inside op)
      (hrun : M.run op s.shared = none) :
      Step s { s.move t (.waiting op) with holder := none }
  | done (s : State ι Op σ β) (t : ι) (op : Op) (shared : σ) (b : β) (h : s.phase t = .inside op)
      (hrun : M.run op s.shared = some (shared, b)) :
      Step s { s.move t (if M.notifies op = true then .notifying else .idle) with
        shared := shared, holder := none, log := s.log ++ [(t, op, b)] }
  /-- `notify_one` wakes up any one of the waiting threads. -/
  | notify (s : State ι Op σ β) (t u : ι) (op : Op) (h : s.phase t = .notifying)
      (hu : s.phase u = .waiting op) : Step s ((s.move t .idle).move u (.woken op))
  /-- `notify_one` without a waiting thread. -/
  | unheard (s : State ι Op σ β) (t : ι) (h : s.phase t = .notifying)
      (hnone : ∀ u op, s.phase u ≠ .waiting op) : Step s (s.move t .idle)
  | spurious (s : State ι Op σ β) (u : ι) (op : Op) (hu : s.phase u = .waiting op) :
      Step s (s.move u (.woken op))

/-- What can come of the state in which no thread has called anything. -/
def Reachable (start : σ) (s : State ι Op σ β) : Prop :=
  Relation.ReflTransGen M.Step { shared := start } s

/-- An invariant holds of every reachable state. -/
theorem Reachable.induct {M : Monitor Op σ β} {start : σ} {P : State ι Op σ β → Prop}
    (hstart : P { shared := start }) (hstep : ∀ s s', P s → M.Step s s' → P s')
    {s : State ι Op σ β} (h : M.Reachable start s) : P s := by
  induction h with
  | refl => exact hstart
  | tail _ hs ih => exact hstep _ _ ih hs

/-- The monitor for threads that call some of the operations only. -/
def restrict (calls : Op → Prop) : Monitor {op : Op // calls op} σ β where
  run := fun op => M.run op.1
  notifies := fun op => M.notifies op.1

variable {M} {s s' : State ι Op σ β} {start : σ}

theorem Reachable.refl : M.Reachable start ({ shared := start } : State ι Op σ β) :=
  Relation.ReflTransGen.refl

/-- **Where nobody is about to act**, the next step is a call, or a thread wakes up by itself. -/
theorem Step.of_rest (h : M.Step s s')
    (hrest : ∀ t, s.phase t = .idle ∨ ∃ op, s.phase t = .waiting op) :
    (∃ t op, s.phase t = .idle ∧ s' = s.move t (.entering op)) ∨
      ∃ t op, s.phase t = .waiting op ∧ s' = s.move t (.woken op) := by
  have hother : ∀ t p, s.phase t = p → p = .idle ∨ ∃ op, p = .waiting op := by
    rintro t p rfl
    exact hrest t
  cases h with
  | call t op h => exact Or.inl ⟨t, op, h, rfl⟩
  | spurious u op hu => exact Or.inr ⟨u, op, hu, rfl⟩
  | lock t op h => rcases h with h | h <;> simpa using hother t _ h
  | block t op h => simpa using hother t _ h
  | done t op shared b h => simpa using hother t _ h
  | notify t u op h => simpa using hother t _ h
  | unheard t h => simpa using hother t _ h

theorem Reachable.step (h : M.Reachable start s) (hs : M.Step s s') : M.Reachable start s' :=
  h.tail hs

/-! ## One thread at a time -/

/-- The thread inside is the one that holds the mutex. -/
def Exclusive (s : State ι Op σ β) : Prop :=
  ∀ t, s.holder = some t ↔ ∃ op, s.phase t = .inside op

/-- A thread that was not inside moves on, and not inside. -/
theorem exclusive_move {t : ι} {p : Phase Op} (hs : Exclusive s)
    (ht : ∀ op, s.phase t ≠ .inside op) (hp : ∀ op, p ≠ .inside op) : Exclusive (s.move t p) := by
  intro u
  rw [State.holder_move, hs u, State.phase_move]
  split_ifs with hut
  · subst hut
    simp [ht, hp]
  · rfl

/-- The thread inside unlocks the mutex. -/
theorem exclusive_unlock {t : ι} {op : Op} {p : Phase Op} (hs : Exclusive s)
    (ht : s.phase t = .inside op) (hp : ∀ op, p ≠ .inside op) (shared : σ)
    (log : List (ι × Op × β)) :
    Exclusive { s.move t p with shared := shared, holder := none, log := log } := by
  intro u
  have hholder : s.holder = some t := (hs t).2 ⟨op, ht⟩
  refine iff_of_false nofun ?_
  rintro ⟨op', hu⟩
  by_cases hut : u = t
  · subst hut
    exact hp op' (by simpa using hu)
  · have hinside : s.phase u = .inside op' := by simpa [hut] using hu
    have hother := (hs u).2 ⟨op', hinside⟩
    rw [hholder, Option.some.injEq] at hother
    exact hut hother.symm

theorem exclusive_step (hs : Exclusive s) (h : M.Step s s') : Exclusive s' := by
  cases h with
  | call t op h => exact exclusive_move hs (by simp [h]) (by simp)
  | lock t op h hfree =>
    intro u
    by_cases hut : u = t
    · subst hut
      exact iff_of_true rfl ⟨op, by simp⟩
    · have hu : ¬ ∃ op, s.phase u = .inside op := by
        rw [← hs u, hfree]
        exact nofun
      refine iff_of_false (fun h => hut (Option.some.inj h).symm) ?_
      simpa [hut] using hu
  | block t op h hrun => exact exclusive_unlock hs h (by simp) s.shared s.log
  | done t op shared b h hrun =>
    refine exclusive_unlock hs h (fun op' => ?_) shared _
    split_ifs <;> simp
  | notify t u op h hu =>
    have hmoved : Exclusive (s.move t .idle) := exclusive_move hs (by simp [h]) (by simp)
    refine exclusive_move hmoved (fun op' => ?_) (by simp)
    rw [State.phase_move]
    split_ifs <;> simp [hu]
  | unheard t h hnone => exact exclusive_move hs (by simp [h]) (by simp)
  | spurious u op hu => exact exclusive_move hs (by simp [hu]) (by simp)

/-- **One thread at most is inside, and it holds the mutex.** -/
theorem Reachable.exclusive (h : M.Reachable start s) : Exclusive s :=
  h.induct (fun _ => iff_of_false nofun nofun) fun _ _ => exclusive_step

/-! ## One operation after the other -/

/-- The operations, done one after the other from a state, with these results. -/
inductive Replays (M : Monitor Op σ β) (start : σ) : List (ι × Op × β) → σ → Prop
  | nil : Replays M start [] start
  | snoc {log : List (ι × Op × β)} {shared shared' : σ} {t : ι} {op : Op} {b : β}
      (h : Replays M start log shared) (hrun : M.run op shared = some (shared', b)) :
      Replays M start (log ++ [(t, op, b)]) shared'

theorem replays_step (hs : M.Replays start s.log s.shared) (h : M.Step s s') :
    M.Replays start s'.log s'.shared := by
  cases h with
  | done t op shared b h hrun => exact .snoc hs hrun
  | _ => exact hs

/-- **Every interleaving is a sequential execution**: the shared state and the results are those of
the operations done one after the other in the order of the log. -/
theorem Reachable.replays (h : M.Reachable start s) : M.Replays start s.log s.shared :=
  h.induct .nil fun _ _ => replays_step

/-! ## Tokens -/

/-- Operations that may have to wait take a token each and wait only when there is none; the others
provide one at most, and those that provide one notify. -/
structure Tokens (M : Monitor Op σ β) (tokens : σ → ℕ) : Prop where
  waits : ∀ op shared, M.run op shared = none → tokens shared = 0
  takes : ∀ op shared shared' b, (∃ other, M.run op other = none) →
    M.run op shared = some (shared', b) → tokens shared' + 1 ≤ tokens shared
  provides : ∀ op shared shared' b, M.run op shared = some (shared', b) →
    tokens shared' ≤ tokens shared + if M.notifies op = true then 1 else 0

/-- The thread is about to act on a token: to notify, or to take it. -/
def Attends (M : Monitor Op σ β) : Phase Op → Prop
  | .notifying => True
  | .woken _ => True
  | .inside op => ∃ shared, M.run op shared = none
  | _ => False

open Classical in
/-- The threads that are about to act on a token. -/
noncomputable def attending [Fintype ι] (M : Monitor Op σ β) (s : State ι Op σ β) : Finset ι :=
  Finset.univ.filter fun t => M.Attends (s.phase t)

/-- Where a thread waits, there are not more tokens than threads that are about to act on one. -/
def Attended [Fintype ι] (M : Monitor Op σ β) (tokens : σ → ℕ) (s : State ι Op σ β) : Prop :=
  (∃ t op, s.phase t = .waiting op) → tokens s.shared ≤ (M.attending s).card

/-- The operations that threads wait for, or were woken up from, are those that may have to wait. -/
def Waited (M : Monitor Op σ β) (s : State ι Op σ β) : Prop :=
  ∀ t op, s.phase t = .waiting op ∨ s.phase t = .woken op → ∃ shared, M.run op shared = none

theorem waited_step (hs : M.Waited s) (h : M.Step s s') : M.Waited s' := by
  -- The other threads are where they were.
  have moved : ∀ {t : ι} {p : Phase Op},
      (∀ op, p = .waiting op ∨ p = .woken op → ∃ shared, M.run op shared = none) →
        M.Waited (s.move t p) := by
    intro t p hp u op hu
    rw [State.phase_move] at hu
    split_ifs at hu
    · exact hp op hu
    · exact hs u op hu
  cases h with
  | call t op h => exact moved (by simp)
  | lock t op h hfree => exact moved (by simp)
  | block t op h hrun =>
    refine moved fun op' h' => ?_
    obtain rfl : op = op' := by simpa using h'
    exact ⟨_, hrun⟩
  | done t op shared b h hrun =>
    refine moved fun op' h' => ?_
    split_ifs at h' <;> simp at h'
  | notify t u op h hu =>
    intro v op' hv
    rw [State.phase_move] at hv
    split_ifs at hv with hvu
    · obtain rfl : op = op' := by simpa using hv
      exact hs u op (.inl hu)
    · exact moved (p := .idle) (by simp) v op' hv
  | unheard t h hnone => exact moved (by simp)
  | spurious u op hu =>
    refine moved fun op' h' => ?_
    obtain rfl : op = op' := by simpa using h'
    exact hs u op (.inl hu)

theorem Reachable.waited (h : M.Reachable start s) : M.Waited s :=
  h.induct (fun _ _ => by simp) fun _ _ => waited_step

/-- A thread that waits after the move of another one waited before it. -/
theorem waiting_of_move {t : ι} {p : Phase Op} (hp : ∀ op, p ≠ .waiting op)
    (h : ∃ u op, (s.move t p).phase u = .waiting op) : ∃ u op, s.phase u = .waiting op := by
  obtain ⟨u, op, hu⟩ := h
  rw [State.phase_move] at hu
  split_ifs at hu
  · exact absurd hu (hp op)
  · exact ⟨u, op, hu⟩

section Attended

variable [Fintype ι]

omit [DecidableEq ι] in
theorem mem_attending {t : ι} : t ∈ M.attending s ↔ M.Attends (s.phase t) := by
  simp [attending]

/-- A thread that moves is the only one that may stop acting on a token. -/
theorem attending_move (t : ι) (p : Phase Op) :
    (M.attending s).card ≤ (M.attending (s.move t p)).card + 1 := by
  refine (Finset.card_le_card fun u hu => ?_).trans (Finset.card_insert_le t _)
  rw [Finset.mem_insert, mem_attending, State.phase_move]
  by_cases hut : u = t
  · exact .inl hut
  · exact .inr (by simpa [hut] using mem_attending.1 hu)

/-- It does not, where it did not act on one or still does. -/
theorem attending_subset {t : ι} {p : Phase Op} (h : M.Attends (s.phase t) → M.Attends p) :
    M.attending s ⊆ M.attending (s.move t p) := by
  intro u hu
  rw [mem_attending] at hu ⊢
  rw [State.phase_move]
  split_ifs with hut
  · exact h (hut ▸ hu)
  · exact hu

/-- There is one more, where it acts on one only now. -/
theorem attending_more {t : ι} {p : Phase Op} (h : ¬ M.Attends (s.phase t)) (hp : M.Attends p) :
    (M.attending s).card + 1 ≤ (M.attending (s.move t p)).card := by
  rw [← Finset.card_insert_of_notMem (mt mem_attending.1 h)]
  refine Finset.card_le_card (Finset.insert_subset ?_ (attending_subset fun h' => absurd h' h))
  simpa [mem_attending] using hp

variable {tokens : σ → ℕ}

theorem attended_step (hM : M.Tokens tokens) (hwaited : M.Waited s) (hs : M.Attended tokens s)
    (h : M.Step s s') : M.Attended tokens s' := by
  cases h with
  | call t op h =>
    intro hw
    refine (hs (waiting_of_move (by simp) hw)).trans (Finset.card_le_card (attending_subset ?_))
    simp [h, Attends]
  | lock t op h hfree =>
    intro hw
    refine (hs (waiting_of_move (by simp) hw)).trans (Finset.card_le_card (attending_subset ?_))
    obtain h | h := h
    · simp [h, Attends]
    · exact fun _ => hwaited t op (.inr h)
  | block t op h hrun =>
    intro _
    exact (hM.waits op _ hrun).le.trans (Nat.zero_le _)
  | done t op shared b h hrun =>
    intro hw
    have hbefore := hs (waiting_of_move (by split_ifs <;> simp) hw)
    show tokens shared ≤ (M.attending (s.move t _)).card
    by_cases hwaits : ∃ other, M.run op other = none
    · -- It took a token, and does not act on one any more.
      have htaken := hM.takes op _ shared b hwaits hrun
      have hcard := attending_move (M := M) (s := s) t
        (if M.notifies op = true then .notifying else .idle)
      omega
    · -- It did not act on a token, and does where it provided one.
      have hprovided := hM.provides op _ shared b hrun
      have hidle : ¬ M.Attends (s.phase t) := by simpa [h, Attends] using hwaits
      by_cases hnotifies : M.notifies op = true
      · rw [if_pos hnotifies] at hprovided ⊢
        have hcard := attending_more hidle (p := .notifying) trivial
        omega
      · rw [if_neg hnotifies] at hprovided ⊢
        have hcard := Finset.card_le_card (attending_subset (M := M) (p := .idle)
          fun h' => absurd h' hidle)
        omega
  | notify t u op h hu =>
    intro _
    -- One thread stops acting on a token, and another one starts.
    have hut : u ≠ t := by
      rintro rfl
      simp [h] at hu
    have hless := attending_move (M := M) (s := s) t .idle
    have hmore := attending_more (M := M) (s := s.move t .idle) (t := u) (p := .woken op)
      (by simp [hut, hu, Attends]) trivial
    have hbefore := hs ⟨u, op, hu⟩
    show tokens s.shared ≤ _
    omega
  | unheard t h hnone =>
    intro hw
    obtain ⟨u, op, hu⟩ := waiting_of_move (by simp) hw
    exact absurd hu (hnone u op)
  | spurious u op hu =>
    intro _
    refine (hs ⟨u, op, hu⟩).trans (Finset.card_le_card (attending_subset ?_))
    simp [hu, Attends]

/-- **No wake-up is lost**: while a thread waits there are never more tokens than threads that are
about to act on one. -/
theorem Reachable.attended (hM : M.Tokens tokens) (h : M.Reachable start s) :
    M.Attended tokens s := by
  induction h with
  | refl =>
    rintro ⟨t, op, ht⟩
    simp at ht
  | tail hreach hstep ih => exact attended_step hM (Reachable.waited hreach) ih hstep

/-- Once everybody is at rest, nobody waits while there is a token. -/
theorem Reachable.tokens_of_rest (hM : M.Tokens tokens) (h : M.Reachable start s)
    (hrest : ∀ t, s.phase t = .idle ∨ ∃ op, s.phase t = .waiting op)
    (hwaits : ∃ t op, s.phase t = .waiting op) : tokens s.shared = 0 := by
  have hnobody : M.attending s = ∅ := by
    refine Finset.eq_empty_of_forall_notMem fun t ht => ?_
    rw [mem_attending] at ht
    obtain h | ⟨op, h⟩ := hrest t
    · simp [h, Attends] at ht
    · simp [h, Attends] at ht
  simpa [hnobody] using h.attended hM hwaits

end Attended

end Monitor

end Lib
