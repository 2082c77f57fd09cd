import Mathlib
import ProvisioningValidator.Lib.Monitor

/-!
# The queue behind a lock

`LockQueue` of the entities: a queue, its mutex and its condition variable.

**Theorems**:
* `lockQueue_fifo` — under every interleaving of every set of threads, what was pushed is what was
  popped followed by what is still queued, in order, and every value that came back was the next
  one to be popped.
* `lockQueue_wakes` — as long as nobody calls `front`, no thread is left waiting for a value that is
  there; with `front`, one can be.
-/

namespace ProvisioningValidator

open Lib

variable {ι T : Type}

inductive QueueOperation (T : Type) where
  | front
  | pop
  | push (item : T)
  deriving DecidableEq

/-- What each operation does under the lock. `push` unlocks first and notifies afterwards. -/
def lockQueue (T : Type) : Monitor (QueueOperation T) (List T) (Option T) where
  run
    | .front, [] => none
    | .front, val :: queue => some (val :: queue, some val)
    | .pop, [] => none
    | .pop, val :: queue => some (queue, some val)
    | .push item, queue => some (queue ++ [item], none)
  notifies
    | .front => false
    | .pop => false
    | .push _ => true

/-- An operation that was done: the thread, the operation and the value that came back. -/
abbrev QueueEntry (ι T : Type) :=
  ι × QueueOperation T × Option T

def QueueEntry.pushed : QueueEntry ι T → Option T
  | (_, .front, _) => none
  | (_, .pop, _) => none
  | (_, .push item, _) => some item

def QueueEntry.popped : QueueEntry ι T → Option T
  | (_, .front, _) => none
  | (_, .pop, val) => val
  | (_, .push _, _) => none

/-- The values that were pushed, oldest first. -/
def pushed (log : List (QueueEntry ι T)) : List T :=
  log.filterMap QueueEntry.pushed

/-- The values that were popped, oldest first. -/
def popped (log : List (QueueEntry ι T)) : List T :=
  log.filterMap QueueEntry.popped

/-! ## First in, first out -/

/-- What an operation that is done does to the queue. -/
theorem lockQueue_run {op : QueueOperation T} {queue queue' : List T} {b : Option T}
    (h : (lockQueue T).run op queue = some (queue', b)) :
    (∃ val rest, op = .front ∧ queue = val :: rest ∧ queue' = queue ∧ b = some val) ∨
    (∃ val, op = .pop ∧ queue = val :: queue' ∧ b = some val) ∨
    (∃ item, op = .push item ∧ queue' = queue ++ [item] ∧ b = none) := by
  cases op with
  | front =>
    cases queue with
    | nil => simp [lockQueue] at h
    | cons val rest =>
      obtain ⟨rfl, rfl⟩ : val :: rest = queue' ∧ some val = b := by simpa [lockQueue] using h
      exact .inl ⟨val, rest, rfl, rfl, rfl, rfl⟩
  | pop =>
    cases queue with
    | nil => simp [lockQueue] at h
    | cons val rest =>
      obtain ⟨rfl, rfl⟩ : rest = queue' ∧ some val = b := by simpa [lockQueue] using h
      exact .inr (.inl ⟨val, rfl, rfl, rfl⟩)
  | push item =>
    obtain ⟨rfl, rfl⟩ : queue ++ [item] = queue' ∧ none = b := by simpa [lockQueue] using h
    exact .inr (.inr ⟨item, rfl, rfl, rfl⟩)

/-- An entry of a longer log is the last one, or one of those before. -/
theorem snoc_eq_append_cons {α : Type} {log before after : List α} {e x : α}
    (h : log ++ [e] = before ++ x :: after) :
    (before = log ∧ x = e) ∨ ∃ after', log = before ++ x :: after' := by
  obtain rfl | ⟨after', last, rfl⟩ := List.eq_nil_or_concat after
  · obtain ⟨rfl, h⟩ := List.append_inj' h rfl
    exact .inl ⟨rfl, by simpa using h.symm⟩
  · rw [List.concat_eq_append, ← List.cons_append, ← List.append_assoc] at h
    exact .inr ⟨after', (List.append_inj' h rfl).1⟩

/-- What a log says about the queue, and about the values that came back. -/
structure QueueLog (log : List (QueueEntry ι T)) (queue : List T) : Prop where
  queued : pushed log = popped log ++ queue
  next : ∀ before t op val after, log = before ++ (t, op, some val) :: after →
    popped before ++ [val] <+: pushed before

/-- The operation done next keeps it. -/
theorem QueueLog.snoc {log : List (QueueEntry ι T)} {queue queue' : List T} {t : ι}
    {op : QueueOperation T} {b : Option T} (h : QueueLog log queue)
    (hrun : (lockQueue T).run op queue = some (queue', b)) :
    QueueLog (log ++ [(t, op, b)]) queue' := by
  have hnext : ∀ val, b = some val → popped log ++ [val] <+: pushed log := by
    rintro val rfl
    rw [h.queued]
    obtain ⟨_, rest, -, rfl, -, hb⟩ | ⟨_, -, rfl, hb⟩ | ⟨_, -, -, hb⟩ := lockQueue_run hrun
    · obtain rfl := Option.some.inj hb
      exact ⟨rest, by simp⟩
    · obtain rfl := Option.some.inj hb
      exact ⟨queue', by simp⟩
    · cases hb
  refine ⟨?_, fun before u op' val after hlog => ?_⟩
  · rw [pushed, popped, List.filterMap_append, List.filterMap_append, ← pushed, ← popped, h.queued]
    obtain ⟨val, rest, rfl, rfl, rfl, rfl⟩ | ⟨val, rfl, rfl, rfl⟩ | ⟨item, rfl, rfl, rfl⟩ :=
      lockQueue_run hrun
    · simp [QueueEntry.pushed, QueueEntry.popped, List.filterMap_cons]
    · simp [QueueEntry.pushed, QueueEntry.popped]
    · simp [QueueEntry.pushed, QueueEntry.popped]
  · obtain ⟨rfl, he⟩ | ⟨after', rfl⟩ := snoc_eq_append_cons hlog
    · exact hnext val (congrArg (·.2.2) he).symm
    · exact h.next before u op' val after' rfl

theorem QueueLog.of_replays {log : List (QueueEntry ι T)} {queue : List T}
    (h : (lockQueue T).Replays [] log queue) : QueueLog log queue := by
  induction h with
  | nil => exact ⟨rfl, by simp⟩
  | snoc h hrun ih => exact ih.snoc hrun

/-- **First in, first out, under every interleaving.** One thread at most is inside; what was pushed
is what was popped followed by what is still queued; and every value that `front` or `pop` gave was
the next one to be popped when they gave it. -/
theorem lockQueue_fifo [DecidableEq ι]
    {s : Monitor.State ι (QueueOperation T) (List T) (Option T)}
    (h : (lockQueue T).Reachable [] s) :
    (∀ t u op op', s.phase t = .inside op → s.phase u = .inside op' → t = u) ∧
    pushed s.log = popped s.log ++ s.shared ∧
    ∀ before t op val after, s.log = before ++ (t, op, some val) :: after →
      popped before ++ [val] <+: pushed before := by
  refine ⟨fun t u op op' ht hu => ?_, ?_⟩
  · have hholder := (h.exclusive t).2 ⟨op, ht⟩
    exact Option.some.inj (hholder.symm.trans ((h.exclusive u).2 ⟨op', hu⟩))
  · have hlog := QueueLog.of_replays h.replays
    exact ⟨hlog.queued, hlog.next⟩

/-- A value that is pushed while a thread waits for it comes back to that thread. -/
theorem lockQueue_fifo_handover :
    ∃ s : Monitor.State (Fin 2) (QueueOperation ℕ) (List ℕ) (Option ℕ),
      s.log = [(1, .push 7, none), (0, .pop, some 7)] ∧ pushed s.log = popped s.log ++ s.shared := by
  have h : (lockQueue ℕ).Reachable [] ({ shared := [] } : Monitor.State (Fin 2) _ _ _) := .refl
  have h := h.step (.call _ 0 .pop rfl)
  have h := h.step (.lock _ 0 .pop (.inl rfl) rfl)
  have h := h.step (.block _ 0 .pop rfl rfl)
  have h := h.step (.call _ 1 (.push 7) rfl)
  have h := h.step (.lock _ 1 (.push 7) (.inl rfl) rfl)
  have h := h.step (.done _ 1 (.push 7) [7] none rfl rfl)
  have h := h.step (.notify _ 1 0 .pop rfl rfl)
  have h := h.step (.lock _ 0 .pop (.inr rfl) rfl)
  have h := h.step (.done _ 0 .pop [] (some 7) rfl rfl)
  exact ⟨_, rfl, (lockQueue_fifo h).2.1⟩

/-! ## Waking up -/

/-- The values of the queue are the tokens of those that pop them. -/
theorem lockQueue_tokens :
    ((lockQueue T).restrict (· ≠ .front)).Tokens (List.length : List T → ℕ) := by
  refine ⟨?_, ?_, ?_⟩
  · rintro ⟨op, hop⟩ queue hrun
    cases queue with
    | nil => rfl
    | cons val rest => cases op <;> simp [Monitor.restrict, lockQueue] at hrun
  · rintro ⟨op, hop⟩ queue queue' b ⟨other, hwaits⟩ hrun
    obtain ⟨val, rest, rfl, -⟩ | ⟨val, rfl, rfl, -⟩ | ⟨item, rfl, -⟩ := lockQueue_run hrun
    · exact absurd rfl hop
    · simp
    · simp [Monitor.restrict, lockQueue] at hwaits
  · rintro ⟨op, hop⟩ queue queue' b hrun
    obtain ⟨val, rest, rfl, -⟩ | ⟨val, rfl, rfl, -⟩ | ⟨item, rfl, rfl, -⟩ := lockQueue_run hrun
    · exact absurd rfl hop
    · exact (Nat.le_succ _).trans (Nat.le_add_right _ _)
    · simp [Monitor.restrict, lockQueue]

/-- The threads 0 and 1 wait in `pop` and in `front`, and the value that thread 2 pushes wakes up
thread 1, which leaves it in the queue. -/
theorem lockQueue_left_behind :
    ∃ s : Monitor.State (Fin 3) (QueueOperation ℕ) (List ℕ) (Option ℕ),
      (lockQueue ℕ).Reachable [] s ∧ (∀ t, s.phase t = .idle ∨ s.phase t = .waiting .pop) ∧
        s.phase 0 = .waiting .pop ∧ s.shared = [7] := by
  have h : (lockQueue ℕ).Reachable [] ({ shared := [] } : Monitor.State (Fin 3) _ _ _) := .refl
  have h := h.step (.call _ 0 .pop rfl)
  have h := h.step (.lock _ 0 .pop (.inl rfl) rfl)
  have h := h.step (.block _ 0 .pop rfl rfl)
  have h := h.step (.call _ 1 .front rfl)
  have h := h.step (.lock _ 1 .front (.inl rfl) rfl)
  have h := h.step (.block _ 1 .front rfl rfl)
  have h := h.step (.call _ 2 (.push 7) rfl)
  have h := h.step (.lock _ 2 (.push 7) (.inl rfl) rfl)
  have h := h.step (.done _ 2 (.push 7) [7] none rfl rfl)
  have h := h.step (.notify _ 2 1 .front rfl rfl)
  have h := h.step (.lock _ 1 .front (.inr rfl) rfl)
  have h := h.step (.done _ 1 .front [7] (some 7) rfl rfl)
  refine ⟨_, h, fun t => ?_, rfl, rfl⟩
  fin_cases t
  · exact .inr rfl
  · exact .inl rfl
  · exact .inl rfl

/-- **No wake-up is lost without `front`, and one can be lost with it.** As long as no thread calls
`front`, there are never more values than threads about to act on one while a thread waits, so that
once everybody is at rest nobody waits in front of a value. A thread in `front` can be the one that
a pushed value wakes up, and leaves the value in the queue without waking up the thread in `pop`:
then nobody is about to act, and only a call or a thread that wakes up by itself goes on. -/
theorem lockQueue_wakes :
    (∀ (T ι : Type) [DecidableEq ι] [Fintype ι]
      (s : Monitor.State ι {op : QueueOperation T // op ≠ .front} (List T) (Option T)),
      ((lockQueue T).restrict (· ≠ .front)).Reachable [] s →
        (∃ t op, s.phase t = .waiting op) →
          s.shared.length ≤ (((lockQueue T).restrict (· ≠ .front)).attending s).card ∧
          ((∀ t, s.phase t = .idle ∨ ∃ op, s.phase t = .waiting op) → s.shared = [])) ∧
    ∃ s : Monitor.State (Fin 3) (QueueOperation ℕ) (List ℕ) (Option ℕ),
      (lockQueue ℕ).Reachable [] s ∧ (∀ t, s.phase t = .idle ∨ s.phase t = .waiting .pop) ∧
        s.phase 0 = .waiting .pop ∧ s.shared = [7] ∧
        ∀ s', (lockQueue ℕ).Step s s' →
          (∃ t op, s.phase t = .idle ∧ s' = s.move t (.entering op)) ∨
            ∃ t op, s.phase t = .waiting op ∧ s' = s.move t (.woken op) := by
  refine ⟨fun T ι _ _ s h hwaits => ⟨h.attended lockQueue_tokens hwaits, fun hrest => ?_⟩, ?_⟩
  · exact List.eq_nil_of_length_eq_zero (h.tokens_of_rest lockQueue_tokens hrest hwaits)
  · obtain ⟨s, h, hrest, hwaits, hqueued⟩ := lockQueue_left_behind
    refine ⟨s, h, hrest, hwaits, hqueued, fun s' hstep => hstep.of_rest fun t => ?_⟩
    exact (hrest t).imp_right fun ht => ⟨.pop, ht⟩

/-- One thread waits, another one has pushed a value and is about to notify. -/
theorem lockQueue_wakes_notifying :
    ∃ s : Monitor.State (Fin 2) {op : QueueOperation ℕ // op ≠ .front} (List ℕ) (Option ℕ),
      s.shared = [7] ∧
        s.shared.length ≤ (((lockQueue ℕ).restrict (· ≠ .front)).attending s).card := by
  have h : ((lockQueue ℕ).restrict (· ≠ .front)).Reachable []
      ({ shared := [] } : Monitor.State (Fin 2) _ _ _) := .refl
  have h := h.step (.call _ 0 ⟨.pop, by decide⟩ rfl)
  have h := h.step (.lock _ 0 ⟨.pop, by decide⟩ (.inl rfl) rfl)
  have h := h.step (.block _ 0 ⟨.pop, by decide⟩ rfl rfl)
  have h := h.step (.call _ 1 ⟨.push 7, by decide⟩ rfl)
  have h := h.step (.lock _ 1 ⟨.push 7, by decide⟩ (.inl rfl) rfl)
  have h := h.step (.done _ 1 ⟨.push 7, by decide⟩ [7] none rfl rfl)
  exact ⟨_, rfl, (lockQueue_wakes.1 ℕ (Fin 2) _ h ⟨0, ⟨.pop, by decide⟩, rfl⟩).1⟩

end ProvisioningValidator
