/-
`owned_executor::changed_`: the same executor with its condition variable.

Two threads can be blocked on `changed_`: the worker, in `run()`, whose predicate
is `stopping_ || !pending_.empty()`, and the owner, in `wait()` or `wait_for()`,
whose predicate is `finished_`. `enqueue` releases the mutex and then calls
`notify_one`, which wakes one blocked waiter of the implementation's choice;
`stop` and the end of `run()` call `notify_all`.

Testing a predicate that is false and going to sleep is one step, as the mutex is
released atomically with it. A waiter that was woken, by a notification or
spuriously, tests again before it does anything else.

The file settles when a queued request can be left with a sleeping worker. It can:
`notify_one` may pick the owner, who tests `finished_`, and goes back to sleep.
-/
import SynapseMcp.ExecutorRuns

set_option autoImplicit false

namespace SynapseMcp

open Transition

variable {ι : Type}

/-! ## Waiting

A waiter is outside of its wait, asleep, or woken and about to test its predicate again. The
executor of `ExecutorRuns` is one field of the state and takes its steps unchanged; what is
added is who sleeps, and the notifications that are owed, as they are made after the mutex was
released. So a run here is a run of that executor with the notifications forgotten, and
everything shown of it carries over. -/

/-- Where a thread is with respect to `changed_`. -/
inductive wait_at where
  | outside
  /-- In `wait`, asleep; no wake-up has been given to it. -/
  | blocked
  /-- In `wait`, woken; it has yet to take the mutex and test its predicate. -/
  | woken
  deriving DecidableEq

/-- A notification reaches a thread that is blocked, and no other. -/
def wait_at.wake : wait_at → wait_at
  | .outside => .outside
  | _ => .woken

/-- The executor with the places of its two waiters and the notifications still to come. -/
structure wakeup_system (ι : Type) where
  run : runtime ι
  worker_wait : wait_at
  owner_wait : wait_at
  /-- `enqueue` calls that admitted a work and are still before `notify_one`. -/
  notifying : Nat
  /-- `stop` calls, and the end of `run()`, still before `notify_all`. -/
  notifying_all : Nat

/-- Who may be blocked on the variable. -/
inductive waiter where
  | worker
  | owner
  deriving DecidableEq

/-- A call on the executor, a notification, or a step of one of the waiters. -/
inductive wakeup_action (ι : Type) where
  | call (action : executor_action ι)
  /-- `notify_one`, and the waiter it woke, if any was blocked. -/
  | notify_one (chosen : Option waiter)
  | notify_all
  | spurious (chosen : waiter)
  | worker
  | worker_blocks
  | owner_blocks
  | owner_returns

/-- The calls on the executor with what they owe the variable, the notifications, and the two
waiters going to sleep and coming back. -/
inductive wakeup_system.Step : wakeup_system ι → wakeup_action ι → wakeup_system ι → Prop
  -- an admitted work leaves a `notify_one` to be made, outside of the lock
  | enqueue (s : wakeup_system ι) (id : json_rpc_id) (call : Option ι) :
      Step s (.call (.enqueue id call))
        { s with
          run := (s.run.enqueue id call).1
          notifying := s.notifying + if (s.run.enqueue id call).2 = none then 1 else 0 }
  -- `cancel` notifies nobody
  | cancel (s : wakeup_system ι) (id : json_rpc_id) :
      Step s (.call (.cancel id)) { s with run := (s.run.cancel id).1 }
  | stop (s : wakeup_system ι) :
      Step s (.call .stop) { s with run := s.run.stop.1, notifying_all := s.notifying_all + 1 }
  -- `notify_one` wakes one of those that sleep, and which one is not its choice
  | notify_worker {s : wakeup_system ι} (hcall : 0 < s.notifying)
      (hwait : s.worker_wait = .blocked) :
      Step s (.notify_one (some .worker))
        { s with worker_wait := .woken, notifying := s.notifying - 1 }
  | notify_owner {s : wakeup_system ι} (hcall : 0 < s.notifying)
      (hwait : s.owner_wait = .blocked) :
      Step s (.notify_one (some .owner))
        { s with owner_wait := .woken, notifying := s.notifying - 1 }
  -- with nobody asleep it is lost
  | notify_nobody {s : wakeup_system ι} (hcall : 0 < s.notifying)
      (hworker : s.worker_wait ≠ .blocked) (howner : s.owner_wait ≠ .blocked) :
      Step s (.notify_one none) { s with notifying := s.notifying - 1 }
  | notify_all {s : wakeup_system ι} (hcall : 0 < s.notifying_all) :
      Step s .notify_all
        { s with
          worker_wait := s.worker_wait.wake
          owner_wait := s.owner_wait.wake
          notifying_all := s.notifying_all - 1 }
  -- a condition variable may wake anyone without a reason
  | spurious_worker {s : wakeup_system ι} (hwait : s.worker_wait = .blocked) :
      Step s (.spurious .worker) { s with worker_wait := .woken }
  | spurious_owner {s : wakeup_system ι} (hwait : s.owner_wait = .blocked) :
      Step s (.spurious .owner) { s with owner_wait := .woken }
  /-- A move of `run()`, which is not asleep; out of the loop head it left the wait. -/
  | worker {s : wakeup_system ι} {r : runtime ι} (hawake : s.worker_wait ≠ .blocked)
      (hstep : runtime.Step s.run .worker r) :
      Step s .worker
        { s with
          run := r
          worker_wait := .outside
          notifying_all := s.notifying_all + match r.worker with | .gone => 1 | _ => 0 }
  /-- The predicate of `run()` is false: release the mutex and sleep. -/
  | worker_blocks {s : wakeup_system ι} (hworker : s.run.worker = .waiting)
      (hawake : s.worker_wait ≠ .blocked) (hstop : s.run.executor.stopping_ = false)
      (hpending : s.run.executor.pending_ = []) :
      Step s .worker_blocks { s with worker_wait := .blocked }
  /-- `wait()` or `wait_for()`: `finished_` is false. -/
  | owner_blocks {s : wakeup_system ι} (hawake : s.owner_wait ≠ .blocked)
      (hfinished : s.run.executor.finished_ = false) :
      Step s .owner_blocks { s with owner_wait := .blocked }
  /-- `finished_` was seen, or the time of `wait_for()` is up. -/
  | owner_returns (s : wakeup_system ι) : Step s .owner_returns { s with owner_wait := .outside }

/-- A started executor with nobody asleep yet. -/
def wakeup_runs (ι : Type) (limit : Nat) : System (wakeup_system ι) (wakeup_action ι) where
  init s := s = ⟨.make limit, .outside, .outside, 0, 0⟩
  step := wakeup_system.Step

section Wakeups

variable {limit : Nat} {s t : wakeup_system ι}

/-- The condition variable decides when the executor moves, never how: each step is a
step of the core or leaves the executor as it is. -/
theorem wakeup_runs_core :
    (wakeup_runs ι limit).Simulation (executor_core ι limit) wakeup_system.run where
  init := by
    rintro s rfl
    rfl
  step := by
    intro s a t _ _ hst
    cases hst with
    | enqueue id call => exact .single ⟨_, .enqueue _ id call⟩
    | cancel id => exact .single ⟨_, .cancel _ id⟩
    | stop => exact .single ⟨_, .stop _⟩
    | worker hawake hstep => exact .single ⟨_, hstep⟩
    | _ => exact .refl

/-! ## Lost wake-ups

A wake-up is lost when a request is queued, nobody owes a notification any more, and the worker
sleeps on: only another notification can then make it go on. Two threads wait for the one
variable with different predicates, so `notify_one` may spend itself on the one whose predicate
it does not concern. -/

/-- A queued request, an open executor, every `enqueue` past its notification, and
the worker asleep without a wake-up. -/
def lost_wakeup (s : wakeup_system ι) : Prop :=
  s.run.executor.pending_ ≠ [] ∧ s.run.executor.stopping_ = false ∧ s.notifying = 0 ∧
    s.worker_wait = .blocked

/-- The executor never reaches a lost wake-up, as its condition variable is meant to ensure. -/
def never_loses_wakeup (ι : Type) (limit : Nat) : Prop :=
  ∀ s : wakeup_system ι, (wakeup_runs ι limit).Reachable s → ¬ lost_wakeup s

/-- The worker sleeps, the owner sleeps in `wait_for()`, a request is admitted, and its
`notify_one` wakes the owner. -/
theorem notify_one_wakes_owner : ¬ never_loses_wakeup Unit 1 := by
  intro hnever
  let s₀ : wakeup_system Unit := ⟨.make 1, .outside, .outside, 0, 0⟩
  have h₀ : (wakeup_runs Unit 1).Reachable s₀ := .of_init rfl
  have h₁ := h₀.step (.worker_blocks rfl (by decide) rfl rfl)
  have h₂ := h₁.step (.owner_blocks (by decide) rfl)
  have h₃ := h₂.step (.enqueue _ (.int64 1) (some ()))
  have h₄ := h₃.step (.notify_owner (by decide) rfl)
  exact hnever _ h₄ ⟨by simp [s₀, runtime.enqueue, runtime.make, owned_executor.make,
    owned_executor.enqueue, owned_executor.enqueue_locked], rfl, rfl, rfl⟩

/-! ## When none is lost

The condition is on single notifications: the last one outstanding does not go to the owner
while the worker sleeps over a queue. With it a sleeping worker is always owed one
(`signalled`), and this is an invariant because an enqueue brings its notification along.
Without it the state after the step is a lost wake-up already, so the condition excludes nothing
that would have done no harm.

An owner that joins only after `stop()` meets the condition by itself: behind a stop the queue
is empty for good, so there is no signal for it to take. -/

/-- The step does not hand the last outstanding notification to the owner while the
worker sleeps over a queued request. -/
def keeps_signal (s : wakeup_system ι) (a : wakeup_action ι) : Prop :=
  a = .notify_one (some .owner) →
    ¬ (s.run.executor.pending_ ≠ [] ∧ s.run.executor.stopping_ = false ∧ s.notifying = 1 ∧
      s.worker_wait = .blocked)

/-- A worker asleep over a queued request is owed a notification. -/
def signalled (s : wakeup_system ι) : Prop :=
  s.worker_wait = .blocked → s.run.executor.stopping_ = false →
    s.run.executor.pending_ ≠ [] → 0 < s.notifying

/-- A step that keeps the signal with the worker leaves a sleeping worker owed one. -/
theorem signalled_step {a : wakeup_action ι} (h : signalled s) (hkeep : keeps_signal s a)
    (hstep : wakeup_system.Step s a t) : signalled t := by
  intro hblocked hopen hqueued
  cases hstep with
  | enqueue id call =>
      -- an admitted work brings its own notification; a refused one changes nothing
      rcases s.run.enqueue_cases id call with ⟨err, -, heq⟩ | ⟨c, -, -, -, -, -, -, heq⟩
      · simp only [heq] at hblocked hopen hqueued ⊢
        have := h hblocked hopen hqueued
        omega
      · simp [heq]
  | cancel id =>
      rcases s.run.cancel_cases id with
        ⟨w, -, -, heq⟩ | ⟨before, w, after, hitems, -, -, -, heq⟩ | ⟨-, -, heq⟩
      · simp only [heq] at hopen hqueued
        exact h hblocked hopen hqueued
      · simp only [heq] at hopen
        exact h hblocked hopen (by simp [hitems])
      · simp only [heq] at hopen hqueued
        exact h hblocked hopen hqueued
  | stop => cases hopen
  | notify_worker _ _ => cases hblocked
  | notify_owner hcall _ =>
      have hlast := hkeep rfl
      simp only at hblocked hopen hqueued ⊢
      have hne : s.notifying ≠ 1 := fun hone => hlast ⟨hqueued, hopen, hone, hblocked⟩
      omega
  | notify_nobody _ hworker _ => exact absurd hblocked hworker
  | notify_all _ => cases hwait : s.worker_wait <;> simp [hwait, wait_at.wake] at hblocked
  | spurious_worker _ => cases hblocked
  | spurious_owner _ => exact h hblocked hopen hqueued
  | worker _ _ => cases hblocked
  | worker_blocks _ _ _ hpending => exact absurd hpending hqueued
  | owner_blocks _ _ => exact h hblocked hopen hqueued
  | owner_returns => exact h hblocked hopen hqueued

/-- A notification the condition excludes ends in a lost wake-up. -/
theorem stolen_signal {a : wakeup_action ι} (hsteal : ¬ keeps_signal s a)
    (hstep : wakeup_system.Step s a t) : lost_wakeup t := by
  rw [keeps_signal, Classical.not_imp, not_not] at hsteal
  obtain ⟨rfl, hqueued, hopen, hone, hblocked⟩ := hsteal
  cases hstep
  exact ⟨hqueued, hopen, by simp [hone], hblocked⟩

/-- To be `signalled` is not to be a lost wake-up. -/
theorem signalled_iff : signalled s ↔ ¬ lost_wakeup s := by
  constructor
  · rintro hsig ⟨hqueued, hopen, hnone, hblocked⟩
    have := hsig hblocked hopen hqueued
    omega
  · intro hkept hblocked hopen hqueued
    by_contra hnone
    exact hkept ⟨hqueued, hopen, Nat.eq_zero_of_not_pos hnone, hblocked⟩

/-- **When no wake-up is lost.** In every run whose notifications all keep the signal
with the worker, no reachable state is a lost wake-up. And of all the steps of all runs
the ones that lose a wake-up, none being lost before, are exactly those that break the
condition, so it leaves out nothing else. -/
theorem no_lost_wakeup_iff_signal_kept :
    (∀ s, ((wakeup_runs ι limit).restrict keeps_signal).Reachable s → ¬ lost_wakeup s) ∧
      (∀ s a t, (wakeup_runs ι limit).Reachable s → (wakeup_runs ι limit).step s a t →
        (¬ keeps_signal s a ↔ ¬ lost_wakeup s ∧ lost_wakeup t)) := by
  constructor
  · intro s hs
    refine signalled_iff.mp (hs.invariant ?_ ?_)
    · rintro u rfl hblocked
      cases hblocked
    · intro u a v _ hu hstep
      exact signalled_step hu hstep.1 hstep.2
  · intro s a t _ hstep
    constructor
    · intro hsteal
      refine ⟨?_, stolen_signal hsteal hstep⟩
      -- the signal that goes astray was still outstanding
      rintro ⟨-, -, hnone, -⟩
      rw [keeps_signal, Classical.not_imp, not_not] at hsteal
      obtain ⟨-, -, -, hone, -⟩ := hsteal
      omega
    · rintro ⟨hkept, hlost⟩ hkeep
      exact signalled_iff.mp (signalled_step (signalled_iff.mpr hkept) hkeep hstep) hlost

/-- A sleeping worker that gets the notification of the request queued for it. -/
theorem no_lost_wakeup_worker_notified :
    ¬ lost_wakeup ⟨((runtime.make 1 : runtime Unit).enqueue (.int64 1) (some ())).1,
      .woken, .outside, 0, 0⟩ := by
  let s₀ : wakeup_system Unit := ⟨.make 1, .outside, .outside, 0, 0⟩
  have h₀ : ((wakeup_runs Unit 1).restrict keeps_signal).Reachable s₀ := .of_init rfl
  have h₁ := h₀.step (a := .worker_blocks) ⟨nofun, .worker_blocks rfl (by decide) rfl rfl⟩
  have h₂ := h₁.step (a := .call _) ⟨nofun, .enqueue _ (.int64 1) (some ())⟩
  have h₃ := h₂.step (a := .notify_one (some .worker)) ⟨nofun, .notify_worker (by decide) rfl⟩
  exact no_lost_wakeup_iff_signal_kept.1 _ h₃

/-- An owner that joins only after `stop()`, as the server's does, never takes a signal
the worker needs. -/
theorem no_lost_wakeup_when_joining_after_stop
    (hs : ((wakeup_runs ι limit).restrict fun s a =>
      a = .owner_blocks → s.run.executor.stopping_ = true).Reachable s) : ¬ lost_wakeup s := by
  have hinv : signalled s ∧
      (s.owner_wait = .blocked → s.run.executor.stopping_ = true) := by
    refine hs.invariant (P := fun u => signalled u ∧
      (u.owner_wait = .blocked → u.run.executor.stopping_ = true)) ?_ ?_
    · rintro u rfl
      refine ⟨?_, ?_⟩ <;>
      · intro hb
        cases hb
    · rintro u a v _ ⟨hu, howner⟩ ⟨hguard, hstep⟩
      -- a signal the owner takes would be one of an open queue, and it waits only behind a stop
      have hkeep : keeps_signal u a := by
        rintro rfl ⟨-, hopen', -, -⟩
        cases hstep with
        | notify_owner _ hwait =>
            rw [howner hwait] at hopen'
            cases hopen'
      refine ⟨signalled_step hu hkeep hstep, ?_⟩
      -- an owner that is blocked stays behind the stop, which nothing takes back
      cases hstep with
      | enqueue id call =>
          intro hb
          rcases u.run.enqueue_cases id call with ⟨err, -, heq⟩ | ⟨c, -, -, -, -, -, -, heq⟩ <;>
          · rw [heq]
            exact howner hb
      | cancel id =>
          intro hb
          rcases u.run.cancel_cases id with
            ⟨w, -, -, heq⟩ | ⟨before, w, after, -, -, -, -, heq⟩ | ⟨-, -, heq⟩ <;>
          · rw [heq]
            exact howner hb
      | stop => exact fun _ => rfl
      | notify_worker _ _ => exact howner
      | notify_owner _ _ => exact fun hb => by cases hb
      | notify_nobody _ _ _ => exact howner
      | notify_all _ =>
          intro hb
          cases hwait : u.owner_wait <;> simp [hwait, wait_at.wake] at hb
      | spurious_worker _ => exact howner
      | spurious_owner _ => exact fun hb => by cases hb
      | worker _ hcore =>
          intro hb
          have hstop := howner hb
          cases hcore with
          -- the worker takes nothing from a stopped queue
          | dequeue _ htake =>
              rw [(owned_executor.dequeue_some htake).1] at hstop
              cases hstop
          | _ => exact hstop
      | worker_blocks _ _ _ _ => exact howner
      | owner_blocks _ _ => exact fun _ => hguard rfl
      | owner_returns => exact fun hb => by cases hb
  exact signalled_iff.mp hinv.1

end Wakeups

end SynapseMcp
