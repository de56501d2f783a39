/-
Whole runs of the executor, with code of others called from inside it.

Any number of threads call `enqueue`, `cancel` and `stop`, and whatever an invocation, a stop
callback or the destructor of a capture does on the way may call them again. `machine.wf` is what
all runs keep. It adds up what `ExecutorCaptures` says of one call: a step changes the innermost
call of one thread, and the other calls are the unknown summand there.
-/
import SynapseMcp.ExecutorCaptures

set_option autoImplicit false

namespace SynapseMcp.executor_owners

open Transition

/-! ## The record

The log of a machine holds what each thread did with invocations and with the lock, and who held
the lock then. It is read by kind. A call of `enqueue` is known by its number, and so is the
invocation it was handed.

Numbers are given to calls of all kinds when they begin, and only `enqueue` uses its own. An
invocation is thus handed over at most once, though a caller may of course hand over two that do
the same. -/

/-- The invocation a call of `enqueue` was handed. -/
def event.hands : event → List Nat
  | .handed n => [n]
  | _ => []

/-- The call whose work went into the queue. -/
def event.admits : event → List Nat
  | .admitted n => [n]
  | _ => []

/-- A call that is over, with its answer. -/
def event.answers : event → List (Nat × outcome)
  | .answered n answer => [(n, answer)]
  | _ => []

/-- Only a call of `enqueue` hands an invocation over. -/
theorem frame.Step.hands {t : Nat} {s s' : shared} {f : frame} {e : Option event}
    {calls : List frame} (h : frame.Step t s f e s' calls) : e.toList.flatMap event.hands = [] := by
  cases h <;> rfl

/-- If the worker is among the calls, it is the one call of the worker. -/
theorem worker_fits.alone {x : owned_executor Unit} {f : frame} {l l' : List frame}
    (h : worker_fits x (l ++ f :: l')) :
    l = [] ∧ l' = [] ∧ ∃ step scope, f = ⟨.run step, scope⟩ ∧ run_fits x step scope := by
  generalize hl : l ++ f :: l' = calls at h
  cases h with
  | here hfits =>
      rcases List.append_eq_singleton_iff.mp hl with ⟨hnil, hone⟩ | ⟨-, hnil⟩
      · obtain ⟨rfl, rfl⟩ := List.cons.inj hone
        exact ⟨hnil, rfl, _, _, rfl, hfits⟩
      · cases hnil
  | gone => simp at hl

/-- A call has no lock when it starts, and its only owner is the parameter. -/
theorem starts.spec {made : Nat} {f : frame} {e : Option event} (h : starts made f e) :
    f.refs = [] ∧ f.values = e.toList.flatMap event.hands ∧ (∀ n, f.values.count n ≤ 1) ∧
      (∀ n ∈ f.values, n = made) ∧ e.toList.flatMap event.destroys = [] ∧
      (∀ what ∈ e, what.user_code = false) ∧ f.is_run = false ∧ f.placed ∧
      .guard ∉ f.scope := by
  cases h with
  | enqueue_empty id => simp [frame.is_run, position.is_run, frame.placed]
  | enqueue id =>
      refine ⟨rfl, rfl, ?_, ?_, rfl, ?_, rfl, by simp [frame.placed], by simp⟩
      · intro n
        by_cases hn : n = made
        · simp [hn]
        · simp [Ne.symm hn]
      · simp
      · rintro what ⟨⟩
        rfl
  | section_of call => simp [frame.is_run, position.is_run, frame.placed]

namespace machine

/-- The invocations handed to `enqueue`, by the number of the call. -/
def handed (m : machine) : List Nat := m.log.flatMap fun x => x.what.hands

/-- The invocations that were destroyed. -/
def destroyed (m : machine) : List Nat := m.log.flatMap fun x => x.what.destroys

/-- The calls of `enqueue` that changed the queue. -/
def admitted (m : machine) : List Nat := m.log.flatMap fun x => x.what.admits

/-- The calls of `enqueue` that are over. -/
def answered (m : machine) : List (Nat × outcome) :=
  m.log.flatMap fun x => x.what.answers

/-- The calls of all threads. -/
def frames (m : machine) : List frame := m.threads.flatten

/-- No call goes on: the worker is gone, and every other thread is back in its own code. -/
def idle (m : machine) : Prop := m.frames = []

/-! ## What runs keep

Ownership is counted. The use count of a work is the number of references to it, in the queue
and in the scopes of all calls; an invocation is owned by a live work or by a scope, or it was
destroyed, and these add up to one for each that was handed over. The lock is held by the
innermost call of one thread, or by none, and never by a call that another one was made from: so
code of others, which is always called from inside, finds its thread without it.

A step changes one call. In the sums that one is singled out, and what `ExecutorCaptures` proves
of it is used with the others as the unknown summand (`wf.counts`). -/

/-- What all runs keep. -/
structure wf (m : machine) : Prop where
  refs : ∀ r, m.state.use_count r =
    (queue_refs m.state.executor).count r + (m.frames.flatMap frame.refs).count r
  once : ∀ n, m.destroyed.count n + (m.frames.flatMap frame.values).count n + m.state.live n =
    m.handed.count n
  handed_once : ∀ n, m.handed.count n ≤ 1
  handed_made : ∀ n ∈ m.handed, n < m.made
  worker : worker_fits m.state.executor (m.frames.filter frame.is_run)
  drained : drained m.state.executor
  placed : ∀ g ∈ m.frames, g.placed
  lock : ∀ t, m.state.mutex_ = some t ↔
    ∃ stack, m.threads[t]? = some stack ∧ ∃ g ∈ stack.head?, .guard ∈ g.scope
  below : ∀ stack ∈ m.threads, ∀ g ∈ stack.tail, .guard ∉ g.scope
  holders : ∀ entry ∈ m.log, entry.what.user_code = true → entry.holder ≠ some entry.thread

variable {s s' : shared} {f : frame} {e : Option event} {calls rest stack stack' : List frame}
  {before after : List (List frame)} {made t : Nat} {log : List entry}

/-- The thread that acts. -/
theorem stack_self : (before ++ stack :: after)[before.length]? = some stack := by simp

/-- The other threads. -/
theorem stack_other (h : t ≠ before.length) :
    (before ++ stack :: after)[t]? = (before ++ stack' :: after)[t]? := by
  by_cases hlt : t < before.length
  · rw [List.getElem?_append_left hlt, List.getElem?_append_left hlt]
  · rw [List.getElem?_append_right (by omega), List.getElem?_append_right (by omega)]
    obtain ⟨k, hk⟩ : ∃ k, t - before.length = k + 1 := ⟨t - before.length - 1, by omega⟩
    rw [hk, List.getElem?_cons_succ, List.getElem?_cons_succ]

/-- The call that acts fits the executor: its objects are placed as its position says, and if it
is the worker's the executor knows its work. -/
theorem wf.fits (h : wf ⟨s, before ++ (f :: rest) :: after, made, log⟩) :
    f.fits s.executor := by
  refine ⟨h.placed f (by simp [frames]), ?_⟩
  intro step hstep
  have hrun : f.is_run = true := by simp [frame.is_run, hstep, position.is_run]
  have hworker := h.worker
  simp only [frames, List.flatten_append, List.flatten_cons, List.cons_append, List.filter_append,
    List.filter_cons, if_pos hrun] at hworker
  obtain ⟨-, -, step', scope, rfl, hfits⟩ := hworker.alone
  cases hstep
  exact hfits

/-- The references that are not the acting call's. -/
theorem wf.counts (h : wf ⟨s, before ++ (f :: rest) :: after, made, log⟩) (r : Nat) :
    s.use_count r = (queue_refs s.executor).count r + f.refs.count r +
      ((before.flatten ++ rest ++ after.flatten).flatMap frame.refs).count r := by
  have hr := h.refs r
  simp only [frames, List.flatten_append, List.flatten_cons, List.cons_append, List.flatMap_append,
    List.flatMap_cons, List.count_append] at hr ⊢
  omega

/-- The thread that acts holds the lock exactly if its innermost call has the guard. -/
theorem wf.lock_iff (h : wf ⟨s, before ++ stack :: after, made, log⟩) :
    s.mutex_ = some before.length ↔ ∃ g ∈ stack.head?, .guard ∈ g.scope := by
  have hlock := h.lock before.length
  rw [stack_self] at hlock
  rw [hlock]
  constructor
  · rintro ⟨_, ⟨⟩, hguard⟩
    exact hguard
  · exact fun hguard => ⟨stack, rfl, hguard⟩

/-- A step adds to the log what it did. -/
theorem entries_flatMap {α : Type} (g : event → List α) (holder : Option Nat) :
    (log ++ e.toList.map (entry.mk t holder)).flatMap (fun x => g x.what) =
      log.flatMap (fun x => g x.what) ++ e.toList.flatMap g := by
  cases e <;> simp

/-- The call of the worker fits the executor after every step: the step was its own, or one of
another call, which leaves `active_` alone. -/
theorem wf.worker_step (h : wf ⟨s, before ++ (f :: rest) :: after, made, log⟩)
    (hstep : frame.Step before.length s f e s' calls) :
    worker_fits s'.executor
      ((before ++ (calls ++ rest) :: after).flatten.filter frame.is_run) := by
  have hworker := h.worker
  simp only [frames, List.flatten_append, List.flatten_cons, List.cons_append, List.filter_append,
    List.filter_cons] at hworker ⊢
  by_cases hrun : f.is_run = true
  · rw [if_pos hrun] at hworker
    -- no other call is the worker's
    obtain ⟨hbefore, hafter, step, scope, rfl, hfits⟩ := hworker.alone
    rw [hbefore, List.append_assoc, hafter, List.append_nil, List.nil_append]
    exact hstep.worker hfits
  · rw [if_neg hrun] at hworker
    obtain ⟨hnone, hpasses⟩ := hstep.other (by simpa using hrun)
    rw [hnone, List.nil_append]
    exact hworker.pass hpasses

/-- A step of one call keeps the whole. The calls of the other threads, and those below it in
its own stack, are the unknown summand in each count. -/
theorem wf.step (h : wf ⟨s, before ++ (f :: rest) :: after, made, log⟩)
    (hstep : frame.Step before.length s f e s' calls) :
    wf ⟨s', before ++ (calls ++ rest) :: after, made,
      log ++ e.toList.map (⟨before.length, s.mutex_, ·⟩)⟩ := by
  have hcounts := h.counts
  have hfits := h.fits
  have hheld : ∀ r, f.refs.count r ≤ s.use_count r := by
    intro r
    have hr := hcounts r
    omega
  have hmutex : s.mutex_ = some before.length ↔ .guard ∈ f.scope := by
    rw [h.lock_iff]
    simp
  have hguards := hstep.guards hfits hheld hmutex
  have hbelow := h.below (f :: rest) (by simp)
  have hhanded : handed ⟨s', before ++ (calls ++ rest) :: after, made,
      log ++ e.toList.map (⟨before.length, s.mutex_, ·⟩)⟩ =
        handed ⟨s, before ++ (f :: rest) :: after, made, log⟩ := by
    rw [handed, entries_flatMap, hstep.hands, List.append_nil]
    rfl
  refine ⟨?_, ?_, ?_, ?_, ?_, ?_, ?_, ?_, ?_, ?_⟩
  · intro r
    have hr := hstep.counts hcounts r
    simp only [frames, List.flatten_append, List.flatten_cons, List.flatMap_append,
      List.count_append] at hr ⊢
    omega
  · intro n
    -- an invocation has one owner at most, and this call counts as one of them
    have honce : ∀ n, f.values.count n + s.live n ≤ 1 := by
      intro n
      have hn := h.once n
      have hone := h.handed_once n
      simp only [frames, List.flatten_append, List.flatten_cons, List.cons_append,
        List.flatMap_append, List.flatMap_cons, List.count_append] at hn
      omega
    have hlives := hstep.lives hcounts honce n
    have hn := h.once n
    rw [hhanded, destroyed, entries_flatMap]
    simp only [destroyed, frames, List.flatten_append, List.flatten_cons, List.cons_append,
      List.flatMap_append, List.flatMap_cons, List.count_append] at hn ⊢
    omega
  · rw [hhanded]
    exact h.handed_once
  · rw [hhanded]
    exact h.handed_made
  · exact h.worker_step hstep
  · exact hstep.drained h.drained
  · intro g hg
    have hold := h.placed g
    simp only [frames, List.flatten_append, List.flatten_cons, List.mem_append, List.cons_append,
      List.mem_cons] at hg hold
    rcases hg with hg | (hg | hg) | hg
    · exact hold (.inl hg)
    · exact hguards.placed g hg
    · exact hold (.inr (.inr (.inl hg)))
    · exact hold (.inr (.inr (.inr hg)))
  · intro t
    by_cases ht : t = before.length
    · subst ht
      rw [stack_self, hguards.lock]
      cases calls with
      | nil =>
          -- what the call was made from has no guard
          refine ⟨by simp, ?_⟩
          rintro ⟨_, ⟨⟩, g, hg, hguard⟩
          exact absurd hguard (hbelow g (List.mem_of_mem_head? hg))
      | cons c calls => simp
    · rw [hguards.others t ht, h.lock t, stack_other ht]
  · intro stack hstack g hg
    rcases List.mem_append.mp hstack with hold | hmem
    · exact h.below stack (List.mem_append_left _ hold) g hg
    rcases List.mem_cons.mp hmem with rfl | hold
    · cases calls with
      | nil => exact hbelow g (List.mem_of_mem_tail hg)
      | cons c calls =>
          rcases List.mem_append.mp hg with hnew | hold
          · exact hguards.below g hnew
          · exact hbelow g hold
    · exact h.below stack (List.mem_append_right _ (List.mem_cons_of_mem _ hold)) g hg
  · intro entry hentry hcode
    rcases List.mem_append.mp hentry with hold | hnew
    · exact h.holders entry hold hcode
    · obtain ⟨what, hwhat, rfl⟩ := List.mem_map.mp hnew
      rw [Option.mem_toList] at hwhat
      cases hwhat
      exact fun hholder => hstep.apart hcode hfits hheld (hmutex.mp hholder)

/-- Code that may call the executor has no lock: the top frame of its thread is the user's,
whose scope is empty, and only the top frame of a thread can hold the guard. -/
theorem wf.unlocked (h : wf ⟨s, before ++ stack :: after, made, log⟩)
    (hcall : may_call before.length stack) : s.mutex_ ≠ some before.length := by
  intro hmutex
  obtain ⟨g, hg, hguard⟩ := h.lock_iff.mp hmutex
  cases stack with
  | nil => cases hg
  | cons c stack =>
      cases hg
      have hplaced := h.placed g (by simp [frames])
      unfold frame.placed at hplaced
      rw [show g.point = .user from hcall] at hplaced
      rw [hplaced] at hguard
      cases hguard

/-- A call that starts owns its parameter and nothing else. An invocation is new then, under the
number of the call, so it is counted for the first time. -/
theorem wf.call (h : wf ⟨s, before ++ stack :: after, made, log⟩)
    (hcall : may_call before.length stack) (hstarts : starts made f e) :
    wf ⟨s, before ++ (f :: stack) :: after, made + 1,
      log ++ e.toList.map (⟨before.length, s.mutex_, ·⟩)⟩ := by
  obtain ⟨hrefs, hvalues, hone, hnew, hdestroys, hcode, hrun, hplaced, hguard⟩ := hstarts.spec
  have hunlocked := h.unlocked hcall
  have hhanded : handed ⟨s, before ++ (f :: stack) :: after, made + 1,
      log ++ e.toList.map (⟨before.length, s.mutex_, ·⟩)⟩ =
        handed ⟨s, before ++ stack :: after, made, log⟩ ++ f.values := by
    rw [handed, entries_flatMap, hvalues]
    rfl
  refine ⟨?_, ?_, ?_, ?_, ?_, h.drained, ?_, ?_, ?_, ?_⟩
  · intro r
    have hr := h.refs r
    simp only [frames, List.flatten_append, List.flatten_cons, List.cons_append,
      List.flatMap_append, List.flatMap_cons, hrefs, List.nil_append] at hr ⊢
    exact hr
  · intro n
    have hn := h.once n
    rw [hhanded, destroyed, entries_flatMap, hdestroys, List.append_nil]
    simp only [destroyed, frames, List.flatten_append, List.flatten_cons, List.cons_append,
      List.flatMap_append, List.flatMap_cons, List.count_append] at hn ⊢
    omega
  · intro n
    have hn := h.handed_once n
    rw [hhanded, List.count_append]
    by_cases hmem : n ∈ f.values
    · have hmade := hnew n hmem
      -- numbers are given in order, so this one was never handed over
      have hfresh : n ∉ handed ⟨s, before ++ stack :: after, made, log⟩ := by
        intro hold
        have hlt := h.handed_made n hold
        simp only at hlt
        omega
      rw [List.count_eq_zero.mpr hfresh, Nat.zero_add]
      exact hone n
    · rw [List.count_eq_zero.mpr hmem]
      exact hn
  · intro n hn
    rw [hhanded] at hn
    rcases List.mem_append.mp hn with hold | hmem
    · exact Nat.lt_succ_of_lt (h.handed_made n hold)
    · exact Nat.lt_succ_of_le (Nat.le_of_eq (hnew n hmem))
  · have hworker := h.worker
    simp only [frames, List.flatten_append, List.flatten_cons, List.cons_append,
      List.filter_append, List.filter_cons, hrun] at hworker ⊢
    exact hworker
  · intro g hg
    have hold := h.placed g
    simp only [frames, List.flatten_append, List.flatten_cons, List.mem_append, List.cons_append,
      List.mem_cons] at hg hold
    rcases hg with hg | rfl | hg | hg
    · exact hold (.inl hg)
    · exact hplaced
    · exact hold (.inr (.inl hg))
    · exact hold (.inr (.inr hg))
  · intro t
    by_cases ht : t = before.length
    · subst ht
      rw [stack_self]
      refine ⟨fun hmutex => absurd hmutex hunlocked, ?_⟩
      rintro ⟨_, ⟨⟩, _, ⟨⟩, hmem⟩
      exact absurd hmem hguard
    · rw [h.lock t, stack_other ht]
  · intro l hl g hg
    rcases List.mem_append.mp hl with hold | hmem
    · exact h.below l (List.mem_append_left _ hold) g hg
    rcases List.mem_cons.mp hmem with rfl | hold
    · cases stack with
      | nil => cases hg
      | cons c stack =>
          rcases List.mem_cons.mp hg with rfl | hg
          · -- the code that calls
            exact fun hmem => hunlocked (h.lock_iff.mpr ⟨g, rfl, hmem⟩)
          · exact h.below (c :: stack) (by simp) g hg
    · exact h.below l (List.mem_append_right _ (List.mem_cons_of_mem _ hold)) g hg
  · intro entry hentry hcode'
    rcases List.mem_append.mp hentry with hold | hnew
    · exact h.holders entry hold hcode'
    · obtain ⟨what, hwhat, rfl⟩ := List.mem_map.mp hnew
      rw [Option.mem_toList] at hwhat
      rw [hcode what hwhat] at hcode'
      cases hcode'

/-- A new thread has no call, so the lists that are counted are the same with it and without. -/
theorem wf.thread {m : machine} (h : m.wf) : wf { m with threads := m.threads ++ [[]] } := by
  have hframes : frames { m with threads := m.threads ++ [[]] } = m.frames := by
    simp [frames]
  refine ⟨?_, ?_, h.handed_once, h.handed_made, ?_, h.drained, ?_, ?_, ?_, h.holders⟩
  · rw [hframes]
    exact h.refs
  · rw [hframes]
    exact h.once
  · rw [hframes]
    exact h.worker
  · rw [hframes]
    exact h.placed
  · intro t
    rw [h.lock t]
    by_cases hlt : t < m.threads.length
    · rw [List.getElem?_append_left hlt]
    · rw [List.getElem?_append_right (by omega), List.getElem?_eq_none (by omega),
        List.getElem?_singleton]
      by_cases ht : t - m.threads.length = 0
      · simp [ht]
      · simp [ht]
  · intro stack hstack g hg
    rcases List.mem_append.mp hstack with hold | hnew
    · exact h.below stack hold g hg
    · rw [List.mem_singleton.mp hnew] at hg
      cases hg

/-- Nothing is owned and nothing is locked at the start. -/
theorem wf_make (limit : Nat) : (make limit).wf := by
  -- nobody holds the mutex: the worker, if there is one, has no guard
  have hlock : ∀ t, (make limit).state.mutex_ = some t ↔
      ∃ stack, (make limit).threads[t]? = some stack ∧ ∃ g ∈ stack.head?, .guard ∈ g.scope := by
    intro t
    refine ⟨nofun, ?_⟩
    rintro ⟨stack, hstack, g, hg, hguard⟩
    have hmem := List.mem_of_getElem? hstack
    rw [make, List.mem_singleton] at hmem
    subst hmem
    by_cases hlimit : limit = 0
    · rw [if_pos hlimit] at hg
      cases hg
    · rw [if_neg hlimit] at hg
      cases hg
      cases hguard
  by_cases hlimit : limit = 0
  · subst hlimit
    exact ⟨fun _ => rfl, fun _ => rfl, by simp [handed, make], by simp [handed, make],
      .gone rfl rfl, fun _ => rfl, by simp [frames, make], hlock, by simp [make], by simp [make]⟩
  · have hthreads : (make limit).threads = [[⟨.run .entered, []⟩]] := by
      rw [make, if_neg hlimit]
    have hframes : (make limit).frames = [⟨.run .entered, []⟩] := by
      rw [frames, hthreads]
      rfl
    refine ⟨?_, ?_, by simp [handed, make], by simp [handed, make], ?_, ?_, ?_, hlock, ?_,
      by simp [make]⟩
    · rw [hframes]
      exact fun _ => rfl
    · rw [hframes]
      exact fun _ => rfl
    · rw [hframes]
      exact .here ⟨rfl, rfl⟩
    · intro hstop
      exact absurd (of_decide_eq_true hstop) hlimit
    · rw [hframes]
      simp [frame.placed]
    · rw [hthreads]
      simp

/-- Every state of a run is well formed, by induction over the steps, the calls that begin and
the threads that come. -/
theorem wf_reachable {limit : Nat} {m : machine} (h : (owner_runs limit).Reachable m) : m.wf := by
  refine h.invariant (P := machine.wf) ?_ ?_
  · rintro _ rfl
    exact wf_make limit
  · intro m t m' _ hwf hstep
    cases hstep with
    | step hstep => exact hwf.step hstep
    | call hcall hstarts => exact hwf.call hcall hstarts
    | thread => exact hwf.thread

/-- When no call goes on, the executor is stopped and nothing is left of what was handed to it. -/
theorem wf.idle_spec {m : machine} (h : m.wf) (hidle : m.idle) (n : Nat) :
    m.destroyed.count n = m.handed.count n := by
  have hframes : m.frames = [] := hidle
  have hworker := h.worker
  rw [hframes] at hworker
  cases hworker with
  | gone hactive hstop =>
      have hrefs := h.refs n
      have honce := h.once n
      rw [hframes] at hrefs honce
      simp only [queue_refs, h.drained hstop, hactive, Option.toList_none, List.map_nil,
        List.append_nil, List.count_nil, List.flatMap_nil, Nat.add_zero] at hrefs honce
      rw [shared.live, if_pos hrefs, Nat.add_zero] at honce
      exact honce

end machine

/-! ## Calls of `enqueue`

A call that is refused or throws has changed nothing. To say that of a whole call its progress
is followed: it has spliced its work into the queue or not, and the splice is the one step of it
that touches the executor. The tally compares the calls, going on and over, with the admissions
of the record.

The answer of a call that was refused is known before its scope is left. Leaving the scope runs
the destructor of the invocation that was not taken, which may call `enqueue` again; that is
another call with a number of its own, and the progress of the outer one is not touched by it. -/

/-- Whether the call was answered with success. -/
def outcome.is_admitted : outcome → Bool
  | .admitted => true
  | _ => false

/-- The call of `enqueue`, and whether it has spliced its work into the queue. -/
def position.progress : position → Option (Nat × Bool)
  | .enqueue n _ .spliced => some (n, true)
  | .enqueue n _ .unlocked => some (n, true)
  | .enqueue n _ _ => some (n, false)
  | .leaving (some (n, answer)) => some (n, answer.is_admitted)
  | _ => none

/-- The same of a frame. -/
def frame.progress (f : frame) : Option (Nat × Bool) := f.point.progress

/-- To leave a scope is no progress. -/
theorem position.closing_progress {p q : position} (h : p.closing = some q) :
    q.progress = p.progress := by
  unfold position.closing at h
  split at h <;> cases h <;> rfl

/-- Nor is taking the lock. -/
theorem position.locking_progress {p q : position} (h : p.locking = some q) :
    q.progress = p.progress := by
  unfold position.locking at h
  split at h <;> cases h <;> rfl

/-- The answer, as the progress of a call that is over. -/
def answer_progress (answer : Nat × outcome) : Nat × Bool := (answer.1, answer.2.is_admitted)

/-- The progress of one call, as a list. -/
theorem frame.filterMap_progress_one (f : frame) :
    [f].filterMap frame.progress = f.progress.toList := by
  simp only [List.filterMap_cons, List.filterMap_nil]
  cases f.progress <;> rfl

/-- The same for a call with its parts named. -/
theorem frame.filterMap_progress (p : position) (scope : List object) :
    [frame.mk p scope].filterMap frame.progress = p.progress.toList := by
  simp only [List.filterMap_cons, List.filterMap_nil, frame.progress]
  cases p.progress <;> rfl

/-- A call of `enqueue` goes on as it was and leaves the executor alone, or changes it and is
admitted. -/
theorem frame.Step.progress {t : Nat} {s s' : shared} {f : frame} {e : Option event}
    {calls : List frame} (h : frame.Step t s f e s' calls) :
    (e.toList.flatMap event.admits = [] ∧
      calls.filterMap frame.progress ++ (e.toList.flatMap event.answers).map answer_progress =
        f.progress.toList ∧ (f.progress ≠ none → s'.executor = s.executor)) ∨
    ∃ n, e = some (.admitted n) ∧ f.progress = some (n, false) ∧
      calls.filterMap frame.progress = [(n, true)] := by
  cases h with
  -- the one step that admits: the call has its number, and its progress is noted
  | enqueue_splice hok => exact .inr ⟨_, rfl, rfl, rfl⟩
  -- letting go runs destructors in calls of their own, which are no `enqueue`
  | destroy hclosing hfirst hlast =>
      refine .inl ⟨rfl, ?_, fun _ => shared.release_executor _⟩
      change (frame.mk _ _ :: _).filterMap frame.progress ++ [] = _
      rw [List.append_nil, List.filterMap_cons_none rfl, filterMap_progress]
      rfl
  | release hclosing hfirst hlast =>
      refine .inl ⟨rfl, ?_, fun _ => shared.release_executor _⟩
      exact (List.append_nil _).trans (filterMap_progress _ _)
  | close hclosing hfirst hguard =>
      refine .inl ⟨rfl, ?_, fun _ => rfl⟩
      refine ((List.append_nil _).trans (filterMap_progress _ _)).trans ?_
      rw [position.closing_progress hclosing]
      rfl
  | unlock hclosing =>
      refine .inl ⟨rfl, ?_, fun _ => rfl⟩
      refine ((List.append_nil _).trans (filterMap_progress _ _)).trans ?_
      rw [position.closing_progress hclosing]
      rfl
  | lock hlocking hfree =>
      refine .inl ⟨rfl, ?_, fun _ => rfl⟩
      refine ((List.append_nil _).trans (filterMap_progress _ _)).trans ?_
      rw [position.locking_progress hlocking]
      rfl
  | enqueue_invalid hinvalid hanswer =>
      refine .inl ⟨rfl, ?_, fun _ => rfl⟩
      rcases hanswer with rfl | rfl <;> rfl
  | @enqueue_throw n id step scope hstep =>
      refine .inl ⟨rfl, ?_, fun _ => rfl⟩
      simp only [List.mem_cons, List.not_mem_nil, or_false] at hstep
      rcases hstep with rfl | rfl | rfl | rfl <;> rfl
  | enqueue_refuse herror hanswer =>
      refine .inl ⟨rfl, ?_, fun _ => rfl⟩
      rcases hanswer with rfl | rfl <;> rfl
  -- these change the executor, but are no steps of an `enqueue`
  | section_take | run_take | run_reset | run_finish =>
      exact .inl ⟨rfl, rfl, fun hnone => absurd rfl hnone⟩
  | _ => exact .inl ⟨rfl, rfl, fun _ => rfl⟩

/-! ### Every call is accounted for

The tally is kept up to permutation: a call that moves from the stack of a thread to the record
changes its place in the list and nothing else. It has three rules, for a call that is admitted,
for one that starts, and for a number that is used up by a call of another kind. -/

/-- The calls so far, each with its progress, against what the record says was admitted. -/
structure tallied (made : Nat) (admitted : List Nat) (calls : List (Nat × Bool)) : Prop where
  nodup : (calls.map Prod.fst).Nodup
  below : ∀ c ∈ calls, c.1 < made
  spliced : ∀ c ∈ calls, c.1 ∈ admitted ↔ c.2 = true
  fresh : ∀ n ∈ admitted, n < made

/-- The order of the calls does not matter. -/
theorem tallied.perm {made : Nat} {admitted : List Nat} {l l' : List (Nat × Bool)}
    (h : tallied made admitted l) (hperm : l.Perm l') : tallied made admitted l' :=
  ⟨(hperm.map Prod.fst).nodup_iff.mp h.nodup, fun c hc => h.below c (hperm.mem_iff.mpr hc),
    fun c hc => h.spliced c (hperm.mem_iff.mpr hc), h.fresh⟩

/-- The first of the calls is admitted: its flag and the record change together. -/
theorem tallied.admit {made n : Nat} {admitted : List Nat} {l : List (Nat × Bool)}
    (h : tallied made admitted ((n, false) :: l)) :
    tallied made (admitted ++ [n]) ((n, true) :: l) := by
  obtain ⟨hnodup, hmade, hadmitted, hfresh⟩ := h
  have hn := hmade (n, false) List.mem_cons_self
  refine ⟨hnodup, ?_, ?_, ?_⟩
  · rw [List.forall_mem_cons] at hmade ⊢
    exact hmade
  · intro c hc
    rcases List.mem_cons.mp hc with rfl | hold
    · simp
    · have hne : c.1 ≠ n := by
        intro heq
        rw [List.map_cons, List.nodup_cons] at hnodup
        exact hnodup.1 (List.mem_map.mpr ⟨c, hold, heq⟩)
      rw [List.mem_append, List.mem_singleton, or_iff_left hne]
      exact hadmitted c (List.mem_cons_of_mem _ hold)
  · intro m hm
    rcases List.mem_append.mp hm with hm | hm
    · exact hfresh m hm
    · rw [List.mem_singleton.mp hm]
      exact hn

/-- Another call starts. Its number is new, so no admission is recorded under it. -/
theorem tallied.start {made : Nat} {admitted : List Nat} {l : List (Nat × Bool)}
    (h : tallied made admitted l) : tallied (made + 1) admitted ((made, false) :: l) := by
  obtain ⟨hnodup, hmade, hadmitted, hfresh⟩ := h
  refine ⟨?_, ?_, ?_, fun n hn => Nat.lt_succ_of_lt (hfresh n hn)⟩
  · rw [List.map_cons, List.nodup_cons]
    refine ⟨?_, hnodup⟩
    intro hmem
    obtain ⟨c, hc, heq⟩ := List.mem_map.mp hmem
    have hlt := hmade c hc
    omega
  · rw [List.forall_mem_cons]
    exact ⟨Nat.lt_succ_self made, fun c hc => Nat.lt_succ_of_lt (hmade c hc)⟩
  · rw [List.forall_mem_cons]
    refine ⟨?_, hadmitted⟩
    have hold : made ∉ admitted := fun hmem => Nat.lt_irrefl made (hfresh made hmem)
    simpa using hold

/-- A call that is none of `enqueue` takes a number too. -/
theorem tallied.grow {made : Nat} {admitted : List Nat} {l : List (Nat × Bool)}
    (h : tallied made admitted l) : tallied (made + 1) admitted l :=
  ⟨h.nodup, fun c hc => Nat.lt_succ_of_lt (h.below c hc), h.spliced,
    fun n hn => Nat.lt_succ_of_lt (h.fresh n hn)⟩

namespace machine

/-- The calls of `enqueue` that go on, and those that were answered. -/
def calls (m : machine) : List (Nat × Bool) :=
  m.frames.filterMap frame.progress ++ m.answered.map answer_progress

/-- The calls of one stack may be counted first. -/
theorem calls_perm {s : shared} {stack : List frame} {before after : List (List frame)}
    {made : Nat} {log : List entry} (fs : List frame) :
    (calls ⟨s, before ++ (fs ++ stack) :: after, made, log⟩).Perm
      (fs.filterMap frame.progress ++ calls ⟨s, before ++ stack :: after, made, log⟩) := by
  simp only [calls, frames, answered, List.flatten_append, List.flatten_cons,
    List.filterMap_append, List.append_assoc]
  exact List.perm_append_comm_assoc _ _ _

/-- A step of a call that goes on keeps the tally: the calls and the admissions are what they
were, or the step is the splice, which changes both. -/
theorem tallied_step {s s' : shared} {f : frame} {e : Option event} {new rest : List frame}
    {before after : List (List frame)} {made : Nat} {log : List entry}
    (h : tallied made (admitted ⟨s, before ++ (f :: rest) :: after, made, log⟩)
      (calls ⟨s, before ++ (f :: rest) :: after, made, log⟩))
    (hstep : frame.Step before.length s f e s' new) :
    tallied made
      (admitted ⟨s', before ++ (new ++ rest) :: after, made,
        log ++ e.toList.map (⟨before.length, s.mutex_, ·⟩)⟩)
      (calls ⟨s', before ++ (new ++ rest) :: after, made,
        log ++ e.toList.map (⟨before.length, s.mutex_, ·⟩)⟩) := by
  -- the call's progress first, then what the others have
  have hold := h.perm (calls_perm [f])
  have hnew : (calls ⟨s', before ++ (new ++ rest) :: after, made,
      log ++ e.toList.map (⟨before.length, s.mutex_, ·⟩)⟩).Perm
        (new.filterMap frame.progress ++
          (e.toList.flatMap event.answers).map answer_progress ++
          calls ⟨s, before ++ rest :: after, made, log⟩) := by
    refine (calls_perm new).trans ?_
    rw [List.append_assoc]
    refine List.Perm.append_left _ ?_
    simp only [calls, frames, answered, entries_flatMap, List.map_append]
    rw [← List.append_assoc]
    exact List.perm_append_comm
  have hone : [f].filterMap frame.progress = f.progress.toList := frame.filterMap_progress_one f
  rw [hone] at hold
  rw [admitted, entries_flatMap]
  rcases hstep.progress with ⟨hadmits, hprogress, -⟩ | ⟨n, rfl, hprogress, hnext⟩
  · rw [hadmits, List.append_nil]
    rw [hprogress] at hnew
    exact hold.perm hnew.symm
  · rw [hnext] at hnew
    rw [hprogress] at hold
    exact hold.admit.perm hnew.symm

/-- Every state of a run is accounted for. A call that begins adds an entry, its end moves the
entry, and its splice marks it. -/
theorem tallied_reachable {limit : Nat} {m : machine} (h : (owner_runs limit).Reachable m) :
    tallied m.made m.admitted m.calls := by
  refine h.invariant (P := fun m => tallied m.made m.admitted m.calls) ?_ ?_
  · rintro _ rfl
    have hcalls : (make limit).calls = [] := by
      by_cases hlimit : limit = 0
      · simp [calls, frames, answered, make, hlimit]
      · simp [calls, frames, answered, make, hlimit, frame.progress, position.progress]
    rw [hcalls]
    exact ⟨List.nodup_nil, by simp, by simp, by simp [admitted, make]⟩
  · intro m t m' _ hm hstep
    cases hstep with
    | step hstep => exact tallied_step hm hstep
    | @call s f e stack before after made log hcall hstarts =>
        -- a new call is one more frame, somewhere on the stacks
        have hperm : (calls ⟨s, before ++ (f :: stack) :: after, made + 1,
            log ++ e.toList.map (⟨before.length, s.mutex_, ·⟩)⟩).Perm
              (f.progress.toList ++ calls ⟨s, before ++ stack :: after, made + 1,
                log ++ e.toList.map (⟨before.length, s.mutex_, ·⟩)⟩) := by
          rw [← frame.filterMap_progress_one]
          exact calls_perm [f]
        -- making a call admits nothing and answers nothing
        have hsilent : e.toList.flatMap event.admits = [] ∧
            e.toList.flatMap event.answers = [] := by
          cases hstarts <;> exact ⟨rfl, rfl⟩
        have hsame : calls ⟨s, before ++ stack :: after, made + 1,
            log ++ e.toList.map (⟨before.length, s.mutex_, ·⟩)⟩ =
              calls ⟨s, before ++ stack :: after, made, log⟩ := by
          simp only [calls, frames, answered, entries_flatMap, hsilent.2, List.append_nil]
        rw [hsame] at hperm
        refine tallied.perm ?_ hperm.symm
        rw [admitted, entries_flatMap, hsilent.1, List.append_nil]
        cases hstarts with
        | enqueue_empty id => exact hm.start
        | enqueue id => exact hm.start
        | section_of call => exact hm.grow
    -- a new thread has no call yet
    | thread =>
        have hcalls : calls { m with threads := m.threads ++ [[]] } = m.calls := by
          simp [calls, frames, answered]
        rw [hcalls]
        exact hm

/-- A step of a thread inside a call of `enqueue` leaves the executor alone, or is the one that
admits the call. -/
theorem enqueue_step {m m' : machine} {t n : Nat} {b : Bool} {f : frame} {rest : List frame}
    (hstep : machine.Step m t m') (hthread : m.threads[t]? = some (f :: rest))
    (hcall : f.progress = some (n, b)) :
    m'.state.executor = m.state.executor ∨ m'.admitted = m.admitted ++ [n] := by
  cases hstep with
  | @step s s' g e new rest' before after made log hstep =>
      rw [stack_self] at hthread
      cases hthread
      rcases hstep.progress with ⟨-, -, hsame⟩ | ⟨k, rfl, hprogress, -⟩
      · exact .inl (hsame (by simp [hcall]))
      · obtain ⟨rfl, -⟩ := Prod.mk.inj (Option.some.inj (hcall.symm.trans hprogress))
        right
        rw [admitted, entries_flatMap]
        rfl
  | call => exact .inl rfl
  | thread => exact .inl rfl

end machine

/-! ## User code and the lock

Destructors of captures, stop callbacks and invocations are code of others, and may call back.
What that needs is said three times: the lock is not held then, each capture is destroyed once,
and a call that fails leaves the executor as it was.

The statement is about every entry of the log at which code of others ran, whoever ran it and
however deep in calls of others. It says who held the lock, and this was never the thread
itself; another thread may well hold it at that time, which delays nobody who does not ask for
it. -/

/-- In every run: when an invocation is destroyed, a stop is requested or an invocation begins,
the thread that does it does not hold the mutex. An invocation is destroyed at most once, and all
that were handed over have been by the time nothing goes on. A call of `enqueue` that ends
without being admitted changed nothing of the executor. -/
theorem captures_outside_lock {limit : Nat} {m : machine}
    (h : (owner_runs limit).Reachable m) :
    (∀ entry ∈ m.log, entry.what.user_code = true → entry.holder ≠ some entry.thread) ∧
    (∀ n, m.destroyed.count n ≤ m.handed.count n ∧ m.handed.count n ≤ 1 ∧
      (m.idle → m.destroyed.count n = m.handed.count n)) ∧
    (∀ n answer, (n, answer) ∈ m.answered → answer ≠ .admitted → n ∉ m.admitted) ∧
    ∀ m' t n b f rest, machine.Step m t m' → m.threads[t]? = some (f :: rest) →
      f.progress = some (n, b) →
        m'.state.executor = m.state.executor ∨ m'.admitted = m.admitted ++ [n] := by
  have hwf := machine.wf_reachable h
  refine ⟨hwf.holders, ?_, ?_, ?_⟩
  · intro n
    have honce := hwf.once n
    exact ⟨by omega, hwf.handed_once n, fun hidle => hwf.idle_spec hidle n⟩
  · intro n answer hanswer hnot hadmitted
    have htally := machine.tallied_reachable h
    have hmem : answer_progress (n, answer) ∈ m.calls :=
      List.mem_append_right _ (List.mem_map_of_mem hanswer)
    have hflag := (htally.spliced _ hmem).mp hadmitted
    cases answer with
    | admitted => exact hnot rfl
    | refused err => cases hflag
    | thrown => cases hflag
  · intro m' t n b f rest hstep hthread hcall
    exact machine.enqueue_step hstep hthread hcall

/-- The second thread's innermost call takes a step. -/
theorem reaches_second {limit made : Nat} {s s' : shared} {f : frame} {e : Option event}
    {calls rest : List frame} {log : List entry} (hstep : frame.Step 1 s f e s' calls)
    (h : (owner_runs limit).Reachable ⟨s, [[], f :: rest], made, log⟩) :
    (owner_runs limit).Reachable
      ⟨s', [[], calls ++ rest], made, log ++ e.toList.map (entry.mk 1 s.mutex_)⟩ :=
  h.step (@machine.Step.step s s' f e calls rest [[]] [] made log hstep)

/-- An executor without a worker refuses a call, and the capture is destroyed on the way out. -/
theorem captures_outside_lock_refused : ∃ m, (owner_runs 0).Reachable m ∧ m.idle ∧
    m.handed = [0] ∧ m.destroyed.count 0 = m.handed.count 0 ∧
    ∀ entry ∈ m.log, entry.what.user_code = true → entry.holder ≠ some entry.thread := by
  have hinit : (owner_runs 0).Reachable (.make 0) := .of_init rfl
  have h0 := hinit.step (@machine.Step.thread (.make 0))
  have h1 := h0.step (@machine.Step.call _ _ _ [] [[]] [] 0 [] (by simp [may_call])
    (.enqueue (.int64 1)))
  have h2 := reaches_second (.enqueue_declare (by simp)) h1
  have h3 := reaches_second .enqueue_allocate h2
  have h4 := reaches_second .enqueue_construct h3
  have h5 := reaches_second .enqueue_node h4
  have h6 := reaches_second (.lock rfl rfl) h5
  have h7 := reaches_second (.enqueue_refuse rfl (.inl rfl)) h6
  have h8 := reaches_second (.unlock rfl) h7
  have h9 := reaches_second (.destroy rfl rfl (by exact rfl)) h8
  have h10 := reaches_second .user_returns h9
  have h11 := reaches_second (.close rfl rfl (by simp)) h10
  have h12 := reaches_second (.close rfl rfl (by simp)) h11
  have h13 := reaches_second (.answer 0 _) h12
  obtain ⟨hholders, honce, -⟩ := captures_outside_lock h13
  exact ⟨_, h13, rfl, rfl, (honce 0).2.2 rfl, hholders⟩

end SynapseMcp.executor_owners
