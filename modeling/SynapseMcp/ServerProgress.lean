/-
That the server comes to rest: what is under way ends, and what was admitted is answered.

A step the server takes by itself is any step but the three kinds its surroundings decide
on: another message is delivered, another thread calls `stop()`, the owner goes on. What
is left to do is counted place by place, each position of a thread by the steps it can
still take before it waits for its surroundings, with a call of `stop()` it may still make
and a work it may still enqueue paid for in advance. Every own step spends at least one.

The stuck states are then looked at thread by thread. A thread that is inside a call has a
step, except where it waits for a call of `stop()`, and those always have one; so nobody
waits for anybody in a circle.
-/
import SynapseMcp.Progress
import SynapseMcp.ServerDelivery
import SynapseMcp.ServerFailures
import SynapseMcp.ServerStart

set_option autoImplicit false

namespace SynapseMcp

open Transition

/-- The steps of the threads that are in the SDK's code already. -/
def own_step : world → server_action → world → Prop
  | _, .deliver _, _ => False
  | _, .call_stop, _ => False
  | _, .owner, _ => False
  | _, _, _ => True

/-! ## What is left to do

The weights are found by going backwards: the last position before a thread waits for its
surroundings has none, and every other has one more than the heaviest position it can go on to.
A step that begins a call of `stop()`, or that enqueues a work for the worker, takes over what
that will cost. So the sum over all threads falls with every own step, although a step may well
give work to another thread. The small lemmas give the weight of each position by name, so that
a later proof computes with numbers. -/

/-- The rest of a cleanup: the stop callback, the objects to be destroyed, and the two steps
each of them takes. -/
def cleanup.steps_left : cleanup → Nat
  | .requesting _ discarded => 2 * discarded.length + 2
  | .destroying discarded => 2 * discarded.length + 1
  | .completing _ rest => 2 * rest.length + 2

/-- The rest of a call of `stop()`, with its section, the executor, the cleanup it may be left
with, and the stop of the transport. -/
def stop_at.steps_left : stop_at → Nat
  | .entered => 5
  | .executor => 4
  | .cleaning rest => rest.steps_left + 1
  | .transport => 1
  | .returned => 0

/-- A reader that may still call `stop()` has the five steps of that call, one that may
still enqueue a work has the sixteen the worker takes for it. -/
def reader_at.steps_left : reader_at → Nat
  | .idle => 0
  | .receiving _ => 20
  | .enqueueing _ _ => 19
  | .rejected _ _ => 9
  | .leaving _ threw => if threw then 8 else 2
  | .completing _ threw => if threw then 7 else 1
  | .cancelling _ => 3
  | .cleaning rest => rest.steps_left
  | .stopping _ held => if held.isSome then 3 else 1

/-- The rest of a turn of the worker. A work that was taken from the queue has still to be
called, which is the most of it. -/
def worker_steps_left : worker_at closure → Nat
  | .waiting => 2
  | .dequeued _ => 17
  | .calling _ => 6
  | .returned _ => 5
  | .retiring _ => 4
  | .leaving => 1
  | .gone => 0

/-- The rest of an invocation, with the call of `stop()` that a failed reply may still lead to.
-/
def call_at.steps_left : call_at → Nat
  | .outside => 1
  | .entered => 10
  | .applying => 9
  | .replying _ => 8
  | .stopping _ => 2
  | .finished => 1
  | .completing _ => 0

def stops_left (stops : List stop_at) : Nat := (stops.map stop_at.steps_left).sum

/-- How many steps the server can take by itself, at most. -/
def world.steps_left (w : world) : Nat :=
  16 * w.run.executor.pending_.length + worker_steps_left w.run.worker + w.call.steps_left +
    w.reader.steps_left + stops_left w.stops

section

variable (req : request) (op call : Nat) (wire : json) (held : Option Nat) (rest : cleanup)

theorem left_receiving : (reader_at.receiving wire).steps_left = 20 := rfl

theorem left_enqueueing : (reader_at.enqueueing req op).steps_left = 19 := rfl

theorem left_rejected : (reader_at.rejected req op).steps_left = 9 := rfl

theorem left_leaving (threw : Bool) :
    (reader_at.leaving op threw).steps_left = if threw then 8 else 2 := rfl

theorem left_completing (threw : Bool) :
    (reader_at.completing op threw).steps_left = if threw then 7 else 1 := rfl

theorem left_cancelling : (reader_at.cancelling op).steps_left = 3 := rfl

theorem left_cleaning : (reader_at.cleaning rest).steps_left = rest.steps_left := rfl

theorem left_stopping :
    (reader_at.stopping call held).steps_left = if held.isSome then 3 else 1 := rfl

theorem stop_left_entered : stop_at.entered.steps_left = 5 := rfl

theorem stop_left_executor : stop_at.executor.steps_left = 4 := rfl

theorem stop_left_cleaning : (stop_at.cleaning rest).steps_left = rest.steps_left + 1 := rfl

theorem left_requesting (active_stop : Option Nat) (discarded : List (work closure)) :
    (cleanup.requesting active_stop discarded).steps_left = 2 * discarded.length + 2 := rfl

end

/-- A call of `stop()` that begins brings in all of its steps. -/
@[simp] theorem stops_left_entered (stops : List stop_at) :
    stops_left (stops ++ [.entered]) = stops_left stops + 5 := by
  simp [stops_left, stop_at.steps_left]

/-- A call of `stop()` that goes on changes the sum by the difference of its two positions. -/
theorem stops_left_set {stops : List stop_at} {call : Nat} {before : stop_at} (after : stop_at)
    (h : stops[call]? = some before) :
    stops_left (stops.set call after) + before.steps_left =
      stops_left stops + after.steps_left :=
  sum_map_set stop_at.steps_left after h

/-- Every step of a cleanup but the last leaves less of it. -/
theorem cleanup.next_left (rest : cleanup) (s : server) (keeps : Nat → Bool) :
    ((rest.next s keeps).2.elim 0 cleanup.steps_left) < rest.steps_left := by
  cases rest with
  | requesting active_stop discarded => simp [cleanup.next, cleanup.steps_left]
  | destroying discarded =>
      cases discarded with
      | nil => simp [cleanup.next, cleanup.steps_left]
      | cons item tail =>
          cases hkeep : keeps item.call.op <;>
            simp only [cleanup.next, cleanup.steps_left, hkeep, Option.elim_some,
              List.length_cons, Bool.false_eq_true, if_true, if_false] <;> omega
  | completing op tail => simp [cleanup.next, cleanup.steps_left]

/-- A reader with a cleanup to do has the steps of the cleanup left, and one without has none.
-/
theorem reader_cleaned_left (rest : Option cleanup) :
    (reader_at.cleaned rest).steps_left = rest.elim 0 cleanup.steps_left := by
  cases rest <;> rfl

/-- A call of `stop()` has the stop of the transport left behind its cleanup. -/
theorem stop_cleaned_left (rest : Option cleanup) :
    (stop_at.cleaned rest).steps_left = rest.elim 0 cleanup.steps_left + 1 := by
  cases rest <;> rfl

/-- Leaving `receive` by an exception costs the call of `stop()` that catches it. -/
theorem left_steps (calls : Nat) (stops : List stop_at) (threw : Bool) :
    (reader_at.left calls threw).steps_left + stops_left (left_stops stops threw) =
      (if threw then 6 else 0) + stops_left stops := by
  cases threw with
  | true =>
      simp only [reader_at.left, left_stops, if_true, stops_left_entered, left_stopping,
        Option.isSome_none, Bool.false_eq_true, if_false]
      omega
  | false => rfl

/-- The first section of `receive` leaves the reader with less than it came with. -/
theorem received_left (next : receive_next) (stops : List stop_at) :
    (next.reader stops.length).steps_left + stops_left (next.stops stops) <
      20 + stops_left stops := by
  cases next with
  | stop =>
      simp only [receive_next.reader, receive_next.stops, stops_left_entered, left_stopping,
        Option.isSome_none, Bool.false_eq_true, if_false]
      omega
  | done | enqueue | cancel =>
      simp only [receive_next.reader, receive_next.stops, reader_at.steps_left]
      omega

/-! ## Every own step spends

There is a lemma for each of the threads that can act: a call of `stop()`, the reader and the
worker. Each goes through the positions the thread can be in and compares the two weights; only
the enqueue and the cancellation move works between the queue and a local list, and their lemmas
come first. -/

section Step

variable {w t : world} {a : server_action}

/-- An enqueue brings in one work, or none and a refusal. -/
theorem enqueue_left (r : runtime closure) (req : request) (op : Nat) :
    16 * (r.enqueue req.id (some ⟨req, op⟩)).1.executor.pending_.length +
        (if (r.enqueue req.id (some ⟨req, op⟩)).2 = none then reader_at.leaving op false
          else .rejected req op).steps_left <
      16 * r.executor.pending_.length + 19 := by
  rcases r.enqueue_cases req.id (some ⟨req, op⟩) with
    ⟨err, -, heq⟩ | ⟨c, -, -, -, -, -, -, heq⟩
  · rw [heq]
    simp only [reduceCtorEq, if_false, left_rejected]
    omega
  · rw [heq]
    simp only [if_true, left_leaving, List.length_append, List.length_singleton,
      Bool.false_eq_true, if_false]
    omega

/-- A cancel moves at most one work from the queue to a local list. -/
theorem cancel_left (r : runtime closure) (id : json_rpc_id) :
    16 * (r.cancel id).1.executor.pending_.length + 2 * (r.cancel id).2.discarded.length ≤
      16 * r.executor.pending_.length := by
  rcases r.cancel_cases id with
    ⟨v, -, -, heq⟩ | ⟨before, v, after, hitems, -, -, -, heq⟩ | ⟨-, -, heq⟩
  · rw [heq]
    simp
  · rw [heq, hitems]
    simp only [List.length_append, List.length_cons, List.length_nil]
    omega
  · rw [heq]
    simp

/-- A step of a call of `stop()` spends one, whatever it finds in the queue: the works it takes
out were counted there. -/
theorem world.Step.spends_stop (hstep : world.Step w .stop t) : t.steps_left < w.steps_left := by
  cases hstep with
  | @stop_server call hcall =>
      have hset := stops_left_set (.section_left w.server.stop.2) hcall
      have hless : (stop_at.section_left w.server.stop.2).steps_left < 5 := by
        cases w.server.stop.2 <;> decide
      simp only [world.steps_left]
      rw [stop_left_entered] at hset
      omega
  | @stop_executor call hcall =>
      have hset := stops_left_set
        (.cleaning (.requesting w.run.stop.2.active_stop w.run.stop.2.discarded)) hcall
      -- the queue is emptied into the local list
      have hdiscarded : w.run.stop.2.discarded = w.run.executor.pending_ := rfl
      have hpending : w.run.stop.1.executor.pending_ = [] := rfl
      have hworker : w.run.stop.1.worker = w.run.worker := rfl
      rw [stop_left_executor, stop_left_cleaning, left_requesting, hdiscarded] at hset
      rw [hdiscarded]
      simp only [world.steps_left, hpending, hworker, List.length_nil]
      omega
  | @stop_cleans call rest hcall =>
      have hset := stops_left_set (.cleaned (rest.next w.server w.reader.keeps).2) hcall
      have hnext := rest.next_left w.server w.reader.keeps
      rw [stop_cleaned_left, stop_left_cleaning] at hset
      simp only [world.steps_left]
      omega
  | @stop_transport call hcall =>
      have hset := stops_left_set .returned hcall
      have hone : stop_at.transport.steps_left = 1 := rfl
      have hzero : stop_at.returned.steps_left = 0 := rfl
      simp only [world.steps_left]
      omega

/-- A step of the reader spends one. If the reader enqueues, the work it brings in was paid for
while it was on its way to the queue. -/
theorem world.Step.spends_reader (hstep : world.Step w .reader t) :
    t.steps_left < w.steps_left := by
  cases hstep with
  | @enqueue req op hreader =>
      have hless := enqueue_left w.run req op
      simp only [world.steps_left, hreader, runtime.enqueue_worker, left_enqueueing]
      omega
  | @leave_shared op threw hreader hshared =>
      have hleft := left_steps w.stops.length w.stops threw
      simp only [world.steps_left, hreader, left_leaving]
      cases threw <;> simp only [Bool.false_eq_true, if_true, if_false] at hleft ⊢ <;> omega
  | @leave_last op threw hreader hlast =>
      simp only [world.steps_left, hreader, left_leaving, left_completing]
      cases threw <;> simp only [Bool.false_eq_true, if_true, if_false] <;> omega
  | @reader_completes op threw hreader =>
      have hleft := left_steps w.stops.length w.stops threw
      simp only [world.steps_left, hreader, left_completing]
      cases threw <;> simp only [Bool.false_eq_true, if_true, if_false] at hleft ⊢ <;> omega
  -- a cancelled work leaves the queue, and what it weighed pays for its destruction
  | @cancel op hreader =>
      have hless := cancel_left w.run (w.server.id_of op)
      have hworker := cancel_worker w.run (w.server.id_of op)
      simp only [world.steps_left, hreader, hworker, left_cancelling, left_cleaning,
        left_requesting]
      omega
  | @reader_cleans rest hreader =>
      have hnext := rest.next_left w.server fun _ => false
      simp only [world.steps_left, hreader, reader_cleaned_left, left_cleaning]
      omega
  | @reader_stopped call held hreader hreturned =>
      simp only [world.steps_left, hreader]
      cases held <;> simp [reader_at.steps_left]

/-- A step of the worker spends one, in and around the invocation of a work. -/
theorem world.Step.spends_worker (hstep : world.Step w .worker t) :
    t.steps_left < w.steps_left := by
  cases hstep with
  -- the queued work is worth its whole way through the worker
  | @dequeue item e hworker htake =>
      obtain ⟨-, rest, hpending, rfl⟩ := owned_executor.dequeue_some htake
      simp only [world.steps_left, runtime.dequeue, hworker, hpending, worker_steps_left,
        List.length_cons]
      omega
  | @invoke item hworker =>
      simp only [world.steps_left, runtime.invoke, hworker, worker_steps_left,
        call_at.steps_left]
      omega
  | apply hworker hcall hmay =>
      simp only [world.steps_left, hcall, call_at.steps_left]
      omega
  | skip hworker hcall hmay =>
      simp only [world.steps_left, hcall, call_at.steps_left]
      omega
  | call_stopped hcall hreturned =>
      simp only [world.steps_left, hcall, call_at.steps_left]
      omega
  | finish_call hworker hcall =>
      simp only [world.steps_left, runtime.finish_call, hworker, hcall, worker_steps_left,
        call_at.steps_left]
      omega
  | reset_active hworker =>
      simp only [world.steps_left, runtime.reset_active, owned_executor.reset_active, hworker,
        worker_steps_left]
      omega
  | release_shared hworker hcall hshared =>
      simp only [world.steps_left, runtime.release, hworker, worker_steps_left]
      omega
  -- the last reference leads into the completion, the others end here
  | release_last hworker hcall hlast =>
      simp only [world.steps_left, hcall, call_at.steps_left]
      omega
  | call_completes hworker hcall =>
      simp only [world.steps_left, runtime.release, hworker, hcall, worker_steps_left,
        call_at.steps_left]
      omega
  | leave_loop hworker hstop =>
      simp only [world.steps_left, runtime.leave, hworker, worker_steps_left]
      omega
  | finish hworker =>
      simp only [world.steps_left, runtime.finish, owned_executor.finish, hworker,
        worker_steps_left]
      omega

/-- Every own step spends at least one of the steps that are left, whichever thread takes it. -/
theorem world.Step.spends (hown : own_step w a t) (hstep : world.Step w a t) :
    t.steps_left < w.steps_left := by
  cases a with
  | deliver | call_stop | owner => exact hown.elim
  | stop => exact hstep.spends_stop
  | reader => exact hstep.spends_reader
  | worker => exact hstep.spends_worker
  -- the reader's weight covers the section and the `stop()` it may lead into
  | receive answers =>
      cases hstep with
      | @receive wire _ hreader =>
          have hless := received_left (w.server.receive answers wire).next w.stops
          simp only [world.steps_left, hreader, left_receiving]
          omega
  | reject answers =>
      cases hstep with
      | reject_sent _ hreader hsent | reject_threw _ hreader hthrew =>
          simp [world.steps_left, hreader, left_rejected, left_leaving]
      | reject_failed _ hreader hfailed =>
          simp only [world.steps_left, hreader, left_rejected, left_stopping, stops_left_entered,
            Option.isSome_some, if_true]
          omega
  | application outcome =>
      cases hstep with
      | application _ hworker hcall =>
          simp only [world.steps_left, hcall, call_at.steps_left]
          omega
  | respond answers =>
      cases hstep with
      | respond _ hworker hcall hdone =>
          simp only [world.steps_left, hcall, call_at.steps_left]
          omega
      | respond_failed _ hworker hcall hfailed =>
          simp only [world.steps_left, hcall, call_at.steps_left, stops_left_entered]
          omega

end Step

/-! ## A call of `stop()` that is past the executor has closed it

When the server is at rest the worker must have gone if the server was stopped. That takes an
invariant: a call of `stop()` that has come past the executor has set `stopping_`, and so has
whatever made the server a stopped one. `stopping_` is never cleared, so it is enough to look at
the step that passes. -/

def stop_at.past_executor : stop_at → Bool
  | .entered => false
  | .executor => false
  | _ => true

/-- Whoever has come past the executor has closed it, and a stopped server has a closed
executor. -/
structure closing_calls (w : world) : Prop where
  past : ∀ call ∈ w.stops, call.past_executor = true → w.run.executor.stopping_ = true
  stopped : w.server.state_ = .stopped → w.run.executor.stopping_ = true

section Closing

variable {limit : Nat} {w t : world} {a : server_action}

/-- An executor that is closed stays so through every step of the server. -/
theorem world.Step.stays_closed (hrun : runtime_inv limit w.run) (hstep : world.Step w a t)
    (h : w.run.executor.stopping_ = true) : t.run.executor.stopping_ = true := by
  rcases hstep.run_cases with heq | ⟨req, op, -, heq⟩ | ⟨b, -, -, hcore⟩
  · rwa [heq]
  · rw [heq]
    exact (closed_step hrun h (.enqueue w.run req.id (some ⟨req, op⟩))).1
  · exact (closed_step hrun h hcore).1

/-- A call that goes past the executor does so by closing it, or finds the server stopped. -/
theorem world.Step.stops_past (hi : closing_calls w) (hstep : world.Step w a t) :
    ∀ call ∈ t.stops, call.past_executor = true →
      call ∈ w.stops ∨ t.run.executor.stopping_ = true ∨ w.run.executor.stopping_ = true := by
  intro at_ hmem hpast
  cases hstep with
  | @stop_server call hcall =>
      rcases List.mem_or_eq_of_mem_set hmem with hold | rfl
      · exact .inl hold
      -- the first section: a call that finds the server stopped is past, any other goes to the
      -- executor
      · rcases w.server.stop_state with ⟨hstate, -⟩ | ⟨-, -, hgoes⟩
        · exact .inr (.inr (hi.stopped hstate))
        · rw [hgoes] at hpast
          cases hpast
  | @stop_executor call hcall => exact .inr (.inl rfl)
  | @stop_cleans call rest hcall =>
      exact .inr (.inr (hi.past _ (List.mem_of_getElem? hcall) rfl))
  | @stop_transport call hcall =>
      exact .inr (.inr (hi.past _ (List.mem_of_getElem? hcall) rfl))
  -- the remaining cases are calls that are new, and a new call is before its section
  | @receive wire answers hreader =>
      cases hnext : (w.server.receive answers wire).next with
      | stop =>
          simp only [hnext, receive_next.stops, List.mem_append, List.mem_singleton] at hmem
          rcases hmem with hold | rfl
          · exact .inl hold
          · cases hpast
      | done | enqueue | cancel =>
          simp only [hnext, receive_next.stops] at hmem
          exact .inl hmem
  | @leave_shared op threw hreader hshared =>
      cases threw with
      | false => exact .inl hmem
      | true =>
          rcases List.mem_append.mp hmem with hold | hnew
          · exact .inl hold
          · rw [List.mem_singleton.mp hnew] at hpast
            cases hpast
  | @reader_completes op threw hreader =>
      cases threw with
      | false => exact .inl hmem
      | true =>
          rcases List.mem_append.mp hmem with hold | hnew
          · exact .inl hold
          · rw [List.mem_singleton.mp hnew] at hpast
            cases hpast
  | reject_failed _ hreader hfailed | respond_failed _ hworker hcall hfailed | call_stop =>
      rcases List.mem_append.mp hmem with hold | hnew
      · exact .inl hold
      · rw [List.mem_singleton.mp hnew] at hpast
        cases hpast
  | _ => exact .inl hmem

/-- The invariant holds through every step: a call that passes closes the executor, and the
others leave the calls where they are. -/
theorem closing_calls.step (hrun : runtime_inv limit w.run) (hi : closing_calls w)
    (hstep : world.Step w a t) : closing_calls t := by
  constructor
  · intro call hmem hpast
    -- a call that is past was so before, or its step closed the executor
    rcases hstep.stops_past hi call hmem hpast with hold | hclosed | hclosed
    · exact hstep.stays_closed hrun (hi.past call hold hpast)
    · exact hclosed
    · exact hstep.stays_closed hrun hclosed
  · intro hstopped
    by_cases hbefore : w.server.state_ = .stopped
    · exact hstep.stays_closed hrun (hi.stopped hbefore)
    · -- only the owner's `wait()` makes it so, and the worker has finished by then
      cases hstep with
      | wait_returns hfinished =>
          exact hrun.leaving_stopped (.inr (hrun.finished_gone.mp hfinished))
      | @stop_server call hcall =>
          rcases w.server.stop_state with ⟨hstate, -⟩ | ⟨-, hstopping, -⟩
          · exact absurd hstate hbefore
          · rw [hstopping] at hstopped
            cases hstopped
      | @receive wire answers hreader =>
          have hkept := (received_configuration (w.server.receive_received answers wire)).state
          exact absurd (hkept.symm.trans hstopped) hbefore
      | @reader_cleans rest hreader =>
          have hkept := (cleanup_configuration rest w.server fun _ => false).state
          exact absurd (hkept.symm.trans hstopped) hbefore
      | @stop_cleans call rest hcall =>
          have hkept := (cleanup_configuration rest w.server w.reader.keeps).state
          exact absurd (hkept.symm.trans hstopped) hbefore
      | start_commits hstate => cases hstopped
      | _ => exact absurd hstopped hbefore

/-- So it holds in every reachable state; at the start nobody has called `stop()`. -/
theorem server_closing_calls (h : (server_runs limit).Reachable w) : closing_calls w := by
  refine h.invariant (P := closing_calls) ?_ ?_
  · rintro w ⟨-, info, resources, prompts, tools, rfl⟩
    refine ⟨fun call hmem => ?_, fun hstopped => ?_⟩
    · cases hmem
    · cases hstopped
  · intro w a t hw hi hstep
    exact hi.step (server_runtime hw) hstep

end Closing

/-! ## Who is stuck

A state is stuck when no own step is possible that meets success outside. Each thread is then
taken by itself: whatever position it is in, either that position has a step, or it waits for a
call of `stop()` that has none either; and a call of `stop()` always has a step until it has
returned. So the reader waits for its next message, no invocation is under way, and the worker
waits for a work or is gone. -/

/-- Where a section emits, this is what it meets. -/
def server_action.meets (answers : emit_answers) : server_action → Prop
  | .receive a | .reject a | .respond a => a = answers
  | _ => True

/-- Neither the reader nor the worker has a step, whatever `application()` does. -/
structure world.threads_stuck (answers : emit_answers) (w : world) : Prop where
  served : ∀ a t, a.served = true → a.meets answers → ¬world.Step w a t
  application : ∀ item, w.run.worker = .calling item → w.call ≠ .applying
  /-- A call of `stop()` never waits. -/
  stops : ∀ call ∈ w.stops, call = .returned

section Stuck

variable {answers : emit_answers} {w : world}

/-- No call of `stop()` is stuck on the way, so each of them has returned. -/
theorem world.threads_stuck.returned (h : w.threads_stuck answers) {call : Nat}
    (hcall : call < w.stops.length) : w.stops[call]? = some .returned := by
  rw [List.getElem?_eq_getElem hcall, Option.some.injEq]
  exact h.stops _ (List.getElem_mem hcall)

/-- The reader waits for nothing but the `stop()` it called. -/
theorem world.threads_stuck.reader (h : w.threads_stuck answers) (hm : calls_made w) :
    w.reader = .idle := by
  cases hr : w.reader with
  | idle => rfl
  | receiving wire => exact absurd (.receive answers hr) (h.served (.receive _) _ rfl rfl)
  | enqueueing req op => exact absurd (.enqueue hr) (h.served .reader _ rfl trivial)
  | rejected req op =>
      cases hanswer : (w.server.answer answers (.rejection op) op (queue_full_reply req.id)
        "").2 with
      | sent =>
          exact absurd (.reject_sent answers hr hanswer) (h.served (.reject _) _ rfl rfl)
      | failed =>
          exact absurd (.reject_failed answers hr hanswer) (h.served (.reject _) _ rfl rfl)
      | threw =>
          exact absurd (.reject_threw answers hr hanswer) (h.served (.reject _) _ rfl rfl)
  | leaving op threw =>
      rcases Nat.eq_zero_or_pos (w.captures op) with hlast | hshared
      · exact absurd (.leave_last hr hlast) (h.served .reader _ rfl trivial)
      · exact absurd (.leave_shared hr hshared) (h.served .reader _ rfl trivial)
  | completing op threw => exact absurd (.reader_completes hr) (h.served .reader _ rfl trivial)
  | cancelling op => exact absurd (.cancel hr) (h.served .reader _ rfl trivial)
  | cleaning rest => exact absurd (.reader_cleans hr) (h.served .reader _ rfl trivial)
  | stopping call held =>
      have hreturned := h.returned (hm.reader call held hr)
      exact absurd (.reader_stopped hr hreturned) (h.served .reader _ rfl trivial)

/-- No invocation is under way: its body waits for nothing but the `stop()` it called. -/
theorem world.threads_stuck.calling (h : w.threads_stuck answers) (hc : custody w)
    (hm : calls_made w) (item : work closure) : w.run.worker ≠ .calling item := by
  intro hworker
  have hmatch := hc.call
  cases hcall : w.call with
  | outside =>
      rw [hcall] at hmatch
      exact hmatch item hworker
  | entered =>
      cases hmay : w.server.may_answer item.call.op with
      | true => exact h.served .worker _ rfl trivial (.apply hworker hcall hmay)
      | false => exact h.served .worker _ rfl trivial (.skip hworker hcall hmay)
  | applying => exact h.application item hworker hcall
  | replying reply =>
      by_cases hfailed : (w.server.answer answers (.worker item.call.op) item.call.op reply
        item.call.req.method).2 = .failed
      · exact h.served (.respond _) _ rfl rfl (.respond_failed answers hworker hcall hfailed)
      · exact h.served (.respond _) _ rfl rfl (.respond answers hworker hcall hfailed)
  | stopping call =>
      have hreturned := h.returned (hm.worker call hcall)
      exact h.served .worker _ rfl trivial (.call_stopped hcall hreturned)
  | finished => exact h.served .worker _ rfl trivial (.finish_call hworker hcall)
  | completing op =>
      rw [hcall] at hmatch
      obtain ⟨other, hretiring, -⟩ := hmatch
      rw [hworker] at hretiring
      cases hretiring

/-- The worker does not wait to destroy an object: the one who holds it is nobody else. -/
theorem world.threads_stuck.retiring (h : w.threads_stuck answers) (hc : custody w)
    (item : work closure) : w.run.worker ≠ .retiring item := by
  intro hworker
  have hmatch := hc.call
  cases hcall : w.call with
  | outside =>
      cases hkeeps : w.reader.keeps item.call.op with
      | true => exact h.served .worker _ rfl trivial (.release_shared hworker hcall hkeeps)
      | false => exact h.served .worker _ rfl trivial (.release_last hworker hcall hkeeps)
  | completing op => exact h.served .worker _ rfl trivial (.call_completes hworker hcall)
  | entered | applying | replying | stopping | finished =>
      rw [hcall] at hmatch
      obtain ⟨other, hcalling⟩ := hmatch
      rw [hworker] at hcalling
      cases hcalling

/-- The worker waits for an admission, with nothing queued and nothing closed, or it is gone. -/
theorem world.threads_stuck.worker (h : w.threads_stuck answers) (hc : custody w)
    (hm : calls_made w) :
    (w.run.worker = .waiting ∧ w.run.executor.stopping_ = false ∧
        w.run.executor.pending_ = []) ∨ w.run.worker = .gone := by
  cases hworker : w.run.worker with
  | waiting =>
      have hopen : w.run.executor.stopping_ = false := by
        cases hstop : w.run.executor.stopping_ with
        | false => rfl
        | true => exact absurd (.leave_loop hworker hstop) (h.served .worker _ rfl trivial)
      refine .inl ⟨rfl, hopen, ?_⟩
      cases hpending : w.run.executor.pending_ with
      | nil => rfl
      | cons item rest =>
          have htake : w.run.executor.dequeue =
              some (item, { w.run.executor with pending_ := rest, active_ := some item }) := by
            simp [owned_executor.dequeue, hopen, hpending]
          exact absurd (.dequeue hworker htake) (h.served .worker _ rfl trivial)
  | dequeued item => exact absurd (.invoke hworker) (h.served .worker _ rfl trivial)
  | calling item => exact absurd hworker (h.calling hc hm item)
  | returned item => exact absurd (.reset_active hworker) (h.served .worker _ rfl trivial)
  | retiring item => exact absurd hworker (h.retiring hc item)
  | leaving => exact absurd (.finish hworker) (h.served .worker _ rfl trivial)
  | gone => exact .inr rfl

end Stuck

/-- No own step is possible that meets nothing but success outside. -/
def world.calm_stuck (w : world) : Prop :=
  ∀ a t, own_step w a t → no_throws w a → ¬world.Step w a t

section Calm

variable {w : world}

theorem calm_answers : session.calm.no_throw := ⟨rfl, by decide⟩

/-- A state without an own step that meets success is one in which the threads are stuck. -/
theorem world.calm_stuck.threads (h : w.calm_stuck) : w.threads_stuck session.calm where
  served a t hserved hmeets hstep := by
    refine h a t ?_ ?_ hstep
    · cases a <;> trivial
    · cases a with
      | receive answers | reject answers | respond answers =>
          have hcalm : answers = session.calm := hmeets
          rw [hcalm]
          exact calm_answers
      | _ => trivial
  application item hworker hcall :=
    h (.application none) _ trivial trivial (.application none hworker hcall)
  stops at_ hmem := by
    obtain ⟨call, hcall⟩ := List.mem_iff_getElem?.mp hmem
    cases at_ with
    | entered => exact absurd (.stop_server hcall) (h .stop _ trivial trivial)
    | executor => exact absurd (.stop_executor hcall) (h .stop _ trivial trivial)
    | cleaning rest => exact absurd (.stop_cleans hcall) (h .stop _ trivial trivial)
    | transport => exact absurd (.stop_transport hcall) (h .stop _ trivial trivial)
    | returned => rfl

end Calm

/-! ## At rest

What is at rest is what the stuck states come to, once the invariants about the queue and the
operations in flight are added: nothing is queued, and nothing in flight is left over, because
each operation in flight is held by the reader, the queue or the worker. -/

/-- Nothing is under way, and no request is left in flight. -/
structure world.at_rest (w : world) : Prop where
  reader : w.reader = .idle
  stops : ∀ call ∈ w.stops, call = .returned
  call : w.call = .outside
  worker : w.run.worker = .waiting ∨ w.run.worker = .gone
  pending : w.run.executor.pending_ = []
  inflight : w.server.inflight_ = []
  /-- Where anybody called `stop()`, the worker has ended. -/
  ended : w.stops ≠ [] → w.run.worker = .gone

section Rest

variable {limit : Nat} {w : world}

/-- In a reachable state with no own step left everything has come to rest. The parts are the
positions of the threads, and the custody of the operations. -/
theorem stuck_at_rest (hr : (server_runs limit).Reachable w) (h : w.calm_stuck) : w.at_rest := by
  have hc := server_custody hr
  have hm := server_calls_made hr
  have hrun := server_runtime hr
  have hthreads := h.threads
  have hstops := hthreads.stops
  -- where the threads can be without a step left
  have hreader := hthreads.reader hm
  have hcall := hc.call.outside (hthreads.calling hc hm) (hthreads.retiring hc)
  have hworker := hthreads.worker hc hm
  -- a worker that waits finds no work, one that is gone left none
  have hpending : w.run.executor.pending_ = [] := by
    rcases hworker with ⟨-, -, hnone⟩ | hgone
    · exact hnone
    · exact hrun.drained (hrun.leaving_stopped (.inr hgone))
  have hcurrent : current_works w.run.worker w.call = [] := by
    rw [hcall]
    rcases hworker with ⟨hwaiting, -⟩ | hgone
    · rw [hwaiting]
      rfl
    · rw [hgone]
      rfl
  refine ⟨hreader, hstops, hcall, ?_, hpending, ?_, ?_⟩
  · rcases hworker with ⟨hwaiting, -⟩ | hgone
    · exact .inl hwaiting
    · exact .inr hgone
  -- an operation in flight would be held at one of these places, and all are empty
  · refine List.eq_nil_iff_forall_not_mem.mpr fun op hop => ?_
    have hplace := in_flight_places hc hreader (fun call hmem => .inr (hstops call hmem)) hop
    rw [hpending, hcurrent, hcall] at hplace
    simp at hplace
  -- a `stop()` that has returned closed the executor, so the worker does not wait
  · intro hany
    rcases hworker with ⟨-, hopen, -⟩ | hgone
    · obtain ⟨call, hmem⟩ := List.exists_mem_of_ne_nil _ hany
      have hpast : call.past_executor = true := by
        rw [hstops call hmem]
        rfl
      have hclosed := (server_closing_calls hr).past call hmem hpast
      rw [hopen] at hclosed
      cases hclosed
    · exact hgone

/-- The steps left are a budget for the own steps: every such step takes one, in every reachable
state. -/
theorem server_budget : (server_runs limit).Budget own_step world.steps_left :=
  fun _ _ _ _ hown hstep => hstep.spends hown

/-- Whatever state the server is in, the work under way ends within the steps that are
left, and no request is in flight then; a server that was stopped has lost its worker. -/
theorem server_comes_to_rest (h : (server_runs limit).Reachable w) :
    (server_runs limit).Completes own_step w.steps_left world.at_rest w :=
  server_budget.completes h fun _ ht hstuck =>
    stuck_at_rest ht fun a u hown _ hstep => hstuck a u hown hstep

/-! ## What was admitted is answered

With an encoder and a transport that report failure and do not throw: whatever is admitted
and neither cancelled nor cut off by a stop has its answer when the server is at rest, and
it has one. -/

/-- At rest nothing is owed any more but what is counted as answered: none of the places where
an answer can still be on its way is occupied. -/
theorem at_rest_debts (h : w.at_rest) (op : Nat) : w.debts op = (w.answers_to op).length := by
  have howed : owed w.run.worker w.call = [] := by
    rcases h.worker with hwaiting | hgone
    · rw [hwaiting]
      rfl
    · rw [hgone]
      rfl
  rw [answers_to_length]
  simp [world.debts, world.line, world.refusals, howed, h.pending, h.reader,
    reader_at.enqueues, reader_at.rejects]

/-- At rest, and each operation made by then is answered once, unless it was cancelled or
the server stopped serving. -/
structure world.answered_at_rest (w : world) : Prop where
  rest : w.at_rest
  once : ∀ op < w.server.operations.length,
    (w.answers_to op).length = 1 ∨
      (w.answers_to op).length = 0 ∧ (w.server.cancelled op = true ∨ w.server.serving = false)
  /-- Where nobody stopped the server, it serves, or never did. -/
  serving : w.server.serving = true → w.stops = []

/-- The admitted operations at rest, counted by the answers that were given to each: the account
of the runs without exceptions leaves exactly one. -/
theorem answered_of_rest (hr : (quiet_runs limit).Reachable w) (h : w.at_rest) :
    w.answered_at_rest := by
  have hd := server_delivery hr
  refine ⟨h, ?_, ?_⟩
  · intro op hop
    have hdebts := at_rest_debts h op
    have honce := hd.once op
    rcases hd.settled op hop with hone | hcancelled | hstopped | hstopping
    · exact .inl (by omega)
    · rcases Nat.eq_zero_or_pos (w.answers_to op).length with hnone | hsome
      · exact .inr ⟨hnone, .inl hcancelled⟩
      · exact .inl (by omega)
    · rcases Nat.eq_zero_or_pos (w.answers_to op).length with hnone | hsome
      · exact .inr ⟨hnone, .inr hstopped⟩
      · exact .inl (by omega)
    · -- nobody is in a call of `stop()`
      rcases hstopping with ⟨call, held, hreader⟩ | ⟨call, hcall⟩
      · rw [h.reader] at hreader
        cases hreader
      · rw [h.call] at hcall
        cases hcall
  · intro hserving
    refine List.eq_nil_iff_forall_not_mem.mpr fun call hmem => ?_
    have hentered := (server_ids (quiet_reachable hr)).stops hserving call hmem
    rw [h.stops call hmem] at hentered
    cases hentered

/-- The same budget, in the runs in which neither the encoder nor the transport throws. -/
theorem quiet_budget : (quiet_runs limit).Budget own_step world.steps_left :=
  fun _ _ _ _ hown hstep => hstep.2.spends hown

/-- From every state of such a run the work under way ends within the steps that are left,
and every request admitted is answered then. -/
theorem server_answers_at_rest (h : (quiet_runs limit).Reachable w) :
    (quiet_runs limit).Completes own_step w.steps_left world.answered_at_rest w :=
  quiet_budget.completes h fun _ ht hstuck =>
    answered_of_rest ht (stuck_at_rest (quiet_reachable ht)
      fun a u hown hthrow hstep => hstuck a u hown ⟨hthrow, hstep⟩)

/-- With the worker in `application()` there are fifteen steps left at most. -/
theorem server_comes_to_rest_applying :
    (server_runs 1).Completes own_step 15 world.at_rest session.applying :=
  server_comes_to_rest (System.restrict_reachable
    (session.reaches_applying (C := fun _ _ => True) fun _ _ _ => trivial))

theorem server_answers_at_rest_applying :
    (quiet_runs 1).Completes own_step 15 world.answered_at_rest session.applying :=
  server_answers_at_rest (session.reaches_applying session.calm_no_throws)

end Rest

end SynapseMcp
