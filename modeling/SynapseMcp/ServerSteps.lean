/-
What one step of the server can do to each part of its state: the server's own
fields, the executor, the reader's position.

The invariants of the server are about one or two of these parts. Each is proved
from the inversion of the parts it reads, so a step is taken apart once, here. The
lifecycle, the IDs of operations and their flags only move one way
(`server_later`), and the executor inside the server takes the steps of the
executor on its own (`server_runs_core`).
-/
import SynapseMcp.ServerCustody

set_option autoImplicit false

namespace SynapseMcp

open Transition

/-! ## The server's fields only move one way

Operations are appended and never removed, and each keeps its ID; flags are set and not taken
back; the lifecycle and the session go forward only. Most steps touch one of these fields or
none, and what is known of an operation at one state is then known at every later one. -/

/-- How far the session is. -/
def connection.rank : connection → Nat
  | .await_initialize_ => 0
  | .await_initialized => 1
  | .ready => 2
  | .closing => 3

/-- `t` is a later state of the server than `s`. -/
structure server_later (s t : server) : Prop where
  length : s.operations.length ≤ t.operations.length
  ids : ∀ op < s.operations.length, t.id_of op = s.id_of op
  cancelled : ∀ op, s.cancelled op = true → t.cancelled op = true
  serving : t.serving = true → s.serving = true
  /-- A serving server may have left out a state of the session, never gone back. -/
  rank : s.protocol_.rank ≤ t.protocol_.rank
  /-- An operation in flight was before, or is new. -/
  inflight : ∀ op ∈ t.inflight_, op ∈ s.inflight_ ∨ s.operations.length ≤ op

/-- A server is as far as itself. -/
theorem server_later.refl (s : server) : server_later s s where
  length := Nat.le_refl _
  ids _ _ := rfl
  cancelled _ h := h
  serving h := h
  rank := Nat.le_refl _
  inflight _ h := .inl h

/-- What is later than a later state is later. An operation in flight at the end was so in the
middle, or was made after it, and then after the start as well. -/
theorem server_later.trans {s t u : server} (hst : server_later s t) (htu : server_later t u) :
    server_later s u where
  length := Nat.le_trans hst.length htu.length
  ids op hop := by rw [htu.ids op (Nat.lt_of_lt_of_le hop hst.length), hst.ids op hop]
  cancelled op h := htu.cancelled op (hst.cancelled op h)
  serving h := hst.serving (htu.serving h)
  rank := Nat.le_trans hst.rank htu.rank
  inflight op h := by
    rcases htu.inflight op h with h | h
    · exact hst.inflight op h
    · exact .inr (Nat.le_trans hst.length h)

/-- Only an operation that was made can be marked. -/
theorem server.cancelled_lt {s : server} {op : Nat} (h : s.cancelled op = true) :
    op < s.operations.length := by
  by_contra hge
  rw [server.cancelled, List.getElem?_eq_none (by omega)] at h
  cases h

/-- A new operation goes to the end of the table, so those before it keep their places. -/
theorem push_later (s : server) (id : json_rpc_id) : server_later s (s.push id) where
  length := by simp [server.push]
  ids _ hop := server.id_of_push_lt id hop
  cancelled op h := by rwa [server.cancelled_push_lt id (server.cancelled_lt h)]
  serving h := h
  rank := Nat.le_refl _
  inflight op h := by
    simp only [server.push, List.mem_append, List.mem_singleton] at h
    rcases h with h | rfl
    · exact .inl h
    · exact .inr (Nat.le_refl _)

/-- Marking an operation sets its flag and nothing else. -/
theorem mark_cancelled_later (s : server) (op : Nat) : server_later s (s.mark_cancelled op) where
  length := by simp [server.mark_cancelled]
  ids op' _ := server.id_of_mark_cancelled s op op'
  cancelled op' h := server.cancelled_mark_cancelled s op op' h
  serving h := h
  rank := Nat.le_refl _
  inflight _ h := .inl h

/-- Completing an operation takes it out of `inflight_`; its record stays in the table. -/
theorem complete_later (s : server) (op : Nat) : server_later s (s.complete op) where
  length := Nat.le_refl _
  ids _ _ := rfl
  cancelled _ h := h
  serving h := h
  rank := Nat.le_refl _
  inflight _ h := .inl (List.mem_of_mem_filter h)

/-- `protocol_` moves to a later state of the session. -/
theorem protocol_later {s : server} {p : connection} (h : s.protocol_.rank ≤ p.rank) :
    server_later s { s with protocol_ := p } where
  length := Nat.le_refl _
  ids _ _ := rfl
  cancelled _ h := h
  serving h := h
  rank := h
  inflight _ h := .inl h

/-- No state of the session is beyond `closing`. -/
theorem closing_last (p : connection) : p.rank ≤ connection.closing.rank := by
  cases p <;> decide

/-- The section of `stop()` marks what is in flight and ends the serving. -/
theorem stop_later (s : server) : server_later s s.stop.1 where
  length := Nat.le_of_eq (server.stop_length s).symm
  ids op _ := server.id_of_stop s op
  cancelled op h := server.cancelled_stop s op h
  serving h := by simp at h
  rank := by
    unfold server.stop
    split
    · exact Nat.le_refl _
    · exact closing_last _
  inflight op h := .inl (by simpa using h)

/-- Whatever text is received, the server only moves forward: the handshake goes on by one
state, an operation is cancelled or admitted, or the session closes. -/
theorem received_later {s : server} {a : emit_answers} {wire : json} {r : section_result}
    (h : server.received s a wire r) : server_later s r.server := by
  cases h with
  | ignored | replied => exact .refl _
  | negotiated req hdecode hserving hawait hmethod hparams =>
      exact protocol_later (by rw [hawait]; decide)
  | ready note hdecode hserving hawait hmethod hparams =>
      exact protocol_later (by rw [hawait]; decide)
  | cancelled op id hserving hmem hsame => exact mark_cancelled_later _ _
  | duplicate req op hdecode hserving hopen hmem hsame s' hs' =>
      subst hs'
      split
      · exact .refl _
      · exact protocol_later (closing_last _)
  | admitted req hdecode hserving hready hid hfresh => exact push_later _ _

/-- Every step of every thread leaves a later server: most do not touch it, and the others are
one of its sections or set the state of its lifecycle. -/
theorem world.Step.later {w t : world} {a : server_action} (hstep : world.Step w a t) :
    server_later w.server t.server := by
  rcases hstep.server_cases with
    hs | ⟨answers, wire, -, hs⟩ | ⟨op, hs⟩ | hs | ⟨hstate, hs⟩ | ⟨-, hs⟩
  · rw [hs]
    exact .refl _
  · rw [hs]
    exact received_later (w.server.receive_received answers wire)
  · rw [hs]
    exact complete_later _ _
  · rw [hs]
    exact stop_later _
  · rw [hs]
    exact ⟨Nat.le_refl _, fun _ _ => rfl, fun _ h => h, fun _ => by simp [server.serving, hstate],
      Nat.le_refl _, fun _ h => .inl h⟩
  · rw [hs]
    exact ⟨Nat.le_refl _, fun _ _ => rfl, fun _ h => h, fun h => by simp [server.serving] at h,
      Nat.le_refl _, fun _ h => .inl h⟩

/-- Only `receive` makes operations, so any other step leaves the numbers that were given out as
they are. -/
theorem world.Step.length {w t : world} {a : server_action} (hstep : world.Step w a t)
    (hno : ∀ answers, a ≠ .receive answers) :
    t.server.operations.length = w.server.operations.length := by
  have hclean : ∀ (rest : cleanup) (keeps : Nat → Bool),
      (rest.next w.server keeps).1.operations.length = w.server.operations.length := by
    intro rest keeps
    rcases cleanup_next_cases rest w.server keeps with
      ⟨hs, -⟩ | ⟨op, -, hs, -⟩ | ⟨op, -, hs, -⟩ | ⟨op, hs, -⟩
    all_goals rw [hs]
    rfl
  cases hstep with
  | receive a hreader => exact absurd rfl (hno a)
  | reader_cleans hreader => exact hclean _ _
  | stop_cleans hcall => exact hclean _ _
  | stop_server hcall => exact server.stop_length _
  | _ => rfl

/-! ## The executor inside the server

The server uses its executor as any owner does: it enqueues, cancels and stops, and the worker
takes, calls and releases works. So a run of the server, seen from its executor, is a run of the
executor, and the invariants proved there hold here without being proved again. -/

/-- The executor of the server takes a step of its own, or none; what is enqueued is
the request the reader has listed. -/
theorem world.Step.run_cases {w t : world} {a : server_action} (hstep : world.Step w a t) :
    t.run = w.run ∨
      (∃ req op, w.reader = .enqueueing req op ∧
        t.run = (w.run.enqueue req.id (some ⟨req, op⟩)).1) ∨
      (∃ b, (∀ id call, b ≠ .enqueue id call) ∧ (b = .stop → ∃ call : Nat,
        w.stops[call]? = some .executor) ∧ runtime.Step w.run b t.run) := by
  cases hstep with
  | enqueue hreader => exact .inr (.inl ⟨_, _, hreader, rfl⟩)
  | cancel hreader => exact .inr (.inr ⟨.cancel _, by simp, by simp, .cancel _ _⟩)
  | dequeue hworker htake => exact .inr (.inr ⟨.worker, by simp, by simp, .dequeue hworker htake⟩)
  | invoke hworker => exact .inr (.inr ⟨.worker, by simp, by simp, .invoke hworker⟩)
  | finish_call hworker hcall =>
      exact .inr (.inr ⟨.worker, by simp, by simp, .finish_call hworker⟩)
  | reset_active hworker => exact .inr (.inr ⟨.worker, by simp, by simp, .reset_active hworker⟩)
  | release_shared hworker hcall hshared =>
      exact .inr (.inr ⟨.worker, by simp, by simp, .release hworker⟩)
  | call_completes hworker hcall =>
      exact .inr (.inr ⟨.worker, by simp, by simp, .release hworker⟩)
  | leave_loop hworker hstop =>
      exact .inr (.inr ⟨.worker, by simp, by simp, .leave hworker hstop⟩)
  | finish hworker => exact .inr (.inr ⟨.worker, by simp, by simp, .finish hworker⟩)
  | stop_executor hcall => exact .inr (.inr ⟨.stop, by simp, fun _ => ⟨_, hcall⟩, .stop _⟩)
  | _ => exact .inl rfl

/-- The server drives its executor through steps of the executor. -/
theorem server_runs_core (limit : Nat) :
    System.Simulation (server_runs limit) (executor_core closure limit) world.run where
  init := by
    rintro w ⟨-, info, resources, prompts, tools, rfl⟩
    rfl
  step := by
    intro w a t _ _ hstep
    rcases world.Step.run_cases hstep with hrun | ⟨req, op, -, hrun⟩ | ⟨b, -, -, hcore⟩
    · rw [hrun]
      exact .refl
    · rw [hrun]
      exact .single ⟨_, .enqueue w.run req.id (some ⟨req, op⟩)⟩
    · exact .single ⟨b, hcore⟩

/-- The limit the server was started with admits work. -/
theorem server_limit {limit : Nat} {w : world} (h : (server_runs limit).Reachable w) :
    0 < limit := by
  obtain ⟨s, ⟨hlimit, -⟩, -⟩ := h
  exact hlimit

/-- The invariant of the executor holds in every state of the server. -/
theorem server_runtime {limit : Nat} {w : world} (h : (server_runs limit).Reachable w) :
    runtime_inv limit w.run :=
  core_inv (server_limit h) ((server_runs_core limit).reachable h)

/-- The works queued, and the one the worker has. -/
def queued_works (r : runtime closure) : List (work closure) :=
  r.executor.pending_ ++ r.worker.works

/-- Only an enqueue brings a work in; all other steps of the executor take one out or move it to
the worker. -/
theorem queued_works_step {r r' : runtime closure} {b : executor_action closure}
    (hno : ∀ id call, b ≠ .enqueue id call) (h : runtime.Step r b r') :
    ∀ item ∈ queued_works r', item ∈ queued_works r := by
  intro item hitem
  cases h with
  | enqueue id call => exact absurd rfl (hno id call)
  | cancel id =>
      rcases r.cancel_cases id with
        ⟨w, -, -, heq⟩ | ⟨before, w, after, hitems, -, -, -, heq⟩ | ⟨-, -, heq⟩
      · rwa [heq] at hitem
      · rw [heq] at hitem
        simp only [queued_works, hitems, List.mem_append, List.mem_cons] at hitem ⊢
        tauto
      · rwa [heq] at hitem
  | stop => exact List.mem_append_right _ hitem
  | @dequeue v e hworker htake =>
      obtain ⟨-, rest, hpending, rfl⟩ := owned_executor.dequeue_some htake
      simp only [queued_works, runtime.dequeue, worker_at.works, List.mem_append,
        List.mem_singleton] at hitem
      simp only [queued_works, hpending, List.mem_append, List.mem_cons]
      tauto
  | invoke hworker | finish_call hworker | reset_active hworker =>
      simp only [queued_works, hworker]
      exact hitem
  | release hworker | finish hworker | leave hworker hstop =>
      change item ∈ r.executor.pending_ ++ [] at hitem
      rw [List.append_nil] at hitem
      exact List.mem_append_left _ hitem

/-- The works after an enqueue: those before, and the one enqueued. -/
theorem queued_works_enqueue (r : runtime closure) (id : json_rpc_id) (c : closure) :
    ∀ item ∈ queued_works (r.enqueue id (some c)).1,
      item ∈ queued_works r ∨ (item.id = id ∧ item.call = c) := by
  intro item hitem
  rcases r.enqueue_cases id (some c) with ⟨err, -, heq⟩ | ⟨c', -, hc, -, -, -, -, heq⟩
  · rw [heq] at hitem
    exact .inl hitem
  · cases hc
    rw [heq] at hitem
    simp only [queued_works, List.mem_append, List.mem_singleton] at hitem ⊢
    rcases hitem with (hitem | rfl) | hitem
    · exact .inl (.inl hitem)
    · exact .inr ⟨rfl, rfl⟩
    · exact .inl (.inr hitem)

/-- Admission closes in the section of `executor->stop()` and nowhere else, so a call of
`stop()` was at that place before. -/
theorem world.Step.stopping {w t : world} {a : server_action} (hstep : world.Step w a t)
    (h : t.run.executor.stopping_ = true) :
    w.run.executor.stopping_ = true ∨ ∃ call : Nat, w.stops[call]? = some .executor := by
  rcases hstep.run_cases with hrun | ⟨req, op, -, hrun⟩ | ⟨b, hno, hstop, hcore⟩
  · exact .inl (hrun ▸ h)
  · left
    rw [hrun] at h
    rcases w.run.enqueue_cases req.id (some ⟨req, op⟩) with
      ⟨err, -, heq⟩ | ⟨c, -, -, -, -, -, -, heq⟩
    · rwa [heq] at h
    · rwa [heq] at h
  · generalize t.run = r' at h hcore
    cases hcore with
    | enqueue id call => exact absurd rfl (hno id call)
    | cancel id =>
        left
        rcases w.run.cancel_cases id with
          ⟨v, -, -, heq⟩ | ⟨before, v, after, -, -, -, -, heq⟩ | ⟨-, -, heq⟩
        · rwa [heq] at h
        · rwa [heq] at h
        · rwa [heq] at h
    | stop => exact .inr (hstop rfl)
    | @dequeue v e hworker htake =>
        obtain ⟨hopen, rest, -, rfl⟩ := owned_executor.dequeue_some htake
        exact .inl h
    | leave hworker hstopping => exact .inl hstopping
    | _ => exact .inl h

/-! ## The reader's position

The reader is one thread and does one thing at a time. Two of its places carry an operation it
has checked under the mutex and goes on with outside it: one it is about to enqueue and one it
is about to cancel. Both come from `receive`, in the step that checked. -/

/-- Positions at which the reader has nothing to do for an operation it has checked. -/
def reader_at.quiet : reader_at → Prop
  | .enqueueing _ _ => False
  | .rejected _ _ => False
  | .cancelling _ => False
  | _ => True

/-- How the reader comes to hold a checked request or a cancellation. -/
theorem world.Step.reader_cases {w t : world} {a : server_action} (hstep : world.Step w a t) :
    t.reader = w.reader ∨ t.reader.quiet ∨
      (∃ (answers : emit_answers) (wire : json), w.reader = .receiving wire ∧ t.run = w.run ∧
        t.server = (w.server.receive answers wire).server ∧
        t.reader = (w.server.receive answers wire).next.reader w.stops.length ∧
        t.log = w.log ++ (w.server.receive answers wire).events w.server wire) ∨
      (∃ req op, w.reader = .enqueueing req op ∧ t.server = w.server ∧
        t.reader = (if (w.run.enqueue req.id (some ⟨req, op⟩)).2 = none then .leaving op false
          else .rejected req op) ∧
        t.log = w.log ++ [.answered op (w.run.enqueue req.id (some ⟨req, op⟩)).2
          w.run.executor.pending_.length]) := by
  cases hstep with
  | receive a hreader => exact .inr (.inr (.inl ⟨a, _, hreader, rfl, rfl, rfl, rfl⟩))
  | enqueue hreader => exact .inr (.inr (.inr ⟨_, _, hreader, rfl, rfl, rfl⟩))
  | leave_shared hreader hshared =>
      refine .inr (.inl ?_)
      unfold reader_at.left
      split <;> trivial
  | reader_completes hreader =>
      refine .inr (.inl ?_)
      unfold reader_at.left
      split <;> trivial
  | @reader_cleans rest hreader =>
      refine .inr (.inl ?_)
      cases (rest.next w.server fun _ => false).2 <;>
        simp [reader_at.cleaned, reader_at.quiet]
  | @reader_stopped call held hreader hreturned => cases held <;> exact .inr (.inl trivial)
  | deliver | reject_sent | reject_failed | reject_threw | leave_last | cancel =>
      exact .inr (.inl trivial)
  | _ => exact .inl rfl

/-! ## The calls of `stop()`

Any thread may be in a call of `stop()`, and several at once. The calls are listed by number and
each goes through its sections on its own. -/

/-- A call begins, runs the server's section, or is past it and goes on. -/
theorem world.Step.stops_cases {w t : world} {a : server_action} (hstep : world.Step w a t) :
    t.stops = w.stops ∨ t.stops = w.stops ++ [.entered] ∨
      (∃ call : Nat, w.stops[call]? = some .entered ∧ t.server = w.server.stop.1 ∧
        t.stops = w.stops.set call (.section_left w.server.stop.2)) ∨
      (∃ (call : Nat) (before after : stop_at), w.stops[call]? = some before ∧
        before ≠ .entered ∧ t.stops = w.stops.set call after) := by
  cases hstep with
  | @receive wire a hreader =>
      cases (w.server.receive a wire).next with
      | stop => exact .inr (.inl (by simp [receive_next.stops]))
      | done | enqueue | cancel => exact .inl (by simp [receive_next.stops])
  | @leave_shared op threw hreader hshared =>
      cases threw
      · exact .inl rfl
      · exact .inr (.inl rfl)
  | @reader_completes op threw hreader =>
      cases threw
      · exact .inl rfl
      · exact .inr (.inl rfl)
  | reject_failed | respond_failed | call_stop => exact .inr (.inl rfl)
  | stop_server hcall => exact .inr (.inr (.inl ⟨_, hcall, rfl, rfl⟩))
  | stop_executor hcall | stop_cleans hcall | stop_transport hcall =>
      exact .inr (.inr (.inr ⟨_, _, _, hcall, by simp, rfl⟩))
  | _ => exact .inl rfl

/-! ## The log

The log records what the properties of a run are about: texts received, operations admitted,
answered and cancelled, frames passed. A step adds to it at its end only, and what it adds says
which thread took the step and where it was. -/

/-- What a step adds to the log, and who was where. -/
theorem world.Step.log_cases {w t : world} {a : server_action} (hstep : world.Step w a t) :
    t.log = w.log ∨
      (∃ (answers : emit_answers) (wire : json), a = .receive answers ∧
        w.reader = .receiving wire ∧ t.server = (w.server.receive answers wire).server ∧
        t.log = w.log ++ (w.server.receive answers wire).events w.server wire) ∨
      (∃ req op, w.reader = .enqueueing req op ∧ t.server = w.server ∧
        t.log = w.log ++ [.answered op (w.run.enqueue req.id (some ⟨req, op⟩)).2
          w.run.executor.pending_.length]) ∨
      (∃ req op answers, w.reader = .rejected req op ∧ t.server = w.server ∧
        t.log = w.log ++ (w.server.answer answers (.rejection op) op (queue_full_reply req.id)
          "").1.map .passed) ∨
      (∃ op, w.reader = .cancelling op ∧ t.server = w.server ∧
        t.log = w.log ++ [.cancelled op (reached w.run (w.run.cancel (w.server.id_of op)).2)]) ∨
      (∃ item, w.run.worker = .calling item ∧ w.call = .entered ∧ t.server = w.server ∧
        w.server.may_answer item.call.op = true ∧ t.log = w.log ++ [.applied item.call.op]) ∨
      (∃ item reply answers, a = .respond answers ∧ w.run.worker = .calling item ∧
        w.call = .replying reply ∧ t.server = w.server ∧
        t.log = w.log ++ (w.server.answer answers (.worker item.call.op) item.call.op reply
          item.call.req.method).1.map .passed) := by
  cases hstep with
  | receive a hreader => exact .inr (.inl ⟨a, _, rfl, hreader, rfl, rfl⟩)
  | enqueue hreader => exact .inr (.inr (.inl ⟨_, _, hreader, rfl, rfl⟩))
  | reject_sent a hreader | reject_failed a hreader | reject_threw a hreader =>
      exact .inr (.inr (.inr (.inl ⟨_, _, a, hreader, rfl, rfl⟩)))
  | cancel hreader => exact .inr (.inr (.inr (.inr (.inl ⟨_, hreader, rfl, rfl⟩))))
  | apply hworker hcall hmay =>
      exact .inr (.inr (.inr (.inr (.inr (.inl ⟨_, hworker, hcall, rfl, hmay, rfl⟩)))))
  | respond a hworker hcall | respond_failed a hworker hcall =>
      exact .inr (.inr (.inr (.inr (.inr (.inr ⟨_, _, a, rfl, hworker, hcall, rfl, rfl⟩)))))
  | _ => exact .inl rfl

/-- The log only grows. -/
theorem world.Step.log_grows {w t : world} {a : server_action} (hstep : world.Step w a t) :
    ∃ more, t.log = w.log ++ more := by
  rcases hstep.log_cases with
    h | ⟨_, _, -, -, -, h⟩ | ⟨_, _, -, -, h⟩ | ⟨_, _, _, -, -, h⟩ | ⟨_, -, -, h⟩ |
      ⟨_, -, -, -, -, h⟩ | ⟨_, _, _, -, -, -, -, h⟩
  · exact ⟨[], by rw [h, List.append_nil]⟩
  all_goals exact ⟨_, h⟩

/-- Frames of two parts of a log, one after the other. -/
@[simp] theorem frames_of_append (a b : List server_event) :
    frames_of (a ++ b) = frames_of a ++ frames_of b :=
  List.filterMap_append

/-- Frames that were passed are what was logged of them. -/
@[simp] theorem frames_of_passed (frames : List frame) :
    frames_of (frames.map .passed) = frames := by
  induction frames with
  | nil => rfl
  | cons f rest ih =>
      rw [List.map_cons, frames_of, List.filterMap_cons]
      exact congrArg (f :: ·) ih

/-- A frame of the log is one that was passed. -/
theorem mem_frames {log : List server_event} {f : frame} :
    f ∈ frames_of log ↔ .passed f ∈ log := by
  rw [frames_of, List.mem_filterMap]
  constructor
  · rintro ⟨event, hmem, hevent⟩
    split at hevent
    · rw [Option.some.injEq] at hevent
      exact hevent ▸ hmem
    · cases hevent
  · intro hmem
    exact ⟨_, hmem, rfl⟩

/-- The frames of an `emit` are all of one origin. -/
theorem emitted_origin {a : emit_answers} {origin : frame_origin} {reply : response}
    {method : String} {f : frame} (h : f ∈ emitted a origin reply method) : f.origin = origin := by
  rw [emitted, Option.mem_toList, Option.map_eq_some_iff] at h
  obtain ⟨wire, -, rfl⟩ := h
  rfl

/-- What a guarded `emit` passes is marked with who sent it, and was allowed at that moment. -/
theorem server.answer_origin {s : server} {a : emit_answers} {origin : frame_origin} {op : Nat}
    {reply : response} {method : String} {f : frame}
    (h : f ∈ (s.answer a origin op reply method).1) :
    f.origin = origin ∧ s.may_answer op = true := by
  unfold server.answer at h
  split at h
  · rename_i hmay
    exact ⟨emitted_origin h, hmay⟩
  · cases h

/-- A guarded `emit` passes nothing, or one frame, and then the operation may be
answered. -/
theorem server.answer_cases (s : server) (a : emit_answers) (origin : frame_origin) (op : Nat)
    (reply : response) (method : String) :
    (s.answer a origin op reply method).1 = [] ∨
      (s.may_answer op = true ∧ ∃ wire accepted,
        (s.answer a origin op reply method).1 = [⟨origin, wire, accepted⟩]) := by
  unfold server.answer
  split
  · rename_i hmay
    unfold emitted
    cases (emit a reply method).1 with
    | none => exact .inl rfl
    | some wire => exact .inr ⟨hmay, wire, _, rfl⟩
  · exact .inl rfl

/-- A frame of the reader's own answers what it received, which was no notification. -/
theorem received_frames {s : server} {a : emit_answers} {wire : json} {r : section_result}
    (h : server.received s a wire r) {f : frame} (hf : f ∈ r.frames) :
    f.origin = .received wire ∧ server.is_notification wire = false ∧ s.serving = true := by
  cases h with
  | replied reply method hserving hanswer hinit => exact ⟨emitted_origin hf, hanswer, hserving⟩
  | negotiated req hdecode hserving hprotocol hmethod hparams =>
      exact ⟨emitted_origin hf, server.request_not_notification hdecode, hserving⟩
  | duplicate req op hdecode hserving hprotocol hmem hsame outcome houtcome =>
      exact ⟨emitted_origin hf, server.request_not_notification hdecode, hserving⟩
  | ignored | ready | cancelled | admitted => cases hf

/-- What `receive` logs: the text, with the state of the session it found; the frames it sent;
and the operation, if one was admitted. -/
theorem mem_events {r : section_result} {s : server} {wire : json} {event : server_event}
    (h : event ∈ r.events s wire) :
    event = .received wire s.protocol_ ∨ (∃ f ∈ r.frames, event = .passed f) ∨
      ∃ req op, r.next = .enqueue req op ∧ event = .admitted op := by
  rw [section_result.events, List.cons_append, List.mem_cons, List.mem_append] at h
  rcases h with h | h | h
  · exact .inl h
  · obtain ⟨f, hf, rfl⟩ := List.mem_map.mp h
    exact .inr (.inl ⟨f, hf, rfl⟩)
  · cases hnext : r.next with
    | enqueue req op =>
        rw [hnext] at h
        exact .inr (.inr ⟨req, op, rfl, List.mem_singleton.mp h⟩)
    | done | stop | cancel =>
        rw [hnext] at h
        cases h

end SynapseMcp
