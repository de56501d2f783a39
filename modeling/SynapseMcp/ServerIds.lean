/-
The request IDs the server and its executor hold.

Each keeps a table of its own under its own mutex: `inflight_`, and the works queued
or active. What ties them together is custody: a work that is queued or active holds
a capture, so its operation is in `inflight_`, and `inflight_` never lists one ID
twice. Hence an enqueue from `receive()` can only be refused because the queue is
full or admission has closed, and the `executor_->cancel` that `notify` issues after
its section can only reach the operation it marked.
-/
import SynapseMcp.ServerSteps
import Mathlib.Data.List.Pairwise
import Mathlib.Data.List.Perm.Subperm

set_option autoImplicit false

namespace SynapseMcp

open Transition SharedOwnership

/-- Two operations whose IDs are not the same request. -/
def distinct_requests (s : server) (op op' : Nat) : Prop :=
  same_request_id (s.id_of op) (s.id_of op') = false

/-- The work `item` carries the request of its operation under its operation's ID. -/
def carries (s : server) (item : work closure) : Prop :=
  item.call.op < s.operations.length ∧ item.id = s.id_of item.call.op ∧
    item.call.req.id = item.id

/-- What the reader knows about the operation it is busy with. -/
def reader_knows (s : server) : reader_at → Prop
  | .enqueueing req op => op ∈ s.inflight_ ∧ op < s.operations.length ∧ s.id_of op = req.id
  | .rejected req op => op < s.operations.length ∧ s.id_of op = req.id
  | .cancelling op => s.cancelled op = true ∧
      ∀ op' ∈ s.inflight_, same_request_id (s.id_of op') (s.id_of op) = true → op' = op
  | _ => True

/-- What ties the two tables: the IDs in flight, what works and reader carry, and how far a
`stop()` can have got. -/
structure ids_inv (w : world) : Prop where
  real : ∀ op ∈ w.server.inflight_, w.server.id_of op ≠ .null
  distinct : w.server.inflight_.Pairwise (distinct_requests w.server)
  works : ∀ item ∈ queued_works w.run, carries w.server item
  reader : reader_knows w.server w.reader
  /-- While the server serves, no call of `stop()` is past its first section. -/
  stops : w.server.serving = true → ∀ call ∈ w.stops, call = .entered
  /-- Admission closes only after the server stopped serving. -/
  closed : w.run.executor.stopping_ = true → w.server.serving = false

/-! ## One step

The invariant has six parts. The two on `inflight_` can only fail where an operation is listed,
and there the duplicate check of `receive` has just found its ID new. What the works and the
reader carry was right when they got it, and an ID never changes. The last two put the closing
in order: the first section of `stop()` ends the service before `executor_->stop` closes
admission.

Each part of the invariant has its own lemma about a step: `table` for the two on `inflight_`,
`works`, `knows` for the reader, `stops_entered` and `closes`. They are put together in
`ids_inv.step` only, so that a change of one section of the server is seen in the lemma on what
that section writes. -/

section Step

variable {w t : world} {a : server_action}

/-- A work carries the same request at every later state. -/
theorem carries_later {s s' : server} (h : server_later s s') {item : work closure}
    (hc : carries s item) : carries s' item := by
  obtain ⟨hlt, hid, hreq⟩ := hc
  exact ⟨Nat.lt_of_lt_of_le hlt h.length, by rw [h.ids _ hlt]; exact hid, hreq⟩

/-- What a section of `receive` leaves in `inflight_`: what was there, or one
operation more, whose ID is real and was not there. -/
theorem received_ids {s : server} {answers : emit_answers} {wire : json} {r : section_result}
    (h : server.received s answers wire r) :
    (r.server.inflight_ = s.inflight_ ∧ ∀ op, r.server.id_of op = s.id_of op) ∨
      ∃ req : request, req.id ≠ .null ∧ r.server = s.push req.id ∧
        ∀ op ∈ s.inflight_, same_request_id (s.id_of op) req.id = false := by
  cases h with
  | ignored | replied | negotiated | ready => exact .inl ⟨rfl, fun _ => rfl⟩
  | cancelled op id hserving hmem hsame =>
      exact .inl ⟨rfl, server.id_of_mark_cancelled s op⟩
  | duplicate req op hdecode hserving hopen hmem hsame s' hs' =>
      subst hs'
      left
      split <;> exact ⟨rfl, fun _ => rfl⟩
  | admitted req hdecode hserving hready hid hfresh => exact .inr ⟨req, hid, rfl, hfresh⟩

/-- The new operation keeps the IDs real and distinct, if its own is real and new. -/
theorem pushed_ids {s : server} {id : json_rpc_id}
    (hmade : ∀ op ∈ s.inflight_, op < s.operations.length)
    (hid : id ≠ .null) (hreal : ∀ op ∈ s.inflight_, s.id_of op ≠ .null)
    (hdistinct : s.inflight_.Pairwise (distinct_requests s))
    (hfresh : ∀ op ∈ s.inflight_, same_request_id (s.id_of op) id = false) :
    (∀ op ∈ (s.push id).inflight_, (s.push id).id_of op ≠ .null) ∧
      (s.push id).inflight_.Pairwise (distinct_requests (s.push id)) := by
  have hold : ∀ op ∈ s.inflight_, (s.push id).id_of op = s.id_of op :=
    fun op hop => server.id_of_push_lt id (hmade op hop)
  constructor
  · intro op hop
    rcases List.mem_append.mp hop with hop | hop
    · rw [hold op hop]
      exact hreal op hop
    · rw [List.mem_singleton.mp hop, server.id_of_push_new]
      exact hid
  · refine List.pairwise_append.mpr ⟨?_, List.pairwise_singleton _ _, ?_⟩
    · refine hdistinct.imp_of_mem ?_
      intro op op' hop hop' hne
      rw [distinct_requests, hold op hop, hold op' hop']
      exact hne
    · intro op hop op' hop'
      rw [List.mem_singleton.mp hop', distinct_requests, hold op hop, server.id_of_push_new]
      exact hfresh op hop

/-- Every step keeps the IDs in flight real and pairwise distinct. Only `receive` adds one;
completions take one out. -/
theorem world.Step.table (hc : custody w) (h : ids_inv w) (hstep : world.Step w a t) :
    (∀ op ∈ t.server.inflight_, t.server.id_of op ≠ .null) ∧
      t.server.inflight_.Pairwise (distinct_requests t.server) := by
  have hlater := hstep.later
  rcases hstep.server_cases with
    hs | ⟨answers, wire, -, hs⟩ | ⟨op, hs⟩ | hs | ⟨-, hs⟩ | ⟨-, hs⟩
  · rw [hs]
    exact ⟨h.real, h.distinct⟩
  · rcases received_ids (w.server.receive_received answers wire) with
      ⟨htable, hids⟩ | ⟨req, hid, hpush, hfresh⟩
    · rw [hs, htable]
      refine ⟨fun op hop => by rw [hids]; exact h.real op hop, h.distinct.imp ?_⟩
      intro op op' hne
      rw [distinct_requests, hids, hids]
      exact hne
    -- the new ID is real, and no one in flight had it
    · rw [hs, hpush]
      exact pushed_ids hc.made hid h.real h.distinct hfresh
  · rw [hs]
    exact ⟨fun op' hop' => h.real op' (List.mem_of_mem_filter hop'), h.distinct.filter _⟩
  -- stopping marks the operations and leaves their IDs
  · have hkeep : ∀ op op', distinct_requests t.server op op' ↔
        distinct_requests w.server op op' := by
      intro op op'
      rw [hs, distinct_requests, server.id_of_stop, server.id_of_stop]
      rfl
    rw [hs] at hkeep ⊢
    rw [server.stop_inflight]
    exact ⟨fun op hop => by rw [server.id_of_stop]; exact h.real op hop,
      h.distinct.imp fun hne => (hkeep _ _).mpr hne⟩
  · rw [hs]
    exact ⟨h.real, h.distinct⟩
  · rw [hs]
    exact ⟨h.real, h.distinct⟩

/-- Every work carries the request of its operation. A work comes in with what the reader holds,
and works that are there stay as they were made. -/
theorem world.Step.works (h : ids_inv w) (hstep : world.Step w a t) :
    ∀ item ∈ queued_works t.run, carries t.server item := by
  intro item hitem
  have hlater := hstep.later
  rcases hstep.run_cases with hrun | ⟨req, op, hreader, hrun⟩ | ⟨b, hno, -, hcore⟩
  · rw [hrun] at hitem
    exact carries_later hlater (h.works item hitem)
  · rw [hrun] at hitem
    rcases queued_works_enqueue w.run req.id ⟨req, op⟩ item hitem with hitem | ⟨hid, hcall⟩
    · exact carries_later hlater (h.works item hitem)
    · have hknows := h.reader
      rw [hreader] at hknows
      -- the work is made of the reader's request and operation
      obtain ⟨-, hlt, hop⟩ := hknows
      refine carries_later hlater ?_
      rw [carries, hid, hcall]
      exact ⟨hlt, hop.symm, rfl⟩
  · exact carries_later hlater (h.works item (queued_works_step hno hcore item hitem))

/-- What the reader knows stays true while others step, if the operation it is about to enqueue
stays in flight and nothing is admitted while it cancels one. -/
theorem reader_knows_later {s s' : server} (h : server_later s s') {r : reader_at}
    (hkeep : ∀ req op, r = .enqueueing req op → op ∈ s'.inflight_)
    (hfresh : (∃ op, r = .cancelling op) → ∀ op ∈ s'.inflight_, op ∈ s.inflight_)
    (hmade : ∀ op ∈ s.inflight_, op < s.operations.length)
    (hr : reader_knows s r) : reader_knows s' r := by
  cases r with
  | enqueueing req op =>
      obtain ⟨-, hlt, hid⟩ := hr
      exact ⟨hkeep req op rfl, Nat.lt_of_lt_of_le hlt h.length, by rw [h.ids op hlt]; exact hid⟩
  | rejected req op =>
      obtain ⟨hlt, hid⟩ := hr
      exact ⟨Nat.lt_of_lt_of_le hlt h.length, by rw [h.ids op hlt]; exact hid⟩
  | cancelling op =>
      obtain ⟨hflag, honly⟩ := hr
      refine ⟨h.cancelled op hflag, ?_⟩
      intro op' hop' hsame
      have hold := hfresh ⟨op, rfl⟩ op' hop'
      rw [h.ids op' (hmade op' hold), h.ids op (server.cancelled_lt hflag)] at hsame
      exact honly op' hold hsame
  | _ => trivial

/-- Only the reader lists operations, so what is in flight after a step of anybody else was so
before. -/
theorem world.Step.shrinks (hstep : world.Step w a t) (hno : ∀ wire, w.reader ≠ .receiving wire) :
    ∀ op ∈ t.server.inflight_, op ∈ w.server.inflight_ := by
  intro op hop
  rcases hstep.server_cases with
    hs | ⟨answers, wire, ⟨hreader, -⟩, -⟩ | ⟨op', hs⟩ | hs | ⟨-, hs⟩ | ⟨-, hs⟩
  · rwa [hs] at hop
  · exact absurd hreader (hno wire)
  · rw [hs] at hop
    exact List.mem_of_mem_filter hop
  · rwa [hs, server.stop_inflight] at hop
  · rwa [hs] at hop
  · rwa [hs] at hop

/-- Two operations in flight under one ID are one operation, since IDs in flight are distinct.
-/
theorem ids_inv.unique (h : ids_inv w) {op op' : Nat} (hop : op ∈ w.server.inflight_)
    (hop' : op' ∈ w.server.inflight_)
    (hsame : same_request_id (w.server.id_of op) (w.server.id_of op') = true) : op = op' := by
  by_contra hne
  have : Std.Symm (distinct_requests w.server) := by
    refine ⟨fun x y hxy => ?_⟩
    rw [distinct_requests, same_request_id_comm]
    exact hxy
  have hdiff := h.distinct.forall hop hop' hne
  rw [distinct_requests, hsame] at hdiff
  cases hdiff

/-- What the reader knows when it leaves the section: it has just listed the operation, or
marked it. -/
theorem received_knows {answers : emit_answers} {wire : json} {r : section_result} (hc : custody w)
    (h : ids_inv w) (hr : server.received w.server answers wire r) (calls : Nat) :
    reader_knows r.server (r.next.reader calls) := by
  cases hr with
  | ignored | ready => trivial
  | replied | negotiated =>
      unfold server.reply
      dsimp only
      split <;> trivial
  | duplicate => trivial
  | cancelled op id hserving hmem hsame =>
      have hlt := hc.made op hmem
      refine ⟨?_, ?_⟩
      · simp [server.mark_cancelled, server.cancelled, hlt]
      · intro op' hop' hsame'
        rw [server.id_of_mark_cancelled, server.id_of_mark_cancelled] at hsame'
        exact h.unique hop' hmem hsame'
  | admitted req hdecode hserving hready hid hfresh =>
      exact ⟨by simp [server.push], by simp [server.push], server.id_of_push_new _ _⟩

/-- The reader knows the same after every step. While it is about to enqueue it holds `done`, so
its operation stays in flight; while it is about to cancel, nobody else lists an operation, so
the ID cannot be taken up again. -/
theorem world.Step.knows (hc : custody w) (hct : custody t) (h : ids_inv w)
    (hstep : world.Step w a t) : reader_knows t.server t.reader := by
  rcases hstep.reader_cases with
    hsame | hquiet | ⟨answers, wire, -, -, hs, hreader, -⟩ | ⟨req, op, hreader, hs, hafter, -⟩
  · have hknows := h.reader
    rw [← hsame] at hknows
    refine reader_knows_later hstep.later ?_ ?_ hc.made hknows
    · intro req op henq
      refine (hct.balanced.mem_iff op).mpr ?_
      -- `done` is a capture, and what is captured is in flight
      have hheld : t.reader.held.count op = 1 := by
        rw [henq]
        exact List.count_singleton_self
      change 0 < t.captures op + t.reader.held.count op + t.retirements op
      omega
    · rintro ⟨op, hcancelling⟩
      refine hstep.shrinks ?_
      intro wire hreceiving
      rw [← hsame, hcancelling] at hreceiving
      cases hreceiving
  · revert hquiet
    cases t.reader <;> simp [reader_at.quiet, reader_knows]
  · rw [hs, hreader]
    exact received_knows hc h (w.server.receive_received answers wire) _
  · have hknows := h.reader
    rw [hreader] at hknows
    rw [hafter, hs]
    split
    · trivial
    · exact hknows.2

/-- While the server serves no call of `stop()` has run its first section: that section ends the
serving. -/
theorem world.Step.stops_entered (h : ids_inv w) (hstep : world.Step w a t)
    (hserving : t.server.serving = true) : ∀ call ∈ t.stops, call = .entered := by
  have hold := h.stops (hstep.later.serving hserving)
  rcases hstep.stops_cases with
    hs | hs | ⟨call, -, hserver, -⟩ | ⟨call, before, after, hcall, hne, -⟩
  · rwa [hs]
  · rw [hs]
    intro c hcmem
    rcases List.mem_append.mp hcmem with hcmem | hcmem
    · exact hold c hcmem
    · exact List.mem_singleton.mp hcmem
  · rw [hserver] at hserving
    simp at hserving
  · exact absurd (hold before (List.mem_of_getElem? hcall)) hne

/-- A `stop()` the reader called after a failure returns only once its first section
has run, so the reader is in it as long as the server serves. -/
theorem world.Step.reader_stays (h : ids_inv w) (hstep : world.Step w a t)
    (hserving : t.server.serving = true) {call : Nat} {held : Option Nat}
    (hreader : w.reader = .stopping call held) : t.reader = .stopping call held := by
  have hentered := h.stops (hstep.later.serving hserving)
  cases hstep with
  | reader_stopped hr hret => cases hentered _ (List.mem_of_getElem? hret)
  | deliver _ hr | receive _ hr | enqueue hr | leave_last hr _ | leave_shared hr _
  | reader_completes hr | cancel hr | reader_cleans hr =>
      rw [hreader] at hr
      cases hr
  | reject_sent _ hr _ | reject_failed _ hr _ | reject_threw _ hr _ =>
      rw [hreader] at hr
      cases hr
  | _ => exact hreader

/-- Admission closes in the second part of a `stop()`, so after the service has ended. -/
theorem world.Step.closes (h : ids_inv w) (hstep : world.Step w a t)
    (hstopping : t.run.executor.stopping_ = true) : t.server.serving = false := by
  by_contra hserving
  rw [Bool.not_eq_false] at hserving
  have hbefore := hstep.later.serving hserving
  rcases hstep.stopping hstopping with hstop | ⟨call, hcall⟩
  · rw [h.closed hstop] at hbefore
    cases hbefore
  · have := h.stops hbefore _ (List.mem_of_getElem? hcall)
    cases this

/-- Every step keeps the invariant. -/
theorem ids_inv.step (hc : custody w) (h : ids_inv w) (hstep : world.Step w a t) : ids_inv t where
  real := (hstep.table hc h).1
  distinct := (hstep.table hc h).2
  works := hstep.works h
  reader := hstep.knows hc (hc.step hstep) h
  stops := hstep.stops_entered h
  closed := hstep.closes h

end Step

/-- A server that has just started has nothing in either table. -/
theorem ids_inv_init {limit : Nat} {w : world} (h : (server_runs limit).init w) : ids_inv w := by
  obtain ⟨hlimit, info, resources, prompts, tools, rfl⟩ := h
  have hne : limit ≠ 0 := by omega
  constructor <;>
    simp [server.started, queued_works, runtime.make, owned_executor.make, hne, reader_knows]

/-- It holds in every state of a server. -/
theorem server_ids {limit : Nat} {w : world} (h : (server_runs limit).Reachable w) : ids_inv w :=
  h.invariant (fun _ => ids_inv_init) fun _ _ _ hr hi hstep => hi.step (server_custody hr) hstep

/-! ## What the executor answers

The executor refuses an enqueue for an invalid ID, for one it has already, for a full queue or
because admission is closed. From `receive` the first two cannot be. The ID was checked. And a
work with the same ID would hold a capture of an operation in flight under that ID, which is the
operation about to be enqueued; but no work holds a capture of that one yet. In the same way a
cancellation by ID can only reach the work of the operation that was marked.

What was answered is in the log with the length the queue had then. A queue-full reply is traced
back through it: the reply names its operation, and in the log before it an enqueue of that
operation found `limit` works pending. Between the answer and the reply the server may have
stopped; then the reader passes nothing on. -/

section Answers

variable {limit : Nat} {w t : world} {a : server_action}

/-- The active work holds a capture: the worker drops it only after `reset_active`. -/
theorem call_active (hc : custody w) {item : work closure}
    (h : w.run.worker.active = some item) : 0 < w.captures item.call.op := by
  have hcall := hc.call
  have hcurrent : current_works w.run.worker w.call = [item] := by
    cases hworker : w.run.worker with
    | dequeued v | returned v =>
        rw [hworker] at h hcall
        cases h
        rw [hcall.outside (by simp) (by simp)]
        rfl
    | calling v =>
        rw [hworker] at h hcall
        cases h
        cases hc' : w.call with
        | completing op =>
            rw [hc'] at hcall
            obtain ⟨v, hv, -⟩ := hcall
            cases hv
        | _ => rfl
    | _ =>
        rw [hworker] at h
        cases h
  simp only [world.captures, hcurrent, captures_in_cons, one_self]
  omega

/-- A queued work holds a capture. -/
theorem call_pending {item : work closure} (h : item ∈ w.run.executor.pending_) :
    0 < w.captures item.call.op := by
  have hcount : 0 < captures_in item.call.op w.run.executor.pending_ := by
    rw [captures_in, List.countP_pos_iff]
    exact ⟨item, h, by simp⟩
  simp only [world.captures]
  omega

/-- A work that is queued or active belongs to an operation in flight, under its ID. -/
theorem work_in_flight (hc : custody w) (h : ids_inv w) (hrun : runtime_inv limit w.run)
    {item : work closure}
    (hitem : w.run.executor.active_ = some item ∨ item ∈ w.run.executor.pending_) :
    item.call.op ∈ w.server.inflight_ ∧ item.id = w.server.id_of item.call.op ∧
      0 < w.captures item.call.op := by
  have hcaptured : 0 < w.captures item.call.op := by
    rcases hitem with hactive | hpending
    · exact call_active hc (hrun.active_worker ▸ hactive)
    · exact call_pending hpending
  have hqueued : item ∈ queued_works w.run := by
    rcases hitem with hactive | hpending
    · refine List.mem_append_right _ ?_
      rw [hrun.active_worker] at hactive
      cases hworker : w.run.worker <;> rw [hworker] at hactive <;> cases hactive <;> simp
    · exact List.mem_append_left _ hpending
  refine ⟨(hc.balanced.mem_iff _).mpr ?_, (h.works item hqueued).2.1, hcaptured⟩
  simp only [world.ledger]
  omega

/-- Why an enqueue of `receive` is refused: the queue is full, or the server stopped. -/
theorem enqueue_refused (hc : custody w) (h : ids_inv w) (hrun : runtime_inv limit w.run)
    {req : request} {op : Nat} (hreader : w.reader = .enqueueing req op) {err : sdk_error}
    (hanswer : (w.run.enqueue req.id (some ⟨req, op⟩)).2 = some err) :
    (err = owned_executor.queue_full ∧ w.run.executor.pending_.length = limit) ∨
      (err = owned_executor.admission_closed ∧ w.server.serving = false) := by
  have hknows := h.reader
  rw [hreader] at hknows
  obtain ⟨hmem, hlt, hid⟩ := hknows
  have hreal : req.id ≠ .null := by
    rw [← hid]
    exact h.real op hmem
  rcases w.run.enqueue_cases req.id (some ⟨req, op⟩) with
    ⟨err', herr, heq⟩ | ⟨c, -, -, -, -, -, -, heq⟩
  · rw [heq] at hanswer
    cases hanswer
    rw [owned_executor.enqueue_some hreal] at herr
    rcases owned_executor.enqueue_locked_error herr with
      ⟨hclosed, hstop⟩ | ⟨-, v, hv, hsame⟩ | ⟨hfull, -, hlen⟩
    · exact .inr ⟨hclosed, h.closed hstop⟩
    · -- the work with this ID would hold a capture of the operation to be enqueued
      exfalso
      obtain ⟨hvmem, hvid, hcaptured⟩ := work_in_flight hc h hrun hv
      rw [hvid, ← hid] at hsame
      have hop := h.unique hvmem hmem hsame
      have hnone := hc.uncaptured req op hreader
      rw [hop] at hcaptured
      omega
    -- full: as many as the limit, and never more
    · have hbound := hrun.bounded
      rw [hrun.limit_eq] at hlen
      exact .inl ⟨hfull, by omega⟩
  · rw [heq] at hanswer
    cases hanswer

/-! ### The log

What is said of an event rests on the log before it, on flags that are never taken back, or on
nothing else, so it stays true of the event in every later state (`event_ok_later`). A step then
has to show it of the events it adds, and the cases are the kinds of those. -/

/-- What holds of an event of the log, and stays true. -/
def event_ok (limit : Nat) (w : world) : server_event → Prop
  | .answered _ (some err) queued =>
      (err = owned_executor.queue_full ∧ queued = limit) ∨ err = owned_executor.admission_closed
  | .passed f => ∀ op, f.origin = .rejection op →
      .answered op (some owned_executor.queue_full) limit ∈ w.log
  | .cancelled op reached => (reached = [] ∨ reached = [op]) ∧ w.server.cancelled op = true
  | _ => True

/-- What the log shows of answers, refusals and cancellations, and what the reader's refusal
rests on. -/
structure answers_inv (limit : Nat) (w : world) : Prop where
  events : ∀ event ∈ w.log, event_ok limit w event
  /-- A refused request was refused by a full queue, unless the server has stopped. -/
  refused : ∀ req op, w.reader = .rejected req op → w.server.serving = true →
    .answered op (some owned_executor.queue_full) limit ∈ w.log

/-- What holds of an event is about the log before it and about flags, so it stays true. -/
theorem event_ok_later (hlog : ∃ more, t.log = w.log ++ more)
    (hlater : server_later w.server t.server) {event : server_event}
    (h : event_ok limit w event) : event_ok limit t event := by
  obtain ⟨more, hlog⟩ := hlog
  cases event with
  | passed f =>
      intro op hop
      rw [hlog]
      exact List.mem_append_left _ (h op hop)
  | cancelled op reached => exact ⟨h.1, hlater.cancelled op h.2⟩
  | answered op answer queued => cases answer <;> exact h
  | _ => trivial

/-- The works a cancellation reaches belong to the operation it was issued for. -/
theorem reached_cases (hc : custody w) (h : ids_inv w) (hrun : runtime_inv limit w.run) {op : Nat}
    (hreader : w.reader = .cancelling op) :
    reached w.run (w.run.cancel (w.server.id_of op)).2 = [] ∨
      reached w.run (w.run.cancel (w.server.id_of op)).2 = [op] := by
  have hknows := h.reader
  rw [hreader] at hknows
  -- any work under this ID is that of the operation
  have honly : ∀ item, (w.run.executor.active_ = some item ∨ item ∈ w.run.executor.pending_) →
      same_request_id item.id (w.server.id_of op) = true → item.call.op = op := by
    intro item hitem hsame
    obtain ⟨hmem, hid, -⟩ := work_in_flight hc h hrun hitem
    exact hknows.2 _ hmem (hid ▸ hsame)
  rcases w.run.cancel_cases (w.server.id_of op) with
    ⟨v, hactive, hsame, heq⟩ | ⟨before, v, after, hitems, hsame, -, -, heq⟩ | ⟨-, -, heq⟩
  · right
    simp [reached, heq, hactive, honly v (.inl hactive) hsame]
  · right
    simp [reached, heq, honly v (.inr (by simp [hitems])) hsame]
  · left
    simp [reached, heq]

/-- Every step keeps it. The cases are the kinds of events a step can add; a refusal is decided
with what the tables say of the ID, and a queue-full reply is looked up in the log before it. -/
theorem answers_inv.step (hc : custody w) (hi : ids_inv w) (hrun : runtime_inv limit w.run)
    (h : answers_inv limit w) (hstep : world.Step w a t) : answers_inv limit t := by
  have hkeep : ∀ event ∈ w.log, event_ok limit t event := fun event hevent =>
    event_ok_later hstep.log_grows hstep.later (h.events event hevent)
  have hframes : ∀ {frames : List frame}, (∀ f ∈ frames, ∀ op, f.origin = .rejection op →
      .answered op (some owned_executor.queue_full) limit ∈ t.log) →
      ∀ event ∈ frames.map server_event.passed, event_ok limit t event := by
    intro frames hf event hevent
    obtain ⟨f, hfm, rfl⟩ := List.mem_map.mp hevent
    exact hf f hfm
  constructor
  · rcases hstep.log_cases with
      hlog | ⟨answers, wire, -, -, -, hlog⟩ | ⟨req, op, hreader, -, hlog⟩ |
        ⟨req, op, answers, hreader, -, hlog⟩ | ⟨op, hreader, hserver, hlog⟩ |
        ⟨item, -, -, -, -, hlog⟩ | ⟨item, reply, answers, -, -, -, -, hlog⟩
    · rwa [hlog]
    · rw [hlog]
      intro event hevent
      rcases List.mem_append.mp hevent with hevent | hevent
      · exact hkeep event hevent
      · rcases mem_events hevent with rfl | ⟨f, hf, rfl⟩ | ⟨req, op, -, rfl⟩
        · trivial
        · intro op hop
          rw [(received_frames (w.server.receive_received answers wire) hf).1] at hop
          cases hop
        · trivial
    · rw [hlog]
      intro event hevent
      rcases List.mem_append.mp hevent with hevent | hevent
      · exact hkeep event hevent
      · rw [List.mem_singleton.mp hevent]
        cases hanswer : (w.run.enqueue req.id (some ⟨req, op⟩)).2 with
        | none => trivial
        | some err =>
            rcases enqueue_refused hc hi hrun hreader hanswer with hfull | ⟨hclosed, -⟩
            · exact .inl hfull
            · exact .inr hclosed
    · rw [hlog]
      intro event hevent
      rcases List.mem_append.mp hevent with hevent | hevent
      · exact hkeep event hevent
      · refine hframes ?_ event hevent
        intro f hf op' hop'
        obtain ⟨horigin, hmay⟩ := server.answer_origin hf
        rw [hop'] at horigin
        cases horigin
        -- the frame is passed on only while the server still serves
        rw [server.may_answer, Bool.and_eq_true] at hmay
        rw [hlog]
        exact List.mem_append_left _ (h.refused req op hreader hmay.2)
    · rw [hlog]
      intro event hevent
      rcases List.mem_append.mp hevent with hevent | hevent
      · exact hkeep event hevent
      · rw [List.mem_singleton.mp hevent]
        refine ⟨reached_cases hc hi hrun hreader, ?_⟩
        have hknows := hi.reader
        rw [hreader] at hknows
        rw [hserver]
        exact hknows.1
    · rw [hlog]
      intro event hevent
      rcases List.mem_append.mp hevent with hevent | hevent
      · exact hkeep event hevent
      · rw [List.mem_singleton.mp hevent]
        trivial
    · rw [hlog]
      intro event hevent
      rcases List.mem_append.mp hevent with hevent | hevent
      · exact hkeep event hevent
      · refine hframes ?_ event hevent
        intro f hf op' hop'
        rw [(server.answer_origin hf).1] at hop'
        cases hop'
  · intro req op hreader hserving
    rcases hstep.reader_cases with
      hsame | hquiet | ⟨answers, wire, -, -, hs, hafter, -⟩ | ⟨req', op', hbefore, hs, hafter, hlog⟩
    · obtain ⟨more, hlog⟩ := hstep.log_grows
      rw [hlog]
      rw [hsame] at hreader
      exact List.mem_append_left _ (h.refused req op hreader (hstep.later.serving hserving))
    · rw [hreader] at hquiet
      cases hquiet
    · rw [hafter] at hreader
      cases hnext : (w.server.receive answers wire).next <;>
        simp [hnext, receive_next.reader] at hreader
    · rw [hafter] at hreader
      split at hreader
      · cases hreader
      · rename_i hanswer
        cases hreader
        obtain ⟨err, herr⟩ := Option.ne_none_iff_exists'.mp hanswer
        rw [hs] at hserving
        -- a refusal of a server that serves can only be that the queue is full
        rcases enqueue_refused hc hi hrun hbefore herr with ⟨hfull, hheld⟩ | ⟨-, hstopped⟩
        · rw [hlog, herr, hfull, hheld]
          exact List.mem_append_right _ (List.mem_singleton_self _)
        · rw [hstopped] at hserving
          cases hserving

/-- It holds in every state of a server. -/
theorem server_answers (h : (server_runs limit).Reachable w) : answers_inv limit w := by
  refine h.invariant (P := answers_inv limit) ?_ ?_
  · rintro w ⟨-, info, resources, prompts, tools, rfl⟩
    exact ⟨by simp, by simp⟩
  · intro w a t hw hi hstep
    exact hi.step (server_custody hw) (server_ids hw) (server_runtime hw) hstep

/-! ## How many operations are in flight

An operation is in flight as long as a capture is held. When the reader is out of `receive()`
and every `stop()` is over, captures are held by the queue and the worker only, so there are at
most `limit` and one.

The bound is on places. Whatever is in flight is at one of them, and `inflight_` has no
operation twice, so it is no longer than the list of the places. The reader and a `stop()` under
way may hold captures besides, which is why they have to be over. -/

/-- Calls of `stop()` that have only begun, or returned, hold nothing. -/
theorem stops_hold_nothing (op : Nat) {stops : List stop_at}
    (h : ∀ call ∈ stops, call = .entered ∨ call = .returned) :
    captures_stopped op stops = 0 ∧ completes_stopped op stops = 0 := by
  induction stops with
  | nil => exact ⟨rfl, rfl⟩
  | cons call rest ih =>
      obtain ⟨hcaptures, hcompletes⟩ := ih fun c hcmem => h c (List.mem_cons_of_mem _ hcmem)
      rw [captures_stopped] at hcaptures
      rw [completes_stopped] at hcompletes
      rw [captures_stopped, completes_stopped, List.map_cons, List.sum_cons, List.map_cons,
        List.sum_cons, hcaptures, hcompletes]
      rcases h call List.mem_cons_self with rfl | rfl <;> exact ⟨rfl, rfl⟩

/-- With nobody inside `receive()` or `stop()`, an operation in flight is queued, or is
the one the worker has. -/
theorem in_flight_places (hc : custody w) (hreader : w.reader = .idle)
    (hstops : ∀ call ∈ w.stops, call = .entered ∨ call = .returned) {op : Nat}
    (hop : op ∈ w.server.inflight_) :
    op ∈ w.run.executor.pending_.map (·.call.op) ∨
      op ∈ (current_works w.run.worker w.call).map (·.call.op) ++ w.call.completes := by
  have hidle := stops_hold_nothing op hstops
  have hheld := (hc.balanced.mem_iff op).mp hop
  simp only [world.ledger, world.captures, world.retirements, hreader, hidle] at hheld
  simp only [reader_at.held, reader_at.discarded, reader_at.completes, captures_in_nil,
    List.count_nil] at hheld
  have hplace : ∀ works : List (work closure), 0 < captures_in op works →
      op ∈ works.map (·.call.op) := by
    intro works hpos
    rw [captures_in, List.countP_pos_iff] at hpos
    obtain ⟨item, hitem, heq⟩ := hpos
    exact List.mem_map.mpr ⟨item, hitem, by simpa using heq⟩
  by_cases hpending : 0 < captures_in op w.run.executor.pending_
  · exact .inl (hplace _ hpending)
  · right
    by_cases hcurrent : 0 < captures_in op (current_works w.run.worker w.call)
    · exact List.mem_append_left _ (hplace _ hcurrent)
    · refine List.mem_append_right _ (List.count_pos_iff.mp ?_)
      omega

/-- The queue and the worker's one work bound the table. -/
theorem in_flight_bounded (hc : custody w) (hrun : runtime_inv limit w.run)
    (hreader : w.reader = .idle) (hstops : ∀ call ∈ w.stops, call = .returned) :
    w.server.inflight_.length ≤ limit + 1 := by
  have hone : ((current_works w.run.worker w.call).map (·.call.op) ++ w.call.completes).length ≤
      1 := by
    cases hcall : w.call with
    | completing op => simp [current_works]
    | _ =>
        simp only [current_works, call_at.completes, List.append_nil, List.length_map]
        cases w.run.worker <;> simp
  -- each in flight is at one of the places counted
  have hsub : w.server.inflight_ ⊆ w.run.executor.pending_.map (·.call.op) ++
      ((current_works w.run.worker w.call).map (·.call.op) ++ w.call.completes) := by
    intro op hop
    exact List.mem_append.mpr
      (in_flight_places hc hreader (fun call hcall => .inr (hstops call hcall)) hop)
  have hle := (List.subperm_of_subset hc.balanced.nodup hsub).length_le
  have hbound := hrun.bounded
  rw [List.length_append, List.length_map] at hle
  simp only [world.ledger] at hle
  omega

/-! ## The two tables

The parts put together, for every state of every run.

The identity of IDs that both tables go by is `same_request_id`. That it is the identity of
strings and of mathematical integers is a fact on its own: `1` is the same request however it
was held, and no `null` is the same as anything. -/

/-- What ties the table of the server to that of its executor. -/
structure tables_agree (limit : Nat) (w : world) : Prop where
  /-- The IDs in flight are real, and pairwise different requests. -/
  distinct : w.server.inflight_.Pairwise (distinct_requests w.server)
  real : ∀ op ∈ w.server.inflight_, w.server.id_of op ≠ .null
  /-- A work that is pending or active has its ID in `inflight_`. -/
  included : ∀ item, (w.run.executor.active_ = some item ∨ item ∈ w.run.executor.pending_) →
    ∃ op ∈ w.server.inflight_, w.server.id_of op = item.id
  /-- An enqueue of `receive` never fails as a duplicate or an invalid ID. -/
  answers : ∀ op err queued, .answered op (some err) queued ∈ w.log →
    err ≠ owned_executor.duplicate_id ∧ err ≠ owned_executor.invalid_invocation
  /-- A queue-full frame follows an enqueue that found the queue full. -/
  rejections : ∀ f op, f ∈ w.frames → f.origin = .rejection op →
    .answered op (some owned_executor.queue_full) limit ∈ w.log
  /-- The cancel of `notify` reaches the operation it marked, or nothing. -/
  cancels : ∀ op reached, .cancelled op reached ∈ w.log →
    (reached = [] ∨ reached = [op]) ∧ w.server.cancelled op = true
  bounded : w.reader = .idle → (∀ call ∈ w.stops, call = .returned) →
    w.server.inflight_.length ≤ limit + 1

/-- In every reachable state the tables agree, and the identity they agree on is that
of strings and mathematical integers. -/
theorem server_tables_agree (h : (server_runs limit).Reachable w) :
    tables_agree limit w ∧ ∀ id id' : json_rpc_id, same_request_id id id' = true ↔
      request_identity id ≠ none ∧ request_identity id = request_identity id' := by
  have hc := server_custody h
  have hi := server_ids h
  have hrun := server_runtime h
  have hans := server_answers h
  refine ⟨⟨hi.distinct, hi.real, ?_, ?_, ?_, ?_, ?_⟩, same_request_id_iff⟩
  · intro item hitem
    obtain ⟨hmem, hid, -⟩ := work_in_flight hc hi hrun hitem
    exact ⟨item.call.op, hmem, hid.symm⟩
  · intro op err queued hmem
    rcases hans.events _ hmem with ⟨rfl, -⟩ | rfl
    · exact ⟨by decide, by decide⟩
    · exact ⟨by decide, by decide⟩
  · intro f op hf horigin
    exact hans.events _ (mem_frames.mp hf) op horigin
  · intro op reached hmem
    exact hans.events _ hmem
  · intro hreader hstops
    exact in_flight_bounded hc hrun hreader hstops

/-- The tables of a server with one request queued. -/
theorem server_tables_agree_one_queued :
    tables_agree 1 session.queued ∧ session.queued.server.inflight_ = [0] :=
  ⟨(server_tables_agree (System.restrict_reachable
    (session.reaches_queued (C := fun _ _ => True) fun _ _ _ => trivial))).1, rfl⟩

end Answers

end SynapseMcp
