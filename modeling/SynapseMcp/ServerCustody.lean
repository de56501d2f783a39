/-
Which operations are in `inflight_`: exactly those somebody still holds a capture
of, and those whose completion is under way.

The captures of an operation lie in the executor's queue, with the worker, in the
local lists of `cancel` and `stop` calls, and with the reader until `receive()`
returns. `world.ledger` counts them, and every step of the server is one move of
that ledger: captures change hands, an operation enters with the reader's
capture, the enqueued work copies it, a capture is dropped, the last one is dropped,
or a completion erases the entry. So the table stays balanced by the rule of
`SharedOwnership`, whatever the interleaving.
-/
import SynapseMcp.ServerRuns

set_option autoImplicit false

namespace SynapseMcp

open Transition SharedOwnership

/-! ## Counting

Captures are counted list by list: the queue, the work of the worker, and for each call of
`stop()` the works it took off the queue. `omega` then adds the lists up, so what is needed of
each is how a step changes it, for every operation.

The counts are taken for one operation at a time, so no two ledgers are ever compared as a
whole: a step is known when it is known what it does to each count. -/

@[simp] theorem captures_in_nil (op : Nat) : captures_in op [] = 0 := rfl

/-- A work holds a capture of its operation, and of no other. -/
@[simp] theorem captures_in_cons (op : Nat) (item : work closure) (rest : List (work closure)) :
    captures_in op (item :: rest) = captures_in op rest + one item.call.op op := by
  rw [captures_in, List.countP_cons, captures_in]
  by_cases h : item.call.op = op
  · simp [h]
  · simp [h, one_of_ne (Ne.symm h)]

/-- The captures of two lists of works. -/
@[simp] theorem captures_in_append (op : Nat) (a b : List (work closure)) :
    captures_in op (a ++ b) = captures_in op a + captures_in op b :=
  List.countP_append

/-- A list of one operation counts as one at that operation. -/
theorem count_singleton_eq_one (op op' : Nat) : [op].count op' = one op op' := by
  by_cases h : op' = op
  · simp [h]
  · simp [one_of_ne h, Ne.symm h]

/-- Replacing one entry of a list changes a sum over it by the two terms. -/
theorem sum_map_set {α : Type} (f : α → Nat) {l : List α} {i : Nat} {a : α} (b : α)
    (h : l[i]? = some a) : ((l.set i b).map f).sum + f a = (l.map f).sum + f b := by
  induction l generalizing i with
  | nil => simp at h
  | cons x rest ih =>
      cases i with
      | zero =>
          simp only [List.getElem?_cons_zero, Option.some.injEq] at h
          subst h
          simp only [List.set_cons_zero, List.map_cons, List.sum_cons]
          omega
      | succ i =>
          simp only [List.getElem?_cons_succ] at h
          have := ih h
          simp only [List.set_cons_succ, List.map_cons, List.sum_cons]
          omega

/-- A call of `stop()` that has just begun holds no works. -/
@[simp] theorem captures_stopped_entered (op : Nat) (stops : List stop_at) :
    captures_stopped op (stops ++ [.entered]) = captures_stopped op stops := by
  simp [captures_stopped]

/-- Nor is it completing any. -/
@[simp] theorem completes_stopped_entered (op : Nat) (stops : List stop_at) :
    completes_stopped op (stops ++ [.entered]) = completes_stopped op stops := by
  simp [completes_stopped]

/-- A step of one call of `stop()` changes the captures of all calls by what that call holds
before and after. It is written as a sum on both sides, to have no subtraction. -/
theorem captures_stopped_set (op : Nat) {stops : List stop_at} {call : Nat} {before : stop_at}
    (after : stop_at) (h : stops[call]? = some before) :
    captures_stopped op (stops.set call after) + captures_in op before.discarded =
      captures_stopped op stops + captures_in op after.discarded :=
  sum_map_set (fun call : stop_at => captures_in op call.discarded) after h

/-- The same for the completions under way. -/
theorem completes_stopped_set (op : Nat) {stops : List stop_at} {call : Nat} {before : stop_at}
    (after : stop_at) (h : stops[call]? = some before) :
    completes_stopped op (stops.set call after) + before.completes.count op =
      completes_stopped op stops + after.completes.count op :=
  sum_map_set (fun call : stop_at => call.completes.count op) after h

/-! ### The ledger

The table of the ledger is `inflight_`. The captures held are those in the queue, with the
worker, in the cleanups and with the reader; the retiring ones are the completions that were
begun by dropping the last capture and have not erased the entry yet. A balanced ledger has in
its table just what is held or retiring. -/

/-- The ledger of the operations: who is listed, and who holds captures. -/
def world.ledger (w : world) : Ledger Nat where
  table := w.server.inflight_
  held op := w.captures op + w.reader.held.count op
  retiring op := w.retirements op

/-- The worker's two positions agree: a body runs inside an invocation, and the last
capture is completed inside `current.reset()`. -/
def call_matches (worker : worker_at closure) : call_at → Prop
  | .outside => ∀ item, worker ≠ .calling item
  | .completing op => ∃ item, worker = .retiring item ∧ item.call.op = op
  | _ => ∃ item, worker = .calling item

/-- The invariant of custody. -/
structure custody (w : world) : Prop where
  balanced : Balanced w.ledger
  /-- An operation in flight has been made. -/
  made : ∀ op ∈ w.server.inflight_, op < w.server.operations.length
  /-- `receive()` enqueues one work for an operation, so one work holds a capture. -/
  captured_once : ∀ op, w.captures op ≤ 1
  call : call_matches w.run.worker w.call
  /-- The work of an operation about to be enqueued is not anywhere yet. -/
  uncaptured : ∀ req op, w.reader = .enqueueing req op → w.captures op = 0

/-! ## The two positions of the worker

Where the worker is in its loop and where it is in the body are two fields, since the executor
knows only the first. They agree in every state, and what is said of the body needs that.

The body is entered and left inside `calling`, and a completion is run while the worker drops
its work. Hence the body is over whenever the worker is anywhere else. -/

/-- A worker that is neither in an invocation nor dropping one is in no body. -/
theorem call_matches.outside {worker : worker_at closure} {call : call_at}
    (h : call_matches worker call) (hcalling : ∀ item, worker ≠ .calling item)
    (hretiring : ∀ item, worker ≠ .retiring item) : call = .outside := by
  cases call with
  | outside => rfl
  | completing op =>
      obtain ⟨item, hitem, -⟩ := h
      exact absurd hitem (hretiring item)
  | entered | applying | replying | stopping | finished =>
      obtain ⟨item, hitem⟩ := h
      exact absurd hitem (hcalling item)

/-- Every step keeps the two positions matched: the body is entered with the invocation, and a
completion belongs to the work being dropped. -/
theorem world.Step.call_matches {w t : world} {a : server_action}
    (h : call_matches w.run.worker w.call) (hstep : world.Step w a t) :
    call_matches t.run.worker t.call := by
  cases hstep with
  | enqueue hreader =>
      show SynapseMcp.call_matches (w.run.enqueue _ _).1.worker w.call
      rwa [runtime.enqueue_worker]
  | cancel hreader => exact h
  | stop_executor hcall => exact h
  -- a worker outside of a work has no call under way
  | dequeue hworker htake =>
      rw [h.outside (by simp [hworker]) (by simp [hworker])]
      simp [SynapseMcp.call_matches, runtime.dequeue]
  -- in the invocation: the place of the call moves, the worker's stays
  | invoke hworker => exact ⟨_, rfl⟩
  | apply hworker hcall hmay => exact ⟨_, hworker⟩
  | skip hworker hcall hmay => exact ⟨_, hworker⟩
  | application outcome hworker hcall => exact ⟨_, hworker⟩
  | respond a hworker hcall hdone => exact ⟨_, hworker⟩
  | respond_failed a hworker hcall hfailed => exact ⟨_, hworker⟩
  | call_stopped hcall hreturned =>
      rw [hcall] at h
      exact h
  -- behind it, the worker moves while the call is over
  | finish_call hworker hcall => simp [SynapseMcp.call_matches, runtime.finish_call]
  | reset_active hworker =>
      rw [h.outside (by simp [hworker]) (by simp [hworker])]
      simp [SynapseMcp.call_matches, runtime.reset_active]
  | release_shared hworker hcall hshared => simp [SynapseMcp.call_matches, runtime.release, hcall]
  | release_last hworker hcall hlast => exact ⟨_, hworker, rfl⟩
  | call_completes hworker hcall => simp [SynapseMcp.call_matches, runtime.release]
  | leave_loop hworker hstop =>
      rw [h.outside (by simp [hworker]) (by simp [hworker])]
      simp [SynapseMcp.call_matches, runtime.leave]
  | finish hworker =>
      rw [h.outside (by simp [hworker]) (by simp [hworker])]
      simp [SynapseMcp.call_matches, runtime.finish]
  | _ => exact h

/-! ## One step, one move

The rules of the server are grouped by what they do to captures. Those that only change who
holds one are the move `pass`. `receive` lists an operation with the capture of `done`
(`enter`); the enqueued work copies it (`share`); and `done`, the worker and the lists of
`cancel` and `stop` drop theirs, which is a `release` or a `retire` as another one is held or
not. A completion ends in `erase`. The one thing that needs the invariant is that a work taken
off the queue holds the only capture a work has of its operation, so whether a drop is the last
is for the reader's `done` alone to say.

A cleanup is a list of works to destroy, with at most one completion under way, and it is walked
in the same way by the reader after a `cancel`, and by a call of `stop()`. `cleanup_next_cases`
says once what one step of the walk does, for both. -/

/-- A section of `receive` lists at most the one operation it goes on to enqueue. -/
theorem received_lists {s : server} {a : emit_answers} {wire : json} {r : section_result}
    (h : server.received s a wire r) :
    ((∀ calls, (r.next.reader calls).held = [] ∧ (r.next.reader calls).completes = [] ∧
        (r.next.reader calls).discarded = []) ∧
      (∀ req op, r.next ≠ .enqueue req op) ∧
      r.server.inflight_ = s.inflight_ ∧ r.server.operations.length = s.operations.length) ∨
    ∃ req : request, req.id ≠ .null ∧ r.server = s.push req.id ∧
      r.next = .enqueue req s.operations.length := by
  cases h with
  | ignored => exact .inl (by simp [receive_next.reader])
  | replied reply method hserving hanswer hinit =>
      left
      unfold server.reply
      split <;> simp [receive_next.reader]
  | negotiated req hdecode hserving hawait hmethod hparams =>
      left
      unfold server.reply
      split <;> simp [receive_next.reader]
  | ready note hdecode hserving hawait hmethod hparams =>
      exact .inl (by simp [receive_next.reader])
  | cancelled op id hserving hmem hsame =>
      exact .inl (by simp [receive_next.reader, server.mark_cancelled])
  | duplicate req op hdecode hserving hopen hmem hsame s' hs' =>
      left
      subst hs'
      split <;> simp [receive_next.reader]
  | admitted req hdecode hserving hready hid hfresh => exact .inr ⟨req, hid, rfl, rfl⟩

/-- A call of `stop()` that has only begun holds nothing. -/
theorem stopped_next (op : Nat) (next : receive_next) (stops : List stop_at) :
    captures_stopped op (next.stops stops) = captures_stopped op stops ∧
      completes_stopped op (next.stops stops) = completes_stopped op stops := by
  cases next <;> simp [receive_next.stops]

/-- A cancel passes captures from the queue to its caller. -/
theorem captures_cancel (r : runtime closure) (id : json_rpc_id) (op : Nat) :
    captures_in op (r.cancel id).1.executor.pending_ + captures_in op (r.cancel id).2.discarded =
      captures_in op r.executor.pending_ := by
  rcases r.cancel_cases id with
    ⟨w, -, -, heq⟩ | ⟨before, w, after, hitems, -, -, -, heq⟩ | ⟨-, -, heq⟩
  · simp [heq]
  · simp only [heq, hitems, captures_in_append, captures_in_cons, captures_in_nil]
    omega
  · simp [heq]

/-- A cancellation does not touch the worker. -/
theorem cancel_worker (r : runtime closure) (id : json_rpc_id) :
    (r.cancel id).1.worker = r.worker := rfl

/-- The reader keeps an operation when it is counted for it. -/
theorem reader_at.keeps_iff (r : reader_at) (op : Nat) :
    r.keeps op = true ↔ 0 < r.held.count op := by
  rw [reader_at.keeps, List.contains_iff_mem, List.count_pos_iff]

/-- What the rest of a cleanup still has to destroy, and to complete. -/
def rest_discarded (rest : Option cleanup) : List (work closure) :=
  rest.elim [] cleanup.discarded

/-- What the rest of a cleanup is completing. -/
def rest_completes (rest : Option cleanup) : List Nat := rest.elim [] cleanup.completes

/-- A cleanup step, seen from its own lists: they are passed on, a capture is
dropped while the reader keeps another or as the last one, or a completion ends. -/
theorem cleanup_next_cases (rest : cleanup) (s : server) (keeps : Nat → Bool) :
    ((rest.next s keeps).1 = s ∧ rest_discarded (rest.next s keeps).2 = rest.discarded ∧
        rest_completes (rest.next s keeps).2 = rest.completes) ∨
      (∃ op, keeps op = true ∧ (rest.next s keeps).1 = s ∧
        (∀ j, captures_in j rest.discarded =
          captures_in j (rest_discarded (rest.next s keeps).2) + one op j) ∧
        rest_completes (rest.next s keeps).2 = rest.completes) ∨
      (∃ op, keeps op = false ∧ (rest.next s keeps).1 = s ∧
        (∀ j, captures_in j rest.discarded =
          captures_in j (rest_discarded (rest.next s keeps).2) + one op j) ∧
        ∀ j, (rest_completes (rest.next s keeps).2).count j = rest.completes.count j + one op j) ∨
      (∃ op, (rest.next s keeps).1 = s.complete op ∧
        rest_discarded (rest.next s keeps).2 = rest.discarded ∧
        ∀ j, rest.completes.count j =
          (rest_completes (rest.next s keeps).2).count j + one op j) := by
  cases rest with
  | requesting active_stop discarded => exact .inl ⟨rfl, rfl, rfl⟩
  | destroying discarded =>
      cases discarded with
      | nil => exact .inl ⟨rfl, rfl, rfl⟩
      | cons item tail =>
          cases hkeep : keeps item.call.op with
          | true =>
              refine .inr (.inl ⟨item.call.op, hkeep, rfl, ?_, ?_⟩) <;>
                simp [cleanup.next, hkeep, rest_discarded, rest_completes]
          | false =>
              refine .inr (.inr (.inl ⟨item.call.op, hkeep, rfl, ?_, ?_⟩)) <;>
                simp [cleanup.next, hkeep, rest_discarded, rest_completes, count_singleton_eq_one]
  | completing op tail =>
      refine .inr (.inr (.inr ⟨op, rfl, rfl, ?_⟩))
      simp [cleanup.next, rest_completes, count_singleton_eq_one]

/-- The reader, and a call of `stop()`, hold what the rest of their cleanup does. -/
theorem reader_cleaned (rest : Option cleanup) :
    (reader_at.cleaned rest).held = [] ∧
      (reader_at.cleaned rest).completes = rest_completes rest ∧
      (reader_at.cleaned rest).discarded = rest_discarded rest := by
  cases rest <;> simp [reader_at.cleaned, rest_discarded, rest_completes]

/-- The same for a call of `stop()`. -/
theorem stop_cleaned (rest : Option cleanup) :
    (stop_at.cleaned rest).completes = rest_completes rest ∧
      (stop_at.cleaned rest).discarded = rest_discarded rest := by
  cases rest <;> simp [stop_at.cleaned, rest_discarded, rest_completes]

/-- A call of `stop()` after the section of the server has still nothing to clean up. -/
theorem stop_section_left (goes_on : Bool) :
    (stop_at.section_left goes_on).completes = [] ∧
      (stop_at.section_left goes_on).discarded = [] := by
  cases goes_on <;> simp [stop_at.section_left]

/-- Nothing is held once `done` is gone, whichever way the reader left. -/
theorem reader_left (calls : Nat) (threw : Bool) :
    (reader_at.left calls threw).held = [] ∧ (reader_at.left calls threw).completes = [] ∧
      (reader_at.left calls threw).discarded = [] := by
  cases threw <;> simp [reader_at.left]

/-- The call of `stop()` that the reader makes after an exception holds nothing yet. -/
theorem stopped_left (op : Nat) (stops : List stop_at) (threw : Bool) :
    captures_stopped op (left_stops stops threw) = captures_stopped op stops ∧
      completes_stopped op (left_stops stops threw) = completes_stopped op stops := by
  cases threw <;> simp [left_stops]

section Moves

variable {w : world}

/-! ### The moves

For each rule the move is named and the counts before and after are compared. What changes is in
one list or two, so the sums of the others cancel.

A `done` that is shared is counted where it is held: by the reader, by a queued work, by the
worker, and by each call of `stop()` on its way. The rules that make a copy or drop one have a
lemma each. Of the others `simp` finds that every count is what it was. -/

/-- A section of `receive` lists an operation, which the reader then holds, or lists nothing. -/
theorem moves_receive (h : custody w) {wire : json} (a : emit_answers)
    (hreader : w.reader = .receiving wire) :
    Move w.ledger (world.ledger
      { w with
        server := (w.server.receive a wire).server
        reader := (w.server.receive a wire).next.reader w.stops.length
        stops := (w.server.receive a wire).next.stops w.stops
        log := w.log ++ (w.server.receive a wire).events w.server wire }) := by
  rcases received_lists (w.server.receive_received a wire) with
    ⟨hnext, -, htable, -⟩ | ⟨req, -, hserver, hnext⟩
  · obtain ⟨hheld, hcompletes, hdiscarded⟩ := hnext w.stops.length
    refine .pass htable ?_ ?_
    · intro j
      simp only [world.ledger, world.captures, hreader, hheld, hdiscarded,
        (stopped_next j _ _).1]
      simp
    · intro j
      simp only [world.ledger, world.retirements, hreader, hcompletes, (stopped_next j _ _).2]
      simp
  · refine .enter w.server.operations.length ?_ ?_ ?_ ?_
    · intro hmem
      exact Nat.lt_irrefl _ (h.made _ hmem)
    · simp [world.ledger, hserver, server.push]
    · intro j
      simp [world.ledger, world.captures, hreader, hnext, receive_next.reader,
        receive_next.stops, count_singleton_eq_one]
    · intro j
      simp [world.ledger, world.retirements, hreader, hnext, receive_next.reader,
        receive_next.stops]

/-- The enqueued work shares what the reader holds. Refused, the work is gone with its copy, and
nothing has changed. -/
theorem moves_enqueue {req : request} {op : Nat} (hreader : w.reader = .enqueueing req op) :
    Move w.ledger (world.ledger
      { w with
        run := (w.run.enqueue req.id (some ⟨req, op⟩)).1
        reader :=
          if (w.run.enqueue req.id (some ⟨req, op⟩)).2 = none then .leaving op false
          else .rejected req op
        log := w.log ++ [.answered op (w.run.enqueue req.id (some ⟨req, op⟩)).2
          w.run.executor.pending_.length] }) := by
  rcases w.run.enqueue_cases req.id (some ⟨req, op⟩) with
    ⟨err, -, heq⟩ | ⟨c, -, hc, -, -, -, -, heq⟩
  · exact .pass rfl (fun j => by simp [world.ledger, world.captures, hreader, heq])
      (fun j => by simp [world.ledger, world.retirements, hreader, heq])
  -- accepted: the work holds a capture beside `done`
  · cases hc
    refine .share op ?_ rfl ?_ ?_
    · simp [world.ledger, hreader]
    · intro j
      simp [world.ledger, world.captures, hreader, heq]
      omega
    · intro j
      simp [world.ledger, world.retirements, hreader, heq]

/-- The reader holds no `done` while it cleans up, so a capture it drops is the last one. -/
theorem moves_reader_cleans (h : custody w) {rest : cleanup} (hreader : w.reader = .cleaning rest) :
    Move w.ledger (world.ledger
      { w with
        server := (rest.next w.server fun _ => false).1
        reader := .cleaned (rest.next w.server fun _ => false).2 }) := by
  obtain ⟨hheld, hcompletes, hdiscarded⟩ :=
    reader_cleaned (rest.next w.server fun _ => false).2
  have honce := h.captured_once
  simp only [world.captures, hreader, reader_at.discarded] at honce
  rcases cleanup_next_cases rest w.server fun _ => false with
    ⟨hserver, hd, hc⟩ | ⟨op, hkeep, -⟩ | ⟨op, -, hserver, hd, hc⟩ | ⟨op, hserver, hd, hc⟩
  · refine .pass (congrArg server.inflight_ hserver) ?_ ?_
    · intro j
      simp only [world.ledger, world.captures, hreader, hheld, hdiscarded, hd]
      simp
    · intro j
      simp only [world.ledger, world.retirements, hreader, hcompletes, hc]
      simp
  · exact absurd hkeep (by simp)
  -- the work is destroyed; no other holds a capture of its operation
  · refine .retire op ?_ (congrArg server.inflight_ hserver) ?_ ?_
    · have hone := honce op
      have hdrop := hd op
      rw [one_self] at hdrop
      simp only [world.ledger, world.captures, hheld, hdiscarded, List.count_nil]
      omega
    · intro j
      have hdrop := hd j
      simp only [world.ledger, world.captures, hreader, hheld, hdiscarded]
      simp only [reader_at.discarded, reader_at.held, List.count_nil]
      omega
    · intro j
      have hbegin := hc j
      simp only [world.ledger, world.retirements, hreader, hcompletes]
      simp only [reader_at.completes]
      omega
  · refine .erase op (congrArg server.inflight_ hserver) ?_ ?_
    · intro j
      simp only [world.ledger, world.captures, hreader, hheld, hdiscarded, hd]
      simp
    · intro j
      have hend := hc j
      simp only [world.ledger, world.retirements, hreader, hcompletes]
      simp only [reader_at.completes]
      omega

/-- One work holds a capture of the operation, and the reader holds none. -/
theorem moves_release_last (h : custody w) {item : work closure}
    (hworker : w.run.worker = .retiring item) (hcall : w.call = .outside)
    (hlast : w.reader.keeps item.call.op = false) :
    Move w.ledger (world.ledger { w with call := .completing item.call.op }) := by
  have hnone : w.reader.held.count item.call.op = 0 := by
    have := mt (w.reader.keeps_iff item.call.op).mpr (by simp [hlast])
    omega
  have honce := h.captured_once item.call.op
  simp only [world.captures, current_works, hcall, hworker, worker_at.works, captures_in_cons,
    captures_in_nil, one_self] at honce
  refine .retire item.call.op ?_ rfl ?_ ?_
  · simp only [world.ledger, world.captures, current_works, captures_in_nil]
    omega
  · intro j
    simp only [world.ledger, world.captures, current_works, hcall, hworker, worker_at.works,
      captures_in_cons, captures_in_nil]
    omega
  · intro j
    simp only [world.ledger, world.retirements, hcall, call_at.completes,
      count_singleton_eq_one, List.count_nil]
    omega

/-- A call of `stop()` drops a capture that the reader may still share. -/
theorem moves_stop_cleans (h : custody w) {call : Nat} {rest : cleanup}
    (hcall : w.stops[call]? = some (.cleaning rest)) :
    Move w.ledger (world.ledger
      { w with
        server := (rest.next w.server w.reader.keeps).1
        stops := w.stops.set call (.cleaned (rest.next w.server w.reader.keeps).2) }) := by
  obtain ⟨hcompletes, hdiscarded⟩ := stop_cleaned (rest.next w.server w.reader.keeps).2
  have honce := h.captured_once
  have hcaptures := fun j =>
    captures_stopped_set j (.cleaned (rest.next w.server w.reader.keeps).2) hcall
  have hretires := fun j =>
    completes_stopped_set j (.cleaned (rest.next w.server w.reader.keeps).2) hcall
  simp only [hdiscarded] at hcaptures
  simp only [hcompletes] at hretires
  simp only [stop_at.discarded] at hcaptures
  simp only [stop_at.completes] at hretires
  rcases cleanup_next_cases rest w.server w.reader.keeps with
    ⟨hserver, hd, hc⟩ | ⟨op, hkeep, hserver, hd, hc⟩ | ⟨op, hkeep, hserver, hd, hc⟩ |
      ⟨op, hserver, hd, hc⟩
  · rw [hd] at hcaptures
    rw [hc] at hretires
    refine .pass (congrArg server.inflight_ hserver) ?_ ?_
    · intro j
      have hset := hcaptures j
      simp only [world.ledger, world.captures]
      omega
    · intro j
      have hset := hretires j
      simp only [world.ledger, world.retirements]
      omega
  -- the reader still holds `done`
  · rw [reader_at.keeps_iff] at hkeep
    rw [hc] at hretires
    refine .release op ?_ (congrArg server.inflight_ hserver) ?_ ?_
    · simp only [world.ledger]
      omega
    · intro j
      have hset := hcaptures j
      have hdrop := hd j
      simp only [world.ledger, world.captures]
      omega
    · intro j
      have hset := hretires j
      simp only [world.ledger, world.retirements]
      omega
  · -- the reader keeps none, and no other work holds a capture, so this was the last one
    have hnone : w.reader.held.count op = 0 := by
      have := mt (w.reader.keeps_iff op).mpr (by simp [hkeep])
      omega
    refine .retire op ?_ (congrArg server.inflight_ hserver) ?_ ?_
    · have hset := hcaptures op
      have hdrop := hd op
      have hone := honce op
      rw [one_self] at hdrop
      simp only [world.captures] at hone
      simp only [world.ledger, world.captures]
      omega
    · intro j
      have hset := hcaptures j
      have hdrop := hd j
      simp only [world.ledger, world.captures]
      omega
    · intro j
      have hset := hretires j
      have hbegin := hc j
      simp only [world.ledger, world.retirements]
      omega
  · rw [hd] at hcaptures
    refine .erase op (congrArg server.inflight_ hserver) ?_ ?_
    · intro j
      have hset := hcaptures j
      simp only [world.ledger, world.captures]
      omega
    · intro j
      have hset := hretires j
      have hend := hc j
      simp only [world.ledger, world.retirements]
      omega

/-- Every step is one move of the ledger. Each rule names the lists it changes; `simp` unfolds
the counts of these and `omega` compares the sums. -/
theorem world.Step.moves {t : world} {a : server_action} (h : custody w)
    (hstep : world.Step w a t) : Move w.ledger t.ledger := by
  have hmatch := h.call
  cases hstep with
  | deliver wire hreader =>
      exact .pass rfl (fun j => by simp [world.ledger, world.captures, hreader])
        (fun j => by simp [world.ledger, world.retirements, hreader])
  | @receive wire a hreader => exact moves_receive h a hreader
  | @enqueue req op hreader => exact moves_enqueue hreader
  | reject_sent a hreader hsent =>
      exact .pass rfl (fun j => by simp [world.ledger, world.captures, hreader])
        (fun j => by simp [world.ledger, world.retirements, hreader])
  | reject_failed a hreader hfailed =>
      exact .pass rfl (fun j => by simp [world.ledger, world.captures, hreader])
        (fun j => by simp [world.ledger, world.retirements, hreader])
  | reject_threw a hreader hthrew =>
      exact .pass rfl (fun j => by simp [world.ledger, world.captures, hreader])
        (fun j => by simp [world.ledger, world.retirements, hreader])
  -- `done` goes while the queue, the worker or a `stop()` still has a capture
  | @leave_shared op threw hreader hshared =>
      obtain ⟨hheld, hcompletes, hdiscarded⟩ := reader_left w.stops.length threw
      refine .release op ?_ rfl ?_ ?_
      · simp only [world.captures, hreader] at hshared
        simp only [world.ledger, world.captures, hheld, hdiscarded, (stopped_left op _ _).1]
        simpa using hshared
      · intro j
        simp only [world.ledger, world.captures, hreader, hheld, hdiscarded, (stopped_left j _ _).1]
        simp [count_singleton_eq_one]
      · intro j
        simp only [world.ledger, world.retirements, hreader, hcompletes, (stopped_left j _ _).2]
        simp
  -- `done` goes last, so the reader completes the operation
  | @leave_last op threw hreader hlast =>
      refine .retire op ?_ rfl ?_ ?_
      · simpa [world.ledger, world.captures, hreader] using hlast
      · intro j
        simp [world.ledger, world.captures, hreader, count_singleton_eq_one]
      · intro j
        simp [world.ledger, world.retirements, hreader, count_singleton_eq_one]
        omega
  | @reader_completes op threw hreader =>
      obtain ⟨hheld, hcompletes, hdiscarded⟩ := reader_left w.stops.length threw
      refine .erase op rfl ?_ ?_
      · intro j
        simp only [world.ledger, world.captures, hreader, hheld, hdiscarded, (stopped_left j _ _).1]
        simp
      · intro j
        simp only [world.ledger, world.retirements, hreader, hcompletes, (stopped_left j _ _).2]
        simp [count_singleton_eq_one]
        omega
  | @cancel op hreader =>
      refine .pass rfl ?_ ?_
      · intro j
        have hcount := captures_cancel w.run (w.server.id_of op) j
        simp [world.ledger, world.captures, hreader, cancel_worker]
        omega
      · intro j
        simp [world.ledger, world.retirements, hreader]
  | @reader_cleans rest hreader => exact moves_reader_cleans h hreader
  | @reader_stopped call held hreader hreturned =>
      refine .pass rfl ?_ ?_
      · intro j
        cases held <;> simp [world.ledger, world.captures, hreader]
      · intro j
        cases held <;> simp [world.ledger, world.retirements, hreader]
  | @dequeue item e hworker htake =>
      obtain ⟨-, rest, hpending, rfl⟩ := owned_executor.dequeue_some htake
      have hcall := hmatch.outside (by simp [hworker]) (by simp [hworker])
      refine .pass rfl ?_ (fun _ => rfl)
      intro j
      simp [world.ledger, world.captures, runtime.dequeue, current_works, hcall, hworker, hpending]
  | @invoke item hworker =>
      have hcall := hmatch.outside (by simp [hworker]) (by simp [hworker])
      refine .pass rfl ?_ ?_
      · intro j
        simp [world.ledger, world.captures, runtime.invoke, current_works, hcall, hworker]
      · intro j
        simp [world.ledger, world.retirements, hcall]
  | apply hworker hcall hmay =>
      exact .pass rfl (fun j => by simp [world.ledger, world.captures, current_works, hcall])
        (fun j => by simp [world.ledger, world.retirements, hcall])
  | skip hworker hcall hmay =>
      exact .pass rfl (fun j => by simp [world.ledger, world.captures, current_works, hcall])
        (fun j => by simp [world.ledger, world.retirements, hcall])
  | application outcome hworker hcall =>
      exact .pass rfl (fun j => by simp [world.ledger, world.captures, current_works, hcall])
        (fun j => by simp [world.ledger, world.retirements, hcall])
  | respond a hworker hcall hdone =>
      exact .pass rfl (fun j => by simp [world.ledger, world.captures, current_works, hcall])
        (fun j => by simp [world.ledger, world.retirements, hcall])
  | respond_failed a hworker hcall hfailed =>
      exact .pass rfl (fun j => by simp [world.ledger, world.captures, current_works, hcall])
        (fun j => by simp [world.ledger, world.retirements, hcall])
  | call_stopped hcall hreturned =>
      exact .pass rfl (fun j => by simp [world.ledger, world.captures, current_works, hcall])
        (fun j => by simp [world.ledger, world.retirements, hcall])
  | finish_call hworker hcall =>
      refine .pass rfl ?_ ?_
      · intro j
        simp [world.ledger, world.captures, runtime.finish_call, current_works, hcall, hworker]
      · intro j
        simp [world.ledger, world.retirements, hcall]
  | reset_active hworker =>
      have hcall := hmatch.outside (by simp [hworker]) (by simp [hworker])
      refine .pass rfl ?_ (fun _ => rfl)
      intro j
      simp [world.ledger, world.captures, runtime.reset_active, owned_executor.reset_active,
        current_works, hcall, hworker]
  -- the worker is done with a work whose reader has not left `receive` yet
  | @release_shared item hworker hcall hshared =>
      rw [reader_at.keeps_iff] at hshared
      refine .release item.call.op ?_ rfl ?_ (fun _ => rfl)
      · simp only [world.ledger]
        omega
      · intro j
        simp [world.ledger, world.captures, runtime.release, current_works, hcall, hworker]
        omega
  | @release_last item hworker hcall hlast => exact moves_release_last h hworker hcall hlast
  | @call_completes item op hworker hcall =>
      obtain ⟨item', hitem, hop⟩ : ∃ item, w.run.worker = .retiring item ∧ item.call.op = op := by
        rw [hcall] at hmatch
        exact hmatch
      refine .erase op rfl ?_ ?_
      · intro j
        simp [world.ledger, world.captures, runtime.release, current_works, hcall]
      · intro j
        simp [world.ledger, world.retirements, hcall, count_singleton_eq_one]
        omega
  | leave_loop hworker hstop =>
      have hcall := hmatch.outside (by simp [hworker]) (by simp [hworker])
      exact .pass rfl (fun j => by
        simp [world.ledger, world.captures, runtime.leave, current_works, hcall, hworker])
        (fun _ => rfl)
  | finish hworker =>
      have hcall := hmatch.outside (by simp [hworker]) (by simp [hworker])
      exact .pass rfl (fun j => by
        simp [world.ledger, world.captures, runtime.finish, owned_executor.finish, current_works,
          hcall, hworker])
        (fun _ => rfl)
  | call_stop =>
      exact .pass rfl (fun j => by simp [world.ledger, world.captures])
        (fun j => by simp [world.ledger, world.retirements])
  | @stop_server call hcall =>
      obtain ⟨hcompletes, hdiscarded⟩ := stop_section_left w.server.stop.2
      refine .pass (w.server.stop_inflight) ?_ ?_
      · intro j
        have hset := captures_stopped_set j (.section_left w.server.stop.2) hcall
        simp only [hdiscarded] at hset
        simp only [world.ledger, world.captures]
        simpa using hset
      · intro j
        have hset := completes_stopped_set j (.section_left w.server.stop.2) hcall
        simp only [hcompletes] at hset
        simp only [world.ledger, world.retirements]
        simpa using hset
  -- the whole queue goes over to the call
  | @stop_executor call hcall =>
      refine .pass rfl ?_ ?_
      · intro j
        have := captures_stopped_set j
          (.cleaning (.requesting w.run.stop.2.active_stop w.run.stop.2.discarded)) hcall
        simp [world.ledger, world.captures, runtime.stop, owned_executor.stop] at this ⊢
        omega
      · intro j
        have := completes_stopped_set j
          (.cleaning (.requesting w.run.stop.2.active_stop w.run.stop.2.discarded)) hcall
        simp [world.ledger, world.retirements] at this ⊢
        omega
  | @stop_cleans call rest hcall => exact moves_stop_cleans h hcall
  | @stop_transport call hcall =>
      refine .pass rfl ?_ ?_
      · intro j
        have := captures_stopped_set j .returned hcall
        simp [world.ledger, world.captures] at this ⊢
        omega
      · intro j
        have := completes_stopped_set j .returned hcall
        simp [world.ledger, world.retirements] at this ⊢
        omega
  | start_commits hstate => exact .pass rfl (fun _ => rfl) (fun _ => rfl)
  | wait_returns hfinished => exact .pass rfl (fun _ => rfl) (fun _ => rfl)

end Moves

/-! ### Where captures are made

What follows is read off the steps and not off the ledger: which step can add a capture of an
operation at all. There is one, so an operation that nothing holds any more is not held again
later, and its completion is for good. -/

/-- Captures are made in one place: the enqueue of the operation the reader has just
listed. -/
theorem world.Step.captures_cases {w t : world} {a : server_action}
    (hmatch : SynapseMcp.call_matches w.run.worker w.call) (hstep : world.Step w a t) :
    ((∀ j, t.captures j ≤ w.captures j) ∧
        ∀ req op, t.reader = .enqueueing req op → w.reader = .enqueueing req op) ∨
      ((∃ req op, w.reader = .enqueueing req op ∧ ∀ j, t.captures j = w.captures j + one op j) ∧
        ∀ req op, t.reader ≠ .enqueueing req op) ∨
      ((∀ j, t.captures j = w.captures j) ∧
        ∃ req, t.reader = .enqueueing req w.server.operations.length) := by
  -- a worker's step that moves `current` along leaves its captures where they are
  have hsame : t.run.executor.pending_ = w.run.executor.pending_ → t.stops = w.stops →
      t.reader = w.reader → (∀ j, captures_in j (current_works t.run.worker t.call) ≤
        captures_in j (current_works w.run.worker w.call)) →
      (∀ j, t.captures j ≤ w.captures j) ∧
        ∀ req op, t.reader = .enqueueing req op → w.reader = .enqueueing req op := by
    intro hpending hstops hreader hcurrent
    refine ⟨fun j => ?_, fun req op h => hreader ▸ h⟩
    have := hcurrent j
    simp only [world.captures, hpending, hstops, hreader]
    omega
  cases hstep with
  | deliver wire hreader =>
      exact .inl ⟨fun j => by simp [world.captures, hreader], fun _ _ h => by simp at h⟩
  | @receive wire a hreader =>
      rcases received_lists (w.server.receive_received a wire) with
        ⟨hnext, hno, -, -⟩ | ⟨req, -, -, hnext⟩
      · obtain ⟨-, -, hdiscarded⟩ := hnext w.stops.length
        refine .inl ⟨fun j => ?_, fun req op h => ?_⟩
        · simp only [world.captures, hreader, hdiscarded, (stopped_next j _ _).1]
          simp
        · dsimp only at h
          cases hn : (w.server.receive a wire).next with
          | enqueue req' op' => exact absurd hn (hno req' op')
          | done | stop | cancel op' => simp [hn, receive_next.reader] at h
      · refine .inr (.inr ⟨fun j => ?_, req, ?_⟩)
        · simp [world.captures, hreader, hnext, receive_next.reader, receive_next.stops]
        · simp [hnext, receive_next.reader]
  | @enqueue req op hreader =>
      rcases w.run.enqueue_cases req.id (some ⟨req, op⟩) with
        ⟨err, -, heq⟩ | ⟨c, -, hc, -, -, -, -, heq⟩
      · exact .inl ⟨fun j => by simp [world.captures, hreader, heq], by simp [heq]⟩
      · cases hc
        refine .inr (.inl ⟨⟨req, op, hreader, fun j => ?_⟩, by simp [heq]⟩)
        simp [world.captures, hreader, heq]
        omega
  | reject_sent a hreader hsent | reject_threw a hreader hthrew =>
      exact .inl ⟨fun j => by simp [world.captures, hreader], fun _ _ h => by simp at h⟩
  | reject_failed a hreader hfailed =>
      exact .inl ⟨fun j => by simp [world.captures, hreader], fun _ _ h => by simp at h⟩
  | @leave_shared op threw hreader hshared =>
      refine .inl ⟨fun j => ?_, fun _ _ h => ?_⟩
      · simp only [world.captures, hreader, (reader_left _ threw).2.2, (stopped_left j _ _).1]
        simp
      · cases threw <;> simp [reader_at.left] at h
  | leave_last hreader hlast =>
      exact .inl ⟨fun j => by simp [world.captures, hreader], fun _ _ h => by simp at h⟩
  | @reader_completes op threw hreader =>
      refine .inl ⟨fun j => ?_, fun _ _ h => ?_⟩
      · simp only [world.captures, hreader, (reader_left _ threw).2.2, (stopped_left j _ _).1]
        simp
      · cases threw <;> simp [reader_at.left] at h
  | @cancel op hreader =>
      refine .inl ⟨fun j => ?_, fun _ _ h => by simp at h⟩
      have hcount := captures_cancel w.run (w.server.id_of op) j
      simp [world.captures, hreader, cancel_worker]
      omega
  | @reader_cleans rest hreader =>
      refine .inl ⟨fun j => ?_, fun _ _ h => ?_⟩
      · simp only [world.captures, hreader, (reader_cleaned _).2.2]
        rcases cleanup_next_cases rest w.server fun _ => false with
          ⟨-, hd, -⟩ | ⟨op, -, -, hd, -⟩ | ⟨op, -, -, hd, -⟩ | ⟨op, -, hd, -⟩
        · rw [hd]
          simp
        · have := hd j
          simp only [reader_at.discarded]
          omega
        · have := hd j
          simp only [reader_at.discarded]
          omega
        · rw [hd]
          simp
      · cases hn : (rest.next w.server fun _ => false).2 <;> simp [hn, reader_at.cleaned] at h
  | @reader_stopped call held hreader hreturned =>
      exact .inl ⟨fun j => by cases held <;> simp [world.captures, hreader],
        fun _ _ h => by cases held <;> simp at h⟩
  | @dequeue item e hworker htake =>
      obtain ⟨-, rest, hpending, rfl⟩ := owned_executor.dequeue_some htake
      have hcall := hmatch.outside (by simp [hworker]) (by simp [hworker])
      refine .inl ⟨fun j => ?_, fun _ _ h => h⟩
      simp [world.captures, runtime.dequeue, current_works, hcall, hworker, hpending]
  | invoke hworker =>
      have hcall := hmatch.outside (by simp [hworker]) (by simp [hworker])
      exact .inl (hsame rfl rfl rfl (by simp [runtime.invoke, current_works, hcall, hworker]))
  | apply hworker hcall hmay | skip hworker hcall hmay =>
      exact .inl (hsame rfl rfl rfl (by simp [current_works, hcall]))
  | application outcome hworker hcall =>
      exact .inl (hsame rfl rfl rfl (by simp [current_works, hcall]))
  | respond a hworker hcall hdone =>
      exact .inl (hsame rfl rfl rfl (by simp [current_works, hcall]))
  | respond_failed a hworker hcall hfailed =>
      exact .inl ⟨fun j => by simp [world.captures, current_works, hcall], fun _ _ h => h⟩
  | call_stopped hcall hreturned =>
      exact .inl (hsame rfl rfl rfl (by simp [current_works, hcall]))
  | finish_call hworker hcall =>
      exact .inl (hsame rfl rfl rfl (by
        simp [runtime.finish_call, current_works, hcall, hworker]))
  | reset_active hworker =>
      have hcall := hmatch.outside (by simp [hworker]) (by simp [hworker])
      exact .inl (hsame rfl rfl rfl (by simp [runtime.reset_active, current_works, hcall, hworker]))
  | release_shared hworker hcall hshared =>
      exact .inl (hsame rfl rfl rfl (by simp [runtime.release, current_works, hcall]))
  | release_last hworker hcall hlast =>
      exact .inl (hsame rfl rfl rfl (by simp [current_works]))
  | call_completes hworker hcall =>
      exact .inl (hsame rfl rfl rfl (by simp [runtime.release, current_works]))
  | leave_loop hworker hstop =>
      have hcall := hmatch.outside (by simp [hworker]) (by simp [hworker])
      exact .inl (hsame rfl rfl rfl (by simp [runtime.leave, current_works, hcall]))
  | finish hworker =>
      have hcall := hmatch.outside (by simp [hworker]) (by simp [hworker])
      exact .inl (hsame rfl rfl rfl (by simp [runtime.finish, current_works, hcall]))
  | call_stop => exact .inl ⟨fun j => by simp [world.captures], fun _ _ h => h⟩
  | @stop_server call hcall =>
      refine .inl ⟨fun j => ?_, fun _ _ h => h⟩
      have hset := captures_stopped_set j (.section_left w.server.stop.2) hcall
      simp only [(stop_section_left _).2] at hset
      simp only [stop_at.discarded] at hset
      simp only [world.captures]
      omega
  | @stop_executor call hcall =>
      refine .inl ⟨fun j => ?_, fun _ _ h => h⟩
      have hset := captures_stopped_set j
        (.cleaning (.requesting w.run.stop.2.active_stop w.run.stop.2.discarded)) hcall
      simp [world.captures, runtime.stop, owned_executor.stop] at hset ⊢
      omega
  | @stop_cleans call rest hcall =>
      refine .inl ⟨fun j => ?_, fun _ _ h => h⟩
      have hset := captures_stopped_set j
        (.cleaned (rest.next w.server w.reader.keeps).2) hcall
      simp only [(stop_cleaned _).2] at hset
      simp only [stop_at.discarded] at hset
      simp only [world.captures]
      rcases cleanup_next_cases rest w.server w.reader.keeps with
        ⟨-, hd, -⟩ | ⟨op, -, -, hd, -⟩ | ⟨op, -, -, hd, -⟩ | ⟨op, -, hd, -⟩
      · rw [hd] at hset
        omega
      · have := hd j
        omega
      · have := hd j
        omega
      · rw [hd] at hset
        omega
  | @stop_transport call hcall =>
      refine .inl ⟨fun j => ?_, fun _ _ h => h⟩
      have hset := captures_stopped_set j .returned hcall
      simp [world.captures] at hset ⊢
      omega
  | start_commits hstate | wait_returns hfinished =>
      exact .inl ⟨fun j => Nat.le_refl _, fun _ _ h => h⟩

/-! ## Operations in flight have been made

An entry of `inflight_` is the number of an operation in the table, so it is below the length of
the table. A new operation gets the length itself, and so a number that nobody holds. -/

/-- What a step can do to the server's own state: nothing, a section of `receive`, a completion,
the section of `stop()`, or what the owner does to the lifecycle. -/
theorem world.Step.server_cases {w t : world} {a : server_action} (hstep : world.Step w a t) :
    t.server = w.server ∨
      (∃ (answers : emit_answers) (wire : json),
        (w.reader = .receiving wire ∧
          t.reader = (w.server.receive answers wire).next.reader w.stops.length) ∧
        t.server = (w.server.receive answers wire).server) ∨
      (∃ op, t.server = w.server.complete op) ∨
      t.server = w.server.stop.1 ∨
      (w.server.state_ = .starting ∧ t.server = { w.server with state_ := .running }) ∨
      (w.run.executor.finished_ = true ∧ t.server = { w.server with state_ := .stopped }) := by
  cases hstep with
  | @receive wire a hreader => exact .inr (.inl ⟨a, wire, ⟨hreader, rfl⟩, rfl⟩)
  | reader_completes hreader | call_completes hworker hcall => exact .inr (.inr (.inl ⟨_, rfl⟩))
  | @reader_cleans rest hreader =>
      rcases cleanup_next_cases rest w.server fun _ => false with
        ⟨hs, -⟩ | ⟨op, -, hs, -⟩ | ⟨op, -, hs, -⟩ | ⟨op, hs, -⟩
      · exact .inl hs
      · exact .inl hs
      · exact .inl hs
      · exact .inr (.inr (.inl ⟨op, hs⟩))
  | @stop_cleans call rest hcall =>
      rcases cleanup_next_cases rest w.server w.reader.keeps with
        ⟨hs, -⟩ | ⟨op, -, hs, -⟩ | ⟨op, -, hs, -⟩ | ⟨op, hs, -⟩
      · exact .inl hs
      · exact .inl hs
      · exact .inl hs
      · exact .inr (.inr (.inl ⟨op, hs⟩))
  | stop_server hcall => exact .inr (.inr (.inr (.inl rfl)))
  | start_commits hstate => exact .inr (.inr (.inr (.inr (.inl ⟨hstate, rfl⟩))))
  | wait_returns hfinished => exact .inr (.inr (.inr (.inr (.inr ⟨hfinished, rfl⟩))))
  | _ => exact .inl rfl

/-- A section of `receive` lists an operation only as it makes it. -/
theorem made_receive {s : server} {a : emit_answers} {wire : json}
    (h : ∀ op ∈ s.inflight_, op < s.operations.length) :
    ∀ op ∈ (s.receive a wire).server.inflight_,
      op < (s.receive a wire).server.operations.length := by
  rcases received_lists (s.receive_received a wire) with
    ⟨-, -, htable, hlength⟩ | ⟨req, -, hserver, -⟩
  · rw [htable, hlength]
    exact h
  · rw [hserver]
    intro op hop
    simp only [server.push, List.mem_append, List.mem_singleton, List.length_append,
      List.length_singleton] at hop ⊢
    rcases hop with hop | rfl
    · exact Nat.lt_succ_of_lt (h op hop)
    · exact Nat.lt_succ_self _

/-- An operation that is in flight after a step was made by then: only `receive` lists one, and
it makes it in the same section. -/
theorem world.Step.made {w t : world} {a : server_action}
    (h : ∀ op ∈ w.server.inflight_, op < w.server.operations.length)
    (hstep : world.Step w a t) :
    ∀ op ∈ t.server.inflight_, op < t.server.operations.length := by
  rcases hstep.server_cases with
    hs | ⟨a, wire, -, hs⟩ | ⟨op, hs⟩ | hs | ⟨-, hs⟩ | ⟨-, hs⟩
  · rwa [hs]
  · rw [hs]
    exact made_receive h
  · rw [hs]
    intro op' hop'
    exact h op' (List.mem_of_mem_filter hop')
  · rw [hs, server.stop_inflight, server.stop_length]
    exact h
  · rwa [hs]
  · rwa [hs]

/-! ## Every run

The invariant goes through a step by the move of that step. That one work holds a capture is
kept because works are made in one place, by the enqueue of an operation nobody has captured
yet.

A closure is copied into the queue once, so an operation has at most one capture among the
works; the reader's own is counted apart. That is the difference between `captures` and what is
held. -/

/-- Every step keeps custody. The balance goes by the move of the step, and that an operation is
captured once by where works are made and copied. -/
theorem custody.step {w t : world} {a : server_action} (h : custody w)
    (hstep : world.Step w a t) : custody t where
  balanced := h.balanced.move (hstep.moves h)
  made := hstep.made h.made
  captured_once := by
    intro op
    have hone := h.captured_once op
    rcases hstep.captures_cases h.call with
      ⟨hle, -⟩ | ⟨⟨req, op', hreader, heq⟩, -⟩ | ⟨heq, -⟩
    · exact Nat.le_trans (hle op) hone
    · rw [heq op]
      by_cases hop : op = op'
      · subst hop
        have hnone := h.uncaptured req op hreader
        have hself := one_le op op
        omega
      · rw [one_of_ne hop]
        exact hone
    · rw [heq op]
      exact hone
  call := hstep.call_matches h.call
  uncaptured := by
    intro req op hreader
    rcases hstep.captures_cases h.call with
      ⟨hle, hback⟩ | ⟨-, hno⟩ | ⟨heq, req', hreader'⟩
    · have hnone := h.uncaptured req op (hback req op hreader)
      have := hle op
      omega
    · exact absurd hreader (hno req op)
    · rw [hreader] at hreader'
      cases hreader'
      rw [heq]
      -- an operation not made yet is not in the table, so nobody holds it
      have hfresh : w.server.operations.length ∉ w.ledger.table :=
        fun hmem => Nat.lt_irrefl _ (h.made _ hmem)
      have hnone := mt (h.balanced.mem_iff _).mpr hfresh
      simp only [world.ledger] at hnone
      omega

/-- A server that has just started holds nothing and lists nothing. -/
theorem custody_init {limit : Nat} {w : world} (h : (server_runs limit).init w) : custody w := by
  obtain ⟨hlimit, info, resources, prompts, tools, rfl⟩ := h
  have hne : limit ≠ 0 := by omega
  have hcaptures : ∀ op, world.captures
      ⟨.started info resources prompts tools, .make limit, .idle, .outside, [], []⟩ op = 0 := by
    intro op
    simp [world.captures, runtime.make, owned_executor.make, current_works, hne, captures_stopped]
  refine ⟨.empty rfl ?_ ?_, ?_, ?_, ?_, ?_⟩
  · intro op
    simp [world.ledger, hcaptures]
  · intro op
    simp [world.ledger, world.retirements, completes_stopped]
  · simp [server.started]
  · intro op
    simp [hcaptures]
  · simp [SynapseMcp.call_matches, runtime.make, hne]
  · intro req op hreader
    simp at hreader

/-- An operation is in `inflight_` exactly while a capture of it is held, or its
completion is under way. -/
theorem server_custody {limit : Nat} {w : world} (h : (server_runs limit).Reachable w) :
    custody w :=
  h.invariant (fun _ => custody_init) fun _ _ _ _ hc hstep => hc.step hstep

end SynapseMcp
