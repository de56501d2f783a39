/-
One answer for one request.

From its admission on, a request is owed an answer, and the debt is in one place: with
the reader before `enqueue`, in the queue, with the worker until its second section,
or with the reader again after a refusal. `world.line` lists the operations
answered by the worker, followed by those owed an answer on the worker's path, in the
order in which the worker gets to them; `world.refusals` does the same for the reader's
queue-full replies. A step lengthens the line by the operation it admits, moves debts
along it, or drops one, and a debt is only dropped when it is excused: the operation
was cancelled, the server stopped serving, or a failed send is about to stop it.
-/
import SynapseMcp.ServerIds

set_option autoImplicit false

namespace SynapseMcp

open Transition SharedOwnership

/-! ## Debts

A debt is counted wherever it can be: an answer given stays in the count. So what an operation
is counted for never grows, begins at one, and being answered twice would show as a count of
two. `world.line` and `world.refusals` are lists and not sets because the order of the line is
that of admission, and the answers of the worker are its beginning. -/

/-- Whether an answer is still to come from the body of the invocation. -/
def call_at.owes : call_at → Bool
  | .entered => true
  | .applying => true
  | .replying _ => true
  | _ => false

/-- The work the worker owes an answer for. -/
def owed (worker : worker_at closure) (call : call_at) : List (work closure) :=
  match worker with
  | .dequeued w => [w]
  | .calling w => if call.owes then [w] else []
  | _ => []

/-- The request the reader is about to enqueue. -/
def reader_at.enqueues : reader_at → List Nat
  | .enqueueing _ op => [op]
  | _ => []

/-- The request whose refusal the reader has still to report. -/
def reader_at.rejects : reader_at → List Nat
  | .rejected _ op => [op]
  | _ => []

section

variable (req : request) (op : Nat) (threw : Bool) (rest : cleanup)

@[simp] theorem enqueues_enqueueing : (reader_at.enqueueing req op).enqueues = [op] := rfl

@[simp] theorem enqueues_rejected : (reader_at.rejected req op).enqueues = [] := rfl

@[simp] theorem enqueues_leaving : (reader_at.leaving op threw).enqueues = [] := rfl

@[simp] theorem enqueues_cleaning : (reader_at.cleaning rest).enqueues = [] := rfl

@[simp] theorem rejects_enqueueing : (reader_at.enqueueing req op).rejects = [] := rfl

@[simp] theorem rejects_rejected : (reader_at.rejected req op).rejects = [op] := rfl

@[simp] theorem rejects_leaving : (reader_at.leaving op threw).rejects = [] := rfl

@[simp] theorem rejects_cleaning : (reader_at.cleaning rest).rejects = [] := rfl

end

/-- The operation of a frame of the worker. -/
def frame_origin.worker_op : frame_origin → Option Nat
  | .worker op => some op
  | _ => none

/-- The operation of a queue-full reply. -/
def frame_origin.rejected_op : frame_origin → Option Nat
  | .rejection op => some op
  | _ => none

/-- The operations the worker passed a frame for, in order. -/
def worker_ops (log : List server_event) : List Nat :=
  (frames_of log).filterMap (·.origin.worker_op)

/-- The operations a queue-full reply was passed for. -/
def rejected_ops (log : List server_event) : List Nat :=
  (frames_of log).filterMap (·.origin.rejected_op)

/-- The operations the worker has answered, then those it owes an answer: the one it has, the
queue, and the one the reader is about to enqueue. -/
def world.line (w : world) : List Nat :=
  worker_ops w.log ++ (owed w.run.worker w.call).map (·.call.op) ++
    w.run.executor.pending_.map (·.call.op) ++ w.reader.enqueues

/-- The operations refused and answered by the reader, and the one it has still to answer. -/
def world.refusals (w : world) : List Nat := rejected_ops w.log ++ w.reader.rejects

/-- Answers given for `op`, and answers owed. -/
def world.debts (w : world) (op : Nat) : Nat := w.line.count op + w.refusals.count op

/-- A send failed, and the thread that saw it is in the `stop()` it called. -/
def world.stopping (w : world) : Prop :=
  (∃ call held, w.reader = .stopping call held) ∨ ∃ call, w.call = .stopping call

/-- Why no answer may come. -/
def excused (w : world) (op : Nat) : Prop :=
  w.server.cancelled op = true ∨ w.server.serving = false ∨ w.stopping

/-- Encoding and sending report failure, and do not throw. -/
def no_throws : world → server_action → Prop
  | _, .receive a => a.no_throw
  | _, .reject a => a.no_throw
  | _, .respond a => a.no_throw
  | _, _ => True

/-! ## Frames and the two lists

Only frames of the worker and queue-full replies are answers to an operation. What a step logs
besides leaves both lists alone, and so does what the reader sends by itself. -/

@[simp] theorem worker_ops_append (a b : List server_event) :
    worker_ops (a ++ b) = worker_ops a ++ worker_ops b := by
  simp [worker_ops]

@[simp] theorem rejected_ops_append (a b : List server_event) :
    rejected_ops (a ++ b) = rejected_ops a ++ rejected_ops b := by
  simp [rejected_ops]

/-- Events that are no frame add nothing. -/
theorem ops_of_other (event : server_event) (h : ∀ f, event ≠ .passed f) :
    worker_ops [event] = [] ∧ rejected_ops [event] = [] := by
  cases event with
  | passed f => exact absurd rfl (h f)
  | _ => exact ⟨rfl, rfl⟩

/-- What a section of `receive` puts into the log is for no operation, so it adds nothing to
either list. -/
theorem ops_of_received {s : server} {a : emit_answers} {wire : json} {r : section_result}
    (h : server.received s a wire r) :
    worker_ops (r.events s wire) = [] ∧ rejected_ops (r.events s wire) = [] := by
  have horigin : ∀ f ∈ frames_of (r.events s wire), f.origin = .received wire := by
    intro f hf
    rcases mem_events (mem_frames.mp hf) with hev | ⟨f', hf', hev⟩ | ⟨req, op, -, hev⟩
    · cases hev
    · cases hev
      exact (received_frames h hf').1
    · cases hev
  refine ⟨List.filterMap_eq_nil_iff.mpr ?_, List.filterMap_eq_nil_iff.mpr ?_⟩
  · intro f hf
    rw [horigin f hf]
    rfl
  · intro f hf
    rw [horigin f hf]
    rfl

/-- Without exceptions, an answer that may be given and is not ends in a failed send. -/
theorem server.answer_silent {s : server} {a : emit_answers} {origin : frame_origin} {op : Nat}
    {reply : response} {method : String} (h : a.no_throw) :
    (s.answer a origin op reply method).2 ≠ .threw ∧
      ((s.answer a origin op reply method).1 = [] →
        (s.answer a origin op reply method).2 = .failed ∨ s.may_answer op = false) := by
  unfold server.answer
  split
  · refine ⟨(emit_no_throw h).1, fun hnone => .inl ((emit_no_throw h).2 ?_)⟩
    unfold emitted at hnone
    cases hwire : (emit a reply method).1 with
    | none => rfl
    | some wire => simp [hwire] at hnone
  · rename_i hmay
    exact ⟨by simp, fun _ => .inr (by simpa using hmay)⟩

/-- An answer that may not be given is excused: `may_answer` fails for one that was cancelled
and when the server no longer serves. -/
theorem excused_of_may {w : world} {op : Nat} (h : w.server.may_answer op = false) :
    excused w op := by
  rw [server.may_answer, Bool.and_eq_false_iff] at h
  rcases h with h | h
  · exact .inl (by simpa using h)
  · exact .inr (.inl h)

/-! ## One step

Each step is one of two kinds. The step that admits a request puts a new operation at the end of
the line. Every other step leaves the lists as they are, moves a debt from one place to the
next, or drops debts; the line it leaves is a sublist of the one before, so its order is kept.
What dropped a debt is named in `excused`: the step itself is the witness that the operation was
cancelled, the server is stopping, or a send failed.

The line of the worker and the queue-full replies of the reader are two lists, because a refused
request is answered by another thread, and nothing is promised about the order between the two.
The line keeps the order of admission, and this is what the worker's frames are compared with
later; a refused operation leaves the line and is counted in the other list from then on. -/

/-- What a step does to the two lists. -/
inductive line_step (w t : world) : Prop
  /-- An operation is admitted and joins the line. -/
  | listed (hline : t.line = w.line ++ [w.server.operations.length])
      (hrefusals : t.refusals = w.refusals)
      (hlength : t.server.operations.length = w.server.operations.length + 1)
  /-- Debts move along the lists or are paid; those that are dropped are excused. -/
  | moved (hline : t.line.Sublist w.line) (hdebts : ∀ op, t.debts op ≤ w.debts op)
      (hexcuse : ∀ op, t.debts op < w.debts op → excused t op)
      (hlength : t.server.operations.length = w.server.operations.length)

section Step

variable {w t : world} {a : server_action}

/-- A step that leaves both lists as they are. -/
theorem line_step.same (hline : t.line = w.line) (hrefusals : t.refusals = w.refusals)
    (hlength : t.server.operations.length = w.server.operations.length) : line_step w t := by
  have hdebts : ∀ op, t.debts op = w.debts op := fun op => by
    rw [world.debts, world.debts, hline, hrefusals]
  refine .moved (hline ▸ List.Sublist.refl _) (fun op => Nat.le_of_eq (hdebts op)) ?_ hlength
  intro op hlt
  rw [hdebts op] at hlt
  exact absurd hlt (Nat.lt_irrefl _)

/-- One debt leaves the line, from wherever it stood. The others keep their order, and its
operation alone needs an excuse. -/
theorem line_step.dropped (before after : List Nat) (op : Nat)
    (hw : w.line = before ++ op :: after)
    (ht : t.line = before ++ after) (hrefusals : t.refusals = w.refusals)
    (hexcuse : excused t op)
    (hlength : t.server.operations.length = w.server.operations.length) : line_step w t := by
  refine .moved ?_ ?_ ?_ hlength
  · rw [hw, ht]
    exact (List.Sublist.refl _).append (List.sublist_cons_self _ _)
  · intro op'
    simp only [world.debts, hrefusals, hw, ht, List.count_append, List.count_cons]
    omega
  · intro op' hlt
    simp only [world.debts, hrefusals, hw, ht, List.count_append, List.count_cons] at hlt
    by_cases hop : op = op'
    · exact hop ▸ hexcuse
    · simp [hop] at hlt

/-- The debt of a queue-full reply is dropped, with its excuse, and the line is as it was. -/
theorem line_step.dropped_refusal (before : List Nat) (op : Nat) (hline : t.line = w.line)
    (hw : w.refusals = before ++ [op]) (ht : t.refusals = before) (hexcuse : excused t op)
    (hlength : t.server.operations.length = w.server.operations.length) : line_step w t := by
  refine .moved (hline ▸ List.Sublist.refl _) ?_ ?_ hlength
  · intro op'
    simp only [world.debts, hline, hw, ht, List.count_append]
    omega
  · intro op' hlt
    simp only [world.debts, hline, hw, ht, List.count_append] at hlt
    by_cases hop : op = op'
    · exact hop ▸ hexcuse
    · simp [hop] at hlt

/-- The reader's reply to a refusal: a frame, or an excuse. -/
theorem reject_step {req : request} {op : Nat} {answers : emit_answers} {reader : reader_at}
    {stops : List stop_at} (hthrow : answers.no_throw) (hreader : w.reader = .rejected req op)
    (hquiet : reader.enqueues = [] ∧ reader.rejects = [])
    (hfailed : (w.server.answer answers (.rejection op) op (queue_full_reply req.id) "").2 =
      .failed → ∃ call held, reader = .stopping call held) :
    line_step w { w with
      reader := reader
      stops := stops
      log := w.log ++
        (w.server.answer answers (.rejection op) op (queue_full_reply req.id) "").1.map
          .passed } := by
  have henqueues : w.reader.enqueues = [] := by rw [hreader]; rfl
  have hrejects : w.reader.rejects = [op] := by rw [hreader]; rfl
  rcases w.server.answer_cases answers (.rejection op) op (queue_full_reply req.id) "" with
    hnone | ⟨-, wire, accepted, hframe⟩
  -- no frame: the send failed, or the answer may not be given
  · refine .dropped_refusal (rejected_ops w.log) op ?_ ?_ ?_ ?_ rfl
    · simp [world.line, hnone, henqueues, hquiet]
    · simp [world.refusals, hrejects]
    · simp [world.refusals, hnone, hquiet]
    · rcases (server.answer_silent hthrow).2 hnone with hfail | hmay
      · exact .inr (.inr (.inl (hfailed hfail)))
      · exact excused_of_may (w := { w with reader := reader, stops := stops, log := _ }) hmay
  · refine .same ?_ ?_ rfl
    · simp [world.line, hframe, henqueues, hquiet, worker_ops, frames_of,
        frame_origin.worker_op]
    · simp [world.refusals, hframe, hrejects, hquiet, rejected_ops, frames_of,
        frame_origin.rejected_op]

/-- The second section of the worker's invocation: a frame, or an excuse. -/
theorem respond_step {item : work closure} {reply : response} {answers : emit_answers}
    {call : call_at} {stops : List stop_at} (hthrow : answers.no_throw)
    (hworker : w.run.worker = .calling item) (hcall : w.call = .replying reply)
    (hquiet : call.owes = false)
    (hfailed : (w.server.answer answers (.worker item.call.op) item.call.op reply
      item.call.req.method).2 = .failed → ∃ n, call = .stopping n) :
    line_step w { w with
      call := call
      stops := stops
      log := w.log ++ (w.server.answer answers (.worker item.call.op) item.call.op reply
        item.call.req.method).1.map .passed } := by
  have howes : w.call.owes = true := by rw [hcall]; rfl
  rcases w.server.answer_cases answers (.worker item.call.op) item.call.op reply
      item.call.req.method with hnone | ⟨-, wire, accepted, hframe⟩
  -- no frame: the send failed, or the answer may not be given
  · refine .dropped (worker_ops w.log)
      (w.run.executor.pending_.map (·.call.op) ++ w.reader.enqueues) item.call.op ?_ ?_ ?_ ?_ rfl
    · simp [world.line, owed, hworker, howes]
    · simp [world.line, owed, hworker, hquiet, hnone]
    · simp [world.refusals, hnone]
    · rcases (server.answer_silent hthrow).2 hnone with hfail | hmay
      · exact .inr (.inr (.inr (hfailed hfail)))
      · exact excused_of_may (w := { w with call := call, stops := stops, log := _ }) hmay
  · refine .same ?_ ?_ rfl
    · simp [world.line, owed, hworker, howes, hquiet, hframe, worker_ops, frames_of,
        frame_origin.worker_op]
    · simp [world.refusals, hframe, rejected_ops, frames_of, frame_origin.rejected_op]

/-- A text the reader received: a request that is admitted joins the line at its end, since the
reader holds it now; anything else leaves the lists alone. -/
theorem received_line {answers : emit_answers} {wire : json} (hreader : w.reader = .receiving wire)
    {r : section_result} (hr : server.received w.server answers wire r) :
    line_step w { w with
      server := r.server
      reader := r.next.reader w.stops.length
      stops := r.next.stops w.stops
      log := w.log ++ r.events w.server wire } := by
  obtain ⟨hworker, hrejected⟩ := ops_of_received hr
  have henqueues : w.reader.enqueues = [] := by rw [hreader]; rfl
  have hrejects : w.reader.rejects = [] := by rw [hreader]; rfl
  rcases received_lists hr with ⟨-, hno, -, hlength⟩ | ⟨req, -, hserver, hnext⟩
  · have hquiet : (r.next.reader w.stops.length).enqueues = [] ∧
        (r.next.reader w.stops.length).rejects = [] := by
      cases hnext : r.next with
      | enqueue req op => exact absurd hnext (hno req op)
      | done | stop | cancel => exact ⟨rfl, rfl⟩
    refine .same ?_ ?_ hlength
    · simp [world.line, hworker, henqueues, hquiet]
    · simp [world.refusals, hrejected, hrejects, hquiet]
  · refine .listed ?_ ?_ ?_
    · simp [world.line, hworker, henqueues, hnext, receive_next.reader]
    · simp [world.refusals, hrejected, hrejects, hnext, receive_next.reader]
    · simp [hserver, server.push]

/-- An enqueue passes the debt on to the queue, or back to the reader. Refused, it leaves the
line, but not the count: the reader owes the queue-full reply instead. -/
theorem enqueue_line {req : request} {op : Nat} (hreader : w.reader = .enqueueing req op) :
    line_step w { w with
      run := (w.run.enqueue req.id (some ⟨req, op⟩)).1
      reader :=
        if (w.run.enqueue req.id (some ⟨req, op⟩)).2 = none then .leaving op false
        else .rejected req op
      log := w.log ++ [.answered op (w.run.enqueue req.id (some ⟨req, op⟩)).2
        w.run.executor.pending_.length] } := by
  have henqueues : w.reader.enqueues = [op] := by rw [hreader]; rfl
  have hrejects : w.reader.rejects = [] := by rw [hreader]; rfl
  obtain ⟨hworker, hrejected⟩ := ops_of_other (.answered op
    (w.run.enqueue req.id (some ⟨req, op⟩)).2 w.run.executor.pending_.length) (by simp)
  rcases w.run.enqueue_cases req.id (some ⟨req, op⟩) with
    ⟨err, -, heq⟩ | ⟨c, -, hc, -, -, -, -, heq⟩
  · rw [heq] at hworker hrejected ⊢
    -- refused: the line gives the debt up, the refusals take it
    have hline : ({ w with
        run := { w.run with made := w.run.made + 1 }
        reader := .rejected req op
        log := w.log ++ [.answered op (some err) w.run.executor.pending_.length] } : world).line ++
          [op] = w.line := by
      simp [world.line, hworker, henqueues]
    have hrefusals : ({ w with
        run := { w.run with made := w.run.made + 1 }
        reader := .rejected req op
        log := w.log ++ [.answered op (some err) w.run.executor.pending_.length] } :
          world).refusals = w.refusals ++ [op] := by
      simp [world.refusals, hrejected, hrejects]
    have hdebts : ∀ j, ({ w with
        run := { w.run with made := w.run.made + 1 }
        reader := .rejected req op
        log := w.log ++ [.answered op (some err) w.run.executor.pending_.length] } :
          world).debts j = w.debts j := by
      intro j
      rw [world.debts, world.debts, hrefusals, ← hline, List.count_append, List.count_append]
      omega
    refine .moved ?_ (fun j => Nat.le_of_eq (hdebts j)) (fun j hlt => ?_) rfl
    · rw [← hline]
      exact List.sublist_append_left _ _
    · exact absurd (hdebts j ▸ hlt) (Nat.lt_irrefl _)
  · cases hc
    rw [heq] at hworker hrejected ⊢
    refine .same ?_ ?_ rfl
    · simp [world.line, hworker, henqueues]
    · simp [world.refusals, hrejected, hrejects]

/-- A cancellation drops the debt of the operation it marked, if that is still queued. The
executor looks for the ID, and an ID in flight is that of one operation, so what it takes out of
the queue is the operation that was marked. -/
theorem cancel_line {limit : Nat} (hc : custody w) (hi : ids_inv w) (hrun : runtime_inv limit w.run)
    {op : Nat} (hreader : w.reader = .cancelling op) {rest : cleanup} {reached : List Nat} :
    line_step w { w with
      run := (w.run.cancel (w.server.id_of op)).1
      reader := .cleaning rest
      log := w.log ++ [.cancelled op reached] } := by
  have henqueues : w.reader.enqueues = [] := by rw [hreader]; rfl
  have hrejects : w.reader.rejects = [] := by rw [hreader]; rfl
  have hknows := hi.reader
  rw [hreader] at hknows
  obtain ⟨hworker, hrejected⟩ := ops_of_other (.cancelled op reached) (by simp)
  rcases w.run.cancel_cases (w.server.id_of op) with
    ⟨v, -, -, heq⟩ | ⟨before, v, after, hitems, hsame, -, -, heq⟩ | ⟨-, -, heq⟩
  · rw [heq]
    refine .same ?_ ?_ rfl
    · simp [world.line, hworker, henqueues]
    · simp [world.refusals, hrejected, hrejects]
  · rw [heq]
    have hpending : v ∈ w.run.executor.pending_ := by simp [hitems]
    obtain ⟨hmem, hid, -⟩ := work_in_flight hc hi hrun (.inr hpending)
    -- by its ID, which no other operation in flight has
    have hop : v.call.op = op := hknows.2 _ hmem (hid ▸ hsame)
    refine .dropped
      (worker_ops w.log ++ (owed w.run.worker w.call).map (·.call.op) ++ before.map (·.call.op))
      (after.map (·.call.op)) op ?_ ?_ ?_ (.inl hknows.1) rfl
    · simp [world.line, henqueues, hitems, hop]
    · simp [world.line, hworker]
    · simp [world.refusals, hrejected, hrejects]
  · rw [heq]
    refine .same ?_ ?_ rfl
    · simp [world.line, hworker, henqueues]
    · simp [world.refusals, hrejected, hrejects]

/-- Steps of the reader that begin or end a call, or take it nowhere near an operation. -/
theorem quiet_line {r : reader_at} {s : server} {stops : List stop_at} {log : List server_event}
    (hbefore : w.reader.enqueues = [] ∧ w.reader.rejects = [])
    (hafter : r.enqueues = [] ∧ r.rejects = [])
    (hlength : s.operations.length = w.server.operations.length)
    (hlog : worker_ops log = worker_ops w.log ∧ rejected_ops log = rejected_ops w.log) :
    line_step w { w with server := s, reader := r, stops := stops, log := log } := by
  refine .same ?_ ?_ hlength
  · simp [world.line, hbefore, hafter, hlog]
  · simp [world.refusals, hbefore, hafter, hlog]

/-- A reader that has left a call owes nothing. -/
theorem left_quiet (calls : Nat) (threw : Bool) :
    (reader_at.left calls threw).enqueues = [] ∧ (reader_at.left calls threw).rejects = [] := by
  cases threw <;> exact ⟨rfl, rfl⟩

/-- Nor does one that has finished its part of a cleanup. -/
theorem cleaned_quiet (rest : Option cleanup) :
    (reader_at.cleaned rest).enqueues = [] ∧ (reader_at.cleaned rest).rejects = [] := by
  cases rest <;> exact ⟨rfl, rfl⟩

/-- The worker's other moves leave the debt it has where it is. -/
theorem worker_line {run : runtime closure} {call : call_at} {s : server}
    {log : List server_event}
    (howed : (owed run.worker call).map (·.call.op) ++ run.executor.pending_.map (·.call.op) =
      (owed w.run.worker w.call).map (·.call.op) ++ w.run.executor.pending_.map (·.call.op))
    (hlength : s.operations.length = w.server.operations.length)
    (hlog : worker_ops log = worker_ops w.log ∧ rejected_ops log = rejected_ops w.log) :
    line_step w { w with server := s, run := run, call := call, log := log } := by
  refine .same ?_ ?_ hlength
  · simp only [world.line, hlog, List.append_assoc]
    rw [← List.append_assoc _ _ w.reader.enqueues, howed, List.append_assoc]
  · simp [world.refusals, hlog]

/-- Every step of the server is of the two kinds. The cases follow the rules of the machine: the
reader's, the worker's, those of a call of `stop()`. -/
theorem world.Step.line_cases {limit : Nat} (hc : custody w) (hi : ids_inv w)
    (hrun : runtime_inv limit w.run) (hthrow : no_throws w a) (hstep : world.Step w a t) :
    line_step w t := by
  have hmatch := hc.call
  have hlog : worker_ops w.log = worker_ops w.log ∧ rejected_ops w.log = rejected_ops w.log :=
    ⟨rfl, rfl⟩
  cases hstep with
  | deliver wire hreader =>
      exact quiet_line (by rw [hreader]; exact ⟨rfl, rfl⟩) ⟨rfl, rfl⟩ rfl hlog
  | @receive wire answers hreader =>
      exact received_line hreader (w.server.receive_received answers wire)
  | enqueue hreader => exact enqueue_line hreader
  | reject_sent answers hreader hsent =>
      exact reject_step hthrow hreader ⟨rfl, rfl⟩ (by rw [hsent]; simp)
  | reject_failed answers hreader hfailed =>
      exact reject_step hthrow hreader ⟨rfl, rfl⟩ fun _ => ⟨_, _, rfl⟩
  | reject_threw answers hreader hthrew =>
      exact absurd hthrew (server.answer_silent hthrow).1
  | leave_shared hreader hshared =>
      exact quiet_line (by rw [hreader]; exact ⟨rfl, rfl⟩) (left_quiet _ _) rfl hlog
  | leave_last hreader hlast =>
      exact quiet_line (by rw [hreader]; exact ⟨rfl, rfl⟩) ⟨rfl, rfl⟩ rfl hlog
  | reader_completes hreader =>
      exact quiet_line (by rw [hreader]; exact ⟨rfl, rfl⟩) (left_quiet _ _) rfl hlog
  | cancel hreader => exact cancel_line hc hi hrun hreader
  | reader_cleans hreader =>
      have hlength := (world.Step.reader_cleans hreader).length (by simp)
      exact quiet_line (by rw [hreader]; exact ⟨rfl, rfl⟩) (cleaned_quiet _) hlength hlog
  | @reader_stopped call held hreader hreturned =>
      refine quiet_line (by rw [hreader]; exact ⟨rfl, rfl⟩) ?_ rfl hlog
      cases held <;> exact ⟨rfl, rfl⟩
  | @dequeue item e hworker htake =>
      obtain ⟨-, rest, hpending, rfl⟩ := owned_executor.dequeue_some htake
      exact worker_line (by simp [runtime.dequeue, owed, hworker, hpending]) rfl hlog
  | invoke hworker =>
      exact worker_line (by simp [runtime.invoke, owed, hworker, call_at.owes]) rfl hlog
  | apply hworker hcall hmay =>
      exact worker_line (by simp [owed, hworker, hcall, call_at.owes]) rfl
        (by simp [(ops_of_other (.applied _) (by simp)).1,
          (ops_of_other (.applied _) (by simp)).2])
  | @skip item hworker hcall hmay =>
      -- the body found that it may not answer
      refine .dropped (worker_ops w.log)
        (w.run.executor.pending_.map (·.call.op) ++ w.reader.enqueues) item.call.op ?_ ?_ rfl ?_ rfl
      · simp [world.line, owed, hworker, hcall, call_at.owes]
      · simp [world.line, owed, hworker, call_at.owes]
      · exact excused_of_may (w := { w with call := .finished }) hmay
  | application outcome hworker hcall =>
      exact worker_line (by simp [owed, hworker, hcall, call_at.owes]) rfl hlog
  | respond answers hworker hcall hdone =>
      exact respond_step hthrow hworker hcall rfl fun hfail => absurd hfail hdone
  | respond_failed answers hworker hcall hfailed =>
      exact respond_step hthrow hworker hcall rfl fun _ => ⟨_, rfl⟩
  | call_stopped hcall hreturned =>
      refine worker_line ?_ rfl hlog
      cases hworker : w.run.worker <;> simp [owed, hcall, call_at.owes]
  | finish_call hworker hcall =>
      exact worker_line (by simp [runtime.finish_call, owed, hworker, hcall, call_at.owes]) rfl hlog
  | reset_active hworker =>
      exact worker_line (by
        simp [runtime.reset_active, owned_executor.reset_active, owed, hworker]) rfl hlog
  | release_shared hworker hcall hshared =>
      exact worker_line (by simp [runtime.release, owed, hworker]) rfl hlog
  | release_last hworker hcall hlast =>
      exact worker_line (by simp [owed, hworker]) rfl hlog
  | call_completes hworker hcall =>
      exact worker_line (by simp [runtime.release, owed, hworker]) rfl hlog
  | leave_loop hworker hstop =>
      exact worker_line (by simp [runtime.leave, owed, hworker]) rfl hlog
  | finish hworker =>
      exact worker_line (by simp [runtime.finish, owned_executor.finish, owed, hworker]) rfl hlog
  | call_stop => exact .same rfl rfl rfl
  | stop_server hcall => exact .same rfl rfl (server.stop_length _)
  | stop_executor hcall =>
      -- the thread is past the first section of `stop()`, so the server serves no more
      have hstopped : w.server.serving = false := by
        by_contra hserving
        rw [Bool.not_eq_false] at hserving
        have := hi.stops hserving _ (List.mem_of_getElem? hcall)
        cases this
      have hline : List.Sublist (worker_ops w.log ++ (owed w.run.worker w.call).map (·.call.op) ++
          [] ++ w.reader.enqueues) w.line :=
        ((List.Sublist.refl _).append (List.nil_sublist _)).append (List.Sublist.refl _)
      refine .moved hline (fun op => ?_) (fun op _ => .inr (.inl hstopped)) rfl
      exact Nat.add_le_add_right (hline.count_le op) _
  | stop_cleans hcall =>
      exact .same rfl rfl ((world.Step.stop_cleans hcall).length (by simp))
  | stop_transport hcall => exact .same rfl rfl rfl
  | start_commits hstate => exact .same rfl rfl rfl
  | wait_returns hfinished => exact .same rfl rfl rfl

end Step

/-! ## Every run

`delivery` says what the count of an operation is: at most one always, and one unless it is
excused. Excuses last (`excused_later`): flags are only set, a server that stopped does not
serve again in a run, and a thread that called `stop()` is in it until the section that ends the
serving has run.

That a debt is at most one rests on the numbers of operations. A new operation has a number
nobody was counted for, so its count begins at one, and every other step only moves or drops. -/

/-- Any run of a started server in which encoding and sending do not throw. -/
def quiet_runs (limit : Nat) : System world server_action := (server_runs limit).restrict no_throws

/-- Every operation is counted once, for an answer given or one owed, unless it is excused. -/
structure delivery (w : world) : Prop where
  /-- The line is in the order of admission. -/
  ordered : w.line.Pairwise (· < ·)
  once : ∀ op, w.debts op ≤ 1
  made : ∀ op, 0 < w.debts op → op < w.server.operations.length
  settled : ∀ op < w.server.operations.length, w.debts op = 1 ∨ excused w op

section Runs

variable {limit : Nat} {w t : world} {a : server_action}

/-- A `stop()` called after a failed send returns only after its first section. While the server
still serves the call has not passed that section, so the thread is still in it. -/
theorem world.Step.keeps_stopping (hc : custody w) (hi : ids_inv w) (hstep : world.Step w a t)
    (hserving : t.server.serving = true) (h : w.stopping) : t.stopping := by
  rcases h with ⟨n, held, hreader⟩ | ⟨n, hcall⟩
  · exact .inl ⟨n, held, hstep.reader_stays hi hserving hreader⟩
  · right
    have hentered := hi.stops (hstep.later.serving hserving)
    have hmatch := hc.call
    rw [hcall] at hmatch
    obtain ⟨item, hcalling⟩ := hmatch
    cases hstep with
    | call_stopped hcall' hret => cases hentered _ (List.mem_of_getElem? hret)
    | apply _ hc' _ | skip _ hc' _ | application _ _ hc' | respond _ _ hc' _
    | respond_failed _ _ hc' _ | finish_call _ hc' | release_last _ hc' _ | call_completes _ hc' =>
        rw [hcall] at hc'
        cases hc'
    | invoke hw | release_shared hw _ _ =>
        rw [hcalling] at hw
        cases hw
    | _ => exact ⟨n, hcall⟩

/-- An excuse is good for every later state. -/
theorem excused_later (hc : custody w) (hi : ids_inv w) (hstep : world.Step w a t) {op : Nat}
    (h : excused w op) : excused t op := by
  cases hserving : t.server.serving with
  | false => exact .inr (.inl hserving)
  | true =>
      rcases h with hcancelled | hstopped | hstopping
      · exact .inl (hstep.later.cancelled op hcancelled)
      · rw [hstep.later.serving hserving] at hstopped
        cases hstopped
      · exact .inr (.inr (hstep.keeps_stopping hc hi hserving hstopping))

/-- A step of either kind keeps the account. The new operation is counted for the first time,
since only operations that exist are counted; a debt that is dropped leaves an excuse. -/
theorem delivery.step (hc : custody w) (hi : ids_inv w) (hrun : runtime_inv limit w.run)
    (h : delivery w) (hthrow : no_throws w a) (hstep : world.Step w a t) : delivery t := by
  have hexcused := fun op (hop : excused w op) => excused_later hc hi hstep hop
  cases hstep.line_cases hc hi hrun hthrow with
  | listed hline hrefusals hlength =>
      have hold : ∀ op ∈ w.line, op < w.server.operations.length := by
        intro op hop
        have hpos : 0 < w.line.count op := List.count_pos_iff.mpr hop
        exact h.made op (by rw [world.debts]; omega)
      have hdebts : ∀ op, t.debts op = w.debts op + one w.server.operations.length op := by
        intro op
        rw [world.debts, world.debts, hline, hrefusals, List.count_append, count_singleton_eq_one]
        omega
      -- counted nowhere before it was made
      have hnew : w.debts w.server.operations.length = 0 := by
        by_contra hne
        have := h.made w.server.operations.length (by omega)
        omega
      refine ⟨?_, ?_, ?_, ?_⟩
      · rw [hline, List.pairwise_append]
        refine ⟨h.ordered, List.pairwise_singleton _ _, ?_⟩
        intro op hop op' hop'
        rw [List.mem_singleton.mp hop']
        exact hold op hop
      · intro op
        have honce := h.once op
        rw [hdebts op]
        by_cases hop : op = w.server.operations.length
        · have hone := one_le w.server.operations.length op
          rw [hop] at hone ⊢
          omega
        · rw [one_of_ne hop]
          exact honce
      · intro op hpos
        rw [hdebts op] at hpos
        rw [hlength]
        by_cases hop : op = w.server.operations.length
        · omega
        · rw [one_of_ne hop] at hpos
          have := h.made op (by omega)
          omega
      · intro op hop
        rw [hlength] at hop
        rw [hdebts op]
        by_cases hnewop : op = w.server.operations.length
        · left
          rw [hnewop, hnew, one_self]
        · rw [one_of_ne hnewop]
          rcases h.settled op (by omega) with hone | hex
          · exact .inl (by omega)
          · exact .inr (hexcused op hex)
  | moved hline hdebts hexcuse hlength =>
      refine ⟨h.ordered.sublist hline, ?_, ?_, ?_⟩
      · intro op
        exact Nat.le_trans (hdebts op) (h.once op)
      · intro op hpos
        rw [hlength]
        exact h.made op (Nat.lt_of_lt_of_le hpos (hdebts op))
      · intro op hop
        rw [hlength] at hop
        rcases h.settled op hop with hone | hex
        -- paid and moved debts keep the count, dropped ones have an excuse
        · by_cases hlt : t.debts op < w.debts op
          · exact .inr (hexcuse op hlt)
          · have := hdebts op
            exact .inl (by omega)
        · exact .inr (hexcused op hex)

/-- Such a run is a run of the server. -/
theorem quiet_reachable (h : (quiet_runs limit).Reachable w) : (server_runs limit).Reachable w :=
  System.restrict_reachable h

/-- Every state of a run without exceptions; the invariants it rests on hold in all runs. -/
theorem server_delivery (h : (quiet_runs limit).Reachable w) : delivery w := by
  refine h.invariant (P := delivery) ?_ ?_
  · rintro w ⟨hlimit, info, resources, prompts, tools, rfl⟩
    have hne : limit ≠ 0 := by omega
    have hline : world.line
        ⟨.started info resources prompts tools, .make limit, .idle, .outside, [], []⟩ = [] := by
      simp [world.line, worker_ops, frames_of, owed, runtime.make, hne, owned_executor.make,
        reader_at.enqueues]
    have hrefusals : world.refusals
        ⟨.started info resources prompts tools, .make limit, .idle, .outside, [], []⟩ = [] := by
      simp [world.refusals, rejected_ops, frames_of, reader_at.rejects]
    refine ⟨?_, ?_, ?_, ?_⟩
    · rw [hline]
      exact .nil
    · intro op
      simp [world.debts, hline, hrefusals]
    · intro op hpos
      simp [world.debts, hline, hrefusals] at hpos
    · intro op hop
      simp [server.started] at hop
  · rintro w a t hw hd ⟨hthrow, hstep⟩
    have hr := quiet_reachable hw
    exact hd.step (server_custody hr) (server_ids hr) (server_runtime hr) hthrow hstep

/-! ## The answers to a request

From the account the three things said of answers follow. A frame for an operation is in one of
the two lists, so there is one at most. When nobody is at work the only debts are answers given,
so each operation that was not cancelled has one. And the answers of the worker are the
beginning of the line, which is ordered.

`exactly_one` speaks of a quiet moment: the server serves, nobody is in `receive()`, and the
executor waits with an empty queue. No place is left then in which a debt could be but among the
answers given, and no capture is held, so the operation is out of `inflight_` too. -/

/-- Whether a frame answers the operation. -/
def frame.answers (f : frame) (op : Nat) : Bool :=
  f.origin.worker_op = some op || f.origin.rejected_op = some op

/-- The response frames passed for an operation. -/
def world.answers_to (w : world) (op : Nat) : List frame := w.frames.filter (·.answers op)

/-- The frames for an operation, counted in the two lists. -/
theorem answers_to_length (w : world) (op : Nat) :
    (w.answers_to op).length = (worker_ops w.log).count op + (rejected_ops w.log).count op := by
  rw [world.answers_to, world.frames, worker_ops, rejected_ops]
  induction frames_of w.log with
  | nil => rfl
  | cons f rest ih =>
      rw [List.filter_cons, List.filterMap_cons, List.filterMap_cons, frame.answers]
      cases f.origin with
      | received wire => exact ih
      | rejection op' =>
          have hrejected : (frame_origin.rejection op').rejected_op = some op' := rfl
          have hworker : (frame_origin.rejection op').worker_op = none := rfl
          rw [hrejected, hworker]
          by_cases hop : op' = op
          · simp only [hop, decide_true, Bool.or_true, if_true, List.length_cons,
              List.count_cons_self, ih]
            omega
          · simpa [hop] using ih
      | worker op' =>
          have hrejected : (frame_origin.worker op').rejected_op = none := rfl
          have hworker : (frame_origin.worker op').worker_op = some op' := rfl
          rw [hrejected, hworker]
          by_cases hop : op' = op
          · simp only [hop, decide_true, Bool.true_or, if_true, List.length_cons,
              List.count_cons_self, ih]
            omega
          · simpa [hop] using ih

/-- Nothing answers an operation after it was cancelled. Both places that answer one check the
flag under the mutex, in the section that sends. -/
theorem world.Step.silent (hstep : world.Step w a t) {op : Nat}
    (h : w.server.cancelled op = true) : t.answers_to op = w.answers_to op := by
  have hno : ∀ (more : List server_event), t.log = w.log ++ more →
      (∀ f ∈ frames_of more, f.answers op = false) → t.answers_to op = w.answers_to op := by
    intro more hlog hf
    have hnil : (frames_of more).filter (·.answers op) = [] :=
      List.filter_eq_nil_iff.mpr fun f hfm => by simp [hf f hfm]
    rw [world.answers_to, world.answers_to, world.frames, world.frames, hlog, frames_of_append,
      List.filter_append, hnil, List.append_nil]
  -- whoever passes a frame for an operation has just found it not cancelled
  have hmay : ∀ op', w.server.may_answer op' = true → op' ≠ op := by
    rintro op' hmay rfl
    rw [server.may_answer, h] at hmay
    cases hmay
  rcases hstep.log_cases with
    hlog | ⟨answers, wire, -, -, -, hlog⟩ | ⟨req, op', -, -, hlog⟩ |
      ⟨req, op', answers, -, -, hlog⟩ | ⟨op', -, -, hlog⟩ | ⟨item, -, -, -, -, hlog⟩ |
      ⟨item, reply, answers, -, -, -, -, hlog⟩
  · rw [world.answers_to, world.answers_to, world.frames, world.frames, hlog]
  · refine hno _ hlog ?_
    intro f hf
    rcases mem_events (mem_frames.mp hf) with hev | ⟨f', hf', hev⟩ | ⟨req, op', -, hev⟩
    · cases hev
    · cases hev
      have horigin := (received_frames (w.server.receive_received answers wire) hf').1
      rw [frame.answers, horigin]
      rfl
    · cases hev
  · exact hno _ hlog (by simp [frames_of])
  · refine hno _ hlog ?_
    intro f hf
    rw [frames_of_passed] at hf
    obtain ⟨horigin, hm⟩ := server.answer_origin hf
    simpa [frame.answers, horigin, frame_origin.worker_op, frame_origin.rejected_op]
      using hmay op' hm
  · exact hno _ hlog (by simp [frames_of])
  · exact hno _ hlog (by simp [frames_of])
  · refine hno _ hlog ?_
    intro f hf
    rw [frames_of_passed] at hf
    obtain ⟨horigin, hm⟩ := server.answer_origin hf
    simpa [frame.answers, horigin, frame_origin.worker_op, frame_origin.rejected_op] using hmay _ hm

/-- A request the server admitted, in one state. -/
structure answered_once (w : world) : Prop where
  at_most_one : ∀ op, (w.answers_to op).length ≤ 1
  /-- While the server serves, nobody is in `receive()`, and the executor is idle with
  an empty queue: the operation is retired, and answered unless it was cancelled. -/
  exactly_one : w.server.serving = true → w.reader = .idle → w.run.worker = .waiting →
    w.run.executor.pending_ = [] → ∀ op < w.server.operations.length,
      op ∉ w.server.inflight_ ∧
        (w.server.cancelled op = false → (w.answers_to op).length = 1)
  in_order : (worker_ops w.log).Pairwise (· < ·)

/-- In every run without exceptions from the encoder and the transport, an admitted
request is answered at most once, never after it was cancelled, and exactly once when
all is quiet; the worker answers in the order of admission. -/
theorem server_answers_once (h : (quiet_runs limit).Reachable w) :
    answered_once w ∧
      ∀ op t, w.server.cancelled op = true → (quiet_runs limit).Run w t →
        t.answers_to op = w.answers_to op := by
  have hd := server_delivery h
  have hr := quiet_reachable h
  have hc := server_custody hr
  have hi := server_ids hr
  refine ⟨⟨?_, ?_, ?_⟩, ?_⟩
  · intro op
    have honce := hd.once op
    rw [answers_to_length]
    simp only [world.debts, world.line, world.refusals, List.count_append] at honce
    omega
  · intro hserving hreader hworker hpending op hop
    -- with the worker between works, an operation in flight would have to be somewhere
    have hcall := hc.call.outside (by simp [hworker]) (by simp [hworker])
    constructor
    · intro hmem
      have hentered := fun call hmem => Or.inl (b := call = stop_at.returned)
        (hi.stops hserving call hmem)
      have hplace := in_flight_places hc hreader hentered hmem
      simp [hpending, hcall, hworker, current_works] at hplace
    · intro hlive
      -- at rest what is counted is what was sent
      have hquiet : w.debts op = (w.answers_to op).length := by
        rw [answers_to_length]
        simp [world.debts, world.line, world.refusals, owed, hworker, hpending, hreader,
          reader_at.enqueues, reader_at.rejects]
      rcases hd.settled op hop with hone | hcancelled | hstopped | hstopping
      · omega
      · rw [hlive] at hcancelled
        cases hcancelled
      · rw [hserving] at hstopped
        cases hstopped
      · rcases hstopping with ⟨n, held, hr'⟩ | ⟨n, hc'⟩
        · rw [hreader] at hr'
          cases hr'
        · rw [hcall] at hc'
          cases hc'
  · have hsub : (worker_ops w.log).Sublist w.line := by
      simp only [world.line, List.append_assoc]
      exact List.sublist_append_left _ _
    exact hd.ordered.sublist hsub
  · intro op t hcancelled hrun
    have hboth := System.Run.keeps (S := quiet_runs limit)
      (P := fun u => u.server.cancelled op = true ∧ u.answers_to op = w.answers_to op)
      (fun u a v _ hu hstep => ⟨hstep.2.later.cancelled op hu.1, by
        rw [hstep.2.silent hu.1]
        exact hu.2⟩) h ⟨hcancelled, rfl⟩ hrun
    exact hboth.2

/-- The actions of the example sessions are such, with an encoder that does not fail. -/
theorem session.calm_no_throws (w : world) (a : server_action) (h : session.calm_action a) :
    no_throws w a := by
  cases a with
  | receive answers =>
      cases h
      exact ⟨rfl, by decide⟩
  | reject answers | respond answers => cases h
  | _ => trivial

/-- The results at a server whose worker runs the one request admitted. -/
theorem server_answers_once_applying :
    answered_once session.applying ∧ session.applying.server.operations.length = 1 :=
  ⟨(server_answers_once (session.reaches_applying session.calm_no_throws)).1, rfl⟩

end Runs

end SynapseMcp
