/-
Runs of a started server: the reader in `receive()`, the executor's worker in an
invocation `receive()` enqueued, and calls of `stop()` by any thread, interleaved
at the boundaries of their locked sections.

A thread's position is data. `reader_at` is the reader inside one `receive()` call;
`call_at` is the worker inside the body of an invocation and, after it, inside the
destruction of its captures; `stop_at` is one call of `stop()`. Calls of `stop()`
are kept in a list, whoever makes them: the reader and the worker wait for the
entry of the call they made. The rest of `executor_->cancel` and `executor->stop`
after the executor's lock is a `cleanup`: it destroys the works taken off the
queue, one by one.

Captures matter because destroying the last one completes the operation. A
`shared_ptr<completion>` is held by the enqueued work and, until `receive()`
returns, by the reader; whoever drops the last one takes the server's mutex and
erases the operation from `inflight_`. What the model computes at a drop is whether
anybody else still holds one.

`application()` is any outcome: a reply, or an exception that becomes the internal
error.

The log is how the results are stated: what was received and in which state of the
session, what was passed to `transport_send_` and on whose behalf, which operations
were made, what the executor answered, what a cancellation reached, and for which
operations `application()` ran, in this order. Nothing in the server reads it.
-/
import SynapseMcp.Server
import SynapseMcp.ExecutorRuns
import SynapseMcp.SharedOwnership
import Mathlib.Algebra.Ring.Nat

set_option autoImplicit false

namespace SynapseMcp

open Transition

/-- The captures of the invocation `receive` enqueues. -/
structure closure where
  req : request
  op : Nat

/-- The rest of `executor_->cancel` and `executor->stop` after the lock. -/
inductive cleanup where
  /-- About to request the stop source taken, if one was. -/
  | requesting (active_stop : Option Nat) (discarded : List (work closure))
  /-- Destroying the local list. -/
  | destroying (discarded : List (work closure))
  /-- The last capture of `op` was destroyed; `complete(op)` is next. -/
  | completing (op : Nat) (rest : List (work closure))

/-- The works it has still to destroy. -/
@[simp] def cleanup.discarded : cleanup → List (work closure)
  | .requesting _ discarded => discarded
  | .destroying discarded => discarded
  | .completing _ rest => rest

/-- The operation it is completing. -/
@[simp] def cleanup.completes : cleanup → List Nat
  | .completing op _ => [op]
  | _ => []

/-- One step of a cleanup, `keeps op` telling whether the reader holds a `done` for
`op`; the server after it, and the rest, if there is any. -/
def cleanup.next (s : server) (keeps : Nat → Bool) : cleanup → server × Option cleanup
  | .requesting _ discarded => (s, some (.destroying discarded))
  | .destroying [] => (s, none)
  | .destroying (w :: rest) =>
      (s, some (if keeps w.call.op then .destroying rest else .completing w.call.op rest))
  | .completing op rest => (s.complete op, some (.destroying rest))

/-- The reader inside one call of `receive()`. -/
inductive reader_at where
  | idle
  /-- Called, the mutex not yet taken. -/
  | receiving (wire : json)
  /-- The operation is pushed; `executor_->enqueue` is next. -/
  | enqueueing (req : request) (op : Nat)
  /-- `enqueue` refused. -/
  | rejected (req : request) (op : Nat)
  /-- Leaving the scope of `done`, by a return or an exception. -/
  | leaving (op : Nat) (threw : Bool)
  /-- `done` was the last capture; `complete(op)` is next. -/
  | completing (op : Nat) (threw : Bool)
  /-- In `notify`, between its section and `executor_->cancel`. -/
  | cancelling (op : Nat)
  | cleaning (rest : cleanup)
  /-- In the call number `call` of `stop()`, holding the `done` of `held`. -/
  | stopping (call : Nat) (held : Option Nat)

/-- The operation whose `done` the reader holds. -/
@[simp] def reader_at.held : reader_at → List Nat
  | .enqueueing _ op => [op]
  | .rejected _ op => [op]
  | .leaving op _ => [op]
  | .stopping _ held => held.toList
  | _ => []

/-- The operations the reader is completing. -/
@[simp] def reader_at.completes : reader_at → List Nat
  | .completing op _ => [op]
  | .cleaning rest => rest.completes
  | _ => []

/-- The works the reader took off the queue, in its `cancel`. -/
@[simp] def reader_at.discarded : reader_at → List (work closure)
  | .cleaning rest => rest.discarded
  | _ => []

/-- The worker inside an invocation, and in the destruction of its captures. -/
inductive call_at where
  | outside
  /-- The invocation has begun; its first section is next. -/
  | entered
  /-- Running `application()`. -/
  | applying
  /-- `reply` is made; the second section is next. -/
  | replying (reply : response)
  | stopping (call : Nat)
  /-- The body is over. -/
  | finished
  /-- `current` held the last capture; `complete(op)` is next. -/
  | completing (op : Nat)

/-- The operation the worker is completing. -/
@[simp] def call_at.completes : call_at → List Nat
  | .completing op => [op]
  | _ => []

/-- One call of `stop()`. -/
inductive stop_at where
  | entered
  /-- The server's section is over; `executor->stop()` is next. -/
  | executor
  | cleaning (rest : cleanup)
  | transport
  | returned

/-- The works the call took off the queue. -/
@[simp] def stop_at.discarded : stop_at → List (work closure)
  | .cleaning rest => rest.discarded
  | _ => []

/-- The operation the call is completing. -/
@[simp] def stop_at.completes : stop_at → List Nat
  | .cleaning rest => rest.completes
  | _ => []

/-- What the log records. -/
inductive server_event where
  /-- The first section of `receive(wire)` ran, and found the session so. -/
  | received (wire : json) (protocol_ : connection)
  /-- A frame was passed to `transport_send_`. -/
  | passed (f : frame)
  | admitted (op : Nat)
  /-- What `executor_->enqueue` answered, and how many requests it held queued. -/
  | answered (op : Nat) (answer : Option sdk_error) (queued : Nat)
  /-- The `executor_->cancel` issued for `op`, and the operations of the works it
  reached. -/
  | cancelled (op : Nat) (reached : List Nat)
  /-- `application()` was called. -/
  | applied (op : Nat)

/-- The server with its threads: the fields under the mutex, the executor, and where the reader,
the worker and every call of `stop()` are. -/
structure world where
  server : server
  run : runtime closure
  reader : reader_at
  call : call_at
  stops : List stop_at
  log : List server_event

/-! ## The log, read by kind

Frames and calls of `application()`, in the order of the log. -/

/-- The frames passed, in order. -/
def frames_of (log : List server_event) : List frame :=
  log.filterMap fun | .passed f => some f | _ => none

def world.frames (w : world) : List frame := frames_of w.log

/-- The operations `application()` ran for, in order. -/
def world.applied (w : world) : List Nat :=
  w.log.filterMap fun | .applied op => some op | _ => none

/-! ## Captures

A work holds one `shared_ptr<completion>`, in the captures of its invocation, as long as the
work itself is held: by the queue, by the worker's `current`, which outlives `active_`, or by
the local list of a `cancel` or a `stop`. A work goes from one of these to another, so its
capture is counted in one place at a time. -/

/-- The work `current` owns at each position of the worker. -/
@[simp] def worker_at.works : worker_at closure → List (work closure)
  | .dequeued w => [w]
  | .calling w => [w]
  | .returned w => [w]
  | .retiring w => [w]
  | _ => []

/-- The same, less the work whose captures are gone already. -/
def current_works (worker : worker_at closure) (call : call_at) : List (work closure) :=
  match call with
  | .completing _ => []
  | _ => worker.works

/-- How many of the works hold a capture of `op`. -/
def captures_in (op : Nat) (works : List (work closure)) : Nat :=
  works.countP fun w => w.call.op = op

/-- How many works in the local lists of `stop()` calls hold one. -/
def captures_stopped (op : Nat) (stops : List stop_at) : Nat :=
  (stops.map fun call => captures_in op call.discarded).sum

/-- How many calls of `stop()` are about to complete `op`. -/
def completes_stopped (op : Nat) (stops : List stop_at) : Nat :=
  (stops.map fun call => call.completes.count op).sum

/-- How many works anywhere hold a capture of `op`. -/
def world.captures (w : world) (op : Nat) : Nat :=
  captures_in op w.run.executor.pending_ + captures_in op (current_works w.run.worker w.call) +
    captures_in op w.reader.discarded + captures_stopped op w.stops

/-- How many calls of `complete(op)` are under way. -/
def world.retirements (w : world) (op : Nat) : Nat :=
  w.reader.completes.count op + w.call.completes.count op + completes_stopped op w.stops

/-- Whether the reader holds a `done` for `op`. -/
def reader_at.keeps (r : reader_at) (op : Nat) : Bool := r.held.contains op

/-! ## Steps

One rule for each section a thread runs under a lock, and for what it does between two of them
as far as others can see it. The environment answers within the step: what `emit` found, what
`application()` returned. Any rule whose gate holds may be taken next, by any thread, so a run
is one interleaving. -/

/-- Whose step it is, with what the environment answered in it. -/
inductive server_action where
  | deliver (wire : json)
  | receive (a : emit_answers)
  | reject (a : emit_answers)
  | reader
  | application (outcome : Option response)
  | respond (a : emit_answers)
  | worker
  | call_stop
  | stop
  | owner

/-- The reader after a section of `receive()`; `calls` is the number of calls of
`stop()` made so far, so the number of the next. -/
def receive_next.reader (calls : Nat) : receive_next → reader_at
  | .done => .idle
  | .stop => .stopping calls none
  | .enqueue req op => .enqueueing req op
  | .cancel op => .cancelling op

/-- The calls of `stop()` after a section that may make one. -/
def receive_next.stops (stops : List stop_at) : receive_next → List stop_at
  | .stop => stops ++ [.entered]
  | _ => stops

/-- The operation a section made, for the log. -/
def receive_next.admitted : receive_next → List server_event
  | .enqueue _ op => [.admitted op]
  | _ => []

/-- What the section adds to the log. -/
def section_result.events (r : section_result) (s : SynapseMcp.server) (wire : json) :
    List server_event :=
  .received wire s.protocol_ :: r.frames.map .passed ++ r.next.admitted

/-- The reader once the `done` of `receive` is gone. -/
def reader_at.left (calls : Nat) (threw : Bool) : reader_at :=
  if threw then .stopping calls none else .idle

/-- The calls of `stop()` then: the catch around `receive` makes one. -/
def left_stops (stops : List stop_at) (threw : Bool) : List stop_at :=
  if threw then stops ++ [.entered] else stops

/-- The reader, and a call of `stop()`, after a step of their cleanup. -/
def reader_at.cleaned (rest : Option cleanup) : reader_at := rest.elim .idle .cleaning

/-- A call of `stop()` after a step of its cleanup; with nothing left it goes on to the
transport. -/
def stop_at.cleaned (rest : Option cleanup) : stop_at := rest.elim .transport .cleaning

/-- A call of `stop()` after the server's section. -/
def stop_at.section_left (goes_on : Bool) : stop_at := if goes_on then .executor else .returned

/-- The operations of the works a `cancel` reached: the active one, or those removed. -/
def reached (r : runtime closure) (rest : owned_executor.unlocked closure) : List Nat :=
  (r.executor.active_.filter fun w => rest.active_stop = some w.ref).toList.map (·.call.op) ++
    rest.discarded.map (·.call.op)

/-- The steps of a started server. The rules follow the source: `receive`, the loop of the
worker and the body of an invocation, `stop()`, and the ends of `start()` and `wait()`. -/
inductive world.Step : world → server_action → world → Prop
  /-- The transport calls the message callback. Gate: the last call returned. -/
  | deliver {w : world} (wire : json) (hreader : w.reader = .idle) :
      Step w (.deliver wire) { w with reader := .receiving wire }
  /-- `receive`, through its first locked section. -/
  | receive {w : world} {wire : json} (a : emit_answers) (hreader : w.reader = .receiving wire) :
      Step w (.receive a)
        { w with
          server := (w.server.receive a wire).server
          reader := (w.server.receive a wire).next.reader w.stops.length
          stops := (w.server.receive a wire).next.stops w.stops
          log := w.log ++ (w.server.receive a wire).events w.server wire }
  /-- `executor_->enqueue`, with its answer. -/
  | enqueue {w : world} {req : request} {op : Nat} (hreader : w.reader = .enqueueing req op) :
      Step w .reader
        { w with
          run := (w.run.enqueue req.id (some ⟨req, op⟩)).1
          reader :=
            if (w.run.enqueue req.id (some ⟨req, op⟩)).2 = none then .leaving op false
            else .rejected req op
          log := w.log ++ [.answered op (w.run.enqueue req.id (some ⟨req, op⟩)).2
            w.run.executor.pending_.length] }
  /-- The queue-full reply, and what follows its outcome. -/
  | reject_sent {w : world} {req : request} {op : Nat} (a : emit_answers)
      (hreader : w.reader = .rejected req op)
      (hsent : (w.server.answer a (.rejection op) op (queue_full_reply req.id) "").2 = .sent) :
      Step w (.reject a)
        { w with
          reader := .leaving op false
          log := w.log ++
            (w.server.answer a (.rejection op) op (queue_full_reply req.id) "").1.map .passed }
  | reject_failed {w : world} {req : request} {op : Nat} (a : emit_answers)
      (hreader : w.reader = .rejected req op)
      (hfailed : (w.server.answer a (.rejection op) op (queue_full_reply req.id) "").2 = .failed) :
      Step w (.reject a)
        { w with
          reader := .stopping w.stops.length (some op)
          stops := w.stops ++ [.entered]
          log := w.log ++
            (w.server.answer a (.rejection op) op (queue_full_reply req.id) "").1.map .passed }
  | reject_threw {w : world} {req : request} {op : Nat} (a : emit_answers)
      (hreader : w.reader = .rejected req op)
      (hthrew : (w.server.answer a (.rejection op) op (queue_full_reply req.id) "").2 = .threw) :
      Step w (.reject a)
        { w with
          reader := .leaving op true
          log := w.log ++
            (w.server.answer a (.rejection op) op (queue_full_reply req.id) "").1.map .passed }
  /-- `done` goes out of scope while the work, somewhere, holds a capture. -/
  | leave_shared {w : world} {op : Nat} {threw : Bool} (hreader : w.reader = .leaving op threw)
      (hshared : 0 < w.captures op) :
      Step w .reader
        { w with
          reader := .left w.stops.length threw
          stops := left_stops w.stops threw }
  /-- `done` goes out of scope and was the last. -/
  | leave_last {w : world} {op : Nat} {threw : Bool} (hreader : w.reader = .leaving op threw)
      (hlast : w.captures op = 0) :
      Step w .reader { w with reader := .completing op threw }
  | reader_completes {w : world} {op : Nat} {threw : Bool}
      (hreader : w.reader = .completing op threw) :
      Step w .reader
        { w with
          server := w.server.complete op
          reader := .left w.stops.length threw
          stops := left_stops w.stops threw }
  /-- `executor_->cancel(cancelled->id)` in `notify`. -/
  | cancel {w : world} {op : Nat} (hreader : w.reader = .cancelling op) :
      Step w .reader
        { w with
          run := (w.run.cancel (w.server.id_of op)).1
          reader := .cleaning (.requesting (w.run.cancel (w.server.id_of op)).2.active_stop
            (w.run.cancel (w.server.id_of op)).2.discarded)
          log := w.log ++
            [.cancelled op (reached w.run (w.run.cancel (w.server.id_of op)).2)] }
  | reader_cleans {w : world} {rest : cleanup} (hreader : w.reader = .cleaning rest) :
      Step w .reader
        { w with
          server := (rest.next w.server fun _ => false).1
          reader := .cleaned (rest.next w.server fun _ => false).2 }
  /-- The `stop()` the reader called returned. -/
  | reader_stopped {w : world} {call : Nat} {held : Option Nat}
      (hreader : w.reader = .stopping call held) (hreturned : w.stops[call]? = some .returned) :
      Step w .reader
        { w with
          reader := match held with
            | some op => .leaving op false
            | none => .idle }
  | dequeue {w : world} {item : work closure} {e : owned_executor closure}
      (hworker : w.run.worker = .waiting) (htake : w.run.executor.dequeue = some (item, e)) :
      Step w .worker { w with run := w.run.dequeue item e }
  /-- The worker calls the invocation. -/
  | invoke {w : world} {item : work closure} (hworker : w.run.worker = .dequeued item) :
      Step w .worker { w with run := w.run.invoke item, call := .entered }
  /-- The first section: a cancelled operation, or a server that stopped, ends it. -/
  | apply {w : world} {item : work closure} (hworker : w.run.worker = .calling item)
      (hcall : w.call = .entered) (hmay : w.server.may_answer item.call.op = true) :
      Step w .worker { w with call := .applying, log := w.log ++ [.applied item.call.op] }
  | skip {w : world} {item : work closure} (hworker : w.run.worker = .calling item)
      (hcall : w.call = .entered) (hmay : w.server.may_answer item.call.op = false) :
      Step w .worker { w with call := .finished }
  /-- `application()` returned a reply, or threw. -/
  | application {w : world} {item : work closure} (outcome : Option response)
      (hworker : w.run.worker = .calling item) (hcall : w.call = .applying) :
      Step w (.application outcome)
        { w with
          call := .replying
            (outcome.getD (failure item.call.req.id .internal_error "Internal error")) }
  /-- The second section, and what follows its outcome; an exception ends the call. -/
  | respond {w : world} {item : work closure} {reply : response} (a : emit_answers)
      (hworker : w.run.worker = .calling item) (hcall : w.call = .replying reply)
      (hdone : (w.server.answer a (.worker item.call.op) item.call.op reply
        item.call.req.method).2 ≠ .failed) :
      Step w (.respond a)
        { w with
          call := .finished
          log := w.log ++ (w.server.answer a (.worker item.call.op) item.call.op reply
            item.call.req.method).1.map .passed }
  | respond_failed {w : world} {item : work closure} {reply : response} (a : emit_answers)
      (hworker : w.run.worker = .calling item) (hcall : w.call = .replying reply)
      (hfailed : (w.server.answer a (.worker item.call.op) item.call.op reply
        item.call.req.method).2 = .failed) :
      Step w (.respond a)
        { w with
          call := .stopping w.stops.length
          stops := w.stops ++ [.entered]
          log := w.log ++ (w.server.answer a (.worker item.call.op) item.call.op reply
            item.call.req.method).1.map .passed }
  | call_stopped {w : world} {call : Nat} (hcall : w.call = .stopping call)
      (hreturned : w.stops[call]? = some .returned) :
      Step w .worker { w with call := .finished }
  | finish_call {w : world} {item : work closure} (hworker : w.run.worker = .calling item)
      (hcall : w.call = .finished) :
      Step w .worker { w with run := w.run.finish_call item, call := .outside }
  | reset_active {w : world} {item : work closure} (hworker : w.run.worker = .returned item) :
      Step w .worker { w with run := w.run.reset_active item }
  /-- `current.reset()` while the reader holds `done`. -/
  | release_shared {w : world} {item : work closure} (hworker : w.run.worker = .retiring item)
      (hcall : w.call = .outside) (hshared : w.reader.keeps item.call.op = true) :
      Step w .worker { w with run := w.run.release }
  /-- `current.reset()` destroys the last capture. -/
  | release_last {w : world} {item : work closure} (hworker : w.run.worker = .retiring item)
      (hcall : w.call = .outside) (hlast : w.reader.keeps item.call.op = false) :
      Step w .worker { w with call := .completing item.call.op }
  | call_completes {w : world} {item : work closure} {op : Nat}
      (hworker : w.run.worker = .retiring item) (hcall : w.call = .completing op) :
      Step w .worker
        { w with server := w.server.complete op, run := w.run.release, call := .outside }
  | leave_loop {w : world} (hworker : w.run.worker = .waiting)
      (hstop : w.run.executor.stopping_ = true) :
      Step w .worker { w with run := w.run.leave }
  | finish {w : world} (hworker : w.run.worker = .leaving) :
      Step w .worker { w with run := w.run.finish }
  /-- Any thread calls `stop()`. -/
  | call_stop (w : world) : Step w .call_stop { w with stops := w.stops ++ [.entered] }
  /-- The locked section of `stop()`. -/
  | stop_server {w : world} {call : Nat} (hcall : w.stops[call]? = some .entered) :
      Step w .stop
        { w with
          server := w.server.stop.1
          stops := w.stops.set call (.section_left w.server.stop.2) }
  | stop_executor {w : world} {call : Nat} (hcall : w.stops[call]? = some .executor) :
      Step w .stop
        { w with
          run := w.run.stop.1
          stops := w.stops.set call
            (.cleaning (.requesting w.run.stop.2.active_stop w.run.stop.2.discarded)) }
  | stop_cleans {w : world} {call : Nat} {rest : cleanup}
      (hcall : w.stops[call]? = some (.cleaning rest)) :
      Step w .stop
        { w with
          server := (rest.next w.server w.reader.keeps).1
          stops := w.stops.set call (.cleaned (rest.next w.server w.reader.keeps).2) }
  /-- `transport_stop_()`. -/
  | stop_transport {w : world} {call : Nat} (hcall : w.stops[call]? = some .transport) :
      Step w .stop { w with stops := w.stops.set call .returned }
  /-- The end of `start()`. -/
  | start_commits {w : world} (hstate : w.server.state_ = .starting) :
      Step w .owner { w with server := { w.server with state_ := .running } }
  /-- The end of `wait()`: the executor's worker has finished. -/
  | wait_returns {w : world} (hfinished : w.run.executor.finished_ = true) :
      Step w .owner { w with server := { w.server with state_ := .stopped } }

/-- A started server, as `start()` leaves it when it calls the transport's `start`:
a zero limit it has refused before. -/
def server_runs (limit : Nat) : System world server_action where
  init w := 0 < limit ∧ ∃ info resources prompts tools,
    w = ⟨.started info resources prompts tools, .make limit, .idle, .outside, [], []⟩
  step := world.Step

/-! ## A session

A server with nothing registered: the handshake, and one `tools/list` as far as
`application()`. It shows that the states the results are about are reached. -/

namespace session

/-- Nothing fails outside the server. -/
def calm : emit_answers := ⟨false, fun _ => true, .accepted⟩

/-- The steps of the session: no second section, and nothing fails. -/
def calm_action : server_action → Prop
  | .receive a => a = calm
  | .reject _ => False
  | .respond _ => False
  | _ => True

/-- The request that greets the server. -/
def hello : json :=
  json.object_of
    [("jsonrpc", .string "2.0"), ("id", .number_unsigned 0), ("method", .string "initialize"),
      ("params", json.object_of
        [("protocolVersion", .string "2025-11-25"), ("capabilities", .object []),
          ("clientInfo", json.object_of [("name", .string "c"), ("version", .string "1")])])]

/-- The client is ready. -/
def ready_note : json :=
  json.object_of [("jsonrpc", .string "2.0"), ("method", .string "notifications/initialized")]

/-- A request for the list of tools, under ID 1. -/
def list_tools : json :=
  json.object_of
    [("jsonrpc", .string "2.0"), ("id", .number_unsigned 1), ("method", .string "tools/list")]

/-- The same, decoded. -/
def list_request : request := { id := .uint64 1, method := "tools/list", params := none }

/-- The work made of it. -/
def list_work : work closure := ⟨0, .uint64 1, ⟨list_request, 0⟩⟩

/-- A server with nothing registered. -/
def fresh : server := .started {} [] [] []

/-- It has started, with room for one request in the queue. -/
def opened : world := ⟨fresh, .make 1, .idle, .outside, [], []⟩

/-- The reply to the greeting. -/
def welcome : response := { id := .uint64 0, result := some fresh.initialize_result, err := none }

/-- The handshake is over. -/
def handshaken : world :=
  { opened with
    server := { fresh with protocol_ := .ready }
    log :=
      [.received hello .await_initialize_, .passed ⟨.received hello, welcome.to_json, true⟩,
        .received ready_note .await_initialized] }

/-- The request is listed and about to be enqueued. -/
def listed : world :=
  { handshaken with
    server := { fresh with
      protocol_ := .ready, operations := [⟨.uint64 1, false⟩], inflight_ := [0] }
    reader := .enqueueing list_request 0
    log := handshaken.log ++ [.received list_tools .ready, .admitted 0] }

/-- The request is queued, and the reader is back. -/
def queued : world :=
  { listed with
    run := (runtime.make 1).enqueue (.uint64 1) (some ⟨list_request, 0⟩) |>.1
    reader := .idle
    log := listed.log ++ [.answered 0 none 0] }

/-- The worker runs `application()` for it. -/
def applying : world :=
  { queued with
    run :=
      ((queued.run.dequeue list_work
        ⟨1, [], some list_work, false, false⟩).invoke list_work)
    call := .applying
    log := queued.log ++ [.applied 0] }

/-- What a duplicate ID is answered with. -/
def diagnostic : response := failure .null .invalid_request "Duplicate in-flight request ID"

/-- The same ID comes in again: the session is closing, `stop()` has not begun. -/
def closing : world :=
  { applying with
    server := { applying.server with protocol_ := .closing }
    reader := .stopping 0 none
    stops := [.entered]
    log := applying.log ++
      [.received list_tools .ready, .passed ⟨.received list_tools, diagnostic.to_json, true⟩] }

variable {C : world → server_action → Prop}

/-- The handshake is a run: two texts are delivered and received. So it is under any condition
`C` that the calm steps meet, which is how the results on restricted runs use it. -/
theorem reaches_handshaken (hC : ∀ w a, calm_action a → C w a) :
    ((server_runs 1).restrict C).Reachable handshaken := by
  have h0 : ((server_runs 1).restrict C).Reachable opened :=
    .of_init ⟨by decide, {}, [], [], [], rfl⟩
  have h1 := h0.step ⟨hC _ (.deliver hello) trivial, world.Step.deliver hello rfl⟩
  have h2 : ((server_runs 1).restrict C).Reachable
      { opened with
        server := { fresh with protocol_ := .await_initialized }
        log := [.received hello .await_initialize_,
          .passed ⟨.received hello, welcome.to_json, true⟩] } :=
    h1.step ⟨hC _ (.receive calm) rfl, @world.Step.receive _ hello calm rfl⟩
  have h3 := h2.step ⟨hC _ (.deliver ready_note) trivial, world.Step.deliver ready_note rfl⟩
  exact h3.step ⟨hC _ (.receive calm) rfl, @world.Step.receive _ ready_note calm rfl⟩

theorem reaches_queued (hC : ∀ w a, calm_action a → C w a) :
    ((server_runs 1).restrict C).Reachable queued := by
  have h1 := (reaches_handshaken hC).step
    ⟨hC _ (.deliver list_tools) trivial, world.Step.deliver list_tools rfl⟩
  have h2 : ((server_runs 1).restrict C).Reachable listed :=
    h1.step ⟨hC _ (.receive calm) rfl, @world.Step.receive _ list_tools calm rfl⟩
  have h3 : ((server_runs 1).restrict C).Reachable { queued with reader := .leaving 0 false } :=
    h2.step ⟨hC _ .reader trivial, world.Step.enqueue (w := listed) rfl⟩
  exact h3.step ⟨hC _ .reader trivial, @world.Step.leave_shared _ 0 false rfl (by decide)⟩

theorem reaches_applying (hC : ∀ w a, calm_action a → C w a) :
    ((server_runs 1).restrict C).Reachable applying := by
  have h1 := (reaches_queued hC).step
    ⟨hC _ .worker trivial, @world.Step.dequeue _ list_work _ rfl rfl⟩
  have h2 := h1.step ⟨hC _ .worker trivial, @world.Step.invoke _ list_work rfl⟩
  exact h2.step ⟨hC _ .worker trivial, @world.Step.apply _ list_work rfl rfl rfl⟩

theorem reaches_closing (hC : ∀ w a, calm_action a → C w a) :
    ((server_runs 1).restrict C).Reachable closing := by
  have h1 := (reaches_applying hC).step
    ⟨hC _ (.deliver list_tools) trivial, world.Step.deliver list_tools rfl⟩
  exact h1.step ⟨hC _ (.receive calm) rfl, @world.Step.receive _ list_tools calm rfl⟩

end session

end SynapseMcp
