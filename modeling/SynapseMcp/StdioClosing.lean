/-
How a `stdio_transport` closes.

Of a world the closing reads the flags and, of each worker, only whether it is in its
loop and how far behind it. `close_view` is that much of a world, and `close_step` what a
step can do to it; everything here is an invariant of the view's own runs. The reader's
lines, the queue and what is written are left out: a step that changes only those is
`queue`.

Three invariants, each kept step by step. `latch`: the first `begin_close` decides, and
nothing that needs a close begun is reached without one. `threads`: a done flag says
that its thread does not run. `claim`: the close is claimed once, and its callback is
called by whoever claimed it.
-/
import SynapseMcp.Places
import SynapseMcp.StdioRuns

set_option autoImplicit false

namespace SynapseMcp

open Transition

/-! ## The view

The steps of a transport are many, and most of them have no part in the closing. The view
forgets the reader's bytes, the queue and the descriptors; of each worker it keeps whether it is
in its loop, waits, or is behind the loop, and there how far. A step of the view is stated for a
worker whichever it is, since the tail of both is the same code.

In the view the choices that depend on what was forgotten are free: a worker in its loop may
leave it with any reason, the queue may change in any way, a poll of a bounded wait may be its
last. So the view has more runs than the transport, and what holds in all of them does not
depend on those choices. -/

/-- How far a worker is. -/
inductive stage where
  | absent
  | waiting
  | looping
  | tail (at_ : tail_at)

/-- Everything from the first byte to the last is one stage. -/
def read_at.stage : read_at → stage
  | .absent => .absent
  | .waiting => .waiting
  | .tail at_ => .tail at_
  | _ => .looping

/-- The same for the writer. -/
def write_at.stage : write_at → stage
  | .absent => .absent
  | .waiting => .waiting
  | .tail at_ => .tail at_
  | _ => .looping

/-- The thread does not exist, or has ended. -/
def stage.over : stage → Bool
  | .absent => true
  | .tail .gone => true
  | _ => false

/-- A thread's stage once `start` has left its flag so. -/
def stage.made (done : Bool) : stage := if done then .absent else .waiting

/-- What the closing is about: the flags, the stages, who was asked to stop, and what has
happened. -/
structure close_view where
  shared : stdio_transport
  starting : start_at
  reader : stage
  writer : stage
  reader_stop_ : Bool
  requests : Nat
  waits : List wait_call
  admitted : List json
  begun : List close_reason
  closes : List close_reason
  returns : Nat

/-- The view of a world. -/
def stdio_world.view (w : stdio_world) : close_view :=
  ⟨w.shared, w.starting, w.reader.stage, w.writer.stage, w.reader_stop_, w.requests, w.waits,
    w.admitted, w.begun, w.closes, w.returns⟩

namespace close_view

/-- The reader or the writer. -/
def worker (v : close_view) (reading : Bool) : stage := if reading then v.reader else v.writer

/-- A worker goes on, behind its loop. -/
def at_tail (v : close_view) (reading : Bool) (at_ : tail_at) : close_view :=
  { v with
    reader := if reading then .tail at_ else v.reader
    writer := if reading then v.writer else .tail at_ }

/-- The section of `begin_close`, and a record of the reason if it took effect. -/
def begin_close (v : close_view) (reason : close_reason) : close_view :=
  { v with
    shared := (v.shared.begin_close reason).1
    begun := v.begun ++ if (v.shared.begin_close reason).2 then [reason] else [] }

/-- What a step can do to the view. -/
inductive step : close_view → close_view → Prop
  /-- The queue alone, if anything. -/
  | queue (v : close_view) (queue : List (List UInt8)) (bytes : Nat) :
      step v { v with shared := { v.shared with queue_ := queue, queued_bytes_ := bytes } }
  -- `send` admits under the lock, and only while `closing_` is not set
  | admits {v : close_view} (message : json) (queue : List (List UInt8)) (bytes : Nat)
      (hclosing : v.shared.closing_ = false) :
      step v
        { v with
          shared := { v.shared with queue_ := queue, queued_bytes_ := bytes }
          admitted := v.admitted ++ [message] }
  | start {v : close_view} (a : start_answers) (hfresh : v.starting = .fresh) :
      step v
        { v with
          shared := (v.shared.start a).1
          starting := (v.shared.start a).2.starting
          reader := .made (v.shared.start a).1.reader_done_
          writer := .made (v.shared.start a).1.writer_done_ }
  | start_again {v : close_view} (a : start_answers) (hstarting : v.starting ≠ .fresh) :
      step v { v with shared := (v.shared.start a).1 }
  -- a `start()` that made only one thread joins it before it returns the error
  | start_joins {v : close_view} (hstarting : v.starting = .joining)
      (hreader : v.reader.over = true) (hwriter : v.writer.over = true) :
      step v { v with starting := .failed }
  -- only the call whose `begin_close` takes effect goes on to `request_stop`
  | stop (v : close_view) :
      step v
        { v.begin_close .requested_stop with
          requests := v.requests +
            if (v.shared.begin_close .requested_stop).2 then 1 else 0 }
  | request_stop {v : close_view} (hrequests : 0 < v.requests) :
      step v { v with reader_stop_ := true, requests := v.requests - 1 }
  -- let through the gate; where the start failed, the writer ends at once
  | wake_reader {v : close_view} (hreader : v.reader = .waiting)
      (hstarted : v.shared.started_ = true) :
      step v { v with reader := .looping }
  | wake_writer {v : close_view} (hwriter : v.writer = .waiting)
      (hstarted : v.shared.started_ = true) :
      step v { v with writer := .looping }
  | wake_unstarted {v : close_view} (hwriter : v.writer = .waiting)
      (hstarted : v.shared.started_ = false) :
      step v { v with shared := v.shared.worker_done false, writer := .tail .gone }
  /-- A worker leaves its loop to close. -/
  | leaves {v : close_view} {reading : Bool} (reason : close_reason)
      (hloop : v.worker reading = .looping) :
      step v (v.at_tail reading (.closing reason))
  /-- It leaves because a close has begun. -/
  | reader_stops {v : close_view} (hloop : v.reader = .looping) (hstop : v.reader_stop_ = true) :
      step v (v.at_tail true .publishing)
  | writer_stops {v : close_view} (hloop : v.writer = .looping)
      (hclosing : v.shared.closing_ = true) :
      step v (v.at_tail false .publishing)
  -- the code behind the loop, the same for both workers
  | tail_begins {v : close_view} {reading : Bool} {reason : close_reason}
      (htail : v.worker reading = .tail (.closing reason)) :
      step v
        ((v.begin_close reason).at_tail reading (.begun (v.shared.begin_close reason).2))
  | tail_requests {v : close_view} {reading : Bool} (htail : v.worker reading = .tail .requesting) :
      step v ({ v with reader_stop_ := true }.at_tail reading .publishing)
  -- the first section of `publish_close`: one of the two workers claims the callback
  | tail_claims {v : close_view} {reading : Bool} (htail : v.worker reading = .tail .publishing) :
      step v
        ({ v with shared := v.shared.claim_close.1 }.at_tail reading
          (.publishes v.shared.claim_close.2))
  | tail_calls {v : close_view} {reading : Bool} {reason : close_reason}
      (htail : v.worker reading = .tail (.claimed reason)) :
      step v ({ v with closes := v.closes ++ [reason] }.at_tail reading .called)
  | tail_returns {v : close_view} {reading : Bool} (htail : v.worker reading = .tail .called) :
      step v ({ v with returns := v.returns + 1 }.at_tail reading .returned)
  -- and its second section, behind the callback
  | tail_publishes {v : close_view} {reading : Bool} (htail : v.worker reading = .tail .returned) :
      step v ({ v with shared := v.shared.close_published }.at_tail reading .finishing)
  | tail_ends {v : close_view} {reading : Bool} (htail : v.worker reading = .tail .finishing) :
      step v ({ v with shared := v.shared.worker_done reading }.at_tail reading .gone)
  /-- The calls of `wait`, each listed while it polls, and once it does not. -/
  | wait (v : close_view) (call : wait_call) (hcall : call = .refused ∨ ∃ b, call = .polling b) :
      step v { v with waits := v.waits ++ [call] }
  | poll_joined {v : close_view} (call : Nat) (hjoined : v.shared.joined = true) :
      step v { v with waits := v.waits.set call (.joining v.shared.started_) }
  -- a bounded wait gives up, and its caller is told so
  | poll_expires (v : close_view) (call : Nat) (running : Bool) :
      step v { v with waits := v.waits.set call (.returned false running) }
  | join {v : close_view} {call : Nat} {running : Bool}
      (hcall : v.waits[call]? = some (.joining running)) :
      step v { v with waits := v.waits.set call (.returned true running) }

end close_view

/-- The view's own runs, in which the environment decides on every choice. -/
def close_runs (o : stdio_options) : System close_view Unit where
  init v := v = (stdio_world.fresh o []).view
  step v _ v' := v.step v'

/-! ## A step, seen

Each step of the world is compared with the steps of the view: most leave the view as it is, or
are `queue`; the reader's last line can be two at once, a diagnostic that is refused and the
close for it. With this a fact that holds in all runs of the view holds in all runs of the
transport.

For a worker the view's rules come in two kinds, in the loop and behind it. In the loop a step
of the world is a stage that stays, or the one in which the worker leaves. Behind it each step
is a step of the view with the same name. -/

/-- The stage tells whether the reader is over. -/
@[simp] theorem read_at.stage_over (r : read_at) : r.stage.over = r.over := by
  cases r with
  | tail at_ => cases at_ <;> rfl
  | _ => rfl

@[simp] theorem write_at.stage_over (r : write_at) : r.stage.over = r.over := by
  cases r with
  | tail at_ => cases at_ <;> rfl
  | _ => rfl

/-- A reader that was just made waits for its start, or is over at once. -/
theorem read_at.stage_made (t : stdio_transport) :
    (read_at.made t).stage = stage.made t.reader_done_ := by
  unfold read_at.made stage.made
  split <;> rfl

theorem write_at.stage_made (t : stdio_transport) :
    (write_at.made t).stage = stage.made t.writer_done_ := by
  unfold write_at.made stage.made
  split <;> rfl

theorem read_at.stage_of_in_loop {r : read_at} (h : r.in_loop = true) : r.stage = .looping := by
  cases r <;> first | rfl | cases h

/-- The reader leaves a line for the rest of the loop, or to close. -/
theorem after_frame.reader_stage (after : after_frame) :
    after.reader.stage = .looping ∨ ∃ reason, after.reader.stage = .tail (.closing reason) := by
  cases after with
  | scan rest => exact .inl rfl
  | eof => exact .inr ⟨.eof, rfl⟩

/-- Behind a line the reader is in its loop, or on its way to close. -/
theorem frame_next.reader_stage (next : frame_next) (after : after_frame) :
    (next.reader after).stage = .looping ∨
      ∃ reason, (next.reader after).stage = .tail (.closing reason) := by
  cases next with
  | skip => exact after.reader_stage
  | close reason => exact .inr ⟨reason, rfl⟩
  | diagnose => exact .inl rfl
  | call value => exact .inl rfl
  | throw => exact .inr ⟨.io_error, rfl⟩

namespace stdio_world

/-- A worker behind its loop is seen there. -/
theorem view_worker {w : stdio_world} {reading : Bool} {at_ : tail_at}
    (h : w.tail reading = some at_) : w.view.worker reading = .tail at_ := by
  cases reading with
  | true => exact congrArg read_at.stage (reader_of_tail h)
  | false => exact congrArg write_at.stage (writer_of_tail h)

/-- And moves there in the view as it does in the world. -/
theorem view_at_tail (w : stdio_world) (reading : Bool) (at_ : tail_at) :
    (w.at_tail reading at_).view = w.view.at_tail reading at_ := by
  cases reading <;> rfl

variable {o : stdio_options}

theorem view_run_of_step {v v' : close_view} (h : v.step v') : (close_runs o).Run v v' :=
  .single ⟨(), h⟩

/-- A step of the reader in its loop, after which it is in the loop or about to close. -/
theorem run_of_reader {w w' : stdio_world} (hloop : w.reader.stage = .looping)
    (hreader : w'.reader.stage = .looping ∨
      ∃ reason, w'.reader.stage = .tail (.closing reason))
    (hrest : w'.view = { w.view with reader := w'.reader.stage }) :
    (close_runs o).Run w.view w'.view := by
  rcases hreader with hstay | ⟨reason, hleave⟩
  · rw [hrest, hstay, ← hloop]
    exact .refl
  · rw [hrest, hleave]
    exact view_run_of_step (@close_view.step.leaves w.view true reason hloop)

/-- A step of the writer in its loop, with what it does to the queue. -/
theorem run_of_writer {w w' : stdio_world} (queue : List (List UInt8)) (bytes : Nat)
    (hloop : w.writer.stage = .looping)
    (hrest : w'.view =
      { w.view with
        shared := { w.shared with queue_ := queue, queued_bytes_ := bytes }
        writer := .looping }) :
    (close_runs o).Run w.view w'.view := by
  have hstage : w.view.writer = .looping := hloop
  rw [hrest, ← hstage]
  exact view_run_of_step (.queue w.view queue bytes)

/-- A step of the world is a run of the view: no step at all, one, or the two of a
diagnostic that is sent for the last line. -/
theorem Step.view_run {lib : json_library} {w w' : stdio_world} {a : stdio_action}
    (h : Step lib w a w') : (close_runs o).Run w.view w'.view := by
  cases h with
  | start a hfresh =>
      have hstep := close_view.step.start (v := w.view) a hfresh
      rw [← read_at.stage_made, ← write_at.stage_made] at hstep
      exact view_run_of_step hstep
  | start_again a hstarting => exact view_run_of_step (.start_again (v := w.view) a hstarting)
  | start_joins hstarting hreader hwriter =>
      refine view_run_of_step (.start_joins (v := w.view) hstarting ?_ ?_)
      · rw [← hreader]
        exact w.reader.stage_over
      · rw [← hwriter]
        exact w.writer.stage_over
  | send message m hm hsend =>
      obtain ⟨-, hclosing, -, rfl⟩ := stdio_transport.send_ok hsend
      exact view_run_of_step (.admits (v := w.view) message _ _ hclosing)
  | send_fails => exact .refl
  | stop => exact view_run_of_step (.stop w.view)
  | request_stop hrequests => exact view_run_of_step (.request_stop (v := w.view) hrequests)
  | wake_reader hreader hreleased hstarted =>
      exact view_run_of_step (.wake_reader (v := w.view) (by rw [view, hreader]; rfl) hstarted)
  | wake_writer hwriter hreleased hstarted =>
      exact view_run_of_step (.wake_writer (v := w.view) (by rw [view, hwriter]; rfl) hstarted)
  | wake_unstarted hwriter hreleased hstarted =>
      exact view_run_of_step (.wake_unstarted (v := w.view) (by rw [view, hwriter]; rfl) hstarted)
  -- the reader's loop
  | head_stops hreader hstop =>
      exact view_run_of_step (.reader_stops (v := w.view) (by rw [view, hreader]; rfl) hstop)
  | head_reads hreader hstop => exact run_of_reader (by rw [hreader]; rfl) (.inl rfl) rfl
  | read count hreader => exact run_of_reader (by rw [hreader]; rfl) (.inl rfl) rfl
  | eof_in_line hreader => exact run_of_reader (by rw [hreader]; rfl) (.inl rfl) rfl
  | eof hreader => exact run_of_reader (by rw [hreader]; rfl) (.inr ⟨_, rfl⟩) rfl
  | read_fails hreader => exact run_of_reader (by rw [hreader]; rfl) (.inl rfl) rfl
  | failed_stops hreader hstop =>
      exact view_run_of_step (.reader_stops (v := w.view) (by rw [view, hreader]; rfl) hstop)
  | failed_closes hreader => exact run_of_reader (by rw [hreader]; rfl) (.inr ⟨_, rfl⟩) rfl
  | read_throws hreader =>
      exact run_of_reader (read_at.stage_of_in_loop hreader) (.inr ⟨_, rfl⟩) rfl
  | scan_done hreader => exact run_of_reader (by rw [hreader]; rfl) (.inl rfl) rfl
  | scan_stops hreader hstop =>
      exact view_run_of_step (.reader_stops (v := w.view) (by rw [view, hreader]; rfl) hstop)
  | scan_newline hreader => exact run_of_reader (by rw [hreader]; rfl) (.inl rfl) rfl
  | scan_over hreader => exact run_of_reader (by rw [hreader]; rfl) (.inr ⟨_, rfl⟩) rfl
  | scan_byte hreader => exact run_of_reader (by rw [hreader]; rfl) (.inl rfl) rfl
  | frame hreader =>
      exact run_of_reader (by rw [hreader]; rfl) (frame_next.reader_stage _ _) rfl
  | @diagnose_sent t after m hreader hm hsend =>
      -- the frame is admitted, and the reader leaves the line
      obtain ⟨-, hclosing, -, rfl⟩ := stdio_transport.send_ok hsend
      have hadmits := view_run_of_step (o := o) (.admits (v := w.view) parse_error_frame
        (w.shared.queue_ ++ [m.encoding ++ [newline]])
        (w.shared.queued_bytes_ + (m.encoding.length + 1)) hclosing)
      refine hadmits.trans ?_
      exact run_of_reader
        (w := { w with
          shared := { w.shared with
            queue_ := w.shared.queue_ ++ [m.encoding ++ [newline]]
            queued_bytes_ := w.shared.queued_bytes_ + (m.encoding.length + 1) }
          admitted := w.admitted ++ [parse_error_frame] })
        (by rw [hreader]; rfl) after.reader_stage rfl
  | diagnose_fails m hreader => exact run_of_reader (by rw [hreader]; rfl) (.inr ⟨_, rfl⟩) rfl
  | call_message hreader => exact run_of_reader (by rw [hreader]; rfl) (.inl rfl) rfl
  | message_returned hreader =>
      exact run_of_reader (by rw [hreader]; rfl) (after_frame.reader_stage _) rfl
  | message_threw hreader => exact run_of_reader (by rw [hreader]; rfl) (.inr ⟨_, rfl⟩) rfl
  -- the writer's
  | write_drained hwriter hclosing hqueue =>
      exact view_run_of_step (.writer_stops (v := w.view) (by rw [view, hwriter]; rfl) hclosing)
  | write_expires hwriter hclosing hqueue =>
      exact view_run_of_step (.writer_stops (v := w.view) (by rw [view, hwriter]; rfl) hclosing)
  | write_takes hwriter hqueue =>
      exact run_of_writer w.shared.queue_.tail w.shared.queued_bytes_ (by rw [hwriter]; rfl) rfl
  | write count hwriter =>
      exact run_of_writer w.shared.queue_ w.shared.queued_bytes_ (by rw [hwriter]; rfl) rfl
  | write_fails hwriter =>
      exact view_run_of_step (@close_view.step.leaves w.view false .io_error
        (by rw [close_view.worker, view, hwriter]; rfl))
  | @write_done bytes offset hwriter =>
      exact run_of_writer w.shared.queue_ (w.shared.queued_bytes_ - bytes.length)
        (by rw [hwriter]; rfl) rfl
  -- what is left of a worker
  | tail_begins htail =>
      rw [view_at_tail]
      exact view_run_of_step (.tail_begins (view_worker htail))
  | tail_requests htail =>
      rw [view_at_tail]
      exact view_run_of_step (.tail_requests (view_worker htail))
  | tail_claims htail =>
      rw [view_at_tail]
      exact view_run_of_step (.tail_claims (view_worker htail))
  | tail_calls htail =>
      rw [view_at_tail]
      exact view_run_of_step (.tail_calls (view_worker htail))
  | tail_returns htail =>
      rw [view_at_tail]
      exact view_run_of_step (.tail_returns (view_worker htail))
  | tail_publishes htail =>
      rw [view_at_tail]
      exact view_run_of_step (.tail_publishes (view_worker htail))
  | tail_ends htail =>
      rw [view_at_tail]
      exact view_run_of_step (.tail_ends (view_worker htail))
  | wait => exact view_run_of_step (.wait w.view _ (.inr ⟨_, rfl⟩))
  | wait_inside => exact view_run_of_step (.wait w.view _ (.inl rfl))
  | poll_joined hcall hjoined => exact view_run_of_step (.poll_joined (v := w.view) _ hjoined)
  | poll_expires hcall hjoined => exact view_run_of_step (.poll_expires w.view _ _)
  | join hcall hreader hwriter => exact view_run_of_step (.join (v := w.view) hcall)

end stdio_world

/-- The view of a run is a run of the view. -/
theorem stdio_view_simulation (lib : json_library) (o : stdio_options) (stream : List UInt8) :
    System.Simulation (stdio_runs lib o stream) (close_runs o) stdio_world.view where
  init := by
    rintro w rfl
    rfl
  step := fun _ _ _ _ _ hstep => hstep.view_run

namespace close_view

@[simp] theorem worker_at_tail_self (v : close_view) (reading : Bool) (at_ : tail_at) :
    (v.at_tail reading at_).worker reading = .tail at_ := by
  cases reading <;> rfl

theorem worker_at_tail_other (v : close_view) {reading side : Bool} (at_ : tail_at)
    (h : side ≠ reading) : (v.at_tail reading at_).worker side = v.worker side := by
  cases reading <;> cases side <;> first | rfl | exact absurd rfl h

/-- What holds of where the worker moved to and of both workers before. -/
theorem worker_at_tail_forall {v : close_view} {reading : Bool} {at_ : tail_at}
    {P : stage → Prop} (hself : P (.tail at_)) (hworkers : ∀ side, P (v.worker side))
    (side : Bool) : P ((v.at_tail reading at_).worker side) := by
  by_cases heq : side = reading
  · subst heq
    rw [worker_at_tail_self]
    exact hself
  · rw [worker_at_tail_other v at_ heq]
    exact hworkers side

/-- A thread that has just been made is not behind its loop. -/
theorem worker_made {v : close_view} (reader writer : Bool) (hreader : v.reader = .made reader)
    (hwriter : v.writer = .made writer) (reading : Bool) (at_ : tail_at) :
    v.worker reading ≠ .tail at_ := by
  cases reading with
  | true =>
      rw [worker, if_pos rfl, hreader]
      cases reader <;> nofun
  | false =>
      rw [worker, if_neg Bool.false_ne_true, hwriter]
      cases writer <;> nofun

@[simp] theorem at_tail_shared (v : close_view) (reading : Bool) (at_ : tail_at) :
    (v.at_tail reading at_).shared = v.shared := rfl

/-! ## The first close decides

`begin_close` is called by whoever finds a reason: a `stop()`, the reader at the end of its
input, a writer whose write failed. Under the mutex it looks at `closing_` and does nothing if
it is set, so there is one call that takes effect, and its reason is the reason. The invariant
says this in terms of the flags, with what is done only behind a close that has begun.

Two things are easily overlooked. A `stop()` may come before the transport was started; it
closes the transport for good, so that `start()` then refuses. And a start that cannot make a
thread closes the transport without a reason, as nobody called `begin_close`; it is the one way
to a closed transport with no reason to report. -/

/-- The worker is behind its `begin_close`, if it made one. -/
def past_begin : tail_at → Bool
  | .closing _ => false
  | _ => true

/-- At most one close has begun; its reason is the one that is kept; and nothing that needs a
close begun is there without one. -/
structure latch (v : close_view) : Prop where
  once : v.begun.length ≤ 1
  reason : v.shared.reason_ = v.begun.head?
  begun : v.begun ≠ [] → v.shared.closing_ = true
  consumes : v.shared.closing_ = true → v.shared.consumed_ = true
  stops : v.reader_stop_ = true ∨ 0 < v.requests → v.shared.closing_ = true
  consumed : v.starting ≠ .fresh → v.shared.consumed_ = true
  started : v.starting = .started ↔ v.shared.started_ = true
  /-- Only a start that failed closes without a reason. -/
  reasoned : v.shared.started_ = true → v.shared.closing_ = true → v.begun ≠ []
  /-- A worker can be gone without it only because the start failed. -/
  behind : ∀ reading at_, v.worker reading = .tail at_ → past_begin at_ = true →
    (at_ = .gone → v.shared.started_ = true) → v.shared.closing_ = true

/-! ### How a step keeps it

Most steps leave the flags and the positions `latch` is about alone. The others are a start, a
close that begins, and a worker that moves on behind its loop, with one lemma for each.

A worker behind its loop has run `begin_close`, so the transport is closing there and stays so.
This direction is what later lemmas use. Read from the flag it says that a transport which is
not closing has no worker behind its `begin_close`. -/

/-- Steps that leave the latch's fields alone keep it, if they put no worker past its
`begin_close` early. -/
theorem latch.same {v v' : close_view} (h : v.latch) (hbegun : v'.begun = v.begun)
    (hclosing : v'.shared.closing_ = v.shared.closing_)
    (hreason : v'.shared.reason_ = v.shared.reason_)
    (hconsumed : v'.shared.consumed_ = v.shared.consumed_)
    (hstarted : v'.shared.started_ = v.shared.started_) (hstarting : v'.starting = v.starting)
    (hstops : v'.reader_stop_ = true ∨ 0 < v'.requests → v.shared.closing_ = true)
    (hbehind : ∀ reading at_, v'.worker reading = .tail at_ → past_begin at_ = true →
      (at_ = .gone → v.shared.started_ = true) → v.shared.closing_ = true) : v'.latch where
  once := by rw [hbegun]; exact h.once
  reason := by rw [hreason, hbegun]; exact h.reason
  begun := by rw [hbegun, hclosing]; exact h.begun
  consumes := by rw [hclosing, hconsumed]; exact h.consumes
  stops := by rw [hclosing]; exact hstops
  consumed := by rw [hstarting, hconsumed]; exact h.consumed
  started := by rw [hstarting, hstarted]; exact h.started
  reasoned := by rw [hstarted, hclosing, hbegun]; exact h.reasoned
  behind := by rw [hstarted, hclosing]; exact hbehind

/-- So do those of a worker that is past it already. -/
theorem latch.at_tail {v : close_view} (h : v.latch) {reading : Bool} {at_ : tail_at}
    (hat : past_begin at_ = true → v.shared.closing_ = true) :
    (v.at_tail reading at_).latch := by
  refine h.same rfl rfl rfl rfl rfl rfl h.stops ?_
  intro side at_' hside hpast hgone
  by_cases heq : side = reading
  · subst heq
    rw [worker_at_tail_self, stage.tail.injEq] at hside
    subst hside
    exact hat hpast
  · rw [worker_at_tail_other v at_ heq] at hside
    exact h.behind side at_' hside hpast hgone

/-- The section of `begin_close`, whoever runs it: behind it the transport is closing, and the
first one to run it has given the reason. -/
theorem latch.begin_close {v : close_view} (h : v.latch) (reason : close_reason) :
    (v.begin_close reason).latch ∧ (v.begin_close reason).shared.closing_ = true := by
  unfold close_view.begin_close
  rcases v.shared.begin_close_cases reason with ⟨hclosing, heq⟩ | ⟨hclosing, heq⟩
  · rw [heq, if_neg Bool.false_ne_true, List.append_nil]
    have hconsumed := h.consumes hclosing
    exact ⟨h.same rfl rfl rfl hconsumed.symm rfl rfl h.stops h.behind, hclosing⟩
  · rw [heq, if_pos rfl]
    -- nothing has begun yet, so this reason is the first
    have hempty : v.begun = [] := by
      by_contra hne
      rw [h.begun hne] at hclosing
      cases hclosing
    refine ⟨⟨?_, ?_, fun _ => rfl, fun _ => rfl, fun _ => rfl, fun _ => rfl, h.started, ?_,
      fun _ _ _ _ _ => rfl⟩, rfl⟩
    · simp [hempty]
    · simp [hempty]
    · simp

/-- The first call of `start`, from a transport nothing runs for. -/
theorem latch.start {v : close_view} (h : v.latch) (a : start_answers)
    (hfresh : v.starting = .fresh) :
    ({ v with
        shared := (v.shared.start a).1
        starting := (v.shared.start a).2.starting
        reader := .made (v.shared.start a).1.reader_done_
        writer := .made (v.shared.start a).1.writer_done_ } : close_view).latch := by
  have hunstarted : v.shared.started_ ≠ true := by
    intro hstarted
    rw [h.started.mpr hstarted] at hfresh
    cases hfresh
  -- a transport that was consumed refuses, and stays as it was
  rcases v.shared.start_cases a with ⟨hconsumed, err, heq⟩ | ⟨hconsumed, hmade⟩
  · rw [heq]
    exact ⟨h.once, h.reason, h.begun, h.consumes, h.stops, fun _ => hconsumed,
      ⟨nofun, fun hs => absurd hs hunstarted⟩, h.reasoned,
      fun _ _ hat => absurd hat (worker_made _ _ rfl rfl _ _)⟩
  · have hclosing : v.shared.closing_ ≠ true := by
      intro hclosing
      rw [h.consumes hclosing] at hconsumed
      cases hconsumed
    -- the platform refused, one of the two threads could not be made, or both run
    rcases hmade with ⟨err, heq⟩ | heq | heq | heq <;> rw [heq]
    · exact ⟨h.once, h.reason, h.begun, fun _ => rfl, h.stops, fun _ => rfl,
        ⟨nofun, fun hs => absurd hs hunstarted⟩, h.reasoned,
        fun _ _ hat => absurd hat (worker_made _ _ rfl rfl _ _)⟩
    · exact ⟨h.once, h.reason, fun _ => rfl, fun _ => rfl, fun _ => rfl, fun _ => rfl,
        ⟨nofun, fun hs => absurd hs hunstarted⟩, fun hs => absurd hs hunstarted,
        fun _ _ _ _ _ => rfl⟩
    · exact ⟨h.once, h.reason, fun _ => rfl, fun _ => rfl, fun _ => rfl, fun _ => rfl,
        ⟨nofun, fun hs => absurd hs hunstarted⟩, fun hs => absurd hs hunstarted,
        fun _ _ _ _ _ => rfl⟩
    · exact ⟨h.once, h.reason, h.begun, fun _ => rfl, h.stops, fun _ => rfl,
        ⟨fun _ => rfl, fun _ => rfl⟩, fun _ hc => absurd hc hclosing,
        fun _ _ hat => absurd hat (worker_made false false rfl rfl _ _)⟩

/-- The steps are of three kinds: the fields are left alone, a worker moves behind its loop, or
`begin_close` or `start` runs. -/
theorem latch.step {v v' : close_view} (h : v.latch) (hstep : v.step v') : v'.latch := by
  cases hstep with
  | queue => exact h.same rfl rfl rfl rfl rfl rfl h.stops h.behind
  | admits => exact h.same rfl rfl rfl rfl rfl rfl h.stops h.behind
  | start a hfresh => exact h.start a hfresh
  | start_again a hstarting =>
      rw [stdio_transport.start_consumed a (h.consumed hstarting)]
      exact h
  | start_joins hstarting hreader hwriter =>
      have hunstarted : v.shared.started_ ≠ true := by
        intro hstarted
        rw [h.started.mpr hstarted] at hstarting
        cases hstarting
      refine { h with consumed := fun _ => ?_, started := ?_ }
      · exact h.consumed (by rw [hstarting]; decide)
      · exact ⟨fun hfailed => (by cases hfailed), fun hstarted => absurd hstarted hunstarted⟩
  | stop =>
      obtain ⟨hlatch, hclosing⟩ := h.begin_close .requested_stop
      exact hlatch.same rfl rfl rfl rfl rfl rfl (fun _ => hclosing) hlatch.behind
  | request_stop hrequests =>
      exact h.same rfl rfl rfl rfl rfl rfl (fun _ => h.stops (.inr hrequests)) h.behind
  | wake_reader hreader hstarted =>
      refine h.same rfl rfl rfl rfl rfl rfl h.stops ?_
      intro side at_ hside
      cases side with
      | true => cases hside
      | false => exact h.behind false at_ hside
  | wake_writer hwriter hstarted =>
      refine h.same rfl rfl rfl rfl rfl rfl h.stops ?_
      intro side at_ hside
      cases side with
      | true => exact h.behind true at_ hside
      | false => cases hside
  | wake_unstarted hwriter hunstarted =>
      refine h.same rfl rfl rfl rfl rfl rfl h.stops ?_
      intro side at_ hside hpast hgone
      cases side with
      | true => exact h.behind true at_ hside hpast hgone
      | false =>
          -- a writer that is gone here would have run for a transport that started
          cases hside
          rw [hgone rfl] at hunstarted
          cases hunstarted
  | leaves reason hloop => exact h.at_tail nofun
  | reader_stops hloop hstop => exact h.at_tail fun _ => h.stops (.inl hstop)
  | writer_stops hloop hclosing => exact h.at_tail fun _ => hclosing
  | tail_begins htail =>
      obtain ⟨hlatch, hclosing⟩ := h.begin_close _
      exact hlatch.at_tail fun _ => hclosing
  | tail_requests htail =>
      -- a worker past `begin_close` finds the transport closing
      have hclosing := h.behind _ _ htail rfl nofun
      have hlatch : ({ v with reader_stop_ := true } : close_view).latch :=
        h.same rfl rfl rfl rfl rfl rfl (fun _ => hclosing) h.behind
      exact hlatch.at_tail fun _ => hclosing
  | tail_claims htail =>
      have hclosing := h.behind _ _ htail rfl nofun
      have hlatch : ({ v with shared := v.shared.claim_close.1 } : close_view).latch := by
        rcases v.shared.claim_close_cases with ⟨heq, -⟩ | ⟨-, -, reason, -, heq⟩ <;> rw [heq]
        · exact h
        · exact h.same rfl rfl rfl rfl rfl rfl h.stops h.behind
      refine hlatch.at_tail fun _ => ?_
      rw [v.shared.claim_close_closing]
      exact hclosing
  | @tail_calls reading reason htail =>
      have hlatch : ({ v with closes := v.closes ++ [reason] } : close_view).latch :=
        h.same rfl rfl rfl rfl rfl rfl h.stops h.behind
      exact hlatch.at_tail fun _ => h.behind _ _ htail rfl nofun
  | tail_returns htail =>
      have hlatch : ({ v with returns := v.returns + 1 } : close_view).latch :=
        h.same rfl rfl rfl rfl rfl rfl h.stops h.behind
      exact hlatch.at_tail fun _ => h.behind _ _ htail rfl nofun
  | tail_publishes htail =>
      have hlatch : ({ v with shared := v.shared.close_published } : close_view).latch :=
        h.same rfl rfl rfl rfl rfl rfl h.stops h.behind
      exact hlatch.at_tail fun _ => h.behind _ _ htail rfl nofun
  | @tail_ends reading htail =>
      have hlatch : ({ v with shared := v.shared.worker_done reading } : close_view).latch := by
        cases reading <;> exact h.same rfl rfl rfl rfl rfl rfl h.stops h.behind
      refine hlatch.at_tail fun _ => ?_
      cases reading <;> exact h.behind _ _ htail rfl nofun
  | wait => exact h.same rfl rfl rfl rfl rfl rfl h.stops h.behind
  | poll_joined => exact h.same rfl rfl rfl rfl rfl rfl h.stops h.behind
  | poll_expires => exact h.same rfl rfl rfl rfl rfl rfl h.stops h.behind
  | join => exact h.same rfl rfl rfl rfl rfl rfl h.stops h.behind

/-! ## The done flags

`reader_done_` and `writer_done_` are what a wait looks at, so they have to say the truth: a
flag is cleared before its thread is made, and set by the thread as the last thing it does. A
start that cannot make its second thread joins the first, which finds the start failed and goes
straight to its end.

The invariant ties each flag to its thread and says which threads there are for each outcome of
`start()`. The wait of another thread looks at the flags only, so what it concludes about the
threads is by this invariant. -/

/-- What a worker can be at when the transport has not started. -/
def unstarted : stage → Bool
  | .absent => true
  | .waiting => true
  | .tail .gone => true
  | _ => false

/-- Each flag says whether its thread is over, and which threads there are depends on how far
`start` is. -/
structure threads (v : close_view) : Prop where
  fresh : v.starting = .fresh → v.reader = .absent ∧ v.writer = .absent
  reader_done : v.shared.reader_done_ = v.reader.over
  writer_done : v.shared.writer_done_ = v.writer.over
  reader_unstarted : v.shared.started_ = false → v.reader = .absent
  writer_unstarted : v.shared.started_ = false → unstarted v.writer = true
  made : v.shared.started_ = true → v.reader ≠ .absent ∧ v.writer ≠ .absent
  failed : v.starting = .failed → v.writer.over = true

/-- A worker in its loop, or on its way out, works for a transport that started. -/
theorem threads.running {v : close_view} (h : v.threads) {reading : Bool}
    (hworker : unstarted (v.worker reading) = false) : v.shared.started_ = true := by
  by_contra hstarted
  rw [Bool.not_eq_true] at hstarted
  cases reading with
  | true =>
      rw [worker, if_pos rfl, h.reader_unstarted hstarted] at hworker
      cases hworker
  | false =>
      rw [worker, if_neg Bool.false_ne_true, h.writer_unstarted hstarted] at hworker
      cases hworker

/-- A worker that runs moves on, its flag down: until it is gone it has not reported itself
done, and the transport is started for good. -/
theorem threads.at_tail {v : close_view} (h : v.threads)
    (hl : v.shared.started_ = true → v.starting = .started) {reading : Bool} {at_ : tail_at}
    (hworker : unstarted (v.worker reading) = false) (hgone : at_ ≠ .gone) :
    (v.at_tail reading at_).threads := by
  have hstarted := h.running hworker
  have hstarting := hl hstarted
  have hover : (stage.tail at_).over = false := by
    cases at_ <;> first | rfl | exact absurd rfl hgone
  have hdown : (v.worker reading).over = false := by
    cases hs : v.worker reading with
    | tail at_ => cases at_ <;> first | rfl | (rw [hs] at hworker; cases hworker)
    | _ => first | rfl | (rw [hs] at hworker; cases hworker)
  refine ⟨fun hfresh => ?_, ?_, ?_, fun hs => ?_, fun hs => ?_, fun _ => ?_, fun hfailed => ?_⟩
  · cases hstarting.symm.trans hfresh
  · cases reading with
    | true => exact h.reader_done.trans (hdown.trans hover.symm)
    | false => exact h.reader_done
  · cases reading with
    | true => exact h.writer_done
    | false => exact h.writer_done.trans (hdown.trans hover.symm)
  · cases hstarted.symm.trans hs
  · cases hstarted.symm.trans hs
  · obtain ⟨hr, hw⟩ := h.made hstarted
    cases reading with
    | true => exact ⟨nofun, hw⟩
    | false => exact ⟨hr, nofun⟩
  · cases hstarting.symm.trans hfailed

/-- The first start of a transport, for which no thread runs yet. In each of its outcomes the
done flags say which threads it has made. -/
theorem threads.start {v : close_view} (h : v.threads) (hl : v.latch) (a : start_answers)
    (hfresh : v.starting = .fresh) :
    ({ v with
        shared := (v.shared.start a).1
        starting := (v.shared.start a).2.starting
        reader := .made (v.shared.start a).1.reader_done_
        writer := .made (v.shared.start a).1.writer_done_ } : close_view).threads := by
  obtain ⟨hreader, hwriter⟩ := h.fresh hfresh
  have hreader_done : v.shared.reader_done_ = true := by rw [h.reader_done, hreader]; rfl
  have hwriter_done : v.shared.writer_done_ = true := by rw [h.writer_done, hwriter]; rfl
  have hunstarted : v.shared.started_ ≠ true := by
    intro hstarted
    rw [hl.started.mpr hstarted] at hfresh
    cases hfresh
  rcases v.shared.start_cases a with ⟨-, err, heq⟩ | ⟨-, ⟨err, heq⟩ | heq | heq | heq⟩ <;> rw [heq]
  · refine ⟨nofun, ?_, ?_, fun _ => ?_, fun _ => ?_, fun hs => absurd hs hunstarted,
      fun _ => ?_⟩ <;>
      simp [hreader_done, hwriter_done, stage.made, stage.over, unstarted]
  · refine ⟨nofun, ?_, ?_, fun _ => ?_, fun _ => ?_, fun hs => absurd hs hunstarted,
      fun _ => ?_⟩ <;>
      simp [hreader_done, hwriter_done, stage.made, stage.over, unstarted]
  · refine ⟨nofun, ?_, rfl, fun _ => ?_, fun _ => rfl, fun hs => absurd hs hunstarted, nofun⟩ <;>
      simp [hreader_done, stage.made, stage.over]
  · exact ⟨nofun, rfl, rfl, fun _ => rfl, fun _ => rfl, fun hs => absurd hs hunstarted, nofun⟩
  · exact ⟨nofun, rfl, rfl, nofun, nofun, fun _ => ⟨nofun, nofun⟩, nofun⟩

/-- What touches neither thread, nor `started_`, nor a done flag. -/
theorem threads.same {v v' : close_view} (h : v.threads) (hreader : v'.reader = v.reader)
    (hwriter : v'.writer = v.writer) (hstarting : v'.starting = v.starting)
    (hstarted : v'.shared.started_ = v.shared.started_)
    (hreader_done : v'.shared.reader_done_ = v.shared.reader_done_)
    (hwriter_done : v'.shared.writer_done_ = v.shared.writer_done_) : v'.threads where
  fresh := by rw [hstarting, hreader, hwriter]; exact h.fresh
  reader_done := by rw [hreader_done, hreader]; exact h.reader_done
  writer_done := by rw [hwriter_done, hwriter]; exact h.writer_done
  reader_unstarted := by rw [hstarted, hreader]; exact h.reader_unstarted
  writer_unstarted := by rw [hstarted, hwriter]; exact h.writer_unstarted
  made := by rw [hstarted, hreader, hwriter]; exact h.made
  failed := by rw [hstarting, hwriter]; exact h.failed

/-- A close moves no thread. -/
theorem threads.begin_close {v : close_view} (h : v.threads) (reason : close_reason) :
    (v.begin_close reason).threads := by
  unfold close_view.begin_close
  rcases v.shared.begin_close_cases reason with ⟨-, heq⟩ | ⟨-, heq⟩ <;> rw [heq] <;>
    exact h.same rfl rfl rfl rfl rfl rfl

/-- Each step moves one worker, with its flag, or `start` makes or takes back both. -/
theorem threads.step {v v' : close_view} (h : v.threads) (hl : v.latch) (hstep : v.step v') :
    v'.threads := by
  cases hstep with
  | queue => exact h.same rfl rfl rfl rfl rfl rfl
  | admits => exact h.same rfl rfl rfl rfl rfl rfl
  | start a hfresh => exact h.start hl a hfresh
  | start_again a hstarting =>
      rw [stdio_transport.start_consumed a (hl.consumed hstarting)]
      exact h
  | start_joins hstarting hreader hwriter =>
      exact { h with fresh := nofun, failed := fun _ => hwriter }
  | stop => exact (h.begin_close .requested_stop).same rfl rfl rfl rfl rfl rfl
  | request_stop => exact h.same rfl rfl rfl rfl rfl rfl
  | wake_reader hreader hstarted =>
      have hstarting := hl.started.mpr hstarted
      refine ⟨fun hfresh => ?_, ?_, h.writer_done, fun hs => ?_, h.writer_unstarted,
        fun hs => ⟨nofun, (h.made hs).2⟩, h.failed⟩
      · cases hstarting.symm.trans hfresh
      · rw [h.reader_done, hreader]
        rfl
      · cases hstarted.symm.trans hs
  | wake_writer hwriter hstarted =>
      have hstarting := hl.started.mpr hstarted
      refine ⟨fun hfresh => ?_, h.reader_done, ?_, h.reader_unstarted, fun hs => ?_,
        fun hs => ⟨(h.made hs).1, nofun⟩, fun hfailed => ?_⟩
      · cases hstarting.symm.trans hfresh
      · rw [h.writer_done, hwriter]
        rfl
      · cases hstarted.symm.trans hs
      · cases hstarting.symm.trans hfailed
  | wake_unstarted hwriter hunstarted =>
      refine ⟨fun hfresh => ?_, h.reader_done, rfl, h.reader_unstarted, fun _ => rfl,
        fun hs => ?_, fun _ => rfl⟩
      · cases hwriter.symm.trans (h.fresh hfresh).2
      · cases hunstarted.symm.trans hs
  | leaves reason hloop => exact h.at_tail hl.started.mpr (by rw [hloop]; rfl) nofun
  | reader_stops hloop hstop =>
      exact h.at_tail hl.started.mpr (by rw [worker, if_pos rfl, hloop]; rfl) nofun
  | writer_stops hloop hclosing =>
      exact h.at_tail hl.started.mpr (by rw [worker, if_neg Bool.false_ne_true, hloop]; rfl) nofun
  | tail_begins htail =>
      refine (h.begin_close _).at_tail (hl.begin_close _).1.started.mpr ?_ ?_
      · exact (congrArg unstarted htail).trans rfl
      · rcases v.shared.begin_close_cases _ with ⟨-, heq⟩ | ⟨-, heq⟩ <;> rw [heq] <;> nofun
  | tail_requests htail =>
      have hv : ({ v with reader_stop_ := true } : close_view).threads :=
        h.same rfl rfl rfl rfl rfl rfl
      exact hv.at_tail hl.started.mpr (congrArg unstarted htail) nofun
  | tail_claims htail =>
      have hv : ({ v with shared := v.shared.claim_close.1 } : close_view).threads := by
        rcases v.shared.claim_close_cases with ⟨heq, -⟩ | ⟨-, -, reason, -, heq⟩ <;> rw [heq] <;>
          exact h.same rfl rfl rfl rfl rfl rfl
      refine hv.at_tail ?_ (congrArg unstarted htail) ?_
      · rw [v.shared.claim_close_started]
        exact hl.started.mpr
      · cases v.shared.claim_close.2 <;> nofun
  | @tail_calls reading reason htail =>
      have hv : ({ v with closes := v.closes ++ [reason] } : close_view).threads :=
        h.same rfl rfl rfl rfl rfl rfl
      exact hv.at_tail hl.started.mpr (congrArg unstarted htail) nofun
  | tail_returns htail =>
      have hv : ({ v with returns := v.returns + 1 } : close_view).threads :=
        h.same rfl rfl rfl rfl rfl rfl
      exact hv.at_tail hl.started.mpr (congrArg unstarted htail) nofun
  | tail_publishes htail =>
      have hv : ({ v with shared := v.shared.close_published } : close_view).threads :=
        h.same rfl rfl rfl rfl rfl rfl
      exact hv.at_tail hl.started.mpr (congrArg unstarted htail) nofun
  | @tail_ends reading htail =>
      -- the flag of this side is set as its worker leaves, the other's is left alone
      have hstarted := h.running (congrArg unstarted htail)
      have hstarting := hl.started.mpr hstarted
      obtain ⟨hr, hw⟩ := h.made hstarted
      cases reading with
      | true =>
          exact ⟨fun hfresh => (nomatch hstarting.symm.trans hfresh), rfl, h.writer_done,
            fun hs => (nomatch hstarted.symm.trans hs), h.writer_unstarted,
            fun _ => ⟨nofun, hw⟩, h.failed⟩
      | false =>
          exact ⟨fun hfresh => (nomatch hstarting.symm.trans hfresh), h.reader_done, rfl,
            h.reader_unstarted, fun _ => rfl, fun _ => ⟨hr, nofun⟩, fun _ => rfl⟩
  | wait => exact h.same rfl rfl rfl rfl rfl rfl
  | poll_joined => exact h.same rfl rfl rfl rfl rfl rfl
  | poll_expires => exact h.same rfl rfl rfl rfl rfl rfl
  | join => exact h.same rfl rfl rfl rfl rfl rfl

/-! ## The claim

Both workers come to `publish_close`, and one of them claims the close and calls the callback.
The accounts are kept by counting over both workers: claims that have not been called yet, calls
that have not returned, and returns that have not been published. The sums are fixed by the
flags, so that a second claim, or a done flag without a callback, would not add up.

Each of the three counts is of a place behind the loop, so that with two workers they are at
most two; that they are at most one is what the flag contributes. The reason that is handed to
the callback is taken with the claim, in one section, and nobody changes it afterwards. -/

/-- The worker has claimed the close and not called the callback yet. -/
def owes : stage → Nat
  | .tail (.claimed _) => 1
  | _ => 0

/-- It is in the callback. -/
def calls : stage → Nat
  | .tail .called => 1
  | _ => 0

/-- It has left the callback and not published that. -/
def publishes : stage → Nat
  | .tail .returned => 1
  | _ => 0

/-- It is done with `publish_close`. -/
def finished : stage → Bool
  | .tail .finishing => true
  | .tail .gone => true
  | _ => false

/-- Over both workers. -/
def total (f : stage → Nat) (v : close_view) : Nat := f v.reader + f v.writer

/-- A worker that moves takes its share along. -/
theorem total_at_tail (f : stage → Nat) (v : close_view) (reading : Bool) (at_ : tail_at) :
    total f (v.at_tail reading at_) + f (v.worker reading) = total f v + f (.tail at_) := by
  cases reading <;> simp [total, at_tail, worker] <;> omega

/-- A worker that moves changes the sum by its own part. -/
theorem total_of_moves {f : stage → Nat} {v : close_view} {reading : Bool}
    {before after : tail_at} {a b n : Nat} (hworker : v.worker reading = .tail before)
    (hfrom : f (.tail before) = a) (hto : f (.tail after) = b) (hn : n + a = total f v + b) :
    total f (v.at_tail reading after) = n := by
  have htotal := total_at_tail f v reading after
  rw [hworker, hfrom, hto] at htotal
  omega

/-- The accounts of the close: what was claimed, called, and published, before and after it has
begun. -/
structure claim (v : close_view) : Prop where
  unstarted : v.shared.started_ = false →
    v.shared.close_claimed_ = false ∧ v.shared.close_done_ = true
  unclosed : v.shared.started_ = true → v.shared.closing_ = false →
    v.shared.close_claimed_ = false
  closes : v.closes.length + total owes v = v.shared.close_claimed_.toNat
  returns : v.returns + total calls v = v.closes.length
  /-- The close is done when somebody claimed it and is through with it. -/
  done : v.shared.started_ = true → v.shared.closing_ = true →
    v.shared.close_done_.toNat + (total owes v + total calls v + total publishes v) =
      v.shared.close_claimed_.toNat
  reason : ∀ r ∈ v.closes, v.shared.reason_ = some r
  claimed : ∀ reading r, v.worker reading = .tail (.claimed r) → v.shared.reason_ = some r
  finished : ∀ reading, v.shared.started_ = true → finished (v.worker reading) = true →
    v.shared.close_claimed_ = true

/-! ### Steps that count

Of the steps behind a loop, three change a count: a worker claims the close and owes the
callback, it calls the callback, and the callback returns; a fourth publishes. In each the
change of one summand is matched by the flag or by the next summand. A step in which nobody
moves between these places leaves all of them as they are. -/

/-- What changes neither the flags of the close, nor the calls of the callback, nor a
worker's part in them, keeps the claim. -/
theorem claim.same {v v' : close_view} (h : v.claim)
    (hstarted : v'.shared.started_ = v.shared.started_)
    (hclosing : v'.shared.closing_ = v.shared.closing_)
    (hreason : v'.shared.reason_ = v.shared.reason_)
    (hclaimed : v'.shared.close_claimed_ = v.shared.close_claimed_)
    (hdone : v'.shared.close_done_ = v.shared.close_done_)
    (hcloses : v'.closes = v.closes) (hreturns : v'.returns = v.returns)
    (howes : total owes v' = total owes v) (hcalls : total calls v' = total calls v)
    (hpublishes : total publishes v' = total publishes v)
    (hclaims : ∀ reading r, v'.worker reading = .tail (.claimed r) →
      v.worker reading = .tail (.claimed r))
    (hfinished : ∀ reading, v.shared.started_ = true →
      close_view.finished (v'.worker reading) = true → v.shared.close_claimed_ = true) :
    v'.claim where
  unstarted := by rw [hstarted, hclaimed, hdone]; exact h.unstarted
  unclosed := by rw [hstarted, hclosing, hclaimed]; exact h.unclosed
  closes := by rw [hcloses, howes, hclaimed]; exact h.closes
  returns := by rw [hreturns, hcalls, hcloses]; exact h.returns
  done := by
    rw [hstarted, hclosing, hdone, howes, hcalls, hpublishes, hclaimed]
    exact h.done
  reason := by rw [hcloses, hreason]; exact h.reason
  claimed := by
    rw [hreason]
    exact fun reading r hr => h.claimed reading r (hclaims reading r hr)
  finished := by
    rw [hstarted, hclaimed]
    exact hfinished

/-- A step that writes no flag of the close and moves no worker leaves the counts, and what they
add up to, alone. -/
theorem claim.elsewhere {v v' : close_view} (h : v.claim)
    (hflags : v'.shared.started_ = v.shared.started_ ∧ v'.shared.closing_ = v.shared.closing_ ∧
      v'.shared.reason_ = v.shared.reason_ ∧
      v'.shared.close_claimed_ = v.shared.close_claimed_ ∧
      v'.shared.close_done_ = v.shared.close_done_)
    (hcalls : v'.closes = v.closes ∧ v'.returns = v.returns)
    (hworkers : v'.reader = v.reader ∧ v'.writer = v.writer) : v'.claim := by
  obtain ⟨hstarted, hclosing, hreason, hclaimed, hdone⟩ := hflags
  have htotal : ∀ f, total f v' = total f v := fun f => by
    rw [total, total, hworkers.1, hworkers.2]
  have hworker : ∀ reading, v'.worker reading = v.worker reading := fun reading => by
    rw [worker, worker, hworkers.1, hworkers.2]
  refine h.same hstarted hclosing hreason hclaimed hdone hcalls.1 hcalls.2 (htotal _) (htotal _)
    (htotal _) (fun reading r hr => ?_) fun reading hs hf => ?_
  · rwa [hworker] at hr
  · rw [hworker] at hf
    exact h.finished reading hs hf

/-- A worker that moves between places that have no part in the close. -/
theorem claim.moves {v : close_view} (h : v.claim) {reading : Bool} {at_ : tail_at}
    (hfrom : owes (v.worker reading) = 0 ∧ calls (v.worker reading) = 0 ∧
      publishes (v.worker reading) = 0)
    (hto : owes (.tail at_) = 0 ∧ calls (.tail at_) = 0 ∧ publishes (.tail at_) = 0)
    (hfinished : close_view.finished (.tail at_) = true → v.shared.close_claimed_ = true) :
    (v.at_tail reading at_).claim := by
  have howes := total_at_tail owes v reading at_
  have hcalls := total_at_tail calls v reading at_
  have hpublishes := total_at_tail publishes v reading at_
  refine h.same rfl rfl rfl rfl rfl rfl rfl (by omega) (by omega) (by omega) ?_ ?_
  · intro side r hside
    by_cases heq : side = reading
    · subst heq
      rw [worker_at_tail_self, stage.tail.injEq] at hside
      rw [hside] at hto
      cases hto.1
    · rwa [worker_at_tail_other v at_ heq] at hside
  · intro side hs hside
    by_cases heq : side = reading
    · subst heq
      rw [worker_at_tail_self] at hside
      exact hfinished hside
    · rw [worker_at_tail_other v at_ heq] at hside
      exact h.finished side hs hside

/-- Before a close has begun no worker has a part in it. -/
theorem latch.unclosed {v : close_view} (hl : v.latch) (hclosing : v.shared.closing_ = false)
    (reading : Bool) :
    owes (v.worker reading) = 0 ∧ calls (v.worker reading) = 0 ∧
      publishes (v.worker reading) = 0 := by
  cases hs : v.worker reading with
  | tail at_ =>
      have hbehind := hl.behind reading at_ hs
      rw [hclosing] at hbehind
      cases at_ with
      | claimed r => cases hbehind rfl nofun
      | called => cases hbehind rfl nofun
      | returned => cases hbehind rfl nofun
      | _ => exact ⟨rfl, rfl, rfl⟩
  | _ => exact ⟨rfl, rfl, rfl⟩

/-- Before a close has begun nobody has a part in one. -/
theorem latch.unclosed_total {v : close_view} (hl : v.latch)
    (hclosing : v.shared.closing_ = false) :
    total owes v = 0 ∧ total calls v = 0 ∧ total publishes v = 0 := by
  obtain ⟨howes, hcalls, hpublishes⟩ := hl.unclosed hclosing true
  obtain ⟨howes', hcalls', hpublishes'⟩ := hl.unclosed hclosing false
  exact ⟨Nat.add_eq_zero_iff.mpr ⟨howes, howes'⟩, Nat.add_eq_zero_iff.mpr ⟨hcalls, hcalls'⟩,
    Nat.add_eq_zero_iff.mpr ⟨hpublishes, hpublishes'⟩⟩

/-! ### Sections of the close

The remaining lemmas are one for each section that writes a flag of the close: `begin_close`,
the two sections of `publish_close`, and `start`, which leaves the close of a transport that
could not start as done. Before the close has begun all the counts are zero, and this is where
they start.

The accounts are three counts over the two workers: who owes a call of the close callback, who
is in it, and who has still to publish that it returned. Of a close that has begun these and the
done flag add up to the claim flag: what was claimed is owed, then in the callback, then to be
published, and then done. So each section moves a one from one account to the next, and that
there is only one is what the claim flag is for. -/

/-- A `begin_close` that takes effect finds the close unclaimed: the transport was not closing,
so by the latch neither worker was behind its loop, where it could have claimed it. -/
theorem claim.begin_close {v : close_view} (h : v.claim) (hl : v.latch) (reason : close_reason) :
    (v.begin_close reason).claim := by
  unfold close_view.begin_close
  rcases v.shared.begin_close_cases reason with ⟨-, heq⟩ | ⟨hclosing, heq⟩
  · rw [heq]
    exact h.elsewhere ⟨rfl, rfl, rfl, rfl, rfl⟩ ⟨rfl, rfl⟩ ⟨rfl, rfl⟩
  · have hclaimed : v.shared.close_claimed_ = false := by
      cases hstarted : v.shared.started_ with
      | true => exact h.unclosed hstarted hclosing
      | false => exact (h.unstarted hstarted).1
    -- before the close nobody is behind its loop, so nobody owes anything
    obtain ⟨howes, hcalls, hpublishes⟩ := hl.unclosed_total hclosing
    have hcloses := h.closes
    rw [hclaimed, Bool.toNat_false] at hcloses
    have hnone : v.closes = [] := List.length_eq_zero_iff.mp (by omega)
    rw [heq]
    refine ⟨fun hs => ⟨hclaimed, ?_⟩, fun _ hc => (nomatch hc), h.closes, h.returns,
      fun hs _ => ?_, ?_, fun reading r hr => ?_, h.finished⟩
    · show (!v.shared.started_) = true
      rw [show v.shared.started_ = false from hs]
      rfl
    · show (!v.shared.started_).toNat + (total owes v + total calls v + total publishes v) =
        v.shared.close_claimed_.toNat
      rw [show v.shared.started_ = true from hs, hclaimed, howes, hcalls, hpublishes]
      rfl
    · rw [hnone]
      nofun
    · have howes := hl.unclosed hclosing reading
      rw [show v.worker reading = .tail (.claimed r) from hr] at howes
      cases howes.1

/-- The first start of a transport: no close was claimed yet, and one that could not start
counts its close as done. -/
theorem claim.start {v : close_view} (h : v.claim) (hl : v.latch) (ht : v.threads)
    (a : start_answers) (hfresh : v.starting = .fresh) :
    ({ v with
        shared := (v.shared.start a).1
        starting := (v.shared.start a).2.starting
        reader := .made (v.shared.start a).1.reader_done_
        writer := .made (v.shared.start a).1.writer_done_ } : close_view).claim := by
  obtain ⟨hreader, hwriter⟩ := ht.fresh hfresh
  have hunstarted : v.shared.started_ = false := by
    by_contra hstarted
    rw [Bool.not_eq_false] at hstarted
    cases (hl.started.mpr hstarted).symm.trans hfresh
  obtain ⟨hclaimed, hdone⟩ := h.unstarted hunstarted
  have hcloses := h.closes
  have hreturns := h.returns
  rw [hclaimed, Bool.toNat_false] at hcloses
  have hnone : v.closes = [] := List.length_eq_zero_iff.mp (by omega)
  have hnever : v.returns = 0 := by
    rw [hnone, List.length_nil] at hreturns
    omega
  have hmade : ∀ done, owes (.made done) = 0 ∧ calls (.made done) = 0 ∧
      publishes (.made done) = 0 := by
    intro done
    cases done <;> exact ⟨rfl, rfl, rfl⟩
  have hunfinished : ∀ done, close_view.finished (.made done) = false := by
    intro done
    cases done <;> rfl
  -- whatever `start` did to the threads, the close is untouched
  have hafter : ∀ (t : stdio_transport) (starting : start_at), t.close_claimed_ = false →
      t.close_done_ = true → (t.started_ = true → t.closing_ = false) →
      ({ v with
          shared := t
          starting := starting
          reader := .made t.reader_done_
          writer := .made t.writer_done_ } : close_view).claim := by
    intro t starting htclaimed htdone htclosing
    refine ⟨fun _ => ⟨htclaimed, htdone⟩, fun _ _ => htclaimed, ?_, ?_, fun hs hc => ?_, ?_, ?_,
      ?_⟩
    · simp [total, hmade, hnone, htclaimed]
    · simp [total, hmade, hnone, hnever]
    · cases (htclosing hs).symm.trans hc
    · simp [hnone]
    · intro reading r hr
      cases worker_made _ _ rfl rfl reading _ hr
    · intro reading _ hf
      cases reading with
      | true => cases (hunfinished _).symm.trans hf
      | false => cases (hunfinished _).symm.trans hf
  rcases v.shared.start_cases a with ⟨-, err, heq⟩ | ⟨hconsumed, ⟨err, heq⟩ | heq | heq | heq⟩ <;>
    rw [heq]
  · exact hafter _ _ hclaimed hdone fun hs => (nomatch hunstarted.symm.trans hs)
  · exact hafter _ _ hclaimed hdone fun hs => (nomatch hunstarted.symm.trans hs)
  · exact hafter _ _ hclaimed hdone fun hs => (nomatch hunstarted.symm.trans hs)
  · exact hafter _ _ hclaimed hdone fun hs => (nomatch hunstarted.symm.trans hs)
  · refine hafter _ _ hclaimed hdone fun _ => ?_
    by_contra hclosing
    rw [Bool.not_eq_false] at hclosing
    cases (hl.consumes hclosing).symm.trans hconsumed

/-- The claim, once a close of a started transport has begun. -/
theorem claim.of_running {v : close_view} (hstarted : v.shared.started_ = true)
    (hclosing : v.shared.closing_ = true)
    (hcloses : v.closes.length + total owes v = v.shared.close_claimed_.toNat)
    (hreturns : v.returns + total calls v = v.closes.length)
    (hdone : v.shared.close_done_.toNat + (total owes v + total calls v + total publishes v) =
      v.shared.close_claimed_.toNat)
    (hreason : ∀ r ∈ v.closes, v.shared.reason_ = some r)
    (hclaimed : ∀ reading r, v.worker reading = .tail (.claimed r) → v.shared.reason_ = some r)
    (hfinished : ∀ reading, close_view.finished (v.worker reading) = true →
      v.shared.close_claimed_ = true) : v.claim where
  unstarted hs := nomatch hstarted.symm.trans hs
  unclosed _ hc := nomatch hclosing.symm.trans hc
  closes := hcloses
  returns := hreturns
  done _ _ := hdone
  reason := hreason
  claimed := hclaimed
  finished reading _ := hfinished reading

/-- A worker in `publish_close` works for a started transport whose close has begun. -/
theorem latch.closing_of_tail {v : close_view} (hl : v.latch) (ht : v.threads) {reading : Bool}
    {at_ : tail_at} (htail : v.worker reading = .tail at_) (hpast : past_begin at_ = true)
    (hgone : unstarted (.tail at_) = false) :
    v.shared.started_ = true ∧ v.shared.closing_ = true := by
  have hstarted := ht.running ((congrArg unstarted htail).trans hgone)
  exact ⟨hstarted, hl.behind reading at_ htail hpast fun _ => hstarted⟩

/-- The first section of `publish_close`: whoever finds the close unclaimed sets the flag and
owes the call, so the sum is one from here on. -/
theorem claim.claims {v : close_view} (h : v.claim) (hl : v.latch) (ht : v.threads)
    {reading : Bool} (htail : v.worker reading = .tail .publishing) :
    ({ v with shared := v.shared.claim_close.1 }.at_tail reading
      (.publishes v.shared.claim_close.2)).claim := by
  obtain ⟨hstarted, hclosing⟩ := hl.closing_of_tail ht htail rfl rfl
  rcases v.shared.claim_close_cases with ⟨heq, hwhy⟩ | ⟨-, hunclaimed, reason, hreason, heq⟩
  · -- it can only be that the other worker was first
    have hclaimed : v.shared.close_claimed_ = true := by
      rcases hwhy with hs | hr | hc
      · cases hstarted.symm.trans hs
      · rw [hl.reason, List.head?_eq_none_iff] at hr
        exact absurd hr (hl.reasoned hstarted hclosing)
      · exact hc
    rw [heq]
    exact h.moves (by rw [htail]; exact ⟨rfl, rfl, rfl⟩) ⟨rfl, rfl, rfl⟩ fun _ => hclaimed
  · rw [heq]
    let v₁ : close_view := { v with shared := { v.shared with close_claimed_ := true } }
    -- the worker owes an event from here on; the flag is set in the same section
    have howes : total owes (v₁.at_tail reading (.claimed reason)) = total owes v + 1 :=
      total_of_moves (v := v₁) htail rfl rfl rfl
    have hcalls : total calls (v₁.at_tail reading (.claimed reason)) = total calls v :=
      total_of_moves (v := v₁) htail rfl rfl rfl
    have hpublishes : total publishes (v₁.at_tail reading (.claimed reason)) =
        total publishes v :=
      total_of_moves (v := v₁) htail rfl rfl rfl
    have hcloses := h.closes
    have hdone := h.done hstarted hclosing
    rw [hunclaimed, Bool.toNat_false] at hcloses hdone
    refine claim.of_running hstarted hclosing ?_ ?_ ?_ h.reason ?_ fun _ _ => rfl
    · show v.closes.length + total owes (v₁.at_tail reading (.claimed reason)) = 1
      omega
    · show v.returns + total calls (v₁.at_tail reading (.claimed reason)) = v.closes.length
      rw [hcalls]
      exact h.returns
    · show v.shared.close_done_.toNat + (total owes (v₁.at_tail reading (.claimed reason)) +
        total calls (v₁.at_tail reading (.claimed reason)) +
        total publishes (v₁.at_tail reading (.claimed reason))) = 1
      omega
    -- the reason it took with it is the transport's
    · intro side
      refine worker_at_tail_forall (v := v₁) (P := fun s => ∀ r, s = .tail (.claimed r) →
        v.shared.reason_ = some r) ?_ h.claimed side
      intro r hr
      cases hr
      exact hreason

/-- The close callback is called by the worker that claimed it; what was owed becomes a call
that has not returned. -/
theorem claim.calls_close {v : close_view} (h : v.claim) (hl : v.latch) (ht : v.threads)
    {reading : Bool} {reason : close_reason} (htail : v.worker reading = .tail (.claimed reason)) :
    ({ v with closes := v.closes ++ [reason] }.at_tail reading .called).claim := by
  obtain ⟨hstarted, hclosing⟩ := hl.closing_of_tail ht htail rfl rfl
  have hreason := h.claimed reading reason htail
  let v₁ : close_view := { v with closes := v.closes ++ [reason] }
  -- what was owed is now a call under way: the sum of the counts is the same
  have howes : total owes (v₁.at_tail reading .called) + 1 = total owes v := by
    have htotal := total_at_tail owes v₁ reading .called
    rw [show v₁.worker reading = .tail (.claimed reason) from htail] at htotal
    exact htotal
  have hcalls : total calls (v₁.at_tail reading .called) = total calls v + 1 :=
    total_of_moves (v := v₁) htail rfl rfl rfl
  have hpublishes : total publishes (v₁.at_tail reading .called) = total publishes v :=
    total_of_moves (v := v₁) htail rfl rfl rfl
  have hcloses := h.closes
  have hreturns := h.returns
  have hdone := h.done hstarted hclosing
  refine claim.of_running hstarted hclosing ?_ ?_ ?_ ?_ ?_ ?_
  · show (v.closes ++ [reason]).length + total owes (v₁.at_tail reading .called) =
      v.shared.close_claimed_.toNat
    rw [List.length_append, List.length_singleton]
    omega
  · show v.returns + total calls (v₁.at_tail reading .called) = (v.closes ++ [reason]).length
    rw [List.length_append, List.length_singleton]
    omega
  · show v.shared.close_done_.toNat + (total owes (v₁.at_tail reading .called) +
      total calls (v₁.at_tail reading .called) + total publishes (v₁.at_tail reading .called)) =
      v.shared.close_claimed_.toNat
    omega
  · intro r hr
    rcases List.mem_append.mp hr with hold | hnew
    · exact h.reason r hold
    · rw [List.mem_singleton.mp hnew]
      exact hreason
  · exact worker_at_tail_forall (v := v₁) (P := fun s => ∀ r, s = .tail (.claimed r) →
      v.shared.reason_ = some r) nofun h.claimed
  · exact worker_at_tail_forall (v := v₁) (P := fun s => close_view.finished s = true →
      v.shared.close_claimed_ = true) nofun fun side => h.finished side hstarted

/-- The close callback returned or threw, which is the same to the worker; what was called
becomes a return that is to be published. -/
theorem claim.close_returns {v : close_view} (h : v.claim) (hl : v.latch) (ht : v.threads)
    {reading : Bool} (htail : v.worker reading = .tail .called) :
    ({ v with returns := v.returns + 1 }.at_tail reading .returned).claim := by
  obtain ⟨hstarted, hclosing⟩ := hl.closing_of_tail ht htail rfl rfl
  let v₁ : close_view := { v with returns := v.returns + 1 }
  have howes : total owes (v₁.at_tail reading .returned) = total owes v :=
    total_of_moves (v := v₁) htail rfl rfl rfl
  -- the call under way is over, and what it leads to is the publication
  have hcalls : total calls (v₁.at_tail reading .returned) + 1 = total calls v := by
    have htotal := total_at_tail calls v₁ reading .returned
    rw [show v₁.worker reading = .tail .called from htail] at htotal
    exact htotal
  have hpublishes : total publishes (v₁.at_tail reading .returned) = total publishes v + 1 :=
    total_of_moves (v := v₁) htail rfl rfl rfl
  have hcloses := h.closes
  have hreturns := h.returns
  have hdone := h.done hstarted hclosing
  refine claim.of_running hstarted hclosing ?_ ?_ ?_ h.reason ?_ ?_
  · show v.closes.length + total owes (v₁.at_tail reading .returned) =
      v.shared.close_claimed_.toNat
    omega
  · show v.returns + 1 + total calls (v₁.at_tail reading .returned) = v.closes.length
    omega
  · show v.shared.close_done_.toNat + (total owes (v₁.at_tail reading .returned) +
      total calls (v₁.at_tail reading .returned) +
      total publishes (v₁.at_tail reading .returned)) = v.shared.close_claimed_.toNat
    omega
  · exact worker_at_tail_forall (v := v₁) (P := fun s => ∀ r, s = .tail (.claimed r) →
      v.shared.reason_ = some r) nofun h.claimed
  · exact worker_at_tail_forall (v := v₁) (P := fun s => close_view.finished s = true →
      v.shared.close_claimed_ = true) nofun fun side => h.finished side hstarted

/-- The second section of `publish_close` sets the done flag, in place of the return that was to
be published. -/
theorem claim.close_published {v : close_view} (h : v.claim) (hl : v.latch) (ht : v.threads)
    {reading : Bool} (htail : v.worker reading = .tail .returned) :
    ({ v with shared := v.shared.close_published }.at_tail reading .finishing).claim := by
  obtain ⟨hstarted, hclosing⟩ := hl.closing_of_tail ht htail rfl rfl
  let v₁ : close_view := { v with shared := v.shared.close_published }
  have howes : total owes (v₁.at_tail reading .finishing) = total owes v :=
    total_of_moves (v := v₁) htail rfl rfl rfl
  have hcalls : total calls (v₁.at_tail reading .finishing) = total calls v :=
    total_of_moves (v := v₁) htail rfl rfl rfl
  have hpublishes : total publishes (v₁.at_tail reading .finishing) + 1 =
      total publishes v := by
    have htotal := total_at_tail publishes v₁ reading .finishing
    rw [show v₁.worker reading = .tail .returned from htail] at htotal
    exact htotal
  have hcloses := h.closes
  have hreturns := h.returns
  have hdone := h.done hstarted hclosing
  -- one worker is publishing, so the close is claimed and was not done
  have hclaimed : v.shared.close_claimed_ = true := by
    by_contra hunclaimed
    rw [Bool.not_eq_true] at hunclaimed
    rw [hunclaimed, Bool.toNat_false] at hdone
    omega
  rw [hclaimed, Bool.toNat_true] at hcloses hdone
  refine claim.of_running hstarted hclosing ?_ ?_ ?_ h.reason ?_ fun _ _ => hclaimed
  · show v.closes.length + total owes (v₁.at_tail reading .finishing) =
      v.shared.close_claimed_.toNat
    rw [howes, hclaimed]
    exact hcloses
  · show v.returns + total calls (v₁.at_tail reading .finishing) = v.closes.length
    omega
  · show 1 + (total owes (v₁.at_tail reading .finishing) +
      total calls (v₁.at_tail reading .finishing) +
      total publishes (v₁.at_tail reading .finishing)) = v.shared.close_claimed_.toNat
    rw [hclaimed, Bool.toNat_true]
    omega
  · exact worker_at_tail_forall (v := v₁) (P := fun s => ∀ r, s = .tail (.claimed r) →
      v.shared.reason_ = some r) nofun h.claimed

/-- The steps that have a part in the close are each an entry in the accounts; the others have
none. -/
theorem claim.step {v v' : close_view} (h : v.claim) (hl : v.latch) (ht : v.threads)
    (hstep : v.step v') : v'.claim := by
  cases hstep with
  | queue =>
      exact h.elsewhere ⟨rfl, rfl, rfl, rfl, rfl⟩ ⟨rfl, rfl⟩ ⟨rfl, rfl⟩
  | admits =>
      exact h.elsewhere ⟨rfl, rfl, rfl, rfl, rfl⟩ ⟨rfl, rfl⟩ ⟨rfl, rfl⟩
  | start a hfresh => exact h.start hl ht a hfresh
  | start_again a hstarting =>
      rw [stdio_transport.start_consumed a (hl.consumed hstarting)]
      exact h
  | start_joins =>
      exact h.elsewhere ⟨rfl, rfl, rfl, rfl, rfl⟩ ⟨rfl, rfl⟩ ⟨rfl, rfl⟩
  | stop =>
      exact (h.begin_close hl .requested_stop).elsewhere ⟨rfl, rfl, rfl, rfl, rfl⟩ ⟨rfl, rfl⟩
        ⟨rfl, rfl⟩
  | request_stop =>
      exact h.elsewhere ⟨rfl, rfl, rfl, rfl, rfl⟩ ⟨rfl, rfl⟩ ⟨rfl, rfl⟩
  | wake_reader hreader hstarted =>
      refine h.same rfl rfl rfl rfl rfl rfl rfl ?_ ?_ ?_ (fun reading r hr => ?_)
        fun reading hs hf => ?_
      · simp [total, hreader, owes]
      · simp [total, hreader, calls]
      · simp [total, hreader, publishes]
      · cases reading with
        | true => cases hr
        | false => exact hr
      · cases reading with
        | true => cases hf
        | false => exact h.finished false hs hf
  | wake_writer hwriter hstarted =>
      refine h.same rfl rfl rfl rfl rfl rfl rfl ?_ ?_ ?_ (fun reading r hr => ?_)
        fun reading hs hf => ?_
      · simp [total, hwriter, owes]
      · simp [total, hwriter, calls]
      · simp [total, hwriter, publishes]
      · cases reading with
        | true => exact hr
        | false => cases hr
      · cases reading with
        | true => exact h.finished true hs hf
        | false => cases hf
  | wake_unstarted hwriter hunstarted =>
      refine h.same rfl rfl rfl rfl rfl rfl rfl ?_ ?_ ?_ (fun reading r hr => ?_)
        fun reading hs _ => ?_
      · simp [total, hwriter, owes]
      · simp [total, hwriter, calls]
      · simp [total, hwriter, publishes]
      · cases reading with
        | true => exact hr
        | false => cases hr
      · cases hunstarted.symm.trans hs
  | leaves reason hloop =>
      exact h.moves (by rw [hloop]; exact ⟨rfl, rfl, rfl⟩) ⟨rfl, rfl, rfl⟩ nofun
  | reader_stops hloop hstop =>
      have hworker : v.worker true = .looping := hloop
      exact h.moves (by rw [hworker]; exact ⟨rfl, rfl, rfl⟩) ⟨rfl, rfl, rfl⟩ nofun
  | writer_stops hloop hclosing =>
      have hworker : v.worker false = .looping := hloop
      exact h.moves (by rw [hworker]; exact ⟨rfl, rfl, rfl⟩) ⟨rfl, rfl, rfl⟩ nofun
  | @tail_begins reading reason htail =>
      have hworker : (v.begin_close reason).worker reading = .tail (.closing reason) := htail
      refine (h.begin_close hl reason).moves (by rw [hworker]; exact ⟨rfl, rfl, rfl⟩) ?_ ?_
      · cases (v.shared.begin_close reason).2 <;> exact ⟨rfl, rfl, rfl⟩
      · cases (v.shared.begin_close reason).2 <;> nofun
  | @tail_requests reading htail =>
      have hv : ({ v with reader_stop_ := true } : close_view).claim :=
        h.elsewhere ⟨rfl, rfl, rfl, rfl, rfl⟩ ⟨rfl, rfl⟩ ⟨rfl, rfl⟩
      have hworker : ({ v with reader_stop_ := true } : close_view).worker reading =
        .tail .requesting := htail
      exact hv.moves (by rw [hworker]; exact ⟨rfl, rfl, rfl⟩) ⟨rfl, rfl, rfl⟩ nofun
  | tail_claims htail => exact h.claims hl ht htail
  | tail_calls htail => exact h.calls_close hl ht htail
  | tail_returns htail => exact h.close_returns hl ht htail
  | tail_publishes htail => exact h.close_published hl ht htail
  | @tail_ends reading htail =>
      obtain ⟨hstarted, -⟩ := hl.closing_of_tail ht htail rfl rfl
      have hv : ({ v with shared := v.shared.worker_done reading } : close_view).claim := by
        cases reading <;> exact h.elsewhere ⟨rfl, rfl, rfl, rfl, rfl⟩ ⟨rfl, rfl⟩ ⟨rfl, rfl⟩
      have hworker : ({ v with shared := v.shared.worker_done reading } : close_view).worker
        reading = .tail .finishing := htail
      refine hv.moves (by rw [hworker]; exact ⟨rfl, rfl, rfl⟩) ⟨rfl, rfl, rfl⟩ fun _ => ?_
      -- who is done with `publish_close` has seen the close claimed, by itself or by the other
      have hclaimed := h.finished reading hstarted (by rw [htail]; rfl)
      cases reading <;> exact hclaimed
  | wait =>
      exact h.elsewhere ⟨rfl, rfl, rfl, rfl, rfl⟩ ⟨rfl, rfl⟩ ⟨rfl, rfl⟩
  | poll_joined =>
      exact h.elsewhere ⟨rfl, rfl, rfl, rfl, rfl⟩ ⟨rfl, rfl⟩ ⟨rfl, rfl⟩
  | poll_expires =>
      exact h.elsewhere ⟨rfl, rfl, rfl, rfl, rfl⟩ ⟨rfl, rfl⟩ ⟨rfl, rfl⟩
  | join =>
      exact h.elsewhere ⟨rfl, rfl, rfl, rfl, rfl⟩ ⟨rfl, rfl⟩ ⟨rfl, rfl⟩

/-- A run of the view keeps all three; they are proved together, as each step lemma uses the
others. -/
theorem close_invariant {o : stdio_options} {v : close_view} (h : (close_runs o).Reachable v) :
    v.latch ∧ v.threads ∧ v.claim := by
  refine h.invariant (P := fun v => v.latch ∧ v.threads ∧ v.claim) ?_ ?_
  · rintro v rfl
    refine ⟨⟨Nat.zero_le _, rfl, fun hne => absurd rfl hne, nofun, nofun, nofun,
      ⟨nofun, nofun⟩, nofun, fun reading at_ => ?_⟩,
      ⟨fun _ => ⟨rfl, rfl⟩, rfl, rfl, fun _ => rfl, fun _ => rfl, nofun, nofun⟩,
      ⟨fun _ => ⟨rfl, rfl⟩, nofun, rfl, rfl, nofun, nofun, fun reading r => ?_, nofun⟩⟩
    · cases reading <;> nofun
    · cases reading <;> nofun
  · intro v _ v' _ hv hstep
    exact ⟨hv.1.step hstep, hv.2.1.step hv.1 hstep, hv.2.2.step hv.1 hv.2.1 hstep⟩

/-! ## The end of both workers

When the flags say that both workers are over the close callback has been called and has
returned, because a worker that has claimed the close is not over before it has published it.
That state stays: nothing brings a worker back.

A wait polls the flags and then joins both threads. From the moment it has found the flags,
what they say of the close stays true, so it is true when the wait returns. -/

/-- The transport started, and both its workers are gone. -/
structure settled (v : close_view) : Prop where
  started : v.shared.started_ = true
  reader : v.reader = .tail .gone
  writer : v.writer = .tail .gone

/-- Where both done flags of a started transport are set, both workers are behind their last
section. -/
theorem threads.settled {v : close_view} (h : v.threads) (hstarted : v.shared.started_ = true)
    (hreader : v.shared.reader_done_ = true) (hwriter : v.shared.writer_done_ = true) :
    v.settled := by
  have hgone : ∀ s : stage, s ≠ .absent → s.over = true → s = .tail .gone := by
    intro s habsent hover
    cases s with
    | absent => exact absurd rfl habsent
    | tail at_ => cases at_ <;> first | rfl | cases hover
    | _ => cases hover
  obtain ⟨hr, hw⟩ := h.made hstarted
  exact ⟨hstarted, hgone _ hr (h.reader_done ▸ hreader), hgone _ hw (h.writer_done ▸ hwriter)⟩

/-- The close callback was called, and is over. -/
theorem settled.closed {v : close_view} (h : v.settled) (hc : v.claim) :
    v.closes.length = 1 ∧ v.returns = 1 := by
  have hworker : v.worker true = .tail .gone := h.reader
  have hclaimed := hc.finished true h.started (by rw [hworker]; rfl)
  have hcloses := hc.closes
  have hreturns := hc.returns
  rw [total, h.reader, h.writer, hclaimed] at hcloses
  rw [total, h.reader, h.writer] at hreturns
  have hone : v.closes.length = 1 := hcloses
  exact ⟨hone, hreturns.trans hone⟩

/-- Nothing moves a worker that is gone, and a transport starts once. -/
theorem settled.step {v v' : close_view} (h : v.settled) (hl : v.latch) (hstep : v.step v') :
    v'.settled := by
  have hworker : ∀ reading, v.worker reading = .tail .gone := by
    intro reading
    cases reading with
    | true => exact h.reader
    | false => exact h.writer
  have htail : ∀ {reading : Bool} {at_ : tail_at}, v.worker reading = .tail at_ → at_ = .gone := by
    intro reading at_ hat
    exact stage.tail.inj (hat.symm.trans (hworker reading))
  cases hstep with
  | start a hfresh => cases (hl.started.mpr h.started).symm.trans hfresh
  -- a second start finds the transport consumed and changes nothing
  | start_again a hstarting =>
      rw [stdio_transport.start_consumed a (hl.consumed hstarting)]
      exact ⟨h.started, h.reader, h.writer⟩
  | stop =>
      refine ⟨?_, h.reader, h.writer⟩
      rcases v.shared.begin_close_cases .requested_stop with ⟨-, heq⟩ | ⟨-, heq⟩
      · exact (congrArg (fun r => r.1.started_) heq).trans h.started
      · exact (congrArg (fun r => r.1.started_) heq).trans h.started
  | wake_reader hreader => cases h.reader.symm.trans hreader
  | wake_writer hwriter => cases h.writer.symm.trans hwriter
  | wake_unstarted hwriter => cases h.writer.symm.trans hwriter
  | leaves reason hloop => cases (hworker _).symm.trans hloop
  | reader_stops hloop => cases h.reader.symm.trans hloop
  | writer_stops hloop => cases h.writer.symm.trans hloop
  | tail_begins hat => cases htail hat
  | tail_requests hat => cases htail hat
  | tail_claims hat => cases htail hat
  | tail_calls hat => cases htail hat
  | tail_returns hat => cases htail hat
  | tail_publishes hat => cases htail hat
  | tail_ends hat => cases htail hat
  | _ => exact ⟨h.started, h.reader, h.writer⟩

/-- A wait that found the flags of a started transport set has waited for its end. -/
def waited (v : close_view) : Prop :=
  ∀ call : Nat, v.waits[call]? = some (wait_call.joining true) ∨
    v.waits[call]? = some (wait_call.returned true true) → v.settled

/-- A wait goes on when it finds the flags set, and what they say stays so. -/
theorem waited.step {v v' : close_view} (h : v.waited) (hl : v.latch) (ht : v.threads)
    (hstep : v.step v') : v'.waited := by
  have hkeeps : v'.waits = v.waits → v'.waited := by
    intro heq call hcall
    rw [heq] at hcall
    exact (h call hcall).step hl hstep
  -- a step that rewrites one entry answers for that entry alone
  have hset : ∀ (call : Nat) (entry : wait_call), v'.waits = v.waits.set call entry →
      (entry = .joining true ∨ entry = .returned true true → v.settled) → v'.waited := by
    intro call entry heq hentry other hother
    rw [heq, List.getElem?_set] at hother
    refine settled.step ?_ hl hstep
    by_cases hcall : call = other
    · rw [if_pos hcall] at hother
      split at hother
      · simp only [Option.some.injEq] at hother
        exact hentry hother
      · rcases hother with hother | hother <;> cases hother
    · rw [if_neg hcall] at hother
      exact h other hother
  cases hstep with
  | wait call hnew =>
      intro other hother
      refine (h other ?_).step hl (.wait v call hnew)
      -- the new entry polls, or was refused
      have hold : ∀ entry, (v.waits ++ [call])[other]? = some entry → entry ≠ call →
          v.waits[other]? = some entry := by
        intro entry hentry hne
        rw [List.getElem?_append] at hentry
        by_cases hlt : other < v.waits.length
        · rwa [if_pos hlt] at hentry
        · rw [if_neg hlt] at hentry
          exact absurd (List.mem_singleton.mp (List.mem_of_getElem? hentry)) hne
      have hnew : ∀ running, wait_call.joining running ≠ call ∧
          wait_call.returned true running ≠ call := by
        intro running
        rcases hnew with rfl | ⟨b, rfl⟩ <;> exact ⟨nofun, nofun⟩
      rcases hother with hother | hother
      · exact .inl (hold _ hother (hnew true).1)
      · exact .inr (hold _ hother (hnew true).2)
  | poll_joined call hjoined =>
      refine hset call _ rfl fun hentry => ?_
      have hstarted : v.shared.started_ = true := by
        rcases hentry with hentry | hentry
        · exact wait_call.joining.inj hentry
        · cases hentry
      simp only [stdio_transport.joined, Bool.and_eq_true] at hjoined
      exact ht.settled hstarted hjoined.1.1 hjoined.1.2
  | poll_expires call running =>
      refine hset call _ rfl fun hentry => ?_
      rcases hentry with hentry | hentry <;> cases hentry
  | @join call running hcall =>
      refine hset call _ rfl fun hentry => ?_
      rcases hentry with hentry | hentry
      · cases hentry
      · refine h call (.inl ?_)
        rw [hcall, (wait_call.returned.inj hentry).2]
  | _ => exact hkeeps rfl

/-! ## What stays so

Three facts about later states: behind a close nothing is admitted, a start that failed has
failed for good, and then no event is published.

The first is a fact about one step that needs nothing else: `send` asks for `closing_` under the
lock. The second and third need the invariants, because a transport that failed could otherwise
be started again. -/

/-- Once a close has begun nothing is admitted, and the close is not taken back, by any step of
any thread. -/
theorem step.admits_nothing {v v' : close_view} (hstep : v.step v')
    (hclosing : v.shared.closing_ = true) :
    v'.shared.closing_ = true ∧ v'.admitted = v.admitted := by
  have hbegin : ∀ reason, (v.shared.begin_close reason).1.closing_ = true := by
    intro reason
    rcases v.shared.begin_close_cases reason with ⟨-, heq⟩ | ⟨-, heq⟩ <;> rw [heq]
    exact hclosing
  have hstart : ∀ a, (v.shared.start a).1.closing_ = true := by
    intro a
    rcases v.shared.start_cases a with ⟨-, err, heq⟩ | ⟨-, ⟨err, heq⟩ | heq | heq | heq⟩ <;>
      rw [heq] <;> first | rfl | exact hclosing
  cases hstep with
  | admits message queue bytes hopen => cases hclosing.symm.trans hopen
  | start a => exact ⟨hstart a, rfl⟩
  | start_again a => exact ⟨hstart a, rfl⟩
  | stop => exact ⟨hbegin _, rfl⟩
  | tail_begins => exact ⟨hbegin _, rfl⟩
  | tail_claims => exact ⟨(v.shared.claim_close_closing).trans hclosing, rfl⟩
  | @tail_ends reading => cases reading <;> exact ⟨hclosing, rfl⟩
  | _ => exact ⟨hclosing, rfl⟩

/-- A start that failed stays failed. -/
theorem step.stays_failed {v v' : close_view} (hstep : v.step v') (hfailed : v.starting = .failed) :
    v'.starting = .failed := by
  cases hstep with
  | start a hfresh => cases hfailed.symm.trans hfresh
  | start_joins hjoining => cases hfailed.symm.trans hjoining
  | _ => exact hfailed

/-- A transport whose start failed has no event to publish, and nothing to wait for. -/
theorem failed_quiet {v : close_view} (hl : v.latch) (ht : v.threads) (hc : v.claim)
    (hfailed : v.starting = .failed) :
    v.closes = [] ∧ v.reader.over = true ∧ v.writer.over = true ∧ v.shared.joined = true ∧
      v.shared.started_ = false := by
  have hunstarted : v.shared.started_ = false := by
    by_contra hstarted
    rw [Bool.not_eq_false] at hstarted
    cases (hl.started.mpr hstarted).symm.trans hfailed
  obtain ⟨hclaimed, hdone⟩ := hc.unstarted hunstarted
  have hcloses := hc.closes
  rw [hclaimed, Bool.toNat_false] at hcloses
  have hreader : v.reader.over = true := by
    rw [ht.reader_unstarted hunstarted]
    rfl
  have hwriter := ht.failed hfailed
  refine ⟨List.length_eq_zero_iff.mp (by omega), hreader, hwriter, ?_, hunstarted⟩
  rw [stdio_transport.joined, ht.reader_done, ht.writer_done, hreader, hwriter, hdone]
  rfl

end close_view

/-! ## The protocol

What was shown of the view is read back for the worlds it is the view of, and put together to
the statement about runs of the transport.

A wait on a transport that failed to start is followed along its run: from `polling` it can only
go to `joining` or to its end, and with both threads over it does. -/

section Protocol

variable {lib : json_library} {o : stdio_options} {stream : List UInt8} {w w' : stdio_world}

/-- The view of a reachable world keeps all three invariants. -/
theorem stdio_close_invariant (h : (stdio_runs lib o stream).Reachable w) :
    w.view.latch ∧ w.view.threads ∧ w.view.claim :=
  close_view.close_invariant ((stdio_view_simulation lib o stream).reachable h)

/-- And its waits are where the flags allow. -/
theorem stdio_waited (h : (stdio_runs lib o stream).Reachable w) : w.view.waited := by
  have hview := (stdio_view_simulation lib o stream).reachable h
  refine hview.invariant ?_ ?_
  · rintro v rfl call (hcall | hcall) <;> cases hcall
  · intro v _ v' hv hwaited hstep
    obtain ⟨hl, ht, -⟩ := close_view.close_invariant hv
    exact hwaited.step hl ht hstep

/-- A relation that every step of the view keeps holds between the ends of a run. -/
theorem stdio_run_view (h : (stdio_runs lib o stream).Reachable w)
    (hrun : (stdio_runs lib o stream).Run w w') : (close_runs o).Run w.view w'.view := by
  refine System.Run.relates (R := fun w w' : stdio_world => (close_runs o).Run w.view w'.view)
    ?_ ?_ ?_ h hrun
  · intro w
    exact Relation.ReflTransGen.refl
  · intro _ _ _ hfirst hsecond
    exact Relation.ReflTransGen.trans hfirst hsecond
  · intro w a w' _ hstep
    exact hstep.view_run

/-- Nothing is admitted after a close has begun, in any number of steps: the flag stays up, and
`send` looks at it under the lock before it queues anything. -/
theorem stdio_admits_nothing (h : (stdio_runs lib o stream).Reachable w)
    (hclosing : w.shared.closing_ = true) (hrun : (stdio_runs lib o stream).Run w w') :
    w'.admitted = w.admitted := by
  have hview := (stdio_view_simulation lib o stream).reachable h
  have hkeeps := System.Run.keeps
    (P := fun v : close_view => v.shared.closing_ = true ∧ v.admitted = w.admitted)
    (fun v _ v' _ hv hstep => by
      obtain ⟨hstays, hsame⟩ := close_view.step.admits_nothing hstep hv.1
      exact ⟨hstays, hsame.trans hv.2⟩)
    hview ⟨hclosing, rfl⟩ (stdio_run_view h hrun)
  exact hkeeps.2

/-- In no later state has a transport started whose start failed. -/
theorem stdio_stays_failed (h : (stdio_runs lib o stream).Reachable w)
    (hfailed : w.starting = .failed) (hrun : (stdio_runs lib o stream).Run w w') :
    w'.starting = .failed :=
  System.Run.keeps (P := fun v : close_view => v.starting = .failed)
    (fun _ _ _ _ hv hstep => close_view.step.stays_failed hstep hv)
    ((stdio_view_simulation lib o stream).reachable h) hfailed (stdio_run_view h hrun)

/-- The places of a `wait` on its way through a transport whose start failed. -/
def wait_call.gets_through : wait_call → Prop
  | .polling _ | .joining false | .returned true false => True
  | _ => False

/-- There the flags are set and nothing runs, so no poll finds its deadline passed first. -/
theorem stdio_world.Step.gets_through {a : stdio_action} (h : (stdio_runs lib o stream).Reachable w)
    (hfailed : w.starting = .failed) {call : Nat} {entry : wait_call}
    (hcall : w.waits[call]? = some entry) (hentry : entry.gets_through)
    (hstep : stdio_world.Step lib w a w') :
    ∃ entry', w'.waits[call]? = some entry' ∧ entry'.gets_through := by
  obtain ⟨hl, ht, hc⟩ := stdio_close_invariant h
  obtain ⟨-, -, -, hjoined, hunstarted⟩ := close_view.failed_quiet hl ht hc hfailed
  have hjoined' : w.shared.joined = true := hjoined
  have hunstarted' : w.shared.started_ = false := hunstarted
  -- the step rewrites one entry, which may be this one
  have hset : ∀ {other : Nat} {before after : wait_call}, w.waits[other]? = some before →
      (before.gets_through → after.gets_through) →
      ∃ entry', (w.waits.set other after)[call]? = some entry' ∧ entry'.gets_through := by
    intro other before after hbefore hnext
    by_cases heq : other = call
    · subst heq
      rw [hcall] at hbefore
      cases hbefore
      refine ⟨after, ?_, hnext hentry⟩
      exact List.getElem?_set_self (List.getElem?_eq_some_iff.mp hcall).1
    · refine ⟨entry, ?_, hentry⟩
      rw [List.getElem?_set_ne heq]
      exact hcall
  have hconcat : ∀ new : wait_call,
      ∃ entry', (w.waits ++ [new])[call]? = some entry' ∧ entry'.gets_through :=
    fun new => ⟨entry, Places.concat_of hcall, hentry⟩
  cases hstep with
  | wait bounded => exact hconcat _
  | wait_inside => exact hconcat _
  | poll_joined hpolls => exact hset hpolls fun _ => by rw [hunstarted']; exact trivial
  | poll_expires _ hopen => cases hjoined'.symm.trans hopen
  | @join other running hjoins =>
      refine hset hjoins fun hbefore => ?_
      cases running with
      | false => exact trivial
      | true => exact hbefore
  | _ => exact ⟨entry, hcall, hentry⟩

/-- A start that failed is the end of it: no close event, now or later, and a `wait`
gets through and reports nothing but completion. -/
theorem stdio_failed_start (h : (stdio_runs lib o stream).Reachable w)
    (hfailed : w.starting = .failed) (hrun : (stdio_runs lib o stream).Run w w') :
    w'.closes = [] ∧ ∀ (call : Nat) (bounded : Bool), w'.waits[call]? = some (.polling bounded) →
      (∃ w'', (stdio_runs lib o stream).Run w' w'' ∧
        w''.waits[call]? = some (.returned true false)) ∧
      ∀ w'' completed running, (stdio_runs lib o stream).Run w' w'' →
        w''.waits[call]? = some (.returned completed running) → completed = true := by
  have hfailed' : w'.starting = .failed := stdio_stays_failed h hfailed hrun
  obtain ⟨hl, ht, hc⟩ := stdio_close_invariant (h.run hrun)
  obtain ⟨hcloses, hreader, hwriter, hjoined, hunstarted⟩ :=
    close_view.failed_quiet hl ht hc hfailed'
  have hunstarted' : w'.shared.started_ = false := hunstarted
  refine ⟨hcloses, fun call bounded hcall => ⟨?_, ?_⟩⟩
  · have hlt : call < w'.waits.length := (List.getElem?_eq_some_iff.mp hcall).1
    -- such a wait finds nothing to wait for, and joins threads that are over or were not made
    have hpoll := @stdio_world.Step.poll_joined lib _ _ _ hcall hjoined
    rw [hunstarted'] at hpoll
    have hjoin := @stdio_world.Step.join lib
      { w' with waits := w'.waits.set call (.joining false) } call false
      (List.getElem?_set_self hlt) (w'.reader.stage_over.symm.trans hreader)
      (w'.writer.stage_over.symm.trans hwriter)
    refine ⟨_, .tail (.single ⟨_, hpoll⟩) ⟨_, hjoin⟩, ?_⟩
    rw [List.getElem?_set_self]
    rw [List.length_set]
    exact hlt
  · intro w'' completed running hrun' hreturned
    -- and whatever happens meanwhile, it keeps to the way that ends in success
    obtain ⟨-, entry, hentry, hthrough⟩ := System.Run.keeps
      (S := stdio_runs lib o stream)
      (P := fun u => u.starting = .failed ∧
        ∃ entry, u.waits[call]? = some entry ∧ entry.gets_through)
      (fun u a v hu hi hstep => by
        obtain ⟨hstays, entry, hat, hthrough⟩ := hi
        exact ⟨stdio_stays_failed hu hstays (.single ⟨a, hstep⟩),
          stdio_world.Step.gets_through hu hstays hat hthrough hstep⟩)
      (h.run hrun) ⟨hfailed', _, hcall, trivial⟩ hrun'
    rw [hreturned] at hentry
    cases hentry
    cases completed with
    | false => exact hthrough.elim
    | true => rfl

/-- The close protocol.

Of a transport that started: the close callback is called at most once, with the reason
of the first `begin_close` to take effect; once both workers have reported themselves
done it has been called and has returned; a worker that is behind its loop, and behind the
`begin_close` it may have left it for, is there because a close has begun; and a call
of `wait` or `wait_for` that found the transport so, and reports completion, does it when
all of this is over. In any run nothing is admitted once a close has begun, and a start
that failed is followed by no close event and keeps no `wait` waiting, nor does one return
anything but completion then. -/
theorem stdio_close_protocol (h : (stdio_runs lib o stream).Reachable w) :
    (w.starting = .started →
      w.closes.length ≤ 1 ∧ (∀ reason ∈ w.closes, w.begun.head? = some reason) ∧
      (w.shared.reader_done_ = true → w.shared.writer_done_ = true →
        w.closes.length = 1 ∧ w.returns = 1) ∧
      (∀ reading at_, w.tail reading = some at_ → (∀ reason, at_ ≠ .closing reason) →
        w.shared.closing_ = true) ∧
      (∀ call : Nat, w.waits[call]? = some (.returned true true) →
        w.shared.reader_done_ = true ∧ w.shared.writer_done_ = true ∧ w.closes.length = 1 ∧
          w.returns = 1)) ∧
    (w.shared.closing_ = true → ∀ w', (stdio_runs lib o stream).Run w w' →
      w'.admitted = w.admitted) ∧
    (w.starting = .failed → ∀ w', (stdio_runs lib o stream).Run w w' →
      w'.closes = [] ∧ ∀ (call : Nat) (bounded : Bool), w'.waits[call]? = some (.polling bounded) →
        (∃ w'', (stdio_runs lib o stream).Run w' w'' ∧
          w''.waits[call]? = some (.returned true false)) ∧
        ∀ w'' completed running, (stdio_runs lib o stream).Run w' w'' →
          w''.waits[call]? = some (.returned completed running) → completed = true) := by
  obtain ⟨hl, ht, hc⟩ := stdio_close_invariant h
  refine ⟨fun hstarting => ?_, fun hclosing w' => stdio_admits_nothing h hclosing,
    fun hfailed w' => stdio_failed_start h hfailed⟩
  have hstarted : w.shared.started_ = true := hl.started.mp hstarting
  refine ⟨?_, ?_, ?_, ?_, ?_⟩
  · have hcloses : w.closes.length + _ = _ := hc.closes
    -- the events and the promises to make one are counted by one flag
    have hbool : w.view.shared.close_claimed_.toNat ≤ 1 := Bool.toNat_le _
    omega
  · intro reason hreason
    rw [← hc.reason reason hreason]
    exact hl.reason.symm
  · intro hreader hwriter
    exact (ht.settled hstarted hreader hwriter).closed hc
  -- the first step behind a loop leaves the latch set, whoever set it
  · intro reading at_ hat hpast
    refine hl.behind reading at_ (stdio_world.view_worker hat) ?_ fun _ => hstarted
    cases at_ with
    | closing reason => exact absurd rfl (hpast reason)
    | _ => rfl
  · intro call hcall
    -- the wait returned after its joins, and these after both threads
    have hsettled := stdio_waited h call (.inr hcall)
    have hreader : w.shared.reader_done_ = w.view.reader.over := ht.reader_done
    have hwriter : w.shared.writer_done_ = w.view.writer.over := ht.writer_done
    refine ⟨?_, ?_, hsettled.closed hc⟩
    · rw [hreader, hsettled.reader]
      rfl
    · rw [hwriter, hsettled.writer]
      rfl

end Protocol

namespace stdio_session

/-- Somebody stopped the transport. -/
def stopped : stdio_world :=
  { started with
    shared := (started.shared.begin_close .requested_stop).1
    begun := [.requested_stop]
    requests := 1 }

/-- The writer, having nothing to write, has called the close callback. -/
def called : stdio_world :=
  { stopped with
    shared := stopped.shared.claim_close.1
    writer := .tail .called
    closes := [.requested_stop]
    writer_ended := some .drained }

/-- The transport starts, is stopped, and the writer comes to the close before the reader. -/
theorem reaches_called : (stdio_runs lib {} [0x30, newline]).Reachable called := by
  have h1 := System.restrict_reachable (reaches_started (C := fun _ _ => True) trivial)
  have h2 : (stdio_runs lib {} [0x30, newline]).Reachable stopped :=
    h1.step (stdio_world.Step.stop started)
  have h3 := h2.step (stdio_world.Step.wake_writer rfl rfl rfl)
  have h4 := h3.step (stdio_world.Step.write_drained rfl rfl rfl)
  have h5 := h4.step (@stdio_world.Step.tail_claims lib
    { stopped with writer := .tail .publishing, writer_ended := some .drained } false rfl)
  exact h5.step (@stdio_world.Step.tail_calls lib _ false .requested_stop rfl)

end stdio_session

theorem stdio_close_protocol_called :
    stdio_session.called.closes = [.requested_stop] ∧
      ∀ reason ∈ stdio_session.called.closes,
        stdio_session.called.begun.head? = some reason :=
  ⟨rfl, ((stdio_close_protocol stdio_session.reaches_called).1 rfl).2.1⟩

end SynapseMcp
