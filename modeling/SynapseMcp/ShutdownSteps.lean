/-
How many steps a server over `stdio_transport` has left.

The budgets of the two parts are put together with prices. What the server does may queue a
frame, which the writer has to write, so a step of the server is worth a frame of the
largest size; a line the reader delivers, and the close callback, make work for the server,
so a step of the reader's loop is worth that. The owner has its own places.

The steps are those of the threads that are in the SDK's code already: the owner may call
`start()`, `wait()` and `stop()` and may register, but when it does is its own affair. So it
is with a handler, a hook or a stop callback that may call `stop()`; where it did, the return
to it is a step, as it goes on only then.
-/
import SynapseMcp.ServerProgress
import SynapseMcp.StdioProgress
import SynapseMcp.ServerQuiescence

set_option autoImplicit false

namespace SynapseMcp

open Transition Places

/-- The owner makes no new call, nor does code of the application: of those who may call
`stop()` only the close callback does. -/
def shutdown_step : stdio_server → stdio_server_action → stdio_server → Prop
  | _, .server (.register _), _ => False
  | _, .server .start, _ => False
  | d, .server (.start_returns _ _), _ => d.server.owner ≠ .idle
  | _, .server .wait, _ => False
  | d, .server .call_stop, e => e.owner_stop = d.owner_stop ∧ e.nested = d.nested
  | _, _, _ => True

/-! ## What is left to do

`stops_left`, the reader and the worker are counted in `ServerProgress`; here the owner gets a
place each, and the calls it may still make of `stop()` are in its number. A call of `stop()`
that code of the application is in is counted once, for the return to that code.

The numbers of the owner's places are read from the end. `.finishing` and `.joining` have one
and two steps to go. A cleanup waits for its `stop()`, and then has a `wait` of the transport to
make, with a poll and a join. The five steps of that `stop()` are the server's, and are paid for
by the places from which a cleanup may begin. `.launching` pays also for what the start of the
transport makes, the writer with the close callback that may be its to call, and `.creating` for
the two steps of the worker of the executor it makes. -/

/-- `k` is what a step of the server is worth. The owner that may still call `stop()` has the
five steps of that call, and the one that will make the executor the two of its worker. -/
def owner_at.steps_left (k : Nat) : owner_at → Nat
  | .idle => 0
  | .finishing _ => 1
  | .joining _ => 2
  | .waiting _ _ => 3
  | .cleaning _ _ => 6
  | .committing => 5 * k + 7
  | .starting => 5 * k + 8
  | .launching => 10 * k + 20
  | .publishing => 10 * k + 21
  | .creating => 12 * k + 22

/-- What is left to a server: its threads, at `k` a step, and its owner. -/
def host.steps_left (k : Nat) (h : host) : Nat := k * h.world.steps_left + h.owner.steps_left k

/-- A frame of the largest size is taken, written and accounted for. -/
def server_unit (o : stdio_options) : Nat := o.max_outbound_bytes + 6

/-- The threads that may be in code of the application: one in a call of `stop()` is in one
that was made. -/
def stdio_server.callers (d : stdio_server) : List stop_caller :=
  .worker :: .reader :: (List.range d.server.world.stops.length).map .stop

/-- The calls of `stop()` that are to return to code of the application. -/
def stdio_server.nested_left (d : stdio_server) : Nat :=
  d.callers.countP fun who => (d.nested who).isSome

/-- What is left to the whole. The transport is counted with prices that cover what its reader
and its close callback set going in the server. -/
def stdio_server.steps_left (lib : json_library) (o : stdio_options) (d : stdio_server) : Nat :=
  d.server.steps_left (server_unit o) +
    d.transport.steps_left (26 * server_unit o + loop_unit lib) (5 * server_unit o) +
    (if d.owner_stop = none then 0 else 1) +
    (if d.transport.shared.closing_ = true then 0 else 2) + d.nested_left

/-! ## The server's steps

A step of the server gives up one unit of its own count. That the owner's way ends is a matter
of its places: each leads to a later one, and the numbers leave room for the call of `stop()` it
makes on the way. -/

section Host

variable {h t : host} {b : host_action} {k : Nat}

/-- What the world spends is worth `k` a step. -/
theorem spent_worth {m n : Nat} (hless : m < n) : k * m + k ≤ k * n := by
  rw [← Nat.mul_succ]
  exact Nat.mul_le_mul_left k hless

/-- After its first section a call of `stop()` has fewer than five steps to go. -/
theorem after_section_left (h : host) (goes_on : Bool) :
    (h.after_section goes_on).steps_left < 5 := by
  unfold host.after_section
  split
  · decide
  · split <;> decide

/-- A call of `stop()` goes on, which leaves the world one step less at least and the owner
where it is. -/
theorem host.Step.spends_stop (hstep : host.Step h .stop t) :
    t.world.steps_left < h.world.steps_left ∧ t.owner = h.owner := by
  cases hstep with
  | @stop_server call hcall =>
      have hset := stops_left_set (h.after_section h.world.server.stop.2) hcall
      have hless := after_section_left h h.world.server.stop.2
      rw [stop_left_entered] at hset
      refine ⟨?_, rfl⟩
      simp only [world.steps_left]
      omega
  | stop_executor hcall => exact ⟨(world.Step.stop_executor hcall).spends_stop, rfl⟩
  | stop_cleans hcall => exact ⟨(world.Step.stop_cleans hcall).spends_stop, rfl⟩
  | stop_transport hcall => exact ⟨(world.Step.stop_transport hcall).spends_stop, rfl⟩

/-- The threads of the server take steps of their own. -/
theorem server_action.served.own {a : server_action} {w v : world} (h : a.served = true) :
    own_step w a v := by
  cases a <;> trivial

/-- So does the host in whose name they take them. -/
theorem host.Step.spends_serve {a : server_action} (hdeliver : ∀ wire, a ≠ .deliver wire)
    (hstep : host.Step h (.serve a) t) :
    t.world.steps_left < h.world.steps_left ∧ t.owner = h.owner := by
  cases hstep with
  | deliver wire hstarted hreader => exact absurd rfl (hdeliver wire)
  | serve hserved hexecutor hworld => exact ⟨hworld.spends (server_action.served.own hserved), rfl⟩

/-- A callback of the application returns. -/
theorem host.Step.spends_application {env : application_answers}
    (hstep : host.Step h (.application env) t) :
    t.world.steps_left < h.world.steps_left ∧ t.owner = h.owner := by
  cases hstep with
  | application _ hworker hcall =>
      refine ⟨?_, rfl⟩
      simp only [world.steps_left, hcall, call_at.steps_left]
      omega

/-! ### The owner

The owner is the one thread of the server whose steps make work for others: a cleanup calls
`stop()`, and the constructor of the executor starts a worker. Both are compared first. The
cases of `host.Step.spends_owner` are then differences of two places. -/

/-- A call of `stop()` in a cleanup. -/
theorem clean_left (h : host) (err : sdk_error) :
    (h.clean err).steps_left k = k * h.world.steps_left + 5 * k + 6 := by
  have hworld : (h.clean err).world.steps_left = h.world.steps_left + 5 := by
    simp only [host.clean, world.steps_left, stops_left_entered]
    omega
  have howner : (h.clean err).owner.steps_left k = 6 := rfl
  rw [host.steps_left, hworld, howner, Nat.mul_add]
  omega

/-- A new executor has a worker that waits, or none, and nothing queued. -/
theorem make_left (w : world) (limit : Nat) :
    world.steps_left { w with run := .make limit } ≤ w.steps_left + 2 := by
  have hmade : worker_steps_left (runtime.make limit).worker ≤ 2 := by
    unfold runtime.make
    dsimp only
    split <;> decide
  have hempty : (runtime.make limit : runtime closure).executor.pending_ = [] := rfl
  simp only [world.steps_left, hempty, List.length_nil]
  omega

/-- The owner's own way ends: each step it takes inside `start()` or `wait()` leads to a place
that is worth less, with what the step makes for others included. -/
theorem host.Step.spends_owner
    (hb : b = .owner ∨ (∃ result, b = .start_returns true result) ∨
      ∃ result, b = .wait_returns result)
    (hidle : h.owner ≠ .idle) (hstep : host.Step h b t) :
    t.steps_left k < h.steps_left k := by
  rcases hb with rfl | ⟨result, rfl⟩ | ⟨result, rfl⟩
  -- the steps of `start()` and `wait()` that go on: each place is worth more than the next
  · cases hstep with
    | create_throws howner =>
        rw [clean_left, host.steps_left, howner]
        simp only [owner_at.steps_left]
        omega
    | create howner =>
        -- making the executor may add steps of its worker, which the owner's place covers
        have hworth := Nat.mul_le_mul_left k (make_left h.world h.options_.max_pending_requests)
        rw [Nat.mul_add] at hworth
        simp only [host.steps_left, howner, owner_at.steps_left]
        omega
    | publish howner hstate =>
        simp only [host.steps_left, howner, owner_at.steps_left]
        omega
    | publish_interrupted howner hstate =>
        have hclean := clean_left (k := k) { h with executor_ := .published } interrupted
        rw [hclean, host.steps_left, howner]
        simp only [owner_at.steps_left]
        omega
    | transport_start howner =>
        simp only [host.steps_left, howner, owner_at.steps_left]
        omega
    | transport_started howner =>
        simp only [host.steps_left, howner, owner_at.steps_left]
        omega
    | transport_start_fails err howner | transport_start_throws howner =>
        rw [clean_left, host.steps_left, howner]
        simp only [owner_at.steps_left]
        omega
    | commit_interrupted howner hstate =>
        rw [clean_left, host.steps_left, howner]
        simp only [owner_at.steps_left]
        omega
    | cleaned howner hcall =>
        simp only [host.steps_left, howner, owner_at.steps_left]
        omega
    | transport_waits howner =>
        simp only [host.steps_left, howner]
        split <;> simp only [owner_at.steps_left] <;> omega
    | executor_waits howner hfinished =>
        simp only [host.steps_left, howner, owner_at.steps_left]
        omega
  -- where a call returns, the owner is idle and the threads are where they were
  · have hless : ∀ {s : host}, s.world.steps_left = h.world.steps_left → s.owner = .idle →
        0 < h.owner.steps_left k → s.steps_left k < h.steps_left k := by
      intro s hworld howner hpos
      rw [host.steps_left, host.steps_left, hworld, howner]
      exact Nat.add_lt_add_left hpos _
    cases hstep with
    | start_invalid howner => exact absurd howner hidle
    | commit howner hstate =>
        refine hless rfl rfl ?_
        rw [howner]
        exact Nat.succ_pos _
    | cleanup_wait_fails howner =>
        refine hless rfl rfl ?_
        rw [howner]
        exact Nat.succ_pos 2
    | cleanup_ends howner =>
        refine hless rfl rfl ?_
        rw [howner]
        exact Nat.one_pos
  · have hless : ∀ {s : host}, s.world.steps_left = h.world.steps_left → s.owner = .idle →
        0 < h.owner.steps_left k → s.steps_left k < h.steps_left k := by
      intro s hworld howner hpos
      rw [host.steps_left, host.steps_left, hworld, howner]
      exact Nat.add_lt_add_left hpos _
    cases hstep with
    | transport_wait_fails err howner | transport_wait_expires howner =>
        refine hless rfl rfl ?_
        rw [howner]
        exact Nat.succ_pos 2
    | executor_wait_expires howner =>
        refine hless rfl rfl ?_
        rw [howner]
        exact Nat.succ_pos 1
    | wait_returns howner =>
        refine hless rfl rfl ?_
        rw [howner]
        exact Nat.one_pos

end Host

/-! ## The transport's share

What the two parts do together costs the one something and gives the other something to do. Each
such step is compared here with the price it was given: a frame sent, a start, a close, a
message called back, the close callback.

`unit` is the price of a turn of the reader's loop and `callback` that of the close callback;
both are free in this section. A turn in which a message is called back pays one `unit`, for
which the server gets a message to receive. The call of the close callback pays `callback`,
which has to cover the `stop()` it makes. With a frame it is the other way round: the server
pays with its own step, and the writer gets the bytes. -/

section Transport

variable {lib : json_library} {o : stdio_options} {stream : List UInt8} {w v : stdio_world}
  (unit callback : Nat)

/-- A frame that is queued costs its bytes, and no frame is larger than the queue. -/
theorem stdio_world.Step.spends_send {message : json} {m : serialized}
    (hoptions : w.shared.options_ = o) (hstep : stdio_world.Step lib w (.send message m) v) :
    v.steps_left unit callback < w.steps_left unit callback + server_unit o ∧
      v.shared.closing_ = w.shared.closing_ := by
  cases hstep with
  | send _ _ hm hsend =>
      obtain ⟨-, -, hroom, rfl⟩ := stdio_transport.send_ok hsend
      rw [hoptions] at hroom
      refine ⟨?_, rfl⟩
      simp only [stdio_world.steps_left, stdio_world.reading_left, queue_left_append,
        List.length_append, List.length_singleton, server_unit]
      omega
  | send_fails =>
      refine ⟨?_, rfl⟩
      rw [server_unit]
      omega

/-- A new `wait` has its poll and its join to do. -/
theorem waits_left_polling (waits : List wait_call) (bounded : Bool) :
    waits_left (waits ++ [.polling bounded]) = waits_left waits + 2 := by
  simp [waits_left, wait_call.steps_left]

/-- The start makes the two threads, and adds no more than the writer's way with one close
callback, and the join of a start that fails half way. -/
theorem stdio_world.Step.spends_start {answers : start_answers} (hfresh : w.starting = .fresh)
    (ht : w.view.threads) (hstep : stdio_world.Step lib w (.start answers) v) :
    v.steps_left unit callback ≤ w.steps_left unit callback + callback + 10 := by
  have habsent := (ht.fresh hfresh).1
  have hreader : w.reader = .absent := by
    cases hr : w.reader with
    | absent => rfl
    | _ =>
        rw [stdio_world.view, hr] at habsent
        cases habsent
  -- each thread has its whole way before it, if it was made at all
  have hmade : ∀ t : stdio_transport, (read_at.made t).left w.unread.length =
      (read_at.absent).left w.unread.length ∧ (read_at.made t).tail_left callback = 0 ∧
        (write_at.made t).steps_left callback ≤ callback + 9 := by
    intro t
    refine ⟨?_, ?_, ?_⟩
    · unfold read_at.made
      split <;> rfl
    · unfold read_at.made
      split <;> rfl
    · unfold write_at.made
      split
      · exact Nat.zero_le _
      · exact Nat.le_refl _
  have hstarting : ∀ outcome : start_outcome, outcome.starting.steps_left ≤ 1 := by
    intro outcome
    cases outcome with
    | failed err => exact Nat.zero_le _
    | joining => exact Nat.le_refl _
    | started => exact Nat.zero_le _
  cases hstep with
  | start _ hfresh' =>
      have hqueue := (w.shared.start_keeps_queue answers).queue
      obtain ⟨hleft, htail, hwriter⟩ := hmade (w.shared.start answers).1
      -- a `start()` that could make only the reader joins it before it fails
      have hone := hstarting (w.shared.start answers).2
      have hbefore : (read_at.absent).tail_left callback = 0 := rfl
      simp only [stdio_world.steps_left, stdio_world.reading_left, hreader, hqueue, hleft, htail,
        hbefore]
      omega
  | start_again _ hstarting' => exact absurd hfresh hstarting'

/-- A call of `stop()` leaves a request to make where it closes the transport. -/
theorem stdio_world.Step.spends_close (hstep : stdio_world.Step lib w .stop v) :
    v.shared.closing_ = true ∧
      v.steps_left unit callback =
        w.steps_left unit callback + if w.shared.closing_ = true then 0 else 1 := by
  cases hstep with
  | stop =>
      have hqueue := (w.shared.begin_close_keeps_queue .requested_stop).queue
      have hsame : ∀ n, stdio_world.steps_left unit callback
          { w.begin_close .requested_stop with requests := w.requests + n } =
            w.steps_left unit callback + n := by
        intro n
        simp only [stdio_world.steps_left, stdio_world.reading_left, stdio_world.begin_close,
          hqueue]
        omega
      have hclosed := hsame (if (w.shared.begin_close .requested_stop).2 then 1 else 0)
      rcases w.shared.begin_close_cases .requested_stop with ⟨hclosing, heq⟩ | ⟨hopen, heq⟩
      · refine ⟨(congrArg (fun r => r.1.closing_) heq).trans hclosing, hclosed.trans ?_⟩
        rw [heq, hclosing]
        rfl
      · refine ⟨congrArg (fun r => r.1.closing_) heq, hclosed.trans ?_⟩
        rw [heq, hopen]
        rfl

/-- Calling a message back takes the reader one place on in its loop. -/
theorem stdio_world.Step.spends_deliver {value : json} {after : after_frame}
    (hreader : w.reader = .calling value after) (hstep : stdio_world.Step lib w .reader v) :
    v.steps_left unit callback + unit = w.steps_left unit callback ∧
      v.shared.closing_ = w.shared.closing_ := by
  cases hstep with
  | call_message hcalling =>
      have hbefore : w.reading_left = after.left w.unread.length + 3 := by
        rw [stdio_world.reading_left, hreader]
        rfl
      have hplace : w.reader.tail_left callback = 0 := by
        rw [hreader]
        rfl
      rw [hreader] at hcalling
      cases hcalling
      have hmul : unit * (after.left w.unread.length + 3) =
          unit * (after.left w.unread.length + 2) + unit := Nat.mul_succ _ _
      refine ⟨?_, rfl⟩
      simp only [stdio_world.steps_left, hbefore, hplace, hmul]
      show unit * (after.left w.unread.length + 2) + 0 + w.writer.steps_left callback +
        queue_left w.shared.queue_ + waits_left w.waits + w.starting.steps_left + w.requests +
          unit = _
      omega
  | head_stops hno | head_reads hno | failed_stops hno | failed_closes hno | scan_done hno
  | scan_stops hno | scan_newline hno | scan_over hno | scan_byte hno | frame hno =>
      rw [hreader] at hno
      cases hno

/-- What was kept for the close callback is spent where it is called. -/
theorem stdio_world.Step.spends_callback {reading : Bool} {reason : close_reason}
    (hclaimed : w.tail reading = some (.claimed reason))
    (hstep : stdio_world.Step lib w (.tail reading) v) :
    v.steps_left unit callback + callback < w.steps_left unit callback ∧
      v.shared.closing_ = w.shared.closing_ := by
  cases hstep with
  | tail_calls hat =>
      refine ⟨?_, by cases reading <;> rfl⟩
      have hafter : tail_at.called.steps_left callback + callback <
          (tail_at.claimed reason).steps_left callback := by
        show 3 + callback < callback + 4
        omega
      cases reading with
      -- the reader: behind its loop no unread byte counts any more
      | true =>
          have hplace : w.reader = .tail (.claimed reason) := stdio_world.reader_of_tail hclaimed
          have hunread : ∀ at_ : tail_at, (∀ reason, at_ ≠ .closing reason) →
              (read_at.tail at_).left w.unread.length = 0 :=
            fun _ => tail_at.left_of_begun w.unread.length
          have hloop : ∀ at_ : tail_at,
              (read_at.tail at_).tail_left callback = at_.steps_left callback := fun _ => rfl
          have hcalled := hunread .called nofun
          have hwaits := hunread (.claimed reason) nofun
          simp only [stdio_world.steps_left, stdio_world.reading_left, hplace, hwaits, hloop]
          show unit * (read_at.tail .called).left w.unread.length +
            tail_at.called.steps_left callback + w.writer.steps_left callback +
            queue_left w.shared.queue_ + waits_left w.waits + w.starting.steps_left +
            w.requests + callback < _
          rw [hcalled]
          omega
      | false =>
          have hplace : w.writer = .tail (.claimed reason) := stdio_world.writer_of_tail hclaimed
          have htail : ∀ at_ : tail_at,
              (write_at.tail at_).steps_left callback = at_.steps_left callback := fun _ => rfl
          simp only [stdio_world.steps_left, hplace, htail]
          show unit * w.reading_left + w.reader.tail_left callback +
            tail_at.called.steps_left callback + queue_left w.shared.queue_ +
            waits_left w.waits + w.starting.steps_left + w.requests + callback < _
          omega
  -- every other step of the code behind the loop is from another place
  | tail_begins hat | tail_requests hat | tail_claims hat | tail_returns hat
  | tail_publishes hat | tail_ends hat =>
      rw [hclaimed] at hat
      cases hat

end Transport

/-! ## Every step spends

The sum of the two budgets and what is left over goes down in every step. A step of one part
alone is known from that part; the others are the comparisons above. -/

section Spending

variable {lib : json_library} {info : raw_info} {options : server_options} {o : stdio_options}
variable {stream : List UInt8} {d e : stdio_server} {a : stdio_server_action}
variable {h t : host} {b : host_action}

/-- What the threads of a server spend, in units of the whole. -/
theorem host.less_of_world {k : Nat} (hk : 0 < k)
    (hstep : t.world.steps_left < h.world.steps_left ∧ t.owner = h.owner) :
    t.steps_left k + k ≤ h.steps_left k ∧ t.steps_left k < h.steps_left k := by
  have hworth := spent_worth (k := k) hstep.1
  simp only [host.steps_left, hstep.2]
  omega

/-- The parts of the budget that are neither the server's nor the transport's. -/
def stdio_server.extra_left (d : stdio_server) : Nat :=
  (if d.owner_stop = none then 0 else 1) +
    (if d.transport.shared.closing_ = true then 0 else 2) + d.nested_left

/-- The budget, with the parts that are neither's put together. -/
theorem stdio_server.steps_left_parts (d : stdio_server) (lib : json_library)
    (o : stdio_options) :
    d.steps_left lib o = d.server.steps_left (server_unit o) +
      d.transport.steps_left (26 * server_unit o + loop_unit lib) (5 * server_unit o) +
        d.extra_left := by
  rw [stdio_server.steps_left, stdio_server.extra_left]
  omega

/-! ### Code of the application

A thread that is in code of the application which called `stop()` counts one until it is back
there. Only the threads of `callers` can be in such code: the worker, the reader, and those
inside a call of `stop()`. That list gets longer with each call that is made, but a call that is
new is in no such code, so the count stays as it was. -/

/-- Whoever is in one of those calls is in code of the application, so it is counted. -/
theorem stdio_server.nesting.counted (hi : d.nesting) {who : stop_caller} {call : Nat}
    (hnested : d.nested who = some call) : who ∈ d.callers := by
  rw [stdio_server.callers]
  cases who with
  | worker => exact List.mem_cons_self
  | reader => exact List.mem_cons_of_mem _ List.mem_cons_self
  | stop outer =>
      obtain ⟨source, discarded, hat⟩ := hi.inside _ _ hnested
      have hmade : outer < d.server.world.stops.length := (List.getElem?_eq_some_iff.mp hat).1
      refine List.mem_cons_of_mem _ (List.mem_cons_of_mem _ ?_)
      exact List.mem_map_of_mem (List.mem_range.mpr hmade)

/-- No such call begins or ends; the calls of `stop()` that are made meanwhile are in no code
of the application. -/
theorem stdio_server.nesting.left_kept (hi : d.nesting) (hnested : e.nested = d.nested)
    (hlength : d.server.world.stops.length ≤ e.server.world.stops.length) :
    e.nested_left = d.nested_left := by
  obtain ⟨more, hmore⟩ := Nat.exists_eq_add_of_le hlength
  have hnone : ((List.range more).map fun n =>
      stop_caller.stop (d.server.world.stops.length + n)).countP
        (fun who => (d.nested who).isSome) = 0 := by
    refine List.countP_eq_zero.mpr fun who hmem hsome => ?_
    obtain ⟨n, -, rfl⟩ := List.mem_map.mp hmem
    obtain ⟨call, hcall⟩ := Option.isSome_iff_exists.mp hsome
    obtain ⟨source, discarded, hat⟩ := hi.inside _ _ hcall
    exact Nat.not_lt.mpr (Nat.le_add_right _ n) (List.getElem?_eq_some_iff.mp hat).1
  rw [stdio_server.nested_left, stdio_server.nested_left, stdio_server.callers,
    stdio_server.callers, hnested, hmore, List.range_add, List.map_append, List.map_map,
    ← List.cons_append, ← List.cons_append, List.countP_append]
  exact Nat.add_eq_left.mpr hnone

/-- One of the calls from application code ends, so there is one less to come back from; the
others are where they were. -/
theorem stdio_server.nesting.left_ended (hi : d.nesting) {who : stop_caller} {call : Nat}
    (hnested : d.nested who = some call) :
    stdio_server.nested_left { d with nested := Function.update d.nested who none } <
      d.nested_left := by
  obtain ⟨before, after, hsplit⟩ := List.append_of_mem (hi.counted hnested)
  have hfewer : ∀ other, (Function.update d.nested who none other).isSome = true →
      (d.nested other).isSome = true := by
    intro other hsome
    obtain ⟨call', hcall⟩ := Option.isSome_iff_exists.mp hsome
    rw [(nested_ended hcall).2]
    rfl
  have hbefore := List.countP_mono_left (l := before) fun other _ => hfewer other
  have hafter := List.countP_mono_left (l := after) fun other _ => hfewer other
  show d.callers.countP (fun other => (Function.update d.nested who none other).isSome) <
    d.callers.countP fun other => (d.nested other).isSome
  rw [hsplit, List.countP_append, List.countP_append, List.countP_cons, List.countP_cons,
    Function.update_self, hnested]
  simp only [Option.isSome_none, Option.isSome_some, Bool.false_eq_true, if_false, if_true]
  omega

/-- These do not grow: a transport does not open again. -/
theorem extra_left_of_closing (hstop : e.owner_stop = d.owner_stop)
    (hclosing : d.transport.shared.closing_ = true → e.transport.shared.closing_ = true)
    (hnested : e.nested_left = d.nested_left) : e.extra_left ≤ d.extra_left := by
  rw [stdio_server.extra_left, stdio_server.extra_left, hstop, hnested]
  refine Nat.add_le_add_right (Nat.add_le_add_left ?_ _) _
  split
  · exact Nat.zero_le _
  · rename_i hopen
    rw [if_neg fun hclosed => hopen (hclosing hclosed)]

/-! ### The cases

The cases are those of `stdio_server.Step`. In each the budget is read in three parts, the
server's, the transport's and what is left over (`stdio_server.spent`); what one of them gains
is what another paid for, and `omega` compares the three sums.

A step in which both parts act is paid for by one of them. A message that is handed over gives
the server work, and the transport has kept for it a unit of the line it read; a frame that is
sent gives the writer work, for which the server's thread has moved on. What is left over is the
owner's own call of `stop()`, the close that has not begun, and the calls of `stop()` that
handlers, hooks and stop callbacks have made and not got back from. -/

/-- A step the server takes alone lowers its own count, whichever of its threads takes it. -/
theorem stdio_server.spends_alone (hown : shutdown_step d (.server b) { d with server := t })
    (hstep : host.Step d.server b t) (halone : d.alone t b) :
    t.steps_left (server_unit o) < d.server.steps_left (server_unit o) := by
  have hunit : 0 < server_unit o := Nat.succ_pos _
  -- one case for each thread; what the owner calls and what comes from the transport is not here
  cases b with
  | register | start | wait => exact hown.elim
  | call_stop => exact halone.elim
  | serve c =>
      have hless := hstep.spends_serve fun wire heq => halone.1 wire heq
      exact (host.less_of_world hunit hless).2
  | application env => exact (host.less_of_world hunit hstep.spends_application).2
  | stop => exact (host.less_of_world hunit hstep.spends_stop).2
  | owner =>
      refine hstep.spends_owner (.inl rfl) ?_
      -- an idle owner takes no step, whatever the step is called
      intro hidle
      cases hstep with
      | create_throws hat | create hat | publish hat | publish_interrupted hat
      | transport_start hat | transport_started hat | transport_start_fails _ hat
      | transport_start_throws hat | commit_interrupted hat | cleaned hat | transport_waits hat
      | executor_waits hat =>
          rw [hidle] at hat
          cases hat
  | start_returns left result =>
      have hbusy : d.server.owner ≠ .idle := hown
      cases left with
      | true => exact hstep.spends_owner (.inr (.inl ⟨result, rfl⟩)) hbusy
      | false =>
          cases hstep with
          | start_refused hidle => exact absurd hidle hbusy
  | wait_returns result =>
      refine hstep.spends_owner (.inr (.inr ⟨result, rfl⟩)) ?_
      intro hidle
      cases hstep with
      | transport_wait_fails _ hat | transport_wait_expires hat | executor_wait_expires hat
      | wait_returns hat =>
          rw [hidle] at hat
          cases hat

/-- The three parts of the budget, each with what it comes to. -/
theorem stdio_server.spent (s : host) (v : stdio_world) (extra : Nat) (hserver : e.server = s)
    (htransport : e.transport = v) (hextra : e.extra_left ≤ extra)
    (hless : s.steps_left (server_unit o) +
      v.steps_left (26 * server_unit o + loop_unit lib) (5 * server_unit o) + extra <
        d.steps_left lib o) :
    e.steps_left lib o < d.steps_left lib o := by
  rw [e.steps_left_parts, hserver, htransport]
  omega

/-- A message that comes in, and a call of `stop()`, are worth so many steps. -/
theorem host.delivered_left {k : Nat} (value : json) (hidle : h.world.reader = .idle) :
    host.steps_left k { h with world := { h.world with reader := .receiving value } } =
      h.steps_left k + 20 * k := by
  have hworld : world.steps_left { h.world with reader := .receiving value } =
      h.world.steps_left + 20 := by
    simp only [world.steps_left, hidle, left_receiving]
    have hnone : reader_at.idle.steps_left = 0 := rfl
    omega
  rw [host.steps_left, host.steps_left, hworld, Nat.mul_add, Nat.mul_comm k 20,
    Nat.add_right_comm]

/-- A call of `stop()` that is made. -/
theorem host.called_left {k : Nat} :
    (stdio_server.called_stop h).steps_left k = h.steps_left k + 5 * k := by
  have hworld : (stdio_server.called_stop h).world.steps_left = h.world.steps_left + 5 := by
    simp only [stdio_server.called_stop, world.steps_left, stops_left_entered]
    omega
  have howner : (stdio_server.called_stop h).owner = h.owner := rfl
  rw [host.steps_left, host.steps_left, hworld, howner, Nat.mul_add, Nat.mul_comm k 5]
  omega

/-- A call of `stop()` ends. -/
theorem host.stopped_left {k call : Nat} (hk : 0 < k)
    (hcall : h.world.stops[call]? = some .transport) :
    (stdio_server.stopped_transport h call).steps_left k < h.steps_left k :=
  (host.less_of_world hk (host.Step.spends_stop (.stop_transport hcall))).2

/-- Every step of the shutdown spends. Where the two parts act together, one of them pays at
least what the other gets, and the calls in application code are counted beside them. -/
theorem stdio_server.Step.spends
    (hr : (stdio_server_runs lib info options o stream).Reachable d)
    (hown : shutdown_step d a e) (hstep : stdio_server.Step lib d a e) :
    e.steps_left lib o < d.steps_left lib o := by
  have hp := stdio_server_parts hr
  have hthreads := stdio_server_threads hr
  have ht := (stdio_close_invariant hthreads).2.1
  have hn := (stdio_server_attached hr).nested
  have hoptions : d.transport.shared.options_ = o := stdio_options_kept hthreads
  have hunit : 0 < server_unit o := Nat.succ_pos _
  have hcallback : 5 * server_unit o + loop_unit lib ≤ 26 * server_unit o + loop_unit lib := by
    omega
  have hparts := d.steps_left_parts lib o
  -- a step of the transport's own, with the server where it was or less
  have hmoves : ∀ {c : stdio_action} {s : host} {v : stdio_world},
      stdio_world.Step lib d.transport c v → stdio_own d.transport c v → e.server = s →
      e.transport = v → e.owner_stop = d.owner_stop → e.nested_left = d.nested_left →
      s.steps_left (server_unit o) ≤ d.server.steps_left (server_unit o) →
      e.steps_left lib o < d.steps_left lib o := by
    intro c s v hc hcown hserver htransport hstop hnested hless
    have hspent := hc.spends hcallback hcown
    refine stdio_server.spent s v d.extra_left hserver htransport
      (extra_left_of_closing hstop ?_ hnested) ?_
    · rw [htransport]
      exact hc.steady.2
    · omega
  have hmore : ∀ stops : List stop_at, stops.length ≤ (stops ++ [stop_at.entered]).length := by
    intro stops
    rw [List.length_append]
    exact Nat.le_add_right _ _
  have hset : ∀ (stops : List stop_at) (call : Nat) (at_ : stop_at),
      stops.length ≤ (stops.set call at_).length :=
    fun stops call at_ => Nat.le_of_eq (List.length_set).symm
  cases hstep with
  | @server b h hhost halone =>
      have hspent := stdio_server.spends_alone (o := o) hown hhost halone
      refine stdio_server.spent h d.transport d.extra_left rfl rfl
        (extra_left_of_closing rfl id (hn.left_kept rfl hhost.stops_length)) ?_
      omega
  | @send c h v f m hhost hframe hsend _ =>
      have hspent := (host.less_of_world hunit (hhost.spends_serve ?_)).1
      · obtain ⟨hgrown, hclosing⟩ := hsend.spends_send (26 * server_unit o + loop_unit lib)
          (5 * server_unit o) hoptions
        refine stdio_server.spent h v d.extra_left rfl rfl (extra_left_of_closing rfl
          hsend.steady.2 (hn.left_kept rfl hhost.stops_length)) ?_
        omega
      · -- a delivery passes no frame
        rintro wire rfl
        cases hhost with
        | deliver => simp [world.frames] at hframe
        | serve hserved => cases hserved
  | @start v answers howner hstart =>
      have hfresh : d.transport.starting = .fresh := by
        refine hp.starts.mp ?_
        have hi := (host_lifecycle hp.server).owner
        unfold host.owner_ok at hi
        rw [howner] at hi
        exact hi.2.1
      have hgrown := hstart.spends_start (26 * server_unit o + loop_unit lib)
        (5 * server_unit o) hfresh ht
      refine stdio_server.spent
        { d.server with
          transport := { d.server.transport with starts := d.server.transport.starts + 1 }
          owner := .starting } v d.extra_left rfl rfl
        (extra_left_of_closing rfl hstart.steady.2 (hn.left_kept rfl (Nat.le_refl _))) ?_
      rw [hparts, host.steps_left, host.steps_left, howner]
      simp only [owner_at.steps_left]
      omega
  | started howner =>
      refine stdio_server.spent { d.server with owner := .committing } d.transport d.extra_left
        rfl rfl (extra_left_of_closing rfl id (hn.left_kept rfl (Nat.le_refl _))) ?_
      rw [hparts, host.steps_left, host.steps_left, howner]
      simp only [owner_at.steps_left]
      omega
  | start_fails err howner =>
      refine stdio_server.spent (d.server.clean err) d.transport d.extra_left
        rfl rfl (extra_left_of_closing rfl id (hn.left_kept rfl (hmore _))) ?_
      rw [hparts, clean_left, host.steps_left, howner]
      simp only [owner_at.steps_left]
      omega
  | @deliver v value after hreader hcall =>
      obtain ⟨hstarted, hidle⟩ := hp.deliver ht hreader
      obtain ⟨hpaid, hclosing⟩ := hcall.spends_deliver (26 * server_unit o + loop_unit lib)
        (5 * server_unit o) hreader
      refine stdio_server.spent
        { d.server with world := { d.server.world with reader := .receiving value } } v
        d.extra_left rfl rfl
        (extra_left_of_closing rfl hcall.steady.2 (hn.left_kept rfl (Nat.le_refl _))) ?_
      rw [hparts, host.delivered_left value hidle]
      have hworth : 0 < loop_unit lib := Nat.succ_pos _
      omega
  | delivered _ hreturn =>
      exact hmoves hreturn trivial rfl rfl rfl (hn.left_kept rfl (Nat.le_refl _)) (Nat.le_refl _)
  | @transport c v htransport halone =>
      refine hmoves htransport ?_ rfl rfl rfl (hn.left_kept rfl (Nat.le_refl _)) (Nat.le_refl _)
      cases c <;> trivial
  | @close v reading reason hclaimed hcall =>
      obtain ⟨hpaid, hclosing⟩ := hcall.spends_callback
        (26 * server_unit o + loop_unit lib) (5 * server_unit o) hclaimed
      refine stdio_server.spent (called_stop d.server) v d.extra_left rfl rfl
        (extra_left_of_closing rfl hcall.steady.2 (hn.left_kept rfl (hmore _))) ?_
      rw [hparts, host.called_left]
      omega
  | closed _ _ _ hreturn =>
      exact hmoves hreturn trivial rfl rfl rfl (hn.left_kept rfl (Nat.le_refl _)) (Nat.le_refl _)
  | owner_stops howner hstop =>
      have hsame : some d.server.world.stops.length = d.owner_stop := hown.1
      rw [hstop] at hsame
      cases hsame
  | @owner_stopped call hstop hstops =>
      have hnested := hn.left_kept (e := { d with owner_stop := none }) rfl (Nat.le_refl _)
      refine stdio_server.spent d.server d.transport
        ((if d.transport.shared.closing_ = true then 0 else 2) + d.nested_left) rfl rfl
        (Nat.le_of_eq ?_) ?_
      · rw [stdio_server.extra_left, if_pos rfl, Nat.zero_add, hnested]
      · have hone : (if d.owner_stop = none then 0 else 1) = 1 := by
          rw [hstop]
          rfl
        rw [hparts, stdio_server.extra_left, hone]
        omega
  | @application_stops who hruns hstop =>
      -- not a step of the shutdown
      have hsame := congrFun hown.2 who
      rw [hstop] at hsame
      have hbegun : Function.update d.nested who (some d.server.world.stops.length) who =
          some d.server.world.stops.length := Function.update_self _ _ _
      cases hbegun.symm.trans hsame
  | @application_stopped who call hnested hstops =>
      have hless : stdio_server.extra_left
          { d with nested := Function.update d.nested who none } < d.extra_left :=
        Nat.add_lt_add_left (hn.left_ended hnested) _
      refine stdio_server.spent d.server d.transport _ rfl rfl (Nat.le_refl _) ?_
      rw [hparts]
      omega
  | @stop_closing v call hstops _ hclosing hstop =>
      obtain ⟨-, hsame⟩ := hstop.spends_close (26 * server_unit o + loop_unit lib)
        (5 * server_unit o)
      have hspent := host.stopped_left hunit hstops
      refine stdio_server.spent (stopped_transport d.server call) v d.extra_left rfl rfl
        (extra_left_of_closing rfl hstop.steady.2 (hn.left_kept rfl (hset _ _ _))) ?_
      rw [hparts, hsame, if_pos hclosing]
      omega
  | @stop_closes v call hstops hopen hstop =>
      obtain ⟨hclosed, hmore⟩ := hstop.spends_close (26 * server_unit o + loop_unit lib)
        (5 * server_unit o)
      have hnested := hn.left_kept (e := { d with transport := v, requester := some call }) rfl
        (Nat.le_refl _)
      refine stdio_server.spent d.server v
        ((if d.owner_stop = none then 0 else 1) + d.nested_left) rfl rfl (Nat.le_of_eq ?_) ?_
      · rw [stdio_server.extra_left, if_pos hclosed, Nat.add_zero, hnested]
      · rw [hparts, hmore, stdio_server.extra_left, hopen]
        simp only [Bool.false_eq_true, if_false]
        omega
  | stop_requests hrequester hrequest =>
      exact hmoves hrequest trivial rfl rfl rfl (hn.left_kept rfl (hset _ _ _))
        (Nat.le_of_lt (host.stopped_left hunit (hp.requester _ hrequester)))
  | @cleaned call err howner hstops =>
      have hwaits : stdio_world.steps_left (26 * server_unit o + loop_unit lib)
          (5 * server_unit o)
          { d.transport with waits := d.transport.waits ++ [.polling false] } =
            d.transport.steps_left (26 * server_unit o + loop_unit lib) (5 * server_unit o) +
              2 := by
        simp only [stdio_world.steps_left, stdio_world.reading_left, waits_left_polling]
        omega
      refine stdio_server.spent
        { d.server with owner := .waiting (.start err) d.server.transport.stopped }
        { d.transport with waits := d.transport.waits ++ [.polling false] } d.extra_left rfl rfl
        (extra_left_of_closing rfl id (hn.left_kept rfl (Nat.le_refl _))) ?_
      rw [hparts, hwaits, host.steps_left, host.steps_left, howner]
      simp only [owner_at.steps_left]
      omega
  | wait => exact hown.elim
  | waited howner hwaits =>
      refine stdio_server.spent
        { d.server with
          transport := { d.server.transport with
            joined := d.server.transport.joined || _ }
          owner := if d.server.executor_ = .published then .joining _ else .finishing _ }
        d.transport d.extra_left rfl rfl
        (extra_left_of_closing rfl id (hn.left_kept rfl (Nat.le_refl _))) ?_
      rw [hparts, host.steps_left, host.steps_left, howner]
      dsimp only
      split <;> simp only [owner_at.steps_left] <;> omega
  | wait_expires howner hwaits =>
      refine stdio_server.spent { d.server with owner := .idle } d.transport d.extra_left rfl rfl
        (extra_left_of_closing rfl id (hn.left_kept rfl (Nat.le_refl _))) ?_
      rw [hparts, host.steps_left, host.steps_left, howner]
      simp only [owner_at.steps_left]
      omega

end Spending

end SynapseMcp
