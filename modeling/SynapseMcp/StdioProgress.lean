/-
That a `stdio_transport` comes to rest: its workers end, and every `wait` returns.

The peer sends finitely many bytes and closes its end, so the reader's loop ends; then a
close has begun, and the writer, who may have had nothing to write, ends too. A step of
the transport itself is any step but a call of `start`, `send`, `stop` or `wait`. A native
read or write answers some time, and how it answers is not restricted: the bound counts the
steps in which something fails with the others. Nothing has to fail, though, for the
transport to come to rest, so a state counts as stuck as soon as no step is left in which
nothing does.

The budget is counted in the steps of `StdioReading`'s measure of the loop, each worth
`unit`: a line the reader rejects makes a diagnostic, and what the writer does for it is
paid for by the reader. `callback` is kept for the close callback, where somebody listens.
-/
import SynapseMcp.Progress
import SynapseMcp.StdioReading
import SynapseMcp.ServerCustody

set_option autoImplicit false

namespace SynapseMcp

open Transition

/-- The steps of the threads that are in the transport's code already. -/
def stdio_own : stdio_world → stdio_action → stdio_world → Prop
  | _, .start _, _ => False
  | _, .send _ _, _ => False
  | _, .stop, _ => False
  | _, .wait, _ => False
  | _, _, _ => True

/-- A native read or write fails, or something in the loop or in the message callback throws. -/
def stdio_action.fails : stdio_action → Prop
  | .read_fails => True
  | .read_throws => True
  | .write_fails => True
  | .message_returns threw => threw = true
  | .diagnose m => m.throws ≠ none
  | _ => False

/-- Of these, the steps for which nothing has to fail. -/
def stdio_unfailing (w : stdio_world) (a : stdio_action) (t : stdio_world) : Prop :=
  stdio_own w a t ∧ ¬a.fails

/-- What the reader does by itself is such a step. -/
theorem stdio_action.reads.unfailing {a : stdio_action} (h : a.reads) (w t : stdio_world) :
    stdio_unfailing w a t := by
  cases a with
  | wake | read | eof | reader | tail => exact ⟨trivial, id⟩
  | diagnose m => exact ⟨trivial, fun hthrows => hthrows h⟩
  | message_returns threw =>
      refine ⟨trivial, fun hthrew => ?_⟩
      have hreturned : threw = false := h
      rw [hreturned] at hthrew
      cases hthrew
  | _ => exact h.elim

/-! ## What is left to do

Each thread is counted by its place, and what is handed from one to another is paid for by the
one who hands it on. A rejected line costs the reader a diagnostic; that is a frame in the
queue, which the writer takes, writes and accounts for, and a unit of the loop is worth more
than that. `callback` is zero here; a server that listens for the close gives it the steps its
callback may cause.

The places behind the loop are counted from the end. `.claimed` is the first that has the close
callback before it, so from there on upwards `callback` is added. A writer that is writing
counts the bytes it has in hand one by one, since a native write may take a single byte; a frame
that waits has its bytes counted in the queue, with three more for taking it and being done with
it. -/

/-- A worker behind its loop. -/
def tail_at.steps_left (callback : Nat) : tail_at → Nat
  | .closing _ => callback + 7
  | .requesting => callback + 6
  | .publishing => callback + 5
  | .claimed _ => callback + 4
  | .called => 3
  | .returned => 2
  | .finishing => 1
  | .gone => 0

/-- Behind its loop the reader is counted by its place, before that by the loop. -/
def read_at.tail_left (callback : Nat) : read_at → Nat
  | .tail at_ => at_.steps_left callback
  | _ => 0

/-- The writer: the bytes it has in hand, one at a time at worst, and the way out. -/
def write_at.steps_left (callback : Nat) : write_at → Nat
  | .absent => 0
  | .waiting => callback + 9
  | .idle => callback + 8
  | .writing bytes offset => callback + 10 + (bytes.length - offset)
  | .tail at_ => at_.steps_left callback

/-- A frame is taken, written a byte at a time at worst, and accounted for. -/
def queue_left (queue : List (List UInt8)) : Nat := (queue.map fun bytes => bytes.length + 3).sum

/-- A call of `wait`: the poll, then the join. -/
def wait_call.steps_left : wait_call → Nat
  | .polling _ => 2
  | .joining _ => 1
  | _ => 0

/-- All calls of `wait`. -/
def waits_left (waits : List wait_call) : Nat := (waits.map wait_call.steps_left).sum

/-- A `start` that failed half way has to join the thread it made. -/
def start_at.steps_left : start_at → Nat
  | .joining => 1
  | _ => 0

/-- What a unit of the loop has to pay for. -/
def loop_unit (lib : json_library) : Nat := (lib.encoding parse_error_frame).length + 8

/-- How many steps the transport can take by itself, at most. -/
def stdio_world.steps_left (unit callback : Nat) (w : stdio_world) : Nat :=
  unit * w.reading_left + w.reader.tail_left callback + w.writer.steps_left callback +
    queue_left w.shared.queue_ + waits_left w.waits + w.starting.steps_left + w.requests

/-- A frame that is sent has to be taken. -/
@[simp] theorem queue_left_append (queue : List (List UInt8)) (bytes : List UInt8) :
    queue_left (queue ++ [bytes]) = queue_left queue + (bytes.length + 3) := by
  simp [queue_left]

/-- The front of the queue, and the rest. -/
theorem queue_left_cons (bytes : List UInt8) (queue : List (List UInt8)) :
    queue_left (bytes :: queue) = bytes.length + 3 + queue_left queue := by
  simp [queue_left]

/-- A step of one `wait` changes what that one has left. -/
theorem waits_left_set {waits : List wait_call} {call : Nat} {before : wait_call}
    (after : wait_call) (h : waits[call]? = some before) :
    waits_left (waits.set call after) + before.steps_left =
      waits_left waits + after.steps_left :=
  sum_map_set wait_call.steps_left after h

/-! ## Every own step spends

By who takes the step. The reader in its loop gives up at least one unit, and what it may leave
behind for others is less than that: a place behind the loop, or a frame in the queue. The
writer and the calls of `wait` go from place to place. None of it depends on how a read, a write
or a callback answered.

The unit has to pay for what one place of the loop can cause: the diagnostic of a rejected line,
which the writer then has to write byte by byte, or the way out of the loop, with `callback` for
the close callback. None of these depends on the line, so the same unit does for every place. -/

section Step

variable {lib : json_library} {w t : stdio_world} {a : stdio_action} {unit callback : Nat}

/-- The parts of the budget a step of the reader's loop leaves alone. -/
structure reader_step (w t : stdio_world) : Prop where
  writer : t.writer = w.writer
  queue : t.shared.queue_ = w.shared.queue_
  waits : t.waits = w.waits
  starting : t.starting = w.starting
  requests : t.requests = w.requests

/-- A step of the loop pays for where it leaves the reader. -/
theorem reader_step.spends (hsame : reader_step w t) (hunit : callback + 8 ≤ unit)
    (hbefore : w.reader.tail_left callback = 0) (hless : t.reading_left < w.reading_left)
    (htail : t.reader.tail_left callback ≤ callback + 7) :
    t.steps_left unit callback < w.steps_left unit callback := by
  have hpaid : unit * t.reading_left + unit ≤ unit * w.reading_left := by
    rw [← Nat.mul_succ]
    exact Nat.mul_le_mul_left unit hless
  simp only [stdio_world.steps_left, hsame.writer, hsame.queue, hsame.waits, hsame.starting,
    hsame.requests, hbefore]
  omega

/-- After a line the reader is in its loop, or about to close. -/
theorem after_frame.tail_left (after : after_frame) :
    after.reader.tail_left callback ≤ callback + 7 := by
  cases after with
  | scan rest => exact Nat.zero_le _
  | eof => exact Nat.le_refl _

/-- So it is after the decision about one. -/
theorem frame_next.tail_left (next : frame_next) (after : after_frame) :
    (next.reader after).tail_left callback ≤ callback + 7 := by
  cases next with
  | skip => exact after.tail_left
  | close reason | throw => exact Nat.le_refl _
  | diagnose | call value => exact Nat.zero_le _

/-- In its loop the reader has more than the close to do. -/
theorem read_at.left_of_loop {r : read_at} (h : r.in_loop = true) (unread : Nat) :
    1 < r.left unread := by
  cases r with
  | absent | waiting | tail => cases h
  | framing line after =>
      have hpos := after.left_pos unread
      show 1 < after.left unread + 4
      omega
  | diagnosing after | calling value after =>
      have hpos := after.left_pos unread
      show 1 < after.left unread + 3
      omega
  | called after =>
      have hpos := after.left_pos unread
      show 1 < after.left unread + 2
      omega
  | read_failed => exact Nat.lt_succ_self 1
  | head line | reading line | scanning line rest => exact Nat.le_add_left 2 _

/-- A step of the reader in its loop, or on the way into it. -/
theorem stdio_world.Step.spends_reader (hunit : callback + 8 ≤ unit)
    (hstep : stdio_world.Step lib w .reader t) :
    t.steps_left unit callback < w.steps_left unit callback := by
  -- the reader's step is lighter in its own place, and leaves the other threads alone
  have hsteps : ∀ {r : read_at}, w.reader = r → r.tail_left callback = 0 → reader_step w t →
      t.reader.left t.unread.length < r.left w.unread.length →
      t.reader.tail_left callback ≤ callback + 7 →
      t.steps_left unit callback < w.steps_left unit callback := by
    intro r hr hbefore hsame hless htail
    refine hsame.spends hunit (by rw [hr]; exact hbefore) ?_ htail
    rw [stdio_world.reading_left, stdio_world.reading_left, hr]
    exact hless
  cases hstep with
  | head_stops hreader hstop =>
      refine hsteps hreader rfl ⟨rfl, rfl, rfl, rfl, rfl⟩ ?_ (Nat.add_le_add_left (by decide) _)
      show 0 < 10 * w.unread.length + 7
      omega
  | head_reads hreader hstop =>
      exact hsteps hreader rfl ⟨rfl, rfl, rfl, rfl, rfl⟩ (Nat.lt_succ_self _) (Nat.zero_le _)
  | failed_stops hreader hstop =>
      exact hsteps hreader rfl ⟨rfl, rfl, rfl, rfl, rfl⟩ (Nat.zero_lt_succ 1)
        (Nat.add_le_add_left (by decide) _)
  | failed_closes hreader hstop =>
      exact hsteps hreader rfl ⟨rfl, rfl, rfl, rfl, rfl⟩ (Nat.lt_succ_self 1) (Nat.le_refl _)
  | scan_done hreader =>
      refine hsteps hreader rfl ⟨rfl, rfl, rfl, rfl, rfl⟩ ?_ (Nat.zero_le _)
      show 10 * w.unread.length + 7 < 10 * w.unread.length + 5 * 0 + 8
      omega
  -- what was not scanned is dropped, so the reader is at the end of its loop
  | @scan_stops line rest byte hreader hstop =>
      refine hsteps hreader rfl ⟨rfl, rfl, rfl, rfl, rfl⟩ ?_ (Nat.add_le_add_left (by decide) _)
      show 0 < 10 * w.unread.length + 5 * (rest.length + 1) + 8
      omega
  | @scan_newline line rest hreader hstop =>
      refine hsteps hreader rfl ⟨rfl, rfl, rfl, rfl, rfl⟩ ?_ (Nat.zero_le _)
      show 10 * w.unread.length + 5 * rest.length + 8 + 4 <
        10 * w.unread.length + 5 * (rest.length + 1) + 8
      omega
  | @scan_over line rest byte hreader hstop hbyte hfull =>
      refine hsteps hreader rfl ⟨rfl, rfl, rfl, rfl, rfl⟩ ?_ (Nat.le_refl _)
      show 1 < 10 * w.unread.length + 5 * (rest.length + 1) + 8
      omega
  | @scan_byte line rest byte hreader hstop hbyte hroom =>
      refine hsteps hreader rfl ⟨rfl, rfl, rfl, rfl, rfl⟩ ?_ (Nat.zero_le _)
      show 10 * w.unread.length + 5 * rest.length + 8 <
        10 * w.unread.length + 5 * (rest.length + 1) + 8
      omega
  -- of a frame at most a diagnostic or a callback is left to do
  | @frame line after hreader =>
      exact hsteps hreader rfl ⟨rfl, rfl, rfl, rfl, rfl⟩ (frame_next.left_reader _ _ after)
        (frame_next.tail_left _ after)
  | call_message hreader =>
      exact hsteps hreader rfl ⟨rfl, rfl, rfl, rfl, rfl⟩ (Nat.lt_succ_self _) (Nat.zero_le _)

/-- The writer goes on: a frame is taken from the queue, or is out. -/
theorem stdio_world.Step.spends_writer (hstep : stdio_world.Step lib w .writer t) :
    t.steps_left unit callback < w.steps_left unit callback := by
  cases hstep with
  | write_drained hwriter hclosing hqueue =>
      simp only [stdio_world.steps_left, stdio_world.reading_left, hwriter, write_at.steps_left,
        tail_at.steps_left]
      omega
  | @write_takes bytes rest hwriter hqueue =>
      simp only [stdio_world.steps_left, stdio_world.reading_left, hwriter, hqueue,
        stdio_transport.take_front, List.tail_cons, queue_left_cons, write_at.steps_left]
      omega
  | @write_done bytes offset hwriter hdone =>
      simp only [stdio_world.steps_left, stdio_world.reading_left, hwriter,
        stdio_transport.written_out, write_at.steps_left]
      omega

/-- The places of a worker behind its loop go down, whichever worker it is. -/
theorem tail_spends {side : Bool} {before : tail_at} (after : tail_at)
    (htail : w.tail side = some before)
    (hless : after.steps_left callback < before.steps_left callback)
    (hafter : ∀ reason, after ≠ .closing reason)
    (hreader : t.reader = if side then .tail after else w.reader)
    (hwriter : t.writer = if side then w.writer else .tail after)
    (hunread : t.unread = w.unread) (hqueue : t.shared.queue_ = w.shared.queue_)
    (hwaits : t.waits = w.waits) (hstarting : t.starting = w.starting)
    (hrequests : t.requests = w.requests) :
    t.steps_left unit callback < w.steps_left unit callback := by
  simp only [stdio_world.steps_left, stdio_world.reading_left, hreader, hwriter, hunread, hqueue,
    hwaits, hstarting, hrequests]
  cases side with
  | true =>
      have hzero := tail_at.left_of_begun w.unread.length hafter
      have hplace : w.reader = .tail before := stdio_world.reader_of_tail htail
      have hbefore : (read_at.tail before).tail_left callback = before.steps_left callback := rfl
      have hnow : (read_at.tail after).tail_left callback = after.steps_left callback := rfl
      rw [if_pos rfl, if_pos rfl, hzero, hplace, hbefore, hnow]
      omega
  | false =>
      have hplace : w.writer = .tail before := stdio_world.writer_of_tail htail
      have hbefore : (write_at.tail before).steps_left callback = before.steps_left callback := rfl
      have hnow : (write_at.tail after).steps_left callback = after.steps_left callback := rfl
      rw [if_neg Bool.false_ne_true, if_neg Bool.false_ne_true, hplace, hbefore, hnow]
      omega

/-- A worker behind its loop goes one place down, whatever it finds there. -/
theorem stdio_world.Step.spends_tail {side : Bool} (hstep : stdio_world.Step lib w (.tail side) t) :
    t.steps_left unit callback < w.steps_left unit callback := by
  cases hstep with
  | @tail_begins _ reason htail =>
      refine tail_spends (.begun (w.shared.begin_close reason).2) htail ?_ ?_ rfl rfl rfl
        (w.shared.begin_close_keeps_queue reason).queue rfl rfl rfl
      · cases (w.shared.begin_close reason).2 <;> simp [tail_at.begun, tail_at.steps_left]
      · cases (w.shared.begin_close reason).2 <;> nofun
  | tail_requests htail =>
      exact tail_spends .publishing htail (Nat.lt_succ_self _) nofun rfl rfl rfl rfl rfl rfl rfl
  | tail_claims htail =>
      refine tail_spends (.publishes w.shared.claim_close.2) htail ?_ ?_ rfl rfl rfl
        w.shared.claim_close_keeps_queue.queue rfl rfl rfl
      · cases w.shared.claim_close.2 <;>
          simp only [tail_at.publishes, Option.elim_none, Option.elim_some, tail_at.steps_left] <;>
          omega
      · cases w.shared.claim_close.2 <;> nofun
  | tail_calls htail =>
      refine tail_spends .called htail ?_ nofun rfl rfl rfl rfl rfl rfl rfl
      show 3 < callback + 4
      omega
  | tail_returns htail =>
      exact tail_spends .returned htail (Nat.lt_succ_self _) nofun rfl rfl rfl rfl rfl rfl rfl
  | tail_publishes htail =>
      exact tail_spends .finishing htail (Nat.lt_succ_self _) nofun rfl rfl rfl rfl rfl rfl rfl
  | tail_ends htail =>
      exact tail_spends .gone htail (Nat.lt_succ_self _) nofun rfl rfl rfl
        (w.shared.worker_done_keeps_queue side).queue rfl rfl rfl

/-- What the reader's reads and callbacks answer takes it on as well. -/
theorem stdio_world.Step.spends_input (hunit : callback + 8 ≤ unit)
    (hstep : stdio_world.Step lib w a t)
    (ha : a = .eof ∨ a = .read_fails ∨ a = .read_throws ∨ (∃ count, a = .read count) ∨
      ∃ threw, a = .message_returns threw) :
    t.steps_left unit callback < w.steps_left unit callback := by
  have hsteps : ∀ {r : read_at}, w.reader = r → r.tail_left callback = 0 → reader_step w t →
      t.reader.left t.unread.length < r.left w.unread.length →
      t.reader.tail_left callback ≤ callback + 7 →
      t.steps_left unit callback < w.steps_left unit callback := by
    intro r hr hbefore hsame hless htail
    refine hsame.spends hunit (by rw [hr]; exact hbefore) ?_ htail
    rw [stdio_world.reading_left, stdio_world.reading_left, hr]
    exact hless
  -- the reader's own place pays for each of these; a read turns unread bytes into bytes to scan
  rcases ha with rfl | rfl | rfl | ⟨count, rfl⟩ | ⟨threw, rfl⟩
  · cases hstep with
    | eof_in_line hreader hunread hline =>
        refine hsteps hreader rfl ⟨rfl, rfl, rfl, rfl, rfl⟩ ?_ (Nat.zero_le _)
        show 1 + 4 < 10 * w.unread.length + 6
        omega
    | eof hreader hunread =>
        refine hsteps hreader rfl ⟨rfl, rfl, rfl, rfl, rfl⟩ ?_ (Nat.le_refl _)
        show 1 < 10 * w.unread.length + 6
        omega
  · cases hstep with
    | read_fails hreader =>
        refine hsteps hreader rfl ⟨rfl, rfl, rfl, rfl, rfl⟩ ?_ (Nat.zero_le _)
        show 2 < 10 * w.unread.length + 6
        omega
  · cases hstep with
    | read_throws hreader =>
        have hloop : w.reader.tail_left callback = 0 := by
          cases hr : w.reader with
          | tail at_ =>
              rw [hr] at hreader
              cases hreader
          | _ => rfl
        exact hsteps rfl hloop ⟨rfl, rfl, rfl, rfl, rfl⟩ (read_at.left_of_loop hreader _)
          (Nat.le_refl _)
  · cases hstep with
    | read _ hreader hcount hbuffer hunread =>
        refine hsteps hreader rfl ⟨rfl, rfl, rfl, rfl, rfl⟩ ?_ (Nat.zero_le _)
        show 10 * (w.unread.drop count).length + 5 * (w.unread.take count).length + 8 <
          10 * w.unread.length + 6
        rw [List.length_drop, List.length_take]
        omega
  · cases hstep with
    | @message_returned after hreader =>
        refine hsteps hreader rfl ⟨rfl, rfl, rfl, rfl, rfl⟩ ?_ after.tail_left
        show after.reader.left w.unread.length < after.left w.unread.length + 2
        rw [after.left_reader]
        omega
    | @message_threw after hreader =>
        refine hsteps hreader rfl ⟨rfl, rfl, rfl, rfl, rfl⟩ ?_ (Nat.le_refl _)
        show 1 < after.left w.unread.length + 2
        have hpos := after.left_pos w.unread.length
        omega

/-- The diagnostic costs the writer no more than the reader has kept for it. -/
theorem stdio_world.Step.spends_diagnostic {m : serialized}
    (hunit : callback + loop_unit lib ≤ unit) (hstep : stdio_world.Step lib w (.diagnose m) t) :
    t.steps_left unit callback < w.steps_left unit callback := by
  have hlength : (lib.encoding parse_error_frame).length + 8 + callback ≤ unit := by
    rw [loop_unit] at hunit
    omega
  cases hstep with
  | @diagnose_sent shared after _ hreader hm hsend =>
      have hencoding := hm.encoding hsend
      -- the frame goes to the queue; its length is that of the diagnostic
      obtain ⟨-, -, -, rfl⟩ := stdio_transport.send_ok hsend
      have hbefore : w.reading_left = after.left w.unread.length + 3 := by
        rw [stdio_world.reading_left, hreader]
        rfl
      have hplace : w.reader.tail_left callback = 0 := by
        rw [hreader]
        rfl
      have htail : after.reader.tail_left callback ≤ callback + 7 := after.tail_left
      have hmul : unit * (after.left w.unread.length + 3) =
          unit * after.left w.unread.length + unit * 3 := Nat.mul_add _ _ _
      simp only [stdio_world.steps_left, hbefore, hplace, hmul]
      simp only [stdio_world.reading_left, after.left_reader, queue_left_append, hencoding,
        List.length_append, List.length_singleton]
      omega
  | @diagnose_fails err after _ hreader hm hsend =>
      have hpos := after.left_pos w.unread.length
      refine reader_step.spends ⟨rfl, rfl, rfl, rfl, rfl⟩ (by omega) (by rw [hreader]; rfl) ?_
        (Nat.le_refl _)
      rw [stdio_world.reading_left, stdio_world.reading_left, hreader]
      show 1 < after.left w.unread.length + 3
      omega

/-- Every step of a thread that is in the transport's code spends at least one, with a unit
large enough for a diagnostic. -/
theorem stdio_world.Step.spends (hunit : callback + loop_unit lib ≤ unit) (hown : stdio_own w a t)
    (hstep : stdio_world.Step lib w a t) :
    t.steps_left unit callback < w.steps_left unit callback := by
  have height : callback + 8 ≤ unit := by
    rw [loop_unit] at hunit
    omega
  cases a with
  | start | send | stop | wait => exact hown.elim
  | reader => exact hstep.spends_reader height
  | writer => exact hstep.spends_writer
  | tail reading => exact hstep.spends_tail
  | eof => exact hstep.spends_input height (.inl rfl)
  | read_fails => exact hstep.spends_input height (.inr (.inl rfl))
  | read_throws => exact hstep.spends_input height (.inr (.inr (.inl rfl)))
  | read count => exact hstep.spends_input height (.inr (.inr (.inr (.inl ⟨count, rfl⟩))))
  | message_returns threw =>
      exact hstep.spends_input height (.inr (.inr (.inr (.inr ⟨threw, rfl⟩))))
  | diagnose m => exact hstep.spends_diagnostic hunit
  -- the other threads: each step has a place of its own in the sum
  | start_joins =>
      cases hstep with
      | start_joins hstarting hreader hwriter =>
          simp only [stdio_world.steps_left, stdio_world.reading_left, hstarting,
            start_at.steps_left]
          omega
  | request_stop =>
      cases hstep with
      | request_stop hrequests =>
          simp only [stdio_world.steps_left, stdio_world.reading_left]
          omega
  | wake reading =>
      cases hstep with
      | wake_reader hreader hreleased hstarted =>
          refine reader_step.spends ⟨rfl, rfl, rfl, rfl, rfl⟩ height (by rw [hreader]; rfl) ?_
            (Nat.zero_le _)
          rw [stdio_world.reading_left, stdio_world.reading_left, hreader]
          show 10 * w.unread.length + 7 < 10 * w.unread.length + 9
          omega
      | wake_writer hwriter hreleased hstarted =>
          simp only [stdio_world.steps_left, stdio_world.reading_left, hwriter,
            write_at.steps_left]
          omega
      | wake_unstarted hwriter hreleased hstarted =>
          have hqueue := (w.shared.worker_done_keeps_queue false).queue
          simp only [stdio_world.steps_left, stdio_world.reading_left, hwriter, hqueue,
            write_at.steps_left, tail_at.steps_left]
          omega
  | expire =>
      cases hstep with
      | write_expires hwriter hclosing hqueue =>
          simp only [stdio_world.steps_left, stdio_world.reading_left, hwriter,
            write_at.steps_left, tail_at.steps_left]
          omega
  | write count =>
      cases hstep with
      | write _ hwriter hcount hrest =>
          simp only [stdio_world.steps_left, stdio_world.reading_left, hwriter,
            write_at.steps_left]
          omega
  | write_fails =>
      cases hstep with
      | write_fails hwriter hrest =>
          simp only [stdio_world.steps_left, stdio_world.reading_left, hwriter,
            write_at.steps_left, tail_at.steps_left]
          omega
  -- a `wait` goes on to join the workers, or returns: less is left of it either way
  | poll =>
      cases hstep with
      | poll_joined hcall hjoined =>
          have hset := waits_left_set (.joining w.shared.started_) hcall
          simp only [stdio_world.steps_left, stdio_world.reading_left]
          simp only [wait_call.steps_left] at hset
          omega
      | poll_expires hcall hjoined =>
          have hset := waits_left_set (.returned false w.shared.started_) hcall
          simp only [stdio_world.steps_left, stdio_world.reading_left]
          simp only [wait_call.steps_left] at hset
          omega
  | join =>
      cases hstep with
      | @join call running hcall hreader hwriter =>
          have hset := waits_left_set (.returned true running) hcall
          simp only [stdio_world.steps_left, stdio_world.reading_left]
          simp only [wait_call.steps_left] at hset
          omega

end Step

/-! ## What no step changes

The limits are set once, and closing is for good.

The size of a frame is bounded by the limit the transport was made with, and the price of a step
of those who send is chosen with that; a limit that could change would make the price wrong. -/

section Steady

variable {lib : json_library} {o : stdio_options} {stream : List UInt8} {w t : stdio_world}
  {a : stdio_action}

/-- The limits stay, and a close that has begun is not taken back. -/
theorem stdio_world.Step.steady (hstep : stdio_world.Step lib w a t) :
    t.shared.options_ = w.shared.options_ ∧
      (w.shared.closing_ = true → t.shared.closing_ = true) := by
  have hkept : ∀ {shared : stdio_transport}, w.shared.keeps_queue shared →
      shared.options_ = w.shared.options_ ∧ (w.shared.closing_ = true → shared.closing_ = true) :=
    fun hkeeps => ⟨hkeeps.options, hkeeps.closing⟩
  cases hstep with
  | start a | start_again a => exact hkept (w.shared.start_keeps_queue a)
  | send message m hm hsend | diagnose_sent m hreader hm hsend =>
      obtain ⟨-, -, -, rfl⟩ := stdio_transport.send_ok hsend
      exact ⟨rfl, id⟩
  | stop => exact hkept (w.shared.begin_close_keeps_queue .requested_stop)
  | tail_begins htail => exact hkept (w.shared.begin_close_keeps_queue _)
  | tail_claims htail => exact hkept w.shared.claim_close_keeps_queue
  | tail_ends htail => exact hkept (w.shared.worker_done_keeps_queue _)
  | wake_unstarted hwriter hreleased hstarted =>
      exact hkept (w.shared.worker_done_keeps_queue false)
  | _ => exact ⟨rfl, id⟩

/-- The limits a transport was made with. -/
theorem stdio_options_kept (h : (stdio_runs lib o stream).Reachable w) : w.shared.options_ = o := by
  refine h.invariant (P := fun w => w.shared.options_ = o) ?_ ?_
  · rintro w rfl
    rfl
  · intro w a t _ hkept hstep
    exact hstep.steady.1.trans hkept

end Steady

/-! ## Who is stuck

Where no step is left the threads are looked at one after another. The reader is in its loop
only as long as it has a step of its own (`read_loop_goes_on`), which no failure is needed for;
behind the loop it goes on to its end. Then the close has begun, and the writer, who waits for a
frame or for that, has its way out. With both gone, `joined` is what the calls of `wait` and a
failed `start` were waiting for.

A state is stuck when no step of the transport's own is left in which nothing fails. That is
less than having no step at all: a reader that could only throw would count as stuck, and so it
has to be shown that the loop has another way to go. The gate is a fact of its own: a thread
that waits for `released_` finds it set, as `start` makes a thread only in a call that goes on
to release it. -/

/-- A thread that waits for the start to be over is let go by it. -/
def stdio_world.gate (w : stdio_world) : Prop :=
  w.reader = .waiting ∨ w.writer = .waiting → w.shared.released_ = true

section Gate

variable {lib : json_library} {o : stdio_options} {stream : List UInt8} {w t : stdio_world}
  {a : stdio_action}

/-- A step that makes no thread and leaves the release alone. -/
theorem stdio_world.gate.same (h : w.gate) (hreader : t.reader = .waiting → w.reader = .waiting)
    (hwriter : t.writer = .waiting → w.writer = .waiting)
    (hreleased : t.shared.released_ = w.shared.released_) : t.gate := by
  rintro (hr | hw)
  · rw [hreleased]
    exact h (.inl (hreader hr))
  · rw [hreleased]
    exact h (.inr (hwriter hw))

/-- A worker behind its loop waits for no start, so to the gate it does not matter how far in
its tail it is. -/
theorem stdio_world.gate.tails (h : w.gate) {side : Bool} (after : tail_at)
    (hreader : t.reader = if side then .tail after else w.reader)
    (hwriter : t.writer = if side then w.writer else .tail after)
    (hreleased : t.shared.released_ = w.shared.released_) : t.gate := by
  refine h.same ?_ ?_ hreleased
  · intro hr
    rw [hreader] at hr
    cases side with
    | true => cases hr
    | false => exact hr
  · intro hw
    rw [hwriter] at hw
    cases side with
    | true => exact hw
    | false => cases hw

/-- To begin a close is not to take the release back. -/
theorem begin_close_released (t : stdio_transport) (reason : close_reason) :
    (t.begin_close reason).1.released_ = t.released_ := by
  rcases t.begin_close_cases reason with ⟨-, heq⟩ | ⟨-, heq⟩ <;> rw [heq]

/-- `start` makes a thread only where it lets it go. -/
theorem stdio_world.gate.starts (hthreads : w.view.threads) (a : start_answers)
    (hfresh : w.starting = .fresh) :
    stdio_world.gate
      { w with
        shared := (w.shared.start a).1
        starting := (w.shared.start a).2.starting
        reader := .made (w.shared.start a).1
        writer := .made (w.shared.start a).1 } := by
  obtain ⟨hreader, hwriter⟩ := hthreads.fresh hfresh
  have hread : w.shared.reader_done_ = true := hthreads.reader_done.trans (by rw [hreader]; rfl)
  have hwrite : w.shared.writer_done_ = true := hthreads.writer_done.trans (by rw [hwriter]; rfl)
  rcases w.shared.start_cases a with ⟨-, err, heq⟩ | ⟨-, ⟨err, heq⟩ | heq | heq | heq⟩
  · rw [heq]
    rintro (hr | hw)
    · simp [read_at.made, hread] at hr
    · simp [write_at.made, hwrite] at hw
  · rw [heq]
    rintro (hr | hw)
    · simp [read_at.made, hread] at hr
    · simp [write_at.made, hwrite] at hw
  all_goals
    rw [heq]
    exact fun _ => rfl

/-- Every step keeps the gate. A thread waits there only from the start that made it, which has
set `released_`, and nothing clears that. -/
theorem stdio_world.Step.gate (hlatch : w.view.latch) (hthreads : w.view.threads) (h : w.gate)
    (hstep : stdio_world.Step lib w a t) : t.gate := by
  cases hstep with
  | start a hfresh => exact stdio_world.gate.starts hthreads a hfresh
  | start_again a hstarting =>
      have hkept := stdio_transport.start_consumed a (hlatch.consumed hstarting)
      exact h.same id id (congrArg stdio_transport.released_ hkept)
  | send message m hm hsend =>
      obtain ⟨-, -, -, rfl⟩ := stdio_transport.send_ok hsend
      exact h.same id id rfl
  | stop => exact h.same id id (begin_close_released _ _)
  | @diagnose_sent shared after m hreader hm hsend =>
      obtain ⟨-, -, -, rfl⟩ := stdio_transport.send_ok hsend
      refine h.same ?_ id rfl
      intro hr
      cases after <;> cases hr
  | @message_returned after hreader =>
      refine h.same ?_ id rfl
      intro hr
      cases after <;> cases hr
  | @frame line after hreader =>
      refine h.same ?_ id rfl
      intro hr
      dsimp only at hr
      cases hnext : stdio_transport.frame lib w.shared.options_ line with
      | skip =>
          rw [hnext] at hr
          cases after <;> cases hr
      | close | diagnose | call | throw =>
          rw [hnext] at hr
          cases hr
  -- behind its loop a worker was let through before
  | @tail_begins side reason htail =>
      exact h.tails (.begun (w.shared.begin_close reason).2) rfl rfl (begin_close_released _ _)
  | tail_requests htail => exact h.tails .publishing rfl rfl rfl
  | tail_claims htail =>
      refine h.tails (.publishes w.shared.claim_close.2) rfl rfl ?_
      rcases w.shared.claim_close_cases with ⟨heq, -⟩ | ⟨-, -, reason, -, heq⟩ <;> rw [heq] <;> rfl
  | tail_calls htail => exact h.tails .called rfl rfl rfl
  | tail_returns htail => exact h.tails .returned rfl rfl rfl
  | tail_publishes htail => exact h.tails .finishing rfl rfl rfl
  | @tail_ends side htail =>
      refine h.tails .gone rfl rfl ?_
      cases side <;> rfl
  | start_joins | send_fails | request_stop | wait | wait_inside | poll_joined | poll_expires
  | join => exact h.same id id rfl
  -- no step of the loops touches `released_`, and none leads back to the gate
  | wake_reader | head_stops | head_reads | read | eof_in_line | eof | read_fails | failed_stops
  | failed_closes | read_throws | scan_done | scan_stops | scan_newline | scan_over | scan_byte
  | diagnose_fails | call_message | message_threw => exact h.same nofun id rfl
  | wake_writer | wake_unstarted | write_drained | write_expires | write_takes | write
  | write_fails | write_done => exact h.same id nofun rfl

/-- It holds in every state of a transport. -/
theorem stdio_gate (h : (stdio_runs lib o stream).Reachable w) : w.gate := by
  refine h.invariant (P := stdio_world.gate) ?_ ?_
  · rintro w rfl (hr | hw)
    · cases hr
    · cases hw
  · intro w a t hw hgate hstep
    obtain ⟨hl, ht, -⟩ := stdio_close_invariant hw
    exact hstep.gate hl ht hgate

end Gate

/-- The transport has no step to take, unless something fails. -/
def stdio_world.stuck (lib : json_library) (w : stdio_world) : Prop :=
  ∀ a t, stdio_unfailing w a t → ¬stdio_world.Step lib w a t

/-- Nothing is under way. -/
structure stdio_world.at_rest (w : stdio_world) : Prop where
  reader : w.reader.over = true
  writer : w.writer.over = true
  requests : w.requests = 0
  joined : w.shared.joined = true
  /-- No call of `wait` is left inside. -/
  waits : ∀ call ∈ w.waits,
    call = .refused ∨ ∃ completed running, call = .returned completed running
  starting : w.starting ≠ .joining
  /-- Of a transport that started, the close callback was called once, and is over. -/
  closed : w.starting = .started → w.closes.length = 1 ∧ w.returns = 1

section Stuck

variable {lib : json_library} {o : stdio_options} {stream : List UInt8} {w : stdio_world}

/-- Behind its loop a worker waits for nothing but the close callback to return. -/
theorem stuck_tail (h : w.stuck lib) {side : Bool} {at_ : tail_at}
    (htail : w.tail side = some at_) : at_ = .gone := by
  cases at_ with
  | closing reason => exact absurd (.tail_begins htail) (h (.tail side) _ ⟨trivial, id⟩)
  | requesting => exact absurd (.tail_requests htail) (h (.tail side) _ ⟨trivial, id⟩)
  | publishing => exact absurd (.tail_claims htail) (h (.tail side) _ ⟨trivial, id⟩)
  | claimed reason => exact absurd (.tail_calls htail) (h (.tail side) _ ⟨trivial, id⟩)
  | called => exact absurd (.tail_returns htail) (h (.tail side) _ ⟨trivial, id⟩)
  | returned => exact absurd (.tail_publishes htail) (h (.tail side) _ ⟨trivial, id⟩)
  | finishing => exact absurd (.tail_ends htail) (h (.tail side) _ ⟨trivial, id⟩)
  | gone => rfl

/-- The loop goes on by itself. -/
theorem stuck_reading (h : w.stuck lib)
    (hwaiting : w.reader = .waiting → w.shared.released_ = true ∧ w.shared.started_ = true) :
    w.reader.open_ = false := by
  by_contra hopen
  rw [Bool.not_eq_false] at hopen
  obtain ⟨a, t, hstep, hreads, -, -⟩ := read_loop_goes_on lib hopen hwaiting
  exact h a t (hreads.unfailing w t) hstep

/-- In a stuck transport the reader is over, or was never made: in its loop it would have a
step, and behind it too. -/
theorem stdio_stuck_reader (h : w.stuck lib) (hgate : w.gate) (ht : w.view.threads) :
    w.reader.over = true := by
  have hclosed : w.reader.open_ = false := by
    refine stuck_reading h fun hreader => ⟨hgate (.inl hreader), ?_⟩
    by_contra hnot
    rw [Bool.not_eq_true] at hnot
    have habsent := ht.reader_unstarted hnot
    rw [stdio_world.view, hreader] at habsent
    cases habsent
  cases hreader : w.reader with
  | absent => rfl
  | tail at_ =>
      have htail : w.tail true = some at_ := congrArg read_at.tail? hreader
      have hgone := stuck_tail h htail
      rw [hgone]
      rfl
  | waiting | head line | reading line | read_failed | scanning line rest | framing line after
  | diagnosing after | calling value after | called after =>
      rw [hreader] at hclosed
      cases hclosed

/-- A reader that is over has begun the close the writer waits for. -/
theorem stdio_stuck_writer (h : w.stuck lib) (hgate : w.gate) (hl : w.view.latch)
    (ht : w.view.threads) (hreader : w.reader.over = true) : w.writer.over = true := by
  cases hwriter : w.writer with
  | absent => rfl
  | waiting =>
      cases hstarted : w.shared.started_ with
      | true =>
          exact absurd (.wake_writer hwriter (hgate (.inr hwriter)) hstarted)
            (h (.wake false) _ ⟨trivial, id⟩)
      | false =>
          exact absurd (.wake_unstarted hwriter (hgate (.inr hwriter)) hstarted)
            (h (.wake false) _ ⟨trivial, id⟩)
  | idle =>
      have hlooping : close_view.unstarted (w.view.worker false) = false := by
        rw [close_view.worker, if_neg Bool.false_ne_true, stdio_world.view, hwriter]
        rfl
      have hstarted : w.shared.started_ = true := ht.running hlooping
      -- the reader was made, so being over means that it went through its whole tail
      have hgone : w.view.worker true = .tail .gone := by
        have hmade := (ht.made hstarted).1
        have hover : w.view.reader.over = true := w.reader.stage_over.trans hreader
        rw [close_view.worker, if_pos rfl]
        cases hview : w.view.reader with
        | absent => exact absurd hview hmade
        | waiting | looping =>
            rw [hview] at hover
            cases hover
        | tail at_ =>
            rw [hview] at hover
            cases at_ <;> first | rfl | cases hover
      have hclosing : w.shared.closing_ = true := hl.behind true .gone hgone rfl fun _ => hstarted
      cases hqueue : w.shared.queue_ with
      | nil => exact absurd (.write_drained hwriter hclosing hqueue) (h .writer _ ⟨trivial, id⟩)
      | cons bytes rest => exact absurd (.write_takes hwriter hqueue) (h .writer _ ⟨trivial, id⟩)
  | writing bytes offset =>
      by_cases hdone : bytes.length ≤ offset
      · exact absurd (.write_done hwriter hdone) (h .writer _ ⟨trivial, id⟩)
      · -- a write of one byte will do
        exact absurd (.write 1 hwriter (Nat.le_refl 1) (by omega))
          (h (.write 1) _ ⟨trivial, id⟩)
  | tail at_ =>
      have htail : w.tail false = some at_ := congrArg write_at.tail? hwriter
      have hgone := stuck_tail h htail
      rw [hgone]
      rfl

/-- Once both workers are over, what `wait` looks at says so. -/
theorem over_joined (ht : w.view.threads) (hl : w.view.latch) (hc : w.view.claim)
    (hreader : w.reader.over = true) (hwriter : w.writer.over = true) :
    w.shared.joined = true := by
  have hread : w.shared.reader_done_ = true :=
    ht.reader_done.trans (w.reader.stage_over.trans hreader)
  have hwrite : w.shared.writer_done_ = true :=
    ht.writer_done.trans (w.writer.stage_over.trans hwriter)
  have hclose : w.shared.close_done_ = true := by
    cases hstarted : w.shared.started_ with
    | false => exact (hc.unstarted hstarted).2
    | true =>
        have hsettled := ht.settled hstarted hread hwrite
        have hgone : w.view.worker true = .tail .gone := hsettled.reader
        have hclosing : w.shared.closing_ = true :=
          hl.behind true .gone hgone rfl fun _ => hstarted
        have hclaimed : w.view.shared.close_claimed_ = true :=
          hc.finished true hstarted (by rw [hgone]; rfl)
        have hdone := hc.done hstarted hclosing
        rw [hclaimed, close_view.total, close_view.total, close_view.total, hsettled.reader,
          hsettled.writer] at hdone
        cases hflag : w.shared.close_done_ with
        | true => rfl
        | false =>
            have hview : w.view.shared.close_done_ = false := hflag
            rw [hview] at hdone
            cases hdone
  rw [stdio_transport.joined, hread, hwrite, hclose]
  rfl

/-- Where no step is left, nothing is under way: both workers are over, every wait has returned
or was refused, and no start and no request to stop is pending. -/
theorem stdio_stuck_at_rest (hr : (stdio_runs lib o stream).Reachable w) (h : w.stuck lib) :
    w.at_rest := by
  obtain ⟨hl, ht, hc⟩ := stdio_close_invariant hr
  have hgate := stdio_gate hr
  have hreader := stdio_stuck_reader h hgate ht
  have hwriter := stdio_stuck_writer h hgate hl ht hreader
  have hjoined := over_joined ht hl hc hreader hwriter
  refine ⟨hreader, hwriter, ?_, hjoined, ?_, ?_, ?_⟩
  · rcases Nat.eq_zero_or_pos w.requests with hnone | hsome
    · exact hnone
    · exact absurd (.request_stop hsome) (h .request_stop _ ⟨trivial, id⟩)
  · intro at_ hmem
    obtain ⟨call, hcall⟩ := List.mem_iff_getElem?.mp hmem
    cases at_ with
    | refused => exact .inl rfl
    | polling bounded => exact absurd (.poll_joined hcall hjoined) (h .poll _ ⟨trivial, id⟩)
    | joining running => exact absurd (.join hcall hreader hwriter) (h .join _ ⟨trivial, id⟩)
    | returned completed running => exact .inr ⟨completed, running, rfl⟩
  · intro hstarting
    exact absurd (.start_joins hstarting hreader hwriter) (h .start_joins _ ⟨trivial, id⟩)
  · intro hstarting
    have hstarted := hl.started.mp hstarting
    have hread : w.shared.reader_done_ = true :=
      ht.reader_done.trans (w.reader.stage_over.trans hreader)
    have hwrite : w.shared.writer_done_ = true :=
      ht.writer_done.trans (w.writer.stage_over.trans hwriter)
    exact (ht.settled hstarted hread hwrite).closed hc

/-- Own steps spend what a state has left. -/
theorem stdio_steps_budget : (stdio_runs lib o stream).Budget stdio_own
    (stdio_world.steps_left (loop_unit lib) 0) :=
  fun _ _ _ _ hown hstep => hstep.spends (Nat.le_of_eq (Nat.zero_add _)) hown

/-- Whatever state a transport is in, it ends within the steps that are left to it, whether
reads, writes and callbacks fail in them or not: both workers are gone, the close callback was
called once and is over, and every call of `wait` has returned. No failure is needed for it. -/
theorem stdio_comes_to_rest (h : (stdio_runs lib o stream).Reachable w) :
    (stdio_runs lib o stream).CompletesBy stdio_own stdio_unfailing
      (w.steps_left (loop_unit lib) 0) stdio_world.at_rest w :=
  stdio_steps_budget.completes_by (fun _ _ _ hown => hown.1) h fun _ ht hstuck =>
    stdio_stuck_at_rest ht hstuck

end Stuck

/-- A transport that was just started, with two bytes to read. -/
theorem stdio_comes_to_rest_started :
    (stdio_runs stdio_session.lib {} [0x30, newline]).CompletesBy stdio_own stdio_unfailing
      (stdio_session.started.steps_left (loop_unit stdio_session.lib) 0) stdio_world.at_rest
      stdio_session.started :=
  stdio_comes_to_rest (System.restrict_reachable
    (stdio_session.reaches_started (C := fun _ _ => True) trivial))

end SynapseMcp
