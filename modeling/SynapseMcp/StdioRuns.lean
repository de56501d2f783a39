/-
Runs of a `stdio_transport`: its reader and its writer, `start`, and the calls of
`send`, `stop` and `wait` by any thread, interleaved at the boundaries of their locked
sections.

A thread's position is data. Both workers end in the same code, `tail_at`: a
`begin_close`, if one is due, `publish_close`, and the last section of `worker`. The
bytes the peer sends before it closes its end are given from the start, as `unread`;
how many of them a read delivers, and when, is the environment's.

A callback that was not given counts as one that does nothing. What a callback calls on
the transport are steps of their own, as any thread's are.

The last fields of the world are how the results are stated: what the reader did, whose
`send` succeeded, what was written, which `begin_close` took effect, what the close
callback was called with and how often it came back, and how the writer ended. Nothing
in the transport reads them.
-/
import SynapseMcp.StdioFraming
import SynapseMcp.Transition

set_option autoImplicit false

namespace SynapseMcp

open Transition

/-- What the reader does after the line it has framed. -/
inductive after_frame where
  | scan (rest : List UInt8)
  | eof

/-- A worker that has left its loop. -/
inductive tail_at where
  /-- `begin_close(reason)` is next. -/
  | closing (reason : close_reason)
  /-- It took effect; the reader's stop is to be requested. -/
  | requesting
  | publishing
  /-- The close is claimed; the callback is next. -/
  | claimed (reason : close_reason)
  | called
  /-- The callback is over. -/
  | returned
  | finishing
  | gone
  deriving DecidableEq

/-- Where the reader is. -/
inductive read_at where
  | absent
  | waiting
  /-- At the loop's test. -/
  | head (line : List UInt8)
  | reading (line : List UInt8)
  /-- `read_some` failed. -/
  | read_failed
  /-- In the loop over the chunk, `rest` of it to come. -/
  | scanning (line rest : List UInt8)
  | framing (line : List UInt8) (after : after_frame)
  | diagnosing (after : after_frame)
  | calling (value : json) (after : after_frame)
  | called (after : after_frame)
  | tail (at_ : tail_at)

/-- Where the writer is. -/
inductive write_at where
  | absent
  | waiting
  | idle
  | writing (bytes : List UInt8) (offset : Nat)
  | tail (at_ : tail_at)

/-- How `write_loop` ended. -/
inductive write_end where
  | drained
  | expired
  | failed
  deriving DecidableEq

/-- The call of `start` that consumed the transport, or found it consumed by `stop`. -/
inductive start_at where
  | fresh
  | joining
  | failed
  | started
  deriving DecidableEq

/-- A call of `wait` or `wait_for`. -/
inductive wait_call where
  /-- Called inside a callback of the transport. -/
  | refused
  | polling (bounded : Bool)
  /-- The flags were set, `running` telling whether the transport was started then. -/
  | joining (running : Bool)
  | returned (completed running : Bool)

/-- A transport, its two threads, the calls under way and what is recorded of the run. -/
structure stdio_world where
  shared : stdio_transport
  starting : start_at
  reader : read_at
  writer : write_at
  reader_stop_ : Bool
  /-- Calls of `stop()` that are to request the reader's stop. -/
  requests : Nat
  waits : List wait_call
  unread : List UInt8
  acts : List read_act
  admitted : List json
  written : List UInt8
  begun : List close_reason
  closes : List close_reason
  returns : Nat
  writer_ended : Option write_end

/-! ## Positions

Both workers leave their loop for the same code. `tail` and `at_tail` read and set the position
there for either of them, so that each step of it is written once, with a flag for whose it is. -/

/-- Where `start` is after its locked part. -/
def start_outcome.starting : start_outcome → start_at
  | .failed _ => .failed
  | .joining => .joining
  | .started => .started

/-- `start` makes a thread exactly when it leaves its flag down. -/
def read_at.made (t : stdio_transport) : read_at := if t.reader_done_ then .absent else .waiting

/-- The same for the writer. -/
def write_at.made (t : stdio_transport) : write_at := if t.writer_done_ then .absent else .waiting

/-- Where the reader is once `frame` has returned true. -/
def after_frame.reader : after_frame → read_at
  | .scan rest => .scanning [] rest
  | .eof => .tail (.closing .eof)

/-- Where it is after the decision about a line. -/
def frame_next.reader (after : after_frame) : frame_next → read_at
  | .skip => after.reader
  | .close reason => .tail (.closing reason)
  | .diagnose => .diagnosing after
  | .call value => .calling value after
  | .throw => .tail (.closing .io_error)

/-- Inside `read_loop`. -/
def read_at.in_loop : read_at → Bool
  | .absent => false
  | .waiting => false
  | .tail _ => false
  | _ => true

/-- The thread does not exist, or has ended. -/
def read_at.over : read_at → Bool
  | .absent => true
  | .tail .gone => true
  | _ => false

/-- The same for the writer. -/
def write_at.over : write_at → Bool
  | .absent => true
  | .tail .gone => true
  | _ => false

/-- Where behind its loop the reader is, if it is there. -/
def read_at.tail? : read_at → Option tail_at
  | .tail at_ => some at_
  | _ => none

/-- And the writer. -/
def write_at.tail? : write_at → Option tail_at
  | .tail at_ => some at_
  | _ => none

namespace stdio_world

/-- Where the worker is after its loop: `worker(reading)`. -/
def tail (w : stdio_world) (reading : Bool) : Option tail_at :=
  if reading then w.reader.tail? else w.writer.tail?

/-- The worker is moved to that place behind its loop. -/
def at_tail (w : stdio_world) (reading : Bool) (at_ : tail_at) : stdio_world :=
  { w with
    reader := if reading then .tail at_ else w.reader
    writer := if reading then w.writer else .tail at_ }

/-- Read back: it is the reader that is there. -/
theorem reader_of_tail {w : stdio_world} {at_ : tail_at} (h : w.tail true = some at_) :
    w.reader = .tail at_ := by
  have htail : w.reader.tail? = some at_ := h
  cases hreader : w.reader with
  | tail at_' =>
      rw [hreader] at htail
      exact congrArg read_at.tail (Option.some.inj htail)
  | _ =>
      rw [hreader] at htail
      cases htail

/-- Or the writer. -/
theorem writer_of_tail {w : stdio_world} {at_ : tail_at} (h : w.tail false = some at_) :
    w.writer = .tail at_ := by
  have htail : w.writer.tail? = some at_ := h
  cases hwriter : w.writer with
  | tail at_' =>
      rw [hwriter] at htail
      exact congrArg write_at.tail (Option.some.inj htail)
  | _ =>
      rw [hwriter] at htail
      cases htail

/-- The section of `begin_close`. -/
def begin_close (w : stdio_world) (reason : close_reason) : stdio_world :=
  { w with
    shared := (w.shared.begin_close reason).1
    begun := w.begun ++ if (w.shared.begin_close reason).2 then [reason] else [] }

end stdio_world

/-- After the section of `begin_close` in a worker. -/
def tail_at.begun (took_effect : Bool) : tail_at :=
  if took_effect then .requesting else .publishing

/-- After the first section of `publish_close`. -/
def tail_at.publishes (claim : Option close_reason) : tail_at := claim.elim .finishing .claimed

/-! ## Steps

One step is what happens between a release of the mutex and the next one, or a call into the
library, a callback or the system that is made without it. What such a call answers is in the
label or is an argument that nothing constrains. Threads are not scheduled: any step that is
possible may be next. -/

/-- Whose step it is, with what the environment answered in it. -/
inductive stdio_action where
  | start (a : start_answers)
  | start_joins
  | send (message : json) (m : serialized)
  | stop
  | request_stop
  | wake (reading : Bool)
  | read (count : Nat)
  | eof
  | read_fails
  | read_throws
  | reader
  | diagnose (m : serialized)
  | message_returns (threw : Bool)
  | writer
  | expire
  | write (count : Nat)
  | write_fails
  | tail (reading : Bool)
  | wait
  | poll
  | join

/-- What the serializer did with `message`: its text, unless something threw. -/
def json_library.serializes (lib : json_library) (message : json) (m : serialized) : Prop :=
  m.throws = none → m.puts = lib.dump message

/-- What a `send` that succeeded queued is the compact text of its message. -/
theorem json_library.serializes.encoding {lib : json_library} {message : json} {m : serialized}
    {t t' : stdio_transport} (hm : lib.serializes message m) (hsend : t.send m = .ok t') :
    m.encoding = lib.encoding message :=
  congrArg (List.flatMap put.bytes) (hm (stdio_transport.send_throws hsend))

/-- The steps, by the function they are in: `start`, `send`, `stop` and `wait`, then the reader,
the writer, and the code both end in. -/
inductive stdio_world.Step (lib : json_library) : stdio_world → stdio_action → stdio_world → Prop
  /-- The first call of `start`, as far as its mutex is held. -/
  | start {w : stdio_world} (a : start_answers) (hfresh : w.starting = .fresh) :
      Step lib w (.start a)
        { w with
          shared := (w.shared.start a).1
          starting := (w.shared.start a).2.starting
          reader := .made (w.shared.start a).1
          writer := .made (w.shared.start a).1 }
  /-- A further call of `start`. -/
  | start_again {w : stdio_world} (a : start_answers) (hstarting : w.starting ≠ .fresh) :
      Step lib w (.start a) { w with shared := (w.shared.start a).1 }
  /-- A start that failed joins what it made. -/
  | start_joins {w : stdio_world} (hstarting : w.starting = .joining)
      (hreader : w.reader.over = true) (hwriter : w.writer.over = true) :
      Step lib w .start_joins { w with starting := .failed }
  /-- Any thread calls `send`. -/
  | send {w : stdio_world} {t : stdio_transport} (message : json) (m : serialized)
      (hm : lib.serializes message m) (hsend : w.shared.send m = .ok t) :
      Step lib w (.send message m) { w with shared := t, admitted := w.admitted ++ [message] }
  | send_fails {w : stdio_world} {err : sdk_error} (message : json) (m : serialized)
      (hm : lib.serializes message m) (hsend : w.shared.send m = .error err) :
      Step lib w (.send message m) w
  /-- Any thread calls `stop`. -/
  | stop (w : stdio_world) :
      Step lib w .stop
        { w.begin_close .requested_stop with
          requests := w.requests +
            if (w.shared.begin_close .requested_stop).2 then 1 else 0 }
  | request_stop {w : stdio_world} (hrequests : 0 < w.requests) :
      Step lib w .request_stop { w with reader_stop_ := true, requests := w.requests - 1 }
  /-- The gate of `worker`, of a transport that started. -/
  | wake_reader {w : stdio_world} (hreader : w.reader = .waiting)
      (hreleased : w.shared.released_ = true) (hstarted : w.shared.started_ = true) :
      Step lib w (.wake true) { w with reader := .head [] }
  | wake_writer {w : stdio_world} (hwriter : w.writer = .waiting)
      (hreleased : w.shared.released_ = true) (hstarted : w.shared.started_ = true) :
      Step lib w (.wake false) { w with writer := .idle }
  /-- The same of one whose start failed: only the writer can be there. -/
  | wake_unstarted {w : stdio_world} (hwriter : w.writer = .waiting)
      (hreleased : w.shared.released_ = true) (hstarted : w.shared.started_ = false) :
      Step lib w (.wake false)
        { w with shared := w.shared.worker_done false, writer := .tail .gone }
  | head_stops {w : stdio_world} {line : List UInt8} (hreader : w.reader = .head line)
      (hstop : w.reader_stop_ = true) :
      Step lib w .reader { w with reader := .tail .publishing }
  | head_reads {w : stdio_world} {line : List UInt8} (hreader : w.reader = .head line)
      (hstop : w.reader_stop_ = false) :
      Step lib w .reader { w with reader := .reading line }
  | read {w : stdio_world} {line : List UInt8} (count : Nat) (hreader : w.reader = .reading line)
      (hcount : 1 ≤ count) (hbuffer : count ≤ 4096) (hunread : count ≤ w.unread.length) :
      Step lib w (.read count)
        { w with
          reader := .scanning line (w.unread.take count)
          unread := w.unread.drop count }
  | eof_in_line {w : stdio_world} {line : List UInt8} (hreader : w.reader = .reading line)
      (hunread : w.unread = []) (hline : line ≠ []) :
      Step lib w .eof { w with reader := .framing line .eof }
  | eof {w : stdio_world} (hreader : w.reader = .reading []) (hunread : w.unread = []) :
      Step lib w .eof { w with reader := .tail (.closing .eof) }
  | read_fails {w : stdio_world} {line : List UInt8} (hreader : w.reader = .reading line) :
      Step lib w .read_fails { w with reader := .read_failed }
  | failed_stops {w : stdio_world} (hreader : w.reader = .read_failed)
      (hstop : w.reader_stop_ = true) :
      Step lib w .reader { w with reader := .tail .publishing }
  | failed_closes {w : stdio_world} (hreader : w.reader = .read_failed)
      (hstop : w.reader_stop_ = false) :
      Step lib w .reader { w with reader := .tail (.closing .io_error) }
  /-- Anything in the loop throws: `worker` catches it. -/
  | read_throws {w : stdio_world} (hreader : w.reader.in_loop = true) :
      Step lib w .read_throws { w with reader := .tail (.closing .io_error) }
  | scan_done {w : stdio_world} {line : List UInt8} (hreader : w.reader = .scanning line []) :
      Step lib w .reader { w with reader := .head line }
  | scan_stops {w : stdio_world} {line rest : List UInt8} {byte : UInt8}
      (hreader : w.reader = .scanning line (byte :: rest)) (hstop : w.reader_stop_ = true) :
      Step lib w .reader { w with reader := .tail .publishing }
  | scan_newline {w : stdio_world} {line rest : List UInt8}
      (hreader : w.reader = .scanning line (newline :: rest)) (hstop : w.reader_stop_ = false) :
      Step lib w .reader { w with reader := .framing line (.scan rest) }
  | scan_over {w : stdio_world} {line rest : List UInt8} {byte : UInt8}
      (hreader : w.reader = .scanning line (byte :: rest)) (hstop : w.reader_stop_ = false)
      (hbyte : byte ≠ newline) (hfull : line.length = w.shared.options_.max_frame_bytes) :
      Step lib w .reader { w with reader := .tail (.closing .protocol_limit) }
  | scan_byte {w : stdio_world} {line rest : List UInt8} {byte : UInt8}
      (hreader : w.reader = .scanning line (byte :: rest)) (hstop : w.reader_stop_ = false)
      (hbyte : byte ≠ newline) (hroom : line.length ≠ w.shared.options_.max_frame_bytes) :
      Step lib w .reader { w with reader := .scanning (line ++ [byte]) rest }
  | frame {w : stdio_world} {line : List UInt8} {after : after_frame}
      (hreader : w.reader = .framing line after) :
      Step lib w .reader
        { w with reader := (stdio_transport.frame lib w.shared.options_ line).reader after }
  | diagnose_sent {w : stdio_world} {t : stdio_transport} {after : after_frame} (m : serialized)
      (hreader : w.reader = .diagnosing after) (hm : lib.serializes parse_error_frame m)
      (hsend : w.shared.send m = .ok t) :
      Step lib w (.diagnose m)
        { w with
          shared := t
          reader := after.reader
          acts := w.acts ++ [.send parse_error_frame]
          admitted := w.admitted ++ [parse_error_frame] }
  | diagnose_fails {w : stdio_world} {err : sdk_error} {after : after_frame} (m : serialized)
      (hreader : w.reader = .diagnosing after) (hm : lib.serializes parse_error_frame m)
      (hsend : w.shared.send m = .error err) :
      Step lib w (.diagnose m) { w with reader := .tail (.closing .protocol_limit) }
  | call_message {w : stdio_world} {value : json} {after : after_frame}
      (hreader : w.reader = .calling value after) :
      Step lib w .reader { w with reader := .called after, acts := w.acts ++ [.message value] }
  | message_returned {w : stdio_world} {after : after_frame} (hreader : w.reader = .called after) :
      Step lib w (.message_returns false) { w with reader := after.reader }
  | message_threw {w : stdio_world} {after : after_frame} (hreader : w.reader = .called after) :
      Step lib w (.message_returns true) { w with reader := .tail (.closing .io_error) }
  | write_drained {w : stdio_world} (hwriter : w.writer = .idle)
      (hclosing : w.shared.closing_ = true) (hqueue : w.shared.queue_ = []) :
      Step lib w .writer { w with writer := .tail .publishing, writer_ended := some .drained }
  /-- The deadline has passed. -/
  | write_expires {w : stdio_world} (hwriter : w.writer = .idle)
      (hclosing : w.shared.closing_ = true) (hqueue : w.shared.queue_ ≠ []) :
      Step lib w .expire { w with writer := .tail .publishing, writer_ended := some .expired }
  | write_takes {w : stdio_world} {bytes : List UInt8} {rest : List (List UInt8)}
      (hwriter : w.writer = .idle) (hqueue : w.shared.queue_ = bytes :: rest) :
      Step lib w .writer { w with shared := w.shared.take_front, writer := .writing bytes 0 }
  | write {w : stdio_world} {bytes : List UInt8} {offset : Nat} (count : Nat)
      (hwriter : w.writer = .writing bytes offset) (hcount : 1 ≤ count)
      (hrest : offset + count ≤ bytes.length) :
      Step lib w (.write count)
        { w with
          writer := .writing bytes (offset + count)
          written := w.written ++ (bytes.drop offset).take count }
  /-- `write_some` failed, wrote nothing, or threw. -/
  | write_fails {w : stdio_world} {bytes : List UInt8} {offset : Nat}
      (hwriter : w.writer = .writing bytes offset) (hrest : offset < bytes.length) :
      Step lib w .write_fails
        { w with writer := .tail (.closing .io_error), writer_ended := some .failed }
  | write_done {w : stdio_world} {bytes : List UInt8} {offset : Nat}
      (hwriter : w.writer = .writing bytes offset) (hdone : bytes.length ≤ offset) :
      Step lib w .writer { w with shared := w.shared.written_out bytes, writer := .idle }
  | tail_begins {w : stdio_world} {reading : Bool} {reason : close_reason}
      (htail : w.tail reading = some (.closing reason)) :
      Step lib w (.tail reading)
        ({ w.begin_close reason with
            acts := w.acts ++ if reading then [read_act.close reason] else [] }.at_tail reading
          (.begun (w.shared.begin_close reason).2))
  | tail_requests {w : stdio_world} {reading : Bool} (htail : w.tail reading = some .requesting) :
      Step lib w (.tail reading) ({ w with reader_stop_ := true }.at_tail reading .publishing)
  | tail_claims {w : stdio_world} {reading : Bool} (htail : w.tail reading = some .publishing) :
      Step lib w (.tail reading)
        ({ w with shared := w.shared.claim_close.1 }.at_tail reading
          (.publishes w.shared.claim_close.2))
  | tail_calls {w : stdio_world} {reading : Bool} {reason : close_reason}
      (htail : w.tail reading = some (.claimed reason)) :
      Step lib w (.tail reading) ({ w with closes := w.closes ++ [reason] }.at_tail reading .called)
  /-- The close callback returned, or threw. -/
  | tail_returns {w : stdio_world} {reading : Bool} (htail : w.tail reading = some .called) :
      Step lib w (.tail reading) ({ w with returns := w.returns + 1 }.at_tail reading .returned)
  | tail_publishes {w : stdio_world} {reading : Bool} (htail : w.tail reading = some .returned) :
      Step lib w (.tail reading)
        ({ w with shared := w.shared.close_published }.at_tail reading .finishing)
  | tail_ends {w : stdio_world} {reading : Bool} (htail : w.tail reading = some .finishing) :
      Step lib w (.tail reading)
        ({ w with shared := w.shared.worker_done reading }.at_tail reading .gone)
  /-- Any thread calls `wait` or `wait_for`. -/
  | wait (w : stdio_world) (bounded : Bool) :
      Step lib w .wait { w with waits := w.waits ++ [.polling bounded] }
  | wait_inside (w : stdio_world) : Step lib w .wait { w with waits := w.waits ++ [.refused] }
  | poll_joined {w : stdio_world} {call : Nat} {bounded : Bool}
      (hcall : w.waits[call]? = some (.polling bounded)) (hjoined : w.shared.joined = true) :
      Step lib w .poll { w with waits := w.waits.set call (.joining w.shared.started_) }
  | poll_expires {w : stdio_world} {call : Nat} (hcall : w.waits[call]? = some (.polling true))
      (hjoined : w.shared.joined = false) :
      Step lib w .poll { w with waits := w.waits.set call (.returned false w.shared.started_) }
  | join {w : stdio_world} {call : Nat} {running : Bool}
      (hcall : w.waits[call]? = some (.joining running))
      (hreader : w.reader.over = true) (hwriter : w.writer.over = true) :
      Step lib w .join { w with waits := w.waits.set call (.returned true running) }

/-- The transport as it is constructed, with the peer's bytes unread. -/
def stdio_world.fresh (o : stdio_options) (stream : List UInt8) : stdio_world where
  shared := .make o
  starting := .fresh
  reader := .absent
  writer := .absent
  reader_stop_ := false
  requests := 0
  waits := []
  unread := stream
  acts := []
  admitted := []
  written := []
  begun := []
  closes := []
  returns := 0
  writer_ended := none

/-- A transport with these options, whose peer sends `stream` and closes its end. -/
def stdio_runs (lib : json_library) (o : stdio_options) (stream : List UInt8) :
    System stdio_world stdio_action where
  init w := w = .fresh o stream
  step := stdio_world.Step lib

/-! ## A session

A transport whose peer sends the line `0`, as far as the end of `start`. It shows that
the states the results are about are reached. -/

namespace stdio_session

/-- What the line stands for. -/
def zero : json := .number_unsigned 0

/-- The library on the texts of the session. -/
def lib : json_library where
  parse line := if line = [0x30] then .value zero else .parse_error
  dump _ := [.character 0x30]

/-- Before `start`. -/
def opened : stdio_world := .fresh {} [0x30, newline]

/-- After it, both threads waiting for the mutex. -/
def started : stdio_world :=
  { opened with
    shared := ((stdio_transport.make {}).start .starts).1
    starting := .started
    reader := .waiting
    writer := .waiting }

variable {C : stdio_world → stdio_action → Prop}

/-- One step of `start`, under any restriction that allows it. -/
theorem reaches_started (hC : C opened (.start .starts)) :
    ((stdio_runs lib {} [0x30, newline]).restrict C).Reachable started := by
  have h0 : ((stdio_runs lib {} [0x30, newline]).restrict C).Reachable opened := .of_init rfl
  exact h0.step ⟨hC, stdio_world.Step.start .starts rfl⟩

end stdio_session

end SynapseMcp
