/-
`transport.hpp`: the state of `stdio_transport` under its mutex, and one function for
each section that holds it.

`send` encodes while it holds the mutex. What the JSON serializer does with the stream
is an argument, `serialized`: the characters and texts it puts, in order, and whether it
or an allocation throws after them. `bounded_buffer` is what the puts go into.

Time is not kept. `begin_close` sets a deadline that nothing but a comparison with the
clock reads, so the comparison is an answer of the environment where it is made. The
native endpoints (`io_`) are the environment's too.
-/
import SynapseMcp.OwnedExecutor

set_option autoImplicit false

namespace SynapseMcp

/-- Why a transport closed. The close callback is handed one of these. -/
inductive close_reason where
  | eof
  | requested_stop
  | io_error
  | protocol_limit
  deriving DecidableEq

/-- The limits and the budget, with their defaults. -/
structure stdio_options where
  max_frame_bytes : Nat := 1048576
  max_json_depth : Nat := 64
  max_outbound_bytes : Nat := 4194304
  /-- In milliseconds. -/
  flush_budget : Int := 250

/-- The limits `start` accepts. -/
def stdio_options.valid (o : stdio_options) : Bool :=
  o.max_frame_bytes ≠ 0 && o.max_json_depth ≠ 0 && o.max_outbound_bytes ≠ 0 &&
    0 < o.flush_budget && o.flush_budget ≤ 250

/-- `'\n'`. -/
def newline : UInt8 := 10

/-! ## The bounded stream buffer

The serializer writes to a `std::ostream` over this buffer, character by character or in texts.
A put that does not fit leaves the buffer as it was and marks it full; the stream goes bad with
it and, by its exception mask, throws, so that nothing is put after it. `encode` tells this from
an exception of the serializer's own by the mark. -/

/-- One operation of the serializer on the stream. -/
inductive put where
  | character (ch : UInt8)
  | text (data : List UInt8)

/-- The characters of a put. -/
def put.bytes : put → List UInt8
  | .character ch => [ch]
  | .text data => data

/-- What the serializer may throw; `encode` has an answer of its own for an exception of the
JSON library. -/
inductive thrown where
  | json_exception
  | other
  deriving DecidableEq

/-- What the serializer does for a message. -/
structure serialized where
  puts : List put
  throws : Option thrown

/-- The text of the message. -/
def serialized.encoding (m : serialized) : List UInt8 := m.puts.flatMap put.bytes

/-- `bounded_buffer`: what was put, the limit, and whether a put found it full. -/
structure bounded_buffer where
  bytes_ : List UInt8
  limit_ : Nat
  full_ : Bool

/-- The constructor. -/
def bounded_buffer.empty (limit : Nat) : bounded_buffer := ⟨[], limit, false⟩

/-- `xsputn`, with how many characters it took. -/
def bounded_buffer.xsputn (b : bounded_buffer) (data : List UInt8) : bounded_buffer × Nat :=
  if b.limit_ - b.bytes_.length < data.length then ({ b with full_ := true }, 0)
  else ({ b with bytes_ := b.bytes_ ++ data }, data.length)

/-- `overflow` of a character that is not end-of-file, with whether it was taken. -/
def bounded_buffer.overflow (b : bounded_buffer) (ch : UInt8) : bounded_buffer × Bool :=
  ((b.xsputn [ch]).1, (b.xsputn [ch]).2 = 1)

/-- One put, with whether the stream stays good. -/
def bounded_buffer.put (b : bounded_buffer) : put → bounded_buffer × Bool
  | .character ch => b.overflow ch
  | .text data => ((b.xsputn data).1, (b.xsputn data).2 = data.length)

/-- `stream << message`: the first put that fails throws. -/
def bounded_buffer.insert (b : bounded_buffer) : List SynapseMcp.put → bounded_buffer × Bool
  | [] => (b, true)
  | p :: rest => if (b.put p).2 then (b.put p).1.insert rest else ((b.put p).1, false)

/-! ## The transport

One function for each section under the mutex. What a section decides for the code that follows
it is returned beside the state: whether `begin_close` took effect, the reason `claim_close`
hands to the callback, how `start` ended. The order in which the sections run, and who runs
them, is the step relation's.

The limit `send` encodes with leaves room for the newline, which is put behind the text and
counted with it. A limit of zero cannot be met there, since a transport with one does not start;
`max_encoded_frame_bytes` may be asked before, and has its own answer for it. -/

/-- The fields that the mutex guards. -/
structure stdio_transport where
  options_ : stdio_options
  queue_ : List (List UInt8)
  queued_bytes_ : Nat
  consumed_ : Bool
  started_ : Bool
  released_ : Bool
  closing_ : Bool
  reader_done_ : Bool
  writer_done_ : Bool
  close_done_ : Bool
  close_claimed_ : Bool
  reason_ : Option close_reason

/-- What `start` meets outside the transport. -/
inductive start_answers where
  | open_fails (err : sdk_error)
  | writer_fails
  | reader_fails
  | starts

/-- How the locked part of `start` ended. -/
inductive start_outcome where
  | failed (err : sdk_error)
  /-- In the catch: to join the threads that were made. -/
  | joining
  | started
  deriving DecidableEq

namespace stdio_transport

/-- The constructor. No thread has been made, so both count as done. -/
def make (options : stdio_options) : stdio_transport where
  options_ := options
  queue_ := []
  queued_bytes_ := 0
  consumed_ := false
  started_ := false
  released_ := false
  closing_ := false
  reader_done_ := true
  writer_done_ := true
  close_done_ := true
  close_claimed_ := false
  reason_ := none

/-- `failure`, the error of a refused call. -/
def failure (code : sdk_errc) (text : String) : sdk_error := ⟨code, text⟩

/-- `start`, with the mutex held. -/
def start (t : stdio_transport) (a : start_answers) : stdio_transport × start_outcome :=
  if t.consumed_ then
    (t, .failed (failure .invalid_state "Transport already started or stopped"))
  else if !t.options_.valid then
    ({ t with consumed_ := true }, .failed (failure .invalid_state "Invalid stdio limits"))
  else
    match a with
    | .open_fails err => ({ t with consumed_ := true }, .failed err)
    | .writer_fails =>
        ({ t with consumed_ := true, writer_done_ := true, closing_ := true, released_ := true },
          .joining)
    | .reader_fails =>
        -- the writer is waiting to be released, and will find the start failed
        ({ t with
            consumed_ := true
            writer_done_ := false
            reader_done_ := true
            closing_ := true
            released_ := true }, .joining)
    | .starts =>
        ({ t with
            consumed_ := true
            writer_done_ := false
            reader_done_ := false
            started_ := true
            released_ := true }, .started)

/-! ### Frames

`encode` is the part of `send` between the two checks: the text of a message as far as it fits,
or the error the caller gets. The errors are those of the two catches, the one for exceptions of
the JSON library and the one for all others, and the one of a full buffer before them. -/

/-- The largest frame that can be admitted, without its newline. -/
def max_encoded_frame_bytes (t : stdio_transport) : Nat :=
  if t.options_.max_outbound_bytes = 0 then 0
  else min t.options_.max_frame_bytes (t.options_.max_outbound_bytes - 1)

/-- The encoding of a message, as far as it fits `limit`. -/
def encode (m : serialized) (limit : Nat) : Except sdk_error (List UInt8) :=
  let (buffer, good) := (bounded_buffer.empty limit).insert m.puts
  if !good then
    if buffer.full_ then .error (failure .resource_exhausted "Encoded frame limit exceeded")
    else .error (failure .resource_exhausted "Cannot queue JSON frame")
  else
    match m.throws with
    | some .json_exception => .error (failure .invalid_state "Cannot encode JSON frame")
    | some .other => .error (failure .resource_exhausted "Cannot queue JSON frame")
    | none => .ok buffer.bytes_

/-- `send`, all of it with the mutex held. -/
def send (t : stdio_transport) (m : serialized) : Except sdk_error stdio_transport :=
  if !t.started_ || t.closing_ then .error (failure .invalid_state "Transport is not running")
  else
    match encode m (min t.options_.max_frame_bytes (t.options_.max_outbound_bytes - 1)) with
    | .error err => .error err
    | .ok text =>
        let bytes := text ++ [newline]
        if t.options_.max_outbound_bytes - t.queued_bytes_ < bytes.length then
          .error (failure .resource_exhausted "Writer queue is full")
        else
          .ok { t with
            queue_ := t.queue_ ++ [bytes]
            queued_bytes_ := t.queued_bytes_ + bytes.length }

/-! ### Closing

A close begins in one section and is published in two more, with the callback between them,
outside the mutex. `close_done_` is what the waits look at beside the two flags of the threads:
it is true until a close of a started transport begins, and again once the callback has
returned. -/

/-- The section of `begin_close`, and whether it goes on to request the reader's stop. -/
def begin_close (t : stdio_transport) (reason : close_reason) : stdio_transport × Bool :=
  if t.closing_ then ({ t with consumed_ := true }, false)
  else
    ({ t with
        consumed_ := true
        closing_ := true
        reason_ := some reason
        close_done_ := !t.started_ }, true)

/-- The first section of `publish_close`: who claims the close gets the reason. -/
def claim_close (t : stdio_transport) : stdio_transport × Option close_reason :=
  if !t.started_ || t.reason_.isNone || t.close_claimed_ then (t, none)
  else ({ t with close_claimed_ := true }, t.reason_)

/-- The second section of `publish_close`. -/
def close_published (t : stdio_transport) : stdio_transport := { t with close_done_ := true }

/-- The last section of `worker(reading)`. -/
def worker_done (t : stdio_transport) (reading : Bool) : stdio_transport :=
  if reading then { t with reader_done_ := true } else { t with writer_done_ := true }

/-- `write_loop` moves the front of the queue out; `queued_bytes_` keeps it. -/
def take_front (t : stdio_transport) : stdio_transport := { t with queue_ := t.queue_.tail }

/-- The section after a frame is written. -/
def written_out (t : stdio_transport) (bytes : List UInt8) : stdio_transport :=
  { t with queued_bytes_ := t.queued_bytes_ - bytes.length }

/-- What `join_until` waits for. -/
def joined (t : stdio_transport) : Bool := t.reader_done_ && t.writer_done_ && t.close_done_

end stdio_transport

/-! ## What the sections do

One lemma for a section says everything it can do, guards included: `send_ok` for a message that
is admitted, `start_cases`, `begin_close_cases` and `claim_close_cases` by the way the section
went. The invariants of the run are proved from these, and the bodies are not unfolded again.
Most steps leave the queue alone, which `keeps_queue` says once for all of them. -/

/-- The buffer holds what was put, within its limit, as long as every put succeeded. -/
theorem bounded_buffer.insert_good {b : bounded_buffer} {puts : List SynapseMcp.put}
    (hlimit : b.bytes_.length ≤ b.limit_) (h : (b.insert puts).2 = true) :
    (b.insert puts).1.bytes_ = b.bytes_ ++ puts.flatMap put.bytes ∧
      (b.insert puts).1.bytes_.length ≤ b.limit_ := by
  induction puts generalizing b with
  | nil => simpa [bounded_buffer.insert] using hlimit
  | cons p rest ih =>
      have htext : ∀ data : List UInt8, ¬ b.limit_ - b.bytes_.length < data.length →
          b.bytes_.length + data.length ≤ b.limit_ := by
        intro data hfits
        omega
      rw [bounded_buffer.insert] at h ⊢
      by_cases hp : (b.put p).2 = true
      · rw [if_pos hp] at h ⊢
        have hone : (b.put p).1 = { b with bytes_ := b.bytes_ ++ p.bytes } ∧
            b.bytes_.length + p.bytes.length ≤ b.limit_ := by
          cases p with
          | character ch =>
              by_cases hfull : b.limit_ - b.bytes_.length < [ch].length
              · simp only [bounded_buffer.put, bounded_buffer.overflow, bounded_buffer.xsputn,
                  if_pos hfull, decide_eq_true_eq] at hp
                omega
              · refine ⟨?_, htext [ch] hfull⟩
                simp only [bounded_buffer.put, bounded_buffer.overflow, bounded_buffer.xsputn,
                  if_neg hfull, put.bytes]
          | text data =>
              by_cases hfull : b.limit_ - b.bytes_.length < data.length
              · simp only [bounded_buffer.put, bounded_buffer.xsputn, if_pos hfull,
                  decide_eq_true_eq] at hp
                omega
              · refine ⟨?_, htext data hfull⟩
                simp [bounded_buffer.put, bounded_buffer.xsputn, hfull, put.bytes]
        obtain ⟨heq, hroom⟩ := hone
        rw [heq] at h ⊢
        -- the rest is put into a buffer that holds this put too
        have := ih (b := { b with bytes_ := b.bytes_ ++ p.bytes })
          (by simpa using hroom) h
        simpa [List.append_assoc] using this
      · rw [if_neg hp] at h
        cases h

namespace stdio_transport

/-- What is encoded is the text of the message, and it fits. -/
theorem encode_ok {m : serialized} {limit : Nat} {text : List UInt8}
    (h : encode m limit = .ok text) : text = m.encoding ∧ text.length ≤ limit := by
  unfold encode at h
  by_cases hgood : ((bounded_buffer.empty limit).insert m.puts).2 = true
  · have hbuffer := bounded_buffer.insert_good (b := .empty limit) (Nat.zero_le _) hgood
    simp only [hgood, Bool.not_true, Bool.false_eq_true, if_false] at h
    -- a good stream, so only a throw after the last put could fail
    cases hthrows : m.throws with
    | some e => cases e <;> simp [hthrows] at h
    | none =>
        simp only [hthrows, Except.ok.injEq] at h
        rw [← h]
        exact hbuffer
  · simp only [hgood, Bool.not_false, if_true] at h
    split at h <;> cases h

/-- A message that was encoded did not make the serializer throw. -/
theorem encode_throws {m : serialized} {limit : Nat} {text : List UInt8}
    (h : encode m limit = .ok text) : m.throws = none := by
  unfold encode at h
  split at h
  rename_i buffer good heq
  by_cases hgood : good = true
  · rw [if_neg (by simp [hgood])] at h
    cases hthrows : m.throws with
    | none => rfl
    | some e => cases e <;> simp [hthrows] at h
  · rw [if_pos (by simpa using hgood)] at h
    split at h <;> cases h

/-- A successful `send` appends one newline-terminated frame to the queue, of a
transport that is running. -/
theorem send_ok {t t' : stdio_transport} {m : serialized} (h : t.send m = .ok t') :
    t.started_ = true ∧ t.closing_ = false ∧
      m.encoding.length + 1 ≤ t.options_.max_outbound_bytes - t.queued_bytes_ ∧
      t' = { t with
        queue_ := t.queue_ ++ [m.encoding ++ [newline]]
        queued_bytes_ := t.queued_bytes_ + (m.encoding.length + 1) } := by
  unfold send at h
  split at h
  · cases h
  rename_i hrunning
  simp only [Bool.or_eq_true, Bool.not_eq_true', not_or, Bool.not_eq_false,
    Bool.not_eq_true] at hrunning
  split at h
  · cases h
  rename_i text htext
  obtain ⟨rfl, -⟩ := encode_ok htext
  dsimp only at h
  split at h
  · cases h
  rename_i hroom
  simp only [List.length_append, List.length_singleton] at hroom h
  refine ⟨hrunning.1, hrunning.2, by omega, ?_⟩
  simpa using h.symm

/-- Nor did one that was sent, as `send` encodes a message before it admits it. -/
theorem send_throws {t t' : stdio_transport} {m : serialized} (h : t.send m = .ok t') :
    m.throws = none := by
  unfold send at h
  split at h
  · cases h
  split at h
  · cases h
  rename_i text htext
  exact encode_throws htext

/-- What `start` does: it refuses, fails before it makes a thread, fails in making the
writer or the reader, or starts. -/
theorem start_cases (t : stdio_transport) (a : start_answers) :
    (t.consumed_ = true ∧ ∃ err, t.start a = (t, .failed err)) ∨
      (t.consumed_ = false ∧
        ((∃ err, t.start a = ({ t with consumed_ := true }, .failed err)) ∨
          t.start a =
            ({ t with consumed_ := true, writer_done_ := true, closing_ := true,
                      released_ := true }, .joining) ∨
          t.start a =
            ({ t with consumed_ := true, writer_done_ := false, reader_done_ := true,
                      closing_ := true, released_ := true }, .joining) ∨
          t.start a =
            ({ t with consumed_ := true, writer_done_ := false, reader_done_ := false,
                      started_ := true, released_ := true }, .started))) := by
  unfold start
  by_cases hconsumed : t.consumed_ = true
  · rw [if_pos hconsumed]
    exact .inl ⟨hconsumed, _, rfl⟩
  · rw [if_neg hconsumed]
    refine .inr ⟨by simpa using hconsumed, ?_⟩
    by_cases hvalid : t.options_.valid = true
    · rw [if_neg (by simp [hvalid])]
      cases a with
      | open_fails err => exact .inl ⟨err, rfl⟩
      | writer_fails => exact .inr (.inl rfl)
      | reader_fails => exact .inr (.inr (.inl rfl))
      | starts => exact .inr (.inr (.inr rfl))
    · rw [if_pos (by simpa using hvalid)]
      exact .inl ⟨_, rfl⟩

/-- A transport that was consumed is not started again. -/
theorem start_consumed {t : stdio_transport} (a : start_answers) (h : t.consumed_ = true) :
    (t.start a).1 = t := by
  rcases t.start_cases a with ⟨-, err, heq⟩ | ⟨hconsumed, -⟩
  · rw [heq]
  · cases h.symm.trans hconsumed

/-- The first `begin_close` takes effect and keeps its reason; a later one does nothing
but consume the transport. -/
theorem begin_close_cases (t : stdio_transport) (reason : close_reason) :
    (t.closing_ = true ∧ t.begin_close reason = ({ t with consumed_ := true }, false)) ∨
      (t.closing_ = false ∧
        t.begin_close reason =
          ({ t with consumed_ := true, closing_ := true, reason_ := some reason,
                    close_done_ := !t.started_ }, true)) := by
  unfold begin_close
  cases hclosing : t.closing_ with
  | true => exact .inl ⟨rfl, rfl⟩
  | false => exact .inr ⟨rfl, rfl⟩

/-- A close is claimed once, of a transport that started, with its reason. -/
theorem claim_close_cases (t : stdio_transport) :
    (t.claim_close = (t, none) ∧
        (t.started_ = false ∨ t.reason_ = none ∨ t.close_claimed_ = true)) ∨
      (t.started_ = true ∧ t.close_claimed_ = false ∧ ∃ reason, t.reason_ = some reason ∧
        t.claim_close = ({ t with close_claimed_ := true }, some reason)) := by
  unfold claim_close
  cases hstarted : t.started_ with
  | false => exact .inl ⟨rfl, .inl rfl⟩
  | true =>
      cases hreason : t.reason_ with
      | none => exact .inl ⟨rfl, .inr (.inl rfl)⟩
      | some reason =>
          cases hclaimed : t.close_claimed_ with
          | true => exact .inl ⟨rfl, .inr (.inr rfl)⟩
          | false => exact .inr ⟨rfl, rfl, reason, rfl, rfl⟩

/-- What leaves the queue and the limits alone, and ends no close that has begun. -/
structure keeps_queue (t t' : stdio_transport) : Prop where
  options : t'.options_ = t.options_
  queue : t'.queue_ = t.queue_
  bytes : t'.queued_bytes_ = t.queued_bytes_
  closing : t.closing_ = true → t'.closing_ = true

/-- `start` touches the flags only. -/
theorem start_keeps_queue (t : stdio_transport) (a : start_answers) :
    t.keeps_queue (t.start a).1 := by
  rcases t.start_cases a with ⟨-, err, heq⟩ | ⟨-, ⟨err, heq⟩ | heq | heq | heq⟩ <;> rw [heq] <;>
    exact ⟨rfl, rfl, rfl, by simp⟩

/-- `begin_close` leaves what is queued to the writer. -/
theorem begin_close_keeps_queue (t : stdio_transport) (reason : close_reason) :
    t.keeps_queue (t.begin_close reason).1 := by
  rcases t.begin_close_cases reason with ⟨-, heq⟩ | ⟨-, heq⟩ <;> rw [heq] <;>
    exact ⟨rfl, rfl, rfl, by simp⟩

/-- The claim is a flag of its own. -/
theorem claim_close_keeps_queue (t : stdio_transport) : t.keeps_queue t.claim_close.1 := by
  rcases t.claim_close_cases with ⟨heq, -⟩ | ⟨-, -, reason, -, heq⟩ <;> rw [heq] <;>
    exact ⟨rfl, rfl, rfl, id⟩

/-- The end of a worker is a flag too. -/
theorem worker_done_keeps_queue (t : stdio_transport) (reading : Bool) :
    t.keeps_queue (t.worker_done reading) := by
  cases reading <;> exact ⟨rfl, rfl, rfl, id⟩

/-- Claiming a close does not undo the start. -/
@[simp] theorem claim_close_started (t : stdio_transport) :
    t.claim_close.1.started_ = t.started_ := by
  rcases t.claim_close_cases with ⟨heq, -⟩ | ⟨-, -, reason, -, heq⟩ <;> rw [heq]

/-- A transport that is closing still is after the claim. -/
@[simp] theorem claim_close_closing (t : stdio_transport) :
    t.claim_close.1.closing_ = t.closing_ := by
  rcases t.claim_close_cases with ⟨heq, -⟩ | ⟨-, -, reason, -, heq⟩ <;> rw [heq]

end stdio_transport

end SynapseMcp
