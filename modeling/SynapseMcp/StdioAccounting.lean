/-
What `queued_bytes_` counts.

It is raised when a frame is admitted and lowered when the last part of a frame is
written, by then long out of the queue. In between the writer may give up: the frame its
write failed on is never lowered for, and the transport keeps no trace of it. It is
recorded here beside the run, and the count is exact: the queue, the frame in hand and
the frame that failed.
-/
import SynapseMcp.StdioWriting
import SynapseMcp.StreamBuffers
import Mathlib.Algebra.Ring.Nat

set_option autoImplicit false

namespace SynapseMcp

open Transition

/-- The frame the writer is writing. -/
def write_at.in_hand : write_at → Option (List UInt8)
  | .writing bytes _ => some bytes
  | _ => none

/-- The record: a write that fails leaves the frame that was in hand. -/
def stdio_world.failing (w : stdio_world) : stdio_action →
    Option (List UInt8) → Option (List UInt8)
  | .write_fails, _ => w.writer.in_hand
  | _, failed => failed

/-- The runs of a transport, with the frame a write failed on. -/
def stdio_failing_runs (lib : json_library) (o : stdio_options) (stream : List UInt8) :
    System (stdio_world × Option (List UInt8)) stdio_action :=
  (stdio_runs lib o stream).recording stdio_world.failing none

/-! ## The ledger

`byte_ledger` is what the count depends on and nothing else: the limit, the queue, the frame in
hand, the frame that failed, and the count. Four things can happen to it. That the count is
exact is an invariant of these four, proved with no transport in sight; the transport's runs are
then shown to be runs of it, most of their steps being none.

A frame is in one place of the three at a time: it goes from the queue into the hand, and from
there out of the ledger or among the failed, of which there can be one. The last rule moves the
frame without touching the count. It is that move, and not an error in the arithmetic, by which
bytes stay counted that nobody will write. -/

/-- What the count depends on. -/
structure byte_ledger where
  max_outbound_bytes : Nat
  queue_ : List (List UInt8)
  queued_bytes_ : Nat
  in_hand : Option (List UInt8)
  failed : Option (List UInt8)

/-- The ledger of a transport, with the record of the failed frame. -/
def stdio_world.ledger (w : stdio_world × Option (List UInt8)) : byte_ledger :=
  ⟨w.1.shared.options_.max_outbound_bytes, w.1.shared.queue_, w.1.shared.queued_bytes_,
    w.1.writer.in_hand, w.2⟩

namespace byte_ledger

/-- The frames that are counted. -/
def frames (v : byte_ledger) : List (List UInt8) :=
  v.queue_ ++ v.in_hand.toList ++ v.failed.toList

/-- A frame is admitted if it fits; the front of the queue is taken in hand; a frame that was
written is counted off; a write fails, and its frame stays counted. -/
inductive step : byte_ledger → byte_ledger → Prop
  | admits {v : byte_ledger} (text : List UInt8)
      (hroom : text.length + 1 ≤ v.max_outbound_bytes - v.queued_bytes_) :
      step v
        { v with
          queue_ := v.queue_ ++ [text ++ [newline]]
          queued_bytes_ := v.queued_bytes_ + (text.length + 1) }
  | takes {v : byte_ledger} {bytes : List UInt8} {rest : List (List UInt8)}
      (hhand : v.in_hand = none) (hqueue : v.queue_ = bytes :: rest) :
      step v { v with queue_ := v.queue_.tail, in_hand := some bytes }
  | finishes {v : byte_ledger} {bytes : List UInt8} (hhand : v.in_hand = some bytes) :
      step v { v with queued_bytes_ := v.queued_bytes_ - bytes.length, in_hand := none }
  | fails {v : byte_ledger} (hfailed : v.failed = none) :
      step v { v with in_hand := none, failed := v.in_hand }

/-- The count is the size of the frames counted, each ended by its newline. -/
structure balanced (v : byte_ledger) : Prop where
  counted : v.queued_bytes_ = (v.frames.map List.length).sum
  limit : v.queued_bytes_ ≤ v.max_outbound_bytes
  ended : ∀ bytes ∈ v.frames, ∃ text, bytes = text ++ [newline]

/-- The size of the frames, from the three places. -/
theorem sum_frames (v : byte_ledger) :
    (v.frames.map List.length).sum = (v.queue_.map List.length).sum +
      v.in_hand.elim 0 List.length + v.failed.elim 0 List.length := by
  unfold frames
  cases v.in_hand <;> cases v.failed <;> simp [Nat.add_assoc]

/-- Each of the four keeps the balance. Taking a frame in hand and failing on it only move it,
the other two add or subtract its length on both sides. -/
theorem balanced.step {v v' : byte_ledger} (h : v.balanced) (hstep : v.step v') :
    v'.balanced := by
  obtain ⟨hcounted, hlimit, hended⟩ := h
  rw [sum_frames] at hcounted
  cases hstep with
  | admits text hroom =>
      refine ⟨?_, ?_, ?_⟩
      · rw [sum_frames]
        simp only [List.map_append, List.sum_append, List.map_cons, List.map_nil, List.sum_cons,
          List.sum_nil, List.length_append, List.length_singleton]
        omega
      · show v.queued_bytes_ + (text.length + 1) ≤ v.max_outbound_bytes
        omega
      -- the new frame has its newline, the others had theirs
      · intro bytes hbytes
        by_cases hold : bytes ∈ v.frames
        · exact hended bytes hold
        · refine ⟨text, ?_⟩
          simp only [frames, List.mem_append, not_or] at hold hbytes
          simpa [hold] using hbytes
  | @takes bytes rest hhand hqueue =>
      rw [hhand, hqueue] at hcounted
      refine ⟨?_, hlimit, ?_⟩
      · rw [sum_frames]
        simp only [hqueue, List.tail_cons, Option.elim_some]
        simp only [List.map_cons, List.sum_cons, Option.elim_none] at hcounted
        omega
      · intro frame hframe
        apply hended
        simp only [frames, hqueue, hhand, List.tail_cons, Option.toList_some, Option.toList_none,
          List.mem_append, List.mem_cons, List.not_mem_nil] at hframe ⊢
        tauto
  | @finishes bytes hhand =>
      rw [hhand] at hcounted
      simp only [Option.elim_some] at hcounted
      refine ⟨?_, ?_, ?_⟩
      · rw [sum_frames]
        simp only [Option.elim_none]
        omega
      · show v.queued_bytes_ - bytes.length ≤ v.max_outbound_bytes
        omega
      · intro frame hframe
        apply hended
        simp only [frames, hhand, Option.toList_some, Option.toList_none, List.mem_append,
          List.not_mem_nil, or_false] at hframe ⊢
        tauto
  | fails hfailed =>
      rw [hfailed] at hcounted
      refine ⟨?_, hlimit, ?_⟩
      · rw [sum_frames]
        simp only [Option.elim_none] at hcounted ⊢
        omega
      · intro frame hframe
        apply hended
        simp only [frames, hfailed, Option.toList_none, List.append_nil] at hframe ⊢
        exact hframe

end byte_ledger

/-- The ledger by itself, from an empty queue. -/
def byte_ledger_runs (o : stdio_options) : System byte_ledger Unit where
  init v := v = ⟨o.max_outbound_bytes, [], 0, none, none⟩
  step v _ v' := v.step v'

/-! ## A transport's ledger

A step of the transport is one of the four or leaves the ledger as it was. For the writer's
failure there is a condition: that no frame has failed before. It holds because a failed write
ends the writer, which the run lemma `failed_once` says.

The writer's position gives what is in hand, and the record gives what failed, so a step of the
transport determines the ledger behind it. Several native writes for one frame are no step of
the ledger at all: the frame is in hand during all of them and is counted as a whole. -/

namespace stdio_world

variable {lib : json_library} {o : stdio_options} {stream : List UInt8}

/-- How a step takes part in the ending of the writer: it leaves it alone, or the writer
was still in its loop. -/
theorem Step.writer_ended {w w' : stdio_world} {a : stdio_action} (h : Step lib w a w') :
    w'.writer_ended = w.writer_ended ∨ w.writer.left = false := by
  cases h with
  | write_drained hwriter => exact .inr (congrArg write_at.left hwriter)
  | write_expires hwriter => exact .inr (congrArg write_at.left hwriter)
  | write_fails hwriter => exact .inr (congrArg write_at.left hwriter)
  | _ => exact .inl rfl

/-- A write fails once, and ends the writer: a frame is recorded as failed only where the writer
has given up, and then it takes no other. -/
theorem failed_once {w : stdio_world × Option (List UInt8)}
    (h : (stdio_failing_runs lib o stream).Reachable w) :
    w.2 = none ∨ w.1.writer_ended = some .failed := by
  refine h.invariant (P := fun w => w.2 = none ∨ w.1.writer_ended = some .failed) ?_ ?_
  · intro w hw
    exact .inl hw.2
  · rintro ⟨w, failed⟩ a ⟨w', failed'⟩ hreach hw ⟨hstep, hrecord⟩
    have hreach' := System.recording_reachable hreach
    have hended : w'.writer_ended = w.writer_ended ∨ w.writer_ended = none := by
      rcases hstep.writer_ended with hsame | hleft
      · exact .inl hsame
      · exact .inr ((stdio_intact hreach').running hleft)
    by_cases hfails : a = .write_fails
    · subst hfails
      refine .inr ?_
      cases hstep
      rfl
    · have hkept : failed' = failed := by
        cases a <;> first | exact hrecord | exact absurd rfl hfails
      rw [hkept]
      rcases hw with hnone | hfailed
      · exact .inl hnone
      · rcases hended with hsame | hnone
        · exact .inr (hsame.trans hfailed)
        · cases hnone.symm.trans hfailed

/-- A step that leaves the queue alone, and the frame in hand. -/
theorem ledger_run_of_same {w w' : stdio_world} {failed : Option (List UInt8)}
    (hshared : w.shared.keeps_queue w'.shared) (hhand : w'.writer.in_hand = w.writer.in_hand) :
    (byte_ledger_runs o).Run (ledger (w, failed)) (ledger (w', failed)) := by
  have hsame : ledger (w', failed) = ledger (w, failed) := by
    simp only [ledger, hshared.options, hshared.queue, hshared.bytes, hhand]
  rw [hsame]
  exact .refl

/-- At the end of a worker, where only flags change and nothing is in hand. -/
theorem ledger_run_of_tail {w w' : stdio_world} {failed : Option (List UInt8)} {reading : Bool}
    {before after : tail_at} (htail : w.tail reading = some before)
    (hshared : w.shared.keeps_queue w'.shared)
    (hwriter : w'.writer = if reading then w.writer else .tail after) :
    (byte_ledger_runs o).Run (ledger (w, failed)) (ledger (w', failed)) := by
  refine ledger_run_of_same hshared ?_
  rw [hwriter]
  cases reading with
  | true => rfl
  | false =>
      rw [writer_of_tail htail]
      rfl

/-- A message that was sent is a frame admitted: the ledger makes its step with the encoding of
the message, and the newline is counted with it. -/
theorem ledger_run_of_send {w w' : stdio_world} {failed : Option (List UInt8)} {m : serialized}
    {t : stdio_transport} (hsend : w.shared.send m = .ok t) (hshared : w'.shared = t)
    (hhand : w'.writer.in_hand = w.writer.in_hand) :
    (byte_ledger_runs o).Run (ledger (w, failed)) (ledger (w', failed)) := by
  obtain ⟨-, -, hroom, rfl⟩ := stdio_transport.send_ok hsend
  have hstep := byte_ledger.step.admits (v := ledger (w, failed)) m.encoding hroom
  have heq : ledger (w', failed) =
      { ledger (w, failed) with
        queue_ := w.shared.queue_ ++ [m.encoding ++ [newline]]
        queued_bytes_ := w.shared.queued_bytes_ + (m.encoding.length + 1) } := by
    simp only [ledger, hshared, hhand]
  rw [heq]
  exact .single ⟨(), hstep⟩

/-- What a step of the transport is for the ledger. -/
theorem Step.ledger_run {w w' : stdio_world} {a : stdio_action} {failed : Option (List UInt8)}
    (hfresh : w.starting = .fresh → w.writer = .absent)
    (hfailed : w.writer.left = false → failed = none) (h : Step lib w a w') :
    (byte_ledger_runs o).Run (ledger (w, failed)) (ledger (w', w.failing a failed)) := by
  have hhand : ∀ {at_ : write_at}, w.writer = at_ →
      (ledger (w, failed)).in_hand = at_.in_hand :=
    fun heq => congrArg write_at.in_hand heq
  cases h with
  | start a hstarting =>
      refine ledger_run_of_same (w.shared.start_keeps_queue a) ?_
      rw [hfresh hstarting]
      unfold write_at.made
      dsimp only
      split <;> rfl
  | start_again a => exact ledger_run_of_same (w.shared.start_keeps_queue a) rfl
  | send message m hm hsend => exact ledger_run_of_send hsend rfl rfl
  | diagnose_sent m hreader hm hsend => exact ledger_run_of_send hsend rfl rfl
  | stop => exact ledger_run_of_same (w.shared.begin_close_keeps_queue .requested_stop) rfl
  | wake_writer hwriter =>
      exact ledger_run_of_same ⟨rfl, rfl, rfl, id⟩ (congrArg write_at.in_hand hwriter).symm
  | wake_unstarted hwriter =>
      exact ledger_run_of_same (w.shared.worker_done_keeps_queue false)
        (congrArg write_at.in_hand hwriter).symm
  | write_drained hwriter =>
      exact ledger_run_of_same ⟨rfl, rfl, rfl, id⟩ (congrArg write_at.in_hand hwriter).symm
  | write_expires hwriter =>
      exact ledger_run_of_same ⟨rfl, rfl, rfl, id⟩ (congrArg write_at.in_hand hwriter).symm
  | write_takes hwriter hqueue => exact .single ⟨(), .takes (hhand hwriter) hqueue⟩
  | write count hwriter =>
      exact ledger_run_of_same ⟨rfl, rfl, rfl, id⟩ (congrArg write_at.in_hand hwriter).symm
  -- the writer was still in its loop, so nothing had failed
  | write_fails hwriter =>
      exact .single ⟨(), .fails (hfailed (congrArg write_at.left hwriter))⟩
  | write_done hwriter => exact .single ⟨(), .finishes (hhand hwriter)⟩
  | tail_begins htail =>
      exact ledger_run_of_tail htail (w.shared.begin_close_keeps_queue _) rfl
  | tail_requests htail => exact ledger_run_of_tail htail ⟨rfl, rfl, rfl, id⟩ rfl
  | tail_claims htail => exact ledger_run_of_tail htail w.shared.claim_close_keeps_queue rfl
  | tail_calls htail => exact ledger_run_of_tail htail ⟨rfl, rfl, rfl, id⟩ rfl
  | tail_returns htail => exact ledger_run_of_tail htail ⟨rfl, rfl, rfl, id⟩ rfl
  | tail_publishes htail => exact ledger_run_of_tail htail ⟨rfl, rfl, rfl, id⟩ rfl
  | @tail_ends reading htail =>
      exact ledger_run_of_tail htail (w.shared.worker_done_keeps_queue reading) rfl
  -- the reader, the callbacks and the library
  | _ => exact .refl

end stdio_world

section Accounting

variable {lib : json_library} {o : stdio_options} {stream : List UInt8}

/-- The ledger goes along with every run of the transport. -/
theorem stdio_ledger_simulation (lib : json_library) (o : stdio_options) (stream : List UInt8) :
    System.Simulation (stdio_failing_runs lib o stream) (byte_ledger_runs o)
      stdio_world.ledger where
  init := by
    rintro ⟨w, failed⟩ ⟨rfl, rfl⟩
    rfl
  step := by
    rintro ⟨w, failed⟩ a ⟨w', failed'⟩ hw - ⟨hstep, rfl⟩
    have hreach := System.recording_reachable hw
    refine hstep.ledger_run (fun hfresh => ?_) fun hleft => ?_
    · obtain ⟨-, ht, -⟩ := stdio_close_invariant hreach
      have hstage : w.writer.stage = .absent := (ht.fresh hfresh).2
      cases hwriter : w.writer <;> rw [hwriter] at hstage <;> first | rfl | cases hstage
    · rcases stdio_world.failed_once hw with hnone | hfailed
      · exact hnone
      · cases ((stdio_intact hreach).running hleft).symm.trans hfailed

/-- So it is balanced in every state that a run reaches. -/
theorem stdio_balanced {w : stdio_world × Option (List UInt8)}
    (h : (stdio_failing_runs lib o stream).Reachable w) :
    (stdio_world.ledger w).balanced := by
  refine ((stdio_ledger_simulation lib o stream).reachable h).invariant
    (P := byte_ledger.balanced) ?_ ?_
  · rintro v rfl
    exact ⟨rfl, Nat.zero_le _, by simp [byte_ledger.frames]⟩
  · intro v _ v' _ hv hstep
    exact hv.step hstep

/-- Outbound byte accounting.

Whatever has happened to the transport, and whatever frame a write failed on, the count
is the size of the queue, of the frame the writer holds and of the frame that failed, of
which there is not both; every one of these frames ends in its newline. The count is
within the limit and not below the frame in hand, so neither subtraction wraps around,
and a running transport refuses a message it can encode exactly when the message and its
newline do not fit what is left. -/
theorem stdio_accounting {w : stdio_world} {failed : Option (List UInt8)}
    (h : (stdio_failing_runs lib o stream).Reachable (w, failed)) :
    w.shared.queued_bytes_ = (w.shared.queue_.map List.length).sum +
        w.writer.in_hand.elim 0 List.length + failed.elim 0 List.length ∧
      (w.writer.in_hand = none ∨ failed = none) ∧
      (∀ bytes ∈ w.shared.queue_ ++ w.writer.in_hand.toList ++ failed.toList,
        ∃ text, bytes = text ++ [newline]) ∧
      w.shared.queued_bytes_ ≤ w.shared.options_.max_outbound_bytes ∧
      (∀ bytes, w.writer.in_hand = some bytes → bytes.length ≤ w.shared.queued_bytes_) ∧
      (w.shared.started_ = true → w.shared.closing_ = false → ∀ m : serialized,
        m.throws = none → m.encoding.length ≤ w.shared.max_encoded_frame_bytes →
        ((∃ err, w.shared.send m = .error err) ↔
          w.shared.options_.max_outbound_bytes - w.shared.queued_bytes_ <
            m.encoding.length + 1)) := by
  obtain ⟨hcounted, hlimit, hended⟩ := stdio_balanced h
  -- the general ledger, read for this transport's frames
  rw [byte_ledger.sum_frames] at hcounted
  have hsum : w.shared.queued_bytes_ = (w.shared.queue_.map List.length).sum +
      w.writer.in_hand.elim 0 List.length + failed.elim 0 List.length := hcounted
  refine ⟨hsum, ?_, hended, hlimit, fun bytes hhand => ?_, ?_⟩
  · rcases stdio_world.failed_once h with hnone | hfailed
    · exact .inr hnone
    · -- the writer has ended, so it holds nothing
      refine .inl ?_
      have hrunning := (stdio_intact (System.recording_reachable h)).running
      cases hwriter : w.writer with
      | writing bytes offset =>
          have hnone := hrunning (congrArg write_at.left hwriter)
          cases hnone.symm.trans hfailed
      | _ => rfl
  · rw [hhand] at hsum
    simp only [Option.elim_some] at hsum
    omega
  -- with the counter exact, `send` refuses a frame for want of room alone
  · intro hstarted hclosing m hthrows hfits
    exact stdio_transport.send_of_fits hstarted hclosing hthrows hfits

end Accounting

namespace stdio_session

/-- The second byte of the frame is not written. -/
def broken : stdio_world :=
  { begun with writer := .tail (.closing .io_error), writer_ended := some .failed }

/-- One message is sent; the writer takes the frame, writes one byte of it and fails. -/
theorem reaches_broken :
    (stdio_failing_runs lib {} [0x30, newline]).Reachable (broken, some [0x30, newline]) := by
  have h0 : (stdio_failing_runs lib {} [0x30, newline]).Reachable (opened, none) :=
    .of_init ⟨rfl, rfl⟩
  have h1 : (stdio_failing_runs lib {} [0x30, newline]).Reachable (started, none) :=
    h0.step ⟨stdio_world.Step.start .starts rfl, rfl⟩
  have h2 := h1.step (t := (_, none))
    ⟨stdio_world.Step.send zero ⟨lib.dump zero, none⟩ (fun _ => rfl) rfl, rfl⟩
  have h3 := h2.step (t := (_, none)) ⟨stdio_world.Step.wake_writer rfl rfl rfl, rfl⟩
  have h4 : (stdio_failing_runs lib {} [0x30, newline]).Reachable (taken, none) :=
    h3.step ⟨@stdio_world.Step.write_takes lib _ [0x30, newline] [] rfl rfl, rfl⟩
  have h5 : (stdio_failing_runs lib {} [0x30, newline]).Reachable (begun, none) :=
    h4.step ⟨stdio_world.Step.write 1 rfl (by decide) (by decide), rfl⟩
  exact h5.step ⟨stdio_world.Step.write_fails rfl (by decide), rfl⟩

end stdio_session

theorem stdio_accounting_broken :
    stdio_session.broken.shared.queued_bytes_ = 2 ∧
      stdio_session.broken.shared.queued_bytes_ =
        (stdio_session.broken.shared.queue_.map List.length).sum +
          stdio_session.broken.writer.in_hand.elim 0 List.length + [0x30, newline].length :=
  ⟨rfl, (stdio_accounting stdio_session.reaches_broken).1⟩

end SynapseMcp
