/-
What a `stdio_transport` writes.

Of a world the output reads the queue, the frame the writer holds and how far it has
got, whose `send` succeeded and what is written: `output_view`, with a step for each
thing that can happen to it. `intact` is the invariant: what is written, the rest of the
frame in hand and the queue are, one after the other, the admitted frames. It is exact
until the writer gives up, and what was written by then stays the beginning of them.
-/
import SynapseMcp.StdioClosing

set_option autoImplicit false

namespace SynapseMcp

open Transition Delimited

/-! ## The view

The lock, the threads and the close are left out: a step of the view is something that happens
to the bytes on their way from `send` to the descriptor. `closing_` stays in the view because
admission stops with it, and a writer that ended with an empty queue has therefore written
everything there will ever be. -/

/-- The frame the writer holds, and how much of it is written. -/
def write_at.frame : write_at → Option (List UInt8 × Nat)
  | .writing bytes offset => some (bytes, offset)
  | _ => none

/-- Whether the writer can still come to its loop. -/
def write_at.left : write_at → Bool
  | .tail _ => true
  | _ => false

/-- The queue, the frame in hand with how much of it is written, and how the writer ended;
beside them what was admitted and what is written. -/
structure output_view where
  queue_ : List (List UInt8)
  closing_ : Bool
  frame : Option (List UInt8 × Nat)
  left : Bool
  admitted : List (List UInt8)
  written : List UInt8
  ended : Option write_end

/-- The view of a world. -/
def stdio_world.output (lib : json_library) (w : stdio_world) : output_view :=
  ⟨w.shared.queue_, w.shared.closing_, w.writer.frame, w.writer.left,
    w.admitted.map lib.encoding, w.written, w.writer_ended⟩

namespace output_view

/-- What a step can do to the output. -/
inductive step : output_view → output_view → Prop
  /-- A close begins, if anything. -/
  | closes (v : output_view) (closing : Bool) (hclosing : v.closing_ = true → closing = true) :
      step v { v with closing_ := closing }
  | admits {v : output_view} (text : List UInt8) (hclosing : v.closing_ = false) :
      step v
        { v with
          queue_ := v.queue_ ++ [text ++ [newline]]
          admitted := v.admitted ++ [text] }
  | takes {v : output_view} {bytes : List UInt8} {rest : List (List UInt8)}
      (hframe : v.frame = none) (hleft : v.left = false) (hqueue : v.queue_ = bytes :: rest) :
      step v { v with left := false, queue_ := v.queue_.tail, frame := some (bytes, 0) }
  | writes {v : output_view} {bytes : List UInt8} {offset : Nat} (count : Nat)
      (hframe : v.frame = some (bytes, offset)) (hleft : v.left = false) :
      step v
        { v with
          left := false
          frame := some (bytes, offset + count)
          written := v.written ++ (bytes.drop offset).take count }
  | finishes {v : output_view} {bytes : List UInt8} {offset : Nat}
      (hframe : v.frame = some (bytes, offset)) (hleft : v.left = false)
      (hdone : bytes.length ≤ offset) :
      step v { v with left := false, frame := none }
  | drains {v : output_view} (hleft : v.left = false) (hframe : v.frame = none)
      (hclosing : v.closing_ = true) (hqueue : v.queue_ = []) :
      step v { v with left := true, frame := none, ended := some .drained }
  | gives_up {v : output_view} {how : write_end} (hleft : v.left = false) (hhow : how ≠ .drained) :
      step v { v with left := true, frame := none, ended := some how }
  /-- The start failed. -/
  | never_runs {v : output_view} (hframe : v.frame = none) :
      step v { v with left := true, frame := none }

end output_view

/-- The output by itself. -/
def output_runs (lib : json_library) (o : stdio_options) : System output_view Unit where
  init v := v = (stdio_world.fresh o []).output lib
  step v _ v' := v.step v'

/-! ## A step, seen

A step of the transport is one step of the view at most. Which one it is depends on where the
writer is, so the two facts about it, the frame and whether it has left its loop, are taken from
there first. -/

namespace stdio_world

variable {lib : json_library} {o : stdio_options}

/-- A step that neither admits nor writes leaves the view as it is, which is a run of no steps.
-/
theorem output_run_of_same {w w' : stdio_world} (hshared : w.shared.keeps_queue w'.shared)
    (hframe : w'.writer.frame = w.writer.frame) (hleft : w'.writer.left = w.writer.left)
    (hadmitted : w'.admitted = w.admitted) (hwritten : w'.written = w.written)
    (hended : w'.writer_ended = w.writer_ended) :
    (output_runs lib o).Run (w.output lib) (w'.output lib) := by
  have hstep := output_view.step.closes (w.output lib) w'.shared.closing_ hshared.closing
  have hrest : w'.output lib = { w.output lib with closing_ := w'.shared.closing_ } := by
    rw [output, hshared.queue, hframe, hleft, hadmitted, hwritten, hended]
    rfl
  rw [hrest]
  exact .single ⟨(), hstep⟩

/-- A step of a worker behind its loop is no step of the output: nothing is admitted, taken or
written in it. -/
theorem output_run_of_tail {w w' : stdio_world} {reading : Bool} {before after : tail_at}
    (htail : w.tail reading = some before) (hshared : w.shared.keeps_queue w'.shared)
    (hwriter : w'.writer = if reading then w.writer else .tail after)
    (hadmitted : w'.admitted = w.admitted) (hwritten : w'.written = w.written)
    (hended : w'.writer_ended = w.writer_ended) :
    (output_runs lib o).Run (w.output lib) (w'.output lib) := by
  have hsame : w'.writer.frame = w.writer.frame ∧ w'.writer.left = w.writer.left := by
    rw [hwriter]
    cases reading with
    | true => exact ⟨rfl, rfl⟩
    | false =>
        rw [writer_of_tail htail]
        exact ⟨rfl, rfl⟩
  exact output_run_of_same hshared hsame.1 hsame.2 hadmitted hwritten hended

/-- A step that admits a message is a step of the view, with the frame at the end of the queue.
-/
theorem output_run_of_send {w w' : stdio_world} {message : json} {m : serialized}
    {t : stdio_transport} (hm : lib.serializes message m) (hsend : w.shared.send m = .ok t)
    (hrest : w'.output lib =
      { w.output lib with
        queue_ := t.queue_
        admitted := (w.output lib).admitted ++ [lib.encoding message] }) :
    (output_runs lib o).Run (w.output lib) (w'.output lib) := by
  obtain ⟨-, hclosing, -, rfl⟩ := stdio_transport.send_ok hsend
  rw [hrest, ← hm.encoding hsend]
  exact .single ⟨(), .admits (v := w.output lib) m.encoding hclosing⟩

/-- What a step of the transport is for the output. The reader's steps, and most of the close,
are nothing to it. -/
theorem Step.output_run {w w' : stdio_world} {a : stdio_action}
    (hfresh : w.starting = .fresh → w.writer = .absent) (h : Step lib w a w') :
    (output_runs lib o).Run (w.output lib) (w'.output lib) := by
  have hframe : ∀ {at_ : write_at}, w.writer = at_ → (w.output lib).frame = at_.frame :=
    fun heq => congrArg write_at.frame heq
  have hleft : ∀ {at_ : write_at}, w.writer = at_ → (w.output lib).left = at_.left :=
    fun heq => congrArg write_at.left heq
  cases h with
  -- a writer that was just made has no frame and has not left
  | start a hstarting =>
      have hmade : ∀ t, (write_at.made t).frame = none ∧ (write_at.made t).left = false := by
        intro t
        unfold write_at.made
        split <;> exact ⟨rfl, rfl⟩
      have habsent := hfresh hstarting
      refine output_run_of_same (w.shared.start_keeps_queue a) ?_ ?_ rfl rfl rfl
      · exact (hmade _).1.trans (congrArg write_at.frame habsent).symm
      · exact (hmade _).2.trans (congrArg write_at.left habsent).symm
  | start_again a hstarting =>
      exact output_run_of_same (w.shared.start_keeps_queue a) rfl rfl rfl rfl rfl
  | send message m hm hsend =>
      refine output_run_of_send hm hsend ?_
      obtain ⟨-, -, -, rfl⟩ := stdio_transport.send_ok hsend
      simp [output]
  | diagnose_sent m hreader hm hsend =>
      refine output_run_of_send hm hsend ?_
      obtain ⟨-, -, -, rfl⟩ := stdio_transport.send_ok hsend
      simp [output]
  | stop =>
      exact output_run_of_same (w.shared.begin_close_keeps_queue .requested_stop) rfl rfl rfl rfl
        rfl
  | wake_writer hwriter =>
      exact output_run_of_same ⟨rfl, rfl, rfl, id⟩ (congrArg write_at.frame hwriter).symm
        (congrArg write_at.left hwriter).symm rfl rfl rfl
  | wake_unstarted hwriter =>
      exact .single ⟨(), .never_runs (v := w.output lib) (hframe hwriter)⟩
  -- the writer's own loop: each of its steps is one of the output
  | write_drained hwriter hclosing hqueue =>
      exact .single ⟨(), .drains (v := w.output lib) (hleft hwriter) (hframe hwriter) hclosing
        hqueue⟩
  | write_expires hwriter =>
      exact .single ⟨(), .gives_up (v := w.output lib) (hleft hwriter) (by decide)⟩
  | write_takes hwriter hqueue =>
      exact .single ⟨(), .takes (v := w.output lib) (hframe hwriter) (hleft hwriter) hqueue⟩
  | write count hwriter =>
      exact .single ⟨(), .writes (v := w.output lib) count (hframe hwriter) (hleft hwriter)⟩
  | write_fails hwriter =>
      exact .single ⟨(), .gives_up (v := w.output lib) (hleft hwriter) (by decide)⟩
  | write_done hwriter hdone =>
      exact .single ⟨(), .finishes (v := w.output lib) (hframe hwriter) (hleft hwriter) hdone⟩
  -- behind the loops no byte is written, and the flags of the close are no part of the output
  | tail_begins htail =>
      exact output_run_of_tail htail (w.shared.begin_close_keeps_queue _) rfl rfl rfl rfl
  | tail_requests htail => exact output_run_of_tail htail ⟨rfl, rfl, rfl, id⟩ rfl rfl rfl rfl
  | tail_claims htail =>
      exact output_run_of_tail htail w.shared.claim_close_keeps_queue rfl rfl rfl rfl
  | tail_calls htail => exact output_run_of_tail htail ⟨rfl, rfl, rfl, id⟩ rfl rfl rfl rfl
  | tail_returns htail => exact output_run_of_tail htail ⟨rfl, rfl, rfl, id⟩ rfl rfl rfl rfl
  | tail_publishes htail => exact output_run_of_tail htail ⟨rfl, rfl, rfl, id⟩ rfl rfl rfl rfl
  | @tail_ends reading htail =>
      exact output_run_of_tail htail (w.shared.worker_done_keeps_queue reading) rfl rfl rfl rfl
  | _ => exact .refl

end stdio_world

/-- The output of a run is a run of the output. -/
theorem stdio_output_simulation (lib : json_library) (o : stdio_options) (stream : List UInt8) :
    System.Simulation (stdio_runs lib o stream) (output_runs lib o) (stdio_world.output lib) where
  init := by
    rintro w rfl
    rfl
  step := by
    intro w a w' hw _ hstep
    refine hstep.output_run fun hfresh => ?_
    obtain ⟨-, ht, -⟩ := stdio_close_invariant hw
    have hstage : w.writer.stage = .absent := (ht.fresh hfresh).2
    cases hwriter : w.writer <;> rw [hwriter] at hstage <;> first | rfl | cases hstage

namespace output_view

/-! ## What is written

The invariant says that written bytes, the rest of the frame in hand and the queue make up the
admitted stream. A partial write moves bytes from the second to the first, taking a frame moves
them from the third to the second, and an admission adds to the third and to the stream. Giving
up drops the frame: from then on only the prefix is known. -/

/-- The rest of the frame in hand. -/
def rest (frame : Option (List UInt8 × Nat)) : List UInt8 :=
  frame.elim [] fun f => f.1.drop f.2

/-- What is written is the beginning of the admitted stream, and what is missing is at hand. -/
structure intact (v : output_view) : Prop where
  part : v.written <+: delimited newline v.admitted
  /-- Exact, unless the writer gave up. -/
  whole : v.ended = none ∨ v.ended = some .drained →
    v.written ++ (rest v.frame ++ v.queue_.flatten) = delimited newline v.admitted
  drained : v.ended = some .drained → v.closing_ = true ∧ v.queue_ = [] ∧ v.frame = none
  running : v.left = false → v.ended = none

/-- Each step of the view moves bytes along, or changes nothing of them. -/
theorem intact.step {v v' : output_view} (h : v.intact) (hstep : v.step v') : v'.intact := by
  cases hstep with
  | closes closing hclosing =>
      refine ⟨h.part, h.whole, fun hended => ?_, h.running⟩
      obtain ⟨hc, hrest⟩ := h.drained hended
      exact ⟨hclosing hc, hrest⟩
  | admits text hclosing =>
      refine ⟨?_, fun hended => ?_, fun hended => ?_, h.running⟩
      · rw [delimited_append]
        exact h.part.trans (List.prefix_append _ _)
      · rw [delimited_append, delimited_singleton, ← h.whole hended]
        simp
      · obtain ⟨hc, -⟩ := h.drained hended
        cases hclosing.symm.trans hc
  -- the front of the queue becomes the frame in hand, none of it written
  | @takes bytes queue hframe hleft hqueue =>
      have hnone := h.running hleft
      refine ⟨h.part, fun _ => ?_, fun hended => ?_, fun _ => hnone⟩
      · rw [← h.whole (.inl hnone), hframe, hqueue]
        simp [rest]
      · cases hnone.symm.trans hended
  | @writes bytes offset count hframe hleft =>
      have hnone := h.running hleft
      have hwhole := h.whole (.inl hnone)
      -- the bytes written now are the first of the rest of the frame
      have hsplit : (bytes.drop offset).take count ++ bytes.drop (offset + count) =
          bytes.drop offset := by
        rw [← List.drop_drop, List.take_append_drop]
      have hnow : v.written ++ (bytes.drop offset).take count ++
          (bytes.drop (offset + count) ++ v.queue_.flatten) = delimited newline v.admitted := by
        rw [hframe] at hwhole
        calc v.written ++ (bytes.drop offset).take count ++
              (bytes.drop (offset + count) ++ v.queue_.flatten)
            = v.written ++ ((bytes.drop offset).take count ++ bytes.drop (offset + count) ++
                v.queue_.flatten) := by simp only [List.append_assoc]
          _ = v.written ++ (bytes.drop offset ++ v.queue_.flatten) := by rw [hsplit]
          _ = delimited newline v.admitted := hwhole
      refine ⟨⟨_, hnow⟩, fun _ => hnow, fun hended => ?_, fun _ => hnone⟩
      cases hnone.symm.trans hended
  | @finishes bytes offset hframe hleft hdone =>
      have hnone := h.running hleft
      refine ⟨h.part, fun _ => ?_, fun hended => ?_, fun _ => hnone⟩
      · rw [← h.whole (.inl hnone), hframe]
        simp [rest, List.drop_eq_nil_of_le hdone]
      · cases hnone.symm.trans hended
  | drains hleft hframe hclosing hqueue =>
      refine ⟨h.part, fun _ => ?_, fun _ => ⟨hclosing, hqueue, rfl⟩, nofun⟩
      rw [← h.whole (.inl (h.running hleft)), hframe]
  -- what is missing is not known any more, and need not be
  | @gives_up how hleft hhow =>
      refine ⟨h.part, fun hended => ?_, fun hended => ?_, nofun⟩
      · rcases hended with hended | hended
        · cases hended
        · exact absurd (Option.some.inj hended) hhow
      · exact absurd (Option.some.inj hended) hhow
  | never_runs hframe =>
      refine ⟨h.part, fun hended => ?_, fun hended => ?_, nofun⟩
      · rw [← h.whole hended, hframe]
      · obtain ⟨hc, hqueue, -⟩ := h.drained hended
        exact ⟨hc, hqueue, rfl⟩

end output_view

/-! ## The output of a transport

With the invariant in every state of a run, the statement about lines is one about cutting: a
part of a delimited stream has for its complete lines the first of the pieces. -/

section Output

variable {lib : json_library} {o : stdio_options} {stream : List UInt8} {w : stdio_world}

/-- The output of every state that a run reaches is intact. -/
theorem stdio_intact (h : (stdio_runs lib o stream).Reachable w) : (w.output lib).intact := by
  refine ((stdio_output_simulation lib o stream).reachable h).invariant
    (P := output_view.intact) ?_ ?_
  · rintro v rfl
    exact ⟨List.prefix_rfl, fun _ => rfl, nofun, fun _ => rfl⟩
  · intro v _ v' _ hv hstep
    exact hv.step hstep

/-- The output stream.

At every moment the bytes written are the beginning of the admitted messages' texts, each
ended by a newline, in the order of their admission. They are all of it once the writer
has ended with an empty queue, which it does unless a write fails or the deadline passes.
When no text holds a newline, the lines of what is written are the first of the texts,
and then all of them. -/
theorem stdio_output_stream (h : (stdio_runs lib o stream).Reachable w) :
    (w.written <+: delimited newline (w.admitted.map lib.encoding)) ∧
    (w.writer_ended = some .drained →
      w.written = delimited newline (w.admitted.map lib.encoding)) ∧
    ((∀ message ∈ w.admitted, newline ∉ lib.encoding message) →
      (w.written.splitOn newline).dropLast <+: w.admitted.map lib.encoding ∧
      (w.writer_ended = some .drained →
        w.written.splitOn newline = w.admitted.map lib.encoding ++ [[]])) := by
  have hintact := stdio_intact h
  have hdrained : w.writer_ended = some .drained →
      w.written = delimited newline (w.admitted.map lib.encoding) := by
    intro hended
    obtain ⟨-, hqueue, hframe⟩ := hintact.drained hended
    have hwhole := hintact.whole (.inr hended)
    rw [hqueue, hframe] at hwhole
    simp only [output_view.rest, Option.elim_none, List.flatten_nil, List.append_nil] at hwhole
    exact hwhole
  refine ⟨hintact.part, hdrained, fun hcompact => ?_⟩
  -- no text holds a newline, so each is one line of the stream
  have hlines : ∀ text ∈ w.admitted.map lib.encoding, newline ∉ text := by
    intro text htext
    obtain ⟨message, hmessage, rfl⟩ := List.mem_map.mp htext
    exact hcompact message hmessage
  refine ⟨splitOn_dropLast_of_delimited hlines hintact.part, fun hended => ?_⟩
  rw [hdrained hended]
  exact splitOn_delimited hlines

end Output

namespace stdio_session

/-- A message is admitted, and the writer has it. -/
def taken : stdio_world :=
  { started with
    shared := { started.shared with queued_bytes_ := 2 }
    writer := .writing [0x30, newline] 0
    admitted := [zero] }

/-- The first byte is written. -/
def begun : stdio_world :=
  { taken with writer := .writing [0x30, newline] 1, written := [0x30] }

/-- A message is sent, and the writer writes one byte of its frame. -/
theorem reaches_begun : (stdio_runs lib {} [0x30, newline]).Reachable begun := by
  have h1 := System.restrict_reachable (reaches_started (C := fun _ _ => True) trivial)
  have h2 := h1.step (stdio_world.Step.send zero ⟨lib.dump zero, none⟩ (fun _ => rfl) rfl)
  have h3 := h2.step (stdio_world.Step.wake_writer rfl rfl rfl)
  have h4 : (stdio_runs lib {} [0x30, newline]).Reachable taken :=
    h3.step (@stdio_world.Step.write_takes lib _ [0x30, newline] [] rfl rfl)
  exact h4.step (stdio_world.Step.write 1 rfl (by decide) (by decide))

end stdio_session

theorem stdio_output_stream_begun :
    stdio_session.begun.written = [0x30] ∧
      stdio_session.begun.written <+:
        delimited newline (stdio_session.begun.admitted.map stdio_session.lib.encoding) :=
  ⟨rfl, (stdio_output_stream stdio_session.reaches_begun).1⟩

end SynapseMcp
