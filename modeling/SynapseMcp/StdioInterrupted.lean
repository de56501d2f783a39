/-
What a `stdio_transport` hands on, whatever interrupts it.

`StdioReading` says what a run comes to in which nothing fails and nobody stops the
transport. In any other run the reader may leave its loop at each of its steps: it finds its
stop requested, a read fails, a diagnostic is refused, a callback throws. Then nothing is due
any more, so what it has done stays the beginning of what the stream comes to. Only the
closes are not compared, since the reason is that of the interruption.
-/
import SynapseMcp.StdioReading

set_option autoImplicit false

namespace SynapseMcp

open Transition

/-! ## What has been served

A run that is interrupted is compared with what its stream comes to by a prefix, and for that
the closes have to be left out: an interrupted reader closes with a reason of its own. What
remains are the messages it delivered and the diagnostics it sent. -/

/-- A message delivered or a diagnostic sent, as opposed to a close. -/
def read_act.serves : read_act → Bool
  | .message _ | .send _ => true
  | .close _ => false

/-- The messages and diagnostics among the reader's acts, in their order. -/
def served (acts : List read_act) : List read_act := acts.filter read_act.serves

@[simp] theorem served_nil : served [] = [] := rfl

@[simp] theorem served_append (xs ys : List read_act) :
    served (xs ++ ys) = served xs ++ served ys := List.filter_append ..

@[simp] theorem served_close (reason : close_reason) : served [.close reason] = [] := rfl

/-! ## The reader goes on or leaves

As long as the reader is in its loop, what it has done and what is still due make up what the
stream comes to. When it leaves the loop nothing more is due, and the prefix that it has done
then stays. The lemmas are the three kinds of steps: one of somebody else, one in which the
reader takes its next act from what is due, and one in which it leaves. -/

/-- What has been done and what is due are the beginning of what the stream comes to. -/
structure going_on (lib : json_library) (o : stdio_options) (stream : List UInt8)
    (w : stdio_world) : Prop where
  options : w.shared.options_ = o
  within : w.reader = .read_failed ∨ w.reader.within o
  due : served (w.acts ++ w.reader.due lib o w.unread) <+: served (stream_acts lib o stream)

section Interrupted

variable {lib : json_library} {o : stdio_options} {stream : List UInt8} {w w' : stdio_world}

/-- A step of another thread that leaves the options, the reader and its bytes alone leaves what
was done and what is due. -/
theorem going_on.elsewhere (h : going_on lib o stream w)
    (hoptions : w'.shared.options_ = w.shared.options_) (hreader : w'.reader = w.reader)
    (hunread : w'.unread = w.unread) (hacts : w'.acts = w.acts) : going_on lib o stream w' where
  options := hoptions.trans h.options
  within := by rw [hreader]; exact h.within
  due := by rw [hreader, hunread, hacts]; exact h.due

/-- The reader takes its next act, if any, from what is due. -/
theorem going_on.takes (h : going_on lib o stream w) {before : read_at}
    (hoptions : w'.shared.options_ = w.shared.options_) (hreader : w.reader = before)
    (hnot : before ≠ .read_failed) (hwithin : before.within o → w'.reader.within o)
    (hdue : w'.acts ++ w'.reader.due lib o w'.unread = w.acts ++ before.due lib o w.unread) :
    going_on lib o stream w' where
  options := hoptions.trans h.options
  within := by
    have hbefore := h.within
    rw [hreader] at hbefore
    exact .inr (hwithin (hbefore.resolve_left hnot))
  due := by
    rw [hdue, ← hreader]
    exact h.due

/-- The reader leaves its loop, or was behind it: nothing more is due, and what has been done is
still the beginning of what the stream comes to. -/
theorem going_on.leaves (h : going_on lib o stream w) {after : read_at}
    (hoptions : w'.shared.options_ = w.shared.options_) (hreader : w'.reader = after)
    (hwithin : after = .read_failed ∨ after.within o)
    (hdue : ∀ unread, served (after.due lib o unread) = [])
    (hacts : served w'.acts = served w.acts) : going_on lib o stream w' where
  options := hoptions.trans h.options
  within := by rw [hreader]; exact hwithin
  due := by
    have hbefore := h.due
    rw [served_append] at hbefore
    rw [served_append, hreader, hdue, List.append_nil, hacts]
    exact (List.prefix_append _ _).trans hbefore

/-- The tail of a thread is behind its loop, so the one act it may still make is a close, which
is not compared. -/
theorem going_on.tail (h : going_on lib o stream w) {side : Bool} {at_ : tail_at}
    {before : tail_at} (htail : w.tail side = some before)
    (hoptions : w'.shared.options_ = w.shared.options_) (hunread : w'.unread = w.unread)
    (hreader : w'.reader = if side then .tail at_ else w.reader)
    (hacts : w'.acts = w.acts ∨ side = true ∧ ∃ reason, w'.acts = w.acts ++ [.close reason]) :
    going_on lib o stream w' := by
  cases side with
  | false =>
      refine h.elsewhere hoptions hreader hunread ?_
      rcases hacts with heq | ⟨hside, -⟩
      · exact heq
      · cases hside
  | true =>
      refine h.leaves hoptions hreader (.inr trivial) ?_ ?_
      · intro unread
        cases at_ <;> rfl
      · rcases hacts with heq | ⟨-, reason, heq⟩
        · rw [heq]
        · simp [heq]

/-- Every step of the transport is of one of the three kinds. Those in which the reader goes on
are the steps of an uninterrupted run; in all others it leaves, or another thread acts. -/
theorem going_on.step (h : going_on lib o stream w)
    (hfresh : w.starting = .fresh → w.reader = .absent) {a : stdio_action}
    (hstep : stdio_world.Step lib w a w') : going_on lib o stream w' := by
  cases hstep with
  -- the reader is made, and has the whole stream before it
  | start a hstarting =>
      have habsent := hfresh hstarting
      refine h.takes (w.shared.start_keeps_queue a).options habsent nofun ?_ ?_
      · intro _
        show (read_at.made _).within o
        unfold read_at.made
        split <;> trivial
      · show w.acts ++ (read_at.made _).due lib o w.unread = _
        unfold read_at.made
        split <;> rfl
  | start_again a => exact h.elsewhere (w.shared.start_keeps_queue a).options rfl rfl rfl
  | send message m hm hsend =>
      obtain ⟨-, -, -, rfl⟩ := stdio_transport.send_ok hsend
      exact h.elsewhere rfl rfl rfl rfl
  | stop => exact h.elsewhere (w.shared.begin_close_keeps_queue _).options rfl rfl rfl
  | wake_reader hreader =>
      exact h.takes rfl hreader nofun (fun _ => ⟨List.not_mem_nil, Nat.zero_le _⟩) rfl
  | wake_unstarted =>
      exact h.elsewhere (w.shared.worker_done_keeps_queue false).options rfl rfl rfl
  | head_reads hreader => exact h.takes rfl hreader nofun id rfl
  -- what is read moves from the stream into the chunk
  | @read line count hreader =>
      refine h.takes rfl hreader nofun id ?_
      show w.acts ++ stream_acts lib o (_ ++ (w.unread.take count ++ w.unread.drop count)) = _
      rw [List.take_append_drop]
      rfl
  -- a last line without its newline is a frame as any other
  | @eof_in_line line hreader hunread =>
      have hwithin := h.within
      rw [hreader] at hwithin
      obtain ⟨hline, hlength⟩ := hwithin.resolve_left nofun
      refine h.takes rfl hreader nofun id ?_
      show w.acts ++ _ = w.acts ++ stream_acts lib o (line ++ w.unread)
      rw [hunread, List.append_nil, stream_acts_last hline hlength]
      rfl
  | scan_done hreader => exact h.takes rfl hreader nofun id rfl
  | @scan_newline line rest hreader =>
      have hwithin := h.within
      rw [hreader] at hwithin
      obtain ⟨hline, hlength⟩ := hwithin.resolve_left nofun
      refine h.takes rfl hreader nofun id ?_
      exact congrArg (w.acts ++ ·) (stream_acts_line hline hlength _).symm
  -- the line grows by a byte that is no newline, while there is room
  | @scan_byte line rest byte hreader hstop hbyte hroom =>
      rw [h.options] at hroom
      refine h.takes rfl hreader nofun (fun hwithin => ⟨?_, ?_⟩) ?_
      · simp [hwithin.1, Ne.symm hbyte]
      · have hlength := hwithin.2
        rw [List.length_append, List.length_singleton]
        omega
      · show w.acts ++ stream_acts lib o (line ++ [byte] ++ (rest ++ w.unread)) = _
        rw [List.append_assoc]
        rfl
  | @frame line after hreader =>
      refine h.takes rfl hreader nofun (fun _ => frame_next.within_reader _ after) ?_
      rw [frame_next.due_reader, h.options]
      rfl
  | @diagnose_sent t after m hreader hm hsend =>
      obtain ⟨-, -, -, rfl⟩ := stdio_transport.send_ok hsend
      refine h.takes rfl hreader nofun (fun _ => after.within_reader) ?_
      show w.acts ++ [.send parse_error_frame] ++ after.reader.due lib o w.unread = _
      rw [after.due_reader, List.append_assoc]
      rfl
  -- here an act that was due becomes one that was done
  | @call_message value after hreader =>
      refine h.takes rfl hreader nofun (fun _ => trivial) ?_
      show w.acts ++ [.message value] ++ after.due lib o w.unread = _
      rw [List.append_assoc]
      rfl
  | @message_returned after hreader =>
      refine h.takes rfl hreader nofun (fun _ => after.within_reader) ?_
      exact congrArg (w.acts ++ ·) after.due_reader
  -- the reader leaves: what was due stays undone
  | read_fails => exact h.leaves rfl rfl (.inl rfl) (fun _ => rfl) rfl
  | head_stops | eof | failed_stops | failed_closes | read_throws | scan_stops | scan_over
  | diagnose_fails | message_threw =>
      exact h.leaves rfl rfl (.inr trivial) (fun _ => rfl) rfl
  -- the writer, and the code behind the loops
  | write_takes | write_done => exact h.elsewhere rfl rfl rfl rfl
  | @tail_begins side reason htail =>
      refine h.tail htail (w.shared.begin_close_keeps_queue reason).options rfl rfl ?_
      cases side with
      | true => exact .inr ⟨rfl, reason, rfl⟩
      | false => exact .inl (List.append_nil _)
  | tail_claims htail =>
      exact h.tail htail w.shared.claim_close_keeps_queue.options rfl rfl (.inl rfl)
  | tail_requests htail | tail_calls htail | tail_returns htail | tail_publishes htail =>
      exact h.tail htail rfl rfl rfl (.inl rfl)
  | @tail_ends side htail =>
      exact h.tail htail (w.shared.worker_done_keeps_queue side).options rfl rfl (.inl rfl)
  | _ => exact h.elsewhere rfl rfl rfl rfl

/-- In every reachable state, by induction on the run; at the start everything is due. -/
theorem stdio_going_on (h : (stdio_runs lib o stream).Reachable w) : going_on lib o stream w := by
  refine h.invariant (P := going_on lib o stream) ?_ ?_
  · rintro w rfl
    exact ⟨rfl, .inr trivial, List.prefix_rfl⟩
  · intro w a w' hw hgoing hstep
    refine hgoing.step (fun hfresh => ?_) hstep
    obtain ⟨-, ht, -⟩ := stdio_close_invariant hw
    have hstage : w.reader.stage = .absent := (ht.fresh hfresh).1
    cases hreader : w.reader <;> rw [hreader] at hstage <;> first | rfl | cases hstage

/-- What has been served is the beginning of what the lines of the stream come to. -/
theorem going_on.done (h : going_on lib o stream w) :
    served w.acts <+: served (lines_acts lib o (stream.splitOn newline)) := by
  have hdue := h.due
  rw [served_append] at hdue
  exact (List.prefix_append _ _).trans hdue

/-- Whatever is read, written, sent, stopped, refused or thrown, and by whom: the messages
delivered and the diagnostics sent are the first of those that the lines of the stream come
to, in their order. No line is skipped, cut short, joined with the next or served twice. -/
theorem stdio_reader_prefix (h : (stdio_runs lib o stream).Reachable w) :
    served w.acts <+: served (lines_acts lib o (stream.splitOn newline)) :=
  (stdio_going_on h).done

end Interrupted

namespace stdio_session

/-- The callback threw. -/
def threw : stdio_world := { told with reader := .tail (.closing .io_error) }

/-- The transport reads one line whose message its callback throws on. -/
theorem reaches_threw : (stdio_runs lib {} [0x30, newline]).Reachable threw :=
  (System.restrict_reachable reaches_told).step (stdio_world.Step.message_threw rfl)

end stdio_session

theorem stdio_reader_prefix_threw :
    served stdio_session.threw.acts = [.message stdio_session.zero] ∧
      served stdio_session.threw.acts <+:
        served (lines_acts stdio_session.lib {} ([0x30, newline].splitOn newline)) :=
  ⟨rfl, stdio_reader_prefix stdio_session.reaches_threw⟩

end SynapseMcp
