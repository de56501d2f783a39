/-
What a `stdio_transport` reads.

A calm run is one in which nobody but the reader closes the transport, no read and no
callback fails, and a diagnostic that is sent is admitted. How the stream is cut into
reads, and everything else that goes on, is open. `reading` is the invariant of such
runs: what the reader has done, followed by what it is due to do from where it is, is
what the whole stream comes to. The reader's position with the bytes still unread
determines the due acts, so a step of the reader has only to take them from the front.
-/
import SynapseMcp.StdioClosing

set_option autoImplicit false

namespace SynapseMcp

open Transition

/-! ## Calm runs

What can disturb the reader is listed: a call of `stop()`, a read, a write or a callback that
fails, and a diagnostic that is refused. In a calm run none of these happens. The reads may be
cut in any way, the frames of other callers come and go, and the parser is any function of the
line.

Calm is a condition on steps and not on states, so it restricts the runs and adds nothing to
what is known of a state. A diagnostic that is refused is no calm step; where the transport
would refuse one, a calm run cannot go on, and the statements about progress name this case. -/

/-- The steps of a calm run. -/
def calm (w : stdio_world) : stdio_action → Prop
  | .stop => False
  | .read_fails => False
  | .read_throws => False
  | .write_fails => False
  | .message_returns threw => threw = false
  | .diagnose m => ∃ t, w.shared.send m = .ok t
  | _ => True

/-- Runs of such steps. -/
def calm_runs (lib : json_library) (o : stdio_options) (stream : List UInt8) :
    System stdio_world stdio_action :=
  (stdio_runs lib o stream).restrict calm

/-! ## What is due

`stream_acts` says what a whole stream comes to, without a reader. A reader in mid-stream holds
part of a line and perhaps part of a buffer; put in front of the bytes unread, they are the rest
of the stream. So what is due from a position is again `stream_acts`, of that, and the way the
stream was cut into reads has gone from the statement. -/

section Due

variable (lib : json_library) (o : stdio_options) (unread : List UInt8)

/-- What is due once a line has been dealt with. -/
def after_frame.due : after_frame → List read_act
  | .scan rest => stream_acts lib o (rest ++ unread)
  | .eof => [.close .eof]

/-- What the reader is to do from a position on, if the run stays calm. -/
def read_at.due : read_at → List read_act
  | .absent => stream_acts lib o unread
  | .waiting => stream_acts lib o unread
  | .head line => stream_acts lib o (line ++ unread)
  | .reading line => stream_acts lib o (line ++ unread)
  | .read_failed => []
  | .scanning line rest => stream_acts lib o (line ++ (rest ++ unread))
  | .framing line after => (stdio_transport.frame lib o line).then_acts (after.due lib o unread)
  | .diagnosing after => .send parse_error_frame :: after.due lib o unread
  | .calling value after => .message value :: after.due lib o unread
  | .called after => after.due lib o unread
  | .tail (.closing reason) => [.close reason]
  | .tail _ => []

/-- A line the reader holds is a line, and within the limit; no read has failed. -/
def read_at.within : read_at → Prop
  | .read_failed => False
  | .head line => newline ∉ line ∧ line.length ≤ o.max_frame_bytes
  | .reading line => newline ∉ line ∧ line.length ≤ o.max_frame_bytes
  | .scanning line _ => newline ∉ line ∧ line.length ≤ o.max_frame_bytes
  | .framing line _ => newline ∉ line ∧ line.length ≤ o.max_frame_bytes
  | _ => True

variable {lib o unread}

/-- The reader's position after a line has that due. -/
theorem after_frame.due_reader (after : after_frame) :
    after.reader.due lib o unread = after.due lib o unread := by
  cases after <;> rfl

/-- And it holds no line. -/
theorem after_frame.within_reader (after : after_frame) : after.reader.within o := by
  cases after with
  | scan rest => exact ⟨List.not_mem_nil, Nat.zero_le _⟩
  | eof => trivial

/-- Taking the decision about a line takes nothing from what is due. -/
theorem frame_next.due_reader (next : frame_next) (after : after_frame) :
    (next.reader after).due lib o unread = next.then_acts (after.due lib o unread) := by
  cases next with
  | skip => exact after.due_reader
  | _ => rfl

/-- Nor does it once a line was decided on. -/
theorem frame_next.within_reader (next : frame_next) (after : after_frame) :
    (next.reader after).within o := by
  cases next with
  | skip => exact after.within_reader
  | _ => trivial

end Due

/-! ## The invariant

The one equation that matters is `due`: acts done and acts due are together those of the stream.
The other parts say that nobody else interferes: in a calm run the close is the reader's, the
writer begins none, and no stop is requested of the reader while it is in its loop. Steps are
grouped by what they do to the equation: nothing, moving bytes along, taking an act from the
front.

A stream that is chopped differently by the reads comes to the same acts, because the bytes of
an unfinished line are counted together with those that are unread. At the end of the stream or
at the first line that closes, one act is due, the close, and the reader takes it when it leaves
its loop. -/

/-- The reasons closed for. -/
def closes_of (acts : List read_act) : List close_reason :=
  acts.filterMap fun
    | .close reason => some reason
    | _ => none

/-- About to begin a close, or to request the stop that follows it. -/
def tail_at.begins : tail_at → Bool
  | .closing _ => true
  | .requesting => true
  | _ => false

/-- The reader exists and has not begun its close. -/
def read_at.open_ : read_at → Bool
  | .absent => false
  | .tail (.closing _) => true
  | .tail _ => false
  | _ => true

/-- What a calm run has done, and is due to do. -/
structure reading (lib : json_library) (o : stdio_options) (stream : List UInt8)
    (w : stdio_world) : Prop where
  options : w.shared.options_ = o
  requests : w.requests = 0
  writer : ∀ at_, w.writer = .tail at_ → at_.begins = false
  fresh : w.starting = .fresh → w.shared.closing_ = false ∧ w.reader = .absent
  stop : w.reader.tail? = none → w.reader_stop_ = false
  unclosed : w.reader.open_ = true → w.shared.closing_ = false
  released : w.reader = .waiting → w.shared.released_ = true ∧ w.shared.started_ = true
  within : w.reader.within o
  due : w.acts ++ w.reader.due lib o w.unread = stream_acts lib o stream
  begun : closes_of w.acts = w.begun

section Reading

variable {lib : json_library} {o : stdio_options} {stream : List UInt8} {w w' : stdio_world}

/-- A step of somebody else leaves the reader where it is, with what it has done and what is
unread, so what is due is the same. -/
theorem reading.elsewhere (h : reading lib o stream w)
    (hoptions : w'.shared.options_ = w.shared.options_)
    (hclosing : w'.shared.closing_ = w.shared.closing_)
    (hreleased : w'.shared.released_ = w.shared.released_)
    (hstarted : w'.shared.started_ = w.shared.started_)
    (hstarting : w'.starting = .fresh → w.starting = .fresh)
    (hrequests : w'.requests = w.requests) (hstop : w'.reader_stop_ = w.reader_stop_)
    (hreader : w'.reader = w.reader) (hunread : w'.unread = w.unread)
    (hacts : w'.acts = w.acts) (hbegun : w'.begun = w.begun)
    (hwriter : ∀ at_, w'.writer = .tail at_ → at_.begins = false) : reading lib o stream w' where
  options := hoptions.trans h.options
  requests := hrequests.trans h.requests
  writer := hwriter
  fresh := by
    intro hfresh
    rw [hclosing, hreader]
    exact h.fresh (hstarting hfresh)
  stop := by rw [hreader, hstop]; exact h.stop
  unclosed := by rw [hreader, hclosing]; exact h.unclosed
  released := by rw [hreader, hreleased, hstarted]; exact h.released
  within := by rw [hreader]; exact h.within
  due := by rw [hacts, hreader, hunread]; exact h.due
  begun := by rw [hacts, hbegun]; exact h.begun

/-- A step of the reader in its loop: what it does it takes from the front of what is
due, and it does not close. -/
theorem reading.reads (h : reading lib o stream w) (hfrom : w.reader.open_ = true)
    (hloop : w.reader.tail? = none)
    (hoptions : w'.shared.options_ = w.shared.options_)
    (hclosing : w'.shared.closing_ = w.shared.closing_)
    (hstarting : w'.starting = w.starting) (hrequests : w'.requests = w.requests)
    (hstop : w'.reader_stop_ = w.reader_stop_) (hwriter : w'.writer = w.writer)
    (hbegun : w'.begun = w.begun) (hreader : w'.reader ≠ .waiting)
    (hwithin : w'.reader.within o) (hcloses : closes_of w'.acts = closes_of w.acts)
    (hdue : w'.acts ++ w'.reader.due lib o w'.unread = w.acts ++ w.reader.due lib o w.unread) :
    reading lib o stream w' where
  options := hoptions.trans h.options
  requests := hrequests.trans h.requests
  writer := by rw [hwriter]; exact h.writer
  fresh := by
    intro hfresh
    have habsent := (h.fresh (hstarting.symm.trans hfresh)).2
    rw [habsent] at hfrom
    cases hfrom
  stop := fun _ => hstop.trans (h.stop hloop)
  unclosed := fun _ => hclosing.trans (h.unclosed hfrom)
  released := fun hwaiting => absurd hwaiting hreader
  within := hwithin
  due := hdue.trans h.due
  begun := hcloses.trans (h.begun.trans hbegun.symm)

/-- A step of the reader that does nothing yet, the bytes moving on. -/
theorem reading.moves (h : reading lib o stream w) {before after : read_at}
    {unread : List UInt8} (hreader : w.reader = before) (hopen : before.open_ = true)
    (hloop : before.tail? = none) (hafter : after ≠ .waiting)
    (hwithin : before.within o → after.within o)
    (hdue : after.due lib o unread = before.due lib o w.unread) :
    reading lib o stream { w with reader := after, unread := unread } := by
  refine h.reads ?_ ?_ rfl rfl rfl rfl rfl rfl rfl hafter ?_ rfl ?_
  · rw [hreader]
    exact hopen
  · rw [hreader]
    exact hloop
  · have := h.within
    rw [hreader] at this
    exact hwithin this
  · rw [hreader]
    exact congrArg (w.acts ++ ·) hdue

/-- The reader begins its close, which was the one act that was still due. -/
theorem reading.closes (h : reading lib o stream w) {reason : close_reason}
    (hreader : w.reader = .tail (.closing reason)) :
    reading lib o stream
      ({ w.begin_close reason with acts := w.acts ++ [read_act.close reason] }.at_tail true
        (.begun (w.shared.begin_close reason).2)) := by
  have hclosing : w.shared.closing_ = false := h.unclosed (by rw [hreader]; rfl)
  have hdue := h.due
  rw [hreader] at hdue
  rcases w.shared.begin_close_cases reason with ⟨hclosed, -⟩ | ⟨-, heq⟩
  · cases hclosing.symm.trans hclosed
  · unfold stdio_world.begin_close
    rw [heq]
    refine ⟨h.options, h.requests, h.writer, fun hfresh => ?_, nofun, nofun, nofun, trivial,
      ?_, ?_⟩
    · cases hreader.symm.trans (h.fresh hfresh).2
    · show w.acts ++ [read_act.close reason] ++ [] = stream_acts lib o stream
      rw [List.append_nil]
      exact hdue
    · show closes_of (w.acts ++ [read_act.close reason]) = w.begun ++ [reason]
      rw [← h.begun, closes_of, List.filterMap_append]
      rfl

/-- A worker that has begun its close, or found one begun, goes on. -/
theorem reading.behind (h : reading lib o stream w) {side : Bool} {before after : tail_at}
    (htail : w.tail side = some before) (hbefore : ∀ reason, before ≠ .closing reason)
    (hafter : after.begins = false) {shared : stdio_transport} {stop : Bool}
    {closes : List close_reason} {returns : Nat}
    (hoptions : shared.options_ = w.shared.options_)
    (hclosing : shared.closing_ = w.shared.closing_)
    (hreleased : shared.released_ = w.shared.released_)
    (hstarted : shared.started_ = w.shared.started_)
    (hstop : stop = w.reader_stop_ ∨ side = true) :
    reading lib o stream
      ({ w with
          shared := shared
          reader_stop_ := stop
          closes := closes
          returns := returns }.at_tail side after) := by
  cases side with
  -- the reader: behind its loop nothing is due any more
  | true =>
      have hreader := stdio_world.reader_of_tail htail
      have hdone : ∀ at_ : tail_at, (∀ reason, at_ ≠ .closing reason) →
          (read_at.tail at_).due lib o w.unread = [] ∧ (read_at.tail at_).open_ = false := by
        intro at_ hat
        cases at_ with
        | closing reason => exact absurd rfl (hat reason)
        | _ => exact ⟨rfl, rfl⟩
      have hafter' : ∀ reason, after ≠ .closing reason := by
        rintro reason rfl
        cases hafter
      have hdue := h.due
      rw [hreader, (hdone before hbefore).1] at hdue
      refine ⟨hoptions.trans h.options, h.requests, h.writer, fun hfresh => ?_, nofun,
        fun hopen => ?_, nofun, trivial, ?_, h.begun⟩
      · cases hreader.symm.trans (h.fresh hfresh).2
      · cases (hdone after hafter').2.symm.trans hopen
      · exact (congrArg (w.acts ++ ·) (hdone after hafter').1).trans hdue
  -- the writer: what the reader has to do is not touched
  | false =>
      have hsame : stop = w.reader_stop_ := hstop.resolve_right Bool.false_ne_true
      refine h.elsewhere hoptions hclosing hreleased hstarted id rfl hsame rfl rfl rfl rfl ?_
      intro at_ hat
      rw [← write_at.tail.inj hat]
      exact hafter

/-- The first call of `start` makes a reader at the beginning of the stream, or none; in a calm
run nobody has closed before it. -/
theorem reading.starts (h : reading lib o stream w) (hthreads : w.view.threads)
    (a : start_answers) (hfresh : w.starting = .fresh) :
    reading lib o stream
      { w with
        shared := (w.shared.start a).1
        starting := (w.shared.start a).2.starting
        reader := .made (w.shared.start a).1
        writer := .made (w.shared.start a).1 } := by
  obtain ⟨hclosing, habsent⟩ := h.fresh hfresh
  have hdone : w.shared.reader_done_ = true := by
    have hover : w.shared.reader_done_ = w.reader.stage.over := hthreads.reader_done
    rw [hover, habsent]
    rfl
  have hdue := h.due
  rw [habsent] at hdue
  have hwriter : ∀ t at_, write_at.made t = .tail at_ → at_.begins = false := by
    intro t at_ hat
    unfold write_at.made at hat
    split at hat <;> cases hat
  -- whether a reader was made or not, all of the stream is due
  have hafter : ∀ (t : stdio_transport) (starting : start_at), t.options_ = w.shared.options_ →
      starting ≠ .fresh →
      (t.reader_done_ = true ∨
        t.closing_ = false ∧ t.released_ = true ∧ t.started_ = true) →
      reading lib o stream
        { w with shared := t, starting := starting, reader := .made t, writer := .made t } := by
    intro t starting hoptions hstarting hread
    by_cases hmade : t.reader_done_ = true
    · have hreader : read_at.made t = .absent := if_pos hmade
      rw [hreader]
      exact ⟨hoptions.trans h.options, h.requests, hwriter t, fun hf => absurd hf hstarting,
        fun _ => h.stop (by rw [habsent]; rfl), nofun, nofun, trivial, hdue, h.begun⟩
    · have hreader : read_at.made t = .waiting := if_neg hmade
      obtain ⟨hopen, hreleased, hstarted⟩ := hread.resolve_left hmade
      rw [hreader]
      exact ⟨hoptions.trans h.options, h.requests, hwriter t, fun hf => absurd hf hstarting,
        fun _ => h.stop (by rw [habsent]; rfl), fun _ => hopen, fun _ => ⟨hreleased, hstarted⟩,
        trivial, hdue, h.begun⟩
  rcases w.shared.start_cases a with ⟨-, err, heq⟩ | ⟨-, ⟨err, heq⟩ | heq | heq | heq⟩ <;> rw [heq]
  · exact hafter _ _ rfl nofun (.inl hdone)
  · exact hafter _ _ rfl nofun (.inl hdone)
  · exact hafter _ _ rfl nofun (.inl hdone)
  · exact hafter _ _ rfl nofun (.inl rfl)
  · exact hafter _ _ rfl nofun (.inr ⟨hclosing, rfl, rfl⟩)

/-- Every calm step keeps the invariant. A step of the reader takes from the front of what is
due; a step of another thread leaves it alone; the steps a calm run is without are those that
could not be matched. -/
theorem reading.step (h : reading lib o stream w) (hlatch : w.view.latch)
    (hclose : w.view.threads) {a : stdio_action} (hcalm : calm w a)
    (hstep : stdio_world.Step lib w a w') : reading lib o stream w' := by
  cases hstep with
  | start a hfresh => exact h.starts hclose a hfresh
  | start_again a hstarting =>
      have hconsumed : w.shared.consumed_ = true := hlatch.consumed hstarting
      rw [stdio_transport.start_consumed a hconsumed]
      exact h
  | start_joins hjoining =>
      exact h.elsewhere rfl rfl rfl rfl nofun rfl rfl rfl rfl rfl rfl h.writer
  | send message m hm hsend =>
      obtain ⟨-, -, -, rfl⟩ := stdio_transport.send_ok hsend
      exact h.elsewhere rfl rfl rfl rfl id rfl rfl rfl rfl rfl rfl h.writer
  | send_fails => exact h
  | stop => cases hcalm
  | request_stop hrequests =>
      rw [h.requests] at hrequests
      cases hrequests
  | wake_reader hreader =>
      exact h.moves hreader rfl rfl nofun (fun _ => ⟨List.not_mem_nil, Nat.zero_le _⟩) rfl
  | wake_writer => exact h.elsewhere rfl rfl rfl rfl id rfl rfl rfl rfl rfl rfl nofun
  | wake_unstarted =>
      refine h.elsewhere rfl rfl rfl rfl id rfl rfl rfl rfl rfl rfl ?_
      rintro at_ ⟨⟩
      rfl
  | head_stops hreader hstop => cases (h.stop (by rw [hreader]; rfl)).symm.trans hstop
  | head_reads hreader => exact h.moves hreader rfl rfl nofun id rfl
  | read count hreader =>
      -- what is taken from the stream is in the buffer, in the same order
      refine h.moves hreader rfl rfl nofun id ?_
      show stream_acts lib o (_ ++ (w.unread.take count ++ w.unread.drop count)) = _
      rw [List.take_append_drop]
      rfl
  | eof_in_line hreader hunread =>
      -- the last line has no newline and is framed all the same
      have hwithin := h.within
      rw [hreader] at hwithin
      refine h.moves hreader rfl rfl nofun id ?_
      show _ = stream_acts lib o (_ ++ w.unread)
      rw [hunread, List.append_nil, stream_acts_last hwithin.1 hwithin.2]
      rfl
  | eof hreader hunread =>
      refine h.moves hreader rfl rfl nofun (fun _ => trivial) ?_
      show _ = stream_acts lib o ([] ++ w.unread)
      rw [hunread]
      rfl
  | read_fails => cases hcalm
  | failed_stops hreader hstop => cases (h.stop (by rw [hreader]; rfl)).symm.trans hstop
  | failed_closes hreader =>
      have hwithin := h.within
      rw [hreader] at hwithin
      cases hwithin
  | read_throws => cases hcalm
  | scan_done hreader => exact h.moves hreader rfl rfl nofun id rfl
  | scan_stops hreader hstop => cases (h.stop (by rw [hreader]; rfl)).symm.trans hstop
  | scan_newline hreader hstop =>
      have hwithin := h.within
      rw [hreader] at hwithin
      refine h.moves hreader rfl rfl nofun id ?_
      exact (stream_acts_line hwithin.1 hwithin.2 _).symm
  | scan_over hreader hstop hbyte hfull =>
      -- a line longer than the limit ends the stream, whatever follows
      have hwithin := h.within
      rw [hreader] at hwithin
      rw [h.options] at hfull
      refine h.moves hreader rfl rfl nofun (fun _ => trivial) ?_
      exact (stream_acts_over hwithin.1 hfull hbyte _).symm
  | @scan_byte line rest byte hreader hstop hbyte hroom =>
      rw [h.options] at hroom
      refine h.moves hreader rfl rfl nofun (fun hwithin => ⟨?_, ?_⟩) ?_
      · simp [hwithin.1, Ne.symm hbyte]
      · have hlength := hwithin.2
        rw [List.length_append, List.length_singleton]
        omega
      · show stream_acts lib o (line ++ [byte] ++ (rest ++ w.unread)) = _
        rw [List.append_assoc]
        rfl
  | @frame line after hreader =>
      have hnext : (stdio_transport.frame lib w.shared.options_ line).reader after ≠ .waiting := by
        cases stdio_transport.frame lib w.shared.options_ line with
        | skip => cases after <;> nofun
        | _ => nofun
      refine h.moves hreader rfl rfl hnext (fun _ => frame_next.within_reader _ after) ?_
      rw [frame_next.due_reader, h.options]
      rfl
  | @diagnose_sent t after m hreader hm hsend =>
      obtain ⟨-, -, -, rfl⟩ := stdio_transport.send_ok hsend
      refine h.reads (by rw [hreader]; rfl) (by rw [hreader]; rfl) rfl rfl rfl rfl rfl rfl rfl ?_
        after.within_reader ?_ ?_
      · cases after <;> nofun
      · simp [closes_of]
      · rw [hreader]
        show w.acts ++ [.send parse_error_frame] ++ after.reader.due lib o w.unread = _
        rw [after.due_reader, List.append_assoc]
        rfl
  | diagnose_fails m hreader hm hsend =>
      obtain ⟨t, ht⟩ := hcalm
      cases ht.symm.trans hsend
  | @call_message value after hreader =>
      refine h.reads (by rw [hreader]; rfl) (by rw [hreader]; rfl) rfl rfl rfl rfl rfl rfl rfl
        nofun trivial ?_ ?_
      · simp [closes_of]
      · rw [hreader]
        show w.acts ++ [.message value] ++ after.due lib o w.unread = _
        rw [List.append_assoc]
        rfl
  | @message_returned after hreader =>
      refine h.moves hreader rfl rfl ?_ (fun _ => after.within_reader) after.due_reader
      cases after <;> nofun
  | message_threw hreader => cases hcalm
  | write_drained =>
      refine h.elsewhere rfl rfl rfl rfl id rfl rfl rfl rfl rfl rfl ?_
      rintro at_ ⟨⟩
      rfl
  | write_expires =>
      refine h.elsewhere rfl rfl rfl rfl id rfl rfl rfl rfl rfl rfl ?_
      rintro at_ ⟨⟩
      rfl
  | write_takes => exact h.elsewhere rfl rfl rfl rfl id rfl rfl rfl rfl rfl rfl nofun
  | write => exact h.elsewhere rfl rfl rfl rfl id rfl rfl rfl rfl rfl rfl nofun
  | write_fails => cases hcalm
  | write_done => exact h.elsewhere rfl rfl rfl rfl id rfl rfl rfl rfl rfl rfl nofun
  | @tail_begins side reason htail =>
      cases side with
      | true => exact h.closes (stdio_world.reader_of_tail htail)
      | false => cases h.writer _ (stdio_world.writer_of_tail htail)
  | @tail_requests side htail =>
      cases side with
      | true => exact h.behind htail nofun rfl rfl rfl rfl rfl (.inr rfl)
      | false => cases h.writer _ (stdio_world.writer_of_tail htail)
  | tail_claims htail =>
      have hafter : (tail_at.publishes w.shared.claim_close.2).begins = false := by
        cases w.shared.claim_close.2 <;> rfl
      have hflags : w.shared.claim_close.1.options_ = w.shared.options_ ∧
          w.shared.claim_close.1.released_ = w.shared.released_ := by
        rcases w.shared.claim_close_cases with ⟨heq, -⟩ | ⟨-, -, reason, -, heq⟩ <;> rw [heq] <;>
          exact ⟨rfl, rfl⟩
      exact h.behind htail nofun hafter hflags.1 w.shared.claim_close_closing hflags.2
        w.shared.claim_close_started (.inl rfl)
  | tail_calls htail => exact h.behind htail nofun rfl rfl rfl rfl rfl (.inl rfl)
  | tail_returns htail => exact h.behind htail nofun rfl rfl rfl rfl rfl (.inl rfl)
  | tail_publishes htail => exact h.behind htail nofun rfl rfl rfl rfl rfl (.inl rfl)
  | @tail_ends side htail =>
      cases side <;> exact h.behind htail nofun rfl rfl rfl rfl rfl (.inl rfl)
  | wait => exact h.elsewhere rfl rfl rfl rfl id rfl rfl rfl rfl rfl rfl h.writer
  | wait_inside => exact h.elsewhere rfl rfl rfl rfl id rfl rfl rfl rfl rfl rfl h.writer
  | poll_joined => exact h.elsewhere rfl rfl rfl rfl id rfl rfl rfl rfl rfl rfl h.writer
  | poll_expires => exact h.elsewhere rfl rfl rfl rfl id rfl rfl rfl rfl rfl rfl h.writer
  | join => exact h.elsewhere rfl rfl rfl rfl id rfl rfl rfl rfl rfl rfl h.writer

/-- It holds in every state of a calm run. -/
theorem calm_reading (h : (calm_runs lib o stream).Reachable w) : reading lib o stream w := by
  refine h.invariant (P := reading lib o stream) ?_ ?_
  · rintro w rfl
    exact ⟨rfl, rfl, nofun, fun _ => ⟨rfl, rfl⟩, fun _ => rfl, nofun, nofun, trivial, rfl, rfl⟩
  · intro w a w' hw hread hstep
    obtain ⟨hlatch, hthreads, -⟩ := stdio_close_invariant (System.restrict_reachable hw)
    exact hread.step hlatch hthreads hstep.1 hstep.2

/-! ## The loop comes to its end

How much a reader can still do is a number: ten for each byte unread, five for each byte in the
buffer, and a little for where it is. A read takes bytes from the first count to the second; a
byte scanned is gone; a line, once framed, costs at most four more. Nobody else makes the number
larger, so if the reader takes steps it gets to its end. -/

/-- How much a reader at a position can still do, with `unread` bytes to read. -/
def after_frame.left (unread : Nat) : after_frame → Nat
  | .scan rest => 10 * unread + 5 * rest.length + 8
  | .eof => 1

/-- How much the reader can still do from a position. -/
def read_at.left (unread : Nat) : read_at → Nat
  | .absent => 10 * unread + 9
  | .waiting => 10 * unread + 9
  | .head _ => 10 * unread + 7
  | .reading _ => 10 * unread + 6
  | .read_failed => 2
  | .scanning _ rest => 10 * unread + 5 * rest.length + 8
  | .framing _ after => after.left unread + 4
  | .diagnosing after => after.left unread + 3
  | .calling _ after => after.left unread + 3
  | .called after => after.left unread + 2
  | .tail (.closing _) => 1
  | .tail _ => 0

/-- How much the reader can still do. -/
def stdio_world.reading_left (w : stdio_world) : Nat := w.reader.left w.unread.length

/-- The same after a line. -/
theorem after_frame.left_reader (unread : Nat) (after : after_frame) :
    after.reader.left unread = after.left unread := by
  cases after <;> rfl

/-- There is the close to come. -/
theorem after_frame.left_pos (unread : Nat) (after : after_frame) : 1 ≤ after.left unread := by
  cases after with
  | scan rest =>
      show 1 ≤ 10 * unread + 5 * rest.length + 8
      omega
  | eof => exact Nat.le_refl 1

/-- Deciding about a line leaves less than framing it had. -/
theorem frame_next.left_reader (unread : Nat) (next : frame_next) (after : after_frame) :
    (next.reader after).left unread < after.left unread + 4 := by
  have hpos := after.left_pos unread
  cases next with
  | skip =>
      show after.reader.left unread < _
      rw [after.left_reader]
      omega
  | close reason =>
      show 1 < _
      omega
  | diagnose =>
      show after.left unread + 3 < _
      omega
  | call value =>
      show after.left unread + 3 < _
      omega
  | throw =>
      show 1 < _
      omega

/-- The steps the reader takes by itself. Nothing fails in them: a read brings bytes or the
end of the stream, the serializer does its work, and the message callback returns. -/
def stdio_action.reads : stdio_action → Prop
  | .wake reading => reading = true
  | .read _ => True
  | .eof => True
  | .reader => True
  | .diagnose m => m.throws = none
  | .message_returns threw => threw = false
  | .tail reading => reading = true
  | _ => False

/-- The reader has a diagnostic to send, and the transport does not admit it. -/
def stdio_world.refuses_diagnostic (lib : json_library) (w : stdio_world) : Prop :=
  (∃ after, w.reader = .diagnosing after) ∧
    ∃ err, w.shared.send ⟨lib.dump parse_error_frame, none⟩ = .error err

/-! ### The reader is never stuck

For every place of the loop there is a step the reader can take by itself, with no answer of the
environment but one it may always get: a read returns a byte, or the end of the input; a
callback returns. That there is such a step, and that it makes the number smaller, is what makes
the reading end. -/

/-- A reader that has not begun its close takes a step by itself, if it waits for a transport
that has started, and the step brings it nearer. It is a step of a calm run, but for the
diagnostic that is refused. -/
theorem read_loop_goes_on (lib : json_library) (hopen : w.reader.open_ = true)
    (hwaiting : w.reader = .waiting → w.shared.released_ = true ∧ w.shared.started_ = true) :
    ∃ a w', stdio_world.Step lib w a w' ∧ a.reads ∧ (calm w a ∨ w.refuses_diagnostic lib) ∧
      w'.reading_left < w.reading_left := by
  unfold stdio_world.reading_left
  -- one case for each place; the measure is the weight of the place and of the bytes
  cases hreader : w.reader with
  | absent =>
      rw [hreader] at hopen
      cases hopen
  | waiting =>
      obtain ⟨hreleased, hstarted⟩ := hwaiting hreader
      refine ⟨_, _, .wake_reader hreader hreleased hstarted, rfl, .inl trivial, ?_⟩
      show 10 * w.unread.length + 7 < 10 * w.unread.length + 9
      omega
  -- the head of the loop: the flag decides, read once
  | head line =>
      cases hstop : w.reader_stop_ with
      | true =>
          refine ⟨_, _, .head_stops hreader hstop, trivial, .inl trivial, ?_⟩
          show 0 < 10 * w.unread.length + 7
          omega
      | false =>
          refine ⟨_, _, .head_reads hreader hstop, trivial, .inl trivial, ?_⟩
          show 10 * w.unread.length + 6 < 10 * w.unread.length + 7
          omega
  -- a read that does not throw is possible at every place in the stream
  | reading line =>
      by_cases hunread : w.unread = []
      · by_cases hline : line = []
        · subst hline
          refine ⟨_, _, .eof hreader hunread, trivial, .inl trivial, ?_⟩
          show 1 < 10 * w.unread.length + 6
          omega
        · refine ⟨_, _, .eof_in_line hreader hunread hline, trivial, .inl trivial, ?_⟩
          show 1 + 4 < 10 * w.unread.length + 6
          omega
      · -- a read of one byte will do: a byte that is read counts for less than one that is not
        have hlength : 1 ≤ w.unread.length := List.length_pos_iff.mpr hunread
        refine ⟨_, _, .read 1 hreader (Nat.le_refl 1) (by decide) hlength, trivial,
          .inl trivial, ?_⟩
        show 10 * (w.unread.drop 1).length + 5 * (w.unread.take 1).length + 8 <
          10 * w.unread.length + 6
        rw [List.length_drop, List.length_take]
        omega
  | read_failed =>
      cases hstop : w.reader_stop_ with
      | true =>
          exact ⟨_, _, .failed_stops hreader hstop, trivial, .inl trivial, Nat.zero_lt_succ 1⟩
      | false =>
          exact ⟨_, _, .failed_closes hreader hstop, trivial, .inl trivial, Nat.lt_succ_self 1⟩
  -- the scan takes the chunk byte by byte
  | scanning line rest =>
      cases rest with
      | nil =>
          refine ⟨_, _, .scan_done hreader, trivial, .inl trivial, ?_⟩
          show 10 * w.unread.length + 7 < 10 * w.unread.length + 5 * 0 + 8
          omega
      | cons byte rest =>
          have hcons : (read_at.scanning line (byte :: rest)).left w.unread.length =
              10 * w.unread.length + 5 * (rest.length + 1) + 8 := rfl
          rw [hcons]
          cases hstop : w.reader_stop_ with
          | true =>
              refine ⟨_, _, .scan_stops hreader hstop, trivial, .inl trivial, ?_⟩
              show 0 < _
              omega
          | false =>
              by_cases hbyte : byte = newline
              · subst hbyte
                refine ⟨_, _, .scan_newline hreader hstop, trivial, .inl trivial, ?_⟩
                show 10 * w.unread.length + 5 * rest.length + 8 + 4 < _
                omega
              · by_cases hfull : line.length = w.shared.options_.max_frame_bytes
                · refine ⟨_, _, .scan_over hreader hstop hbyte hfull, trivial, .inl trivial, ?_⟩
                  show 1 < _
                  omega
                · refine ⟨_, _, .scan_byte hreader hstop hbyte hfull, trivial, .inl trivial, ?_⟩
                  show 10 * w.unread.length + 5 * rest.length + 8 < _
                  omega
  | framing line after =>
      exact ⟨_, _, .frame hreader, trivial, .inl trivial, frame_next.left_reader _ _ after⟩
  -- the diagnostic goes through the transport's own `send`, which may refuse it
  | diagnosing after =>
      have hpos := after.left_pos w.unread.length
      let m : serialized := ⟨lib.dump parse_error_frame, none⟩
      cases hsend : w.shared.send m with
      | ok t =>
          refine ⟨_, _, .diagnose_sent m hreader (fun _ => rfl) hsend, rfl, .inl ⟨t, hsend⟩, ?_⟩
          show after.reader.left w.unread.length < after.left w.unread.length + 3
          rw [after.left_reader]
          omega
      | error err =>
          refine ⟨_, _, .diagnose_fails m hreader (fun _ => rfl) hsend, rfl,
            .inr ⟨⟨after, hreader⟩, err, hsend⟩, ?_⟩
          show 1 < after.left w.unread.length + 3
          omega
  | calling value after =>
      exact ⟨_, _, .call_message hreader, trivial, .inl trivial, Nat.lt_succ_self _⟩
  | called after =>
      refine ⟨_, _, .message_returned hreader, rfl, .inl rfl, ?_⟩
      show after.reader.left w.unread.length < after.left w.unread.length + 2
      rw [after.left_reader]
      omega
  -- the first step behind the loop still belongs to the reader's way to its close
  | tail at_ =>
      rw [hreader] at hopen
      cases at_ with
      | closing reason =>
          have htail : w.tail true = some (.closing reason) := congrArg read_at.tail? hreader
          refine ⟨_, _, .tail_begins htail, rfl, .inl trivial, ?_⟩
          show read_at.left _ (.tail (.begun (w.shared.begin_close reason).2)) < 1
          cases (w.shared.begin_close reason).2 <;> exact Nat.zero_lt_one
      | _ => cases hopen

/-- Behind the begin of its close the reader has nothing left to do. -/
theorem tail_at.left_of_begun (unread : Nat) {at_ : tail_at} (h : ∀ reason, at_ ≠ .closing reason) :
    (read_at.tail at_).left unread = 0 := by
  cases at_ with
  | closing reason => exact absurd rfl (h reason)
  | _ => rfl

end Reading

namespace stdio_session

/-- The line is read. -/
def read : stdio_world :=
  { started with reader := .scanning [] [0x30, newline], unread := [] }

/-- The message callback is called. -/
def told : stdio_world :=
  { read with reader := .called (.scan []), acts := [.message zero] }

/-- A step of the example is calm. -/
theorem calm_step {w w' : stdio_world} {a : stdio_action}
    (h : (calm_runs lib {} [0x30, newline]).Reachable w) (hstep : stdio_world.Step lib w a w')
    (hcalm : calm w a) : (calm_runs lib {} [0x30, newline]).Reachable w' :=
  h.step ⟨hcalm, hstep⟩

/-- The line is read and passed on, in the only order there is. -/
theorem reaches_told : (calm_runs lib {} [0x30, newline]).Reachable told := by
  have h1 := reaches_started (C := calm) trivial
  have h2 := calm_step (a := .wake true) h1 (.wake_reader rfl rfl rfl) trivial
  have h3 := calm_step (a := .reader) h2 (.head_reads rfl rfl) trivial
  have h4 : (calm_runs lib {} [0x30, newline]).Reachable read :=
    calm_step (a := .read 2) h3 (.read 2 rfl (by decide) (by decide) (by decide)) trivial
  have h5 : (calm_runs lib {} [0x30, newline]).Reachable
      { read with reader := .scanning [0x30] [newline] } :=
    calm_step (a := .reader) h4
      (@stdio_world.Step.scan_byte lib read [] [newline] 0x30 rfl rfl (by decide)
      (by decide)) trivial
  have h6 : (calm_runs lib {} [0x30, newline]).Reachable
      { read with reader := .framing [0x30] (.scan []) } :=
    calm_step (a := .reader) h5 (.scan_newline rfl rfl) trivial
  have hframe : stdio_transport.frame lib {} [0x30] = .call zero := rfl
  have h7 : (calm_runs lib {} [0x30, newline]).Reachable
      { read with reader := (stdio_transport.frame lib {} [0x30]).reader (.scan []) } :=
    calm_step (a := .reader) h6 (@stdio_world.Step.frame lib _ [0x30] (.scan []) rfl) trivial
  rw [hframe] at h7
  exact calm_step (a := .reader) h7 (.call_message rfl) trivial

end stdio_session

end SynapseMcp
