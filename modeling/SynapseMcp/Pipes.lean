/-
The two pipes between a `process_transport` and the `stdio_transport` of its child.

What one end has written is what the other reads, so a state of the pair is a state of each
whose stream is what the other has written. A message goes through the library twice: its
compact text is written, and the text of a line is parsed. `carried` is what that asks of the
library, and `wire` what it makes of a message: a value that compares equal, though a
non-negative integer comes back unsigned. The server's end hears the requests and the
client's end the frames, in the order in which they were sent (`requests_arrive`,
`frames_arrive`).

The client compares the ID of a response with those of its own signed integers. So what comes
through a pipe never completes a future (`process_client_pending`).
-/
import SynapseMcp.ProcessTransport
import SynapseMcp.StdioInterrupted
import SynapseMcp.StdioWriting
import SynapseMcp.ClientRuns

set_option autoImplicit false

namespace SynapseMcp

open Transition Delimited

/-- The compact text of a message is a line, which the other end reads as `wire message`. -/
structure json_library.carried (lib : json_library) (wire : json → json) (message : json) :
    Prop where
  some_text : lib.encoding message ≠ []
  one_line : newline ∉ lib.encoding message
  no_return : carriage_return ∉ lib.encoding message
  parses : lib.parse (lib.encoding message) = .value (wire message)

/-- And one that the server's end takes. -/
structure json_library.admissible (lib : json_library) (o : stdio_options) (message : json) :
    Prop where
  fits : (lib.encoding message).length ≤ o.max_frame_bytes
  shallow : excessive_depth o (lib.encoding message) = false

/-! ## One line after the other

A message is one line because its compact text has no newline, and the reader of either end
takes a line for one message. What each reader makes of a list of such lines is computed here,
once and for all messages. -/

section Lines

variable {lib : json_library} {o : stdio_options} {wire : json → json} {messages : List json}

/-- The server's reader on the texts of messages, and what follows them. -/
theorem lines_acts_encodings (hcarried : ∀ m ∈ messages, lib.carried wire m)
    (hadmissible : ∀ m ∈ messages, lib.admissible o m) (rest : List (List UInt8)) :
    lines_acts lib o (messages.map lib.encoding ++ rest) =
      messages.map (.message ∘ wire) ++ lines_acts lib o rest := by
  induction messages with
  | nil => rfl
  | cons m messages ih =>
      have hm := hcarried m List.mem_cons_self
      have hfits := hadmissible m List.mem_cons_self
      have htail := ih (fun m' h => hcarried m' (List.mem_cons_of_mem m h))
        fun m' h => hadmissible m' (List.mem_cons_of_mem m h)
      have hframe : stdio_transport.frame lib o (lib.encoding m) = .call (wire m) := by
        rw [stdio_transport.frame, if_neg hm.some_text, hfits.shallow, hm.parses]
        rfl
      rw [List.map_cons, List.cons_append, lines_acts, if_neg (Nat.not_lt.mpr hfits.fits), hframe,
        htail]
      rfl

/-- The client's reader on the text of a message. -/
theorem process_transport.line_message_encoding {m : json} (hm : lib.carried wire m) :
    process_transport.line_message lib (lib.encoding m) = some (wire m) := by
  have hstripped : process_transport.stripped (lib.encoding m) = lib.encoding m := by
    refine List.filter_eq_self.mpr fun byte hbyte => ?_
    exact decide_eq_true fun heq => hm.no_return (heq ▸ hbyte)
  rw [process_transport.line_message, hstripped, if_neg hm.some_text,
    process_transport.line_value, hm.parses]

/-- And on the texts of all messages. -/
theorem process_transport.lines_messages (hcarried : ∀ m ∈ messages, lib.carried wire m) :
    (messages.map lib.encoding).filterMap (process_transport.line_message lib) =
      messages.map wire := by
  rw [List.filterMap_map, ← List.filterMap_eq_map]
  refine List.filterMap_congr fun m hm => ?_
  exact process_transport.line_message_encoding (hcarried m hm)

/-- None of these texts has a newline in it. -/
theorem encodings_are_lines (hcarried : ∀ m ∈ messages, lib.carried wire m) :
    ∀ text ∈ messages.map lib.encoding, newline ∉ text := by
  intro text htext
  obtain ⟨m, hm, rfl⟩ := List.mem_map.mp htext
  exact (hcarried m hm).one_line

end Lines

/-! ## To the server

The client's `send` writes the text and a newline and does not look at what `write` returns. If
every `write` takes all of it, what was written is the messages' texts, each a line, and the
rest is the server's reader on a stream. -/

section Requests

variable {lib : json_library} {i c f : Nat} {output : List UInt8} {p q : process_transport}
  {a : process_action}

/-- What `send` was called with, in order. -/
def process_transport.messages_sent (p : process_transport) : List json := p.sent.map Prod.fst

/-- `send` does not look at what `write` returns. -/
def process_transport.whole (lib : json_library) (p : process_transport) : Prop :=
  ∀ entry ∈ p.sent, entry.2 = (lib.payload entry.1).length

/-- A step that sends adds what `write` took of the text. -/
theorem process_transport.Step.written_sent (hstep : process_transport.Step lib p a q)
    (h : p.written = p.sent.flatMap fun entry => (lib.payload entry.1).take entry.2) :
    q.written = q.sent.flatMap fun entry => (lib.payload entry.1).take entry.2 := by
  cases hstep with
  | send message count =>
      show p.written ++ _ = (p.sent ++ [(message, count)]).flatMap _
      rw [List.flatMap_append, List.flatMap_singleton, ← h]
  | _ => exact h

/-- What was written is the payload of each message in order, as far as the `send` of that
message came with it. -/
theorem process_written (h : (process_runs lib i c f output).Reachable p) :
    p.written = p.sent.flatMap fun entry => (lib.payload entry.1).take entry.2 := by
  refine h.invariant
    (P := fun p => p.written = p.sent.flatMap fun entry => (lib.payload entry.1).take entry.2)
    ?_ ?_
  · rintro s rfl
    rfl
  · intro s a t _ hi hstep
    exact process_transport.Step.written_sent hstep hi

/-- If every `write` wrote all of it, the child's input is the messages' texts, each a line. -/
theorem process_written_lines (h : (process_runs lib i c f output).Reachable p)
    (hwhole : p.whole lib) :
    p.written = delimited newline (p.messages_sent.map lib.encoding) := by
  rw [process_written h, delimited, process_transport.messages_sent, List.map_map,
    List.flatMap_map]
  refine List.flatMap_congr fun entry hentry => ?_
  rw [hwhole entry hentry, List.take_length]
  rfl

end Requests

/-! ## From the server

In the other direction nothing needs to be assumed of the writes: the server's writer goes on
after a short one. A stream that ends in mid-frame is read up to the last whole frame, so at
each moment the client has heard a beginning of what was admitted. -/

section Pipes

variable {lib : json_library} {o : stdio_options} {wire : json → json} {i c f : Nat}
  {stream output : List UInt8} {p : process_transport} {w : stdio_world}

/-- What the lines of the child's input come to: its messages one by one, and the end of the
stream in the empty piece behind the last newline. -/
theorem process_lines_acts (hp : (process_runs lib i c f output).Reachable p)
    (hwhole : p.whole lib) (hcarried : ∀ m ∈ p.messages_sent, lib.carried wire m)
    (hadmissible : ∀ m ∈ p.messages_sent, lib.admissible o m) :
    lines_acts lib o (p.written.splitOn newline) =
      p.messages_sent.map (.message ∘ wire) ++ [.close .eof] := by
  have hlast : lines_acts lib o [[]] = [.close .eof] := by
    have hempty : stdio_transport.frame lib o [] = .skip := rfl
    rw [lines_acts, List.length_nil, if_neg (Nat.not_lt_zero _), hempty]
    rfl
  rw [process_written_lines hp hwhole, splitOn_delimited (encodings_are_lines hcarried),
    lines_acts_encodings hcarried hadmissible, hlast]

/-- The server's end, whatever happens to it, hears the messages sent from the first on, in
order, none of them twice, and rejects nothing. -/
theorem requests_arrive (hp : (process_runs lib i c f output).Reachable p)
    (hw : (stdio_runs lib o p.written).Reachable w) (hwhole : p.whole lib)
    (hcarried : ∀ m ∈ p.messages_sent, lib.carried wire m)
    (hadmissible : ∀ m ∈ p.messages_sent, lib.admissible o m) :
    served w.acts <+: p.messages_sent.map (.message ∘ wire) ∧
      -- and all of them, if nothing disturbs it before the client closes its end
      ((calm_runs lib o p.written).Reachable w → w.reader = .tail .gone →
        w.acts = p.messages_sent.map (.message ∘ wire) ++ [.close .eof]) := by
  have hstream : lines_acts lib o (p.written.splitOn newline) =
      p.messages_sent.map (.message ∘ wire) ++ [.close .eof] :=
    process_lines_acts hp hwhole hcarried hadmissible
  constructor
  · have hprefix := (stdio_going_on hw).done
    rw [hstream, served_append, served_close, List.append_nil] at hprefix
    -- only messages come of these lines, so `served` keeps them all
    have hserves : served (p.messages_sent.map (.message ∘ wire)) =
        p.messages_sent.map (.message ∘ wire) := by
      refine List.filter_eq_self.mpr fun act hact => ?_
      obtain ⟨m, -, rfl⟩ := List.mem_map.mp hact
      rfl
    rwa [hserves] at hprefix
  · intro hcalm hgone
    have hdue := (calm_reading hcalm).due
    rw [hgone] at hdue
    rw [← hstream]
    exact (List.append_nil _).symm.trans hdue

/-- A writer that has drained its queue has written every frame. -/
theorem drained_written (hw : (stdio_runs lib o stream).Reachable w)
    (hended : w.writer_ended = some .drained) :
    w.written = delimited newline (w.admitted.map lib.encoding) := by
  have hintact := stdio_intact hw
  obtain ⟨-, hqueue, hframe⟩ := hintact.drained hended
  have hwhole := hintact.whole (.inr hended)
  -- nothing queued and nothing in hand
  rw [hqueue, hframe] at hwhole
  simp only [output_view.rest, Option.elim_none, List.flatten_nil, List.append_nil] at hwhole
  exact hwhole

/-- What has been written of the frames is read as the first of them. -/
theorem frames_heard (hw : (stdio_runs lib o stream).Reachable w)
    (hp : (process_runs lib i c f w.written).Reachable p)
    (hfirst : ∀ s ∈ p.past, s.taken = [])
    (hcarried : ∀ m ∈ w.admitted, lib.carried wire m) : p.messages <+: w.admitted.map wire := by
  have hheard : process_transport.heard lib w.written <+: w.admitted.map wire := by
    have hfinished := splitOn_dropLast_of_delimited (encodings_are_lines hcarried)
      (stdio_intact hw).part
    have hvalues := hfinished.filterMap (process_transport.line_message lib)
    rwa [process_transport.lines_messages hcarried] at hvalues
  exact ((process_transport.process_framed hp).contract.first hfirst).trans hheard

/-- The client's end hears the frames the server's end admitted, from the first on, in order,
none of them twice. -/
theorem frames_arrive (hw : (stdio_runs lib o stream).Reachable w)
    (hp : (process_runs lib i c f w.written).Reachable p)
    (hfirst : ∀ s ∈ p.past, s.taken = [])
    (hcarried : ∀ m ∈ w.admitted, lib.carried wire m) :
    p.messages <+: w.admitted.map wire ∧
      -- and all of them, once the server's writer has drained its queue and the end is read
      (w.writer_ended = some .drained → p.callback_ = true → p.left = some .eof →
        p.messages = w.admitted.map wire) := by
  refine ⟨frames_heard hw hp hfirst hcarried, ?_⟩
  intro hended hcallback heof
  rw [(process_transport.process_framed hp).contract.all hfirst hcallback heof,
    process_transport.heard, finished, drained_written hw hended,
    splitOn_delimited (encodings_are_lines hcarried), List.dropLast_concat,
    process_transport.lines_messages hcarried]

end Pipes

/-! ## The client on a pipe

What the client is called with has been through the parser, and the parser makes a signed
integer only of a negative one, while the IDs of requests are positive. So no message from a
child is a response the client takes. -/

section Client

variable {lib : json_library} {i c f : Nat} {output : List UInt8} {p q : process_transport}
  {a : process_action}

/-- What the callback is called with came out of the parser. -/
theorem process_messages_parsed (h : (process_runs lib i c f output).Reachable p) :
    ∀ m ∈ p.messages, ∃ line, lib.parse line = .value m := by
  intro m hm
  have hdelivered := (process_transport.process_framed h).delivered
  have hmem : m ∈ p.sessions.flatMap (process_transport.session.messages lib) := by
    rw [← hdelivered]
    exact List.mem_append_left _ hm
  obtain ⟨s, -, hs⟩ := List.mem_flatMap.mp hmem
  rw [process_transport.session.messages] at hs
  split at hs
  · obtain ⟨line, -, hline⟩ := List.mem_filterMap.mp hs
    rw [process_transport.line_message] at hline
    split at hline
    · cases hline
    · refine ⟨process_transport.stripped line, ?_⟩
      rw [process_transport.line_value] at hline
      split at hline
      · rename_i value hvalue
        cases hline
        exact hvalue
      all_goals cases hline
  · cases hs

/-- The messages among the events of a client. -/
def messages_in (events : List client_event) : List json :=
  events.filterMap fun e =>
    match e with
    | .on_message msg => some msg
    | .send_request _ _ => none

/-- A client whose messages come from its child, whatever the child writes and whenever the
client sends: as long as fewer than `2 ^ 63` requests are sent, every future stays pending. -/
theorem process_client_pending {handler : Option (String → Option json → Except error json)}
    {events : List client_event} (hp : (process_runs lib i c f output).Reachable p)
    (hlib : ∀ line value, lib.parse line = .value value → value.is_wire_value = true)
    (hheard : messages_in events <+: p.messages)
    (hfew : (events.filter client_event.is_send).length < 2 ^ 63) :
    ∀ (call : Nat) state,
      (client_run.after handler events).client.futures[call]? = some state → state = .pending := by
  refine wire_futures_pending events ?_ hfew
  intro msg hmsg
  have hmem : msg ∈ messages_in events := List.mem_filterMap.mpr ⟨_, hmsg, rfl⟩
  obtain ⟨line, hline⟩ := process_messages_parsed hp msg (hheard.subset hmem)
  exact hlib line msg hline

end Client

/-! ## A conversation of two messages

The client sends one message and the server another; both arrive. -/

namespace stdio_session

/-- The client sent `0` and heard `0`. -/
def spoken : process_transport :=
  { process_transport.constructed 3 4 5 [0x30, newline] with
    callback_ := true
    reader := .gone
    unread := []
    past := [⟨false, []⟩]
    taken := [0x30, newline]
    left := some .eof
    messages := [zero]
    sent := [(zero, 2)]
    written := [0x30, newline] }

/-- It is a run of the client's end: the transport is started, reads the child's one line and
hands it on. -/
theorem reaches_spoken : (process_runs lib 3 4 5 [0x30, newline]).Reachable spoken := by
  have h0 : (process_runs lib 3 4 5 [0x30, newline]).Reachable
      (process_transport.constructed 3 4 5 [0x30, newline]) := .of_init rfl
  have h1 := h0.step (process_transport.Step.start true rfl rfl rfl)
  have h2 := h1.step (process_transport.Step.send zero 2 (by decide) nofun)
  have h3 := h2.step (process_transport.Step.head_reads rfl rfl)
  have h4 := h3.step (process_transport.Step.read rfl rfl)
  have h5 := h4.step (process_transport.Step.head_reads rfl rfl)
  have h6 := h5.step (process_transport.Step.read rfl rfl)
  have h7 := h6.step (process_transport.Step.parse rfl)
  have h8 := h7.step (process_transport.Step.message_returns rfl)
  have h9 := h8.step (process_transport.Step.head_reads rfl rfl)
  have h10 := h9.step (process_transport.Step.eof rfl rfl)
  exact h10.step (process_transport.Step.leave rfl)

/-- The server heard `0`, and has written `0`. -/
def replied : stdio_world :=
  { told with
    shared := { told.shared with queued_bytes_ := 2 }
    writer := .writing [0x30, newline] 2
    admitted := [zero]
    written := [0x30, newline] }

/-- And this one of the server's end. -/
theorem reaches_replied : (stdio_runs lib {} [0x30, newline]).Reachable replied := by
  have h1 := System.restrict_reachable reaches_told
  have h2 := h1.step (stdio_world.Step.send zero ⟨lib.dump zero, none⟩ (fun _ => rfl) rfl)
  have h3 := h2.step (stdio_world.Step.wake_writer rfl rfl rfl)
  have h4 : (stdio_runs lib {} [0x30, newline]).Reachable
      { replied with writer := .writing [0x30, newline] 0, written := [] } :=
    h3.step (@stdio_world.Step.write_takes lib _ [0x30, newline] [] rfl rfl)
  exact h4.step (stdio_world.Step.write 2 rfl (by decide) (by decide))

/-- The library carries it. -/
theorem zero_carried : ∀ m ∈ [zero], lib.carried id m := by
  rintro m (hm | hm)
  · exact ⟨by decide, by decide, by decide, rfl⟩
  · contradiction

/-- It fits the limits. -/
theorem zero_admissible : ∀ m ∈ [zero], lib.admissible {} m := by
  rintro m (hm | hm)
  · exact ⟨by decide, rfl⟩
  · contradiction

/-- Every `write` took all of it. -/
theorem spoken_whole : spoken.whole lib := by
  rintro entry (hentry | hentry)
  · rfl
  · contradiction

/-- The library reads nothing but this one value, which is such a value. -/
theorem lib_wire : ∀ line value, lib.parse line = .value value → value.is_wire_value = true := by
  intro line value h
  unfold lib at h
  dsimp only at h
  split at h
  · cases h
    rfl
  · cases h

end stdio_session

/-- The server's end has heard what the client sent. -/
theorem requests_arrive_replied :
    served stdio_session.replied.acts <+: stdio_session.spoken.messages_sent.map (.message ∘ id) :=
  (requests_arrive stdio_session.reaches_spoken stdio_session.reaches_replied
    stdio_session.spoken_whole stdio_session.zero_carried stdio_session.zero_admissible).1

/-- And the client's end what the server sent. -/
theorem frames_arrive_spoken :
    stdio_session.spoken.messages <+: stdio_session.replied.admitted.map id :=
  (frames_arrive stdio_session.reaches_replied stdio_session.reaches_spoken (by
    rintro s (hs | hs)
    · rfl
    · contradiction) stdio_session.zero_carried).1

/-- It sent one request, and took the `0` for no answer. -/
def stdio_session.heard : List client_event :=
  [.send_request "ping" none, .on_message stdio_session.zero]

/-- The future of its request is pending after that. -/
theorem process_client_pending_spoken :
    ∃ state, (client_run.after none stdio_session.heard).client.futures[0]? = some state ∧
      state = .pending :=
  ⟨.pending, rfl, @process_client_pending _ _ _ _ _ _ none stdio_session.heard
    stdio_session.reaches_spoken stdio_session.lib_wire List.prefix_rfl (by decide) 0 .pending rfl⟩

end SynapseMcp
