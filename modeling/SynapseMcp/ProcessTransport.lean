/-
`process_transport.hpp`: the client's end, with the server as a child process.

The constructor has made the two pipes and the child, so a run begins with both descriptors
and the pid. The reader thread takes the child's output a byte at a time; `stop()` goes
through its statements one by one, in whatever thread calls it, the reader's own in the
callback included, and never joins the reader. What a read, a write and `waitpid` answer is
the environment's.

Gates, as nothing in the class keeps them: calls of `start` and `stop` do not overlap, and
one that starts a reader finds the last one gone. The only caller, the constructor of
`client`, starts it once.
-/
import SynapseMcp.StdioRuns

set_option autoImplicit false

namespace SynapseMcp

open Transition Delimited

/-! ## The transport

The state holds the members of the class with where each of its threads is, and at the end a
record of what has happened, which no step reads. A step is one system call or one call of the
callback, so that anything else can come in between. The reader drops carriage returns wherever
they stand in a line.

The record at the end of the state has the bytes that each reader took and why the last one
left. When a reader is made, the bytes of the one before it are put with the past ones, so none
are lost. -/

/-- `'\r'`. -/
def carriage_return : UInt8 := 0x0d

namespace process_transport

/-- Where the reader thread is. -/
inductive reader_at where
  | absent
  /-- About to ask the stop token. -/
  | head (line : List UInt8)
  /-- In `read`, of the descriptor it was called with. -/
  | reading (fd : Option Nat) (line : List UInt8)
  /-- A line that is not empty has ended. -/
  | parsing (line : List UInt8)
  /-- Inside `callback_`. -/
  | calling (value : json)
  /-- Behind the loop. -/
  | leaving
  | gone

/-- The thread does not exist, or has ended. -/
def reader_at.over : reader_at → Bool
  | .absent | .gone => true
  | _ => false

/-- Where a call of `stop()` is. -/
inductive stop_at where
  | outside
  /-- About to test `running_`. -/
  | entered
  | requesting
  | closing_out
  | closing_in
  /-- About to `kill`. -/
  | signalling
  /-- In `waitpid`. -/
  | waiting (pid : Nat)
  /-- About to clear `running_`. -/
  | clearing
  deriving DecidableEq

/-- Why the reader left its loop. -/
inductive ended where
  | stop_requested
  | eof
  | failed
  deriving DecidableEq

/-- What one reader took off the pipe, and whether `callback_` was set. -/
structure session where
  callback_ : Bool
  taken : List UInt8

end process_transport

/-- A transport with its reader, the `stop()` that is under way if one is, and its child's
output. -/
structure process_transport where
  /-- The descriptors and the pid, unless they are -1. -/
  stdin_fd_ : Option Nat
  stdout_fd_ : Option Nat
  pid_ : Option Nat
  running_ : Bool
  /-- Whether the callback is set. -/
  callback_ : Bool
  reader : process_transport.reader_at
  /-- The stop state of `reader_thread_`. -/
  stop_requested : Bool
  stop : process_transport.stop_at
  /-- What the child has yet to be read. -/
  unread : List UInt8
  -- the rest is what happened; nothing in the transport reads it
  /-- The readers before this one, and what this one took. -/
  past : List process_transport.session
  taken : List UInt8
  left : Option process_transport.ended
  messages : List json
  /-- Some call of `stop()` found `running_` set. -/
  stopped : Bool
  closed : List Nat
  signalled : List Nat
  reaped : List Nat
  /-- The messages of `send`, each with the bytes that were written of it. -/
  sent : List (json × Nat)
  written : List UInt8

/-- What can happen next: to the reader, to a `stop()`, to a read or `waitpid` that the
environment answers, or by a call of the caller. -/
inductive process_action where
  | start (callback_ : Bool)
  | start_throws (callback_ : Bool)
  | reader
  | read
  | eof
  | read_fails
  | message_returns
  | call_stop
  | stop
  | wait_returns (reaped : Bool)
  | send (message : json) (count : Nat)

/-- What `send` writes. -/
def json_library.payload (lib : json_library) (message : json) : List UInt8 :=
  lib.encoding message ++ [newline]

namespace process_transport

/-- The value of a line, if `json::parse` gives one; its exceptions are swallowed. -/
def line_value (lib : json_library) (line : List UInt8) : Option json :=
  match lib.parse line with
  | .value value => some value
  | .parse_error | .out_of_range _ | .other => none

/-- The reader behind a byte it has read. -/
def byte_read (line : List UInt8) (byte : UInt8) : reader_at :=
  if byte = newline then if line = [] then .head [] else .parsing line
  else if byte = carriage_return then .head line
  else .head (line ++ [byte])

/-- The reader behind `json::parse`, where a value goes to `callback_`. -/
def parsed (callback_ : Bool) : Option json → reader_at
  | some value => if callback_ then .calling value else .head []
  | none => .head []

/-- One step. The environment's answers are part of the action, and each position has those that
`read`, `write` and `waitpid` can give there. -/
inductive Step (lib : json_library) : process_transport → process_action → process_transport → Prop
  | start {p : process_transport} (callback_ : Bool) (hrunning : p.running_ = false)
      (hreader : p.reader.over = true) (hstop : p.stop = .outside) :
      Step lib p (.start callback_)
        { p with
          running_ := true
          callback_ := callback_
          reader := .head []
          stop_requested := false
          past := p.past ++ [⟨p.callback_, p.taken⟩]
          taken := []
          left := none }
  /-- No thread can be made: `running_` stays set. -/
  | start_throws {p : process_transport} (callback_ : Bool) (hrunning : p.running_ = false)
      (hreader : p.reader.over = true) (hstop : p.stop = .outside) :
      Step lib p (.start_throws callback_)
        { p with
          running_ := true
          callback_ := callback_
          past := p.past ++ [⟨p.callback_, p.taken⟩]
          taken := [] }
  | start_running {p : process_transport} (callback_ : Bool) (hrunning : p.running_ = true) :
      Step lib p (.start callback_) p
  | head_stops {p : process_transport} {line : List UInt8} (hreader : p.reader = .head line)
      (hstop : p.stop_requested = true) :
      Step lib p .reader { p with reader := .leaving, left := some .stop_requested }
  | head_reads {p : process_transport} {line : List UInt8} (hreader : p.reader = .head line)
      (hstop : p.stop_requested = false) :
      Step lib p .reader { p with reader := .reading p.stdout_fd_ line }
  | read {p : process_transport} {fd : Nat} {line rest : List UInt8} {byte : UInt8}
      (hreader : p.reader = .reading (some fd) line) (hunread : p.unread = byte :: rest) :
      Step lib p .read
        { p with reader := byte_read line byte, unread := rest, taken := p.taken ++ [byte] }
  | eof {p : process_transport} {fd : Nat} {line : List UInt8}
      (hreader : p.reader = .reading (some fd) line) (hunread : p.unread = []) :
      Step lib p .eof { p with reader := .leaving, left := some .eof }
  /-- `read` failed, as it does where `stop()` has closed the descriptor before. -/
  | read_fails {p : process_transport} {fd : Option Nat} {line : List UInt8}
      (hreader : p.reader = .reading fd line) :
      Step lib p .read_fails { p with reader := .leaving, left := some .failed }
  | parse {p : process_transport} {line : List UInt8} (hreader : p.reader = .parsing line) :
      Step lib p .reader
        { p with
          reader := parsed p.callback_ (line_value lib line)
          messages := p.messages ++ if p.callback_ then (line_value lib line).toList else [] }
  /-- The callback returned, or threw. -/
  | message_returns {p : process_transport} {value : json} (hreader : p.reader = .calling value) :
      Step lib p .message_returns { p with reader := .head [] }
  | leave {p : process_transport} (hreader : p.reader = .leaving) :
      Step lib p .reader { p with running_ := false, reader := .gone }
  /-- Any thread calls `stop()`. -/
  | call_stop {p : process_transport} (hstop : p.stop = .outside) :
      Step lib p .call_stop { p with stop := .entered }
  | stop_idle {p : process_transport} (hstop : p.stop = .entered) (hrunning : p.running_ = false) :
      Step lib p .stop { p with stop := .clearing }
  | stop_running {p : process_transport} (hstop : p.stop = .entered)
      (hrunning : p.running_ = true) :
      Step lib p .stop { p with stop := .requesting, stopped := true }
  | stop_requests {p : process_transport} (hstop : p.stop = .requesting) :
      Step lib p .stop { p with stop := .closing_out, stop_requested := true }
  | stop_closes_out {p : process_transport} (hstop : p.stop = .closing_out) :
      Step lib p .stop
        { p with
          stop := .closing_in
          stdout_fd_ := none
          closed := p.closed ++ p.stdout_fd_.toList }
  | stop_closes_in {p : process_transport} (hstop : p.stop = .closing_in) :
      Step lib p .stop
        { p with
          stop := .signalling
          stdin_fd_ := none
          closed := p.closed ++ p.stdin_fd_.toList }
  | stop_signals {p : process_transport} {pid : Nat} (hstop : p.stop = .signalling)
      (hpid : p.pid_ = some pid) :
      Step lib p .stop { p with stop := .waiting pid, signalled := p.signalled ++ [pid] }
  | stop_childless {p : process_transport} (hstop : p.stop = .signalling) (hpid : p.pid_ = none) :
      Step lib p .stop { p with stop := .clearing }
  | stop_waited {p : process_transport} {pid : Nat} (reaped : Bool)
      (hstop : p.stop = .waiting pid) :
      Step lib p (.wait_returns reaped)
        { p with
          stop := .clearing
          pid_ := none
          reaped := p.reaped ++ if reaped then [pid] else [] }
  | stop_clears {p : process_transport} (hstop : p.stop = .clearing) :
      Step lib p .stop { p with stop := .outside, running_ := false }
  /-- Any thread calls `send`; of a closed descriptor nothing is written. -/
  | send {p : process_transport} (message : json) (count : Nat)
      (hcount : count ≤ (lib.payload message).length) (hclosed : p.stdin_fd_ = none → count = 0) :
      Step lib p (.send message count)
        { p with
          sent := p.sent ++ [(message, count)]
          written := p.written ++ (lib.payload message).take count }

/-- What the constructor leaves: the child's input and output, and the child. -/
def constructed (stdin_fd stdout_fd pid : Nat) (output : List UInt8) : process_transport where
  stdin_fd_ := some stdin_fd
  stdout_fd_ := some stdout_fd
  pid_ := some pid
  running_ := false
  callback_ := false
  reader := .absent
  stop_requested := false
  stop := .outside
  unread := output
  past := []
  taken := []
  left := none
  messages := []
  stopped := false
  closed := []
  signalled := []
  reaped := []
  sent := []
  written := []

end process_transport

/-- A transport whose child writes `output` and ends. -/
def process_runs (lib : json_library) (stdin_fd stdout_fd pid : Nat) (output : List UInt8) :
    System process_transport process_action where
  init p := p = .constructed stdin_fd stdout_fd pid output
  step := process_transport.Step lib

/-! ## What the reader makes of the output

The output is a sequence of lines, and what a reader hears are the values of the lines that have
ended by the time it stopped reading. An unfinished line stays with the reader that has begun
it; a later reader begins with an empty one. So each reader is judged by what it took off the
pipe itself. -/

namespace process_transport

/-- A line with its carriage returns dropped, wherever they are. -/
def stripped (line : List UInt8) : List UInt8 := line.filter (· ≠ carriage_return)

/-- What a line that has ended comes to. -/
def line_message (lib : json_library) (line : List UInt8) : Option json :=
  if stripped line = [] then none else line_value lib (stripped line)

/-- What a reader that takes this off the pipe hears: of the lines that have ended the
values, one after the other. -/
def heard (lib : json_library) (taken : List UInt8) : List json :=
  (finished newline taken).filterMap (line_message lib)

/-- The messages of one reader, or none if it had no callback. -/
def session.messages (lib : json_library) (s : session) : List json :=
  if s.callback_ then heard lib s.taken else []

/-- The readers so far, this one last. -/
def sessions (p : process_transport) : List session := p.past ++ [⟨p.callback_, p.taken⟩]

/-- What has been read of the child's output. -/
def consumed (p : process_transport) : List UInt8 := p.sessions.flatMap session.taken

/-- `line`, where the reader is in its loop. -/
def reader_at.line : reader_at → Option (List UInt8)
  | .head line | .reading _ line => some line
  | .parsing _ | .calling _ => some []
  | .absent | .leaving | .gone => none

/-- The value the reader is about to call back with. -/
def reader_at.due (lib : json_library) (callback_ : Bool) : reader_at → List json
  | .parsing line => if callback_ then (line_value lib line).toList else []
  | _ => []

/-- The message that the reader of this state is about to call back with, if any. -/
def due (lib : json_library) (p : process_transport) : List json := p.reader.due lib p.callback_

/-! ## The invariant

What has been taken and what is unread make up the output; the line in hand is the last,
unfinished part of what this reader took; and the messages so far, with the one that is due, are
those of all the readers. Most steps leave all of this as it is. The ones that do not are the
start of a reader, a byte, and the parsing of a line. -/

/-- What the reader has in hand and has delivered, as a function of what it took off the pipe.
-/
structure framed (lib : json_library) (output : List UInt8) (p : process_transport) : Prop where
  stream : p.consumed ++ p.unread = output
  line : ∀ line, p.reader.line = some line → line = stripped (unfinished newline p.taken)
  delivered : p.messages ++ p.due lib = p.sessions.flatMap (session.messages lib)
  eof : p.left = some .eof → p.unread = [] ∧ (p.reader = .leaving ∨ p.reader = .gone)

section Framing

variable {lib : json_library} {output : List UInt8} {p q : process_transport}
  {a : process_action} {line : List UInt8} {byte : UInt8}

@[simp] theorem stripped_nil : stripped [] = [] := rfl

/-- What each byte adds to the line, and to what has been heard. -/
theorem heard_newline (taken : List UInt8) :
    heard lib (taken ++ [newline]) =
      heard lib taken ++ (line_message lib (unfinished newline taken)).toList := by
  rw [heard, finished_concat_self, List.filterMap_append]
  cases hmessage : line_message lib (unfinished newline taken) <;> simp [heard, hmessage]

/-- A byte within a line makes nothing heard. -/
theorem heard_byte (hbyte : byte ≠ newline) (taken : List UInt8) :
    heard lib (taken ++ [byte]) = heard lib taken := by
  rw [heard, finished_concat_ne hbyte, heard]

/-- It goes to the end of the line, unless it is a carriage return. -/
theorem stripped_byte (hbyte : byte ≠ newline) (taken : List UInt8) :
    stripped (unfinished newline (taken ++ [byte])) =
      stripped (unfinished newline taken) ++ if byte = carriage_return then [] else [byte] := by
  rw [unfinished_concat_ne hbyte, stripped, List.filter_append, stripped]
  by_cases hcr : byte = carriage_return <;> simp [hcr]

/-- A step that takes nothing and calls nothing back. What it owes the callback together with
what was called has to stay, and the line in hand may only be kept or given up. -/
theorem framed.moves (h : framed lib output p) (hsessions : q.sessions = p.sessions)
    (htaken : q.taken = p.taken) (hunread : q.unread = p.unread)
    (hmessages : q.messages ++ q.due lib = p.messages ++ p.due lib)
    (hline : q.reader.line = p.reader.line ∨ q.reader.line = none ∨
      (q.reader.line = some [] ∧ p.reader.line = some []))
    (heof : q.left = some .eof → q.unread = [] ∧ (q.reader = .leaving ∨ q.reader = .gone)) :
    framed lib output q where
  stream := by
    rw [consumed, hsessions, hunread]
    exact h.stream
  line := by
    rw [htaken]
    intro line hat
    rcases hline with heq | heq | ⟨heq, hbefore⟩
    · exact h.line line (heq ▸ hat)
    · rw [heq] at hat
      cases hat
    · exact h.line line (hbefore.trans (heq.symm.trans hat))
  delivered := by
    rw [hmessages, hsessions]
    exact h.delivered
  eof := heof

/-- A reader that has ended has no line in hand. -/
theorem reader_at.over_line {r : reader_at} (h : r.over = true) : r.line = none := by
  cases r with
  | absent | gone => rfl
  | head | reading | parsing | calling | leaving => cases h

/-- And no message. -/
theorem reader_at.over_due {r : reader_at} (h : r.over = true) (callback_ : Bool) :
    r.due lib callback_ = [] := by
  cases r with
  | absent | gone => rfl
  | head | reading | parsing | calling | leaving => cases h

/-- A new reader has heard nothing: what the last one took goes to the past, and the line in
hand begins anew. -/
theorem framed.starts (h : framed lib output p) (callback_ : Bool)
    (hover : p.reader.over = true)
    (hpast : q.past = p.past ++ [⟨p.callback_, p.taken⟩]) (hcallback : q.callback_ = callback_)
    (htaken : q.taken = []) (hunread : q.unread = p.unread) (hmessages : q.messages = p.messages)
    (hreader : q.reader = .head [] ∨ q.reader = p.reader)
    (heof : q.left = some .eof → q.unread = [] ∧ (q.reader = .leaving ∨ q.reader = .gone)) :
    framed lib output q := by
  -- one more session, in which no byte was taken yet
  have hsessions : q.sessions = p.sessions ++ [⟨callback_, []⟩] := by
    rw [sessions, hpast, hcallback, htaken, sessions]
  -- the reader before it has ended and owes nothing
  have hnone : p.due lib = [] := reader_at.over_due hover _
  have hdue : q.due lib = [] := by
    rcases hreader with hr | hr
    · rw [due, hr]
      rfl
    · rw [due, hr]
      exact reader_at.over_due hover _
  refine ⟨?_, ?_, ?_, heof⟩
  · rw [consumed, hsessions, List.flatMap_append, hunread]
    have hstream := h.stream
    rw [consumed] at hstream
    simpa using hstream
  · rw [htaken]
    intro line hat
    rcases hreader with hr | hr
    · rw [hr] at hat
      cases hat
      rfl
    · rw [hr, reader_at.over_line hover] at hat
      cases hat
  · have hheard := h.delivered
    rw [hnone, List.append_nil] at hheard
    rw [hmessages, hdue, hsessions, List.flatMap_append, ← hheard]
    cases callback_ <;> simp [session.messages, heard]

/-- A line that ends is heard as soon as it has been parsed. -/
theorem byte_heard {taken : List UInt8} (hline : line = stripped (unfinished newline taken))
    (callback_ : Bool) :
    (if callback_ then heard lib taken else []) ++ (byte_read line byte).due lib callback_ =
      if callback_ then heard lib (taken ++ [byte]) else [] := by
  by_cases hnewline : byte = newline
  · subst hnewline
    rw [heard_newline, line_message, ← hline, byte_read, if_pos rfl]
    by_cases hempty : line = []
    · simp [hempty, reader_at.due]
    · cases callback_ <;> simp [hempty, reader_at.due]
  · rw [heard_byte hnewline, byte_read, if_neg hnewline]
    by_cases hcr : byte = carriage_return <;> simp [hcr, reader_at.due]

/-- A byte goes on with the line, ends it, or is dropped. -/
theorem framed.reads (h : framed lib output p) {fd : Option Nat} {rest : List UInt8}
    (hreader : p.reader = .reading fd line) (hunread : p.unread = byte :: rest) :
    framed lib output
      { p with reader := byte_read line byte, unread := rest, taken := p.taken ++ [byte] } := by
  have hline := h.line line (by rw [hreader]; rfl)
  have hheard := h.delivered
  -- a reader in mid-line owes no message
  have hnone : p.due lib = [] := by
    rw [due, hreader]
    rfl
  rw [hnone, List.append_nil] at hheard
  -- only the last session grows, so only its part of the messages does
  have hsessions : ∀ taken,
      (p.past ++ [session.mk p.callback_ taken]).flatMap (session.messages lib) =
        p.past.flatMap (session.messages lib) ++ if p.callback_ then heard lib taken else [] := by
    intro taken
    rw [List.flatMap_append, List.flatMap_singleton]
    rfl
  refine ⟨?_, ?_, ?_, ?_⟩
  · have hstream := h.stream
    rw [consumed, sessions, hunread] at hstream
    rw [consumed, sessions]
    simpa using hstream
  -- the line is what came since the last newline, without carriage returns
  · show ∀ line', (byte_read line byte).line = some line' → _
    unfold byte_read
    split
    · rename_i hnewline
      subst hnewline
      rw [unfinished_concat_self]
      intro line' hat
      split at hat <;> cases hat <;> rfl
    · rename_i hnewline
      rw [stripped_byte hnewline, ← hline]
      intro line' hat
      split at hat <;> rename_i hcr <;> cases hat <;> simp [hcr]
  · show p.messages ++ (byte_read line byte).due lib p.callback_ =
      (p.past ++ [session.mk p.callback_ (p.taken ++ [byte])]).flatMap (session.messages lib)
    rw [hsessions, hheard, sessions, hsessions, List.append_assoc, byte_heard hline]
  -- the stream was not at its end
  · intro hleft
    obtain ⟨hnil, -⟩ := h.eof hleft
    rw [hunread] at hnil
    cases hnil

/-- Parsing hands the value over, or drops the line: with a callback the value of the line is
delivered now, and it is what was due before. -/
theorem framed.parses (h : framed lib output p) (hreader : p.reader = .parsing line) :
    framed lib output
      { p with
        reader := parsed p.callback_ (line_value lib line)
        messages := p.messages ++ if p.callback_ then (line_value lib line).toList else [] } := by
  have hdue : p.due lib = if p.callback_ then (line_value lib line).toList else [] := by
    rw [due, hreader]
    rfl
  have hparsed : (parsed p.callback_ (line_value lib line)).due lib p.callback_ = [] ∧
      (parsed p.callback_ (line_value lib line)).line = some [] := by
    cases line_value lib line with
    | none => exact ⟨rfl, rfl⟩
    | some value => cases p.callback_ <;> exact ⟨rfl, rfl⟩
  have hbefore : p.reader.line = some [] := by
    rw [hreader]
    rfl
  refine h.moves rfl rfl rfl ?_ (.inr (.inr ⟨hparsed.2, hbefore⟩)) ?_
  · rw [hdue]
    show _ ++ (parsed p.callback_ (line_value lib line)).due lib p.callback_ = _
    rw [hparsed.1, List.append_nil]
  · intro hleft
    rcases (h.eof hleft).2 with hr | hr <;> rw [hreader] at hr <;> cases hr

/-- The invariant holds through every step, by the lemmas for the steps that touch it. -/
theorem framed.step (h : framed lib output p) (hstep : process_transport.Step lib p a q) :
    framed lib output q := by
  -- the reader is not behind its loop
  have hbusy : ∀ {r : reader_at}, p.reader = r → r ≠ .leaving → r ≠ .gone →
      p.left = some .eof → False := by
    intro r hr hleaving hgone hleft
    rcases (h.eof hleft).2 with hat | hat
    · exact hleaving (hr.symm.trans hat)
    · exact hgone (hr.symm.trans hat)
  have hquiet : ∀ {r : reader_at}, p.reader = r → r.due lib p.callback_ = [] →
      p.due lib = [] := by
    intro r hr hnone
    rw [due, hr]
    exact hnone
  cases hstep with
  | start callback_ hrunning hover =>
      exact h.starts callback_ hover rfl rfl rfl rfl rfl (.inl rfl) nofun
  | start_throws callback_ hrunning hover =>
      exact h.starts callback_ hover rfl rfl rfl rfl rfl (.inr rfl) h.eof
  | read hreader hunread => exact h.reads hreader hunread
  | parse hreader => exact h.parses hreader
  | head_stops hreader =>
      refine h.moves rfl rfl rfl ?_ (.inr (.inl rfl)) nofun
      rw [hquiet hreader rfl]
      rfl
  | @head_reads line hreader =>
      refine h.moves rfl rfl rfl ?_ (.inl ?_) fun hleft => (hbusy hreader nofun nofun hleft).elim
      · rw [hquiet hreader rfl]
        rfl
      · rw [hreader]
        rfl
  | eof hreader hunread =>
      refine h.moves rfl rfl rfl ?_ (.inr (.inl rfl)) fun _ => ⟨hunread, .inl rfl⟩
      rw [hquiet hreader rfl]
      rfl
  | read_fails hreader =>
      refine h.moves rfl rfl rfl ?_ (.inr (.inl rfl)) nofun
      rw [hquiet hreader rfl]
      rfl
  | message_returns hreader =>
      refine h.moves rfl rfl rfl ?_ (.inr (.inr ⟨rfl, by rw [hreader]; rfl⟩))
        fun hleft => (hbusy hreader nofun nofun hleft).elim
      rw [hquiet hreader rfl]
      rfl
  | leave hreader =>
      refine h.moves rfl rfl rfl ?_ (.inr (.inl rfl)) fun hleft => ⟨(h.eof hleft).1, .inr rfl⟩
      rw [hquiet hreader rfl]
      rfl
  | _ => exact h.moves rfl rfl rfl rfl (.inl rfl) h.eof

/-- So it holds in every reachable state. -/
theorem process_framed {stdin_fd stdout_fd pid : Nat}
    (h : (process_runs lib stdin_fd stdout_fd pid output).Reachable p) : framed lib output p := by
  refine h.invariant (P := framed lib output) ?_ fun _ _ _ _ hi hstep => hi.step hstep
  rintro s rfl
  exact ⟨rfl, nofun, rfl, nofun⟩

end Framing

/-! ## What the client hears

The contract forgets where the reader is: a reader that is still running has delivered a
beginning of what its bytes come to, and one that has ended all of it.

Nothing is said of how many bytes are left unread by a reader that was stopped: these are the
business of the next one, if there is one. -/

/-- The output is read once, in order, and each reader's messages are the values of the lines
that ended while it read. -/
structure reader_contract (lib : json_library) (output : List UInt8) (p : process_transport) :
    Prop where
  stream : p.consumed ++ p.unread = output
  delivered : p.messages ++ p.due lib = p.sessions.flatMap (session.messages lib)
  /-- As long as no earlier reader took anything, what one heard is the beginning of what
  the output says, however far it got. -/
  first : (∀ s ∈ p.past, s.taken = []) → p.messages <+: heard lib output
  /-- One that got to the end heard all of it; a last line without a newline is lost. -/
  all : (∀ s ∈ p.past, s.taken = []) → p.callback_ = true → p.left = some .eof →
    p.messages = heard lib output

section Contract

variable {lib : json_library} {output : List UInt8} {p : process_transport}

/-- More bytes never take a message back. -/
theorem heard_prefix (taken rest : List UInt8) : heard lib taken <+: heard lib (taken ++ rest) :=
  List.IsPrefix.filterMap _ ( finished_prefix taken rest)

/-- The contract is the invariant, seen from outside: what is due has been delivered where the
reader has left its loop, and is on its way before. -/
theorem framed.contract (hi : framed lib output p) : reader_contract lib output p := by
  -- readers that took nothing heard nothing
  have hfirst : (∀ s ∈ p.past, s.taken = []) →
      p.taken ++ p.unread = output ∧
        p.messages ++ p.due lib = if p.callback_ then heard lib p.taken else [] := by
    intro hpast
    have htaken : p.past.flatMap session.taken = [] :=
      List.flatMap_eq_nil_iff.mpr fun s hs => hpast s hs
    have hheard : p.past.flatMap (session.messages lib) = [] := by
      refine List.flatMap_eq_nil_iff.mpr fun s hs => ?_
      rw [session.messages, hpast s hs]
      cases s.callback_ <;> rfl
    have hstream := hi.stream
    have hdelivered := hi.delivered
    rw [consumed, sessions, List.flatMap_append, htaken] at hstream
    rw [sessions, List.flatMap_append, hheard] at hdelivered
    refine ⟨by simpa using hstream, ?_⟩
    rw [hdelivered, List.flatMap_singleton]
    rfl
  refine ⟨hi.stream, hi.delivered, ?_, ?_⟩
  · intro hpast
    obtain ⟨hstream, hmessages⟩ := hfirst hpast
    have hpart : p.messages <+: heard lib p.taken := by
      cases hcallback : p.callback_ with
      | true =>
          rw [hcallback, if_pos rfl] at hmessages
          exact ⟨_, hmessages⟩
      | false =>
          rw [hcallback, if_neg Bool.false_ne_true] at hmessages
          rw [(List.append_eq_nil_iff.mp hmessages).1]
          exact List.nil_prefix
    rw [← hstream]
    exact hpart.trans ( heard_prefix _ _)
  · intro hpast hcallback hleft
    obtain ⟨hstream, hmessages⟩ := hfirst hpast
    obtain ⟨hunread, hreader⟩ := hi.eof hleft
    have hnone : p.due lib = [] := by
      rcases hreader with hr | hr <;> rw [due, hr] <;> rfl
    rw [hunread, List.append_nil] at hstream
    rw [hnone, List.append_nil, hcallback, if_pos rfl, hstream] at hmessages
    exact hmessages

/-- In every reachable state of a transport, whatever reads, writes and callbacks do. -/
theorem reader_framing {stdin_fd stdout_fd pid : Nat}
    (h : (process_runs lib stdin_fd stdout_fd pid output).Reachable p) :
    reader_contract lib output p := (process_framed h).contract

end Contract

/-! ## A child that says one thing and ends

The line ends with a carriage return and a newline, of which the reader drops the first. -/

def one_line : List UInt8 := [0x30, carriage_return, newline]

/-- The reader has heard it, and then the end. -/
def told : process_transport :=
  { constructed 3 4 5 one_line with
    callback_ := true
    reader := .gone
    unread := []
    past := [⟨false, []⟩]
    taken := one_line
    left := some .eof
    messages := [stdio_session.zero] }

/-- One line, and then the end of the output: the reader takes the digit, the carriage return
and the newline, calls back once and leaves at the end. -/
theorem reaches_told : (process_runs stdio_session.lib 3 4 5 one_line).Reachable told := by
  have h0 : (process_runs stdio_session.lib 3 4 5 one_line).Reachable
      (constructed 3 4 5 one_line) := .of_init rfl
  have h1 := h0.step (Step.start true rfl rfl rfl)
  have h2 := h1.step (Step.head_reads rfl rfl)
  have h3 := h2.step (Step.read rfl rfl)
  have h4 := h3.step (Step.head_reads rfl rfl)
  have h5 := h4.step (Step.read rfl rfl)
  have h6 := h5.step (Step.head_reads rfl rfl)
  have h7 := h6.step (Step.read rfl rfl)
  have h8 := h7.step (Step.parse rfl)
  have h9 := h8.step (Step.message_returns rfl)
  have h10 := h9.step (Step.head_reads rfl rfl)
  have h11 := h10.step (Step.eof rfl rfl)
  exact h11.step (Step.leave rfl)

theorem reader_framing_told :
    told.messages = heard stdio_session.lib one_line ∧ told.messages = [stdio_session.zero] :=
  ⟨(reader_framing reaches_told).all (by simp [told]) rfl rfl, rfl⟩

end process_transport

end SynapseMcp
