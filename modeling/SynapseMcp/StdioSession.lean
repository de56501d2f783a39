/-
What a server over `stdio_transport` has heard and said is what passes over its two streams.

The server and the transport each keep a record: the log of the server has the texts it
received and the frames it passed on, the transport has what it delivered and what it
admitted. A step of one is a step of the other where they meet, so the records agree in every
run (`passing`): the frames admitted are those the server counts as accepted, in order, with
the reader's own diagnostics between them. What a session answers (`HostSession`) is so a
matter of lines: under one ID no more of them are written than were read.
-/
import Mathlib.Data.List.ReduceOption
import SynapseMcp.HostSession
import SynapseMcp.Pipes
import SynapseMcp.ServerQuiescence

set_option autoImplicit false

namespace SynapseMcp

open Transition Delimited

/-! ## The records of the transport

The transport keeps what its reader has done and what it has admitted to its queue. Both only
grow, and each step adds at most one entry: the call of the message callback a message, a `send`
that is accepted its frame, and the reader's own diagnostic the frame of that. -/

/-- The messages among what the reader has done. -/
def delivered (acts : List read_act) : List json :=
  acts.filterMap fun act =>
    match act with
    | .message value => some value
    | _ => none

@[simp] theorem delivered_append (xs ys : List read_act) :
    delivered (xs ++ ys) = delivered xs ++ delivered ys := List.filterMap_append ..

/-- The messages are among what is served, so nothing is lost by leaving the closes out. -/
theorem delivered_served (acts : List read_act) : delivered (served acts) = delivered acts := by
  induction acts with
  | nil => rfl
  | cons act acts ih =>
      cases act with
      | message value => exact congrArg (value :: ·) ih
      | send message => exact ih
      | close reason => exact ih

section Records

variable {lib : json_library} {w t : stdio_world} {a : stdio_action}

/-- The step that calls the message callback delivers the message and admits nothing. -/
theorem stdio_world.Step.calls (hstep : stdio_world.Step lib w .reader t) {value : json}
    {after : after_frame} (hreader : w.reader = .calling value after) :
    delivered t.acts = delivered w.acts ++ [value] ∧ t.admitted = w.admitted := by
  cases hstep with
  | call_message hcalling =>
      cases hreader.symm.trans hcalling
      exact ⟨delivered_append _ _, rfl⟩
  | head_stops hother | head_reads hother | failed_stops hother | failed_closes hother
  | scan_done hother | scan_stops hother | scan_newline hother | scan_over hother
  | scan_byte hother | frame hother => cases hreader.symm.trans hother

/-- Any other step delivers nothing, since a message is handed on by calling back with it. -/
theorem stdio_world.Step.delivers_not (hstep : stdio_world.Step lib w a t)
    (hnot : a = .reader → ∀ value after, w.reader ≠ .calling value after) :
    delivered t.acts = delivered w.acts := by
  cases hstep with
  | call_message hcalling => exact absurd hcalling (hnot rfl _ _)
  | diagnose_sent => exact (delivered_append _ _).trans (List.append_nil _)
  | @tail_begins reading => cases reading <;> exact (delivered_append _ _).trans (List.append_nil _)
  | @tail_requests reading | @tail_claims reading | @tail_calls reading | @tail_returns reading
  | @tail_publishes reading | @tail_ends reading => cases reading <;> rfl
  | _ => rfl

/-- A step admits nothing, or the message that was sent, or the diagnostic. -/
theorem stdio_world.Step.admits (hstep : stdio_world.Step lib w a t) :
    t.admitted = w.admitted ∨
      (∃ message m, a = .send message m ∧ t.admitted = w.admitted ++ [message]) ∨
      (∃ m, a = .diagnose m ∧ t.admitted = w.admitted ++ [parse_error_frame]) := by
  cases hstep with
  | send message m => exact .inr (.inl ⟨message, m, rfl, rfl⟩)
  | diagnose_sent m => exact .inr (.inr ⟨m, rfl, rfl⟩)
  | @tail_begins reading | @tail_requests reading | @tail_claims reading | @tail_calls reading
  | @tail_returns reading | @tail_publishes reading | @tail_ends reading =>
      cases reading <;> exact .inl rfl
  | _ => exact .inl rfl

end Records

/-! ## The records of the server

The server's log has a text from the moment the reader looks at it, which is one step after the
callback was called with it. So what the callback was called with is the log and, in between,
the text the reader has not looked at; with that correction the two records go together step by
step. -/

/-- The text the reader was called with and has not looked at. -/
def reader_at.unseen : reader_at → List json
  | .receiving wire => [wire]
  | _ => []

/-- What the message callback was called with. -/
def world.heard (w : world) : List json := received_wires w.log ++ w.reader.unseen

section Heard

variable {w v : SynapseMcp.world} {b : server_action} {h t : host} {a : host_action}

/-- A step that puts no received text into the log, and leaves the reader with the text it had,
hears nothing. -/
theorem heard_of_log {more : List server_event} (hlog : v.log = w.log ++ more)
    (hnone : received_wires more = []) (hreader : v.reader.unseen = w.reader.unseen) :
    v.heard = w.heard := by
  rw [world.heard, world.heard, hlog, received_wires_append, hnone, List.append_nil, hreader]

/-- Behind its first section `receive()` has looked at its text. -/
theorem receive_next.unseen (next : receive_next) (calls : Nat) :
    (next.reader calls).unseen = [] := by
  cases next <;> rfl

theorem reader_at.left_unseen (calls : Nat) (threw : Bool) :
    (reader_at.left calls threw).unseen = [] := by
  cases threw <;> rfl

theorem reader_at.cleaned_unseen (rest : Option cleanup) :
    (reader_at.cleaned rest).unseen = [] := by
  cases rest <;> rfl

/-- A text that is looked at is heard no second time. -/
theorem world.Step.heard (hstep : world.Step w b v) (hnot : ∀ wire, b ≠ .deliver wire) :
    v.heard = w.heard := by
  cases hstep with
  | deliver wire => exact absurd rfl (hnot wire)
  -- the text moves from the reader's hand into the log
  | @receive wire answers hreader =>
      rw [world.heard, world.heard, hreader]
      dsimp only
      rw [received_wires_append, received_wires_events, receive_next.unseen, List.append_nil]
      rfl
  | enqueue hreader =>
      refine heard_of_log rfl rfl ?_
      rw [hreader]
      dsimp only
      split <;> rfl
  | reject_sent answers hreader | reject_failed answers hreader | reject_threw answers hreader =>
      exact heard_of_log rfl (received_wires_passed _) (by rw [hreader]; rfl)
  | leave_shared hreader | reader_completes hreader =>
      refine heard_of_log (List.append_nil _).symm rfl ?_
      rw [hreader]
      exact reader_at.left_unseen _ _
  | leave_last hreader =>
      exact heard_of_log (List.append_nil _).symm rfl (by rw [hreader]; rfl)
  | cancel hreader => exact heard_of_log rfl rfl (by rw [hreader]; rfl)
  | reader_cleans hreader =>
      refine heard_of_log (List.append_nil _).symm rfl ?_
      rw [hreader]
      exact reader_at.cleaned_unseen _
  | @reader_stopped call held hreader =>
      have hunseen : w.reader.unseen = [] := congrArg reader_at.unseen hreader
      cases held <;> exact heard_of_log (List.append_nil _).symm rfl hunseen.symm
  | apply => exact heard_of_log rfl rfl rfl
  | respond | respond_failed => exact heard_of_log rfl (received_wires_passed _) rfl
  | _ => exact heard_of_log (List.append_nil _).symm rfl rfl

/-- Only the call of the callback makes something heard, also with the owner's steps among the
others. -/
theorem host.Step.heard (hstep : host.Step h a t) (hnot : ∀ wire, a ≠ .serve (.deliver wire)) :
    t.world.heard = h.world.heard := by
  cases hstep with
  | deliver wire => exact absurd rfl (hnot wire)
  | serve hserved _ hworld =>
      refine hworld.heard fun wire => ?_
      rintro rfl
      cases hserved
  | _ => rfl

/-- Frames are passed on by what serves. -/
theorem host.Step.frames (hstep : host.Step h a t) (hnot : ∀ b, a ≠ .serve b) :
    t.world.frames = h.world.frames := by
  cases hstep with
  | deliver wire => exact absurd rfl (hnot _)
  | @serve b => exact absurd rfl (hnot b)
  | _ => rfl

end Heard

/-! ## What passes between them

The two parts of the system meet in a few steps: the transport's reader calls the server's
callback, and a section of the server that passes a frame on is a `send` of the transport. In
each of them both records get the same entry. In all others at most one of the parts takes a
step, and its record does not change, but for the diagnostics that the transport's reader sends
by itself. -/

/-- What the transport has admitted, as the server has it: its frames, with the reader's
diagnostics between them. -/
def written_as (sent : List (Option frame)) : List json :=
  sent.map fun entry => entry.elim parse_error_frame frame.wire

/-- What the transport delivered is what the server heard, and what it admitted are the server's
accepted frames with the reader's diagnostics between them. -/
structure stdio_server.passing (d : stdio_server) : Prop where
  heard : delivered d.transport.acts = d.server.world.heard
  said : ∃ sent, d.transport.admitted = written_as sent ∧
    sent.reduceOption = d.server.world.frames.filter frame.accepted

section Passing

variable {lib : json_library} {info : raw_info} {options : server_options} {o : stdio_options}
  {stream : List UInt8} {d e : stdio_server} {a : stdio_server_action}

/-- Neither has heard more, or said anything that was accepted. -/
theorem stdio_server.passing.same (hp : d.passing)
    (hacts : delivered e.transport.acts = delivered d.transport.acts)
    (hadmitted : e.transport.admitted = d.transport.admitted)
    (hheard : e.server.world.heard = d.server.world.heard)
    (hframes : e.server.world.frames.filter frame.accepted =
      d.server.world.frames.filter frame.accepted) : e.passing where
  heard := by rw [hacts, hheard, hp.heard]
  said := by rw [hadmitted, hframes]; exact hp.said

/-- One of the two has said something: the frame goes into both records, or it is the reader's
own diagnostic, which the server's log does not have. -/
theorem stdio_server.passing.says (hp : d.passing) (entry : Option frame)
    (hacts : delivered e.transport.acts = delivered d.transport.acts)
    (hadmitted : e.transport.admitted =
      d.transport.admitted ++ [entry.elim parse_error_frame frame.wire])
    (hheard : e.server.world.heard = d.server.world.heard)
    (hframes : e.server.world.frames.filter frame.accepted =
      d.server.world.frames.filter frame.accepted ++ entry.toList) : e.passing where
  heard := by rw [hacts, hheard, hp.heard]
  said := by
    obtain ⟨sent, hsent, hreduced⟩ := hp.said
    refine ⟨sent ++ [entry], ?_, ?_⟩
    · rw [hadmitted, hsent, written_as, written_as, List.map_append]
      rfl
    · rw [hframes, ← hreduced, List.reduceOption_append]
      cases entry <;> rfl

/-- A step that the server takes by itself hears nothing. -/
theorem stdio_server.alone.heard {h : host} {b : host_action} (halone : d.alone h b)
    (hhost : host.Step d.server b h) : h.world.heard = d.server.world.heard := by
  refine hhost.heard fun wire => ?_
  rintro rfl
  exact halone.1 wire rfl

/-- And passes no frame on. -/
theorem stdio_server.alone.frames {h : host} {b : host_action} (halone : d.alone h b)
    (hhost : host.Step d.server b h) : h.world.frames = d.server.world.frames := by
  by_cases hserves : ∃ c, b = .serve c
  · obtain ⟨c, rfl⟩ := hserves
    exact halone.2
  · exact hhost.frames fun c hb => hserves ⟨c, hb⟩

/-- The records stay together through every step of the system. -/
theorem stdio_server.passing.step (hp : d.passing)
    (hidle : ∀ value after, d.transport.reader = .calling value after →
      d.server.world.reader = .idle)
    (hstep : stdio_server.Step lib d a e) : e.passing := by
  -- the transport is called, or calls back, and neither record changes
  have hcalled : ∀ {c : stdio_action} {t : stdio_world}, stdio_world.Step lib d.transport c t →
      (∀ message m, c ≠ .send message m) → (∀ m, c ≠ .diagnose m) → c ≠ .reader →
      delivered t.acts = delivered d.transport.acts ∧ t.admitted = d.transport.admitted := by
    intro c t hc hsend hdiagnose hreader
    refine ⟨hc.delivers_not fun heq => absurd heq hreader, ?_⟩
    rcases hc.admits with heq | ⟨message, m, heq, -⟩ | ⟨m, heq, -⟩
    · exact heq
    · exact absurd heq (hsend message m)
    · exact absurd heq (hdiagnose m)
  cases hstep with
  | server hhost halone =>
      exact hp.same rfl rfl (halone.heard hhost) (by rw [halone.frames hhost])
  | @send b h t f m hhost hframe hsend haccepted =>
      have hheard : h.world.heard = d.server.world.heard := by
        refine hhost.heard fun wire => ?_
        rintro heq
        cases heq
        cases hhost with
        | deliver => exact absurd (List.append_right_eq_self.mp hframe.symm) nofun
        | serve hserved => cases hserved
      have hacts := hsend.delivers_not nofun
      -- what the transport answered is what the frame says of it
      rcases hsend.admits with heq | ⟨message, m', hm, heq⟩ | ⟨m', hm, -⟩
      · have hrefused : f.accepted = false := by
          rw [← Bool.not_eq_true, haccepted]
          exact fun hne => hne heq
        refine hp.same hacts heq hheard ?_
        rw [hframe, List.filter_append, List.filter_singleton, hrefused]
        exact List.append_nil _
      · cases hm
        have htaken : f.accepted = true := by
          rw [haccepted, heq]
          exact fun hself => absurd (List.append_right_eq_self.mp hself) nofun
        refine hp.says (some f) hacts heq hheard ?_
        rw [hframe, List.filter_append, List.filter_singleton, htaken]
        rfl
      · cases hm
  | start _ _ hstart =>
      obtain ⟨hacts, hadmitted⟩ := hcalled hstart nofun nofun nofun
      exact hp.same hacts hadmitted rfl rfl
  | @deliver t value after hreader hcall =>
      obtain ⟨hacts, hadmitted⟩ := hcall.calls hreader
      -- the reader was in no `receive()`, so there is no other text it has not looked at
      refine ⟨?_, hadmitted ▸ hp.said⟩
      have hheard := hp.heard
      rw [world.heard, hidle value after hreader] at hheard
      show delivered t.acts = received_wires d.server.world.log ++ [value]
      rw [hacts, hheard]
      exact congrArg (· ++ [value]) (List.append_nil _)
  | delivered _ hreturn =>
      obtain ⟨hacts, hadmitted⟩ := hcalled hreturn nofun nofun nofun
      exact hp.same hacts hadmitted rfl rfl
  | @transport c t htransport halone =>
      have hacts := htransport.delivers_not fun heq value after hcalling => by
        subst heq
        exact halone value after hcalling
      rcases htransport.admits with heq | ⟨message, m, rfl, -⟩ | ⟨m, rfl, heq⟩
      · exact hp.same hacts heq rfl rfl
      · exact absurd halone id
      · exact hp.says none hacts heq rfl (List.append_nil _).symm
  | close _ hcall =>
      obtain ⟨hacts, hadmitted⟩ := hcalled hcall nofun nofun nofun
      exact hp.same hacts hadmitted rfl rfl
  | closed _ _ _ hreturn =>
      obtain ⟨hacts, hadmitted⟩ := hcalled hreturn nofun nofun nofun
      exact hp.same hacts hadmitted rfl rfl
  | stop_closing _ _ _ hstop | stop_closes _ _ hstop | stop_requests _ hstop =>
      obtain ⟨hacts, hadmitted⟩ := hcalled hstop nofun nofun nofun
      exact hp.same hacts hadmitted rfl rfl
  | _ => exact hp.same rfl rfl rfl rfl

/-- The server has received the first of the messages on the lines of its input. -/
theorem stdio_server.passing.received (hp : d.passing)
    (hw : (stdio_runs lib o stream).Reachable d.transport) :
    received_wires d.server.world.log <+:
      delivered (lines_acts lib o (stream.splitOn newline)) := by
  have hheard : received_wires d.server.world.log <+: delivered d.transport.acts := by
    rw [hp.heard]
    exact List.prefix_append _ _
  have hdone := ((stdio_going_on hw).done).filterMap fun act =>
    match act with
    | .message value => some value
    | _ => none
  change delivered _ <+: delivered _ at hdone
  rw [delivered_served, delivered_served] at hdone
  exact hheard.trans hdone

/-- So they are together in every reachable state; at the start both are empty. -/
theorem stdio_server_passing
    (hr : (stdio_server_runs lib info options o stream).Reachable d) : d.passing := by
  refine hr.invariant (P := stdio_server.passing) ?_ ?_
  · rintro s rfl
    exact ⟨rfl, [], rfl, rfl⟩
  · intro s b u hs hp hstep
    have ht := (stdio_close_invariant (stdio_server_threads hs)).2.1
    exact hp.step (fun _ _ hcalling => ((stdio_server_parts hs).deliver ht hcalling).2) hstep

/-- In every run, whatever fails, throws or stops: what the server has received are the first of
the messages on the lines of its input, in order, and what has been written is the beginning of
the frames it counts as accepted, each a line, in order, with the diagnostics of lines that are
no message between them. -/
theorem stdio_server_wire (hr : (stdio_server_runs lib info options o stream).Reachable d) :
    received_wires d.server.world.log <+:
        delivered (lines_acts lib o (stream.splitOn newline)) ∧
      ∃ sent, sent.reduceOption = d.server.world.frames.filter frame.accepted ∧
        d.transport.admitted = written_as sent ∧
        d.transport.written <+: delimited newline ((written_as sent).map lib.encoding) := by
  have hp := stdio_server_passing hr
  have htransport := stdio_server_threads hr
  constructor
  · exact hp.received htransport
  · obtain ⟨sent, hsent, hreduced⟩ := hp.said
    refine ⟨sent, hreduced, hsent, ?_⟩
    rw [← hsent]
    exact (stdio_intact htransport).part

/-! ## No more answers than lines

What `HostSession` says of a session of the server by itself is carried over to the bytes: the
server's part of a run is such a session, the texts it received are lines of the input, and what
is written is what it passed on. The reader's diagnostics have null for an ID, so they do not
count. -/

/-- The steps of the server a session is about. -/
def session_action (configured : Bool) (d : stdio_server) : stdio_server_action → Prop
  | .server a => session_step configured d.server a
  | .transport _ => True

/-- Runs in which neither the encoder nor `transport_send_` throws, with or without a hook. -/
def stdio_server_sessions (lib : json_library) (info : raw_info) (options : server_options)
    (o : stdio_options) (stream : List UInt8) (configured : Bool) :
    System stdio_server stdio_server_action :=
  (stdio_server_runs lib info options o stream).restrict (session_action configured)

variable {configured : Bool}

/-- A step of the system is a step of the session, or leaves the server where it is. -/
theorem stdio_server.parts.session_step (hp : d.parts info options)
    (ht : d.transport.view.threads) (hstep : stdio_server.Step lib d a e)
    (hsession : session_action configured d a) :
    e.server = d.server ∨
      ∃ b, host.Step d.server b e.server ∧ SynapseMcp.session_step configured d.server b := by
  cases hstep with
  | server hhost => exact .inr ⟨_, hhost, hsession⟩
  | send _ hhost => exact .inr ⟨_, hhost, hsession⟩
  | start _ howner => exact .inr ⟨_, .transport_start howner, trivial⟩
  | started howner => exact .inr ⟨_, .transport_started howner, trivial⟩
  | start_fails err howner => exact .inr ⟨_, .transport_start_fails err howner, trivial⟩
  | deliver hreader =>
      obtain ⟨hstarted, hidle⟩ := hp.deliver ht hreader
      exact .inr ⟨_, .deliver _ hstarted hidle, hsession⟩
  | close | owner_stops | application_stops => exact .inr ⟨_, .call_stop _, trivial⟩
  | stop_closing hstops => exact .inr ⟨_, .stop_transport hstops, trivial⟩
  | stop_requests hrequester =>
      exact .inr ⟨_, .stop_transport (hp.requester _ hrequester), trivial⟩
  | cleaned howner hstops => exact .inr ⟨_, .cleaned howner hstops, trivial⟩
  | wait bounded howner => exact .inr ⟨_, .wait bounded howner, trivial⟩
  | waited howner => exact .inr ⟨_, .transport_waits howner, trivial⟩
  | wait_expires howner => exact .inr ⟨_, .transport_wait_expires howner, trivial⟩
  | _ => exact .inl rfl

/-- The server's part is a run of the host: a step of the transport alone is none of its steps,
and the others are steps of the host in a session. -/
theorem stdio_server_session :
    System.Simulation (stdio_server_sessions lib info options o stream configured)
      (host_sessions info options configured) stdio_server.server where
  init := by
    rintro d rfl
    rfl
  step := by
    rintro d a e hd _ ⟨hsession, hstep⟩
    have hr := System.restrict_reachable hd
    have ht := (stdio_close_invariant (stdio_server_threads hr)).2.1
    rcases (stdio_server_parts hr).session_step ht hstep hsession with heq | ⟨b, hhost, hb⟩
    · rw [heq]
      exact .refl
    · exact .single ⟨b, hb, hhost⟩

/-- Under an ID that is not null the diagnostics do not count. -/
theorem written_as_count (sent : List (Option frame)) {id : json_rpc_id} (hid : id ≠ .null) :
    ((written_as sent).map failure_id).count id = (sent.reduceOption.map frame.id).count id := by
  induction sent with
  | nil => rfl
  | cons entry rest ih =>
      cases entry with
      | some f =>
          rw [List.reduceOption_cons_of_some, List.map_cons, List.count_cons, ← ih]
          exact List.count_cons
      | none =>
          -- a diagnostic carries no ID
          have hnull : failure_id parse_error_frame ≠ id := fun heq => hid heq.symm
          rw [List.reduceOption_cons_of_none, ← ih]
          exact List.count_cons_of_ne hnull

/-- What is admitted under an ID is accepted by the server under it. -/
theorem admitted_count {sent : List (Option frame)} {frames : List frame} {id : json_rpc_id}
    (hreduced : sent.reduceOption = frames.filter frame.accepted) (hid : id ≠ .null) :
    ((written_as sent).map failure_id).count id ≤ (frames.map frame.id).count id := by
  rw [written_as_count sent hid, hreduced]
  exact (List.filter_sublist.map _).count_le _

/-- In a session of the server alone no more frames carry an ID than texts did. -/
theorem host_correlated {h : host}
    (hr : (host_sessions info options configured).Reachable h) {id : json_rpc_id}
    (hid : id ≠ .null) :
    (h.world.frames.map frame.id).count id ≤
      ((received_wires h.world.log).map failure_id).count id := by
  by_cases hexecutor : h.executor_ = .absent
  -- before there is an executor nothing has been passed on
  · have hu := (host_session_inv (System.restrict_reachable hr)).unpublished
      (by rw [hexecutor]; nofun)
    rw [world.frames, hu.log]
    exact Nat.zero_le _
  · obtain ⟨w, hw, halike⟩ := (host_follows_session configured).reachable hr (.inr hexecutor)
    rw [host.session_of_executor hexecutor] at halike
    have hcorrelated := session_correlated hw hid
    rw [halike.same] at hcorrelated
    exact hcorrelated

/-- Under an ID no more is admitted than lines of the input have it. -/
theorem session_admitted
    (hr : (stdio_server_sessions lib info options o stream configured).Reachable d)
    {id : json_rpc_id} (hid : id ≠ .null) :
    (d.transport.admitted.map failure_id).count id ≤
      ((delivered (lines_acts lib o (stream.splitOn newline))).map failure_id).count id := by
  have hr' := System.restrict_reachable hr
  have hp := stdio_server_passing hr'
  obtain ⟨sent, hsent, hreduced⟩ := hp.said
  have hreceived := (hp.received (stdio_server_threads hr')).sublist.map failure_id
  calc (d.transport.admitted.map failure_id).count id
      ≤ (d.server.world.frames.map frame.id).count id := by
        rw [hsent]
        exact admitted_count hreduced hid
    _ ≤ ((received_wires d.server.world.log).map failure_id).count id :=
        host_correlated (stdio_server_session.reachable hr) hid
    _ ≤ _ := hreceived.count_le id

/-- Of all that the server writes, whatever becomes of its transport, no more carries an ID than
lines of its input do. -/
theorem stdio_server_correlates
    (hr : (stdio_server_sessions lib info options o stream configured).Reachable d) :
    ∀ id ≠ .null, (d.transport.admitted.map failure_id).count id ≤
      ((delivered (lines_acts lib o (stream.splitOn newline))).map failure_id).count id :=
  fun _ hid => session_admitted hr hid

end Passing

/-! ## A client at the other end

The client's frames are the lines of the server's input and the server's are the lines of the
client's. What is asked of the library is that it carries the frames of both, which is what
parsing a text after serialising it comes to; an ID may change its representation on the way,
and `wired` says how. -/

/-- An ID as it comes through a pipe: an integer that is not negative comes back unsigned. -/
def json_rpc_id.wired : json_rpc_id → json_rpc_id
  | .int64 value => if value < 0 then .int64 value else .uint64 value.toUInt64
  | id => id

/-- An ID that has come through a pipe comes through another unchanged. -/
theorem json_rpc_id.wired_wired (id : json_rpc_id) : id.wired.wired = id.wired := by
  cases id with
  | int64 value =>
      by_cases hneg : value < 0
      · rw [json_rpc_id.wired, if_pos hneg, json_rpc_id.wired, if_pos hneg]
      · rw [json_rpc_id.wired, if_neg hneg]
        rfl
  | string | uint64 | null => rfl

section Client

variable {lib : json_library} {info : raw_info} {options : server_options} {o : stdio_options}
  {configured : Bool} {wire : json → json} {i c f : Nat} {p : process_transport}
  {d : stdio_server}

/-- The lines of frames that are all messages deliver them, in order. -/
theorem delivered_messages (messages : List json) (reason : close_reason) :
    delivered (messages.map (.message ∘ wire) ++ [.close reason]) = messages.map wire := by
  rw [delivered_append]
  induction messages with
  | nil => rfl
  | cons m messages ih => exact congrArg (wire m :: ·) ih

/-- Over both pipes, whatever becomes of either end: no more messages come back to the client
under an ID than it has sent under it. -/
theorem pipes_correlate (hp : (process_runs lib i c f d.transport.written).Reachable p)
    (hd : (stdio_server_sessions lib info options o p.written configured).Reachable d)
    (hwhole : p.whole lib) (hfirst : ∀ s ∈ p.past, s.taken = [])
    (hsent : ∀ m ∈ p.messages_sent, lib.carried wire m)
    (hadmissible : ∀ m ∈ p.messages_sent, lib.admissible o m)
    (hsaid : ∀ m ∈ d.transport.admitted, lib.carried wire m)
    (hids : ∀ m, lib.carried wire m → failure_id (wire m) = (failure_id m).wired) :
    ∀ id ≠ .null, (p.messages.map failure_id).count id ≤
      (p.messages_sent.map fun m => (failure_id m).wired).count id := by
  have hlines := process_lines_acts hp hwhole hsent hadmissible
  have hheard : (p.messages_sent.map wire).map failure_id =
      p.messages_sent.map fun m => (failure_id m).wired := by
    rw [List.map_map]
    exact List.map_congr_left fun m hm => hids m (hsent m hm)
  have hcount : ∀ id ≠ .null, (d.transport.admitted.map failure_id).count id ≤
      (p.messages_sent.map fun m => (failure_id m).wired).count id := by
    intro id hid
    have hadmitted := session_admitted hd hid
    rwa [hlines, delivered_messages, hheard] at hadmitted
  -- an ID that is answered has come through the pipe, and does not change in the other
  have hanswered : (d.transport.admitted.map wire).map failure_id =
      d.transport.admitted.map failure_id := by
    rw [List.map_map]
    refine List.map_congr_left fun m hm => (hids m (hsaid m hm)).trans ?_
    by_cases hnull : failure_id m = .null
    · rw [hnull]
      rfl
    · have hpositive : 0 < (d.transport.admitted.map failure_id).count (failure_id m) :=
        List.count_pos_iff.mpr (List.mem_map_of_mem hm)
      have hmem := List.count_pos_iff.mp (Nat.lt_of_lt_of_le hpositive (hcount _ hnull))
      obtain ⟨m', -, heq⟩ := List.mem_map.mp hmem
      rw [← heq, json_rpc_id.wired_wired]
  intro id hid
  have hmessages := frames_heard (stdio_server_threads (System.restrict_reachable hd)) hp hfirst
    hsaid
  calc (p.messages.map failure_id).count id
      ≤ ((d.transport.admitted.map wire).map failure_id).count id :=
        (hmessages.sublist.map failure_id).count_le id
    _ = (d.transport.admitted.map failure_id).count id := by rw [hanswered]
    _ ≤ _ := hcount id hid

end Client

/-! ## A greeting

The witness of the three statements above is one session with one exchange: the client's first
message goes through both pipes, and its answer comes back. -/

namespace stdio_server_session

/-- What answers the greeting. -/
def reply : json :=
  ({ id := .uint64 0
     result := some running.server.world.server.initialize_result
     err := none } : response).to_json

/-- The library on the two texts. -/
def greeting : json_library where
  parse line :=
    if line = [0x30] then .value session.hello
    else if line = [0x31] then .value reply
    else .parse_error
  dump message := if (message.find? "method").isSome then [.character 0x30] else [.character 0x31]

/-- The runs of a server that is sent the greeting. -/
def greetings : System stdio_server stdio_server_action :=
  stdio_server_sessions greeting start_session.info {} {} [0x30, newline] false

/-- `start()` has returned, and the line is there. -/
def expecting : stdio_server :=
  { running with transport := { running.transport with unread := [0x30, newline] } }

/-- The line is read. -/
def listening : stdio_server :=
  { expecting with
    transport := { expecting.transport with
      reader := .calling session.hello (.scan [])
      unread := [] } }

/-- The greeting is answered, and the answer is written. -/
def greeted : stdio_server :=
  { listening with
    server := { listening.server with
      world := { listening.server.world with
        server := { listening.server.world.server with protocol_ := .await_initialized }
        log := [.received session.hello .await_initialize_,
          .passed ⟨.received session.hello, reply, true⟩] } }
    transport := { listening.transport with
      shared := { listening.transport.shared with queued_bytes_ := 2 }
      reader := .called (.scan [])
      writer := .writing [0x31, newline] 2
      acts := [.message session.hello]
      admitted := [reply]
      written := [0x31, newline] } }

/-- One more step of such a run. -/
theorem greets {d e : stdio_server} {a : stdio_server_action} (h : greetings.Reachable d)
    (hstep : stdio_server.Step greeting d a e) (hsession : session_action false d a) :
    greetings.Reachable e := h.step ⟨hsession, hstep⟩

/-- The owner has started the server and the transport. -/
theorem reaches_expecting : greetings.Reachable expecting := by
  have h0 : greetings.Reachable
      (.constructed start_session.info {} {} [0x30, newline]) := .of_init rfl
  have h1 := greets h0 (.server (host.Step.start_enters rfl rfl (by decide)) ⟨rfl, rfl⟩ nofun)
    trivial
  have h2 := greets h1 (.server (host.Step.create rfl) ⟨rfl, rfl⟩ nofun) trivial
  have h3 := greets h2 (.server (host.Step.publish rfl rfl) ⟨rfl, rfl⟩ nofun) trivial
  have h4 := greets h3 (.start .starts rfl (stdio_world.Step.start .starts rfl)) trivial
  have h5 := greets h4 (.started rfl rfl) trivial
  exact greets h5 (.server (host.Step.commit rfl rfl) ⟨rfl, rfl⟩ nofun) trivial

/-- The reader has taken the line and calls the message callback. -/
theorem reaches_listening : greetings.Reachable listening := by
  have h1 := greets reaches_expecting
    (.transport (stdio_world.Step.wake_reader rfl rfl rfl) trivial) trivial
  have h2 := greets h1 (.transport (stdio_world.Step.head_reads rfl rfl) nofun) trivial
  have h3 := greets h2 (.transport
    (stdio_world.Step.read 2 rfl (by decide) (by decide) (by decide)) trivial) trivial
  have h4 := greets h3 (.transport
    (@stdio_world.Step.scan_byte greeting _ [] [newline] 0x30 rfl rfl (by decide) (by decide))
    nofun) trivial
  have h5 := greets h4 (.transport (stdio_world.Step.scan_newline rfl rfl) nofun) trivial
  exact greets h5 (.transport (@stdio_world.Step.frame greeting _ [0x30] (.scan []) rfl) nofun)
    trivial

/-- The server answers, and the writer writes the frame: the reader is in the callback when the
reply is sent, and the writer takes it from there. -/
theorem reaches_greeted : greetings.Reachable greeted := by
  have h1 := greets reaches_listening
    (@stdio_server.Step.deliver greeting listening _ session.hello (.scan []) rfl
      (.call_message rfl)) trivial
  have h2 : greetings.Reachable
      { greeted with
        transport := { greeted.transport with
          shared := { listening.transport.shared with
            queue_ := [[0x31, newline]], queued_bytes_ := 2 }
          writer := .waiting
          written := [] } } :=
    greets h1 (@stdio_server.Step.send greeting _ _ _ _ ⟨.received session.hello, reply, true⟩
      ⟨greeting.dump reply, none⟩
      (host.Step.serve rfl (by decide)
        (@world.Step.receive _ session.hello session.calm rfl))
      rfl (.send reply _ (fun _ => rfl) rfl) ⟨fun _ => nofun, fun _ => rfl⟩)
      ⟨rfl, by decide⟩
  have h3 := greets h2 (.transport (stdio_world.Step.wake_writer rfl rfl rfl) trivial) trivial
  have h4 := greets h3 (.transport
    (@stdio_world.Step.write_takes greeting _ [0x31, newline] [] rfl rfl) trivial) trivial
  exact greets h4 (.transport (stdio_world.Step.write 2 rfl (by decide) (by decide)) trivial)
    trivial

/-- The client sent the greeting and heard the answer. -/
def acquainted : process_transport :=
  { process_transport.constructed 3 4 5 [0x31, newline] with
    callback_ := true
    reader := .gone
    unread := []
    past := [⟨false, []⟩]
    taken := [0x31, newline]
    left := some .eof
    messages := [reply]
    sent := [(session.hello, 2)]
    written := [0x30, newline] }

/-- The client's reader takes the answer off its pipe and hears it. -/
theorem reaches_acquainted :
    (process_runs greeting 3 4 5 greeted.transport.written).Reachable acquainted := by
  have h0 : (process_runs greeting 3 4 5 greeted.transport.written).Reachable
      (process_transport.constructed 3 4 5 [0x31, newline]) := .of_init rfl
  have h1 := h0.step (process_transport.Step.start true rfl rfl rfl)
  have h2 := h1.step (process_transport.Step.send session.hello 2 (by decide) nofun)
  have h3 := h2.step (process_transport.Step.head_reads rfl rfl)
  have h4 := h3.step (process_transport.Step.read rfl rfl)
  have h5 := h4.step (process_transport.Step.head_reads rfl rfl)
  have h6 := h5.step (process_transport.Step.read rfl rfl)
  have h7 := h6.step (process_transport.Step.parse rfl)
  have h8 := h7.step (process_transport.Step.message_returns rfl)
  have h9 := h8.step (process_transport.Step.head_reads rfl rfl)
  have h10 := h9.step (process_transport.Step.eof rfl rfl)
  exact h10.step (process_transport.Step.leave rfl)

theorem greeting_ids (m : json) (hm : greeting.carried id m) :
    failure_id (id m) = (failure_id m).wired := by
  have hparses := hm.parses
  have htext : greeting.encoding m = [0x30] ∨ greeting.encoding m = [0x31] := by
    cases hmethod : (m.find? "method").isSome with
    | true => exact .inl (by simp [json_library.encoding, greeting, hmethod, put.bytes])
    | false => exact .inr (by simp [json_library.encoding, greeting, hmethod, put.bytes])
  rcases htext with htext | htext
  · rw [htext] at hparses
    have hhello : session.hello = m := parse_outcome.value.inj hparses
    rw [← hhello]
    rfl
  · rw [htext] at hparses
    have hreply : reply = m := parse_outcome.value.inj hparses
    rw [← hreply]
    rfl

theorem hello_carried : ∀ m ∈ [session.hello], greeting.carried id m := by
  intro m hm
  rw [List.mem_singleton.mp hm]
  exact ⟨by decide, by decide, by decide, rfl⟩

theorem reply_carried : ∀ m ∈ [reply], greeting.carried id m := by
  intro m hm
  rw [List.mem_singleton.mp hm]
  exact ⟨by decide, by decide, by decide, rfl⟩

end stdio_server_session

theorem stdio_server_wire_greeted :
    received_wires stdio_server_session.greeted.server.world.log = [session.hello] ∧
      received_wires stdio_server_session.greeted.server.world.log <+:
        delivered (lines_acts stdio_server_session.greeting {} ([0x30, newline].splitOn newline)) :=
  ⟨rfl, (stdio_server_wire
    (System.restrict_reachable stdio_server_session.reaches_greeted)).1⟩

theorem stdio_server_correlates_greeted :
    (stdio_server_session.greeted.transport.admitted.map failure_id).count (.uint64 0) = 1 ∧
      (stdio_server_session.greeted.transport.admitted.map failure_id).count (.uint64 0) ≤
        ((delivered (lines_acts stdio_server_session.greeting {}
          ([0x30, newline].splitOn newline))).map failure_id).count (.uint64 0) :=
  ⟨by decide, stdio_server_correlates stdio_server_session.reaches_greeted (.uint64 0) nofun⟩

/-- One answer came back for the one greeting, and it is under the ID that the greeting had on
the wire. -/
theorem pipes_correlate_acquainted :
    (stdio_server_session.acquainted.messages.map failure_id).count (.uint64 0) = 1 ∧
      (stdio_server_session.acquainted.messages.map failure_id).count (.uint64 0) ≤
        (stdio_server_session.acquainted.messages_sent.map fun m =>
          (failure_id m).wired).count (.uint64 0) := by
  refine ⟨by decide, pipes_correlate stdio_server_session.reaches_acquainted
    stdio_server_session.reaches_greeted ?_ ?_ stdio_server_session.hello_carried ?_
    stdio_server_session.reply_carried stdio_server_session.greeting_ids (.uint64 0) nofun⟩
  · rintro entry (hentry | hentry)
    · rfl
    · contradiction
  · rintro s (hs | hs)
    · rfl
    · contradiction
  · intro m hm
    rw [List.mem_singleton.mp hm]
    exact ⟨by decide, rfl⟩

end SynapseMcp
