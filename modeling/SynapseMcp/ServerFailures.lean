/-
Replies that cannot be delivered.

A section of `receive()`, the queue-full reply and the worker's second section each
emit at most one reply. When `emit` returns false, the thread calls `stop()` before it
does anything else. When it throws out of `receive()`, the catch around the message
callback makes that call. When it throws out of the worker's invocation nobody makes
it: `owned_executor::run` contains the exception, and the server goes on serving.

The queue-full reply is also given inside `receive()`, but the exception leaves the
scope of `done` before it gets to the catch, so that for a moment the operation is
retired while the server serves. `delivering_runs` is without both.
-/
import SynapseMcp.ServerClosing
import SynapseMcp.ServerDelivery

set_option autoImplicit false

namespace SynapseMcp

open Transition SharedOwnership

/-! ## Emissions

An emission fails when `emit` does not return true: nothing fits, the transport refuses, or one
of the two throws. Which of the three places it was in decides who has to call `stop()`.

What `receive` emits is given as a function of the text and the session, without the encoder.
With it a failure can be said of the step: there was a reply to emit, and what `emit` returned
was not success. The two replies to admitted operations are emitted only while `may_answer` says
so. -/

/-- The reply `receive` emits for what it received, without an operation: a decode
error, a control reply, or a refusal. -/
def server.emits (s : server) (wire : json) : Option (response × String) :=
  match decode_message wire with
  | .error diagnostic =>
      if server.is_notification wire then none
      else if s.serving then some (diagnostic, "")
      else none
  | .ok (.request req) =>
      if !s.serving || s.protocol_ = .closing then none
      else if s.inflight_.any (fun op => same_request_id (s.id_of op) req.id) then
        some (failure .null .invalid_request "Duplicate in-flight request ID", "")
      else if req.method = "ping" then
        some ({ id := req.id, result := some (.object []), err := none }, "ping")
      else if req.method = "initialize" then some ((s.initialize_session req).2, "initialize")
      else if s.protocol_ ≠ .ready then
        some (failure req.id .invalid_request "Server is not initialized", "")
      else none
  | _ => none

/-- `emit` ends in an exception: of the encoder, or of `transport_send_`, which is given
a frame if one fits. -/
def emit_answers.throws (a : emit_answers) (reply : response) (method : String) : Bool :=
  a.encode_throws || (a.send = .threw && a.passes reply method)

/-- A step in which a serving server emits a reply, and `emit` does not return true. -/
inductive emission_fails (w : world) : server_action → Prop
  | receive {wire : json} {reply : response} {method : String} (a : emit_answers)
      (hreader : w.reader = .receiving wire) (hemits : w.server.emits wire = some (reply, method))
      (hfails : (emit a reply method).2 ≠ .sent) : emission_fails w (.receive a)
  | reject {req : request} {op : Nat} (a : emit_answers) (hreader : w.reader = .rejected req op)
      (hmay : w.server.may_answer op = true)
      (hfails : (emit a (queue_full_reply req.id) "").2 ≠ .sent) : emission_fails w (.reject a)
  | respond {item : work closure} {reply : response} (a : emit_answers)
      (hworker : w.run.worker = .calling item) (hcall : w.call = .replying reply)
      (hmay : w.server.may_answer item.call.op = true)
      (hfails : (emit a reply item.call.req.method).2 ≠ .sent) : emission_fails w (.respond a)

/-- The worker's reply ends in an exception. -/
def worker_throws (w : world) (a : server_action) : Prop :=
  ∃ item reply answers, a = .respond answers ∧ w.run.worker = .calling item ∧
    w.call = .replying reply ∧ w.server.may_answer item.call.op = true ∧
    answers.throws reply item.call.req.method = true

/-- The queue-full reply does. -/
def rejection_throws (w : world) (a : server_action) : Prop :=
  ∃ req op answers, a = .reject answers ∧ w.reader = .rejected req op ∧
    w.server.may_answer op = true ∧ answers.throws (queue_full_reply req.id) "" = true

/-- Runs in which no reply to an admitted operation ends in an exception. -/
def delivering_runs (limit : Nat) : System world server_action :=
  (server_runs limit).restrict fun w a => ¬ worker_throws w a ∧ ¬ rejection_throws w a

/-- The reader is in a call of `stop()` of its own, or on its way there with an
exception. -/
def reader_at.fails : reader_at → Bool
  | .stopping _ _ => true
  | .leaving _ threw => threw
  | .completing _ threw => threw
  | _ => false

/-- The worker is in a call of `stop()` of its own. -/
def call_at.fails : call_at → Bool
  | .stopping _ => true
  | _ => false

/-- The thread whose emission it was is about to stop the server. -/
def server_action.gives_up : server_action → world → Bool
  | .receive _, w => w.reader.fails
  | .reject _, w => w.reader.fails
  | .respond _, w => w.call.fails
  | _, _ => false

/-- The steps of the reader and the worker, and of calls of `stop()` already made. -/
def own_runs (limit : Nat) : System world server_action :=
  (server_runs limit).restrict fun _ a => a = .reader ∨ a = .worker ∨ a = .stop

/-- From `t` on, the server does not serve, or the thread that took the step `a` is about
to stop it, with nobody else needed. -/
structure leaves_serving (limit : Nat) (a : server_action) (t : world) : Prop where
  always : ∀ u, (server_runs limit).Run t u → u.server.serving = false ∨ a.gives_up u = true
  never_stuck : ∀ u, (server_runs limit).Run t u →
    ∃ v, (own_runs limit).Run u v ∧ v.server.serving = false

/-- An admitted operation is retired, was not cancelled, and no frame was accepted for it. -/
structure lost_reply (w : world) (op : Nat) : Prop where
  made : op < w.server.operations.length
  retired : op ∉ w.server.inflight_
  live : w.server.cancelled op = false
  unanswered : ∀ f ∈ w.frames, f.answers op = true → f.accepted = false

/-! ## How an emission ends

`emit` returns what the transport says of one frame, so success and exception can be traced back
to the answers of the environment: the encoder, the frame limit, and `transport_send_`.

The transport is asked about one frame at most, since the encoded sizes decide first which frame
it is: the reply, or the error that stands for it. If neither fits, `emit` fails and nothing is
sent. -/

section Emission

variable {s : server} {a : emit_answers} {reply : response} {method : String}

/-- `emit` throws when the encoder does or the transport does; the latter is asked only if a
frame fits. -/
theorem emit_throws : (emit a reply method).2 = .threw ↔ a.throws reply method = true := by
  unfold emit emit_answers.throws emit_answers.passes
  by_cases hencode : a.encode_throws = true
  · simp [hencode]
  · rw [Bool.not_eq_true] at hencode
    by_cases hfits : a.frame_fits reply.to_json = true
    · cases a.send <;> simp [hencode, hfits, send_outcome.ended]
    · rw [Bool.not_eq_true] at hfits
      by_cases hreplaced : a.frame_fits (replacement reply method).to_json = true
      · cases a.send <;> simp [hencode, hfits, hreplaced, send_outcome.ended]
        split <;> simp
      · rw [Bool.not_eq_true] at hreplaced
        simp [hencode, hfits, hreplaced]

/-- `emit` returns true only when the transport accepted the frame. -/
theorem emit_sent (h : (emit a reply method).2 = .sent) :
    ∃ wire, (emit a reply method).1 = some wire ∧ a.send = .accepted := by
  have hended : a.send.ended = .sent → a.send = .accepted := by
    cases a.send <;> simp [send_outcome.ended]
  rcases emit_cases a reply method with ⟨-, heq⟩ | heq | heq | heq
  · rw [heq] at h
    cases h
  · rw [heq] at h
    cases h
  · rw [heq] at h ⊢
    exact ⟨_, rfl, hended h⟩
  · rw [heq] at h ⊢
    dsimp only at h
    refine ⟨_, rfl, ?_⟩
    split at h
    · cases h
    · exact hended h

/-- A guarded emission that returns true sent its frame, or was not made. -/
theorem server.answer_sent {origin : frame_origin} {op : Nat}
    (h : (s.answer a origin op reply method).2 = .sent) :
    s.may_answer op = false ∨ ∃ wire, (s.answer a origin op reply method).1 =
      [⟨origin, wire, true⟩] := by
  unfold server.answer at h ⊢
  split at h
  · rename_i hmay
    right
    obtain ⟨wire, hwire, hsend⟩ := emit_sent h
    rw [if_pos hmay]
    refine ⟨wire, ?_⟩
    rw [emitted, hwire, hsend]
    rfl
  · rename_i hmay
    left
    rwa [Bool.not_eq_true] at hmay

/-- A guarded emission throws when it is made at all and `emit` throws. -/
theorem server.answer_threw {origin : frame_origin} {op : Nat} :
    (s.answer a origin op reply method).2 = .threw ↔
      s.may_answer op = true ∧ a.throws reply method = true := by
  unfold server.answer
  split
  · rename_i hmay
    rw [← emit_throws]
    simp [hmay]
  · rename_i hmay
    simp [hmay]

/-- A notification is answered with nothing. -/
theorem server.notify_frames (s : server) (note : notification) : (s.notify note).frames = [] := by
  unfold server.notify
  repeat' split
  all_goals rfl

/-- `receive` passes on what it emits and nothing else, and if that fails `stop()`
follows. -/
theorem server.receive_emits (s : server) (a : emit_answers) (wire : json) :
    (s.receive a wire).frames =
        (s.emits wire).elim [] (fun e => emitted a (.received wire) e.1 e.2) ∧
      ∀ e, s.emits wire = some e → (emit a e.1 e.2).2 ≠ .sent →
        (s.receive a wire).next = .stop := by
  -- a reply of `server.reply` goes on to `stop()` unless it was sent
  have hreply : ∀ (s' : server) (reply : response) (method : String),
      (s'.reply a wire reply method).frames = emitted a (.received wire) reply method ∧
        ∀ e, some (reply, method) = some e → (emit a e.1 e.2).2 ≠ .sent →
          (s'.reply a wire reply method).next = .stop := by
    intro s' reply method
    refine ⟨rfl, ?_⟩
    rintro e he hne
    cases he
    exact if_neg hne
  unfold server.emits server.receive
  cases decode_message wire with
  | error diagnostic =>
      dsimp only
      by_cases hnote : server.is_notification wire = true
      · rw [if_pos hnote, if_pos hnote]
        exact ⟨rfl, fun e he => (by cases he)⟩
      rw [if_neg hnote, if_neg hnote]
      by_cases hserving : s.serving = true
      · rw [if_pos hserving, if_pos hserving]
        exact hreply s diagnostic ""
      · rw [if_neg hserving, if_neg hserving]
        exact ⟨rfl, fun e he => (by cases he)⟩
  | ok message =>
      cases message with
      | notification note => exact ⟨s.notify_frames note, fun e he => (by cases he)⟩
      | response r => exact ⟨rfl, fun e he => (by cases he)⟩
      | request req =>
          dsimp only
          unfold server.dispatch
          by_cases hopen : (!s.serving || decide (s.protocol_ = .closing)) = true
          · rw [if_pos hopen, if_pos hopen]
            exact ⟨rfl, fun e he => (by cases he)⟩
          rw [if_neg hopen, if_neg hopen]
          by_cases hany : s.inflight_.any (fun op => same_request_id (s.id_of op) req.id) = true
          · rw [if_pos hany, if_pos hany]
            exact ⟨rfl, fun e he _ => rfl⟩
          rw [if_neg hany, if_neg hany]
          by_cases hping : req.method = "ping"
          · rw [if_pos hping, if_pos hping]
            exact hreply s _ _
          rw [if_neg hping, if_neg hping]
          by_cases hinit : req.method = "initialize"
          · rw [if_pos hinit, if_pos hinit]
            exact hreply _ _ _
          rw [if_neg hinit, if_neg hinit]
          by_cases hready : s.protocol_ ≠ .ready
          · rw [if_pos hready, if_pos hready]
            exact hreply s _ _
          rw [if_neg hready, if_neg hready]
          exact ⟨rfl, fun e he => (by cases he)⟩

/-- `receive` emits only while the server serves, which each of its branches has asked before it
replies. -/
theorem server.emits_serving {wire : json} {e : response × String} (h : s.emits wire = some e) :
    s.serving = true := by
  by_contra hserving
  rw [Bool.not_eq_true] at hserving
  unfold server.emits at h
  rw [hserving] at h
  split at h
  · split at h <;> cases h
  · cases h
  · cases h

/-- No section of `receive` changes the lifecycle, so a server serves after it if it did before.
-/
theorem server.receive_serving (s : server) (a : emit_answers) (wire : json) :
    (s.receive a wire).server.serving = s.serving := by
  have hr := s.receive_received a wire
  generalize s.receive a wire = r at hr
  cases hr with
  | duplicate =>
      dsimp only
      split <;> rfl
  | _ => rfl

end Emission

/-! ## A failure ends in `stop()`

What is stated is about all threads: the one whose emission failed calls `stop()` next and nobody
else is needed for the section that ends the service. Two lemmas carry it. Whatever the others
do in between, the thread remains on its way into that section (`reader_gives_up`,
`worker_gives_up`). And from any such state it gets there by its own steps (`reader_stop_run`,
`worker_stop_run`), because the gates of these steps are about itself. -/

section Stops

variable {limit : Nat} {w t : world} {a : server_action}

/-! ### Who is in `stop()`

A thread that is in `stop()` knows its call by the place in the list of calls. That the list has
the place is an invariant of its own, which the lemmas about later steps use: what is looked up
is there. -/

/-- The calls of `stop()` the reader and the worker wait for have been made. -/
structure calls_made (w : world) : Prop where
  reader : ∀ call held, w.reader = .stopping call held → call < w.stops.length
  worker : ∀ call, w.call = .stopping call → call < w.stops.length

/-- Calls of `stop()` stay listed. -/
theorem world.Step.stops_length (hstep : world.Step w a t) : w.stops.length ≤ t.stops.length := by
  rcases hstep.stops_cases with hs | hs | ⟨call, -, -, hs⟩ | ⟨call, before, after, -, -, hs⟩
  · rw [hs]
  · rw [hs, List.length_append]
    omega
  · rw [hs, List.length_set]
  · rw [hs, List.length_set]

/-- Every step keeps this: a thread that goes into `stop()` lists its call in the same step. -/
theorem calls_made.step (h : calls_made w) (hstep : world.Step w a t) : calls_made t := by
  have hlength := hstep.stops_length
  constructor
  · intro call held hreader
    -- most steps leave the reader where it was, and the list only grows
    have hkept : w.reader = .stopping call held → call < t.stops.length := by
      intro hbefore
      have := h.reader call held hbefore
      omega
    -- an emission that threw takes the reader into `stop()`; the call is the new end of the list
    have hleft : ∀ threw : Bool, reader_at.left w.stops.length threw = .stopping call held →
        call < (left_stops w.stops threw).length := by
      intro threw hthrew
      cases threw with
      | true =>
          cases hthrew
          simp [left_stops]
      | false => cases hthrew
    cases hstep with
    | @receive wire a hr =>
        cases hnext : (w.server.receive a wire).next with
        | stop =>
            rw [hnext] at hreader
            cases hreader
            simp [receive_next.stops]
        | done | enqueue | cancel =>
            rw [hnext] at hreader
            cases hreader
    | enqueue hr =>
        dsimp only at hreader
        split at hreader <;> cases hreader
    | leave_shared hr hshared => exact hleft _ hreader
    | reader_completes hr => exact hleft _ hreader
    | reject_failed a hr hfailed =>
        cases hreader
        simp
    | @reader_cleans rest hr =>
        dsimp only at hreader
        cases hrest : (rest.next w.server fun _ => false).2 with
        | none =>
            rw [hrest] at hreader
            cases hreader
        | some rest' =>
            rw [hrest] at hreader
            cases hreader
    | @reader_stopped call' held' hr hreturned =>
        cases held' <;> cases hreader
    -- the other steps of the reader lead to places outside `stop()`
    | deliver _ hr | reject_sent _ hr _ | reject_threw _ hr _ | leave_last hr _ | cancel hr =>
        cases hreader
    | _ => exact hkept hreader
  · intro call hcall
    have hkept : w.call = .stopping call → call < t.stops.length := by
      intro hbefore
      have := h.worker call hbefore
      omega
    cases hstep with
    -- of the worker's steps only the failed reply leads into `stop()`
    | respond_failed a hworker hc hfailed =>
        cases hcall
        simp
    | invoke _ | apply _ _ _ | skip _ _ _ | application _ _ _ | respond _ _ _ _
    | call_stopped _ _ | finish_call _ _ | release_last _ _ _ | call_completes _ _ =>
        cases hcall
    | _ => exact hkept hcall

/-- It holds in every state of a server. -/
theorem server_calls_made (h : (server_runs limit).Reachable w) : calls_made w := by
  refine h.invariant (P := calls_made) ?_ fun _ _ _ _ hc hstep => hc.step hstep
  rintro w ⟨-, info, resources, prompts, tools, rfl⟩
  exact ⟨fun call held h => (by cases h), fun call h => (by cases h)⟩

/-! ### Nothing else comes first

A thread that is to give up keeps to that whatever the other threads do, and their steps can
only bring the end of the service forward. So in any continuation either the server has stopped
serving, or the thread is still on its way. -/

/-- A reader that is about to stop the server does nothing else first. -/
theorem world.Step.reader_gives_up (hi : ids_inv w) (hstep : world.Step w a t)
    (hfails : w.reader.fails = true) : t.server.serving = false ∨ t.reader.fails = true := by
  cases hr : w.reader with
  | stopping call held =>
      -- in `stop()`: while the server still serves, its section has not been entered
      by_cases hserving : t.server.serving = true
      · right
        rw [hstep.reader_stays hi hserving hr]
        rfl
      · rw [Bool.not_eq_true] at hserving
        exact .inl hserving
  -- on its way there it lets go of the operation, and takes no other step
  | leaving op threw =>
      right
      rw [hr] at hfails
      cases hfails
      cases hstep with
      | leave_shared hr' hshared =>
          rw [hr] at hr'
          cases hr'
          rfl
      | leave_last hr' hlast =>
          rw [hr] at hr'
          cases hr'
          rfl
      | deliver _ hr' | receive _ hr' | enqueue hr' | reader_completes hr' | cancel hr'
      | reader_cleans hr' | reader_stopped hr' _ | reject_sent _ hr' _ | reject_failed _ hr' _
      | reject_threw _ hr' _ =>
          rw [hr] at hr'
          cases hr'
      | _ =>
          dsimp only
          rw [hr]
          rfl
  | completing op threw =>
      right
      rw [hr] at hfails
      cases hfails
      cases hstep with
      | reader_completes hr' =>
          rw [hr] at hr'
          cases hr'
          rfl
      | deliver _ hr' | receive _ hr' | enqueue hr' | leave_shared hr' _ | leave_last hr' _
      | cancel hr' | reader_cleans hr' | reader_stopped hr' _ | reject_sent _ hr' _
      | reject_failed _ hr' _ | reject_threw _ hr' _ =>
          rw [hr] at hr'
          cases hr'
      | _ =>
          dsimp only
          rw [hr]
          rfl
  | idle | receiving | enqueueing | rejected | cancelling | cleaning =>
      rw [hr] at hfails
      cases hfails

/-- Nor does the worker: once it is in a `stop()` of its own it stays there until the section
that ends the service has run. -/
theorem world.Step.worker_gives_up (hi : ids_inv w)
    (hm : SynapseMcp.call_matches w.run.worker w.call) (hstep : world.Step w a t)
    (hfails : w.call.fails = true) :
    t.server.serving = false ∨ t.call.fails = true := by
  by_cases hserving : t.server.serving = true
  · right
    have hentered := hi.stops (hstep.later.serving hserving)
    cases hc : w.call with
    | stopping call =>
        rw [hc] at hm
        obtain ⟨item, hitem⟩ := hm
        cases hstep with
        | call_stopped hc' hreturned => cases hentered _ (List.mem_of_getElem? hreturned)
        | apply _ hc' _ | skip _ hc' _ | application _ _ hc' | respond _ _ hc' _
        | respond_failed _ _ hc' _ | finish_call _ hc' | release_last _ hc' _
        | call_completes _ hc' =>
            rw [hc] at hc'
            cases hc'
        | invoke hworker =>
            rw [hitem] at hworker
            cases hworker
        | _ => exact hc ▸ rfl
    | outside | entered | applying | replying | finished | completing =>
        rw [hc] at hfails
        cases hfails
  · rw [Bool.not_eq_true] at hserving
    exact .inl hserving

/-! ### The way into the section

Each of these runs consists of steps of one thread. A reader that comes out of an exception has
first to let go of its operation, which may be a completion of its own; then it calls `stop()`,
whose first section it can enter at once, since no other call has to end for that. -/

/-- The section of a call of `stop()` that was made ends the service. -/
theorem stop_section_run {u : world} {call : Nat} (hcall : u.stops[call]? = some .entered) :
    ∃ v, (own_runs limit).Run u v ∧ v.server.serving = false := by
  refine ⟨_, .single ⟨.stop, .inr (.inr rfl), world.Step.stop_server hcall⟩, ?_⟩
  exact server.stop_serving _

/-- The reader gets to the section of its call of `stop()` by itself. -/
theorem reader_stop_run {u : world} (hi : ids_inv u) (hm : calls_made u)
    (hserving : u.server.serving = true) (hfails : u.reader.fails = true) :
    ∃ v, (own_runs limit).Run u v ∧ v.server.serving = false := by
  -- the catch around `receive` makes the call last in the list
  have hcaught : ∀ {v : world}, v.stops = u.stops ++ [.entered] → (own_runs limit).Run u v →
      ∃ v, (own_runs limit).Run u v ∧ v.server.serving = false := by
    intro v hstops hrun
    have hcall : v.stops[u.stops.length]? = some .entered := by
      rw [hstops]
      exact List.getElem?_concat_length
    obtain ⟨x, hx, hend⟩ := stop_section_run hcall
    exact ⟨x, hrun.trans hx, hend⟩
  cases hr : u.reader with
  | stopping call held =>
      have hlt := hm.reader call held hr
      refine stop_section_run ((List.getElem?_eq_getElem hlt).trans (congrArg some ?_))
      exact hi.stops hserving _ (List.getElem_mem hlt)
  | leaving op threw =>
      rw [hr] at hfails
      cases hfails
      by_cases hcaptures : 0 < u.captures op
      · exact hcaught rfl (.single ⟨.reader, .inl rfl, world.Step.leave_shared hr hcaptures⟩)
      · have hlast : u.captures op = 0 := by omega
        have hfirst : (own_runs limit).Run u { u with reader := .completing op true } :=
          .single ⟨.reader, .inl rfl, world.Step.leave_last hr hlast⟩
        have hsecond : world.Step { u with reader := .completing op true } .reader _ :=
          world.Step.reader_completes rfl
        exact hcaught rfl (hfirst.tail ⟨.reader, .inl rfl, hsecond⟩)
  | completing op threw =>
      rw [hr] at hfails
      cases hfails
      exact hcaught rfl (.single ⟨.reader, .inl rfl, world.Step.reader_completes hr⟩)
  | idle | receiving | enqueueing | rejected | cancelling | cleaning =>
      rw [hr] at hfails
      cases hfails

/-- The worker gets to the section of its call by itself: it is in the call already. -/
theorem worker_stop_run {u : world} (hi : ids_inv u) (hm : calls_made u)
    (hserving : u.server.serving = true) (hfails : u.call.fails = true) :
    ∃ v, (own_runs limit).Run u v ∧ v.server.serving = false := by
  cases hc : u.call with
  | stopping call =>
      have hlt := hm.worker call hc
      refine stop_section_run ((List.getElem?_eq_getElem hlt).trans (congrArg some ?_))
      exact hi.stops hserving _ (List.getElem_mem hlt)
  | outside | entered | applying | replying | finished | completing =>
      rw [hc] at hfails
      cases hfails

/-- A thread that is about to stop the server does stop it. -/
theorem leaves_serving_of_gives_up (h : (server_runs limit).Reachable t)
    (hgives : a.gives_up t = true) : leaves_serving limit a t := by
  have halways : ∀ u, (server_runs limit).Run t u →
      u.server.serving = false ∨ a.gives_up u = true := by
    intro u hrun
    refine System.Run.keeps (S := server_runs limit)
      (P := fun u => u.server.serving = false ∨ a.gives_up u = true) ?_ h (.inr hgives) hrun
    intro u b v hu hstate hstep
    rcases hstate with hstopped | hgives
    · left
      by_contra hserving
      rw [Bool.not_eq_false] at hserving
      rw [hstep.later.serving hserving] at hstopped
      cases hstopped
    · cases a with
      | receive | reject => exact hstep.reader_gives_up (server_ids hu) hgives
      | respond => exact hstep.worker_gives_up (server_ids hu) (server_custody hu).call hgives
      | deliver | reader | application | worker | call_stop | stop | owner => cases hgives
  -- wherever the others have got it to, its own steps end the service
  refine ⟨halways, fun u hrun => ?_⟩
  have hu := h.run hrun
  by_cases hserving : u.server.serving = true
  · rcases halways u hrun with hstopped | hgives'
    · rw [hserving] at hstopped
      cases hstopped
    · cases a with
      | receive | reject =>
          exact reader_stop_run (server_ids hu) (server_calls_made hu) hserving hgives'
      | respond => exact worker_stop_run (server_ids hu) (server_calls_made hu) hserving hgives'
      | deliver | reader | application | worker | call_stop | stop | owner => cases hgives
  · rw [Bool.not_eq_true] at hserving
    exact ⟨u, .refl, hserving⟩

/-! ### Who gives up

The three kinds of emissions are put together. After a failure the acting thread is giving up,
except where it was the worker's reply that threw: then the worker comes out of the invocation
as after any other. The equivalence is read off the one step, and what follows from giving up
was shown above. -/

/-- An answer that may be given is an `emit`. -/
theorem server.answer_of_may {s : server} {answers : emit_answers} {origin : frame_origin}
    {op : Nat} {reply : response} {method : String} (hmay : s.may_answer op = true) :
    (s.answer answers origin op reply method).2 = (emit answers reply method).2 := by
  rw [server.answer, if_pos hmay]

/-- A failure leaves the thread whose emission it was about to stop the server, unless it
is an exception of the worker's reply. -/
theorem emission_gives_up (hfails : emission_fails w a) (hstep : world.Step w a t) :
    a.gives_up t = true ↔ ¬ worker_throws w a := by
  cases hfails with
  | @receive wire reply method answers hreader hemits hne =>
      have hother : ¬ worker_throws w (.receive answers) := by
        rintro ⟨item, reply', answers', hlabel, -⟩
        cases hlabel
      refine ⟨fun _ => hother, fun _ => ?_⟩
      have hnext := (w.server.receive_emits answers wire).2 _ hemits hne
      cases hstep with
      | receive _ hr =>
          rw [hreader] at hr
          cases hr
          simp only [server_action.gives_up, hnext]
          rfl
  | @reject req op answers hreader hmay hne =>
      have hother : ¬ worker_throws w (.reject answers) := by
        rintro ⟨item, reply', answers', hlabel, -⟩
        cases hlabel
      refine ⟨fun _ => hother, fun _ => ?_⟩
      cases hstep with
      | reject_sent _ hr hsent =>
          rw [hreader] at hr
          cases hr
          rw [server.answer_of_may hmay] at hsent
          exact absurd hsent hne
      | reject_failed _ hr _ | reject_threw _ hr _ => rfl
  | @respond item reply answers hworker hcall hmay hne =>
      have hsame : ∀ {item' reply'}, w.run.worker = .calling item' → w.call = .replying reply' →
          item' = item ∧ reply' = reply := by
        intro item' reply' hw hc
        rw [hworker] at hw
        rw [hcall] at hc
        cases hw
        cases hc
        exact ⟨rfl, rfl⟩
      cases hstep with
      | respond _ hw hc hdone =>
          obtain ⟨rfl, rfl⟩ := hsame hw hc
          rw [server.answer_of_may hmay] at hdone
          -- it did not fail, so it threw, and the body of the invocation ends
          refine ⟨fun h => (by cases h), fun hno => absurd ?_ hno⟩
          refine ⟨_, _, answers, rfl, hw, hc, hmay, emit_throws.mp ?_⟩
          cases houtcome : (emit answers _ _).2 with
          | sent => exact absurd houtcome hne
          | failed => exact absurd houtcome hdone
          | threw => rfl
      | respond_failed _ hw hc hfailed =>
          obtain ⟨rfl, rfl⟩ := hsame hw hc
          rw [server.answer_of_may hmay] at hfailed
          refine ⟨fun _ => ?_, fun _ => rfl⟩
          rintro ⟨item', reply', answers', hlabel, hw', hc', -, hthrows⟩
          cases hlabel
          obtain ⟨rfl, rfl⟩ := hsame hw' hc'
          rw [← emit_throws, hfailed] at hthrows
          cases hthrows

/-- Emitting is for a serving server, and leaves it serving for the moment. -/
theorem emission_serving (hfails : emission_fails w a) (hstep : world.Step w a t) :
    t.server.serving = true := by
  have hmay : ∀ op, w.server.may_answer op = true → w.server.serving = true := by
    intro op hmay
    rw [server.may_answer, Bool.and_eq_true] at hmay
    exact hmay.2
  cases hfails with
  | receive answers hreader hemits hne =>
      cases hstep with
      | receive _ hr =>
          rw [hreader] at hr
          cases hr
          exact (w.server.receive_serving answers _).trans (server.emits_serving hemits)
  | reject answers hreader h hne =>
      cases hstep with
      | reject_sent | reject_failed | reject_threw => exact hmay _ h
  | respond answers hworker hcall h hne =>
      cases hstep with
      | respond | respond_failed => exact hmay _ h

/-- Both directions. An exception of the worker's reply leaves a server that serves and a thread
that is about to stop nothing. -/
theorem emission_leaves_serving (h : (server_runs limit).Reachable w) (hfails : emission_fails w a)
    (hstep : world.Step w a t) : leaves_serving limit a t ↔ ¬ worker_throws w a := by
  rw [← emission_gives_up hfails hstep]
  constructor
  · intro hleaves
    rcases hleaves.always t .refl with hstopped | hgives
    · rw [emission_serving hfails hstep] at hstopped
      cases hstopped
    · exact hgives
  · exact leaves_serving_of_gives_up (h.step hstep)

end Stops

/-! ## No reply is lost

Without such exceptions a serving server answers all it admits. The argument is custody again:
until its reply is sent, an operation is held by whoever is to send it (`carried`), and what is
held is in flight. So one that is retired has been discharged: answered with an accepted frame,
cancelled, or the server has stopped.

`accounted` says it of every operation that was made: it is discharged, or its answer is still
to come from one of the places in `carried`. A reply that is lost would be neither, since what
is carried is in flight. -/

section Lost

variable {limit : Nat} {w t : world} {a : server_action}

/-- A frame was accepted for the operation, or none may be given any more. -/
def discharged (w : world) (op : Nat) : Prop :=
  (∃ f ∈ w.frames, f.answers op = true ∧ f.accepted = true) ∨ w.server.cancelled op = true ∨
    w.server.serving = false

/-! ### Where an answer comes from

The cases of `carried` are the places a captured operation can be in before it is answered: with
the reader, in the queue, with the worker. Each step moves it to the next place, or discharges
it. The worker's second section is the one that can discharge it by an accepted frame; there an
exception of the encoder or of the sender would end the capture without one, which is why the
runs are without such exceptions. -/

/-- A capture of the operation is where an answer still comes from, or where a thread
keeps it while it stops the server. -/
inductive carried (w : world) (op : Nat) : Prop
  | reader (h : op ∈ w.reader.enqueues ++ w.reader.rejects)
  | reader_stops (call : Nat) (h : w.reader = .stopping call (some op))
  | pending (item : work closure) (h : item ∈ w.run.executor.pending_) (hop : item.call.op = op)
  | dequeued (item : work closure) (h : w.run.worker = .dequeued item) (hop : item.call.op = op)
  | calling (item : work closure) (h : w.run.worker = .calling item) (hop : item.call.op = op)
      (hcall : w.call ≠ .finished)

/-- What is discharged stays so, as frames are only added, flags are only set, and a server that
stopped does not serve again. -/
theorem discharged_later (hstep : world.Step w a t) {op : Nat} (h : discharged w op) :
    discharged t op := by
  rcases h with ⟨f, hf, hanswers⟩ | hcancelled | hstopped
  · obtain ⟨more, hlog⟩ := hstep.log_grows
    refine .inl ⟨f, ?_, hanswers⟩
    rw [world.frames, hlog, frames_of_append]
    exact List.mem_append_left _ hf
  · exact .inr (.inl (hstep.later.cancelled op hcancelled))
  · right
    right
    by_contra hserving
    rw [Bool.not_eq_false] at hserving
    rw [hstep.later.serving hserving] at hstopped
    cases hstopped

/-- An operation that may not be answered is discharged. -/
theorem discharged_of_may {u : world} {op : Nat} (h : u.server.may_answer op = false) :
    discharged u op := by
  rw [server.may_answer, Bool.and_eq_false_iff, Bool.not_eq_false'] at h
  exact .inr h

/-- What is carried holds a capture, so its operation is in flight. -/
theorem carried.in_flight (hc : custody w) {op : Nat} (h : carried w op) :
    op ∈ w.server.inflight_ := by
  refine (hc.balanced.mem_iff op).mpr ?_
  simp only [world.ledger]
  have hheld : op ∈ w.reader.held → 0 < w.reader.held.count op := List.count_pos_iff.mpr
  cases h with
  | reader h =>
      have := hheld (by cases hr : w.reader <;> simp_all [reader_at.enqueues, reader_at.rejects])
      omega
  | reader_stops call h =>
      have := hheld (by simp [h])
      omega
  | pending item h hop =>
      have := call_pending h
      rw [hop] at this
      omega
  | dequeued item h hop =>
      have := @call_active w hc item (by rw [h]; rfl)
      rw [hop] at this
      omega
  | calling item h hop _ =>
      have := @call_active w hc item (by rw [h]; rfl)
      rw [hop] at this
      omega

/-- A guarded emission whose frame is in the log, or which does not return true. -/
theorem discharged_of_sent {u : world} {answers : emit_answers} {origin : frame_origin} {op : Nat}
    {reply : response} {method : String} (hserver : u.server = w.server)
    (horigin : ∀ wire accepted, (frame.mk origin wire accepted).answers op = true)
    (hlog : u.log = w.log ++ (w.server.answer answers origin op reply method).1.map .passed)
    (hsent : (w.server.answer answers origin op reply method).2 = .sent) : discharged u op := by
  rcases server.answer_sent hsent with hmay | ⟨wire, hframe⟩
  · rw [← hserver] at hmay
    exact discharged_of_may hmay
  · refine .inl ⟨⟨origin, wire, true⟩, ?_, horigin wire true, rfl⟩
    rw [world.frames, hlog, hframe, frames_of_append, frames_of_passed]
    exact List.mem_append_right _ (List.mem_singleton_self _)

/-- The calls of `stop()` past their section are those of a server that stopped. -/
theorem discharged_of_stop {u : world} (hi : ids_inv w) (hserver : u.server = w.server)
    {call : Nat} {position : stop_at} (hcall : w.stops[call]? = some position)
    (hne : position ≠ .entered) (op : Nat) : discharged u op := by
  refine .inr (.inr ?_)
  rw [hserver]
  by_contra hserving
  rw [Bool.not_eq_false] at hserving
  exact hne (hi.stops hserving _ (List.mem_of_getElem? hcall))

/-- What the reader carries goes to the queue, is refused, or gets its reply. -/
theorem carried.reader_step (hreject : ¬ rejection_throws w a)
    (hstep : world.Step w a t) {op : Nat} (h : op ∈ w.reader.enqueues ++ w.reader.rejects) :
    discharged t op ∨ carried t op := by
  -- the positions with something to carry
  have hplace : (∃ req, w.reader = .enqueueing req op) ∨ ∃ req, w.reader = .rejected req op := by
    cases hr : w.reader with
    | enqueueing req op' =>
        rw [hr] at h
        cases List.mem_singleton.mp h
        exact .inl ⟨req, rfl⟩
    | rejected req op' =>
        rw [hr] at h
        cases List.mem_singleton.mp h
        exact .inr ⟨req, rfl⟩
    | _ =>
        rw [hr] at h
        cases h
  rcases hplace with ⟨req, hr⟩ | ⟨req, hr⟩
  · cases hstep with
    | enqueue hr' =>
        rw [hr] at hr'
        cases hr'
        right
        rcases w.run.enqueue_cases req.id (some ⟨req, op⟩) with
          ⟨err, -, heq⟩ | ⟨c, -, hc, -, -, -, -, heq⟩
        · refine .reader ?_
          rw [heq]
          exact List.mem_singleton_self op
        · cases hc
          refine .pending ⟨w.run.made, req.id, ⟨req, op⟩⟩ ?_ rfl
          rw [heq]
          exact List.mem_append_right _ (List.mem_singleton_self _)
    | deliver _ hr' | receive _ hr' | leave_shared hr' _ | leave_last hr' _ | reader_completes hr'
    | cancel hr' | reader_cleans hr' | reader_stopped hr' _ | reject_sent _ hr' _
    | reject_failed _ hr' _ | reject_threw _ hr' _ =>
        rw [hr] at hr'
        cases hr'
    | _ => exact .inr (.reader h)
  · cases hstep with
    | reject_sent answers hr' hsent =>
        rw [hr] at hr'
        cases hr'
        refine .inl (discharged_of_sent (w := w) rfl (fun wire accepted => ?_) rfl hsent)
        simp [frame.answers, frame_origin.rejected_op]
    | reject_failed answers hr' hfailed =>
        rw [hr] at hr'
        cases hr'
        exact .inr (.reader_stops _ rfl)
    | reject_threw answers hr' hthrew =>
        obtain ⟨hmay, hthrows⟩ := server.answer_threw.mp hthrew
        -- the exception drops `done` on its way to the catch; these runs are without it
        exact absurd ⟨_, _, answers, rfl, hr', hmay, hthrows⟩ hreject
    | deliver _ hr' | receive _ hr' | enqueue hr' | leave_shared hr' _ | leave_last hr' _
    | reader_completes hr' | cancel hr' | reader_cleans hr' | reader_stopped hr' _ =>
        rw [hr] at hr'
        cases hr'
    | _ => exact .inr (.reader h)

/-- What is queued stays there, reaches the worker, or is cancelled. -/
theorem carried.pending_step (hc : custody w) (hi : ids_inv w) (hrun : runtime_inv limit w.run)
    (hstep : world.Step w a t) {item : work closure} (h : item ∈ w.run.executor.pending_) :
    discharged t item.call.op ∨ carried t item.call.op := by
  cases hstep with
  | @enqueue req op hr =>
      right
      refine .pending item ?_ rfl
      -- an enqueue adds at the end, or is refused and changes nothing
      rcases w.run.enqueue_cases req.id (some ⟨req, op⟩) with
        ⟨err, -, heq⟩ | ⟨c, -, -, -, -, -, -, heq⟩
      · rwa [heq]
      · rw [heq]
        exact List.mem_append_left _ h
  | @cancel op hr =>
      have hknows := hi.reader
      rw [hr] at hknows
      rcases w.run.cancel_cases (w.server.id_of op) with
        ⟨v, -, -, heq⟩ | ⟨before, v, after, hitems, hsame, -, -, heq⟩ | ⟨-, -, heq⟩
      · exact .inr (.pending item (by rwa [heq]) rfl)
      · by_cases hv : item = v
        · -- the work the cancellation removes is that of the operation it marked
          obtain ⟨hmem, hid, -⟩ := work_in_flight hc hi hrun (.inr h)
          subst hv
          have hop : item.call.op = op := hknows.2 _ hmem (hid ▸ hsame)
          rw [hop]
          exact .inl (.inr (.inl hknows.1))
        · refine .inr (.pending item ?_ rfl)
          rw [heq]
          rw [hitems] at h
          simpa [hv] using h
      · exact .inr (.pending item (by rwa [heq]) rfl)
  | dequeue hw htake =>
      obtain ⟨-, rest, hpending, rfl⟩ := owned_executor.dequeue_some htake
      rw [hpending] at h
      rcases List.mem_cons.mp h with rfl | hrest
      · exact .inr (.dequeued item rfl rfl)
      · exact .inr (.pending item hrest rfl)
  -- closing the executor discards the queue; by then the server does not serve any more
  | stop_executor hcall => exact .inl (discharged_of_stop hi rfl hcall (by simp) _)
  | _ => exact .inr (.pending item h rfl)

/-- What is carried stays carried or is discharged, unless an answer ends in an
exception. -/
theorem carried.step (hc : custody w) (hi : ids_inv w) (hrun : runtime_inv limit w.run)
    (hworker : ¬ worker_throws w a) (hreject : ¬ rejection_throws w a) (hstep : world.Step w a t)
    {op : Nat} (h : carried w op) : discharged t op ∨ carried t op := by
  cases h with
  | reader h => exact carried.reader_step hreject hstep h
  | reader_stops call h =>
      by_cases hserving : t.server.serving = true
      · exact .inr (.reader_stops call (hstep.reader_stays hi hserving h))
      · rw [Bool.not_eq_true] at hserving
        exact .inl (.inr (.inr hserving))
  | pending item h hop =>
      rw [← hop]
      exact carried.pending_step hc hi hrun hstep h
  | dequeued item h hop =>
      cases hstep with
      | invoke hw =>
          rw [h] at hw
          cases hw
          exact .inr (.calling item rfl hop (by simp))
      | enqueue => exact .inr (.dequeued item ((runtime.enqueue_worker _ _ _).trans h) hop)
      | cancel | stop_executor => exact .inr (.dequeued item h hop)
      | dequeue hw _ | apply hw _ _ | skip hw _ _ | application _ hw _ | respond _ hw _ _
      | respond_failed _ hw _ _ | finish_call hw _ | reset_active hw | release_shared hw _ _
      | release_last hw _ _ | call_completes hw _ | leave_loop hw _ | finish hw =>
          rw [h] at hw
          cases hw
      | _ => exact .inr (.dequeued item h hop)
  | calling item h hop hcall =>
      cases hstep with
      | enqueue => exact .inr (.calling item ((runtime.enqueue_worker _ _ _).trans h) hop hcall)
      | cancel | stop_executor => exact .inr (.calling item h hop hcall)
      | apply hw hcall' hmay => exact .inr (.calling item h hop (by simp))
      | skip hw hcall' hmay =>
          rw [h] at hw
          cases hw
          rw [hop] at hmay
          exact .inl (discharged_of_may hmay)
      | application _ hw hcall' => exact .inr (.calling item h hop (by simp))
      | @respond item' reply answers hw hcall' hdone =>
          rw [h] at hw
          cases hw
          subst hop
          left
          refine discharged_of_sent (w := w) rfl (fun wire accepted => ?_) rfl ?_
          · simp [frame.answers, frame_origin.worker_op]
          · cases houtcome : (w.server.answer answers (.worker item.call.op) item.call.op reply
              item.call.req.method).2 with
            | sent => rfl
            | failed => exact absurd houtcome hdone
            | threw =>
                obtain ⟨hmay, hthrows⟩ := server.answer_threw.mp houtcome
                exact absurd ⟨item, reply, answers, rfl, h, hcall', hmay, hthrows⟩ hworker
      | respond_failed _ hw hcall' _ => exact .inr (.calling item h hop (by simp))
      | call_stopped hcall' hreturned =>
          exact .inl (discharged_of_stop hi rfl hreturned (by simp) _)
      -- the body had ended, and with it the debt
      | finish_call _ hcall' => exact absurd hcall' hcall
      | dequeue hw _ | invoke hw | reset_active hw | release_shared hw _ _
      | release_last hw _ _ | call_completes hw _ | leave_loop hw _ | finish hw =>
          rw [h] at hw
          cases hw
      | _ => exact .inr (.calling item h hop hcall)

/-- Every admitted operation is discharged or carried. -/
def accounted (w : world) : Prop :=
  ∀ op < w.server.operations.length, discharged w op ∨ carried w op

/-- Every step keeps the account; an operation that is new is carried by the reader that made
it. -/
theorem accounted.step (hc : custody w) (hi : ids_inv w) (hrun : runtime_inv limit w.run)
    (hworker : ¬ worker_throws w a) (hreject : ¬ rejection_throws w a) (h : accounted w)
    (hstep : world.Step w a t) : accounted t := by
  have hold : ∀ op < w.server.operations.length, discharged t op ∨ carried t op := by
    intro op hop
    rcases h op hop with hdone | hcarried
    · exact .inl (discharged_later hstep hdone)
    · exact hcarried.step hc hi hrun hworker hreject hstep
  intro op hop
  by_cases hlt : op < w.server.operations.length
  · exact hold op hlt
  by_cases hreceive : ∃ answers, a = .receive answers
  · obtain ⟨answers, rfl⟩ := hreceive
    -- the operation is the one this section admitted
    cases hstep with
    | @receive wire _ hreader =>
        rcases received_lists (w.server.receive_received answers wire) with
          ⟨-, -, -, hlength⟩ | ⟨req, -, hserver, hnext⟩
        · rw [hlength] at hop
          exact absurd hop hlt
        · right
          refine .reader ?_
          simp only [hserver, server.push, List.length_append, List.length_singleton] at hop
          have : op = w.server.operations.length := by omega
          subst this
          simp only [hnext, receive_next.reader]
          exact List.mem_singleton_self _
  · rw [hstep.length fun answers heq => hreceive ⟨answers, heq⟩] at hop
    exact absurd hop hlt

/-- It holds in every run whose answers do not end in exceptions. -/
theorem server_accounted (h : (delivering_runs limit).Reachable w) : accounted w := by
  refine h.invariant (P := accounted) ?_ ?_
  · rintro w ⟨-, info, resources, prompts, tools, rfl⟩ op hop
    simp [server.started] at hop
  · rintro w a t hw hacc ⟨⟨hworker, hreject⟩, hstep⟩
    have hr := System.restrict_reachable hw
    exact hacc.step (server_custody hr) (server_ids hr) (server_runtime hr) hworker hreject hstep

/-- A failed emission stops the server, in any run and on every path, exactly when it is
not an exception of the worker's reply; and in every run in which no answer to an
admitted operation ends in an exception, a server that serves has lost no reply. -/
theorem lost_replies_stop (limit : Nat) :
    (∀ w a t, (server_runs limit).Reachable w → emission_fails w a →
        (server_runs limit).step w a t → (leaves_serving limit a t ↔ ¬ worker_throws w a)) ∧
      ∀ w, (delivering_runs limit).Reachable w → w.server.serving = true →
        ∀ op, ¬ lost_reply w op := by
  refine ⟨fun w a t h hfails hstep => emission_leaves_serving h hfails hstep, ?_⟩
  intro w h hserving op hlost
  rcases server_accounted h op hlost.made with hdone | hcarried
  · rcases hdone with ⟨f, hf, hanswers, haccepted⟩ | hcancelled | hstopped
    · rw [hlost.unanswered f hf hanswers] at haccepted
      cases haccepted
    · rw [hlost.live] at hcancelled
      cases hcancelled
    · rw [hserving] at hstopped
      cases hstopped
  · exact hlost.retired (hcarried.in_flight (server_custody (System.restrict_reachable h)))

/-- The example sessions are such runs. -/
theorem session.calm_delivers (w : world) (a : server_action) (h : session.calm_action a) :
    ¬ worker_throws w a ∧ ¬ rejection_throws w a := by
  constructor
  · rintro ⟨item, reply, answers, rfl, -⟩
    exact h
  · rintro ⟨req, op, answers, rfl, -⟩
    exact h

end Lost

namespace session

/-! ## A transport that refuses, and one that throws

Two runs. In the first the transport takes no frame, and the thread that could not send stops
the server. In the second the sender throws under the worker's reply: the executor contains the
exception, nobody calls `stop()`, and the request is retired without an answer. -/

/-- The transport refuses every frame. -/
def refusing : emit_answers := ⟨false, fun _ => true, .refused⟩

/-- The transport's `send` throws. -/
def throwing : emit_answers := ⟨false, fun _ => true, .threw⟩

/-- The handshake cannot be answered, and the reader stops the server; a server whose
worker runs the one request admitted has lost nothing. -/
theorem lost_replies_stop_refusing :
    leaves_serving 1 (.receive refusing)
        { opened with
          server := { fresh with protocol_ := .await_initialized }
          reader := .stopping 0 none
          stops := [.entered]
          log := [.received hello .await_initialize_,
            .passed ⟨.received hello, welcome.to_json, false⟩] } ∧
      ∀ op, ¬ lost_reply applying op := by
  have hopened : (server_runs 1).Reachable opened := .of_init ⟨by decide, {}, [], [], [], rfl⟩
  have h : (server_runs 1).Reachable { opened with reader := .receiving hello } :=
    hopened.step (world.Step.deliver hello rfl)
  have hfails : emission_fails { opened with reader := .receiving hello } (.receive refusing) :=
    @emission_fails.receive _ hello welcome "initialize" refusing rfl rfl (by decide)
  refine ⟨((lost_replies_stop 1).1 _ _ _ h hfails
      (@world.Step.receive _ hello refusing rfl)).mpr ?_,
    (lost_replies_stop 1).2 _ (reaches_applying calm_delivers) rfl⟩
  rintro ⟨item, reply, answers, hlabel, -⟩
  cases hlabel

/-- `application()` has thrown, and the worker is about to answer. -/
def answering : world :=
  { applying with call := .replying (failure (.uint64 1) .internal_error "Internal error") }

/-- The send threw, and the exception ended the invocation. -/
def swallowed : world :=
  { answering with
    call := .finished
    log := answering.log ++ [.passed ⟨.worker 0,
      (failure (.uint64 1) .internal_error "Internal error").to_json, false⟩] }

/-- The worker went on, and the operation is retired. -/
def retired : world :=
  { swallowed with
    server := swallowed.server.complete 0
    run := ((swallowed.run.finish_call list_work).reset_active list_work).release
    call := .outside }

/-- An exception of the worker's reply is contained by the executor. The server serves
on, with no call of `stop()` made, and the request is retired without an answer. -/
theorem swallowed_reply_keeps_serving :
    ∃ w a t u, (server_runs 1).Reachable w ∧ emission_fails w a ∧ (server_runs 1).step w a t ∧
      ¬ leaves_serving 1 a t ∧ (server_runs 1).Run t u ∧ u.server.serving = true ∧
      u.stops = [] ∧ lost_reply u 0 := by
  have happlying : (server_runs 1).Reachable applying :=
    System.restrict_reachable (reaches_applying (C := fun _ _ => True) fun _ _ _ => trivial)
  have hanswering : (server_runs 1).Reachable answering :=
    happlying.step (@world.Step.application _ list_work none rfl rfl)
  have hfails : emission_fails answering (.respond throwing) :=
    @emission_fails.respond _ list_work _ throwing rfl rfl rfl (by decide)
  have hrespond : (server_runs 1).step answering (.respond throwing) swallowed :=
    @world.Step.respond answering list_work _ throwing rfl rfl (by decide)
  -- the sender throws in the worker, where the executor catches it
  have hthrows : worker_throws answering (.respond throwing) :=
    ⟨list_work, _, throwing, rfl, rfl, rfl, rfl, rfl⟩
  -- the worker ends the work as after a reply, and the operation is completed
  have hrun : (server_runs 1).Run swallowed retired := by
    have h1 : (server_runs 1).Run swallowed _ :=
      .single ⟨.worker, @world.Step.finish_call swallowed list_work rfl rfl⟩
    have h2 := h1.tail ⟨.worker, @world.Step.reset_active _ list_work rfl⟩
    have h3 := h2.tail ⟨.worker, @world.Step.release_last _ list_work rfl rfl rfl⟩
    exact h3.tail ⟨.worker, @world.Step.call_completes _ list_work 0 rfl rfl⟩
  refine ⟨answering, .respond throwing, swallowed, retired, hanswering, hfails, hrespond, ?_, hrun,
    rfl, rfl, ?_⟩
  · intro hleaves
    exact (emission_leaves_serving hanswering hfails hrespond).mp hleaves hthrows
  · refine ⟨by decide, by decide, by decide, fun f hf hanswers => ?_⟩
    have hframes : retired.frames = [⟨.received hello, welcome.to_json, true⟩,
        ⟨.worker 0, (failure (.uint64 1) .internal_error "Internal error").to_json, false⟩] := rfl
    rw [hframes] at hf
    rcases List.mem_cons.mp hf with rfl | hf
    · cases hanswers
    · rw [List.mem_singleton.mp hf]

end session

end SynapseMcp
