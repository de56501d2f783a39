/-
Every request is answered, under its ID.

`ServerDelivery` follows the requests that are admitted. Most of what a client sends at the
start of a session never is: `initialize`, `ping`, a request that comes too early, a text
that is no message. Those the reader answers itself, in the section that receives them, and
when it cannot it stops the server. So whatever is received leaves an accepted frame under
its ID, an operation under its ID, or a server that is about to stop (`answering`); and when
a serving server is at rest, each of them has its frame (`server_replies`).
-/
import SynapseMcp.ServerEcho
import SynapseMcp.ServerFailures
import SynapseMcp.ServerProgress

set_option autoImplicit false

namespace SynapseMcp

open Transition

/-- A text that asks for an answer: a request, or one that is no message at all. -/
def expects (wire : json) : Prop :=
  (∃ req, decode_message wire = .ok (.request req)) ∨
    (∃ diagnostic, decode_message wire = .error diagnostic) ∧ server.is_notification wire = false

/-- The server does not serve, or one of its threads is about to stop it. -/
def failing (w : world) : Prop :=
  w.server.serving = false ∨ w.reader.fails = true ∨ w.call.fails = true

/-! ## One text

A serving server does one of three things with a text that asks for an answer. It replies at
once, it admits a request, or it is about to stop: because the frame was refused, or because the
ID is in flight already. `receive` returns without a word only when the session is closing, and
then the reader is not in `receive` at all. -/

section Receive

variable {s : server} {a : emit_answers} {wire : json}

/-- A reply of the reader is accepted, or `stop()` is next. -/
theorem reply_accepted (reply : response) (method : String) :
    (∃ f ∈ (s.reply a wire reply method).frames, f.accepted = true ∧ f.id = reply.id) ∨
      (s.reply a wire reply method).next = .stop := by
  by_cases hsent : (emit a reply method).2 = .sent
  · obtain ⟨text, hpassed, haccepted⟩ := emit_sent hsent
    left
    have hmem : frame.mk (.received wire) text true ∈ emitted a (.received wire) reply method := by
      unfold emitted
      rw [hpassed, haccepted]
      exact List.mem_singleton_self _
    exact ⟨_, hmem, rfl, emitted_id hmem⟩
  · exact .inr (if_neg hsent)

/-- What a serving server makes of a text that asks for an answer. -/
theorem receive_replies (hserving : s.serving = true) (hexpects : expects wire) :
    (∃ f ∈ (s.receive a wire).frames, f.accepted = true ∧ f.id = failure_id wire) ∨
      (s.receive a wire).next = .stop ∨
      (∃ req, decode_message wire = .ok (.request req) ∧
        (s.receive a wire).server = s.push req.id) ∨
      s.protocol_ = .closing := by
  rcases hexpects with ⟨req, hdecode⟩ | ⟨⟨diagnostic, hdecode⟩, hnotification⟩
  · have hid := failure_id_of_request hdecode
    -- where the reader replies, the frame is accepted or the server stops
    have hreply : ∀ (s' : server) (reply : response) (method : String), reply.id = req.id →
        (∃ f ∈ (s'.reply a wire reply method).frames,
          f.accepted = true ∧ f.id = failure_id wire) ∨
        (s'.reply a wire reply method).next = .stop := by
      intro s' reply method hreply
      rw [hid, ← hreply]
      exact reply_accepted reply method
    have hreceive : s.receive a wire = s.dispatch a wire req := by
      rw [server.receive, hdecode]
    rw [hreceive]
    unfold server.dispatch
    -- the branches of `dispatch`, in its order; only the last one hands the request on
    split
    · rename_i hclosed
      rw [hserving] at hclosed
      exact .inr (.inr (.inr (by simpa using hclosed)))
    split
    · exact .inr (.inl rfl)
    split
    · exact (hreply _ _ _ rfl).imp_right .inl
    split
    · have hsession : (s.initialize_session req).2.id = req.id := by
        unfold server.initialize_session
        split
        · rfl
        split <;> rfl
      exact (hreply _ _ _ hsession).imp_right .inl
    split
    · exact (hreply _ _ _ rfl).imp_right .inl
    · exact .inr (.inr (.inl ⟨req, hdecode, rfl⟩))
  -- what does not decode is answered with a diagnostic under the ID it gives
  · have hid : diagnostic.id = failure_id wire := by
      rw [decode_failure_of_error hdecode]
      rfl
    have hreceive : s.receive a wire = s.reply a wire diagnostic "" := by
      rw [server.receive, hdecode]
      simp [hnotification, hserving]
    rw [hreceive, ← hid]
    exact (reply_accepted diagnostic "").imp_right .inl

/-- A frame that the reader passed on is accepted, or `stop()` is next. -/
theorem receive_accepted :
    (∀ f ∈ (s.receive a wire).frames, f.accepted = true) ∨ (s.receive a wire).next = .stop := by
  obtain ⟨hframes, hstops⟩ := s.receive_emits a wire
  cases hemits : s.emits wire with
  | none =>
      left
      rw [hframes, hemits]
      nofun
  | some e =>
      by_cases hsent : (emit a e.1 e.2).2 = .sent
      · left
        obtain ⟨text, -, haccepted⟩ := emit_sent hsent
        rw [hframes, hemits]
        intro f hf
        change f ∈ emitted a (.received wire) e.1 e.2 at hf
        rw [emitted, Option.mem_toList, Option.map_eq_some_iff] at hf
        obtain ⟨text', -, rfl⟩ := hf
        exact decide_eq_true haccepted
      · exact .inr (hstops e hemits hsent)

end Receive

/-! ## A run

`answering` keeps two things for all that was received so far, each up to `failing`. A refused
frame makes its sender stop the server, so all frames were accepted unless somebody is about to.
And a text that asks for an answer has a frame or an operation under its ID. Once the server
fails it stays so, and then nothing more is claimed. -/

/-- What has become of the texts received: a frame that was accepted, an operation, or a server
that is about to stop. -/
structure answering (w : world) : Prop where
  /-- Whose frame is refused, stops the server. -/
  accepted : (∀ f ∈ w.frames, f.accepted = true) ∨ failing w
  replied : ∀ wire ∈ received_wires w.log, expects wire →
    (∃ f ∈ w.frames, f.accepted = true ∧ f.id = failure_id wire) ∨
      (∃ op < w.server.operations.length, w.server.id_of op = failure_id wire) ∨ failing w

section Step

variable {w t : world} {a : server_action}

/-- A server that does not serve or is about to be stopped stays so: the thread goes from the
failure into `stop()` and is there until the first section has run. -/
theorem world.Step.keeps_failing (hc : custody w) (hi : ids_inv w) (hstep : world.Step w a t)
    (h : failing w) : failing t := by
  rcases h with hstopped | hreader | hcall
  · left
    cases hserving : t.server.serving with
    | false => rfl
    | true => exact (hstep.later.serving hserving).symm.trans hstopped
  · exact (hstep.reader_gives_up hi hreader).imp_right .inl
  · exact (hstep.worker_gives_up hi hc.call hcall).imp_right .inr

/-- A step that receives nothing, with the frames it adds. -/
theorem answering.elsewhere (h : answering w) (hfailing : failing w → failing t)
    (hlater : server_later w.server t.server) {more : List server_event}
    (hlog : t.log = w.log ++ more) (hnone : received_wires more = [])
    (hmore : (∀ f ∈ frames_of more, f.accepted = true) ∨ failing t) : answering t where
  accepted := by
    rcases h.accepted with hall | hbefore
    · refine hmore.imp_left fun hnew f hf => ?_
      rw [world.frames, hlog, frames_of_append] at hf
      rcases List.mem_append.mp hf with hf | hf
      · exact hall f hf
      · exact hnew f hf
    · exact .inr (hfailing hbefore)
  replied := by
    intro wire hwire hexpects
    rw [hlog, received_wires_append, hnone, List.append_nil] at hwire
    rcases h.replied wire hwire hexpects with ⟨f, hf, hframe⟩ | ⟨op, hop, hid⟩ | hbefore
    · refine .inl ⟨f, ?_, hframe⟩
      rw [world.frames, hlog, frames_of_append]
      exact List.mem_append_left _ hf
    · exact .inr (.inl ⟨op, Nat.lt_of_lt_of_le hop hlater.length, (hlater.ids op hop).trans hid⟩)
    · exact .inr (.inr (hfailing hbefore))

/-- What is received is answered, admitted, or the end of the session. -/
theorem answering.receives (h : answering w) (hfailing : failing w → failing t)
    (hlater : server_later w.server t.server) (hwindow : closing_window w)
    {answers : emit_answers} {wire : json} (hreader : w.reader = .receiving wire)
    (hserver : t.server = (w.server.receive answers wire).server)
    (hnext : t.reader = (w.server.receive answers wire).next.reader w.stops.length)
    (hlog : t.log = w.log ++ (w.server.receive answers wire).events w.server wire) :
    answering t := by
  have hframes : t.frames = w.frames ++ (w.server.receive answers wire).frames := by
    rw [world.frames, hlog, frames_of_append, frames_of_events]
    rfl
  have hwires : received_wires t.log = received_wires w.log ++ [wire] := by
    rw [hlog, received_wires_append, received_wires_events]
  have hstops : (w.server.receive answers wire).next = .stop → failing t := by
    intro hstop
    rw [hstop] at hnext
    exact .inr (.inl (by rw [hnext]; rfl))
  constructor
  · rcases h.accepted with hall | hbefore
    · refine receive_accepted.imp (fun hnew f hf => ?_) hstops
      rw [hframes] at hf
      rcases List.mem_append.mp hf with hf | hf
      · exact hall f hf
      · exact hnew f hf
    · exact .inr (hfailing hbefore)
  · intro wire' hwire' hexpects
    rw [hwires] at hwire'
    rcases List.mem_append.mp hwire' with hold | hnew
    · rcases h.replied wire' hold hexpects with ⟨f, hf, hframe⟩ | ⟨op, hop, hid⟩ | hbefore
      · refine .inl ⟨f, ?_, hframe⟩
        rw [hframes]
        exact List.mem_append_left _ hf
      · exact .inr (.inl
          ⟨op, Nat.lt_of_lt_of_le hop hlater.length, (hlater.ids op hop).trans hid⟩)
      · exact .inr (.inr (hfailing hbefore))
    · rw [List.mem_singleton] at hnew
      subst hnew
      -- the text that has just come in
      cases hserving : w.server.serving with
      | false => exact .inr (.inr (hfailing (.inl hserving)))
      | true =>
          rcases receive_replies (a := answers) hserving hexpects with
            ⟨f, hf, hframe⟩ | hstop | ⟨req, hdecode, hpush⟩ | hclosing
          · refine .inl ⟨f, ?_, hframe⟩
            rw [hframes]
            exact List.mem_append_right _ hf
          · exact .inr (.inr (hstops hstop))
          · refine .inr (.inl ⟨w.server.operations.length, ?_, ?_⟩)
            · rw [hserver, hpush]
              simp [server.push]
            · rw [hserver, hpush, server.id_of_push_new, failure_id_of_request hdecode]
          · -- the reader would be in the `stop()` it called
            obtain ⟨call, hstopping⟩ := hwindow hclosing hserving
            rw [hreader] at hstopping
            cases hstopping

/-- A guarded emission that returned true passed an accepted frame, or none. -/
theorem answer_accepted {s : server} {answers : emit_answers} {origin : frame_origin} {op : Nat}
    {reply : response} {method : String}
    (hsent : (s.answer answers origin op reply method).2 = .sent) :
    ∀ f ∈ frames_of ((s.answer answers origin op reply method).1.map .passed),
      f.accepted = true := by
  rw [frames_of_passed]
  rcases server.answer_sent hsent with hmay | ⟨text, hframes⟩
  · unfold server.answer
    rw [hmay]
    nofun
  · rw [hframes]
    rintro f (hf | hf)
    · rfl
    · contradiction

/-- Every step keeps it. The steps that pass frames are `receive`, the queue-full reply and the
worker's second section; each ends in `.sent`, and then its frame was accepted, or in a call of
`stop()`. -/
theorem answering.step (hc : custody w) (hi : ids_inv w) (hwindow : closing_window w)
    (h : answering w) (hthrow : no_throws w a) (hstep : world.Step w a t) : answering t := by
  have hfailing := hstep.keeps_failing hc hi
  have hlater := hstep.later
  cases hstep with
  | receive answers hreader => exact h.receives hfailing hlater hwindow hreader rfl rfl rfl
  | enqueue | cancel | apply => exact h.elsewhere hfailing hlater rfl rfl (.inl nofun)
  | reject_sent answers hreader hsent =>
      exact h.elsewhere hfailing hlater rfl (received_wires_passed _)
        (.inl (answer_accepted hsent))
  | reject_failed | reject_threw =>
      exact h.elsewhere hfailing hlater rfl (received_wires_passed _) (.inr (.inr (.inl rfl)))
  | @respond item reply answers hworker hcall hdone =>
      -- it did not fail, and without exceptions that leaves `.sent`
      have hsent : (w.server.answer answers (.worker item.call.op) item.call.op reply
          item.call.req.method).2 = .sent := by
        have hthrew : (w.server.answer answers (.worker item.call.op) item.call.op reply
            item.call.req.method).2 ≠ .threw := (server.answer_silent hthrow).1
        cases hended : (w.server.answer answers (.worker item.call.op) item.call.op reply
            item.call.req.method).2 with
        | sent => rfl
        | failed => exact absurd hended hdone
        | threw => exact absurd hended hthrew
      exact h.elsewhere hfailing hlater rfl (received_wires_passed _)
        (.inl (answer_accepted hsent))
  | respond_failed =>
      exact h.elsewhere hfailing hlater rfl (received_wires_passed _) (.inr (.inr (.inr rfl)))
  | _ => exact h.elsewhere hfailing hlater (List.append_nil _).symm rfl (.inl nofun)

end Step

/-! ## At rest

Of a text that was admitted the run invariant says only that its operation exists. That the
operation has a frame is known when nobody is at work, from the account of `ServerDelivery`. So
the work under way has to end, and it does, because every step of it lowers `world.steps_left`;
the one thing to show is that where a session has no step, nobody waits for `application()`,
which has an outcome whatever is registered. -/

section Rest

variable {limit : Nat} {configured : Bool} {w : world}

/-- It holds in every state of a session. -/
theorem session_answering (h : (session_runs limit configured).Reachable w) : answering w := by
  refine h.invariant (P := answering) ?_ ?_
  · rintro w ⟨hlimit, info, resources, prompts, tools, rfl⟩
    exact ⟨.inl nofun, nofun⟩
  · intro w a t hw hanswering hstep
    have hr := System.restrict_reachable hw
    exact hanswering.step (server_custody hr) (server_ids hr) (server_closing_window hr)
      hstep.1.1 hstep.2

/-- Each text that asked for an answer has an accepted frame under its ID, unless the
operation of that ID was cancelled; and no frame was refused. -/
structure replied_at_rest (w : world) : Prop where
  rest : w.at_rest
  replied : w.server.serving = true → ∀ wire ∈ received_wires w.log, expects wire →
    (∃ f ∈ w.frames, f.accepted = true ∧ f.id = failure_id wire) ∨
      ∃ op < w.server.operations.length, w.server.id_of op = failure_id wire ∧
        w.server.cancelled op = true
  accepted : w.server.serving = true → ∀ f ∈ w.frames, f.accepted = true

/-- A session at rest has replied. While it serves nobody is failing, so the frames were all
accepted, and an admitted request that was not cancelled has its one frame. -/
theorem replied_of_rest (h : (session_runs limit configured).Reachable w) (hrest : w.at_rest) :
    replied_at_rest w := by
  have hanswering := session_answering h
  have hechoing := session_echoing (session_applies h)
  have hanswered := answered_of_rest (session_quiet h) hrest
  -- at rest nobody is on the way to a `stop()`
  have hsound : w.server.serving = true → ¬failing w := by
    rintro hserving (hstopped | hreader | hcall)
    · cases hserving.symm.trans hstopped
    · rw [hrest.reader] at hreader
      cases hreader
    · rw [hrest.call] at hcall
      cases hcall
  have haccepted : w.server.serving = true → ∀ f ∈ w.frames, f.accepted = true :=
    fun hserving => hanswering.accepted.resolve_right (hsound hserving)
  refine ⟨hrest, fun hserving wire hwire hexpects => ?_, haccepted⟩
  rcases hanswering.replied wire hwire hexpects with hframe | ⟨op, hop, hid⟩ | hfailing
  · exact .inl hframe
  · rcases hanswered.once op hop with hone | ⟨-, hcancelled | hstopped⟩
    · -- the one frame of the operation
      obtain ⟨f, hf⟩ := List.exists_mem_of_length_pos (Nat.lt_of_lt_of_eq Nat.zero_lt_one hone.symm)
      rw [world.answers_to, List.mem_filter] at hf
      have hop' := echoes_op (hechoing.frames f hf.1) hf.2
      exact .inl ⟨f, hf.1, haccepted hserving f hf.1, hop'.2.trans hid⟩
    · exact .inr ⟨op, hop, hid, hcancelled⟩
    · cases hserving.symm.trans hstopped
  · exact absurd hfailing (hsound hserving)

/-- An application that throws wherever it can. -/
def throwing_answers (configured : Bool) : application_answers where
  allow_tool := none
  now := .threw
  evaluate _ _ := .threw
  tool _ _ := .threw
  prompt _ _ := .threw
  resource _ := .threw
  filter_output := if configured then some fun _ _ _ => .threw else none

/-- `application()` has some outcome; where the session has no step, nobody has one. -/
theorem calm_of_stuck (h : (session_runs limit configured).Stuck own_step w) : w.calm_stuck := by
  intro a t hown hthrow hstep
  cases a with
  | application outcome =>
      cases hstep with
      | @application item _ hworker hcall =>
          -- an application whose callbacks all throw has an outcome too
          have hends : ∃ outcome, applies configured w (.application outcome) := by
            have hthrows : configured_answers configured (throwing_answers configured) := by
              cases configured <;> rfl
            have hitem : ∀ item', w.run.worker = .calling item' → item' = item := by
              intro item' hworker'
              exact worker_at.calling.inj (hworker'.symm.trans hworker)
            cases hrun : (application w.server (throwing_answers configured) item.call.req
                ⟨.make 1 1, []⟩).2 with
            | returned reply =>
                refine ⟨some reply, fun item' hworker' => ⟨_, .make 1 1, hthrows, ?_⟩⟩
                rw [hitem item' hworker', hrun]
            | threw =>
                refine ⟨none, fun item' hworker' => ⟨_, .make 1 1, hthrows, ?_⟩⟩
                rw [hitem item' hworker', hrun]
          obtain ⟨outcome, happlies⟩ := hends
          exact h (.application outcome) _ trivial
            ⟨⟨trivial, happlies⟩, .application _ hworker hcall⟩
  | _ => exact h _ t hown ⟨⟨hthrow, trivial⟩, hstep⟩

/-- The steps of a session under way are bounded by what is left. -/
theorem session_budget : (session_runs limit configured).Budget own_step world.steps_left :=
  fun _ _ _ _ hown hstep => hstep.2.spends hown

/-- From every state of a session the work under way ends within the steps that are left; and
if the server serves then, everything it has been sent that asks for an answer, `initialize`
and `ping` and malformed texts included, has an accepted frame under its ID. -/
theorem server_replies (h : (session_runs limit configured).Reachable w) :
    (session_runs limit configured).Completes own_step w.steps_left replied_at_rest w :=
  session_budget.completes h fun _ ht hstuck =>
    replied_of_rest ht (stuck_at_rest (System.restrict_reachable ht) (calm_of_stuck hstuck))

end Rest

/-- A session that has been greeted. -/
theorem server_replies_greeted :
    (session_runs 1 false).Completes own_step session.greeted.steps_left replied_at_rest
      session.greeted :=
  server_replies session.reaches_greeted

end SynapseMcp
