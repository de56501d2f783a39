/-
The end of a session, and the frames that follow it.

`protocol_` becomes `closing` in two places: in the section of `stop()`, which sets the
lifecycle in the same breath, and in the branch of `receive()` that finds a duplicate ID,
which calls `stop()` only after it has released the mutex. Until that `stop()` has run,
the lifecycle still says that the server serves, and the worker decides by the
lifecycle: a handler that ends in this window still has its frame passed on, after the
diagnostic. That is the only way a frame follows (`closing_is_final`), and it always
does when it is taken (`late_answer_follows`).
-/
import SynapseMcp.ServerIds

set_option autoImplicit false

namespace SynapseMcp

open Transition

/-- What the end of a session is for: no frame is passed once it is reached. -/
def closing_ends_frames (limit : Nat) : Prop :=
  ∀ w t, (server_runs limit).Reachable w → w.server.protocol_ = .closing →
    (server_runs limit).Run w t → t.frames = w.frames

/-- It does not hold: the handler of the ambiguous ID ends after the diagnostic, before
`stop()`, and its result follows. -/
theorem late_result_follows_diagnostic : ¬ closing_ends_frames 1 := by
  intro hends
  have hclosing : (server_runs 1).Reachable session.closing :=
    System.restrict_reachable (session.reaches_closing (C := fun _ _ => True) fun _ _ _ => trivial)
  let late : world :=
    { session.closing with
      call := .replying (failure (.uint64 1) .internal_error "Internal error") }
  have hreply : (server_runs 1).step session.closing (.application none) late :=
    @world.Step.application _ session.list_work none rfl rfl
  have hanswer := @world.Step.respond late session.list_work _ session.calm rfl rfl (by decide)
  have hrun := ((Relation.ReflTransGen.single ⟨_, hreply⟩).tail ⟨_, hanswer⟩ :
    (server_runs 1).Run session.closing _)
  have hsame := congrArg List.length (hends _ _ hclosing rfl hrun)
  exact absurd hsame (by decide)

/-- Whether `emit` finds a frame it can pass on. -/
def emit_answers.passes (a : emit_answers) (reply : response) (method : String) : Bool :=
  !a.encode_throws &&
    (a.frame_fits reply.to_json || a.frame_fits (replacement reply method).to_json)

/-- A second section that comes too late: the session is closing, the lifecycle does not
know yet, the operation was not cancelled, and there is a frame to pass on. -/
def late_answer (w : world) (a : server_action) : Prop :=
  ∃ item reply answers, a = .respond answers ∧ w.run.worker = .calling item ∧
    w.call = .replying reply ∧ w.server.protocol_ = .closing ∧ w.server.serving = true ∧
    w.server.cancelled item.call.op = false ∧ answers.passes reply item.call.req.method = true

/-- Runs without late answers. -/
def punctual_runs (limit : Nat) : System world server_action :=
  (server_runs limit).restrict fun w a => ¬ late_answer w a

/-! ## The window

Between the diagnostic of a duplicate and the first section of the reader's `stop()` the session
is closing while the server still serves. In this window the reader does nothing else, so no
text is received and no queue-full reply given. What remains is the worker's second section. -/

section Window

variable {limit : Nat} {w t : world} {a : server_action}

/-- `emit` passes a frame exactly when it finds one that fits, the reply or its stand-in. -/
theorem emit_passes (a : emit_answers) (reply : response) (method : String) :
    (emit a reply method).1.isSome = a.passes reply method := by
  unfold emit emit_answers.passes
  cases a.encode_throws with
  | true => rfl
  | false =>
      cases hfits : a.frame_fits reply.to_json with
      | true => simp
      | false =>
          cases hreplaced : a.frame_fits (replacement reply method).to_json with
          | true => simp [hreplaced]
          | false => simp [hreplaced]

/-- A server that serves while its session is closing owes that to the reader, which is
in the `stop()` it called for the duplicate. -/
def closing_window (w : world) : Prop :=
  w.server.protocol_ = .closing → w.server.serving = true → ∃ call, w.reader = .stopping call none

/-- Of the sections of `receive` only the one for a duplicate closes the session, and `stop()`
is next. -/
theorem received_closing {answers : emit_answers} {wire : json} {r : section_result}
    {s : server} (hr : server.received s answers wire r)
    (hclosing : r.server.protocol_ = .closing) :
    s.protocol_ = .closing ∨ r.next = .stop := by
  cases hr with
  | ignored | replied | cancelled => exact .inl hclosing
  | duplicate => exact .inr rfl
  | admitted => exact .inl hclosing
  | negotiated => cases hclosing
  | ready => cases hclosing

/-- Every step keeps the window as it is: the reader stays in its `stop()` as long as the server
serves, and the section of a `stop()` closes the window. -/
theorem closing_window.step (hi : ids_inv w) (h : closing_window w) (hstep : world.Step w a t) :
    closing_window t := by
  intro hclosing hserving
  have hbefore := hstep.later.serving hserving
  have hwindow : w.server.protocol_ = .closing → ∃ call, t.reader = .stopping call none := by
    intro hw
    obtain ⟨call, hreader⟩ := h hw hbefore
    exact ⟨call, hstep.reader_stays hi hserving hreader⟩
  rcases hstep.server_cases with
    hs | ⟨answers, wire, ⟨-, hreader⟩, hs⟩ | ⟨op, hs⟩ | hs | ⟨-, hs⟩ | ⟨-, hs⟩
  · exact hwindow (hs ▸ hclosing)
  · rw [hs] at hclosing
    rcases received_closing (w.server.receive_received answers wire) hclosing with hw | hnext
    · exact hwindow hw
    · rw [hnext] at hreader
      exact ⟨_, hreader⟩
  · rw [hs] at hclosing
    exact hwindow hclosing
  · rw [hs] at hserving
    simp at hserving
  · rw [hs] at hclosing
    exact hwindow hclosing
  · rw [hs] at hclosing
    exact hwindow hclosing

/-- It holds in every state of a server. -/
theorem server_closing_window (h : (server_runs limit).Reachable w) : closing_window w := by
  refine h.invariant (P := closing_window) ?_ ?_
  · rintro w ⟨-, info, resources, prompts, tools, rfl⟩ hclosing
    cases hclosing
  · intro w a t hw hwin hstep
    exact hwin.step (server_ids hw) hstep

/-! ## Frames in the window

The three places that pass frames, one by one: `receive` and the queue-full reply need the
reader, and it is in `stop()`; the worker passes one if its operation was not cancelled and a
frame fits, which is what a late answer is. -/

/-- The session does not leave `closing`. -/
theorem world.Step.stays_closing (hstep : world.Step w a t) (h : w.server.protocol_ = .closing) :
    t.server.protocol_ = .closing := by
  have hrank := hstep.later.rank
  rw [h] at hrank
  revert hrank
  cases t.server.protocol_ <;> decide

/-- Once the session is closing, a frame can only be a late answer. -/
theorem closing_step (hwin : closing_window w) (hstep : world.Step w a t)
    (hclosing : w.server.protocol_ = .closing) (hpunctual : ¬ late_answer w a) :
    t.frames = w.frames := by
  have hnone : ∀ more, t.log = w.log ++ more → frames_of more = [] → t.frames = w.frames := by
    intro more hlog hframes
    rw [world.frames, world.frames, hlog, frames_of_append, hframes, List.append_nil]
  rcases hstep.log_cases with
    hlog | ⟨answers, wire, -, hreader, -, hlog⟩ | ⟨req, op, -, -, hlog⟩ |
      ⟨req, op, answers, hreader, -, hlog⟩ | ⟨op, -, -, hlog⟩ | ⟨item, -, -, -, -, hlog⟩ |
      ⟨item, reply, answers, hlabel, hworker, hcall, -, hlog⟩
  · rw [world.frames, hlog, world.frames]
  · refine hnone _ hlog (List.eq_nil_iff_forall_not_mem.mpr ?_)
    intro f hf
    rcases mem_events (mem_frames.mp hf) with hev | ⟨f', hf', -⟩ | ⟨req, op, -, hev⟩
    · cases hev
    · -- the reader cannot receive in the window: it is in `stop()`
      have hserving := (received_frames (w.server.receive_received answers wire) hf').2.2
      obtain ⟨call, hstopping⟩ := hwin hclosing hserving
      rw [hreader] at hstopping
      cases hstopping
    · cases hev
  · exact hnone _ hlog rfl
  · refine hnone _ hlog ?_
    rw [frames_of_passed]
    rcases w.server.answer_cases answers (.rejection op) op (queue_full_reply req.id) "" with
      hempty | ⟨hmay, -⟩
    · exact hempty
    · rw [server.may_answer, Bool.and_eq_true] at hmay
      obtain ⟨call, hstopping⟩ := hwin hclosing hmay.2
      rw [hreader] at hstopping
      cases hstopping
  · exact hnone _ hlog rfl
  · exact hnone _ hlog rfl
  · refine hnone _ hlog ?_
    rw [frames_of_passed]
    unfold server.answer
    split
    · rename_i hmay
      rw [server.may_answer, Bool.and_eq_true, Bool.not_eq_true'] at hmay
      -- what the worker would pass on is a late answer
      have hno : answers.passes reply item.call.req.method = false := by
        by_contra hpasses
        rw [Bool.not_eq_false] at hpasses
        exact hpunctual
          ⟨item, reply, answers, hlabel, hworker, hcall, hclosing, hmay.2, hmay.1, hpasses⟩
      rw [← emit_passes, Option.isSome_eq_false_iff, Option.isNone_iff_eq_none] at hno
      simp [emitted, hno]
    · rfl

/-- A late answer adds a frame, behind the diagnostic that ended the session: the worker's
second section asks only for the lifecycle and the flag. -/
theorem late_answer_follows (hlate : late_answer w a) (hstep : world.Step w a t) :
    ∃ f, t.frames = w.frames ++ [f] := by
  obtain ⟨item, reply, answers, rfl, hworker, hcall, -, hserving, hlive, hpasses⟩ := hlate
  have hframe : ∃ f, (w.server.answer answers (.worker item.call.op) item.call.op reply
      item.call.req.method).1 = [f] := by
    rw [← emit_passes, Option.isSome_iff_exists] at hpasses
    obtain ⟨wire, hwire⟩ := hpasses
    refine ⟨⟨.worker item.call.op, wire, answers.send = .accepted⟩, ?_⟩
    simp [server.answer, server.may_answer, hlive, hserving, emitted, hwire]
  obtain ⟨f, hf⟩ := hframe
  refine ⟨f, ?_⟩
  cases hstep with
  | respond _ hworker' hcall' | respond_failed _ hworker' hcall' =>
      rw [hworker] at hworker'
      cases hworker'
      rw [hcall] at hcall'
      cases hcall'
      rw [world.frames, world.frames, frames_of_append, frames_of_passed, hf]

/-! ## The end of a session

Both directions: without a late answer no frame follows the end of a session, and a late answer
is one that does. -/

/-- In every run without late answers, `closing` is final: no frame follows. And every
late answer is a frame that does. -/
theorem closing_is_final (h : (punctual_runs limit).Reachable w)
    (hclosing : w.server.protocol_ = .closing) :
    (∀ t, (punctual_runs limit).Run w t →
        t.server.protocol_ = .closing ∧ t.frames = w.frames) ∧
      ∀ a t, late_answer w a → (server_runs limit).step w a t → t.frames ≠ w.frames := by
  constructor
  · intro t hrun
    refine System.Run.keeps (S := punctual_runs limit)
      (P := fun u => u.server.protocol_ = .closing ∧ u.frames = w.frames) ?_ h ⟨hclosing, rfl⟩ hrun
    rintro u a v hu ⟨huclosing, huframes⟩ ⟨hpunctual, hstep⟩
    have hr := System.restrict_reachable hu
    refine ⟨hstep.stays_closing huclosing, ?_⟩
    rw [closing_step (server_closing_window hr) hstep huclosing hpunctual, huframes]
  · intro a t hlate hstep hsame
    obtain ⟨f, hf⟩ := late_answer_follows hlate hstep
    rw [hf] at hsame
    simp at hsame

/-- The example sessions have no second section of the worker. -/
theorem session.calm_punctual (w : world) (a : server_action) (h : session.calm_action a) :
    ¬ late_answer w a := by
  rintro ⟨item, reply, answers, rfl, -⟩
  exact h

/-- The end of the session that received a duplicate. -/
theorem closing_is_final_duplicate :
    session.closing.server.protocol_ = .closing ∧
      ∀ t, (punctual_runs 1).Run session.closing t → t.frames = session.closing.frames :=
  ⟨rfl, fun t hrun =>
    ((closing_is_final (session.reaches_closing session.calm_punctual) rfl).1 t hrun).2⟩

end Window

end SynapseMcp
