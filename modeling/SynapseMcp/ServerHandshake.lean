/-
The handshake comes before the work.

`initialize` moves the session to `await_initialized` before its reply is encoded and
sent. When the reply is not accepted, or is replaced by an error because it does not
fit the frame limit, the reader goes from this section straight into `stop()`; it does
not receive again before the session is closing. So whenever a message finds the
session at `await_initialized`, the result has been accepted, and whenever one finds it
`ready`, `notifications/initialized` has come after that. The log keeps the order.
-/
import SynapseMcp.ServerIds

set_option autoImplicit false

namespace SynapseMcp

open Transition

/-! ## What the log shows

The order of a session is read off the log. What is said of a log here is that it has certain
events in a certain order, so it stays true when more is added.

Each notion is built on the one before. `greeted` asks for an accepted result, `shaken` for a
note that was received when the log had shown one, and `admitted_after_handshake` for an
admission after that. An admission stands right behind the message it came of, so the message is
named along with it. -/

/-- The frame is the result of an `initialize`, not an error. -/
def frame.initialize_result (f : frame) : Bool :=
  match f.origin with
  | .received wire =>
      match decode_message wire with
      | .ok (.request req) => req.method = "initialize" && f.wire.contains "result"
      | _ => false
  | _ => false

/-- `notifications/initialized` with absent parameters or an object. -/
def initialized_note (wire : json) : Prop :=
  ∃ note, decode_message wire = .ok (.notification note) ∧
    note.method = "notifications/initialized" ∧ note.params.all json.is_object = true

/-- A result of `initialize` was accepted by the transport. -/
def greeted (log : List server_event) : Prop :=
  ∃ f, .passed f ∈ log ∧ f.initialize_result = true ∧ f.accepted = true

/-- `notifications/initialized` was received after that, at `await_initialized`. -/
def shaken (log : List server_event) : Prop :=
  ∃ before wire after, log = before ++ .received wire .await_initialized :: after ∧
    greeted before ∧ initialized_note wire

/-- The operation was admitted for a request received after the handshake. -/
def admitted_after_handshake (op : Nat) (log : List server_event) : Prop :=
  ∃ before wire after, log = before ++ .received wire .ready :: .admitted op :: after ∧
    shaken before ∧ server.is_notification wire = false

/-- It was accepted, whatever comes after. -/
theorem greeted.append {log : List server_event} (h : greeted log) (more : List server_event) :
    greeted (log ++ more) := by
  obtain ⟨f, hmem, hresult, haccepted⟩ := h
  exact ⟨f, List.mem_append_left _ hmem, hresult, haccepted⟩

/-- The note was received after that, whatever comes after. -/
theorem shaken.append {log : List server_event} (h : shaken log) (more : List server_event) :
    shaken (log ++ more) := by
  obtain ⟨before, wire, after, hlog, hgreeted, hnote⟩ := h
  exact ⟨before, wire, after ++ more, by rw [hlog, List.append_assoc, List.cons_append],
    hgreeted, hnote⟩

/-- The operation was admitted after the handshake, whatever comes after. -/
theorem admitted_after_handshake.append {op : Nat} {log : List server_event}
    (h : admitted_after_handshake op log) (more : List server_event) :
    admitted_after_handshake op (log ++ more) := by
  obtain ⟨before, wire, after, hlog, hshaken, hwire⟩ := h
  exact ⟨before, wire, after ++ more,
    by rw [hlog, List.append_assoc, List.cons_append, List.cons_append], hshaken, hwire⟩

/-! ## The frames of a section

Whether a frame is the result of an `initialize` is decided by the text it answers and by its
own content: it has a result. The stand-in for a result that does not fit the frame limit is an
error, so a reply that was cut down is no result. That leaves the section which negotiates as
the only one to pass such a frame. -/

/-- The stand-in for a reply that does not fit is an error, tool results aside. -/
theorem replacement_err {reply : response} {method : String}
    (h : reply.result = none ∨ method ≠ "tools/call") :
    (replacement reply method).err.isNone = false := by
  unfold replacement
  split
  · rename_i hboth
    rw [Bool.and_eq_true, decide_eq_true_eq] at hboth
    rcases h with hnone | hmethod
    · rw [hnone] at hboth
      cases hboth.2
    · exact absurd hboth.1 hmethod
  · rfl

/-- An error reply is passed on as an error, whether it fits or not. -/
theorem emit_error {a : emit_answers} {reply : response} {method : String} {wire : json}
    (hresult : reply.result = none) (herr : reply.err ≠ none)
    (h : (emit a reply method).1 = some wire) : wire.contains "result" = false := by
  have hnone : reply.err.isNone = false := by
    cases hcase : reply.err with
    | none => exact absurd hcase herr
    | some err => rfl
  rcases emit_cases a reply method with ⟨-, heq⟩ | heq | heq | heq
  · rw [heq] at h
    cases h
  · rw [heq] at h
    cases h
  · rw [heq] at h
    cases h
    rw [response.to_json_result, hnone]
  · rw [heq] at h
    cases h
    rw [response.to_json_result, replacement_err (.inl hresult)]

/-- A result that was sent as it is was accepted. -/
theorem emit_initialize_sent {a : emit_answers} {reply : response} (hresult : reply.result.isSome)
    (h : (emit a reply "initialize").2 = .sent) :
    (emit a reply "initialize").1 = some reply.to_json ∧ a.send = .accepted := by
  have haccepted : a.send.ended = .sent → a.send = .accepted := by
    cases a.send <;> simp [send_outcome.ended]
  rcases emit_cases a reply "initialize" with ⟨-, heq⟩ | heq | heq | heq
  · rw [heq] at h
    cases h
  · rw [heq] at h
    cases h
  · rw [heq] at h ⊢
    exact ⟨rfl, haccepted h⟩
  · rw [heq] at h
    dsimp only at h
    split at h
    · cases h
    · rename_i hno
      rw [haccepted h, hresult] at hno
      exact absurd rfl hno

/-- The reply to a valid `initialize`: `stop()` follows, or the result was accepted. -/
theorem negotiated_reply {s : server} {a : emit_answers} {wire : json} {req : request}
    {reply : response} (hdecode : decode_message wire = .ok (.request req))
    (hmethod : req.method = "initialize") (hresult : reply.result.isSome)
    (herr : reply.err = none) :
    (s.reply a wire reply "initialize").next = .stop ∨
      ∃ f, (s.reply a wire reply "initialize").frames = [f] ∧ f.initialize_result = true ∧
        f.accepted = true := by
  by_cases hsent : (emit a reply "initialize").2 = .sent
  · right
    obtain ⟨hwire, haccepted⟩ := emit_initialize_sent hresult hsent
    refine ⟨⟨.received wire, reply.to_json, true⟩, ?_, ?_, rfl⟩
    · simp [server.reply, emitted, hwire, haccepted]
    · simp [frame.initialize_result, hdecode, hmethod, response.to_json_result, herr]
  · left
    exact if_neg hsent

/-- How a section of `receive` moves the session, and what it shows in the frames. -/
theorem received_session {s : server} {a : emit_answers} {wire : json} {r : section_result}
    (h : server.received s a wire r) :
    (r.server.protocol_ = s.protocol_ ∧ ∀ f ∈ r.frames, f.initialize_result = false) ∨
      (s.protocol_ = .await_initialize_ ∧ r.server.protocol_ = .await_initialized ∧
        r.frames.length ≤ 1 ∧
        ((r.next = .stop) ∨ ∃ f, r.frames = [f] ∧ f.initialize_result = true ∧ f.accepted = true)) ∨
      (s.protocol_ = .await_initialized ∧ r.server.protocol_ = .ready ∧ r.frames = [] ∧
        s.serving = true ∧ initialized_note wire) ∨
      (r.server.protocol_ = .closing ∧ ∀ f ∈ r.frames, f.initialize_result = false) := by
  -- an error the reader passes on is no result of `initialize`
  have herror : ∀ (reply : response) (method : String), (∀ req,
      decode_message wire = .ok (.request req) → req.method = "initialize" →
        reply.result = none ∧ reply.err ≠ none) →
      ∀ f ∈ emitted a (.received wire) reply method, f.initialize_result = false := by
    intro reply method hreply f hf
    rw [emitted, Option.mem_toList, Option.map_eq_some_iff] at hf
    obtain ⟨w, hw, rfl⟩ := hf
    unfold frame.initialize_result
    dsimp only
    split
    · rename_i req hdecode
      by_cases hmethod : req.method = "initialize"
      · obtain ⟨hresult, herr⟩ := hreply req hdecode hmethod
        rw [emit_error hresult herr hw, Bool.and_false]
      · simp [hmethod]
    · rfl
  cases h with
  -- by what the section did
  | ignored | cancelled | admitted => exact .inl ⟨rfl, fun f hf => by cases hf⟩
  | replied reply method hserving hanswer hinit => exact .inl ⟨rfl, herror reply method hinit⟩
  | negotiated req hdecode hserving hprotocol hmethod hparams =>
      refine .inr (.inl ⟨hprotocol, rfl, ?_, ?_⟩)
      · unfold server.reply emitted
        cases (emit a _ "initialize").1 <;> simp
      · exact negotiated_reply hdecode hmethod rfl rfl
  | ready note hdecode hserving hprotocol hmethod hparams =>
      exact .inr (.inr (.inl ⟨hprotocol, rfl, rfl, hserving, note, hdecode, hmethod, hparams⟩))
  | duplicate req op hdecode hserving hprotocol hmem hsame outcome houtcome =>
      have hframes := herror (failure .null .invalid_request
        "Duplicate in-flight request ID") "" fun _ _ _ => ⟨rfl, by simp [failure]⟩
      dsimp only
      split
      · exact .inl ⟨rfl, hframes⟩
      · exact .inr (.inr (.inr ⟨rfl, hframes⟩))

/-! ## The invariant

For each state of the session `handshake` says what the log must show of it. A session at
`await_initialize` has sent no result; at `await_initialized` it has one accepted, or the reader
is on its way to a `stop()`; when `ready` it has had the note after the result. What was
admitted and applied came later still. The states are only reached in this order, and the log
only grows, so each step needs to show what is new.

The part about an accepted result has one exception: the reader is inside the `stop()` it calls
after a result that was not accepted. While the server serves, that call has not run its first
section, so the reader cannot be out of it and receiving. The last part ties the session to the
table: before `ready` no operation was made, so no ID is in flight and no `initialize` is taken
for a duplicate. -/

/-- What the log shows, state by state of the session. -/
structure handshake (w : world) : Prop where
  /-- No result of `initialize` is sent before the session moves on, and one at most. -/
  unanswered : w.server.protocol_ = .await_initialize_ →
    w.frames.filter (·.initialize_result) = []
  at_most_one : (w.frames.filter (·.initialize_result)).length ≤ 1
  /-- Past `initialize`, the result was accepted, unless the reader is stopping. -/
  greeted : w.server.protocol_ = .await_initialized → w.server.serving = true →
    greeted w.log ∨ ∃ call, w.reader = .stopping call none
  shaken : w.server.protocol_ = .ready → shaken w.log
  admitted : ∀ op < w.server.operations.length, admitted_after_handshake op w.log
  applied : ∀ n op, w.log[n]? = some (.applied op) → admitted_after_handshake op (w.log.take n)
  frames : ∀ f ∈ w.frames,
    (∀ wire, f.origin = .received wire → server.is_notification wire = false) ∧
      ∀ op, f.origin = .worker op ∨ f.origin = .rejection op → op < w.server.operations.length
  early : w.server.protocol_.rank < 2 → w.server.operations.length = 0

section Step

variable {w t : world} {a : server_action}

/-! ### The other steps

Only a section of `receive` moves the session forward. All other steps keep it where it is or
close it, and what they pass on is for operations made before; for them the log has become
longer, and nothing else has happened.

The invariant orders the events of the log: results of `initialize` before operations, and
operations before their frames. A step outside of `receive` can only add events at the end, of
operations that the log has already. So each part is shown for the old log and for the new
events, and the two are put together by `applied_append` and its like. -/

/-- Outside of `receive` the session stays where it is or closes, so the handshake goes on in
sections of the reader only. -/
theorem world.Step.protocol_kept (hstep : world.Step w a t)
    (hno : ∀ answers, a ≠ .receive answers) :
    t.server.protocol_ = w.server.protocol_ ∨ t.server.protocol_ = .closing := by
  have hclean : ∀ (rest : cleanup) (keeps : Nat → Bool),
      (rest.next w.server keeps).1.protocol_ = w.server.protocol_ := by
    intro rest keeps
    rcases cleanup_next_cases rest w.server keeps with
      ⟨hs, -⟩ | ⟨op, -, hs, -⟩ | ⟨op, -, hs, -⟩ | ⟨op, hs, -⟩
    all_goals rw [hs]
    rfl
  cases hstep with
  | receive a hreader => exact absurd rfl (hno a)
  | reader_cleans hreader => exact .inl (hclean _ _)
  | stop_cleans hcall => exact .inl (hclean _ _)
  | stop_server hcall =>
      dsimp only
      unfold server.stop
      split
      · exact .inl rfl
      · exact .inr rfl
  | _ => exact .inl rfl

/-- Outside of `receive`, frames and calls of `application()` are for operations made. -/
theorem world.Step.log_kept (hi : ids_inv w) (hstep : world.Step w a t)
    (hno : ∀ answers, a ≠ .receive answers) :
    ∃ more, t.log = w.log ++ more ∧
      (∀ f ∈ frames_of more, ∃ op < w.server.operations.length,
        f.origin = .worker op ∨ f.origin = .rejection op) ∧
      ((∀ op, .applied op ∉ more) ∨ ∃ op < w.server.operations.length, more = [.applied op]) := by
  -- the worker only holds works of operations that were made
  have hmade : ∀ item, w.run.worker = .calling item →
      item.call.op < w.server.operations.length := by
    intro item hworker
    refine (hi.works item (List.mem_append_right _ ?_)).1
    simp [hworker]
  have hpassed : ∀ {frames : List frame}, ∀ op, .applied op ∉ frames.map server_event.passed := by
    intro frames op hmem
    obtain ⟨f, -, hf⟩ := List.mem_map.mp hmem
    cases hf
  rcases hstep.log_cases with
    hlog | ⟨answers, wire, hlabel, -, -, -⟩ | ⟨req, op, -, -, hlog⟩ |
      ⟨req, op, answers, hreader, -, hlog⟩ | ⟨op, -, -, hlog⟩ | ⟨item, hworker, -, -, -, hlog⟩ |
      ⟨item, reply, answers, -, hworker, -, -, hlog⟩
  · exact ⟨[], by rw [hlog, List.append_nil], by simp [frames_of], .inl (by simp)⟩
  · exact absurd hlabel (hno answers)
  · exact ⟨_, hlog, by simp [frames_of], .inl (by simp)⟩
  · refine ⟨_, hlog, ?_, .inl hpassed⟩
    intro f hf
    rw [frames_of_passed] at hf
    have hknows := hi.reader
    rw [hreader] at hknows
    exact ⟨op, hknows.1, .inr (server.answer_origin hf).1⟩
  · exact ⟨_, hlog, by simp [frames_of], .inl (by simp)⟩
  · exact ⟨_, hlog, by simp [frames_of], .inr ⟨_, hmade item hworker, rfl⟩⟩
  · refine ⟨_, hlog, ?_, .inl hpassed⟩
    intro f hf
    rw [frames_of_passed] at hf
    exact ⟨_, hmade item hworker, .inl (server.answer_origin hf).1⟩

/-- Calls of `application()` keep their place in the log, so what holds of the events before
such a call is asked for the old log and for what a step adds to it. -/
theorem applied_append {log more : List server_event} {P : Nat → List server_event → Prop}
    (hold : ∀ n op, log[n]? = some (.applied op) → P op (log.take n))
    (hnew : ∀ n op, more[n]? = some (.applied op) → P op (log ++ more.take n)) :
    ∀ n op, (log ++ more)[n]? = some (.applied op) → P op ((log ++ more).take n) := by
  intro n op hn
  by_cases hlt : n < log.length
  · rw [List.getElem?_append_left hlt] at hn
    rw [List.take_append_of_le_length (by omega)]
    exact hold n op hn
  · rw [List.getElem?_append_right (by omega)] at hn
    have htake : (log ++ more).take n = log ++ more.take (n - log.length) := by
      rw [List.take_append, List.take_of_length_le (by omega)]
    rw [htake]
    exact hnew _ op hn

/-- Outside of `receive` no frame is a result of `initialize`, no operation is made, and the
session stays or closes. So the parts of the invariant are those of the log before. -/
theorem handshake.step_other (hi : ids_inv w) (h : handshake w) (hstep : world.Step w a t)
    (hno : ∀ answers, a ≠ .receive answers) : handshake t := by
  obtain ⟨more, hlog, hframes, happlied⟩ := hstep.log_kept hi hno
  have hlength := hstep.length hno
  have hprotocol : ∀ p, t.server.protocol_ = p → p ≠ .closing → w.server.protocol_ = p := by
    intro p hp hne
    rcases hstep.protocol_kept hno with hsame | hclosing
    · rw [← hsame]
      exact hp
    · rw [hp] at hclosing
      exact absurd hclosing hne
  -- frames of the worker and refusals answer no text directly
  have hresults : t.frames.filter (·.initialize_result) =
      w.frames.filter (·.initialize_result) := by
    have hnil : (frames_of more).filter (·.initialize_result) = [] := by
      refine List.filter_eq_nil_iff.mpr ?_
      intro f hf
      obtain ⟨op, -, horigin⟩ := hframes f hf
      rcases horigin with horigin | horigin <;> simp [frame.initialize_result, horigin]
    rw [world.frames, world.frames, hlog, frames_of_append, List.filter_append, hnil,
      List.append_nil]
  refine ⟨?_, ?_, ?_, ?_, ?_, ?_, ?_, ?_⟩
  · intro hp
    rw [hresults]
    exact h.unanswered (hprotocol _ hp (by decide))
  · rw [hresults]
    exact h.at_most_one
  · intro hp hserving
    rw [hlog]
    rcases h.greeted (hprotocol _ hp (by decide)) (hstep.later.serving hserving) with
      hgreeted | ⟨call, hreader⟩
    · exact .inl (hgreeted.append more)
    · exact .inr ⟨call, hstep.reader_stays hi hserving hreader⟩
  · intro hp
    rw [hlog]
    exact (h.shaken (hprotocol _ hp (by decide))).append more
  · intro op hop
    rw [hlog]
    exact (h.admitted op (hlength ▸ hop)).append more
  · rw [hlog]
    refine applied_append h.applied ?_
    intro n op hn
    rcases happlied with hnever | ⟨op', hop', hmore⟩
    · exact absurd (List.mem_of_getElem? hn) (hnever op)
    · rw [hmore] at hn ⊢
      cases n with
      | zero =>
          simp only [List.getElem?_cons_zero, Option.some.injEq, server_event.applied.injEq] at hn
          rw [← hn]
          exact (h.admitted op' hop').append _
      | succ n => simp at hn
  · intro f hf
    rw [world.frames, hlog, frames_of_append, List.mem_append] at hf
    rw [hlength]
    rcases hf with hf | hf
    · exact h.frames f hf
    · obtain ⟨op, hop, horigin⟩ := hframes f hf
      refine ⟨?_, ?_⟩
      · intro wire hwire
        rw [hwire] at horigin
        rcases horigin with horigin | horigin <;> cases horigin
      · intro op' horigin'
        rcases horigin with horigin | horigin <;> rcases horigin' with horigin' | horigin' <;>
          rw [horigin] at horigin' <;> cases horigin' <;> exact hop
  · intro hrank
    rw [hlength]
    refine h.early (Nat.lt_of_le_of_lt ?_ hrank)
    exact hstep.later.rank

/-- The frames `receive` logs are those of its section. -/
theorem frames_of_events (r : section_result) (s : server) (wire : json) :
    frames_of (r.events s wire) = r.frames := by
  have hrest : frames_of r.next.admitted = [] := by
    cases r.next <;> rfl
  rw [section_result.events, List.cons_append, ← List.singleton_append, frames_of_append,
    frames_of_append, frames_of_passed, hrest, List.append_nil]
  rfl

/-- An operation is made by the section of a `ready` session, and of no other. -/
theorem received_admits {s : server} {answers : emit_answers} {wire : json} {r : section_result}
    (h : server.received s answers wire r) :
    r.server.operations.length = s.operations.length ∨
      (s.protocol_ = .ready ∧ r.server.operations.length = s.operations.length + 1 ∧
        server.is_notification wire = false ∧
        r.events s wire = [.received wire .ready, .admitted s.operations.length]) := by
  cases h with
  | ignored | replied | negotiated | ready => exact .inl rfl
  | cancelled op id hserving hmem hsame => exact .inl (by simp [server.mark_cancelled])
  | duplicate req op hdecode hserving hprotocol hmem hsame outcome houtcome =>
      left
      dsimp only
      split <;> rfl
  | admitted req hdecode hserving hready hid hfresh =>
      refine .inr ⟨hready, by simp [server.push], server.request_not_notification hdecode, ?_⟩
      simp [section_result.events, hready, receive_next.admitted]

/-- A section of `receive`: the parts of the invariant one after the other, each by what the
section did to the session. -/
theorem handshake.step_receive (h : handshake w) {answers : emit_answers} {wire : json}
    (hreader : w.reader = .receiving wire) {r : section_result}
    (hr : server.received w.server answers wire r) :
    handshake { w with
      server := r.server
      reader := r.next.reader w.stops.length
      stops := r.next.stops w.stops
      log := w.log ++ r.events w.server wire } := by
  have hlater := received_later hr
  have hidle : ∀ call, w.reader ≠ .stopping call none := by
    intro call
    rw [hreader]
    simp
  have happlied : ∀ op, .applied op ∉ r.events w.server wire := by
    intro op hmem
    rcases mem_events hmem with hev | ⟨f, -, hev⟩ | ⟨req, op', -, hev⟩ <;> cases hev
  have hresults : ∀ {more : List frame}, more.filter (·.initialize_result) = [] →
      (w.frames ++ more).filter (·.initialize_result) = w.frames.filter (·.initialize_result) := by
    intro more hnil
    rw [List.filter_append, hnil, List.append_nil]
  have hnone : ∀ {more : List frame}, (∀ f ∈ more, f.initialize_result = false) →
      more.filter (·.initialize_result) = [] :=
    fun hf => List.filter_eq_nil_iff.mpr fun f hfm => by simp [hf f hfm]
  have hframes : frames_of (w.log ++ r.events w.server wire) = w.frames ++ r.frames := by
    rw [frames_of_append, frames_of_events]
    rfl
  have hsession := received_session hr
  refine ⟨?_, ?_, ?_, ?_, ?_, ?_, ?_, ?_⟩
  · -- only the section that negotiates answers an `initialize`
    intro hp
    rw [world.frames, hframes]
    rcases hsession with ⟨hsame, hf⟩ | ⟨-, hafter, -⟩ | ⟨-, hafter, -⟩ | ⟨hafter, -⟩
    · rw [hresults (hnone hf)]
      exact h.unanswered (hsame ▸ hp)
    all_goals
      rw [hafter] at hp
      cases hp
  · -- and it does so while no frame has answered one yet
    rw [world.frames, hframes]
    rcases hsession with ⟨-, hf⟩ | ⟨hbefore, -, hone, -⟩ | ⟨-, -, hnil, -⟩ | ⟨-, hf⟩
    · rw [hresults (hnone hf)]
      exact h.at_most_one
    · rw [List.filter_append, h.unanswered hbefore, List.nil_append]
      exact Nat.le_trans (List.length_filter_le _ _) hone
    · rw [hnil, List.append_nil]
      exact h.at_most_one
    · rw [hresults (hnone hf)]
      exact h.at_most_one
  · intro hp hserving
    rcases hsession with ⟨hsame, -⟩ | ⟨-, -, -, hnext⟩ | ⟨-, hafter, -⟩ | ⟨hafter, -⟩
    · rcases h.greeted (hsame ▸ hp) (hlater.serving hserving) with hgreeted | ⟨call, hstopping⟩
      · exact .inl (hgreeted.append _)
      · exact absurd hstopping (hidle call)
    · -- the result was not taken by the transport, and the reader stops, or it is on the log
      rcases hnext with hstop | ⟨f, hf, hresult, haccepted⟩
      · exact .inr ⟨w.stops.length, by simp [hstop, receive_next.reader]⟩
      · refine .inl ⟨f, ?_, hresult, haccepted⟩
        refine List.mem_append_right _ (mem_frames.mp ?_)
        rw [frames_of_events, hf]
        exact List.mem_singleton_self f
    all_goals
      rw [hafter] at hp
      cases hp
  · intro hp
    rcases hsession with ⟨hsame, -⟩ | ⟨-, hafter, -⟩ | ⟨hbefore, -, -, hserving, hnote⟩ |
      ⟨hafter, -⟩
    · exact (h.shaken (hsame ▸ hp)).append _
    · rw [hafter] at hp
      cases hp
    -- the note itself: it has come to a session that was greeted
    · rcases h.greeted hbefore hserving with hgreeted | ⟨call, hstopping⟩
      · refine ⟨w.log, wire, r.frames.map .passed ++ r.next.admitted, ?_, hgreeted, hnote⟩
        rw [section_result.events, hbefore, List.cons_append]
      · exact absurd hstopping (hidle call)
    · rw [hafter] at hp
      cases hp
  · intro op hop
    rcases received_admits hr with hlength | ⟨hready, hlength, hwire, hevents⟩
    · exact (h.admitted op (hlength ▸ hop)).append _
    · by_cases hold : op < w.server.operations.length
      · exact (h.admitted op hold).append _
      -- admitted now, by a `ready` session, so after the note
      · have hnew : op = w.server.operations.length := by
          dsimp only at hop
          omega
        refine ⟨w.log, wire, [], ?_, h.shaken hready, hwire⟩
        rw [hevents, hnew]
  · refine applied_append h.applied ?_
    intro n op hn
    exact absurd (List.mem_of_getElem? hn) (happlied op)
  · intro f hf
    rw [world.frames, hframes, List.mem_append] at hf
    rcases hf with hf | hf
    · obtain ⟨hwire, hop⟩ := h.frames f hf
      exact ⟨hwire, fun op horigin => Nat.lt_of_lt_of_le (hop op horigin) hlater.length⟩
    · obtain ⟨horigin, hwire, -⟩ := received_frames hr hf
      refine ⟨?_, ?_⟩
      · intro wire' hwire'
        rw [horigin] at hwire'
        cases hwire'
        exact hwire
      · intro op horigin'
        rw [horigin] at horigin'
        rcases horigin' with horigin' | horigin' <;> cases horigin'
  · intro hrank
    dsimp only at hrank ⊢
    have hbefore := Nat.lt_of_le_of_lt hlater.rank hrank
    rcases received_admits hr with hlength | ⟨hready, -⟩
    · rw [hlength]
      exact h.early hbefore
    · rw [hready] at hbefore
      exact absurd hbefore (by decide)

/-- Every step keeps the invariant. -/
theorem handshake.step (hi : ids_inv w) (h : handshake w) (hstep : world.Step w a t) :
    handshake t := by
  by_cases hreceive : ∃ answers, a = .receive answers
  · obtain ⟨answers, rfl⟩ := hreceive
    cases hstep with
    | receive _ hreader => exact h.step_receive hreader (w.server.receive_received answers _)
  · exact h.step_other hi hstep fun answers ha => hreceive ⟨answers, ha⟩

end Step

/-- It holds in every state of a server. -/
theorem server_handshake {limit : Nat} {w : world} (h : (server_runs limit).Reachable w) :
    handshake w := by
  refine h.invariant (P := handshake) ?_ ?_
  · rintro w ⟨-, info, resources, prompts, tools, rfl⟩
    constructor <;> simp [world.frames, frames_of, server.started]
  · intro w a t hw hi hstep
    exact hi.step (server_ids hw) hstep

/-! ## The order of a session

The same in the words of a user: which frames precede which, how often, and that an `initialize`
with parameters the server cannot read costs nothing.

What is said of one step is that the session goes on to the next state, or closes. Of a run it
can only be said that it does not go back. Both are about any reachable state, so a session that
is closing never serves again. -/

/-- One move of the session: forward by one, or to its end. -/
inductive session_move : connection → connection → Prop
  | stay (p : connection) : session_move p p
  | negotiate : session_move .await_initialize_ .await_initialized
  | ready : session_move .await_initialized .ready
  | close (p : connection) : session_move p .closing

theorem world.Step.session {w t : world} {a : server_action} (hstep : world.Step w a t) :
    session_move w.server.protocol_ t.server.protocol_ := by
  by_cases hreceive : ∃ answers, a = .receive answers
  · obtain ⟨answers, rfl⟩ := hreceive
    cases hstep with
    | @receive wire _ hreader =>
        rcases received_session (w.server.receive_received answers wire) with
          ⟨hsame, -⟩ | ⟨hbefore, hafter, -⟩ | ⟨hbefore, hafter, -⟩ | ⟨hafter, -⟩
        · dsimp only
          rw [hsame]
          exact .stay _
        · dsimp only
          rw [hbefore, hafter]
          exact .negotiate
        · dsimp only
          rw [hbefore, hafter]
          exact .ready
        · dsimp only
          rw [hafter]
          exact .close _
  · rcases hstep.protocol_kept fun answers ha => hreceive ⟨answers, ha⟩ with hsame | hclosing
    · rw [hsame]
      exact .stay _
    · rw [hclosing]
      exact .close _

/-- What a section makes of an `initialize` while the session awaits one: with invalid
parameters it changes nothing. -/
theorem receive_initialize {s : server} {answers : emit_answers} {wire : json} {req : request}
    (hdecode : decode_message wire = .ok (.request req)) (hmethod : req.method = "initialize")
    (hserving : s.serving = true) (hprotocol : s.protocol_ = .await_initialize_)
    (hempty : s.inflight_ = []) :
    (s.receive answers wire).server =
      if server.initialize_params_ok req.params then { s with protocol_ := .await_initialized }
      else s := by
  have hping : req.method ≠ "ping" := by
    rw [hmethod]
    decide
  simp only [server.receive, hdecode, server.dispatch, hserving, hprotocol, hempty, hmethod,
    List.any_nil, server.initialize_session, server.reply]
  cases server.initialize_params_ok req.params <;> simp

/-- The log and the frames of a server at any moment of a session. -/
structure handshake_first (w : world) : Prop where
  /-- Handlers, hooks and filters run inside `application()`, and it is only called for
  a request received after the handshake. -/
  applied : ∀ n op, w.log[n]? = some (.applied op) → admitted_after_handshake op (w.log.take n)
  one_result : (w.frames.filter (·.initialize_result)).length ≤ 1
  /-- No frame comes of a message with a method and no ID. -/
  received : ∀ f ∈ w.frames, ∀ wire, f.origin = .received wire → server.is_notification wire = false
  admitted : ∀ f ∈ w.frames, ∀ op, f.origin = .worker op ∨ f.origin = .rejection op →
    admitted_after_handshake op w.log

/-- In every run: the handshake comes first, one `initialize` is answered with a
result, the session only moves forward, and an `initialize` with invalid parameters
leaves it where a valid one still starts it. -/
theorem server_handshake_first {limit : Nat} {w : world} (h : (server_runs limit).Reachable w) :
    handshake_first w ∧
      (∀ a t, (server_runs limit).step w a t →
        session_move w.server.protocol_ t.server.protocol_) ∧
      (∀ t, (server_runs limit).Run w t → w.server.protocol_.rank ≤ t.server.protocol_.rank) ∧
      ∀ answers wire req t, w.reader = .receiving wire →
        decode_message wire = .ok (.request req) → req.method = "initialize" →
        w.server.serving = true → w.server.protocol_ = .await_initialize_ →
        (server_runs limit).step w (.receive answers) t →
        t.server = if server.initialize_params_ok req.params then
          { w.server with protocol_ := .await_initialized } else w.server := by
  have hi := server_handshake h
  refine ⟨⟨hi.applied, hi.at_most_one, fun f hf => (hi.frames f hf).1, ?_⟩, ?_, ?_, ?_⟩
  · intro f hf op horigin
    exact hi.admitted op ((hi.frames f hf).2 op horigin)
  · intro a t hstep
    exact world.Step.session hstep
  · intro t hrun
    refine System.Run.relates (S := server_runs limit)
      (R := fun u v => u.server.protocol_.rank ≤ v.server.protocol_.rank)
      (fun _ => Nat.le_refl _) (fun _ _ _ => Nat.le_trans) ?_ h hrun
    intro u a v _ hstep
    exact (world.Step.later hstep).rank
  · intro answers wire req t hreader hdecode hmethod hserving hprotocol hstep
    -- no operation was made yet, so no ID is in flight and the request is no duplicate
    have hempty : w.server.inflight_ = [] := by
      have hnone := hi.early (by rw [hprotocol]; decide)
      refine List.eq_nil_iff_forall_not_mem.mpr fun op hop => ?_
      have := (server_custody h).made op hop
      omega
    cases hstep with
    | receive _ hreader' =>
        rw [hreader] at hreader'
        cases hreader'
        exact receive_initialize hdecode hmethod hserving hprotocol hempty

/-- The order of the session at a server whose worker runs its first request. -/
theorem server_handshake_first_applying :
    handshake_first session.applying ∧ session.applying.applied = [0] :=
  ⟨(server_handshake_first (System.restrict_reachable
    (session.reaches_applying (C := fun _ _ => True) fun _ _ _ => trivial))).1, rfl⟩

end SynapseMcp
