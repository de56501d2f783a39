/-
The IDs of a session's answers.

A frame carries the ID of the message it answers. The reader's own replies take it from the
text it has just received, or carry null where that text has none and where its ID is in
flight already; the replies of the worker and of a full queue take it from the operation,
and so from the request the operation was made for (`server_echoes`).

Counted over a run: a text that is received leaves a frame of the reader or an operation,
never both, and an operation is answered once. So for no ID are there more answers than
messages that carried it (`server_correlates`).
-/
import SynapseMcp.ServerDelivery
import SynapseMcp.ServerHandshake
import SynapseMcp.ApplicationSecrecy

set_option autoImplicit false

namespace SynapseMcp

open Transition

/-! ## Replies

An encoded reply has its ID under its own key, and reading the text back gives it again,
whatever the ID is. So the ID of a frame may be read off its text, which is what a peer does. -/

section Replies

/-- The error or the result is under its own key. -/
theorem response.payload_key {reply : response} {key : String} (herror : key ≠ "error")
    (hresult : key ≠ "result") : key ≠ reply.payload.1 := by
  unfold response.payload
  split
  · exact herror
  all_goals exact hresult

/-- The ID of a reply is in its text under `id`: the payload is under another key, so it does
not cover it. -/
theorem response.to_json_id (reply : response) :
    reply.to_json.find? "id" = some reply.id.to_json := by
  rw [response.find?_to_json, if_neg (response.payload_key (by decide) (by decide)), if_pos rfl]

/-- An encoded reply is read back with its ID. -/
theorem failure_id_to_json (reply : response) : failure_id reply.to_json = reply.id := by
  rw [failure_id, reply.to_json_id]
  cases reply.id <;> rfl

/-- A request is read with the ID of its text. Reading a request needs an ID that is a number or
a string, and those are the ones `failure_id` gives back. -/
theorem failure_id_of_request {wire : json} {req : request}
    (h : decode_message wire = .ok (.request req)) : failure_id wire = req.id := by
  have hid := (decode_request h).2.1
  obtain ⟨id, hfind, hread⟩ : ∃ id, wire.find? "id" = some id ∧ req.id = read_json_rpc_id id := by
    unfold decode_message at h
    split at h
    · cases h
    split at h
    · cases h
    split at h
    · split at h
      · cases h
      split at h
      · rename_i id hfind
        split at h
        · cases h
        · obtain ⟨r, hr, hwrap⟩ := get_or_failure_eq_ok h
          cases hwrap
          obtain ⟨id', hfind', hread, -⟩ := request.from_json_ok hr
          exact ⟨id', hfind', hread⟩
      · obtain ⟨n, -, hwrap⟩ := get_or_failure_eq_ok h
        cases hwrap
    · split at h
      · cases h
      split at h
      · cases h
      · obtain ⟨r, -, hwrap⟩ := get_or_failure_eq_ok h
        cases hwrap
  -- only a number or a string becomes the ID of a request
  have hrequest : is_request_id id = true := by
    rw [hread] at hid
    cases id <;> first | rfl | exact absurd rfl hid
  rw [failure_id, hfind, hread]
  exact if_pos hrequest

/-- The ID a frame carries. -/
def frame.id (f : frame) : json_rpc_id := failure_id f.wire

/-- A reply cut down to the frame limit keeps its ID. -/
theorem replacement_id (reply : response) (method : String) :
    (replacement reply method).id = reply.id := by
  unfold replacement
  split <;> rfl

/-- `emit` passes on a reply, or what it puts in its place, with the ID of the reply. -/
theorem emitted_id {a : emit_answers} {origin : frame_origin} {reply : response}
    {method : String} {f : frame} (h : f ∈ emitted a origin reply method) : f.id = reply.id := by
  rw [emitted, Option.mem_toList, Option.map_eq_some_iff] at h
  obtain ⟨wire, hwire, rfl⟩ := h
  rcases emit_cases a reply method with ⟨-, heq⟩ | heq | heq | heq
  · rw [heq] at hwire
    cases hwire
  · rw [heq] at hwire
    cases hwire
  · rw [heq] at hwire
    rw [frame.id, ← Option.some.inj hwire]
    exact failure_id_to_json reply
  · rw [heq] at hwire
    rw [frame.id, ← Option.some.inj hwire]
    exact (failure_id_to_json _).trans (replacement_id reply method)

end Replies

section Application

variable {req : request}

/-- What `application()` made of a request carries its ID, and so does the internal error in
place of an exception: a handler returns contents or a result, never the reply itself. -/
theorem invoked_id {made : List invocation_made} {op : Nat} {reply : response}
    (h : invoked made op req reply) : reply.id = req.id := by
  obtain ⟨i, -, -, rfl, rfl⟩ := h
  unfold invocation_made.reply invocation
  cases hrun : application i.server i.answers i.req ⟨i.policy_, []⟩ with
  | mk st outcome =>
      cases outcome with
      | returned reply => exact application_id _ _ _ hrun
      | threw => rfl

end Application

/-! ## The reader's own replies

What the reader sends while it receives is a diagnostic, a reply to a request it can answer by
itself, or the null-ID diagnostic of a duplicate. The first two have the ID of the text, the
last has none. -/

section Reader

variable {s : server} {a : emit_answers} {wire : json} {f : frame}

/-- A reply of the reader carries the ID of the text, or null: null only where the ID of the
text is that of an operation still in flight. -/
theorem received_frame_id (h : f ∈ (s.receive a wire).frames) :
    f.id = failure_id wire ∨ f.id = .null := by
  have hrequest : ∀ {req : request} {reply : response} {method : String},
      decode_message wire = .ok (.request req) → reply.id = req.id →
      f ∈ emitted a (.received wire) reply method → f.id = failure_id wire := by
    intro req reply method hdecode hid hf
    rw [emitted_id hf, hid, failure_id_of_request hdecode]
  unfold server.receive at h
  split at h
  · rename_i diagnostic hdecode
    have hid : diagnostic.id = failure_id wire := by rw [decode_failure_of_error hdecode]; rfl
    split at h
    · cases h
    split at h
    · exact .inl ((emitted_id h).trans hid)
    · cases h
  · rename_i note _
    unfold server.notify at h
    split at h
    · cases h
    split at h
    · split at h <;> cases h
    split at h
    · split at h
      · cases h
      · split at h <;> cases h
    · cases h
  · rename_i req hdecode
    unfold server.dispatch at h
    split at h
    · cases h
    split at h
    -- a duplicate: the diagnostic has no ID
    · exact .inr (emitted_id h)
    split at h
    · exact .inl (hrequest hdecode rfl h)
    split at h
    · refine .inl (hrequest hdecode ?_ h)
      unfold server.initialize_session
      split
      · rfl
      split <;> rfl
    split at h
    · exact .inl (hrequest hdecode rfl h)
    · cases h
  · cases h

/-- An `emit` sends one frame at most. -/
theorem emitted_length (a : emit_answers) (origin : frame_origin) (reply : response)
    (method : String) : (emitted a origin reply method).length ≤ 1 := by
  unfold emitted
  cases (emit a reply method).1 <;> simp

/-- A text that is received leaves at most a frame, or an operation under its ID. -/
theorem received_one {r : section_result} (h : server.received s a wire r) :
    (r.frames.length ≤ 1 ∧ r.next.admitted = [] ∧
        r.server.operations.length = s.operations.length) ∨
      ∃ req, decode_message wire = .ok (.request req) ∧ r.frames = [] ∧
        r.next = .enqueue req s.operations.length ∧ r.server = s.push req.id := by
  have hreply : ∀ outcome : emit_outcome,
      (if outcome = .sent then receive_next.done else .stop).admitted = [] := by
    intro outcome
    split <;> rfl
  cases h with
  | ignored | ready => exact .inl ⟨Nat.zero_le _, rfl, rfl⟩
  | replied | negotiated => exact .inl ⟨emitted_length _ _ _ _, hreply _, rfl⟩
  | cancelled op => exact .inl ⟨Nat.zero_le _, rfl, List.length_modify ..⟩
  | duplicate req op hdecode hserving hopen hmem hsame outcome =>
      refine .inl ⟨emitted_length _ _ _ _, rfl, ?_⟩
      dsimp only
      split <;> rfl
  | admitted req hdecode => exact .inr ⟨req, hdecode, rfl, rfl, rfl⟩

end Reader

/-! ## A run, counted

The count is kept as an invariant. For each ID the frames the reader sent under it and the
operations made under it are together no more than the texts received with it
(`echoing.counted`). Only `receive` adds to either side. It adds one text, and by `received_one`
one frame or one operation, so the inequality goes through the step. Frames for operations are
left out here and are counted by the operations further down.

Null is not counted, since the reader answers under it what has no ID of its own, and any number
of texts may have none. -/

/-- The texts that were received. -/
def received_wires (log : List server_event) : List json :=
  log.filterMap fun event =>
    match event with
    | .received wire _ => some wire
    | _ => none

/-- How many of them carry this ID. -/
def world.requests (w : world) (id : json_rpc_id) : Nat :=
  ((received_wires w.log).map failure_id).count id

/-- Sent by the reader as it received a text, and not for an operation. -/
def frame_origin.direct : frame_origin → Bool
  | .received _ => true
  | .rejection _ | .worker _ => false

/-- The IDs of the frames the reader passed on while it received a text. -/
def direct_ids (log : List server_event) : List json_rpc_id :=
  ((frames_of log).filter (·.origin.direct)).map frame.id

/-- How many operations were made under this ID. -/
def server.made (s : server) (id : json_rpc_id) : Nat := (s.operations.map operation.id).count id

/-- Where the ID of a frame comes from. -/
def echoes (w : world) (f : frame) : Prop :=
  match f.origin with
  | .received wire =>
      wire ∈ received_wires w.log ∧ (f.id = failure_id wire ∨ f.id = .null)
  | .rejection op | .worker op => op < w.server.operations.length ∧ f.id = w.server.id_of op

/-- Every frame has its ID from where it should, and the frames and operations under an ID are
counted by the texts. -/
structure echoing (w : world) : Prop where
  frames : ∀ f ∈ w.frames, echoes w f
  /-- Every operation was made for a request. -/
  made : ∀ op < w.server.operations.length,
    ∃ req, listed w.log req op ∧ req.id = w.server.id_of op
  counted : ∀ id ≠ .null, (direct_ids w.log).count id + w.server.made id ≤ w.requests id

section Counting

variable {w t : world} {a : server_action} {f : frame}

@[simp] theorem received_wires_append (log more : List server_event) :
    received_wires (log ++ more) = received_wires log ++ received_wires more :=
  List.filterMap_append ..

@[simp] theorem direct_ids_append (log more : List server_event) :
    direct_ids (log ++ more) = direct_ids log ++ direct_ids more := by
  simp [direct_ids]

/-- The ID of an operation is the one in its record. -/
theorem id_of_eq_getElem {s : server} {op : Nat} (h : op < s.operations.length) :
    s.id_of op = s.operations[op].id := by
  rw [server.id_of, List.getElem?_eq_getElem h]

/-- An operation keeps its ID, so with none new the count is the same. -/
theorem server_later.made_eq {s t : server} (h : server_later s t)
    (hlength : t.operations.length = s.operations.length) (id : json_rpc_id) :
    t.made id = s.made id := by
  have hids : t.operations.map operation.id = s.operations.map operation.id := by
    refine List.ext_getElem (by simp [hlength]) fun op hop hop' => ?_
    rw [List.length_map] at hop hop'
    rw [List.getElem_map, List.getElem_map, ← id_of_eq_getElem hop, ← id_of_eq_getElem hop',
      h.ids op hop']
  rw [server.made, hids, server.made]

/-- The new operation counts for its own ID. -/
theorem made_push (s : server) (id id' : json_rpc_id) :
    (s.push id).made id' = s.made id' + [id].count id' := by
  simp [server.made, server.push]

/-- A frame for an operation carries the ID of that operation, and the operation has been made.
-/
theorem echoes_op (h : echoes w f) {op : Nat} (hanswers : f.answers op = true) :
    op < w.server.operations.length ∧ f.id = w.server.id_of op := by
  unfold echoes at h
  unfold frame.answers at hanswers
  cases horigin : f.origin with
  | received wire =>
      rw [horigin] at hanswers
      cases hanswers
  | rejection op' =>
      rw [horigin] at hanswers h
      simp only [frame_origin.worker_op, frame_origin.rejected_op, reduceCtorEq, decide_false,
        Bool.false_or, Option.some.injEq, decide_eq_true_eq] at hanswers
      exact hanswers ▸ h
  | worker op' =>
      rw [horigin] at hanswers h
      simp only [frame_origin.worker_op, frame_origin.rejected_op, reduceCtorEq, decide_false,
        Bool.or_false, Option.some.injEq, decide_eq_true_eq] at hanswers
      exact hanswers ▸ h

/-- What was said of a frame stays true: texts that were received stay in the log, and
operations keep their IDs. -/
theorem echoes_later (h : echoes w f) (hlater : server_later w.server t.server)
    (hlog : ∃ more, t.log = w.log ++ more) : echoes t f := by
  obtain ⟨more, hlog⟩ := hlog
  unfold echoes at h ⊢
  cases horigin : f.origin with
  | received wire =>
      rw [horigin] at h
      refine ⟨?_, h.2⟩
      rw [hlog, received_wires_append]
      exact List.mem_append_left _ h.1
  | rejection op | worker op =>
      rw [horigin] at h
      exact ⟨Nat.lt_of_lt_of_le h.1 hlater.length, h.2.trans (hlater.ids op h.1).symm⟩

/-- A step that receives nothing and makes no operation. The frames it passes are for
operations, so neither side of the count changes. -/
theorem echoing.elsewhere (h : echoing w) (hlater : server_later w.server t.server)
    (hlength : t.server.operations.length = w.server.operations.length)
    {more : List server_event} (hlog : t.log = w.log ++ more)
    (hnone : received_wires more = [])
    (hmore : ∀ f ∈ frames_of more, f.origin.direct = false ∧ echoes w f) : echoing t where
  frames := by
    intro f hf
    rw [world.frames, hlog, frames_of_append] at hf
    refine echoes_later ?_ hlater ⟨more, hlog⟩
    rcases List.mem_append.mp hf with hf | hf
    · exact h.frames f hf
    · exact (hmore f hf).2
  made := by
    intro op hop
    rw [hlength] at hop
    obtain ⟨req, hlisted, hid⟩ := h.made op hop
    refine ⟨req, ?_, hid.trans (hlater.ids op hop).symm⟩
    rw [hlog]
    exact hlisted.mono more
  counted := by
    intro id hid
    have hdirect : direct_ids more = [] := by
      rw [direct_ids, List.filter_eq_nil_iff.mpr, List.map_nil]
      intro f hf
      rw [(hmore f hf).1]
      exact Bool.false_ne_true
    rw [hlater.made_eq hlength, world.requests, hlog, direct_ids_append, received_wires_append,
      hdirect, hnone, List.append_nil, List.append_nil]
    exact h.counted id hid

/-- A frame that is passed is no text received. -/
theorem received_wires_passed (frames : List frame) : received_wires (frames.map .passed) = [] := by
  refine List.filterMap_eq_nil_iff.mpr fun event hevent => ?_
  obtain ⟨f, -, rfl⟩ := List.mem_map.mp hevent
  rfl

/-- Receiving a text logs that text, and no other. -/
theorem received_wires_events (r : section_result) (s : server) (wire : json) :
    received_wires (r.events s wire) = [wire] := by
  have hadmitted : received_wires r.next.admitted = [] := by
    cases r.next <;> rfl
  rw [section_result.events, List.cons_append, received_wires, List.filterMap_cons,
    List.filterMap_append]
  exact congrArg (wire :: ·) (congrArg₂ (· ++ ·) (received_wires_passed _) hadmitted)

/-- At most one reply, under the ID of the text or under none. For an ID other than null it is
counted by the text. -/
theorem count_received {frames : List frame} {id id' : json_rpc_id} (hlength : frames.length ≤ 1)
    (hids : ∀ f ∈ frames, f.id = id ∨ f.id = .null) (hid : id' ≠ .null) :
    (frames.map frame.id).count id' ≤ [id].count id' := by
  match frames, hlength with
  | [], _ => exact Nat.zero_le _
  | [f], _ =>
      rw [List.map_singleton]
      rcases hids f (List.mem_singleton_self f) with heq | heq
      · rw [heq]
      · rw [heq, List.count_eq_zero_of_not_mem]
        · exact Nat.zero_le _
        · exact fun hmem => hid (List.mem_singleton.mp hmem)

/-- The step that receives a text. Either the reader replied, or one operation was made for a
request with the ID of the text; in both cases the text pays for it. -/
theorem echoing.receives (h : echoing w) {answers : emit_answers} {wire : json}
    (hlater : server_later w.server t.server)
    (hserver : t.server = (w.server.receive answers wire).server)
    (hlog : t.log = w.log ++ (w.server.receive answers wire).events w.server wire) :
    echoing t := by
  have hreceived := w.server.receive_received answers wire
  have hwires : received_wires t.log = received_wires w.log ++ [wire] := by
    rw [hlog, received_wires_append, received_wires_events]
  have hframe : ∀ f ∈ (w.server.receive answers wire).frames,
      f.origin = .received wire ∧ (f.id = failure_id wire ∨ f.id = .null) :=
    fun f hf => ⟨(received_frames hreceived hf).1, received_frame_id hf⟩
  have hdirect : direct_ids t.log =
      direct_ids w.log ++ (w.server.receive answers wire).frames.map frame.id := by
    -- every frame of this step was sent by the reader itself
    have hall : (w.server.receive answers wire).frames.filter (·.origin.direct) =
        (w.server.receive answers wire).frames := by
      refine List.filter_eq_self.mpr fun f hf => ?_
      rw [(hframe f hf).1]
      rfl
    rw [hlog, direct_ids_append, direct_ids, direct_ids, frames_of_events, hall]
  have hold : ∀ op < w.server.operations.length,
      ∃ req, listed t.log req op ∧ req.id = t.server.id_of op := by
    intro op hop
    obtain ⟨req, hlisted, hid⟩ := h.made op hop
    refine ⟨req, ?_, hid.trans (hlater.ids op hop).symm⟩
    rw [hlog]
    exact hlisted.mono _
  have hframes : ∀ f ∈ t.frames, echoes t f := by
    intro f hf
    rw [world.frames, hlog, frames_of_append, frames_of_events] at hf
    rcases List.mem_append.mp hf with hf | hf
    · exact echoes_later (h.frames f hf) hlater ⟨_, hlog⟩
    · obtain ⟨horigin, hid⟩ := hframe f hf
      unfold echoes
      rw [horigin, hwires]
      exact ⟨List.mem_append_right _ (List.mem_singleton_self wire), hid⟩
  -- a frame or an operation, never both
  rcases received_one hreceived with ⟨hone, -, hlength⟩ | ⟨req, hdecode, hnone, hnext, hpush⟩
  · refine ⟨hframes, fun op hop => hold op ?_, fun id hid => ?_⟩
    · rwa [hserver, hlength] at hop
    · have hbefore := h.counted id hid
      have hmade := hlater.made_eq (by rw [hserver, hlength]) id
      have hmore := count_received hone (fun f hf => (hframe f hf).2) hid
      rw [hmade, world.requests, hwires, hdirect, List.map_append, List.count_append,
        List.count_append, List.map_singleton]
      rw [world.requests] at hbefore
      omega
  · refine ⟨hframes, fun op hop => ?_, fun id hid => ?_⟩
    · by_cases hlt : op < w.server.operations.length
      · exact hold op hlt
      · -- the new one
        have hop' : op = w.server.operations.length := by
          rw [hserver, hpush] at hop
          simp only [server.push, List.length_append, List.length_singleton] at hop
          omega
        subst hop'
        refine ⟨req, ⟨wire, w.server.protocol_, hdecode, ?_⟩, ?_⟩
        · rw [hlog, section_result.events, hnone, hnext]
          exact (List.suffix_append _ _).isInfix
        · rw [hserver, hpush, server.id_of_push_new]
    · have hbefore := h.counted id hid
      rw [hserver, hpush, made_push, world.requests, hwires, hdirect, hnone, List.map_nil,
        List.append_nil, List.map_append, List.count_append, List.map_singleton,
        failure_id_of_request hdecode]
      rw [world.requests] at hbefore
      omega

/-- Only `receive` makes operations, and it is in the log. -/
theorem world.Step.length_of_log (hstep : world.Step w a t) (hlog : t.log = w.log) :
    t.server.operations.length = w.server.operations.length := by
  refine hstep.length ?_
  rintro answers rfl
  cases hstep with
  | receive =>
      have hnil := List.append_right_eq_self.mp hlog
      cases hnil

/-- Every step keeps the IDs. The frames a step can pass are of three kinds: those of `receive`,
the queue-full reply for the operation the reader holds, and the reply of the worker for the
request it works on; for the last two the holder knows the ID of the operation. -/
theorem echoing.step {configured : Bool} {calls : List invocation_made} (h : echoing w)
    (hi : ids_inv w) (hspoken : w.spoken configured calls) (hstep : world.Step w a t) :
    echoing t := by
  have hlater := hstep.later
  rcases hstep.log_cases with
    hlog | ⟨answers, wire, -, -, hserver, hlog⟩ | ⟨req, op, -, hserver, hlog⟩ |
      ⟨req, op, answers, hreader, hserver, hlog⟩ | ⟨op, -, hserver, hlog⟩ |
      ⟨item, -, -, hserver, -, hlog⟩ |
      ⟨item, reply, answers, -, hworker, hcall, hserver, hlog⟩
  · exact h.elsewhere hlater (hstep.length_of_log hlog) (hlog.trans (List.append_nil _).symm) rfl
      nofun
  · exact h.receives hlater hserver hlog
  · exact h.elsewhere hlater (by rw [hserver]) hlog rfl nofun
  · -- the queue-full reply
    refine h.elsewhere hlater (by rw [hserver]) hlog (received_wires_passed _)
      fun f hf => ?_
    rw [frames_of_passed] at hf
    have horigin := (server.answer_origin hf).1
    -- the reader holds the request the operation was made for
    have hknows := hi.reader
    rw [hreader] at hknows
    obtain ⟨hop, hid⟩ := hknows
    unfold server.answer at hf
    split at hf
    · unfold echoes
      rw [horigin]
      exact ⟨rfl, hop, (emitted_id hf).trans hid.symm⟩
    · cases hf
  · exact h.elsewhere hlater (by rw [hserver]) hlog rfl nofun
  · exact h.elsewhere hlater (by rw [hserver]) hlog rfl nofun
  · -- the worker's reply
    refine h.elsewhere hlater (by rw [hserver]) hlog (received_wires_passed _)
      fun f hf => ?_
    rw [frames_of_passed] at hf
    have horigin := (server.answer_origin hf).1
    obtain ⟨hop, hid, hreq⟩ := hi.works item (by simp [queued_works, hworker])
    -- the worker holds it, and the handler does not choose the ID
    have hreply := invoked_id (hspoken.replying item reply hworker hcall)
    unfold server.answer at hf
    split at hf
    · unfold echoes
      rw [horigin]
      refine ⟨rfl, hop, ?_⟩
      rw [emitted_id hf, hreply, hreq, hid]
    · cases hf

end Counting

/-! ## Every run

The frames of an operation are those of the worker and of the refused `enqueue`. Their IDs are
the operation's, and the operation's is the request's. -/

section Runs

variable {limit : Nat} {configured : Bool} {w : world}

/-- Every state of a run where the worker applies the server's own code. -/
theorem session_echoing
    (h : ((server_runs limit).restrict (applies configured)).Reachable w) : echoing w := by
  refine h.invariant (P := echoing) ?_ ?_
  · rintro w ⟨hlimit, info, resources, prompts, tools, rfl⟩
    exact ⟨nofun, nofun, fun id hid => Nat.le_refl _⟩
  · intro w a t hw hechoing hstep
    obtain ⟨made, hspoken⟩ := session_spoken hw
    exact hechoing.step (server_ids (System.restrict_reachable hw)) hspoken hstep.2

/-- Every frame carries the ID of the message it answers, or null where the reader answers a
text without an ID, or with one that is in flight; and one for an operation carries the ID of
the request which that operation was made for. -/
theorem server_echoes
    (h : ((server_runs limit).restrict (applies configured)).Reachable w) :
    ∀ f ∈ w.frames,
      (∀ wire, f.origin = .received wire →
        wire ∈ received_wires w.log ∧ (f.id = failure_id wire ∨ f.id = .null)) ∧
      (∀ op, f.answers op = true →
        ∃ req, listed w.log req op ∧ f.id = req.id ∧ req.id ≠ .null) := by
  intro f hf
  have hall := session_echoing h
  have hechoes := hall.frames f hf
  constructor
  · intro wire horigin
    unfold echoes at hechoes
    rw [horigin] at hechoes
    exact hechoes
  · intro op hanswers
    have hop := echoes_op hechoes hanswers
    obtain ⟨req, hlisted, hid⟩ := hall.made op hop.1
    refine ⟨req, hlisted, hop.2.trans hid.symm, ?_⟩
    obtain ⟨wire, p, hdecode, -⟩ := hlisted
    exact (decode_request hdecode).2.1

/-! ## No more answers than requests

The frames under an ID fall into two groups. Those of the reader are counted above, with the
operations made under the ID. Those for operations are no more than these operations, because
each is answered at most once (`server_delivery`): sending a frame to its operation is
injective. This needs runs in which no reply is lost to an exception, since after one the
account of answers is open. -/

/-- Runs in which `application()` answers as the server's own code does, and neither the
encoder nor the transport throws. -/
def session_runs (limit : Nat) (configured : Bool) : System world server_action :=
  (server_runs limit).restrict fun w a => no_throws w a ∧ applies configured w a

/-- Such a run is one without exceptions, whatever the application does. -/
theorem session_quiet (h : (session_runs limit configured).Reachable w) :
    (quiet_runs limit).Reachable w := System.restrict_mono (fun _ _ hC => hC.1) h

/-- Such a run is one where the worker applies the server's own code. -/
theorem session_applies (h : (session_runs limit configured).Reachable w) :
    ((server_runs limit).restrict (applies configured)).Reachable w :=
  System.restrict_mono (fun _ _ hC => hC.2) h

/-- The operation a frame is for. -/
def frame.op? (f : frame) : Option Nat := f.origin.worker_op <|> f.origin.rejected_op

/-- A frame answers the operation it is for, and no other. -/
theorem frame.answers_iff (f : frame) (op : Nat) : f.answers op = true ↔ f.op? = some op := by
  unfold frame.answers frame.op?
  cases f.origin <;> simp [frame_origin.worker_op, frame_origin.rejected_op]

/-- A frame is for an operation, or the reader's own. -/
theorem frame.op?_of_direct (f : frame) : f.origin.direct = f.op?.isNone := by
  unfold frame.op?
  cases f.origin <;> rfl

/-- The operations under an ID, counted by their places in the table. Places are what frames
name. -/
theorem made_eq_range (s : server) (id : json_rpc_id) :
    s.made id = ((List.range s.operations.length).filter fun op => s.id_of op = id).length := by
  have hids : s.operations.map operation.id = (List.range s.operations.length).map s.id_of := by
    refine List.ext_getElem (by simp) fun op hop hop' => ?_
    rw [List.length_map] at hop
    rw [List.getElem_map, List.getElem_map, List.getElem_range, id_of_eq_getElem hop]
  rw [server.made, hids, List.count, List.countP_map, List.countP_eq_length_filter]
  rfl

/-- The frames for operations under an ID are no more than these operations. Each such frame
goes to its operation, which has that ID; no two go to the same one, since an operation is
answered once. -/
theorem answered_ids (honce : ∀ op, (w.answers_to op).length ≤ 1) (hechoing : echoing w)
    (id : json_rpc_id) :
    (w.frames.filter fun f => !f.origin.direct && f.id = id).length ≤ w.server.made id := by
  -- a frame that is not the reader's has an operation
  have hops : ((w.frames.filter fun f => !f.origin.direct && f.id = id).filterMap
      frame.op?).length = (w.frames.filter fun f => !f.origin.direct && f.id = id).length := by
    rw [List.length_filterMap_eq_countP, List.countP_eq_length]
    intro f hf
    have hkind := (List.mem_filter.mp hf).2
    rw [frame.op?_of_direct, Bool.and_eq_true] at hkind
    simpa using hkind.1
  -- an operation has one frame at most
  have hnodup : ((w.frames.filter fun f => !f.origin.direct && f.id = id).filterMap
      frame.op?).Nodup := by
    refine List.nodup_iff_count_le_one.mpr fun op => ?_
    have hle : ((w.frames.filter fun f => !f.origin.direct && f.id = id).filterMap
        frame.op?).count op ≤ (w.answers_to op).length := by
      rw [List.count_filterMap, List.countP_filter, world.answers_to,
        ← List.countP_eq_length_filter]
      refine List.countP_mono_left fun f _ hf => ?_
      rw [Bool.and_eq_true, beq_iff_eq] at hf
      exact (f.answers_iff op).mpr hf.1
    exact Nat.le_trans hle (honce op)
  -- and it was made under the ID of the frame
  have hsub : (w.frames.filter fun f => !f.origin.direct && f.id = id).filterMap frame.op? ⊆
      (List.range w.server.operations.length).filter fun op => w.server.id_of op = id := by
    intro op hop
    obtain ⟨f, hf, hfop⟩ := List.mem_filterMap.mp hop
    obtain ⟨hframe, hkind⟩ := List.mem_filter.mp hf
    have hechoes := hechoing.frames f hframe
    rw [Bool.and_eq_true, decide_eq_true_eq] at hkind
    have hop' := echoes_op hechoes ((f.answers_iff op).mpr hfop)
    exact List.mem_filter.mpr
      ⟨List.mem_range.mpr hop'.1, decide_eq_true (hop'.2.symm.trans hkind.2)⟩
  rw [made_eq_range, ← hops]
  exact (hnodup.subperm hsub).length_le

/-- The answers to one ID: the reader's, and those for operations. Every frame is one or the
other. -/
theorem frames_count (w : world) (id : json_rpc_id) :
    (w.frames.map frame.id).count id =
      (direct_ids w.log).count id +
        (w.frames.filter fun f => !f.origin.direct && f.id = id).length := by
  have hcount : ∀ frames : List frame, (frames.map frame.id).count id =
      ((frames.filter (·.origin.direct)).map frame.id).count id +
        (frames.filter fun f => !f.origin.direct && f.id = id).length := by
    intro frames
    induction frames with
    | nil => rfl
    | cons f rest ih =>
        cases hdirect : f.origin.direct <;> by_cases hid : f.id = id <;>
          simp [hdirect, hid, ih] <;> omega
  exact hcount w.frames

/-- The frames under an ID are those of the reader, one for each text it received under it and
did not admit, and those for the operations made under it, one for each. -/
theorem session_correlated (h : (session_runs limit configured).Reachable w) {id : json_rpc_id}
    (hid : id ≠ .null) : (w.frames.map frame.id).count id ≤ w.requests id := by
  have hechoing := session_echoing (session_applies h)
  have honce : ∀ op, (w.answers_to op).length ≤ 1 := by
    intro op
    have hdebts := (server_delivery (session_quiet h)).once op
    rw [answers_to_length]
    simp only [world.debts, world.line, world.refusals, List.count_append] at hdebts
    omega
  have hanswered := answered_ids honce hechoing id
  have hcounted := hechoing.counted id hid
  rw [frames_count]
  omega

/-- In every run without exceptions from the encoder and the transport, and for every ID:
the frames that carry it, of whatever kind, are no more than the messages received that
carry it. A request whose ID nobody else uses is answered at most once. -/
theorem server_correlates (h : (session_runs limit configured).Reachable w) :
    ∀ id ≠ .null, (w.frames.map frame.id).count id ≤ w.requests id :=
  fun _ hid => session_correlated h hid

end Runs

/-! ## Two sessions

A session in which the request that greets the server is answered, and one in which the worker
replies to the call of a tool.

In the first the answer is the reader's own, in the second it is for an operation, so both
groups of the count have a frame in one of them. -/

/-- The worker's reply to the call of a tool carries the ID of the call. -/
theorem server_echoes_replied :
    ∃ req, listed session.echo_replied.log req 0 ∧
      (frame.mk (.worker 0) session.heard.to_json true).id = req.id ∧ req.id ≠ .null :=
  (server_echoes session.reaches_echo_replied ⟨.worker 0, session.heard.to_json, true⟩
    (mem_frames.mpr (List.mem_append_right _ (List.mem_singleton_self _)))).2 0 rfl

namespace session

/-- The greeting is answered. -/
def greeted : world :=
  { opened with
    server := { fresh with protocol_ := .await_initialized }
    log := [.received hello .await_initialize_,
      .passed ⟨.received hello, welcome.to_json, true⟩] }

/-- It is a run of the server: the request is received, answered, and the frame passed on. -/
theorem reaches_greeted : (session_runs 1 false).Reachable greeted := by
  have h0 : (session_runs 1 false).Reachable opened :=
    .of_init ⟨by decide, {}, [], [], [], rfl⟩
  have hdeliver : no_throws opened (.deliver hello) ∧ applies false opened (.deliver hello) :=
    ⟨trivial, trivial⟩
  have h1 := h0.step ⟨hdeliver, world.Step.deliver hello rfl⟩
  have hcalm : calm.no_throw := ⟨rfl, by decide⟩
  have hreceive : no_throws { opened with reader := .receiving hello } (.receive calm) ∧
      applies false { opened with reader := .receiving hello } (.receive calm) := ⟨hcalm, trivial⟩
  exact h1.step ⟨hreceive, @world.Step.receive _ hello calm rfl⟩

end session

/-- One message with the ID was received and one frame has it, so the bound is met. -/
theorem server_correlates_greeted :
    (session.greeted.frames.map frame.id).count (.uint64 0) = 1 ∧
      (session.greeted.frames.map frame.id).count (.uint64 0) ≤
        session.greeted.requests (.uint64 0) :=
  ⟨by decide, server_correlates session.reaches_greeted (.uint64 0) nofun⟩

end SynapseMcp
