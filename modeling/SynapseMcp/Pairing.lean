/-
A client and a server in one process.

`client(send_callback)` and `on_message` leave the transport to the application. Here it is
two queues: what the client hands to `transport_send_` is delivered to `receive` in the order
it gets there, and what the server's transport accepts is handed to `on_message` in order.
`send_request` keeps its promise first and sends then, so the calls of several threads may
get to `transport_send_` in any order; and between two steps of the queues the server takes
any step of a session: its encoder and its transport may fail, but neither throws, as an
exception may lose an answer without a trace.

The IDs make the two ends meet. A client's IDs are signed and no two calls share one, until
the counter comes round; a frame carries the ID of what it answers (`ServerEcho`). So a
future is completed by the server's one answer to the request of the very call it was
returned for (`pairing_answers`), and once both ends are quiet every call has been answered
(`pairing_completes`).

Unlike text, the queues keep the two integer representations apart, so that a signed ID comes
back signed; with text between the two ends nothing is answered (`process_client_pending`).
-/
import SynapseMcp.ClientCalls
import SynapseMcp.ClientRuns
import SynapseMcp.ServerReplies

set_option autoImplicit false

namespace SynapseMcp

open Transition

/-- The messages the transport of the server accepted, in order. -/
def world.accepted (w : world) : List json := (w.frames.filter (·.accepted)).map frame.wire

/-! ## The pair

The state has both ends and the two queues. `transport_send_` of the client only puts a message
into the outbox, which is delivered in order; what the server's transport accepts is kept in the
server's log, and `heard` counts how much of it the client was called with.

A call of `send_request` has two steps. In the first the promise is kept and the request made,
which is then in `sending`; in the second, whenever its thread gets there, it goes into the
outbox. So the order of the outbox need not be that of the IDs. -/

/-- A client, a server, and what is between them. -/
structure pairing where
  client : client_run
  server : world
  /-- On the way to `transport_send_`. -/
  sending : List json
  /-- What has got there, and how much of it was delivered. -/
  outbox : List json
  delivered : Nat
  /-- How many of the accepted messages the client was called with. -/
  heard : Nat

/-- A call of the client, a message that gets to its transport, a step of the server, or a
message that the client hears. -/
inductive pairing_action where
  | send_request (method : String) (params : Option json)
  | send_notification (method : String) (params : Option json)
  | transport_send
  | serve (a : server_action)
  | hear

/-- One step of the pair. The server receives only by being delivered the next message of the
outbox. -/
inductive pairing.Step (configured : Bool) : pairing → pairing_action → pairing → Prop
  | send_request {p : pairing} (method : String) (params : Option json) :
      Step configured p (.send_request method params)
        { p with
          client := p.client.step (.send_request method params)
          sending := p.sending ++ [(p.client.client.send_request method params).2.to_json] }
  | send_notification {p : pairing} (method : String) (params : Option json) :
      Step configured p (.send_notification method params)
        { p with sending := p.sending ++ [notification.to_json { method, params }] }
  | transport_send {p : pairing} {i : Nat} {wire : json} (hsending : p.sending[i]? = some wire) :
      Step configured p .transport_send
        { p with sending := p.sending.eraseIdx i, outbox := p.outbox ++ [wire] }
  | deliver {p : pairing} {wire : json} {w : world} (hnext : p.outbox[p.delivered]? = some wire)
      (hstep : world.Step p.server (.deliver wire) w) :
      Step configured p (.serve (.deliver wire))
        { p with server := w, delivered := p.delivered + 1 }
  | serve {p : pairing} {w : world} (a : server_action) (hdeliver : ∀ wire, a ≠ .deliver wire)
      (hthrow : no_throws p.server a) (happlies : applies configured p.server a)
      (hstep : world.Step p.server a w) :
      Step configured p (.serve a) { p with server := w }
  /-- What the client sends back, it sends from a thread of its own. -/
  | hear {p : pairing} {wire : json} (hnext : p.server.accepted[p.heard]? = some wire) :
      Step configured p .hear
        { p with
          client := p.client.step (.on_message wire)
          sending := p.sending ++ (p.client.client.handle_message wire).sent
          heard := p.heard + 1 }

/-- The runs of a pair, from a client without calls and a server that was just started. -/
def pairings (handler : Option (String → Option json → Except error json)) (limit : Nat)
    (configured : Bool) : System pairing pairing_action where
  init p :=
    p.client = .start handler ∧ (server_runs limit).init p.server ∧
      p.sending = [] ∧ p.outbox = [] ∧ p.delivered = 0 ∧ p.heard = 0
  step := pairing.Step configured

/-- Everything the client has sent. -/
def pairing.sent (p : pairing) : List json := p.outbox ++ p.sending

/-! ## Each end by itself

Seen from either end, a run of the pair is one of that end: the other is only the surroundings
that decide what comes in. So the theorems about sessions and about clients hold here as they
are. -/

section Ends

variable {handler : Option (String → Option json → Except error json)} {limit : Nat}
  {configured : Bool} {p q : pairing} {a : pairing_action}

/-- The server's part of a run is a session: what is delivered to it and what it does by itself
are steps of its own, and a step of the client leaves it as it is. -/
theorem pairing_server (h : (pairings handler limit configured).Reachable p) :
    (session_runs limit configured).Reachable p.server := by
  refine h.invariant (P := fun p => (session_runs limit configured).Reachable p.server) ?_ ?_
  · rintro p ⟨-, hserver, -⟩
    exact .of_init hserver
  · intro p a q _ hserver hstep
    cases hstep with
    | @deliver wire _ hnext hstep =>
        have hquiet : no_throws p.server (.deliver wire) ∧
            applies configured p.server (.deliver wire) := ⟨trivial, trivial⟩
        exact hserver.step ⟨hquiet, hstep⟩
    | serve a hdeliver hthrow happlies hstep => exact hserver.step ⟨⟨hthrow, happlies⟩, hstep⟩
    | send_request | send_notification | transport_send | hear => exact hserver

/-- The client's part keeps its table of promises: sending a request and hearing an answer are
its own steps, and whatever the server does changes nothing in it. -/
theorem pairing_client (h : (pairings handler limit configured).Reachable p) :
    promise_table p.client := by
  refine h.invariant (P := fun p => promise_table p.client) ?_ ?_
  · rintro p ⟨hclient, -⟩
    rw [hclient]
    exact promise_table_start
  · intro p a q _ htable hstep
    cases hstep with
    | send_request method params => exact htable.step (.send_request method params)
    | @hear wire hnext => exact htable.step (.on_message wire)
    | send_notification | transport_send | deliver | serve => exact htable

end Ends

/-! ## Frames are responses

The client looks an answer up by its ID, and for that the message has to be read as a response.
Every frame the server passes on is one that was encoded from a response, and it is read back
whole. -/

section Responses

variable {w t : world} {a : server_action}

/-- What `emit` passes on is an encoded response: the reply it was given, or the one that stands
for it. -/
theorem emitted_response {answers : emit_answers} {origin : frame_origin} {reply : response}
    {method : String} {f : frame} (h : f ∈ emitted answers origin reply method) :
    ∃ r : response, f.wire = r.to_json := by
  rw [emitted, Option.mem_toList, Option.map_eq_some_iff] at h
  obtain ⟨wire, hwire, rfl⟩ := h
  rcases emit_cases answers reply method with ⟨-, heq⟩ | heq | heq | heq
  · rw [heq] at hwire
    cases hwire
  · rw [heq] at hwire
    cases hwire
  · rw [heq] at hwire
    exact ⟨reply, (Option.some.inj hwire).symm⟩
  · rw [heq] at hwire
    exact ⟨replacement reply method, (Option.some.inj hwire).symm⟩

/-- A guarded `emit` passes on what `emit` does. -/
theorem answer_response {s : server} {answers : emit_answers} {origin : frame_origin} {op : Nat}
    {reply : response} {method : String} {f : frame}
    (h : f ∈ (s.answer answers origin op reply method).1) : ∃ r : response, f.wire = r.to_json := by
  unfold server.answer at h
  split at h
  · exact emitted_response h
  · cases h

/-- The reader replies through `emit`, too, so its frames are encoded responses like those of
the worker. -/
theorem receive_response {s : server} {answers : emit_answers} {wire : json} {f : frame}
    (h : f ∈ (s.receive answers wire).frames) : ∃ r : response, f.wire = r.to_json := by
  rw [(s.receive_emits answers wire).1] at h
  cases hemits : s.emits wire with
  | none =>
      rw [hemits] at h
      cases h
  | some e =>
      rw [hemits] at h
      exact emitted_response h

/-- So all frames of a session are responses, whoever passed them on: a received text is
answered with one, and so are a full queue and a finished call. -/
theorem session_responses {limit : Nat} (h : (server_runs limit).Reachable w) :
    ∀ f ∈ w.frames, ∃ r : response, f.wire = r.to_json := by
  refine h.invariant (P := fun w => ∀ f ∈ w.frames, ∃ r : response, f.wire = r.to_json) ?_ ?_
  · rintro w ⟨-, info, resources, prompts, tools, rfl⟩
    nofun
  · intro w a t _ hall hstep f hf
    rcases hstep.frame_cases hf with
      hbefore | ⟨answers, wire, hf⟩ | ⟨req, op, answers, hf⟩ | ⟨item, reply, answers, -, -, hf⟩
    · exact hall f hbefore
    · exact receive_response hf
    · exact answer_response hf
    · exact answer_response hf

/-- A response has no method. -/
theorem response.to_json_method (r : response) : r.to_json.contains "method" = false := by
  rw [json.contains_eq_isSome, response.find?_to_json,
    if_neg (response.payload_key (by decide) (by decide)), if_neg (by decide),
    if_neg (by decide)]
  rfl

/-- An encoded response can be read as one, so a client that is handed a frame of the server
does not fail on it. -/
theorem response.from_json_to_json (r : response) :
    ∃ res : response, response.from_json r.to_json = .ok res := by
  have hversion : r.to_json.find? "jsonrpc" = some (.string r.jsonrpc) := by
    rw [response.find?_to_json, if_neg (response.payload_key (by decide) (by decide)),
      if_neg (by decide), if_pos rfl]
  cases herr : r.err with
  | some err =>
      have herror : r.to_json.find? "error" = some err.to_json := by
        rw [response.find?_to_json, response.payload_of_error herr]
        rfl
      obtain ⟨read, hread, -⟩ := error.from_json_eq (error.reads_to_json err).1
      exact ⟨_, response.from_json_eq_error hversion r.to_json_id herror hread⟩
  | none =>
      have herror : r.to_json.find? "error" = none := by
        have hpayload : r.payload.1 = "result" := by
          unfold response.payload
          rw [herr]
          cases r.result <;> rfl
        rw [response.find?_to_json, hpayload, if_neg (by decide), if_neg (by decide),
          if_neg (by decide)]
      exact ⟨_, response.from_json_eq_result hversion r.to_json_id herror⟩

/-- A response with a signed ID is one a client looks up. -/
theorem response_to_signed {r : response} {id : Int64} (hid : r.id = .int64 id) :
    ∃ outcome, response_to r.to_json = some (id.toInt, outcome) := by
  obtain ⟨res, hres⟩ := r.from_json_to_json
  refine ⟨res.outcome, ?_⟩
  unfold response_to
  rw [r.to_json_method, hres, r.to_json_id, hid]
  rfl

/-- The client sends nothing back on a message without a method; only a request of the server
would be answered. -/
theorem handle_response_sent (c : client) {msg : json} (h : msg.contains "method" = false) :
    (c.handle_message msg).sent = [] := by
  unfold client.handle_message
  rw [if_neg (by rw [h]; decide : ¬msg.contains "method" = true)]
  split
  · split
    · rfl
    · split
      · split
        · unfold client.set_value
          split <;> rfl
        · rfl
      all_goals rfl
  · rfl

end Responses

/-! ## What was delivered is received

The server's log has a text when the reader looks at it; between the delivery and that moment it
is in the position of the reader. And a frame is in the log when it is passed on, one for each
step at most. -/

/-- The text `receive` was called with and has not looked at. -/
def reader_at.text : reader_at → List json
  | .receiving wire => [wire]
  | _ => []

@[simp] theorem leaving_text (op : Nat) (threw : Bool) : (reader_at.leaving op threw).text = [] :=
  rfl

@[simp] theorem completing_text (op : Nat) (threw : Bool) :
    (reader_at.completing op threw).text = [] := rfl

@[simp] theorem cleaning_text (rest : cleanup) : (reader_at.cleaning rest).text = [] := rfl

def server_action.text : server_action → List json
  | .deliver wire => [wire]
  | _ => []

section Texts

variable {w t : world} {a : server_action}

@[simp] theorem receive_next.reader_text (next : receive_next) (calls : Nat) :
    (next.reader calls).text = [] := by
  cases next <;> rfl

@[simp] theorem reader_at.left_text (calls : Nat) (threw : Bool) :
    (reader_at.left calls threw).text = [] := by
  unfold reader_at.left
  split <;> rfl

@[simp] theorem reader_at.cleaned_text (rest : Option cleanup) :
    (reader_at.cleaned rest).text = [] := by
  cases rest <;> rfl

/-- The texts received, and the one about to be. Only the transport adds one. -/
theorem world.Step.texts (hstep : world.Step w a t) :
    received_wires t.log ++ t.reader.text =
      received_wires w.log ++ w.reader.text ++ a.text := by
  cases hstep with
  | deliver wire hreader =>
      rw [hreader]
      exact congrArg (· ++ [wire]) (List.append_nil _).symm
  | @receive wire answers hreader =>
      -- the text goes from the reader to the log
      show received_wires (w.log ++ _) ++ (receive_next.reader _ _).text = _
      rw [received_wires_append, received_wires_events, hreader, receive_next.reader_text]
      rfl
  | enqueue hreader =>
      show received_wires (w.log ++ _) ++ reader_at.text (if _ then _ else _) = _
      rw [received_wires_append, hreader]
      split <;> simp [received_wires, reader_at.text, server_action.text]
  | reject_sent answers hreader | reject_failed answers hreader | reject_threw answers hreader =>
      rw [hreader]
      simp [received_wires_passed, reader_at.text, server_action.text]
  | leave_shared hreader | leave_last hreader | reader_completes hreader
  | reader_cleans hreader | cancel hreader =>
      have hbefore : w.reader.text = [] := congrArg reader_at.text hreader
      simp [hbefore, received_wires, server_action.text]
  | @reader_stopped call held hreader =>
      have hbefore : w.reader.text = [] := congrArg reader_at.text hreader
      rw [hbefore]
      cases held <;> simp [reader_at.text, server_action.text]
  | respond | respond_failed =>
      simp [received_wires_passed, server_action.text]
  | apply => simp [received_wires, server_action.text]
  | _ => exact (List.append_nil _).symm

/-- A step adds one frame at most, and takes none away, so frames can be counted off one at a
time. -/
theorem world.Step.frames_grow (hstep : world.Step w a t) :
    ∃ more, t.frames = w.frames ++ more ∧ more.length ≤ 1 := by
  have hnone : ∀ more : List server_event, t.log = w.log ++ more → frames_of more = [] →
      ∃ more, t.frames = w.frames ++ more ∧ more.length ≤ 1 := by
    intro more hlog hmore
    refine ⟨[], ?_, Nat.zero_le 1⟩
    rw [world.frames, hlog, frames_of_append, hmore, world.frames]
  have hanswer : ∀ (s : SynapseMcp.server) (answers : emit_answers) (origin : frame_origin)
      (op : Nat) (reply : response) (method : String),
      t.log = w.log ++ (s.answer answers origin op reply method).1.map .passed →
      ∃ more, t.frames = w.frames ++ more ∧ more.length ≤ 1 := by
    intro s answers origin op reply method hlog
    refine ⟨(s.answer answers origin op reply method).1, ?_, ?_⟩
    · rw [world.frames, hlog, frames_of_append, frames_of_passed, world.frames]
    · unfold server.answer
      split
      · exact emitted_length answers origin reply method
      · exact Nat.zero_le 1
  -- the ways in which a step writes to the log; three of them pass frames
  rcases hstep.log_cases with
    hlog | ⟨answers, wire, -, -, -, hlog⟩ | ⟨req, op, -, -, hlog⟩ |
      ⟨req, op, answers, -, -, hlog⟩ | ⟨op, -, -, hlog⟩ | ⟨item, -, -, -, -, hlog⟩ |
      ⟨item, reply, answers, -, -, -, -, hlog⟩
  · exact hnone [] (hlog.trans (List.append_nil _).symm) rfl
  · refine ⟨(w.server.receive answers wire).frames, ?_, ?_⟩
    · rw [world.frames, hlog, frames_of_append, frames_of_events, world.frames]
    · rcases received_one (w.server.receive_received answers wire) with
        ⟨hone, -⟩ | ⟨-, -, hnil, -⟩
      · exact hone
      · rw [hnil]
        exact Nat.zero_le 1
  · exact hnone _ hlog rfl
  · exact hanswer _ _ _ _ _ _ hlog
  · exact hnone _ hlog rfl
  · exact hnone _ hlog rfl
  · exact hanswer _ _ _ _ _ _ hlog

/-- A step adds one accepted message at most. -/
theorem world.Step.accepted_grows (hstep : world.Step w a t) :
    ∃ more, t.accepted = w.accepted ++ more ∧ more.length ≤ 1 := by
  obtain ⟨more, hframes, hone⟩ := hstep.frames_grow
  refine ⟨(more.filter (·.accepted)).map frame.wire, ?_, ?_⟩
  · rw [world.accepted, hframes, List.filter_append, List.map_append, world.accepted]
  · rw [List.length_map]
    exact Nat.le_trans (List.length_filter_le _ _) hone

end Texts

/-! ## What is on the way

No message is lost or made up between the two ends, and the messages with an ID are the
requests of the client's calls, each once.

`paired` compares lists. The texts the server has received, and the one its reader holds, are
the part of the outbox that was delivered; what is in the outbox or still to be sent and has an
ID is a request of the client, and there are as many under each ID as were made with it. -/

/-- A request is read with the ID it was sent under. -/
theorem failure_id_request {req : request} (h : req.id ≠ .null) :
    failure_id req.to_json = req.id := by
  have hfind : req.to_json.find? "id" = some req.id.to_json := by
    rw [request.find?_to_json]
    simp
  rw [failure_id, hfind]
  cases hid : req.id with
  | null => exact absurd hid h
  | _ => rfl

/-- A notification has none. -/
theorem failure_id_notification (n : notification) : failure_id n.to_json = .null := by
  have hfind : n.to_json.find? "id" = none := by
    rw [notification.find?_to_json]
    simp
  rw [failure_id, hfind]

/-- What is on the way: the delivered messages were received, those that are heard were
accepted, and what the client sent with an ID are its requests, each once. -/
structure paired (p : pairing) : Prop where
  texts : received_wires p.server.log ++ p.server.reader.text = p.outbox.take p.delivered
  delivered : p.delivered ≤ p.outbox.length
  heard : p.heard ≤ p.server.accepted.length
  requests : ∀ wire ∈ p.sent, failure_id wire ≠ .null →
    ∃ req ∈ p.client.requests, wire = req.to_json ∧ req.jsonrpc = "2.0"
  ids : ∀ id ≠ .null,
    (p.sent.map failure_id).count id = (p.client.requests.map request.id).count id

section Paired

variable {handler : Option (String → Option json → Except error json)} {limit : Nat}
  {configured : Bool} {p q : pairing} {a : pairing_action}

/-- What the server's transport accepted are responses. -/
theorem accepted_response {w : world} (h : (server_runs limit).Reachable w) {wire : json}
    (hwire : wire ∈ w.accepted) : ∃ r : response, wire = r.to_json := by
  obtain ⟨f, hf, rfl⟩ := List.mem_map.mp hwire
  exact session_responses h f (List.mem_filter.mp hf).1

/-- A step of the server, with what it was called with. -/
theorem paired.serves (h : paired p) {w : world} {a : server_action} {n : Nat}
    (hstep : world.Step p.server a w)
    (hwithin : n ≤ p.outbox.length)
    (htake : p.outbox.take n = p.outbox.take p.delivered ++ a.text) :
    paired { p with server := w, delivered := n } where
  texts := by
    have hgone := hstep.texts
    rw [h.texts] at hgone
    exact hgone.trans htake.symm
  delivered := hwithin
  heard := by
    obtain ⟨more, hmore, -⟩ := hstep.accepted_grows
    show p.heard ≤ w.accepted.length
    rw [hmore, List.length_append]
    exact Nat.le_add_right_of_le h.heard
  requests := h.requests
  ids := h.ids

/-- The client sends something that has no ID, a notification or nothing at all, so under no ID
is anything more counted. -/
theorem paired.sends (h : paired p) (client : client_run)
    (hclient : client.requests = p.client.requests) {more : List json}
    (hmore : ∀ wire ∈ more, failure_id wire = .null) {n : Nat}
    (hheard : n ≤ p.server.accepted.length) :
    paired { p with client := client, sending := p.sending ++ more, heard := n } where
  texts := h.texts
  delivered := h.delivered
  heard := hheard
  requests := by
    intro wire hwire hid
    show ∃ req ∈ client.requests, _
    rw [hclient]
    rw [pairing.sent, ← List.append_assoc] at hwire
    rcases List.mem_append.mp hwire with hold | hnew
    · exact h.requests wire hold hid
    · exact absurd (hmore wire hnew) hid
  ids := by
    intro id hid
    show ((p.outbox ++ (p.sending ++ more)).map failure_id).count id =
      (client.requests.map request.id).count id
    have hnone : (more.map failure_id).count id = 0 := by
      refine List.count_eq_zero_of_not_mem fun hmem => ?_
      obtain ⟨wire, hwire, heq⟩ := List.mem_map.mp hmem
      exact hid (heq.symm.trans (hmore wire hwire))
    rw [← List.append_assoc, List.map_append, List.count_append, hnone, hclient]
    exact h.ids id hid

/-- The account is kept by every step: a message moves on by one place, or is made. -/
theorem paired.step (h : paired p) (hserver : (server_runs limit).Reachable p.server)
    (hstep : pairing.Step configured p a q) : paired q := by
  cases hstep with
  | send_request method params =>
      -- the ID it drew
      have hid : failure_id (p.client.client.send_request method params).2.to_json =
          (p.client.client.send_request method params).2.id := failure_id_request nofun
      refine ⟨h.texts, h.delivered, h.heard, ?_, ?_⟩
      · intro wire hwire hnull
        rw [pairing.sent, ← List.append_assoc] at hwire
        rcases List.mem_append.mp hwire with hold | hnew
        · obtain ⟨req, hreq, heq⟩ := h.requests wire hold hnull
          exact ⟨req, List.mem_append_left _ hreq, heq⟩
        · exact ⟨_, List.mem_append_right _ (List.mem_singleton_self _),
            List.mem_singleton.mp hnew, rfl⟩
      · intro id hnull
        have hsent : (p.outbox ++ (p.sending ++
              [(p.client.client.send_request method params).2.to_json])).map failure_id =
            p.sent.map failure_id ++ [(p.client.client.send_request method params).2.id] := by
          rw [← List.append_assoc, List.map_append, List.map_singleton, hid, pairing.sent]
        have hrequests : (p.client.step (.send_request method params)).requests.map request.id =
            p.client.requests.map request.id ++
              [(p.client.client.send_request method params).2.id] := List.map_append
        show List.count id (List.map failure_id _) = List.count id (List.map request.id _)
        rw [pairing.sent, hsent, hrequests, List.count_append, List.count_append, h.ids id hnull]
  | send_notification method params =>
      refine h.sends p.client rfl ?_ h.heard
      intro wire hwire
      rw [List.mem_singleton.mp hwire]
      exact failure_id_notification _
  | @transport_send i wire hsending =>
      -- the same messages in another order
      have hperm : ({ p with sending := p.sending.eraseIdx i, outbox := p.outbox ++ [wire] } :
          pairing).sent.Perm p.sent := by
        obtain ⟨hi, hwire⟩ := List.getElem?_eq_some_iff.mp hsending
        show ((p.outbox ++ [wire]) ++ p.sending.eraseIdx i).Perm (p.outbox ++ p.sending)
        rw [List.append_assoc, ← hwire]
        exact (List.getElem_cons_eraseIdx_perm hi).append_left p.outbox
      refine ⟨?_, ?_, h.heard, ?_, ?_⟩
      · show _ = (p.outbox ++ [wire]).take p.delivered
        rw [List.take_append_of_le_length h.delivered]
        exact h.texts
      · show p.delivered ≤ (p.outbox ++ [wire]).length
        rw [List.length_append]
        exact Nat.le_add_right_of_le h.delivered
      · intro text htext
        exact h.requests text (hperm.mem_iff.mp htext)
      · intro id hid
        rw [(hperm.map failure_id).count_eq id]
        exact h.ids id hid
  | @deliver wire w hnext hstep =>
      obtain ⟨hlt, hwire⟩ := List.getElem?_eq_some_iff.mp hnext
      refine h.serves hstep hlt ?_
      rw [List.take_add_one, hnext]
      rfl
  | serve a hdeliver hthrow happlies hstep =>
      refine h.serves hstep h.delivered ?_
      have htext : a.text = [] := by
        cases a with
        | deliver wire => exact absurd rfl (hdeliver wire)
        | _ => rfl
      rw [htext, List.append_nil]
  | @hear wire hnext =>
      obtain ⟨hlt, hwire⟩ := List.getElem?_eq_some_iff.mp hnext
      obtain ⟨r, hr⟩ := accepted_response hserver (hwire ▸ List.getElem_mem hlt)
      have hsent : (p.client.client.handle_message wire).sent = [] :=
        handle_response_sent _ (hr ▸ r.to_json_method)
      rw [hsent]
      exact h.sends (p.client.step (.on_message wire)) rfl
        (fun _ hmem => absurd hmem List.not_mem_nil) hlt

/-- So it holds in every reachable state of the pair, by induction over the steps from two ends
that have said nothing. -/
theorem pairing_paired (h : (pairings handler limit configured).Reachable p) : paired p := by
  refine h.invariant (P := paired) ?_ ?_
  · rintro p ⟨hclient, ⟨-, info, resources, prompts, tools, hserver⟩, hsending, houtbox,
      hdelivered, hheard⟩
    refine ⟨?_, ?_, ?_, ?_, ?_⟩
    · rw [hserver, houtbox, List.take_nil]
      rfl
    · rw [hdelivered]
      exact Nat.zero_le _
    · rw [hheard]
      exact Nat.zero_le _
    · rw [pairing.sent, houtbox, hsending]
      nofun
    · intro id hid
      rw [pairing.sent, houtbox, hsending, hclient]
      rfl
  · intro p a q hp hpaired hstep
    exact hpaired.step (System.restrict_reachable (pairing_server hp)) hstep

end Paired

/-! ## Whose answer it is

A future is completed when a response with its ID is heard. That no other call has this ID is
the client's counter, as long as it has not come round; that there is no second answer under it
is the server's. So the calls that are ready and the messages that were heard correspond, and
this is kept from step to step.

The equivalence of `correlated` is between futures and the frames that were heard: a future that
is ready has a frame that made it so, and a frame under the ID of a call has made its future
ready. No future is broken, as long as no ID is drawn twice. -/

/-- What the client was called with. -/
def pairing.taken (p : pairing) : List json := p.server.accepted.take p.heard

/-- The message is a response to the request, under the signed ID it was sent with. -/
def responds (req : request) (wire : json) (outcome : Except error json) : Prop :=
  failure_id wire = req.id ∧
    ∃ id : Int64, req.id = .int64 id ∧ response_to wire = some (id.toInt, outcome)

/-- A ready call was answered by what the client heard, and what it heard has made its call
ready. -/
structure correlated (p : pairing) : Prop where
  answered : ∀ (call : Nat) outcome, p.client.client.futures[call]? = some (.ready outcome) →
    ∃ wire ∈ p.taken, ∃ req, p.client.requests[call]? = some req ∧ responds req wire outcome
  completes : ∀ wire ∈ p.taken, ∀ (call : Nat) req, p.client.requests[call]? = some req →
    failure_id wire = req.id → ∃ outcome, p.client.client.futures[call]? = some (.ready outcome)
  /-- No promise is destroyed before it is satisfied. -/
  whole : ∀ call : Nat, p.client.client.futures[call]? ≠ some .broken

section Correlated

variable {handler : Option (String → Option json → Except error json)} {limit : Nat}
  {configured : Bool} {p q : pairing} {a : pairing_action}

/-- Of an ID there are no more frames than calls. -/
theorem paired.frames_count (h : paired p) (hs : (session_runs limit configured).Reachable p.server)
    {id : json_rpc_id} (hid : id ≠ .null) :
    (p.server.frames.map frame.id).count id ≤ (p.client.requests.map request.id).count id := by
  have hreceived : (received_wires p.server.log).Sublist p.sent := by
    have hpart : received_wires p.server.log <+: p.outbox.take p.delivered := by
      rw [← h.texts]
      exact List.prefix_append _ _
    exact (hpart.sublist.trans (List.take_sublist _ _)).trans (List.sublist_append_left _ _)
  calc (p.server.frames.map frame.id).count id
    _ ≤ p.server.requests id := session_correlated hs hid
    _ ≤ (p.sent.map failure_id).count id := (hreceived.map failure_id).count_le id
    _ = (p.client.requests.map request.id).count id := h.ids id hid

/-- A message accepted under an ID is under that of a call. -/
theorem paired.accepted_id (h : paired p) (hs : (session_runs limit configured).Reachable p.server)
    {wire : json} (hwire : wire ∈ p.server.accepted) (hid : failure_id wire ≠ .null) :
    failure_id wire ∈ p.client.requests.map request.id := by
  obtain ⟨f, hf, rfl⟩ := List.mem_map.mp hwire
  have hmem : frame.id f ∈ p.server.frames.map frame.id :=
    List.mem_map_of_mem (List.mem_filter.mp hf).1
  exact List.count_pos_iff.mp
    (Nat.lt_of_lt_of_le (List.count_pos_iff.mpr hmem) (h.frames_count hs hid))

/-- The ends that the client does not see. -/
theorem correlated.elsewhere (h : correlated p) (hclient : q.client = p.client)
    (htaken : q.taken = p.taken) : correlated q := by
  refine ⟨?_, ?_, ?_⟩
  · rw [hclient, htaken]
    exact h.answered
  · rw [hclient, htaken]
    exact h.completes
  · rw [hclient]
    exact h.whole

/-- A step of the server changes nothing that the client has heard. -/
theorem correlated.served (h : correlated p) (hpaired : paired p) {w : world} {a : server_action}
    (hstep : world.Step p.server a w) {n : Nat} :
    correlated { p with server := w, delivered := n } := by
  obtain ⟨more, hmore, -⟩ := hstep.accepted_grows
  refine h.elsewhere rfl ?_
  show w.accepted.take p.heard = p.server.accepted.take p.heard
  rw [hmore, List.take_append_of_le_length hpaired.heard]

/-- A new call has an ID of its own, so nothing heard before answers it. -/
theorem correlated.sends (h : correlated p) (hpaired : paired p)
    (hs : (session_runs limit configured).Reachable p.server) (htable : promise_table p.client)
    {method : String} {params : Option json} {sending : List json}
    (hfew : p.client.requests.length < 2 ^ 64) :
    correlated
      { p with client := p.client.step (.send_request method params), sending := sending } := by
  have hpending := htable.sends_outstanding hfew method params
  -- the IDs are drawn in turn, and repeat only after 2^64 calls
  have hdistinct := (requests_distinct (htable.step (.send_request method params))).mpr
    (Nat.le_trans (Nat.le_of_eq List.length_append) hfew)
  obtain ⟨state, hfutures, -⟩ := send_request_futures p.client.client method params
  have hfutures' : (p.client.step (.send_request method params)).client.futures =
      p.client.client.futures ++ [state] := hfutures
  have hrequests : (p.client.step (.send_request method params)).requests =
      p.client.requests ++ [(p.client.client.send_request method params).2] := rfl
  -- so the new promise is pending, and no old one is displaced
  have hstate : state = .pending := by
    have hlast := hpending.2
    rw [hfutures', ← htable.futures, List.getElem?_concat_length] at hlast
    exact Option.some.inj hlast
  rw [hstate] at hfutures'
  refine ⟨?_, ?_, ?_⟩
  · intro call outcome hready
    rw [hfutures'] at hready
    rcases Places.of_concat hready with hold | ⟨-, hnew⟩
    · obtain ⟨wire, hwire, req, hreq, hresponds⟩ := h.answered call outcome hold
      exact ⟨wire, hwire, req, Places.concat_of hreq, hresponds⟩
    · cases hnew
  · intro wire hwire call req hreq hid
    rw [hrequests] at hreq
    rcases Places.of_concat hreq with hold | ⟨-, hnew⟩
    · obtain ⟨outcome, hready⟩ := h.completes wire hwire call req hold hid
      rw [hfutures']
      exact ⟨outcome, Places.concat_of hready⟩
    · -- its ID would be that of an earlier call
      have hnull : failure_id wire ≠ .null := by
        rw [hid, hnew]
        nofun
      -- a frame heard before answers a request the server received before
      have hearlier := hpaired.accepted_id hs (List.mem_of_mem_take hwire) hnull
      rw [hrequests, List.map_append, List.nodup_append] at hdistinct
      refine absurd rfl (hdistinct.2.2 _ hearlier _ ?_)
      rw [hid, hnew, List.map_singleton]
      exact List.mem_singleton_self _
  · intro call hbroken
    rw [hfutures'] at hbroken
    rcases Places.of_concat hbroken with hold | ⟨-, hnew⟩
    · exact h.whole call hold
    · cases hnew

/-- A pending call whose answer comes is completed by it. -/
theorem completes_pending (htable : promise_table p.client) {r : response} {call : Nat}
    {req : request} (hreq : p.client.requests[call]? = some req) (hid : r.id = req.id)
    (hpending : p.client.client.futures[call]? = some .pending) :
    ∃ outcome, (p.client.step (.on_message r.to_json)).client.futures[call]? =
      some (.ready outcome) := by
  have hsigned := htable.numbered call req hreq
  obtain ⟨outcome, hresponse⟩ := response_to_signed (hid.trans hsigned)
  have hmember : r.to_json.find? "id" = some (.number_integer (Int64.ofNat (call + 1))) := by
    rw [r.to_json_id, hid, hsigned]
    rfl
  have hmisses : ¬p.client.misses r.to_json := by
    rintro ⟨value, _, _, _, hvalue, -⟩
    rw [hmember] at hvalue
    cases hvalue
  have hstep := step_of_awaits htable ⟨hresponse, ⟨req, hreq, hsigned⟩, hpending⟩ hmisses
  refine ⟨outcome, ?_⟩
  rw [hstep]
  exact List.getElem?_set_self (List.getElem?_eq_some_iff.mp hpending).1

/-- A message that is heard completes the one call that has its ID, which was pending until
then. -/
theorem correlated.hears (h : correlated p) (htable : promise_table p.client) {r : response}
    (hnext : p.server.accepted[p.heard]? = some r.to_json) {sending : List json} :
    correlated
      { p with
        client := p.client.step (.on_message r.to_json)
        sending := sending
        heard := p.heard + 1 } := by
  -- hearing takes one more of the accepted frames
  have htaken : p.server.accepted.take (p.heard + 1) = p.taken ++ [r.to_json] := by
    rw [List.take_add_one, hnext]
    rfl
  have hmessage := htable.on_message r.to_json
  refine ⟨?_, ?_, ?_⟩
  · intro call outcome hready
    show ∃ wire ∈ p.server.accepted.take (p.heard + 1), _
    rw [htaken]
    have hbefore : p.client.client.futures[call]? = some (.ready outcome) →
        ∃ wire ∈ p.taken ++ [r.to_json], ∃ req, p.client.requests[call]? = some req ∧
          responds req wire outcome := by
      intro hold
      obtain ⟨wire, hwire, hreq⟩ := h.answered call outcome hold
      exact ⟨wire, List.mem_append_left _ hwire, hreq⟩
    rcases hmessage with ⟨res, id, call', hmethod, hres, hid, ho, heq⟩ | hsame
    · rw [heq] at hready ⊢
      rcases Places.of_set hready with ⟨-, hold⟩ | ⟨rfl, hnew⟩
      · exact hbefore hold
      · -- the call it completes
        cases hnew
        obtain ⟨req, hreq, hsigned⟩ := ho.1
        refine ⟨r.to_json, List.mem_append_right _ (List.mem_singleton_self _), req, hreq, ?_,
          id, hsigned, (awaits_of_response hmethod hres hid ho).1⟩
        rw [failure_id, hid, hsigned]
        rfl
    · rw [hsame] at hready ⊢
      exact hbefore hready
  -- every message heard has its call settled: an old one before, this one now
  · intro wire hwire call req hreq hid
    change wire ∈ p.server.accepted.take (p.heard + 1) at hwire
    change p.client.requests[call]? = some req at hreq
    rw [htaken] at hwire
    have hsettled : ∀ outcome, p.client.client.futures[call]? = some (.ready outcome) →
        ∃ outcome, (p.client.step (.on_message r.to_json)).client.futures[call]? =
          some (.ready outcome) :=
      fun outcome hready => ⟨outcome, step_settled htable hready _⟩
    rcases List.mem_append.mp hwire with hold | hnew
    · obtain ⟨outcome, hready⟩ := h.completes wire hold call req hreq hid
      exact hsettled outcome hready
    · rw [List.mem_singleton.mp hnew, failure_id_to_json] at hid
      have hlt : call < p.client.client.futures.length := by
        rw [htable.futures]
        exact (List.getElem?_eq_some_iff.mp hreq).1
      have hstate := List.getElem?_eq_getElem hlt
      cases hkind : p.client.client.futures[call] with
      | pending => exact completes_pending htable hreq hid (hkind ▸ hstate)
      | ready outcome => exact hsettled outcome (hkind ▸ hstate)
      -- no promise is broken while the client runs
      | broken => exact absurd (hkind ▸ hstate) (h.whole call)
  · intro call hbroken
    change (p.client.step (.on_message r.to_json)).client.futures[call]? = some .broken at hbroken
    rcases hmessage with ⟨res, id, call', -, -, -, -, heq⟩ | hsame
    · rw [heq] at hbroken
      rcases Places.of_set hbroken with ⟨-, hold⟩ | ⟨-, hnew⟩
      · exact h.whole call hold
      · cases hnew
    · rw [hsame] at hbroken
      exact h.whole call hbroken

/-- The number of calls does not fall. -/
theorem pairing.Step.requests_length (hstep : pairing.Step configured p a q) :
    p.client.requests.length ≤ q.client.requests.length := by
  cases hstep with
  | send_request method params => exact (List.sublist_append_left _ _).length_le
  | _ => exact Nat.le_refl _

/-- In every run with at most `2 ^ 64` calls: the induction needs the bound on all states
before, and has it from the last. -/
theorem pairing_correlated (h : (pairings handler limit configured).Reachable p) :
    p.client.requests.length ≤ 2 ^ 64 → correlated p := by
  refine h.invariant (P := fun p => p.client.requests.length ≤ 2 ^ 64 → correlated p) ?_ ?_
  · rintro p ⟨hclient, -⟩ -
    refine ⟨?_, ?_, ?_⟩ <;> rw [hclient]
    · nofun
    · nofun
    · nofun
  · intro p a q hp hcorrelated hstep hfew
    have hbefore := hcorrelated (Nat.le_trans hstep.requests_length hfew)
    have hpaired := pairing_paired hp
    cases hstep with
    | send_request method params =>
        have hlength : (p.client.step (.send_request method params)).requests.length =
            p.client.requests.length + 1 := List.length_append
        refine hbefore.sends hpaired (pairing_server hp) (pairing_client hp) ?_
        exact Nat.lt_of_lt_of_le (Nat.lt_of_lt_of_eq (Nat.lt_succ_self _) hlength.symm) hfew
    | send_notification | transport_send => exact hbefore.elsewhere rfl rfl
    | deliver hnext hstep => exact hbefore.served hpaired hstep
    | serve a hdeliver hthrow happlies hstep => exact hbefore.served hpaired hstep
    | @hear wire hnext =>
        obtain ⟨hlt, hwire⟩ := List.getElem?_eq_some_iff.mp hnext
        obtain ⟨r, rfl⟩ := accepted_response (System.restrict_reachable (pairing_server hp))
          (hwire ▸ List.getElem_mem hlt)
        exact hbefore.hears (pairing_client hp) hnext

end Correlated

/-! ## Every answer is the call's own

The other half is that the answer is to the request that the call has sent, and not to another
text with its ID. The texts with an ID that the server receives are the client's requests, so
the one that a frame answers is the one with that ID. -/

/-- The frame was passed on while the very text of the request was received, or for the
operation that was made for the request. -/
def answer_to (w : world) (req : request) (f : frame) : Prop :=
  f.origin = .received req.to_json ∨ ∃ op, f.answers op = true ∧ listed w.log req op

section Answers

variable {handler : Option (String → Option json → Except error json)} {limit : Nat}
  {configured : Bool} {p q : pairing} {a : pairing_action}

/-- A text the server received under the ID of a call is that call's request. -/
theorem paired.received_request (h : paired p)
    (hdistinct : (p.client.requests.map request.id).Nodup) {wire : json}
    (hwire : wire ∈ received_wires p.server.log) {req : request} (hreq : req ∈ p.client.requests)
    (hid : failure_id wire = req.id) (hnull : req.id ≠ .null) :
    wire = req.to_json ∧ req.jsonrpc = "2.0" := by
  have hmem : wire ∈ p.outbox.take p.delivered := by
    rw [← h.texts]
    exact List.mem_append_left _ hwire
  have hsent : wire ∈ p.sent := List.mem_append_left _ (List.mem_of_mem_take hmem)
  obtain ⟨req', hreq', rfl, hversion⟩ := h.requests wire hsent (hid ▸ hnull)
  have hid' : req'.id = req.id := by
    by_cases hnull' : req'.id = .null
    · -- it would have been read as a text without an ID
      have hread : failure_id req'.to_json = .null := by
        have hfind : req'.to_json.find? "id" = some .null := by
          rw [request.find?_to_json, hnull']
          simp [json_rpc_id.to_json]
        rw [failure_id, hfind]
        rfl
      exact absurd (hid.symm.trans hread) hnull
    · exact (failure_id_request hnull').symm.trans hid
  obtain rfl := List.inj_on_of_nodup_map hdistinct hreq' hreq hid'
  exact ⟨rfl, hversion⟩

/-- A request read from its own text is itself. -/
theorem decode_own {req req' : request} (hversion : req.jsonrpc = "2.0")
    (h : decode_message req.to_json = .ok (.request req')) : req' = req := by
  have hreads : reads_request req.to_json req' := by
    have hdecoded := decode_message_decoded req.to_json
    rw [h] at hdecoded
    cases hdecoded with
    | request _ hshape hreads => exact hreads
  exact hreads.unique (request.reads_own hversion)

/-- The answer to a call is to the request of that call. -/
theorem paired.answer_origin (h : paired p)
    (hs : (session_runs limit configured).Reachable p.server)
    (hdistinct : (p.client.requests.map request.id).Nodup) {req : request}
    (hreq : req ∈ p.client.requests) (hnull : req.id ≠ .null) {f : frame}
    (hf : f ∈ p.server.frames) (hid : f.id = req.id) : answer_to p.server req f := by
  have hechoing := session_echoing (session_applies hs)
  have hechoes := hechoing.frames f hf
  have hop : ∀ op, f.answers op = true → answer_to p.server req f := by
    intro op hanswers
    have hmade := echoes_op hechoes hanswers
    obtain ⟨req', hlisted, hid'⟩ := hechoing.made op hmade.1
    obtain ⟨wire, protocol, hdecode, hlog⟩ := hlisted
    have hwire : wire ∈ received_wires p.server.log :=
      List.mem_filterMap.mpr ⟨.received wire protocol, hlog.subset List.mem_cons_self, rfl⟩
    have hread : failure_id wire = req.id := by
      rw [failure_id_of_request hdecode, hid', ← hmade.2, hid]
    obtain ⟨rfl, hversion⟩ := h.received_request hdistinct hwire hreq hread hnull
    obtain rfl := decode_own hversion hdecode
    exact .inr ⟨op, hanswers, _, protocol, hdecode, hlog⟩
  cases horigin : f.origin with
  | received wire =>
      unfold echoes at hechoes
      rw [horigin] at hechoes
      obtain ⟨hwire, hread | hread⟩ := hechoes
      · have hreq' := h.received_request hdistinct hwire hreq (hread.symm.trans hid) hnull
        exact .inl (horigin.trans (congrArg frame_origin.received hreq'.1))
      · exact absurd (hid.symm.trans hread) hnull
  | rejection op => exact hop op ((f.answers_iff op).mpr (by rw [frame.op?, horigin]; rfl))
  | worker op => exact hop op ((f.answers_iff op).mpr (by rw [frame.op?, horigin]; rfl))

/-- In every run of the two, with at most `2 ^ 64` calls: a future that is ready was
completed by a response the server's transport accepted, which carries its outcome under the
ID of its call, is the only frame the server ever made under that ID, and answers the request
of that call and no other. -/
theorem pairing_answers (h : (pairings handler limit configured).Reachable p)
    (hfew : p.client.requests.length ≤ 2 ^ 64) {call : Nat} {outcome : Except error json}
    (hready : p.client.client.futures[call]? = some (.ready outcome)) :
    ∃ req, p.client.requests[call]? = some req ∧
      ∃ f ∈ p.server.frames, f.accepted = true ∧ responds req f.wire outcome ∧
        (p.server.frames.map frame.id).count req.id = 1 ∧ answer_to p.server req f := by
  have hpaired := pairing_paired h
  have hs := pairing_server h
  have hdistinct := (requests_distinct (pairing_client h)).mpr hfew
  obtain ⟨wire, hwire, req, hreq, hresponds⟩ :=
    (pairing_correlated h hfew).answered call outcome hready
  obtain ⟨f, hf, rfl⟩ := List.mem_map.mp (List.mem_of_mem_take hwire)
  obtain ⟨hframe, haccepted⟩ := List.mem_filter.mp hf
  have hid : f.id = req.id := hresponds.1
  have hnull : req.id ≠ .null := by
    obtain ⟨-, id, hsigned, -⟩ := hresponds
    rw [hsigned]
    nofun
  have hmem : req ∈ p.client.requests := List.mem_of_getElem? hreq
  have hone : 0 < (p.server.frames.map frame.id).count req.id :=
    List.count_pos_iff.mpr (hid ▸ List.mem_map_of_mem hframe)
  have hmost := hpaired.frames_count hs hnull
  have hcalls := List.nodup_iff_count_le_one.mp hdistinct req.id
  exact ⟨req, hreq, f, hframe, haccepted, hresponds, by omega,
    hpaired.answer_origin hs hdistinct hmem hnull hframe hid⟩

end Answers

/-! ## Every call is answered

Left to themselves, with no new call, the two ends come to rest. The steps that are left are
those of the server, and for each message on the way those it will cost when it arrives. At rest
nothing is on the way; a call that is still pending would have a request that was received and
not answered, which only a cancellation or the end of the session explains.

`settled` is about both ends: the server rests, nothing is being sent, all that was sent is
delivered and all that was accepted is heard. Then each call has its outcome, or its operation
was cancelled, where the server still serves and the counter has not come round. -/

/-- Any step but a new call of the client and what is done to the server from outside. -/
def pairing_own : pairing → pairing_action → pairing → Prop
  | _, .send_request _ _, _ => False
  | _, .send_notification _ _, _ => False
  | _, .serve (.deliver _), _ => True
  | p, .serve a, q => own_step p.server a q.server
  | _, _, _ => True

/-- A message that is delivered gives the server twenty steps, and each of these may make a
frame to be heard. -/
def pairing.steps_left (p : pairing) : Nat :=
  43 * p.sending.length + 42 * (p.outbox.length - p.delivered) + 2 * p.server.steps_left +
    (p.server.accepted.length - p.heard)

/-- Nothing is under way, and every call has its answer; unless it was cancelled, or the
server was stopped. -/
structure pairing.settled (p : pairing) : Prop where
  rest : p.server.at_rest
  sending : p.sending = []
  delivered : p.delivered = p.outbox.length
  heard : p.taken = p.server.accepted
  answered : p.client.requests.length ≤ 2 ^ 64 → p.server.server.serving = true →
    ∀ (call : Nat) req, p.client.requests[call]? = some req →
      (∃ outcome, p.client.client.futures[call]? = some (.ready outcome)) ∨
        ∃ op < p.server.server.operations.length, p.server.server.id_of op = req.id ∧
          p.server.server.cancelled op = true

section Settled

variable {handler : Option (String → Option json → Except error json)} {limit : Nat}
  {configured : Bool} {p q : pairing} {a : pairing_action}

/-- A step of the server that is not a delivery is one of its own. -/
theorem own_of_serve {a : server_action} (h : pairing_own p (.serve a) q)
    (hdeliver : ∀ wire, a ≠ .deliver wire) : own_step p.server a q.server := by
  cases a with
  | deliver wire => exact absurd rfl (hdeliver wire)
  | _ => exact h

/-- Every step of the two ends spends one of those that are left: a delivery is paid for by the
message that is no longer on the way. -/
theorem pairing.Step.spends (h : paired p) (hserver : (server_runs limit).Reachable p.server)
    (hown : pairing_own p a q) (hstep : pairing.Step configured p a q) :
    q.steps_left < p.steps_left := by
  have hdelivered := h.delivered
  have hheard := h.heard
  cases hstep with
  | send_request | send_notification => exact hown.elim
  -- a message goes from one way to the next, which is nearer to its end
  | @transport_send i wire hsending =>
      have hi := (List.getElem?_eq_some_iff.mp hsending).1
      have hlength := List.length_eraseIdx_of_lt hi
      have houtbox : (p.outbox ++ [wire]).length = p.outbox.length + 1 := List.length_append
      simp only [pairing.steps_left, hlength, houtbox]
      omega
  | @deliver wire w hnext hstep =>
      have hlt := (List.getElem?_eq_some_iff.mp hnext).1
      cases hstep with
      | deliver _ hreader =>
          have hbefore : p.server.reader.steps_left = 0 := by rw [hreader, reader_at.steps_left]
          have hleft : { p.server with reader := .receiving wire }.steps_left =
              p.server.steps_left + 20 := by
            simp only [world.steps_left, hbefore, left_receiving]
            omega
          have haccepted : { p.server with reader := .receiving wire }.accepted =
              p.server.accepted := rfl
          simp only [pairing.steps_left, hleft, haccepted]
          omega
  -- a step of the server may pass one frame, which still has to be heard
  | @serve w a hdeliver hthrow happlies hstep =>
      have hspent : w.steps_left < p.server.steps_left :=
        hstep.spends (own_of_serve hown hdeliver)
      obtain ⟨more, hmore, hone⟩ := hstep.accepted_grows
      have hlength : w.accepted.length = p.server.accepted.length + more.length := by
        rw [hmore, List.length_append]
      simp only [pairing.steps_left]
      omega
  -- an accepted frame is a response, to which the client sends nothing back
  | @hear wire hnext =>
      obtain ⟨hlt, hwire⟩ := List.getElem?_eq_some_iff.mp hnext
      obtain ⟨r, hr⟩ := accepted_response hserver (hwire ▸ List.getElem_mem hlt)
      have hsent : (p.client.client.handle_message wire).sent = [] :=
        handle_response_sent _ (hr ▸ r.to_json_method)
      simp only [pairing.steps_left, hsent, List.append_nil]
      omega

/-- A request asks for an answer, well formed or not. -/
theorem expects_request (req : request) : expects req.to_json := by
  have hid : req.to_json.find? "id" = some req.id.to_json := by
    rw [request.find?_to_json]
    simp
  have hmethod : req.to_json.find? "method" = some (.string req.method) := by
    rw [request.find?_to_json]
    simp
  have hdecoded := decode_message_decoded req.to_json
  cases hdecode : decode_message req.to_json with
  | error diagnostic =>
      refine .inr ⟨⟨diagnostic, hdecode⟩, ?_⟩
      rw [server.is_notification, json.contains_eq_isSome _ "id", hid]
      simp
  | ok m =>
      rw [hdecode] at hdecoded
      cases hdecoded with
      | request req' => exact .inl ⟨req', hdecode⟩
      | notification n hshape =>
          rw [hshape.id] at hid
          cases hid
      | response r hshape =>
          rw [hshape.no_method] at hmethod
          cases hmethod

/-- With both queues empty the server has received the request of every call. -/
theorem paired.received (h : paired p) (htable : promise_table p.client)
    (hrest : p.server.reader = .idle) (hsending : p.sending = [])
    (hdelivered : p.delivered = p.outbox.length) {call : Nat} {req : request}
    (hreq : p.client.requests[call]? = some req) :
    ∃ wire ∈ received_wires p.server.log, failure_id wire = req.id ∧ expects wire := by
  have hnull : req.id ≠ .null := by
    rw [htable.numbered call req hreq]
    nofun
  have hall : received_wires p.server.log = p.sent := by
    have htexts := h.texts
    rw [hrest, hdelivered, List.take_length] at htexts
    rw [pairing.sent, hsending, List.append_nil, ← htexts]
    exact (List.append_nil _).symm
  have hcount : 0 < (p.sent.map failure_id).count req.id := by
    rw [h.ids req.id hnull]
    exact List.count_pos_iff.mpr (List.mem_map_of_mem (List.mem_of_getElem? hreq))
  obtain ⟨wire, hwire, hid⟩ := List.mem_map.mp (List.count_pos_iff.mp hcount)
  obtain ⟨req', -, rfl, -⟩ := h.requests wire hwire (hid ▸ hnull)
  exact ⟨_, hall ▸ hwire, hid, expects_request req'⟩

/-- Where neither end has a step left the pair is settled, with the server's own account of its
operations. -/
theorem pairing_settled (h : (pairings handler limit configured).Reachable p)
    (hstuck : (pairings handler limit configured).Stuck pairing_own p) : p.settled := by
  have hs := pairing_server h
  have hpaired := pairing_paired h
  have htable := pairing_client h
  -- the server alone is stuck as well, up to messages still to be delivered
  have hstill : (session_runs limit configured).Stuck own_step p.server := by
    intro a w hown hstep
    have hdeliver : ∀ wire, a ≠ .deliver wire := by
      rintro wire rfl
      exact hown
    refine hstuck (.serve a) { p with server := w } ?_
      (.serve a hdeliver hstep.1.1 hstep.1.2 hstep.2)
    cases a with
    | deliver wire => exact absurd rfl (hdeliver wire)
    | _ => exact hown
  have hrest := stuck_at_rest (System.restrict_reachable hs) (calm_of_stuck hstill)
  -- and nothing is left on any of the three ways
  have hsending : p.sending = [] := by
    cases hlist : p.sending with
    | nil => rfl
    | cons wire rest =>
        have hfirst : p.sending[0]? = some wire := by rw [hlist]; rfl
        exact absurd (.transport_send hfirst) (hstuck .transport_send _ trivial)
  have hdelivered : p.delivered = p.outbox.length := by
    by_contra hleft
    have hlt : p.delivered < p.outbox.length :=
      Nat.lt_of_le_of_ne hpaired.delivered hleft
    exact absurd (.deliver (List.getElem?_eq_getElem hlt) (.deliver _ hrest.reader))
      (hstuck (.serve (.deliver _)) _ trivial)
  have hheard : p.taken = p.server.accepted := by
    refine List.take_of_length_le (Nat.le_of_not_lt fun hlt => ?_)
    exact absurd (.hear (List.getElem?_eq_getElem hlt)) (hstuck .hear _ trivial)
  refine ⟨hrest, hsending, hdelivered, hheard, fun hfew hserving call req hreq => ?_⟩
  have hreplied := replied_of_rest hs hrest
  -- the call's request was received; the server replied or counts it as cancelled
  obtain ⟨wire, hwire, hid, hexpects⟩ :=
    hpaired.received htable hrest.reader hsending hdelivered hreq
  rcases hreplied.replied hserving wire hwire hexpects with
    ⟨f, hf, haccepted, hframe⟩ | ⟨op, hop, hmade, hcancelled⟩
  · left
    have hmem : f.wire ∈ p.taken := by
      rw [hheard]
      exact List.mem_map_of_mem (List.mem_filter.mpr ⟨hf, haccepted⟩)
    exact (pairing_correlated h hfew).completes f.wire hmem call req hreq (hframe.trans hid)
  · exact .inr ⟨op, hop, hmade.trans hid, hcancelled⟩

/-- The steps left are a budget for the pair's own steps. -/
theorem pairing_budget :
    (pairings handler limit configured).Budget pairing_own pairing.steps_left :=
  fun _ _ _ hp hown hstep =>
    hstep.spends (pairing_paired hp) (System.restrict_reachable (pairing_server hp)) hown

/-- From every state of the two ends, however many calls are under way: their own steps are
no more than are left, and where none is possible every message was delivered and heard and
every call is answered, if the server still serves, or its operation was cancelled. -/
theorem pairing_completes (h : (pairings handler limit configured).Reachable p) :
    (pairings handler limit configured).Completes pairing_own p.steps_left pairing.settled p :=
  pairing_budget.completes h fun _ ht hstuck => pairing_settled ht hstuck

end Settled

/-! ## A handshake

The client sends one `initialize`, the server answers it, and the client hears the answer. Both
theorems are applied in the state after that. -/

namespace pair_session

def greeting : request where
  id := .int64 1
  method := "initialize"
  params := some client.initialize_params

def welcome : response where
  id := .int64 1
  result := some session.fresh.initialize_result
  err := none

def asked : client_run :=
  (client_run.start none).step (.send_request "initialize" (some client.initialize_params))

/-- The client has asked, the server has answered, and the client has heard it. -/
def met : pairing where
  client := asked.step (.on_message welcome.to_json)
  server :=
    { session.opened with
      server := { session.fresh with protocol_ := .await_initialized }
      log := [.received greeting.to_json .await_initialize_,
        .passed ⟨.received greeting.to_json, welcome.to_json, true⟩] }
  sending := []
  outbox := [greeting.to_json]
  delivered := 1
  heard := 1

/-- The greeting goes one way, and its result comes back. -/
theorem reaches_met : (pairings none 1 false).Reachable met := by
  have h0 : (pairings none 1 false).Reachable ⟨.start none, session.opened, [], [], 0, 0⟩ :=
    .of_init ⟨rfl, ⟨by decide, {}, [], [], [], rfl⟩, rfl, rfl, rfl, rfl⟩
  have h1 := h0.step (pairing.Step.send_request "initialize" (some client.initialize_params))
  have h2 : (pairings none 1 false).Reachable
      ⟨asked, session.opened, [], [greeting.to_json], 0, 0⟩ :=
    h1.step (@pairing.Step.transport_send _ _ 0 greeting.to_json rfl)
  have h3 := h2.step (@pairing.Step.deliver _ _ greeting.to_json _ rfl (.deliver _ rfl))
  have hcalm : session.calm.no_throw := ⟨rfl, by decide⟩
  have h4 : (pairings none 1 false).Reachable
      { met with client := asked, heard := 0 } :=
    h3.step (.serve (.receive session.calm) nofun hcalm trivial
      (@world.Step.receive _ greeting.to_json session.calm rfl))
  exact h4.step (@pairing.Step.hear _ _ welcome.to_json rfl)

end pair_session

theorem pairing_answers_met :
    ∃ req, pair_session.met.client.requests[0]? = some req ∧
      ∃ f ∈ pair_session.met.server.frames, f.accepted = true ∧
        responds req f.wire (.ok session.fresh.initialize_result) ∧
        (pair_session.met.server.frames.map frame.id).count req.id = 1 ∧
        answer_to pair_session.met.server req f :=
  pairing_answers pair_session.reaches_met (by decide) rfl

theorem pairing_completes_met :
    (pairings none 1 false).Completes pairing_own pair_session.met.steps_left pairing.settled
      pair_session.met :=
  pairing_completes pair_session.reaches_met

end SynapseMcp
