/-
`server.hpp`: the server's state under its mutex, one function for each section
that holds it on the way of a request.

A `shared_ptr<operation>` is an index into `operations`, every operation made so
far in the order of admission; `inflight_` holds the indices that have not been
completed. An operation outlives its entry in `inflight_`, because the captured
invocation and the reader keep it alive, so its flag has to.

What a section reads from outside the server is an argument. `emit_answers` says
how one call of `emit` fares: whether encoding throws, which encodings fit the
frame limit, and what `transport_send_` answers. The registries are read by
`initialize`, which advertises what is registered.
-/
import SynapseMcp.MessageDecoder
import SynapseMcp.OwnedExecutor

set_option autoImplicit false

namespace SynapseMcp

/-! ## The state

`state_` is the lifecycle of the server, which `start()` and `stop()` move; `protocol_` is how
far the session with the client has come, which the reader moves. The two are independent but
for `stop()`, which closes the session too. Everything in this part is read and written with the
mutex held, so one section is one step of whoever runs it. -/

inductive lifecycle where
  | configuring
  | starting
  | running
  | stopping
  | stopped
  deriving DecidableEq

/-- How far the session is: nothing was negotiated, the result of `initialize` was given and its
notification is awaited, requests are served, or nothing more is. -/
inductive connection where
  | await_initialize_
  | await_initialized
  | ready
  | closing
  deriving DecidableEq

structure server_info where
  name : String := "synapse-mcp-server"
  version : String := "0.3.0"

/-- An admitted request: its ID, and the flag that says that its reply is not wanted any more.
The flag is set and never cleared. -/
structure operation where
  id : json_rpc_id
  cancelled : Bool := false

structure server where
  info_ : server_info
  resources_ : List (String × resource)
  prompts_ : List (String × prompt)
  tools_ : List (String × tool)
  state_ : lifecycle
  protocol_ : connection
  operations : List operation
  inflight_ : List Nat

/-! ## Replies

`emit` encodes a reply, passes it on and says how that went. A reply whose frame is too long is
replaced by a shorter one that says so, once; and the replacement of a successful `initialize`
counts as a failure even where it was sent, because the client is then told an error while the
server has moved on. -/

/-- An error response with no data, for one of the codes of the source. -/
def failure (id : json_rpc_id) (code : error_code) (message : String) : response where
  id := id
  result := none
  err := some { code := code.value, message, data := none }

/-- The fixed result of a tool whose output was rejected. -/
def tool_failure (id : json_rpc_id) : response where
  id := id
  result := some (json.object_of
    [("content", .array [json.object_of
        [("type", .string "text"), ("text", .string "Tool output rejected")]]),
      ("isError", .boolean true)])
  err := none

/-- The queue-full reply: code -32052 and the stable reason. -/
def queue_full_reply (id : json_rpc_id) : response where
  id := id
  result := none
  err := some
    { code := -32052
      message := "Request queue is full"
      data := some (json.object_of [("reason", .string "queue_full")]) }

/-- What `transport_send_` does with a frame: it takes it, returns false, or throws. -/
inductive send_outcome where
  | accepted
  | refused
  | threw
  deriving DecidableEq

/-- What one call of `emit` meets outside the server. -/
structure emit_answers where
  encode_throws : Bool
  frame_fits : json → Bool
  send : send_outcome

/-- The encoder and the transport may report failure, but nothing throws. -/
def emit_answers.no_throw (a : emit_answers) : Prop :=
  a.encode_throws = false ∧ a.send ≠ .threw

inductive emit_outcome where
  /-- `emit` returned true. -/
  | sent
  /-- `emit` returned false. -/
  | failed
  | threw
  deriving DecidableEq

/-- What `emit` makes of the answer of `transport_send_`. -/
def send_outcome.ended : send_outcome → emit_outcome
  | .accepted => .sent
  | .refused => .failed
  | .threw => .threw

/-- The reply `emit` puts in place of one that does not fit the frame limit. -/
def replacement (reply : response) (method : String) : response :=
  if method = "tools/call" && reply.result.isSome then tool_failure reply.id
  else failure reply.id .internal_error "Internal error"

/-- `emit`: the frame it passed to `transport_send_`, if it got that far, and how it
ended. A frame that does not fit is replaced once. -/
def emit (a : emit_answers) (reply : response) (method : String) :
    Option json × emit_outcome :=
  if a.encode_throws then (none, .threw)
  else if a.frame_fits reply.to_json then (some reply.to_json, a.send.ended)
  else
    let failed_initialization := method = "initialize" && reply.result.isSome
    let wire := (replacement reply method).to_json
    if a.frame_fits wire then
      (some wire,
        if a.send = .accepted && failed_initialization then .failed else a.send.ended)
    else (none, .failed)

/-- The four ways through `emit`: the encoder throws, nothing fits, the reply was passed on, or
its replacement was. The last two end as the transport answers, but for the replaced result of
`initialize`. -/
theorem emit_cases (a : emit_answers) (reply : response) (method : String) :
    (a.encode_throws = true ∧ emit a reply method = (none, .threw)) ∨
      emit a reply method = (none, .failed) ∨
      emit a reply method = (some reply.to_json, a.send.ended) ∨
      emit a reply method = (some (replacement reply method).to_json,
        if a.send = .accepted && (method = "initialize" && reply.result.isSome) then .failed
        else a.send.ended) := by
  unfold emit
  split
  · rename_i hthrows
    exact .inl ⟨hthrows, rfl⟩
  split
  · exact .inr (.inr (.inl rfl))
  dsimp only
  split
  · exact .inr (.inr (.inr rfl))
  · exact .inr (.inl rfl)

/-- Without exceptions `emit` ends, and passes nothing on only if it fails. -/
theorem emit_no_throw {a : emit_answers} {reply : response} {method : String} (h : a.no_throw) :
    (emit a reply method).2 ≠ .threw ∧
      ((emit a reply method).1 = none → (emit a reply method).2 = .failed) := by
  obtain ⟨hencode, hsend⟩ := h
  have hended : a.send.ended ≠ .threw := by
    cases hs : a.send with
    | threw => exact absurd hs hsend
    | accepted | refused => simp [send_outcome.ended]
  -- only the first case throws by itself; the others end as the transport says
  rcases emit_cases a reply method with ⟨hthrows, -⟩ | heq | heq | heq
  · rw [hencode] at hthrows
    cases hthrows
  · simp [heq]
  · simpa [heq] using hended
  · rw [heq]
    refine ⟨?_, by simp⟩
    dsimp only
    split
    · simp
    · exact hended

/-- On whose behalf a frame is passed to the transport. -/
inductive frame_origin where
  /-- A reply the reader makes itself, while it receives `wire`. -/
  | received (wire : json)
  /-- The queue-full reply to an admitted operation. -/
  | rejection (op : Nat)
  /-- The worker's reply to an admitted operation. -/
  | worker (op : Nat)

/-- A frame passed to the transport, with the section it came from and whether the transport
took it. -/
structure frame where
  origin : frame_origin
  wire : json
  accepted : Bool

/-- The frames one `emit` passed on: none or one. -/
def emitted (a : emit_answers) (origin : frame_origin) (reply : response) (method : String) :
    List frame :=
  ((emit a reply method).1.map fun wire => ⟨origin, wire, a.send = .accepted⟩).toList

/-- What `receive()` does once it has released the mutex. -/
inductive receive_next where
  | done
  /-- `stop()`, either called or through the catch around `receive`. -/
  | stop
  | enqueue (req : request) (op : Nat)
  /-- `executor_->cancel`, from `notify`. -/
  | cancel (op : Nat)

/-- A section of `receive()`: the state it leaves, the frames it passed on, and
what follows it. -/
structure section_result where
  server : server
  frames : List frame
  next : receive_next

namespace server

/-! ## The sections

Each function below is one stretch of the source between taking the mutex and releasing it, or
one that is called with it held. What has to be done after the release is part of the result,
`next`, so that a step of the system can say who does it and when. -/

/-- What the constructor and a successful start leave: no request, no operation. -/
def started (info : server_info) (resources : List (String × resource))
    (prompts : List (String × prompt)) (tools : List (String × tool)) : server where
  info_ := info
  resources_ := resources
  prompts_ := prompts
  tools_ := tools
  state_ := .starting
  protocol_ := .await_initialize_
  operations := []
  inflight_ := []

/-- Requests are served while the server starts and while it runs. -/
def serving (s : server) : Bool := s.state_ = .starting || s.state_ = .running

/-- The ID of an operation; null for an index that was never given out, which no section uses.
-/
def id_of (s : server) (op : Nat) : json_rpc_id :=
  match s.operations[op]? with
  | some o => o.id
  | none => .null

/-- The flag of an operation, which its invocation reads before it answers. -/
def cancelled (s : server) (op : Nat) : Bool :=
  match s.operations[op]? with
  | some o => o.cancelled
  | none => false

/-- `std::make_shared<operation>(id)` pushed onto `inflight_`. -/
def push (s : server) (id : json_rpc_id) : server :=
  { s with
    operations := s.operations ++ [{ id }]
    inflight_ := s.inflight_ ++ [s.operations.length] }

/-- `op->cancelled = true`. -/
def mark_cancelled (s : server) (op : Nat) : server :=
  { s with operations := s.operations.modify op fun o => { o with cancelled := true } }

/-- `std::erase(inflight_, op)`. -/
def complete (s : server) (op : Nat) : server :=
  { s with inflight_ := s.inflight_.filter (· ≠ op) }

/-- The locked section of `stop`, and whether `stop` goes on to the executor. -/
def stop (s : server) : server × Bool :=
  if s.state_ = .stopped then (s, false)
  else
    ({ s with
        state_ := .stopping
        protocol_ := .closing
        operations := s.operations.mapIdx fun op o =>
          if op ∈ s.inflight_ then { o with cancelled := true } else o }, true)

/-- The parameter checks of `initialize`. -/
def initialize_params_ok (params : Option json) : Bool :=
  match params with
  | none => false
  | some p =>
      p.is_object &&
      (p.find? "protocolVersion").any json.is_string &&
      (p.find? "capabilities").any json.is_object &&
      (p.find? "clientInfo").any fun info =>
        info.is_object && (info.find? "name").any json.is_string &&
          (info.find? "version").any json.is_string

/-- The capabilities in the order of their keys. -/
def capabilities (s : server) : json :=
  json.object_of
    ((if s.prompts_.isEmpty then [] else [("prompts", json.object [])]) ++
      (if s.resources_.isEmpty then [] else [("resources", json.object [])]) ++
      (if s.tools_.isEmpty then [] else [("tools", json.object [])]))

/-- The result of `initialize`: the one protocol version the server knows, what is registered,
and the name and version it was made with. -/
def initialize_result (s : server) : json :=
  json.object_of
    [("protocolVersion", .string "2025-11-25"), ("capabilities", s.capabilities),
      ("serverInfo", json.object_of
        [("name", .string s.info_.name), ("version", .string s.info_.version)])]

/-- `initialize`, called with the mutex held. -/
def initialize_session (s : server) (req : request) : server × response :=
  if s.protocol_ ≠ .await_initialize_ then
    (s, failure req.id .invalid_request "Initialization already attempted")
  else if !initialize_params_ok req.params then
    (s, failure req.id .invalid_params "Invalid initialize parameters")
  else
    ({ s with protocol_ := .await_initialized },
      { id := req.id, result := some s.initialize_result, err := none })

/-- `ok = emit(reply, method)`, and `if (!ok) stop()` after the section. -/
def reply (s : server) (a : emit_answers) (wire : json) (reply : response) (method : String) :
    section_result where
  server := s
  frames := emitted a (.received wire) reply method
  next := if (emit a reply method).2 = .sent then .done else .stop

/-- The `requestId` of a well-formed cancellation. -/
def cancelled_id (params : Option json) : Option json_rpc_id :=
  match params with
  | none => none
  | some p =>
      match p.find? "requestId" with
      | none => none
      | some id =>
          if is_request_id id && (p.find? "reason").all json.is_string then
            some (read_json_rpc_id id)
          else none

/-- The locked section of `notify`. Only two notifications do anything, the one that ends the
handshake and a cancellation, and both only while the server serves. -/
def notify (s : server) (note : notification) : section_result :=
  if !s.serving then ⟨s, [], .done⟩
  else if note.method = "notifications/initialized" then
    if s.protocol_ = .await_initialized && note.params.all json.is_object then
      ⟨{ s with protocol_ := .ready }, [], .done⟩
    else ⟨s, [], .done⟩
  else if note.method = "notifications/cancelled" then
    match cancelled_id note.params with
    | none => ⟨s, [], .done⟩
    | some id =>
        match s.inflight_.find? (fun op => same_request_id (s.id_of op) id) with
        | none => ⟨s, [], .done⟩
        | some op => ⟨s.mark_cancelled op, [], .cancel op⟩
  else ⟨s, [], .done⟩

/-- The locked section of `receive` for a request. -/
def dispatch (s : server) (a : emit_answers) (wire : json) (req : request) : section_result :=
  if !s.serving || s.protocol_ = .closing then ⟨s, [], .done⟩
  else if s.inflight_.any (fun op => same_request_id (s.id_of op) req.id) then
    -- `emit` throwing leaves before `protocol_` is assigned
    let diagnostic := failure .null .invalid_request "Duplicate in-flight request ID"
    { server :=
        if (emit a diagnostic "").2 = .threw then s else { s with protocol_ := .closing }
      frames := emitted a (.received wire) diagnostic ""
      next := .stop }
  else if req.method = "ping" then
    s.reply a wire { id := req.id, result := some (.object []), err := none } "ping"
  else if req.method = "initialize" then
    (s.initialize_session req).1.reply a wire (s.initialize_session req).2 "initialize"
  else if s.protocol_ ≠ .ready then
    s.reply a wire (failure req.id .invalid_request "Server is not initialized") ""
  else ⟨s.push req.id, [], .enqueue req s.operations.length⟩

/-- An object with a method and no ID: it gets no answer, however malformed. -/
def is_notification (wire : json) : Bool :=
  wire.is_object && wire.contains "method" && !wire.contains "id"

/-- `receive`, up to the end of its first locked section. -/
def receive (s : server) (a : emit_answers) (wire : json) : section_result :=
  match decode_message wire with
  | .error diagnostic =>
      if is_notification wire then ⟨s, [], .done⟩
      else if s.serving then s.reply a wire diagnostic ""
      else ⟨s, [], .done⟩
  | .ok (.notification note) => s.notify note
  | .ok (.request req) => s.dispatch a wire req
  | .ok (.response _) => ⟨s, [], .done⟩

/-- The guard of both sections of the worker's invocation, and of the queue-full reply. -/
def may_answer (s : server) (op : Nat) : Bool := !s.cancelled op && s.serving

/-- A guarded `emit`: the frames, and how it ended. -/
def answer (s : server) (a : emit_answers) (origin : frame_origin) (op : Nat) (reply : response)
    (method : String) : List frame × emit_outcome :=
  if s.may_answer op then (emitted a origin reply method, (emit a reply method).2)
  else ([], .sent)

/-! ## Operations keep their IDs

Every section leaves an operation's ID alone and only ever sets its flag. The operations are a
list that grows at its end, so an index given out once stands for the same request for ever, and
what has been said of it by its ID stays true. There is a lemma for each section and each of the
two fields, for use by `simp` in the proofs about runs. -/

/-- The operations from before an admission keep their IDs, since the new one goes to the end of
the list. -/
theorem id_of_push_lt {s : server} {op : Nat} (id : json_rpc_id) (h : op < s.operations.length) :
    (s.push id).id_of op = s.id_of op := by
  simp only [push, id_of, List.getElem?_append_left h]

@[simp] theorem id_of_push_new (s : server) (id : json_rpc_id) :
    (s.push id).id_of s.operations.length = id := by
  simp [push, id_of]

/-- The operations from before an admission keep their flags as well. -/
theorem cancelled_push_lt {s : server} {op : Nat} (id : json_rpc_id)
    (h : op < s.operations.length) : (s.push id).cancelled op = s.cancelled op := by
  simp only [push, cancelled, List.getElem?_append_left h]

/-- An operation is admitted with its flag clear, so its handler runs unless the flag is set
before. -/
@[simp] theorem cancelled_push_new (s : server) (id : json_rpc_id) :
    (s.push id).cancelled s.operations.length = false := by
  simp [push, cancelled]

@[simp] theorem id_of_mark_cancelled (s : server) (op op' : Nat) :
    (s.mark_cancelled op).id_of op' = s.id_of op' := by
  simp only [mark_cancelled, id_of, List.getElem?_modify]
  cases s.operations[op']? with
  | none => rfl
  | some o =>
      by_cases h : op = op' <;> simp [h]

/-- A flag that is set stays set, whichever operation is cancelled next. -/
theorem cancelled_mark_cancelled (s : server) (op op' : Nat) (h : s.cancelled op' = true) :
    (s.mark_cancelled op).cancelled op' = true := by
  simp only [mark_cancelled, cancelled, List.getElem?_modify] at h ⊢
  cases ho : s.operations[op']? with
  | none => simp [ho] at h
  | some o =>
      rw [ho] at h
      by_cases hop : op = op' <;> simp_all

@[simp] theorem id_of_complete (s : server) (op op' : Nat) :
    (s.complete op).id_of op' = s.id_of op' := rfl

@[simp] theorem cancelled_complete (s : server) (op op' : Nat) :
    (s.complete op).cancelled op' = s.cancelled op' := rfl

@[simp] theorem serving_complete (s : server) (op : Nat) :
    (s.complete op).serving = s.serving := rfl

@[simp] theorem id_of_stop (s : server) (op : Nat) : s.stop.1.id_of op = s.id_of op := by
  unfold stop
  split
  · rfl
  · simp only [id_of, List.getElem?_mapIdx]
    cases s.operations[op]? with
    | none => rfl
    | some o =>
        simp only [Option.map_some]
        split <;> rfl

/-- The stop of the server sets flags, those of the operations in flight, and clears none. -/
theorem cancelled_stop (s : server) (op : Nat) (h : s.cancelled op = true) :
    s.stop.1.cancelled op = true := by
  unfold stop
  split
  · exact h
  · simp only [cancelled, List.getElem?_mapIdx] at h ⊢
    cases ho : s.operations[op]? with
    | none => simp [ho] at h
    | some o =>
        rw [ho] at h
        simp only [Option.map_some]
        split
        · rfl
        · exact h

/-- The stop does not complete anything: an operation stays in flight until its own invocation
or the reader takes it out. -/
@[simp] theorem stop_inflight (s : server) : s.stop.1.inflight_ = s.inflight_ := by
  unfold stop
  split <;> rfl

@[simp] theorem stop_length (s : server) :
    s.stop.1.operations.length = s.operations.length := by
  unfold stop
  split <;> simp

/-- After its locked section `stop` leaves a server that does not serve. -/
@[simp] theorem stop_serving (s : server) : s.stop.1.serving = false := by
  unfold stop
  split
  · rename_i h
    simp [serving, h]
  · rfl

/-! ## What a call of `receive` comes to

Behind the nested checks of `receive`, `notify` and `dispatch` there are seven outcomes, and
each is listed with the facts that the checks on the way to it have established. Every invariant
of the runs goes through this list once, instead of through the source's conditions. The reply
of an outcome is left open where no later argument asks for it; for `initialize` it says that a
reply other than the result is an error. -/

/-- The outcomes of the first section of `receive`, with what it checked. -/
inductive received (s : server) (a : emit_answers) (wire : json) : section_result → Prop
  /-- Nothing is sent and nothing changes. -/
  | ignored : received s a wire ⟨s, [], .done⟩
  /-- The reader replies, and the session stays where it is. -/
  | replied (reply : response) (method : String) (hserving : s.serving = true)
      (hanswer : is_notification wire = false)
      (hinit : ∀ req, decode_message wire = .ok (.request req) → req.method = "initialize" →
        reply.result = none ∧ reply.err ≠ none) :
      received s a wire (s.reply a wire reply method)
  /-- A valid `initialize`, the first one. -/
  | negotiated (req : request) (hdecode : decode_message wire = .ok (.request req))
      (hserving : s.serving = true) (hprotocol : s.protocol_ = .await_initialize_)
      (hmethod : req.method = "initialize") (hparams : initialize_params_ok req.params = true) :
      received s a wire
        (({ s with protocol_ := .await_initialized } : server).reply a wire
          { id := req.id, result := some s.initialize_result, err := none } "initialize")
  /-- `notifications/initialized`, after it. -/
  | ready (note : notification) (hdecode : decode_message wire = .ok (.notification note))
      (hserving : s.serving = true) (hprotocol : s.protocol_ = .await_initialized)
      (hmethod : note.method = "notifications/initialized")
      (hparams : note.params.all json.is_object = true) :
      received s a wire ⟨{ s with protocol_ := .ready }, [], .done⟩
  /-- A cancellation that names an operation in flight. -/
  | cancelled (op : Nat) (id : json_rpc_id) (hserving : s.serving = true)
      (hmem : op ∈ s.inflight_) (hsame : same_request_id (s.id_of op) id = true) :
      received s a wire ⟨s.mark_cancelled op, [], .cancel op⟩
  /-- A request whose ID is in flight. -/
  | duplicate (req : request) (op : Nat) (hdecode : decode_message wire = .ok (.request req))
      (hserving : s.serving = true) (hprotocol : s.protocol_ ≠ .closing)
      (hmem : op ∈ s.inflight_) (hsame : same_request_id (s.id_of op) req.id = true)
      (outcome : emit_outcome)
      (houtcome : outcome
        = (emit a (failure .null .invalid_request "Duplicate in-flight request ID") "").2) :
      received s a wire
        ⟨if outcome = .threw then s else { s with protocol_ := .closing },
          emitted a (.received wire)
            (failure .null .invalid_request "Duplicate in-flight request ID") "", .stop⟩
  | admitted (req : request) (hdecode : decode_message wire = .ok (.request req))
      (hserving : s.serving = true) (hprotocol : s.protocol_ = .ready) (hid : req.id ≠ .null)
      (hfresh : ∀ op ∈ s.inflight_, same_request_id (s.id_of op) req.id = false) :
      received s a wire ⟨s.push req.id, [], .enqueue req s.operations.length⟩

/-- A message that was decoded as a request has an ID, so it is not among the values that get no
answer. -/
theorem request_not_notification {wire : json} {req : request}
    (h : decode_message wire = .ok (.request req)) : is_notification wire = false := by
  have hid := (decode_request h).1
  simp [is_notification, hid]

/-- A notification changes the session or the flag of an operation, or is ignored; it is never
replied to. -/
theorem notify_received (s : server) (a : emit_answers) {wire : json} {note : notification}
    (hdecode : decode_message wire = .ok (.notification note)) :
    received s a wire (s.notify note) := by
  unfold notify
  split
  · exact .ignored
  rename_i hserving
  rw [Bool.not_eq_true', Bool.not_eq_false] at hserving
  split
  · rename_i hmethod
    split
    · rename_i hready
      rw [Bool.and_eq_true, decide_eq_true_eq] at hready
      exact .ready note hdecode hserving hready.1 hmethod hready.2
    · exact .ignored
  · split
    · split
      · exact .ignored
      · split
        · exact .ignored
        · rename_i id _ _ op hfind
          exact .cancelled op id hserving (List.mem_of_find?_eq_some hfind)
            (by simpa using List.find?_some hfind)
    · exact .ignored

/-- A request is refused with its ID in flight, answered by the reader, or admitted. The checks
are made in the order of the source, and an admitted request has passed all of them. -/
theorem dispatch_received (s : server) (a : emit_answers) {wire : json} {req : request}
    (hdecode : decode_message wire = .ok (.request req)) :
    received s a wire (s.dispatch a wire req) := by
  have hanswer := request_not_notification hdecode
  -- `initialize` is the only method whose reply the rest of the file asks about
  have hother : req.method ≠ "initialize" → ∀ (reply : response) (req' : request),
      decode_message wire = .ok (.request req') → req'.method = "initialize" →
        reply.result = none ∧ reply.err ≠ none := by
    intro hmethod reply req' hdecode' hmethod'
    rw [hdecode] at hdecode'
    cases hdecode'
    exact absurd hmethod' hmethod
  unfold dispatch
  split
  · exact .ignored
  rename_i hopen
  simp only [Bool.or_eq_true, Bool.not_eq_true', decide_eq_true_eq, not_or,
    Bool.not_eq_false] at hopen
  obtain ⟨hserving, hprotocol⟩ := hopen
  split
  · rename_i hany
    obtain ⟨op, hmem, hsame⟩ := List.any_eq_true.mp hany
    exact .duplicate req op hdecode hserving hprotocol hmem hsame _ rfl
  rename_i hany
  have hfresh : ∀ op ∈ s.inflight_, same_request_id (s.id_of op) req.id = false := by
    simpa using hany
  split
  · rename_i hping
    exact .replied _ _ hserving hanswer (hother (by rw [hping]; decide) _)
  split
  · rename_i hinit
    unfold initialize_session
    split
    · exact .replied _ _ hserving hanswer fun _ _ _ => ⟨rfl, by simp [failure]⟩
    · rename_i hawait
      split
      · exact .replied _ _ hserving hanswer fun _ _ _ => ⟨rfl, by simp [failure]⟩
      · rename_i hparams
        exact .negotiated req hdecode hserving (by simpa using hawait) hinit
          (by simpa using hparams)
  rename_i hinit
  split
  · exact .replied _ _ hserving hanswer (hother hinit _)
  · rename_i hready
    exact .admitted req hdecode hserving (by simpa using hready) (decode_request hdecode).2.1 hfresh

/-- `receive` has no other outcome: what does not decode is answered with its diagnostic or, in
the form of a notification, ignored. -/
theorem receive_received (s : server) (a : emit_answers) (wire : json) :
    received s a wire (s.receive a wire) := by
  unfold receive
  split
  · rename_i diagnostic hdecode
    split
    · exact .ignored
    rename_i hanswer
    split
    · rename_i hserving
      refine .replied _ _ hserving (by simpa using hanswer) ?_
      intro req hreq _
      rw [hdecode] at hreq
      cases hreq
    · exact .ignored
  · rename_i note hdecode
    exact notify_received s a hdecode
  · rename_i req hdecode
    exact dispatch_received s a hdecode
  · exact .ignored

end server

end SynapseMcp
