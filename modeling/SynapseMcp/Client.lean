/-
`client.hpp`: the requests a client has sent and the futures it handed out for them.

`send_request` draws an ID from `next_id_`, keeps the promise under it and hands the
encoded request to the transport; `handle_message` looks the ID of a response up in
`promises_` and completes the promise it finds. Each takes `promises_mutex_` once, so
a call of either is one step here. `next_id_` is an atomic `int64_t` and wraps.

A future is named by the number of the call of `send_request` that returned it, and
`futures` holds the shared state of each. A promise destroyed before it was
satisfied leaves its future broken.

With a handler set, a request of the server is answered from a detached thread that
touches neither table; `handled.sent` is what that thread will send.
-/
import SynapseMcp.Protocol

set_option autoImplicit false

namespace SynapseMcp

/-- The shared state of a `std::promise` and its `std::future`. -/
inductive future_state where
  | pending
  | ready (value : Except error json)
  | broken

/-- What `handle_message` can throw: a conversion's exception, or the `future_error`
of a promise that is satisfied already. -/
inductive client_exception where
  | conversion (e : json_exception)
  | promise_already_satisfied

/-- The handler, the next ID, the promises by their IDs, and the state of every future. -/
structure client where
  request_handler_ : Option (String → Option json → Except error json)
  next_id_ : Int64 := 1
  promises_ : List (Int64 × Nat) := []
  futures : List future_state := []

/-- `promises_.emplace(id, std::move(promise))` of a promise just made. Where the key
is taken `emplace` does nothing, and the promise is destroyed at the end of the call. -/
def client.emplace (c : client) (id : Int64) : client :=
  match c.promises_.lookup id with
  | none =>
      { c with
        promises_ := c.promises_ ++ [(id, c.futures.length)]
        futures := c.futures ++ [.pending] }
  | some _ => { c with futures := c.futures ++ [.broken] }

/-- The client after the call, and the request it handed to `transport_send_`. -/
def client.send_request (c : client) (method : String) (params : Option json) :
    client × request :=
  ({ c with next_id_ := c.next_id_ + 1 }.emplace c.next_id_,
    { id := .int64 c.next_id_, method, params })

/-- The value a response completes its future with. -/
def response.outcome (res : response) : Except error json :=
  match res.err, res.result with
  | some err, _ => .error err
  | none, some result => .ok result
  | none, none => .ok (.object [])

/-- The client after `handle_message`, what it sends, and what it throws. -/
structure handled where
  client : client
  sent : List json
  thrown : Option client_exception

/-- `promises_.erase(it)`. -/
def client.erase (c : client) (id : Int64) : client :=
  { c with promises_ := c.promises_.filter (fun entry => entry.1 != id) }

/-- `prom.set_value(value)`. -/
def client.set_value (c : client) (call : Nat) (value : Except error json) : handled :=
  match c.futures[call]? with
  | some .pending => ⟨{ c with futures := c.futures.set call (.ready value) }, [], none⟩
  | _ => ⟨c, [], some .promise_already_satisfied⟩

/-- The response to a request of the server. -/
def client.reply (c : client) (req : request) : response :=
  match c.request_handler_ with
  | some handler =>
      match handler req.method req.params with
      | .ok result => { id := req.id, result := some result, err := none }
      | .error err => { id := req.id, result := none, err := some err }
  | none =>
      { id := req.id, result := none
        err := some
          { code := error_code.method_not_found.value
            message := "Client does not handle requests", data := none } }

/-- `handle_message`: a request is answered, a response completes the promise under its ID, and
a notification is dropped. -/
def client.handle_message (c : client) (msg : json) : handled :=
  if msg.contains "id" then
    if msg.contains "method" then
      match request.from_json msg with
      | .error e => ⟨c, [], some (.conversion e)⟩
      | .ok req => ⟨c, [(c.reply req).to_json], none⟩
    else
      match response.from_json msg with
      | .error e => ⟨c, [], some (.conversion e)⟩
      | .ok res =>
          match res.id with
          | .int64 id =>
              match c.promises_.lookup id with
              | some call => (c.erase id).set_value call res.outcome
              | none => ⟨c, [], none⟩
          -- an ID of any other alternative of the variant is not looked up
          | .string _ | .uint64 _ | .null => ⟨c, [], none⟩
  else ⟨c, [], none⟩

/-! ## What one call can do

What `handle_message` makes of a message turns on the ID it reads: only one that is held as a
signed integer is looked up. The lemmas say which messages these are, and that a response in
which it is found completes the one future whose promise is kept under it. -/

/-- An ID is read as `int64_t` only off a number that is held so. -/
theorem read_json_rpc_id_eq_int64 {j : json} {id : Int64} :
    read_json_rpc_id j = .int64 id ↔ j = .number_integer id := by
  cases j <;> simp [read_json_rpc_id]

/-- The ID a response is read with is the one its message carries. -/
theorem response.from_json_id {j : json} {res : response} (h : response.from_json j = .ok res) :
    ∃ id, j.find? "id" = some id ∧ res.id = read_json_rpc_id id := by
  unfold response.from_json response.get_to at h
  obtain ⟨version, -, h⟩ := bind_eq_ok.mp h
  obtain ⟨jsonrpc, -, h⟩ := bind_eq_ok.mp h
  obtain ⟨id, hid, h⟩ := bind_eq_ok.mp h
  rw [json.at_eq_ok_iff] at hid
  refine ⟨id, hid, ?_⟩
  split at h
  · obtain ⟨wire, -, h⟩ := bind_eq_ok.mp h
    obtain ⟨err, -, h⟩ := bind_eq_ok.mp h
    cases h
    rfl
  split at h
  · obtain ⟨result, -, h⟩ := bind_eq_ok.mp h
    cases h
    rfl
  · cases h
    rfl

/-- A message either completes the promise kept under the signed ID of the response
it is, or leaves the client as it was. -/
theorem client.handle_message_cases (c : client) (msg : json) :
    (∃ res id call, msg.contains "method" = false ∧ response.from_json msg = .ok res ∧
        msg.find? "id" = some (.number_integer id) ∧ c.promises_.lookup id = some call ∧
        c.handle_message msg = (c.erase id).set_value call res.outcome) ∨
      (c.handle_message msg).client = c := by
  unfold client.handle_message
  split
  · split
    · right
      split <;> rfl
    · rename_i hmethod
      split
      · exact .inr rfl
      · rename_i res hres
        split
        · rename_i id hid
          split
          · rename_i call hcall
            obtain ⟨wire, hwire, hread⟩ := response.from_json_id hres
            rw [hid, eq_comm, read_json_rpc_id_eq_int64] at hread
            subst hread
            exact .inl ⟨res, id, call, by simpa using hmethod, hres, hwire, hcall, rfl⟩
          · exact .inr rfl
        all_goals exact .inr rfl
  · exact .inr rfl

/-- A well-formed response with a signed ID that is kept is taken. -/
theorem client.handle_message_response {c : client} {msg : json} {res : response} {id : Int64}
    {call : Nat} (hmethod : msg.contains "method" = false)
    (hres : response.from_json msg = .ok res) (hid : msg.find? "id" = some (.number_integer id))
    (hcall : c.promises_.lookup id = some call) :
    c.handle_message msg = (c.erase id).set_value call res.outcome := by
  obtain ⟨wire, hwire, hread⟩ := response.from_json_id hres
  have hint : res.id = .int64 id := by
    rw [hid, Option.some.injEq] at hwire
    rw [hread, ← hwire]
    rfl
  have hcontains : msg.contains "id" = true := by
    rw [json.contains_eq_isSome, hid]
    rfl
  unfold client.handle_message
  rw [if_pos hcontains, if_neg (by simp [hmethod])]
  simp only [hres, hint, hcall]

/-- A future that is pending takes the value. -/
theorem client.set_value_pending {c : client} {call : Nat} {value : Except error json}
    (h : c.futures[call]? = some .pending) :
    c.set_value call value =
      ⟨{ c with futures := c.futures.set call (.ready value) }, [], none⟩ := by
  unfold client.set_value
  rw [h]

end SynapseMcp
