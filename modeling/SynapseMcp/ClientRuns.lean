/-
What a run of the client does with the futures it handed out.

A run is a client and the requests it has sent, in order, so that the future of a
call and the request of the same call have the same number. A request is outstanding
when its future is pending. The invariant is that `promises_` is exactly the table of
the outstanding requests under their IDs, in every state of every run: also where
`next_id_` has wrapped, since a refused `emplace` leaves its future broken.

What the client promises is `client_contract`. An ID read off the wire is
`number_unsigned` unless it is negative, `read_json_rpc_id` makes a `uint64_t` of
that, and `handle_message` looks only an `int64_t` up; so the contract holds of a
run exactly when no response of that kind is meant for an outstanding request.
-/
import SynapseMcp.Transition
import SynapseMcp.Client
import SynapseMcp.OrderedMap
import Mathlib.Algebra.Ring.Nat
import Mathlib.Data.List.Induction
import Mathlib.Data.List.Nodup
import Mathlib.Data.List.Pairwise

set_option autoImplicit false

namespace SynapseMcp

open Transition OrderedMap

/-- What happens to a client: it is called, or a message comes in. -/
inductive client_event where
  | send_request (method : String) (params : Option json)
  | on_message (msg : json)

/-- The client, and the requests it has sent. -/
structure client_run where
  client : client
  requests : List request

/-- A client that has sent nothing. -/
def client_run.start (handler : Option (String → Option json → Except error json)) :
    client_run where
  client := { request_handler_ := handler }
  requests := []

/-- One event, with the code of the client. -/
def client_run.step (s : client_run) : client_event → client_run
  | .send_request method params =>
      { client := (s.client.send_request method params).1
        requests := s.requests ++ [(s.client.send_request method params).2] }
  | .on_message msg => { s with client := (s.client.handle_message msg).client }

/-- A client after these events. -/
def client_run.after (handler : Option (String → Option json → Except error json))
    (events : List client_event) : client_run :=
  events.foldl client_run.step (client_run.start handler)

/-- All runs of a client with this handler. -/
def client_runs (handler : Option (String → Option json → Except error json)) :
    System client_run client_event where
  init s := s = client_run.start handler
  step s e t := t = s.step e

/-- The request of call number `call` has this ID, and its future is pending. -/
def client_run.outstanding (s : client_run) (call : Nat) (id : Int64) : Prop :=
  (∃ req, s.requests[call]? = some req ∧ req.id = .int64 id) ∧
    s.client.futures[call]? = some .pending

/-- The integer ID of a well-formed response, and the error or result it carries. -/
def response_to (msg : json) : Option (Int × Except error json) :=
  if msg.contains "method" then none
  else
    match response.from_json msg, (msg.find? "id").bind json.integer? with
    | .ok res, some id => some (id, res.outcome)
    | _, _ => none

/-- The ID of the response is the integer `id` of an outstanding request. -/
def client_run.awaits (s : client_run) (msg : json) (call : Nat) (id : Int64)
    (outcome : Except error json) : Prop :=
  response_to msg = some (id.toInt, outcome) ∧ s.outstanding call id

/-- What a user of the client expects of the futures it gets. -/
structure client_contract (handler : Option (String → Option json → Except error json))
    (events : List client_event) : Prop where
  /-- A response to an outstanding request completes its future and no other, and
  its promise is gone. -/
  completes : ∀ past msg rest call id outcome,
    events = past ++ .on_message msg :: rest →
    (client_run.after handler past).awaits msg call id outcome →
    (client_run.after handler (past ++ [.on_message msg])).client.futures =
        (client_run.after handler past).client.futures.set call (.ready outcome) ∧
      (client_run.after handler (past ++ [.on_message msg])).client.promises_ =
        (client_run.after handler past).client.promises_.filter (fun entry => entry.1 != id)
  /-- Every other message leaves the promises and the futures as they are. -/
  ignores : ∀ past msg rest, events = past ++ .on_message msg :: rest →
    (∀ call id outcome, ¬(client_run.after handler past).awaits msg call id outcome) →
    (client_run.after handler (past ++ [.on_message msg])).client.futures =
        (client_run.after handler past).client.futures ∧
      (client_run.after handler (past ++ [.on_message msg])).client.promises_ =
        (client_run.after handler past).client.promises_
  /-- A future that is complete stays as it is. -/
  settled : ∀ past rest (call : Nat) outcome, events = past ++ rest →
    (client_run.after handler past).client.futures[call]? = some (future_state.ready outcome) →
    (client_run.after handler events).client.futures[call]? = some (future_state.ready outcome)
  /-- No two calls of `send_request` draw one ID. -/
  distinct : ((client_run.after handler events).requests.map request.id).Nodup

/-- The message is a well-formed response with an unsigned ID, and that integer is
the ID of an outstanding request. -/
def client_run.misses (s : client_run) (msg : json) : Prop :=
  ∃ value call id outcome, msg.find? "id" = some (.number_unsigned value) ∧
    s.awaits msg call id outcome

/-- The calls among the events. -/
def client_event.is_send : client_event → Bool
  | .send_request _ _ => true
  | .on_message _ => false

/-- When the client meets its contract. -/
structure client_meets (handler : Option (String → Option json → Except error json))
    (events : List client_event) : Prop where
  signed : ∀ past msg rest, events = past ++ .on_message msg :: rest →
    ¬(client_run.after handler past).misses msg
  few : (events.filter client_event.is_send).length ≤ 2 ^ 64

/-! ## IDs

Call number `call` draws `call + 1`, until the counter wraps.

The counter is an `int64_t` that wraps, so the ID of a call is its number modulo `2 ^ 64`, and
two calls have one ID exactly when their numbers agree modulo that.

The bound of the second condition comes from here. With no more than `2 ^ 64` calls no two of
them have one ID, and with one call more the first and the last have. -/

/-- Two numbers wrap to one `int64_t` when they agree modulo `2 ^ 64`. -/
theorem int64_ofNat_inj {a b : Nat} : Int64.ofNat a = Int64.ofNat b ↔ a % 2 ^ 64 = b % 2 ^ 64 := by
  rw [← Int64.toBitVec_inj, Int64.toBitVec_ofNat', Int64.toBitVec_ofNat',
    ← BitVec.toNat_inj, BitVec.toNat_ofNat, BitVec.toNat_ofNat]

/-! ## The table of promises

`promises_` is a table from IDs to futures, and the futures are listed by call. So the table can
be said to be what it is for: its entries are the requests with a pending future, under the IDs
they were sent with. That is an equivalence, and it decides what a message can do: if the table
knows the ID, the future is pending and completed once; if not, no pending future is meant. -/

/-- The table and the futures belong together. -/
structure promise_table (s : client_run) : Prop where
  next : s.client.next_id_ = Int64.ofNat (s.requests.length + 1)
  numbered : ∀ (call : Nat) req, s.requests[call]? = some req →
    req.id = .int64 (Int64.ofNat (call + 1))
  futures : s.client.futures.length = s.requests.length
  /-- The promises kept are those of the outstanding requests. -/
  table : ∀ id call, (id, call) ∈ s.client.promises_ ↔ s.outstanding call id
  /-- `std::map` keeps each key once. -/
  keys : s.client.promises_.Pairwise (fun e e' => e.1 ≠ e'.1)

/-! ## One step

Both events keep the table. `send_request` adds a future, and an entry for it unless the ID is
kept for an older one, and then the new future is broken at once. A message the client takes
completes one future and takes its entry away; any other message changes nothing.

A response is looked up under its ID as a signed number. A response whose ID was parsed as an
unsigned one is not looked up at all, though it names an outstanding request; the client misses
it, and the future stays pending. The lemmas at the end of the section separate these cases:
what is missed, what completes a future, and what was never for one. -/

section Step

variable {s : client_run}

/-- An outstanding request was sent. -/
theorem outstanding_lt {call : Nat} {id : Int64} (h : s.outstanding call id) :
    call < s.requests.length := by
  obtain ⟨⟨req, hreq, -⟩, -⟩ := h
  exact (List.getElem?_eq_some_iff.mp hreq).1

/-- A request has one ID. -/
theorem outstanding_id {call : Nat} {id id' : Int64} (h : s.outstanding call id)
    (h' : s.outstanding call id') : id = id' := by
  obtain ⟨⟨req, hreq, hid⟩, -⟩ := h
  obtain ⟨⟨req', hreq', hid'⟩, -⟩ := h'
  rw [hreq, Option.some.injEq] at hreq'
  subst hreq'
  rw [hid] at hid'
  exact json_rpc_id.int64.inj hid'

/-- To look an ID up is to ask which request is outstanding under it. -/
theorem promise_table.lookup_iff (h : promise_table s) {id : Int64} {call : Nat} :
    s.client.promises_.lookup id = some call ↔ s.outstanding call id := by
  rw [← h.table]
  exact ⟨mem_of_lookup, lookup_of_mem h.keys⟩

/-- An ID has one outstanding request. -/
theorem promise_table.call_unique (h : promise_table s) {id : Int64} {call call' : Nat}
    (ho : s.outstanding call id) (ho' : s.outstanding call' id) : call = call' := by
  rw [← h.lookup_iff] at ho ho'
  exact Option.some.inj (ho.symm.trans ho')

/-- What a message can do, with the table in place: complete the outstanding request
its signed ID names, or nothing. In neither case is a promise satisfied twice. -/
theorem promise_table.on_message (h : promise_table s) (msg : json) :
    (∃ res id call, msg.contains "method" = false ∧ response.from_json msg = .ok res ∧
        msg.find? "id" = some (.number_integer id) ∧ s.outstanding call id ∧
        s.step (.on_message msg) =
          { s with
            client :=
              { s.client.erase id with
                futures := s.client.futures.set call (.ready res.outcome) } }) ∨
      s.step (.on_message msg) = s := by
  rcases s.client.handle_message_cases msg with
    ⟨res, id, call, hmethod, hres, hid, hcall, heq⟩ | hsame
  · rw [h.lookup_iff] at hcall
    refine .inl ⟨res, id, call, hmethod, hres, hid, hcall, ?_⟩
    have hpending : (s.client.erase id).futures[call]? = some .pending := hcall.2
    rw [client_run.step, heq, client.set_value_pending hpending]
    rfl
  · right
    rw [client_run.step, hsame]

/-- `send_request` leaves the futures it finds and adds one: pending, with an entry in the
table, where the ID is free, and broken where it is kept for an older call. -/
theorem send_request_futures (c : client) (method : String) (params : Option json) :
    ∃ state, (c.send_request method params).1.futures = c.futures ++ [state] ∧
      (state = .pending ∧ c.promises_.lookup c.next_id_ = none ∧
          (c.send_request method params).1.promises_ =
            c.promises_ ++ [(c.next_id_, c.futures.length)] ∨
        state = .broken ∧ c.promises_.lookup c.next_id_ ≠ none ∧
          (c.send_request method params).1.promises_ = c.promises_) := by
  unfold client.send_request client.emplace
  dsimp only
  split
  · rename_i hlookup
    exact ⟨.pending, rfl, .inl ⟨rfl, hlookup, rfl⟩⟩
  · rename_i call hlookup
    exact ⟨.broken, rfl, .inr ⟨rfl, by rw [hlookup]; exact Option.some_ne_none call, rfl⟩⟩

/-- Every call draws the next number, also the one whose `emplace` is refused. -/
theorem send_request_next (c : client) (method : String) (params : Option json) :
    (c.send_request method params).1.next_id_ = c.next_id_ + 1 := by
  unfold client.send_request client.emplace
  dsimp only
  split <;> rfl

/-- A request just sent is outstanding under the ID it drew, unless that ID is still
kept; the others are outstanding as before. -/
theorem outstanding_send {method : String} {params : Option json} {state : future_state}
    (hlen : s.client.futures.length = s.requests.length)
    (hfutures : (s.client.send_request method params).1.futures = s.client.futures ++ [state])
    (call : Nat) (id : Int64) :
    (s.step (.send_request method params)).outstanding call id ↔
      s.outstanding call id ∨
        call = s.requests.length ∧ id = s.client.next_id_ ∧ state = .pending := by
  have hreqs : (s.step (.send_request method params)).requests =
      s.requests ++ [(s.client.send_request method params).2] := rfl
  have hfuts : (s.step (.send_request method params)).client.futures =
      s.client.futures ++ [state] := hfutures
  have hsent : (s.client.send_request method params).2.id = .int64 s.client.next_id_ := rfl
  unfold client_run.outstanding
  rw [hreqs, hfuts]
  -- an earlier call, the new one, or none of the list
  rcases Nat.lt_trichotomy call s.requests.length with hlt | heq | hgt
  · rw [List.getElem?_append_left hlt, List.getElem?_append_left (by omega)]
    constructor
    · exact .inl
    · rintro (hold | ⟨heq, -⟩)
      · exact hold
      · omega
  · subst heq
    have hnone : s.requests[s.requests.length]? = none := List.getElem?_eq_none (Nat.le_refl _)
    rw [List.getElem?_concat_length, ← hlen, List.getElem?_concat_length, hlen]
    constructor
    · rintro ⟨⟨req, hreq, hid⟩, hstate⟩
      cases hreq
      rw [hsent] at hid
      exact .inr ⟨rfl, (json_rpc_id.int64.inj hid).symm, Option.some.inj hstate⟩
    · rintro (⟨⟨req, hreq, -⟩, -⟩ | ⟨-, hid, hstate⟩)
      · rw [hnone] at hreq
        cases hreq
      · exact ⟨⟨_, rfl, by rw [hsent, hid]⟩, by rw [hstate]⟩
  · have hnone : s.requests[call]? = none := List.getElem?_eq_none (by omega)
    have hnone' : (s.requests ++ [(s.client.send_request method params).2])[call]? = none :=
      List.getElem?_eq_none (by rw [List.length_append, List.length_singleton]; omega)
    rw [hnone, hnone']
    constructor
    · rintro ⟨⟨req, hreq, -⟩, -⟩
      cases hreq
    · rintro (⟨⟨req, hreq, -⟩, -⟩ | ⟨heq, -⟩)
      · cases hreq
      · omega

/-- A request that is sent is outstanding exactly when it has an entry: both depend on whether
the ID is still kept. -/
theorem promise_table.send_request (h : promise_table s) (method : String)
    (params : Option json) : promise_table (s.step (.send_request method params)) := by
  obtain ⟨state, hfutures, hkept⟩ := send_request_futures s.client method params
  have hout := outstanding_send h.futures hfutures
  have hlen : (s.step (.send_request method params)).requests.length =
      s.requests.length + 1 := List.length_append
  refine ⟨?_, ?_, ?_, ?_, ?_⟩
  · rw [hlen, Int64.ofNat_add, ← h.next]
    exact send_request_next s.client method params
  · intro call req hreq
    have hcall := (List.getElem?_eq_some_iff.mp hreq).1
    rw [hlen] at hcall
    rcases Nat.lt_or_eq_of_le (Nat.le_of_lt_succ hcall) with hlt | heq
    · refine h.numbered call req ?_
      rw [← hreq]
      exact (List.getElem?_append_left hlt).symm
    · subst heq
      have hlast : req = (s.client.send_request method params).2 :=
        Option.some.inj (hreq.symm.trans List.getElem?_concat_length)
      rw [hlast, ← h.next]
      rfl
  · rw [hlen, ← h.futures]
    exact (congrArg List.length hfutures).trans List.length_append
  · intro id call
    rw [hout]
    rcases hkept with ⟨hstate, -, hpromises⟩ | ⟨hstate, -, hpromises⟩
    · have hafter : (s.step (.send_request method params)).client.promises_ =
          s.client.promises_ ++ [(s.client.next_id_, s.client.futures.length)] := hpromises
      rw [hafter, List.mem_append, h.table, List.mem_singleton, Prod.mk.injEq, h.futures]
      constructor
      · rintro (hold | ⟨hid, hcall⟩)
        · exact .inl hold
        · exact .inr ⟨hcall, hid, hstate⟩
      · rintro (hold | ⟨hcall, hid, -⟩)
        · exact .inl hold
        · exact .inr ⟨hid, hcall⟩
    · have hafter : (s.step (.send_request method params)).client.promises_ =
          s.client.promises_ := hpromises
      rw [hafter, h.table, hstate]
      constructor
      · exact .inl
      · rintro (hold | ⟨-, -, hpending⟩)
        · exact hold
        · cases hpending
  -- the new key was not there
  · rcases hkept with ⟨-, hlookup, hpromises⟩ | ⟨-, -, hpromises⟩
    · have hafter : (s.step (.send_request method params)).client.promises_ =
          s.client.promises_ ++ [(s.client.next_id_, s.client.futures.length)] := hpromises
      rw [hafter, List.pairwise_append]
      refine ⟨h.keys, List.pairwise_singleton _ _, ?_⟩
      intro entry hentry fresh hfresh heq
      rw [List.mem_singleton] at hfresh
      subst hfresh
      rw [List.lookup_eq_none_iff] at hlookup
      have hne := hlookup entry hentry
      rw [heq] at hne
      simp at hne
    · have hafter : (s.step (.send_request method params)).client.promises_ =
          s.client.promises_ := hpromises
      rw [hafter]
      exact h.keys

/-- Until the counter comes round, the ID the next request draws is not kept. -/
theorem promise_table.next_fresh (h : promise_table s) (hfew : s.requests.length < 2 ^ 64) :
    s.client.promises_.lookup s.client.next_id_ = none := by
  by_contra hkept
  obtain ⟨call, hcall⟩ := Option.ne_none_iff_exists'.mp hkept
  rw [h.lookup_iff] at hcall
  have hlt := outstanding_lt hcall
  obtain ⟨⟨req, hreq, hid⟩, -⟩ := hcall
  rw [h.numbered call req hreq, json_rpc_id.int64.injEq, h.next, int64_ofNat_inj] at hid
  omega

/-- Until then, a request just sent is outstanding. -/
theorem promise_table.sends_outstanding (h : promise_table s) (hfew : s.requests.length < 2 ^ 64)
    (method : String) (params : Option json) :
    (s.step (.send_request method params)).outstanding s.requests.length s.client.next_id_ := by
  obtain ⟨state, hfutures, hkept⟩ := send_request_futures s.client method params
  rw [outstanding_send h.futures hfutures]
  rcases hkept with ⟨hstate, -, -⟩ | ⟨-, htaken, -⟩
  · exact .inr ⟨rfl, rfl, hstate⟩
  · exact absurd (h.next_fresh hfew) htaken

/-- Completing the future of an outstanding request and erasing its ID keep the table. -/
theorem promise_table.complete (h : promise_table s) {id : Int64} {call : Nat}
    (ho : s.outstanding call id) (outcome : Except error json) :
    promise_table
      { s with
        client :=
          { s.client.erase id with futures := s.client.futures.set call (.ready outcome) } } := by
  refine ⟨h.next, h.numbered, ?_, ?_, ?_⟩
  · exact (List.length_set).trans h.futures
  · intro id' call'
    change (id', call') ∈ s.client.promises_.filter (fun entry => entry.1 != id) ↔
      (∃ req, s.requests[call']? = some req ∧ req.id = .int64 id') ∧
        (s.client.futures.set call (.ready outcome))[call']? = some .pending
    rw [List.mem_filter, h.table, bne_iff_ne]
    -- the completed one is gone on both sides, the others are as they were
    by_cases hcall : call = call'
    · subst hcall
      constructor
      · rintro ⟨ho', hne⟩
        exact absurd (outstanding_id ho' ho) hne
      · rintro ⟨-, hset⟩
        rw [List.getElem?_set_self (h.futures ▸ outstanding_lt ho)] at hset
        cases hset
    · rw [List.getElem?_set_ne hcall]
      constructor
      · rintro ⟨ho', -⟩
        exact ho'
      · intro ho'
        refine ⟨ho', fun heq => hcall ?_⟩
        subst heq
        exact h.call_unique ho ho'
  · exact h.keys.filter _

/-- Every event keeps the table: a call adds a future and perhaps an entry, a message that is
taken completes one and takes its entry out. -/
theorem promise_table.step (h : promise_table s) (e : client_event) : promise_table (s.step e) := by
  cases e with
  | send_request method params => exact h.send_request method params
  | on_message msg =>
      rcases h.on_message msg with ⟨res, id, call, -, -, -, ho, heq⟩ | heq
      · rw [heq]
        exact h.complete ho res.outcome
      · rw [heq]
        exact h

/-- A message the client takes is a response with the ID of an outstanding request. -/
theorem awaits_of_response {msg : json} {res : response} {id : Int64} {call : Nat}
    (hmethod : msg.contains "method" = false) (hres : response.from_json msg = .ok res)
    (hid : msg.find? "id" = some (.number_integer id)) (ho : s.outstanding call id) :
    s.awaits msg call id res.outcome := by
  refine ⟨?_, ho⟩
  unfold response_to
  rw [if_neg (by rw [hmethod]; decide), hres, hid]
  rfl

/-- A well-formed response to an outstanding request carries its ID in one of two
representations. -/
theorem awaits_cases {msg : json} {call : Nat} {id : Int64} {outcome : Except error json}
    (h : s.awaits msg call id outcome) :
    s.misses msg ∨
      ∃ res, msg.contains "method" = false ∧ response.from_json msg = .ok res ∧
        msg.find? "id" = some (.number_integer id) ∧ outcome = res.outcome := by
  have hto := h.1
  unfold response_to at hto
  split at hto
  · cases hto
  rename_i hmethod
  split at hto
  · rename_i res value hres hvalue
    obtain ⟨wire, hwire, hint⟩ := Option.bind_eq_some_iff.mp hvalue
    rw [Option.some.injEq, Prod.mk.injEq] at hto
    obtain ⟨hval, houtcome⟩ := hto
    subst hval
    cases wire with
    | number_unsigned u => exact .inl ⟨u, call, id, outcome, hwire, h⟩
    | number_integer v =>
        have hv : v = id := Int64.toInt_inj.mp (Option.some.inj hint)
        subst hv
        exact .inr ⟨res, by simpa using hmethod, hres, hwire, houtcome.symm⟩
    | _ => cases hint
  · cases hto

/-- What is missed changes nothing: its ID is unsigned, and only a signed one is looked up. -/
theorem step_of_misses (h : promise_table s) {msg : json} (hmiss : s.misses msg) :
    s.step (.on_message msg) = s := by
  obtain ⟨value, -, -, -, hwire, -⟩ := hmiss
  rcases h.on_message msg with ⟨res, id, call, -, -, hid, -, -⟩ | heq
  · rw [hwire] at hid
    cases hid
  · exact heq

/-- What the client does with a response to an outstanding request it does not miss. -/
theorem step_of_awaits (h : promise_table s) {msg : json} {call : Nat} {id : Int64}
    {outcome : Except error json} (hawaits : s.awaits msg call id outcome)
    (hsigned : ¬s.misses msg) :
    s.step (.on_message msg) =
      { s with
        client :=
          { s.client.erase id with futures := s.client.futures.set call (.ready outcome) } } := by
  rcases awaits_cases hawaits with hmiss | ⟨res, hmethod, hres, hid, rfl⟩
  · exact absurd hmiss hsigned
  · have hcall := h.lookup_iff.mpr hawaits.2
    have hpending : (s.client.erase id).futures[call]? = some .pending := hawaits.2.2
    rw [client_run.step, client.handle_message_response hmethod hres hid hcall,
      client.set_value_pending hpending]
    rfl

/-- Nor does a message that is no response to an outstanding request. -/
theorem step_of_not_awaits (h : promise_table s) {msg : json}
    (hother : ∀ call id outcome, ¬s.awaits msg call id outcome) :
    s.step (.on_message msg) = s := by
  rcases h.on_message msg with ⟨res, id, call, hmethod, hres, hid, ho, -⟩ | heq
  · exact absurd (awaits_of_response hmethod hres hid ho) (hother call id res.outcome)
  · exact heq

/-- A future that is complete is not touched: only a pending one is. -/
theorem step_settled (h : promise_table s) {call : Nat} {outcome : Except error json}
    (hready : s.client.futures[call]? = some (.ready outcome)) (e : client_event) :
    (s.step e).client.futures[call]? = some (.ready outcome) := by
  cases e with
  | send_request method params =>
      obtain ⟨state, hfutures, -⟩ := send_request_futures s.client method params
      change (s.client.send_request method params).1.futures[call]? = _
      rw [hfutures, List.getElem?_append_left (List.getElem?_eq_some_iff.mp hready).1]
      exact hready
  | on_message msg =>
      rcases h.on_message msg with ⟨res, id, call', -, -, -, ho, heq⟩ | heq
      · rw [heq]
        change (s.client.futures.set call' _)[call]? = _
        have hne : call' ≠ call := by
          rintro rfl
          have hpending := ho.2
          rw [hready] at hpending
          cases hpending
        rw [List.getElem?_set_ne hne]
        exact hready
      · rw [heq]
        exact hready

end Step

/-! ## Runs

A run is a list of events, and every prefix of it is one too; so what holds of reachable states
holds at each moment of a run.

The contract is about a whole list of events and looks at each event in it with what came
before. Both are runs of the same system, the shorter one a beginning of the longer, and a
future that is complete at one moment is so at all later ones. -/

section Runs

variable {handler : Option (String → Option json → Except error json)}

/-- A client that has sent nothing keeps no promise. -/
theorem promise_table_start : promise_table (client_run.start handler) := by
  refine ⟨rfl, ?_, rfl, ?_, List.Pairwise.nil⟩
  · intro call req hreq
    cases hreq
  · intro id call
    constructor
    · intro hmem
      cases hmem
    · rintro ⟨⟨req, hreq, -⟩, -⟩
      cases hreq

/-- The table is right in every state. -/
theorem client_runs_table {s : client_run} (h : (client_runs handler).Reachable s) :
    promise_table s := by
  refine h.invariant (P := promise_table) ?_ ?_
  · rintro s rfl
    exact promise_table_start
  · rintro s e t - hs rfl
    exact hs.step e

/-- The events after some others. -/
theorem after_append (past rest : List client_event) :
    client_run.after handler (past ++ rest) =
      rest.foldl client_run.step (client_run.after handler past) :=
  List.foldl_append

/-- One more event. -/
theorem after_concat (past : List client_event) (e : client_event) :
    client_run.after handler (past ++ [e]) = (client_run.after handler past).step e :=
  after_append past [e]

/-- Folding a list of events is a run of the system. -/
theorem run_foldl (rest : List client_event) (s : client_run) :
    (client_runs handler).Run s (rest.foldl client_run.step s) := by
  induction rest generalizing s with
  | nil => exact .refl
  | cons e rest ih => exact .head ⟨e, rfl⟩ (ih (s.step e))

/-- What comes of a list of events is reached. -/
theorem after_reachable (events : List client_event) :
    (client_runs handler).Reachable (client_run.after handler events) :=
  ⟨_, rfl, run_foldl events _⟩

/-- So the table is right there. -/
theorem after_table (events : List client_event) :
    promise_table (client_run.after handler events) :=
  client_runs_table (after_reachable events)

/-- A future that is complete stays as it is, whatever comes. -/
theorem after_settled {past : List client_event} (rest : List client_event) {call : Nat}
    {outcome : Except error json}
    (hready : (client_run.after handler past).client.futures[call]? = some (.ready outcome)) :
    (client_run.after handler (past ++ rest)).client.futures[call]? = some (.ready outcome) := by
  rw [after_append]
  refine System.Run.keeps (S := client_runs handler)
    (P := fun s => s.client.futures[call]? = some (.ready outcome)) ?_
    (after_reachable past) hready (run_foldl rest _)
  rintro s e t hs hs' rfl
  exact step_settled (client_runs_table hs) hs' e

/-- Each call of `send_request` sends one request, and no message that comes in sends any, so
the requests are as many as the calls. -/
theorem requests_length (events : List client_event) (s : client_run) :
    (events.foldl client_run.step s).requests.length =
      s.requests.length + (events.filter client_event.is_send).length := by
  induction events generalizing s with
  | nil => rfl
  | cons e rest ih =>
      rw [List.foldl_cons, ih]
      cases e with
      | send_request method params =>
          have hlen : (s.step (.send_request method params)).requests.length =
              s.requests.length + 1 := List.length_append
          have hsends : ((client_event.send_request method params :: rest).filter
              client_event.is_send).length = (rest.filter client_event.is_send).length + 1 := rfl
          rw [hlen, hsends]
          omega
      | on_message msg => rfl

/-- There are as many requests as calls. -/
theorem after_requests_length (events : List client_event) :
    (client_run.after handler events).requests.length =
      (events.filter client_event.is_send).length := by
  rw [client_run.after, requests_length]
  exact Nat.zero_add _

/-- The IDs drawn are distinct until the counter comes round. -/
theorem requests_distinct {s : client_run} (h : promise_table s) :
    (s.requests.map request.id).Nodup ↔ s.requests.length ≤ 2 ^ 64 := by
  have hid : ∀ (call : Nat) (hcall : call < (s.requests.map request.id).length),
      (s.requests.map request.id)[call] = .int64 (Int64.ofNat (call + 1)) := by
    intro call hcall
    rw [List.length_map] at hcall
    rw [List.getElem_map]
    exact h.numbered call _ (List.getElem?_eq_getElem hcall)
  rw [List.nodup_iff_injective_getElem]
  constructor
  · intro hinj
    by_contra hlong
    have hfirst : 0 < (s.requests.map request.id).length := by
      rw [List.length_map]
      omega
    have hround : 2 ^ 64 < (s.requests.map request.id).length := by
      rw [List.length_map]
      omega
    -- the first call and the one a full round later
    have hsame : (s.requests.map request.id)[0] = (s.requests.map request.id)[2 ^ 64] := by
      refine (hid 0 hfirst).trans (Eq.trans ?_ (hid (2 ^ 64) hround).symm)
      exact congrArg json_rpc_id.int64 (int64_ofNat_inj.mpr (by omega))
    have heq := @hinj ⟨0, hfirst⟩ ⟨2 ^ 64, hround⟩ hsame
    have hzero : (0 : Nat) = 2 ^ 64 := congrArg Fin.val heq
    omega
  · intro hshort i j hij
    have hlen : (s.requests.map request.id).length = s.requests.length := List.length_map _
    have hi := i.isLt
    have hj := j.isLt
    dsimp only at hij
    rw [hid, hid, json_rpc_id.int64.injEq, int64_ofNat_inj] at hij
    refine Fin.ext ?_
    omega

/-! ## Over the wire

The library's parser represents an integer literal as `number_integer` only when it is
negative, while the client draws positive IDs. So no response that came as text is
ever taken.

`is_wire_value` describes what the parser makes of a text: a non-negative literal is unsigned. A
message of this kind has no signed ID that is positive, and all IDs drawn before the counter
wraps are. So every future of such a client stays pending. -/

mutual

/-- A value as the library's parser produces it. -/
def json.is_wire_value : json → Bool
  | .number_integer value => value.toInt < 0
  | .binary _ | .discarded => false
  | .array elements => json.are_wire_values elements
  | .object members => json.are_wire_members members
  | .null | .boolean _ | .number_unsigned _ | .number_float _ | .string _ => true

/-- The same of the elements of an array. -/
def json.are_wire_values : List json → Bool
  | [] => true
  | value :: rest => value.is_wire_value && json.are_wire_values rest

/-- And of the members of an object. -/
def json.are_wire_members : List (String × json) → Bool
  | [] => true
  | (_, value) :: rest => value.is_wire_value && json.are_wire_members rest

end

/-- A member of such an object is such a value. -/
theorem json.is_wire_value_lookup {members : List (String × json)} {key : String} {value : json}
    (h : json.are_wire_members members = true) (hlookup : members.lookup key = some value) :
    value.is_wire_value = true := by
  induction members with
  | nil => cases hlookup
  | cons member rest ih =>
      obtain ⟨k, v⟩ := member
      rw [json.are_wire_members, Bool.and_eq_true] at h
      rw [List.lookup_cons] at hlookup
      split at hlookup
      · cases hlookup
        exact h.1
      · exact ih h.2 hlookup

/-- So is what is found in one. -/
theorem json.is_wire_value_find? {msg value : json} {key : String}
    (h : msg.is_wire_value = true) (hfind : msg.find? key = some value) :
    value.is_wire_value = true := by
  cases msg with
  | object members =>
      rw [json.is_wire_value] at h
      exact json.is_wire_value_lookup h hfind
  | _ => cases hfind

/-- While fewer than `2 ^ 63` requests are sent and every message came as text, no
future is ever completed. -/
theorem wire_futures_pending (events : List client_event)
    (hwire : ∀ msg, .on_message msg ∈ events → msg.is_wire_value = true)
    (hfew : (events.filter client_event.is_send).length < 2 ^ 63) (call : Nat)
    (state : future_state)
    (hstate : (client_run.after handler events).client.futures[call]? = some state) :
    state = .pending := by
  -- by induction on the run, from its end
  induction events using List.reverseRecOn generalizing call state with
  | nil => cases hstate
  | append_singleton past e ih =>
      have htable := @after_table handler past
      have hlen := @after_requests_length handler past
      rw [List.filter_append, List.length_append] at hfew
      have ih' := ih (fun msg hmsg => hwire msg (List.mem_append_left _ hmsg)) (by omega)
      rw [after_concat] at hstate
      cases e with
      | send_request method params =>
          obtain ⟨new, hfutures, hkept⟩ :=
            send_request_futures (client_run.after handler past).client method params
          change (client.send_request _ method params).1.futures[call]? = some state at hstate
          rw [hfutures] at hstate
          rcases Nat.lt_or_ge call (client_run.after handler past).client.futures.length
            with hlt | hge
          · rw [List.getElem?_append_left hlt] at hstate
            exact ih' call state hstate
          · rw [List.getElem?_append_right hge, List.getElem?_singleton] at hstate
            have hnew : new = state := by
              split at hstate
              · exact Option.some.inj hstate
              · cases hstate
            subst hnew
            -- a request that failed at once would have found its ID taken, and it is new
            rcases hkept with ⟨hpending, -⟩ | ⟨-, htaken, -⟩
            · exact hpending
            · exact absurd (htable.next_fresh (by omega)) htaken
      | on_message msg =>
          rcases htable.on_message msg with ⟨res, id, call', -, -, hid, ho, -⟩ | heq
          · -- the ID is negative as text and positive as a request's
            have hneg := json.is_wire_value_find? (hwire msg (by simp)) hid
            rw [json.is_wire_value, decide_eq_true_eq] at hneg
            have hcall := outstanding_lt ho
            obtain ⟨⟨req, hreq, hreqid⟩, -⟩ := ho
            rw [htable.numbered call' req hreq] at hreqid
            have hpos := Int64.toInt_ofNat_of_lt (n := call' + 1) (by omega)
            rw [json_rpc_id.int64.inj hreqid] at hpos
            omega
          · rw [heq] at hstate
            exact ih' call state hstate

/-! ## The contract

The client meets it exactly when no response is missed and the counter has not come
round.

One direction takes the contract at the moment the missed response comes in: the future would be
complete and the entry gone, and neither has changed. The other puts the step lemmas together.
The bound on the number of calls is the distinctness of their IDs, in both directions. -/

/-- In every run, the client keeps its contract if and only if no well-formed response
to an outstanding request carries its ID as an unsigned number, and `send_request` is
called at most `2 ^ 64` times. -/
theorem client_completes_futures
    (handler : Option (String → Option json → Except error json)) (events : List client_event) :
    client_contract handler events ↔ client_meets handler events := by
  constructor
  · intro h
    refine ⟨?_, ?_⟩
    · intro past msg rest hevents hmiss
      obtain ⟨value, call, id, outcome, hwire, hawaits⟩ := hmiss
      have htable := @after_table handler past
      -- a missed response would leave the promise pending, against the contract
      have hafter := (h.completes past msg rest call id outcome hevents hawaits).2
      rw [after_concat, step_of_misses htable ⟨value, call, id, outcome, hwire, hawaits⟩] at hafter
      have hmem := (htable.table id call).mpr hawaits.2
      rw [hafter, List.mem_filter, bne_iff_ne] at hmem
      exact hmem.2 rfl
    · rw [← @after_requests_length handler,
        ← requests_distinct (after_table events)]
      exact h.distinct
  · intro h
    refine ⟨?_, ?_, ?_, ?_⟩
    -- back: a response that is awaited is signed, so it completes its promise
    · intro past msg rest call id outcome hevents hawaits
      rw [after_concat,
        step_of_awaits (after_table past) hawaits (h.signed past msg rest hevents)]
      exact ⟨rfl, rfl⟩
    · intro past msg rest _ hother
      rw [after_concat, step_of_not_awaits (after_table past) hother]
      exact ⟨rfl, rfl⟩
    -- a promise is completed once, since its entry goes with the completion
    · rintro past rest call outcome rfl hready
      exact after_settled rest hready
    · rw [requests_distinct (after_table events), after_requests_length]
      exact h.few

end Runs

/-- The response to request 1, as the parser reads
`{"jsonrpc":"2.0","id":1,"result":{}}`. -/
def reply_to_first : json :=
  .object [("id", .number_unsigned 1), ("jsonrpc", .string "2.0"), ("result", .object [])]

/-- The reply arrives and the future of the request stays pending. -/
theorem reply_over_the_wire_is_missed :
    reply_to_first.is_wire_value = true ∧
      ¬client_contract none
        [.send_request "tools/list" none, .on_message reply_to_first] := by
  refine ⟨by decide, fun h => ?_⟩
  have hto : response_to reply_to_first = some (1, .ok (.object [])) := rfl
  have hout : (client_run.after none [.send_request "tools/list" none]).outstanding 0 1 :=
    ⟨⟨_, rfl, rfl⟩, rfl⟩
  have hcompleted := (h.completes [.send_request "tools/list" none] reply_to_first [] 0 1
    (.ok (.object [])) rfl ⟨hto, hout⟩).1
  have hpending : (client_run.after none
      [.send_request "tools/list" none, .on_message reply_to_first]).client.futures =
        [.pending] := rfl
  rw [List.singleton_append, hpending] at hcompleted
  cases hcompleted

end SynapseMcp
