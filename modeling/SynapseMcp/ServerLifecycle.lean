/-
`server::start`, `stop`, `wait` and `wait_for`, and the registration before them.

A `host` is a server with its owner and a transport. The owner is the one thread that
calls `start()`, `wait()` and `wait_for()`; its position is data, one place for each point
at which `start()` or `wait()` has released the mutex. Any thread calls `stop()` at any
time, so the close callback is no step of its own: it makes such a call. While it serves,
the server is a `world`, whose reader and worker take their steps here too.

Of the transport only what the owner does to it is kept, and what is assumed of it: a
`wait()` that begins after a `stop()` returns success. Its `start()` returns, fails or
throws, and messages come in from then on.

Joining a thread that has finished does not fail.
-/
import SynapseMcp.Application
import SynapseMcp.ServerRegistry
import SynapseMcp.ServerSteps

set_option autoImplicit false

namespace SynapseMcp

open Transition

/-! ## Options

What `start` refuses before anything is made, and the texts of its refusals. -/

/-- `server_info`, as it is handed over. -/
structure raw_info where
  name : List UInt8
  version : List UInt8

/-- `server_options`, less the hooks; a rate that is not finite is `none`. -/
structure server_options where
  max_pending_requests : Nat := 16
  tool_burst : Nat := 16
  tool_requests_per_second : Option ℚ := some 16
  /-- Whether the clock is set. -/
  now : Bool := true

/-- What `start` accepts. -/
def server_options.valid (o : server_options) (info : raw_info) : Bool :=
  !info.name.isEmpty && !info.version.isEmpty && safe_text info.name && safe_text info.version &&
    o.max_pending_requests ≠ 0 && o.tool_burst ≠ 0 &&
    o.tool_requests_per_second.any (fun rate => 0 < rate) && o.now

/-- `start()` of a server that is not being configured. -/
def already_started : sdk_error := local_error "Server already started or stopped"
/-- `start()` with options or an info that it does not accept. -/
def invalid_limits : sdk_error := local_error "Invalid server limits"
/-- A `stop()` came in between. -/
def interrupted : sdk_error := local_error "Server stopped during startup"
/-- The executor or the transport could not be started. -/
def cannot_start : sdk_error := ⟨.resource_exhausted, "Cannot start server work"⟩

/-! ## The host

`start()` has the mutex in three short sections; in between it constructs the executor and
starts the transport. A `stop()` may come in between any two of them, and what the owner finds
when it locks again decides whether it goes on or cleans up. The places of `owner_at` are these.

The executor is made under no lock and published in a section, so `stop()` sees none of it
before that. The transport appears only as what it has been told and whether it has been waited
for. What it does in between is the matter of the machines of the transport, and nothing of it
is assumed here. -/

/-- The executor, as far as `stop()` can see it. -/
inductive executor_at where
  | absent
  /-- Constructed, not yet in `executor_`. -/
  | made
  | published
  deriving DecidableEq

/-- What a wait is part of. -/
inductive owner_call where
  /-- The cleanup of `start()`, which then returns the error. -/
  | start (err : sdk_error)
  /-- `wait()`, or `wait_for()` if it is bounded. -/
  | wait (bounded : Bool)

inductive owner_at where
  | idle
  /-- In `start()`, about to construct the executor. -/
  | creating
  | publishing
  /-- The executor is published and nobody interrupted; `transport_start_` is next. -/
  | launching
  /-- Inside `transport_start_`. -/
  | starting
  | committing
  /-- In the `stop()` of a start that failed. -/
  | cleaning (call : Nat) (err : sdk_error)
  /-- Inside `transport_wait_`; `stopped` tells whether the transport was when it began. -/
  | waiting (call : owner_call) (stopped : Bool)
  /-- Inside `executor->wait`. -/
  | joining (call : owner_call)
  /-- Both waits returned success; the last section is next. -/
  | finishing (call : owner_call)

/-- What the transport has been told: how often to start, to stop, and whether a `wait`
that began after that has returned. -/
structure transport_at where
  starts : Nat
  stopped : Bool
  joined : Bool

/-- A server with its options, its executor, its owner and what its transport has been told. -/
structure host where
  info_ : raw_info
  options_ : server_options
  policy_ : server_policy
  world : world
  executor_ : executor_at
  owner : owner_at
  transport : transport_at
  /-- The registrations that succeeded; nothing in the server reads it. -/
  registered : List registration

/-- What the constructor leaves. -/
def server.constructed (info : raw_info) : server :=
  { server.started ⟨text_of info.name, text_of info.version⟩ [] [] [] with state_ := .configuring }

/-- The constructor: nothing is running, and registrations are accepted. -/
def host.constructed (info : raw_info) (options : server_options) : host where
  info_ := info
  options_ := options
  policy_ := .make options.tool_burst (options.tool_requests_per_second.getD 0)
  world := ⟨.constructed info, .make 0, .idle, .outside, [], []⟩
  executor_ := .absent
  owner := .idle
  transport := ⟨0, false, false⟩
  registered := []

namespace host

/-- The lifecycle state. -/
def state_ (h : host) : lifecycle := h.world.server.state_

/-- The section of a thread that only sets `state_`. -/
def set_state (h : host) (state : lifecycle) : host :=
  { h with world := { h.world with server := { h.world.server with state_ := state } } }

/-- The owner calls `stop()` in `start()`, which is to return `err`. -/
def clean (h : host) (err : sdk_error) : host :=
  { h with
    world := { h.world with stops := h.world.stops ++ [.entered] }
    owner := .cleaning h.world.stops.length err }

/-- Where a call of `stop()` is after its section: it goes on to the executor that was
published, if one was. -/
def after_section (h : host) (goes_on : Bool) : stop_at :=
  if !goes_on then .returned else if h.executor_ = .published then .executor else .transport

end host

/-- Whose step it is, and what a call of the owner returns. -/
inductive host_action where
  | register (r : registration)
  /-- A call of `start()` leaves `configuring` and goes on. -/
  | start
  /-- `start()` returns; `left` tells whether it was the call that left `configuring`. -/
  | start_returns (left : Bool) (result : Option sdk_error)
  | owner
  | wait
  | wait_returns (result : Except sdk_error Bool)
  | serve (a : server_action)
  | application (env : application_answers)
  | call_stop
  | stop

/-- The steps of the reader and the worker that go on as in `world.Step`. -/
def server_action.served : server_action → Bool
  | .receive _ | .reject _ | .reader | .respond _ | .worker => true
  | .deliver _ | .application _ | .call_stop | .stop | .owner => false

/-- The calls of `start()`, `wait()` and `stop()` from one release of the mutex to the next, and
the steps of a server that serves. -/
inductive host.Step : host → host_action → host → Prop
  | register (h : host) (r : registration) :
      Step h (.register r)
        { h with
          world := { h.world with server := (h.world.server.register r).1 }
          registered := h.registered ++
            if (h.world.server.register r).2.isOk then [r] else [] }
  /-- A call of `start()` that finds the server not configuring. -/
  | start_refused {h : host} (howner : h.owner = .idle) (hstate : h.state_ ≠ .configuring) :
      Step h (.start_returns false (some already_started)) h
  | start_invalid {h : host} (howner : h.owner = .idle) (hstate : h.state_ = .configuring)
      (hvalid : h.options_.valid h.info_ = false) :
      Step h (.start_returns true (some invalid_limits)) (h.set_state .stopped)
  | start_enters {h : host} (howner : h.owner = .idle) (hstate : h.state_ = .configuring)
      (hvalid : h.options_.valid h.info_ = true) :
      Step h .start { h.set_state .starting with owner := .creating }
  | create_throws {h : host} (howner : h.owner = .creating) : Step h .owner (h.clean cannot_start)
  | create {h : host} (howner : h.owner = .creating) :
      Step h .owner
        { h with
          world := { h.world with run := .make h.options_.max_pending_requests }
          executor_ := .made
          owner := .publishing }
  | publish {h : host} (howner : h.owner = .publishing) (hstate : h.state_ = .starting) :
      Step h .owner { h with executor_ := .published, owner := .launching }
  | publish_interrupted {h : host} (howner : h.owner = .publishing)
      (hstate : h.state_ ≠ .starting) :
      Step h .owner ({ h with executor_ := .published }.clean interrupted)
  | transport_start {h : host} (howner : h.owner = .launching) :
      Step h .owner
        { h with
          transport := { h.transport with starts := h.transport.starts + 1 }
          owner := .starting }
  | transport_started {h : host} (howner : h.owner = .starting) :
      Step h .owner { h with owner := .committing }
  /-- It returned the error. -/
  | transport_start_fails {h : host} (err : sdk_error) (howner : h.owner = .starting) :
      Step h .owner (h.clean err)
  | transport_start_throws {h : host} (howner : h.owner = .starting) :
      Step h .owner (h.clean cannot_start)
  | commit {h : host} (howner : h.owner = .committing) (hstate : h.state_ = .starting) :
      Step h (.start_returns true none) { h.set_state .running with owner := .idle }
  | commit_interrupted {h : host} (howner : h.owner = .committing) (hstate : h.state_ ≠ .starting) :
      Step h .owner (h.clean interrupted)
  /-- The `stop()` of the cleanup returned. -/
  | cleaned {h : host} {call : Nat} {err : sdk_error} (howner : h.owner = .cleaning call err)
      (hcall : h.world.stops[call]? = some .returned) :
      Step h .owner { h with owner := .waiting (.start err) h.transport.stopped }
  | wait {h : host} (bounded : Bool) (howner : h.owner = .idle) :
      Step h .wait { h with owner := .waiting (.wait bounded) h.transport.stopped }
  /-- `transport_wait_` returned success; the section reads `executor_`. -/
  | transport_waits {h : host} {call : owner_call} {stopped : Bool}
      (howner : h.owner = .waiting call stopped) :
      Step h .owner
        { h with
          transport := { h.transport with joined := h.transport.joined || stopped }
          owner := if h.executor_ = .published then .joining call else .finishing call }
  /-- It failed, which it does not after a `stop()`. -/
  | transport_wait_fails {h : host} (err : sdk_error) {bounded : Bool}
      (howner : h.owner = .waiting (.wait bounded) false) :
      Step h (.wait_returns (.error err)) { h with owner := .idle }
  | cleanup_wait_fails {h : host} {err : sdk_error}
      (howner : h.owner = .waiting (.start err) false) :
      Step h (.start_returns true (some err)) { h with owner := .idle }
  | transport_wait_expires {h : host} {stopped : Bool}
      (howner : h.owner = .waiting (.wait true) stopped) :
      Step h (.wait_returns (.ok false)) { h with owner := .idle }
  | executor_waits {h : host} {call : owner_call} (howner : h.owner = .joining call)
      (hfinished : h.world.run.executor.finished_ = true) :
      Step h .owner { h with owner := .finishing call }
  | executor_wait_expires {h : host} (howner : h.owner = .joining (.wait true)) :
      Step h (.wait_returns (.ok false)) { h with owner := .idle }
  | wait_returns {h : host} {bounded : Bool} (howner : h.owner = .finishing (.wait bounded)) :
      Step h (.wait_returns (.ok true)) { h.set_state .stopped with owner := .idle }
  | cleanup_ends {h : host} {err : sdk_error} (howner : h.owner = .finishing (.start err)) :
      Step h (.start_returns true (some err)) { h.set_state .stopped with owner := .idle }
  /-- The transport calls the message callback. -/
  | deliver {h : host} (wire : json) (hstarted : 0 < h.transport.starts)
      (hreader : h.world.reader = .idle) :
      Step h (.serve (.deliver wire))
        { h with world := { h.world with reader := .receiving wire } }
  | serve {h : host} {a : server_action} {w : SynapseMcp.world} (hserved : a.served = true)
      (hexecutor : h.executor_ ≠ .absent) (hstep : world.Step h.world a w) :
      Step h (.serve a) { h with world := w }
  /-- The worker runs `application()`. -/
  | application {h : host} {item : work closure} (env : application_answers)
      (hworker : h.world.run.worker = .calling item) (hcall : h.world.call = .applying) :
      Step h (.application env)
        { h with
          policy_ := (application h.world.server env item.call.req ⟨h.policy_, []⟩).1.policy_
          world := { h.world with
            call := .replying
              (match (application h.world.server env item.call.req ⟨h.policy_, []⟩).2 with
              | .returned reply => reply
              | .threw => failure item.call.req.id .internal_error "Internal error") } }
  /-- Any thread calls `stop()`. -/
  | call_stop (h : host) :
      Step h .call_stop { h with world := { h.world with stops := h.world.stops ++ [.entered] } }
  | stop_server {h : host} {call : Nat} (hcall : h.world.stops[call]? = some .entered) :
      Step h .stop
        { h with
          world := { h.world with
            server := h.world.server.stop.1
            stops := h.world.stops.set call (h.after_section h.world.server.stop.2) } }
  | stop_executor {h : host} {call : Nat} (hcall : h.world.stops[call]? = some .executor) :
      Step h .stop
        { h with
          world := { h.world with
            run := h.world.run.stop.1
            stops := h.world.stops.set call (.cleaning
              (.requesting h.world.run.stop.2.active_stop h.world.run.stop.2.discarded)) } }
  | stop_cleans {h : host} {call : Nat} {rest : cleanup}
      (hcall : h.world.stops[call]? = some (.cleaning rest)) :
      Step h .stop
        { h with
          world := { h.world with
            server := (rest.next h.world.server h.world.reader.keeps).1
            stops := h.world.stops.set call
              (.cleaned (rest.next h.world.server h.world.reader.keeps).2) } }
  | stop_transport {h : host} {call : Nat} (hcall : h.world.stops[call]? = some .transport) :
      Step h .stop
        { h with
          world := { h.world with stops := h.world.stops.set call .returned }
          transport := { h.transport with stopped := true } }

/-- A server constructed with these options, and its owner. -/
def host_runs (info : raw_info) (options : server_options) : System host host_action where
  init h := h = .constructed info options
  step := host.Step

/-! ## What serving leaves alone

The steps of reader and worker are those of `world`, and most of what is said of the lifecycle
does not see them: they register nothing, they do not set `state_`, and of the calls of `stop()`
they make some and take none further. These lemmas let the proofs about the host pass over them. -/

section Serving

variable {w v : world} {a : server_action}

/-- What is registered is the same. -/
structure same_registries (s t : server) : Prop where
  info : t.info_ = s.info_
  tools : t.tools_ = s.tools_
  prompts : t.prompts_ = s.prompts_
  resources : t.resources_ = s.resources_

/-- And the lifecycle is. -/
structure same_configuration (s t : server) : Prop extends same_registries s t where
  state : t.state_ = s.state_

/-- The section of a received message registers nothing and leaves the lifecycle as it is. -/
theorem received_configuration {s : server} {answers : emit_answers} {wire : json}
    {r : section_result} (h : server.received s answers wire r) :
    same_configuration s r.server := by
  cases h with
  | duplicate =>
      dsimp only
      split <;> exact ⟨⟨rfl, rfl, rfl, rfl⟩, rfl⟩
  | _ => exact ⟨⟨rfl, rfl, rfl, rfl⟩, rfl⟩

/-- Nor does what `cancel` and `stop` of the executor do after their locks. -/
theorem cleanup_configuration (rest : cleanup) (s : server) (keeps : Nat → Bool) :
    same_configuration s (rest.next s keeps).1 := by
  rcases cleanup_next_cases rest s keeps with
    ⟨hs, -⟩ | ⟨op, -, hs, -⟩ | ⟨op, -, hs, -⟩ | ⟨op, hs, -⟩
  all_goals
    rw [hs]
    exact ⟨⟨rfl, rfl, rfl, rfl⟩, rfl⟩

/-- No step of the reader or the worker registers anything or moves the lifecycle. -/
theorem served_configuration (hserved : a.served = true) (hstep : world.Step w a v) :
    same_configuration w.server v.server := by
  cases hstep with
  | receive answers hreader => exact received_configuration (w.server.receive_received answers _)
  | reader_cleans hreader => exact cleanup_configuration _ _ _
  | deliver | application | call_stop | stop_server | stop_executor | stop_cleans | stop_transport
  | start_commits | wait_returns => cases hserved
  | _ => exact ⟨⟨rfl, rfl, rfl, rfl⟩, rfl⟩

/-- Serving makes calls of `stop()`, and takes none of them further. -/
theorem served_stops (hserved : a.served = true) (hstep : world.Step w a v) :
    v.stops = w.stops ∨ v.stops = w.stops ++ [.entered] := by
  cases hstep with
  -- a message that closes the session ends in a call of `stop()`, any other in none
  | @receive wire a hreader =>
      cases (w.server.receive a wire).next with
      | stop => exact .inr rfl
      | done | enqueue | cancel => exact .inl rfl
  | @leave_shared op threw hreader hshared =>
      cases threw
      · exact .inl rfl
      · exact .inr rfl
  | @reader_completes op threw hreader =>
      cases threw
      · exact .inl rfl
      · exact .inr rfl
  | reject_failed | respond_failed => exact .inr rfl
  | deliver | application | call_stop | stop_server | stop_executor | stop_cleans | stop_transport
  | start_commits | wait_returns => cases hserved
  | _ => exact .inl rfl

end Serving

end SynapseMcp
