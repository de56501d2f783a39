/-
What `server::start` leaves behind, however it is interrupted.

`start` releases the mutex four times: after it has left `configuring`, after the
executor is published, around the transport's `start`, and in its cleanup. The other
threads reach the server there, and all they can do to the lifecycle is `stop()`
(`background`). So the invariant is one line for each position of the owner
(`host.owner_ok`), and one more about `stop()` itself: a call that has returned has
stopped the transport, or came to a server that had stopped (`lifecycle_inv`).
-/
import SynapseMcp.ServerLifecycle
import SynapseMcp.Places

set_option autoImplicit false

namespace SynapseMcp

open Transition Places

/-! ## The lifecycle

The lifecycle goes one way, and its rank says how far it is. `stop()` takes any server that is
not stopped to `stopping`, and leaves a stopped one alone; the step from there to `stopped` is
the owner's, at the end of a cleanup or of `wait()`. -/

/-- How far the lifecycle is. -/
def lifecycle.rank : lifecycle → Nat
  | .configuring => 0
  | .starting => 1
  | .running => 2
  | .stopping => 3
  | .stopped => 4

section Steps

variable {h t : host} {a : host_action} {w v : SynapseMcp.world} {b : server_action} {limit : Nat}

@[simp] theorem host.state_set_state (h : host) (state : lifecycle) :
    (h.set_state state).state_ = state := rfl

@[simp] theorem host.state_clean (h : host) (err : sdk_error) :
    (h.clean err).state_ = h.state_ := rfl

/-- Registering a tool, a resource or a prompt moves nothing in the lifecycle, whether it is
accepted or refused. -/
theorem server.register_state (s : server) (r : registration) :
    (s.register r).1.state_ = s.state_ := by
  rcases s.register_cases r with ⟨err, heq⟩ | ⟨-, -, hr⟩
  · rw [heq]
  · generalize (s.register r).1 = s' at hr
    cases hr <;> rfl

/-- The section of `stop()` finds a stopped server, or leaves a stopping one. -/
theorem server.stop_state (s : server) :
    (s.state_ = .stopped ∧ s.stop = (s, false)) ∨
      (s.state_ ≠ .stopped ∧ s.stop.1.state_ = .stopping ∧ s.stop.2 = true) := by
  by_cases hstate : s.state_ = .stopped
  · refine .inl ⟨hstate, ?_⟩
    unfold server.stop
    rw [if_pos hstate]
  · refine .inr ⟨hstate, ?_⟩
    unfold server.stop
    rw [if_neg hstate]
    exact ⟨rfl, rfl⟩

/-! ## What the other threads do

While the owner is in `start()` the reader and the worker run, and both may call `stop()`. All
that the owner has to reckon with is collected in `background`: the lifecycle as it was, or
moved on by `stop()`; the owner where it was; the executor and the transport not taken away. The
proof goes through the steps once, and the invariant below uses nothing else of them. -/

/-- The steps that are not the owner's. -/
def host_action.background : host_action → Bool
  | .register _ | .serve _ | .application _ | .call_stop | .stop => true
  | .start | .start_returns _ _ | .owner | .wait | .wait_returns _ => false

/-- What a step of another thread leaves to the owner. -/
structure background (h t : host) : Prop where
  owner : t.owner = h.owner
  executor_ : t.executor_ = h.executor_
  starts : t.transport.starts = h.transport.starts
  joined : t.transport.joined = h.transport.joined
  stopped : h.transport.stopped = true → t.transport.stopped = true
  state : t.state_ = h.state_ ∨ (h.state_ ≠ .stopped ∧ t.state_ = .stopping)
  /-- A call of `stop()` returns when it has stopped the transport, or at once. -/
  returned : ∀ call : Nat, t.world.stops[call]? = some .returned →
    h.world.stops[call]? = some .returned ∨ t.transport.stopped = true ∨ h.state_ = .stopped
  run : ∀ limit, runtime_inv limit h.world.run → runtime_inv limit t.world.run
  finished : h.world.run.executor.finished_ = true → t.world.run.executor.finished_ = true

/-- Calls of `stop()` that begin have not returned. -/
theorem returned_of_entered {stops : List stop_at} {call : Nat}
    (h : (stops ++ [.entered])[call]? = some .returned) : stops[call]? = some .returned := by
  rcases of_concat h with hold | ⟨_, hnew⟩
  · exact hold
  · cases hnew

/-- The invariant of the executor holds through every step of the server, since a step is one of
the executor or leaves it alone. -/
theorem world.Step.run_inv (hstep : world.Step w b v) (hrun : runtime_inv limit w.run) :
    runtime_inv limit v.run := by
  rcases hstep.run_cases with heq | ⟨req, op, -, heq⟩ | ⟨c, -, -, hcore⟩
  · rwa [heq]
  · rw [heq]
    exact hrun.enqueue _ _
  · exact hrun.step hcore

/-- A worker that has finished does not come back. -/
theorem world.Step.stays_finished (hstep : world.Step w b v)
    (hfinished : w.run.executor.finished_ = true) : v.run.executor.finished_ = true := by
  rcases hstep.run_cases with heq | ⟨req, op, -, heq⟩ | ⟨c, -, -, hcore⟩
  · rwa [heq]
  · rw [heq]
    exact (runtime.Step.enqueue w.run req.id (some ⟨req, op⟩)).finished hfinished
  · exact hcore.finished hfinished

/-- A call of `stop()` that returns from its section found nothing to do. -/
theorem host.after_section_returned {goes_on : Bool} (hret : h.after_section goes_on = .returned) :
    goes_on = false := by
  cases goes_on with
  | false => rfl
  | true =>
      by_cases hexecutor : h.executor_ = .published
      · simp [host.after_section, hexecutor] at hret
      · simp [host.after_section, hexecutor] at hret

/-- The steps of the other threads, one by one. Those that act on the server are sections of
`receive`, of the worker, or of `stop()`. -/
theorem host.Step.background (hstep : host.Step h a t) (hback : a.background = true) :
    SynapseMcp.background h t := by
  cases hstep with
  | register r =>
      exact ⟨rfl, rfl, rfl, rfl, id, .inl (h.world.server.register_state r), fun _ hc => .inl hc,
        fun _ hr => hr, id⟩
  | deliver | application | call_stop =>
      exact ⟨rfl, rfl, rfl, rfl, id, .inl rfl,
        fun _ hc => .inl (by first | exact hc | exact returned_of_entered hc),
        fun _ hr => hr, id⟩
  -- what serving does to the server leaves its configuration, and returns from no `stop()`
  | serve hserved hexecutor hworld =>
      refine ⟨rfl, rfl, rfl, rfl, id, .inl (served_configuration hserved hworld).state, ?_,
        fun _ hr => hworld.run_inv hr, hworld.stays_finished⟩
      intro call hc
      rcases served_stops hserved hworld with heq | heq
      · exact .inl (heq ▸ hc)
      · exact .inl (returned_of_entered (heq ▸ hc))
  | stop_server hcall =>
      refine ⟨rfl, rfl, rfl, rfl, id, ?_, ?_, fun _ hr => hr, id⟩
      · rcases h.world.server.stop_state with ⟨-, heq⟩ | ⟨hstate, heq, -⟩
        · exact .inl (congrArg (fun r => r.1.state_) heq)
        · exact .inr ⟨hstate, heq⟩
      · intro other hc
        rcases of_set hc with ⟨_, hold⟩ | ⟨_, hnew⟩
        · exact .inl hold
        -- the section returns only where it found the server stopping or stopped
        · have hgoes := host.after_section_returned hnew.symm
          rcases h.world.server.stop_state with ⟨hstate, -⟩ | ⟨-, -, htrue⟩
          · exact .inr (.inr hstate)
          · rw [hgoes] at htrue
            cases htrue
  | stop_executor hcall =>
      refine ⟨rfl, rfl, rfl, rfl, id, .inl rfl, ?_, fun _ hr => hr.stop, id⟩
      intro other hc
      rcases of_set hc with ⟨_, hold⟩ | ⟨_, hnew⟩
      · exact .inl hold
      · cases hnew
  | @stop_cleans call rest hcall =>
      refine ⟨rfl, rfl, rfl, rfl, id, .inl (cleanup_configuration rest _ _).state, ?_,
        fun _ hr => hr, id⟩
      intro other hc
      rcases of_set hc with ⟨_, hold⟩ | ⟨_, hnew⟩
      · exact .inl hold
      · cases hrest : (rest.next h.world.server h.world.reader.keeps).2 with
        | none =>
            rw [hrest] at hnew
            cases hnew
        | some rest' =>
            rw [hrest] at hnew
            cases hnew
  -- the last part of `stop()`: the transport is told, and the call returns
  | stop_transport hcall =>
      exact ⟨rfl, rfl, rfl, rfl, fun _ => rfl, .inl rfl, fun _ _ => .inr (.inl rfl),
        fun _ hr => hr, id⟩
  | _ => cases hback

/-! ## The invariant

A position of the owner in `start()` promises what has been made by then and not yet undone:
before the executor, with it, with the transport started, and in the cleanup the parts still to
be stopped. What the other threads do to the lifecycle is allowed for at each position.

Three kinds of positions are told apart. `resting` is outside of `start()`, `in_start` is on the
way through it, with the executor and the starts of the transport it has come to, and `failing`
is its cleanup. In the last one the server cannot be `stopped` yet, since that is the cleanup's
own last step, and it is no longer `configuring`; what else has been made is left open, as a
cleanup begins wherever something fails. -/

/-- Nothing of a `start()` is under way. -/
def host.resting (h : host) : Prop :=
  h.executor_ ≠ .made ∧ h.transport.starts ≤ 1 ∧
    (h.state_ = .configuring → h.executor_ = .absent ∧ h.transport.starts = 0)

/-- `start()` is on its way, so far with this executor and so many starts of the transport. -/
def host.in_start (h : host) (executor : executor_at) (starts : Nat) : Prop :=
  h.executor_ = executor ∧ h.transport.starts = starts ∧
    h.state_ ≠ .configuring ∧ h.state_ ≠ .stopped

/-- `start()` cleans up. -/
def host.failing (h : host) : Prop :=
  h.executor_ ≠ .made ∧ h.transport.starts ≤ 1 ∧ h.state_ ≠ .configuring ∧ h.state_ ≠ .stopped

/-- What holds at each position of the owner. -/
def host.owner_ok (h : host) : Prop :=
  match h.owner with
  | .idle | .waiting (.wait _) _ | .joining (.wait _) => h.resting
  | .creating => h.in_start .absent 0
  | .publishing => h.in_start .made 0
  | .launching => h.in_start .published 0
  | .starting | .committing => h.in_start .published 1
  | .cleaning _ _ => h.failing
  | .waiting (.start _) stopped => h.failing ∧ h.transport.stopped = true ∧ stopped = true
  | .joining (.start _) =>
      h.failing ∧ h.transport.stopped = true ∧ h.transport.joined = true
  | .finishing (.wait _) => h.resting ∧ h.world.run.executor.finished_ = true
  | .finishing (.start _) =>
      h.failing ∧ h.transport.stopped = true ∧ h.transport.joined = true ∧
        h.world.run.executor.finished_ = true

/-- What holds in every reachable state: the executor's own invariant, what a `stop()` that has
returned has done, and what the owner's position promises. -/
structure lifecycle_inv (h : host) : Prop where
  run : ∃ limit, runtime_inv limit h.world.run
  /-- A call of `stop()` that returned has stopped the transport, or found the server stopped. -/
  returned : ∀ call : Nat, h.world.stops[call]? = some .returned →
    h.transport.stopped = true ∨ h.state_ = .stopped
  /-- What stands for an executor before there is one has no worker. -/
  unmade : h.executor_ = .absent → h.world.run.executor.finished_ = true
  owner : h.owner_ok

/-! Each is kept by what the other threads do. -/

/-- Only the owner makes the server a stopped one, at the end of its cleanup or of `wait()`. -/
theorem background.not_stopped (hb : SynapseMcp.background h t) (hstate : h.state_ ≠ .stopped) :
    t.state_ ≠ .stopped := by
  rcases hb.state with heq | ⟨-, heq⟩
  · rwa [heq]
  · rw [heq]
    decide

/-- A server that has left `configuring` does not come back to it. -/
theorem background.not_configuring (hb : SynapseMcp.background h t)
    (hstate : h.state_ ≠ .configuring) : t.state_ ≠ .configuring := by
  rcases hb.state with heq | ⟨-, heq⟩
  · rwa [heq]
  · rw [heq]
    decide

/-- Between calls of `start()` the other threads make nothing that would have to be undone. -/
theorem background.resting (hb : SynapseMcp.background h t) (hr : h.resting) : t.resting := by
  rw [host.resting, hb.executor_, hb.starts]
  refine ⟨hr.1, hr.2.1, ?_⟩
  intro hstate
  refine hr.2.2 ?_
  by_contra hne
  exact hb.not_configuring hne hstate

/-- On its way `start()` keeps the executor it made and the number of starts of the transport.
-/
theorem background.in_start (hb : SynapseMcp.background h t) {executor : executor_at}
    {starts : Nat} (hi : h.in_start executor starts) : t.in_start executor starts := by
  rw [host.in_start, hb.executor_, hb.starts]
  exact ⟨hi.1, hi.2.1, hb.not_configuring hi.2.2.1, hb.not_stopped hi.2.2.2⟩

/-- In its cleanup it keeps what it has still to stop. -/
theorem background.failing (hb : SynapseMcp.background h t) (hf : h.failing) : t.failing := by
  rw [host.failing, hb.executor_, hb.starts]
  exact ⟨hf.1, hf.2.1, hb.not_configuring hf.2.2.1, hb.not_stopped hf.2.2.2⟩

/-- At each position of the owner, from the three lemmas before. -/
theorem background.owner_ok (hb : SynapseMcp.background h t) (ho : h.owner_ok) : t.owner_ok := by
  unfold host.owner_ok at ho ⊢
  rw [hb.owner]
  cases howner : h.owner with
  | idle =>
      rw [howner] at ho
      exact hb.resting ho
  | creating | publishing | launching | starting | committing =>
      rw [howner] at ho
      exact hb.in_start ho
  | cleaning call err =>
      rw [howner] at ho
      exact hb.failing ho
  | waiting call stopped =>
      rw [howner] at ho
      cases call with
      | wait bounded => exact hb.resting ho
      | start err => exact ⟨hb.failing ho.1, hb.stopped ho.2.1, ho.2.2⟩
  | joining call =>
      rw [howner] at ho
      cases call with
      | wait bounded => exact hb.resting ho
      | start err => exact ⟨hb.failing ho.1, hb.stopped ho.2.1, hb.joined ▸ ho.2.2⟩
  | finishing call =>
      rw [howner] at ho
      cases call with
      | wait bounded => exact ⟨hb.resting ho.1, hb.finished ho.2⟩
      | start err =>
          exact ⟨hb.failing ho.1, hb.stopped ho.2.1, hb.joined ▸ ho.2.2.1, hb.finished ho.2.2.2⟩

/-- The invariant holds through a step of another thread: it leaves the owner where it is, and a
server that has stopped stays stopped. -/
theorem background.inv (hb : SynapseMcp.background h t) (hi : lifecycle_inv h) :
    lifecycle_inv t where
  run := by
    obtain ⟨limit, hrun⟩ := hi.run
    exact ⟨limit, hb.run limit hrun⟩
  returned := by
    intro call hcall
    have hstays : h.state_ = .stopped → t.state_ = .stopped := by
      intro hstate
      rcases hb.state with heq | ⟨hne, -⟩
      · rw [heq, hstate]
      · exact absurd hstate hne
    rcases hb.returned call hcall with hold | hstopped | hstate
    · rcases hi.returned call hold with hstopped | hstate
      · exact .inl (hb.stopped hstopped)
      · exact .inr (hstays hstate)
    · exact .inl hstopped
    · exact .inr (hstays hstate)
  unmade := fun habsent => hb.finished (hi.unmade (hb.executor_ ▸ habsent))
  owner := hb.owner_ok hi.owner

/-! And by what the owner does. Between two sections of its own the owner knows only what its
position promises, so a section begins with a case for each state that a `stop()` may have made
meanwhile. Where it finds the server as it left it, it goes on and the promise grows by what it
has just made. Where it does not, it goes into the cleanup, whose promise is the weakest and
follows from that of any position on the way. -/

/-- The executor that stands for none keeps the invariant of executors, as it has no worker and
no queue. -/
theorem make_zero_inv : runtime_inv 0 (runtime.make 0 : runtime closure) := by
  constructor <;>
    simp [runtime.make, owned_executor.make, runtime.admitted, runtime.dequeued,
      runtime.removed, runtime.discarded, runtime.invoked, runtime.returned, worker_at.active,
      worker_at.uninvoked, worker_at.running]

/-- What the constructor makes satisfies the invariant: the owner is idle and nothing was made.
-/
theorem constructed_inv (info : raw_info) (options : server_options) :
    lifecycle_inv (.constructed info options) where
  run := ⟨0, make_zero_inv⟩
  returned := by
    intro call hcall
    cases hcall
  unmade := fun _ => rfl
  owner := ⟨executor_at.noConfusion, Nat.zero_le _, fun _ => ⟨rfl, rfl⟩⟩

/-- A section of the owner that neither makes an executor nor forgets that the server
stopped. -/
theorem lifecycle_inv.section (hi : lifecycle_inv h) (hrun : t.world.run = h.world.run)
    (hstops : t.world.stops = h.world.stops ∨ t.world.stops = h.world.stops ++ [.entered])
    (hstopped : t.transport.stopped = h.transport.stopped)
    (hstate : h.state_ = .stopped → t.state_ = .stopped)
    (hexecutor : t.executor_ = .absent → h.executor_ = .absent) (ho : t.owner_ok) :
    lifecycle_inv t where
  run := hrun ▸ hi.run
  returned := by
    intro call hcall
    have hold : h.world.stops[call]? = some .returned := by
      rcases hstops with heq | heq
      · exact heq ▸ hcall
      · exact returned_of_entered (heq ▸ hcall)
    rcases hi.returned call hold with hs | hs
    · exact .inl (hstopped ▸ hs)
    · exact .inr (hstate hs)
  unmade := fun habsent => hrun ▸ hi.unmade (hexecutor habsent)
  owner := ho

/-- The cleanup of `start()` begins. -/
theorem lifecycle_inv.clean (hi : lifecycle_inv h) (hf : h.failing) (err : sdk_error) :
    lifecycle_inv (h.clean err) :=
  hi.section rfl (.inr rfl) rfl id id hf

/-- On its way or in its cleanup, `start()` leaves the owner the same duties. -/
theorem host.in_start.failing {executor : executor_at} {starts : Nat}
    (hs : h.in_start executor starts) (hexecutor : executor ≠ .made) (hstarts : starts ≤ 1) :
    h.failing :=
  ⟨hs.1 ▸ hexecutor, hs.2.1 ▸ hstarts, hs.2.2⟩

/-- Where the owner comes to rest the server is not being configured, unless it was. -/
theorem host.failing.resting (hf : h.failing) : h.resting :=
  ⟨hf.1, hf.2.1, fun hstate => absurd hstate hf.2.2.1⟩

/-- The invariant holds through every step. The steps of the owner go from position to position,
and each establishes the promise of the next; the others are background. -/
theorem lifecycle_inv.step (hi : lifecycle_inv h) (hstep : host.Step h a t) :
    lifecycle_inv t := by
  by_cases hback : a.background = true
  · exact (hstep.background hback).inv hi
  have ho := hi.owner
  unfold host.owner_ok at ho
  cases hstep with
  | start_refused howner hstate => exact hi
  | start_invalid howner hstate hvalid =>
      rw [howner] at ho
      refine hi.section rfl (.inl rfl) rfl (fun _ => rfl) id ?_
      show host.owner_ok _
      unfold host.owner_ok
      dsimp only [host.set_state]
      rw [howner]
      exact ⟨ho.1, ho.2.1, fun hc => by cases hc⟩
  | start_enters howner hstate hvalid =>
      rw [howner] at ho
      obtain ⟨habsent, hstarts⟩ := ho.2.2 hstate
      refine hi.section rfl (.inl rfl) rfl ?_ id ⟨habsent, hstarts, ?_, ?_⟩
      · intro hstopped
        rw [hstate] at hstopped
        cases hstopped
      · intro hc
        cases hc
      · intro hc
        cases hc
  | create_throws howner =>
      rw [howner] at ho
      exact hi.clean (ho.failing (by decide) (by omega)) _
  | create howner =>
      rw [howner] at ho
      refine
        { run := ?_
          returned := hi.returned
          unmade := fun habsent => by cases habsent
          owner := ⟨rfl, ho.2.1, ho.2.2⟩ }
      -- with no room for requests there is no worker, and the executor has finished
      by_cases hlimit : h.options_.max_pending_requests = 0
      · rw [hlimit]
        exact ⟨0, make_zero_inv⟩
      · exact ⟨_, make_inv (by omega)⟩
  | publish howner hstate =>
      rw [howner] at ho
      exact hi.section rfl (.inl rfl) rfl id (fun habsent => by cases habsent)
        ⟨rfl, ho.2.1, ho.2.2⟩
  | publish_interrupted howner hstate =>
      rw [howner] at ho
      refine hi.section rfl (.inr rfl) rfl id (fun habsent => by cases habsent)
        ⟨by simp [host.clean], ?_, ho.2.2⟩
      show h.transport.starts ≤ 1
      rw [ho.2.1]
      omega
  | transport_start howner =>
      rw [howner] at ho
      refine hi.section rfl (.inl rfl) rfl id id ⟨ho.1, ?_, ho.2.2⟩
      show h.transport.starts + 1 = 1
      rw [ho.2.1]
  | transport_started howner =>
      rw [howner] at ho
      exact hi.section rfl (.inl rfl) rfl id id ho
  | transport_start_fails err howner =>
      rw [howner] at ho
      exact hi.clean (ho.failing (by decide) (by omega)) _
  | transport_start_throws howner =>
      rw [howner] at ho
      exact hi.clean (ho.failing (by decide) (by omega)) _
  | commit howner hstate =>
      rw [howner] at ho
      refine hi.section rfl (.inl rfl) rfl ?_ id ⟨?_, ?_, ?_⟩
      · intro hstopped
        rw [hstate] at hstopped
        cases hstopped
      · exact fun hmade => absurd (ho.1.symm.trans hmade) (by decide)
      · exact Nat.le_of_eq ho.2.1
      · intro hc
        cases hc
  | commit_interrupted howner hstate =>
      rw [howner] at ho
      exact hi.clean (ho.failing (by decide) (by omega)) _
  | @cleaned call err howner hcall =>
      rw [howner] at ho
      -- the `stop()` of the cleanup did not find a stopped server: only the owner stops it
      have hstopped : h.transport.stopped = true :=
        (hi.returned call hcall).resolve_right ho.2.2.2
      exact hi.section rfl (.inl rfl) rfl id id ⟨ho, hstopped, hstopped⟩
  | wait bounded howner =>
      rw [howner] at ho
      exact hi.section rfl (.inl rfl) rfl id id ho
  | @transport_waits call stopped howner =>
      rw [howner] at ho
      refine hi.section rfl (.inl rfl) rfl id id ?_
      unfold host.owner_ok
      by_cases hpublished : h.executor_ = .published
      · rw [if_pos hpublished]
        cases call with
        | wait bounded => exact ho
        | start err =>
            refine ⟨ho.1, ho.2.1, ?_⟩
            show (h.transport.joined || stopped) = true
            rw [ho.2.2, Bool.or_true]
      · rw [if_neg hpublished]
        -- there is none to wait for
        have hfinished : h.executor_ ≠ .made → h.world.run.executor.finished_ = true := by
          intro hmade
          refine hi.unmade ?_
          revert hmade hpublished
          cases h.executor_ <;> decide
        cases call with
        | wait bounded => exact ⟨ho, hfinished ho.1⟩
        | start err =>
            refine ⟨ho.1, ho.2.1, ?_, hfinished ho.1.1⟩
            show (h.transport.joined || stopped) = true
            rw [ho.2.2, Bool.or_true]
  | transport_wait_fails err howner =>
      rw [howner] at ho
      exact hi.section rfl (.inl rfl) rfl id id ho
  | cleanup_wait_fails howner =>
      rw [howner] at ho
      exact absurd ho.2.2 (by decide)
  | transport_wait_expires howner =>
      rw [howner] at ho
      exact hi.section rfl (.inl rfl) rfl id id ho
  | @executor_waits call howner hfinished =>
      rw [howner] at ho
      refine hi.section rfl (.inl rfl) rfl id id ?_
      cases call with
      | wait bounded => exact ⟨ho, hfinished⟩
      | start err => exact ⟨ho.1, ho.2.1, ho.2.2, hfinished⟩
  | executor_wait_expires howner =>
      rw [howner] at ho
      exact hi.section rfl (.inl rfl) rfl id id ho
  | wait_returns howner =>
      rw [howner] at ho
      exact hi.section rfl (.inl rfl) rfl (fun _ => rfl) id
        ⟨ho.1.1, ho.1.2.1, fun hc => by cases hc⟩
  | cleanup_ends howner =>
      rw [howner] at ho
      exact hi.section rfl (.inl rfl) rfl (fun _ => rfl) id
        ⟨ho.1.1, ho.1.2.1, fun hc => by cases hc⟩
  | _ => exact absurd rfl hback

variable {info : raw_info} {options : server_options}

/-- So it holds in every state a server can come to, from its construction on. -/
theorem host_lifecycle (hr : (host_runs info options).Reachable h) : lifecycle_inv h := by
  refine hr.invariant ?_ ?_
  · rintro s rfl
    exact constructed_inv info options
  · intro s b u _ hs hstep
    exact hs.step hstep

/-! ## The lifecycle only moves forward

Each step either leaves the lifecycle or raises its rank, and by induction so does a run. With
this a refusal is for good: once `start()` has been called nothing can be registered any more. -/

/-- No step takes the lifecycle back. `stop()` raises the rank or leaves it, and so do the
sections of `start()` and `wait()`. -/
theorem host.Step.forward (hstep : host.Step h a t) : h.state_.rank ≤ t.state_.rank := by
  have hlast : ∀ state : lifecycle, state.rank ≤ lifecycle.stopped.rank := by
    intro state
    cases state <;> decide
  by_cases hback : a.background = true
  · rcases (hstep.background hback).state with heq | ⟨hne, heq⟩
    · rw [heq]
    · rw [heq]
      revert hne
      cases h.state_ <;> decide
  cases hstep with
  | start_invalid | wait_returns | cleanup_ends => exact hlast _
  | start_enters howner hstate hvalid =>
      rw [hstate]
      exact Nat.zero_le _
  | commit howner hstate =>
      rw [hstate]
      exact Nat.le_succ 1
  | _ => first | exact absurd rfl hback | exact Nat.le_refl _

/-- Nor does any run, whoever takes its steps. -/
theorem host_forward (hr : (host_runs info options).Reachable h)
    (hrun : (host_runs info options).Run h t) : h.state_.rank ≤ t.state_.rank := by
  refine System.Run.relates (S := host_runs info options)
    (R := fun u v => u.state_.rank ≤ v.state_.rank) (fun _ => Nat.le_refl _)
    (fun _ _ _ => Nat.le_trans) ?_ hr hrun
  intro u b v _ hstep
  exact hstep.forward

/-- A server that has left `configuring` refuses every registration, and is not changed by it.
-/
theorem registration_refused {s : server} (hstate : s.state_ ≠ .configuring) (r : registration) :
    s.register r = (s, .error registration_frozen) := by
  cases r with
  | tool descriptor handler compiled => exact if_pos hstate
  | resource descriptor handler => exact if_pos hstate
  | prompt descriptor handler => exact if_pos hstate

/-! ## The contract of `start()`

The three ways a call can end: it fails, and then everything it made is undone and waited for;
it finds the server not configuring, and then it changes nothing; it succeeds, and then the
server was still starting at that moment. None of them depends on which step failed or on what
the other threads did in between.

`abandoned` is the state a failed call returns in. The server is stopped for good; an executor
that was made has no worker any more, and a transport that was started has been stopped and
joined. So the destructor finds nothing that still runs. -/

/-- What a `start()` that fails leaves: a stopped server, its executor, if it made one,
stopped and joined, and its transport, if it started it, stopped and waited for. -/
structure host.abandoned (t : host) : Prop where
  state : t.state_ = .stopped
  executor : t.executor_ = .absent ∨
    (t.executor_ = .published ∧ t.world.run.executor.stopping_ = true ∧
      t.world.run.executor.finished_ = true ∧ t.world.run.worker = .gone)
  transport : t.transport.starts ≤ 1 ∧
    (0 < t.transport.starts → t.transport.stopped = true ∧ t.transport.joined = true)

/-- The steps in which a call of `start()` begins or returns. -/
def host_action.of_start : host_action → Prop
  | .start | .start_returns _ _ => True
  | _ => False

/-- What a state of the server allows a call of `start()` to do, and what holds after it. -/
structure start_contract (info : raw_info) (options : server_options) (h : host) : Prop where
  /-- The call that left `configuring` returns an error. -/
  fails : ∀ err t, host.Step h (.start_returns true (some err)) t → t.abandoned
  /-- A call finds the server not configuring. -/
  refused : h.owner = .idle → h.state_ ≠ .configuring → ∀ a t, a.of_start →
    (host.Step h a t ↔ a = .start_returns false (some already_started) ∧ t = h)
  /-- A call returns success. -/
  succeeds : ∀ left t, host.Step h (.start_returns left none) t →
    h.state_ = .starting ∧ t.state_ = .running
  forward : ∀ t, (host_runs info options).Run h t → h.state_.rank ≤ t.state_.rank
  /-- After a call, whatever came of it. -/
  configured : ∀ a t u, a.of_start → host.Step h a t → (host_runs info options).Run t u →
    ∀ r, u.world.server.register r = (u.world.server, .error registration_frozen)
  silent : h.state_ = .stopping ∨ h.state_ = .stopped → ∀ t, (host_runs info options).Run h t →
    t.world.server.serving = false

/-- The return of an error is the last step of the cleanup, and the invariant says at that
position that the two waits are over. -/
theorem lifecycle_inv.abandoned (hi : lifecycle_inv h) {err : sdk_error}
    (hstep : host.Step h (.start_returns true (some err)) t) : t.abandoned := by
  have ho := hi.owner
  unfold host.owner_ok at ho
  cases hstep with
  | start_invalid howner hstate hvalid =>
      rw [howner] at ho
      obtain ⟨habsent, hstarts⟩ := ho.2.2 hstate
      exact ⟨rfl, .inl habsent, hstarts ▸ Nat.zero_le 1,
        fun hpos => absurd hstarts (Nat.ne_of_gt hpos)⟩
  | cleanup_wait_fails howner =>
      rw [howner] at ho
      exact absurd ho.2.2 (by decide)
  | cleanup_ends howner =>
      rw [howner] at ho
      obtain ⟨⟨hmade, hstarts, -⟩, hstopped, hjoined, hfinished⟩ := ho
      refine ⟨rfl, ?_, hstarts, fun _ => ⟨hstopped, hjoined⟩⟩
      cases hexecutor : h.executor_ with
      | absent => exact .inl hexecutor
      | made => exact absurd hexecutor hmade
      | published =>
          obtain ⟨limit, hrun⟩ := hi.run
          have hgone := hrun.finished_gone.mp hfinished
          exact .inr ⟨hexecutor, hrun.leaving_stopped (.inr hgone), hfinished, hgone⟩

/-- After a call of `start()` the server is not being configured. -/
theorem lifecycle_inv.started (hi : lifecycle_inv h) (ha : a.of_start)
    (hstep : host.Step h a t) : t.state_ ≠ .configuring := by
  have ho := hi.owner
  unfold host.owner_ok at ho
  cases hstep with
  | start_refused howner hstate => exact hstate
  | cleanup_wait_fails howner =>
      rw [howner] at ho
      exact ho.1.2.2.1
  | start_invalid | start_enters | commit | cleanup_ends =>
      intro hc
      cases hc
  | _ => exact absurd ha id

/-- Every failing step and every interruption of `start()` is covered: whatever the
interleaving, a `start()` that fails leaves nothing running, and one that finds the
server not configuring does nothing. -/
theorem host_start_contract (hr : (host_runs info options).Reachable h) :
    start_contract info options h where
  fails := by
    intro err t hstep
    exact (host_lifecycle hr).abandoned hstep
  refused := by
    intro howner hstate a t ha
    constructor
    · intro hstep
      cases hstep with
      | start_refused => exact ⟨rfl, rfl⟩
      | start_invalid _ hconfiguring | start_enters _ hconfiguring =>
          exact absurd hconfiguring hstate
      | commit howner' | cleanup_wait_fails howner' | cleanup_ends howner' =>
          rw [howner] at howner'
          cases howner'
      | _ => exact absurd ha id
    · rintro ⟨rfl, rfl⟩
      exact .start_refused howner hstate
  succeeds := by
    intro left t hstep
    cases hstep with
    | commit howner hstate => exact ⟨hstate, rfl⟩
  forward := fun t hrun => host_forward hr hrun
  -- a registration needs the state back, and it only goes forward
  configured := by
    intro a t u ha hstep hrun r
    have hstarted := (host_lifecycle hr).started ha hstep
    have hforward := host_forward (hr.step hstep) hrun
    apply registration_refused
    intro hu
    have hu' : u.state_ = .configuring := hu
    rw [hu'] at hforward
    revert hstarted hforward
    cases t.state_ <;> decide
  -- the same for serving
  silent := by
    intro hstate t hrun
    have hforward := host_forward hr hrun
    have ht : t.state_ = .stopping ∨ t.state_ = .stopped := by
      rcases hstate with heq | heq
      all_goals
        rw [heq] at hforward
        revert hforward
        cases t.state_ <;> decide
    rw [server.serving]
    rcases ht with heq | heq
    all_goals
      have heq' : t.world.server.state_ = _ := heq
      rw [heq']
      rfl

end Steps

/-! ## A start that fails

The transport refuses to start, with the executor running.

The cleanup then calls `stop()`, waits for both parts and returns the error of the transport. -/

namespace start_session

def info : raw_info := ⟨[0x61], [0x31]⟩

def refused : sdk_error := ⟨.unsupported_stdio, "Cannot open endpoints"⟩

def fresh : host := .constructed info {}

/-- The cleanup has called `stop()`. -/
def cleaning : host :=
  { { fresh.set_state .starting with
      world := { (fresh.set_state .starting).world with run := .make 16 }
      executor_ := .published
      transport := ⟨1, false, false⟩ }.clean refused with }

/-- That call is over, and so is the worker. -/
def cleaned : host :=
  { cleaning with
    world := { cleaning.world with
      server := cleaning.world.server.stop.1
      run := cleaning.world.run.stop.1.leave.finish
      stops := [.returned] }
    transport := ⟨1, true, false⟩ }

/-- Both waits returned. -/
def finishing : host :=
  { cleaned with transport := ⟨1, true, true⟩, owner := .finishing (.start refused) }

/-- The endpoints cannot be opened, so the cleanup calls `stop()`. -/
theorem reaches_cleaning : (host_runs info {}).Reachable cleaning := by
  have h0 : (host_runs info {}).Reachable fresh := .of_init rfl
  have h1 := h0.step (host.Step.start_enters rfl rfl (by decide))
  have h2 := h1.step (host.Step.create rfl)
  have h3 := h2.step (host.Step.publish rfl rfl)
  have h4 := h3.step (host.Step.transport_start rfl)
  exact h4.step (host.Step.transport_start_fails refused rfl)

/-- The call finds the worker idle, which then ends. -/
theorem reaches_cleaned : (host_runs info {}).Reachable cleaned := by
  have h1 := reaches_cleaning.step (@host.Step.stop_server _ 0 rfl)
  have h2 := h1.step (@host.Step.stop_executor _ 0 rfl)
  have h3 := h2.step (@host.Step.stop_cleans _ 0 _ rfl)
  have h4 := h3.step (@host.Step.stop_cleans _ 0 _ rfl)
  have h5 := h4.step (@host.Step.stop_transport _ 0 rfl)
  have h6 := h5.step (host.Step.serve rfl (by decide) (world.Step.leave_loop rfl rfl))
  exact h6.step (host.Step.serve rfl (by decide) (world.Step.finish rfl))

/-- The owner has waited for the executor and for the transport. -/
theorem reaches_finishing : (host_runs info {}).Reachable finishing := by
  have h1 := reaches_cleaned.step (@host.Step.cleaned _ 0 refused rfl rfl)
  have h2 := h1.step (host.Step.transport_waits rfl)
  exact h2.step (host.Step.executor_waits rfl rfl)

/-- It then returns the error, and leaves nothing running. -/
theorem start_contract_refused :
    host.Step finishing (.start_returns true (some refused))
        { finishing.set_state .stopped with owner := .idle } ∧
      ({ finishing.set_state .stopped with owner := .idle } : host).abandoned :=
  ⟨.cleanup_ends rfl, (host_start_contract reaches_finishing).fails refused _ (.cleanup_ends rfl)⟩

end start_session

end SynapseMcp
