/-
Who waits for whom in a server over `stdio_transport`.

A thread that waits does so for a call of `stop()`, for the transport's `wait`, or for the
request that a closed transport still owes its reader. Each of these was made by somebody
and is on its way (`linked`). The worker waits for work; that it does not wait for ever is
that a call of `stop()` which has got past the executor has closed it (`closes_calls`), and
that where there is an executor somebody started the transport or called `stop()`.
-/
import SynapseMcp.HostSession
import SynapseMcp.ShutdownSteps

set_option autoImplicit false

namespace SynapseMcp

open Transition Places

/-! ## Calls of `stop()` in a host

Who is in a call is in one that was made, and a call that has got through the executor, or
has found the server stopped, leaves that closed. -/

section Shutting

variable {h t : host} {b : host_action} {info : raw_info} {options : server_options}

/-- The positions in calls of `stop()` are in calls that were made. -/
structure host.calls_known (h : host) : Prop where
  world : calls_made h.world
  cleaning : ∀ call err, h.owner = .cleaning call err → call < h.world.stops.length

/-- A step that makes calls at most, and moves neither the reader nor the worker. -/
theorem calls_made.kept {w v : SynapseMcp.world} (hm : calls_made w) (hreader : v.reader = w.reader)
    (hcall : v.call = w.call) (hlength : w.stops.length ≤ v.stops.length) : calls_made v where
  reader call held h := Nat.lt_of_lt_of_le (hm.reader call held (hreader ▸ h)) hlength
  worker call h := Nat.lt_of_lt_of_le (hm.worker call (hcall ▸ h)) hlength

/-- Every step of a host keeps that: whoever enters a call lists it in the same step. -/
theorem host.calls_known.step (hi : h.calls_known) (hstep : host.Step h b t) :
    t.calls_known := by
  have hlength := hstep.stops_length
  have hworld : t.world.reader = h.world.reader → t.world.call = h.world.call →
      calls_made t.world := fun hreader hcall => hi.world.kept hreader hcall hlength
  have hcleaning : t.owner = h.owner → ∀ call err, t.owner = .cleaning call err →
      call < t.world.stops.length := by
    intro howner call err hat
    exact Nat.lt_of_lt_of_le (hi.cleaning call err (howner ▸ hat)) hlength
  -- the cleanup of a failed `start()` enters `stop()` and lists its call
  have hclean : ∀ {s : host} (err : sdk_error), t = s.clean err →
      ∀ call err', t.owner = .cleaning call err' → call < t.world.stops.length := by
    rintro s err rfl call err' hat
    cases hat
    show s.world.stops.length < (s.world.stops ++ [stop_at.entered]).length
    rw [List.length_append]
    exact Nat.lt_succ_self _
  cases hstep with
  | deliver wire hstarted hreader =>
      refine ⟨⟨nofun, fun call h => hi.world.worker call h⟩, hcleaning rfl⟩
  | serve _ _ hstep => exact ⟨hi.world.step hstep, hcleaning rfl⟩
  | application env hworker hcall =>
      exact ⟨⟨fun call held h => hi.world.reader call held h, nofun⟩, hcleaning rfl⟩
  | register | start_refused | start_invalid | call_stop | stop_server | stop_executor
  | stop_cleans | stop_transport => exact ⟨hworld rfl rfl, hcleaning rfl⟩
  | create_throws | transport_start_fails | transport_start_throws | commit_interrupted =>
      exact ⟨hworld rfl rfl, hclean (s := h) _ rfl⟩
  | publish_interrupted =>
      exact ⟨hworld rfl rfl, hclean (s := { h with executor_ := .published }) _ rfl⟩
  | transport_waits =>
      refine ⟨hworld rfl rfl, fun call err hat => ?_⟩
      dsimp only at hat
      split at hat <;> cases hat
  | _ => exact ⟨hworld rfl rfl, nofun⟩

/-- It holds in every state of a host. -/
theorem host_calls_known (hr : (host_runs info options).Reachable h) : h.calls_known := by
  refine hr.invariant (P := host.calls_known) ?_ fun _ _ _ _ hi hstep => hi.step hstep
  rintro s rfl
  exact ⟨⟨nofun, nofun⟩, nofun⟩

/-! ### A stopped executor

Two facts are needed of a host in any state. As long as no executor was published the server
serves nobody. And a call of `stop()` that is behind the executor, whether it went through it or
found the server stopped already, has the executor closed, so a worker that waits for work finds
the predicate of its wait true.

`closes_calls` goes by the lifecycle. Before `stopping` no call has run its section. In it, the
executor is closed or there is a call on its way to it. In `stopped` it is closed, as the owner
has waited for it. -/

/-- Before the executor is published nothing has come in. -/
def host.unserved (h : host) : Prop :=
  h.executor_ ≠ .published → h.transport.starts = 0 ∧ h.world.reader = .idle

/-- It holds in every state of a host. -/
theorem host_unserved (hr : (host_runs info options).Reachable h) : h.unserved := by
  intro hunpublished
  have hu := (host_session_inv hr).unpublished hunpublished
  exact ⟨hu.starts, hu.reader⟩

/-- A call of `stop()` has not got to the executor. -/
def stop_at.before_executor : stop_at → Bool
  | .entered | .executor => true
  | _ => false

/-- A published executor is closed by the calls of `stop()` that go on, and a server is not
stopped before it is. -/
structure host.closes_calls (h : host) : Prop where
  opened : h.state_.rank < 3 → ∀ call ∈ h.world.stops, call = .entered
  stopping : h.executor_ = .published → h.state_ = .stopping →
    h.world.run.executor.stopping_ = true ∨
      ∃ (call : Nat) (at_ : stop_at), h.world.stops[call]? = some at_ ∧
        at_.before_executor = true
  stopped : h.executor_ = .published → h.state_ = .stopped →
    h.world.run.executor.stopping_ = true

/-- A call that is made has just entered. -/
theorem entered_of_concat {stops : List stop_at} (h : ∀ call ∈ stops, call = .entered) :
    ∀ call ∈ stops ++ [stop_at.entered], call = .entered := by
  intro call hmem
  rcases List.mem_append.mp hmem with hold | hnew
  · exact h call hold
  · exact List.mem_singleton.mp hnew

/-- A step that leaves the lifecycle and the executor, and makes calls at most. -/
theorem host.closes_calls.same (hi : h.closes_calls) (hstate : t.state_ = h.state_)
    (hexecutor : t.executor_ = h.executor_)
    (hstays : h.world.run.executor.stopping_ = true → t.world.run.executor.stopping_ = true)
    (hstops : t.world.stops = h.world.stops ∨ t.world.stops = h.world.stops ++ [.entered]) :
    t.closes_calls where
  opened := by
    rw [hstate]
    intro hrank
    rcases hstops with heq | heq
    · rw [heq]
      exact hi.opened hrank
    · rw [heq]
      exact entered_of_concat (hi.opened hrank)
  stopping := by
    rw [hstate, hexecutor]
    intro hpublished hstopping
    rcases hi.stopping hpublished hstopping with hclosed | ⟨call, at_, hcall, hbefore⟩
    · exact .inl (hstays hclosed)
    · refine .inr ⟨call, at_, ?_, hbefore⟩
      rcases hstops with heq | heq
      · rwa [heq]
      · rw [heq]
        exact concat_of hcall
  stopped := by
    rw [hstate, hexecutor]
    exact fun hpublished hstopped => hstays (hi.stopped hpublished hstopped)

/-- A call of `stop()` that is past the executor, on its way. -/
theorem host.closes_calls.moved (hi : h.closes_calls) {call : Nat} {before : stop_at}
    (after : stop_at) (hcall : h.world.stops[call]? = some before)
    (hpast : before.before_executor = false) (hstate : t.state_ = h.state_)
    (hexecutor : t.executor_ = h.executor_) (hrun : t.world.run = h.world.run)
    (hstops : t.world.stops = h.world.stops.set call after) : t.closes_calls where
  opened := by
    rw [hstate]
    intro hrank
    have hentered := hi.opened hrank before (List.mem_of_getElem? hcall)
    rw [hentered] at hpast
    cases hpast
  stopping := by
    rw [hstate, hexecutor, hrun, hstops]
    intro hpublished hstopping
    refine (hi.stopping hpublished hstopping).imp_right ?_
    rintro ⟨other, at_, hother, hbefore⟩
    refine ⟨other, at_, ?_, hbefore⟩
    have hne : call ≠ other := by
      rintro rfl
      rw [hcall] at hother
      cases hother
      rw [hpast] at hbefore
      cases hbefore
    rw [List.getElem?_set_ne hne]
    exact hother
  stopped := by
    rw [hstate, hexecutor, hrun]
    exact hi.stopped

/-- Every step keeps it. The section of `stop()` that makes a server stopping sends its call on
to the executor; the one that closes the executor leaves it closed; and the waits that make a
server stopped have found its worker gone. -/
theorem host.closes_calls.step (hi : h.closes_calls) (hlife : lifecycle_inv h)
    (hstep : host.Step h b t) : t.closes_calls := by
  have ho := hlife.owner
  unfold host.owner_ok at ho
  obtain ⟨limit, hrun⟩ := hlife.run
  cases hstep with
  | register r =>
      exact hi.same (h.world.server.register_state r) rfl id (.inl rfl)
  | start_refused => exact hi
  | start_invalid howner hstate =>
      rw [howner] at ho
      have habsent := (ho.2.2 hstate).1
      have hno : h.executor_ ≠ .published := by
        rw [habsent]
        decide
      refine ⟨fun hrank => ?_, fun hp => absurd hp hno, fun hp => absurd hp hno⟩
      exact absurd (show lifecycle.rank .stopped < 3 from hrank) (by decide)
  | start_enters howner hstate =>
      have hentered := hi.opened (by rw [hstate]; decide)
      exact ⟨fun _ => hentered,
        fun _ hs => absurd (show lifecycle.starting = .stopping from hs) (by decide),
        fun _ hs => absurd (show lifecycle.starting = .stopped from hs) (by decide)⟩
  | create howner => exact ⟨hi.opened, nofun, nofun⟩
  | publish howner hstate =>
      refine ⟨hi.opened, fun _ hs => ?_, fun _ hs => ?_⟩
      · have hboth := hs.symm.trans hstate
        cases hboth
      · have hboth := hs.symm.trans hstate
        cases hboth
  -- the owner stops the server itself, and its call has not got to the executor
  | publish_interrupted howner hstate =>
      rw [howner] at ho
      refine ⟨fun hrank => entered_of_concat (hi.opened hrank), fun _ _ => .inr ?_,
        fun _ hs => absurd hs ho.2.2.2⟩
      refine ⟨h.world.stops.length, .entered, ?_, rfl⟩
      show (h.world.stops ++ [stop_at.entered])[h.world.stops.length]? = _
      rw [List.getElem?_append_right (Nat.le_refl _), Nat.sub_self]
      rfl
  | commit howner hstate =>
      have hentered := hi.opened (by rw [hstate]; decide)
      exact ⟨fun _ => hentered,
        fun _ hs => absurd (show lifecycle.running = .stopping from hs) (by decide),
        fun _ hs => absurd (show lifecycle.running = .stopped from hs) (by decide)⟩
  | wait_returns howner =>
      rw [howner] at ho
      have hclosed := hrun.leaving_stopped (.inr (hrun.finished_gone.mp ho.2))
      refine ⟨fun hrank => ?_, fun _ _ => .inl hclosed, fun _ _ => hclosed⟩
      exact absurd (show lifecycle.rank .stopped < 3 from hrank) (by decide)
  | cleanup_ends howner =>
      rw [howner] at ho
      have hclosed := hrun.leaving_stopped (.inr (hrun.finished_gone.mp ho.2.2.2))
      refine ⟨fun hrank => ?_, fun _ _ => .inl hclosed, fun _ _ => hclosed⟩
      exact absurd (show lifecycle.rank .stopped < 3 from hrank) (by decide)
  | serve hserved _ hworld =>
      exact hi.same (served_configuration hserved hworld).state rfl (hworld.stays_closed hrun)
        (served_stops hserved hworld)
  | create_throws | transport_start_fails | transport_start_throws | commit_interrupted
  | call_stop => exact hi.same rfl rfl id (.inr rfl)
  | @stop_server call hcall =>
      rcases h.world.server.stop_state with ⟨hstate, heq⟩ | ⟨hopen, hstopping, hgoes⟩
      · -- a server that has stopped has closed its executor
        have hsame : h.world.server.stop.1.state_ = .stopped := by
          rw [heq]
          exact hstate
        refine ⟨fun hrank => ?_, fun _ hs => ?_, fun hp _ => hi.stopped hp hstate⟩
        · have hcontra : lifecycle.rank .stopped < 3 := hsame ▸ hrank
          exact absurd hcontra (by decide)
        · have hboth := hs.symm.trans hsame
          cases hboth
      · refine ⟨fun hrank => ?_, fun hp _ => .inr ⟨call, .executor, ?_, rfl⟩, fun _ hs => ?_⟩
        · have hcontra : lifecycle.rank .stopping < 3 := hstopping ▸ hrank
          exact absurd hcontra (by decide)
        · have hafter : h.after_section h.world.server.stop.2 = .executor := by
            have hpublished : h.executor_ = .published := hp
            rw [hgoes, host.after_section, hpublished]
            rfl
          show (h.world.stops.set call _)[call]? = _
          rw [hafter, List.getElem?_set_self (List.getElem?_eq_some_iff.mp hcall).1]
        · have hboth := hs.symm.trans hstopping
          cases hboth
  | @stop_executor call hcall =>
      refine ⟨fun hrank => ?_, fun _ _ => .inl rfl, fun _ _ => rfl⟩
      cases hi.opened hrank .executor (List.mem_of_getElem? hcall)
  | @stop_cleans call rest hcall =>
      exact hi.moved _ hcall rfl (cleanup_configuration rest _ _).state rfl rfl rfl
  | stop_transport hcall => exact hi.moved .returned hcall rfl rfl rfl rfl rfl
  | _ => exact hi.same rfl rfl id (.inl rfl)

/-- It holds in every state of a host. -/
theorem host_closes_calls (hr : (host_runs info options).Reachable h) : h.closes_calls := by
  refine hr.invariant (P := host.closes_calls) ?_ ?_
  · rintro s rfl
    exact ⟨fun _ => nofun, nofun, nofun⟩
  · intro s b u hs hi hstep
    exact hi.step (host_lifecycle hs) hstep

/-- When every call of `stop()` has returned, and there was one, a published executor is
closed. -/
theorem host.closes_calls.closed (hi : h.closes_calls) (hpublished : h.executor_ = .published)
    (hreturned : ∀ call ∈ h.world.stops, call = .returned) (hany : h.world.stops ≠ []) :
    h.world.run.executor.stopping_ = true := by
  obtain ⟨call, hmem⟩ := List.exists_mem_of_ne_nil _ hany
  have hlate : ¬h.state_.rank < 3 := by
    intro hrank
    have hentered := hi.opened hrank call hmem
    rw [hreturned call hmem] at hentered
    cases hentered
  cases hstate : h.state_ with
  | configuring | starting | running =>
      rw [hstate] at hlate
      exact absurd (by decide) hlate
  | stopped => exact hi.stopped hpublished hstate
  | stopping =>
      rcases hi.stopping hpublished hstate with hclosed | ⟨call, at_, hcall, hbefore⟩
      · exact hclosed
      · rw [hreturned at_ (List.mem_of_getElem? hcall)] at hbefore
        cases hbefore

end Shutting

/-! ## Who waits for what

The owner and the close callback are in calls that were made, the request a closed
transport still owes is that of the call that closed it, and where there is an executor
somebody has started the transport or called `stop()`.

Each field of `linked` is one wait and where its answer is to come from. The transport's steps
are sorted by whether they touch anything a wait of the server is about (`unlinked`); those that
do are the close callback and the answers of `wait` and `start`, and are looked at one by one. -/

/-- What the transport's `wait` may have come to. -/
def wait_call.serves (bounded : Bool) : wait_call → Prop
  | .polling b => b = bounded
  | .joining _ | .returned true _ => True
  | .returned false _ => bounded = true
  | .refused => False

/-- Whether the wait is one that may give up. -/
def owner_call.bounded : owner_call → Bool
  | .start _ => false
  | .wait bounded => bounded

section Linked

variable {lib : json_library} {w v : stdio_world} {c : stdio_action}

/-- What a step of the transport leaves to its surroundings, unless it calls one of them. -/
structure unlinked (w v : stdio_world) : Prop where
  called : ∀ reading, v.tail reading = some .called → w.tail reading = some .called
  waits : ∀ (call : Nat) (entry : wait_call) (bounded : Bool), w.waits[call]? = some entry →
    entry.serves bounded → ∃ entry', v.waits[call]? = some entry' ∧ entry'.serves bounded
  started : w.starting = .started → v.starting = .started
  closes : v.closes = w.closes

/-- A step that touches none of this. -/
theorem unlinked.of_same (hcalled : ∀ reading, v.tail reading = some .called →
      w.tail reading = some .called)
    (hwaits : v.waits = w.waits) (hstarting : v.starting = w.starting)
    (hcloses : v.closes = w.closes) : unlinked w v where
  called := hcalled
  waits _ entry _ hat hserves := ⟨entry, hwaits ▸ hat, hserves⟩
  started h := hstarting.trans h
  closes := hcloses

/-- A reader that has dealt with a line is not in the close callback. -/
theorem after_frame.reader_tail (after : after_frame) : after.reader.tail? ≠ some .called := by
  cases after <;> nofun

/-- Nor is one that has decided about a line. -/
theorem frame_next.reader_tail (next : frame_next) (after : after_frame) :
    (next.reader after).tail? ≠ some .called := by
  cases next with
  | skip => exact after.reader_tail
  | close | diagnose | call | throw => nofun

/-- Requests are owed by `stop()` and paid by `request_stop`. -/
theorem stdio_world.Step.requests (hstep : stdio_world.Step lib w c v) (hstop : c ≠ .stop)
    (hrequest : c ≠ .request_stop) : v.requests = w.requests := by
  cases hstep with
  | stop => exact absurd rfl hstop
  | request_stop => exact absurd rfl hrequest
  | _ => rfl

/-- A step of the transport that does not call the close callback leaves the waits of the server
as they are, or answers one. -/
theorem stdio_world.Step.unlinked (hstep : stdio_world.Step lib w c v)
    (hclaimed : ∀ reading reason, c = .tail reading → w.tail reading ≠ some (.claimed reason)) :
    unlinked w v := by
  -- a place a thread has just come to is not the close callback
  have hreader : ∀ {r : read_at}, v.reader = r → r.tail? ≠ some .called →
      v.writer = w.writer → ∀ reading, v.tail reading = some .called →
        w.tail reading = some .called := by
    intro r hr hno hwriter reading hat
    cases reading with
    | true =>
        have hnow : v.reader.tail? = some .called := hat
        rw [hr] at hnow
        exact absurd hnow hno
    | false =>
        have hnow : v.writer.tail? = some .called := hat
        rw [hwriter] at hnow
        exact hnow
  have hwriter : ∀ {r : write_at}, v.writer = r → r.tail? ≠ some .called →
      v.reader = w.reader → ∀ reading, v.tail reading = some .called →
        w.tail reading = some .called := by
    intro r hr hno hread reading hat
    cases reading with
    | true =>
        have hnow : v.reader.tail? = some .called := hat
        rw [hread] at hnow
        exact hnow
    | false =>
        have hnow : v.writer.tail? = some .called := hat
        rw [hr] at hnow
        exact absurd hnow hno
  have htail : ∀ {side : Bool} (after : tail_at), after ≠ .called →
      v.reader = (if side then .tail after else w.reader) →
      v.writer = (if side then w.writer else .tail after) →
      ∀ reading, v.tail reading = some .called → w.tail reading = some .called := by
    intro side after hno hread hwrite
    have hne : some after ≠ some .called := fun heq => hno (Option.some.inj heq)
    cases side with
    | true => exact hreader hread hne hwrite
    | false => exact hwriter hwrite hne hread
  have hset : ∀ {call : Nat} {before after : wait_call}, w.waits[call]? = some before →
      v.waits = w.waits.set call after →
      (∀ bounded, before.serves bounded → after.serves bounded) →
      ∀ (other : Nat) (entry : wait_call) (bounded : Bool), w.waits[other]? = some entry →
        entry.serves bounded → ∃ entry', v.waits[other]? = some entry' ∧ entry'.serves bounded := by
    intro call before after hbefore hwaits hserves other entry bounded hat hentry
    by_cases heq : call = other
    · subst heq
      rw [hbefore] at hat
      cases hat
      refine ⟨after, ?_, hserves bounded hentry⟩
      rw [hwaits, List.getElem?_set_self (List.getElem?_eq_some_iff.mp hbefore).1]
    · refine ⟨entry, ?_, hentry⟩
      rw [hwaits, List.getElem?_set_ne heq]
      exact hat
  have hsame : ∀ reading, w.tail reading = some .called → w.tail reading = some .called :=
    fun _ => id
  cases hstep with
  | start answers hfresh =>
      refine ⟨?_, fun _ entry _ hat hserves => ⟨entry, hat, hserves⟩, ?_, rfl⟩
      · rintro (_ | _) hat
        · have hnow : (write_at.made (w.shared.start answers).1).tail? = some .called := hat
          unfold write_at.made at hnow
          split at hnow <;> cases hnow
        · have hnow : (read_at.made (w.shared.start answers).1).tail? = some .called := hat
          unfold read_at.made at hnow
          split at hnow <;> cases hnow
      · intro hstarted
        rw [hfresh] at hstarted
        cases hstarted
  | start_joins hstarting =>
      refine ⟨hsame, fun _ entry _ hat hserves => ⟨entry, hat, hserves⟩, ?_, rfl⟩
      intro hstarted
      rw [hstarting] at hstarted
      cases hstarted
  | wait bounded =>
      refine ⟨hsame, fun _ entry _ hat hserves => ⟨entry, concat_of hat, hserves⟩, id, rfl⟩
  | wait_inside =>
      refine ⟨hsame, fun _ entry _ hat hserves => ⟨entry, concat_of hat, hserves⟩, id, rfl⟩
  | poll_joined hcall =>
      exact ⟨hsame, hset hcall rfl fun _ _ => trivial, id, rfl⟩
  | poll_expires hcall => exact ⟨hsame, hset hcall rfl fun _ hserves => hserves.symm, id, rfl⟩
  | join hcall => exact ⟨hsame, hset hcall rfl fun _ _ => trivial, id, rfl⟩
  | wake_reader | head_stops | head_reads | read | eof_in_line | eof | read_fails | failed_stops
  | failed_closes | read_throws | scan_done | scan_stops | scan_newline | scan_over | scan_byte
  | diagnose_fails | call_message | message_threw =>
      exact .of_same (hreader rfl nofun rfl) rfl rfl rfl
  | @frame line after hat =>
      exact .of_same (hreader rfl (frame_next.reader_tail _ after) rfl) rfl rfl rfl
  | @diagnose_sent shared after | @message_returned after =>
      exact .of_same (hreader rfl after.reader_tail rfl) rfl rfl rfl
  | wake_writer | wake_unstarted | write_drained | write_expires | write_takes | write
  | write_fails | write_done => exact .of_same (hwriter rfl nofun rfl) rfl rfl rfl
  | @tail_begins side reason hat =>
      refine .of_same (htail (.begun (w.shared.begin_close reason).2) ?_ rfl rfl) rfl rfl
        rfl
      cases (w.shared.begin_close reason).2 <;> nofun
  | tail_requests => exact .of_same (htail .publishing nofun rfl rfl) rfl rfl rfl
  | tail_claims =>
      refine .of_same (htail (.publishes w.shared.claim_close.2) ?_ rfl rfl) rfl rfl rfl
      cases w.shared.claim_close.2 <;> nofun
  | @tail_calls side reason hat => exact absurd hat (hclaimed side reason rfl)
  | tail_returns => exact .of_same (htail .returned nofun rfl rfl) rfl rfl rfl
  | tail_publishes => exact .of_same (htail .finishing nofun rfl rfl) rfl rfl rfl
  | tail_ends => exact .of_same (htail .gone nofun rfl rfl) rfl rfl rfl
  | start_again | send | send_fails | stop | request_stop =>
      exact .of_same (fun _ h => h) rfl rfl rfl

end Linked

section Waiting

variable {lib : json_library} {info : raw_info} {options : server_options} {o : stdio_options}
variable {stream : List UInt8} {d e : stdio_server} {a : stdio_server_action}

/-! ### The links

`linked` has a field for each wait and for what it relies on. The owner's own `stop()` and that
of the close callback have a number in the list of calls, so their progress is what is waited
for. A closed transport owes its reader at most one request, which one call is to make. A wait
of the owner has its entry in the transport, where it still polls or has its answer. The last
two say who is to bring the executor to its end: a transport that was started, or a call of
`stop()`. -/

/-- How the threads of the two parts wait for each other. -/
structure linked (d : stdio_server) : Prop where
  owner_stop : ∀ call, d.owner_stop = some call → call < d.server.world.stops.length
  close_stop : ∀ reading, d.transport.tail reading = some .called →
    ∃ call, d.close_stop = some call ∧ call < d.server.world.stops.length
  requests : d.transport.requests = if d.requester = none then 0 else 1
  requester : d.requester ≠ none → d.transport.shared.closing_ = true
  waiting : ∀ call stopped, d.server.owner = .waiting call stopped →
    ∃ entry, d.transport.waits[d.transport_wait]? = some entry ∧ entry.serves call.bounded
  started : d.server.executor_ = .published → d.server.owner = .launching ∨
    d.server.owner = .starting ∨ d.transport.starting = .started ∨ d.server.world.stops ≠ []
  closes : d.transport.closes ≠ [] → d.server.world.stops ≠ []

/-- Calls are made and none is forgotten. -/
theorem stops_kept {h t : host} (hlength : h.world.stops.length ≤ t.world.stops.length)
    (hany : h.world.stops ≠ []) : t.world.stops ≠ [] := by
  intro hnone
  rw [hnone] at hlength
  exact hany (List.length_eq_zero_iff.mp (Nat.le_zero.mp hlength))

/-! ### Steps and links

Most steps of the server move nothing a link is about; they add calls at the end of the list,
and a number once given stays good. The owner's steps end one wait and begin the next, and the
transport's are either `unlinked` or one of the few that answer.

A link names a call by its place in a list, the reader's call of `stop()`, or the owner's entry
in the list of waits. Lists of calls only grow at their end, so a link that holds goes on to
hold while others add theirs. What has to be shown of a step is about the links it makes or
answers: a call it begins gets the last place, and an entry the owner waits in goes on only as
that wait does. -/

/-- Another thread of the server takes a step, and the owner is where it was: the calls that
were made stay made, so all links hold. -/
theorem linked.of_background (hi : linked d) {b : host_action} {h : host}
    (hhost : host.Step d.server b h) (hback : b.background = true) :
    linked { d with server := h } := by
  have hlength := hhost.stops_length
  have hb := hhost.background hback
  refine ⟨?_, ?_, hi.requests, hi.requester, ?_, ?_, ?_⟩
  · exact fun call hat => Nat.lt_of_lt_of_le (hi.owner_stop call hat) hlength
  · intro reading hat
    obtain ⟨call, hcall, hless⟩ := hi.close_stop reading hat
    exact ⟨call, hcall, Nat.lt_of_lt_of_le hless hlength⟩
  · exact fun call stopped howner => hi.waiting call stopped (hb.owner ▸ howner)
  · intro hpublished
    rcases hi.started (hb.executor_ ▸ hpublished) with hat | hat | hat | hat
    · exact .inl (hb.owner.trans hat)
    · exact .inr (.inl (hb.owner.trans hat))
    · exact .inr (.inr (.inl hat))
    · exact .inr (.inr (.inr (stops_kept hlength hat)))
  · exact fun hcloses => stops_kept hlength (hi.closes hcloses)

/-- Where the owner is not in the transport, an executor it publishes is one it goes on to
start the transport for, or one that was stopped. -/
theorem host.Step.publishes {h t : host} {b : host_action} (hstep : host.Step h b t)
    (hback : b.background = false) (hpublished : t.executor_ = .published) :
    h.executor_ = .published ∨ t.owner = .launching ∨ t.world.stops ≠ [] := by
  cases hstep with
  | create => cases hpublished
  | publish => exact .inr (.inl rfl)
  | publish_interrupted =>
      refine .inr (.inr ?_)
      show h.world.stops ++ [stop_at.entered] ≠ []
      exact List.append_ne_nil_of_right_ne_nil _ (by simp)
  | register | deliver | serve | application | call_stop | stop_server | stop_executor
  | stop_cleans | stop_transport => cases hback
  | _ => exact .inl hpublished

/-- The server takes a step alone, be it the owner's or another thread's; only the first can
begin or end a wait. -/
theorem linked.of_server (hi : linked d) {b : host_action} {h : host}
    (hhost : host.Step d.server b h) (halone : d.alone h b) : linked { d with server := h } := by
  by_cases hback : b.background = true
  · exact hi.of_background hhost hback
  rw [Bool.not_eq_true] at hback
  have hlength := hhost.stops_length
  have houtside : d.server.owner.outside = true := by
    cases b with
    | start | start_returns | owner | wait_returns => exact halone.2
    | wait => exact halone.elim
    | _ => cases hback
  -- a wait of the owner is a step of both parts, and not here
  have hwait : b ≠ .wait := by
    rintro rfl
    exact halone
  refine ⟨?_, ?_, hi.requests, hi.requester, ?_, ?_, ?_⟩
  · exact fun call hat => Nat.lt_of_lt_of_le (hi.owner_stop call hat) hlength
  · intro reading hat
    obtain ⟨call, hcall, hless⟩ := hi.close_stop reading hat
    exact ⟨call, hcall, Nat.lt_of_lt_of_le hless hlength⟩
  · intro call stopped howner
    exact absurd howner ((hhost.not_waiting hback hwait houtside).1 call stopped)
  · intro hpublished
    -- the executor was published before, or is by this step of `start()`
    rcases hhost.publishes hback hpublished with hbefore | hat | hat
    · rcases hi.started hbefore with hno | hno | hat | hat
      · rw [hno] at houtside
        cases houtside
      · rw [hno] at houtside
        cases houtside
      · exact .inr (.inr (.inl hat))
      · exact .inr (.inr (.inr (stops_kept hlength hat)))
    · exact .inl hat
    · exact .inr (.inr (.inr hat))
  · exact fun hcloses => stops_kept hlength (hi.closes hcloses)

/-- The transport takes a step in which it does not call the close callback, perhaps with a new
call that owes the reader its request. -/
theorem linked.of_call (hi : linked d) {c : stdio_action} {v : stdio_world}
    {requester : Option Nat} (hstep : stdio_world.Step lib d.transport c v)
    (hclaimed : ∀ reading reason, c = .tail reading →
      d.transport.tail reading ≠ some (.claimed reason))
    (hrequests : v.requests = if requester = none then 0 else 1)
    (hclosing : requester ≠ none → v.shared.closing_ = true) :
    linked { d with transport := v, requester := requester } := by
  have hsame := hstep.unlinked hclaimed
  refine ⟨hi.owner_stop, fun reading hat => hi.close_stop reading (hsame.called reading hat),
    hrequests, hclosing, ?_, ?_, ?_⟩
  · intro call stopped howner
    obtain ⟨entry, hat, hserves⟩ := hi.waiting call stopped howner
    exact hsame.waits _ entry _ hat hserves
  · intro hpublished
    rcases hi.started hpublished with hat | hat | hat | hat
    · exact .inl hat
    · exact .inr (.inl hat)
    · exact .inr (.inr (.inl (hsame.started hat)))
    · exact .inr (.inr (.inr hat))
  · intro hcloses
    rw [hsame.closes] at hcloses
    exact hi.closes hcloses

/-- The same for any step of the transport that is none of these. -/
theorem linked.of_transport (hi : linked d) {c : stdio_action} {v : stdio_world}
    (hstep : stdio_world.Step lib d.transport c v)
    (hclaimed : ∀ reading reason, c = .tail reading →
      d.transport.tail reading ≠ some (.claimed reason))
    (hstop : c ≠ .stop) (hrequest : c ≠ .request_stop) : linked { d with transport := v } :=
  hi.of_call hstep hclaimed ((hstep.requests hstop hrequest).trans hi.requests)
    fun hreq => hstep.steady.2 (hi.requester hreq)

/-- A call of the transport's `stop()` owes a request where it closes it. -/
theorem stdio_world.Step.stop_requests {w v : stdio_world}
    (hstep : stdio_world.Step lib w .stop v) :
    v.requests = w.requests + if w.shared.closing_ = true then 0 else 1 := by
  cases hstep with
  | stop =>
      show w.requests + _ = _
      rcases w.shared.begin_close_cases .requested_stop with ⟨hclosing, heq⟩ | ⟨hopen, heq⟩
      · rw [heq, hclosing]
        rfl
      · rw [heq, hopen]
        rfl

/-- The owner goes from one place to another that is no wait. -/
theorem linked.of_owner (hi : linked d) {h : host}
    (hlength : d.server.world.stops.length ≤ h.world.stops.length)
    (howner : ∀ call stopped, h.owner ≠ .waiting call stopped)
    (hstarted : h.executor_ = .published → h.owner = .launching ∨ h.owner = .starting ∨
      d.transport.starting = .started ∨ h.world.stops ≠ []) :
    linked { d with server := h } := by
  refine ⟨?_, ?_, hi.requests, hi.requester,
    fun call stopped hat => absurd hat (howner call stopped), hstarted,
    fun hcloses => stops_kept hlength (hi.closes hcloses)⟩
  · exact fun call hat => Nat.lt_of_lt_of_le (hi.owner_stop call hat) hlength
  · intro reading hat
    obtain ⟨call, hcall, hless⟩ := hi.close_stop reading hat
    exact ⟨call, hcall, Nat.lt_of_lt_of_le hless hlength⟩

/-- At any other place than in the transport's `start`. -/
theorem linked.published (hi : linked d) (hlaunching : d.server.owner ≠ .launching)
    (hstarting : d.server.owner ≠ .starting) (hpublished : d.server.executor_ = .published) :
    d.transport.starting = .started ∨ d.server.world.stops ≠ [] := by
  rcases hi.started hpublished with hat | hat | hat
  · exact absurd hat hlaunching
  · exact absurd hat hstarting
  · exact hat

/-- The owner calls the transport's `wait`, which puts a new entry behind the others; the link
of the owner is to that entry. -/
theorem linked.of_wait (hi : linked d) (call : owner_call)
    (hlaunching : d.server.owner ≠ .launching) (hstarting : d.server.owner ≠ .starting) :
    linked
      { d with
        server := { d.server with owner := .waiting call d.server.transport.stopped }
        transport := { d.transport with waits := d.transport.waits ++ [.polling call.bounded] }
        transport_wait := d.transport.waits.length } := by
  refine ⟨hi.owner_stop, hi.close_stop, hi.requests, hi.requester, ?_,
    fun hpublished => .inr (.inr (hi.published hlaunching hstarting hpublished)), hi.closes⟩
  rintro other stopped ⟨⟩
  refine ⟨.polling call.bounded, ?_, rfl⟩
  show (d.transport.waits ++ [wait_call.polling call.bounded])[d.transport.waits.length]? = _
  rw [List.getElem?_append_right (Nat.le_refl _), Nat.sub_self]
  rfl

/-- Only one worker is in the close callback: two in it would make two calls that have not
returned, and the close is claimed once. -/
theorem called_alone {v : close_view} (hc : v.claim)
    (hreader : v.worker true = .tail .called) : v.worker false ≠ .tail .called := by
  intro hwriter
  have hread : v.reader = .tail .called := hreader
  have hwrite : v.writer = .tail .called := hwriter
  have htwo : close_view.total close_view.calls v = 2 := by
    simp [close_view.total, hread, hwrite, close_view.calls]
  have hcloses := hc.closes
  have hreturns := hc.returns
  have hbool : v.shared.close_claimed_.toNat ≤ 1 := Bool.toNat_le _
  omega

/-- When the close callback returns nobody is in it: the worker that was has left it, and by the
claim on the close the other one was not in it. -/
theorem stdio_world.Step.uncalled {w v : stdio_world} (hc : w.view.claim) {side : Bool}
    (hcalled : w.tail side = some .called) (hstep : stdio_world.Step lib w (.tail side) v)
    (reading : Bool) : v.tail reading ≠ some .called := by
  intro hat
  have hunclaimed : ∀ other reason, stdio_action.tail side = .tail other →
      w.tail other ≠ some (.claimed reason) := by
    rintro other reason ⟨⟩ hclaimed
    rw [hcalled] at hclaimed
    cases hclaimed
  have hbefore := (hstep.unlinked hunclaimed).called reading hat
  cases hstep with
  | tail_returns =>
      cases side <;> cases reading
      · cases hat
      · exact called_alone hc (stdio_world.view_worker hbefore) (stdio_world.view_worker hcalled)
      · exact called_alone hc (stdio_world.view_worker hcalled) (stdio_world.view_worker hbefore)
      · cases hat
  | tail_begins hno | tail_requests hno | tail_claims hno | tail_calls hno | tail_publishes hno
  | tail_ends hno =>
      rw [hcalled] at hno
      cases hno

/-- Every step of the whole keeps the links. The cases are the rules by which the two parts act
together: the owner in `start`, `stop` and `wait`, a message that comes in, a frame that is
sent, and the close callback. -/
theorem linked.step (hi : linked d) (hp : d.parts info options)
    (ht : d.transport.view.threads) (hc : d.transport.view.claim)
    (hstep : stdio_server.Step lib d a e) : linked e := by
  -- a new `stop()` is added at the end, so the numbers of the others stay
  have hkept : d.server.world.stops.length ≤
      (stdio_server.called_stop d.server).world.stops.length := by
    show _ ≤ (d.server.world.stops ++ [stop_at.entered]).length
    rw [List.length_append]
    exact Nat.le_add_right _ _
  have hnew : d.server.world.stops ++ [stop_at.entered] ≠ [] :=
    List.append_ne_nil_of_right_ne_nil _ (by simp)
  cases hstep with
  | server hhost halone => exact hi.of_server hhost halone
  | send m hhost hframe hsend _ =>
      exact (hi.of_background hhost rfl).of_transport hsend nofun nofun nofun
  | start answers howner hstart =>
      have hmoved := hi.of_transport hstart nofun nofun nofun
      exact hmoved.of_owner (Nat.le_refl _) nofun fun _ => .inr (.inl rfl)
  | started howner hstarting =>
      exact hi.of_owner (Nat.le_refl _) nofun fun _ => .inr (.inr (.inl hstarting))
  | start_fails err howner =>
      exact hi.of_owner (h := d.server.clean err) hkept nofun fun _ => .inr (.inr (.inr hnew))
  | @deliver v value after hreader hcall =>
      obtain ⟨hstarted, hidle⟩ := hp.deliver ht hreader
      have hmoved := hi.of_background (host.Step.deliver value hstarted hidle) rfl
      exact hmoved.of_transport hcall nofun nofun nofun
  | delivered _ hreturn => exact hi.of_transport hreturn nofun nofun nofun
  | @transport c v htransport halone =>
      refine hi.of_transport htransport ?_ ?_ ?_
      · rintro reading reason rfl
        exact halone.2 reason
      · rintro rfl
        exact halone
      · rintro rfl
        exact halone
  -- the close callback has a new call, and this link is made here
  | @close v reading reason hclaimed hcall =>
      have hwaits : v.waits = d.transport.waits ∧ v.starting = d.transport.starting := by
        cases hcall <;> exact ⟨rfl, rfl⟩
      refine ⟨fun call hat => Nat.lt_of_lt_of_le (hi.owner_stop call hat) hkept, ?_,
        (hcall.requests nofun nofun).trans hi.requests,
        fun hreq => hcall.steady.2 (hi.requester hreq), ?_, ?_, fun _ => hnew⟩
      · intro side hat
        refine ⟨_, rfl, ?_⟩
        show _ < (d.server.world.stops ++ [stop_at.entered]).length
        rw [List.length_append]
        exact Nat.lt_succ_self _
      · intro call stopped howner
        obtain ⟨entry, hat, hserves⟩ := hi.waiting call stopped howner
        exact ⟨entry, hwaits.1 ▸ hat, hserves⟩
      · exact fun _ => .inr (.inr (.inr hnew))
  -- it returns, and no worker of the transport is in the callback any more
  | @closed v reading call hclose hcalled hstops hreturn =>
      have hmoved := hi.of_transport hreturn (by
        rintro side reason ⟨⟩ hno
        rw [hcalled] at hno
        cases hno) nofun nofun
      exact ⟨hmoved.owner_stop, fun side hat => absurd hat (hreturn.uncalled hc hcalled side),
        hmoved.requests, hmoved.requester, hmoved.waiting, hmoved.started, hmoved.closes⟩
  | owner_stops howner hstop =>
      have hmoved := hi.of_background (.call_stop _) rfl
      refine ⟨?_, hmoved.close_stop, hmoved.requests, hmoved.requester, hmoved.waiting,
        hmoved.started, hmoved.closes⟩
      rintro call ⟨⟩
      show _ < (d.server.world.stops ++ [stop_at.entered]).length
      rw [List.length_append]
      exact Nat.lt_succ_self _
  | owner_stopped =>
      exact ⟨nofun, hi.close_stop, hi.requests, hi.requester, hi.waiting, hi.started, hi.closes⟩
  | application_stops =>
      have hmoved := hi.of_background (.call_stop _) rfl
      exact ⟨hmoved.owner_stop, hmoved.close_stop, hmoved.requests, hmoved.requester,
        hmoved.waiting, hmoved.started, hmoved.closes⟩
  | application_stopped =>
      exact ⟨hi.owner_stop, hi.close_stop, hi.requests, hi.requester, hi.waiting, hi.started,
        hi.closes⟩
  -- the transport is closing already: the call asks for nothing
  | @stop_closing v call hstops _ hclosing hstop =>
      have hmoved := hi.of_background (.stop_transport hstops) rfl
      refine hmoved.of_call hstop nofun ?_ fun hreq => hstop.steady.2 (hmoved.requester hreq)
      rw [hstop.stop_requests, if_pos hclosing]
      exact hi.requests
  -- the first to close it owes the request to the reader, and is linked to it
  | @stop_closes v call hstops hopen hstop =>
      have hnone : d.requester = none := by
        by_contra hsome
        have hclosing := hi.requester hsome
        rw [hopen] at hclosing
        cases hclosing
      refine hi.of_call hstop nofun ?_ fun _ => (hstop.spends_close 0 0).1
      rw [hstop.stop_requests, hi.requests, hnone, hopen]
      rfl
  -- the request is made, and the link ends
  | @stop_requests v call hrequester hrequest =>
      have hmoved := hi.of_background (.stop_transport (hp.requester _ hrequester)) rfl
      refine hmoved.of_call hrequest nofun ?_ fun hreq => absurd rfl hreq
      cases hrequest with
      | request_stop hpos =>
          show d.transport.requests - 1 = 0
          rw [hi.requests, hrequester]
          rfl
  | @cleaned call err howner hstops =>
      exact hi.of_wait (.start err) (by rw [howner]; nofun) (by rw [howner]; nofun)
  | wait bounded howner hstop =>
      exact hi.of_wait (.wait bounded) (by rw [howner]; nofun) (by rw [howner]; nofun)
  | @waited call stopped running howner hwaits =>
      refine hi.of_owner (h := { d.server with
        transport := { d.server.transport with joined := d.server.transport.joined || stopped }
        owner := if d.server.executor_ = .published then .joining call else .finishing call })
        (Nat.le_refl _) ?_ fun hpublished => .inr (.inr ?_)
      · intro other was hat
        dsimp only at hat
        split at hat <;> cases hat
      · exact hi.published (by rw [howner]; nofun) (by rw [howner]; nofun) hpublished
  -- a bounded wait gives up: the transport's side of it stays as it is
  | wait_expires howner hwaits =>
      refine hi.of_owner (h := { d.server with owner := .idle })
        (Nat.le_refl _) nofun fun hpublished => .inr (.inr ?_)
      exact hi.published (by rw [howner]; nofun) (by rw [howner]; nofun) hpublished

/-- It holds in every state of a server over `stdio_transport`. -/
theorem stdio_server_linked (hr : (stdio_server_runs lib info options o stream).Reachable d) :
    linked d := by
  refine hr.invariant (P := linked) ?_ ?_
  · rintro s rfl
    exact ⟨nofun, by rintro (_ | _) <;> nofun, rfl, fun h => absurd rfl h, nofun, nofun,
      fun h => absurd rfl h⟩
  · intro s b u hs hi hstep
    obtain ⟨-, ht, hc⟩ := stdio_close_invariant (stdio_server_threads hs)
    exact hi.step (stdio_server_parts hs) ht hc hstep

end Waiting

end SynapseMcp
