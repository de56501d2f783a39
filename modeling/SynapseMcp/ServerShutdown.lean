/-
That a server over `stdio_transport` shuts down: the peer's bytes come to an end, and then
every thread of the SDK does, and the owner gets back from whatever it called.

The steps a state has left are bounded (`ShutdownSteps`). Where none is possible, each
thread is looked at in turn. The calls of `stop()` come first, as they wait for nobody; then
the reader, the transport, the owner in `start()`, the worker, and the owner's waits, each of
which needs the ones before it to be over.
-/
import SynapseMcp.ShutdownWaits

set_option autoImplicit false

namespace SynapseMcp

open Transition Places

/-! ## Who is stuck

A thread is not stuck if there is one way for it to go on, whatever the environment answers. So
for the steps that depend on an answer one is chosen with which nothing is asked of the
transport: an encoder no reply fits, and an application whose callbacks all throw. What is left
are waits, and each lemma below finds the thing waited for in place. Their order is that of the
waits, and it has no cycle. -/

/-- An encoder no reply fits: nothing is passed to the transport. -/
def unfit : emit_answers := ⟨false, fun _ => false, .refused⟩

/-- An application whose callbacks all throw. -/
def throwing : application_answers where
  allow_tool := none
  now := .threw
  evaluate _ _ := .threw
  tool _ _ := .threw
  prompt _ _ := .threw
  resource _ := .threw
  filter_output := none

/-- With it `receive` passes nothing on. -/
theorem receive_unfit (s : server) (wire : json) : (s.receive unfit wire).frames = [] := by
  have hr := s.receive_received unfit wire
  generalize s.receive unfit wire = r at hr
  cases hr <;> rfl

/-- Then the reader and the worker take their steps alone. -/
theorem world.Step.unfit_frames {w t : world} {a : server_action} (hmeets : a.meets unfit)
    (hstep : world.Step w a t) : t.frames = w.frames := by
  have hnone : ∀ more, t.log = w.log ++ more → frames_of more = [] → t.frames = w.frames := by
    intro more hlog hframes
    rw [world.frames, world.frames, hlog, frames_of_append, hframes, List.append_nil]
  have hanswer : ∀ (origin : frame_origin) (op : Nat) (reply : response) (method : String),
      (w.server.answer unfit origin op reply method).1 = [] := by
    intro origin op reply method
    unfold server.answer
    split <;> rfl
  cases hstep with
  | @receive wire answers hreader =>
      cases hmeets
      refine hnone _ rfl (List.eq_nil_iff_forall_not_mem.mpr fun f hf => ?_)
      rcases mem_events (mem_frames.mp hf) with hev | ⟨f', hf', -⟩ | ⟨req, op, -, hev⟩
      · cases hev
      · rw [receive_unfit] at hf'
        cases hf'
      · cases hev
  | reject_sent answers | reject_failed answers | reject_threw answers
  | respond answers | respond_failed answers =>
      cases hmeets
      refine hnone _ rfl ?_
      rw [frames_of_passed, hanswer]
  | enqueue => exact hnone _ rfl rfl
  | cancel => exact hnone _ rfl rfl
  | apply => exact hnone _ rfl rfl
  | _ => rfl

section Stuck

variable {lib : json_library} {info : raw_info} {options : server_options} {o : stdio_options}
variable {stream : List UInt8} {d : stdio_server}

/-- The steps of the shutdown in which nothing fails in the transport. -/
def shutdown_unfailing (d : stdio_server) (a : stdio_server_action) (e : stdio_server) : Prop :=
  shutdown_step d a e ∧ ∀ c, a = .transport c → ¬c.fails

/-- No step of the shutdown is left, unless something fails in the transport. -/
def stdio_server.stuck (lib : json_library) (d : stdio_server) : Prop :=
  ∀ a e, shutdown_unfailing d a e → ¬stdio_server.Step lib d a e

/-- A call of `stop()` returns to code of the application where it is over. -/
theorem stdio_server.stuck.not_returned (h : d.stuck lib) {who : stop_caller} {call : Nat}
    (hnested : d.nested who = some call) :
    d.server.world.stops[call]? ≠ some .returned := fun hstops =>
  h (.server .stop) _ ⟨trivial, nofun⟩ (.application_stopped hnested hstops)

/-- A call of `stop()` waits for younger ones at most, which its stop callbacks have made: with
those over it is the one that closes the transport, or finds it closed. -/
theorem stdio_server.stuck.returned (h : d.stuck lib) (hl : linked d) (hn : d.nesting)
    {call : Nat} {at_ : stop_at} (hcall : d.server.world.stops[call]? = some at_)
    (hyounger : ∀ (other : Nat) (later : stop_at), call < other →
      d.server.world.stops[other]? = some later → later = .returned) : at_ = .returned := by
  -- the others in `transport` stay there
  have hothers : ∀ {after : stop_at}, at_ ≠ .transport → ∀ other : Nat,
      d.server.world.stops[other]? = some .transport →
        (d.server.world.stops.set call after)[other]? = some .transport := by
    intro after hne other hother
    rw [List.getElem?_set_ne ?_]
    · exact hother
    · rintro rfl
      rw [hcall] at hother
      exact hne (Option.some.inj hother)
  -- no stop callback of this call is in a call of its own, so code of the application is in others
  have hinside : ∀ {t : host} {after : stop_at}, t.world.call = d.server.world.call →
      t.world.reader = d.server.world.reader →
      t.world.stops = d.server.world.stops.set call after →
      ∀ who nested, d.nested who = some nested → t.in_application who := by
    intro t after hsame hreader hstops who nested hat
    have hin := hn.inside who nested hat
    cases who with
    | worker => exact hsame.trans hin
    | reader =>
        obtain ⟨source, discarded, hcleaning⟩ := hin
        exact ⟨source, discarded, hreader.trans hcleaning⟩
    | stop outer =>
        have hne : call ≠ outer := by
          rintro rfl
          obtain ⟨later, hlater⟩ : ∃ later, d.server.world.stops[nested]? = some later :=
            ⟨_, List.getElem?_eq_getElem (hn.made _ _ hat)⟩
          have hover := hyounger nested later (hn.deeper _ _ hat) hlater
          exact h.not_returned hat (hover ▸ hlater)
        obtain ⟨source, discarded, hcleaning⟩ := hin
        refine ⟨source, discarded, ?_⟩
        rw [hstops, List.getElem?_set_ne hne]
        exact hcleaning
  cases at_ with
  | returned => rfl
  | entered =>
      exact absurd (.server (.stop_server hcall) (hothers nofun) (hinside rfl rfl rfl))
        (h (.server .stop) _ ⟨trivial, nofun⟩)
  | executor =>
      exact absurd (.server (.stop_executor hcall) (hothers nofun) (hinside rfl rfl rfl))
        (h (.server .stop) _ ⟨trivial, nofun⟩)
  | cleaning rest =>
      exact absurd (.server (.stop_cleans hcall) (hothers nofun) (hinside rfl rfl rfl))
        (h (.server .stop) _ ⟨trivial, nofun⟩)
  | transport =>
      by_cases hrequester : d.requester = some call
      · have hone : 0 < d.transport.requests := by
          rw [hl.requests, hrequester]
          exact Nat.one_pos
        exact absurd (.stop_requests hrequester (.request_stop hone))
          (h (.server .stop) _ ⟨trivial, nofun⟩)
      · cases hclosing : d.transport.shared.closing_ with
        | true =>
            exact absurd (.stop_closing hcall hrequester hclosing (.stop d.transport))
              (h (.server .stop) _ ⟨trivial, nofun⟩)
        | false =>
            exact absurd (.stop_closes hcall hclosing (.stop d.transport))
              (h (.transport .stop) _ ⟨trivial, nofun⟩)

/-- So every call of `stop()` is over, the youngest first. -/
theorem stdio_server.stuck.stops (h : d.stuck lib) (hl : linked d) (hn : d.nesting) :
    ∀ call ∈ d.server.world.stops, call = .returned := by
  have hover : ∀ (left call : Nat) (at_ : stop_at), d.server.world.stops.length - call = left →
      d.server.world.stops[call]? = some at_ → at_ = .returned := by
    intro left
    induction left using Nat.strongRecOn with
    | ind left ih =>
        intro call at_ hleft hcall
        refine h.returned hl hn hcall fun other later hless hlater => ?_
        have hmade : other < d.server.world.stops.length :=
          (List.getElem?_eq_some_iff.mp hlater).1
        exact ih (d.server.world.stops.length - other) (by omega) other later rfl hlater
  intro at_ hmem
  obtain ⟨call, hcall⟩ := List.mem_iff_getElem?.mp hmem
  exact hover _ call at_ rfl hcall

/-- Code of the application is in none of them. -/
theorem stdio_server.stuck.unnested (h : d.stuck lib) (hl : linked d) (hn : d.nesting)
    (who : stop_caller) : d.nested who = none := by
  cases hnested : d.nested who with
  | none => rfl
  | some call =>
      have hmade := hn.made who call hnested
      refine absurd ?_ (h.not_returned hnested)
      rw [List.getElem?_eq_getElem hmade, Option.some.injEq]
      exact h.stops hl hn _ (List.getElem_mem hmade)

/-- Then no thread is held up in its code. -/
theorem stdio_server.stuck.free (h : d.stuck lib) (hl : linked d) (hn : d.nesting) (t : host)
    (who : stop_caller) (call : Nat) (hnested : d.nested who = some call) :
    t.in_application who := by
  rw [h.unnested hl hn who] at hnested
  cases hnested

/-- So the threads of the plain server are stuck in the sense of its own results, with the calls
of `stop()` over, and what is known there of stuck threads applies. -/
theorem stdio_server.stuck.threads (h : d.stuck lib) (hl : linked d) (hn : d.nesting)
    (hexecutor : d.server.executor_ ≠ .absent) : d.server.world.threads_stuck unfit where
  served a t hserved hmeets hstep := by
    refine h (.server (.serve a)) _ ⟨trivial, nofun⟩
      (.server (.serve hserved hexecutor hstep) ⟨?_, hstep.unfit_frames hmeets⟩
        (h.free hl hn _))
    rintro wire rfl
    cases hserved
  application item hworker hcall :=
    h (.server (.application throwing)) _ ⟨trivial, nofun⟩
      (.server (.application _ hworker hcall) trivial (h.free hl hn _))
  stops := h.stops hl hn

/-- Nothing comes in before there is an executor, so the reader is out of `receive()`. -/
theorem stdio_server.stuck.reader (h : d.stuck lib) (hp : d.parts info options) (hl : linked d)
    (hn : d.nesting) : d.server.world.reader = .idle := by
  by_cases hpublished : d.server.executor_ = .published
  · exact (h.threads hl hn (by rw [hpublished]; nofun)).reader (host_calls_known hp.server).world
  · exact (host_unserved hp.server hpublished).2

/-! ### The threads, one by one

Each lemma takes a thread at the place where it might wait and names the step that ends the
wait, or the step of another thread that must come first; that thread was dealt with by a lemma
above. The transport's reader waits for the server in its message callback only, and its workers
for `stop()` in the close callback. The executor's worker waits for work or for the stop of the
queue. The owner waits for the transport and for the executor, in this order. -/

/-- The transport waits for the server nowhere: with an idle reader, a step that the transport
can take is a step of the whole, so if the whole is stuck the transport is. -/
theorem stdio_server.stuck.transport (h : d.stuck lib) (hl : linked d) (hn : d.nesting)
    (hidle : d.server.world.reader = .idle) : d.transport.stuck lib := by
  have hstops := h.stops hl hn
  -- with the server's reader idle the message callback can return
  have hcallback : ∀ after, d.transport.reader ≠ .called after := fun after hreader =>
    h (.transport (.message_returns false)) _
      ⟨trivial, by rintro _ ⟨⟩ hfails; cases hfails⟩
      (.delivered hidle (.message_returned hreader))
  rintro c v ⟨hown, hfails⟩ hstep
  have hunfailing : ∀ c', stdio_server_action.transport c = .transport c' → ¬c'.fails := by
    rintro _ ⟨⟩
    exact hfails
  cases c with
  | start | send | stop | wait => exact hown
  | read_fails | read_throws | write_fails => exact hfails trivial
  -- the request is a step of the server's `stop()` that owes it
  | request_stop =>
      cases hstep with
      | request_stop hpos =>
          cases hrequester : d.requester with
          | none =>
              rw [hl.requests, if_pos hrequester] at hpos
              exact absurd hpos (Nat.lt_irrefl 0)
          | some call =>
              exact h (.server .stop) _ ⟨trivial, nofun⟩
                (.stop_requests hrequester (.request_stop hpos))
  | message_returns threw =>
      cases hstep with
      | message_returned hreader | message_threw hreader => exact hcallback _ hreader
  | reader =>
      cases hreader : d.transport.reader with
      -- a message goes in, since the server's reader is idle
      | calling value after =>
          exact h (.server (.serve (.deliver value))) _ ⟨trivial, nofun⟩ (.deliver hreader hstep)
      | _ =>
          refine h (.transport .reader) _ ⟨trivial, hunfailing⟩ (.transport hstep ?_)
          intro value after hcalling
          rw [hreader] at hcalling
          cases hcalling
  | tail reading =>
      cases htail : d.transport.tail reading with
      | some at_ =>
          cases at_ with
          -- the close callback begins, with a `stop()` of its own
          | claimed reason =>
              refine h (.server .call_stop) _ ⟨?_, nofun⟩ (.close htail hstep)
              exact ⟨rfl, rfl⟩
          -- that call has returned, so the callback returns
          | called =>
              obtain ⟨call, hclose, hmade⟩ := hl.close_stop reading htail
              have hreturned : d.server.world.stops[call]? = some .returned := by
                rw [List.getElem?_eq_getElem hmade, Option.some.injEq]
                exact hstops _ (List.getElem_mem hmade)
              exact h (.transport (.tail reading)) _ ⟨trivial, hunfailing⟩
                (.closed hclose htail hreturned hstep)
          | closing | requesting | publishing | returned | finishing | gone =>
              refine h (.transport (.tail reading)) _ ⟨trivial, hunfailing⟩
                (.transport hstep ⟨?_, ?_⟩)
              · rw [htail]
                nofun
              · rw [htail]
                nofun
      | none =>
          refine h (.transport (.tail reading)) _ ⟨trivial, hunfailing⟩ (.transport hstep ⟨?_, ?_⟩)
          · rw [htail]
            nofun
          · rw [htail]
            nofun
  | _ => exact h (.transport _) _ ⟨trivial, hunfailing⟩ (.transport hstep trivial)

/-- The owner is not on its way through `start()`. -/
def owner_at.in_start : owner_at → Bool
  | .creating | .publishing | .launching | .starting | .committing => true
  | _ => false

/-- The owner is past `start()`, or was never in it: nothing on the way through waits for more
than the transport's `start`, and that has ended. -/
theorem stdio_server.stuck.not_in_start (h : d.stuck lib) (hp : d.parts info options)
    (hl : linked d) (hat : attached d) (htransport : d.transport.at_rest) :
    d.server.owner.in_start = false := by
  have hlife := (host_lifecycle hp.server).owner
  unfold host.owner_ok at hlife
  have hfree := h.free hl hat.nested
  -- the owner is in `start()`, so not in a `stop()` of its own
  have hnone : d.server.owner ≠ .idle → d.owner_stop = none := by
    intro hbusy
    by_contra hstop
    exact hbusy (hat.owner hstop)
  cases howner : d.server.owner with
  | idle | cleaning | waiting | joining | finishing => rfl
  | creating =>
      have hout := hnone (by rw [howner]; nofun)
      exact absurd (.server (.create howner) ⟨hout, by rw [howner]; rfl⟩ (hfree _))
        (h (.server .owner) _ ⟨trivial, nofun⟩)
  | publishing =>
      have hout := hnone (by rw [howner]; nofun)
      by_cases hstate : d.server.state_ = .starting
      · exact absurd (.server (.publish howner hstate) ⟨hout, by rw [howner]; rfl⟩ (hfree _))
          (h (.server .owner) _ ⟨trivial, nofun⟩)
      · exact absurd (.server (.publish_interrupted howner hstate)
          ⟨hout, by rw [howner]; rfl⟩ (hfree _))
          (h (.server .owner) _ ⟨trivial, nofun⟩)
  | launching =>
      rw [howner] at hlife
      have hfresh := hp.starts.mp hlife.2.1
      exact absurd (.start .starts howner (.start .starts hfresh))
        (h (.server .owner) _ ⟨trivial, nofun⟩)
  | starting =>
      rw [howner] at hlife
      cases hstarting : d.transport.starting with
      | fresh =>
          have hzero := hp.starts.mpr hstarting
          rw [hlife.2.1] at hzero
          cases hzero
      | joining => exact absurd hstarting htransport.starting
      | started => exact absurd (.started howner hstarting) (h (.server .owner) _ ⟨trivial, nofun⟩)
      | failed =>
          exact absurd (.start_fails cannot_start howner hstarting)
            (h (.server .owner) _ ⟨trivial, nofun⟩)
  | committing =>
      have hout := hnone (by rw [howner]; nofun)
      by_cases hstate : d.server.state_ = .starting
      · refine absurd (.server (.commit howner hstate) ⟨hout, by rw [howner]; rfl⟩ (hfree _))
          (h (.server (.start_returns true none)) _ ⟨?_, nofun⟩)
        show d.server.owner ≠ .idle
        rw [howner]
        nofun
      · exact absurd (.server (.commit_interrupted howner hstate)
          ⟨hout, by rw [howner]; rfl⟩ (hfree _))
          (h (.server .owner) _ ⟨trivial, nofun⟩)

/-- A server whose owner is past `start()` has closed its executor by now, if it made one, so
the worker has ended. -/
theorem stdio_server.stuck.worker (h : d.stuck lib) (hp : d.parts info options) (hl : linked d)
    (hn : d.nesting) (htransport : d.transport.at_rest) (howner : d.server.owner.in_start = false) :
    d.server.world.run.worker = .gone := by
  have hlife := host_lifecycle hp.server
  obtain ⟨limit, hrun⟩ := hlife.run
  cases hexecutor : d.server.executor_ with
  | absent => exact hrun.finished_gone.mp (hlife.unmade hexecutor)
  | made =>
      have ho := hlife.owner
      unfold host.owner_ok at ho
      cases hat : d.server.owner with
      | creating | publishing | launching | starting | committing =>
          rw [hat] at howner
          cases howner
      | idle | cleaning =>
          rw [hat] at ho
          exact absurd hexecutor ho.1
      | waiting call | joining call | finishing call =>
          rw [hat] at ho
          cases call with
          | start err => exact absurd hexecutor ho.1.1
          | wait bounded => first | exact absurd hexecutor ho.1 | exact absurd hexecutor ho.1.1
  | published =>
      have hthreads := h.threads hl hn (by rw [hexecutor]; nofun)
      -- somebody has called `stop()`: the owner, or the close callback of a transport that was
      -- started
      have hany : d.server.world.stops ≠ [] := by
        rcases hl.published (by rintro hno; rw [hno] at howner; cases howner)
          (by rintro hno; rw [hno] at howner; cases howner) hexecutor with hstarted | hany
        · refine hl.closes fun hnone => ?_
          have hone := (htransport.closed hstarted).1
          rw [hnone] at hone
          cases hone
        · exact hany
      have hclosed := (host_closes_calls hp.server).closed hexecutor hthreads.stops hany
      rcases hthreads.worker (host_custody hp.server) (host_calls_known hp.server).world with
        ⟨-, hopen, -⟩ | hgone
      · rw [hclosed] at hopen
        cases hopen
      · exact hgone

/-- The owner is back: every wait it is in has its answer. -/
theorem stdio_server.stuck.owner (h : d.stuck lib) (hp : d.parts info options) (hl : linked d)
    (hat : attached d) (htransport : d.transport.at_rest)
    (hstart : d.server.owner.in_start = false) (hgone : d.server.world.run.worker = .gone) :
    d.server.owner = .idle := by
  have hlife := host_lifecycle hp.server
  obtain ⟨limit, hrun⟩ := hlife.run
  have hfree := h.free hl hat.nested
  have hnone : d.server.owner ≠ .idle → d.owner_stop = none := by
    intro hbusy
    by_contra hstop
    exact hbusy (hat.owner hstop)
  cases howner : d.server.owner with
  | idle => rfl
  | creating | publishing | launching | starting | committing =>
      rw [howner] at hstart
      cases hstart
  -- the `stop()` of the cleanup has returned
  | cleaning call err =>
      have hmade := (host_calls_known hp.server).cleaning call err howner
      have hreturned : d.server.world.stops[call]? = some .returned := by
        rw [List.getElem?_eq_getElem hmade, Option.some.injEq]
        exact h.stops hl hat.nested _ (List.getElem_mem hmade)
      exact absurd (.cleaned howner hreturned) (h (.server .owner) _ ⟨trivial, nofun⟩)
  -- the transport's wait has its answer: its threads are over
  | waiting call stopped =>
      obtain ⟨entry, hentry, hserves⟩ := hl.waiting call stopped howner
      rcases htransport.waits entry (List.mem_of_getElem? hentry) with
        rfl | ⟨completed, running, rfl⟩
      · exact hserves.elim
      · cases completed with
        | true => exact absurd (.waited howner hentry) (h (.server .owner) _ ⟨trivial, nofun⟩)
        | false =>
            have hbounded : call.bounded = true := hserves
            cases call with
            | start err => cases hbounded
            | wait bounded =>
                have htrue : bounded = true := hbounded
                subst htrue
                exact absurd (.wait_expires howner hentry)
                  (h (.server (.wait_returns (.ok false))) _ ⟨trivial, nofun⟩)
  -- the worker is gone, so the join returns
  | joining call =>
      have hout := hnone (by rw [howner]; nofun)
      exact absurd (.server (.executor_waits howner (hrun.finished_gone.mpr hgone))
        ⟨hout, by rw [howner]; rfl⟩ (hfree _)) (h (.server .owner) _ ⟨trivial, nofun⟩)
  | finishing call =>
      have hout := hnone (by rw [howner]; nofun)
      cases call with
      | start err =>
          refine absurd (.server (.cleanup_ends howner) ⟨hout, by rw [howner]; rfl⟩ (hfree _))
            (h (.server (.start_returns true (some err))) _ ⟨?_, nofun⟩)
          show d.server.owner ≠ .idle
          rw [howner]
          nofun
      | wait bounded =>
          exact absurd (.server (.wait_returns howner) ⟨hout, by rw [howner]; rfl⟩ (hfree _))
            (h (.server (.wait_returns (.ok true))) _ ⟨trivial, nofun⟩)

/-! ## Everything is over

A state from which no thread of the library can go on is one in which all of them are over. With
the bound on the steps every run gets to such a state: however the steps are ordered, there are
only so many. -/

/-- The server has shut down: its threads, the transport's and every call of the owner's are
over. -/
structure stdio_server.ended (d : stdio_server) : Prop extends d.at_rest where
  transport : d.transport.at_rest
  stops : ∀ call ∈ d.server.world.stops, call = .returned
  receiving : d.server.world.reader = .idle
  owner : d.server.owner = .idle
  owner_stop : d.owner_stop = none
  close_stop : d.close_stop = none
  nested : ∀ who, d.nested who = none
  requester : d.requester = none

/-- Where no step is left, all is over. The parts come from the lemmas above in their order;
what is new are the leftovers: operations in flight, and the marks of who is in which `stop()`.
-/
theorem stdio_server.stuck.ended (h : d.stuck lib)
    (hr : (stdio_server_runs lib info options o stream).Reachable d) : d.ended := by
  have hp := stdio_server_parts hr
  have hat := stdio_server_attached hr
  have hl := stdio_server_linked hr
  have hc := host_custody hp.server
  obtain ⟨limit, hrun⟩ := (host_lifecycle hp.server).run
  have hthreads := stdio_server_threads hr
  have hstops := h.stops hl hat.nested
  have hreader := h.reader hp hl hat.nested
  have htransport := stdio_stuck_at_rest hthreads (h.transport hl hat.nested hreader)
  have hstart := h.not_in_start hp hl hat htransport
  have hgone := h.worker hp hl hat.nested htransport hstart
  have hpending := hrun.drained (hrun.leaving_stopped (.inr hgone))
  have hcall : d.server.world.call = .outside :=
    hc.call.outside (by simp [hgone]) (by simp [hgone])
  refine
    { reader := htransport.reader
      writer := htransport.writer
      worker := hgone
      closed := over_closed hthreads ⟨htransport.reader, htransport.writer⟩
      pending := hpending
      active := by rw [hrun.active_worker, hgone]; rfl
      inflight := ?_
      transport := htransport
      stops := hstops
      receiving := hreader
      owner := h.owner hp hl hat htransport hstart hgone
      owner_stop := ?_
      close_stop := ?_
      nested := h.unnested hl hat.nested
      requester := ?_ }
  -- in flight means queued or with the worker, and neither is there
  · refine List.eq_nil_iff_forall_not_mem.mpr fun op hop => ?_
    rcases in_flight_places hc hreader (fun call hmem => .inr (hstops call hmem)) hop with
      hmem | hmem
    · rw [hpending] at hmem
      cases hmem
    · rw [hcall, hgone] at hmem
      cases hmem
  · cases hstop : d.owner_stop with
    | none => rfl
    | some call =>
        have hmade := hl.owner_stop call hstop
        have hreturned : d.server.world.stops[call]? = some .returned := by
          rw [List.getElem?_eq_getElem hmade, Option.some.injEq]
          exact hstops _ (List.getElem_mem hmade)
        exact absurd (.owner_stopped hstop hreturned) (h (.server .stop) _ ⟨trivial, nofun⟩)
  · cases hclose : d.close_stop with
    | none => rfl
    | some call =>
        -- whoever were in the callback is over
        obtain ⟨reading, hcalled⟩ := hat.closing call hclose
        cases reading with
        | true =>
            have hover := htransport.reader
            rw [stdio_world.reader_of_tail hcalled] at hover
            cases hover
        | false =>
            have hover := htransport.writer
            rw [stdio_world.writer_of_tail hcalled] at hover
            cases hover
  · by_contra hsome
    have hone := hl.requests
    rw [htransport.requests, if_neg hsome] at hone
    cases hone

/-- A step of the shutdown spends what a state has left. -/
theorem stdio_server_steps_budget :
    (stdio_server_runs lib info options o stream).Budget shutdown_step
      (stdio_server.steps_left lib o) :=
  fun _ _ _ hr hown hstep => hstep.spends hr hown

/-- From whatever state a server over `stdio_transport` is in, the steps its threads can take
are bounded, and when there are none left but those in which a read, a write or the reader's
loop fails, it has shut down: no thread of the SDK waits for another one for ever, and every
call the owner is in has returned. -/
theorem stdio_server_comes_to_rest
    (hr : (stdio_server_runs lib info options o stream).Reachable d) :
    (stdio_server_runs lib info options o stream).CompletesBy shutdown_step shutdown_unfailing
      (d.steps_left lib o) stdio_server.ended d :=
  stdio_server_steps_budget.completes_by (fun _ _ _ hown => hown.1) hr fun _ ht hstuck =>
    stdio_server.stuck.ended (fun a e => hstuck a e) ht

end Stuck

/-- The close callback of a session whose peer has closed its end is about to stop the server;
and in another one a handler is, while the owner waits for it. -/
theorem stdio_server_comes_to_rest_closing :
    stdio_server_session.runs.CompletesBy shutdown_step shutdown_unfailing
        (stdio_server_session.closing.steps_left stdio_session.lib {}) stdio_server.ended
        stdio_server_session.closing ∧
      stdio_server_session.called_runs.CompletesBy shutdown_step shutdown_unfailing
        (stdio_server_session.stopping.steps_left stdio_server_session.calls {})
        stdio_server.ended stdio_server_session.stopping :=
  ⟨stdio_server_comes_to_rest stdio_server_session.reaches_closing,
    stdio_server_comes_to_rest stdio_server_session.reaches_stopping⟩

end SynapseMcp
