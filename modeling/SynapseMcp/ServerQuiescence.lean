/-
What a successful `wait()` leaves: nothing that runs, and nothing that will.

The server's threads, the transport's and the calls of `stop()` hold each other up only
through positions: a message the reader is on is one the transport's reader has called
back with, and a call of `stop()` that is not over is one some thread is in
(`attached`). When the transport's workers are over and the executor's is gone, no thread
is left to be in one, so the captures of every operation are gone too, and a server in
this state stays in it (`quiet`).
-/
import SynapseMcp.ApplicationTexts
import SynapseMcp.ServerStdio
import SynapseMcp.ServerIds
import SynapseMcp.Places

set_option autoImplicit false

namespace SynapseMcp

open Transition Places SharedOwnership

/-! ## Custody in a host

`custody` says where the captured operations of a server are: each operation in flight is held
by the reader, the queue, the worker or a cleanup. It was proved of the server's own runs; here
it is carried over to those with an owner, whose steps either are sections that move no capture
or make and stop the executor.

At the end of the file custody is what turns an absence of threads into an absence of
operations: where nobody is left who could hold a capture, nothing is in flight. -/

section Custody

variable {h t : host} {a : host_action}

/-- A step that moves no capture and begins and ends no completion keeps custody, whatever else
it changes. -/
theorem custody.same {w v : world} (hc : custody w)
    (hinflight : v.server.inflight_ = w.server.inflight_)
    (hoperations : v.server.operations.length = w.server.operations.length)
    (hcaptures : ∀ op, v.captures op = w.captures op)
    (hretirements : ∀ op, v.retirements op = w.retirements op) (hreader : v.reader = w.reader)
    (hcall : call_matches v.run.worker v.call) : custody v := by
  have hledger : v.ledger = w.ledger := by
    have hheld : (fun op => v.captures op + v.reader.held.count op) =
        fun op => w.captures op + w.reader.held.count op := by
      funext op
      rw [hcaptures, hreader]
    have hretiring : (fun op => v.retirements op) = fun op => w.retirements op :=
      funext hretirements
    rw [world.ledger, world.ledger, hinflight, hheld, hretiring]
  refine ⟨hledger ▸ hc.balanced, ?_, ?_, hcall, ?_⟩
  · intro op hop
    rw [hoperations]
    exact hc.made op (hinflight ▸ hop)
  · intro op
    rw [hcaptures]
    exact hc.captured_once op
  · intro req op hat
    rw [hcaptures]
    exact hc.uncaptured req op (hreader ▸ hat)

/-- A registration admits nothing. -/
theorem register_operations (s : server) (r : registration) :
    (s.register r).1.inflight_ = s.inflight_ ∧ (s.register r).1.operations = s.operations := by
  rcases s.register_cases r with ⟨err, heq⟩ | ⟨-, -, hr⟩
  · rw [heq]
    exact ⟨rfl, rfl⟩
  · generalize (s.register r).1 = s' at hr
    cases hr <;> exact ⟨rfl, rfl⟩

/-- A call of `stop()` just past the server's section holds nothing. -/
theorem host.after_section_holds (h : host) (goes_on : Bool) :
    (h.after_section goes_on).discarded = [] ∧ (h.after_section goes_on).completes = [] := by
  unfold host.after_section
  split
  · exact ⟨rfl, rfl⟩
  · split <;> exact ⟨rfl, rfl⟩

/-- Custody is kept by every step, the owner's included: what its sections take out of the queue
it holds until it has destroyed it. -/
theorem host.Step.custody (hi : lifecycle_inv h) (hc : custody h.world)
    (hstep : host.Step h a t) : SynapseMcp.custody t.world := by
  have hclean : SynapseMcp.custody { h.world with stops := h.world.stops ++ [.entered] } :=
    hc.step (.call_stop h.world)
  have ho := hi.owner
  unfold host.owner_ok at ho
  cases hstep with
  | register r =>
      obtain ⟨hinflight, hoperations⟩ := register_operations h.world.server r
      exact hc.same hinflight (congrArg List.length hoperations) (fun _ => rfl) (fun _ => rfl) rfl
        hc.call
  | create howner =>
      -- what stood for the executor held nothing
      rw [howner] at ho
      obtain ⟨limit, hrun⟩ := hi.run
      have hgone := hrun.finished_gone.mp (hi.unmade ho.1)
      have hempty := hrun.drained (hrun.leaving_stopped (.inr hgone))
      have houtside : h.world.call = .outside :=
        hc.call.outside (by simp [hgone]) (by simp [hgone])
      have hworks : current_works h.world.run.worker h.world.call = [] := by
        rw [houtside, hgone]
        rfl
      have hnew : current_works (runtime.make h.options_.max_pending_requests).worker
          h.world.call = [] := by
        rw [houtside]
        unfold runtime.make current_works
        dsimp only
        split <;> rfl
      refine hc.same rfl rfl ?_ (fun _ => rfl) rfl ?_
      · intro op
        simp only [world.captures, hempty, hworks]
        rw [hnew]
        rfl
      · rw [houtside]
        intro item hitem
        unfold runtime.make at hitem
        dsimp only at hitem
        split at hitem <;> cases hitem
  | deliver wire hstarted hreader => exact hc.step (.deliver wire hreader)
  | serve hserved hexecutor hworld => exact hc.step hworld
  | application env hworker hcall => exact hc.step (.application (some _) hworker hcall)
  | @stop_server call hcall =>
      obtain ⟨hdiscarded, hcompletes⟩ := h.after_section_holds h.world.server.stop.2
      refine hc.same (server.stop_inflight _) (server.stop_length _) ?_ ?_ rfl hc.call
      · intro op
        have hset := captures_stopped_set op (h.after_section h.world.server.stop.2) hcall
        rw [hdiscarded] at hset
        have hsame : captures_stopped op (h.world.stops.set call
            (h.after_section h.world.server.stop.2)) = captures_stopped op h.world.stops := hset
        simp only [world.captures, hsame]
      · intro op
        have hset := completes_stopped_set op (h.after_section h.world.server.stop.2) hcall
        rw [hcompletes] at hset
        have hsame : completes_stopped op (h.world.stops.set call
            (h.after_section h.world.server.stop.2)) = completes_stopped op h.world.stops := hset
        simp only [world.retirements, hsame]
  | stop_executor hcall => exact hc.step (.stop_executor hcall)
  | stop_cleans hcall => exact hc.step (.stop_cleans hcall)
  | stop_transport hcall => exact hc.step (.stop_transport hcall)
  | create_throws | publish_interrupted | transport_start_fails | transport_start_throws
  | commit_interrupted | call_stop => exact hclean
  | start_invalid | start_enters | commit | wait_returns | cleanup_ends =>
      exact hc.same rfl rfl (fun _ => rfl) (fun _ => rfl) rfl hc.call
  | _ => exact hc

variable {info : raw_info} {options : server_options}

/-- The constructor makes a server without operations, so there is nothing that anybody could
hold. -/
theorem constructed_custody (info : raw_info) (options : server_options) :
    custody (host.constructed info options).world := by
  have hcaptures : ∀ op, (host.constructed info options).world.captures op = 0 := by
    intro op
    rfl
  refine ⟨.empty rfl ?_ ?_, ?_, ?_, ?_, ?_⟩
  · intro op
    rfl
  · intro op
    rfl
  · intro op hop
    cases hop
  · intro op
    rw [hcaptures]
    exact Nat.zero_le _
  · intro item hitem
    cases hitem
  · intro req op hreader
    cases hreader

/-- So it holds in every state a server with an owner can come to. -/
theorem host_custody (hr : (host_runs info options).Reachable h) : custody h.world := by
  refine hr.invariant (P := fun h => custody h.world) ?_ ?_
  · rintro s rfl
    exact constructed_custody info options
  · intro s b u hs hc hstep
    exact hstep.custody (host_lifecycle hs) hc

end Custody

/-! ## What the transport's steps leave alone

The system has two parts with threads of their own, and most invariants about the whole say
something of the positions of both. So the first question about a step of one part is what it
cannot do: it does not take the reader out of the callback, does not move a worker that is
behind its loop, and does not bring back one that is over, unless it is the step for that. -/

section Transport

variable {lib : json_library} {w t : stdio_world} {a : stdio_action}

/-- Both workers have ended, or never existed. -/
def stdio_world.over (w : stdio_world) : Prop := w.reader.over = true ∧ w.writer.over = true

/-- Only its own return, or an exception of the loop, takes the reader out of the message
callback. -/
theorem stdio_world.Step.stays_called (hstep : stdio_world.Step lib w a t) {after : after_frame}
    (hreader : w.reader = .called after) (hstart : ∀ answers, a ≠ .start answers)
    (hreturn : ∀ threw, a ≠ .message_returns threw) (hthrows : a ≠ .read_throws) :
    t.reader = .called after := by
  have htail : ∀ {reading : Bool} {at_ : tail_at}, w.tail reading = some at_ →
      ∀ v : stdio_world, v.reader = w.reader → ∀ next, (v.at_tail reading next).reader =
        .called after := by
    intro reading at_ hat v hv next
    cases reading with
    | true =>
        have hno := stdio_world.reader_of_tail hat
        rw [hreader] at hno
        cases hno
    | false => exact hv.trans hreader
  cases hstep with
  | start answers | start_again answers => exact absurd rfl (hstart answers)
  | message_returned | message_threw => exact absurd rfl (hreturn _)
  | read_throws => exact absurd rfl hthrows
  | tail_begins hat | tail_requests hat | tail_claims hat | tail_calls hat | tail_returns hat
  | tail_publishes hat | tail_ends hat => exact htail hat _ rfl _
  | wake_reader hno | head_stops hno | head_reads hno | read _ hno | eof_in_line hno | eof hno
  | read_fails hno | failed_stops hno | failed_closes hno | scan_done hno | scan_stops hno
  | scan_newline hno | scan_over hno | scan_byte hno | frame hno | diagnose_sent _ hno
  | diagnose_fails _ hno | call_message hno =>
      rw [hreader] at hno
      cases hno
  | _ => exact hreader

/-- Only its own steps move a worker that is behind its loop. -/
theorem stdio_world.Step.stays_tail (hstep : stdio_world.Step lib w a t) {reading : Bool}
    {at_ : tail_at} (hat : w.tail reading = some at_) (hstart : ∀ answers, a ≠ .start answers)
    (hother : a ≠ .tail reading) : t.tail reading = some at_ := by
  -- the code behind the loops is written once for both workers: the other's steps are other sides
  have htail : ∀ side : Bool, a = .tail side → ∀ v : stdio_world, v.reader = w.reader →
      v.writer = w.writer → ∀ next, (v.at_tail side next).tail reading = some at_ := by
    intro side hside v hreader hwriter next
    cases reading with
    | true =>
        cases side with
        | true => exact absurd hside hother
        | false => exact (congrArg read_at.tail? hreader).trans hat
    | false =>
        cases side with
        | true => exact (congrArg write_at.tail? hwriter).trans hat
        | false => exact absurd hside hother
  have hread : reading = true → w.reader = .tail at_ := by
    rintro rfl
    exact stdio_world.reader_of_tail hat
  have hwrite : reading = false → w.writer = .tail at_ := by
    rintro rfl
    exact stdio_world.writer_of_tail hat
  cases reading with
  | true =>
      have hreader := hread rfl
      cases hstep with
      | start answers | start_again answers => exact absurd rfl (hstart answers)
      | read_throws hloop =>
          rw [hreader] at hloop
          cases hloop
      | tail_begins | tail_requests | tail_claims | tail_calls | tail_returns | tail_publishes
      | tail_ends => exact htail _ rfl _ rfl rfl _
      -- the reader's own steps in its loop, which it has left
      | wake_reader hno | head_stops hno | head_reads hno | read _ hno | eof_in_line hno | eof hno
      | read_fails hno | failed_stops hno | failed_closes hno | scan_done hno | scan_stops hno
      | scan_newline hno | scan_over hno | scan_byte hno | frame hno | diagnose_sent _ hno
      | diagnose_fails _ hno | call_message hno | message_returned hno | message_threw hno =>
          rw [hreader] at hno
          cases hno
      | _ => exact hat
  | false =>
      have hwriter := hwrite rfl
      cases hstep with
      | start answers | start_again answers => exact absurd rfl (hstart answers)
      | tail_begins | tail_requests | tail_claims | tail_calls | tail_returns | tail_publishes
      | tail_ends => exact htail _ rfl _ rfl rfl _
      | wake_writer hno | wake_unstarted hno | write_drained hno | write_expires hno
      | write_takes hno | write _ hno | write_fails hno | write_done hno =>
          rw [hwriter] at hno
          cases hno
      | _ => exact hat

/-- Workers that are over take no step and make no call; only a `start` makes new ones. -/
theorem stdio_world.Step.stays_over (hstep : stdio_world.Step lib w a t) (hover : w.over)
    (hstart : ∀ answers, a ≠ .start answers) :
    t.over ∧ t.reader = w.reader ∧ t.writer = w.writer := by
  obtain ⟨hr, hw⟩ := hover
  -- behind its loop, a worker that is over has its last step behind it
  have htail : ∀ {reading : Bool} {at_ : tail_at}, w.tail reading = some at_ → at_ = .gone := by
    intro reading at_ hat
    cases reading with
    | true =>
        rw [stdio_world.reader_of_tail hat] at hr
        cases at_ <;> first | rfl | cases hr
    | false =>
        rw [stdio_world.writer_of_tail hat] at hw
        cases at_ <;> first | rfl | cases hw
  cases hstep with
  | start answers | start_again answers => exact absurd rfl (hstart answers)
  | tail_begins hat | tail_requests hat | tail_claims hat | tail_calls hat | tail_returns hat
  | tail_publishes hat | tail_ends hat => cases htail hat
  | read_throws hloop =>
      cases hreader : w.reader with
      | tail at_ =>
          rw [hreader] at hloop
          cases hloop
      | absent =>
          rw [hreader] at hloop
          cases hloop
      | _ =>
          rw [hreader] at hr
          cases hr
  | wake_reader hno | head_stops hno | head_reads hno | read _ hno | eof_in_line hno | eof hno
  | read_fails hno | failed_stops hno | failed_closes hno | scan_done hno | scan_stops hno
  | scan_newline hno | scan_over hno | scan_byte hno | frame hno | diagnose_sent _ hno
  | diagnose_fails _ hno | call_message hno | message_returned hno | message_threw hno =>
      rw [hno] at hr
      cases hr
  | wake_writer hno | wake_unstarted hno | write_drained hno | write_expires hno
  | write_takes hno | write _ hno | write_fails hno | write_done hno =>
      rw [hno] at hw
      cases hw
  | _ => exact ⟨⟨hr, hw⟩, rfl, rfl⟩

/-- A transport is fresh until its first `start`. -/
theorem stdio_world.Step.fresh_iff (hstep : stdio_world.Step lib w a t)
    (hstart : ∀ answers, a ≠ .start answers) : t.starting = .fresh ↔ w.starting = .fresh := by
  cases hstep with
  | start answers | start_again answers => exact absurd rfl (hstart answers)
  | start_joins hstarting =>
      rw [hstarting]
      exact ⟨nofun, nofun⟩
  | _ => exact Iff.rfl

end Transport

/-! ## What the server's steps leave alone

The same for the server. A thread that is in a call of `stop()` stays there until the call
returns, and a call that begins belongs to the thread that took the step. `keeps_calls` says it
for the reader and the worker at once, as the two are moved by different steps. -/

section Serving

variable {w v : world} {a : server_action}

/-- A thread stays in the `stop()` it called until that returns, and a new call is that of
the thread that takes the step. -/
structure keeps_calls (w v : world) : Prop where
  idle : w.reader = .idle → v.reader = .idle
  reader : ∀ call held, w.reader = .stopping call held → w.stops[call]? ≠ some .returned →
    v.reader = .stopping call held
  worker : ∀ call, w.call = .stopping call → w.stops[call]? ≠ some .returned →
    v.call = .stopping call
  stops : v.stops = w.stops ∨ (v.stops = w.stops ++ [.entered] ∧
    ((∃ held, v.reader = .stopping w.stops.length held) ∨ v.call = .stopping w.stops.length))

/-- The reader is in `receive()` and in no call of `stop()`. -/
theorem keeps_calls.of_reader (hidle : w.reader ≠ .idle)
    (hstopping : ∀ call held, w.reader ≠ .stopping call held) (hcall : v.call = w.call)
    (hstops : v.stops = w.stops ∨ (v.stops = w.stops ++ [.entered] ∧
      ∃ held, v.reader = .stopping w.stops.length held)) : keeps_calls w v where
  idle h := absurd h hidle
  reader _ _ h _ := absurd h (hstopping _ _)
  worker _ h _ := hcall.trans h
  stops := by
    rcases hstops with heq | ⟨heq, held, hreader⟩
    · exact .inl heq
    · exact .inr ⟨heq, .inl ⟨held, hreader⟩⟩

/-- The worker is in no call of `stop()`: then a step that leaves the reader alone keeps the
calls there are, or adds the one that the worker itself enters. -/
theorem keeps_calls.of_worker (hreader : v.reader = w.reader)
    (hstopping : ∀ call, w.call ≠ .stopping call)
    (hstops : v.stops = w.stops ∨
      (v.stops = w.stops ++ [.entered] ∧ v.call = .stopping w.stops.length)) :
    keeps_calls w v where
  idle h := hreader.trans h
  reader _ _ h _ := hreader.trans h
  worker _ h _ := absurd h (hstopping _)
  stops := by
    rcases hstops with heq | ⟨heq, hcall⟩
    · exact .inl heq
    · exact .inr ⟨heq, .inr hcall⟩

/-- Neither position changes, and no call begins. -/
theorem keeps_calls.of_same (hreader : v.reader = w.reader) (hcall : v.call = w.call)
    (hstops : v.stops = w.stops) : keeps_calls w v where
  idle h := hreader.trans h
  reader _ _ h _ := hreader.trans h
  worker _ h _ := hcall.trans h
  stops := .inl hstops

/-- The steps of the server, one by one: each moves one of the two threads, or none. -/
theorem served_calls (hc : custody w) (hserved : a.served = true) (hstep : world.Step w a v) :
    keeps_calls w v := by
  cases hstep with
  | @receive wire answers hreader =>
      refine .of_reader (by simp [hreader]) (by simp [hreader]) rfl ?_
      cases hnext : (w.server.receive answers wire).next with
      | stop => exact .inr ⟨rfl, none, rfl⟩
      | done | enqueue | cancel => exact .inl rfl
  | enqueue hreader | reject_sent _ hreader | reject_threw _ hreader | leave_last hreader
  | cancel hreader | reader_cleans hreader =>
      exact .of_reader (by simp [hreader]) (by simp [hreader]) rfl (.inl rfl)
  | reject_failed _ hreader =>
      exact .of_reader (by simp [hreader]) (by simp [hreader]) rfl (.inr ⟨rfl, _, rfl⟩)
  | @leave_shared op threw hreader | @reader_completes op threw hreader =>
      refine .of_reader (by simp [hreader]) (by simp [hreader]) rfl ?_
      cases threw
      · exact .inl rfl
      · exact .inr ⟨rfl, none, rfl⟩
  -- the call it waited for has returned, so it is no open call any more
  | @reader_stopped call held hreader hreturned =>
      refine ⟨?_, ?_, fun call' h _ => h, .inl rfl⟩
      · intro hidle
        rw [hreader] at hidle
        cases hidle
      · intro call' held' h hopen
        rw [hreader] at h
        cases h
        exact absurd hreturned hopen
  | invoke hworker =>
      refine .of_worker rfl ?_ (.inl rfl)
      intro call hcall
      have hmatch := hc.call
      rw [hcall, hworker] at hmatch
      obtain ⟨item, hitem⟩ := hmatch
      cases hitem
  | apply _ hcall | skip _ hcall | respond _ _ hcall | finish_call _ hcall | release_last _ hcall
  | call_completes _ hcall =>
      exact .of_worker rfl (by simp [hcall]) (.inl rfl)
  | respond_failed _ _ hcall => exact .of_worker rfl (by simp [hcall]) (.inr ⟨rfl, rfl⟩)
  -- the same for the worker
  | @call_stopped call hcall hreturned =>
      refine ⟨id, fun call' held h _ => h, ?_, .inl rfl⟩
      intro call' h hopen
      rw [hcall] at h
      cases h
      exact absurd hreturned hopen
  | deliver | application | call_stop | stop_server | stop_executor | stop_cleans | stop_transport
  | start_commits | wait_returns => cases hserved
  | _ => exact .of_same rfl rfl rfl

/-- The threads have nothing to do: the reader is outside `receive()`, and the worker
gone. -/
theorem world.Step.rests (hc : custody w) (hreader : w.reader = .idle)
    (hworker : w.run.worker = .gone) (hstep : world.Step w a v) : a.served = false := by
  have houtside : w.call = .outside := hc.call.outside (by simp [hworker]) (by simp [hworker])
  cases hstep with
  | receive _ hno | enqueue hno | reject_sent _ hno | reject_failed _ hno | reject_threw _ hno
  | leave_shared hno | leave_last hno | reader_completes hno | cancel hno | reader_cleans hno
  | reader_stopped hno =>
      rw [hreader] at hno
      cases hno
  | dequeue hno | invoke hno | apply hno | skip hno | application _ hno | respond _ hno
  | respond_failed _ hno | finish_call hno | reset_active hno | release_shared hno
  | release_last hno | call_completes hno | leave_loop hno | finish hno =>
      rw [hworker] at hno
      cases hno
  | call_stopped hno =>
      rw [houtside] at hno
      cases hno
  | _ => rfl

end Serving

/-! ## The two parts of a run

A step of the system is a step of the transport, of the server, or of both where they meet.
Projected to either part a run is one of that part, so everything that was proved about the
parts can be used; what has to be shown for it is that where the parts meet each finds the other
where its own model needs it. These conditions are the small invariants below, one for each way
they meet. -/

section Parts

variable {lib : json_library} {info : raw_info} {options : server_options} {o : stdio_options}
variable {stream : List UInt8} {d e : stdio_server} {a : stdio_server_action}
variable {h t : host} {b : host_action}

/-- Seen from the transport a step is one of its own or none. -/
theorem stdio_server.Step.transport_step (hstep : stdio_server.Step lib d a e) :
    e.transport = d.transport ∨ ∃ c, stdio_world.Step lib d.transport c e.transport := by
  cases hstep with
  | send _ _ _ hsend => exact .inr ⟨_, hsend⟩
  | start _ _ hstart => exact .inr ⟨_, hstart⟩
  | deliver _ hcall => exact .inr ⟨_, hcall⟩
  | delivered _ hreturn => exact .inr ⟨_, hreturn⟩
  | transport htransport => exact .inr ⟨_, htransport⟩
  | close _ hcall => exact .inr ⟨_, hcall⟩
  | closed _ _ _ hreturn => exact .inr ⟨_, hreturn⟩
  | stop_closing _ _ _ hstop => exact .inr ⟨_, hstop⟩
  | stop_closes _ _ hstop => exact .inr ⟨_, hstop⟩
  | stop_requests _ hrequest => exact .inr ⟨_, hrequest⟩
  | cleaned => exact .inr ⟨_, .wait _ false⟩
  | wait bounded => exact .inr ⟨_, .wait _ bounded⟩
  | _ => exact .inl rfl

/-- The transport's part is a run of the transport: each step of the whole is one of its steps,
or does not touch it. -/
theorem stdio_server_transport :
    System.Simulation (stdio_server_runs lib info options o stream) (stdio_runs lib o stream)
      stdio_server.transport where
  init := by
    rintro d rfl
    rfl
  step := by
    intro d a e _ _ hstep
    rcases hstep.transport_step with heq | ⟨c, hc⟩
    · rw [heq]
      exact .refl
    · exact .single ⟨c, hc⟩

/-! ### Who starts the transport

The server's model counts the calls of `start` it makes, and delivers nothing before the first.
The transport's model says whether it was started. That the two agree needs that nobody but the
owner starts the transport, which it does from one position. -/

/-- Only the owner, and from this one position, starts the transport. -/
theorem host.Step.starts (hstep : host.Step h b t) (howner : b = .owner → h.owner ≠ .launching) :
    t.transport.starts = h.transport.starts := by
  cases hstep with
  | transport_start hlaunching => exact absurd hlaunching (howner rfl)
  | _ => rfl

/-- A step that the owner takes without the transport finds it outside of the transport. -/
theorem stdio_server.alone.outside (halone : d.alone t b) (hb : b = .owner) :
    d.server.owner.outside = true := by
  subst hb
  exact halone.2

/-- And not about to start it. -/
theorem stdio_server.alone.not_launching (halone : d.alone t b) (hb : b = .owner) :
    d.server.owner ≠ .launching := by
  intro hlaunching
  have houtside := halone.outside hb
  rw [hlaunching] at houtside
  cases houtside

/-- Behind a call of `start` the transport is not fresh, whatever came of it. -/
theorem stdio_world.Step.started {w v : stdio_world} {answers : start_answers}
    (hstep : stdio_world.Step lib w (.start answers) v) : v.starting ≠ .fresh := by
  cases hstep with
  | start =>
      cases (w.shared.start answers).2 <;> simp [start_outcome.starting]
  | start_again _ hstarting => exact hstarting

/-- The server has started its transport when that is not fresh. -/
def stdio_server.starts_agree (d : stdio_server) : Prop :=
  d.server.transport.starts = 0 ↔ d.transport.starting = .fresh

/-- The two parts agree on whether the transport was started. -/
theorem stdio_server.starts_agree.step (hi : d.starts_agree) (hstep : stdio_server.Step lib d a e) :
    e.starts_agree := by
  unfold stdio_server.starts_agree at hi ⊢
  cases hstep with
  | server hhost halone =>
      rw [hhost.starts fun hb => halone.not_launching hb]
      exact hi
  | send _ hhost _ hsend =>
      rw [hhost.starts nofun, hsend.fresh_iff nofun]
      exact hi
  | start _ _ hstart => exact ⟨fun hzero => absurd hzero (Nat.succ_ne_zero _), fun hfresh =>
      absurd hfresh hstart.started⟩
  | deliver _ hcall => exact hi.trans (hcall.fresh_iff nofun).symm
  | delivered _ hreturn => exact hi.trans (hreturn.fresh_iff nofun).symm
  | transport htransport halone =>
      refine hi.trans (htransport.fresh_iff ?_).symm
      rintro answers rfl
      exact halone
  | close _ hcall => exact hi.trans (hcall.fresh_iff nofun).symm
  | closed _ _ _ hreturn => exact hi.trans (hreturn.fresh_iff nofun).symm
  | stop_closing _ _ _ hstop => exact hi.trans (hstop.fresh_iff nofun).symm
  | stop_closes _ _ hstop => exact hi.trans (hstop.fresh_iff nofun).symm
  | stop_requests _ hrequest => exact hi.trans (hrequest.fresh_iff nofun).symm
  | _ => exact hi

/-! ### Who runs `receive()`

What the server's model calls its reader is no thread of its own. It is the transport's reader,
in the message callback. So while the server's reader is at work the transport's is in the
callback, and the callback returns when the other is idle again. This is why a text is never
delivered to a reader that is still busy with the one before. -/

/-- A server's reader that is at work was called by the transport's, which is still in the
callback. -/
def stdio_server.in_callback (d : stdio_server) : Prop :=
  d.server.world.reader ≠ .idle → ∃ after, d.transport.reader = .called after

/-- A reader that was not called stays idle. -/
theorem host.Step.stays_idle (hstep : host.Step h b t)
    (hdeliver : ∀ wire, b ≠ .serve (.deliver wire)) (hidle : h.world.reader = .idle)
    (hc : SynapseMcp.custody h.world) : t.world.reader = .idle := by
  cases hstep with
  | deliver wire => exact absurd rfl (hdeliver wire)
  | serve hserved hexecutor hworld => exact (served_calls hc hserved hworld).idle hidle
  | _ => exact hidle

/-- The server does not call its own message callback. -/
theorem stdio_server.alone.not_deliver (halone : d.alone t b) (wire : json) :
    b ≠ .serve (.deliver wire) := by
  rintro rfl
  exact halone.1 wire rfl

/-- The callback returns when the server's reader is through, and not before. -/
theorem stdio_server.in_callback.step (hi : d.in_callback) (hc : custody d.server.world)
    (ht : d.transport.view.threads) (hstep : stdio_server.Step lib d a e) : e.in_callback := by
  unfold stdio_server.in_callback at hi ⊢
  -- the transport's reader stays in the callback while the server is in `receive()`
  have hkeeps : ∀ {c : stdio_action} {v : stdio_world}, stdio_world.Step lib d.transport c v →
      ((∀ answers, c ≠ .start answers) ∧ (∀ threw, c ≠ .message_returns threw) ∧
        c ≠ .read_throws) →
      d.server.world.reader ≠ .idle → ∃ after, v.reader = .called after := by
    rintro c v hc ⟨hstart, hreturn, hthrows⟩ hbusy
    obtain ⟨after, hreader⟩ := hi hbusy
    exact ⟨after, hc.stays_called hreader hstart hreturn hthrows⟩
  cases hstep with
  | server hhost halone =>
      intro hbusy
      refine hi fun hidle => hbusy ?_
      exact hhost.stays_idle halone.not_deliver hidle hc
  | @send _ _ _ _ m hhost hframe hsend _ =>
      intro hbusy
      refine hkeeps hsend (by simp) fun hidle => hbusy ?_
      refine hhost.stays_idle ?_ hidle hc
      -- a delivery passes no frame
      rintro wire heq
      cases heq
      cases hhost with
      | deliver => simp [world.frames] at hframe
      | serve hserved => cases hserved
  | start _ _ hstart =>
      intro hbusy
      obtain ⟨after, hreader⟩ := hi hbusy
      cases hstart with
      | start _ hfresh =>
          have habsent := (ht.fresh hfresh).1
          rw [show d.transport.view.reader = d.transport.reader.stage from rfl, hreader] at habsent
          cases habsent
      | start_again => exact ⟨after, hreader⟩
  | deliver hreader hcall =>
      intro _
      cases hcall with
      | call_message => exact ⟨_, rfl⟩
      | head_stops hno | head_reads hno | failed_stops hno | failed_closes hno | scan_done hno
      | scan_stops hno | scan_newline hno | scan_over hno | scan_byte hno | frame hno =>
          rw [hreader] at hno
          cases hno
  | delivered hidle _ => exact fun hbusy => absurd hidle hbusy
  | transport htransport halone =>
      intro hbusy
      obtain ⟨after, hreader⟩ := hi hbusy
      refine hkeeps htransport ⟨?_, ?_, ?_⟩ hbusy
      · rintro answers rfl
        exact halone
      · rintro threw rfl
        exact halone
      · rintro rfl
        exact halone after hreader
  | close _ hcall => exact hkeeps hcall (by simp)
  | closed _ _ _ hreturn => exact hkeeps hreturn (by simp)
  | stop_closing _ _ _ hstop => exact hkeeps hstop (by simp)
  | stop_closes _ _ hstop => exact hkeeps hstop (by simp)
  | stop_requests _ hrequest => exact hkeeps hrequest (by simp)
  | _ => exact hi

/-! ### Who asks the transport's reader to stop

A call of the server's `stop()` comes to the transport's `stop()`, and if it is the one that
closes the transport it owes the reader the request to stop. Between the close and the request
the call is at one position in the server's list and cannot have returned. -/

/-- The call of `stop()` that is in the transport's `stop()` is at that position. -/
def stdio_server.requester_ok (d : stdio_server) : Prop :=
  ∀ call, d.requester = some call → d.server.world.stops[call]? = some .transport

/-- Serving makes calls of `stop()` and moves none: a handler or a hook may enter a new one, but
how far the old ones are is up to their own threads. -/
theorem host.Step.serve_stops {c : server_action} (hstep : host.Step h (.serve c) t) {call : Nat}
    {at_ : stop_at} (hcall : h.world.stops[call]? = some at_) :
    t.world.stops[call]? = some at_ := by
  cases hstep with
  | deliver => exact hcall
  | serve hserved _ hworld =>
      rcases served_stops hserved hworld with heq | heq
      · rw [heq]
        exact hcall
      · rw [heq]
        exact concat_of hcall

/-- No call of `stop()` is taken past `transport` by the server alone. -/
theorem stdio_server.alone.keeps_transport (halone : d.alone t b)
    (hstep : host.Step d.server b t) {call : Nat}
    (hcall : d.server.world.stops[call]? = some .transport) :
    t.world.stops[call]? = some .transport := by
  cases hstep with
  | deliver wire hstarted hreader =>
      exact host.Step.serve_stops (.deliver wire hstarted hreader) hcall
  | serve hserved hexecutor hworld =>
      exact host.Step.serve_stops (.serve hserved hexecutor hworld) hcall
  | stop_server | stop_executor | stop_cleans | stop_transport => exact halone call hcall
  | create_throws | publish_interrupted | transport_start_fails | transport_start_throws
  | commit_interrupted | call_stop => exact concat_of hcall
  | _ => exact hcall

/-- It goes there when it has left the executor, and leaves when the transport's `stop()`
returns. -/
theorem stdio_server.requester_ok.step (hi : d.requester_ok) (hstep : stdio_server.Step lib d a e) :
    e.requester_ok := by
  unfold stdio_server.requester_ok at hi ⊢
  cases hstep with
  | server hhost halone => exact fun call hcall => halone.keeps_transport hhost (hi call hcall)
  | send _ hhost => exact fun call hcall => hhost.serve_stops (hi call hcall)
  | start_fails | close | owner_stops | application_stops =>
      exact fun call hcall => concat_of (hi call hcall)
  | @stop_closing _ call hstops hrequester =>
      intro other hother
      have hne : call ≠ other := by
        rintro rfl
        exact hrequester hother
      exact (List.getElem?_set_ne hne).trans (hi other hother)
  | stop_closes hstops =>
      intro call hcall
      cases hcall
      exact hstops
  | stop_requests =>
      intro call hcall
      cases hcall
  | _ => exact hi

/-! ### The server seen by itself

With the three conditions each step of the whole is, seen from the server, one of its own or
none. They hold initially and are kept, so along a run the server's part is in a reachable state
of the server, and the invariants of hosts, of sessions and of the executor may be used of it. -/

/-- How the two parts of a state go together. -/
structure stdio_server.parts (info : raw_info) (options : server_options) (d : stdio_server) :
    Prop where
  server : (host_runs info options).Reachable d.server
  starts : d.starts_agree
  callback : d.in_callback
  requester : d.requester_ok

/-- The transport calls back a server that has started it and is not in `receive()`. -/
theorem stdio_server.parts.deliver (hp : d.parts info options) (ht : d.transport.view.threads)
    {value : json} {after : after_frame} (hreader : d.transport.reader = .calling value after) :
    0 < d.server.transport.starts ∧ d.server.world.reader = .idle := by
  constructor
  · refine Nat.pos_of_ne_zero fun hzero => ?_
    have habsent := (ht.fresh (hp.starts.mp hzero)).1
    rw [show d.transport.view.reader = d.transport.reader.stage from rfl, hreader] at habsent
    cases habsent
  · by_contra hbusy
    obtain ⟨after, hcalled⟩ := hp.callback hbusy
    rw [hreader] at hcalled
    cases hcalled

/-- Seen from the server a step is one of its own or none. -/
theorem stdio_server.parts.server_step (hp : d.parts info options)
    (ht : d.transport.view.threads) (hstep : stdio_server.Step lib d a e) :
    e.server = d.server ∨ ∃ b, host.Step d.server b e.server := by
  cases hstep with
  | server hhost => exact .inr ⟨_, hhost⟩
  | send _ hhost => exact .inr ⟨_, hhost⟩
  | start _ howner => exact .inr ⟨_, .transport_start howner⟩
  | started howner => exact .inr ⟨_, .transport_started howner⟩
  | start_fails err howner => exact .inr ⟨_, .transport_start_fails err howner⟩
  | deliver hreader =>
      obtain ⟨hstarted, hidle⟩ := hp.deliver ht hreader
      exact .inr ⟨_, .deliver _ hstarted hidle⟩
  | close | owner_stops | application_stops => exact .inr ⟨_, .call_stop _⟩
  | stop_closing hstops => exact .inr ⟨_, .stop_transport hstops⟩
  | stop_requests hrequester => exact .inr ⟨_, .stop_transport (hp.requester _ hrequester)⟩
  | cleaned howner hstops => exact .inr ⟨_, .cleaned howner hstops⟩
  | wait bounded howner => exact .inr ⟨_, .wait bounded howner⟩
  | waited howner => exact .inr ⟨_, .transport_waits howner⟩
  | wait_expires howner => exact .inr ⟨_, .transport_wait_expires howner⟩
  | _ => exact .inl rfl

/-- What was proved of the transport's runs holds of the transport's part, here about its done
flags. -/
theorem stdio_server_threads
    (hr : (stdio_server_runs lib info options o stream).Reachable d) :
    (stdio_runs lib o stream).Reachable d.transport :=
  stdio_server_transport.reachable hr

/-- The two parts go together in every reachable state: starts, callbacks and requests to stop
that the one side knows of are those of the other side. -/
theorem stdio_server_parts (hr : (stdio_server_runs lib info options o stream).Reachable d) :
    d.parts info options := by
  refine hr.invariant ?_ ?_
  · rintro s rfl
    exact ⟨.of_init rfl, ⟨fun _ => rfl, fun _ => rfl⟩, fun hbusy => absurd rfl hbusy, nofun⟩
  · intro s b u hs hp hstep
    have ht := (stdio_close_invariant (stdio_server_threads hs)).2.1
    refine ⟨?_, hp.starts.step hstep, hp.callback.step (host_custody hp.server) ht hstep,
      hp.requester.step hstep⟩
    rcases hp.server_step ht hstep with heq | ⟨c, hc⟩
    · rw [heq]
      exact hp.server
    · exact hp.server.step hc

end Parts

/-! ## Who is in which call

A call of `stop()` that is not over must be one that some thread is in; otherwise a server could
be joined and a call be left that goes on by itself. There are four kinds of callers: the
threads that call it as part of the library's own code, the owner, the close callback, and code
of the application on any of these threads. Nested calls form a chain, each younger than the one
around it, and the oldest is in the hands of a thread itself. -/

section Calls

variable {h t : host} {b : host_action}

/-- A thread of the server stays in the `stop()` it called until that returns. -/
theorem host.Step.keeps_threads (hc : SynapseMcp.custody h.world) (hstep : host.Step h b t) :
    (∀ call held, h.world.reader = .stopping call held →
      h.world.stops[call]? ≠ some .returned → t.world.reader = .stopping call held) ∧
    (∀ call, h.world.call = .stopping call → h.world.stops[call]? ≠ some .returned →
      t.world.call = .stopping call) := by
  cases hstep with
  | deliver wire hstarted hreader =>
      refine ⟨fun call held hstopping _ => ?_, fun call hcall _ => hcall⟩
      rw [hreader] at hstopping
      cases hstopping
  | serve hserved hexecutor hworld =>
      have hkeeps := served_calls hc hserved hworld
      exact ⟨hkeeps.reader, hkeeps.worker⟩
  | application env hworker hcall =>
      refine ⟨fun call held hstopping _ => hstopping, fun call hstopping _ => ?_⟩
      rw [hcall] at hstopping
      cases hstopping
  | _ => exact ⟨fun call held hstopping _ => hstopping, fun call hstopping _ => hstopping⟩

/-- A call of `stop()` that is not over. -/
def host.open_call (h : host) (call : Nat) : Prop :=
  ∃ at_, h.world.stops[call]? = some at_ ∧ at_ ≠ .returned

/-- A call that is not over has not returned. -/
theorem host.open_call.not_returned {call : Nat} (hopen : h.open_call call) :
    h.world.stops[call]? ≠ some .returned := by
  obtain ⟨at_, hat, hne⟩ := hopen
  intro hreturned
  rw [hat] at hreturned
  exact hne (Option.some.inj hreturned)

/-- When one call moves on, a call that is open after it was open before. -/
theorem open_of_set {stops : List stop_at} {call other : Nat} {before after at_ : stop_at}
    (hbefore : stops[call]? = some before) (hopen : before ≠ .returned) (hat : at_ ≠ .returned)
    (hother : (stops.set call after)[other]? = some at_) :
    ∃ at_', stops[other]? = some at_' ∧ at_' ≠ .returned := by
  rcases of_set hother with ⟨_, hold⟩ | ⟨heq, _⟩
  · exact ⟨at_, hold, hat⟩
  · exact ⟨before, heq ▸ hbefore, hopen⟩

/-- A call that is open was before, or is new, made by the thread that took the step. -/
theorem host.Step.open_calls (hc : SynapseMcp.custody h.world) (hstep : host.Step h b t)
    {call : Nat} (hopen : t.open_call call) :
    h.open_call call ∨ (call = h.world.stops.length ∧
      (b = .call_stop ∨ (∃ held, t.world.reader = .stopping call held) ∨
        t.world.call = .stopping call ∨ ∃ err, t.owner = .cleaning call err)) := by
  obtain ⟨at_, hat, hne⟩ := hopen
  cases hstep with
  | serve hserved hexecutor hworld =>
      rcases (served_calls hc hserved hworld).stops with heq | ⟨heq, hthread⟩
      · rw [heq] at hat
        exact .inl ⟨at_, hat, hne⟩
      · rw [heq] at hat
        rcases of_concat hat with hold | ⟨rfl, _⟩
        · exact .inl ⟨at_, hold, hne⟩
        · refine .inr ⟨rfl, ?_⟩
          rcases hthread with hreader | hcall
          · exact .inr (.inl hreader)
          · exact .inr (.inr (.inl hcall))
  | create_throws | publish_interrupted | transport_start_fails | transport_start_throws
  | commit_interrupted =>
      rcases of_concat hat with hold | ⟨rfl, _⟩
      · exact .inl ⟨at_, hold, hne⟩
      · exact .inr ⟨rfl, .inr (.inr (.inr ⟨_, rfl⟩))⟩
  | call_stop =>
      rcases of_concat hat with hold | ⟨rfl, _⟩
      · exact .inl ⟨at_, hold, hne⟩
      · exact .inr ⟨rfl, .inl rfl⟩
  | stop_server hcall | stop_executor hcall | stop_cleans hcall | stop_transport hcall =>
      exact .inl (open_of_set hcall (by simp) hne hat)
  | _ => exact .inl ⟨at_, hat, hne⟩

/-! ### Code of the application

Handlers, hooks and stop callbacks run on the library's threads, and the position of the thread
does not change while the code runs. A thread that is in a call of `stop()` from such code is
still there, and the call is younger than the one it is nested in. -/

/-- A step that leaves the two positions and the cleanups alone keeps every thread in its
code. -/
theorem host.in_application.of_same {who : stop_caller} (hin : h.in_application who)
    (hcall : t.world.call = h.world.call) (hreader : t.world.reader = h.world.reader)
    (hstops : ∀ (call : Nat) (rest : cleanup), h.world.stops[call]? = some (.cleaning rest) →
      t.world.stops[call]? = some (.cleaning rest)) : t.in_application who := by
  cases who with
  | worker => exact hcall.trans hin
  | reader =>
      obtain ⟨source, discarded, hat⟩ := hin
      exact ⟨source, discarded, hreader.trans hat⟩
  | stop call =>
      obtain ⟨source, discarded, hat⟩ := hin
      exact ⟨source, discarded, hstops _ _ hat⟩

/-- No call of `stop()` is forgotten: a step takes one of them further, puts a new one behind
them, or leaves the list as it is. -/
theorem host.Step.stops_length (hstep : host.Step h b t) :
    h.world.stops.length ≤ t.world.stops.length := by
  have hset : ∀ (call : Nat) (at_ : stop_at),
      h.world.stops.length ≤ (h.world.stops.set call at_).length := fun call at_ =>
    Nat.le_of_eq (List.length_set).symm
  have hconcat : h.world.stops.length ≤ (h.world.stops ++ [stop_at.entered]).length := by
    rw [List.length_append]
    exact Nat.le_add_right _ _
  cases hstep with
  | serve hserved _ hworld =>
      rcases served_stops hserved hworld with heq | heq
      · exact Nat.le_of_eq (congrArg List.length heq).symm
      · rw [heq]
        exact hconcat
  | stop_server | stop_executor | stop_cleans | stop_transport => exact hset _ _
  | create_throws | publish_interrupted | transport_start_fails | transport_start_throws
  | commit_interrupted | call_stop => exact hconcat
  | _ => exact Nat.le_refl _

/-- A section that passes a frame on is one of a thread that runs no such code. -/
theorem host.Step.sends_outside {c : server_action} {f : frame}
    (hstep : host.Step h (.serve c) t) (hframe : t.world.frames = h.world.frames ++ [f])
    {who : stop_caller} (hin : h.in_application who) : t.in_application who := by
  have hstops : ∀ (call : Nat) (rest : cleanup), h.world.stops[call]? = some (.cleaning rest) →
      t.world.stops[call]? = some (.cleaning rest) := fun call rest hat => hstep.serve_stops hat
  have hreader : (∀ source discarded,
      h.world.reader ≠ .cleaning (.requesting (some source) discarded)) →
      t.world.call = h.world.call → t.in_application who := by
    intro hno hcall
    cases who with
    | worker => exact hcall.trans hin
    | reader =>
        obtain ⟨source, discarded, hat⟩ := hin
        exact absurd hat (hno source discarded)
    | stop call =>
        obtain ⟨source, discarded, hat⟩ := hin
        exact ⟨source, discarded, hstops _ _ hat⟩
  have hworker : h.world.call ≠ .applying → t.world.reader = h.world.reader →
      t.in_application who := by
    intro hno hsame
    cases who with
    | worker => exact absurd hin hno
    | reader =>
        obtain ⟨source, discarded, hat⟩ := hin
        exact ⟨source, discarded, hsame.trans hat⟩
    | stop call =>
        obtain ⟨source, discarded, hat⟩ := hin
        exact ⟨source, discarded, hstops _ _ hat⟩
  -- most steps of a serving server pass no frame, and fall out by this
  have hsilent : t.world.frames ≠ h.world.frames := by
    rw [hframe]
    exact fun heq => by simpa using congrArg List.length heq
  cases hstep with
  | deliver => exact absurd rfl hsilent
  | serve hserved _ hworld =>
      cases hworld with
      | receive _ hat | reject_sent _ hat | reject_failed _ hat | reject_threw _ hat =>
          exact hreader (by rw [hat]; nofun) rfl
      | respond _ _ hat | respond_failed _ _ hat => exact hworker (by rw [hat]; nofun) rfl
      | enqueue | cancel | apply =>
          refine absurd ?_ hsilent
          rw [world.frames, world.frames, frames_of_append]
          exact List.append_nil _
      | deliver | application | call_stop | stop_server | stop_executor | stop_cleans
      | stop_transport | start_commits | wait_returns => cases hserved
      | _ => exact absurd rfl hsilent

end Calls

section Attached

variable {lib : json_library} {info : raw_info} {options : server_options} {o : stdio_options}
variable {stream : List UInt8} {d e : stdio_server} {a : stdio_server_action}
variable {h t : host} {b : host_action}

namespace stdio_server

/-! ### The chain of calls

A call is in the hands of a thread, of the owner, of the close callback, or of application code
on one of them. `nesting` keeps such code inside the call it was run from and the call it makes
deeper; `owned` says that there is no call beside these. -/

/-- Some thread is in the call. -/
def in_call (d : stdio_server) (call : Nat) : Prop :=
  (∃ held, d.server.world.reader = .stopping call held) ∨ d.server.world.call = .stopping call ∨
    d.close_stop = some call ∨ d.owner_stop = some call ∨
    (∃ err, d.server.owner = .cleaning call err) ∨ ∃ who, d.nested who = some call

/-- What holds of the calls of `stop()` that code of the application is in. -/
structure nesting (d : stdio_server) : Prop where
  inside : ∀ who call, d.nested who = some call → d.server.in_application who
  made : ∀ who call, d.nested who = some call → call < d.server.world.stops.length
  deeper : ∀ outer call, d.nested (.stop outer) = some call → outer < call

/-- Every call of `stop()` that is not over is one a thread is in. -/
def owned (d : stdio_server) : Prop := ∀ call, d.server.open_call call → d.in_call call

/-- The close callback is in its `stop()` while a worker of the transport is in the
callback. -/
def closing_call (d : stdio_server) : Prop :=
  ∀ call, d.close_stop = some call → ∃ reading, d.transport.tail reading = some .called

/-- The owner does nothing else while it is in `stop()`. -/
def owner_waits (d : stdio_server) : Prop := d.owner_stop ≠ none → d.server.owner = .idle

end stdio_server

/-- Past the transport's `wait`. -/
def owner_at.joins : owner_at → Bool
  | .joining _ | .finishing _ => true
  | _ => false

/-- Where the transport's `wait` has returned to the owner, both its workers are over. -/
def stdio_server.joined (d : stdio_server) : Prop :=
  (d.server.owner.joins = true ∨
    ((∃ call stopped, d.server.owner = .waiting call stopped) ∧
      ∃ running, d.transport.waits[d.transport_wait]? = some (.returned true running))) →
    d.transport.over

/-! ### Each is kept

For each condition a step of the whole is taken apart by its rules. A rule for the server alone
or the transport alone can touch a condition only through one thread, and which thread that is
was the subject of the sections above. The rules in which both move are looked at by themselves:
a message that comes in, the close callback, a wait that begins or ends, a `stop()` that reaches
the transport.

What has to be excluded is a call that is left without a caller. A thread leaves its call in one
step only, the one that finds the call returned; and a call that has returned is no open one. -/

/-- A step that the owner does not take leaves it where it is; one that it takes finds it
outside the transport and outside `stop()`. -/
theorem stdio_server.alone.owner (halone : d.alone t b) (hstep : host.Step d.server b t) :
    t.owner = d.server.owner ∨ (d.owner_stop = none ∧ d.server.owner.outside = true) := by
  by_cases hback : b.background = true
  · exact .inl (hstep.background hback).owner
  · right
    cases b with
    | start | start_returns | owner | wait_returns => exact halone
    | wait => exact absurd halone id
    | _ => exact absurd rfl hback

/-- The owner comes back to its code when its own call returns. -/
theorem stdio_server.owner_waits.step (hi : d.owner_waits) (hstep : stdio_server.Step lib d a e) :
    e.owner_waits := by
  unfold stdio_server.owner_waits at hi ⊢
  -- the owner's own steps are from where it waits for nobody
  have hbusy : ∀ at_ : owner_at, d.server.owner = at_ → at_ ≠ .idle → d.owner_stop = none := by
    intro at_ howner hne
    by_contra hstop
    exact hne (howner.symm.trans (hi hstop))
  cases hstep with
  | server hhost halone =>
      intro hstop
      rcases halone.owner hhost with heq | ⟨hnone, -⟩
      · exact heq.trans (hi hstop)
      · exact absurd hnone hstop
  | send _ hhost => exact fun hstop => (hhost.background rfl).owner.trans (hi hstop)
  | start _ howner => exact fun hstop => absurd (hbusy _ howner nofun) hstop
  | started howner => exact fun hstop => absurd (hbusy _ howner nofun) hstop
  | start_fails _ howner => exact fun hstop => absurd (hbusy _ howner nofun) hstop
  | cleaned howner => exact fun hstop => absurd (hbusy _ howner nofun) hstop
  | waited howner => exact fun hstop => absurd (hbusy _ howner nofun) hstop
  | wait_expires => exact fun _ => rfl
  | owner_stops howner => exact fun _ => howner
  | owner_stopped => exact fun hstop => absurd rfl hstop
  | wait _ _ hnone => exact fun hstop => absurd hnone hstop
  | _ => exact hi

/-- The close callback's call is made by a worker of the transport that stays in the callback.
-/
theorem stdio_server.closing_call.step (hi : d.closing_call) (ht : d.transport.view.threads)
    (hstep : stdio_server.Step lib d a e) : e.closing_call := by
  unfold stdio_server.closing_call at hi ⊢
  -- a step of the transport moves the worker in the callback only if it is its own
  have hkeeps : ∀ {c : stdio_action} {v : stdio_world}, stdio_world.Step lib d.transport c v →
      (∀ answers, c ≠ .start answers) →
      (∀ reading, d.transport.tail reading = some .called → c ≠ .tail reading) →
      ∀ call, d.close_stop = some call → ∃ reading, v.tail reading = some .called := by
    intro c v hc hstart hother call hcall
    obtain ⟨reading, hcalled⟩ := hi call hcall
    exact ⟨reading, hc.stays_tail hcalled hstart (hother reading hcalled)⟩
  cases hstep with
  | send _ _ _ hsend => exact hkeeps hsend nofun nofun
  -- before the first start there is no worker, so no callback either
  | start _ _ hstart =>
      intro call hcall
      obtain ⟨reading, hcalled⟩ := hi call hcall
      cases hstart with
      | start _ hfresh =>
          obtain ⟨hreader, hwriter⟩ := ht.fresh hfresh
          cases reading with
          | true =>
              have hat : d.transport.reader.stage = .absent := hreader
              rw [stdio_world.reader_of_tail hcalled] at hat
              cases hat
          | false =>
              have hat : d.transport.writer.stage = .absent := hwriter
              rw [stdio_world.writer_of_tail hcalled] at hat
              cases hat
      | start_again => exact ⟨reading, hcalled⟩
  | deliver _ hcall => exact hkeeps hcall nofun nofun
  | delivered _ hreturn => exact hkeeps hreturn nofun nofun
  | @transport c _ htransport halone =>
      refine hkeeps htransport ?_ ?_
      · rintro answers rfl
        exact halone
      · rintro reading hcalled rfl
        exact halone.1 hcalled
  | @close _ reading reason hclaimed hcall =>
      intro _ _
      refine ⟨reading, ?_⟩
      cases hcall with
      | tail_calls hat => cases reading <;> rfl
      | tail_begins hat | tail_requests hat | tail_claims hat | tail_returns hat
      | tail_publishes hat | tail_ends hat =>
          rw [hclaimed] at hat
          cases hat
  | closed =>
      intro call hcall
      cases hcall
  | stop_closing _ _ _ hstop => exact hkeeps hstop nofun nofun
  | stop_closes _ _ hstop => exact hkeeps hstop nofun nofun
  | stop_requests _ hrequest => exact hkeeps hrequest nofun nofun
  | _ => exact hi

/-- The close is claimed once: whoever is about to call its callback is the first. -/
theorem claimed_uncalled {v : close_view} (hc : v.claim) {reading side : Bool}
    {reason : close_reason} (hclaimed : v.worker reading = .tail (.claimed reason)) :
    v.worker side ≠ .tail .called := by
  intro hcalled
  have howes : 0 < close_view.total close_view.owes v := by
    cases reading with
    | true =>
        have hat : v.reader = .tail (.claimed reason) := hclaimed
        simp [close_view.total, hat, close_view.owes]
    | false =>
        have hat : v.writer = .tail (.claimed reason) := hclaimed
        simp [close_view.total, hat, close_view.owes]
  have hcalls : 0 < close_view.total close_view.calls v := by
    cases side with
    | true =>
        have hat : v.reader = .tail .called := hcalled
        simp [close_view.total, hat, close_view.calls]
    | false =>
        have hat : v.writer = .tail .called := hcalled
        simp [close_view.total, hat, close_view.calls]
  have hcloses := hc.closes
  have hreturns := hc.returns
  have hbool : v.shared.close_claimed_.toNat ≤ 1 := Bool.toNat_le _
  omega

/-- The server takes a step, and the calls of the others stay what they were. -/
theorem stdio_server.owned.of_host (hi : d.owned) (hc : custody d.server.world)
    (hhost : host.Step d.server b e.server)
    (hclose : ∀ call, d.server.open_call call → d.close_stop = some call →
      e.close_stop = some call)
    (hstop : ∀ call, d.server.open_call call → d.owner_stop = some call →
      e.owner_stop = some call)
    (hclean : ∀ call err, d.server.open_call call → d.server.owner = .cleaning call err →
      e.server.owner = .cleaning call err)
    (hnested : ∀ who call, d.server.open_call call → d.nested who = some call →
      e.nested who = some call)
    (hnew : b = .call_stop → e.in_call d.server.world.stops.length) : e.owned := by
  intro call hopen
  obtain ⟨hreader, hworker⟩ := hhost.keeps_threads hc
  rcases hhost.open_calls hc hopen with hold | ⟨rfl, hmade⟩
  · rcases hi call hold with ⟨held, hat⟩ | hat | hat | hat | ⟨err, hat⟩ | ⟨who, hat⟩
    · exact .inl ⟨held, hreader call held hat hold.not_returned⟩
    · exact .inr (.inl (hworker call hat hold.not_returned))
    · exact .inr (.inr (.inl (hclose call hold hat)))
    · exact .inr (.inr (.inr (.inl (hstop call hold hat))))
    · exact .inr (.inr (.inr (.inr (.inl ⟨err, hclean call err hold hat⟩))))
    · exact .inr (.inr (.inr (.inr (.inr ⟨who, hnested who call hold hat⟩))))
  · rcases hmade with hcall | hat | hat | hat
    · exact hnew hcall
    · exact .inl hat
    · exact .inr (.inl hat)
    · exact .inr (.inr (.inr (.inr (.inl hat))))

/-- A step of the transport takes no call of the server from its caller, as long as the owner,
the close callback and nested code stay in the open calls they were in. -/
theorem stdio_server.owned.of_same (hi : d.owned) (hserver : e.server = d.server)
    (hclose : ∀ call, d.server.open_call call → d.close_stop = some call →
      e.close_stop = some call)
    (hstop : ∀ call, d.server.open_call call → d.owner_stop = some call →
      e.owner_stop = some call)
    (hnested : ∀ who call, d.server.open_call call → d.nested who = some call →
      e.nested who = some call) : e.owned := by
  intro call hopen
  rw [hserver] at hopen
  unfold stdio_server.in_call
  rw [hserver]
  rcases hi call hopen with hat | hat | hat | hat | hat | ⟨who, hat⟩
  · exact .inl hat
  · exact .inr (.inl hat)
  · exact .inr (.inr (.inl (hclose call hopen hat)))
  · exact .inr (.inr (.inr (.inl (hstop call hopen hat))))
  · exact .inr (.inr (.inr (.inr (.inl hat))))
  · exact .inr (.inr (.inr (.inr (.inr ⟨who, hnested who call hopen hat⟩))))

/-- A call that begins is its caller's, and as long as it is open the caller stays in it. The
step that takes a caller out of its call is the return of that call. -/
theorem stdio_server.owned.step (hi : d.owned) (hp : d.parts info options)
    (ht : d.transport.view.threads) (hcl : d.transport.view.claim) (hcall : d.closing_call)
    (hstep : stdio_server.Step lib d a e) : e.owned := by
  have hc := host_custody hp.server
  have hclose : ∀ call, d.server.open_call call → d.close_stop = some call →
      d.close_stop = some call := fun _ _ h => h
  have hstop : ∀ call, d.server.open_call call → d.owner_stop = some call →
      d.owner_stop = some call := fun _ _ h => h
  have hnested : ∀ who call, d.server.open_call call → d.nested who = some call →
      d.nested who = some call := fun _ _ _ h => h
  -- at any other position the owner is in no cleanup
  have hclean : ∀ {at_ next : owner_at}, d.server.owner = at_ →
      (∀ call err, at_ ≠ .cleaning call err) →
      ∀ call err, d.server.open_call call → d.server.owner = .cleaning call err →
        next = .cleaning call err := by
    intro at_ next howner hne call err _ hat
    exact absurd (howner.symm.trans hat) (hne call err)
  cases hstep with
  | server hhost halone =>
      refine hi.of_host hc hhost hclose hstop ?_ ?_ ?_
      · intro call err _ hat
        rcases halone.owner hhost with heq | ⟨-, houtside⟩
        · exact heq.trans hat
        · rw [hat] at houtside
          cases houtside
      · exact hnested
      · rintro rfl
        exact absurd halone id
  | send _ hhost =>
      exact hi.of_host hc hhost hclose hstop
        (fun _ _ _ hat => (hhost.background rfl).owner.trans hat) hnested nofun
  | start _ howner =>
      exact hi.of_host hc (.transport_start howner) hclose hstop (hclean howner nofun) hnested nofun
  | started howner =>
      exact hi.of_host hc (.transport_started howner) hclose hstop (hclean howner nofun) hnested
        nofun
  | start_fails err howner =>
      exact hi.of_host hc (.transport_start_fails err howner) hclose hstop (hclean howner nofun)
        hnested nofun
  | deliver hreader =>
      obtain ⟨hstarted, hidle⟩ := hp.deliver ht hreader
      exact hi.of_host hc (.deliver _ hstarted hidle) hclose hstop (fun _ _ _ hat => hat)
        hnested nofun
  | close hclaimed =>
      refine hi.of_host hc (.call_stop _) ?_ hstop (fun _ _ _ hat => hat) hnested ?_
      · intro call _ hat
        obtain ⟨side, hcalled⟩ := hcall call hat
        exact absurd (stdio_world.view_worker hcalled)
          (claimed_uncalled hcl (stdio_world.view_worker hclaimed))
      · exact fun _ => .inr (.inr (.inl rfl))
  | owner_stops howner hnone =>
      refine hi.of_host hc (.call_stop _) hclose ?_ (fun _ _ _ hat => hat) hnested ?_
      · intro call _ hat
        rw [hnone] at hat
        cases hat
      · exact fun _ => .inr (.inr (.inr (.inl rfl)))
  | stop_closing hstops =>
      exact hi.of_host hc (.stop_transport hstops) hclose hstop (fun _ _ _ hat => hat) hnested nofun
  | stop_requests hrequester =>
      exact hi.of_host hc (.stop_transport (hp.requester _ hrequester)) hclose hstop
        (fun _ _ _ hat => hat) hnested nofun
  | cleaned howner hstops =>
      refine hi.of_host hc (.cleaned howner hstops) hclose hstop ?_ hnested nofun
      intro call err hopen hat
      rw [howner] at hat
      cases hat
      exact absurd hstops hopen.not_returned
  | wait bounded howner =>
      exact hi.of_host hc (.wait bounded howner) hclose hstop (hclean howner nofun) hnested nofun
  | waited howner =>
      exact hi.of_host hc (.transport_waits howner) hclose hstop (hclean howner nofun) hnested nofun
  | wait_expires howner =>
      exact hi.of_host hc (.transport_wait_expires howner) hclose hstop (hclean howner nofun)
        hnested nofun
  | closed hat _ hstops =>
      refine hi.of_same rfl ?_ hstop hnested
      intro call hopen hcall'
      rw [hat] at hcall'
      cases hcall'
      exact absurd hstops hopen.not_returned
  | owner_stopped hat hstops =>
      refine hi.of_same rfl hclose ?_ hnested
      intro call hopen hcall'
      rw [hat] at hcall'
      cases hcall'
      exact absurd hstops hopen.not_returned
  | application_stops who hruns hnone =>
      refine hi.of_host hc (.call_stop _) hclose hstop (fun _ _ _ hat => hat) ?_ ?_
      · intro who' call _ hat
        have hne : who' ≠ who := by
          rintro rfl
          rw [hnone] at hat
          cases hat
        exact (Function.update_of_ne hne _ _).trans hat
      · exact fun _ => .inr (.inr (.inr (.inr (.inr ⟨who, Function.update_self _ _ _⟩))))
  | @application_stopped who call hnested hstops =>
      refine hi.of_same rfl hclose hstop ?_
      intro who' call' hopen hat
      have hne : who' ≠ who := by
        rintro rfl
        rw [hnested] at hat
        cases hat
        exact hopen.not_returned hstops
      exact (Function.update_of_ne hne _ _).trans hat
  | delivered | transport | stop_closes => exact hi.of_same rfl hclose hstop hnested

/-- The calls once one more has begun, and once one has ended. -/
theorem nested_begun {nested : stop_caller → Option Nat} {who other : stop_caller} {new call : Nat}
    (h : Function.update nested who (some new) other = some call) :
    (other = who ∧ call = new) ∨ nested other = some call := by
  by_cases heq : other = who
  · subst heq
    rw [Function.update_self] at h
    exact .inl ⟨rfl, (Option.some.inj h).symm⟩
  · rw [Function.update_of_ne heq] at h
    exact .inr h

/-- The others stay in their calls when one of them returns. -/
theorem nested_ended {nested : stop_caller → Option Nat} {who other : stop_caller} {call : Nat}
    (h : Function.update nested who none other = some call) :
    other ≠ who ∧ nested other = some call := by
  by_cases heq : other = who
  · subst heq
    rw [Function.update_self] at h
    cases h
  · rw [Function.update_of_ne heq] at h
    exact ⟨heq, h⟩

/-- A step in which the calls nested in code of the application neither begin nor end. -/
theorem stdio_server.nesting.of_host (hi : d.nesting) (hhost : host.Step d.server b e.server)
    (hnested : e.nested = d.nested)
    (hinside : ∀ who call, d.nested who = some call → e.server.in_application who) :
    e.nesting where
  inside who call hcall := hinside who call (hnested ▸ hcall)
  made who call hcall := Nat.lt_of_lt_of_le (hi.made who call (hnested ▸ hcall)) hhost.stops_length
  deeper outer call hcall := hi.deeper outer call (hnested ▸ hcall)

/-- A call that begins is younger than any other, and one that ends leaves the others. -/
theorem stdio_server.nesting.step (hi : d.nesting) (hp : d.parts info options)
    (ht : d.transport.view.threads) (hstep : stdio_server.Step lib d a e) : e.nesting := by
  -- the two positions and the calls stay where they were
  have hsame : ∀ {t : host}, t.world.call = d.server.world.call →
      t.world.reader = d.server.world.reader →
      (∀ (call : Nat) (rest : cleanup), d.server.world.stops[call]? = some (.cleaning rest) →
        t.world.stops[call]? = some (.cleaning rest)) →
      ∀ who call, d.nested who = some call → t.in_application who :=
    fun hcall hreader hstops who call hat => (hi.inside who call hat).of_same hcall hreader hstops
  have hconcat : ∀ (call : Nat) (rest : cleanup),
      d.server.world.stops[call]? = some (.cleaning rest) →
      (d.server.world.stops ++ [.entered])[call]? = some (.cleaning rest) :=
    fun call rest hat => concat_of hat
  have hset : ∀ {call : Nat}, d.server.world.stops[call]? = some .transport →
      ∀ (other : Nat) (rest : cleanup), d.server.world.stops[other]? = some (.cleaning rest) →
        (d.server.world.stops.set call .returned)[other]? = some (.cleaning rest) := by
    intro call hcall other rest hat
    have hne : call ≠ other := by
      rintro rfl
      rw [hcall] at hat
      cases hat
    exact (List.getElem?_set_ne hne).trans hat
  cases hstep with
  | server hhost _ hinside => exact hi.of_host hhost rfl hinside
  | send _ hhost hframe =>
      exact hi.of_host hhost rfl fun who call hat =>
        hhost.sends_outside hframe (hi.inside who call hat)
  | start _ howner =>
      exact hi.of_host (.transport_start howner) rfl (hsame rfl rfl fun _ _ h => h)
  | started howner =>
      exact hi.of_host (.transport_started howner) rfl (hsame rfl rfl fun _ _ h => h)
  | start_fails err howner =>
      exact hi.of_host (.transport_start_fails err howner) rfl (hsame rfl rfl hconcat)
  | deliver hreader =>
      obtain ⟨hstarted, hidle⟩ := hp.deliver ht hreader
      refine hi.of_host (.deliver _ hstarted hidle) rfl fun who call hat => ?_
      have hin := hi.inside who call hat
      cases who with
      | worker => exact hin
      | reader =>
          obtain ⟨source, discarded, hcleaning⟩ := hin
          rw [hidle] at hcleaning
          cases hcleaning
      | stop outer => exact hin
  | close | owner_stops => exact hi.of_host (.call_stop _) rfl (hsame rfl rfl hconcat)
  | stop_closing hstops =>
      exact hi.of_host (.stop_transport hstops) rfl (hsame rfl rfl (hset hstops))
  | stop_requests hrequester =>
      have hstops := hp.requester _ hrequester
      exact hi.of_host (.stop_transport hstops) rfl (hsame rfl rfl (hset hstops))
  | cleaned howner hstops =>
      exact hi.of_host (.cleaned howner hstops) rfl (hsame rfl rfl fun _ _ h => h)
  | wait bounded howner =>
      exact hi.of_host (.wait bounded howner) rfl (hsame rfl rfl fun _ _ h => h)
  | waited howner =>
      exact hi.of_host (.transport_waits howner) rfl (hsame rfl rfl fun _ _ h => h)
  | wait_expires howner =>
      exact hi.of_host (.transport_wait_expires howner) rfl (hsame rfl rfl fun _ _ h => h)
  | application_stops who hruns hnone =>
      have hlength : (called_stop d.server).world.stops.length =
          d.server.world.stops.length + 1 := List.length_append
      refine ⟨fun who' call hat => ?_, fun who' call hat => ?_, fun outer call hat => ?_⟩
      · rcases nested_begun hat with ⟨rfl, -⟩ | hold
        · exact hruns.of_same rfl rfl hconcat
        · exact (hi.inside who' call hold).of_same rfl rfl hconcat
      · show call < (called_stop d.server).world.stops.length
        rw [hlength]
        rcases nested_begun hat with ⟨-, rfl⟩ | hold
        · exact Nat.lt_succ_self _
        · exact Nat.lt_succ_of_lt (hi.made who' call hold)
      · rcases nested_begun hat with ⟨rfl, rfl⟩ | hold
        · obtain ⟨source, discarded, houter⟩ := hruns
          exact (List.getElem?_eq_some_iff.mp houter).1
        · exact hi.deeper outer call hold
  | application_stopped =>
      exact ⟨fun who call hat => hi.inside who call (nested_ended hat).2,
        fun who call hat => hi.made who call (nested_ended hat).2,
        fun outer call hat => hi.deeper outer call (nested_ended hat).2⟩
  | _ => exact ⟨hi.inside, hi.made, hi.deeper⟩

/-- A wait of the transport that has returned did, or joins workers that are over. -/
theorem stdio_world.Step.wait_returned {w v : stdio_world} {c : stdio_action}
    (hstep : stdio_world.Step lib w c v) {call : Nat} {running : Bool}
    (hcall : v.waits[call]? = some (.returned true running)) :
    w.waits[call]? = some (.returned true running) ∨ w.over := by
  have hset : ∀ (other : Nat) (entry : wait_call), entry ≠ .returned true running →
      (w.waits.set other entry)[call]? = some (.returned true running) →
      w.waits[call]? = some (.returned true running) := by
    intro other entry hentry hat
    rcases of_set hat with ⟨_, hold⟩ | ⟨_, hnew⟩
    · exact hold
    · exact absurd hnew.symm hentry
  have happend : ∀ entry : wait_call, entry ≠ .returned true running →
      (w.waits ++ [entry])[call]? = some (.returned true running) →
      w.waits[call]? = some (.returned true running) := by
    intro entry hentry hat
    rcases of_concat hat with hold | ⟨_, hnew⟩
    · exact hold
    · exact absurd hnew.symm hentry
  cases hstep with
  | wait bounded => exact .inl (happend (.polling bounded) nofun hcall)
  | wait_inside => exact .inl (happend .refused nofun hcall)
  | poll_joined => exact .inl (hset _ (.joining _) nofun hcall)
  | poll_expires => exact .inl (hset _ (.returned false _) nofun hcall)
  | join _ hreader hwriter => exact .inr ⟨hreader, hwriter⟩
  | _ => exact .inl hcall

/-- Outside the transport the owner does not come to wait for it. -/
theorem host.Step.not_waiting (hstep : host.Step h b t) (hback : b.background = false)
    (hwait : b ≠ .wait) (houtside : h.owner.outside = true) :
    (∀ call stopped, t.owner ≠ .waiting call stopped) ∧
      (t.owner.joins = true → h.owner.joins = true) := by
  cases hstep with
  | wait => exact absurd rfl hwait
  | start_refused howner | start_invalid howner => simp [howner, host.set_state, owner_at.joins]
  | executor_waits howner => simp [howner, owner_at.joins]
  | cleaned howner | transport_waits howner =>
      rw [howner] at houtside
      cases houtside
  | register | deliver | serve | application | call_stop | stop_server | stop_executor
  | stop_cleans | stop_transport => cases hback
  | _ => exact ⟨nofun, nofun⟩

/-- The owner stays where it is while the transport takes a step. -/
theorem stdio_server.joined.of_transport (hi : d.joined) (howner : e.server.owner = d.server.owner)
    (hwait : e.transport_wait = d.transport_wait) {c : stdio_action}
    (hstep : stdio_world.Step lib d.transport c e.transport)
    (hstart : ∀ answers, c ≠ .start answers) :
    e.joined := by
  intro hpre
  have hover : d.transport.over := by
    rcases hpre with hjoins | ⟨hwaiting, running, hat⟩
    · exact hi (.inl (howner ▸ hjoins))
    · rw [howner] at hwaiting
      rw [hwait] at hat
      rcases hstep.wait_returned hat with hold | hover
      · exact hi (.inr ⟨hwaiting, running, hold⟩)
      · exact hover
  exact (hstep.stays_over hover hstart).1

/-- The transport's `wait` returns success only when both workers are over, and they stay over.
-/
theorem stdio_server.joined.step (hi : d.joined) (hstep : stdio_server.Step lib d a e) :
    e.joined := by
  -- a wait that begins has not returned
  have hbegins : ∀ (bounded running : Bool), ¬ (d.transport.waits ++ [.polling bounded])[
      d.transport.waits.length]? = some (.returned true running) := by
    intro bounded running hat
    rw [List.getElem?_append_right (Nat.le_refl _), Nat.sub_self] at hat
    cases hat
  cases hstep with
  | @server b _ hhost halone =>
      rcases halone.owner hhost with heq | ⟨-, houtside⟩
      · intro hpre
        refine hi ?_
        rcases hpre with hjoins | ⟨hwaiting, hreturned⟩
        · exact .inl (heq ▸ hjoins)
        · exact .inr ⟨heq ▸ hwaiting, hreturned⟩
      · by_cases hback : b.background = true
        · have heq := (hhost.background hback).owner
          intro hpre
          refine hi ?_
          rcases hpre with hjoins | ⟨hwaiting, hreturned⟩
          · exact .inl (heq ▸ hjoins)
          · exact .inr ⟨heq ▸ hwaiting, hreturned⟩
        · rw [Bool.not_eq_true] at hback
          have hwait : b ≠ .wait := by
            rintro rfl
            exact halone
          obtain ⟨hno, hjoin⟩ := hhost.not_waiting hback hwait houtside
          rintro (hjoins | ⟨⟨call, stopped, hwaiting⟩, -⟩)
          · exact hi (.inl (hjoin hjoins))
          · exact absurd hwaiting (hno call stopped)
  | send _ hhost _ hsend => exact hi.of_transport (hhost.background rfl).owner rfl hsend nofun
  | start => rintro (hjoins | ⟨⟨call, stopped, hwaiting⟩, -⟩) <;> contradiction
  | started => rintro (hjoins | ⟨⟨call, stopped, hwaiting⟩, -⟩) <;> contradiction
  | start_fails => rintro (hjoins | ⟨⟨call, stopped, hwaiting⟩, -⟩) <;> contradiction
  | wait_expires => rintro (hjoins | ⟨⟨call, stopped, hwaiting⟩, -⟩) <;> contradiction
  | deliver _ hcall => exact hi.of_transport rfl rfl hcall nofun
  | delivered _ hreturn => exact hi.of_transport rfl rfl hreturn nofun
  | transport htransport halone =>
      refine hi.of_transport rfl rfl htransport ?_
      rintro answers rfl
      exact halone
  | close _ hcall => exact hi.of_transport rfl rfl hcall nofun
  | closed _ _ _ hreturn => exact hi.of_transport rfl rfl hreturn nofun
  | stop_closing _ _ _ hstop => exact hi.of_transport rfl rfl hstop nofun
  | stop_closes _ _ hstop => exact hi.of_transport rfl rfl hstop nofun
  | stop_requests _ hrequest => exact hi.of_transport rfl rfl hrequest nofun
  | cleaned howner =>
      rintro (hjoins | ⟨-, running, hat⟩)
      · cases hjoins
      · exact absurd hat (hbegins _ _)
  | wait bounded howner =>
      rintro (hjoins | ⟨-, running, hat⟩)
      · cases hjoins
      · exact absurd hat (hbegins _ _)
  | waited howner hwaits => exact fun _ => hi (.inr ⟨⟨_, _, howner⟩, _, hwaits⟩)
  | owner_stops | owner_stopped | application_stops | application_stopped => exact hi

/-! ### All together

The five conditions, with what each of the parts keeps by itself, hold in every reachable state.
They are what an owner that has joined both parts relies on. -/

/-- How the threads hang together. -/
structure attached (d : stdio_server) : Prop where
  owned : d.owned
  nested : d.nesting
  closing : d.closing_call
  owner : d.owner_waits
  joined : d.joined

/-- In every reachable state the threads hang together in this way. -/
theorem stdio_server_attached (hr : (stdio_server_runs lib info options o stream).Reachable d) :
    attached d := by
  refine hr.invariant ?_ ?_
  · rintro s rfl
    refine ⟨?_, ⟨nofun, nofun, nofun⟩, nofun, fun hstop => absurd rfl hstop, ?_⟩
    · rintro call ⟨at_, hat, -⟩
      cases hat
    · exact fun _ => ⟨rfl, rfl⟩
  · intro s b u hs hi hstep
    obtain ⟨-, ht, hcl⟩ := stdio_close_invariant (stdio_server_threads hs)
    exact ⟨hi.owned.step (stdio_server_parts hs) ht hcl hi.closing hstep,
      hi.nested.step (stdio_server_parts hs) ht hstep, hi.closing.step ht hstep,
      hi.owner.step hstep, hi.joined.step hstep⟩

end Attached

/-! ## A server at rest

When the owner has joined the transport and the executor, the readers and the worker are over. A
call that is open would have one of them in it, or be nested in a call that has; so none is
open. What is left of the system is the owner, whose steps in a stopped server do nothing, and
calls of `stop()` that return from their section.

`quiet` is stated so that it can be kept: calls of `stop()` may still begin, by the owner or by
anybody who has the server, and what they find is a stopped server; calls of `wait()` may be
made and return. That nothing of the application runs and nothing is sent is not a part of it
but a consequence, read off the steps that a quiet server has. -/

/-- Not in `start()`, nor in its cleanup. -/
def owner_at.rests : owner_at → Bool
  | .idle | .waiting (.wait _) _ | .joining (.wait _) | .finishing (.wait _) => true
  | _ => false

/-- A stopped server in which no thread has anything left to do; calls of `stop()` that have
just begun find it stopped. -/
structure host.quiet (h : host) : Prop where
  state : h.state_ = .stopped
  owner : h.owner.rests = true
  reader : h.world.reader = .idle
  worker : h.world.run.worker = .gone
  stops : ∀ (call : Nat) (at_ : stop_at), h.world.stops[call]? = some at_ →
    at_ = .entered ∨ at_ = .returned

/-- What a step of a quiet server leaves alone. -/
structure host.undisturbed (h t : host) : Prop where
  quiet : t.quiet
  log : t.world.log = h.world.log

section Quiet

variable {h t : host} {b : host_action}

/-- A call that begins finds the server stopped, too. -/
theorem host.quiet.entered_of_append (hq : h.quiet) :
    ∀ (call : Nat) (at_ : stop_at), (h.world.stops ++ [.entered])[call]? = some at_ →
      at_ = .entered ∨ at_ = .returned := by
  intro call at_ hat
  rcases of_concat hat with hold | ⟨_, hnew⟩
  · exact hq.stops call at_ hold
  · exact .inl hnew

/-- No thread of a quiet server runs code of the application. -/
theorem host.quiet.outside_application (hq : h.quiet) (hc : SynapseMcp.custody h.world)
    (who : stop_caller) : ¬h.in_application who := by
  intro hin
  cases who with
  | worker =>
      have houtside : h.world.call = .outside :=
        hc.call.outside (by simp [hq.worker]) (by simp [hq.worker])
      have happlying : h.world.call = .applying := hin
      rw [houtside] at happlying
      cases happlying
  | reader =>
      obtain ⟨source, discarded, hat⟩ := hin
      rw [hq.reader] at hat
      cases hat
  | stop call =>
      obtain ⟨source, discarded, hat⟩ := hin
      rcases hq.stops call _ hat with hno | hno <;> cases hno

/-- Of a quiet server only the owner takes steps, and the calls of `stop()`, which return
at once. -/
theorem host.quiet.step (hq : h.quiet) (hc : SynapseMcp.custody h.world) (hstep : host.Step h b t)
    (hdeliver : ∀ wire, b ≠ .serve (.deliver wire)) :
    h.undisturbed t ∧ (∀ c, b ≠ .serve c) ∧ ∀ env, b ≠ .application env := by
  have howner := hq.owner
  -- a call of `stop()` that is not over is before its section; nothing else can be found there
  have hrefused : ∀ (call : Nat) (at_ : stop_at), h.world.stops[call]? = some at_ →
      at_ ≠ .entered → at_ ≠ .returned → False := by
    intro call at_ hat hentered hreturned
    rcases hq.stops call at_ hat with rfl | rfl
    · exact hentered rfl
    · exact hreturned rfl
  have hstate : h.world.server.state_ = .stopped := hq.state
  have hstopped : h.world.server.stop = (h.world.server, false) := by
    unfold server.stop
    rw [if_pos hstate]
  cases hstep with
  | register r =>
      refine ⟨?_, nofun, nofun⟩
      rw [registration_refused (by rw [hstate]; decide)]
      exact ⟨⟨hq.state, hq.owner, hq.reader, hq.worker, hq.stops⟩, rfl⟩
  | start_refused => exact ⟨⟨hq, rfl⟩, nofun, nofun⟩
  | start_invalid _ hstate | start_enters _ hstate =>
      rw [hq.state] at hstate
      cases hstate
  -- the owner is in no `start()` any more
  | create_throws hat | create hat | publish hat | publish_interrupted hat | transport_start hat
  | transport_started hat | transport_start_fails _ hat | transport_start_throws hat | commit hat
  | commit_interrupted hat | cleaned hat | cleanup_wait_fails hat | cleanup_ends hat =>
      rw [hat] at howner
      cases howner
  | wait bounded hat =>
      exact ⟨⟨⟨hq.state, rfl, hq.reader, hq.worker, hq.stops⟩, rfl⟩, nofun, nofun⟩
  | @transport_waits call stopped hat =>
      refine ⟨⟨⟨hq.state, ?_, hq.reader, hq.worker, hq.stops⟩, rfl⟩, nofun, nofun⟩
      rw [hat] at howner
      cases call with
      | start err => cases howner
      | wait bounded =>
          dsimp only
          split <;> rfl
  | @executor_waits call hat hfinished =>
      refine ⟨⟨⟨hq.state, ?_, hq.reader, hq.worker, hq.stops⟩, rfl⟩, nofun, nofun⟩
      rw [hat] at howner
      cases call with
      | start err => cases howner
      | wait bounded => rfl
  | transport_wait_fails | transport_wait_expires | executor_wait_expires =>
      exact ⟨⟨⟨hq.state, rfl, hq.reader, hq.worker, hq.stops⟩, rfl⟩, nofun, nofun⟩
  | wait_returns =>
      exact ⟨⟨⟨rfl, rfl, hq.reader, hq.worker, hq.stops⟩, rfl⟩, nofun, nofun⟩
  | deliver wire => exact absurd rfl (hdeliver wire)
  | serve hserved _ hworld =>
      rw [hworld.rests hc hq.reader hq.worker] at hserved
      cases hserved
  | application env hworker =>
      rw [hq.worker] at hworker
      cases hworker
  | call_stop =>
      exact ⟨⟨⟨hq.state, hq.owner, hq.reader, hq.worker, hq.entered_of_append⟩, rfl⟩,
        nofun, nofun⟩
  -- the section of a `stop()` finds the server stopped and returns
  | @stop_server call hcall =>
      rw [hstopped]
      refine ⟨⟨⟨hq.state, hq.owner, hq.reader, hq.worker, ?_⟩, rfl⟩, nofun, nofun⟩
      intro other at_ hat
      rcases of_set hat with ⟨_, hold⟩ | ⟨_, hnew⟩
      · exact hq.stops other at_ hold
      · exact .inr hnew
  | stop_executor hcall => exact absurd (hrefused _ _ hcall nofun nofun) id
  | stop_cleans hcall => exact absurd (hrefused _ _ hcall nofun nofun) id
  | stop_transport hcall => exact absurd (hrefused _ _ hcall nofun nofun) id

end Quiet

section Quiescence

variable {lib : json_library} {info : raw_info} {options : server_options} {o : stdio_options}
variable {stream : List UInt8} {d e f g : stdio_server} {a : stdio_server_action}

/-- A quiet server over a transport whose workers are over. -/
structure stdio_server.quiet (d : stdio_server) : Prop where
  server : d.server.quiet
  transport : d.transport.over

/-- No handler, hook or message callback is called and nothing is sent in it: it is no step of
the server's reader or worker. The owner may still call what it likes, and a `stop()` or a
`wait()` it is in may go on, in the server or in the transport. -/
def stdio_server_action.idle : stdio_server_action → Prop
  | .server (.serve _) | .server (.application _) => False
  | _ => True

/-- A quiet server stays quiet, its tables stay as they are, and the step is not one of a
handler, a callback or a frame. -/
theorem stdio_server.quiet.step (hq : d.quiet)
    (hr : (stdio_server_runs lib info options o stream).Reachable d)
    (hstep : stdio_server.Step lib d a e) :
    e.quiet ∧ d.server.undisturbed e.server ∧ a.idle := by
  have hp := stdio_server_parts hr
  have hc := host_custody hp.server
  have howner := hq.server.owner
  have hserver : ∀ {b : host_action} {h : host}, host.Step d.server b h →
      (∀ wire, b ≠ .serve (.deliver wire)) → d.server.undisturbed h ∧ (∀ c, b ≠ .serve c) ∧
        ∀ env, b ≠ .application env := fun hhost hdeliver => hq.server.step hc hhost hdeliver
  have hsame : d.server.undisturbed d.server := ⟨hq.server, rfl⟩
  have htransport : ∀ {c : stdio_action} {v : stdio_world},
      stdio_world.Step lib d.transport c v → (∀ answers, c ≠ .start answers) → v.over :=
    fun hstep hstart => (hstep.stays_over hq.transport hstart).1
  cases hstep with
  | @server b _ hhost halone =>
      obtain ⟨hnext, hserve, hrun⟩ := hserver hhost halone.not_deliver
      refine ⟨⟨hnext.quiet, hq.transport⟩, hnext, ?_⟩
      cases b with
      | serve c => exact absurd rfl (hserve c)
      | application env => exact absurd rfl (hrun env)
      | _ => trivial
  -- nobody is left who could pass a frame on
  | @send c _ _ _ m hhost hframe hsend _ =>
      exfalso
      cases hhost with
      | deliver => simp [world.frames] at hframe
      | serve hserved _ hworld =>
          rw [hworld.rests hc hq.server.reader hq.server.worker] at hserved
          cases hserved
  | start _ hat | started hat | start_fails _ hat | cleaned hat =>
      rw [hat] at howner
      cases howner
  -- the transport's reader is over, so no message comes in
  | deliver hreader =>
      have hover := hq.transport.1
      rw [hreader] at hover
      cases hover
  | delivered _ hreturn => exact ⟨⟨hq.server, htransport hreturn (by simp)⟩, hsame, trivial⟩
  | transport hstep halone =>
      refine ⟨⟨hq.server, htransport hstep ?_⟩, hsame, trivial⟩
      rintro answers rfl
      exact halone
  | close _ hcall =>
      obtain ⟨hnext, -⟩ := hserver (.call_stop _) (by simp)
      exact ⟨⟨hnext.quiet, htransport hcall (by simp)⟩, hnext, trivial⟩
  | closed _ _ _ hreturn => exact ⟨⟨hq.server, htransport hreturn (by simp)⟩, hsame, trivial⟩
  | owner_stops =>
      obtain ⟨hnext, -⟩ := hserver (.call_stop _) (by simp)
      exact ⟨⟨hnext.quiet, hq.transport⟩, hnext, trivial⟩
  | owner_stopped => exact ⟨⟨hq.server, hq.transport⟩, hsame, trivial⟩
  | application_stops who hruns => exact absurd hruns (hq.server.outside_application hc who)
  | application_stopped => exact ⟨⟨hq.server, hq.transport⟩, hsame, trivial⟩
  | stop_closing hstops _ _ hstop =>
      obtain ⟨hnext, -⟩ := hserver (.stop_transport hstops) (by simp)
      exact ⟨⟨hnext.quiet, htransport hstop (by simp)⟩, hnext, trivial⟩
  | stop_closes _ _ hstop => exact ⟨⟨hq.server, htransport hstop (by simp)⟩, hsame, trivial⟩
  | stop_requests hrequester hrequest =>
      obtain ⟨hnext, -⟩ := hserver (.stop_transport (hp.requester _ hrequester)) (by simp)
      exact ⟨⟨hnext.quiet, htransport hrequest (by simp)⟩, hnext, trivial⟩
  | wait bounded hidle =>
      obtain ⟨hnext, -⟩ := hserver (.wait bounded hidle) (by simp)
      exact ⟨⟨hnext.quiet, hq.transport⟩, hnext, trivial⟩
  | waited hwaiting =>
      obtain ⟨hnext, -⟩ := hserver (.transport_waits hwaiting) (by simp)
      exact ⟨⟨hnext.quiet, hq.transport⟩, hnext, trivial⟩
  | wait_expires hwaiting =>
      obtain ⟨hnext, -⟩ := hserver (.transport_wait_expires hwaiting) (by simp)
      exact ⟨⟨hnext.quiet, hq.transport⟩, hnext, trivial⟩

/-- With both readers, the worker and the owner elsewhere, no call of `stop()` is open. A call
that code of the application is in is nested in an older one. -/
theorem attached.no_open_call (hat : attached d) (hover : d.transport.over)
    (hidle : d.server.world.reader = .idle) (houtside : d.server.world.call = .outside)
    (howner : d.server.owner ≠ .idle)
    (hclean : ∀ call err, d.server.owner ≠ .cleaning call err) :
    ∀ call, ¬d.server.open_call call := by
  intro call
  -- by strong induction on the call: whoever is in it would be in an older one
  induction call using Nat.strongRecOn with
  | ind call ih =>
      intro hopen
      rcases hat.owned call hopen with ⟨held, hin⟩ | hin | hin | hin | ⟨err, hin⟩ | ⟨who, hin⟩
      · rw [hidle] at hin
        cases hin
      · rw [houtside] at hin
        cases hin
      · obtain ⟨reading, hcalled⟩ := hat.closing call hin
        cases reading with
        | true =>
            have hreader := hover.1
            rw [stdio_world.reader_of_tail hcalled] at hreader
            cases hreader
        | false =>
            have hwriter := hover.2
            rw [stdio_world.writer_of_tail hcalled] at hwriter
            cases hwriter
      · exact howner (hat.owner (by rw [hin]; nofun))
      · exact hclean call err hin
      · have hinside := hat.nested.inside who call hin
        cases who with
        | worker =>
            have happlying : d.server.world.call = .applying := hinside
            rw [houtside] at happlying
            cases happlying
        | reader =>
            obtain ⟨source, discarded, hcleaning⟩ := hinside
            rw [hidle] at hcleaning
            cases hcleaning
        | stop outer =>
            obtain ⟨source, discarded, hcleaning⟩ := hinside
            exact ih outer (hat.nested.deeper outer call hin) ⟨_, hcleaning, nofun⟩

/-- When `wait()` returns success the server is quiet: the threads of the transport and
the executor are over, so no call of `stop()` has anybody in it. -/
theorem stdio_server_joined (hr : (stdio_server_runs lib info options o stream).Reachable d)
    (hstep : stdio_server.Step lib d (.server (.wait_returns (.ok true))) e) :
    e.quiet := by
  have hp := stdio_server_parts hr
  have hi := host_lifecycle hp.server
  have hat := stdio_server_attached hr
  have hc := host_custody hp.server
  cases hstep with
  | server hhost halone =>
      cases hhost with
      | @wait_returns bounded howner =>
          have ho := hi.owner
          unfold host.owner_ok at ho
          rw [howner] at ho
          have hover : d.transport.over := hat.joined (.inl (by rw [howner]; rfl))
          have hidle : d.server.world.reader = .idle := by
            by_contra hbusy
            obtain ⟨after, hcalled⟩ := hp.callback hbusy
            have hreader := hover.1
            rw [hcalled] at hreader
            cases hreader
          obtain ⟨limit, hrun⟩ := hi.run
          have hgone := hrun.finished_gone.mp ho.2
          have houtside : d.server.world.call = .outside :=
            hc.call.outside (by simp [hgone]) (by simp [hgone])
          refine ⟨⟨rfl, rfl, hidle, hgone, ?_⟩, hover⟩
          intro call at_ hcall
          refine .inr ?_
          by_contra hopen
          exact hat.no_open_call hover hidle houtside (by rw [howner]; nofun)
            (fun other err hin => by rw [howner] at hin; cases hin) call ⟨at_, hcall, hopen⟩

/-- What the three threads, the close and the tables of the server come to. -/
structure stdio_server.at_rest (d : stdio_server) : Prop where
  reader : d.transport.reader.over = true
  writer : d.transport.writer.over = true
  worker : d.server.world.run.worker = .gone
  /-- The close callback has returned as often as it was called, and once if the transport
  started. -/
  closed : d.transport.returns = d.transport.closes.length ∧
    (d.transport.starting = .started → d.transport.returns = 1)
  pending : d.server.world.run.executor.pending_ = []
  active : d.server.world.run.executor.active_ = none
  inflight : d.server.world.server.inflight_ = []

/-- Workers that are over have called the close callback, and are back from it, if they were
started. -/
theorem over_closed {w : stdio_world} (hr : (stdio_runs lib o stream).Reachable w)
    (hover : w.over) :
    w.returns = w.closes.length ∧ (w.starting = .started → w.returns = 1) := by
  obtain ⟨hl, ht, hc⟩ := stdio_close_invariant hr
  have hreader : w.view.reader.over = true := w.reader.stage_over.trans hover.1
  have hwriter : w.view.writer.over = true := w.writer.stage_over.trans hover.2
  have hcalls : ∀ s : stage, s.over = true → close_view.calls s = 0 := by
    intro s hs
    cases s with
    | tail at_ => cases at_ <;> first | rfl | cases hs
    | _ => rfl
  constructor
  · have hreturns := hc.returns
    rw [close_view.total, hcalls _ hreader, hcalls _ hwriter] at hreturns
    exact hreturns
  · intro hstarting
    have hsettled := ht.settled (hl.started.mp hstarting) (ht.reader_done.trans hreader)
      (ht.writer_done.trans hwriter)
    exact (hsettled.closed hc).2

/-- A quiet server holds no capture of any operation: none waits in the queue, the worker has
none in hand, and none is kept by a reader or by a call of `stop()`. -/
theorem stdio_server.quiet.at_rest (hq : d.quiet)
    (hr : (stdio_server_runs lib info options o stream).Reachable d) : d.at_rest := by
  have hp := stdio_server_parts hr
  have hc := host_custody hp.server
  obtain ⟨limit, hrun⟩ := (host_lifecycle hp.server).run
  have hgone := hq.server.worker
  have hpending := hrun.drained (hrun.leaving_stopped (.inr hgone))
  have houtside : d.server.world.call = .outside :=
    hc.call.outside (by simp [hgone]) (by simp [hgone])
  refine ⟨hq.transport.1, hq.transport.2, hgone,
    over_closed (stdio_server_threads hr) hq.transport, hpending, ?_, ?_⟩
  · rw [hrun.active_worker, hgone]
    rfl
  · refine List.eq_nil_iff_forall_not_mem.mpr fun op hop => ?_
    have hstops : ∀ call ∈ d.server.world.stops, call = .entered ∨ call = .returned := by
      intro at_ hat
      obtain ⟨call, hcall⟩ := List.mem_iff_getElem?.mp hat
      exact hq.server.stops call at_ hcall
    rcases in_flight_places hc hq.server.reader hstops hop with hmem | hmem
    · rw [hpending] at hmem
      cases hmem
    · rw [houtside, hgone] at hmem
      cases hmem

/-- Quiescence after join: when `wait()` returns success, or `wait_for()` true, the threads
have finished and the tables are empty; and so it stays, whatever the owner still does,
without another handler, hook, message callback or frame. -/
theorem stdio_server_quiescence (hr : (stdio_server_runs lib info options o stream).Reachable d)
    (hstep : stdio_server.Step lib d (.server (.wait_returns (.ok true))) e)
    (hrun : (stdio_server_runs lib info options o stream).Run e f) :
    f.at_rest ∧ f.server.world.log = e.server.world.log ∧
      ∀ a g, stdio_server.Step lib f a g → a.idle := by
  have he := hr.step hstep
  have hquiet := stdio_server_joined hr hstep
  obtain ⟨hq, hlog⟩ := System.Run.keeps (S := stdio_server_runs lib info options o stream)
    (P := fun u => u.quiet ∧ u.server.world.log = e.server.world.log)
    (fun u b v hu hi hnext => by
      obtain ⟨hq, hsame, -⟩ := hi.1.step hu hnext
      exact ⟨hq, hsame.log.trans hi.2⟩)
    he ⟨hquiet, rfl⟩ hrun
  have hf := he.run hrun
  refine ⟨hq.at_rest hf, hlog, ?_⟩
  intro a g hnext
  exact (hq.step hf hnext).2.2

end Quiescence

/-! ## A session that ends

The peer sends nothing and closes its end. The owner has started the server; the transport's
reader comes to the end of its input and calls the close callback.

Every thread was started in it, and is over in the end. -/

namespace stdio_server_session

/-- The runs of the session. -/
def runs : System stdio_server stdio_server_action :=
  stdio_server_runs stdio_session.lib start_session.info {} {} []

def fresh : stdio_server := .constructed start_session.info {} {} []

/-- `start()` has returned. -/
def running : stdio_server :=
  { fresh with
    server := { fresh.server with
      world := { fresh.server.world with
        server := { fresh.server.world.server with state_ := .running }
        run := .make 16 }
      executor_ := .published
      transport := ⟨1, false, false⟩ }
    transport := { fresh.transport with
      shared := ((stdio_transport.make {}).start .starts).1
      starting := .started
      reader := .waiting
      writer := .waiting } }

/-- The owner registers nothing and starts the server, whose transport starts both workers. -/
theorem reaches_running : runs.Reachable running := by
  have h0 : runs.Reachable fresh := .of_init rfl
  have h1 := h0.step
    (stdio_server.Step.server (host.Step.start_enters rfl rfl (by decide)) ⟨rfl, rfl⟩ nofun)
  have h2 := h1.step (stdio_server.Step.server (host.Step.create rfl) ⟨rfl, rfl⟩ nofun)
  have h3 := h2.step (stdio_server.Step.server (host.Step.publish rfl rfl) ⟨rfl, rfl⟩ nofun)
  have h4 := h3.step (stdio_server.Step.start .starts rfl (stdio_world.Step.start .starts rfl))
  have h5 := h4.step (stdio_server.Step.started rfl rfl)
  exact h5.step (stdio_server.Step.server (host.Step.commit rfl rfl) ⟨rfl, rfl⟩ nofun)

/-- The reader has read the end and calls the close callback. -/
def closing : stdio_server :=
  { running with
    server := { running.server with
      world := { running.server.world with stops := [.entered] } }
    transport := { running.transport with
      shared := (running.transport.shared.begin_close .eof).1.claim_close.1
      reader := .tail .called
      reader_stop_ := true
      acts := [.close .eof]
      begun := [.eof]
      closes := [.eof] }
    close_stop := some 0 }

/-- The reader reads the end, begins the close and claims its callback. -/
theorem reaches_closing : runs.Reachable closing := by
  have h1 := reaches_running.step
    (stdio_server.Step.transport (stdio_world.Step.wake_reader rfl rfl rfl) trivial)
  have h2 := h1.step (stdio_server.Step.transport (stdio_world.Step.head_reads rfl rfl) nofun)
  have h3 := h2.step (stdio_server.Step.transport (stdio_world.Step.eof rfl rfl) trivial)
  have h4 := h3.step (stdio_server.Step.transport
    (@stdio_world.Step.tail_begins _ _ true .eof rfl) ⟨nofun, nofun⟩)
  have h5 := h4.step (stdio_server.Step.transport
    (@stdio_world.Step.tail_requests _ _ true rfl) ⟨nofun, nofun⟩)
  have h6 := h5.step (stdio_server.Step.transport
    (@stdio_world.Step.tail_claims _ _ true rfl) ⟨nofun, nofun⟩)
  exact h6.step (@stdio_server.Step.close _ _ _ true .eof rfl
    (@stdio_world.Step.tail_calls _ _ true .eof rfl))

/-! ## A handler that stops its server

The client greets, says that it is ready and calls the one tool, while the owner is in `wait()`.
The tool's handler calls `stop()` on the worker.

It is the run for which the calls from application code are in the model: the worker is inside
the handler and inside `stop()` at once. The call goes through the server's section, the
executor and the transport like any other and returns to the handler. The handler returns to the
worker, which finds the executor stopped and ends. Meanwhile the transport's reader sees the
request and leaves its loop, the close callback calls `stop()` a second time, and the owner's
wait comes to its end. -/

def echo_registration : registration :=
  .tool ⟨bytes_of "echo", [], json.object_of [("type", .string "object")]⟩ true (.ok ())

/-- The library on the three texts of a client that calls the tool. -/
def calls : json_library where
  parse line :=
    if line = [0x30] then .value session.hello
    else if line = [0x31] then .value session.ready_note
    else if line = [0x32] then .value session.call_echo
    else .parse_error
  dump _ := [.character 0x30]

def lines : List UInt8 := [0x30, newline, 0x31, newline, 0x32, newline]

/-- The runs of a server with one tool, on these lines. -/
def called_runs : System stdio_server stdio_server_action :=
  stdio_server_runs calls start_session.info {} {} lines

/-- The tool is registered, `start()` has returned, and the owner waits. -/
def waiting : stdio_server :=
  { (stdio_server.constructed start_session.info {} {} lines) with
    server := { fresh.server with
      world := { fresh.server.world with
        server := { (fresh.server.world.server.register echo_registration).1 with
          state_ := .running }
        run := .make 16 }
      executor_ := .published
      owner := .waiting (.wait false) false
      transport := ⟨1, false, false⟩
      registered := [echo_registration] }
    transport := { running.transport with
      unread := lines
      waits := [.polling false] } }

/-- The tool is registered, the server started, and `wait()` called. -/
theorem reaches_waiting : called_runs.Reachable waiting := by
  have h0 : called_runs.Reachable (.constructed start_session.info {} {} lines) := .of_init rfl
  have h1 := h0.step
    (stdio_server.Step.server (host.Step.register _ echo_registration) trivial nofun)
  have h2 := h1.step
    (stdio_server.Step.server (host.Step.start_enters rfl rfl (by decide)) ⟨rfl, rfl⟩ nofun)
  have h3 := h2.step (stdio_server.Step.server (host.Step.create rfl) ⟨rfl, rfl⟩ nofun)
  have h4 := h3.step (stdio_server.Step.server (host.Step.publish rfl rfl) ⟨rfl, rfl⟩ nofun)
  have h5 := h4.step (stdio_server.Step.start .starts rfl (stdio_world.Step.start .starts rfl))
  have h6 := h5.step (stdio_server.Step.started rfl rfl)
  have h7 := h6.step (stdio_server.Step.server (host.Step.commit rfl rfl) ⟨rfl, rfl⟩ nofun)
  exact h7.step (stdio_server.Step.wait false rfl rfl)

/-- One line, from its first byte to the message callback. -/
theorem reaches_line {d : stdio_server} (value : json) (h : called_runs.Reachable d)
    {byte : UInt8} {rest : List UInt8}
    (hreader : d.transport.reader = .scanning [] (byte :: newline :: rest))
    (hstop : d.transport.reader_stop_ = false) (hbyte : byte ≠ newline)
    (hroom : d.transport.shared.options_.max_frame_bytes ≠ 0)
    (hframe : stdio_transport.frame calls d.transport.shared.options_ [byte] = .call value) :
    called_runs.Reachable
      { d with
        server := { d.server with
          world := { d.server.world with reader := .receiving value } }
        transport := { d.transport with
          reader := .called (.scan rest)
          acts := d.transport.acts ++ [.message value] } } := by
  have h1 := h.step (stdio_server.Step.transport
    (stdio_world.Step.scan_byte hreader hstop hbyte hroom.symm)
    (by rw [stdio_world.alone, hreader]; nofun))
  have h2 := h1.step (stdio_server.Step.transport
    (@stdio_world.Step.scan_newline calls _ [byte] rest rfl hstop) nofun)
  have h3 := h2.step (stdio_server.Step.transport
    (@stdio_world.Step.frame calls _ [byte] (.scan rest) rfl) nofun)
  rw [hframe] at h3
  exact h3.step (@stdio_server.Step.deliver calls _ _ value (.scan rest) rfl
    (.call_message rfl))

def called_welcome : response where
  id := .uint64 0
  result := some waiting.server.world.server.initialize_result
  err := none

/-- The greeting is answered. -/
def answering : stdio_server :=
  { waiting with
    server := { waiting.server with
      world := { waiting.server.world with
        server := { waiting.server.world.server with protocol_ := .await_initialized }
        log := [.received session.hello .await_initialize_,
          .passed ⟨.received session.hello, called_welcome.to_json, true⟩] } }
    transport := { waiting.transport with
      shared := { waiting.transport.shared with
        queue_ := [[0x30, newline]]
        queued_bytes_ := 2 }
      reader := .scanning [] [0x31, newline, 0x32, newline]
      unread := []
      acts := [.message session.hello]
      admitted := [called_welcome.to_json] } }

/-- The greeting is read, and answered by the reader within its callback. The return of the
callback is the last step, with the two calls' lines still to be read. -/
theorem reaches_answering : called_runs.Reachable answering := by
  have h1 := reaches_waiting.step
    (stdio_server.Step.transport (stdio_world.Step.wake_reader rfl rfl rfl) trivial)
  have h2 := h1.step (stdio_server.Step.transport (stdio_world.Step.head_reads rfl rfl) nofun)
  have h3 := h2.step (stdio_server.Step.transport
    (stdio_world.Step.read 6 rfl (by decide) (by decide) (by decide)) trivial)
  have h4 := reaches_line session.hello h3 rfl rfl (by decide) (by decide) rfl
  have h5 : called_runs.Reachable
      { answering with
        transport := { answering.transport with
          reader := .called (.scan [0x31, newline, 0x32, newline]) } } :=
    h4.step (@stdio_server.Step.send calls _ _ _ _
      ⟨.received session.hello, called_welcome.to_json, true⟩
      ⟨calls.dump called_welcome.to_json, none⟩
      (host.Step.serve rfl (by decide)
        (@world.Step.receive _ session.hello session.calm rfl))
      rfl (.send called_welcome.to_json _ (fun _ => rfl) rfl) ⟨fun _ => nofun, fun _ => rfl⟩)
  exact h5.step (stdio_server.Step.delivered rfl
    (@stdio_world.Step.message_returned calls _ (.scan [0x31, newline, 0x32, newline]) rfl))

/-- The call of the tool is with the worker, and the handler runs. -/
def handling : stdio_server :=
  { answering with
    server := { answering.server with
      world := { answering.server.world with
        server := { waiting.server.world.server with
          protocol_ := .ready
          operations := [⟨.uint64 1, false⟩]
          inflight_ := [0] }
        run :=
          (((runtime.make 16).enqueue (.uint64 1) (some ⟨echo_call, 0⟩)).1.dequeue
            session.echo_work ⟨16, [], some session.echo_work, false, false⟩).invoke
              session.echo_work
        call := .applying
        log := answering.server.world.log ++
          [.received session.ready_note .await_initialized,
            .received session.call_echo .ready, .admitted 0, .answered 0 none 0, .applied 0] } }
    transport := { answering.transport with
      reader := .scanning [] []
      acts := [.message session.hello, .message session.ready_note,
        .message session.call_echo] } }

/-- The two other lines are read: the session is ready, and the call is admitted and with the
worker. -/
theorem reaches_handling : called_runs.Reachable handling := by
  have h1 := reaches_line session.ready_note reaches_answering rfl rfl (by decide) (by decide) rfl
  have h2 := h1.step (stdio_server.Step.server (host.Step.serve rfl (by decide)
    (@world.Step.receive _ session.ready_note session.calm rfl)) ⟨nofun, rfl⟩ nofun)
  have h3 := h2.step (stdio_server.Step.delivered rfl
    (@stdio_world.Step.message_returned calls _ (.scan [0x32, newline]) rfl))
  have h4 := reaches_line session.call_echo h3 rfl rfl (by decide) (by decide) rfl
  have h5 := h4.step (stdio_server.Step.server (host.Step.serve rfl (by decide)
    (@world.Step.receive _ session.call_echo session.calm rfl)) ⟨nofun, rfl⟩ nofun)
  have h6 := h5.step (stdio_server.Step.server (host.Step.serve rfl (by decide)
    (@world.Step.enqueue _ echo_call 0 rfl)) ⟨nofun, rfl⟩ nofun)
  have h7 := h6.step (stdio_server.Step.server (host.Step.serve rfl (by decide)
    (@world.Step.leave_shared _ 0 false rfl (by decide))) ⟨nofun, rfl⟩ nofun)
  have h8 := h7.step (stdio_server.Step.delivered rfl
    (@stdio_world.Step.message_returned calls _ (.scan []) rfl))
  have h9 := h8.step (stdio_server.Step.server (host.Step.serve rfl (by decide)
    (@world.Step.dequeue _ session.echo_work _ rfl rfl)) ⟨nofun, rfl⟩ nofun)
  have h10 := h9.step (stdio_server.Step.server (host.Step.serve rfl (by decide)
    (@world.Step.invoke _ session.echo_work rfl)) ⟨nofun, rfl⟩ nofun)
  exact h10.step (stdio_server.Step.server (host.Step.serve rfl (by decide)
    (@world.Step.apply _ session.echo_work rfl rfl rfl)) ⟨nofun, rfl⟩ nofun)

/-- The handler has called `stop()`. -/
def stopping : stdio_server :=
  { handling with
    server := stdio_server.called_stop handling.server
    nested := Function.update handling.nested .worker (some 0) }

theorem reaches_stopping : called_runs.Reachable stopping :=
  reaches_handling.step (stdio_server.Step.application_stops .worker rfl rfl)

/-- One more step of such a run. -/
theorem goes_on {d e f : stdio_server} {a : stdio_server_action} (h : called_runs.Run d e)
    (hstep : called_runs.step e a f) : called_runs.Run d f := .tail h ⟨a, hstep⟩

/-- The handler is back in its code, and the server is stopped. -/
def handled : stdio_server :=
  { handling with
    server := { handling.server with
      world := { handling.server.world with
        server := handling.server.world.server.stop.1
        run := handling.server.world.run.stop.1
        stops := [.returned] }
      transport := ⟨1, true, false⟩ }
    transport := { handling.transport with
      shared := (handling.transport.shared.begin_close .requested_stop).1
      reader_stop_ := true
      begun := [.requested_stop] } }

/-- The thread in the nested call is the worker, which is in the handler. -/
theorem handler_inside {h : host} (hcall : h.world.call = .applying) (who : stop_caller)
    (call : Nat) (hnested : stopping.nested who = some call) : h.in_application who := by
  cases who with
  | worker => exact hcall
  | reader => cases hnested
  | stop outer => cases hnested

/-- The handler's `stop()` goes through the server, the executor and the transport, and returns
to the handler. -/
theorem runs_to_handled : called_runs.Run stopping handled := by
  have h0 : called_runs.Run stopping stopping := .refl
  have h1 := goes_on h0
    (stdio_server.Step.server (@host.Step.stop_server _ 0 rfl)
      (by rintro (_ | _) hat <;> cases hat) (handler_inside rfl))
  have h2 := goes_on h1
    (stdio_server.Step.server (@host.Step.stop_executor _ 0 rfl)
      (by rintro (_ | _) hat <;> cases hat) (handler_inside rfl))
  have h3 := goes_on h2
    (stdio_server.Step.server (@host.Step.stop_cleans _ 0 _ rfl)
      (by rintro (_ | _) hat <;> cases hat) (handler_inside rfl))
  have h4 := goes_on h3
    (stdio_server.Step.server (@host.Step.stop_cleans _ 0 _ rfl)
      (by rintro (_ | _) hat <;> cases hat) (handler_inside rfl))
  have h5 := goes_on h4 (@stdio_server.Step.stop_closes calls _ _ 0 rfl rfl (.stop _))
  have h6 := goes_on h5
    (@stdio_server.Step.stop_requests calls _ _ 0 rfl (.request_stop (by decide)))
  have h7 := goes_on h6 (@stdio_server.Step.application_stopped calls _ .worker 0 rfl rfl)
  have hback : Function.update stopping.nested .worker none = handled.nested := by
    funext who
    cases who <;> rfl
  exact cast (congrArg (fun nested => called_runs.Run stopping { handled with nested }) hback) h7

/-- The worker has ended: it makes no reply for a server that is stopped. -/
def retired : stdio_server :=
  { handled with
    server := { handled.server with
      policy_ := (application handled.server.world.server session.overridden echo_call
        ⟨handled.server.policy_, []⟩).1.policy_
      world := { handled.server.world with
        server := handled.server.world.server.complete 0
        run := (((handled.server.world.run.finish_call session.echo_work).reset_active
          session.echo_work).release).leave.finish
        call := .outside } } }

/-- The handler returns, its reply is not sent, and the worker retires the work and ends. -/
theorem runs_to_retired : called_runs.Run stopping retired := by
  have h1 := goes_on runs_to_handled (stdio_server.Step.server
    (@host.Step.application _ session.echo_work session.overridden rfl rfl) trivial nofun)
  have h2 := goes_on h1 (stdio_server.Step.server (host.Step.serve rfl (by decide)
    (@world.Step.respond _ session.echo_work _ session.calm rfl rfl nofun)) ⟨nofun, rfl⟩ nofun)
  have h3 := goes_on h2 (stdio_server.Step.server (host.Step.serve rfl (by decide)
    (@world.Step.finish_call _ session.echo_work rfl rfl)) ⟨nofun, rfl⟩ nofun)
  have h4 := goes_on h3 (stdio_server.Step.server (host.Step.serve rfl (by decide)
    (@world.Step.reset_active _ session.echo_work rfl)) ⟨nofun, rfl⟩ nofun)
  have h5 := goes_on h4 (stdio_server.Step.server (host.Step.serve rfl (by decide)
    (@world.Step.release_last _ session.echo_work rfl rfl rfl)) ⟨nofun, rfl⟩ nofun)
  have h6 := goes_on h5 (stdio_server.Step.server (host.Step.serve rfl (by decide)
    (@world.Step.call_completes _ session.echo_work 0 rfl rfl)) ⟨nofun, rfl⟩ nofun)
  have h7 := goes_on h6 (stdio_server.Step.server (host.Step.serve rfl (by decide)
    (world.Step.leave_loop rfl rfl)) ⟨nofun, rfl⟩ nofun)
  exact goes_on h7 (stdio_server.Step.server (host.Step.serve rfl (by decide)
    (world.Step.finish rfl)) ⟨nofun, rfl⟩ nofun)

/-- So have the reader and the writer, the reader after the close callback. -/
def ended : stdio_server :=
  { retired with
    server := { retired.server with
      world := { retired.server.world with
        server := retired.server.world.server.stop.1
        run := retired.server.world.run.stop.1
        stops := [.returned, .returned] } }
    transport := { retired.transport with
      shared := (((retired.transport.shared.claim_close.1.close_published.worker_done
        true).take_front.written_out [0x30, newline]).worker_done false)
      reader := .tail .gone
      writer := .tail .gone
      written := [0x30, newline]
      closes := [.requested_stop]
      returns := 1
      writer_ended := some .drained } }

/-- The transport's threads find the stop they were asked for and end, the reader by way of the
close callback. -/
theorem runs_to_ended : called_runs.Run stopping ended := by
  have h1 := goes_on runs_to_retired
    (stdio_server.Step.transport (stdio_world.Step.scan_done rfl) nofun)
  have h2 := goes_on h1 (stdio_server.Step.transport (stdio_world.Step.head_stops rfl rfl) nofun)
  have h3 := goes_on h2 (stdio_server.Step.transport
    (@stdio_world.Step.tail_claims _ _ true rfl) ⟨nofun, nofun⟩)
  have h4 := goes_on h3 (@stdio_server.Step.close _ _ _ true .requested_stop rfl
    (@stdio_world.Step.tail_calls _ _ true .requested_stop rfl))
  -- the close callback's own `stop()`, number 1
  have h5 := goes_on h4
    (stdio_server.Step.server (@host.Step.stop_server _ 1 rfl)
      (by rintro (_ | _ | _) hat <;> cases hat) nofun)
  have h6 := goes_on h5
    (stdio_server.Step.server (@host.Step.stop_executor _ 1 rfl)
      (by rintro (_ | _ | _) hat <;> cases hat) nofun)
  have h7 := goes_on h6
    (stdio_server.Step.server (@host.Step.stop_cleans _ 1 _ rfl)
      (by rintro (_ | _ | _) hat <;> cases hat) nofun)
  have h8 := goes_on h7
    (stdio_server.Step.server (@host.Step.stop_cleans _ 1 _ rfl)
      (by rintro (_ | _ | _) hat <;> cases hat) nofun)
  -- it finds the transport closing and returns, and so does the callback
  have h9 := goes_on h8 (@stdio_server.Step.stop_closing _ _ _ 1 rfl nofun rfl (.stop _))
  have h10 := goes_on h9 (@stdio_server.Step.closed _ _ _ true 1 rfl rfl rfl
    (@stdio_world.Step.tail_returns _ _ true rfl))
  have h11 := goes_on h10 (stdio_server.Step.transport
    (@stdio_world.Step.tail_publishes _ _ true rfl) ⟨nofun, nofun⟩)
  have h12 := goes_on h11 (stdio_server.Step.transport
    (@stdio_world.Step.tail_ends _ _ true rfl) ⟨nofun, nofun⟩)
  -- the writer: it wakes, writes the one frame there is, and ends behind the reader
  have h13 := goes_on h12
    (stdio_server.Step.transport (stdio_world.Step.wake_writer rfl rfl rfl) trivial)
  have h14 := goes_on h13 (stdio_server.Step.transport
    (@stdio_world.Step.write_takes calls _ [0x30, newline] [] rfl rfl) trivial)
  have h15 := goes_on h14 (stdio_server.Step.transport
    (stdio_world.Step.write 2 rfl (by decide) (by decide)) trivial)
  have h16 := goes_on h15 (stdio_server.Step.transport
    (@stdio_world.Step.write_done calls _ [0x30, newline] 2 rfl (by decide)) trivial)
  have h17 := goes_on h16
    (stdio_server.Step.transport (stdio_world.Step.write_drained rfl rfl rfl) trivial)
  have h18 := goes_on h17 (stdio_server.Step.transport
    (@stdio_world.Step.tail_claims _ _ false rfl) ⟨nofun, nofun⟩)
  exact goes_on h18 (stdio_server.Step.transport
    (@stdio_world.Step.tail_ends _ _ false rfl) ⟨nofun, nofun⟩)

/-- The owner has waited for all of it. -/
def awaited : stdio_server :=
  { ended with
    server := { ended.server with
      transport := ⟨1, true, false⟩
      owner := .finishing (.wait false) }
    transport := { ended.transport with waits := [.returned true true] } }

/-- The owner's waits find everything over. -/
theorem runs_to_awaited : called_runs.Run stopping awaited := by
  have h1 := goes_on runs_to_ended (stdio_server.Step.transport
    (@stdio_world.Step.poll_joined _ _ 0 false rfl rfl) trivial)
  have h2 := goes_on h1 (stdio_server.Step.transport
    (@stdio_world.Step.join _ _ 0 true rfl rfl rfl) trivial)
  have h3 := goes_on h2 (@stdio_server.Step.waited _ _ (.wait false) false true rfl rfl)
  exact goes_on h3 (stdio_server.Step.server (host.Step.executor_waits rfl rfl) ⟨rfl, rfl⟩ nofun)

/-- The handler's call of `stop()` returns while the owner is in `wait()`, and `wait()` returns
success with every thread finished. -/
theorem stdio_server_quiescence_handler :
    called_runs.Reachable stopping ∧ stopping.server.owner = .waiting (.wait false) false ∧
      stopping.nested .worker = some 0 ∧ called_runs.Run stopping awaited ∧
      ∃ e, called_runs.step awaited (.server (.wait_returns (.ok true))) e ∧ e.at_rest := by
  have hr := reaches_stopping.run runs_to_awaited
  obtain ⟨e, hnext⟩ : ∃ e, called_runs.step awaited (.server (.wait_returns (.ok true))) e :=
    ⟨_, .server (host.Step.wait_returns rfl) ⟨rfl, rfl⟩ nofun⟩
  exact ⟨reaches_stopping, rfl, rfl, runs_to_awaited, e, hnext,
    (stdio_server_quiescence hr hnext .refl).1⟩

end stdio_server_session

end SynapseMcp
