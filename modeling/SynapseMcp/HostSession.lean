/-
A server that is started, stopped and waited for at any time serves the sessions of
`ServerRuns`, and no others.

The world of a `host` is a world of `server_runs` from `start()` on, with the limit of its
options, except in two places. The executor is there from the first state of `server_runs`,
while `start()` still is to make it (`host.session`). And a call of `stop()` whose section ran
before the executor was published goes on to the transport: `server_runs` has it where it
goes on to the executor, and takes it no further (`stop_follows`). Nothing that serves sees
the difference, so each step of the host is a step of the session, or none.
-/
import SynapseMcp.ServerStart
import SynapseMcp.ServerEcho

set_option autoImplicit false

namespace SynapseMcp

open Transition Places

/-! ## The calls of `stop()` of a session

Two worlds are alike when they differ only in calls of `stop()` that no thread of the server is
in. The reader and the worker find everything they look at the same in both, so a step that
serves can be taken in both, and leaves them alike. What is to be checked is that a call that a
thread does make has the same number in both.

Besides equal places `stop_follows` has two pairs. A call whose section found no published
executor goes on to the transport, where the session has it before `executor_->stop()`. There
the session leaves it, while in the host it returns; hence the pair of a call that is over and
one that is still to stop the executor. Neither place holds a capture, so the counts of both
worlds are the same. -/

/-- Where a call of `stop()` is in the host, and in the session. -/
inductive stop_follows : stop_at → stop_at → Prop
  | same (call : stop_at) : stop_follows call call
  | passed : stop_follows .transport .executor
  | over : stop_follows .returned .executor

/-- The two positions of such a call hold the same works. -/
theorem stop_follows.discarded {call other : stop_at} (h : stop_follows call other) :
    other.discarded = call.discarded := by
  cases h <;> rfl

/-- So an operation is held by as many calls in both. -/
theorem captures_of_follows {calls others : List stop_at}
    (h : List.Forall₂ stop_follows calls others) (op : Nat) :
    captures_stopped op others = captures_stopped op calls := by
  unfold captures_stopped
  congr 1
  induction h with
  | nil => rfl
  | cons hcall _ ih => rw [List.map_cons, List.map_cons, hcall.discarded, ih]

/-- The two differ in calls of `stop()` that no thread of the server is in. -/
structure alike (w v : world) : Prop where
  same : v = { w with stops := v.stops }
  stops : List.Forall₂ stop_follows w.stops v.stops
  reader : ∀ call held, w.reader = .stopping call held → v.stops[call]? = w.stops[call]?
  worker : ∀ call, w.call = .stopping call → v.stops[call]? = w.stops[call]?

section Alike

variable {w v t : world} {a : server_action}

/-- The threads stay in the calls they were in, or are in one that is new. -/
theorem alike.appends (h : alike w v) (calls : List stop_at) (hstops : t.stops = w.stops ++ calls)
    (hreader : ∀ call held, t.reader = .stopping call held →
      w.reader = .stopping call held ∨ w.stops.length ≤ call)
    (hworker : ∀ call, t.call = .stopping call → w.call = .stopping call ∨ w.stops.length ≤ call) :
    alike t { t with stops := v.stops ++ calls } := by
  have hlength := h.stops.length_eq
  have hnew : ∀ call : Nat, w.stops.length ≤ call →
      (v.stops ++ calls)[call]? = (w.stops ++ calls)[call]? := by
    intro call hge
    rw [List.getElem?_append_right hge, List.getElem?_append_right (by omega), hlength]
  have hold : ∀ call : Nat, v.stops[call]? = w.stops[call]? →
      (v.stops ++ calls)[call]? = (w.stops ++ calls)[call]? := by
    intro call heq
    by_cases hlt : call < w.stops.length
    · rw [List.getElem?_append_left hlt, List.getElem?_append_left (by omega), heq]
    · exact hnew call (by omega)
  refine ⟨rfl, ?_, ?_, ?_⟩
  · rw [hstops]
    exact List.rel_append h.stops (List.forall₂_same.mpr fun call _ => .same call)
  · intro call held hstopping
    rw [hstops]
    rcases hreader call held hstopping with hwas | hge
    · exact hold call (h.reader call held hwas)
    · exact hnew call hge
  · intro call hstopping
    rw [hstops]
    rcases hworker call hstopping with hwas | hge
    · exact hold call (h.worker call hwas)
    · exact hnew call hge

/-- And no call is new. -/
theorem alike.keeps (h : alike w v) (hstops : t.stops = w.stops)
    (hreader : ∀ call held, t.reader = .stopping call held → w.reader = .stopping call held)
    (hworker : ∀ call, t.call = .stopping call → w.call = .stopping call) :
    alike t { t with stops := v.stops } := by
  have happends := h.appends (t := t) [] (by rw [hstops, List.append_nil])
    (fun call held hc => .inl (hreader call held hc)) (fun call hc => .inl (hworker call hc))
  rwa [List.append_nil] at happends

/-- Nobody moves, and the calls are what they were. -/
theorem alike.unmoved (h : alike w v) (hstops : t.stops = w.stops) (hreader : t.reader = w.reader)
    (hworker : t.call = w.call) : alike t { t with stops := v.stops } :=
  h.keeps hstops (fun _ _ hc => hreader ▸ hc) fun _ hc => hworker ▸ hc

/-- The reader goes on, and is in no call. -/
theorem alike.reads (h : alike w v) (hstops : t.stops = w.stops)
    (hreader : ∀ call held, t.reader ≠ .stopping call held) (hworker : t.call = w.call) :
    alike t { t with stops := v.stops } :=
  h.keeps hstops (fun call held hc => absurd hc (hreader call held)) fun _ hc => hworker ▸ hc

/-- The worker does. -/
theorem alike.works (h : alike w v) (hstops : t.stops = w.stops) (hreader : t.reader = w.reader)
    (hworker : ∀ call, t.call ≠ .stopping call) : alike t { t with stops := v.stops } :=
  h.keeps hstops (fun _ _ hc => hreader ▸ hc) fun call hc => absurd hc (hworker call)

/-- The reader left the scope of `done`, by a return or an exception. -/
theorem alike.left (h : alike w v) (s : server) (threw : Bool) :
    alike
      { w with
        server := s
        reader := .left w.stops.length threw
        stops := left_stops w.stops threw }
      { w with
        server := s
        reader := .left v.stops.length threw
        stops := left_stops v.stops threw } := by
  rw [← h.stops.length_eq]
  cases threw with
  | false => exact h.reads rfl (fun _ _ hc => by cases hc) rfl
  | true =>
      exact h.appends [.entered] rfl (fun _ _ hc => by cases hc; exact .inr (Nat.le_refl _))
        fun _ hc => .inl hc

/-- A reader behind a cleanup is in no call of `stop()`. -/
theorem reader_at.cleaned_free (rest : Option cleanup) (call : Nat) (held : Option Nat) :
    reader_at.cleaned rest ≠ .stopping call held := by
  intro hc
  cases rest <;> cases hc

/-- What serves takes the same steps in two worlds that are alike, since no rule looks at a call
of `stop()` but that of the thread that takes the step. -/
theorem alike.serve (h : alike w v) (hserved : a.served = true) (hstep : world.Step w a t) :
    ∃ u, world.Step v a u ∧ alike t u := by
  have hlength := h.stops.length_eq
  have hcaptures : ∀ op, v.captures op = w.captures op := by
    intro op
    rw [h.same]
    simp only [world.captures, captures_of_follows h.stops op]
  obtain ⟨stops, heq⟩ : ∃ stops, v = { w with stops := stops } := ⟨v.stops, h.same⟩
  subst heq
  cases hstep with
  | @receive wire answers hreader =>
      -- a call the section makes has the same number in both, for there are as many
      refine ⟨_, .receive answers hreader, ?_⟩
      cases hnext : (w.server.receive answers wire).next with
      | stop =>
          rw [← hlength]
          exact h.appends [.entered] rfl (fun _ _ hc => by cases hc; exact .inr (Nat.le_refl _))
            fun _ hc => .inl hc
      | done | enqueue | cancel => exact h.reads rfl (fun _ _ hc => by cases hc) rfl
  | enqueue hreader =>
      refine ⟨_, .enqueue hreader, h.reads rfl (fun _ _ hc => ?_) rfl⟩
      dsimp only at hc
      split at hc <;> cases hc
  | reject_sent answers hreader hsent =>
      exact ⟨_, .reject_sent answers hreader hsent, h.reads rfl (fun _ _ hc => by cases hc) rfl⟩
  | reject_failed answers hreader hfailed =>
      refine ⟨_, .reject_failed answers hreader hfailed, ?_⟩
      dsimp only at hlength ⊢
      rw [← hlength]
      exact h.appends [.entered] rfl (fun _ _ hc => by cases hc; exact .inr (Nat.le_refl _))
        fun _ hc => .inl hc
  | reject_threw answers hreader hthrew =>
      exact ⟨_, .reject_threw answers hreader hthrew, h.reads rfl (fun _ _ hc => by cases hc) rfl⟩
  | @leave_shared op threw hreader hshared =>
      exact ⟨_, .leave_shared hreader (by rwa [hcaptures]), h.left _ _⟩
  | leave_last hreader hlast =>
      exact ⟨_, .leave_last hreader ((hcaptures _).trans hlast),
        h.reads rfl (fun _ _ hc => by cases hc) rfl⟩
  | reader_completes hreader =>
      exact ⟨_, .reader_completes hreader, h.left _ _⟩
  | cancel hreader =>
      exact ⟨_, .cancel hreader, h.reads rfl (fun _ _ hc => by cases hc) rfl⟩
  | reader_cleans hreader =>
      exact ⟨_, .reader_cleans hreader, h.reads rfl (reader_at.cleaned_free _) rfl⟩
  | @reader_stopped call held hreader hreturned =>
      -- the reader's own call is where it is in the other
      have hreturned' := (h.reader _ _ hreader).trans hreturned
      cases held with
      | some op =>
          exact ⟨_, @world.Step.reader_stopped { w with stops := stops } call _ hreader hreturned',
            h.reads rfl (fun _ _ hc => by cases hc) rfl⟩
      | none =>
          exact ⟨_, @world.Step.reader_stopped { w with stops := stops } call _ hreader hreturned',
            h.reads rfl (fun _ _ hc => by cases hc) rfl⟩
  | dequeue hworker htake =>
      exact ⟨_, .dequeue hworker htake, h.unmoved rfl rfl rfl⟩
  | invoke hworker =>
      exact ⟨_, .invoke hworker, h.works rfl rfl fun _ hc => by cases hc⟩
  | apply hworker hcall hmay =>
      exact ⟨_, .apply hworker hcall hmay, h.works rfl rfl fun _ hc => by cases hc⟩
  | skip hworker hcall hmay =>
      exact ⟨_, .skip hworker hcall hmay, h.works rfl rfl fun _ hc => by cases hc⟩
  | respond answers hworker hcall hdone =>
      exact ⟨_, .respond answers hworker hcall hdone, h.works rfl rfl fun _ hc => by cases hc⟩
  | respond_failed answers hworker hcall hfailed =>
      refine ⟨_, .respond_failed answers hworker hcall hfailed, ?_⟩
      dsimp only at hlength ⊢
      rw [← hlength]
      exact h.appends [.entered] rfl (fun _ _ hc => .inl hc)
        fun _ hc => by cases hc; exact .inr (Nat.le_refl _)
  | call_stopped hcall hreturned =>
      exact ⟨_, .call_stopped hcall ((h.worker _ hcall).trans hreturned),
        h.works rfl rfl fun _ hc => by cases hc⟩
  | finish_call hworker hcall =>
      exact ⟨_, .finish_call hworker hcall, h.works rfl rfl fun _ hc => by cases hc⟩
  | reset_active hworker =>
      exact ⟨_, .reset_active hworker, h.unmoved rfl rfl rfl⟩
  | release_shared hworker hcall hshared =>
      exact ⟨_, .release_shared hworker hcall hshared, h.unmoved rfl rfl rfl⟩
  | release_last hworker hcall hlast =>
      exact ⟨_, .release_last hworker hcall hlast, h.works rfl rfl fun _ hc => by cases hc⟩
  | call_completes hworker hcall =>
      exact ⟨_, .call_completes hworker hcall, h.works rfl rfl fun _ hc => by cases hc⟩
  | leave_loop hworker hstop =>
      exact ⟨_, .leave_loop hworker hstop, h.unmoved rfl rfl rfl⟩
  | finish hworker =>
      exact ⟨_, .finish hworker, h.unmoved rfl rfl rfl⟩
  | deliver | application | call_stop | stop_server | stop_executor | stop_cleans | stop_transport
  | start_commits | wait_returns => cases hserved

/-- A call goes on, as it does in the host. -/
theorem alike.sets (h : alike w v) {call : Nat} {before next other : stop_at}
    (hcall : w.stops[call]? = some before) (hfollows : stop_follows next other)
    (hstops : t.stops = w.stops.set call next) (hreader : t.reader = w.reader)
    (hworker : t.call = w.call)
    (hthreads : next = other ∨ (∀ held, w.reader ≠ .stopping call held) ∧
      w.call ≠ .stopping call) :
    alike t { t with stops := v.stops.set call other } := by
  have hlength := h.stops.length_eq
  have hbound := (List.getElem?_eq_some_iff.mp hcall).1
  -- at the call itself the two lists have what was set, elsewhere what they had
  have hat : ∀ at_ : Nat, v.stops[at_]? = w.stops[at_]? → (at_ = call → next = other) →
      (v.stops.set call other)[at_]? = (w.stops.set call next)[at_]? := by
    intro at_ heq hself
    by_cases hne : at_ = call
    · subst hne
      rw [List.getElem?_set_self hbound, List.getElem?_set_self (by omega), hself rfl]
    · rw [List.getElem?_set_ne (Ne.symm hne), List.getElem?_set_ne (Ne.symm hne), heq]
  refine ⟨rfl, ?_, ?_, ?_⟩
  · rw [hstops]
    exact together_set h.stops hfollows
  · intro at_ held hstopping
    rw [hreader] at hstopping
    rw [hstops]
    refine hat at_ (h.reader at_ held hstopping) ?_
    rintro rfl
    -- where the two places differ, no thread is in that call
    rcases hthreads with heq | ⟨hno, -⟩
    · exact heq
    · exact absurd hstopping (hno held)
  · intro at_ hstopping
    rw [hworker] at hstopping
    rw [hstops]
    refine hat at_ (h.worker at_ hstopping) ?_
    rintro rfl
    rcases hthreads with heq | ⟨-, hno⟩
    · exact heq
    · exact absurd hstopping hno

end Alike

/-! ## Before the executor

Until `start()` has published an executor nothing is received, so a session with an executor
that has nothing to do is in the same state. The invariant says what a server is in that time:
blank but for what is registered while it is being configured, and without anybody inside a call
from then until the executor is there.

`blank` is about `configuring` alone. Calls of `stop()` may have begun by then, but none has run
its first section, which ends `configuring`. `unpublished` is about all of the time without a
published executor, also through a `start()` that fails before it has one; a call of `stop()`
that has run its section in that time has gone to the transport, or is over. -/

/-- There is an executor, or `start()` is about to make it. -/
def host.begun (h : host) : Prop := h.owner = .creating ∨ h.executor_ ≠ .absent

/-- The executor of the session. -/
def host.session_run (h : host) : runtime closure :=
  if h.executor_ = .absent then .make h.options_.max_pending_requests else h.world.run

/-- The world of a host, with the executor it is going to have. -/
def host.session (h : host) : SynapseMcp.world := { h.world with run := h.session_run }

/-- Once there is an executor it is the session's. -/
theorem host.session_of_executor {h : host} (hexecutor : h.executor_ ≠ .absent) :
    h.session = h.world := by
  unfold host.session host.session_run
  rw [if_neg hexecutor]

/-- Nothing is received, and no thread of the server is inside a call. -/
structure host.unpublished (h : host) : Prop where
  starts : h.transport.starts = 0
  reader : h.world.reader = .idle
  call : h.world.call = .outside
  log : h.world.log = []
  run : ∃ limit, h.world.run = .make limit
  stops : ∀ call ∈ h.world.stops, call = .entered ∨ call = .transport ∨ call = .returned

/-- What a server is that was constructed, however much is registered. -/
structure host.blank (h : host) : Prop where
  server : ∃ info resources prompts tools,
    h.world.server = { server.started info resources prompts tools with state_ := .configuring }
  stops : ∀ call ∈ h.world.stops, call = .entered

/-- What a host is before its executor is published. -/
structure session_inv (options : server_options) (h : host) : Prop where
  configured : h.options_ = options
  valid : h.begun → 0 < options.max_pending_requests
  unpublished : h.executor_ ≠ .published → h.unpublished
  blank : h.state_ = .configuring → h.blank

section Before

variable {info : raw_info} {options : server_options} {h t : host} {a : host_action}

/-- The options are set by the constructor. -/
theorem host.Step.keeps_options (hstep : host.Step h a t) : t.options_ = h.options_ := by
  cases hstep <;> rfl

/-- Before an executor is published nothing serves: the reader has received nothing, and a
worker has nothing to take. -/
theorem host.unpublished.rests (hu : h.unpublished) {b : server_action}
    {v : SynapseMcp.world} (hserved : b.served = true) : ¬ world.Step h.world b v := by
  intro hstep
  have hreader := hu.reader
  have hcall := hu.call
  obtain ⟨limit, hrun⟩ := hu.run
  -- with limit 0 there is no worker; otherwise it waits, and nothing was ever queued
  have hworker : h.world.run.worker = .gone ∨ limit ≠ 0 ∧ h.world.run.worker = .waiting := by
    rw [hrun]
    unfold runtime.make
    dsimp only
    split
    · exact .inl rfl
    · exact .inr ⟨‹_›, rfl⟩
  have hidle : ∀ {at_ : worker_at closure}, h.world.run.worker = at_ → at_ ≠ .gone →
      at_ ≠ .waiting → False := by
    intro at_ hat hgone hwaiting
    rcases hworker with heq | ⟨-, heq⟩
    · exact hgone (hat.symm.trans heq)
    · exact hwaiting (hat.symm.trans heq)
  cases hstep with
  | dequeue _ htake =>
      rw [hrun] at htake
      obtain ⟨-, rest, hpending, -⟩ := owned_executor.dequeue_some htake
      cases hpending
  | leave_loop hwaiting hstop =>
      rw [hrun] at hstop
      rcases hworker with hgone | ⟨hlimit, -⟩
      · cases hgone.symm.trans hwaiting
      · exact hlimit (of_decide_eq_true hstop)
  -- nothing was delivered, so the reader is in no section of its own
  | receive _ hbusy | enqueue hbusy | reject_sent _ hbusy | reject_failed _ hbusy
  | reject_threw _ hbusy | leave_shared hbusy | leave_last hbusy | reader_completes hbusy
  | cancel hbusy | reader_cleans hbusy | reader_stopped hbusy =>
      cases hreader.symm.trans hbusy
  | call_stopped hbusy => cases hcall.symm.trans hbusy
  | invoke hbusy | apply hbusy | skip hbusy | respond _ hbusy | respond_failed _ hbusy
  | finish_call hbusy | reset_active hbusy | release_shared hbusy | release_last hbusy
  | call_completes hbusy | finish hbusy => exact hidle hbusy nofun nofun
  | deliver | application | call_stop | stop_server | stop_executor | stop_cleans | stop_transport
  | start_commits | wait_returns => cases hserved

/-- A server that is being configured has no executor, has started no transport, and its owner
is not in the middle of a `start()` that creates one. -/
theorem lifecycle_inv.configuring (hi : lifecycle_inv h) (hstate : h.state_ = .configuring) :
    h.executor_ = .absent ∧ h.transport.starts = 0 ∧ h.owner ≠ .creating := by
  have ho := hi.owner
  unfold host.owner_ok at ho
  cases howner : h.owner with
  | idle =>
      rw [howner] at ho
      exact ⟨(ho.2.2 hstate).1, (ho.2.2 hstate).2, nofun⟩
  | creating | publishing | launching | starting | committing =>
      rw [howner] at ho
      exact absurd hstate ho.2.2.1
  | cleaning call err =>
      rw [howner] at ho
      exact absurd hstate ho.2.2.1
  | waiting call | joining call =>
      rw [howner] at ho
      cases call with
      | start err => exact absurd hstate ho.1.2.2.1
      | wait bounded => exact ⟨(ho.2.2 hstate).1, (ho.2.2 hstate).2, nofun⟩
  | finishing call =>
      rw [howner] at ho
      cases call with
      | start err => exact absurd hstate ho.1.2.2.1
      | wait bounded => exact ⟨(ho.1.2.2 hstate).1, (ho.1.2.2 hstate).2, nofun⟩

/-- A position of the owner at which the executor is published. -/
theorem lifecycle_inv.launched (hi : lifecycle_inv h)
    (howner : h.owner = .launching ∨ h.owner = .starting ∨ h.owner = .committing) :
    h.executor_ = .published := by
  have ho := hi.owner
  unfold host.owner_ok at ho
  rcases howner with heq | heq | heq
  all_goals
    rw [heq] at ho
    exact ho.1

/-- The cleanup of `start()` begins with nobody inside. -/
theorem host.unpublished.clean (hu : h.unpublished) (err : sdk_error) :
    (h.clean err).unpublished :=
  { hu with
    stops := by
      intro call hcall
      rcases List.mem_append.mp hcall with hold | hnew
      · exact hu.stops call hold
      · exact .inl (List.mem_singleton.mp hnew) }

/-- Until the executor is published no step brings anybody in. -/
theorem host.unpublished.step (hu : h.unpublished) (hi : lifecycle_inv h)
    (hstep : host.Step h a t) (hexecutor : t.executor_ ≠ .published) : t.unpublished := by
  have hset : ∀ {call : Nat} {at_ : stop_at}, at_ = .transport ∨ at_ = .returned →
      ∀ other ∈ h.world.stops.set call at_,
        other = .entered ∨ other = .transport ∨ other = .returned := by
    intro call at_ hat other hother
    rcases List.mem_or_eq_of_mem_set hother with hold | rfl
    · exact hu.stops other hold
    · exact .inr hat
  cases hstep with
  | create howner => exact { hu with run := ⟨_, rfl⟩ }
  | publish | publish_interrupted => exact absurd rfl hexecutor
  | transport_start howner => exact absurd (hi.launched (.inl howner)) hexecutor
  | create_throws howner => exact hu.clean _
  | transport_start_fails _ howner | transport_start_throws howner =>
      exact absurd (hi.launched (.inr (.inl howner))) hexecutor
  | commit_interrupted howner => exact hu.clean _
  -- the transport delivers only once it was started, which comes after the executor is published
  | deliver wire hstarted =>
      rw [hu.starts] at hstarted
      cases hstarted
  | serve hserved _ hworld => exact absurd hworld (hu.rests hserved)
  | application env hworker hcall => cases hu.call.symm.trans hcall
  | call_stop => exact { hu.clean cannot_start with }
  -- a `stop()` ends with its first section, or goes straight to the transport
  | stop_server hcall =>
      have hunpublished : h.executor_ ≠ .published := hexecutor
      refine { hu with stops := hset ?_ }
      unfold host.after_section
      rw [if_neg hunpublished]
      split
      · exact .inr rfl
      · exact .inl rfl
  | stop_executor hcall | stop_cleans hcall =>
      rcases hu.stops _ (List.mem_of_getElem? hcall) with heq | heq | heq <;> cases heq
  | stop_transport hcall => exact { hu with stops := hset (.inr rfl) }
  | _ => exact { hu with }

/-- Calls of `stop()` that begin before `start()` find a server without an executor. -/
theorem host.blank.appends (hb : h.blank) {calls : List stop_at}
    (hentered : ∀ call ∈ calls, call = .entered) :
    ∀ call ∈ h.world.stops ++ calls, call = .entered := by
  intro call hcall
  rcases List.mem_append.mp hcall with hold | hnew
  · exact hb.stops call hold
  · exact hentered call hnew

/-- Registering something gives the server that would have been constructed with it. -/
theorem registered_started {info : server_info} {resources : List (String × resource)}
    {prompts : List (String × prompt)} {tools : List (String × tool)} {r : registration}
    {s : server}
    (h : registered
      { server.started info resources prompts tools with state_ := .configuring } r s) :
    ∃ resources prompts tools,
      s = { server.started info resources prompts tools with state_ := .configuring } := by
  cases h <;> exact ⟨_, _, _, rfl⟩

/-- While the server is configured, things are registered and `stop()` is called. -/
theorem host.blank.step (hb : h.blank) (hi : lifecycle_inv h)
    (hstate : h.state_ = .configuring) (hstep : host.Step h a t)
    (hstate' : t.state_ = .configuring) : t.blank := by
  have hidle := hi.configuring hstate
  cases hstep with
  | register r =>
      refine ⟨?_, hb.stops⟩
      obtain ⟨info, resources, prompts, tools, hserver⟩ := hb.server
      rcases h.world.server.register_cases r with ⟨err, heq⟩ | ⟨-, -, hr⟩
      · exact ⟨info, resources, prompts, tools, by rw [← hserver, heq]⟩
      · rw [hserver] at hr
        obtain ⟨resources, prompts, tools, heq⟩ := registered_started hr
        exact ⟨info, resources, prompts, tools, by rw [← heq, hserver]⟩
  | start_invalid | start_enters | commit | wait_returns | cleanup_ends => cases hstate'
  | create_throws | publish_interrupted | transport_start_fails | transport_start_throws
  | commit_interrupted | call_stop =>
      exact ⟨hb.server, hb.appends fun _ hc => List.mem_singleton.mp hc⟩
  | deliver wire hstarted =>
      rw [hidle.2.1] at hstarted
      cases hstarted
  | serve _ hexecutor => exact absurd hidle.1 hexecutor
  | stop_server hcall =>
      rcases h.world.server.stop_state with ⟨hstopped, -⟩ | ⟨-, hstopping, -⟩
      · cases hstate.symm.trans hstopped
      · cases hstate'.symm.trans hstopping
  | stop_executor hcall | stop_cleans hcall | stop_transport hcall =>
      cases hb.stops _ (List.mem_of_getElem? hcall)
  | _ => exact ⟨hb.server, hb.stops⟩

/-- Valid options have room for a request. -/
theorem server_options.valid.limit {o : server_options} {i : raw_info} (h : o.valid i = true) :
    0 < o.max_pending_requests := by
  unfold server_options.valid at h
  simp only [Bool.and_eq_true, decide_eq_true_eq] at h
  omega

/-! ### One step of the invariant

The four parts are kept one by one. The options are never written. The session begins in one
step only, that of `start()` behind the validation of the options, which is what the limit is
known from. An executor stays published, so the other two parts need to be shown only of steps
that lead to a server without one, and to one that is being configured. -/

/-- An executor that is published stays so: the step that makes one starts from none. -/
theorem host.Step.published (hi : lifecycle_inv h) (hstep : host.Step h a t)
    (hpublished : h.executor_ = .published) : t.executor_ = .published := by
  have ho := hi.owner
  unfold host.owner_ok at ho
  cases hstep with
  | create howner =>
      rw [howner] at ho
      cases ho.1.symm.trans hpublished
  | publish | publish_interrupted => rfl
  | _ => exact hpublished

/-- The session begins in the one step in which `start()` leaves `configuring`, which it does
only with valid options. -/
theorem host.Step.begins (hi : lifecycle_inv h) (hstep : host.Step h a t) (hbegun : t.begun) :
    h.begun ∨ (h.state_ = .configuring ∧ h.options_.valid h.info_ = true ∧
      t = { h.set_state .starting with owner := .creating }) := by
  have ho := hi.owner
  unfold host.owner_ok at ho
  cases hstep with
  | start_enters howner hstate hvalid => exact .inr ⟨hstate, hvalid, rfl⟩
  | create howner => exact .inl (.inl howner)
  | publish howner | publish_interrupted howner =>
      rw [howner] at ho
      exact .inl (.inr (by rw [ho.1]; decide))
  | register | start_refused | start_invalid | deliver | serve | application | call_stop
  | stop_server | stop_executor | stop_cleans | stop_transport => exact .inl hbegun
  | transport_waits =>
      rcases hbegun with hcreating | hexecutor
      · dsimp only at hcreating
        split at hcreating <;> cases hcreating
      · exact .inl (.inr hexecutor)
  | _ =>
      rcases hbegun with hcreating | hexecutor
      · cases hcreating
      · exact .inl (.inr hexecutor)

/-- The invariant holds through every step; each part has its lemma above, and the rest is that
`configuring` is never come back to. -/
theorem session_inv.step (hs : session_inv options h) (hi : lifecycle_inv h)
    (hstep : host.Step h a t) : session_inv options t where
  configured := hstep.keeps_options.trans hs.configured
  valid := by
    intro hbegun
    rcases hstep.begins hi hbegun with hbegun | ⟨-, hvalid, -⟩
    · exact hs.valid hbegun
    · rw [← hs.configured]
      exact server_options.valid.limit hvalid
  unpublished := by
    intro hexecutor
    have hunpublished : h.executor_ ≠ .published :=
      fun hpublished => hexecutor (hstep.published hi hpublished)
    exact (hs.unpublished hunpublished).step hi hstep hexecutor
  blank := by
    intro hstate
    have hforward := hstep.forward
    have hwas : h.state_ = .configuring := by
      rw [hstate] at hforward
      revert hforward
      cases h.state_ <;> decide
    exact (hs.blank hwas).step hi hwas hstep hstate

/-- So it holds in every state a host can come to. -/
theorem host_session_inv (hr : (host_runs info options).Reachable h) :
    session_inv options h := by
  refine hr.invariant (P := session_inv options) ?_ ?_
  · rintro s rfl
    refine ⟨rfl, ?_, fun _ => ?_, fun _ => ?_⟩
    · rintro (hcreating | hexecutor)
      · cases hcreating
      · exact absurd rfl hexecutor
    · exact ⟨rfl, rfl, rfl, rfl, ⟨0, rfl⟩, nofun⟩
    · exact ⟨⟨_, [], [], [], rfl⟩, nofun⟩
  · intro s b u hr hs hstep
    exact hs.step (host_lifecycle hr) hstep

end Before

/-! ## The host runs a session

A host is followed by a session from the moment `start()` leaves `configuring`: each step of the
host is a step of the session, or one that the session does not see, such as a wait of the
owner. The induction is the one of `System.Following`, so only the single step has to be looked
at.

The same theorem is wanted twice: for all runs of a host, and for those in which neither the
encoder nor the transport throws, whose sessions have that property too. `host_follows`
therefore leaves the conditions on both open, and asks only that one leads to the other. -/

/-- Neither the encoder nor the transport throws, and a hook is set, or not, with the server. -/
def session_step (configured : Bool) (h : host) : host_action → Prop
  | .serve a => no_throws h.world a
  | .application env => configured_answers configured env
  | _ => True

section Session

variable {info : raw_info} {options : server_options} {h t : host} {a : host_action}
  {w : SynapseMcp.world}

/-- A call of `stop()` past the server's section goes to the executor in the session, and in the
host to what there is. -/
theorem host.after_section_follows (h : host) (goes_on : Bool) :
    stop_follows (h.after_section goes_on) (.section_left goes_on) := by
  unfold host.after_section
  cases goes_on with
  | false => exact .same _
  | true =>
      by_cases hpublished : h.executor_ = .published
      · simp only [hpublished]
        exact .same _
      · simp only [hpublished]
        exact .passed

/-- With an executor there is no difference. -/
theorem host.after_section_published (hpublished : h.executor_ = .published) (goes_on : Bool) :
    h.after_section goes_on = .section_left goes_on := by
  unfold host.after_section
  cases goes_on <;> simp [hpublished, stop_at.section_left]

/-- A step of the session that goes with a step of the host. -/
def goes_with (h : host) (a : host_action) (t : host) (w : world) : Prop :=
  ∃ b v, world.Step w b v ∧ alike t.session v ∧
    ∀ configured, session_step configured h a → no_throws w b ∧ applies configured w b

/-- A call of `stop()` begins in both, and has the same number in the two lists. -/
theorem goes_with_calls (halike : alike h.session w) (hsession : t.session =
    { h.session with stops := h.world.stops ++ [.entered] }) : goes_with h a t w := by
  refine ⟨_, _, .call_stop w, ?_, fun _ _ => ⟨trivial, trivial⟩⟩
  have happends := halike.appends (t := t.session) [.entered]
    (congrArg world.stops hsession)
    (fun _ _ hc => by rw [hsession] at hc; exact .inl hc)
    (fun _ hc => by rw [hsession] at hc; exact .inl hc)
  rw [halike.same]
  rwa [hsession] at happends ⊢

/-! ### One step at a time

The steps of a host fall into groups. Those of the serving threads are the session's own, taken
in the alike world. A `stop()` goes on in both, with the difference `stop_follows` allows. The
owner's steps, and the registrations, are none of the session's; only the step of `start()` that
publishes the executor is where the session begins. The calls of `application()` come with the
policy of the host, which the session has no part in: what it gets is the reply. -/

/-- A call of `stop()` goes on in the session too, or the session leaves it behind. The second
is for calls whose section found no executor. -/
theorem host.Step.session_stop (hs : session_inv options h) (halike : alike h.session w)
    (hstep : host.Step h .stop t) : alike t.session w ∨ goes_with h .stop t w := by
  have hpublished : ∀ {call : Nat} {at_ : stop_at}, h.world.stops[call]? = some at_ →
      at_ ≠ .entered → at_ ≠ .transport → at_ ≠ .returned → h.executor_ = .published := by
    intro call at_ hat hentered htransport hreturned
    by_contra hunpublished
    rcases (hs.unpublished hunpublished).stops _ (List.mem_of_getElem? hat) with heq | heq | heq
    · exact hentered heq
    · exact htransport heq
    · exact hreturned heq
  obtain ⟨stops, heq⟩ : ∃ stops, w = { h.session with stops := stops } := ⟨w.stops, halike.same⟩
  subst heq
  cases hstep with
  | @stop_server call hcall =>
      obtain ⟨other, hother, hfollows⟩ := together_at halike.stops hcall
      cases hfollows
      refine .inr ⟨_, _, .stop_server hother,
        halike.sets hcall (h.after_section_follows _) rfl rfl rfl ?_, fun _ _ => ⟨trivial, trivial⟩⟩
      -- where the two part nothing has been received, so no thread is in the call
      by_cases hthere : h.executor_ = .published
      · exact .inl (h.after_section_published hthere _)
      · have hu := hs.unpublished hthere
        refine .inr ⟨fun held hstopping => ?_, fun hstopping => ?_⟩
        · cases hu.reader.symm.trans hstopping
        · cases hu.call.symm.trans hstopping
  | stop_executor hcall =>
      have hthere : h.executor_ ≠ .absent := by
        rw [hpublished hcall nofun nofun nofun]
        nofun
      rw [host.session_of_executor hthere] at halike ⊢
      obtain ⟨other, hother, hfollows⟩ := together_at halike.stops hcall
      cases hfollows
      refine .inr ⟨_, _, .stop_executor hother, ?_, fun _ _ => ⟨trivial, trivial⟩⟩
      rw [host.session_of_executor (by exact hthere)]
      exact halike.sets hcall (.same _) rfl rfl rfl (.inl rfl)
  | stop_cleans hcall =>
      obtain ⟨other, hother, hfollows⟩ := together_at halike.stops hcall
      cases hfollows
      exact .inr ⟨_, _, .stop_cleans hother, halike.sets hcall (.same _) rfl rfl rfl (.inl rfl),
        fun _ _ => ⟨trivial, trivial⟩⟩
  | @stop_transport call hcall =>
      obtain ⟨other, hother, hfollows⟩ := together_at halike.stops hcall
      cases hfollows with
      | same =>
          exact .inr ⟨_, _, .stop_transport hother,
            halike.sets hcall (.same _) rfl rfl rfl (.inl rfl), fun _ _ => ⟨trivial, trivial⟩⟩
      | passed =>
          -- the session has the call where it was, and no thread is in it
          have hdiffers : stops[call]? ≠ h.world.stops[call]? := by
            rw [hcall]
            intro heq
            cases hother.symm.trans heq
          have hsets := halike.sets (t := host.session { h with
            world := { h.world with stops := h.world.stops.set call .returned } }) hcall .over
            rfl rfl rfl (.inr ⟨fun held hstopping => hdiffers (halike.reader call held hstopping),
              fun hstopping => hdiffers (halike.worker call hstopping)⟩)
          have hsame : stops.set call .executor = stops := by
            obtain ⟨hbound, heq⟩ := List.getElem?_eq_some_iff.mp hother
            rw [← heq]
            exact List.set_getElem_self hbound
          dsimp only at hsets
          rw [hsame] at hsets
          exact .inl hsets

/-- The worker runs `application()` in the session as in the host, with the outcome that the
host's own policy and answers come to. -/
theorem host.Step.session_application (hs : session_inv options h) (halike : alike h.session w)
    {env : application_answers} (hstep : host.Step h (.application env) t) :
    goes_with h (.application env) t w := by
  obtain ⟨stops, heq⟩ : ∃ stops, w = { h.session with stops := stops } := ⟨w.stops, halike.same⟩
  subst heq
  cases hstep with
  | @application item _ hworker hcall =>
      -- the worker is in a call, so there is an executor and the session has it
      have hthere : h.executor_ ≠ .absent := by
        intro habsent
        have hu := hs.unpublished (by rw [habsent]; nofun)
        cases hu.call.symm.trans hcall
      rw [host.session_of_executor hthere] at halike ⊢
      have hkeeps : ∀ reply, alike { h.world with call := .replying reply }
          { h.world with call := .replying reply, stops := stops } := fun reply =>
        halike.works rfl rfl fun _ hc => by cases hc
      rw [goes_with]
      cases houtcome : (SynapseMcp.application h.world.server env item.call.req
          ⟨h.policy_, []⟩).2 with
      | returned reply =>
          refine ⟨_, _, .application (some reply) hworker hcall, ?_,
            fun configured hhook => ⟨trivial, fun other hother => ?_⟩⟩
          · rw [host.session_of_executor (by exact hthere)]
            exact hkeeps reply
          · cases hworker.symm.trans hother
            exact ⟨env, h.policy_, hhook, by rw [houtcome]⟩
      -- an exception is caught in the worker, and the reply is the general error
      | threw =>
          refine ⟨_, _, .application none hworker hcall, ?_,
            fun configured hhook => ⟨trivial, fun other hother => ?_⟩⟩
          · rw [host.session_of_executor (by exact hthere)]
            exact hkeeps _
          · cases hworker.symm.trans hother
            exact ⟨env, h.policy_, hhook, by rw [houtcome]⟩

/-- The steps of the host, one by one. Those of the owner and of the transport's `start` are
seen by the session only where they make or stop the executor. -/
theorem host.Step.session (hs : session_inv options h) (hi : lifecycle_inv h) (hbegun : h.begun)
    (hbegun' : t.begun) (halike : alike h.session w) (hstep : host.Step h a t) :
    alike t.session w ∨ goes_with h a t w := by
  have hstate : h.state_ ≠ .configuring := by
    intro hconfiguring
    obtain ⟨habsent, -, hcreating⟩ := hi.configuring hconfiguring
    exact hbegun.elim hcreating fun hexecutor => hexecutor habsent
  have hexecutor : h.owner ≠ .creating → h.executor_ ≠ .absent := fun howner =>
    hbegun.elim (fun hcreating => absurd hcreating howner) id
  have ho := hi.owner
  unfold host.owner_ok at ho
  by_cases hstop : a = .stop
  · subst hstop
    exact hstep.session_stop hs halike
  by_cases happlication : ∃ env, a = .application env
  · obtain ⟨env, rfl⟩ := happlication
    exact .inr (hstep.session_application hs halike)
  obtain ⟨stops, heq⟩ : ∃ stops, w = { h.session with stops := stops } := ⟨w.stops, halike.same⟩
  subst heq
  have hwaits : ∀ b, h.executor_ ≠ .absent → h.world.run.executor.finished_ = true →
      goes_with h b { h.set_state .stopped with owner := .idle }
        { h.session with stops := stops } := by
    intro b hthere hfinished
    refine ⟨_, _, .wait_returns ?_, halike.unmoved rfl rfl rfl,
      fun _ _ => ⟨trivial, trivial⟩⟩
    rw [host.session_of_executor hthere]
    exact hfinished
  cases hstep with
  | register r =>
      have hrefused : h.world.server.register r = (h.world.server, .error registration_frozen) :=
        registration_refused hstate r
      left
      unfold host.session host.session_run
      dsimp only
      rw [hrefused]
      exact halike
  | start_invalid _ hconfiguring | start_enters _ hconfiguring => exact absurd hconfiguring hstate
  | create_throws howner =>
      -- no executor, so no session any more
      rw [howner] at ho
      rcases hbegun' with hcleaning | habsent
      · cases hcleaning
      · exact absurd ho.1 habsent
  | create howner =>
      -- the session had it all along
      rw [howner] at ho
      have hrun : h.session_run = .make h.options_.max_pending_requests := if_pos ho.1
      have hsession : host.session
          { h with
            world := { h.world with run := .make h.options_.max_pending_requests }
            executor_ := .made
            owner := .publishing } = h.session := by
        unfold host.session
        rw [hrun]
        rfl
      rw [hsession]
      exact .inl halike
  | publish howner =>
      have hmade := hexecutor (by rw [howner]; nofun)
      have hsession : host.session { h with executor_ := .published, owner := .launching } =
          h.session := by
        rw [host.session_of_executor hmade]
        rfl
      rw [hsession]
      exact .inl halike
  | publish_interrupted howner =>
      have hmade := hexecutor (by rw [howner]; nofun)
      refine .inr (goes_with_calls halike ?_)
      rw [host.session_of_executor hmade]
      rfl
  | transport_start_fails | transport_start_throws | commit_interrupted =>
      exact .inr (goes_with_calls halike rfl)
  | commit howner hstarting =>
      exact .inr ⟨_, _, .start_commits hstarting,
        halike.unmoved rfl rfl rfl, fun _ _ => ⟨trivial, trivial⟩⟩
  | wait_returns howner =>
      have hthere := hexecutor (by rw [howner]; nofun)
      rw [howner] at ho
      exact .inr (hwaits _ hthere ho.2)
  | cleanup_ends howner =>
      have hthere := hexecutor (by rw [howner]; nofun)
      rw [howner] at ho
      exact .inr (hwaits _ hthere ho.2.2.2)
  | deliver wire hstarted hreader =>
      exact .inr ⟨_, _, .deliver wire hreader,
        halike.reads rfl (fun _ _ hc => by cases hc) rfl, fun _ _ => ⟨trivial, trivial⟩⟩
  | @serve b v hserved hthere hworld =>
      rw [host.session_of_executor hthere] at halike ⊢
      obtain ⟨u, hu, hsame⟩ := halike.serve hserved hworld
      refine .inr ⟨b, u, hu, ?_, fun configured hquiet => ?_⟩
      · rwa [host.session_of_executor (h := { h with world := v }) hthere]
      · cases b <;> first | exact ⟨hquiet, trivial⟩ | cases hserved
  | application env => exact absurd ⟨env, rfl⟩ happlication
  | call_stop => exact .inr (goes_with_calls halike rfl)
  | stop_server | stop_executor | stop_cleans | stop_transport => exact absurd rfl hstop
  | _ => exact .inl halike

theorem alike.refl (w : SynapseMcp.world) : alike w w :=
  ⟨rfl, List.forall₂_same.mpr fun call _ => .same call, fun _ _ _ => rfl, fun _ _ => rfl⟩

section Follows

variable {C : host → host_action → Prop} {D : SynapseMcp.world → server_action → Prop}

/-- A session in which `stop()` was called, and nothing else. -/
theorem reaches_called {limit : Nat} (hlimit : 0 < limit) (hcalls : ∀ w, D w .call_stop)
    (info : server_info) (resources : List (String × resource))
    (prompts : List (String × prompt)) (tools : List (String × tool)) (calls : Nat) :
    ((server_runs limit).restrict D).Reachable
      ⟨.started info resources prompts tools, .make limit, .idle, .outside,
        .replicate calls .entered, []⟩ := by
  induction calls with
  | zero => exact .of_init ⟨hlimit, info, resources, prompts, tools, rfl⟩
  | succ calls ih =>
      have hstep := ih.step (a := server_action.call_stop) ⟨hcalls _, world.Step.call_stop _⟩
      rwa [← List.replicate_succ'] at hstep

/-- What `start()` begins is a session from its start: the tables of a configured server, no
operation, and the calls of `stop()` that came before are entered again. -/
theorem session_inv.begins (hs : session_inv options h) (hi : lifecycle_inv h)
    (hcalls : ∀ w, D w .call_stop) (hstate : h.state_ = .configuring)
    (hvalid : h.options_.valid h.info_ = true) :
    ((server_runs options.max_pending_requests).restrict D).Reachable
      (host.session { h.set_state .starting with owner := .creating }) := by
  obtain ⟨habsent, -, -⟩ := hi.configuring hstate
  have hu := hs.unpublished (by rw [habsent]; nofun)
  obtain ⟨⟨info, resources, prompts, tools, hserver⟩, hstops⟩ := hs.blank hstate
  have hreached := reaches_called (server_options.valid.limit hvalid) hcalls info resources
    prompts tools h.world.stops.length
  rw [← List.eq_replicate_of_mem hstops] at hreached
  have hsession : host.session { h.set_state .starting with owner := .creating } =
      ⟨.started info resources prompts tools, .make h.options_.max_pending_requests, .idle,
        .outside, h.world.stops, []⟩ := by
    unfold host.session host.session_run host.set_state
    rw [if_pos habsent]
    simp only [hu.reader, hu.call, hu.log, hserver]
    rfl
  rw [hsession, ← hs.configured]
  exact hreached

/-- From `start()` on a host is in a session with the limit of its options; what its steps
are restricted to may restrict the session. -/
theorem host_follows (hcalls : ∀ w, D w .call_stop)
    (hsteps : ∀ h a w b, C h a →
      (∀ configured, session_step configured h a → no_throws w b ∧ applies configured w b) →
      D w b) :
    System.Following ((host_runs info options).restrict C)
      ((server_runs options.max_pending_requests).restrict D) host.begun
      fun h w => alike h.session w where
  init := by
    rintro h rfl (hcreating | hexecutor)
    · cases hcreating
    · exact absurd rfl hexecutor
  begins := by
    intro h a t hr hnot hstep hbegun
    have hr' := System.restrict_reachable hr
    have hs := host_session_inv hr'
    rcases hstep.2.begins (host_lifecycle hr') hbegun with hwas | ⟨hstate, hvalid, rfl⟩
    · exact absurd hwas hnot
    · exact ⟨_, hs.begins (host_lifecycle hr') hcalls hstate hvalid, alike.refl _⟩
  step := by
    intro h a t w hr hw hbegun halike hstep hbegun'
    have hr' := System.restrict_reachable hr
    rcases hstep.2.session (host_session_inv hr') (host_lifecycle hr') hbegun hbegun' halike with
      hsame | ⟨b, v, hb, hsame, hquiet⟩
    · exact ⟨w, .refl, hsame⟩
    · exact ⟨v, .single ⟨b, hsteps h a w b hstep.1 hquiet, hb⟩, hsame⟩

end Follows

/-! ### Runs

With the single step in place the runs follow by the rule on following systems: the host reaches
a state only if the session reaches one it is alike to, in which the frames, the log and the
tables are the same.

Nothing of the log or the tables is lost on the way: the world of the session is that of the
host but for its list of calls of `stop()`, so what is proved of sessions is read off the host's
own fields. -/

/-- The runs of a host in which neither the encoder nor the transport throws, with or without
a hook. -/
def host_sessions (info : raw_info) (options : server_options) (configured : Bool) :
    System host host_action := (host_runs info options).restrict (session_step configured)

/-- So every run of a host from `start()` on is followed by a run of a session. -/
theorem host_follows_session (configured : Bool) :
    System.Following (host_sessions info options configured)
      (session_runs options.max_pending_requests configured) host.begun
      fun h w => alike h.session w :=
  host_follows (fun _ => ⟨trivial, trivial⟩) fun _ _ _ _ hC hquiet => hquiet configured hC

/-- Whatever is registered, and whenever `start()`, `stop()` and the waits are called, fail or
throw: until an executor is there the host has received and passed on nothing, and then it is
where a session with the limit of its options can be, the same to the last field but for the
calls of `stop()` that found no executor. -/
theorem host_in_session (hr : (host_runs info options).Reachable h) :
    (h.executor_ = .absent → h.world.log = [] ∧ h.world.reader = .idle ∧
      h.world.call = .outside) ∧
    (h.executor_ ≠ .absent →
      ∃ w, (server_runs options.max_pending_requests).Reachable w ∧
        w = { h.world with stops := w.stops } ∧
        List.Forall₂ stop_follows h.world.stops w.stops) := by
  constructor
  · intro habsent
    have hu := (host_session_inv hr).unpublished (by rw [habsent]; nofun)
    exact ⟨hu.log, hu.reader, hu.call⟩
  · intro hexecutor
    have hfollows : System.Following ((host_runs info options).restrict fun _ _ => True)
        ((server_runs options.max_pending_requests).restrict fun _ _ => True) host.begun
        fun h w => alike h.session w :=
      host_follows (fun _ => trivial) fun _ _ _ _ _ _ => trivial
    obtain ⟨w, hw, halike⟩ := hfollows.reachable (System.restrict_free (fun _ _ => trivial) hr)
      (.inr hexecutor)
    rw [host.session_of_executor hexecutor] at halike
    exact ⟨w, System.restrict_reachable hw, halike.same, halike.stops⟩

end Session

/-- The transport refused to start, and the cleanup stopped the server. -/
theorem host_in_session_cleaned :
    ∃ w, (server_runs 16).Reachable w ∧
      w = { start_session.cleaned.world with stops := w.stops } ∧
      List.Forall₂ stop_follows [.returned] w.stops :=
  (host_in_session start_session.reaches_cleaned).2 nofun

end SynapseMcp
