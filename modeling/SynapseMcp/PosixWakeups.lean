/-
No stop of a POSIX operation is lost, and no byte in a pipe stops one.

From the load that found the flag unset until `poll` returns, nothing takes a byte out of the
operation's pipe. So a flag that is set in between has its byte in the pipe by then, or the byte is
still to be written. `drain` may take the bytes of many, but each of them has set its flag before,
and the loads after `drain` see it. `operation.fits` is this with the states of `notify`, and all
runs keep it.
-/
import SynapseMcp.PosixStdio

set_option autoImplicit false

namespace SynapseMcp.posix_stdio

open Transition

/-! ## What is known of an operation

An operation goes from a load of the flag to a load of its token and to `poll`. What is kept for
it is, at each of these places, what those before have found, and that whatever has changed
since is on its way as a byte: `heard` for the flag, the state of `notify` for the token. The
two must be kept apart. The flag has one thread that writes both pipes; a token has its
callbacks called one by one, and `callback_fits` says how far that has come for this operation.

`heard` is about the flag: a byte is in the pipe, or a thread that has set the flag has this
direction still on its list. `armed` is about the token: unless a stop had been requested by
then a callback is registered, and a later stop is the callback's to report. -/

/-- After a write the pipe is not empty, whether the byte still fitted or not. -/
theorem wake_pos (spare bytes : Nat) : 0 < wake spare bytes := by
  unfold wake
  split <;> omega

/-- What `notify` and the ones in `request_stop` of its token know of each other. -/
structure callback_fits (tokens : Nat → Bool) (stoppers : Nat → stopper) (d : direction)
    (token : Option Nat) (notify : callback) : Prop where
  registered : notify = .registered → stop_requested tokens token = true →
    ∃ k, token = some k ∧ stoppers k ≠ .outside
  running : notify = .running → ∃ k, token = some k ∧ stoppers k = .calling d
  called : ∀ k, stoppers k = .calling d → notify = .running ∧ token = some k
  requested : notify = .running ∨ notify = .done → stop_requested tokens token = true

/-- A byte is in the pipe, or a thread in `request_stop` is to write one. -/
def heard (wakers : List waker) (d : direction) (bytes : Nat) : Prop :=
  0 < bytes ∨ ∃ w ∈ wakers, w.stop = true ∧ d ∈ w.rest

/-- Where `notify` has not been registered, the token was stopped before. -/
def armed (requested : Bool) (notify : callback) : Prop := notify = .none → requested = true

/-- What is known of an operation, by where it is. -/
def point_fits (stopped requested : Bool) (wakers : List waker) (d : direction) (bytes : Nat)
    (notify : callback) (fault : Bool) : point → Prop
  | .idle => notify = .none
  | .entered => notify = .none
  | .notifying => notify = .none ∧ requested = true
  | .load_token => armed requested notify ∧ (stopped = true → heard wakers d bytes)
  | .polling => (stopped = true → heard wakers d bytes) ∧ notify ≠ .none ∧
      (notify = .done → 0 < bytes)
  | .leaving .stopped => armed requested notify ∧ (stopped = true ∨ requested = true)
  | .leaving (.failure _) => armed requested notify ∧ fault = true
  | _ => armed requested notify

/-- All that is known of an operation: its callback, and where it is. -/
structure operation.fits (stopped : Bool) (tokens : Nat → Bool) (stoppers : Nat → stopper)
    (wakers : List waker) (d : direction) (bytes : Nat) (o : operation) : Prop where
  callback : callback_fits tokens stoppers d o.token o.notify
  point : point_fits stopped (stop_requested tokens o.token) wakers d bytes o.notify o.fault o.point

variable {spare : Nat} {stopped : Bool} {tokens : Nat → Bool} {stoppers : Nat → stopper}
  {wakers : List waker} {d : direction} {bytes bytes' : Nat} {o o' : operation}

/-- A registered callback leaves nothing to be known of the token. -/
theorem armed_of_ne {requested : Bool} {notify : callback} (h : notify ≠ .none) :
    armed requested notify := fun hnone => absurd hnone h

/-- Where an operation begins there is no more to know of it. -/
theorem point_fits_begins {requested fault : Bool} {notify : posix_stdio.callback}
    (h : armed requested notify) :
    point_fits stopped requested wakers d bytes notify fault d.begins := by
  cases d <;> exact h

/-- `notify` can be gone only where no one is in its function. -/
theorem callback_fits.gone {token : Option Nat} {notify : callback} (token' : Option Nat)
    (h : callback_fits tokens stoppers d token notify) (hnotify : notify ≠ .running) :
    callback_fits tokens stoppers d token' .none := by
  refine ⟨nofun, nofun, ?_, by simp⟩
  intro k hk
  exact absurd (h.called k hk).1 hnotify

/-- A callback can be registered while the token is not stopped, and nobody is in it then. -/
theorem callback_fits.registers {token : Option Nat}
    (h : callback_fits tokens stoppers d token .none)
    (htoken : stop_requested tokens token = false) :
    callback_fits tokens stoppers d token .registered := by
  refine ⟨?_, nofun, ?_, by simp⟩
  · intro _ hrequested
    rw [htoken] at hrequested
    cases hrequested
  · intro k hk
    cases (h.called k hk).1

/-- A step of the operation itself keeps what is known at its place: each load is followed by a
place at which its result is remembered, and `drain` by the loads that see what it took. -/
theorem operation.fits.step (h : o.fits stopped tokens stoppers wakers d bytes)
    (hstep : operation.Step spare d stopped tokens bytes o bytes' o') :
    o'.fits stopped tokens stoppers wakers d bytes' := by
  obtain ⟨hcallback, hpt⟩ := h
  cases hstep with
  | start token hidle =>
      rw [hidle] at hpt
      have hnone : o.notify = .none := hpt
      exact ⟨hcallback.gone token (by simp [hnone]), rfl⟩
  | register hpoint htoken =>
      rw [hpoint] at hpt
      have hnone : o.notify = .none := hpt
      rw [hnone] at hcallback
      exact ⟨hcallback.registers htoken, point_fits_begins (armed_of_ne (by simp))⟩
  | notify_begins hpoint htoken =>
      rw [hpoint] at hpt
      exact ⟨hcallback, hpt, htoken⟩
  | notify_wakes hpoint =>
      rw [hpoint] at hpt
      exact ⟨hcallback, point_fits_begins fun _ => hpt.2⟩
  | guard hpoint =>
      rw [hpoint] at hpt
      exact ⟨hcallback, hpt⟩
  | guard_fails hpoint =>
      rw [hpoint] at hpt
      exact ⟨hcallback, hpt, rfl⟩
  | is_stopped hpoint hstop =>
      rw [hpoint] at hpt
      exact ⟨hcallback, hpt, .inl hstop⟩
  | not_stopped hpoint hstop =>
      -- the flag is not set, so there is nothing to hear of yet
      rw [hpoint] at hpt
      refine ⟨hcallback, hpt, ?_⟩
      intro hset
      rw [hstop] at hset
      cases hset
  | is_requested hpoint htoken =>
      rw [hpoint] at hpt
      exact ⟨hcallback, hpt.1, .inr htoken⟩
  | not_requested hpoint htoken =>
      -- the token is not stopped, so `notify` is registered
      rw [hpoint] at hpt
      refine ⟨hcallback, hpt.2, ?_, ?_⟩
      · intro hnone
        have hset := hpt.1 hnone
        rw [htoken] at hset
        cases hset
      · intro hdone
        have hset := hcallback.requested (.inr hdone)
        rw [htoken] at hset
        cases hset
  | poll_interrupted hpoint =>
      rw [hpoint] at hpt
      exact ⟨hcallback, armed_of_ne hpt.2.1⟩
  | poll_fails hpoint =>
      rw [hpoint] at hpt
      exact ⟨hcallback, armed_of_ne hpt.2.1, rfl⟩
  | poll_woken seen hpoint hbytes =>
      rw [hpoint] at hpt
      exact ⟨hcallback, armed_of_ne hpt.2.1⟩
  | poll_returns seen hpoint hbytes =>
      rw [hpoint] at hpt
      exact ⟨hcallback, armed_of_ne hpt.2.1⟩
  | drain hpoint hbytes =>
      rw [hpoint] at hpt
      have harmed : armed (stop_requested tokens o.token) o.notify := hpt
      refine ⟨hcallback, ?_⟩
      rw [hpoint]
      exact harmed
  | drained hpoint hbytes =>
      rw [hpoint] at hpt
      exact ⟨hcallback, hpt⟩
  | now_stopped hpoint hstop =>
      rw [hpoint] at hpt
      exact ⟨hcallback, hpt, .inl hstop⟩
  | still_not_stopped hpoint hstop =>
      rw [hpoint] at hpt
      exact ⟨hcallback, hpt⟩
  | now_requested hpoint htoken =>
      rw [hpoint] at hpt
      exact ⟨hcallback, hpt, .inr htoken⟩
  | endpoint_invalid hpoint htoken =>
      rw [hpoint] at hpt
      exact ⟨hcallback, hpt, rfl⟩
  | endpoint_ready hpoint htoken =>
      rw [hpoint] at hpt
      exact ⟨hcallback, hpt⟩
  | endpoint_other hpoint htoken =>
      rw [hpoint] at hpt
      exact ⟨hcallback, hpt⟩
  | transfer count hpoint =>
      rw [hpoint] at hpt
      exact ⟨hcallback, hpt⟩
  | transfer_again hpoint =>
      rw [hpoint] at hpt
      exact ⟨hcallback, hpt⟩
  | transfer_fails message hpoint =>
      rw [hpoint] at hpt
      exact ⟨hcallback, hpt, rfl⟩
  | leave hpoint hnotify => exact ⟨hcallback.gone o.token hnotify, rfl⟩

/-! ## Steps of the others

A thread that stops, cancels or writes a byte does not move the operation. Most of what is known
then stays because flags are only set and bytes only added, which `point_fits.mono` says for
every place at once. What needs more is `drain`, but that is a step of the operation itself:
only the operation takes bytes out of its pipe, and it is not in `poll` then. -/

/-- What stays known when flags are set and bytes are written. -/
theorem point_fits.mono {stopped' requested requested' fault : Bool} {wakers' : List waker}
    {notify notify' : posix_stdio.callback} {p : posix_stdio.point}
    (h : point_fits stopped requested wakers d bytes notify fault p)
    (hstops : stopped = true → stopped' = true)
    (hnew : stopped' = true → stopped = true ∨ heard wakers' d bytes')
    (hrequested : requested = true → requested' = true)
    (hheard : heard wakers d bytes → heard wakers' d bytes')
    (hnone : notify' = .none ↔ notify = .none)
    (hdone : notify' = .done → 0 < bytes' ∨ notify = .done) (hbytes : 0 < bytes → 0 < bytes') :
    point_fits stopped' requested' wakers' d bytes' notify' fault p := by
  have harmed : armed requested notify → armed requested' notify' :=
    fun harmed hgone => hrequested (harmed (hnone.mp hgone))
  have hflag : (stopped = true → heard wakers d bytes) →
      stopped' = true → heard wakers' d bytes' := by
    intro hold hset
    rcases hnew hset with hset' | hheard'
    · exact hheard (hold hset')
    · exact hheard'
  cases p with
  | idle => exact hnone.mpr h
  | entered => exact hnone.mpr h
  | notifying => exact ⟨hnone.mpr h.1, hrequested h.2⟩
  | load_token => exact ⟨harmed h.1, hflag h.2⟩
  -- where it matters: in `poll` the flag may be set and the callback may have run
  | polling =>
      refine ⟨hflag h.1, fun hgone => h.2.1 (hnone.mp hgone), ?_⟩
      intro hset
      rcases hdone hset with hpos | hold
      · exact hpos
      · exact hbytes (h.2.2 hold)
  | leaving result =>
      cases result with
      | count n => exact harmed h
      | stopped => exact ⟨harmed h.1, h.2.imp hstops hrequested⟩
      | failure message => exact ⟨harmed h.1, h.2⟩
  | _ => exact harmed h

/-- One more thread that writes does not take the others away. -/
theorem heard.grow {w : waker} (h : heard wakers d bytes) : heard (wakers ++ [w]) d bytes := by
  rcases h with hpos | ⟨v, hv, hstop, hd⟩
  · exact .inl hpos
  · exact .inr ⟨v, List.mem_append_left _ hv, hstop, hd⟩

/-- The flag is set, by a thread that has all its bytes yet to write. -/
theorem heard_new : heard (wakers ++ [⟨true, [.read, .write]⟩]) d bytes := by
  refine .inr ⟨_, List.mem_append_right _ (List.mem_singleton_self _), rfl, ?_⟩
  cases d <;> simp

/-- A byte that is written to the pipe of the other direction leaves what is known of this one
as it is. -/
theorem heard.other {d' : direction} {stop : Bool} {rest : List direction}
    {before after : List waker} (h : heard (before ++ ⟨stop, d' :: rest⟩ :: after) d bytes)
    (hd : d ≠ d') : heard (before ++ ⟨stop, rest⟩ :: after) d bytes := by
  rcases h with hpos | ⟨v, hv, hstop, hmem⟩
  · exact .inl hpos
  · refine .inr ?_
    rcases List.mem_append.mp hv with hold | hv
    · exact ⟨v, List.mem_append_left _ hold, hstop, hmem⟩
    rcases List.mem_cons.mp hv with rfl | hold
    · refine ⟨⟨stop, rest⟩, List.mem_append_right _ List.mem_cons_self, hstop, ?_⟩
      exact (List.mem_cons.mp hmem).resolve_left hd
    · exact ⟨v, List.mem_append_right _ (List.mem_cons_of_mem _ hold), hstop, hmem⟩

/-- A token that was stopped stays stopped, whichever token is stopped next. -/
theorem stop_requested_set {token : Option Nat} (k : Nat)
    (h : stop_requested tokens token = true) :
    stop_requested (Function.update tokens k true) token = true := by
  cases token with
  | none => cases h
  | some j =>
      by_cases hj : j = k
      · simp [stop_requested, hj]
      · simpa [stop_requested, hj] using h

/-- The token is stopped for the first time. Whoever stops it runs the registered callbacks
next, so the callback is still to come and not forgotten. -/
theorem callback_fits.stop {token : Option Nat} {notify : callback} {k : Nat}
    (h : callback_fits tokens stoppers d token notify) (hfirst : tokens k = false) :
    callback_fits (Function.update tokens k true) (Function.update stoppers k .between) d token
      notify := by
  obtain ⟨hregistered, hrunning, hcalled, hrequested⟩ := h
  refine ⟨?_, ?_, ?_, fun hor => stop_requested_set k (hrequested hor)⟩
  · intro hreg hset
    cases token with
    | none => cases hset
    | some j =>
        refine ⟨j, rfl, ?_⟩
        by_cases hj : j = k
        · simp [hj]
        · have hset' : tokens j = true := by simpa [stop_requested, hj] using hset
          obtain ⟨i, hi, hout⟩ := hregistered hreg hset'
          cases hi
          simpa [hj] using hout
  · intro hrun
    obtain ⟨j, hj, hcall⟩ := hrunning hrun
    refine ⟨j, hj, ?_⟩
    have hset := hrequested (.inl hrun)
    rw [hj] at hset
    -- a callback that runs belongs to a token that was stopped before
    have hne : j ≠ k := by
      rintro rfl
      rw [stop_requested, hfirst] at hset
      cases hset
    rwa [Function.update_of_ne hne]
  · intro j hj
    by_cases hjk : j = k
    · simp [hjk] at hj
    · exact hcalled j (by rwa [Function.update_of_ne hjk] at hj)

/-- The one who stops token `k` goes on, and is not at this operation. -/
theorem callback_fits.moves {token : Option Nat} {notify : callback} {k : Nat} {next : stopper}
    (h : callback_fits tokens stoppers d token notify) (hold : stoppers k ≠ .calling d)
    (hnext : next ≠ .calling d)
    (hleft : next = .outside → token = some k → notify ≠ .registered) :
    callback_fits tokens (Function.update stoppers k next) d token notify := by
  obtain ⟨hregistered, hrunning, hcalled, hrequested⟩ := h
  refine ⟨?_, ?_, ?_, hrequested⟩
  · intro hreg hset
    obtain ⟨j, hj, hout⟩ := hregistered hreg hset
    refine ⟨j, hj, ?_⟩
    by_cases hjk : j = k
    · subst hjk
      rw [Function.update_self]
      exact fun heq => hleft heq hj hreg
    · rwa [Function.update_of_ne hjk]
  · intro hrun
    obtain ⟨j, hj, hcall⟩ := hrunning hrun
    refine ⟨j, hj, ?_⟩
    have hne : j ≠ k := by
      rintro rfl
      exact hold hcall
    rwa [Function.update_of_ne hne]
  · intro j hj
    by_cases hjk : j = k
    · subst hjk
      rw [Function.update_self] at hj
      exact absurd hj hnext
    · exact hcalled j (by rwa [Function.update_of_ne hjk] at hj)

/-- The one who stops the token enters the function of `notify`. -/
theorem callback_fits.call {token : Option Nat} {k : Nat}
    (h : callback_fits tokens stoppers d token .registered) (htoken : token = some k)
    (hset : tokens k = true) :
    callback_fits tokens (Function.update stoppers k (.calling d)) d token .running := by
  refine ⟨nofun, fun _ => ⟨k, htoken, Function.update_self ..⟩, ?_, ?_⟩
  · intro j hj
    by_cases hjk : j = k
    · exact ⟨rfl, hjk ▸ htoken⟩
    · rw [Function.update_of_ne hjk] at hj
      cases (h.called j hj).1
  · intro _
    rw [htoken]
    exact hset

/-- It returns from there, and nobody else was in it. -/
theorem callback_fits.done {token : Option Nat} {notify : callback} {k : Nat}
    (h : callback_fits tokens stoppers d token notify) (hk : stoppers k = .calling d)
    (hset : tokens k = true) :
    callback_fits tokens (Function.update stoppers k .between) d token .done := by
  obtain ⟨hrunning, htoken⟩ := h.called k hk
  refine ⟨nofun, nofun, ?_, ?_⟩
  · intro j hj
    by_cases hjk : j = k
    · simp [hjk] at hj
    · rw [Function.update_of_ne hjk] at hj
      have hother := (h.called j hj).2
      rw [htoken] at hother
      exact absurd (Option.some.inj hother).symm hjk
  · intro _
    rw [htoken]
    exact hset

/-! ## Runs

The invariant is `operation.fits` for both directions, and that the callbacks of a token are run
by the thread that set it. Each step concerns one operation at most; for the other one the
lemmas above are used with nothing changed.

What is read off the invariant at the end are three facts. In `poll`, a stop that was requested
has its byte there, or somebody who is about to write it. An operation that leaves as stopped
was stopped. And one that leaves with an error has met one. -/

/-- Both operations fit the state they are in. -/
structure state.wf (s : state) : Prop where
  ops : ∀ d, (s.ops d).fits s.stopped s.tokens s.stoppers s.wakers d (s.bytes d)
  /-- Only who set a token runs its callbacks. -/
  stoppers : ∀ k, s.stoppers k ≠ .outside → s.tokens k = true

/-- Nothing is stopped, and no operation has begun. -/
theorem wf_make : state.make.wf :=
  ⟨fun _ => ⟨⟨nofun, nofun, nofun, by simp [state.make]⟩, rfl⟩, fun _ hne => absurd rfl hne⟩

/-- The one who stops a token that is set goes on. -/
theorem stoppers_update {k : Nat} {next : stopper}
    (h : ∀ k, stoppers k ≠ .outside → tokens k = true)
    (hset : tokens k = true ∨ next = .outside) (j : Nat)
    (hout : Function.update stoppers k next j ≠ .outside) : tokens j = true := by
  by_cases hj : j = k
  · subst hj
    rw [Function.update_self] at hout
    exact hset.resolve_right hout
  · rw [Function.update_of_ne hj] at hout
    exact h j hout

/-- A step of an operation, of a thread that stops both, or of one that stops a token. -/
theorem state.wf.step {s s' : state} {a : Unit} (h : s.wf) (hstep : state.Step spare s a s') :
    s'.wf := by
  obtain ⟨hops, hstoppers⟩ := h
  cases hstep with
  | @operation b o d hstep =>
      refine ⟨?_, hstoppers⟩
      intro d'
      by_cases hd : d' = d
      · subst hd
        simp only [Function.update_self]
        exact (hops d').step hstep
      · simp only [Function.update_of_ne hd]
        exact hops d'
  | request_stop =>
      refine ⟨fun d => ⟨(hops d).callback, ?_⟩, hstoppers⟩
      exact (hops d).point.mono (fun _ => rfl) (fun _ => .inr heard_new) id heard.grow Iff.rfl
        .inr id
  | cancel_pending =>
      refine ⟨fun d => ⟨(hops d).callback, ?_⟩, hstoppers⟩
      exact (hops d).point.mono id .inl id heard.grow Iff.rfl .inr id
  -- the byte is in the pipe now, which is as good as a thread about to write it
  | @wake stop d rest before after hwakers =>
      refine ⟨fun d' => ⟨(hops d').callback, ?_⟩, hstoppers⟩
      by_cases hd : d' = d
      · subst hd
        simp only [Function.update_self]
        have hpos := wake_pos spare (s.bytes d')
        exact (hops d').point.mono id .inl id (fun _ => .inl hpos) Iff.rfl .inr fun _ => hpos
      · simp only [Function.update_of_ne hd]
        refine (hops d').point.mono id .inl id ?_ Iff.rfl .inr id
        rw [hwakers]
        exact fun hheard => hheard.other hd
  | @stop_token k hfirst =>
      refine ⟨fun d => ⟨(hops d).callback.stop hfirst, ?_⟩, ?_⟩
      · exact (hops d).point.mono id .inl (stop_requested_set k) id Iff.rfl .inr id
      · intro j hout
        by_cases hj : j = k
        · simp [hj]
        · dsimp only at hout ⊢
          rw [Function.update_of_ne hj] at hout ⊢
          exact hstoppers j hout
  | @call k d hstopper htoken hnotify =>
      have hset : s.tokens k = true := hstoppers k (by simp [hstopper])
      refine ⟨?_, ?_⟩
      · intro d'
        by_cases hd : d' = d
        · subst hd
          simp only [Function.update_self]
          have hregistered := (hops d').callback
          rw [hnotify] at hregistered
          refine ⟨hregistered.call htoken hset, ?_⟩
          refine (hops d').point.mono id .inl id id ?_ nofun id
          rw [hnotify]
          simp
        · simp only [Function.update_of_ne hd]
          refine ⟨(hops d').callback.moves ?_ ?_ nofun, (hops d').point⟩
          · rw [hstopper]
            simp
          · simpa using Ne.symm hd
      · exact stoppers_update hstoppers (.inl hset)
  | @called k d hstopper =>
      have hset : s.tokens k = true := hstoppers k (by simp [hstopper])
      have hrunning := ((hops d).callback.called k hstopper).1
      refine ⟨?_, ?_⟩
      · intro d'
        by_cases hd : d' = d
        · subst hd
          simp only [Function.update_self]
          have hpos := wake_pos spare (s.bytes d')
          refine ⟨(hops d').callback.done hstopper hset, ?_⟩
          refine (hops d').point.mono id .inl id (fun _ => .inl hpos) ?_ (fun _ => .inl hpos)
            fun _ => hpos
          rw [hrunning]
          simp
        · simp only [Function.update_of_ne hd]
          refine ⟨(hops d').callback.moves ?_ nofun nofun, (hops d').point⟩
          rw [hstopper]
          simpa using Ne.symm hd
      · exact stoppers_update hstoppers (.inl hset)
  | @stop_returns k hstopper hnone =>
      refine ⟨fun d => ⟨(hops d).callback.moves ?_ nofun fun _ => hnone d, (hops d).point⟩, ?_⟩
      · rw [hstopper]
        simp
      · exact stoppers_update hstoppers (.inr rfl)

/-- So every state of a run fits. -/
theorem wf_reachable {s : state} (h : (stdio_runs spare).Reachable s) : s.wf := by
  refine h.invariant (P := state.wf) ?_ ?_
  · rintro _ rfl
    exact wf_make
  · intro s a t _ hs hstep
    exact hs.step hstep

/-- An operation in `poll` that is to stop finds a byte, or one is about to be written. -/
theorem state.wf.woken {s : state} (h : s.wf) (hpoint : (s.ops d).point = .polling)
    (hset : s.stopped = true ∨ stop_requested s.tokens (s.ops d).token = true)
    (hempty : s.bytes d = 0) : about_to_wake s d := by
  obtain ⟨⟨hregistered, hrunning, -, hrequested⟩, hpt⟩ := h.ops d
  rw [hpoint] at hpt
  obtain ⟨hflag, hnotify, hdone⟩ := hpt
  rcases hset with hstop | htoken
  · rcases hflag hstop with hpos | hwaker
    · omega
    · exact .inl hwaker
  · right
    cases hcase : (s.ops d).notify with
    | none => exact absurd hcase hnotify
    | registered =>
        obtain ⟨k, hk, hout⟩ := hregistered hcase htoken
        exact ⟨k, hk, .inr ⟨hout, rfl⟩⟩
    | running =>
        obtain ⟨k, hk, hcall⟩ := hrunning hcase
        exact ⟨k, hk, .inl hcall⟩
    -- the callback has run since, and its byte is there
    | done =>
        have hpos := hdone hcase
        omega

/-- In every run and for either direction: an operation in `poll` that is to stop has a byte in
its pipe, or somebody who stopped it is about to write one; it answers that it was stopped only
where the flag or its own token is set; and it fails only where a system call of its own did. -/
theorem no_stop_lost {s : state} (h : (stdio_runs spare).Reachable s) (d : direction) :
    ((s.ops d).point = .polling →
      s.stopped = true ∨ stop_requested s.tokens (s.ops d).token = true →
        s.bytes d = 0 → about_to_wake s d) ∧
    ((s.ops d).point = .leaving .stopped →
      s.stopped = true ∨ stop_requested s.tokens (s.ops d).token = true) ∧
    ∀ message, (s.ops d).point = .leaving (.failure message) → (s.ops d).fault = true := by
  have hwf := wf_reachable h
  refine ⟨fun hpoint hset hempty => hwf.woken hpoint hset hempty, ?_, ?_⟩
  · intro hpoint
    have hpt := (hwf.ops d).point
    rw [hpoint] at hpt
    exact hpt.2
  · intro message hpoint
    have hpt := (hwf.ops d).point
    rw [hpoint] at hpt
    exact hpt.2

/-- A reader is in `poll` when its token is stopped, before the callback has run. -/
theorem no_stop_lost_polling : ∃ s, (stdio_runs 0).Reachable s ∧
    (s.ops .read).point = .polling ∧ stop_requested s.tokens (s.ops .read).token = true ∧
    s.bytes .read = 0 ∧ about_to_wake s .read := by
  have h0 : (stdio_runs 0).Reachable state.make := .of_init rfl
  have h1 := h0.step (state.Step.operation .read (.start (some 0) rfl))
  have h2 := h1.step (state.Step.operation .read (.register rfl rfl))
  have h3 := h2.step (state.Step.operation .read (.not_stopped rfl rfl))
  have h4 := h3.step (state.Step.operation .read (.not_requested rfl rfl))
  have h5 := h4.step (state.Step.stop_token 0 rfl)
  obtain ⟨hwoken, -⟩ := no_stop_lost h5 .read
  exact ⟨_, h5, rfl, rfl, rfl, hwoken rfl (.inr rfl) rfl⟩

end SynapseMcp.posix_stdio
