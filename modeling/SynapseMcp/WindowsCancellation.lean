/-
Cancellation on Windows never reaches another's I/O, nor a handle that is closed.

The fields of a direction belong to the transfer in it: where no transfer has started they are
empty, and from `DuplicateHandle` to `CloseHandle` they name an open handle of the transfer's own
thread. A callback of the transfer runs only while `notify` is there, which is destroyed before the
fields are cleared, so the flag of a direction says something of the token of the transfer that is
in it now. `state.wf` is this, with what the mutex guards, and all runs keep it.
-/
import SynapseMcp.WindowsStdio
import Mathlib.Data.List.Nodup

set_option autoImplicit false

namespace SynapseMcp.windows_stdio

open Transition Function Mutex

/-! ## Who is inside

The mutex of an endpoint is held by one party at a time: a transfer, a thread that runs the
callback of a stop, or a control call of another thread. `inside` reads off the position of a
party whether it holds the mutex. Each kind of step is shown to take it only when it is free and
to give back only its own, so by the library on mutexes at most one party is inside.

The parties are not of a fixed number: there are two transfers, any number of threads that stop
a token, and any number of control calls. The function is therefore over all parties, and a step
is an `Act` of the one that takes it. -/

def point.inside : point → Bool
  | .checking | .refusing | .duplicated | .rechecking | .rechecked _ => true
  | .closing | .clearing | .completed => true
  | .inline c => c.inside
  | _ => false

def stopper.inside : stopper → Bool
  | .calling _ c => c.inside
  | _ => false

def control.inside : control → Bool
  | .locked _ | .cancelling _ => true
  | _ => false

def state.inside (s : state) : party → Bool
  | .transfer d => (s.transfers d).point.inside
  | .stopper k => (s.stoppers k).inside
  | .control i => (s.controls i).inside

/-- A step of a stop callback locks the free mutex, unlocks its own, or stays where it is. -/
theorem callback_point.Step.act {p : party} {d : direction} {s s' : shared}
    {c c' : callback_point} {e : event} (hstep : c.Step p d s e s' c') :
    Act p s.mutex c.inside s'.mutex c'.inside := by
  cases hstep with
  | lock hfree =>
      rw [hfree]
      exact .enter _
  | mark => exact .stay _ _
  | cancel hthread => exact .stay _ _
  | skip hthread => exact .stay _ _
  | unlock => exact .leave _

/-- So does a step of a transfer, point by point. -/
theorem transfer.Step.act {d : direction} {tokens : Nat → Bool} {s s' : shared}
    {t t' : transfer} {e : event} (hstep : t.Step d tokens s e s' t') :
    Act (.transfer d) s.mutex t.point.inside s'.mutex t'.point.inside := by
  cases hstep with
  | lock_check hpoint hfree =>
      rw [hpoint, hfree]
      exact .enter _
  | lock_recheck hpoint hfree =>
      rw [hpoint, hfree]
      exact .enter _
  | lock_complete hpoint hfree =>
      rw [hpoint, hfree]
      exact .enter _
  | refuse hpoint =>
      rw [hpoint]
      exact .leave _
  | unlock_check hpoint =>
      rw [hpoint]
      exact .leave _
  | unlock_stopped hpoint =>
      rw [hpoint]
      exact .leave _
  | unlock_recheck hpoint =>
      rw [hpoint]
      exact .leave _
  | unlock_complete hpoint =>
      rw [hpoint]
      exact .leave _
  | notify_runs hpoint hstep =>
      rw [hpoint]
      exact hstep.act
  | _ hpoint =>
      rw [hpoint]
      exact .stay _ _

/-- The same for a step of a control call: it locks the free mutex, unlocks its own, or stays
where it is. -/
theorem control.Step.act {p : party} {s s' : shared} {c c' : control} {e : event}
    (hstep : c.Step p s e s' c') : Act p s.mutex c.inside s'.mutex c'.inside := by
  cases hstep with
  | lock hfree =>
      rw [hfree]
      exact .enter _
  | unlock => exact .leave _
  | enter stop => exact .stay _ _
  | request_stop => exact .stay _ _
  | cancel_pending => exact .stay _ _
  | cancel hthread hstop => exact .stay _ _
  | skip hskip => exact .stay _ _

/-- Who did not move is where they were. -/
theorem update_point (transfers : direction → transfer) (d d' : direction) (t : transfer)
    (h : t.point = (transfers d).point) :
    (update transfers d t d').point = (transfers d').point := by
  by_cases hd : d' = d
  · rw [hd, update_self, h]
  · rw [update_of_ne hd]

theorem update_stopper (stoppers : Nat → stopper) (k j : Nat) (next : stopper)
    (h : next.inside = (stoppers k).inside) :
    (update stoppers k next j).inside = (stoppers j).inside := by
  by_cases hj : j = k
  · rw [hj, update_self, h]
  · rw [update_of_ne hj]

/-- When nobody comes in or goes out, the same parties are inside. -/
theorem state.inside_same {s s' : state}
    (htransfers : ∀ d, (s'.transfers d).point.inside = (s.transfers d).point.inside)
    (hstoppers : ∀ k, (s'.stoppers k).inside = (s.stoppers k).inside)
    (hcontrols : ∀ i, (s'.controls i).inside = (s.controls i).inside) (p : party) :
    s'.inside p = s.inside p := by
  cases p with
  | transfer d => exact htransfers d
  | stopper k => exact hstoppers k
  | control i => exact hcontrols i

/-- Of all parties exactly the one that takes the step may change whether it is inside; the
others are where they were. -/
theorem state.Step.guards {s s' : state} {e : event} (h : Guards s.shared.mutex s.inside)
    (hstoppers : ∀ k, s.stoppers k ≠ .outside → s.tokens k = true)
    (hstep : state.Step s e s') : Guards s'.shared.mutex s'.inside := by
  -- the ones who only set a token, start or end lock nothing
  have hsame : s'.shared.mutex = s.shared.mutex → (∀ p, s'.inside p = s.inside p) →
      Guards s'.shared.mutex s'.inside := by
    intro hmutex hinside p
    rw [hmutex, hinside p]
    exact h p
  cases hstep with
  | start d token thread hidle hthread =>
      apply hsame rfl
      refine state.inside_same (fun d' => ?_) (fun _ => rfl) (fun _ => rfl)
      by_cases hd : d' = d
      · subst hd
        simp only [update_self, hidle]
        rfl
      · simp only [update_of_ne hd]
  | @transfer e u t d hstep =>
      have hact := hstep.act
      refine h.act (p := .transfer d) ?_ ?_
      · simpa only [state.inside, update_self] using hact
      · intro q hq
        cases q with
        | transfer d' =>
            have hd : d' ≠ d := fun heq => hq (congrArg party.transfer heq)
            simp only [state.inside, update_of_ne hd]
        | stopper k => rfl
        | control i => rfl
  | @control e u c i hstep =>
      have hact := hstep.act
      refine h.act (p := .control i) ?_ ?_
      · simpa only [state.inside, update_self] using hact
      · intro q hq
        cases q with
        | transfer d => rfl
        | stopper k => rfl
        | control j =>
            have hj : j ≠ i := fun heq => hq (congrArg party.control heq)
            simp only [state.inside, update_of_ne hj]
  | stop_token k hfirst =>
      have houtside : s.stoppers k = .outside := by
        by_contra hne
        rw [hstoppers k hne] at hfirst
        cases hfirst
      apply hsame rfl
      exact state.inside_same (fun _ => rfl)
        (fun j => update_stopper _ _ _ _ (by rw [houtside]; rfl)) (fun _ => rfl)
  | @call k d hstopper htoken hnotify =>
      apply hsame rfl
      exact state.inside_same (fun d' => congrArg point.inside (update_point _ _ _ _ rfl))
        (fun j => update_stopper _ _ _ _ (by rw [hstopper]; rfl)) (fun _ => rfl)
  | @callback e u k d c c' hstopper hstep =>
      have hact := hstep.act
      refine h.act (p := .stopper k) ?_ ?_
      · simp only [state.inside, update_self, hstopper]
        exact hact
      · intro q hq
        cases q with
        | transfer d => rfl
        | stopper j =>
            have hj : j ≠ k := fun heq => hq (congrArg party.stopper heq)
            simp only [state.inside, update_of_ne hj]
        | control i => rfl
  | @called k d hstopper =>
      apply hsame rfl
      exact state.inside_same (fun d' => congrArg point.inside (update_point _ _ _ _ rfl))
        (fun j => update_stopper _ _ _ _ (by rw [hstopper]; rfl)) (fun _ => rfl)
  | @stop_returns k hstopper hnone =>
      apply hsame rfl
      exact state.inside_same (fun _ => rfl)
        (fun j => update_stopper _ _ _ _ (by rw [hstopper]; rfl)) (fun _ => rfl)

/-! ## What is known of a direction

The fields of a direction are written by the transfer in it: from `DuplicateHandle` on they name
the handle, and they are cleared after the handle was closed. `fits` connects them with the
point of the transfer, and `notify` with the threads that may be in its function. What other
parties do to a direction is only what `keeps` lists, so `fits` survives it.

The point of a transfer says what its fields are: empty before the handle is made, the open
handle of its own thread until it is closed, the closed handle until the fields are cleared. A
flag that is set means that the token of this transfer was stopped, because the one who sets it
runs the callback of this transfer's `notify`. -/

/-- The fields of the direction name the handle of the transfer. -/
def point.started : point → Bool
  | .clearing => true
  | p => p.in_progress

/-- `notify` is there. -/
def point.notified_ : point → Bool
  | .notified | .rechecking | .rechecked _ | .before_io | .in_io | .leaving => true
  | _ => false

/-- A step from `q` to `p` that neither takes nor gives up anything. -/
def point.follows (q p : point) : Prop :=
  p.started = q.started ∧ (p.in_progress = true → q.in_progress = true) ∧
    (p.notified_ = false → q.notified_ = false) ∧ p ≠ .clearing

instance (q p : point) : Decidable (q.follows p) := by
  unfold point.follows
  infer_instance

/-- Why an I/O may be cancelled: all are stopped, or the transfer's own token is. -/
def stops (stopped : Bool) (tokens : Nat → Bool) (t : transfer) : Prop :=
  stopped = true ∨ stop_requested tokens t.token = true

/-- How the fields of a direction, the one who runs its callback and the point of its transfer
go together. -/
structure transfer.fits (u : shared) (tokens : Nat → Bool) (stoppers : Nat → stopper)
    (d : direction) (t : transfer) : Prop where
  called : ∀ k c, stoppers k = .calling d c → t.notify = .running ∧ t.token = some k
  notify : t.point.notified_ = false → t.notify = .none
  empty : t.point.started = false → u.ops d = {}
  handle : t.point.started = true → ∃ h, (u.ops d).thread = some h ∧ h < u.kernel.next ∧
    u.kernel.target h = t.thread ∧ (t.point.in_progress = true → h ∉ u.kernel.closed)
  flag : (u.ops d).cancelled = true → stop_requested tokens t.token = true
  inline : ∀ c, t.point = .inline c → stop_requested tokens t.token = true
  aborted : t.point = .in_io → u.kernel.ios t.thread = .aborted → stops u.stopped tokens t
  closed : t.point = .clearing → ∀ h, (u.ops d).thread = some h → h ∈ u.kernel.closed

/-! ### Handles

What is known of the handles is a separate account: every handle that was made and not closed is
in the fields of one direction, and no two directions have the same one. With it a close can be
seen to be of one's own handle. -/

/-- The handles of all transfers. -/
structure shared.accounted (u : shared) : Prop where
  nodup : u.kernel.closed.Nodup
  known : ∀ h ∈ u.kernel.closed, h < u.kernel.next
  owned : ∀ h, h < u.kernel.next → h ∉ u.kernel.closed → ∃ d, (u.ops d).thread = some h
  apart : ∀ d d' h, (u.ops d).thread = some h → (u.ops d').thread = some h → d = d'

/-- The invariant: the mutex has one holder, each direction fits its transfer, and a thread is
in one transfer at a time. -/
structure state.wf (s : state) : Prop where
  guards : Guards s.shared.mutex s.inside
  stoppers : ∀ k, s.stoppers k ≠ .outside → s.tokens k = true
  fits : ∀ d, (s.transfers d).fits s.shared s.tokens s.stoppers d
  accounted : s.shared.accounted
  /-- A thread is in one transfer at a time. -/
  threads : ∀ d d', (s.transfers d).point ≠ .idle → (s.transfers d').point ≠ .idle →
    (s.transfers d).thread = (s.transfers d').thread → d = d'

/-- A new endpoint has no transfer and no handle, so each part of the invariant holds of it with
nothing to say. -/
theorem wf_make : state.make.wf where
  guards p := by cases p <;> simp [state.make, state.inside, point.inside, stopper.inside,
    control.inside]
  stoppers _ h := absurd rfl h
  fits d :=
    { called := by simp [state.make]
      notify := fun _ => rfl
      empty := fun _ => rfl
      handle := by simp [state.make, point.started, point.in_progress]
      flag := by simp [state.make]
      inline := by simp [state.make]
      aborted := by simp [state.make]
      closed := by simp [state.make] }
  accounted :=
    { nodup := List.nodup_nil
      known := by simp [state.make]
      owned := by simp [state.make]
      apart := by simp [state.make] }
  threads _ _ h := absurd rfl h

section fits

variable {u u' : shared} {tokens : Nat → Bool} {stoppers : Nat → stopper} {d : direction}
  {t : transfer}

/-- Steps of the transfer that read the fields and do not write them. -/
theorem transfer.fits.moves (h : t.fits u tokens stoppers d) {q p : windows_stdio.point}
    (result : Except String Nat) (hpoint : t.point = q) (hfollows : q.follows p)
    (hinline : ∀ c, p = .inline c → stop_requested tokens t.token = true) (hio : p ≠ .in_io) :
    transfer.fits u tokens stoppers d { t with point := p, result := result } := by
  subst hpoint
  obtain ⟨hstarted, hprogress, hnotify, hclear⟩ := hfollows
  refine ⟨h.called, fun hp => h.notify (hnotify hp), ?_, ?_, h.flag, hinline,
    fun hp => absurd hp hio, fun hp => absurd hp hclear⟩
  · intro hp
    exact h.empty (hstarted.symm.trans hp)
  · intro hp
    obtain ⟨n, hn, hnext, htarget, hopen⟩ := h.handle (hstarted.symm.trans hp)
    exact ⟨n, hn, hnext, htarget, fun hprog => hopen (hprogress hprog)⟩

/-- The mutex is nothing that `fits` speaks of. -/
theorem transfer.fits.mutex (h : t.fits u tokens stoppers d) (m : Option party) :
    t.fits { u with mutex := m } tokens stoppers d :=
  ⟨h.called, h.notify, h.empty, h.handle, h.flag, h.inline, h.aborted, h.closed⟩

/-! ### What others may do

While a transfer is under way, other parties may stop the endpoint or a token, cancel through
its handle, and make and close handles of their own. Its fields stay as they are, since the flag
is set by its own callback only, and its handle stays open. `keeps` is the list, and `fits` is
stable under it. -/

/-- What a step of others may do to a direction. -/
structure keeps (d : direction) (t : transfer) (tokens : Nat → Bool) (u u' : shared) : Prop where
  ops : u'.ops d = u.ops d
  stopped : u.stopped = true → u'.stopped = true
  next : u.kernel.next ≤ u'.kernel.next
  target : ∀ h, h < u.kernel.next → u'.kernel.target h = u.kernel.target h
  closed : ∀ h, (u.ops d).thread = some h → (h ∈ u'.kernel.closed ↔ h ∈ u.kernel.closed)
  aborted : t.point = .in_io → u'.kernel.ios t.thread = .aborted →
    u.kernel.ios t.thread = .aborted ∨ stops u'.stopped tokens t

/-- What the others do to a direction leaves its transfer as it fits. -/
theorem transfer.fits.frame (h : t.fits u tokens stoppers d) (hkeeps : keeps d t tokens u u') :
    t.fits u' tokens stoppers d where
  called := h.called
  notify := h.notify
  empty hp := hkeeps.ops.trans (h.empty hp)
  handle hp := by
    obtain ⟨n, hn, hnext, htarget, hopen⟩ := h.handle hp
    refine ⟨n, ?_, Nat.lt_of_lt_of_le hnext hkeeps.next, ?_, ?_⟩
    · rw [hkeeps.ops]
      exact hn
    · rw [hkeeps.target n hnext]
      exact htarget
    · intro hprog
      rw [hkeeps.closed n hn]
      exact hopen hprog
  flag hflag := by
    rw [hkeeps.ops] at hflag
    exact h.flag hflag
  inline := h.inline
  aborted hp hio := by
    rcases hkeeps.aborted hp hio with hold | hstops
    · exact (h.aborted hp hold).imp hkeeps.stopped id
    · exact hstops
  closed hp n hn := by
    rw [hkeeps.ops] at hn
    exact (hkeeps.closed n hn).mpr (h.closed hp n hn)

/-- A cancel makes no handle, closes none and redirects none. -/
theorem kernel.cancel_next (k : kernel) (h : Nat) : (k.cancel h).next = k.next := by
  unfold kernel.cancel
  split <;> rfl

theorem kernel.cancel_target (k : kernel) (h : Nat) : (k.cancel h).target = k.target := by
  unfold kernel.cancel
  split <;> rfl

theorem kernel.cancel_closed (k : kernel) (h : Nat) : (k.cancel h).closed = k.closed := by
  unfold kernel.cancel
  split <;> rfl

/-- Only the thread of the handle is found. -/
theorem kernel.cancel_other (k : kernel) (h thread : Nat) (hne : thread ≠ k.target h) :
    (k.cancel h).ios thread = k.ios thread := by
  unfold kernel.cancel
  split
  · exact update_of_ne hne _ _
  · rfl

/-- Nothing done is allowed. -/
theorem keeps.refl (d : direction) (t : transfer) (tokens : Nat → Bool) (u : shared) :
    keeps d t tokens u u where
  ops := rfl
  stopped := id
  next := Nat.le_refl _
  target _ _ := rfl
  closed _ _ := Iff.rfl
  aborted _ := .inl

/-- And locking is. -/
theorem keeps.mutex (d : direction) (t : transfer) (tokens : Nat → Bool) (u : shared)
    (m : Option party) : keeps d t tokens u { u with mutex := m } where
  ops := rfl
  stopped := id
  next := Nat.le_refl _
  target _ _ := rfl
  closed _ _ := Iff.rfl
  aborted _ := .inl

/-- Only what the fields say of threads counts in the account of handles, so a step that leaves
these, and the kernel, keeps it. -/
theorem shared.accounted.same (h : u.accounted)
    (hthread : ∀ d, (u'.ops d).thread = (u.ops d).thread)
    (hnext : u'.kernel.next = u.kernel.next) (hclosed : u'.kernel.closed = u.kernel.closed) :
    u'.accounted where
  nodup := hclosed ▸ h.nodup
  known := by
    rw [hclosed, hnext]
    exact h.known
  owned := by
    rw [hclosed, hnext]
    intro n hn hopen
    obtain ⟨d, hd⟩ := h.owned n hn hopen
    exact ⟨d, (hthread d).trans hd⟩
  apart d d' n hd hd' := by
    rw [hthread] at hd hd'
    exact h.apart d d' n hd hd'

end fits

/-! ## Steps

One lemma for each thing a step can do: lock, unlock or read, make the handle, begin or end the
I/O, cancel, close, clear, and construct or destroy `notify`. The step that cancels is the
delicate one. It reads the handle from the fields with the mutex held, so that between the
reading and the call the transfer can neither close the handle nor leave. -/

section steps

variable {s : state} {u : windows_stdio.shared} {d : direction} {e : event}

theorem point.started_of_progress {p : windows_stdio.point} (h : p.in_progress = true) :
    p.started = true := by
  cases p <;> first | exact h | rfl

/-- Fields that name a handle belong to a transfer that has made it and not cleared them. -/
theorem state.wf.started (h : s.wf) {n : Nat} (hthread : (s.shared.ops d).thread = some n) :
    (s.transfers d).point.started = true := by
  cases hp : (s.transfers d).point.started with
  | true => rfl
  | false =>
      rw [(h.fits d).empty hp] at hthread
      cases hthread

/-- A cancel with a handle that the fields name reaches the transfer of that direction only. -/
theorem state.wf.cancel (h : s.wf) {n : Nat} (hthread : (s.shared.ops d).thread = some n)
    (hstops : stops s.shared.stopped s.tokens (s.transfers d)) (d' : direction) :
    keeps d' (s.transfers d') s.tokens s.shared (s.shared.call (s.shared.kernel.cancel n)) where
  ops := rfl
  stopped := id
  next := Nat.le_of_eq (kernel.cancel_next _ _).symm
  target m _ := congrFun (kernel.cancel_target _ _) m
  closed m _ := by
    change m ∈ (s.shared.kernel.cancel n).closed ↔ _
    rw [kernel.cancel_closed]
  aborted hp hio := by
    by_cases htarget : (s.transfers d').thread = s.shared.kernel.target n
    · have hstarted := h.started hthread
      obtain ⟨m, hm, _, hown, _⟩ := (h.fits d).handle hstarted
      rw [hthread] at hm
      cases hm
      have hidle : (s.transfers d).point ≠ .idle := by
        intro hidle
        rw [hidle] at hstarted
        cases hstarted
      -- the thread that the handle is of is in no other transfer
      have hdd : d' = d := by
        apply h.threads d' d _ hidle (htarget.trans hown)
        rw [hp]
        simp
      exact .inr (hdd ▸ hstops)
    · left
      change (s.shared.kernel.cancel n).ios _ = _ at hio
      rw [kernel.cancel_other _ _ _ htarget] at hio
      exact hio

/-- A cancel changes no handle. -/
theorem shared.accounted.cancel (h : u.accounted) (n : Nat) :
    (u.call (u.kernel.cancel n)).accounted :=
  h.same (fun _ => rfl) (kernel.cancel_next _ _) (kernel.cancel_closed _ _)

/-- The new handle is in the fields of one direction. -/
theorem shared.accounted.duplicate (h : u.accounted)
    (hold : ∀ d' n, (u.ops d').thread = some n → n < u.kernel.next)
    (hthread : (u.ops d).thread = none) (thread : Nat) :
    ((u.call (u.kernel.duplicate thread)).set d
      { u.ops d with thread := some u.kernel.next }).accounted where
  nodup := h.nodup
  known n hn := Nat.lt_succ_of_lt (h.known n hn)
  owned n hn hopen := by
    rcases Nat.lt_succ_iff_lt_or_eq.mp hn with hlt | heq
    · obtain ⟨d', hd'⟩ := h.owned n hlt hopen
      refine ⟨d', ?_⟩
      have hd : d' ≠ d := by
        rintro rfl
        rw [hthread] at hd'
        cases hd'
      simp only [shared.set, update_of_ne hd]
      exact hd'
    · refine ⟨d, ?_⟩
      simp only [shared.set, update_self, heq]
  apart d1 d2 n h1 h2 := by
    by_cases hd1 : d1 = d
    · by_cases hd2 : d2 = d
      · exact hd1.trans hd2.symm
      · rw [hd1] at h1
        simp only [shared.set, update_self, update_of_ne hd2] at h1 h2
        cases h1
        exact absurd (hold d2 _ h2) (Nat.lt_irrefl _)
    · by_cases hd2 : d2 = d
      · rw [hd2] at h2
        simp only [shared.set, update_self, update_of_ne hd1] at h1 h2
        cases h2
        exact absurd (hold d1 _ h1) (Nat.lt_irrefl _)
      · simp only [shared.set, update_of_ne hd1, update_of_ne hd2] at h1 h2
        exact h.apart d1 d2 n h1 h2

/-- A handle that was open is closed, and only this one. -/
theorem shared.accounted.close (h : u.accounted) {n : Nat} (hnext : n < u.kernel.next)
    (hopen : n ∉ u.kernel.closed) :
    (u.call { u.kernel with closed := u.kernel.closed ++ [n] }).accounted where
  nodup := by
    apply List.Nodup.append h.nodup (List.nodup_singleton n)
    intro m hm hlast
    rw [List.mem_singleton.mp hlast] at hm
    exact hopen hm
  known m hm := by
    rcases List.mem_append.mp hm with hold | hlast
    · exact h.known m hold
    · rw [List.mem_singleton.mp hlast]
      exact hnext
  owned m hm hstill := h.owned m hm fun hmem => hstill (List.mem_append_left _ hmem)
  apart := h.apart

/-- The fields may be cleared once the handle in them is closed. -/
theorem shared.accounted.clear (h : u.accounted)
    (hclosed : ∀ n, (u.ops d).thread = some n → n ∈ u.kernel.closed) :
    (u.set d {}).accounted where
  nodup := h.nodup
  known := h.known
  owned m hm hopen := by
    obtain ⟨d', hd'⟩ := h.owned m hm hopen
    have hd : d' ≠ d := by
      rintro rfl
      exact hopen (hclosed m hd')
    refine ⟨d', ?_⟩
    simp only [shared.set, update_of_ne hd]
    exact hd'
  apart d1 d2 m h1 h2 := by
    have hself : (u.set d {}).ops d = {} := update_self _ _ _
    have hd1 : d1 ≠ d := by
      rintro rfl
      rw [hself] at h1
      cases h1
    have hd2 : d2 ≠ d := by
      rintro rfl
      rw [hself] at h2
      cases h2
    simp only [shared.set, update_of_ne hd1, update_of_ne hd2] at h1 h2
    exact h.apart d1 d2 m h1 h2

/-- What a step of a direction has to keep. -/
def state.transferred (s : state) (d : direction) (u : windows_stdio.shared)
    (t : windows_stdio.transfer) : Prop :=
  t.fits u s.tokens s.stoppers d ∧
    (∀ d', d' ≠ d → keeps d' (s.transfers d') s.tokens s.shared u) ∧ u.accounted

/-! ### The other parties

A stop callback or a control call is a step of its own party. It holds the mutex when it looks
at the fields, so what it finds belongs to a transfer in progress, and neither can write them. -/

/-- A step of the callback of a transfer, whoever runs it: it marks the direction and cancels
under one lock, so the transfer is where it was. -/
theorem state.wf.callback (h : s.wf) {p : party} {c c' : callback_point}
    (hstep : c.Step p d s.shared e u c') (hstarted : (s.transfers d).point.started = true)
    (htoken : stop_requested s.tokens (s.transfers d).token = true) :
    s.transferred d u (s.transfers d) := by
  have hfits := h.fits d
  cases hstep with
  | lock hfree =>
      exact ⟨hfits.mutex _, fun d' _ => keeps.mutex d' _ _ _ _,
        h.accounted.same (fun _ => rfl) rfl rfl⟩
  | mark =>
      refine ⟨?_, ?_, h.accounted.same ?_ rfl rfl⟩
      · obtain ⟨hcalled, hnotify, hempty, hhandle, hflag, hinline, haborted, hclosed⟩ := hfits
        refine ⟨hcalled, hnotify, ?_, ?_, fun _ => htoken, hinline, haborted, ?_⟩
        · intro hp
          rw [hstarted] at hp
          cases hp
        · simpa only [shared.set, update_self] using hhandle
        · simpa only [shared.set, update_self] using hclosed
      · intro d' hd
        exact ⟨update_of_ne hd _ _, id, Nat.le_refl _, fun _ _ => rfl, fun _ _ => Iff.rfl,
          fun _ => .inl⟩
      · intro d'
        by_cases hd : d' = d
        · subst hd
          simp only [shared.set, update_self]
        · simp only [shared.set, update_of_ne hd]
  | @cancel n hthread =>
      have hkeeps := h.cancel hthread (.inr htoken)
      exact ⟨hfits.frame (hkeeps d), fun d' _ => hkeeps d', h.accounted.cancel n⟩
  | skip hthread => exact ⟨hfits, fun d' _ => keeps.refl _ _ _ _, h.accounted⟩
  | unlock =>
      exact ⟨hfits.mutex _, fun d' _ => keeps.mutex d' _ _ _ _,
        h.accounted.same (fun _ => rfl) rfl rfl⟩

/-- A control call marks both directions and cancels what is in progress, with the mutex held.
-/
theorem state.wf.control (h : s.wf) {p : party} {c c' : windows_stdio.control}
    (hstep : c.Step p s.shared e u c') :
    (∀ d, (s.transfers d).fits u s.tokens s.stoppers d) ∧ u.accounted := by
  cases hstep with
  | enter stop => exact ⟨h.fits, h.accounted⟩
  | lock hfree => exact ⟨fun d => (h.fits d).mutex _, h.accounted.same (fun _ => rfl) rfl rfl⟩
  | request_stop =>
      refine ⟨fun d => (h.fits d).frame ?_, h.accounted.same (fun _ => rfl) rfl rfl⟩
      exact ⟨rfl, fun _ => rfl, Nat.le_refl _, fun _ _ => rfl, fun _ _ => Iff.rfl, fun _ => .inl⟩
  | cancel_pending => exact ⟨h.fits, h.accounted⟩
  | @cancel d rest n hthread hstop =>
      refine ⟨fun d' => (h.fits d').frame ?_, h.accounted.cancel n⟩
      exact h.cancel hthread (hstop.imp id (h.fits d).flag) d'
  | skip hskip => exact ⟨h.fits, h.accounted⟩
  | unlock => exact ⟨fun d => (h.fits d).mutex _, h.accounted.same (fun _ => rfl) rfl rfl⟩

/-- A transfer stays with its thread and its token. -/
theorem transfer.Step.thread {tokens : Nat → Bool} {v : shared} {t t' : transfer}
    (hstep : t.Step d tokens v e u t') : t'.thread = t.thread ∧ t'.token = t.token := by
  cases hstep <;> exact ⟨rfl, rfl⟩

/-- Only a transfer that has been entered takes steps. -/
theorem transfer.Step.busy {tokens : Nat → Bool} {v : shared} {t t' : transfer}
    (hstep : t.Step d tokens v e u t') : t.point ≠ .idle := by
  cases hstep <;> simp [*]

/-! ### The steps of a transfer

A transfer goes through its points in order. At each the invariant is shown for the direction it
is in, and `keeps` for the other one.

The points follow the source from top to bottom: the first check and the duplicate of the
thread's handle under the lock, the construction of `notify`, the second check, the I/O, and on
the way out the destruction of `notify`, `CloseHandle` and the clearing of the fields. A lemma
is about one kind of change that such a step makes, so several points share one; which of them a
point needs is said in `transfer_step`. -/

/-- A step that locks, unlocks or reads. -/
theorem state.wf.reads (h : s.wf) (m : Option party) {q p : windows_stdio.point}
    (result : Except String Nat) (hpoint : (s.transfers d).point = q) (hfollows : q.follows p)
    (hinline : ∀ c, p = .inline c → stop_requested s.tokens (s.transfers d).token = true)
    (hio : p ≠ .in_io) :
    s.transferred d { s.shared with mutex := m }
      { s.transfers d with point := p, result := result } :=
  ⟨((h.fits d).moves result hpoint hfollows hinline hio).mutex m,
    fun d' _ => keeps.mutex d' _ _ _ m, h.accounted.same (fun _ => rfl) rfl rfl⟩

/-- The handle that `DuplicateHandle` makes is new and belongs to the calling thread, so it is
in the fields of no other direction. -/
theorem state.wf.duplicate (h : s.wf) (hpoint : (s.transfers d).point = .checking)
    (hthread : (s.shared.ops d).thread = none) :
    s.transferred d
      ((s.shared.call (s.shared.kernel.duplicate (s.transfers d).thread)).set d
        { s.shared.ops d with thread := some s.shared.kernel.next })
      { s.transfers d with point := .duplicated } := by
  have hfits := h.fits d
  have hnew : s.shared.kernel.next ∉ s.shared.kernel.closed :=
    fun hmem => Nat.lt_irrefl _ (h.accounted.known _ hmem)
  -- every other handle in the fields is older
  have hold : ∀ d' n, (s.shared.ops d').thread = some n → n < s.shared.kernel.next := by
    intro d' n hn
    obtain ⟨m, hm, hnext, _⟩ := (h.fits d').handle (h.started hn)
    rw [hn] at hm
    cases hm
    exact hnext
  refine ⟨?_, ?_, h.accounted.duplicate hold hthread _⟩
  · constructor
    · exact hfits.called
    · intro _
      exact hfits.notify (by rw [hpoint]; rfl)
    · intro hp
      cases hp
    · intro _
      refine ⟨s.shared.kernel.next, ?_, Nat.lt_succ_self _, ?_, fun _ => hnew⟩
      · simp only [shared.set, update_self]
      · exact update_self _ _ _
    · simpa only [shared.set, update_self] using hfits.flag
    · intro c hp
      cases hp
    · intro hp
      cases hp
    · intro hp
      cases hp
  · intro d' hd
    refine ⟨update_of_ne hd _ _, id, Nat.le_succ _, ?_, fun _ _ => Iff.rfl, fun _ => .inl⟩
    intro n hn
    exact update_of_ne (Nat.ne_of_lt hn) _ _

/-- The I/O of the transfer's own thread begins or ends. -/
theorem state.wf.moves_io (h : s.wf) (i : io) (hi : i ≠ .aborted) {q p : windows_stdio.point}
    (result : Except String Nat) (hpoint : (s.transfers d).point = q) (hidle : q ≠ .idle)
    (hfollows : q.follows p) (hinline : ∀ c, p ≠ .inline c) :
    s.transferred d
      (s.shared.call
        { s.shared.kernel with ios := update s.shared.kernel.ios (s.transfers d).thread i })
      { s.transfers d with point := p, result := result } := by
  subst hpoint
  have hfits := h.fits d
  obtain ⟨hstarted, hprogress, hnotify, hclear⟩ := hfollows
  refine ⟨?_, ?_, h.accounted.same (fun _ => rfl) rfl rfl⟩
  · constructor
    · exact hfits.called
    · intro hp
      exact hfits.notify (hnotify hp)
    · intro hp
      exact hfits.empty (hstarted.symm.trans hp)
    · intro hp
      obtain ⟨n, hn, hnext, htarget, hopen⟩ := hfits.handle (hstarted.symm.trans hp)
      exact ⟨n, hn, hnext, htarget, fun hprog => hopen (hprogress hprog)⟩
    · exact hfits.flag
    · intro c hp
      exact absurd hp (hinline c)
    · intro _ hio
      have hnow : update s.shared.kernel.ios (s.transfers d).thread i (s.transfers d).thread =
        .aborted := hio
      rw [update_self] at hnow
      exact absurd hnow hi
    · intro hp
      exact absurd hp hclear
  · intro d' hd
    refine ⟨rfl, id, Nat.le_refl _, fun _ _ => rfl, fun _ _ => Iff.rfl, ?_⟩
    intro hp hio
    left
    -- the other transfer is on another thread, whose I/O is as it was
    have hne : (s.transfers d').thread ≠ (s.transfers d).thread := by
      intro heq
      apply hd
      apply h.threads d' d _ hidle heq
      rw [hp]
      simp
    have hnow : update s.shared.kernel.ios (s.transfers d).thread i (s.transfers d').thread =
      .aborted := hio
    rw [update_of_ne hne] at hnow
    exact hnow

/-- `CloseHandle` of the handle in the fields, which is open until then. -/
theorem state.wf.close (h : s.wf) (hpoint : (s.transfers d).point = .closing) :
    ∃ n, (s.shared.ops d).thread = some n ∧ n < s.shared.kernel.next ∧
      n ∉ s.shared.kernel.closed ∧
      s.transferred d
        (s.shared.call { s.shared.kernel with closed := s.shared.kernel.closed ++ [n] })
        { s.transfers d with point := .clearing } := by
  have hfits := h.fits d
  obtain ⟨n, hn, hnext, htarget, hopen⟩ := hfits.handle (by rw [hpoint]; rfl)
  have hfresh : n ∉ s.shared.kernel.closed := hopen (by rw [hpoint]; rfl)
  refine ⟨n, hn, hnext, hfresh, ?_, ?_, h.accounted.close hnext hfresh⟩
  -- the transfer goes on to `clearing`: what its place asks of the fields
  · constructor
    · exact hfits.called
    · intro _
      exact hfits.notify (by rw [hpoint]; rfl)
    · intro hp
      cases hp
    · intro _
      refine ⟨n, hn, hnext, htarget, ?_⟩
      intro hprog
      cases hprog
    · exact hfits.flag
    · intro c hp
      cases hp
    · intro hp
      cases hp
    · intro _ m hm
      have hm' : (s.shared.ops d).thread = some m := hm
      rw [hn] at hm'
      cases hm'
      exact List.mem_append_right _ (List.mem_singleton_self _)
  · -- the handle that is closed is in the fields of no other direction
    intro d' hd
    refine ⟨rfl, id, Nat.le_refl _, fun _ _ => rfl, ?_, fun _ => .inl⟩
    intro m hm
    have hne : m ≠ n := by
      rintro rfl
      exact hd (h.accounted.apart d' d m hm hn)
    exact ⟨fun hmem => (List.mem_append.mp hmem).resolve_right
      (fun hlast => hne (List.mem_singleton.mp hlast)), List.mem_append_left _⟩

/-- The fields are cleared after the handle was closed, so the handle that is forgotten here is
one that is no longer open. -/
theorem state.wf.clear (h : s.wf) (hpoint : (s.transfers d).point = .clearing) :
    s.transferred d (s.shared.set d {}) { s.transfers d with point := .completed } := by
  have hfits := h.fits d
  have hself : (s.shared.set d {}).ops d = {} := update_self _ _ _
  refine ⟨?_, ?_, h.accounted.clear (hfits.closed hpoint)⟩
  · constructor
    · exact hfits.called
    · intro _
      exact hfits.notify (by rw [hpoint]; rfl)
    · exact fun _ => hself
    · intro hp
      cases hp
    · intro hflag
      rw [hself] at hflag
      cases hflag
    · intro c hp
      cases hp
    · intro hp
      cases hp
    · intro hp
      cases hp
  · intro d' hd
    exact ⟨update_of_ne hd _ _, id, Nat.le_refl _, fun _ _ => rfl, fun _ _ => Iff.rfl,
      fun _ => .inl⟩

/-- `notify` appears or goes while no one runs its function. -/
theorem state.wf.notifies (h : s.wf) (p : windows_stdio.point) (n : windows_stdio.callback)
    (hnone : ∀ k c, s.stoppers k ≠ .calling d c) (hstarted : p.started = true)
    (hold : (s.transfers d).point.in_progress = true) (hn : p.notified_ = false → n = .none)
    (hinline : ∀ c, p ≠ .inline c) (hio : p ≠ .in_io) (hclear : p ≠ .clearing) :
    s.transferred d s.shared { s.transfers d with point := p, notify := n } := by
  have hfits := h.fits d
  refine ⟨?_, fun d' _ => keeps.refl _ _ _ _, h.accounted⟩
  constructor
  · intro k c hk
    exact absurd hk (hnone k c)
  · exact hn
  · intro hp
    rw [hstarted] at hp
    cases hp
  · intro _
    obtain ⟨m, hm, hnext, htarget, hopen⟩ := hfits.handle (point.started_of_progress hold)
    exact ⟨m, hm, hnext, htarget, fun _ => hopen hold⟩
  · exact hfits.flag
  · intro c hp
    exact absurd hp (hinline c)
  · intro hp
    exact absurd hp hio
  · intro hp
    exact absurd hp hclear

/-- One step of a transfer, from whatever point it is at, leads to a state in which its fields
fit the next point. -/
theorem state.wf.transfer_step (h : s.wf) {t : windows_stdio.transfer}
    (hstep : (s.transfers d).Step d s.tokens s.shared e u t) : s.transferred d u t := by
  cases hstep with
  | lock_check hpoint hfree => exact h.reads _ _ hpoint (by decide) (by simp) (by simp)
  | check_stopped hpoint hstop => exact h.reads _ _ hpoint (by decide) (by simp) (by simp)
  | check_active hpoint hstopped htoken hthread =>
      exact h.reads _ _ hpoint (by decide) (by simp) (by simp)
  | duplicate_fails hpoint hstopped htoken hthread =>
      exact h.reads _ _ hpoint (by decide) (by simp) (by simp)
  | duplicate hpoint hstopped htoken hthread => exact h.duplicate hpoint hthread
  | refuse hpoint => exact h.reads _ _ hpoint (by decide) (by simp) (by simp)
  | unlock_check hpoint => exact h.reads _ _ hpoint (by decide) (by simp) (by simp)
  | register hpoint htoken =>
      have hnone : (s.transfers d).notify = .none := (h.fits d).notify (by rw [hpoint]; rfl)
      apply h.notifies .notified .registered _ rfl (by rw [hpoint]; rfl) <;> simp [point.notified_]
      -- nobody runs a callback before it is registered
      intro k c hk
      have hrunning := ((h.fits d).called k c hk).1
      rw [hnone] at hrunning
      cases hrunning
  | notify_begins hpoint htoken =>
      exact h.reads _ _ hpoint (by decide) (fun _ _ => htoken) (by simp)
  | notify_runs hpoint hstep =>
      have htoken := (h.fits d).inline _ hpoint
      obtain ⟨hfits, hothers, haccounted⟩ := h.callback hstep (by rw [hpoint]; rfl) htoken
      refine ⟨?_, hothers, haccounted⟩
      exact hfits.moves _ hpoint ⟨rfl, fun _ => rfl, fun _ => rfl, by simp⟩
        (fun _ _ => htoken) (by simp)
  | notify_ends hpoint => exact h.reads _ _ hpoint (by decide) (by simp) (by simp)
  | lock_recheck hpoint hfree => exact h.reads _ _ hpoint (by decide) (by simp) (by simp)
  | recheck_stopped hpoint hstop => exact h.reads _ _ hpoint (by decide) (by simp) (by simp)
  | recheck_passes hpoint hstopped hcancelled htoken =>
      exact h.reads _ _ hpoint (by decide) (by simp) (by simp)
  | unlock_stopped hpoint => exact h.reads _ _ hpoint (by decide) (by simp) (by simp)
  | unlock_recheck hpoint => exact h.reads _ _ hpoint (by decide) (by simp) (by simp)
  | begin_io hpoint => exact h.moves_io _ (by simp) _ hpoint (by simp) (by decide) (by simp)
  | end_io hpoint hresult =>
      exact h.moves_io _ (by simp) _ hpoint (by simp) (by decide) (by simp)
  | unregister hpoint hnotify =>
      apply h.notifies .completing .none _ rfl (by rw [hpoint]; rfl) <;> simp
      -- the destructor of `notify` has waited for whoever ran it
      intro k c hk
      exact hnotify ((h.fits d).called k c hk).1
  | lock_complete hpoint hfree => exact h.reads _ _ hpoint (by decide) (by simp) (by simp)
  | close hpoint =>
      obtain ⟨n, hn, _, _, htransferred⟩ := h.close hpoint
      rw [hn]
      exact htransferred
  | clear hpoint => exact h.clear hpoint
  | unlock_complete hpoint => exact h.reads _ _ hpoint (by decide) (by simp) (by simp)

/-- The direction that takes the step fits its new transfer, and the other its old one. -/
theorem fits_update {tokens : Nat → Bool} {stoppers : Nat → stopper}
    {transfers : direction → windows_stdio.transfer} {t : windows_stdio.transfer}
    (hself : t.fits u tokens stoppers d)
    (hothers : ∀ d', d' ≠ d → (transfers d').fits u tokens stoppers d') (d' : direction) :
    (update transfers d t d').fits u tokens stoppers d' := by
  by_cases hd : d' = d
  · subst hd
    rw [update_self]
    exact hself
  · rw [update_of_ne hd]
    exact hothers d' hd

/-- In particular both directions fit after a step of one of them. -/
theorem state.transferred.fits {t : windows_stdio.transfer} (htransferred : s.transferred d u t)
    (h : s.wf) : ∀ d', (update s.transfers d t d').fits u s.tokens s.stoppers d' :=
  fits_update htransferred.1 fun d' hd => (h.fits d').frame (htransferred.2.1 d' hd)

end steps

/-! ## Runs

The rest of a step concerns `notify`: a stop callback is registered, run by a thread that stops
the token, or run by the constructor itself if the token was stopped already, and destroyed. Its
destructor waits for a function that is running. With these the invariant is kept by every step,
and so by every run.

`notify` has four states: not there, registered, running, done. The callback is run by at most
one thread, because running it takes it out of the registered state, and the transfer leaves
only when it is not running. This is the documented behaviour of `std::stop_callback`, and it is
what the model has for it. -/

/-- What `notify` and the ones who stop its token know of each other is all that changes. -/
theorem transfer.fits.stoppers {u : shared} {tokens tokens' : Nat → Bool}
    {stoppers stoppers' : Nat → stopper} {d : direction} {t : transfer}
    (h : t.fits u tokens stoppers d)
    (hcalled : ∀ k c, stoppers' k = .calling d c → t.notify = .running ∧ t.token = some k)
    (htokens : stop_requested tokens t.token = true → stop_requested tokens' t.token = true) :
    t.fits u tokens' stoppers' d where
  called := hcalled
  notify := h.notify
  empty := h.empty
  handle := h.handle
  flag hflag := htokens (h.flag hflag)
  inline c hp := htokens (h.inline c hp)
  aborted hp hio := (h.aborted hp hio).imp id htokens
  closed := h.closed

/-- The one who stops token `k` goes on, and is not in the callback of `d`. -/
theorem transfer.fits.goes {u : shared} {tokens : Nat → Bool} {stoppers : Nat → stopper}
    {d : direction} {t : transfer} (h : t.fits u tokens stoppers d) (k : Nat) (next : stopper)
    (hnext : ∀ c, next ≠ .calling d c) : t.fits u tokens (update stoppers k next) d := by
  apply h.stoppers _ id
  intro j c hj
  by_cases hjk : j = k
  · rw [hjk, update_self] at hj
    exact absurd hj (hnext c)
  · rw [update_of_ne hjk] at hj
    exact h.called j c hj

/-- A transfer that starts: its fields are empty, and nobody is in a callback of its. -/
theorem transfer.fits.entered {u : shared} {tokens : Nat → Bool} {stoppers : Nat → stopper}
    {d : direction} {t : transfer} (h : t.fits u tokens stoppers d) (hidle : t.point = .idle)
    (token : Option Nat) (thread : Nat) :
    transfer.fits u tokens stoppers d ⟨.entered, token, thread, .none, .ok 0⟩ := by
  have hnone : t.notify = .none := h.notify (by rw [hidle]; rfl)
  have hempty : u.ops d = {} := h.empty (by rw [hidle]; rfl)
  constructor
  · intro k c hk
    have hrunning := (h.called k c hk).1
    rw [hnone] at hrunning
    cases hrunning
  · exact fun _ => rfl
  · exact fun _ => hempty
  · intro hp
    cases hp
  · intro hflag
    rw [hempty] at hflag
    cases hflag
  · intro c hp
    cases hp
  · intro hp
    cases hp
  · intro hp
    cases hp

section calling

variable {u : shared} {tokens : Nat → Bool} {stoppers : Nat → stopper} {d : direction}
  {t : transfer} {k : Nat} {c : callback_point}

/-- A callback runs where `notify` was constructed and not destroyed yet. -/
theorem transfer.fits.started_of_running (h : t.fits u tokens stoppers d)
    (hrunning : t.notify = .running) : t.point.started = true := by
  have hnotified : t.point.notified_ = true := by
    by_contra hnot
    rw [h.notify (eq_false_of_ne_true hnot)] at hrunning
    cases hrunning
  cases hp : t.point <;> rw [hp] at hnotified <;> first | rfl | cases hnotified

/-- A thread that stops a token begins to run its callback, which is registered. -/
theorem transfer.fits.call (h : t.fits u tokens stoppers d) (htoken : t.token = some k)
    (hnotify : t.notify = .registered) :
    transfer.fits u tokens (update stoppers k (.calling d c)) d
      { t with notify := .running } := by
  obtain ⟨hcalled, hthere, hempty, hhandle, hflag, hinline, haborted, hclosed⟩ := h
  refine ⟨?_, ?_, hempty, hhandle, hflag, hinline, haborted, hclosed⟩
  · intro j c' hj
    by_cases hjk : j = k
    · exact ⟨rfl, hjk ▸ htoken⟩
    · rw [update_of_ne hjk] at hj
      exact ⟨rfl, (hcalled j c' hj).2⟩
  · intro hp
    rw [hthere hp] at hnotify
    cases hnotify

/-- It goes on within the callback. -/
theorem transfer.fits.calling (h : t.fits u tokens stoppers d) (hk : stoppers k = .calling d c)
    (c' : callback_point) : t.fits u tokens (update stoppers k (.calling d c')) d := by
  apply h.stoppers _ id
  intro j c'' hj
  by_cases hjk : j = k
  · exact hjk ▸ h.called k c hk
  · rw [update_of_ne hjk] at hj
    exact h.called j c'' hj

/-- The callback returned; the one who ran it was the only one in it. -/
theorem transfer.fits.done (h : t.fits u tokens stoppers d) (hk : stoppers k = .calling d c) :
    transfer.fits u tokens (update stoppers k .between) d { t with notify := .done } := by
  obtain ⟨hrunning, htoken⟩ := h.called k c hk
  obtain ⟨hcalled, hthere, hempty, hhandle, hflag, hinline, haborted, hclosed⟩ :=
    h.goes k .between (by simp)
  refine ⟨?_, ?_, hempty, hhandle, hflag, hinline, haborted, hclosed⟩
  · intro j c' hj
    have htoken' := (hcalled j c' hj).2
    rw [htoken] at htoken'
    cases htoken'
    rw [update_self] at hj
    cases hj
  · intro hp
    rw [hthere hp] at hrunning
    cases hrunning

end calling

/-- Stopping a token stops no other, and none is started again. -/
theorem stop_requested_update {tokens : Nat → Bool} {token : Option Nat} (k : Nat)
    (h : stop_requested tokens token = true) :
    stop_requested (update tokens k true) token = true := by
  cases token with
  | none => cases h
  | some j =>
      by_cases hj : j = k
      · simp [stop_requested, hj]
      · simpa [stop_requested, hj] using h

/-- The one who stops a token that is set goes on. -/
theorem stoppers_goes {tokens : Nat → Bool} {stoppers : Nat → stopper} {k : Nat} {next : stopper}
    (h : ∀ k, stoppers k ≠ .outside → tokens k = true)
    (hset : stoppers k ≠ .outside ∨ next = .outside) (j : Nat)
    (hout : update stoppers k next j ≠ .outside) : tokens j = true := by
  by_cases hj : j = k
  · subst hj
    rw [update_self] at hout
    rcases hset with hold | hnext
    · exact h j hold
    · exact absurd hnext hout
  · rw [update_of_ne hj] at hout
    exact h j hout

/-- A transfer keeps its thread while `notify` changes, so two directions that are in a transfer
are still in two threads. -/
theorem state.wf.threads_update {s : state} (h : s.wf) {d : direction} {t : transfer}
    (hpoint : t.point ≠ .idle → (s.transfers d).point ≠ .idle)
    (hthread : t.thread = (s.transfers d).thread) (d1 d2 : direction)
    (h1 : (update s.transfers d t d1).point ≠ .idle)
    (h2 : (update s.transfers d t d2).point ≠ .idle)
    (heq : (update s.transfers d t d1).thread = (update s.transfers d t d2).thread) : d1 = d2 := by
  have hback : ∀ d', (update s.transfers d t d').point ≠ .idle →
      (s.transfers d').point ≠ .idle ∧
        (update s.transfers d t d').thread = (s.transfers d').thread := by
    intro d' hd'
    by_cases hd : d' = d
    · subst hd
      rw [update_self] at hd' ⊢
      exact ⟨hpoint hd', hthread⟩
    · rw [update_of_ne hd] at hd' ⊢
      exact ⟨hd', rfl⟩
  rw [(hback d1 h1).2, (hback d2 h2).2] at heq
  exact h.threads d1 d2 (hback d1 h1).1 (hback d2 h2).1 heq

/-- The thread that starts a transfer is in no other. -/
theorem state.wf.threads_start {s : state} (h : s.wf) {d : direction} {t : transfer}
    (hthread : ∀ d', (s.transfers d').point ≠ .idle → (s.transfers d').thread ≠ t.thread)
    (d1 d2 : direction) (h1 : (update s.transfers d t d1).point ≠ .idle)
    (h2 : (update s.transfers d t d2).point ≠ .idle)
    (heq : (update s.transfers d t d1).thread = (update s.transfers d t d2).thread) :
    d1 = d2 := by
  by_cases hd1 : d1 = d
  · by_cases hd2 : d2 = d
    · exact hd1.trans hd2.symm
    · rw [hd1] at heq
      simp only [update_self, update_of_ne hd2] at heq h2
      exact absurd heq.symm (hthread d2 h2)
  · by_cases hd2 : d2 = d
    · rw [hd2] at heq
      simp only [update_self, update_of_ne hd1] at heq h1
      exact absurd heq (hthread d1 h1)
    · simp only [update_of_ne hd1, update_of_ne hd2] at h1 h2 heq
      exact h.threads d1 d2 h1 h2 heq

/-- Every step keeps the invariant, one case a constructor. A transfer, a `control` and a
callback have lemmas of their own; the rest sets one flag or one place. -/
theorem state.wf.step {s s' : state} {e : event} (h : s.wf) (hstep : state.Step s e s') :
    s'.wf := by
  have hguards := hstep.guards h.guards h.stoppers
  cases hstep with
  | start d token thread hidle hthread =>
      refine ⟨hguards, h.stoppers, ?_, h.accounted, h.threads_start hthread⟩
      exact fits_update ((h.fits d).entered hidle token thread) fun d' _ => h.fits d'
  | @transfer e u t d hstep =>
      have htransferred := h.transfer_step hstep
      refine ⟨hguards, h.stoppers, htransferred.fits h, htransferred.2.2, ?_⟩
      exact h.threads_update (fun _ => hstep.busy) hstep.thread.1
  | @control e u c i hstep =>
      obtain ⟨hfits, haccounted⟩ := h.control hstep
      exact ⟨hguards, h.stoppers, hfits, haccounted, h.threads⟩
  | @stop_token k hfirst =>
      refine ⟨hguards, ?_, ?_, h.accounted, h.threads⟩
      · intro j hj
        by_cases hjk : j = k
        · simp [hjk]
        · dsimp only at hj ⊢
          rw [update_of_ne hjk] at hj ⊢
          exact h.stoppers j hj
      · -- a token that is set takes nothing from a direction
        intro d
        have hgoes := (h.fits d).goes k .between (by simp)
        exact hgoes.stoppers hgoes.called (stop_requested_update k)
  | @call k d hstopper htoken hnotify =>
      refine ⟨hguards, ?_, ?_, h.accounted, h.threads_update id rfl⟩
      · exact stoppers_goes h.stoppers (.inl (by simp [hstopper]))
      · refine fits_update ((h.fits d).call htoken hnotify) fun d' hd => ?_
        exact (h.fits d').goes k _ (by simp [Ne.symm hd])
  | @callback e u k d c c' hstopper hstep =>
      obtain ⟨hrunning, htoken⟩ := (h.fits d).called k c hstopper
      have hset : s.tokens k = true := h.stoppers k (by simp [hstopper])
      have htransferred := h.callback hstep ((h.fits d).started_of_running hrunning)
        (by rw [htoken]; exact hset)
      refine ⟨hguards, ?_, ?_, htransferred.2.2, h.threads⟩
      · exact stoppers_goes h.stoppers (.inl (by simp [hstopper]))
      · intro d'
        have hfits := htransferred.fits h d'
        rw [update_eq_self] at hfits
        by_cases hd : d' = d
        · subst hd
          exact hfits.calling hstopper c'
        · exact hfits.goes k _ (by simp [Ne.symm hd])
  | @called k d hstopper =>
      refine ⟨hguards, ?_, ?_, h.accounted, h.threads_update id rfl⟩
      · exact stoppers_goes h.stoppers (.inl (by simp [hstopper]))
      · exact fits_update ((h.fits d).done hstopper) fun d' _ =>
          (h.fits d').goes k .between (by simp)
  | @stop_returns k hstopper hnone =>
      -- who is outside is in no callback, and its token need not be set
      refine ⟨hguards, stoppers_goes h.stoppers (.inr rfl), ?_, h.accounted, h.threads⟩
      intro d
      exact (h.fits d).goes k .outside (by simp)

/-- So the invariant holds in every reachable state. -/
theorem wf_of_reachable {s : state} (h : stdio_runs.Reachable s) : s.wf := by
  refine h.invariant (P := state.wf) ?_ ?_
  · rintro s rfl
    exact wf_make
  · intro s e s' _ hwf hstep
    exact hwf.step hstep

/-! ## Every cancel, every close and every return

What the invariant says at the three kinds of steps that the outside can see. A cancel is made
inside the mutex, with a handle that the fields name; such a handle is open, belongs to the
transfer in progress, and that transfer is to stop. A close is of the transfer's own handle, and
a return leaves nothing in the fields.

The statement for a cancel is made in the state before the step, with the events of the step:
which handle it was called with, what that handle is of, and why. That no other I/O is aborted
follows, as the kernel aborts the I/O of the handle's thread, and a thread is in one transfer at
a time. -/

/-- The handle is open and of the transfer in progress in the direction, which is to stop. -/
def to_be_cancelled (s : state) (n : Nat) (d : direction) : Prop :=
  (s.transfers d).point.in_progress = true ∧ (s.shared.ops d).thread = some n ∧
    s.shared.kernel.target n = (s.transfers d).thread ∧
    n < s.shared.kernel.next ∧ n ∉ s.shared.kernel.closed ∧
    stops s.shared.stopped s.tokens (s.transfers d)

/-- While another is inside, a handle in the fields is open. -/
theorem state.wf.to_be_cancelled {s : state} (h : s.wf) {n : Nat} {d : direction} (p : party)
    (hthread : (s.shared.ops d).thread = some n) (hinside : s.inside p = true)
    (hclear : p = .transfer d → (s.transfers d).point ≠ .clearing)
    (hstops : stops s.shared.stopped s.tokens (s.transfers d)) :
    windows_stdio.to_be_cancelled s n d := by
  have hstarted := h.started hthread
  have hprogress : (s.transfers d).point.in_progress = true := by
    cases hp : (s.transfers d).point with
    | clearing =>
        -- the handle is closed, but the transfer is inside itself until the fields are cleared
        have hin : s.inside (.transfer d) = true := by
          simp only [state.inside, hp]
          rfl
        exact absurd hp (hclear (h.guards.unique hinside hin))
    | _ =>
        rw [hp] at hstarted
        first
        | rfl
        | cases hstarted
  obtain ⟨m, hm, hnext, htarget, hopen⟩ := (h.fits d).handle hstarted
  rw [hthread] at hm
  cases hm
  exact ⟨hprogress, hthread, htarget, hnext, hopen hprogress, hstops⟩

/-- A stop callback cancels with the handle of its direction, inside the mutex. -/
theorem callback_point.Step.cancels {p : party} {d : direction} {u u' : shared}
    {c c' : callback_point} {n : Nat} (hstep : c.Step p d u (.cancels n) u' c') :
    (u.ops d).thread = some n ∧ c.inside = true := by
  cases hstep with
  | cancel hthread => exact ⟨hthread, rfl⟩

/-- Every cancel is one that was called for: by a stop of the token of the transfer, or of all.
-/
theorem state.wf.cancels {s s' : state} (h : s.wf) {n : Nat}
    (hstep : state.Step s (.cancels n) s') : ∃ d, windows_stdio.to_be_cancelled s n d := by
  generalize he : event.cancels n = e at hstep
  cases hstep with
  | start d token thread hidle hthread => cases he
  | @transfer e u t d hstep =>
      subst he
      cases hstep with
      | notify_runs hpoint hstep =>
          -- the constructor of `notify` runs the callback
          obtain ⟨hthread, hinside⟩ := hstep.cancels
          refine ⟨d, h.to_be_cancelled (.transfer d) hthread ?_ ?_ ?_⟩
          · simp only [state.inside, hpoint]
            exact hinside
          · intro _ hclear
            rw [hpoint] at hclear
            cases hclear
          · exact .inr ((h.fits d).inline _ hpoint)
  | @control e u c i hstep =>
      subst he
      generalize hc : s.controls i = c0 at hstep
      cases hstep with
      | @cancel d rest _ hthread hstop =>
          refine ⟨d, h.to_be_cancelled (.control i) hthread ?_ (by simp) ?_⟩
          · simp only [state.inside, hc]
            rfl
          · exact hstop.imp id (h.fits d).flag
  | stop_token k hfirst => cases he
  | call d hstopper htoken hnotify => cases he
  | @callback e u k d c c' hstopper hstep =>
      subst he
      obtain ⟨hthread, hinside⟩ := hstep.cancels
      obtain ⟨_, htoken⟩ := (h.fits d).called k _ hstopper
      refine ⟨d, h.to_be_cancelled (.stopper k) hthread ?_ (by simp) ?_⟩
      · simp only [state.inside, hstopper]
        exact hinside
      · right
        rw [htoken]
        exact h.stoppers k (by simp [hstopper])
  | called hstopper => cases he
  | stop_returns hstopper hnone => cases he

/-- A stop callback closes nothing, and returns from no transfer. -/
theorem callback_point.Step.no_close {p : party} {d : direction} {u u' : shared}
    {c c' : callback_point} {e : event} (hstep : c.Step p d u e u' c') :
    (∀ f, e ≠ .closes f) ∧ ∀ d' b, e ≠ .returns d' b := by
  cases hstep <;> simp

/-- Nor does a control call. -/
theorem control.Step.no_close {p : party} {u u' : shared} {c c' : control} {e : event}
    (hstep : c.Step p u e u' c') : (∀ f, e ≠ .closes f) ∧ ∀ d' b, e ≠ .returns d' b := by
  cases hstep <;> simp

/-- What is closed is an open handle, and the transfer's own. -/
theorem state.wf.closes {s s' : state} (h : s.wf) {f : Option Nat}
    (hstep : state.Step s (.closes f) s') :
    ∃ n, f = some n ∧ n < s.shared.kernel.next ∧ n ∉ s.shared.kernel.closed ∧
      s'.shared.kernel.closed = s.shared.kernel.closed ++ [n] := by
  generalize he : event.closes f = e at hstep
  cases hstep with
  | start d token thread hidle hthread => cases he
  | @transfer e u t d hstep =>
      subst he
      cases hstep with
      | notify_runs hpoint hstep => exact absurd rfl (hstep.no_close.1 f)
      | close hpoint =>
          obtain ⟨n, hn, hnext, hopen, _⟩ := h.close hpoint
          refine ⟨n, hn, hnext, hopen, ?_⟩
          simp only [shared.call, hn]
          rfl
  | control i hstep => exact absurd he.symm (hstep.no_close.1 f)
  | stop_token k hfirst => cases he
  | call d hstopper htoken hnotify => cases he
  | callback hstopper hstep => exact absurd he.symm (hstep.no_close.1 f)
  | called hstopper => cases he
  | stop_returns hstopper hnone => cases he

/-- A transfer that returns leaves the fields of its direction empty. -/
theorem state.wf.returns {s s' : state} (h : s.wf) {d : direction} {b : Bool}
    (hstep : state.Step s (.returns d b) s') : s'.shared.ops d = {} := by
  generalize he : event.returns d b = e at hstep
  cases hstep with
  | start d token thread hidle hthread => cases he
  | @transfer e u t d' hstep =>
      subst he
      cases hstep with
      | notify_runs hpoint hstep => exact absurd rfl (hstep.no_close.2 d b)
      | refuse hpoint => exact (h.fits d).empty (by rw [hpoint]; rfl)
      | unlock_complete hpoint => exact (h.fits d).empty (by rw [hpoint]; rfl)
  | control i hstep => exact absurd he.symm (hstep.no_close.2 d b)
  | stop_token k hfirst => cases he
  | call d hstopper htoken hnotify => cases he
  | callback hstopper hstep => exact absurd he.symm (hstep.no_close.2 d b)
  | called hstopper => cases he
  | stop_returns hstopper hnone => cases he

/-- A handle is open exactly while the fields of a transfer in progress name it. -/
theorem state.wf.open_iff {s : state} (h : s.wf) {n : Nat} (hn : n < s.shared.kernel.next) :
    n ∉ s.shared.kernel.closed ↔
      ∃ d, (s.transfers d).point.in_progress = true ∧ (s.shared.ops d).thread = some n := by
  constructor
  · intro hopen
    obtain ⟨d, hd⟩ := h.accounted.owned n hn hopen
    refine ⟨d, ?_, hd⟩
    have hstarted := h.started hd
    cases hp : (s.transfers d).point with
    | clearing => exact absurd ((h.fits d).closed hp n hd) hopen
    | _ =>
        rw [hp] at hstarted
        first
        | rfl
        | cases hstarted
  · rintro ⟨d, hprogress, hd⟩
    obtain ⟨m, hm, _, _, hopen⟩ := (h.fits d).handle (point.started_of_progress hprogress)
    rw [hd] at hm
    cases hm
    exact hopen hprogress

/-- Whatever the order of the steps: a cancel is made with the open handle of a transfer in
progress, which is stopped or whose own token is; no other I/O is aborted; a handle is closed once,
and is open no longer than its transfer is in progress; a transfer returns with its fields empty. -/
theorem cancellation_safe {s : state} (h : stdio_runs.Reachable s) :
    (∀ n s', stdio_runs.step s (.cancels n) s' → ∃ d, to_be_cancelled s n d) ∧
    (∀ d, (s.transfers d).point = .in_io → s.shared.kernel.ios (s.transfers d).thread = .aborted →
      stops s.shared.stopped s.tokens (s.transfers d)) ∧
    (∀ f s', stdio_runs.step s (.closes f) s' →
      ∃ n, f = some n ∧ n < s.shared.kernel.next ∧ n ∉ s.shared.kernel.closed ∧
        s'.shared.kernel.closed = s.shared.kernel.closed ++ [n]) ∧
    s.shared.kernel.closed.Nodup ∧
    (∀ n, n < s.shared.kernel.next → (n ∉ s.shared.kernel.closed ↔
      ∃ d, (s.transfers d).point.in_progress = true ∧ (s.shared.ops d).thread = some n)) ∧
    ∀ d started s', stdio_runs.step s (.returns d started) s' →
      (s'.shared.ops d).thread = none ∧ (s'.shared.ops d).cancelled = false := by
  have hwf := wf_of_reachable h
  refine ⟨fun n s' hstep => hwf.cancels hstep, fun d => (hwf.fits d).aborted,
    fun f s' hstep => hwf.closes hstep, hwf.accounted.nodup, fun n hn => hwf.open_iff hn, ?_⟩
  intro d started s' hstep
  rw [hwf.returns hstep]
  exact ⟨rfl, rfl⟩

/-- A reader in its I/O, and a thread in `request_stop` that is to cancel it. -/
theorem reader_to_be_cancelled :
    ∃ s, stdio_runs.Reachable s ∧ (∃ s', stdio_runs.step s (.cancels 0) s') ∧
      (s.transfers .read).point = .in_io := by
  have h0 : stdio_runs.Reachable state.make := .of_init rfl
  have h1 := h0.step (.start .read none 7 rfl (fun _ hne => absurd rfl hne))
  have h2 := h1.step (.transfer .read (.lock_check rfl rfl))
  have h3 := h2.step (.transfer .read (.duplicate rfl rfl rfl rfl))
  have h4 := h3.step (.transfer .read (.unlock_check rfl))
  have h5 := h4.step (.transfer .read (.register rfl rfl))
  have h6 := h5.step (.transfer .read (.lock_recheck rfl rfl))
  have h7 := h6.step (.transfer .read (.recheck_passes rfl rfl rfl rfl))
  have h8 := h7.step (.transfer .read (.unlock_recheck rfl))
  have h9 := h8.step (.transfer .read (.begin_io rfl))
  have h10 := h9.step (.control 0 (.enter true))
  have h11 := h10.step (.control 0 (.lock rfl))
  have h12 := h11.step (.control 0 .request_stop)
  exact ⟨_, h12, ⟨_, .control 0 (.cancel rfl (.inl rfl))⟩, rfl⟩

theorem cancellation_safe_reader : ∃ s d, to_be_cancelled s 0 d ∧
    (s.transfers .read).point = .in_io := by
  obtain ⟨s, hs, ⟨s', hstep⟩, hpoint⟩ := reader_to_be_cancelled
  obtain ⟨d, hd⟩ := (cancellation_safe hs).1 0 s' hstep
  exact ⟨s, d, hd, hpoint⟩

end SynapseMcp.windows_stdio
