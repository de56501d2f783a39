/-
The owners of an invocation, counted, and the lock while the last of them goes.

What the steps of `ExecutorOwners` keep is stated for one call first, with the references that
others hold as an unknown summand. `use_count` is the number of references there are. The guard
is the youngest object of its call, but for the temporaries of `active_ = current` and
`active_.reset()`. The first of these is empty, as `active_` is null then. The second is not the
last owner, as `current` is another.
-/
import SynapseMcp.ExecutorOwners
import Mathlib.Data.List.Count
import Mathlib.Data.List.Perm.Basic

set_option autoImplicit false

namespace SynapseMcp.executor_owners

open Transition

/-! ## Owners

A work is held by pointers: in the queue, in `active_`, in local variables of the calls under
way. The model has the local variables of a call as a list of objects, the youngest first, as
they are destroyed in that order. `use_count` is a field that the steps change as copies and
destructors do; what is shown is that it is the number of pointers there are, so that a work is
destroyed with its last owner and not before. -/

/-- The works the object has references to. -/
def object.refs : object → List Nat
  | .works items => items.map work.ref
  | .pointer item => item.toList.map work.ref
  | _ => []

/-- The invocation it holds by value. -/
def object.values : object → List Nat
  | .value call => call.toList
  | _ => []

/-- The references that the objects of a call hold. -/
def frame.refs (f : frame) : List Nat := f.scope.flatMap object.refs

def frame.values (f : frame) : List Nat := f.scope.flatMap object.values

/-- The references in the executor itself. -/
def queue_refs (x : owned_executor Unit) : List Nat :=
  x.pending_.map work.ref ++ x.active_.toList.map work.ref

@[simp] theorem queue_refs_finish (x : owned_executor Unit) :
    queue_refs x.finish = queue_refs x := rfl

@[simp] theorem frame.refs_mk (p : position) (scope : List object) :
    (frame.mk p scope).refs = scope.flatMap object.refs := rfl

@[simp] theorem frame.values_mk (p : position) (scope : List object) :
    (frame.mk p scope).values = scope.flatMap object.values := rfl

@[simp] theorem object.refs_guard : object.guard.refs = [] := rfl

@[simp] theorem object.refs_works (items : List (work Unit)) :
    (object.works items).refs = items.map work.ref := rfl

@[simp] theorem object.refs_pointer (item : Option (work Unit)) :
    (object.pointer item).refs = item.toList.map work.ref := rfl

@[simp] theorem object.refs_source (stop : Option Nat) : (object.source stop).refs = [] := rfl

@[simp] theorem object.refs_value (call : Option Nat) : (object.value call).refs = [] := rfl

@[simp] theorem object.values_guard : object.guard.values = [] := rfl

@[simp] theorem object.values_works (items : List (work Unit)) :
    (object.works items).values = [] := rfl

@[simp] theorem object.values_pointer (item : Option (work Unit)) :
    (object.pointer item).values = [] := rfl

@[simp] theorem object.values_source (stop : Option Nat) : (object.source stop).values = [] := rfl

@[simp] theorem object.values_value (call : Option Nat) :
    (object.value call).values = call.toList := rfl

/-- What a destructor lets go of was held, as a reference or by value. -/
theorem object.first_cases {o o' : object} {held : owner} (h : o.first = some (held, o')) :
    (∃ ref, held = .reference ref ∧ o.refs = ref :: o'.refs ∧ o.values = [] ∧ o'.values = []) ∨
      ∃ n, held = .invocation n ∧ o.refs = [] ∧ o'.refs = [] ∧ o.values = [n] ∧
        o'.values = [] := by
  unfold object.first at h
  split at h
  · cases h
    exact .inl ⟨_, rfl, rfl, rfl, rfl⟩
  · cases h
    exact .inl ⟨_, rfl, rfl, rfl, rfl⟩
  · cases h
    exact .inr ⟨_, rfl, rfl, rfl, rfl, rfl⟩
  · cases h

/-- An object with nothing left to let go of owns nothing. -/
theorem object.first_none {o : object} (h : o.first = none) : o.refs = [] ∧ o.values = [] := by
  cases o with
  | guard => exact ⟨rfl, rfl⟩
  | works items =>
      cases items with
      | nil => exact ⟨rfl, rfl⟩
      | cons item items => cases h
  | pointer item =>
      cases item with
      | none => exact ⟨rfl, rfl⟩
      | some item => cases h
  | source stop => exact ⟨rfl, rfl⟩
  | value call =>
      cases call with
      | none => exact ⟨rfl, rfl⟩
      | some n => cases h

/-- The guard of a lock lets go of no work. -/
theorem object.first_not_guard {o o' : object} {held : owner} (h : o.first = some (held, o')) :
    o ≠ .guard ∧ o' ≠ .guard := by
  unfold object.first at h
  split at h <;> cases h <;> exact ⟨by simp, by simp⟩

/-- A locked section of `cancel` or `stop` moves references out of the queue. -/
theorem section_refs (call : section_call) (x : owned_executor Unit) (r : Nat) :
    (queue_refs x).count r = (queue_refs (call.locked x).1).count r +
      ((call.locked x).2.discarded.map work.ref).count r := by
  cases call with
  | cancel id =>
      change _ = (queue_refs (x.cancel id).1).count r +
        ((x.cancel id).2.discarded.map work.ref).count r
      rcases owned_executor.cancel_cases x id with
        ⟨w, -, -, heq⟩ | ⟨before, w, after, hpending, -, -, -, heq⟩ | ⟨-, -, heq⟩
      · simp [heq]
      · simp only [heq, queue_refs, hpending, List.map_append, List.map_cons, List.map_nil,
          List.count_append, List.count_cons, List.count_nil]
        omega
      · simp [heq]
  | stop =>
      change _ = (queue_refs x.stop.1).count r + (x.stop.2.discarded.map work.ref).count r
      simp only [owned_executor.stop, queue_refs, List.count_append, List.map_nil, List.count_nil]
      omega

variable {t : Nat} {s s' : shared} {f : frame} {e : Option event} {calls : List frame}

variable (s) in
/-- An object that lets go of its first owner has one reference less, if that is a pointer, and
the count of the work goes down with it. -/
theorem shared.release_count {o o' : object} {held : owner} (h : o.first = some (held, o'))
    (r : Nat) (hr : o.refs.count r ≤ s.use_count r) :
    (s.release held).use_count r + o.refs.count r = s.use_count r + o'.refs.count r := by
  rcases object.first_cases h with ⟨ref, rfl, hrefs, -⟩ | ⟨n, rfl, hrefs, hrefs', -⟩
  · simp only [shared.release, hrefs, List.count_cons, beq_iff_eq] at hr ⊢
    by_cases heq : r = ref
    · subst heq
      simp only [if_true] at hr ⊢
      omega
    · rw [if_neg heq, if_neg (Ne.symm heq)]
      omega
  · rw [hrefs, hrefs']
    rfl

@[simp] theorem shared.release_executor (held : owner) :
    (s.release held).executor = s.executor := by
  cases held <;> rfl

/-! ### The count is right

`counts` is the balance of one step: what the frames before and behind it refer to, the queue
and `active_`, against the change of `use_count`. The owners in all other frames are a summand
that the step leaves alone. `lives` is the consequence that matters: what is referred to is not
destroyed, and the step that drops the last reference destroys it. -/

/-- A step keeps `use_count` the number of references, whatever those of the other calls are.
The cases are the statements that copy a pointer, move one or let one go. -/
theorem frame.Step.counts (h : frame.Step t s f e s' calls) {others : Nat → Nat}
    (hcount : ∀ r, s.use_count r =
      (queue_refs s.executor).count r + f.refs.count r + others r) (r : Nat) :
    s'.use_count r =
      (queue_refs s'.executor).count r + (calls.flatMap frame.refs).count r + others r := by
  have hr := hcount r
  cases h with
  | destroy hclosing hfirst hlast =>
      simp only [frame.refs_mk, List.flatMap_cons, List.count_append] at hr
      have hrelease := shared.release_count s hfirst r (by omega)
      simp only [shared.release_executor, List.flatMap_cons, frame.refs_mk, List.flatMap_nil,
        List.append_nil, List.nil_append, List.count_append]
      omega
  | release hclosing hfirst hlast =>
      simp only [frame.refs_mk, List.flatMap_cons, List.count_append] at hr
      have hrelease := shared.release_count s hfirst r (by omega)
      simp only [shared.release_executor, List.flatMap_cons, frame.refs_mk, List.flatMap_nil,
        List.append_nil, List.count_append]
      omega
  | close hclosing hfirst hguard => simpa [(object.first_none hfirst).1] using hr
  -- the first reference of a work
  | @enqueue_construct n m id =>
      simp only [shared.copy]
      simp at hr
      by_cases hrm : r = m
      · subst hrm
        simp
        omega
      · simp [hrm, Ne.symm hrm]
        omega
  | enqueue_splice hok =>
      obtain ⟨-, -, -, -, rfl⟩ := owned_executor.enqueue_locked_ok hok
      simp only [frame.refs_mk, List.flatMap_cons, queue_refs, object.refs_guard,
        object.refs_works, List.map_append, List.map_cons, List.map_nil, List.count_append,
        List.nil_append, List.flatMap_nil, List.append_nil] at hr ⊢
      omega
  | @section_take call scope =>
      have hsection := section_refs call s.executor r
      simp only [frame.refs_mk, List.flatMap_cons, object.refs_guard, object.refs_works,
        object.refs_source, List.map_nil, List.count_append, List.nil_append, List.flatMap_nil,
        List.append_nil] at hr ⊢
      omega
  -- the front of the queue is held twice now: by `active_` and by `current`
  | @run_take item x scope htake =>
      obtain ⟨-, rest, hpending, rfl⟩ := owned_executor.dequeue_some htake
      simp only [frame.refs_mk, List.flatMap_cons, queue_refs, hpending, object.refs_guard,
        object.refs_pointer, Option.toList, List.map_cons, List.map_nil, List.count_append,
        List.nil_append, List.flatMap_nil, List.append_nil, List.count_cons, List.count_nil,
        shared.copy] at hr ⊢
      by_cases hri : r = item.ref
      · subst hri
        simp at hr ⊢
        omega
      · simp [hri, Ne.symm hri] at hr ⊢
        omega
  | run_reset =>
      simp only [frame.refs_mk, List.flatMap_cons, queue_refs, object.refs_pointer,
        owned_executor.reset_active, Option.toList_none, List.map_nil, List.count_append,
        List.flatMap_nil, List.append_nil] at hr ⊢
      omega
  | _ => simpa using hr

/-- The work of the number has not been destroyed. -/
def shared.live (s : shared) (n : Nat) : Nat := if s.use_count n = 0 then 0 else 1

/-- The reference is the last one exactly if the work goes with it. -/
theorem shared.live_release {ref : Nat} (hheld : s.use_count ref ≠ 0) (n : Nat) :
    (s.release (.reference ref)).live n + (if s.use_count ref = 1 ∧ n = ref then 1 else 0) =
      s.live n := by
  simp only [shared.live, shared.release]
  by_cases hn : n = ref
  · subst hn
    by_cases hone : s.use_count n = 1
    · simp [hone]
    · simp [hone, hheld]
      omega
  · simp [hn]

/-- A further reference to a work that somebody holds makes nothing live or dead. -/
theorem shared.live_copy {ref : Nat} (hheld : s.use_count ref ≠ 0) (n : Nat) :
    (s.copy ref).live n = s.live n := by
  simp only [shared.live, shared.copy]
  by_cases hn : n = ref
  · subst hn
    simp [hheld]
  · simp [hn]

/-- The invocations an event destroys. -/
def event.destroys : event → List Nat
  | .destroyed n => [n]
  | _ => []

/-- An invocation is passed on, into a work and from one reference to another, or destroyed. -/
theorem frame.Step.lives (h : frame.Step t s f e s' calls) {others : Nat → Nat}
    (hcount : ∀ r, s.use_count r =
      (queue_refs s.executor).count r + f.refs.count r + others r)
    (honce : ∀ n, f.values.count n + s.live n ≤ 1) (n : Nat) :
    (e.toList.flatMap event.destroys).count n + (calls.flatMap frame.values).count n + s'.live n =
      f.values.count n + s.live n := by
  cases h with
  | @destroy p q o o' scope held hclosing hfirst hlast =>
      simp only [Option.toList_some, List.flatMap_cons, event.destroys, List.flatMap_nil,
        List.append_nil, frame.values_mk, List.nil_append, List.count_append]
      rcases object.first_cases hfirst with
        ⟨ref, rfl, hrefs, hvalues, hvalues'⟩ | ⟨m, rfl, -, -, hvalues, hvalues'⟩
      -- the last reference goes, and its invocation with it
      · have hone : s.use_count ref = 1 := hlast
        have hlive := shared.live_release (s := s) (by omega : s.use_count ref ≠ 0) n
        simp only [hvalues, hvalues', owner.number, List.count_cons, List.count_nil, beq_iff_eq,
          hone, true_and, eq_comm (a := n)] at hlive ⊢
        omega
      · rw [hvalues, hvalues']
        change _ + _ + s.live n = _
        simp only [owner.number, List.count_nil]
        omega
  | @release p q o o' scope held hclosing hfirst hlast =>
      rcases object.first_cases hfirst with ⟨ref, rfl, hrefs, hvalues, hvalues'⟩ | ⟨m, rfl, -⟩
      · have hheld := hcount ref
        simp only [frame.refs_mk, List.flatMap_cons, hrefs, List.cons_append,
          List.count_cons_self] at hheld
        have hlive := shared.live_release (s := s) (by omega : s.use_count ref ≠ 0) n
        rw [if_neg (fun hor => hlast hor.1)] at hlive
        simp only [Option.toList_none, List.flatMap_nil, List.flatMap_cons, frame.values_mk,
          hvalues, hvalues', List.nil_append, List.append_nil, List.count_nil]
        omega
      · exact absurd trivial hlast
  | close hclosing hfirst hguard => simp [(object.first_none hfirst).2]
  -- the invocation moves from the parameter into a work that nobody refers to yet
  | @enqueue_construct k m id =>
      have hm := honce m
      simp only [frame.values_mk, List.flatMap_cons, List.flatMap_nil, object.values_value,
        object.values_works, object.values_pointer, Option.toList_some, Option.toList_none,
        List.append_nil, List.count_cons_self, List.count_nil, shared.live, shared.copy] at hm ⊢
      by_cases hn : n = m
      · subst hn
        have hnone : s.use_count n = 0 := by
          by_contra hne
          rw [if_neg hne] at hm
          omega
        simp [hnone]
      · simp [hn, Ne.symm hn]
  | @run_take item x scope htake =>
      obtain ⟨-, rest, hpending, rfl⟩ := owned_executor.dequeue_some htake
      have hheld := hcount item.ref
      simp only [queue_refs, hpending, List.map_cons, List.cons_append,
        List.count_cons_self] at hheld
      have hlive := shared.live_copy (s := s) (by omega : s.use_count item.ref ≠ 0) n
      simp only [frame.values_mk, List.flatMap_cons, object.values_guard, object.values_pointer,
        Option.toList_none, List.flatMap_nil, List.nil_append, List.append_nil, List.count_nil,
        Nat.zero_add]
      exact congrArg _ hlive
  | _ => simp [shared.live, event.destroys]

/-! ## The worker's call

`run` is the one call that holds the lock while it changes `active_`, so an assignment there
could destroy a work under the lock. `run_fits` says what each object of the call is at each
point. Of the two places where `active_` loses a pointer, the first finds it null, and the
second keeps the work in a local variable, so the pointer that goes is not the last. -/

/-- The objects of `run` at each point, with what `active_` and `stopping_` are there. -/
def run_fits (x : owned_executor Unit) : run_at → List object → Prop
  | .entered, scope => x.active_ = none ∧ scope = []
  | .registered, scope => x.active_ = none ∧ scope = [.guard]
  | .head, scope => x.active_ = none ∧ scope = []
  | .declared, scope => x.active_ = none ∧ scope = [.pointer none]
  | .locked, scope => x.active_ = none ∧ scope = [.guard, .pointer none]
  | .breaking, scope => x.active_ = none ∧ x.stopping_ = true ∧ scope = [.guard, .pointer none]
  | .broken, scope => x.active_ = none ∧ x.stopping_ = true ∧ scope = [.pointer none]
  | .assigning, scope =>
      ∃ item, x.active_ = some item ∧ scope = [.pointer none, .guard, .pointer (some item)]
  | .assigned, scope => ∃ item, x.active_ = some item ∧ scope = [.guard, .pointer (some item)]
  | .calling, scope => ∃ item, x.active_ = some item ∧ scope = [.pointer (some item)]
  | .called, scope => ∃ item, x.active_ = some item ∧ scope = [.pointer (some item)]
  | .relocked, scope => ∃ item, x.active_ = some item ∧ scope = [.guard, .pointer (some item)]
  | .resetting, scope => x.active_ = none ∧ ∃ item old,
      scope = [.pointer old, .guard, .pointer (some item)] ∧ (old = none ∨ old = some item)
  | .reset, scope => x.active_ = none ∧ ∃ item, scope = [.guard, .pointer (some item)]
  | .unlocked, scope => x.active_ = none ∧ ∃ item, scope = [.pointer (some item)]
  | .retiring, scope => x.active_ = none ∧ ∃ item, scope = [.pointer item, .pointer none]
  | .retired, scope => x.active_ = none ∧ scope = [.pointer none]
  | .out, scope => x.active_ = none ∧ x.stopping_ = true ∧ scope = []
  | .finishing, scope => x.active_ = none ∧ x.stopping_ = true ∧ scope = [.guard]
  | .finished, scope => x.active_ = none ∧ x.stopping_ = true ∧ scope = [.guard]

/-- The calls of the worker's function, and the executor. When it is gone the executor is
stopped. -/
inductive worker_fits (x : owned_executor Unit) : List frame → Prop
  | here {step : run_at} {scope : List object} (h : run_fits x step scope) :
      worker_fits x [⟨.run step, scope⟩]
  | gone (hactive : x.active_ = none) (hstop : x.stopping_ = true) : worker_fits x []

def position.is_run : position → Bool
  | .run _ => true
  | _ => false

def frame.is_run (f : frame) : Bool := f.point.is_run

/-- A call of another function does not come into the worker's. -/
theorem position.closing_other {p q : position} (h : p.closing = some q)
    (hp : p.is_run = false) : q.is_run = false := by
  unfold position.closing at h
  split at h <;> cases h <;> first | rfl | cases hp

/-- Nor does it by locking. -/
theorem position.locking_other {p q : position} (h : p.locking = some q)
    (hp : p.is_run = false) : q.is_run = false := by
  unfold position.locking at h
  split at h <;> cases h <;> first | rfl | cases hp

variable {x : owned_executor Unit} {step : run_at} {scope : List object}

/-- What the worker lets go of next: `old` of a `reset` while the lock is held, or else
something without it. -/
theorem run_fits.first {q : position} {o o' : object} {held : owner}
    (h : run_fits x step (o :: scope)) (hclosing : (position.run step).closing = some q)
    (hfirst : o.first = some (held, o')) :
    run_fits x step (o' :: scope) ∧ (.guard ∉ o :: scope ∨
      ∃ item : work Unit, held = .reference item.ref ∧ o = .pointer (some item) ∧
        scope = [.guard, .pointer (some item)]) := by
  cases step with
  | registered =>
      obtain ⟨-, hscope⟩ := h
      cases hscope
      cases hfirst
  | breaking =>
      obtain ⟨-, -, hscope⟩ := h
      cases hscope
      cases hfirst
  | broken =>
      obtain ⟨-, -, hscope⟩ := h
      cases hscope
      cases hfirst
  | assigning =>
      -- `active_` was null
      obtain ⟨item, -, hscope⟩ := h
      cases hscope
      cases hfirst
  | assigned =>
      obtain ⟨item, -, hscope⟩ := h
      cases hscope
      cases hfirst
  | resetting =>
      obtain ⟨hactive, item, old, hscope, hold⟩ := h
      cases hscope
      rcases hold with rfl | rfl
      · cases hfirst
      · cases hfirst
        exact ⟨⟨hactive, item, none, rfl, .inl rfl⟩, .inr ⟨item, rfl, rfl, rfl⟩⟩
  | reset =>
      obtain ⟨-, item, hscope⟩ := h
      cases hscope
      cases hfirst
  | retiring =>
      obtain ⟨hactive, item, hscope⟩ := h
      cases hscope
      cases item with
      | none => cases hfirst
      | some item =>
          cases hfirst
          exact ⟨⟨hactive, none, rfl⟩, .inl (by simp)⟩
  | retired =>
      obtain ⟨-, hscope⟩ := h
      cases hscope
      cases hfirst
  | finished =>
      obtain ⟨-, -, hscope⟩ := h
      cases hscope
      cases hfirst
  | _ => cases hclosing

/-- The worker's own step leaves a call that fits the executor, or none. At each point it is
known which object holds the work and what `active_` is. -/
theorem frame.Step.worker
    (h : frame.Step t s ⟨.run step, scope⟩ e s' calls) (hfits : run_fits s.executor step scope) :
    worker_fits s'.executor (calls.filter frame.is_run) := by
  cases h with
  | @destroy p q o o' scope held hclosing hfirst hlast =>
      rw [shared.release_executor]
      exact .here (hfits.first hclosing hfirst).1
  | @release p q o o' scope held hclosing hfirst hlast =>
      rw [shared.release_executor]
      exact .here (hfits.first hclosing hfirst).1
  -- an object that holds nothing goes; in the places where it would be the lock this is not the
  -- step
  | @close p q o scope hclosing hfirst hguard =>
      cases step with
      | broken =>
          obtain ⟨hactive, hstop, hscope⟩ := hfits
          cases hscope
          cases hclosing
          exact .here ⟨hactive, hstop, rfl⟩
      | assigning =>
          obtain ⟨item, hactive, hscope⟩ := hfits
          cases hscope
          cases hclosing
          exact .here ⟨item, hactive, rfl⟩
      | resetting =>
          obtain ⟨hactive, item, old, hscope, -⟩ := hfits
          cases hscope
          cases hclosing
          exact .here ⟨hactive, item, rfl⟩
      | retiring =>
          obtain ⟨hactive, item, hscope⟩ := hfits
          cases hscope
          cases hclosing
          exact .here ⟨hactive, rfl⟩
      | retired =>
          obtain ⟨hactive, hscope⟩ := hfits
          cases hscope
          cases hclosing
          exact .here ⟨hactive, rfl⟩
      | registered => exact absurd (by simp_all [run_fits]) hguard
      | breaking => exact absurd (by simp_all [run_fits]) hguard
      | assigned => exact absurd (by simp_all [run_fits]) hguard
      | reset => exact absurd (by simp_all [run_fits]) hguard
      | finished => exact absurd (by simp_all [run_fits]) hguard
      | _ => cases hclosing
  -- the lock is the youngest object in these places, and in no others
  | @unlock p q scope hclosing =>
      cases step with
      | registered =>
          obtain ⟨hactive, hscope⟩ := hfits
          cases hscope
          cases hclosing
          exact .here ⟨hactive, rfl⟩
      | breaking =>
          obtain ⟨hactive, hstop, hscope⟩ := hfits
          cases hscope
          cases hclosing
          exact .here ⟨hactive, hstop, rfl⟩
      | assigned =>
          obtain ⟨item, hactive, hscope⟩ := hfits
          cases hscope
          cases hclosing
          exact .here ⟨item, hactive, rfl⟩
      | reset =>
          obtain ⟨hactive, item, hscope⟩ := hfits
          cases hscope
          cases hclosing
          exact .here ⟨hactive, item, rfl⟩
      | finished =>
          obtain ⟨hactive, hstop, hscope⟩ := hfits
          cases hscope
          cases hclosing
          exact .gone hactive hstop
      | broken => simp [run_fits] at hfits
      | assigning => simp [run_fits] at hfits
      | resetting => simp [run_fits] at hfits
      | retiring => simp [run_fits] at hfits
      | retired => simp [run_fits] at hfits
      | _ => cases hclosing
  | @lock p q scope hlocking hfree =>
      cases step with
      | entered =>
          obtain ⟨hactive, rfl⟩ := hfits
          cases hlocking
          exact .here ⟨hactive, rfl⟩
      | declared =>
          obtain ⟨hactive, rfl⟩ := hfits
          cases hlocking
          exact .here ⟨hactive, rfl⟩
      | called =>
          obtain ⟨item, hactive, rfl⟩ := hfits
          cases hlocking
          exact .here ⟨item, hactive, rfl⟩
      | out =>
          obtain ⟨hactive, hstop, rfl⟩ := hfits
          cases hlocking
          exact .here ⟨hactive, hstop, rfl⟩
      | _ => cases hlocking
  | run_declare =>
      obtain ⟨hactive, -⟩ := hfits
      exact .here ⟨hactive, rfl⟩
  | run_wait hstop hpending =>
      obtain ⟨hactive, hscope⟩ := hfits
      cases hscope
      exact .here ⟨hactive, rfl⟩
  | run_break hstop =>
      obtain ⟨hactive, hscope⟩ := hfits
      exact .here ⟨hactive, hstop, hscope⟩
  -- `active_` is empty while the worker has no work, so nothing is let go here
  | @run_take item y scope htake =>
      obtain ⟨hactive, hscope⟩ := hfits
      cases hscope
      obtain ⟨-, rest, -, rfl⟩ := owned_executor.dequeue_some htake
      rw [hactive]
      exact .here ⟨item, rfl, rfl⟩
  | run_call =>
      obtain ⟨item, hactive, hscope⟩ := hfits
      cases hscope
      exact .here ⟨_, hactive, rfl⟩
  | run_reset =>
      obtain ⟨item, hactive, rfl⟩ := hfits
      rw [hactive]
      exact .here ⟨rfl, item, some item, rfl, .inr rfl⟩
  | run_retire =>
      obtain ⟨hactive, item, hscope⟩ := hfits
      cases hscope
      exact .here ⟨hactive, _, rfl⟩
  | run_finish =>
      obtain ⟨hactive, hstop, hscope⟩ := hfits
      exact .here ⟨hactive, hstop, hscope⟩

/-! ## Calls of the others

Any thread may be in `cancel`, `stop` or `enqueue`. They change the queue, and `stopping_`,
which is never cleared, but not `active_`; so what the worker relies on stays.

`passes` says what a step of another thread may do to the executor as far as the worker minds:
`active_` is as it was, and a stop is not taken back. `drained` is for the end of the executor's
life: `stop` takes the whole queue in the section in which it sets `stopping_`, and nothing is
admitted after that, so a work that is left over could only be the active one. -/

/-- An executor that is stopped has an empty queue. -/
def drained (x : owned_executor Unit) : Prop := x.stopping_ = true → x.pending_ = []

/-- What a step of another call leaves of `active_` and `stopping_`. -/
structure passes (x y : owned_executor Unit) : Prop where
  active : y.active_ = x.active_
  stops : x.stopping_ = true → y.stopping_ = true

/-- A step that leaves both alone. -/
theorem passes.refl (x : owned_executor Unit) : passes x x := ⟨rfl, id⟩

/-- The locked sections of the others change the queue at most. -/
theorem section_passes (call : section_call) (x : owned_executor Unit) :
    passes x (call.locked x).1 := by
  cases call with
  | cancel id =>
      change passes x (x.cancel id).1
      rcases owned_executor.cancel_cases x id with
        ⟨w, -, -, heq⟩ | ⟨before, w, after, -, -, -, -, heq⟩ | ⟨-, -, heq⟩
      · rw [heq]
        exact .refl x
      · rw [heq]
        exact ⟨rfl, fun hstop => hstop⟩
      · rw [heq]
        exact .refl x
  | stop => exact ⟨rfl, fun _ => rfl⟩

/-- What a stop takes out of the queue does not come back, as nothing is queued behind it. -/
theorem section_drained (call : section_call) (h : drained x) : drained (call.locked x).1 := by
  cases call with
  | cancel id =>
      change drained (x.cancel id).1
      rcases owned_executor.cancel_cases x id with
        ⟨w, -, -, heq⟩ | ⟨before, w, after, hpending, -, -, -, heq⟩ | ⟨-, -, heq⟩
      · rw [heq]
        exact h
      · rw [heq]
        intro hstop
        have hempty := h hstop
        rw [hpending] at hempty
        simp at hempty
      · rw [heq]
        exact h
  | stop => exact fun _ => rfl

/-- The worker's call fits after a step of another, as it did before. -/
theorem run_fits.pass {y : owned_executor Unit} (h : run_fits x step scope) (hpass : passes x y) :
    run_fits y step scope := by
  obtain ⟨hactive, hstops⟩ := hpass
  cases step with
  | breaking | broken | out | finishing | finished =>
      obtain ⟨hnone, hstop, hscope⟩ := h
      exact ⟨hactive.trans hnone, hstops hstop, hscope⟩
  | assigning | assigned | calling | called | relocked =>
      obtain ⟨item, hsome, hscope⟩ := h
      exact ⟨item, hactive.trans hsome, hscope⟩
  | _ => exact ⟨hactive.trans h.1, h.2⟩

/-- And so do all its frames. -/
theorem worker_fits.pass {y : owned_executor Unit} {l : List frame} (h : worker_fits x l)
    (hpass : passes x y) : worker_fits y l := by
  cases h with
  | here h => exact .here (h.pass hpass)
  | gone hactive hstop => exact .gone (hpass.active.trans hactive) (hpass.stops hstop)

/-- A call of another function brings no call of the worker's. -/
theorem frame.Step.other (h : frame.Step t s f e s' calls) (hrun : f.is_run = false) :
    calls.filter frame.is_run = [] ∧ passes s.executor s'.executor := by
  cases h with
  | destroy hclosing hfirst hlast =>
      rw [shared.release_executor]
      exact ⟨by simpa [frame.is_run, position.is_run] using hrun, .refl _⟩
  | release hclosing hfirst hlast =>
      rw [shared.release_executor]
      exact ⟨by simpa [frame.is_run] using hrun, .refl _⟩
  | close hclosing hfirst hguard =>
      exact ⟨by simpa [frame.is_run] using position.closing_other hclosing hrun, .refl _⟩
  | unlock hclosing =>
      exact ⟨by simpa [frame.is_run] using position.closing_other hclosing hrun, .refl _⟩
  | lock hlocking hfree =>
      exact ⟨by simpa [frame.is_run] using position.locking_other hlocking hrun, .refl _⟩
  | enqueue_splice hok =>
      obtain ⟨-, -, -, -, rfl⟩ := owned_executor.enqueue_locked_ok hok
      exact ⟨rfl, rfl, id⟩
  | section_take => exact ⟨rfl, section_passes _ _⟩
  | run_declare | run_wait | run_break | run_take | run_call | run_reset | run_retire
  | run_finish => cases hrun
  | _ => exact ⟨rfl, passes.refl _⟩

/-- The queue of a stopped executor stays empty, whichever call takes the step: `enqueue` is
refused then, and the others only take works out. -/
theorem frame.Step.drained (h : frame.Step t s f e s' calls) (hdrained : drained s.executor) :
    drained s'.executor := by
  cases h with
  | destroy hclosing hfirst hlast => rwa [shared.release_executor]
  | release hclosing hfirst hlast => rwa [shared.release_executor]
  | enqueue_splice hok =>
      obtain ⟨hstop, -, -, -, rfl⟩ := owned_executor.enqueue_locked_ok hok
      intro hstopped
      exact absurd (hstop.symm.trans hstopped) (by decide)
  | section_take => exact section_drained _ hdrained
  | run_take htake =>
      obtain ⟨hstop, rest, -, rfl⟩ := owned_executor.dequeue_some htake
      intro hstopped
      exact absurd (hstop.symm.trans hstopped) (by decide)
  | _ => exact hdrained

/-! ## The guard

That no code of the application runs under the lock is a matter of order among the objects of a
call: the guard must be gone before anything is destroyed that could be the last owner of a
work. In all calls but the worker's the guard is the youngest object, so it goes first. The lock
follows the guard of the innermost call, and `guarded` says so for each kind of step. -/

/-- Where the guard can be: it is the youngest object, except in the worker's call. -/
def frame.placed (f : frame) : Prop :=
  match f.point with
  | .user => f.scope = []
  | .run _ => True
  | _ => .guard ∉ f.scope.tail

/-- What is known of a frame: where its guard is, and for the worker's call what its objects
are. -/
def frame.fits (x : owned_executor Unit) (f : frame) : Prop :=
  f.placed ∧ ∀ step, f.point = .run step → run_fits x step f.scope

/-- Without a guard among the older objects the guard can only be the youngest. -/
theorem frame.placed_of_tail {p : position} (hp : p ≠ .user) (h : .guard ∉ scope.tail) :
    (frame.mk p scope).placed := by
  cases p with
  | user => exact absurd rfl hp
  | run step => trivial
  | _ => exact h

/-- The youngest object may change without the others. -/
theorem frame.placed_head {o o' : object} {p : position}
    (h : (frame.mk p (o :: scope)).placed) : (frame.mk p (o' :: scope)).placed := by
  cases p with
  | user => cases h
  | run step => trivial
  | _ => exact h

/-- A call of the worker, or one whose older objects are no guard. -/
theorem frame.fits.cases {o : object} {p : position} (h : (frame.mk p (o :: scope)).fits x) :
    (∃ step, p = .run step ∧ run_fits x step (o :: scope)) ∨ .guard ∉ scope := by
  obtain ⟨hplaced, hrun⟩ := h
  cases p with
  | user => cases hplaced
  | run step => exact .inl ⟨step, rfl, hrun step rfl⟩
  | _ => exact .inr hplaced

/-- When an object is gone the next one may be the guard, and no other. -/
theorem position.closing_placed {o : object} {p q : position} (h : p.closing = some q)
    (hfits : (frame.mk p (o :: scope)).fits x) : (frame.mk q scope).placed := by
  rcases hfits.cases with ⟨step, rfl, hrun⟩ | hplaced
  · cases step <;> cases h <;> try trivial
    -- the last guard of `run`
    obtain ⟨-, -, hscope⟩ := hrun
    cases hscope
    exact List.not_mem_nil
  · refine frame.placed_of_tail ?_ fun hmem => hplaced (List.mem_of_mem_tail hmem)
    unfold position.closing at h
    split at h <;> cases h <;> simp

/-- When the guard goes, the call goes on without one. -/
theorem position.closing_unlocked {p q : position} (h : p.closing = some q)
    (hfits : (frame.mk p (.guard :: scope)).fits x) : .guard ∉ scope := by
  rcases hfits.cases with ⟨step, rfl, hrun⟩ | hplaced
  · cases step with
    -- the places of `run` in which the guard is the youngest object, with what is below it
    | registered =>
        obtain ⟨-, hscope⟩ := hrun
        cases hscope
        simp
    | breaking =>
        obtain ⟨-, -, hscope⟩ := hrun
        cases hscope
        simp
    | assigned =>
        obtain ⟨item, -, hscope⟩ := hrun
        cases hscope
        simp
    | reset =>
        obtain ⟨-, item, hscope⟩ := hrun
        cases hscope
        simp
    | finished =>
        obtain ⟨-, -, hscope⟩ := hrun
        cases hscope
        simp
    | broken => simp [run_fits] at hrun
    | assigning => simp [run_fits] at hrun
    | resetting => simp [run_fits] at hrun
    | retiring => simp [run_fits] at hrun
    | retired => simp [run_fits] at hrun
    | _ => cases h
  · exact hplaced

/-- An object that is destroyed with the last owner is not destroyed under the lock. -/
theorem position.closing_apart {p q : position} {o o' : object} {held : owner}
    (h : p.closing = some q) (hfits : (frame.mk p (o :: scope)).fits s.executor)
    (hfirst : o.first = some (held, o')) (hlast : s.last held)
    (hcount : ∀ r, (frame.mk p (o :: scope)).refs.count r ≤ s.use_count r) :
    .guard ∉ o :: scope := by
  rcases hfits.cases with ⟨step, rfl, hrun⟩ | hplaced
  · obtain ⟨-, hmem | ⟨item, rfl, rfl, rfl⟩⟩ := hrun.first h hfirst
    · exact hmem
    · -- `current` has another reference
      have hone : s.use_count item.ref = 1 := hlast
      have htwo := hcount item.ref
      simp [hone] at htwo
  · rw [List.mem_cons, not_or]
    exact ⟨(object.first_not_guard hfirst).1.symm, hplaced⟩

/-- Code the executor does not know begins to run. -/
def event.user_code : event → Bool
  | .destroyed _ => true
  | .request_stop _ => true
  | .invoked _ => true
  | _ => false

/-- The call that lets it run has no guard. For the destruction of a last owner this is
`closing_apart`; elsewhere the place of the call tells that its scope has none. -/
theorem frame.Step.apart {what : event} (h : frame.Step t s f (some what) s' calls)
    (hwhat : what.user_code = true) (hfits : f.fits s.executor)
    (hcount : ∀ r, f.refs.count r ≤ s.use_count r) : .guard ∉ f.scope := by
  cases h with
  | destroy hclosing hfirst hlast =>
      exact position.closing_apart hclosing hfits hfirst hlast hcount
  | answer => cases hwhat
  | enqueue_splice => cases hwhat
  | section_request =>
      rcases hfits.cases with ⟨step, hstep, -⟩ | hplaced
      · cases hstep
      · simp at hplaced ⊢
        exact hplaced
  | run_call =>
      obtain ⟨item, -, hscope⟩ := hfits.2 _ rfl
      cases hscope
      simp

/-! ### What a step does with the lock

A step takes the lock, gives it up, goes on with it or without it, or lets code of the
application run. In the last case the frame on top holds no guard, and by `wf` no other thread's
guard is this thread's. -/

/-- After the step the guard of the innermost call is the lock of the thread. -/
structure guarded (t : Nat) (s s' : shared) (calls : List frame) : Prop where
  placed : ∀ g ∈ calls, g.placed
  below : ∀ g ∈ calls.tail, .guard ∉ g.scope
  lock : s'.mutex_ = some t ↔ ∃ g ∈ calls.head?, .guard ∈ g.scope
  others : ∀ u, u ≠ t → (s'.mutex_ = some u ↔ s.mutex_ = some u)

/-- The call goes on, with the guard or without as before. -/
theorem guarded.goes_on {g : frame} (hmutex : s.mutex_ = some t ↔ .guard ∈ f.scope)
    (hsame : s'.mutex_ = s.mutex_) (hplaced : g.placed)
    (hguard : .guard ∈ g.scope ↔ .guard ∈ f.scope) : guarded t s s' [g] := by
  refine ⟨by simpa using hplaced, by simp, ?_, fun u _ => by rw [hsame]⟩
  rw [hsame, hmutex, ← hguard]
  simp

/-- Without the guard it lets other code run: a frame of the user's own is put on top, which
holds no guard either, so the lock is not the thread's. -/
theorem guarded.lets_run {g : frame} (hmutex : s.mutex_ = some t ↔ .guard ∈ f.scope)
    (hsame : s'.mutex_ = s.mutex_) (hplaced : g.placed) (hf : .guard ∉ f.scope)
    (hg : .guard ∉ g.scope) : guarded t s s' [⟨.user, []⟩, g] := by
  refine ⟨?_, by simpa using hg, ?_, fun u _ => by rw [hsame]⟩
  · intro c hc
    rcases List.mem_cons.mp hc with rfl | hc
    · rfl
    · rw [List.mem_singleton.mp hc]
      exact hplaced
  · rw [hsame, hmutex]
    simpa using hf

/-- It gives the lock back. -/
theorem guarded.gives {g : frame} (hmutex : s.mutex_ = some t) (hfree : s'.mutex_ = none)
    (hplaced : g.placed) (hg : .guard ∉ g.scope) : guarded t s s' [g] := by
  refine ⟨by simpa using hplaced, by simp, by simpa [hfree] using hg, fun u hu => ?_⟩
  rw [hfree, hmutex, Option.some.injEq]
  simp [hu.symm]

/-- It takes the lock, which nobody held, and its guard is on top of the objects. -/
theorem guarded.takes {q : position} (hmutex : s.mutex_ = some t ↔ .guard ∈ f.scope)
    (hfree : s.mutex_ = none) (hheld : s'.mutex_ = some t) (hq : q ≠ .user) :
    guarded t s s' [⟨q, .guard :: f.scope⟩] := by
  have hf : .guard ∉ f.scope := by
    rw [← hmutex, hfree]
    simp
  have hplaced : (frame.mk q (.guard :: f.scope)).placed := frame.placed_of_tail hq hf
  refine ⟨by simpa using hplaced, by simp, by simp [hheld], fun u hu => ?_⟩
  rw [hfree, hheld, Option.some.injEq]
  simp [hu.symm]

/-- It is over. -/
theorem guarded.returns (hmutex : s.mutex_ = some t ↔ .guard ∈ f.scope) (hf : .guard ∉ f.scope) :
    guarded t s s [] :=
  ⟨by simp, by simp, by simpa [hmutex] using hf, fun _ _ => Iff.rfl⟩

@[simp] theorem shared.release_mutex (held : owner) : (s.release held).mutex_ = s.mutex_ := by
  cases held <;> rfl

/-- The guard of the innermost call stays the lock of the thread. -/
theorem frame.Step.guards (h : frame.Step t s f e s' calls) (hfits : f.fits s.executor)
    (hcount : ∀ r, f.refs.count r ≤ s.use_count r)
    (hmutex : s.mutex_ = some t ↔ .guard ∈ f.scope) : guarded t s s' calls := by
  have hstep := h
  cases h with
  | @destroy p q o o' scope held hclosing hfirst hlast =>
      -- where the last owner goes the mutex is not held, so code of the application may run
      have hapart := position.closing_apart hclosing hfits hfirst hlast hcount
      refine .lets_run hmutex (shared.release_mutex _) (placed_head hfits.1) hapart ?_
      rw [List.mem_cons, not_or] at hapart ⊢
      exact ⟨(object.first_not_guard hfirst).2.symm, hapart.2⟩
  | release hclosing hfirst hlast =>
      refine .goes_on hmutex (shared.release_mutex _) (placed_head hfits.1) ?_
      obtain ⟨hold, hnew⟩ := object.first_not_guard hfirst
      simp [hold.symm, hnew.symm]
  | close hclosing hfirst hguard =>
      refine .goes_on hmutex rfl (position.closing_placed hclosing hfits) ?_
      simp [hguard.symm]
  | unlock hclosing =>
      exact .gives (hmutex.mpr List.mem_cons_self) rfl
        (position.closing_placed hclosing hfits) (position.closing_unlocked hclosing hfits)
  | answer n answer => exact .returns hmutex List.not_mem_nil
  | leave => exact .returns hmutex List.not_mem_nil
  | user_returns => exact .returns hmutex List.not_mem_nil
  | lock hlocking hfree =>
      refine .takes hmutex hfree rfl ?_
      unfold position.locking at hlocking
      split at hlocking <;> cases hlocking <;> simp
  | enqueue_invalid hinvalid hanswer => exact .goes_on hmutex rfl (by simp [placed]) Iff.rfl
  | enqueue_declare hid => exact .goes_on hmutex rfl (by simp [placed]) (by simp)
  | enqueue_throw hstep => exact .goes_on hmutex rfl hfits.1 Iff.rfl
  | enqueue_allocate => exact .goes_on hmutex rfl (by simp [placed]) (by simp)
  | enqueue_construct => exact .goes_on hmutex rfl (by simp [placed]) (by simp)
  | enqueue_node => exact .goes_on hmutex rfl (by simp [placed]) (by simp)
  | enqueue_refuse herror hanswer => exact .goes_on hmutex rfl hfits.1 Iff.rfl
  | enqueue_splice hok =>
      exact .goes_on hmutex rfl (by simpa [placed, fits] using hfits.1) (by simp)
  | enqueue_notify => exact .goes_on hmutex rfl hfits.1 Iff.rfl
  | section_take =>
      exact .goes_on hmutex rfl (by simpa [placed, fits] using hfits.1) (by simp)
  | section_request =>
      have hapart := hstep.apart rfl hfits hcount
      exact .lets_run hmutex rfl (by simpa [placed, fits] using hfits.1) hapart hapart
  | section_leave =>
      exact .goes_on hmutex rfl (by simpa [placed, fits] using hfits.1) (by simp)
  | run_declare => exact .goes_on hmutex rfl trivial (by simp)
  -- waiting for the variable gives the mutex back
  | run_wait hstop hpending =>
      obtain ⟨-, hscope⟩ := hfits.2 _ rfl
      cases hscope
      exact .gives (hmutex.mpr List.mem_cons_self) rfl trivial (by simp)
  | run_break hstop => exact .goes_on hmutex rfl trivial Iff.rfl
  | run_take htake => exact .goes_on hmutex rfl trivial (by simp)
  | run_call =>
      have hapart := hstep.apart rfl hfits hcount
      exact .lets_run hmutex rfl trivial hapart hapart
  | run_reset => exact .goes_on hmutex rfl trivial (by simp)
  | run_retire => exact .goes_on hmutex rfl trivial (by simp)
  | run_finish => exact .goes_on hmutex rfl trivial Iff.rfl

end SynapseMcp.executor_owners
