/-
Runs of `owned_executor`: the worker loop `run()` against any number of threads
calling `enqueue`, `cancel` and `stop`, one locked section a step.

`runtime` is the executor with the position of its worker and a record of what
happened. Its steps are the core the other systems are built on: the executor on
its own below, the same executor with its condition variable, and the server.

The record is how the results are stated: which works were admitted, dequeued,
invoked, returned, removed by a cancel or discarded by a stop, in order. Nothing
in the executor reads it.
-/
import SynapseMcp.OwnedExecutor
import SynapseMcp.Transition
import Mathlib.Data.List.Perm.Basic
import Mathlib.Data.List.Count

set_option autoImplicit false

namespace SynapseMcp

open Transition

variable {ι : Type}

/-! ## The worker and the record

The worker is one thread, and between two sections it is at one of seven places. Which work it
has is part of the place. The executor's own field `active_` names that work only up to
`returned`: it is reset under the lock before the work is let go.

A section is one step, because the mutex is held in it. Between two sections the worker may
stand for any time, and calls of other threads come in between; the places are where it can
stand. -/

/-- Where `run()` is between its locked sections. -/
inductive worker_at (ι : Type) where
  /-- At the head of the loop: in `changed_.wait`, or on the way there. -/
  | waiting
  /-- `current` is set and the lock released; the call has not begun. -/
  | dequeued (current : work ι)
  /-- Inside `current->call(current->context)`. -/
  | calling (current : work ι)
  /-- The call returned or threw; `active_` still names the work. -/
  | returned (current : work ι)
  /-- `active_` is reset; `current.reset()` is next. -/
  | retiring (current : work ι)
  /-- Out of the loop, `finished_` not yet set. -/
  | leaving
  | gone

/-- The work `active_` names at each position. -/
def worker_at.active : worker_at ι → Option (work ι)
  | .dequeued current => some current
  | .calling current => some current
  | .returned current => some current
  | _ => none

/-- The work the worker has taken and not called yet. -/
def worker_at.uninvoked : worker_at ι → List (work ι)
  | .dequeued current => [current]
  | _ => []

/-- The work whose call is under way. -/
def worker_at.running : worker_at ι → List (work ι)
  | .calling current => [current]
  | _ => []

/-- What happens to a work. -/
inductive executor_event (ι : Type) where
  | admitted (item : work ι)
  | removed (item : work ι) (id : json_rpc_id)
  | discarded (item : work ι)
  | dequeued (item : work ι)
  | invoked (item : work ι)
  | returned (item : work ι)

/-- The executor, where its worker is, and what has happened so far. -/
structure runtime (ι : Type) where
  executor : owned_executor ι
  worker : worker_at ι
  /-- Works made so far; the next allocation gets this number. -/
  made : Nat
  trace : List (executor_event ι)

namespace runtime

/-- A started executor. A zero limit starts no thread. -/
def make (max_pending : Nat) : runtime ι where
  executor := .make max_pending
  worker := if max_pending = 0 then .gone else .waiting
  made := 0
  trace := []

/-- `enqueue` called from any thread, with its answer. -/
def enqueue (r : runtime ι) (id : json_rpc_id) (call : Option ι) :
    runtime ι × Option sdk_error :=
  match r.executor.enqueue r.made id call with
  | .ok e =>
      ({ r with
          executor := e
          made := r.made + 1
          trace := r.trace ++ call.toList.map fun c => .admitted ⟨r.made, id, c⟩ }, none)
  | .error err => ({ r with made := r.made + 1 }, some err)

def cancel (r : runtime ι) (id : json_rpc_id) : runtime ι × owned_executor.unlocked ι :=
  let (e, rest) := r.executor.cancel id
  ({ r with executor := e, trace := r.trace ++ rest.discarded.map fun w => .removed w id }, rest)

def stop (r : runtime ι) : runtime ι × owned_executor.unlocked ι :=
  let (e, rest) := r.executor.stop
  ({ r with executor := e, trace := r.trace ++ rest.discarded.map .discarded }, rest)

def dequeue (r : runtime ι) (w : work ι) (e : owned_executor ι) : runtime ι :=
  { r with executor := e, worker := .dequeued w, trace := r.trace ++ [.dequeued w] }

def invoke (r : runtime ι) (w : work ι) : runtime ι :=
  { r with worker := .calling w, trace := r.trace ++ [.invoked w] }

/-- The call is over, normally or by an exception `run()` swallows. -/
def finish_call (r : runtime ι) (w : work ι) : runtime ι :=
  { r with worker := .returned w, trace := r.trace ++ [.returned w] }

def reset_active (r : runtime ι) (w : work ι) : runtime ι :=
  { r with executor := r.executor.reset_active, worker := .retiring w }

def release (r : runtime ι) : runtime ι := { r with worker := .waiting }

def leave (r : runtime ι) : runtime ι := { r with worker := .leaving }

def finish (r : runtime ι) : runtime ι :=
  { r with executor := r.executor.finish, worker := .gone }

/-! ## The record, read by kind

Each list is in the order of the record, so that an order among works is one among lists: that
works are called in the order of admission says that one list is a sublist of the other.

The steps are those of any number of threads, which is why `enqueue`, `cancel` and `stop` have
no position: a call is its section, with the arguments it is made with. What a caller does
behind its section is added by the systems that need it. -/

def admitted (r : runtime ι) : List (work ι) :=
  r.trace.filterMap fun | .admitted w => some w | _ => none

def dequeued (r : runtime ι) : List (work ι) :=
  r.trace.filterMap fun | .dequeued w => some w | _ => none

def invoked (r : runtime ι) : List (work ι) :=
  r.trace.filterMap fun | .invoked w => some w | _ => none

def returned (r : runtime ι) : List (work ι) :=
  r.trace.filterMap fun | .returned w => some w | _ => none

/-- Works a cancel took out of the queue. -/
def removed (r : runtime ι) : List (work ι) :=
  r.trace.filterMap fun | .removed w _ => some w | _ => none

/-- Works a stop took out of the queue. -/
def discarded (r : runtime ι) : List (work ι) :=
  r.trace.filterMap fun | .discarded w => some w | _ => none

end runtime

/-- Who takes a step, and with what. -/
inductive executor_action (ι : Type) where
  | enqueue (id : json_rpc_id) (call : Option ι)
  | cancel (id : json_rpc_id)
  | stop
  | request_stop (ref : Nat)
  | worker

/-- One locked section, or one of the worker's moves between two of them. -/
inductive runtime.Step : runtime ι → executor_action ι → runtime ι → Prop
  | enqueue (r : runtime ι) (id : json_rpc_id) (call : Option ι) :
      Step r (.enqueue id call) (r.enqueue id call).1
  | cancel (r : runtime ι) (id : json_rpc_id) : Step r (.cancel id) (r.cancel id).1
  | stop (r : runtime ι) : Step r .stop r.stop.1
  | dequeue {r : runtime ι} {w : work ι} {e : owned_executor ι} (hworker : r.worker = .waiting)
      (htake : r.executor.dequeue = some (w, e)) : Step r .worker (r.dequeue w e)
  | invoke {r : runtime ι} {w : work ι} (hworker : r.worker = .dequeued w) :
      Step r .worker (r.invoke w)
  | finish_call {r : runtime ι} {w : work ι} (hworker : r.worker = .calling w) :
      Step r .worker (r.finish_call w)
  | reset_active {r : runtime ι} {w : work ι} (hworker : r.worker = .returned w) :
      Step r .worker (r.reset_active w)
  | release {r : runtime ι} {w : work ι} (hworker : r.worker = .retiring w) :
      Step r .worker r.release
  | leave {r : runtime ι} (hworker : r.worker = .waiting) (hstop : r.executor.stopping_ = true) :
      Step r .worker r.leave
  | finish {r : runtime ι} (hworker : r.worker = .leaving) : Step r .worker r.finish

/-- The executor core with a positive limit, from its construction on. -/
def executor_core (ι : Type) (limit : Nat) : System (runtime ι) (executor_action ι) where
  init r := r = .make limit
  step := runtime.Step

/-! ## What each call does to the runtime

The sections of `OwnedExecutor`, seen from outside: what was answered, what the executor is
then, and what went into the record. All later proofs take a call apart by these cases.

An `enqueue` that is refused may have allocated a work all the same, so the counter that numbers
the works goes on with every call. For the callers only the answer counts. -/

/-- An `enqueue` is refused and changes nothing but the allocation count, or it
appends the work it made and records that. -/
theorem runtime.enqueue_cases (r : runtime ι) (id : json_rpc_id) (call : Option ι) :
    (∃ err, r.executor.enqueue r.made id call = .error err ∧
        r.enqueue id call = ({ r with made := r.made + 1 }, some err)) ∨
      (∃ c, id ≠ .null ∧ call = some c ∧ r.executor.stopping_ = false ∧
        r.executor.pending_.length < r.executor.max_pending_ ∧
        (∀ v ∈ r.executor.active_, same_request_id v.id id = false) ∧
        (∀ v ∈ r.executor.pending_, same_request_id v.id id = false) ∧
        r.enqueue id call =
          ({ r with
              executor := { r.executor with
                pending_ := r.executor.pending_ ++ [⟨r.made, id, c⟩] }
              made := r.made + 1
              trace := r.trace ++ [.admitted ⟨r.made, id, c⟩] }, none)) := by
  cases henq : r.executor.enqueue r.made id call with
  | error err => exact .inl ⟨err, rfl, by simp only [runtime.enqueue, henq]⟩
  | ok e =>
      obtain ⟨hid, c, rfl, hlocked⟩ := owned_executor.enqueue_ok henq
      obtain ⟨hstop, hroom, hactive, hpending, rfl⟩ := owned_executor.enqueue_locked_ok hlocked
      exact .inr ⟨c, hid, rfl, hstop, hroom, hactive, hpending, by
        simp only [runtime.enqueue, henq, Option.toList_some, List.map_cons, List.map_nil]⟩

/-- Only the worker moves the worker. -/
@[simp] theorem runtime.enqueue_worker (r : runtime ι) (id : json_rpc_id) (call : Option ι) :
    (r.enqueue id call).1.worker = r.worker := by
  unfold runtime.enqueue
  split <;> rfl

/-- The three outcomes of `owned_executor.cancel_cases`, with the record: the active work's
source is copied, a queued work is taken out and recorded, or nothing is found. -/
theorem runtime.cancel_cases (r : runtime ι) (id : json_rpc_id) :
    (∃ w, r.executor.active_ = some w ∧ same_request_id w.id id = true ∧
        r.cancel id = (r, ⟨some w.ref, []⟩)) ∨
      (∃ before w after, r.executor.pending_ = before ++ w :: after ∧
        same_request_id w.id id = true ∧
        (∀ v ∈ r.executor.active_, same_request_id v.id id = false) ∧
        (∀ v ∈ before, same_request_id v.id id = false) ∧
        r.cancel id =
          ({ r with
              executor := { r.executor with pending_ := before ++ after }
              trace := r.trace ++ [.removed w id] }, ⟨none, [w]⟩)) ∨
      ((∀ v ∈ r.executor.active_, same_request_id v.id id = false) ∧
        (∀ v ∈ r.executor.pending_, same_request_id v.id id = false) ∧
        r.cancel id = (r, ⟨none, []⟩)) := by
  rcases r.executor.cancel_cases id with
    ⟨w, hactive, hsame, heq⟩ | ⟨before, w, after, hitems, hsame, hactive, hbefore, heq⟩ |
      ⟨hactive, hnone, heq⟩
  · exact .inl ⟨w, hactive, hsame, by simp [runtime.cancel, heq]⟩
  · exact .inr (.inl ⟨before, w, after, hitems, hsame, hactive, hbefore,
      by simp [runtime.cancel, heq]⟩)
  · exact .inr (.inr ⟨hactive, hnone, by simp [runtime.cancel, heq]⟩)

/-! ## The invariant of the core

The parts of `runtime_inv` fall into three groups. The first is about the executor in this
moment: the bound, the IDs, what the flags say of the worker. The second is the account: an
admitted work was taken by the worker, removed, discarded, or is still queued. It is kept as a
count for every predicate, so that `omega` closes each case, and read as a permutation at the
end. The third follows a work that was taken: called next, and returned from before another is
taken.

Only the calls change the queue, and only the worker changes `active_`, so the lemmas are
grouped by who takes the step. A move of the worker that touches neither is covered by one
lemma, `move_worker`. -/

/-- Two works whose IDs are not the same request. -/
def distinct_ids (v w : work ι) : Prop := same_request_id v.id w.id = false

/-- What holds of the executor and its record in every state. -/
structure runtime_inv (limit : Nat) (r : runtime ι) : Prop where
  limit_eq : r.executor.max_pending_ = limit
  bounded : r.executor.pending_.length ≤ limit
  ids_distinct : (r.executor.active_.toList ++ r.executor.pending_).Pairwise distinct_ids
  active_worker : r.executor.active_ = r.worker.active
  drained : r.executor.stopping_ = true → r.executor.pending_ = []
  leaving_stopped : r.worker = .leaving ∨ r.worker = .gone → r.executor.stopping_ = true
  finished_gone : r.executor.finished_ = true ↔ r.worker = .gone
  refs_below : ∀ w ∈ r.admitted, w.ref < r.made
  refs_nodup : (r.admitted.map work.ref).Nodup
  fifo : (r.dequeued ++ r.executor.pending_).Sublist r.admitted
  accounted : ∀ p : work ι → Bool, r.admitted.countP p =
    r.dequeued.countP p + r.removed.countP p + r.discarded.countP p +
      r.executor.pending_.countP p
  invoked_eq : r.dequeued = r.invoked ++ r.worker.uninvoked
  returned_eq : r.invoked = r.returned ++ r.worker.running
  removed_same : ∀ w id, executor_event.removed w id ∈ r.trace → same_request_id w.id id = true

section Preservation

variable {limit : Nat} {r : runtime ι}

/-- An executor that has just been made has an empty record. -/
theorem make_inv (hlimit : 0 < limit) : runtime_inv limit (runtime.make limit : runtime ι) := by
  have hne : limit ≠ 0 := by omega
  constructor <;>
    simp [runtime.make, owned_executor.make, hne, runtime.admitted, runtime.dequeued,
      runtime.removed, runtime.discarded, runtime.invoked, runtime.returned, worker_at.active,
      worker_at.uninvoked, worker_at.running]

/-- A step that leaves the executor's lists, its record and the worker's work alone
except for the fresh allocation it made. -/
theorem runtime_inv.made_succ (h : runtime_inv limit r) :
    runtime_inv limit { r with made := r.made + 1 } :=
  { h with refs_below := fun w hw => Nat.lt_succ_of_lt (h.refs_below w hw) }

/-- An admitted work is at the end of the queue and of the record, under a number that no other
has; its ID was compared with those of the active and the queued works under the lock. -/
theorem runtime_inv.enqueue (h : runtime_inv limit r) (id : json_rpc_id) (call : Option ι) :
    runtime_inv limit (r.enqueue id call).1 := by
  rcases r.enqueue_cases id call with
    ⟨err, -, heq⟩ | ⟨c, -, -, hstop, hroom, hactive, hpending, heq⟩
  · rw [heq]
    exact h.made_succ
  · rw [heq]
    have hlim := h.limit_eq
    refine
      { limit_eq := hlim
        bounded := by
          simp only [List.length_append, List.length_singleton]
          omega
        ids_distinct := ?_
        active_worker := h.active_worker
        drained := fun hs => by simp [hstop] at hs
        leaving_stopped := h.leaving_stopped
        finished_gone := h.finished_gone
        refs_below := ?_
        refs_nodup := ?_
        fifo := ?_
        accounted := ?_
        invoked_eq := by simpa [runtime.dequeued, runtime.invoked] using h.invoked_eq
        returned_eq := by simpa [runtime.invoked, runtime.returned] using h.returned_eq
        removed_same := fun w id' hw => h.removed_same w id' (by simpa using hw) }
    -- the two scans of `enqueue` are the comparison with all the others
    · show (r.executor.active_.toList ++ (r.executor.pending_ ++ [_])).Pairwise distinct_ids
      rw [← List.append_assoc, List.pairwise_append]
      refine ⟨h.ids_distinct, by simp, ?_⟩
      intro v hv w hw
      rw [List.mem_singleton.mp hw]
      rcases List.mem_append.mp hv with hv | hv
      · exact hactive v (Option.mem_toList.mp hv)
      · exact hpending v hv
    -- its number is the counter's value, which grows by one
    · intro w hw
      simp only [runtime.admitted, List.filterMap_append, List.filterMap_cons,
        List.filterMap_nil, List.mem_append, List.mem_singleton] at hw
      rcases hw with hw | hw
      · exact Nat.lt_succ_of_lt (h.refs_below w hw)
      · rw [hw]
        exact Nat.lt_succ_self _
    · simp only [runtime.admitted, List.filterMap_append, List.filterMap_cons,
        List.filterMap_nil, List.map_append, List.map_cons, List.map_nil, List.nodup_append]
      refine ⟨h.refs_nodup, by simp, ?_⟩
      intro a ha b hb
      obtain ⟨w, hw, rfl⟩ := List.mem_map.mp ha
      have hlt := h.refs_below w hw
      rw [List.mem_singleton] at hb
      omega
    · simp only [runtime.admitted, runtime.dequeued, List.filterMap_append,
        List.filterMap_cons, List.filterMap_nil, List.append_nil]
      rw [← List.append_assoc]
      exact h.fifo.append (List.Sublist.refl _)
    -- the account: one more admitted, one more in the queue
    · intro p
      have hp := h.accounted p
      simp only [runtime.admitted, runtime.dequeued, runtime.removed, runtime.discarded,
        List.filterMap_append, List.filterMap_cons, List.filterMap_nil, List.append_nil,
        List.countP_append] at hp ⊢
      omega

/-- Works that leave the queue move from the last term of the account to the one
their event is counted in; the rest of the queue keeps its order. -/
theorem runtime_inv.cancel (h : runtime_inv limit r) (id : json_rpc_id) :
    runtime_inv limit (r.cancel id).1 := by
  rcases r.cancel_cases id with
    ⟨w, -, -, heq⟩ | ⟨before, w, after, hitems, hsame, -, -, heq⟩ | ⟨-, -, heq⟩
  · rwa [heq]
  · rw [heq]
    refine
      { limit_eq := h.limit_eq
        bounded := by
          have hb := h.bounded
          rw [hitems] at hb
          simp only [List.length_append, List.length_cons] at hb ⊢
          omega
        ids_distinct := ?_
        active_worker := h.active_worker
        drained := fun hs => by simpa [hitems] using h.drained hs
        leaving_stopped := h.leaving_stopped
        finished_gone := h.finished_gone
        refs_below := fun v hv => h.refs_below v (by simpa [runtime.admitted] using hv)
        refs_nodup := by simpa [runtime.admitted] using h.refs_nodup
        fifo := ?_
        accounted := ?_
        invoked_eq := by simpa [runtime.dequeued, runtime.invoked] using h.invoked_eq
        returned_eq := by simpa [runtime.invoked, runtime.returned] using h.returned_eq
        removed_same := ?_ }
    -- what is left of a list without repetition has none
    · refine h.ids_distinct.sublist ?_
      rw [hitems]
      exact (List.Sublist.refl _).append ((List.Sublist.refl _).append (List.sublist_cons_self _ _))
    · have hsub := h.fifo
      rw [hitems] at hsub
      simp only [runtime.admitted, runtime.dequeued, List.filterMap_append, List.filterMap_cons,
        List.filterMap_nil, List.append_nil]
      exact ((List.Sublist.refl _).append
        ((List.Sublist.refl _).append (List.sublist_cons_self _ _))).trans hsub
    -- the account: one fewer in the queue, one more removed
    · intro p
      have hp := h.accounted p
      simp only [hitems, runtime.admitted, runtime.dequeued, runtime.removed, runtime.discarded,
        List.filterMap_append, List.filterMap_cons, List.filterMap_nil, List.append_nil,
        List.countP_append, List.countP_cons, List.countP_nil] at hp ⊢
      omega
    -- the new event is the removal, and it names the ID it was asked for
    · intro v id' hv
      rcases List.mem_append.mp hv with hv | hv
      · exact h.removed_same v id' hv
      · simp only [List.mem_singleton, executor_event.removed.injEq] at hv
        obtain ⟨rfl, rfl⟩ := hv
        exact hsame
  · rwa [heq]

/-- Discarded works are no events of another kind. -/
theorem filterMap_map_discarded {β : Type} (f : executor_event ι → Option β)
    (hf : ∀ w, f (.discarded w) = none) (items : List (work ι)) :
    (items.map executor_event.discarded).filterMap f = [] := by
  rw [List.filterMap_map]
  exact List.filterMap_eq_nil_iff.mpr fun w _ => hf w

/-- The works that were queued are now discarded; this is where the last term of the account
goes. -/
theorem runtime_inv.stop (h : runtime_inv limit r) : runtime_inv limit r.stop.1 := by
  -- of the events a stop writes, every reading but one sees nothing
  have hkeep : ∀ {β : Type} (f : executor_event ι → Option β), (∀ w, f (.discarded w) = none) →
      r.stop.1.trace.filterMap f = r.trace.filterMap f := by
    intro β f hf
    simp only [runtime.stop, owned_executor.stop, List.filterMap_append,
      filterMap_map_discarded f hf, List.append_nil]
  have hadmitted : r.stop.1.admitted = r.admitted := hkeep _ fun _ => rfl
  have hdequeued : r.stop.1.dequeued = r.dequeued := hkeep _ fun _ => rfl
  have hinvoked : r.stop.1.invoked = r.invoked := hkeep _ fun _ => rfl
  have hreturned : r.stop.1.returned = r.returned := hkeep _ fun _ => rfl
  have hremoved : r.stop.1.removed = r.removed := hkeep _ fun _ => rfl
  have hdiscarded : r.stop.1.discarded = r.discarded ++ r.executor.pending_ := by
    simp only [runtime.discarded, runtime.stop, owned_executor.stop, List.filterMap_append,
      List.filterMap_map]
    congr 1
    exact List.filterMap_some
  refine
    { limit_eq := h.limit_eq
      bounded := Nat.zero_le _
      ids_distinct := ?_
      active_worker := h.active_worker
      drained := fun _ => rfl
      leaving_stopped := fun _ => rfl
      finished_gone := h.finished_gone
      refs_below := fun w hw => h.refs_below w (hadmitted ▸ hw)
      refs_nodup := hadmitted ▸ h.refs_nodup
      fifo := ?_
      accounted := ?_
      invoked_eq := by rw [hdequeued, hinvoked]; exact h.invoked_eq
      returned_eq := by rw [hinvoked, hreturned]; exact h.returned_eq
      removed_same := ?_ }
  · exact h.ids_distinct.sublist ((List.Sublist.refl _).append (List.nil_sublist _))
  · rw [hdequeued, hadmitted]
    exact ((List.Sublist.refl _).append (List.nil_sublist _)).trans h.fifo
  -- the account: the whole queue is now discarded
  · intro p
    have hp := h.accounted p
    rw [hadmitted, hdequeued, hremoved, hdiscarded, List.countP_append]
    show _ = _ + _ + (_ + _) + List.countP p []
    rw [List.countP_nil]
    omega
  · intro w id hw
    rcases List.mem_append.mp hw with hw | hw
    · exact h.removed_same w id hw
    · simp at hw

/-- The front of the queue becomes the active work. `active_` and the queue together are the
list they were, so their IDs are still distinct. -/
theorem runtime_inv.dequeue (h : runtime_inv limit r) {w : work ι} {e : owned_executor ι}
    (hworker : r.worker = .waiting) (htake : r.executor.dequeue = some (w, e)) :
    runtime_inv limit (r.dequeue w e) := by
  obtain ⟨hstop, rest, hpending, rfl⟩ := owned_executor.dequeue_some htake
  -- a worker that waits has no active work, so the list of IDs is the queue alone
  have hactive : r.executor.active_ = none := by rw [h.active_worker, hworker]; rfl
  have hinv := h.invoked_eq
  have hids := h.ids_distinct
  rw [hactive, hpending] at hids
  refine
    { limit_eq := h.limit_eq
      bounded := by
        have hb := h.bounded
        rw [hpending] at hb
        exact Nat.le_of_succ_le hb
      ids_distinct := hids
      active_worker := rfl
      drained := fun hs => by simp [runtime.dequeue, hstop] at hs
      leaving_stopped := by simp [runtime.dequeue]
      finished_gone := by
        have hf := h.finished_gone
        simp only [hworker] at hf
        simpa [runtime.dequeue] using hf
      refs_below := fun v hv =>
      h.refs_below v (by simpa [runtime.admitted, runtime.dequeue] using hv)
      refs_nodup := by simpa [runtime.admitted, runtime.dequeue] using h.refs_nodup
      fifo := ?_
      accounted := ?_
      invoked_eq := ?_
      returned_eq := ?_
      removed_same := fun v id hv => h.removed_same v id (by simpa [runtime.dequeue] using hv) }
  · have hsub := h.fifo
    rw [hpending] at hsub
    simpa [runtime.admitted, runtime.dequeued, runtime.dequeue] using hsub
  -- the account: one fewer in the queue, one more dequeued
  · intro p
    have hp := h.accounted p
    simp only [hpending, runtime.dequeue, runtime.admitted, runtime.dequeued, runtime.removed,
      runtime.discarded, List.filterMap_append, List.filterMap_cons, List.filterMap_nil,
      List.append_nil, List.countP_append, List.countP_cons, List.countP_nil] at hp ⊢
    omega
  · rw [hworker] at hinv
    simpa [runtime.dequeued, runtime.invoked, runtime.dequeue, worker_at.uninvoked] using hinv
  · have hret := h.returned_eq
    rw [hworker] at hret
    simpa [runtime.invoked, runtime.returned, runtime.dequeue, worker_at.running] using hret

/-- A move of the worker that only says of its work how far the call has come: the executor is
as it was, and so are the kinds of events that are about the queue. -/
theorem runtime_inv.move_worker (h : runtime_inv limit r) (w' : worker_at ι)
    (events : List (executor_event ι))
    (hqueue : ∀ event ∈ events, ∃ w, event = .invoked w ∨ event = .returned w)
    (hactive : w'.active = r.worker.active)
    (hleaving : w' = .leaving → r.executor.stopping_ = true)
    (hgone : w' ≠ .gone) (hthere : r.worker ≠ .gone)
    (hinv : r.dequeued =
      runtime.invoked { r with worker := w', trace := r.trace ++ events } ++ w'.uninvoked)
    (hret : runtime.invoked { r with worker := w', trace := r.trace ++ events } =
      runtime.returned { r with worker := w', trace := r.trace ++ events } ++ w'.running) :
    runtime_inv limit { r with worker := w', trace := r.trace ++ events } := by
  -- calls and returns are no events of the queue
  have hkind : ∀ {α : Type} (f : executor_event ι → Option α),
      (∀ w, f (.invoked w) = none) → (∀ w, f (.returned w) = none) →
      (r.trace ++ events).filterMap f = r.trace.filterMap f := by
    intro α f hinvoked hreturned
    have hnil : events.filterMap f = [] := by
      refine List.filterMap_eq_nil_iff.mpr fun event hmem => ?_
      obtain ⟨w, rfl | rfl⟩ := hqueue event hmem
      · exact hinvoked w
      · exact hreturned w
    rw [List.filterMap_append, hnil, List.append_nil]
  have hadmitted : runtime.admitted { r with worker := w', trace := r.trace ++ events } =
      r.admitted := hkind _ (fun _ => rfl) (fun _ => rfl)
  have hdequeued : runtime.dequeued { r with worker := w', trace := r.trace ++ events } =
      r.dequeued := hkind _ (fun _ => rfl) (fun _ => rfl)
  have hremoved : runtime.removed { r with worker := w', trace := r.trace ++ events } =
      r.removed := hkind _ (fun _ => rfl) (fun _ => rfl)
  have hdiscarded : runtime.discarded { r with worker := w', trace := r.trace ++ events } =
      r.discarded := hkind _ (fun _ => rfl) (fun _ => rfl)
  refine
    { limit_eq := h.limit_eq
      bounded := h.bounded
      ids_distinct := h.ids_distinct
      active_worker := h.active_worker.trans hactive.symm
      drained := h.drained
      leaving_stopped := fun hover => hover.elim hleaving fun hover => absurd hover hgone
      finished_gone :=
        ⟨fun hfin => absurd (h.finished_gone.mp hfin) hthere, fun hover => absurd hover hgone⟩
      refs_below := by rw [hadmitted]; exact h.refs_below
      refs_nodup := by rw [hadmitted]; exact h.refs_nodup
      fifo := by rw [hadmitted, hdequeued]; exact h.fifo
      accounted := by rw [hadmitted, hdequeued, hremoved, hdiscarded]; exact h.accounted
      invoked_eq := by rw [hdequeued]; exact hinv
      returned_eq := hret
      removed_same := fun w id hmem => ?_ }
  rcases List.mem_append.mp hmem with hmem | hmem
  · exact h.removed_same w id hmem
  · obtain ⟨v, hevent | hevent⟩ := hqueue _ hmem
    · cases hevent
    · cases hevent

/-- The call begins: the work is counted as called. -/
theorem runtime_inv.invoke (h : runtime_inv limit r) {w : work ι}
    (hworker : r.worker = .dequeued w) : runtime_inv limit (r.invoke w) := by
  have hinv := h.invoked_eq
  have hret := h.returned_eq
  rw [hworker] at hinv hret
  refine h.move_worker _ _ ?_ (by rw [hworker]; rfl) nofun nofun (by rw [hworker]; nofun) ?_ ?_
  · exact fun event hmem => ⟨w, .inl (List.mem_singleton.mp hmem)⟩
  · simpa [runtime.invoked, worker_at.uninvoked] using hinv
  · simpa [runtime.invoked, runtime.returned, worker_at.running] using hret

/-- The call is over, by return or by an exception. -/
theorem runtime_inv.finish_call (h : runtime_inv limit r) {w : work ι}
    (hworker : r.worker = .calling w) : runtime_inv limit (r.finish_call w) := by
  have hinv := h.invoked_eq
  have hret := h.returned_eq
  rw [hworker] at hinv hret
  refine h.move_worker _ _ ?_ (by rw [hworker]; rfl) nofun nofun (by rw [hworker]; nofun) ?_ ?_
  · exact fun event hmem => ⟨w, .inr (List.mem_singleton.mp hmem)⟩
  · simpa [runtime.invoked, worker_at.uninvoked] using hinv
  · simpa [runtime.invoked, runtime.returned, worker_at.running] using hret

/-- `active_.reset()` frees the ID; the queue is untouched, and the work that returned is still
in the worker's hands. -/
theorem runtime_inv.reset_active (h : runtime_inv limit r) {w : work ι}
    (hworker : r.worker = .returned w) : runtime_inv limit (r.reset_active w) := by
  have hinv := h.invoked_eq
  have hret := h.returned_eq
  have hfin := h.finished_gone
  rw [hworker] at hinv hret hfin
  exact
    { h with
      ids_distinct := h.ids_distinct.sublist (List.sublist_append_right _ _)
      active_worker := rfl
      leaving_stopped := by simp [runtime.reset_active]
      finished_gone := by simpa [runtime.reset_active, owned_executor.reset_active] using hfin
      invoked_eq := hinv
      returned_eq := hret }

/-- The worker lets its work go and is back at the head of the loop. -/
theorem runtime_inv.release (h : runtime_inv limit r) {w : work ι}
    (hworker : r.worker = .retiring w) : runtime_inv limit r.release := by
  have hinv := h.invoked_eq
  have hret := h.returned_eq
  rw [hworker] at hinv hret
  have hmove := h.move_worker .waiting [] nofun (by rw [hworker]; rfl)
    nofun nofun (by rw [hworker]; nofun)
  rw [List.append_nil] at hmove
  exact hmove hinv hret

/-- It leaves the loop where it has found `stopping_` set. -/
theorem runtime_inv.leave (h : runtime_inv limit r) (hworker : r.worker = .waiting)
    (hstop : r.executor.stopping_ = true) : runtime_inv limit r.leave := by
  have hinv := h.invoked_eq
  have hret := h.returned_eq
  rw [hworker] at hinv hret
  have hmove := h.move_worker .leaving [] nofun (by rw [hworker]; rfl)
    (fun _ => hstop) nofun (by rw [hworker]; nofun)
  rw [List.append_nil] at hmove
  exact hmove hinv hret

/-- And `finished_` says that it has left, which it did behind a stop. -/
theorem runtime_inv.finish (h : runtime_inv limit r) (hworker : r.worker = .leaving) :
    runtime_inv limit r.finish := by
  have hactive := h.active_worker
  have hinv := h.invoked_eq
  have hret := h.returned_eq
  rw [hworker] at hactive hinv hret
  exact
    { h with
      active_worker := hactive
      leaving_stopped := fun _ => h.leaving_stopped (.inl hworker)
      finished_gone := by simp [runtime.finish, owned_executor.finish]
      invoked_eq := hinv
      returned_eq := hret }

/-- Every step of the core keeps the invariant, one case a constructor. -/
theorem runtime_inv.step (h : runtime_inv limit r) {a : executor_action ι} {r' : runtime ι}
    (hstep : runtime.Step r a r') : runtime_inv limit r' := by
  cases hstep with
  | enqueue id call => exact h.enqueue id call
  | cancel id => exact h.cancel id
  | stop => exact h.stop
  | dequeue hworker htake => exact h.dequeue hworker htake
  | invoke hworker => exact h.invoke hworker
  | finish_call hworker => exact h.finish_call hworker
  | reset_active hworker => exact h.reset_active hworker
  | release hworker => exact h.release hworker
  | leave hworker hstop => exact h.leave hworker hstop
  | finish hworker => exact h.finish hworker

/-- It holds in every state of an executor. -/
theorem core_inv (hlimit : 0 < limit) (hr : (executor_core ι limit).Reachable r) :
    runtime_inv limit r := by
  refine hr.invariant ?_ ?_
  · rintro s rfl
    exact make_inv hlimit
  · intro s a t _ hs hst
    exact hs.step hst

end Preservation

/-! ## After stop

`stop()` empties the queue and sets `stopping_` in one section. From then on an `enqueue` is
refused, and with nothing queued there is nothing to take: the two ways for the lists to grow
are closed.

The worker may still be in a call then. It ends it, finds `stopping_` set and leaves. -/

/-- A worker that has finished has finished for good: no call of the executor's takes the flag
back, and a finished executor is not started again. -/
theorem runtime.Step.finished {r r' : runtime ι} {a : executor_action ι}
    (hstep : runtime.Step r a r') (h : r.executor.finished_ = true) :
    r'.executor.finished_ = true := by
  cases hstep with
  | enqueue id call =>
      rcases r.enqueue_cases id call with ⟨err, -, heq⟩ | ⟨c, -, -, -, -, -, -, heq⟩
      · rw [heq]
        exact h
      · rw [heq]
        exact h
  | cancel id =>
      rcases r.cancel_cases id with ⟨w, -, -, heq⟩ | ⟨before, w, after, -, -, -, -, heq⟩ |
        ⟨-, -, heq⟩
      · rw [heq]
        exact h
      · rw [heq]
        exact h
      · rw [heq]
        exact h
  | @dequeue w e hworker htake =>
      obtain ⟨-, rest, -, rfl⟩ := owned_executor.dequeue_some htake
      exact h
  | finish hworker => rfl
  | _ => exact h

/-- Once `stopping_` is set the queue is empty and stays so: no section admits or
dequeues anything again. -/
theorem closed_step {limit : Nat} {r r' : runtime ι} {a : executor_action ι}
    (h : runtime_inv limit r) (hstop : r.executor.stopping_ = true) (hstep : runtime.Step r a r') :
    r'.executor.stopping_ = true ∧ r'.admitted = r.admitted ∧ r'.dequeued = r.dequeued := by
  have hempty := h.drained hstop
  cases hstep with
  | enqueue id call =>
      rcases r.enqueue_cases id call with ⟨err, -, heq⟩ | ⟨c, -, -, hopen, -⟩
      · rw [heq]
        exact ⟨hstop, rfl, rfl⟩
      · rw [hstop] at hopen
        cases hopen
  | cancel id =>
      rcases r.cancel_cases id with ⟨w, -, -, heq⟩ | ⟨before, w, after, hitems, -⟩ | ⟨-, -, heq⟩
      · rw [heq]
        exact ⟨hstop, rfl, rfl⟩
      -- nothing is queued that a cancellation could remove
      · simp [hempty] at hitems
      · rw [heq]
        exact ⟨hstop, rfl, rfl⟩
  | stop =>
      simp [runtime.stop, owned_executor.stop, hempty, runtime.admitted, runtime.dequeued]
  | dequeue hworker htake =>
      have hopen := (owned_executor.dequeue_some htake).1
      rw [hstop] at hopen
      cases hopen
  | invoke _ => exact ⟨hstop, by simp [runtime.admitted, runtime.invoke],
      by simp [runtime.dequeued, runtime.invoke]⟩
  | finish_call _ => exact ⟨hstop, by simp [runtime.admitted, runtime.finish_call],
      by simp [runtime.dequeued, runtime.finish_call]⟩
  | reset_active _ => exact ⟨hstop, rfl, rfl⟩
  | release _ => exact ⟨hstop, rfl, rfl⟩
  | leave _ _ => exact ⟨hstop, rfl, rfl⟩
  | finish _ => exact ⟨hstop, rfl, rfl⟩

/-! ## The executor with its callers

A `cancel` or `stop` that found an active work requests its stop source after the
lock is released. `requesting` holds the sources copied and not yet requested,
`requested` those that have been, each by the `ref` of the work it belongs to.

A request is made once for each source that was copied; the stop source lives as long as one of
its copies, so it may be requested after the work is over, and this harms nobody. -/

/-- The executor with the stop sources its callers have copied and not requested yet, and those
they have. -/
structure executor_system (ι : Type) where
  run : runtime ι
  requesting : List Nat
  requested : List Nat

/-- The steps of the executor, and the request a caller makes after the lock. -/
inductive executor_system.Step : executor_system ι → executor_action ι → executor_system ι → Prop
  | enqueue (s : executor_system ι) (id : json_rpc_id) (call : Option ι) :
      Step s (.enqueue id call) { s with run := (s.run.enqueue id call).1 }
  | cancel (s : executor_system ι) (id : json_rpc_id) :
      Step s (.cancel id)
        { s with
          run := (s.run.cancel id).1
          requesting := s.requesting ++ (s.run.cancel id).2.active_stop.toList }
  | stop (s : executor_system ι) :
      Step s .stop
        { s with
          run := s.run.stop.1
          requesting := s.requesting ++ s.run.stop.2.active_stop.toList }
  | request_stop {s : executor_system ι} {ref : Nat} (hmem : ref ∈ s.requesting) :
      Step s (.request_stop ref)
        { s with requesting := s.requesting.erase ref, requested := s.requested ++ [ref] }
  | worker {s : executor_system ι} {r : runtime ι} (hstep : runtime.Step s.run .worker r) :
      Step s .worker { s with run := r }

/-- A started executor with a positive pending limit. -/
def executor_runs (ι : Type) (limit : Nat) : System (executor_system ι) (executor_action ι) where
  init s := s = ⟨.make limit, [], []⟩
  step := executor_system.Step

section Runs

variable {limit : Nat} {s t : executor_system ι}

/-- A step of the system is a step of the core, or a stop request the core does not see. -/
theorem executor_system.Step.core {a : executor_action ι} (h : executor_system.Step s a t) :
    runtime.Step s.run a t.run ∨ t.run = s.run := by
  cases h with
  | enqueue id call => exact .inl (.enqueue _ id call)
  | cancel id => exact .inl (.cancel _ id)
  | stop => exact .inl (.stop _)
  | request_stop hmem => exact .inr rfl
  | worker hstep => exact .inl hstep

/-- The executor with its callers refines the core: a step is one of the core, or one of the
callers alone that the core does not see. -/
theorem executor_runs_core :
    (executor_runs ι limit).Simulation (executor_core ι limit) executor_system.run where
  init := by
    rintro s rfl
    rfl
  step := by
    intro s a t _ _ hst
    rcases hst.core with hcore | hsame
    · exact .single ⟨a, hcore⟩
    · rw [hsame]
      exact .refl

/-- So the invariant holds here too. -/
theorem executor_runs_inv (hlimit : 0 < limit) (hs : (executor_runs ι limit).Reachable s) :
    runtime_inv limit s.run :=
  core_inv hlimit (executor_runs_core.reachable hs)

/-! ## The contract

What a user of the executor relies on, read off the invariant. The account is turned into a
permutation, and a work that was not called is found in one of its places.

The order is a sublist: works leave the queue by a cancel or a stop too, and those that are
called are called in the order in which they were admitted. -/

/-- What holds of the executor and its record in every reachable state. -/
structure executor_contract (limit : Nat) (r : runtime ι) : Prop where
  /-- The invocations begun are the ones that ended, and at most one more. -/
  one_active : ∃ running, r.invoked = r.returned ++ running ∧ running.length ≤ 1
  pending_bounded : r.executor.pending_.length ≤ limit
  ids_distinct : (r.executor.active_.toList ++ r.executor.pending_).Pairwise distinct_ids
  /-- No two admissions are of one work. -/
  admitted_once : (r.admitted.map work.ref).Nodup
  dequeued_in_order : r.dequeued.Sublist r.admitted
  invoked_in_order : r.invoked.Sublist r.dequeued
  /-- Each admitted work is in exactly one of these places. -/
  accounted : r.admitted.Perm (r.dequeued ++ r.removed ++ r.discarded ++ r.executor.pending_)
  /-- A work that is not invoked is still queued, about to be called, or was taken
  out of the queue by a cancel with its ID or by a stop. -/
  uninvoked : ∀ w ∈ r.admitted, w ∉ r.invoked →
    w ∈ r.executor.pending_ ∨ r.worker = .dequeued w ∨
      (∃ id, executor_event.removed w id ∈ r.trace ∧ same_request_id w.id id = true) ∨
      executor_event.discarded w ∈ r.trace
  finished : r.executor.finished_ = true →
    r.executor.stopping_ = true ∧ r.executor.pending_ = [] ∧ r.executor.active_ = none

/-- The account as lists: the admitted works are those of the four places. -/
theorem runtime_inv.perm {r : runtime ι} (h : runtime_inv limit r) :
    r.admitted.Perm (r.dequeued ++ r.removed ++ r.discarded ++ r.executor.pending_) := by
  classical
  rw [List.perm_iff_count]
  intro w
  simp only [List.count_append]
  exact h.accounted _

/-- A work is on the list of the removed ones exactly if the record has its removal, by a
`cancel` with some ID. -/
theorem mem_removed {r : runtime ι} {w : work ι} :
    w ∈ r.removed ↔ ∃ id, executor_event.removed w id ∈ r.trace := by
  simp only [runtime.removed, List.mem_filterMap]
  constructor
  · rintro ⟨event, hmem, hevent⟩
    split at hevent
    · rename_i v id
      rw [Option.some.injEq] at hevent
      exact ⟨id, hevent ▸ hmem⟩
    · cases hevent
  · rintro ⟨id, hmem⟩
    exact ⟨_, hmem, rfl⟩

/-- Discarded, by a `stop`: the list is what the events of that kind in the trace carry, so
nothing is on it but by such an event. -/
theorem mem_discarded {r : runtime ι} {w : work ι} :
    w ∈ r.discarded ↔ executor_event.discarded w ∈ r.trace := by
  simp only [runtime.discarded, List.mem_filterMap]
  constructor
  · rintro ⟨event, hmem, hevent⟩
    split at hevent
    · rw [Option.some.injEq] at hevent
      exact hevent ▸ hmem
    · cases hevent
  · intro hmem
    exact ⟨_, hmem, rfl⟩

/-- The invariant, in the words of the contract. The account of the works becomes a permutation,
and a work that was not called is looked for in its places. -/
theorem runtime_inv.contract {r : runtime ι} (h : runtime_inv limit r) :
    executor_contract limit r where
  one_active := by
    refine ⟨r.worker.running, h.returned_eq, ?_⟩
    cases r.worker <;> simp [worker_at.running]
  pending_bounded := h.bounded
  ids_distinct := h.ids_distinct
  admitted_once := h.refs_nodup
  dequeued_in_order := (List.sublist_append_left _ _).trans h.fifo
  invoked_in_order := by
    rw [h.invoked_eq]
    exact List.sublist_append_left _ _
  accounted := h.perm
  uninvoked := by
    intro w hw hnot
    -- it is in one of the places of the account
    have hplace := h.perm.mem_iff.mp hw
    simp only [List.mem_append, h.invoked_eq] at hplace
    rcases hplace with (((hinv | hun) | hrem) | hdis) | hpen
    · exact absurd hinv hnot
    · right; left
      cases hworker : r.worker with
      | dequeued v =>
          rw [hworker] at hun
          rw [List.mem_singleton.mp hun]
      | _ =>
          rw [hworker] at hun
          cases hun
    · obtain ⟨id, hid⟩ := mem_removed.mp hrem
      exact .inr (.inr (.inl ⟨id, hid, h.removed_same w id hid⟩))
    · exact .inr (.inr (.inr (mem_discarded.mp hdis)))
    · exact .inl hpen
  finished := by
    intro hfin
    have hgone := h.finished_gone.mp hfin
    have hstop := h.leaving_stopped (.inr hgone)
    exact ⟨hstop, h.drained hstop, by rw [h.active_worker, hgone]; rfl⟩

/-- What a `cancel(id)` does to the executor: the active work, the flags and the
worker stay. Either the active work has the ID, the queue stays and its stop
source is the one that will be requested; or no source is taken, and at most the
one queued work with the ID leaves while the others keep their order. -/
structure cancel_frame (s : executor_system ι) (id : json_rpc_id) (t : executor_system ι) :
    Prop where
  active : t.run.executor.active_ = s.run.executor.active_
  stopping : t.run.executor.stopping_ = s.run.executor.stopping_
  finished : t.run.executor.finished_ = s.run.executor.finished_
  worker : t.run.worker = s.run.worker
  requested : t.requested = s.requested
  outcome :
    (∃ w, s.run.executor.active_ = some w ∧ same_request_id w.id id = true ∧
      t.run.executor.pending_ = s.run.executor.pending_ ∧ t.requesting = s.requesting ++ [w.ref]) ∨
    (t.requesting = s.requesting ∧ (∀ w ∈ s.run.executor.active_, same_request_id w.id id = false) ∧
      ((t.run.executor.pending_ = s.run.executor.pending_ ∧
          ∀ w ∈ s.run.executor.pending_, same_request_id w.id id = false) ∨
        ∃ before w after, s.run.executor.pending_ = before ++ w :: after ∧
          same_request_id w.id id = true ∧ t.run.executor.pending_ = before ++ after ∧
          t.run.removed = s.run.removed ++ [w] ∧
          ∀ v ∈ before ++ after, same_request_id v.id id = false))

/-- A `cancel` is as the frame says. That no other queued work has the ID too is the
distinctness of IDs. -/
theorem cancel_step (h : runtime_inv limit s.run) {id : json_rpc_id}
    (hstep : executor_system.Step s (.cancel id) t) : cancel_frame s id t := by
  cases hstep
  rcases s.run.cancel_cases id with
    ⟨w, hactive, hsame, heq⟩ | ⟨before, w, after, hitems, hsame, hactive, hbefore, heq⟩ |
      ⟨hactive, hnone, heq⟩
  · constructor <;> simp only [heq]
    exact .inl ⟨w, hactive, hsame, trivial, by simp⟩
  · constructor <;> simp only [heq]
    refine .inr ⟨by simp, hactive, .inr ⟨before, w, after, hitems, hsame, rfl, ?_, ?_⟩⟩
    · simp [runtime.removed]
    · intro v hv
      rcases List.mem_append.mp hv with hv | hv
      · exact hbefore v hv
      · -- a second queued work with the ID would not be distinct from the first
        have hids := h.ids_distinct
        rw [hitems, List.pairwise_append, List.pairwise_append] at hids
        have hwv : same_request_id w.id v.id = false :=
          List.rel_of_pairwise_cons hids.2.1.2.1 hv
        by_contra hvid
        rw [Bool.not_eq_false] at hvid
        rw [same_request_id_trans hsame (same_request_id_symm hvid)] at hwv
        cases hwv
  · constructor <;> simp only [heq]
    exact .inr ⟨by simp, hactive, .inl ⟨trivial, hnone⟩⟩

/-- A run from a state in which `stop()` has taken the lock admits and dequeues nothing. -/
theorem closed_run (hlimit : 0 < limit) (hs : (executor_runs ι limit).Reachable s)
    (hstop : s.run.executor.stopping_ = true) (hrun : (executor_runs ι limit).Run s t) :
    t.run.executor.stopping_ = true ∧ t.run.admitted = s.run.admitted ∧
      t.run.dequeued = s.run.dequeued := by
  refine hrun.keeps (P := fun u => u.run.executor.stopping_ = true ∧
    u.run.admitted = s.run.admitted ∧ u.run.dequeued = s.run.dequeued) ?_ hs ⟨hstop, rfl, rfl⟩
  rintro u a v hu ⟨hu1, hu2, hu3⟩ hstep
  rcases hstep.core with hcore | hsame
  · obtain ⟨h1, h2, h3⟩ := closed_step (executor_runs_inv hlimit hu) hu1 hcore
    exact ⟨h1, h2.trans hu2, h3.trans hu3⟩
  · rw [hsame]
    exact ⟨hu1, hu2, hu3⟩

/-- **The executor's contract over whole runs.** In every reachable state the
contract holds; a `cancel` touches at most one queued work and never the active
one's ID; `stop()` closes admission and empties the queue, and from then on
nothing is admitted or dequeued. -/
theorem executor_runs_contract (hlimit : 0 < limit) (hs : (executor_runs ι limit).Reachable s) :
    executor_contract limit s.run ∧
      (∀ id t, executor_system.Step s (.cancel id) t → cancel_frame s id t) ∧
      (∀ t, executor_system.Step s .stop t →
        t.run.executor.stopping_ = true ∧ t.run.executor.pending_ = []) ∧
      (∀ t, s.run.executor.stopping_ = true → (executor_runs ι limit).Run s t →
        t.run.executor.stopping_ = true ∧ t.run.admitted = s.run.admitted ∧
          t.run.dequeued = s.run.dequeued) := by
  have hinv := executor_runs_inv hlimit hs
  refine ⟨hinv.contract, fun id t hstep => cancel_step hinv hstep, ?_, ?_⟩
  · intro t hstep
    cases hstep
    exact ⟨rfl, rfl⟩
  · intro t hstop hrun
    exact closed_run hlimit hs hstop hrun

/-- The contract at an executor with one request queued. -/
theorem executor_runs_contract_one_queued :
    executor_contract 1 ((runtime.make 1 : runtime Unit).enqueue (.int64 7) (some ())).1 ∧
      ((runtime.make 1 : runtime Unit).enqueue (.int64 7) (some ())).1.executor.pending_.length
        = 1 := by
  have hinit : (executor_runs Unit 1).Reachable ⟨.make 1, [], []⟩ := .of_init rfl
  have hreach := hinit.step (.enqueue ⟨.make 1, [], []⟩ (.int64 7) (some ()))
  exact ⟨(executor_runs_contract (by decide) hreach).1, rfl⟩

end Runs

end SynapseMcp
