/-
`detail/owned_executor.hpp`: the state under the executor's mutex, one function
for each section that holds it, and what each section does.

The type of invocations is a parameter: the executor moves them around and never
looks inside. A `shared_ptr<work>` is a `work` value with the number `ref` of its
allocation, so two works made from equal arguments are still two works.

`cancel` and `stop` return what they keep for after the lock is released: the
stop source they copied out of the active work, named by that work's `ref`, and the
works they spliced out of the queue, whose captures die with the local list.
-/
import SynapseMcp.Protocol
import Mathlib.Data.List.Basic

set_option autoImplicit false

namespace SynapseMcp

/-! ## Wire identity

The rule for when two IDs are one request is a comparison of cases in the source. It is the same
as having one identity, so it is symmetric and transitive, which is what a table of IDs needs. -/

/-- Strings differ from numbers; signed and unsigned representations of one integer
are the same ID, compared as `std::cmp_equal` compares them; null is no ID. -/
def same_request_id : json_rpc_id → json_rpc_id → Bool
  | .int64 a, .int64 b => a.toInt = b.toInt
  | .int64 a, .uint64 b => a.toInt = b.toNat
  | .uint64 a, .int64 b => (a.toNat : Int) = b.toInt
  | .uint64 a, .uint64 b => (a.toNat : Int) = b.toNat
  | .string a, .string b => a = b
  | _, _ => false

/-- What an ID identifies: a string, or a mathematical integer. -/
def request_identity : json_rpc_id → Option (String ⊕ Int)
  | .string value => some (.inl value)
  | .int64 value => some (.inr value.toInt)
  | .uint64 value => some (.inr value.toNat)
  | .null => none

/-- `same_request_id` is equality of identities, so nothing is narrowed. -/
theorem same_request_id_iff (a b : json_rpc_id) :
    same_request_id a b = true ↔
      request_identity a ≠ none ∧ request_identity a = request_identity b := by
  cases a <;> cases b <;> simp [same_request_id, request_identity]

/-- It does not matter which of two IDs is compared with which. -/
theorem same_request_id_symm {a b : json_rpc_id} (h : same_request_id a b = true) :
    same_request_id b a = true := by
  rw [same_request_id_iff] at h ⊢
  exact ⟨h.2 ▸ h.1, h.2.symm⟩

/-- The same as an equation. -/
theorem same_request_id_comm (a b : json_rpc_id) :
    same_request_id a b = same_request_id b a := by
  rw [Bool.eq_iff_iff]
  exact ⟨same_request_id_symm, same_request_id_symm⟩

/-- Two IDs that are the same request as a third are the same request. -/
theorem same_request_id_trans {a b c : json_rpc_id} (hab : same_request_id a b = true)
    (hbc : same_request_id b c = true) : same_request_id a c = true := by
  rw [same_request_id_iff] at hab hbc ⊢
  exact ⟨hab.1, hab.2.trans hbc.2⟩

/-! ## The executor

The fields under the mutex and the sections that change them. Errors carry the code and the
message of the source.

What a section takes out of the executor is destroyed behind the lock, and a stop that it asks
for is requested there. Such a section therefore returns two things, the fields it leaves and
what it hands over, and the threads of the machine do with the second what the source does after
the scope of the guard. -/

/-- The kinds of errors. -/
inductive sdk_errc where
  | invalid_state
  | invalid_schema
  | io_error
  | unsupported_stdio
  | resource_exhausted
  deriving DecidableEq

/-- An error, with its message. -/
structure sdk_error where
  code : sdk_errc
  message : String
  deriving DecidableEq

/-- `owned_executor::work`; `ref` is the identity of the allocation. -/
structure work (ι : Type) where
  ref : Nat
  id : json_rpc_id
  call : ι

/-- The fields under the mutex. -/
structure owned_executor (ι : Type) where
  max_pending_ : Nat
  pending_ : List (work ι)
  active_ : Option (work ι)
  stopping_ : Bool
  finished_ : Bool

namespace owned_executor

variable {ι : Type}

/-- The constructor. A zero pending limit makes an inert executor. -/
def make (max_pending : Nat) : owned_executor ι where
  max_pending_ := max_pending
  pending_ := []
  active_ := none
  stopping_ := max_pending = 0
  finished_ := max_pending = 0

/-- A null ID or an empty function. -/
def invalid_invocation : sdk_error := ⟨.invalid_state, "Invalid executor invocation"⟩
/-- `stop()` was called. -/
def admission_closed : sdk_error := ⟨.invalid_state, "Executor admission is closed"⟩
/-- The ID is active or queued. -/
def duplicate_id : sdk_error := ⟨.invalid_state, "Duplicate in-flight request ID"⟩
/-- As many are queued as the limit allows. -/
def queue_full : sdk_error := ⟨.resource_exhausted, "Executor queue is full"⟩

/-- The locked section of `enqueue`, for a work that is already prepared. -/
def enqueue_locked (e : owned_executor ι) (prepared : work ι) :
    Except sdk_error (owned_executor ι) :=
  if e.stopping_ then .error admission_closed
  else if e.active_.any (fun active => same_request_id active.id prepared.id) then
    .error duplicate_id
  else if e.pending_.any (fun item => same_request_id item.id prepared.id) then
    .error duplicate_id
  else if e.max_pending_ ≤ e.pending_.length then .error queue_full
  else .ok { e with pending_ := e.pending_ ++ [prepared] }

/-- `enqueue`; `none` is an empty `std::function`. The check before the lock needs
no state, and the work is made before the lock is taken. -/
def enqueue (e : owned_executor ι) (ref : Nat) (id : json_rpc_id) (call : Option ι) :
    Except sdk_error (owned_executor ι) :=
  match id, call with
  | .null, _ => .error invalid_invocation
  | _, none => .error invalid_invocation
  | id, some call => e.enqueue_locked { ref, id, call }

/-- What a section hands to the code after the lock. -/
structure unlocked (ι : Type) where
  active_stop : Option Nat
  discarded : List (work ι)

/-- Split a list at the first element that satisfies `p`, as the loop in `cancel`
finds it: what stays, in order, and the element that leaves. -/
def splice_first (p : work ι → Bool) : List (work ι) → List (work ι) × List (work ι)
  | [] => ([], [])
  | item :: rest =>
      if p item then (rest, [item])
      else (item :: (splice_first p rest).1, (splice_first p rest).2)

/-- The locked section of `cancel`. -/
def cancel (e : owned_executor ι) (id : json_rpc_id) : owned_executor ι × unlocked ι :=
  match e.active_.filter (fun active => same_request_id active.id id) with
  | some active => (e, { active_stop := some active.ref, discarded := [] })
  | none =>
      let spliced := splice_first (fun item => same_request_id item.id id) e.pending_
      ({ e with pending_ := spliced.1 }, { active_stop := none, discarded := spliced.2 })

/-- The locked section of `stop`. -/
def stop (e : owned_executor ι) : owned_executor ι × unlocked ι :=
  ({ e with stopping_ := true, pending_ := [] },
    { active_stop := e.active_.map work.ref, discarded := e.pending_ })

/-- The locked section of `run` that takes the front of the queue; the predicate of
`changed_.wait` holds and `stopping_` is false. -/
def dequeue (e : owned_executor ι) : Option (work ι × owned_executor ι) :=
  if e.stopping_ then none
  else
    match e.pending_ with
    | [] => none
    | current :: rest => some (current, { e with pending_ := rest, active_ := some current })

/-- The locked section after the invocation returned or threw. -/
def reset_active (e : owned_executor ι) : owned_executor ι := { e with active_ := none }

/-- The last locked section of `run`. -/
def finish (e : owned_executor ι) : owned_executor ι := { e with finished_ := true }

/-! ## What each section does

One lemma for each section, with all that was checked and all that changed. Nothing later
unfolds a section.

Both directions are needed: an admission that succeeds tells what was free and what was open,
and an error tells what was not. `cancel` has three outcomes, and `dequeue` has none when the
queue is empty or the executor is stopping. -/

/-- Admission appends to the queue and nothing else, and says what it checked. -/
theorem enqueue_locked_ok {e e' : owned_executor ι} {w : work ι} (h : e.enqueue_locked w = .ok e') :
    e.stopping_ = false ∧ e.pending_.length < e.max_pending_ ∧
      (∀ v ∈ e.active_, same_request_id v.id w.id = false) ∧
      (∀ v ∈ e.pending_, same_request_id v.id w.id = false) ∧
      e' = { e with pending_ := e.pending_ ++ [w] } := by
  unfold enqueue_locked at h
  split at h
  · cases h
  split at h
  · cases h
  split at h
  · cases h
  split at h
  · cases h
  rename_i hstop hactive hpending hfull
  refine ⟨by simpa using hstop, by omega, ?_, ?_, by simpa using h.symm⟩
  · intro v hv
    simpa [Option.mem_def.mp hv] using hactive
  · intro v hv
    simpa using (by simpa using hpending : ∀ x ∈ e.pending_, same_request_id x.id w.id = false) v hv

/-- Why an admission was refused, read off the state that refused it. -/
theorem enqueue_locked_error {e : owned_executor ι} {w : work ι} {err : sdk_error}
    (h : e.enqueue_locked w = .error err) :
    (err = admission_closed ∧ e.stopping_ = true) ∨
      (err = duplicate_id ∧ ∃ v, (e.active_ = some v ∨ v ∈ e.pending_) ∧
        same_request_id v.id w.id = true) ∨
      (err = queue_full ∧ e.stopping_ = false ∧ e.max_pending_ ≤ e.pending_.length) := by
  unfold enqueue_locked at h
  split at h
  · rename_i hstop
    exact .inl ⟨by simpa using h.symm, hstop⟩
  split at h
  · rename_i hactive
    obtain ⟨v, hv, hsame⟩ : ∃ v, e.active_ = some v ∧ same_request_id v.id w.id = true := by
      cases hv : e.active_ with
      | none => simp [hv] at hactive
      | some v => exact ⟨v, rfl, by simpa [hv] using hactive⟩
    exact .inr (.inl ⟨by simpa using h.symm, v, .inl hv, hsame⟩)
  split at h
  · rename_i hpending
    obtain ⟨v, hv, hsame⟩ := List.any_eq_true.mp hpending
    exact .inr (.inl ⟨by simpa using h.symm, v, .inr hv, hsame⟩)
  split at h
  · rename_i hstop _ _ hfull
    exact .inr (.inr ⟨by simpa using h.symm, by simpa using hstop, hfull⟩)
  · cases h

/-- An `enqueue` that succeeds has got to the lock: with an ID that is not null and a function.
-/
theorem enqueue_ok {e e' : owned_executor ι} {ref : Nat} {id : json_rpc_id} {call : Option ι}
    (h : e.enqueue ref id call = .ok e') :
    id ≠ .null ∧ ∃ c, call = some c ∧ e.enqueue_locked ⟨ref, id, c⟩ = .ok e' := by
  unfold enqueue at h
  split at h
  · cases h
  · cases h
  · rename_i hid
    exact ⟨fun hnull => hid hnull, _, rfl, h⟩

/-- A request ID that is not null and an invocation that is not empty reach the lock. -/
theorem enqueue_some {e : owned_executor ι} {ref : Nat} {id : json_rpc_id} {call : ι}
    (h : id ≠ .null) : e.enqueue ref id (some call) = e.enqueue_locked ⟨ref, id, call⟩ := by
  cases id <;> first | exact absurd rfl h | rfl

/-- The splice takes out at most one element, the first that matches. -/
theorem splice_first_cases (p : work ι → Bool) (items : List (work ι)) :
    (splice_first p items = (items, []) ∧ ∀ v ∈ items, p v = false) ∨
      ∃ before w after, items = before ++ w :: after ∧ p w = true ∧
        (∀ v ∈ before, p v = false) ∧ splice_first p items = (before ++ after, [w]) := by
  induction items with
  | nil => exact .inl ⟨rfl, by simp⟩
  | cons item rest ih =>
      by_cases hp : p item = true
      · exact .inr ⟨[], item, rest, rfl, hp, by simp, by simp [splice_first, hp]⟩
      · have hp' : p item = false := by simpa using hp
        rcases ih with ⟨hsplice, hnone⟩ | ⟨before, w, after, hitems, hw, hbefore, hsplice⟩
        · refine .inl ⟨by simp [splice_first, hp', hsplice], ?_⟩
          intro v hv
          rcases List.mem_cons.mp hv with rfl | hv
          · exact hp'
          · exact hnone v hv
        · refine .inr ⟨item :: before, w, after, by simp [hitems], hw, ?_, ?_⟩
          · intro v hv
            rcases List.mem_cons.mp hv with rfl | hv
            · exact hp'
            · exact hbefore v hv
          · simp [splice_first, hp', hsplice]

/-- The three outcomes of `cancel`: the active work matches and only its stop source
is taken; one pending work leaves and the others keep their order; nothing matches. -/
theorem cancel_cases (e : owned_executor ι) (id : json_rpc_id) :
    (∃ w, e.active_ = some w ∧ same_request_id w.id id = true ∧
        e.cancel id = (e, ⟨some w.ref, []⟩)) ∨
      (∃ before w after, e.pending_ = before ++ w :: after ∧ same_request_id w.id id = true ∧
        (∀ v ∈ e.active_, same_request_id v.id id = false) ∧
        (∀ v ∈ before, same_request_id v.id id = false) ∧
        e.cancel id = ({ e with pending_ := before ++ after }, ⟨none, [w]⟩)) ∨
      ((∀ v ∈ e.active_, same_request_id v.id id = false) ∧
        (∀ v ∈ e.pending_, same_request_id v.id id = false) ∧ e.cancel id = (e, ⟨none, []⟩)) := by
  unfold cancel
  cases hfilter : e.active_.filter (fun active => same_request_id active.id id) with
  | some w =>
      obtain ⟨hactive, hsame⟩ := Option.filter_eq_some_iff.mp hfilter
      exact .inl ⟨w, hactive, hsame, rfl⟩
  | none =>
      have hactive : ∀ v ∈ e.active_, same_request_id v.id id = false := by
        intro v hv
        simpa using Option.filter_eq_none_iff.mp hfilter v hv
      rcases splice_first_cases (fun item => same_request_id item.id id) e.pending_ with
        ⟨hsplice, hnone⟩ | ⟨before, w, after, hitems, hw, hbefore, hsplice⟩
      · exact .inr (.inr ⟨hactive, hnone, by simp [hsplice]⟩)
      · exact .inr (.inl ⟨before, w, after, hitems, hw, hactive, hbefore, by simp [hsplice]⟩)

/-- The worker takes the front of the queue, and only while the executor is not stopping. -/
theorem dequeue_some {e e' : owned_executor ι} {w : work ι} (h : e.dequeue = some (w, e')) :
    e.stopping_ = false ∧ ∃ rest, e.pending_ = w :: rest ∧
      e' = { e with pending_ := rest, active_ := some w } := by
  unfold dequeue at h
  split at h
  · cases h
  split at h
  · cases h
  · rename_i hstop _ current rest hpending
    simp only [Option.some.injEq, Prod.mk.injEq] at h
    obtain ⟨rfl, rfl⟩ := h
    exact ⟨by simpa using hstop, rest, hpending, rfl⟩

end owned_executor

end SynapseMcp
