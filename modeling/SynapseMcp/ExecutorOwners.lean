/-
`detail/owned_executor.hpp`: who owns an invocation, and when it is destroyed.

The other files on the executor take each locked section for one step. Here the functions are
followed from one object with a destructor to the next, since the destructors are what matters:
the last `shared_ptr<work>` destroys the invocation, and what an invocation captured may call
the executor again, on the same thread. So may a stop callback, and the invocation itself.

A frame is a call that goes on: where it is, and its objects, the youngest first. C++ destroys
them in that order at the end of a block, at a `return` and while an exception unwinds, and
nothing else decides when a lock is released and when a capture goes. The lock is one of the
objects.

An invocation is known by the number of the `enqueue` call it was handed to, and so is the work
made for it. A moved-from `std::function` or `shared_ptr` is empty.
-/
import SynapseMcp.OwnedExecutor
import SynapseMcp.Transition
import Mathlib.Data.List.Basic

set_option autoImplicit false

namespace SynapseMcp.executor_owners

open Transition

/-! ## Objects

Only objects whose destruction matters are kept, with what they hold. An object that lets go of
several works, as a list does, lets go of them one at a time: between two of them, code of the
application may have run. -/

/-- An object with a destructor in a function of the executor. -/
inductive object where
  /-- `std::lock_guard` or `std::unique_lock` on `mutex_`. -/
  | guard
  /-- `std::list<std::shared_ptr<work>>`. -/
  | works (items : List (work Unit))
  /-- `std::shared_ptr<work>`. -/
  | pointer (item : Option (work Unit))
  /-- `std::optional<std::stop_source>`, naming the work it was copied from. -/
  | source (stop : Option Nat)
  /-- `invocation` by value. -/
  | value (call : Option Nat)

/-- What a destructor lets go of. -/
inductive owner where
  | reference (ref : Nat)
  | invocation (n : Nat)

/-- The number of the invocation it keeps alive. -/
def owner.number : owner → Nat
  | .reference ref => ref
  | .invocation n => n

/-- What the destructor of the object lets go of next, and the object after that. -/
def object.first : object → Option (owner × object)
  | .works (item :: items) => some (.reference item.ref, .works items)
  | .pointer (some item) => some (.reference item.ref, .pointer none)
  | .value (some n) => some (.invocation n, .value none)
  | _ => none

/-! ## Calls

A place stands for the code up to the next thing that another thread could see, or at which an
object comes or goes. `closing` and `locking` say where each function destroys its youngest
object and where it takes the lock; with the two the rules of C++ need to be written only once,
for all the functions. -/

/-- How a call of `enqueue` ends. -/
inductive outcome where
  | admitted
  | refused (err : sdk_error)
  | thrown

/-- Where `enqueue` is. -/
inductive enqueue_at where
  | entered
  /-- `prepared` is declared; `make_shared` is to allocate. -/
  | declared
  /-- In the constructor of `work`, with its parameter; the stop state is to be allocated. -/
  | constructing
  /-- The list node is to be allocated. -/
  | made
  | prepared
  | locked
  | spliced
  | unlocked

/-- `cancel` and `stop`, which differ in their locked sections. -/
inductive section_call where
  | cancel (id : json_rpc_id)
  | stop

/-- What they do with the mutex held. -/
def section_call.locked (e : owned_executor Unit) :
    section_call → owned_executor Unit × owned_executor.unlocked Unit
  | .cancel id => e.cancel id
  | .stop => e.stop

/-- Where `cancel` or `stop` is. -/
inductive section_at where
  | declared
  | locked
  | taken
  | unlocked

/-- Where `run` is. -/
inductive run_at where
  | entered
  /-- `worker_id_` is set. -/
  | registered
  | head
  /-- `current` is declared; before the lock, or in `changed_.wait` without it. -/
  | declared
  | locked
  | breaking
  | broken
  /-- The old value of `active_` goes at the end of the assignment. -/
  | assigning
  | assigned
  | calling
  | called
  | relocked
  /-- The old value of `active_` goes at the end of `reset`. -/
  | resetting
  | reset
  | unlocked
  | retiring
  | retired
  | out
  | finishing
  | finished

/-- Where a call is. -/
inductive position where
  /-- Code the executor does not know: a capture's destructor, a stop callback, an invocation. -/
  | user
  | enqueue (n : Nat) (id : json_rpc_id) (step : enqueue_at)
  | section_of (call : section_call) (step : section_at)
  | run (step : run_at)
  /-- Only the objects of the function are left; with the answer of an `enqueue`. -/
  | leaving (answer : Option (Nat × outcome))

/-- Where the youngest object is destroyed, and where the call is after that. -/
def position.closing : position → Option position
  | .enqueue n id .spliced => some (.enqueue n id .unlocked)
  | .section_of call .taken => some (.section_of call .unlocked)
  | .run .registered => some (.run .head)
  | .run .breaking => some (.run .broken)
  | .run .broken => some (.run .out)
  | .run .assigning => some (.run .assigned)
  | .run .assigned => some (.run .calling)
  | .run .resetting => some (.run .reset)
  | .run .reset => some (.run .unlocked)
  | .run .retiring => some (.run .retired)
  | .run .retired => some (.run .head)
  | .run .finished => some (.leaving none)
  | .leaving answer => some (.leaving answer)
  | _ => none

/-- Where the mutex is taken, and where the call is after that. -/
def position.locking : position → Option position
  | .enqueue n id .prepared => some (.enqueue n id .locked)
  | .section_of call .declared => some (.section_of call .locked)
  | .run .entered => some (.run .registered)
  | .run .declared => some (.run .locked)
  | .run .called => some (.run .relocked)
  | .run .out => some (.run .finishing)
  | _ => none

/-- A call that goes on. -/
structure frame where
  point : position
  scope : List object

/-- What threads share. -/
structure shared where
  executor : owned_executor Unit
  /-- The thread that holds it. -/
  mutex_ : Option Nat
  /-- `use_count` of the work with the number. -/
  use_count : Nat → Nat

/-- One reference more. -/
def shared.copy (s : shared) (ref : Nat) : shared :=
  { s with use_count := fun r => if r = ref then s.use_count r + 1 else s.use_count r }

/-- One reference less, if it is one. -/
def shared.release (s : shared) : owner → shared
  | .reference ref =>
      { s with use_count := fun r => if r = ref then s.use_count r - 1 else s.use_count r }
  | .invocation _ => s

/-- The invocation is destroyed with this owner. -/
def shared.last (s : shared) : owner → Prop
  | .reference ref => s.use_count ref = 1
  | .invocation _ => True

/-- What the results speak of. -/
inductive event where
  | handed (n : Nat)
  | admitted (n : Nat)
  | answered (n : Nat) (answer : outcome)
  | destroyed (n : Nat)
  | request_stop (ref : Nat)
  | invoked (ref : Nat)

/-! ## What the innermost call of a thread does

The first group of steps destroys objects, the others are the statements of the functions. A
last owner that goes calls into the application before the next object is looked at, and so do
`request_stop` and the invocation itself: the frame for that is put on top, and may make any
calls before it returns. -/

/-- A step of the innermost call of the thread: the call, what happens, and the calls in place of
it. -/
inductive frame.Step (t : Nat) : shared → frame → Option event → shared → List frame → Prop
  /- Objects go. -/
  -- the last owner goes: the captures are destroyed, on top of this call
  | destroy {s : shared} {p q : position} {o o' : object} {scope : List object} {held : owner}
      (hclosing : p.closing = some q) (hfirst : o.first = some (held, o')) (hlast : s.last held) :
      Step t s ⟨p, o :: scope⟩ (some (.destroyed held.number)) (s.release held)
        [⟨.user, []⟩, ⟨p, o' :: scope⟩]
  -- somebody else still owns it: only the count goes down
  | release {s : shared} {p q : position} {o o' : object} {scope : List object} {held : owner}
      (hclosing : p.closing = some q) (hfirst : o.first = some (held, o')) (hlast : ¬s.last held) :
      Step t s ⟨p, o :: scope⟩ none (s.release held) [⟨p, o' :: scope⟩]
  -- an object with nothing left to let go of is gone
  | close {s : shared} {p q : position} {o : object} {scope : List object}
      (hclosing : p.closing = some q) (hfirst : o.first = none) (hguard : o ≠ .guard) :
      Step t s ⟨p, o :: scope⟩ none s [⟨q, scope⟩]
  -- the lock is one of the objects, so it is released where its turn comes
  | unlock {s : shared} {p q : position} {scope : List object} (hclosing : p.closing = some q) :
      Step t s ⟨p, .guard :: scope⟩ none { s with mutex_ := none } [⟨q, scope⟩]
  | answer {s : shared} (n : Nat) (answer : outcome) :
      Step t s ⟨.leaving (some (n, answer)), []⟩ (some (.answered n answer)) s []
  | leave {s : shared} : Step t s ⟨.leaving none, []⟩ none s []
  | user_returns {s : shared} : Step t s ⟨.user, []⟩ none s []
  | lock {s : shared} {p q : position} {scope : List object} (hlocking : p.locking = some q)
      (hfree : s.mutex_ = none) :
      Step t s ⟨p, scope⟩ none { s with mutex_ := some t } [⟨q, .guard :: scope⟩]
  /- `enqueue`. -/
  -- `!call` and a null ID are refused before a work is made
  | enqueue_invalid {s : shared} {n : Nat} {id : json_rpc_id} {call : Option Nat}
      {answer : outcome} (hinvalid : id = .null ∨ call = none)
      (hanswer : answer = .refused owned_executor.invalid_invocation ∨ answer = .thrown) :
      Step t s ⟨.enqueue n id .entered, [.value call]⟩ none s
        [⟨.leaving (some (n, answer)), [.value call]⟩]
  | enqueue_declare {s : shared} {n m : Nat} {id : json_rpc_id} (hid : id ≠ .null) :
      Step t s ⟨.enqueue n id .entered, [.value (some m)]⟩ none s
        [⟨.enqueue n id .declared, [.works [], .value (some m)]⟩]
  /-- An allocation fails, or `lock` throws. -/
  | enqueue_throw {s : shared} {n : Nat} {id : json_rpc_id} {step : enqueue_at}
      {scope : List object}
      (hstep : step ∈ [.declared, .constructing, .made, .prepared]) :
      Step t s ⟨.enqueue n id step, scope⟩ none s [⟨.leaving (some (n, .thrown)), scope⟩]
  -- `std::move(call)` into the parameter of the constructor leaves the argument empty
  | enqueue_allocate {s : shared} {n : Nat} {id : json_rpc_id} {call : Option Nat} :
      Step t s ⟨.enqueue n id .declared, [.works [], .value call]⟩ none s
        [⟨.enqueue n id .constructing, [.value call, .works [], .value none]⟩]
  -- the stop state is there; the one pointer to the new work is its first reference
  | enqueue_construct {s : shared} {n m : Nat} {id : json_rpc_id} :
      Step t s ⟨.enqueue n id .constructing, [.value (some m), .works [], .value none]⟩ none
        (s.copy m) [⟨.enqueue n id .made, [.pointer (some ⟨m, id, ()⟩), .works [], .value none]⟩]
  | enqueue_node {s : shared} {n : Nat} {id : json_rpc_id} {item : work Unit} :
      Step t s ⟨.enqueue n id .made, [.pointer (some item), .works [], .value none]⟩ none s
        [⟨.enqueue n id .prepared, [.works [item], .value none]⟩]
  /-- The text of the error is allocated while the mutex is held. -/
  | enqueue_refuse {s : shared} {n : Nat} {id : json_rpc_id} {item : work Unit} {err : sdk_error}
      {scope : List object} {answer : outcome}
      (herror : s.executor.enqueue_locked item = .error err)
      (hanswer : answer = .refused err ∨ answer = .thrown) :
      Step t s ⟨.enqueue n id .locked, .guard :: .works [item] :: scope⟩ none s
        [⟨.leaving (some (n, answer)), .guard :: .works [item] :: scope⟩]
  -- the node moves from `prepared` into `pending_`, and nothing is allocated
  | enqueue_splice {s : shared} {n : Nat} {id : json_rpc_id} {item : work Unit}
      {e : owned_executor Unit} {scope : List object}
      (hok : s.executor.enqueue_locked item = .ok e) :
      Step t s ⟨.enqueue n id .locked, .guard :: .works [item] :: scope⟩ (some (.admitted n))
        { s with executor := e } [⟨.enqueue n id .spliced, .guard :: .works [] :: scope⟩]
  /-- `notify_one`. -/
  | enqueue_notify {s : shared} {n : Nat} {id : json_rpc_id} {scope : List object} :
      Step t s ⟨.enqueue n id .unlocked, scope⟩ none s
        [⟨.leaving (some (n, .admitted)), scope⟩]
  /- `cancel` and `stop`. -/
  -- what leaves the queue goes into `discarded`, and the stop source is copied
  | section_take {s : shared} {call : section_call} {scope : List object} :
      Step t s ⟨.section_of call .locked, .guard :: .works [] :: .source none :: scope⟩ none
        { s with executor := (call.locked s.executor).1 }
        [⟨.section_of call .taken, .guard :: .works (call.locked s.executor).2.discarded ::
          .source (call.locked s.executor).2.active_stop :: scope⟩]
  -- `request_stop` outside of the lock, so its callbacks may call the executor
  | section_request {s : shared} {call : section_call} {items : List (work Unit)} {ref : Nat}
      {scope : List object} :
      Step t s ⟨.section_of call .unlocked, .works items :: .source (some ref) :: scope⟩
        (some (.request_stop ref)) s
        [⟨.user, []⟩, ⟨.leaving none, .works items :: .source (some ref) :: scope⟩]
  | section_leave {s : shared} {call : section_call} {items : List (work Unit)}
      {scope : List object} :
      Step t s ⟨.section_of call .unlocked, .works items :: .source none :: scope⟩ none s
        [⟨.leaving none, .works items :: .source none :: scope⟩]
  /- `run`. -/
  | run_declare {s : shared} :
      Step t s ⟨.run .head, []⟩ none s [⟨.run .declared, [.pointer none]⟩]
  /-- The predicate of `changed_.wait` is false. It is tested again with the lock. -/
  | run_wait {s : shared} {scope : List object} (hstop : s.executor.stopping_ = false)
      (hpending : s.executor.pending_ = []) :
      Step t s ⟨.run .locked, .guard :: scope⟩ none { s with mutex_ := none }
        [⟨.run .declared, scope⟩]
  | run_break {s : shared} {scope : List object} (hstop : s.executor.stopping_ = true) :
      Step t s ⟨.run .locked, scope⟩ none s [⟨.run .breaking, scope⟩]
  -- `current` takes the front, and `active_` is a copy of it: one reference more
  | run_take {s : shared} {item : work Unit} {e : owned_executor Unit} {scope : List object}
      (htake : s.executor.dequeue = some (item, e)) :
      Step t s ⟨.run .locked, .guard :: .pointer none :: scope⟩ none
        ({ s with executor := e }.copy item.ref)
        [⟨.run .assigning,
          .pointer s.executor.active_ :: .guard :: .pointer (some item) :: scope⟩]
  | run_call {s : shared} {item : work Unit} {scope : List object} :
      Step t s ⟨.run .calling, .pointer (some item) :: scope⟩ (some (.invoked item.ref)) s
        [⟨.user, []⟩, ⟨.run .called, .pointer (some item) :: scope⟩]
  -- `active_` is empty in the same section; its old value is let go of behind it
  | run_reset {s : shared} {scope : List object} :
      Step t s ⟨.run .relocked, scope⟩ none { s with executor := s.executor.reset_active }
        [⟨.run .resetting, .pointer s.executor.active_ :: scope⟩]
  -- `current.reset()`, with no lock held
  | run_retire {s : shared} {item : Option (work Unit)} {scope : List object} :
      Step t s ⟨.run .unlocked, .pointer item :: scope⟩ none s
        [⟨.run .retiring, .pointer item :: .pointer none :: scope⟩]
  | run_finish {s : shared} {scope : List object} :
      Step t s ⟨.run .finishing, scope⟩ none { s with executor := s.executor.finish }
        [⟨.run .finished, scope⟩]

/-! ## The executor and its threads

Every thread has its stack of calls. It steps with the innermost one, or begins a call of the
executor where it runs code of its own or of the application. There is no bound on the threads
or on how deep they go. -/

/-- An event, with the thread and the holder of the mutex at that moment. -/
structure entry where
  thread : Nat
  holder : Option Nat
  what : event

/-- The executor, the stacks of all threads, and what has happened. -/
structure machine where
  state : shared
  /-- The calls of each thread, the innermost first. The worker is thread 0. -/
  threads : List (List frame)
  /-- Calls of `enqueue` so far; the next one gets this number. -/
  made : Nat
  log : List entry

/-- The objects of a call when it starts. The parameter of `enqueue` is the oldest. -/
inductive starts (made : Nat) : frame → Option event → Prop
  | enqueue_empty (id : json_rpc_id) :
      starts made ⟨.enqueue made id .entered, [.value none]⟩ none
  | enqueue (id : json_rpc_id) :
      starts made ⟨.enqueue made id .entered, [.value (some made)]⟩ (some (.handed made))
  | section_of (call : section_call) :
      starts made ⟨.section_of call .declared, [.works [], .source none]⟩ none

/-- The thread runs code that may call the executor: its own, or a callback. The worker has none
of its own. -/
def may_call (t : Nat) : List frame → Prop
  | [] => t ≠ 0
  | f :: _ => f.point = .user

/-- A thread steps, begins a call, or is new. -/
inductive machine.Step : machine → Nat → machine → Prop
  | step {s s' : shared} {f : frame} {e : Option event}
      {calls rest : List frame} {before after : List (List frame)} {made : Nat} {log : List entry}
      (hstep : frame.Step before.length s f e s' calls) :
      Step ⟨s, before ++ (f :: rest) :: after, made, log⟩ before.length
        ⟨s', before ++ (calls ++ rest) :: after, made,
          log ++ e.toList.map (⟨before.length, s.mutex_, ·⟩)⟩
  | call {s : shared} {f : frame} {e : Option event}
      {stack : List frame} {before after : List (List frame)} {made : Nat} {log : List entry}
      (hcall : may_call before.length stack) (hstarts : starts made f e) :
      Step ⟨s, before ++ stack :: after, made, log⟩ before.length
        ⟨s, before ++ (f :: stack) :: after, made + 1,
          log ++ e.toList.map (⟨before.length, s.mutex_, ·⟩)⟩
  /-- The application has another thread. -/
  | thread {m : machine} : Step m m.threads.length { m with threads := m.threads ++ [[]] }

/-- The constructor. A zero limit starts no worker. -/
def machine.make (limit : Nat) : machine where
  state := ⟨.make limit, none, fun _ => 0⟩
  threads := [if limit = 0 then [] else [⟨.run .entered, []⟩]]
  made := 0
  log := []

/-- The executor under any calls of any threads. -/
def owner_runs (limit : Nat) : System machine Nat where
  init m := m = .make limit
  step := machine.Step

end SynapseMcp.executor_owners
