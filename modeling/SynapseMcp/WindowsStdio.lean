/-
`detail/stdio_windows.hpp`: `transfer` against the ones who cancel it.

A transfer duplicates a handle of its own thread into the fields of its direction. Whoever wants it
to stop calls `CancelSynchronousIo` with that handle: the callback of the transfer's token,
`cancel_pending` and `request_stop`. All of them read and write the fields with the mutex locked,
and the transfer closes the handle and clears the fields with the mutex locked.

A lock is taken in one step and given back in another, and between the two each of the statements
is a step, so that the others' steps fall between them. The kernel gives each handle a number that
it does not use again; a handle that is used after it was closed is told apart by that. Which I/O
comes to which end is up to the environment.
-/
import SynapseMcp.Mutex
import SynapseMcp.Transition
import Mathlib.Logic.Function.Basic

set_option autoImplicit false

namespace SynapseMcp.windows_stdio

open Transition Function

/-- Each of the two has its fields. -/
inductive direction where
  | read
  | write
  deriving DecidableEq

/-! ## Threads, handles and the fields they share

The kernel is modelled as far as a handle goes: a duplicate is a new number that refers to a
thread, and cancelling by it finds the thread in its I/O or does nothing. `CancelSynchronousIo`
says nothing about I/O that begins later, which is what the second check of `transfer` is for. -/

/-- The ones who lock the mutex. -/
inductive party where
  | transfer (d : direction)
  /-- The thread that stops token `k`, in a callback. -/
  | stopper (k : Nat)
  /-- A thread in `request_stop` or `cancel_pending`. -/
  | control (i : Nat)
  deriving DecidableEq

/-- `operation`, the fields of a direction. -/
structure operation where
  thread : Option Nat := none
  cancelled : Bool := false

/-- A thread's synchronous I/O. -/
inductive io where
  | outside
  | inside
  /-- `CancelSynchronousIo` found it inside. -/
  | aborted
  deriving DecidableEq

/-- The handles and the threads' I/O. -/
structure kernel where
  /-- How many handles were duplicated so far; they are numbered. -/
  next : Nat
  /-- The thread a handle refers to. -/
  target : Nat → Nat
  closed : List Nat
  ios : Nat → io

/-- `DuplicateHandle` of the calling thread. -/
def kernel.duplicate (k : kernel) (thread : Nat) : kernel :=
  { k with next := k.next + 1, target := update k.target k.next thread }

/-- `CancelSynchronousIo`: it finds the thread inside, or does nothing. -/
def kernel.cancel (k : kernel) (handle : Nat) : kernel :=
  match k.ios (k.target handle) with
  | .inside => { k with ios := update k.ios (k.target handle) .aborted }
  | _ => k

/-- `state`, with the kernel. -/
structure shared where
  mutex : Option party
  stopped : Bool
  ops : direction → operation
  kernel : kernel

/-- The fields of a direction are written. -/
def shared.set (s : shared) (d : direction) (o : operation) : shared :=
  { s with ops := update s.ops d o }

/-- A call into the kernel. -/
def shared.call (s : shared) (k : windows_stdio.kernel) : shared := { s with kernel := k }

/-- What a step does that a property speaks of. -/
inductive event where
  | silent
  | duplicates (d : direction) (handle : Nat)
  | cancels (handle : Nat)
  /-- `CloseHandle` of what is in the field. -/
  | closes (handle : Option Nat)
  /-- `transfer` returns; `started` where it had duplicated a handle. -/
  | returns (d : direction) (started : Bool)

/-! ## The callback of `notify`

It marks the direction and cancels under one lock. It runs on the thread that stops the token,
or on the thread of the transfer itself when the token was stopped before `notify` was
constructed. -/

/-- Where the function is. -/
inductive callback_point where
  | waiting
  | marking
  | cancelling
  | unlocking
  | finished
  deriving DecidableEq

/-- It has the mutex. -/
def callback_point.inside : callback_point → Bool
  | .waiting | .finished => false
  | .marking | .cancelling | .unlocking => true

/-- The function that `notify` is made of, run by `p`. -/
inductive callback_point.Step (p : party) (d : direction) :
    shared → callback_point → event → shared → callback_point → Prop
  | lock {s : shared} (hfree : s.mutex = none) :
      Step p d s .waiting .silent { s with mutex := some p } .marking
  -- the flag comes before the call, so a retry knows of it
  | mark {s : shared} :
      Step p d s .marking .silent (s.set d { s.ops d with cancelled := true }) .cancelling
  | cancel {s : shared} {h : Nat} (hthread : (s.ops d).thread = some h) :
      Step p d s .cancelling (.cancels h) (s.call (s.kernel.cancel h)) .unlocking
  -- the operation is over, and there is no handle to cancel through
  | skip {s : shared} (hthread : (s.ops d).thread = none) :
      Step p d s .cancelling .silent s .unlocking
  | unlock {s : shared} : Step p d s .unlocking .silent { s with mutex := none } .finished

/-! ## `transfer`

Two locked checks stand before the I/O, with the construction of `notify` between them, and one
locked section behind it. The destructors run in this order: `notify` first, which waits for a
callback that is running, and then the one that closes the handle. -/

/-- `std::stop_callback notify`. -/
inductive callback where
  /-- Not constructed, or it ran in its constructor. -/
  | none
  | registered
  /-- Its function runs where the token is stopped. -/
  | running
  | done
  deriving DecidableEq

/-- Where a transfer is. -/
inductive point where
  | idle
  /-- Before the first lock. -/
  | entered
  | checking
  /-- It returns without a handle. -/
  | refusing
  | duplicated
  /-- In the constructor of `notify`. -/
  | notifying
  /-- The token was stopped before, and the constructor runs the function. -/
  | inline (at_ : callback_point)
  /-- Before the second lock. -/
  | notified
  | rechecking
  | rechecked (go : Bool)
  | before_io
  | in_io
  /-- The result is there; `notify` is to be destroyed. -/
  | leaving
  /-- `complete` is to be destroyed. -/
  | completing
  | closing
  | clearing
  | completed
  deriving DecidableEq

/-- A transfer: its place, its token and thread, its callback, and what it will return. -/
structure transfer where
  point : point
  /-- The token; `none` is `std::stop_token{}`. -/
  token : Option Nat
  /-- The thread it runs on. -/
  thread : Nat
  notify : callback
  result : Except String Nat

/-- `stop_requested()` of a token. -/
def stop_requested (tokens : Nat → Bool) : Option Nat → Bool
  | none => false
  | some k => tokens k

/-- `cancelled()`, the error of a transfer that was stopped. -/
def cancelled : Except String Nat := .error "Native I/O stopped"

/-- What `transfer` makes of its I/O. -/
inductive io_result : direction → io → Except String Nat → Prop
  | success {d : direction} {i : io} (count : Nat) : io_result d i (.ok count)
  | aborted {d : direction} : io_result d .aborted cancelled
  /-- `ERROR_BROKEN_PIPE` or `ERROR_PIPE_NOT_CONNECTED`. -/
  | broken_pipe {i : io} : io_result .read i (.ok 0)
  | more_data {i : io} (count : Nat) (hcount : 0 < count) : io_result .read i (.ok count)
  | read_fails {i : io} : io_result .read i (.error "Native input read failed")
  | write_fails {i : io} : io_result .write i (.error "Native output write failed")

/-- The steps of a transfer once it was called. -/
inductive transfer.Step (d : direction) (tokens : Nat → Bool) :
    shared → transfer → event → shared → transfer → Prop
  | lock_check {s : shared} {t : transfer} (hpoint : t.point = .entered)
      (hfree : s.mutex = none) :
      Step d tokens s t .silent { s with mutex := some (.transfer d) }
        { t with point := .checking }
  -- the first section of `transfer`, check by check
  | check_stopped {s : shared} {t : transfer} (hpoint : t.point = .checking)
      (hstop : s.stopped = true ∨ stop_requested tokens t.token = true) :
      Step d tokens s t .silent s { t with point := .refusing, result := cancelled }
  | check_active {s : shared} {t : transfer} (hpoint : t.point = .checking)
      (hstopped : s.stopped = false) (htoken : stop_requested tokens t.token = false)
      (hthread : (s.ops d).thread.isSome = true) :
      Step d tokens s t .silent s
        { t with point := .refusing, result := .error "Native I/O direction already active" }
  | duplicate_fails {s : shared} {t : transfer} (hpoint : t.point = .checking)
      (hstopped : s.stopped = false) (htoken : stop_requested tokens t.token = false)
      (hthread : (s.ops d).thread = none) :
      Step d tokens s t .silent s
        { t with point := .refusing, result := .error "Cannot duplicate native I/O thread" }
  -- the handle of this thread is stored while the mutex is held, so a cancel can find it
  | duplicate {s : shared} {t : transfer} (hpoint : t.point = .checking)
      (hstopped : s.stopped = false) (htoken : stop_requested tokens t.token = false)
      (hthread : (s.ops d).thread = none) :
      Step d tokens s t (.duplicates d s.kernel.next)
        ((s.call (s.kernel.duplicate t.thread)).set d
          { s.ops d with thread := some s.kernel.next })
        { t with point := .duplicated }
  | refuse {s : shared} {t : transfer} (hpoint : t.point = .refusing) :
      Step d tokens s t (.returns d false) { s with mutex := none } { t with point := .idle }
  | unlock_check {s : shared} {t : transfer} (hpoint : t.point = .duplicated) :
      Step d tokens s t .silent { s with mutex := none } { t with point := .notifying }
  -- `std::stop_callback notify`: the constructor registers the function, or runs it itself
  | register {s : shared} {t : transfer} (hpoint : t.point = .notifying)
      (htoken : stop_requested tokens t.token = false) :
      Step d tokens s t .silent s { t with point := .notified, notify := .registered }
  | notify_begins {s : shared} {t : transfer} (hpoint : t.point = .notifying)
      (htoken : stop_requested tokens t.token = true) :
      Step d tokens s t .silent s { t with point := .inline .waiting }
  | notify_runs {s s' : shared} {t : transfer} {c c' : callback_point} {e : event}
      (hpoint : t.point = .inline c) (hstep : c.Step (.transfer d) d s e s' c') :
      Step d tokens s t e s' { t with point := .inline c' }
  | notify_ends {s : shared} {t : transfer} (hpoint : t.point = .inline .finished) :
      Step d tokens s t .silent s { t with point := .notified }
  | lock_recheck {s : shared} {t : transfer} (hpoint : t.point = .notified)
      (hfree : s.mutex = none) :
      Step d tokens s t .silent { s with mutex := some (.transfer d) }
        { t with point := .rechecking }
  -- the second section: a stop that came in between is not missed
  | recheck_stopped {s : shared} {t : transfer} (hpoint : t.point = .rechecking)
      (hstop : s.stopped = true ∨ (s.ops d).cancelled = true ∨
        stop_requested tokens t.token = true) :
      Step d tokens s t .silent s { t with point := .rechecked false, result := cancelled }
  | recheck_passes {s : shared} {t : transfer} (hpoint : t.point = .rechecking)
      (hstopped : s.stopped = false) (hcancelled : (s.ops d).cancelled = false)
      (htoken : stop_requested tokens t.token = false) :
      Step d tokens s t .silent s { t with point := .rechecked true }
  -- both ways out of it lead through the destructors, last of them `complete_operation`
  | unlock_stopped {s : shared} {t : transfer} (hpoint : t.point = .rechecked false) :
      Step d tokens s t .silent { s with mutex := none } { t with point := .leaving }
  | unlock_recheck {s : shared} {t : transfer} (hpoint : t.point = .rechecked true) :
      Step d tokens s t .silent { s with mutex := none } { t with point := .before_io }
  /-- `ReadFile` or `WriteFile`. -/
  | begin_io {s : shared} {t : transfer} (hpoint : t.point = .before_io) :
      Step d tokens s t .silent
        (s.call { s.kernel with ios := update s.kernel.ios t.thread .inside })
        { t with point := .in_io }
  -- a cancelled call ends with `ERROR_OPERATION_ABORTED`, others with what they came to
  | end_io {s : shared} {t : transfer} {result : Except String Nat} (hpoint : t.point = .in_io)
      (hresult : io_result d (s.kernel.ios t.thread) result) :
      Step d tokens s t .silent
        (s.call { s.kernel with ios := update s.kernel.ios t.thread .outside })
        { t with point := .leaving, result := result }
  /-- The destructor of `notify` waits for a function that runs. -/
  | unregister {s : shared} {t : transfer} (hpoint : t.point = .leaving)
      (hnotify : t.notify ≠ .running) :
      Step d tokens s t .silent s { t with point := .completing, notify := .none }
  -- `~complete_operation`: close the handle and clear the fields, in one section
  | lock_complete {s : shared} {t : transfer} (hpoint : t.point = .completing)
      (hfree : s.mutex = none) :
      Step d tokens s t .silent { s with mutex := some (.transfer d) } { t with point := .closing }
  | close {s : shared} {t : transfer} (hpoint : t.point = .closing) :
      Step d tokens s t (.closes (s.ops d).thread)
        (s.call { s.kernel with closed := s.kernel.closed ++ (s.ops d).thread.toList })
        { t with point := .clearing }
  | clear {s : shared} {t : transfer} (hpoint : t.point = .clearing) :
      Step d tokens s t .silent (s.set d {}) { t with point := .completed }
  | unlock_complete {s : shared} {t : transfer} (hpoint : t.point = .completed) :
      Step d tokens s t (.returns d true) { s with mutex := none } { t with point := .idle }

/-! ## The ones who cancel

All of them cancel with the mutex locked and by the handle that is in the fields then. Since the
transfer closes it under the same mutex, the handle they use is open; that is what the runs are
to show. -/

/-- `std::stop_source::request_stop`, on the thread that set the token. -/
inductive stopper where
  /-- Nobody is in it. -/
  | outside
  /-- Between two callbacks. -/
  | between
  | calling (d : direction) (at_ : callback_point)

/-- A thread in `request_stop` (with `stop`) or in `cancel_pending`. -/
inductive control where
  | outside
  | waiting (stop : Bool)
  | locked (stop : Bool)
  /-- In the loop of `cancel_locked`, with the directions it has yet to see. -/
  | cancelling (rest : List direction)

/-- `request_stop` and `cancel_pending`, with the loop they share. -/
inductive control.Step (p : party) : shared → control → event → shared → control → Prop
  -- `request_stop` or `cancel_pending`, by the flag
  | enter {s : shared} (stop : Bool) : Step p s .outside .silent s (.waiting stop)
  | lock {s : shared} {stop : Bool} (hfree : s.mutex = none) :
      Step p s (.waiting stop) .silent { s with mutex := some p } (.locked stop)
  | request_stop {s : shared} :
      Step p s (.locked true) .silent { s with stopped := true } (.cancelling [.read, .write])
  | cancel_pending {s : shared} :
      Step p s (.locked false) .silent s (.cancelling [.read, .write])
  -- `cancel_locked`, for one direction after the other
  | cancel {s : shared} {d : direction} {rest : List direction} {h : Nat}
      (hthread : (s.ops d).thread = some h)
      (hstop : s.stopped = true ∨ (s.ops d).cancelled = true) :
      Step p s (.cancelling (d :: rest)) (.cancels h) (s.call (s.kernel.cancel h))
        (.cancelling rest)
  | skip {s : shared} {d : direction} {rest : List direction}
      (hskip : (s.ops d).thread = none ∨ s.stopped = false ∧ (s.ops d).cancelled = false) :
      Step p s (.cancelling (d :: rest)) .silent s (.cancelling rest)
  | unlock {s : shared} : Step p s (.cancelling []) .silent { s with mutex := none } .outside

/-- The shared fields, the tokens with who stops them, and the transfers. -/
structure state where
  shared : shared
  tokens : Nat → Bool
  stoppers : Nat → stopper
  controls : Nat → control
  transfers : direction → transfer

/-- A transfer begins or steps, or one of those who cancel. -/
inductive state.Step : state → event → state → Prop
  /-- `read_some` or `write_some` is called, on a thread that is in no transfer. -/
  | start {s : state} (d : direction) (token : Option Nat) (thread : Nat)
      (hidle : (s.transfers d).point = .idle)
      (hthread : ∀ d', (s.transfers d').point ≠ .idle → (s.transfers d').thread ≠ thread) :
      Step s .silent
        { s with transfers := update s.transfers d ⟨.entered, token, thread, .none, .ok 0⟩ }
  | transfer {s : state} {e : event} {u : windows_stdio.shared} {t : windows_stdio.transfer}
      (d : direction) (hstep : (s.transfers d).Step d s.tokens s.shared e u t) :
      Step s e { s with shared := u, transfers := update s.transfers d t }
  -- one call of `request_stop` or `cancel_pending`, on a thread of its own
  | control {s : state} {e : event} {u : windows_stdio.shared} {c : windows_stdio.control}
      (i : Nat) (hstep : (s.controls i).Step (.control i) s.shared e u c) :
      Step s e { s with shared := u, controls := update s.controls i c }
  /-- The first `request_stop` of the token. -/
  | stop_token {s : state} (k : Nat) (hfirst : s.tokens k = false) :
      Step s .silent
        { s with
          tokens := update s.tokens k true
          stoppers := update s.stoppers k .between }
  -- `request_stop` of a token runs the functions registered with it, one at a time
  | call {s : state} {k : Nat} (d : direction) (hstopper : s.stoppers k = .between)
      (htoken : (s.transfers d).token = some k) (hnotify : (s.transfers d).notify = .registered) :
      Step s .silent
        { s with
          stoppers := update s.stoppers k (.calling d .waiting)
          transfers := update s.transfers d { s.transfers d with notify := .running } }
  | callback {s : state} {e : event} {u : windows_stdio.shared} {k : Nat} {d : direction}
      {c c' : callback_point} (hstopper : s.stoppers k = .calling d c)
      (hstep : c.Step (.stopper k) d s.shared e u c') :
      Step s e { s with shared := u, stoppers := update s.stoppers k (.calling d c') }
  | called {s : state} {k : Nat} {d : direction} (hstopper : s.stoppers k = .calling d .finished) :
      Step s .silent
        { s with
          stoppers := update s.stoppers k .between
          transfers := update s.transfers d { s.transfers d with notify := .done } }
  /-- No callback is left. -/
  | stop_returns {s : state} {k : Nat} (hstopper : s.stoppers k = .between)
      (hnone : ∀ d, (s.transfers d).token = some k → (s.transfers d).notify ≠ .registered) :
      Step s .silent { s with stoppers := update s.stoppers k .outside }

/-- An opened object. -/
def state.make : state where
  shared :=
    { mutex := none, stopped := false, ops := fun _ => {}
      kernel := { next := 0, target := fun _ => 0, closed := [], ios := fun _ => .outside } }
  tokens _ := false
  stoppers _ := .outside
  controls _ := .outside
  transfers _ := ⟨.idle, none, 0, .none, .ok 0⟩

/-- Transfers one after the other in each direction, and all who cancel them. -/
def stdio_runs : System state event where
  init s := s = .make
  step := state.Step

/-- From `DuplicateHandle` to `CloseHandle`: the transfer is in progress. -/
def point.in_progress : point → Bool
  | .idle | .entered | .checking | .refusing | .clearing | .completed => false
  | _ => true

end SynapseMcp.windows_stdio
