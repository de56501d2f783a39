/-
`detail/stdio_posix.hpp`: `read_some` and `write_some` against the ones who stop them.

An operation waits in `poll` for its endpoint and for the read end of its own pipe. It is stopped
by a flag that all operations share, or by its token. Whoever stops it sets the flag or the token
first and writes a byte into the pipe after that; `cancel_pending` writes the bytes only. The
pipes do not block, so a byte is dropped where a pipe is full, and one `drain` takes what many have
written.

Each load, each system call and each move of a stop callback is a step. The endpoints, and which
system calls fail, are up to the environment.
-/
import SynapseMcp.Transition
import Mathlib.Logic.Function.Basic

set_option autoImplicit false

namespace SynapseMcp.posix_stdio

open Transition

/-- Each of the two has an operation and a pipe. -/
inductive direction where
  | read
  | write
  deriving DecidableEq

/-! ## Operations

`read_some` and `write_some` are the same but for the guard against `SIGPIPE`: they construct
`notify`, wait until the endpoint is ready, transfer, and go round again where the system says
so. The flag is loaded before the token, before `poll` and after it. -/

/-- What an operation returns. -/
inductive answer where
  | count (bytes : Nat)
  /-- `cancelled()`. -/
  | stopped
  | failure (message : String)

/-- `descriptors[0].revents`, as far as it is told apart. -/
inductive revents where
  | invalid
  | ready
  | other

/-- Where an operation is. -/
inductive point where
  | idle
  | entered
  /-- In the constructor of `notify`, which runs the callback if the token was stopped before. -/
  | notifying
  /-- The constructor of `sigpipe_guard`. -/
  | guarding
  /-- `state_->stopped` is loaded before `poll`. -/
  | load_stopped
  | load_token
  | polling
  | draining (seen : revents)
  /-- `state_->stopped` is loaded after `poll`. -/
  | reload_stopped (seen : revents)
  | reload_token (seen : revents)
  /-- `wait_ready` returned without an error. -/
  | ready
  /-- The answer is there; `notify` is to be destroyed. -/
  | leaving (result : answer)

/-- `std::stop_callback notify`. -/
inductive callback where
  /-- Not constructed, or it ran in its constructor. -/
  | none
  | registered
  /-- Its function runs where the token is stopped. -/
  | running
  | done
  deriving DecidableEq

/-- An operation: where it is, its token with the callback on it, and whether the system failed
it. -/
structure operation where
  point : point
  /-- The token; `none` is `std::stop_token{}`. -/
  token : Option Nat
  notify : callback
  /-- One of its own system calls failed. Nothing reads it. -/
  fault : Bool

/-- `stop_requested()` of a token. -/
def stop_requested (tokens : Nat → Bool) : Option Nat → Bool
  | none => false
  | some k => tokens k

/-- Where an operation is once `notify` is there. -/
def direction.begins : direction → point
  | .read => .load_stopped
  | .write => .guarding

/-- `wake`: a pipe holds `spare + 1` bytes, and what does not fit is dropped. -/
def wake (spare bytes : Nat) : Nat := if bytes ≤ spare then bytes + 1 else bytes

/-- A step of the operation of a direction, with the bytes in its pipe. -/
inductive operation.Step (spare : Nat) (d : direction) (stopped : Bool) (tokens : Nat → Bool) :
    Nat → operation → Nat → operation → Prop
  -- `read_some` or `write_some`, of one caller at a time
  | start {b : Nat} {o : operation} (token : Option Nat) (hidle : o.point = .idle) :
      Step spare d stopped tokens b o b ⟨.entered, token, .none, false⟩
  -- `std::stop_callback notify`: the constructor registers the function, or runs it itself
  | register {b : Nat} {o : operation} (hpoint : o.point = .entered)
      (htoken : stop_requested tokens o.token = false) :
      Step spare d stopped tokens b o b { o with point := d.begins, notify := .registered }
  | notify_begins {b : Nat} {o : operation} (hpoint : o.point = .entered)
      (htoken : stop_requested tokens o.token = true) :
      Step spare d stopped tokens b o b { o with point := .notifying }
  | notify_wakes {b : Nat} {o : operation} (hpoint : o.point = .notifying) :
      Step spare d stopped tokens b o (wake spare b) { o with point := d.begins }
  -- `sigpipe_guard`, which only writing has
  | guard {b : Nat} {o : operation} (hpoint : o.point = .guarding) :
      Step spare d stopped tokens b o b { o with point := .load_stopped }
  | guard_fails {b : Nat} {o : operation} (hpoint : o.point = .guarding) :
      Step spare d stopped tokens b o b
        { o with
          point := .leaving (.failure "Cannot protect native output signal")
          fault := true }
  -- the head of `wait_ready`: two loads, in this order
  | is_stopped {b : Nat} {o : operation} (hpoint : o.point = .load_stopped)
      (hstop : stopped = true) :
      Step spare d stopped tokens b o b { o with point := .leaving .stopped }
  | not_stopped {b : Nat} {o : operation} (hpoint : o.point = .load_stopped)
      (hstop : stopped = false) :
      Step spare d stopped tokens b o b { o with point := .load_token }
  | is_requested {b : Nat} {o : operation} (hpoint : o.point = .load_token)
      (htoken : stop_requested tokens o.token = true) :
      Step spare d stopped tokens b o b { o with point := .leaving .stopped }
  | not_requested {b : Nat} {o : operation} (hpoint : o.point = .load_token)
      (htoken : stop_requested tokens o.token = false) :
      Step spare d stopped tokens b o b { o with point := .polling }
  /-- `EINTR`. -/
  | poll_interrupted {b : Nat} {o : operation} (hpoint : o.point = .polling) :
      Step spare d stopped tokens b o b { o with point := .load_stopped }
  | poll_fails {b : Nat} {o : operation} (hpoint : o.point = .polling) :
      Step spare d stopped tokens b o b
        { o with point := .leaving (.failure "Native I/O poll failed"), fault := true }
  /-- The pipe is readable, and the endpoint may be. -/
  | poll_woken {b : Nat} {o : operation} (seen : revents) (hpoint : o.point = .polling)
      (hbytes : 0 < b) :
      Step spare d stopped tokens b o b { o with point := .draining seen }
  /-- The endpoint alone has something to report. -/
  | poll_returns {b : Nat} {o : operation} (seen : revents) (hpoint : o.point = .polling)
      (hbytes : b = 0) :
      Step spare d stopped tokens b o b { o with point := .reload_stopped seen }
  -- `drain` reads until the pipe is empty, 128 bytes at a time
  | drain {b : Nat} {o : operation} {seen : revents} (hpoint : o.point = .draining seen)
      (hbytes : 0 < b) :
      Step spare d stopped tokens b o (b - 128) o
  | drained {b : Nat} {o : operation} {seen : revents} (hpoint : o.point = .draining seen)
      (hbytes : b = 0) :
      Step spare d stopped tokens b o b { o with point := .reload_stopped seen }
  -- the same two loads behind `poll`
  | now_stopped {b : Nat} {o : operation} {seen : revents}
      (hpoint : o.point = .reload_stopped seen) (hstop : stopped = true) :
      Step spare d stopped tokens b o b { o with point := .leaving .stopped }
  | still_not_stopped {b : Nat} {o : operation} {seen : revents}
      (hpoint : o.point = .reload_stopped seen) (hstop : stopped = false) :
      Step spare d stopped tokens b o b { o with point := .reload_token seen }
  | now_requested {b : Nat} {o : operation} {seen : revents}
      (hpoint : o.point = .reload_token seen) (htoken : stop_requested tokens o.token = true) :
      Step spare d stopped tokens b o b { o with point := .leaving .stopped }
  | endpoint_invalid {b : Nat} {o : operation} (hpoint : o.point = .reload_token .invalid)
      (htoken : stop_requested tokens o.token = false) :
      Step spare d stopped tokens b o b
        { o with point := .leaving (.failure "Native I/O endpoint invalid"), fault := true }
  | endpoint_ready {b : Nat} {o : operation} (hpoint : o.point = .reload_token .ready)
      (htoken : stop_requested tokens o.token = false) :
      Step spare d stopped tokens b o b { o with point := .ready }
  -- neither invalid nor ready: the loop goes around
  | endpoint_other {b : Nat} {o : operation} (hpoint : o.point = .reload_token .other)
      (htoken : stop_requested tokens o.token = false) :
      Step spare d stopped tokens b o b { o with point := .load_stopped }
  -- `read` or `write`, once the endpoint is ready
  | transfer {b : Nat} {o : operation} (count : Nat) (hpoint : o.point = .ready) :
      Step spare d stopped tokens b o b { o with point := .leaving (.count count) }
  /-- `EINTR`, `EAGAIN` or `EWOULDBLOCK`. -/
  | transfer_again {b : Nat} {o : operation} (hpoint : o.point = .ready) :
      Step spare d stopped tokens b o b { o with point := .load_stopped }
  | transfer_fails {b : Nat} {o : operation} (message : String) (hpoint : o.point = .ready) :
      Step spare d stopped tokens b o b
        { o with point := .leaving (.failure message), fault := true }
  /-- The destructor of `notify` waits for a function that runs. -/
  | leave {b : Nat} {o : operation} {result : answer} (hpoint : o.point = .leaving result)
      (hnotify : o.notify ≠ .running) :
      Step spare d stopped tokens b o b { o with point := .idle, notify := .none }

/-! ## The ones who stop them

`request_stop` sets the flag and then writes to both pipes; `cancel_pending` only writes. A
token is set by one thread, which runs the callbacks registered on it one after the other. None
of these has a step that waits for an operation. -/

/-- A thread in `request_stop` or in `cancel_pending`, with the pipes it has yet to write to. -/
structure waker where
  stop : Bool
  rest : List direction

/-- `std::stop_source::request_stop`, on the thread that set the token. -/
inductive stopper where
  /-- Nobody is in it. -/
  | outside
  /-- Between two callbacks. -/
  | between
  /-- In the function of `notify` of the direction, before its `write`. -/
  | calling (d : direction)

/-- The flag, the tokens, who stops what, the pipes and the two operations. -/
structure state where
  stopped : Bool
  tokens : Nat → Bool
  stoppers : Nat → stopper
  wakers : List waker
  bytes : direction → Nat
  ops : direction → operation

/-- An operation steps, or one of the others. -/
inductive state.Step (spare : Nat) : state → Unit → state → Prop
  | operation {s : state} {b : Nat} {o : operation} (d : direction)
      (hstep : operation.Step spare d s.stopped s.tokens (s.bytes d) (s.ops d) b o) :
      Step spare s ()
        { s with bytes := Function.update s.bytes d b, ops := Function.update s.ops d o }
  -- the flag first, then `cancel_pending`, which wakes both directions in turn
  | request_stop {s : state} :
      Step spare s ()
        { s with stopped := true, wakers := s.wakers ++ [⟨true, [.read, .write]⟩] }
  | cancel_pending {s : state} :
      Step spare s () { s with wakers := s.wakers ++ [⟨false, [.read, .write]⟩] }
  | wake {s : state} {stop : Bool} {d : direction} {rest : List direction}
      {before after : List waker} (hwakers : s.wakers = before ++ ⟨stop, d :: rest⟩ :: after) :
      Step spare s ()
        { s with
          wakers := before ++ ⟨stop, rest⟩ :: after
          bytes := Function.update s.bytes d (wake spare (s.bytes d)) }
  /-- The first `request_stop` of the token. -/
  | stop_token {s : state} (k : Nat) (hfirst : s.tokens k = false) :
      Step spare s ()
        { s with
          tokens := Function.update s.tokens k true
          stoppers := Function.update s.stoppers k .between }
  -- `request_stop` of a token runs the functions registered with it, one at a time
  | call {s : state} {k : Nat} (d : direction) (hstopper : s.stoppers k = .between)
      (htoken : (s.ops d).token = some k) (hnotify : (s.ops d).notify = .registered) :
      Step spare s ()
        { s with
          stoppers := Function.update s.stoppers k (.calling d)
          ops := Function.update s.ops d { s.ops d with notify := .running } }
  | called {s : state} {k : Nat} {d : direction} (hstopper : s.stoppers k = .calling d) :
      Step spare s ()
        { s with
          stoppers := Function.update s.stoppers k .between
          bytes := Function.update s.bytes d (wake spare (s.bytes d))
          ops := Function.update s.ops d { s.ops d with notify := .done } }
  /-- No callback is left. -/
  | stop_returns {s : state} {k : Nat} (hstopper : s.stoppers k = .between)
      (hnone : ∀ d, (s.ops d).token = some k → (s.ops d).notify ≠ .registered) :
      Step spare s () { s with stoppers := Function.update s.stoppers k .outside }

/-- An opened object: nothing goes on and the pipes are empty. -/
def state.make : state where
  stopped := false
  tokens _ := false
  stoppers _ := .outside
  wakers := []
  bytes _ := 0
  ops _ := ⟨.idle, none, .none, false⟩

/-- One reader and one writer, any number of times one after the other, and all who stop them. -/
def stdio_runs (spare : Nat) : System state Unit where
  init s := s = .make
  step := state.Step spare

/-! ## What runs keep

An operation that sleeps in `poll` is woken by a byte. The result is about the moments in which
it is to stop and has none. -/

/-- Somebody who has stopped the operation has its byte yet to write. -/
def about_to_wake (s : state) (d : direction) : Prop :=
  (∃ w ∈ s.wakers, w.stop = true ∧ d ∈ w.rest) ∨
    ∃ k, (s.ops d).token = some k ∧
      (s.stoppers k = .calling d ∨ s.stoppers k ≠ .outside ∧ (s.ops d).notify = .registered)

end SynapseMcp.posix_stdio
