/-
A server over `stdio_transport`: the `host` of `ServerLifecycle` with the transport of
`StdioRuns` where that leaves one open.

A step is one of the server alone, one of the transport alone, or one they take
together, where the server calls the transport or the transport's reader or writer calls
back. Nobody but the owner and the threads of the SDK calls `stop()`. A call that is not
over is one its thread is in, and the thread goes on when it returns: the owner's and the
close callback's are kept here, the others are positions of the server's threads. The
call whose `begin_close` takes effect requests the reader's stop before it returns.

The threads of the SDK run code of the application, and that may call `stop()` too, whatever
the owner does meanwhile: a handler or a hook does it on the worker, and a stop callback on
whichever thread requests the stop. That may be the reader, as it cancels a request, or a
thread in a `stop()` of its own, so such calls are nested as deep as the application likes.
-/
import SynapseMcp.ServerStart
import SynapseMcp.StdioClosing

set_option autoImplicit false

namespace SynapseMcp

open Transition

/-- The owner is not in a function of the transport, nor in its own cleanup's `stop()`. -/
def owner_at.outside : owner_at → Bool
  | .launching | .starting | .cleaning _ _ | .waiting _ _ => false
  | _ => true

/-- A thread as far as it runs code of the application. -/
inductive stop_caller where
  /-- The worker, in a handler or a hook. -/
  | worker
  /-- The reader, in a stop callback, as it cancels a request. -/
  | reader
  /-- The thread that is in this call of `stop()`, in a stop callback. -/
  | stop (call : Nat)
  deriving DecidableEq

/-- The thread runs code of the application now. A stop source that was taken has callbacks. -/
def host.in_application (h : host) : stop_caller → Prop
  | .worker => h.world.call = .applying
  | .reader => ∃ source discarded,
      h.world.reader = .cleaning (.requesting (some source) discarded)
  | .stop call => ∃ source discarded,
      h.world.stops[call]? = some (.cleaning (.requesting (some source) discarded))

/-- The host, its transport, and the calls from one into the other that are not over. -/
structure stdio_server where
  server : host
  transport : stdio_world
  /-- The call of `stop()` the owner is in. -/
  owner_stop : Option Nat
  /-- The call of `stop()` the close callback is in. -/
  close_stop : Option Nat
  /-- The call of `stop()` that code of the application is in, by the thread that runs it. -/
  nested : stop_caller → Option Nat
  /-- The call of `stop()` that closed the transport and is to request the reader's stop. -/
  requester : Option Nat
  /-- The number of the transport's `wait` the owner called last. -/
  transport_wait : Nat

/-- A step has the label of the part that takes it, and of the server where both do. -/
inductive stdio_server_action where
  | server (a : host_action)
  | transport (a : stdio_action)

namespace stdio_server

/-- A step of the server in which it calls nothing of the transport and waits for no
call of `stop()`. -/
def alone (d : stdio_server) (h : host) : host_action → Prop
  | .register _ | .application _ => True
  | .start | .start_returns _ _ | .owner | .wait_returns _ =>
      d.owner_stop = none ∧ d.server.owner.outside = true
  | .serve a => (∀ wire, a ≠ .deliver wire) ∧ h.world.frames = d.server.world.frames
  | .stop => ∀ call : Nat, d.server.world.stops[call]? = some .transport →
      h.world.stops[call]? = some .transport
  | .wait | .call_stop => False

/-- `stop()` is called; it is call number `d.server.world.stops.length`. -/
def called_stop (h : host) : host :=
  { h with world := { h.world with stops := h.world.stops ++ [.entered] } }

/-- The call of `stop()` returns from `transport_stop_()`. -/
def stopped_transport (h : host) (call : Nat) : host :=
  { h with
    world := { h.world with stops := h.world.stops.set call .returned }
    transport := { h.transport with stopped := true } }

end stdio_server

/-- A step of the transport in which it neither is called nor calls back. -/
def stdio_world.alone (w : stdio_world) : stdio_action → Prop
  | .start _ | .send _ _ | .stop | .request_stop | .wait | .message_returns _ => False
  | .reader => ∀ value after, w.reader ≠ .calling value after
  | .read_throws => ∀ after, w.reader ≠ .called after
  | .tail reading =>
      w.tail reading ≠ some .called ∧ ∀ reason, w.tail reading ≠ some (.claimed reason)
  | _ => True

/-- The steps of either part alone, and those in which one calls the other: `send` and `start`,
the two callbacks, the calls of `stop()` by the owner and by code of the application, and
`wait`. -/
inductive stdio_server.Step (lib : json_library) :
    stdio_server → stdio_server_action → stdio_server → Prop
  /-- A thread whose application code is in a call of `stop()` stays in that code. -/
  | server {d : stdio_server} {a : host_action} {h : host} (hstep : host.Step d.server a h)
      (halone : d.alone h a)
      (hinside : ∀ who call, d.nested who = some call → h.in_application who) :
      Step lib d (.server a) { d with server := h }
  /-- A section that passes a frame to `transport_send_`. -/
  | send {d : stdio_server} {a : server_action} {h : host} {t : stdio_world} {f : frame}
      (m : serialized) (hstep : host.Step d.server (.serve a) h)
      (hframe : h.world.frames = d.server.world.frames ++ [f])
      (hsend : stdio_world.Step lib d.transport (.send f.wire m) t)
      (haccepted : f.accepted = true ↔ t.admitted ≠ d.transport.admitted) :
      Step lib d (.server (.serve a)) { d with server := h, transport := t }
  /-- `transport_start_`, as far as its mutex is held. -/
  | start {d : stdio_server} {t : stdio_world} (answers : start_answers)
      (howner : d.server.owner = .launching)
      (hstart : stdio_world.Step lib d.transport (.start answers) t) :
      Step lib d (.server .owner)
        { d with
          server := { d.server with
            transport := { d.server.transport with starts := d.server.transport.starts + 1 }
            owner := .starting }
          transport := t }
  | started {d : stdio_server} (howner : d.server.owner = .starting)
      (hstarting : d.transport.starting = .started) :
      Step lib d (.server .owner) { d with server := { d.server with owner := .committing } }
  | start_fails {d : stdio_server} (err : sdk_error) (howner : d.server.owner = .starting)
      (hstarting : d.transport.starting = .failed) :
      Step lib d (.server .owner) { d with server := d.server.clean err }
  /-- The reader calls the message callback. -/
  | deliver {d : stdio_server} {t : stdio_world} {value : json} {after : after_frame}
      (hreader : d.transport.reader = .calling value after)
      (hcall : stdio_world.Step lib d.transport .reader t) :
      Step lib d (.server (.serve (.deliver value)))
        { d with
          server := { d.server with
            world := { d.server.world with reader := .receiving value } }
          transport := t }
  /-- The message callback returns; it does not throw. -/
  | delivered {d : stdio_server} {t : stdio_world} (hidle : d.server.world.reader = .idle)
      (hreturn : stdio_world.Step lib d.transport (.message_returns false) t) :
      Step lib d (.transport (.message_returns false)) { d with transport := t }
  | transport {d : stdio_server} {a : stdio_action} {t : stdio_world}
      (hstep : stdio_world.Step lib d.transport a t) (halone : d.transport.alone a) :
      Step lib d (.transport a) { d with transport := t }
  /-- The close callback calls `stop()`. -/
  | close {d : stdio_server} {t : stdio_world} {reading : Bool} {reason : close_reason}
      (hclaimed : d.transport.tail reading = some (.claimed reason))
      (hcall : stdio_world.Step lib d.transport (.tail reading) t) :
      Step lib d (.server .call_stop)
        { d with
          server := called_stop d.server
          transport := t
          close_stop := some d.server.world.stops.length }
  | closed {d : stdio_server} {t : stdio_world} {reading : Bool} {call : Nat}
      (hclose : d.close_stop = some call) (hcalled : d.transport.tail reading = some .called)
      (hstops : d.server.world.stops[call]? = some .returned)
      (hreturn : stdio_world.Step lib d.transport (.tail reading) t) :
      Step lib d (.transport (.tail reading)) { d with transport := t, close_stop := none }
  | owner_stops {d : stdio_server} (howner : d.server.owner = .idle)
      (hstop : d.owner_stop = none) :
      Step lib d (.server .call_stop)
        { d with
          server := called_stop d.server
          owner_stop := some d.server.world.stops.length }
  | owner_stopped {d : stdio_server} {call : Nat} (hstop : d.owner_stop = some call)
      (hstops : d.server.world.stops[call]? = some .returned) :
      Step lib d (.server .stop) { d with owner_stop := none }
  /-- A handler, a hook or a stop callback calls `stop()`. -/
  | application_stops {d : stdio_server} (who : stop_caller)
      (hruns : d.server.in_application who) (hstop : d.nested who = none) :
      Step lib d (.server .call_stop)
        { d with
          server := called_stop d.server
          nested := Function.update d.nested who (some d.server.world.stops.length) }
  | application_stopped {d : stdio_server} {who : stop_caller} {call : Nat}
      (hnested : d.nested who = some call)
      (hstops : d.server.world.stops[call]? = some .returned) :
      Step lib d (.server .stop) { d with nested := Function.update d.nested who none }
  /-- `transport_stop_()` of a transport that is closing already. -/
  | stop_closing {d : stdio_server} {t : stdio_world} {call : Nat}
      (hstops : d.server.world.stops[call]? = some .transport)
      (hrequester : d.requester ≠ some call) (hclosing : d.transport.shared.closing_ = true)
      (hstop : stdio_world.Step lib d.transport .stop t) :
      Step lib d (.server .stop)
        { d with server := stopped_transport d.server call, transport := t }
  | stop_closes {d : stdio_server} {t : stdio_world} {call : Nat}
      (hstops : d.server.world.stops[call]? = some .transport)
      (hopen : d.transport.shared.closing_ = false)
      (hstop : stdio_world.Step lib d.transport .stop t) :
      Step lib d (.transport .stop) { d with transport := t, requester := some call }
  | stop_requests {d : stdio_server} {t : stdio_world} {call : Nat}
      (hrequester : d.requester = some call)
      (hrequest : stdio_world.Step lib d.transport .request_stop t) :
      Step lib d (.server .stop)
        { d with
          server := stopped_transport d.server call
          transport := t
          requester := none }
  /-- The `stop()` of the cleanup of `start()` returned, and its `wait()` begins. -/
  | cleaned {d : stdio_server} {call : Nat} {err : sdk_error}
      (howner : d.server.owner = .cleaning call err)
      (hstops : d.server.world.stops[call]? = some .returned) :
      Step lib d (.server .owner)
        { d with
          server := { d.server with owner := .waiting (.start err) d.server.transport.stopped }
          transport := { d.transport with waits := d.transport.waits ++ [.polling false] }
          transport_wait := d.transport.waits.length }
  | wait {d : stdio_server} (bounded : Bool) (howner : d.server.owner = .idle)
      (hstop : d.owner_stop = none) :
      Step lib d (.server .wait)
        { d with
          server := { d.server with owner := .waiting (.wait bounded) d.server.transport.stopped }
          transport := { d.transport with waits := d.transport.waits ++ [.polling bounded] }
          transport_wait := d.transport.waits.length }
  /-- The transport's `wait` returned. -/
  | waited {d : stdio_server} {call : owner_call} {stopped running : Bool}
      (howner : d.server.owner = .waiting call stopped)
      (hwaits : d.transport.waits[d.transport_wait]? = some (.returned true running)) :
      Step lib d (.server .owner)
        { d with
          server := { d.server with
            transport := { d.server.transport with
              joined := d.server.transport.joined || stopped }
            owner := if d.server.executor_ = .published then .joining call
              else .finishing call } }
  | wait_expires {d : stdio_server} {stopped running : Bool}
      (howner : d.server.owner = .waiting (.wait true) stopped)
      (hwaits : d.transport.waits[d.transport_wait]? = some (.returned false running)) :
      Step lib d (.server (.wait_returns (.ok false)))
        { d with server := { d.server with owner := .idle } }

/-- Both as their constructors leave them. -/
def stdio_server.constructed (info : raw_info) (options : server_options) (o : stdio_options)
    (stream : List UInt8) : stdio_server where
  server := .constructed info options
  transport := .fresh o stream
  owner_stop := none
  close_stop := none
  nested := fun _ => none
  requester := none
  transport_wait := 0

/-- A server constructed with these options over a transport with those, whose peer sends
`stream` and closes its end. -/
def stdio_server_runs (lib : json_library) (info : raw_info) (options : server_options)
    (o : stdio_options) (stream : List UInt8) : System stdio_server stdio_server_action where
  init d := d = .constructed info options o stream
  step := stdio_server.Step lib

end SynapseMcp
