/-
What a `process_transport` gives back: its two descriptors and its child.

`stop()` looks at `running_` first, and the reader clears `running_` when it ends. So what
is released depends on who was first: a `stop()` that finds the reader running closes both
descriptors, signals the child and waits for it, each once in a whole life (`holds`). Once
the reader has ended by itself, no `stop()` releases anything, the destructor's included.

`stop()` does not join the reader, which may be in the callback, or in a `read` that still
returns a byte; what it can do once it has been asked to stop is counted (`lets_through`).
-/
import SynapseMcp.ProcessTransport
import SynapseMcp.Progress

set_option autoImplicit false

namespace SynapseMcp

open Transition

namespace process_transport

/-! ## How far the release is

`stop()` closes `stdout_fd_`, closes `stdin_fd_`, signals the child and waits for it, in this
order, and it does so only in the branch that found the reader running. So the state of the four
resources is determined by where that call is, and `holds` lists the possible combinations.
After another `start` a later call may come into the branch too. It finds the fields empty, so
nothing is closed or signalled a second time.

The pid is cleared behind the wait, whatever `waitpid` answered; that the child was reaped is
recorded only where it was. -/

/-- What there is to release, and what has been. -/
structure resources where
  stdin_fd_ : Option Nat
  stdout_fd_ : Option Nat
  pid_ : Option Nat
  closed : List Nat
  signalled : List Nat
  reaped : List Nat

/-- The resources of a transport, and what has been done with them. -/
def resources_of (p : process_transport) : resources :=
  ⟨p.stdin_fd_, p.stdout_fd_, p.pid_, p.closed, p.signalled, p.reaped⟩

/-- Not in the branch of `stop()` that found the reader running. -/
def stop_at.idle : stop_at → Bool
  | .outside | .entered | .clearing => true
  | _ => false

/-- How far the release of input `i`, output `o` and child `c` is. -/
inductive holds (i o c : Nat) (p : process_transport) : Prop where
  | intact (hstopped : p.stopped = false) (hstop : p.stop.idle = true)
      (hown : p.resources_of = ⟨some i, some o, some c, [], [], []⟩)
  | found (hstopped : p.stopped = true) (hstop : p.stop = .requesting ∨ p.stop = .closing_out)
      (hown : p.resources_of = ⟨some i, some o, some c, [], [], []⟩)
  | out_closed (hstopped : p.stopped = true) (hstop : p.stop = .closing_in)
      (hown : p.resources_of = ⟨some i, none, some c, [o], [], []⟩)
  | both_closed (hstopped : p.stopped = true) (hstop : p.stop = .signalling)
      (hown : p.resources_of = ⟨none, none, some c, [o, i], [], []⟩)
  | signalled (hstopped : p.stopped = true) (hstop : p.stop = .waiting c)
      (hown : p.resources_of = ⟨none, none, some c, [o, i], [c], []⟩)
  /-- `waitpid` may have failed. -/
  | released (hstopped : p.stopped = true) (hstop : ∀ pid, p.stop ≠ .waiting pid)
      (reaped : List Nat) (hreaped : reaped = [] ∨ reaped = [c])
      (hown : p.resources_of = ⟨none, none, none, [o, i], [c], reaped⟩)

section Holding

variable {lib : json_library} {i o c : Nat} {output : List UInt8} {p q : process_transport}
  {a : process_action}

/-- A step that moves neither `stop()` nor what it releases keeps the account of the four
resources. -/
theorem holds.elsewhere (h : holds i o c p) (hstopped : q.stopped = p.stopped)
    (hstop : q.stop = p.stop) (hown : q.resources_of = p.resources_of) : holds i o c q := by
  cases h with
  | intact hs hat ho => exact .intact (hstopped.trans hs) (hstop ▸ hat) (hown.trans ho)
  | found hs hat ho => exact .found (hstopped.trans hs) (hstop ▸ hat) (hown.trans ho)
  | out_closed hs hat ho => exact .out_closed (hstopped.trans hs) (hstop ▸ hat) (hown.trans ho)
  | both_closed hs hat ho => exact .both_closed (hstopped.trans hs) (hstop ▸ hat) (hown.trans ho)
  | signalled hs hat ho => exact .signalled (hstopped.trans hs) (hstop ▸ hat) (hown.trans ho)
  | released hs hat reaped hr ho =>
      exact .released (hstopped.trans hs) (hstop ▸ hat) reaped hr (hown.trans ho)

/-- A step between two positions of `stop()` outside its branch releases nothing, so the
resources are as they were. -/
theorem holds.idles (h : holds i o c p) (hstopped : q.stopped = p.stopped)
    (hbefore : p.stop.idle = true) (hafter : q.stop.idle = true)
    (hown : q.resources_of = p.resources_of) : holds i o c q := by
  cases h with
  | intact hs hat ho => exact .intact (hstopped.trans hs) hafter (hown.trans ho)
  | released hs hat reaped hr ho =>
      refine .released (hstopped.trans hs) ?_ reaped hr (hown.trans ho)
      intro pid hwaiting
      rw [hwaiting] at hafter
      cases hafter
  | found hs hat => rcases hat with hat | hat <;> rw [hat] at hbefore <;> cases hbefore
  | out_closed hs hat | both_closed hs hat | signalled hs hat =>
      rw [hat] at hbefore
      cases hbefore

/-- The combination changes only by a step of the `stop()` that is in the branch, and then to
the next in the list. The other cases are steps that leave the resources or that no such call is
in. -/
theorem holds.step (h : holds i o c p) (hstep : process_transport.Step lib p a q) :
    holds i o c q := by
  cases hstep with
  | call_stop hstop => exact h.idles rfl (by rw [hstop]; rfl) rfl rfl
  | stop_idle hstop => exact h.idles rfl (by rw [hstop]; rfl) rfl rfl
  | stop_clears hstop => exact h.idles rfl (by rw [hstop]; rfl) rfl rfl
  -- the branch of a first `stop()`: from the intact resources into the list
  | stop_running hstop =>
      cases h with
      | intact _ _ hown => exact .found rfl (.inl rfl) hown
      | released _ _ reaped hreaped hown => exact .released rfl nofun reaped hreaped hown
      | found _ hat => rcases hat with hat | hat <;> rw [hstop] at hat <;> cases hat
      | out_closed _ hat | both_closed _ hat | signalled _ hat =>
          rw [hstop] at hat
          cases hat
  | stop_requests hstop =>
      cases h with
      | found hstopped _ hown => exact .found hstopped (.inr rfl) hown
      | released hstopped _ reaped hreaped hown =>
          exact .released hstopped nofun reaped hreaped hown
      | intact _ hat | out_closed _ hat | both_closed _ hat | signalled _ hat =>
          rw [hstop] at hat
          cases hat
  -- each release is in its own order; the same call once more finds nothing to release
  | stop_closes_out hstop =>
      cases h with
      | found hstopped _ hown =>
          simp only [resources_of, resources.mk.injEq] at hown
          refine .out_closed hstopped rfl ?_
          simp [resources_of, hown]
      | released hstopped _ reaped hreaped hown =>
          simp only [resources_of, resources.mk.injEq] at hown
          refine .released hstopped nofun reaped hreaped ?_
          simp [resources_of, hown]
      | intact _ hat | out_closed _ hat | both_closed _ hat | signalled _ hat =>
          rw [hstop] at hat
          cases hat
  | stop_closes_in hstop =>
      cases h with
      | out_closed hstopped _ hown =>
          simp only [resources_of, resources.mk.injEq] at hown
          refine .both_closed hstopped rfl ?_
          simp [resources_of, hown]
      | released hstopped _ reaped hreaped hown =>
          simp only [resources_of, resources.mk.injEq] at hown
          refine .released hstopped nofun reaped hreaped ?_
          simp [resources_of, hown]
      | found _ hat => rcases hat with hat | hat <;> rw [hstop] at hat <;> cases hat
      | intact _ hat | both_closed _ hat | signalled _ hat =>
          rw [hstop] at hat
          cases hat
  | stop_signals hstop hpid =>
      cases h with
      | both_closed hstopped _ hown =>
          simp only [resources_of, resources.mk.injEq] at hown
          obtain rfl : c = _ := Option.some.inj (hown.2.2.1.symm.trans hpid)
          refine .signalled hstopped rfl ?_
          simp [resources_of, hown]
      | released hstopped _ reaped hreaped hown =>
          simp only [resources_of, resources.mk.injEq] at hown
          rw [hown.2.2.1] at hpid
          cases hpid
      | found _ hat => rcases hat with hat | hat <;> rw [hstop] at hat <;> cases hat
      | intact _ hat | out_closed _ hat | signalled _ hat =>
          rw [hstop] at hat
          cases hat
  -- with the child still there this branch is not taken; without one everything was released
  | stop_childless hstop hpid =>
      cases h with
      | both_closed hstopped _ hown =>
          simp only [resources_of, resources.mk.injEq] at hown
          rw [hown.2.2.1] at hpid
          cases hpid
      | released hstopped _ reaped hreaped hown =>
          exact .released hstopped nofun reaped hreaped hown
      | found _ hat => rcases hat with hat | hat <;> rw [hstop] at hat <;> cases hat
      | intact _ hat | out_closed _ hat | signalled _ hat =>
          rw [hstop] at hat
          cases hat
  -- the child is collected or not; in either case the PID is forgotten
  | stop_waited reaped hstop =>
      cases h with
      | signalled hstopped hat hown =>
          simp only [resources_of, resources.mk.injEq] at hown
          obtain rfl : c = _ := stop_at.waiting.inj (hat.symm.trans hstop)
          refine .released hstopped nofun (if reaped then [c] else []) ?_ ?_
          · cases reaped
            · exact .inl rfl
            · exact .inr rfl
          · simp [resources_of, hown]
      | released hstopped hat => exact absurd hstop (hat _)
      | found _ hat => rcases hat with hat | hat <;> rw [hstop] at hat <;> cases hat
      | intact _ hat | out_closed _ hat | both_closed _ hat =>
          rw [hstop] at hat
          cases hat
  | _ => exact h.elsewhere rfl rfl rfl

/-- In every reachable state, from a transport that the constructor has just made. -/
theorem process_holds (h : (process_runs lib i o c output).Reachable p) : holds i o c p := by
  refine h.invariant (P := holds i o c) ?_ fun _ _ _ _ hi hstep => hi.step hstep
  rintro s rfl
  exact .intact rfl rfl rfl

end Holding

/-! ## What is given back

What a caller can tell is which descriptors were closed, and whether the child was signalled and
waited for. The contract is read off `holds`. It is not promised that anything is given back: a
reader that ends by itself clears `running_`, and a `stop()` that comes later releases nothing. -/

/-- The release is done at most once, in its order, and by the first `stop()` that finds the
reader running. -/
structure release_contract (i o c : Nat) (p : process_transport) : Prop where
  closed : p.closed <+: [o, i]
  signalled : p.signalled <+: [c]
  reaped : p.reaped <+: p.signalled
  /-- The child is asked to end when both its pipes are closed. -/
  ordered : p.signalled ≠ [] → p.closed = [o, i]
  /-- As long as no `stop()` found the reader running, everything is held. -/
  held : p.stopped = false → p.resources_of = ⟨some i, some o, some c, [], [], []⟩
  /-- Once one did and has returned, nothing is. -/
  done : p.stopped = true → p.stop = .outside →
    p.stdin_fd_ = none ∧ p.stdout_fd_ = none ∧ p.pid_ = none ∧
      p.closed = [o, i] ∧ p.signalled = [c]

/-- A start makes a new reader. -/
def starts : process_action → Bool
  | .start _ | .start_throws _ => true
  | _ => false

def unstarted (_ : process_transport) (a : process_action) : Prop := starts a = false

section Releasing

variable {lib : json_library} {i o c : Nat} {output : List UInt8} {p q : process_transport}
  {a : process_action}

/-- Each combination of the list is one the contract allows. -/
theorem holds.releases (h : holds i o c p) : release_contract i o c p := by
  cases h with
  | intact hstopped _ hown =>
      have hfields := hown
      simp only [resources_of, resources.mk.injEq] at hfields
      obtain ⟨-, -, -, hclosed, hsignalled, hreaped⟩ := hfields
      constructor
      -- untouched while the transport runs
      case held => exact fun _ => hown
      case done => exact fun hs => absurd (hstopped.symm.trans hs) (by decide)
      all_goals simp [hclosed, hsignalled, hreaped]
  | found hstopped hat hown =>
      have hfields := hown
      simp only [resources_of, resources.mk.injEq] at hfields
      obtain ⟨-, -, -, hclosed, hsignalled, hreaped⟩ := hfields
      constructor
      case held => exact fun _ => hown
      case done =>
        intro _ hstop
        rcases hat with hat | hat <;> rw [hstop] at hat <;> cases hat
      all_goals simp [hclosed, hsignalled, hreaped]
  -- in the middle of the branch: neither untouched nor done
  | out_closed hstopped hat hown | both_closed hstopped hat hown
  | signalled hstopped hat hown =>
      simp only [resources_of, resources.mk.injEq] at hown
      obtain ⟨-, -, -, hclosed, hsignalled, hreaped⟩ := hown
      constructor
      case held => exact fun hs => absurd (hs.symm.trans hstopped) (by decide)
      case done => exact fun _ hstop => absurd (hat.symm.trans hstop) nofun
      all_goals simp [hclosed, hsignalled, hreaped]
  | released hstopped _ reaped hr hown =>
      simp only [resources_of, resources.mk.injEq] at hown
      obtain ⟨hin, hout, hpid, hclosed, hsignalled, hreaped⟩ := hown
      constructor
      case held => exact fun hs => absurd (hs.symm.trans hstopped) (by decide)
      case done => exact fun _ _ => ⟨hin, hout, hpid, hclosed, hsignalled⟩
      case reaped =>
        rw [hreaped, hsignalled]
        rcases hr with hr | hr <;> simp [hr]
      all_goals simp [hclosed, hsignalled]

/-- So no run closes a descriptor twice, or waits for the child a second time. -/
theorem releases_once (h : (process_runs lib i o c output).Reachable p) :
    release_contract i o c p := (process_holds h).releases

/-- Without a reader to stop: nothing but a `start` sets `running_`. -/
theorem stays_idle (hstep : process_transport.Step lib p a q) (hstart : unstarted p a)
    (hrunning : p.running_ = false) (hstopped : p.stopped = false) :
    q.running_ = false ∧ q.stopped = false := by
  cases hstep with
  | start | start_running | start_throws => cases hstart
  | stop_running _ hrun => exact absurd (hrun.symm.trans hrunning) (by decide)
  | leave | stop_clears => exact ⟨rfl, hstopped⟩
  | _ => exact ⟨hrunning, hstopped⟩

/-- Once the reader has ended by itself, or before it is started, no `stop()` ever gives
anything back: both descriptors stay open and the child is neither signalled nor waited for. -/
theorem never_released (h : (process_runs lib i o c output).Reachable p)
    (hrunning : p.running_ = false) (hstopped : p.stopped = false)
    (hrun : ((process_runs lib i o c output).restrict unstarted).Run p q) :
    q.resources_of = ⟨some i, some o, some c, [], [], []⟩ := by
  have hidle : q.running_ = false ∧ q.stopped = false := by
    induction hrun with
    | refl => exact ⟨hrunning, hstopped⟩
    | tail _ last ih =>
        obtain ⟨a, hstart, hstep⟩ := last
        exact stays_idle hstep hstart ih.1 ih.2
  exact (process_holds (h.run (System.restrict_run hrun))).releases.held hidle.2

end Releasing

/-! ## What the reader still does

`stop()` does not wait for the reader, so what the reader may do after it is to be bounded. The
reader looks at its stop state before each read. When it has been asked to stop it can be in a
read that returns one more byte, and if that byte ends a line the message is still called back
with; after that it turns away. -/

/-- The bytes a reader that has been asked to stop may still take. -/
def reader_at.reads_left : reader_at → ℕ
  | .reading _ _ => 1
  | _ => 0

/-- And the messages it may still call back with. -/
def reader_at.calls_left : reader_at → ℕ
  | .reading _ _ | .parsing _ => 1
  | _ => 0

/-- A reader behind the byte it was reading takes no other. -/
theorem byte_read_reads_left (line : List UInt8) (byte : UInt8) :
    (byte_read line byte).reads_left = 0 := by
  unfold byte_read
  split
  · split <;> rfl
  · split <;> rfl

/-- The byte may end a line, and then there may be one call back. -/
theorem byte_read_calls_left (line : List UInt8) (byte : UInt8) :
    (byte_read line byte).calls_left ≤ 1 := by
  unfold byte_read
  split
  · split <;> simp [reader_at.calls_left]
  · split <;> simp [reader_at.calls_left]

/-- A reader behind its line takes nothing and calls nothing back but the message it holds. -/
theorem parsed_reads_left (callback_ : Bool) (value : Option json) :
    (parsed callback_ value).reads_left = 0 ∧ (parsed callback_ value).calls_left = 0 := by
  cases value with
  | none => exact ⟨rfl, rfl⟩
  | some value => cases callback_ <;> exact ⟨rfl, rfl⟩

/-- What a reader did since it was asked to stop. -/
structure winding (p q : process_transport) : Prop where
  stop_requested : q.stop_requested = true
  taken : p.taken <+: q.taken
  messages : p.messages <+: q.messages
  reads : q.taken.length + q.reader.reads_left ≤ p.taken.length + p.reader.reads_left
  calls : q.messages.length + q.reader.calls_left ≤ p.messages.length + p.reader.calls_left

section Stopping

variable {lib : json_library} {p q r : process_transport} {a : process_action}

theorem winding.refl (h : p.stop_requested = true) : winding p p :=
  ⟨h, List.prefix_rfl, List.prefix_rfl, Nat.le_refl _, Nat.le_refl _⟩

/-- What was done in two stretches is done in both, and what is left at the end counts once. -/
theorem winding.trans (h : winding p q) (h' : winding q r) : winding p r where
  stop_requested := h'.stop_requested
  taken := h.taken.trans h'.taken
  messages := h.messages.trans h'.messages
  reads := Nat.le_trans h'.reads h.reads
  calls := Nat.le_trans h'.calls h.calls

/-- One that neither takes nor calls back anything. Then the reads and the calls that are left
to the reader need only not grow. -/
theorem winding.quiet (hstop : q.stop_requested = true)
    (htaken : q.taken = p.taken) (hmessages : q.messages = p.messages)
    (hreads : q.reader.reads_left ≤ p.reader.reads_left)
    (hcalls : q.reader.calls_left ≤ p.reader.calls_left) : winding p q := by
  refine ⟨hstop, ?_, ?_, ?_, ?_⟩
  · exact htaken ▸ List.prefix_rfl
  · exact hmessages ▸ List.prefix_rfl
  · rw [htaken]
    exact Nat.add_le_add_left hreads _
  · rw [hmessages]
    exact Nat.add_le_add_left hcalls _

/-- A reader that is asked to stop turns away from the next byte. -/
theorem winding.step (h : p.stop_requested = true) (hstep : process_transport.Step lib p a q)
    (hstart : unstarted p a) : winding p q := by
  cases hstep with
  | start | start_running | start_throws => cases hstart
  -- the head of the loop sees the request, so no further read begins
  | head_reads _ hstop => exact absurd (h.symm.trans hstop) (by decide)
  | @read fd line rest byte hreader hunread =>
      refine ⟨h, List.prefix_append .., List.prefix_rfl, ?_, ?_⟩
      · show (p.taken ++ [byte]).length + (byte_read line byte).reads_left ≤ _
        rw [byte_read_reads_left, hreader, List.length_append]
        exact Nat.le_refl _
      · show p.messages.length + (byte_read line byte).calls_left ≤ _
        rw [hreader]
        exact Nat.add_le_add_left (byte_read_calls_left line byte) _
  -- the line that was read is still parsed, and may be heard
  | @parse line hreader =>
      obtain ⟨hreads, hcalls⟩ := parsed_reads_left p.callback_ (line_value lib line)
      have hheard : (if p.callback_ then (line_value lib line).toList else []).length ≤ 1 := by
        cases line_value lib line <;> cases p.callback_ <;> simp
      refine ⟨h, List.prefix_rfl, List.prefix_append .., ?_, ?_⟩
      · show _ + (parsed p.callback_ (line_value lib line)).reads_left ≤ _
        rw [hreads]
        exact Nat.le_add_right _ _
      · show (p.messages ++ _).length + (parsed p.callback_ (line_value lib line)).calls_left ≤ _
        rw [hcalls, hreader, List.length_append]
        exact Nat.add_le_add_left hheard _
  | head_stops hreader | eof hreader | read_fails hreader | message_returns hreader
  | leave hreader =>
      refine .quiet h rfl rfl ?_ ?_
      · exact Nat.zero_le _
      · exact Nat.zero_le _
  | stop_requests => exact .quiet rfl rfl rfl (Nat.le_refl _) (Nat.le_refl _)
  | _ => exact .quiet h rfl rfl (Nat.le_refl _) (Nat.le_refl _)

end Stopping

section Winding

variable {lib : json_library} {i o c : Nat} {output : List UInt8} {p q : process_transport}

/-- From the moment a `stop()` has asked for it, whatever the threads do: the reader takes at
most the one byte it was reading, and calls back at most once more. -/
theorem lets_through (h : p.stop_requested = true)
    (hrun : ((process_runs lib i o c output).restrict unstarted).Run p q) :
    ∃ taken messages, q.taken = p.taken ++ taken ∧ taken.length ≤ p.reader.reads_left ∧
      q.messages = p.messages ++ messages ∧ messages.length ≤ p.reader.calls_left := by
  have hwinding : winding p q := by
    induction hrun with
    | refl => exact .refl h
    | tail _ last ih =>
        obtain ⟨a, hstart, hstep⟩ := last
        exact ih.trans (.step ih.stop_requested hstep hstart)
  obtain ⟨taken, htaken⟩ := hwinding.taken
  obtain ⟨messages, hmessages⟩ := hwinding.messages
  refine ⟨taken, messages, htaken.symm, ?_, hmessages.symm, ?_⟩
  · have hreads := hwinding.reads
    rw [← htaken, List.length_append] at hreads
    omega
  · have hcalls := hwinding.calls
    rw [← hmessages, List.length_append] at hcalls
    omega

end Winding

/-! ## That it ends

The steps that the reader and `stop()` take of their own accord are counted, from the positions
they are in; every such step leaves fewer. A state in which neither can go on is one in which
both are done, since the only thing a thread waits for is the child, and what `waitpid` answers
is a step of the environment that always comes. -/

/-- The steps a reader that has been asked to stop has left. -/
def reader_at.steps_left : reader_at → ℕ
  | .absent | .gone => 0
  | .leaving => 1
  | .head _ => 2
  | .calling _ => 3
  | .parsing _ => 4
  | .reading _ _ => 5

/-- The statements that a call of `stop()` has still before it. -/
def stop_at.steps_left : stop_at → ℕ
  | .outside => 0
  | .clearing => 1
  | .waiting _ => 2
  | .signalling => 3
  | .closing_in => 4
  | .closing_out => 5
  | .requesting => 6
  | .entered => 7

/-- The steps of the two threads together. -/
def steps_left (p : process_transport) : ℕ := p.reader.steps_left + p.stop.steps_left

/-- What the reader and a `stop()` that has been called do; the rest is the caller's. -/
def internal : process_action → Bool
  | .start _ | .start_throws _ | .call_stop | .send _ _ => false
  | .reader | .read | .eof | .read_fails | .message_returns | .stop | .wait_returns _ => true

/-- A step of either thread after the reader has been asked to stop. -/
def winding_step (p : process_transport) (a : process_action) (_ : process_transport) : Prop :=
  p.stop_requested = true ∧ internal a = true

/-- Behind a byte the reader has four steps at most, those of a line that ends. -/
theorem byte_read_steps_left (line : List UInt8) (byte : UInt8) :
    (byte_read line byte).steps_left ≤ 4 := by
  unfold byte_read
  split
  · split <;> simp [reader_at.steps_left]
  · split <;> simp [reader_at.steps_left]

/-- Behind a line it has three, those of a call back. -/
theorem parsed_steps_left (callback_ : Bool) (value : Option json) :
    (parsed callback_ value).steps_left ≤ 3 := by
  cases value with
  | none => simp [parsed, reader_at.steps_left]
  | some value => cases callback_ <;> simp [parsed, reader_at.steps_left]

section Ending

variable {lib : json_library} {i o c : Nat} {output : List UInt8} {p q : process_transport}
  {a : process_action}

theorem internal_unstarted (h : internal a = true) : unstarted p a := by
  cases a with
  | start | start_throws => cases h
  | _ => rfl

/-- A step of the reader leaves the call of `stop()` where it is. -/
theorem spends_reader (hreader : q.reader.steps_left < p.reader.steps_left)
    (hstop : q.stop = p.stop) : q.steps_left < p.steps_left := by
  rw [steps_left, hstop]
  exact Nat.add_lt_add_right hreader _

/-- And the other way round. -/
theorem spends_stop (hstop : q.stop.steps_left < p.stop.steps_left)
    (hreader : q.reader = p.reader) : q.steps_left < p.steps_left := by
  rw [steps_left, hreader]
  exact Nat.add_lt_add_left hstop _

/-- Every step of the two threads spends one of the steps that are left. -/
theorem Step.spends (hstep : process_transport.Step lib p a q) (hK : winding_step p a q) :
    q.steps_left < p.steps_left := by
  obtain ⟨hrequested, hinternal⟩ := hK
  cases hstep with
  | start | start_running | start_throws | call_stop | send => cases hinternal
  | head_reads _ hstop => exact absurd (hrequested.symm.trans hstop) (by decide)
  | @read fd line rest byte hreader =>
      refine spends_reader ?_ rfl
      rw [hreader]
      exact Nat.lt_succ_of_le (byte_read_steps_left line byte)
  | @parse line hreader =>
      refine spends_reader ?_ rfl
      rw [hreader]
      exact Nat.lt_succ_of_le (parsed_steps_left p.callback_ (line_value lib line))
  | head_stops hreader | eof hreader | read_fails hreader | message_returns hreader
  | leave hreader =>
      refine spends_reader ?_ rfl
      rw [hreader]
      simp [reader_at.steps_left]
  | stop_idle hstop | stop_running hstop | stop_requests hstop | stop_closes_out hstop
  | stop_closes_in hstop | stop_signals hstop | stop_childless hstop | stop_waited _ hstop
  | stop_clears hstop =>
      refine spends_stop ?_ rfl
      rw [hstop]
      simp [stop_at.steps_left]

/-- Where neither thread can go on, both are done: at every other place of the reader, and at
every other statement of `stop()`, one of their steps is possible. -/
theorem winds_up (hrequested : p.stop_requested = true)
    (hstuck : (process_runs lib i o c output).Stuck winding_step p) :
    p.reader.over = true ∧ p.stop = .outside := by
  -- a step that is possible is none of the two threads'
  have hcannot : ∀ {a q}, process_transport.Step lib p a q → internal a = false := by
    intro a q hstep
    cases hinternal : internal a with
    | false => rfl
    | true => exact (hstuck a q ⟨hrequested, hinternal⟩ hstep).elim
  constructor
  · cases hreader : p.reader with
    | absent | gone => rfl
    | head line => cases hcannot (Step.head_stops hreader hrequested)
    | reading fd line => cases hcannot (Step.read_fails hreader)
    | parsing line => cases hcannot (Step.parse hreader)
    | calling value => cases hcannot (Step.message_returns hreader)
    | leaving => cases hcannot (Step.leave hreader)
  · cases hstop : p.stop with
    | outside => rfl
    | entered =>
        cases hrunning : p.running_ with
        | true => cases hcannot (Step.stop_running hstop hrunning)
        | false => cases hcannot (Step.stop_idle hstop hrunning)
    | requesting => cases hcannot (Step.stop_requests hstop)
    | closing_out => cases hcannot (Step.stop_closes_out hstop)
    | closing_in => cases hcannot (Step.stop_closes_in hstop)
    | signalling =>
        cases hpid : p.pid_ with
        | none => cases hcannot (Step.stop_childless hstop hpid)
        | some pid => cases hcannot (Step.stop_signals hstop hpid)
    | waiting pid => cases hcannot (Step.stop_waited true hstop)
    | clearing => cases hcannot (Step.stop_clears hstop)

/-- A reader that has been asked to stop and the `stop()` that did it end by themselves, in
no more steps than they have left, however the two are interleaved. -/
theorem winds_down (h : (process_runs lib i o c output).Reachable p)
    (hrequested : p.stop_requested = true) :
    (process_runs lib i o c output).Completes winding_step p.steps_left
      (fun q => q.reader.over = true ∧ q.stop = .outside) p := by
  have hbudget : (process_runs lib i o c output).Budget winding_step steps_left :=
    fun s a t _ hK hstep => Step.spends hstep hK
  constructor
  case bounded =>
    intro n q hsteps
    have hwithin := System.Steps.within hbudget h hsteps
    omega
  case possible => exact hbudget.comes_to_rest h
  case done =>
    intro q hrun hstuck
    refine winds_up ?_ hstuck
    -- nothing takes the request back
    have hwinding : winding p q := by
      clear hstuck
      induction hrun with
      | refl => exact .refl hrequested
      | tail _ last ih =>
          obtain ⟨a, ⟨-, hinternal⟩, hstep⟩ := last
          exact ih.trans (.step ih.stop_requested hstep (internal_unstarted hinternal))
    exact hwinding.stop_requested

end Ending

/-! ## Two lives

In one a message callback calls `stop()` while the child still runs, and the release happens
inside that call, on the reader's own thread. In the other the child closes its output; the
reader ends by itself, and the destructor's `stop()` finds nothing running. -/

/-- The callback stops the transport it is called from, and returns. -/
def stopped_inside : process_transport :=
  { constructed 3 4 5 one_line with
    running_ := false
    callback_ := true
    reader := .calling stdio_session.zero
    stop_requested := true
    unread := []
    past := [⟨false, []⟩]
    taken := one_line
    messages := [stdio_session.zero]
    stopped := true
    stdin_fd_ := none
    stdout_fd_ := none
    pid_ := none
    closed := [4, 3]
    signalled := [5]
    reaped := [5] }

/-- One line is read, and the message callback calls `stop()`. -/
theorem reaches_stopped_inside :
    (process_runs stdio_session.lib 3 4 5 one_line).Reachable stopped_inside := by
  have h0 : (process_runs stdio_session.lib 3 4 5 one_line).Reachable
      (constructed 3 4 5 one_line) := .of_init rfl
  have h1 := h0.step (Step.start true rfl rfl rfl)
  have h2 := h1.step (Step.head_reads rfl rfl)
  have h3 := h2.step (Step.read rfl rfl)
  have h4 := h3.step (Step.head_reads rfl rfl)
  have h5 := h4.step (Step.read rfl rfl)
  have h6 := h5.step (Step.head_reads rfl rfl)
  have h7 := h6.step (Step.read rfl rfl)
  have h8 := h7.step (Step.parse rfl)
  have h9 := h8.step (Step.call_stop rfl)
  have h10 := h9.step (Step.stop_running rfl rfl)
  have h11 := h10.step (Step.stop_requests rfl)
  have h12 := h11.step (Step.stop_closes_out rfl)
  have h13 := h12.step (Step.stop_closes_in rfl)
  have h14 := h13.step (Step.stop_signals rfl rfl)
  have h15 := h14.step (Step.stop_waited true rfl)
  exact h15.step (Step.stop_clears rfl)

theorem releases_once_inside : stopped_inside.closed = [4, 3] ∧ stopped_inside.pid_ = none :=
  have h := (releases_once reaches_stopped_inside).done rfl rfl
  ⟨h.2.2.2.1, h.2.2.1⟩

/-- In its last read, asked to stop: the line's end still comes, and is called back with. -/
def asked : process_transport :=
  { constructed 3 4 5 one_line with
    running_ := true
    callback_ := true
    reader := .reading (some 4) [0x30]
    stop_requested := true
    stop := .closing_out
    unread := [newline]
    taken := [0x30, carriage_return]
    stopped := true }

/-- The byte came, and the message of its line is called back with. -/
def answered : process_transport :=
  { asked with
    reader := .calling stdio_session.zero
    unread := []
    taken := one_line
    messages := [stdio_session.zero] }

theorem lets_through_asked :
    ∃ taken messages, answered.taken = asked.taken ++ taken ∧ taken.length ≤ 1 ∧
      answered.messages = asked.messages ++ messages ∧ messages.length ≤ 1 := by
  have hread : process_transport.Step stdio_session.lib asked .read _ := Step.read rfl rfl
  have hparse : process_transport.Step stdio_session.lib
      { asked with
        reader := byte_read [0x30] newline, unread := [], taken := asked.taken ++ [newline] }
      .reader _ := Step.parse rfl
  have hrun : ((process_runs stdio_session.lib 3 4 5 one_line).restrict unstarted).Run asked
      answered := .tail (.single ⟨.read, rfl, hread⟩) ⟨.reader, rfl, hparse⟩
  exact lets_through rfl hrun

theorem winds_down_inside : stopped_inside.steps_left = 3 ∧
    (process_runs stdio_session.lib 3 4 5 one_line).Completes winding_step
      stopped_inside.steps_left (fun q => q.reader.over = true ∧ q.stop = .outside)
      stopped_inside :=
  ⟨rfl, winds_down reaches_stopped_inside rfl⟩

/-- The destructor's `stop()`, behind a reader that has seen the child's output end. -/
theorem never_released_told :
    told.resources_of = ⟨some 3, some 4, some 5, [], [], []⟩ :=
  never_released reaches_told rfl rfl .refl

end process_transport

end SynapseMcp
