/-
`detail/stdio_posix.hpp`: the descriptors and the status flags that an endpoint borrows.

A descriptor refers to an open file description, and the status flags belong to the description:
a duplicate shares them with the descriptor it was made of. `posix_stdio::open` duplicates the
caller's two descriptors, reads the flags of both, makes two pipes and sets `O_NONBLOCK` where it
is not set; it leaves at the first call that fails. The destructor of `state` puts the flags back
and closes what is there, and so it does for a `state` that `open` has filled in part.

Which calls fail, which are interrupted first and which free numbers new descriptors get is in a
script that the caller of a theorem chooses.
-/
import SynapseMcp.Procedures
import Mathlib.Data.List.Nodup
import Mathlib.Logic.Function.Basic

set_option autoImplicit false

namespace SynapseMcp.posix_endpoints

open Procedures Function

abbrev fd := Int
abbrev description := Nat
/-- The status flags of a description, an `int`. -/
abbrev status := BitVec 32

/-! ## The kernel

The table of descriptors, the flags of the open descriptions, and a script of answers.
Everything that the outside decides is in the script, so that a statement about every script is
one about every failure, interruption and choice of numbers. The two lists at the end of the
state record what was acquired and what was closed, so that a leak or a second close would show
there.

A descriptor is a number, and a description is what it refers to; two descriptors of one
description share their flags. The caller may have any table, and any numbers may be in use. -/

/-- What a system call comes to. New descriptors get the numbers `first` and `second`. -/
inductive answer where
  /-- The call fails with `EINTR`. -/
  | interrupted
  | failed
  | succeeds (first second : Nat)

/-- A state of the process as far as descriptors go, with the answers that the calls to come
will get. -/
structure system where
  table : fd → Option description
  /-- The flags of a description that is not open yet are those it will be opened with. -/
  flags : description → status
  /-- The descriptions from here on are not open yet. -/
  next : description
  /-- The answers to the calls to come; all calls fail after them. -/
  script : List answer
  acquired : List fd
  closed : List fd
  known : ∀ fd k, table fd = some k → 0 ≤ fd ∧ k < next

/-- The calls that are made again while they are interrupted. -/
def retried : List answer → Option (Nat × Nat) × List answer
  | [] => (none, [])
  | .interrupted :: script => retried script
  | .failed :: script => (none, script)
  | .succeeds first second :: script => (some (first, second), script)

/-- The answers that a call has used up are gone. -/
def system.after (s : system) (script : List answer) : system := { s with script := script }

/-- A new descriptor for a description that is open. -/
def system.install (s : system) (new : Nat) (k : description) (h : k < s.next) : system :=
  { s with
    table := update s.table new (some k)
    acquired := s.acquired ++ [(new : fd)]
    known := by
      intro fd j hj
      by_cases hfd : fd = new
      · subst hfd
        rw [update_self] at hj
        cases hj
        exact ⟨Int.natCast_nonneg new, h⟩
      · rw [update_of_ne hfd] at hj
        exact s.known fd j hj }

/-- Two more descriptions, those of a pipe. -/
def system.create (s : system) : system :=
  { s with
    next := s.next + 2
    known := by
      intro fd k hk
      have hold := s.known fd k hk
      exact ⟨hold.1, Nat.lt_add_right 2 hold.2⟩ }

/-- Both ends of a pipe are installed, each with a description of its own. -/
def system.open_pipe (s : system) (first second : Nat) : system :=
  (s.create.install first s.next (Nat.lt_add_of_pos_right Nat.two_pos)).install
    second (s.next + 1) (Nat.lt_succ_self _)

/-- `F_SETFL` changes the bits of `settable` only. -/
def system.assign (settable : status) (s : system) (fd : fd) (flags : status) : system :=
  match s.table fd with
  | none => s
  | some k =>
      { s with flags := update s.flags k ((s.flags k &&& ~~~settable) ||| (flags &&& settable)) }

/-- A close releases the descriptor, whatever it returns. -/
def close (fd : fd) (s : system) : system :=
  { s with
    table := update s.table fd none
    closed := s.closed ++ [fd]
    known := by
      intro j k hk
      by_cases hj : j = fd
      · subst hj
        rw [update_self] at hk
        cases hk
      · rw [update_of_ne hj] at hk
        exact s.known j k hk }

/-! ## The calls of `posix_stdio`

Each call takes its answer from the script, past the interruptions that it is made again for. A
failed call returns -1 and changes nothing. A new descriptor gets a number that is not in use. -/

/-- `F_DUPFD_CLOEXEC`. A number that is in use is no answer of a call that succeeds. -/
def duplicate (old : fd) (s : system) : fd × system :=
  match retried s.script with
  | (none, script) => (-1, s.after script)
  | (some (new, _), script) =>
      match h : s.table old with
      | none => (-1, s.after script)
      | some k =>
          if s.table new = none then
            (new, (s.after script).install new k (s.known old k h).2)
          else (-1, s.after script)

/-- `F_GETFL`: the flags of the description, or -1. -/
def get_flags (fd : fd) (s : system) : status × system :=
  match retried s.script with
  | (none, script) => (-1, s.after script)
  | (some _, script) =>
      match s.table fd with
      | none => (-1, s.after script)
      | some k => (s.flags k, s.after script)

/-- `F_SETFL`, on a descriptor that is open. -/
def set_flags (settable : status) (fd : fd) (flags : status) (s : system) : Int × system :=
  match retried s.script with
  | (none, script) => (-1, s.after script)
  | (some _, script) =>
      match s.table fd with
      | none => (-1, s.after script)
      | some _ => (0, (s.after script).assign settable fd flags)

/-- `F_SETFD` with `FD_CLOEXEC`. The flags of the descriptor itself are not modelled. -/
def set_cloexec (_ : fd) (s : system) : Int × system :=
  match retried s.script with
  | (none, script) => (-1, s.after script)
  | (some _, script) => (0, s.after script)

/-- `::pipe`: two new descriptors with different numbers, or none. -/
def pipe (s : system) : (Int × fd × fd) × system :=
  match retried s.script with
  | (none, script) => ((-1, -1, -1), s.after script)
  | (some (first, second), script) =>
      if s.table first = none ∧ s.table second = none ∧ first ≠ second then
        ((0, first, second), (s.after script).open_pipe first second)
      else ((-1, -1, -1), s.after script)

/-- One turn of the loop of `make_wake`: whether both calls succeed. -/
def make_ready (settable O_NONBLOCK : status) (fd : fd) (s : system) : Bool × system :=
  match set_cloexec fd s with
  | (result, s) =>
      if result < 0 then (false, s)
      else
        match set_flags settable fd O_NONBLOCK s with
        | (result, s) => (!decide (result < 0), s)

/-- The two ends are in `wake` from the moment `pipe` returned, also where a later call fails. -/
def make_wake (settable O_NONBLOCK : status) (s : system) : (Bool × fd × fd) × system :=
  match pipe s with
  | ((result, wake), s) =>
      if result < 0 then ((false, wake), s)
      else
        match make_ready settable O_NONBLOCK wake.1 s with
        | (false, s) => ((false, wake), s)
        | (true, s) =>
            match make_ready settable O_NONBLOCK wake.2 s with
            | (result, s) => ((result, wake), s)

/-! ## `state` and `open`

`state` is filled field by field, and each field says that something was borrowed: a descriptor
that is not -1 has to be closed, and a flag that is marked as changed has to be put back. `open`
leaves through an exit that destroys what there is by then, so the proofs below are about a
value filled to any extent. -/

/-- What a `posix_stdio` has borrowed: the two duplicates, their flags from before, whether they
were changed, and the ends of two pipes. -/
structure state where
  input : fd := -1
  output : fd := -1
  input_flags : status := -1
  output_flags : status := -1
  input_changed : Bool := false
  output_changed : Bool := false
  read_wake : fd × fd := (-1, -1)
  write_wake : fd × fd := (-1, -1)

/-- The descriptors that the destructor closes, in its order. -/
def state.fds (value : state) : List fd :=
  [value.input, value.output, value.read_wake.1, value.read_wake.2,
    value.write_wake.1, value.write_wake.2].filter (fun fd => 0 ≤ fd)

/-- One of the first two lines of `~state`. The call that puts the flags back succeeds. -/
def restore (settable : status) (changed : Bool) (fd : fd) (flags : status) (s : system) : system :=
  if changed then s.assign settable fd flags else s

/-- `~state`. -/
def state.destroy (settable : status) (value : state) (s : system) : system :=
  let s := restore settable value.input_changed value.input value.input_flags s
  let s := restore settable value.output_changed value.output value.output_flags s
  value.fds.foldl (fun s fd => close fd s) s

/-- An exit of `open`: the value it destroys and the text of the error. -/
abbrev exit := state × String

/-- `O_NONBLOCK` on the input, where it is not set yet; the mark goes with it. -/
def configure_input (settable O_NONBLOCK : status) (value : state) : Procedure system exit state :=
  if value.input_flags &&& O_NONBLOCK = 0 then do
    let result ← call (set_flags settable value.input (value.input_flags ||| O_NONBLOCK))
    ensure (0 ≤ result) (value, "Cannot configure native input")
    pure { value with input_changed := true }
  else
    pure value

/-- The same on the output, which may be the same description. -/
def configure_output (settable O_NONBLOCK : status) (value : state) :
    Procedure system exit state :=
  if value.output_flags &&& O_NONBLOCK = 0 then do
    let result ← call (set_flags settable value.output (value.output_flags ||| O_NONBLOCK))
    ensure (0 ≤ result) (value, "Cannot configure native output")
    pure { value with output_changed := true }
  else
    pure value

/-- What `open` does with the value. -/
def configure (settable O_NONBLOCK : status) (input output : fd) :
    Procedure system exit state := do
  -- each `ensure` is a `return failure(..)`, with the value as it is then and its destructor to
  -- run
  let value : state := {}
  let result ← call (duplicate input)
  let value := { value with input := result }
  ensure (0 ≤ value.input) (value, "Cannot duplicate native input")
  let result ← call (duplicate output)
  let value := { value with output := result }
  ensure (0 ≤ value.output) (value, "Cannot duplicate native output")
  let flags ← call (get_flags value.input)
  let value := { value with input_flags := flags }
  let flags ← call (get_flags value.output)
  let value := { value with output_flags := flags }
  ensure (0 ≤ value.input_flags.toInt) (value, "Cannot configure native I/O")
  ensure (0 ≤ value.output_flags.toInt) (value, "Cannot configure native I/O")
  -- `make_wake` stores the ends before it configures them, so they count on failure too
  let made ← call (make_wake settable O_NONBLOCK)
  let value := { value with read_wake := made.2 }
  ensure (made.1 = true) (value, "Cannot configure native I/O")
  let made ← call (make_wake settable O_NONBLOCK)
  let value := { value with write_wake := made.2 }
  ensure (made.1 = true) (value, "Cannot configure native I/O")
  let value ← configure_input settable O_NONBLOCK value
  configure_output settable O_NONBLOCK value

/-- `posix_stdio::open`. Its exits destroy the value. -/
def open_ (settable O_NONBLOCK : status) (input output : fd) (s : system) :
    Except String state × system :=
  match outcome (configure settable O_NONBLOCK input output) s with
  | (.ok value, s) => (.ok value, s)
  | (.error (value, message), s) => (.error message, value.destroy settable s)

/-! ## Moves of the object

A `posix_stdio` can be moved from, and the value is then in another object. What is owned has
one owner at any time; a move assignment destroys the value that the target had. A script of
moves is a list, and the life of an opened object ends with the destruction of all the objects
that are left. -/

/-- What the owner does with `posix_stdio` objects, each with its `state_`. -/
inductive move where
  /-- Move construction. -/
  | construct (source : Nat)
  /-- Move assignment, also of an object to itself. -/
  | assign (source target : Nat)
  | destroy (index : Nat)

/-- The objects by the order of their construction, with their `state_`. -/
abbrev objects := List (Option state)

/-- `reset`: the value in it is destroyed. -/
def reset (settable : status) (held : Option state) (s : system) : system :=
  match held with
  | none => s
  | some value => value.destroy settable s

/-- The value in an object, or none when it was moved from or destroyed. -/
def state_ (held : objects) (i : Nat) : Option state := held.getD i none

/-- One move. Objects are numbered in the order of their construction, so a script may name one
that is not there; then nothing is assigned. -/
def move.run (settable : status) : move → objects × system → objects × system
  | .construct source, (held, s) =>
      (held.set source none ++ [state_ held source], s)
  | .assign source target, (held, s) =>
      -- `release` leaves the source empty before the target gives up its own value
      let released := held.set source none
      if source < held.length ∧ target < held.length then
        (released.set target (state_ held source), reset settable (state_ released target) s)
      else (held, s)
  | .destroy i, (held, s) => (held.set i none, reset settable (state_ held i) s)

/-- The objects that are left are destroyed in the end. -/
def destroy_all (settable : status) (held : objects) (s : system) : system :=
  held.foldl (fun s value => reset settable value s) s

/-- The life of an opened object from `open` on. -/
def lifetime (settable : status) (value : state) (moves : List move) (s : system) : system :=
  let run := moves.foldl (fun r m => m.run settable r) ([some value], s)
  destroy_all settable run.1 run.2

/-! ## What is owned, and what the caller finds again

`owned` is about descriptors: the table is that of the caller and the ones acquired since.
`saved` is about flags: what was read of a description is what the caller had set. `held` puts
the two together for a value, and is the invariant of `open`; `returned` is what the caller sees
in the end.

`owned` also lists the descriptors acquired, in order, without repetition and live, so that
closing each of them once gives the first table back. A number may be reused by the kernel only
after it was closed, and within `open` nothing is closed before the end. -/

/-- The calls so far acquired `fds` and closed nothing. -/
structure owned (settable : status) (s0 s : system) (fds : List fd) : Prop where
  acquired : s.acquired = s0.acquired ++ fds
  closed : s.closed = s0.closed
  nodup : fds.Nodup
  fresh : ∀ fd ∈ fds, s0.table fd = none
  live : ∀ fd ∈ fds, s.table fd ≠ none
  table : ∀ fd, fd ∉ fds → s.table fd = s0.table fd
  next : s0.next ≤ s.next
  /-- What `F_SETFL` does not change is as it was. -/
  kept : ∀ k, k < s0.next → s.flags k &&& ~~~settable = s0.flags k &&& ~~~settable

/-- The descriptor refers to a description of the caller, and flags that were read are those it
had before. -/
def saved (s0 s : system) (fd : fd) (flags : status) : Prop :=
  ∃ k, s.table fd = some k ∧ k < s0.next ∧ (0 ≤ flags.toInt → flags = s0.flags k)

/-- What holds of a value between any two calls of `open`, and of an opened one. -/
structure held (settable : status) (s0 : system) (value : state) (s : system) : Prop where
  owned : owned settable s0 s value.fds
  input : 0 ≤ value.input → saved s0 s value.input value.input_flags
  output : 0 ≤ value.output → saved s0 s value.output value.output_flags
  input_changed : value.input_changed = true → 0 ≤ value.input ∧ 0 ≤ value.input_flags.toInt
  output_changed : value.output_changed = true → 0 ≤ value.output ∧ 0 ≤ value.output_flags.toInt
  /-- Only the descriptions marked as changed have other flags than before. -/
  intact : ∀ k, k < s0.next → ¬(value.input_changed = true ∧ s.table value.input = some k) →
    ¬(value.output_changed = true ∧ s.table value.output = some k) → s.flags k = s0.flags k

/-- Every flag is as it was, the descriptors are those of before, and the ones acquired in between
are closed once each; none of them was the caller's. -/
def returned (s0 s : system) : Prop :=
  (∀ k, k < s0.next → s.flags k = s0.flags k) ∧ s.table = s0.table ∧
    ∃ fds : List fd, s.acquired = s0.acquired ++ fds ∧ s.closed = s0.closed ++ fds ∧ fds.Nodup ∧
      ∀ fd ∈ fds, s0.table fd = none

/-! ## Flags

Setting the flags changes only some of the bits, and only of one description; putting the saved
word back gives the first word again, whatever was set in between. The two duplicates may refer
to one description, and then the flags are put back twice.

`F_SETFL` changes some of the bits and keeps the others, whatever it is given. So the word that
is put back agrees with the first one in the bits that can be set because it is that word, and
in the others because nobody changed them. -/

/-- A restored flag word is the saved one. -/
theorem restored_word {now old settable : status}
    (h : now &&& ~~~settable = old &&& ~~~settable) :
    (now &&& ~~~settable) ||| (old &&& settable) = old := by
  rw [h]
  apply BitVec.eq_of_getElem_eq
  intro i hi
  simp only [BitVec.getElem_or, BitVec.getElem_and, BitVec.getElem_not]
  cases old[i] <;> cases settable[i] <;> rfl

/-- The bits that cannot be set are never changed. -/
theorem assigned_word_kept (now value settable : status) :
    ((now &&& ~~~settable) ||| (value &&& settable)) &&& ~~~settable = now &&& ~~~settable := by
  apply BitVec.eq_of_getElem_eq
  intro i hi
  simp only [BitVec.getElem_or, BitVec.getElem_and, BitVec.getElem_not]
  cases now[i] <;> cases value[i] <;> cases settable[i] <;> rfl

section assign

variable {settable : status} {s : system} {fd : fd} {value : status}

@[simp] theorem system.assign_table : (s.assign settable fd value).table = s.table := by
  unfold system.assign
  split <;> rfl

@[simp] theorem system.assign_next : (s.assign settable fd value).next = s.next := by
  unfold system.assign
  split <;> rfl

@[simp] theorem system.assign_acquired :
    (s.assign settable fd value).acquired = s.acquired := by
  unfold system.assign
  split <;> rfl

@[simp] theorem system.assign_closed : (s.assign settable fd value).closed = s.closed := by
  unfold system.assign
  split <;> rfl

/-- The description of the descriptor gets the bits that can be set. -/
theorem system.assign_self {k : description} (h : s.table fd = some k) :
    (s.assign settable fd value).flags k =
      (s.flags k &&& ~~~settable) ||| (value &&& settable) := by
  unfold system.assign
  rw [h]
  exact update_self k _ s.flags

/-- The flags are set of one description; any other keeps the ones it has. -/
theorem system.assign_other {k : description} (h : s.table fd ≠ some k) :
    (s.assign settable fd value).flags k = s.flags k := by
  unfold system.assign
  cases hfd : s.table fd with
  | none => rfl
  | some j =>
      have hk : k ≠ j := by
        intro hkj
        exact h (hkj ▸ hfd)
      exact update_of_ne hk _ s.flags

/-- Every description keeps the bits that cannot be set. -/
theorem system.assign_kept (k : description) :
    (s.assign settable fd value).flags k &&& ~~~settable = s.flags k &&& ~~~settable := by
  by_cases h : s.table fd = some k
  · rw [system.assign_self h]
    exact assigned_word_kept _ _ _
  · rw [system.assign_other h]

end assign

/-- Setting flags acquires nothing and closes nothing, so what is owned is what it was. -/
theorem owned.assign {settable : status} {s0 s : system} {fds : List fd} (fd : fd) (value : status)
    (h : owned settable s0 s fds) : owned settable s0 (s.assign settable fd value) fds where
  acquired := system.assign_acquired.trans h.acquired
  closed := system.assign_closed.trans h.closed
  nodup := h.nodup
  fresh := h.fresh
  live := by
    rw [system.assign_table]
    exact h.live
  table := by
    rw [system.assign_table]
    exact h.table
  next := by
    rw [system.assign_next]
    exact h.next
  kept k hk := (system.assign_kept k).trans (h.kept k hk)

/-! ## The destructor

The destructor puts back the flags of the input and of the output and then closes what is there.
What it needs is that the value says truly what was borrowed; how far `open` had come is of no
account.

When both duplicates are of one description the two lines of the destructor are about the same
flags. The second line then writes what the first one wrote, because both words were read before
anything was set. -/

/-- Closing what is owned gives the table of the caller. -/
theorem close_all (fds : List fd) (s : system) :
    (fds.foldl (fun s fd => close fd s) s).flags = s.flags ∧
      (fds.foldl (fun s fd => close fd s) s).acquired = s.acquired ∧
      (fds.foldl (fun s fd => close fd s) s).closed = s.closed ++ fds ∧
      ∀ fd, (fds.foldl (fun s fd => close fd s) s).table fd =
        if fd ∈ fds then none else s.table fd := by
  induction fds generalizing s with
  | nil => simp
  | cons first fds ih =>
      obtain ⟨hflags, hacquired, hclosed, htable⟩ := ih (close first s)
      refine ⟨hflags, hacquired, ?_, ?_⟩
      · rw [List.foldl_cons, hclosed]
        simp [close]
      · intro fd
        rw [List.foldl_cons, htable fd]
        by_cases hmem : fd ∈ fds
        · simp [hmem]
        · by_cases hfirst : fd = first
          · simp [hfirst, close]
          · simp [hmem, hfirst, close]

/-- What is saved of a descriptor depends on the table only. -/
theorem saved.of_table {s0 s t : system} {fd : fd} {flags : status} (h : saved s0 s fd flags)
    (htable : t.table = s.table) : saved s0 t fd flags := by
  unfold saved
  rw [htable]
  exact h

/-- Putting the flags back through one of the two descriptors. -/
theorem saved.assign {settable : status} {s0 s : system} {fd : fd} {flags : status}
    (h : saved s0 s fd flags) (hflags : 0 ≤ flags.toInt)
    (hkept : ∀ k, k < s0.next → s.flags k &&& ~~~settable = s0.flags k &&& ~~~settable)
    {k : description} (hk : s.table fd = some k) :
    (s.assign settable fd flags).flags k = s0.flags k := by
  obtain ⟨j, hj, hnext, hsaved⟩ := h
  have hjk : j = k := by
    rw [hj] at hk
    exact Option.some.inj hk
  subst hjk
  rw [system.assign_self hj, hsaved hflags]
  exact restored_word (hkept j hnext)

section restore

variable {settable : status} {s0 s : system} {fds : List fd} {changed : Bool} {fd : fd}
  {flags : status}

/-- Putting flags back leaves the table. -/
theorem restore_table : (restore settable changed fd flags s).table = s.table := by
  unfold restore
  split
  · exact system.assign_table
  · rfl

/-- And with it what is owned. -/
theorem owned.restore (h : owned settable s0 s fds) :
    owned settable s0 (restore settable changed fd flags s) fds := by
  unfold posix_endpoints.restore
  split
  · exact h.assign fd flags
  · exact h

/-- After a line of the destructor a description has its first flags, if this line is for it, and
the ones it had otherwise. -/
theorem restore_flags (howned : owned settable s0 s fds)
    (hsaved : changed = true → saved s0 s fd flags ∧ 0 ≤ flags.toInt) (k : description) :
    (changed = true ∧ s.table fd = some k →
      (restore settable changed fd flags s).flags k = s0.flags k) ∧
    (¬(changed = true ∧ s.table fd = some k) →
      (restore settable changed fd flags s).flags k = s.flags k) := by
  unfold restore
  constructor
  · intro ⟨hchanged, hk⟩
    rw [if_pos hchanged]
    exact (hsaved hchanged).1.assign (hsaved hchanged).2 howned.kept hk
  · intro hnot
    by_cases hchanged : changed = true
    · rw [if_pos hchanged]
      apply system.assign_other
      intro hk
      exact hnot ⟨hchanged, hk⟩
    · rw [if_neg hchanged]

end restore

/-- The destructor gives back what `open` borrowed, whatever it has borrowed so far. -/
theorem state.destroy_returned {settable : status} {s0 s : system} {value : state}
    (h : held settable s0 value s) : returned s0 (value.destroy settable s) := by
  let s1 := restore settable value.input_changed value.input value.input_flags s
  let s2 := restore settable value.output_changed value.output value.output_flags s1
  have howned1 : owned settable s0 s1 value.fds := h.owned.restore
  have howned2 : owned settable s0 s2 value.fds := howned1.restore
  have htable1 : s1.table = s.table := restore_table
  have hinput := restore_flags h.owned fun hchanged =>
    ⟨h.input (h.input_changed hchanged).1, (h.input_changed hchanged).2⟩
  have hsaved : value.output_changed = true →
      saved s0 s1 value.output value.output_flags ∧ 0 ≤ value.output_flags.toInt := by
    intro hchanged
    have hout := h.output_changed hchanged
    exact ⟨(h.output hout.1).of_table htable1, hout.2⟩
  have houtput := restore_flags howned1 hsaved
  have hflags : ∀ k, k < s0.next → s2.flags k = s0.flags k := by
    intro k hk
    -- the output's line comes last; both write the first flags, also to one description
    by_cases hout : value.output_changed = true ∧ s1.table value.output = some k
    · exact (houtput k).1 hout
    · rw [(houtput k).2 hout]
      by_cases hin : value.input_changed = true ∧ s.table value.input = some k
      · exact (hinput k).1 hin
      · rw [(hinput k).2 hin]
        rw [htable1] at hout
        exact h.intact k hk hin hout
  obtain ⟨hkept, hacquired, hclosed, htable⟩ := close_all value.fds s2
  refine ⟨?_, ?_, value.fds, ?_, ?_, h.owned.nodup, h.owned.fresh⟩
  · intro k hk
    exact (congrFun hkept k).trans (hflags k hk)
  · funext fd
    apply (htable fd).trans
    by_cases hmem : fd ∈ value.fds
    · rw [if_pos hmem]
      exact (h.owned.fresh fd hmem).symm
    · rw [if_neg hmem]
      exact howned2.table fd hmem
  · exact hacquired.trans howned2.acquired
  · rw [← howned2.closed]
    exact hclosed

/-! ## The calls of `open`

Each call is read off once: it fails and nothing is changed, or it succeeds and the change is
named. From this come the two facts a step of `open` has to keep, that what was acquired is
owned and that nothing of the caller's was touched, which is `grown`. -/

/-- The descriptors of before are as they were, and so are the flags of the caller. -/
structure grown (s0 s t : system) : Prop where
  flags : ∀ k, k < s0.next → t.flags k = s.flags k
  table : ∀ fd k, s.table fd = some k → t.table fd = some k

/-- A call that does nothing touches nothing. -/
theorem grown.refl (s0 s : system) : grown s0 s s := ⟨fun _ _ => rfl, fun _ _ h => h⟩

/-- Two calls that leave the caller's things alone leave them alone together. -/
theorem grown.trans {s0 s t u : system} (h : grown s0 s t) (h' : grown s0 t u) :
    grown s0 s u where
  flags k hk := (h'.flags k hk).trans (h.flags k hk)
  table fd k hk := h'.table fd k (h.table fd k hk)

theorem grown.after (s0 s : system) (script : List answer) : grown s0 s (s.after script) :=
  ⟨fun _ _ => rfl, fun _ _ h => h⟩

theorem grown.create (s0 s : system) : grown s0 s s.create :=
  ⟨fun _ _ => rfl, fun _ _ h => h⟩

/-- A new descriptor has a number that was not in use, so it takes the place of none. -/
theorem grown.install (s0 : system) {s : system} {new : Nat} {k : description} {h : k < s.next}
    (hnew : s.table new = none) : grown s0 s (s.install new k h) where
  flags _ _ := rfl
  table fd j hj := by
    have hfd : fd ≠ new := by
      intro hfd
      rw [hfd, hnew] at hj
      cases hj
    exact (update_of_ne hfd _ s.table).trans hj

/-- What was saved of a descriptor is saved still, when the caller's things are as they were. -/
theorem saved.grown {s0 s t : system} {fd : fd} {flags : status} (h : saved s0 s fd flags)
    (hgrown : grown s0 s t) : saved s0 t fd flags := by
  obtain ⟨k, hk, hnext, hflags⟩ := h
  exact ⟨k, hgrown.table fd k hk, hnext, hflags⟩

/-- At the start nothing is acquired and nothing closed. -/
theorem owned.refl (settable : status) (s : system) : owned settable s s [] where
  acquired := (List.append_nil _).symm
  closed := rfl
  nodup := List.nodup_nil
  fresh := by simp
  live := by simp
  table _ _ := rfl
  next := Nat.le_refl _
  kept _ _ := rfl

section owned

variable {settable : status} {s0 s : system} {fds : List fd}

theorem owned.after (h : owned settable s0 s fds) (script : List answer) :
    owned settable s0 (s.after script) fds :=
  ⟨h.acquired, h.closed, h.nodup, h.fresh, h.live, h.table, h.next, h.kept⟩

theorem owned.create (h : owned settable s0 s fds) : owned settable s0 s.create fds :=
  ⟨h.acquired, h.closed, h.nodup, h.fresh, h.live, h.table, Nat.le_add_right_of_le h.next, h.kept⟩

/-- A descriptor that is installed is one more of those that are owned. -/
theorem owned.install (h : owned settable s0 s fds) {new : Nat} {k : description}
    {hk : k < s.next} (hnew : s.table new = none) :
    owned settable s0 (s.install new k hk) (fds ++ [(new : fd)]) := by
  -- the number was free, so it is none of those owned, and no entry of the borrowed table
  have hmem : (new : fd) ∉ fds := by
    intro hmem
    exact h.live new hmem hnew
  have hfresh : s0.table new = none := (h.table new hmem).symm.trans hnew
  constructor
  · change s.acquired ++ [(new : fd)] = _
    rw [h.acquired, List.append_assoc]
  · exact h.closed
  · apply List.Nodup.append h.nodup (List.nodup_singleton _)
    intro fd hfd hnew'
    rw [List.mem_singleton.mp hnew'] at hfd
    exact hmem hfd
  · intro fd hfd
    rcases List.mem_append.mp hfd with hold | hnew'
    · exact h.fresh fd hold
    · rw [List.mem_singleton.mp hnew']
      exact hfresh
  · intro fd hfd
    change update s.table new (some k) fd ≠ none
    by_cases heq : fd = new
    · rw [heq, update_self]
      simp
    · rw [update_of_ne heq]
      rcases List.mem_append.mp hfd with hold | hnew'
      · exact h.live fd hold
      · exact absurd (List.mem_singleton.mp hnew') heq
  · intro fd hfd
    rw [List.mem_append, List.mem_singleton, not_or] at hfd
    exact (update_of_ne hfd.2 _ s.table).trans (h.table fd hfd.1)
  · exact h.next
  · exact h.kept

/-- The flags of a description that is not the caller's say nothing about the caller's. -/
theorem grown.assign {fd : fd} {value : status}
    (hk : ∀ k, s.table fd = some k → s0.next ≤ k) : grown s0 s (s.assign settable fd value) where
  flags k hnext := by
    apply system.assign_other
    intro htable
    exact Nat.not_lt.mpr (hk k htable) hnext
  table j k hj := by
    rw [system.assign_table]
    exact hj

end owned

section calls

variable {settable : status} {s0 s : system} {fds : List fd}

/-! ### One system call

In each lemma the failing case leaves the system as it was, but for the answers used up, and the
succeeding case names the one change. Interruptions have been skipped by then.

Of a descriptor only its number and the description it refers to are followed, and of a
description its status flags. A call that makes a descriptor gives it a number that was free, so
what the caller had keeps its meaning; and to own one is to be the one who has to close it. -/

/-- A positive result is a new descriptor for the description of `old`. -/
theorem duplicate_cases (old : fd) (s : system) :
    (∃ script, duplicate old s = (-1, s.after script)) ∨
    ∃ (script : List answer) (new : Nat) (k : description) (h : k < (s.after script).next),
      s.table old = some k ∧ s.table new = none ∧
        duplicate old s = ((new : fd), (s.after script).install new k h) := by
  unfold duplicate
  split
  · exact .inl ⟨_, rfl⟩
  · next new _ script _ =>
      split
      · exact .inl ⟨_, rfl⟩
      · next k hk =>
          split
          · next hnew => exact .inr ⟨script, new, k, (s.known old k hk).2, hk, hnew, rfl⟩
          · exact .inl ⟨_, rfl⟩

/-- The flags are read, or the call fails; neither changes anything. -/
theorem get_flags_cases (fd : fd) (s : system) :
    (∃ script, get_flags fd s = (-1, s.after script)) ∨
    ∃ script k, s.table fd = some k ∧ get_flags fd s = (s.flags k, s.after script) := by
  unfold get_flags
  split
  · exact .inl ⟨_, rfl⟩
  · split
    · exact .inl ⟨_, rfl⟩
    · next k hk => exact .inr ⟨_, k, hk, rfl⟩

/-- The flags are set, or the call fails and nothing is changed. -/
theorem set_flags_cases (settable : status) (fd : fd) (value : status) (s : system) :
    (∃ script, set_flags settable fd value s = (-1, s.after script)) ∨
    ∃ script k, s.table fd = some k ∧
      set_flags settable fd value s = (0, (s.after script).assign settable fd value) := by
  unfold set_flags
  split
  · exact .inl ⟨_, rfl⟩
  · split
    · exact .inl ⟨_, rfl⟩
    · next k hk => exact .inr ⟨_, k, hk, rfl⟩

/-- The flag of a descriptor is not modelled, so the call changes nothing either way. -/
theorem set_cloexec_cases (fd : fd) (s : system) :
    ∃ result script, set_cloexec fd s = (result, s.after script) := by
  unfold set_cloexec
  split <;> exact ⟨_, _, rfl⟩

/-- The two ends of a new pipe refer to descriptions that the caller does not have. -/
theorem system.open_pipe_owned (h : owned settable s0 s fds) {first second : Nat}
    (hfirst : s.table first = none) (hsecond : s.table second = none) (hne : first ≠ second) :
    owned settable s0 (s.open_pipe first second) (fds ++ [(first : fd), (second : fd)]) ∧
      grown s0 s (s.open_pipe first second) ∧
      ∀ d ∈ [(first : fd), (second : fd)], ∀ k,
        (s.open_pipe first second).table d = some k → s0.next ≤ k := by
  have hends : (second : fd) ≠ first := fun heq => hne (Int.ofNat.inj heq).symm
  have hlt : s.next < s.create.next := Nat.lt_add_of_pos_right Nat.two_pos
  let u := s.create.install first s.next hlt
  have hsecond_after : u.table second = none := (update_of_ne hends _ s.table).trans hsecond
  have howned : owned settable s0 u (fds ++ [(first : fd)]) := h.create.install hfirst
  have hgrown : grown s0 s u := (grown.create s0 s).trans (grown.install s0 hfirst)
  refine ⟨?_, hgrown.trans (grown.install s0 hsecond_after), ?_⟩
  · have hboth : owned settable s0 (s.open_pipe first second)
        (fds ++ [(first : fd)] ++ [(second : fd)]) := howned.install hsecond_after
    rw [List.append_assoc] at hboth
    exact hboth
  · intro d hfd k hk
    change update (update s.table first (some s.next)) second (some (s.next + 1)) d = some k at hk
    rcases List.mem_cons.mp hfd with heq | hfd
    · rw [heq, update_of_ne hends.symm, update_self] at hk
      cases hk
      exact h.next
    · rw [List.mem_singleton.mp hfd, update_self] at hk
      cases hk
      exact Nat.le_succ_of_le h.next

/-- `pipe` makes both ends, each with a number that was free, or it fails and makes none. -/
theorem pipe_cases (s : system) :
    (∃ script, pipe s = ((-1, -1, -1), s.after script)) ∨
    ∃ (script : List answer) (first second : Nat), s.table first = none ∧ s.table second = none ∧
      first ≠ second ∧
        pipe s = ((0, (first : fd), (second : fd)), (s.after script).open_pipe first second) := by
  unfold pipe
  split
  · exact .inl ⟨_, rfl⟩
  · next first second script _ =>
      split
      · next hfree => exact .inr ⟨script, first, second, hfree.1, hfree.2.1, hfree.2.2, rfl⟩
      · exact .inl ⟨_, rfl⟩

/-- A turn of the loop on an end of a pipe. -/
theorem make_ready_owned (O_NONBLOCK : status) (h : owned settable s0 s fds) (fd : fd)
    (hends : ∀ k, s.table fd = some k → s0.next ≤ k) :
    owned settable s0 (make_ready settable O_NONBLOCK fd s).2 fds ∧
      grown s0 s (make_ready settable O_NONBLOCK fd s).2 ∧
      (make_ready settable O_NONBLOCK fd s).2.table = s.table := by
  obtain ⟨result, script, hcloexec⟩ := set_cloexec_cases fd s
  unfold make_ready
  rw [hcloexec]
  by_cases hresult : result < 0
  · simp only [if_pos hresult]
    exact ⟨h.after script, grown.after s0 s script, rfl⟩
  · simp only [if_neg hresult]
    rcases set_flags_cases settable fd O_NONBLOCK (s.after script) with
      ⟨rest, hset⟩ | ⟨rest, k, hk, hset⟩
    · rw [hset]
      exact ⟨(h.after script).after rest, grown.after s0 s rest, rfl⟩
    · rw [hset]
      refine ⟨((h.after script).after rest).assign fd O_NONBLOCK, ?_, system.assign_table⟩
      exact (grown.after s0 s rest).trans (grown.assign hends)

/-- A pipe that is made is owned from the moment `pipe` returned, also where one of the later
calls fails. -/
theorem make_wake_owned (O_NONBLOCK : status) (h : owned settable s0 s fds) :
    owned settable s0 (make_wake settable O_NONBLOCK s).2
      (fds ++ [(make_wake settable O_NONBLOCK s).1.2.1,
        (make_wake settable O_NONBLOCK s).1.2.2].filter (fun fd => 0 ≤ fd)) ∧
      grown s0 s (make_wake settable O_NONBLOCK s).2 := by
  unfold make_wake
  rcases pipe_cases s with ⟨script, hp⟩ | ⟨script, first, second, hfirst, hsecond, hne, hp⟩
  · rw [hp]
    refine ⟨?_, grown.after s0 s script⟩
    simpa using h.after script
  · rw [hp]
    obtain ⟨howned, hopened, hends⟩ := system.open_pipe_owned (h.after script) hfirst hsecond hne
    have hgrown := (grown.after s0 s script).trans hopened
    have hfilter : [(first : fd), (second : fd)].filter (fun fd => 0 ≤ fd) =
        [(first : fd), (second : fd)] := by simp
    rw [← hfilter] at howned
    obtain ⟨hready, hgrown_ready, htable⟩ := make_ready_owned O_NONBLOCK howned first
      (hends first (by simp))
    -- the ends are recorded whichever of the two turns fails
    rcases hr : make_ready settable O_NONBLOCK first ((s.after script).open_pipe first second) with
      ⟨ok, u⟩
    rw [hr] at hready hgrown_ready htable
    simp only [Int.lt_irrefl, if_false, hr]
    cases ok with
    | false => exact ⟨hready, hgrown.trans hgrown_ready⟩
    | true =>
        have hlast := make_ready_owned O_NONBLOCK hready second (by
          rw [htable]
          exact hends second (by simp))
        exact ⟨hlast.1, (hgrown.trans hgrown_ready).trans hlast.2.1⟩

/-- A duplicate refers to the description of the descriptor it was made of. -/
theorem duplicate_owned (h : owned settable s0 s fds) (old : fd) :
    owned settable s0 (duplicate old s).2
      (fds ++ [(duplicate old s).1].filter (fun fd => 0 ≤ fd)) ∧
      grown s0 s (duplicate old s).2 ∧
      (0 ≤ (duplicate old s).1 → ∃ k, s.table old = some k ∧
        (duplicate old s).2.table (duplicate old s).1 = some k) := by
  rcases duplicate_cases old s with ⟨script, hd⟩ | ⟨script, new, k, hk, hold, hnew, hd⟩
  · rw [hd]
    refine ⟨?_, grown.after s0 s script, fun hresult => by simp at hresult⟩
    simpa using h.after script
  · rw [hd]
    have howned : owned settable s0 ((s.after script).install new k hk) (fds ++ [(new : fd)]) :=
      (h.after script).install hnew
    have hgrown : grown s0 (s.after script) ((s.after script).install new k hk) :=
      grown.install s0 hnew
    refine ⟨?_, (grown.after s0 s script).trans hgrown, fun _ => ⟨k, hold, ?_⟩⟩
    · simpa using howned
    · exact update_self _ _ _

theorem unset : ¬(0 : fd) ≤ -1 := by decide

theorem unread : ¬0 ≤ (-1 : status).toInt := by decide

/-- Flags that were not read are marked by -1, and nothing is claimed of them. -/
theorem saved.unread {fd : fd} {k : description} (hk : s.table fd = some k) (hnext : k < s0.next) :
    saved s0 s fd (-1) :=
  ⟨k, hk, hnext, fun hflags => absurd hflags posix_endpoints.unread⟩

/-- Flags that are read before any is changed are those the caller had set. -/
theorem get_flags_saved {fd : fd} {flags : status} (h : owned settable s0 s fds)
    (hintact : ∀ k, k < s0.next → s.flags k = s0.flags k) (hsaved : saved s0 s fd flags) :
    owned settable s0 (get_flags fd s).2 fds ∧ grown s0 s (get_flags fd s).2 ∧
      saved s0 (get_flags fd s).2 fd (get_flags fd s).1 := by
  obtain ⟨k, hk, hnext, _⟩ := hsaved
  rcases get_flags_cases fd s with ⟨script, hg⟩ | ⟨script, j, hj, hg⟩
  · rw [hg]
    exact ⟨h.after script, grown.after s0 s script, saved.unread hk hnext⟩
  · rw [hg]
    rw [hk] at hj
    cases hj
    exact ⟨h.after script, grown.after s0 s script, k, hk, hnext, fun _ => hintact k hnext⟩

end calls

/-! ## The steps of `open`

`open` is a procedure with an exit at each step, and the rules of `Procedures` are applied along
its text: each step takes a value that is held to one that is held, and each exit leaves with a
value that is. What changes from step to step is which fields are filled; until `O_NONBLOCK` is
set no flag has changed, so the flags that are read are the caller's.

`held` is the middle condition between any two steps. Its parts are what is owned, what was
saved of each of the two descriptors, and which marks are set. A step that fills a field extends
what is owned at the end; the step that sets a flag sets the mark with it, so that no exit can
find one without the other. -/

/-- The descriptors of a value are those of its four parts. -/
theorem state.fds_append (value : state) :
    value.fds = [value.input].filter (fun fd => 0 ≤ fd) ++
      ([value.output].filter (fun fd => 0 ≤ fd) ++
        ([value.read_wake.1, value.read_wake.2].filter (fun fd => 0 ≤ fd) ++
          [value.write_wake.1, value.write_wake.2].filter (fun fd => 0 ≤ fd))) := by
  rw [← List.filter_append, ← List.filter_append, ← List.filter_append]
  rfl

/-- No flag was set so far. -/
def state.quiet (value : state) : Prop :=
  value.input_changed = false ∧ value.output_changed = false

section open_

variable {settable O_NONBLOCK : status} {s0 : system} {input output : fd} {a b : fd}
  {f g : status} {r w : fd × fd}

/-- As long as nothing was marked the flags of the caller are as they were. -/
theorem held.flags {value : state} {s : system} (h : held settable s0 value s)
    (hquiet : value.quiet) (k : description) (hk : k < s0.next) : s.flags k = s0.flags k := by
  apply h.intact k hk
  · rw [hquiet.1]
    simp
  · rw [hquiet.2]
    simp

/-- A step that changes no flag of the caller: what the object owns and has saved is asked for
again, while the caller's flags are what they were. -/
theorem held_step {value next : state} {s t : system} (h : held settable s0 value s)
    (hquiet : value.quiet) (hnext : next.quiet) (howned : owned settable s0 t next.fds)
    (hgrown : grown s0 s t)
    (hinput : 0 ≤ next.input → saved s0 t next.input next.input_flags)
    (houtput : 0 ≤ next.output → saved s0 t next.output next.output_flags) :
    held settable s0 next t where
  owned := howned
  input := hinput
  output := houtput
  input_changed hchanged := by
    rw [hnext.1] at hchanged
    cases hchanged
  output_changed hchanged := by
    rw [hnext.2] at hchanged
    cases hchanged
  intact k hk _ _ := (hgrown.flags k hk).trans (h.flags hquiet k hk)

/-- An empty value holds nothing. -/
theorem held_start (settable : status) (s : system) : held settable s {} s where
  owned := owned.refl settable s
  input h := absurd h unset
  output h := absurd h unset
  input_changed h := by cases h
  output_changed h := by cases h
  intact _ _ _ _ := rfl

/-- The first duplicate: it is a new descriptor for the caller's input, or `open` leaves with
nothing. -/
theorem duplicate_input_meets :
    Meets (call (ε := exit) (duplicate input)) (fun s => s = s0)
      (fun a s => held settable s0 { input := a } s) (fun e s => held settable s0 e.1 s) := by
  apply Meets.call
  intro s hs
  subst hs
  have hstart := held_start settable s
  obtain ⟨howned, hgrown, hnew⟩ := duplicate_owned hstart.owned input
  refine held_step hstart ⟨rfl, rfl⟩ ⟨rfl, rfl⟩ ?_ hgrown ?_ ?_
  · rw [state.fds_append] at howned ⊢
    simpa using howned
  · intro hresult
    obtain ⟨k, hk, htable⟩ := hnew hresult
    exact saved.unread htable (s.known input k hk).2
  · intro h
    exact absurd h unset

/-- The caller's `output` may be a number that the duplicate of the input got. -/
theorem duplicate_output_meets :
    Meets (call (ε := exit) (duplicate output)) (fun s => held settable s0 { input := a } s)
      (fun b s => held settable s0 { input := a, output := b } s)
      (fun e s => held settable s0 e.1 s) := by
  apply Meets.call
  intro s hs
  obtain ⟨howned, hgrown, hnew⟩ := duplicate_owned hs.owned output
  refine held_step hs ⟨rfl, rfl⟩ ⟨rfl, rfl⟩ ?_ hgrown ?_ ?_
  · rw [state.fds_append] at howned ⊢
    simpa using howned
  · intro ha
    exact (hs.input ha).grown hgrown
  · intro hresult
    obtain ⟨k, hk, htable⟩ := hnew hresult
    apply saved.unread htable
    by_cases hmem : output ∈ state.fds { input := a }
    · -- the duplicate of the input refers to a description of the caller
      have hout : output = a ∧ 0 ≤ output := by
        rw [state.fds_append] at hmem
        simpa using hmem
      obtain ⟨j, hj, hnext, _⟩ := hs.input (hout.1 ▸ hout.2)
      rw [hout.1] at hk
      rw [hk] at hj
      cases hj
      exact hnext
    · rw [hs.owned.table output hmem] at hk
      exact (s0.known output k hk).2

/-- The flags of the input are read before anything is changed. -/
theorem get_input_flags_meets (ha : 0 ≤ a) :
    Meets (call (ε := exit) (get_flags a))
      (fun s => held settable s0 { input := a, output := b } s)
      (fun f s => held settable s0 { input := a, output := b, input_flags := f } s)
      (fun e s => held settable s0 e.1 s) := by
  apply Meets.call
  intro s hs
  obtain ⟨howned, hgrown, hsaved⟩ :=
    get_flags_saved hs.owned (hs.flags ⟨rfl, rfl⟩) (hs.input ha)
  refine held_step hs ⟨rfl, rfl⟩ ⟨rfl, rfl⟩ howned hgrown (fun _ => hsaved) ?_
  intro hb
  exact (hs.output hb).grown hgrown

/-- So are those of the output, which go into a field of their own. -/
theorem get_output_flags_meets (hb : 0 ≤ b) :
    Meets (call (ε := exit) (get_flags b))
      (fun s => held settable s0 { input := a, output := b, input_flags := f } s)
      (fun g s => held settable s0
        { input := a, output := b, input_flags := f, output_flags := g } s)
      (fun e s => held settable s0 e.1 s) := by
  apply Meets.call
  intro s hs
  obtain ⟨howned, hgrown, hsaved⟩ :=
    get_flags_saved hs.owned (hs.flags ⟨rfl, rfl⟩) (hs.output hb)
  refine held_step hs ⟨rfl, rfl⟩ ⟨rfl, rfl⟩ howned hgrown ?_ (fun _ => hsaved)
  intro ha
  exact (hs.input ha).grown hgrown

/-- A pipe is made for a value that has none in this place; `next` puts its ends there. -/
theorem make_wake_meets (value : state) (next : fd × fd → state) (hquiet : value.quiet)
    (hnext : ∀ w, (next w).quiet)
    (hfds : ∀ w, (next w).fds = value.fds ++ [w.1, w.2].filter (fun fd => 0 ≤ fd))
    (hinput : ∀ w, (next w).input = value.input ∧ (next w).input_flags = value.input_flags)
    (houtput : ∀ w, (next w).output = value.output ∧ (next w).output_flags = value.output_flags) :
    Meets (call (ε := exit) (make_wake settable O_NONBLOCK))
      (fun s => held settable s0 value s) (fun made s => held settable s0 (next made.2) s)
      (fun e s => held settable s0 e.1 s) := by
  apply Meets.call
  intro s hs
  obtain ⟨howned, hgrown⟩ := make_wake_owned O_NONBLOCK hs.owned
  refine held_step hs hquiet (hnext _) ?_ hgrown ?_ ?_
  · rw [hfds]
    exact howned
  · intro ha
    rw [(hinput _).1] at ha ⊢
    rw [(hinput _).2]
    exact (hs.input ha).grown hgrown
  · intro hb
    rw [(houtput _).1] at hb ⊢
    rw [(houtput _).2]
    exact (hs.output hb).grown hgrown

/-- The pipe that wakes the reader goes into the value behind the duplicates and their flags,
and the value is held with it. -/
theorem make_read_wake_meets :
    Meets (call (ε := exit) (make_wake settable O_NONBLOCK))
      (fun s => held settable s0
        { input := a, output := b, input_flags := f, output_flags := g } s)
      (fun made s => held settable s0
        { input := a, output := b, input_flags := f, output_flags := g, read_wake := made.2 } s)
      (fun e s => held settable s0 e.1 s) := by
  refine make_wake_meets { input := a, output := b, input_flags := f, output_flags := g }
    (fun w => { input := a, output := b, input_flags := f, output_flags := g, read_wake := w })
    ⟨rfl, rfl⟩ (fun _ => ⟨rfl, rfl⟩) ?_ (fun _ => ⟨rfl, rfl⟩) (fun _ => ⟨rfl, rfl⟩)
  intro w
  rw [state.fds_append, state.fds_append]
  simp

/-- The pipe that wakes the writer is made like the first one, after it; where it fails, what
the value holds by then is returned. -/
theorem make_write_wake_meets :
    Meets (call (ε := exit) (make_wake settable O_NONBLOCK))
      (fun s => held settable s0
        { input := a, output := b, input_flags := f, output_flags := g, read_wake := r } s)
      (fun made s => held settable s0
        { input := a, output := b, input_flags := f, output_flags := g, read_wake := r,
          write_wake := made.2 } s)
      (fun e s => held settable s0 e.1 s) := by
  refine make_wake_meets
    { input := a, output := b, input_flags := f, output_flags := g, read_wake := r }
    (fun w =>
      { input := a, output := b, input_flags := f, output_flags := g, read_wake := r,
        write_wake := w })
    ⟨rfl, rfl⟩ (fun _ => ⟨rfl, rfl⟩) ?_ (fun _ => ⟨rfl, rfl⟩) (fun _ => ⟨rfl, rfl⟩)
  intro w
  rw [state.fds_append, state.fds_append]
  simp

/-- Setting `O_NONBLOCK` on the input; the mark is set together with the flag. -/
theorem held_mark_input {value : state} {s : system} (h : held settable s0 value s)
    (hflags : 0 ≤ value.input_flags.toInt) {k : description}
    (hk : s.table value.input = some k) (word : status) :
    held settable s0 { value with input_changed := true }
      (s.assign settable value.input word) where
  owned := h.owned.assign value.input word
  input hinput := (h.input hinput).of_table system.assign_table
  output houtput := (h.output houtput).of_table system.assign_table
  input_changed _ := ⟨(s.known value.input k hk).1, hflags⟩
  output_changed := h.output_changed
  intact j hj hinput houtput := by
    rw [system.assign_table] at hinput houtput
    have hother : s.table value.input ≠ some j := fun htable => hinput ⟨rfl, htable⟩
    rw [system.assign_other hother]
    apply h.intact j hj _ houtput
    rintro ⟨_, htable⟩
    exact hother htable

/-- Setting `O_NONBLOCK` on the output. If it shares its description with the input the saved
flags of both are the caller's still. -/
theorem held_mark_output {value : state} {s : system} (h : held settable s0 value s)
    (hflags : 0 ≤ value.output_flags.toInt) {k : description}
    (hk : s.table value.output = some k) (word : status) :
    held settable s0 { value with output_changed := true }
      (s.assign settable value.output word) where
  owned := h.owned.assign value.output word
  input hinput := (h.input hinput).of_table system.assign_table
  output houtput := (h.output houtput).of_table system.assign_table
  input_changed := h.input_changed
  output_changed _ := ⟨(s.known value.output k hk).1, hflags⟩
  intact j hj hinput houtput := by
    rw [system.assign_table] at hinput houtput
    have hother : s.table value.output ≠ some j := fun htable => houtput ⟨rfl, htable⟩
    rw [system.assign_other hother]
    apply h.intact j hj hinput
    rintro ⟨_, htable⟩
    exact hother htable

theorem held_after {value : state} {s : system} (h : held settable s0 value s)
    (script : List answer) : held settable s0 value (s.after script) :=
  ⟨h.owned.after script, h.input, h.output, h.input_changed, h.output_changed, h.intact⟩

/-- The flag is set and marked, or the call failed and nothing changed. -/
theorem set_flags_meets {value next : state} {fd : fd} {word : status}
    (hmark : ∀ s k, held settable s0 value s → s.table fd = some k →
      held settable s0 next (s.assign settable fd word)) :
    Meets (call (ε := exit) (set_flags settable fd word)) (fun s => held settable s0 value s)
      (fun result s => (¬0 ≤ result → held settable s0 value s) ∧
        (0 ≤ result → held settable s0 next s))
      (fun e s => held settable s0 e.1 s) := by
  apply Meets.call
  intro s hs
  rcases set_flags_cases settable fd word s with ⟨script, hr⟩ | ⟨script, k, hk, hr⟩
  · rw [hr]
    exact ⟨fun _ => held_after hs script, fun h => absurd h unset⟩
  · rw [hr]
    exact ⟨fun h => absurd (Int.le_refl 0) h, fun _ => hmark _ k (held_after hs script) hk⟩

/-- The input is configured, or `open` leaves with a value that says whether its flag was set.
-/
theorem configure_input_meets {value : state} (hflags : 0 ≤ value.input_flags.toInt) :
    Meets (configure_input settable O_NONBLOCK value) (fun s => held settable s0 value s)
      (fun next s => next.output_flags = value.output_flags ∧ held settable s0 next s)
      (fun e s => held settable s0 e.1 s) := by
  apply Meets.ite
  · intro _
    apply Meets.bind (set_flags_meets fun s k hs hk => held_mark_input hs hflags hk _)
    intro result
    apply Meets.ensure_bind
    · intro s hs hresult
      exact hs.1 hresult
    · intro hresult
      exact Meets.pure fun s hs => ⟨rfl, hs.2 hresult⟩
  · intro _
    exact Meets.pure fun s hs => ⟨rfl, hs⟩

/-- The same for the output, whose flags were read into the other field. They are changed where
`O_NONBLOCK` was not set. -/
theorem configure_output_meets {value : state} (hflags : 0 ≤ value.output_flags.toInt) :
    Meets (configure_output settable O_NONBLOCK value) (fun s => held settable s0 value s)
      (fun next s => held settable s0 next s) (fun e s => held settable s0 e.1 s) := by
  apply Meets.ite
  · intro _
    apply Meets.bind (set_flags_meets fun s k hs hk => held_mark_output hs hflags hk _)
    intro result
    apply Meets.ensure_bind
    · intro s hs hresult
      exact hs.1 hresult
    · intro hresult
      exact Meets.pure fun s hs => hs.2 hresult
  · intro _
    exact Meets.pure fun s hs => hs

/-- Every exit of `open` leaves a value that says what it borrowed. -/
theorem configure_meets (settable O_NONBLOCK : status) (s0 : system) (input output : fd) :
    Meets (configure settable O_NONBLOCK input output) (fun s => s = s0)
      (fun value s => held settable s0 value s) (fun e s => held settable s0 e.1 s) := by
  unfold configure
  dsimp only
  apply Meets.bind duplicate_input_meets
  intro a
  -- after each call its check: where it fails, the value returned so far is what must be closed
  apply Meets.ensure_bind
  · exact fun s hs _ => hs
  intro ha
  apply Meets.bind duplicate_output_meets
  intro b
  apply Meets.ensure_bind
  · exact fun s hs _ => hs
  intro hb
  apply Meets.bind (get_input_flags_meets ha)
  intro f
  apply Meets.bind (get_output_flags_meets hb)
  intro g
  apply Meets.ensure_bind
  · exact fun s hs _ => hs
  intro hf
  apply Meets.ensure_bind
  · exact fun s hs _ => hs
  intro hg
  apply Meets.bind make_read_wake_meets
  intro made
  apply Meets.ensure_bind
  · exact fun s hs _ => hs
  intro _
  apply Meets.bind make_write_wake_meets
  intro made
  apply Meets.ensure_bind
  · exact fun s hs _ => hs
  intro _
  apply Meets.bind (configure_input_meets hf)
  intro value
  -- changing the input's flags leaves the output's as they were read
  apply Meets.assuming
  intro hvalue
  apply configure_output_meets
  rw [hvalue]
  exact hg

end open_

/-! ## Moves

Whatever is done with the objects, one of them holds the value or none does any more; that is
kept by every move, by induction over the script. A value that is destroyed is given back, and
there is none to be destroyed a second time.

A moved-from object has a null `state_`, and destroying it does nothing. Assigning an object to
itself leaves it as it is. A value that is replaced by an assignment is destroyed there, which
gives its descriptors back; the one that takes its place was in one other object. -/

/-- One object holds the value, or none does and the caller has everything back. -/
def custody (settable : status) (s0 : system) (all : objects) (s : system) : Prop :=
  (∃ i value, state_ all i = some value ∧ (∀ j, j ≠ i → state_ all j = none) ∧
    held settable s0 value s) ∨
  ((∀ j, state_ all j = none) ∧ returned s0 s)

/-- Giving an object a value changes this object. -/
theorem state_set (all : objects) (i j : Nat) (x : Option state) :
    state_ (all.set i x) j = if i = j ∧ j < all.length then x else state_ all j := by
  unfold state_
  rw [List.getD_eq_getElem?_getD, List.getD_eq_getElem?_getD, List.getElem?_set]
  by_cases hij : i = j
  · subst hij
    by_cases hlt : i < all.length
    · simp [hlt]
    · simp [hlt]
  · simp [hij]

/-- An object without a value stays without when another takes nothing from it. -/
theorem state_set_none (all : objects) (i j : Nat) (h : i = j ∨ state_ all j = none) :
    state_ (all.set i none) j = none := by
  rw [state_set]
  split
  · rfl
  · next hnot =>
      rcases h with heq | hnone
      · have hle : all.length ≤ j := by
          by_contra hlt
          exact hnot ⟨heq, Nat.lt_of_not_le hlt⟩
        unfold state_
        rw [List.getD_eq_getElem?_getD, List.getElem?_eq_none hle]
        rfl
      · exact hnone

/-- Nobody has a value once the only one who had one gives it away. -/
theorem state_released {all : objects} {i : Nat} (hothers : ∀ j, j ≠ i → state_ all j = none)
    (j : Nat) : state_ (all.set i none) j = none := by
  apply state_set_none
  by_cases hij : i = j
  · exact .inl hij
  · exact .inr (hothers j (Ne.symm hij))

/-- Only an object that was constructed holds a value. -/
theorem state_lt {all : objects} {i : Nat} {value : state} (h : state_ all i = some value) :
    i < all.length := by
  by_contra hlt
  unfold state_ at h
  rw [List.getD_eq_getElem?_getD, List.getElem?_eq_none (Nat.le_of_not_lt hlt)] at h
  cases h

/-- A new object holds what it was constructed from, under the next free number, and the objects
that were there before hold what they held. -/
theorem state_append (all : objects) (x : Option state) (j : Nat) :
    state_ (all ++ [x]) j = if j = all.length then x else state_ all j := by
  unfold state_
  rw [List.getD_eq_getElem?_getD, List.getD_eq_getElem?_getD]
  by_cases hj : j < all.length
  · rw [List.getElem?_append_left hj, if_neg (by omega)]
  · rw [List.getElem?_append_right (by omega)]
    by_cases heq : j = all.length
    · simp [heq]
    · rw [if_neg heq, List.getElem?_eq_none (l := all) (by omega)]
      rw [List.getElem?_eq_none (by simp; omega)]

/-- A move construction takes the value from its source, if it had it. -/
theorem custody.construct {settable : status} {s0 s : system} {all : objects}
    (h : custody settable s0 all s) (source : Nat) :
    custody settable s0 (all.set source none ++ [state_ all source]) s := by
  rcases h with ⟨i, value, hi, hothers, hheld⟩ | ⟨hnone, hreturned⟩
  · left
    by_cases hsource : source = i
    · subst hsource
      refine ⟨all.length, value, ?_, ?_, hheld⟩
      · rw [state_append, List.length_set, if_pos rfl]
        exact hi
      · intro j hj
        rw [state_append, List.length_set, if_neg hj]
        exact state_released hothers j
    · have hlt := state_lt hi
      refine ⟨i, value, ?_, ?_, hheld⟩
      · rw [state_append, List.length_set, if_neg (by omega), state_set, if_neg (by omega)]
        exact hi
      · intro j hj
        rw [state_append]
        split
        · exact hothers source hsource
        · exact state_set_none all source j (.inr (hothers j hj))
  · right
    refine ⟨?_, hreturned⟩
    intro j
    rw [state_append]
    split
    · exact hnone source
    · exact state_set_none all source j (.inr (hnone j))

/-- Destroying an object gives back what it held, or nothing. -/
theorem custody.destroy {settable : status} {s0 s : system} {all : objects}
    (h : custody settable s0 all s) (i : Nat) :
    custody settable s0 (all.set i none) (reset settable (state_ all i) s) := by
  rcases h with ⟨k, value, hk, hothers, hheld⟩ | ⟨hnone, hreturned⟩
  · by_cases hik : i = k
    · subst hik
      right
      refine ⟨state_released hothers, ?_⟩
      rw [hk]
      exact state.destroy_returned hheld
    · left
      refine ⟨k, value, ?_, ?_, ?_⟩
      · rw [state_set, if_neg (by omega)]
        exact hk
      · intro j hj
        exact state_set_none all i j (.inr (hothers j hj))
      · rw [hothers i hik]
        exact hheld
  · right
    refine ⟨fun j => state_set_none all i j (.inr (hnone j)), ?_⟩
    rw [hnone i]
    exact hreturned

/-- A move assignment gives back what the target held, and at most one of the two objects held
the value. -/
theorem custody.assign {settable : status} {s0 s : system} {all : objects}
    (h : custody settable s0 all s) {source target : Nat} (htarget : target < all.length) :
    custody settable s0 ((all.set source none).set target (state_ all source))
      (reset settable (state_ (all.set source none) target) s) := by
  cases hsource : state_ all source with
  | none =>
      -- an empty source: the target is destroyed and stays empty
      have hreleased := h.destroy source
      rw [hsource] at hreleased
      exact hreleased.destroy target
  | some value =>
      rcases h with ⟨k, value', hk, hothers, hheld⟩ | ⟨hnone, _⟩
      · have hks : source = k := by
          by_contra hne
          rw [hothers source hne] at hsource
          cases hsource
        subst hks
        rw [hk] at hsource
        cases hsource
        have hreleased := state_released hothers
        left
        refine ⟨target, value, ?_, ?_, ?_⟩
        · rw [state_set, List.length_set, if_pos ⟨rfl, htarget⟩]
        · intro j hj
          rw [state_set, if_neg (by omega)]
          exact hreleased j
        · rw [hreleased target]
          exact hheld
      · rw [hnone source] at hsource
        cases hsource

/-- Every move keeps the value with one object, or with none. -/
theorem move.run_custody {settable : status} {s0 : system} (m : move) {r : objects × system}
    (h : custody settable s0 r.1 r.2) :
    custody settable s0 (m.run settable r).1 (m.run settable r).2 := by
  cases m with
  | construct source => exact h.construct source
  | assign source target =>
      unfold move.run
      dsimp only
      split
      · next hlt => exact h.assign hlt.2
      · exact h
  | destroy i => exact h.destroy i

/-- So does a script of moves. -/
theorem moves_custody {settable : status} {s0 : system} (moves : List move) {r : objects × system}
    (h : custody settable s0 r.1 r.2) :
    custody settable s0 (moves.foldl (fun r m => m.run settable r) r).1
      (moves.foldl (fun r m => m.run settable r) r).2 := by
  induction moves generalizing r with
  | nil => exact h
  | cons m moves ih => exact ih (m.run_custody h)

/-- In the end every object is destroyed, and what one of them held is given back. -/
theorem custody.destroy_all {settable : status} {s0 : system} {all : objects} {s : system}
    (h : custody settable s0 all s) : returned s0 (destroy_all settable all s) := by
  induction all generalizing s with
  | nil =>
      rcases h with ⟨i, value, hi, _⟩ | ⟨_, hreturned⟩
      · exact absurd (state_lt hi) (Nat.not_lt_zero i)
      · exact hreturned
  | cons first rest ih =>
      apply ih
      rcases h.destroy 0 with ⟨i, value, hi, hothers, hheld⟩ | ⟨hnone, hreturned⟩
      · cases i with
        | zero => cases hi
        | succ i =>
            left
            exact ⟨i, value, hi, fun j hj => hothers (j + 1) (by omega), hheld⟩
      · right
        exact ⟨fun j => hnone (j + 1), hreturned⟩

/-- What `open` borrows is given back. `moves` is any use of the opened object and of the objects
its value is moved to. -/
theorem descriptors_returned (settable O_NONBLOCK : status) (input output : fd) (s : system) :
    (∀ message t, open_ settable O_NONBLOCK input output s = (.error message, t) →
      returned s t) ∧
    ∀ value t, open_ settable O_NONBLOCK input output s = (.ok value, t) →
      ∀ moves, returned s (lifetime settable value moves t) := by
  have hmeets := configure_meets settable O_NONBLOCK s input output s rfl
  unfold open_
  rcases houtcome : outcome (configure settable O_NONBLOCK input output) s with ⟨r, u⟩
  rw [houtcome] at hmeets
  constructor
  · intro message t hopen
    cases r with
    | ok value => cases hopen
    | error e =>
        cases hopen
        exact state.destroy_returned hmeets
  · intro value t hopen moves
    cases r with
    | error e => cases hopen
    | ok value' =>
        cases hopen
        apply custody.destroy_all
        apply moves_custody
        left
        refine ⟨0, value, rfl, ?_, hmeets⟩
        intro j hj
        cases j with
        | zero => exact absurd rfl hj
        | succ j => rfl

/-- Descriptors 0 and 1 share a terminal; the last of the calls of `open` fails. -/
def shared_terminal : system where
  table d := if d = 0 ∨ d = 1 then some 0 else none
  flags _ := 2
  next := 1
  script := [.succeeds 3 0, .interrupted, .succeeds 4 0, .succeeds 0 0, .succeeds 0 0,
    .succeeds 5 6, .succeeds 0 0, .succeeds 0 0, .succeeds 0 0, .succeeds 0 0,
    .succeeds 7 8, .succeeds 0 0, .succeeds 0 0, .succeeds 0 0, .succeeds 0 0,
    .succeeds 0 0, .failed]
  acquired := []
  closed := []
  known d k h := by
    split at h
    · next hd =>
        cases h
        refine ⟨?_, Nat.one_pos⟩
        rcases hd with rfl | rfl
        · decide
        · decide
    · cases h

example :
    (match open_ 2048 2048 0 1 shared_terminal with
    | (.error message, s) => (message, s.flags 0, s.closed)
    | (.ok _, _) => ("", 0, [])) =
      ("Cannot configure native output", 2, [3, 4, 5, 6, 7, 8]) := by decide +kernel

end SynapseMcp.posix_endpoints
