/-
`wait_for`: of `server.hpp`, of `transport.hpp` and of `detail/owned_executor.hpp`.

A time point is a count of nanoseconds and a timeout a count of milliseconds, each in 64 bits with a
sign. What does not fit overflows, which has no meaning in C++; here it is `none`.

The readings of the clock that a call makes are numbered, and so is what it finds done at the time
of each. Two calls with different timeouts can then be compared: they see the same clock and the
same work. How long a turn of `join_until` sleeps is left to the readings. That a call from a
callback is refused, and what the joins answer after the wait, has no bearing on the time.
-/
import SynapseMcp.Deadlines

set_option autoImplicit false

namespace SynapseMcp.timed_wait

open Deadlines

/-- The result of an operation on 64 bits, if it has one. -/
def int64 (x : Int) : Option Int :=
  if -9223372036854775808 ≤ x ∧ x < 9223372036854775808 then some x else none

/-- A time point plus milliseconds: the milliseconds are converted first. -/
def add_milliseconds (now timeout : Int) : Option Int := do
  let nanoseconds ← int64 (timeout * 1000000)
  int64 (now + nanoseconds)

/-- `duration_cast<milliseconds>(deadline - now)`, and zero where it is negative. -/
def remaining (deadline now : Int) : Option Int := do
  let left ← int64 (deadline - now)
  some (max (left.tdiv 1000000) 0)

/-- What a call of `wait_for` sees, by the number of the reading. -/
structure world where
  clock : Nat → Int64
  /-- The clock is steady. -/
  steady : ∀ i j, i ≤ j → (clock i).toInt ≤ (clock j).toInt
  /-- `reader_done_ && writer_done_ && close_done_` -/
  transport_done : Nat → Bool
  has_executor : Bool
  /-- `finished_` of the executor. -/
  finished : Nat → Bool

def world.now (w : world) (i : Nat) : Int := (w.clock i).toInt

/-- `now + max(timeout, 0)` -/
def world.deadline (w : world) (i : Nat) (timeout : Int64) : Option Int :=
  add_milliseconds (w.now i) (max timeout.toInt 0)

/-- `stdio_transport::wait_for`, whose first reading is the `i`th. -/
def stdio_wait_for (w : world) (timeout : Int64) (turns i : Nat) : Option waited := do
  let deadline ← w.deadline i timeout
  some (poll w.now w.transport_done deadline turns (i + 1))

/-- `owned_executor::wait_for`. `condition_variable::wait_for` waits until `now() + duration`. -/
def executor_wait_for (w : world) (duration : Int) (turns i : Nat) : Option waited := do
  let limit ← add_milliseconds (w.now i) duration
  some (poll w.now w.finished limit turns (i + 1))

/-- `server::wait_for`. -/
def server_wait_for (w : world) (timeout : Int64) (turns : Nat) : Option waited := do
  let deadline ← w.deadline 0 timeout
  let transport ← stdio_wait_for w timeout turns 1
  match transport with
  | .waiting => some .waiting
  | .gives_up reading => some (.gives_up reading)
  | .completes i =>
      if w.has_executor then do
        let left ← remaining deadline (w.now (i + 1))
        executor_wait_for w left turns (i + 2)
      else some (.completes i)

/-! ## Arithmetic

The operations on 64 bits are compared with those on integers, which they agree with wherever
they have a result. Nothing is rounded but in `remaining`, which cuts to whole milliseconds and
so never makes the time left longer. -/

/-- An operation has a result when its value is in range, and then it is that value. -/
theorem int64_eq_some {x y : Int} :
    int64 x = some y ↔ x = y ∧ -9223372036854775808 ≤ y ∧ y < 9223372036854775808 := by
  unfold int64
  split
  · next h =>
      rw [Option.some.injEq]
      constructor
      · rintro rfl
        exact ⟨rfl, h⟩
      · exact fun h => h.1
  · next h =>
      constructor
      · intro hnone
        cases hnone
      · rintro ⟨rfl, hrange⟩
        exact absurd hrange h

/-- Both the conversion to nanoseconds and the sum have to fit, and the conversion comes first:
a timeout can be too long for any reading of the clock. -/
theorem add_milliseconds_eq_some {now timeout deadline : Int} (hnow : -9223372036854775808 ≤ now)
    (htimeout : 0 ≤ timeout) :
    add_milliseconds now timeout = some deadline ↔
      deadline = now + timeout * 1000000 ∧ timeout * 1000000 < 9223372036854775808 ∧
        deadline < 9223372036854775808 := by
  unfold add_milliseconds
  simp only [Option.bind_eq_bind, Option.bind_eq_some_iff, int64_eq_some]
  constructor
  · rintro ⟨nanoseconds, ⟨rfl, _, hlt⟩, rfl, _, hsum⟩
    exact ⟨rfl, hlt, hsum⟩
  · rintro ⟨rfl, hlt, hsum⟩
    exact ⟨timeout * 1000000, ⟨rfl, by omega, hlt⟩, rfl, by omega, hsum⟩

/-- The difference of two time points has to fit as well, before it is cut to milliseconds and
to zero. -/
theorem remaining_eq_some {deadline now left : Int} :
    remaining deadline now = some left ↔
      left = max ((deadline - now).tdiv 1000000) 0 ∧
        -9223372036854775808 ≤ deadline - now ∧ deadline - now < 9223372036854775808 := by
  unfold remaining
  simp only [Option.bind_eq_bind, Option.bind_eq_some_iff, int64_eq_some, Option.some.injEq]
  constructor
  · rintro ⟨x, ⟨rfl, hlow, hhigh⟩, rfl⟩
    exact ⟨rfl, hlow, hhigh⟩
  · rintro ⟨rfl, hlow, hhigh⟩
    exact ⟨deadline - now, ⟨rfl, hlow, hhigh⟩, rfl⟩

/-- What is left, in whole milliseconds, is no more than what is left. -/
theorem whole_milliseconds_le (x : Int) : max (x.tdiv 1000000) 0 * 1000000 ≤ max x 0 := by
  by_cases hx : 0 ≤ x
  · rw [Int.tdiv_eq_ediv_of_nonneg hx]
    omega
  · have hneg : x.tdiv 1000000 ≤ 0 := by
      have hle := Int.tdiv_le_tdiv (c := 1000000) (by decide) (show x ≤ 0 by omega)
      simpa using hle
    omega

/-- More time left is at least as many whole milliseconds left. -/
theorem whole_milliseconds_mono {x y : Int} (h : x ≤ y) :
    max (x.tdiv 1000000) 0 ≤ max (y.tdiv 1000000) 0 := by
  have hle := Int.tdiv_le_tdiv (c := 1000000) (by decide) h
  omega

/-! ## One call

Each of the three functions is its deadline, which has to fit, and then the polling of
`Deadlines` with that deadline. The call on the server is two of them, one after the other: when
the transport is done in time, the executor is waited for with what is left then. -/

/-- The timeout as it is added to a time point, in nanoseconds. -/
def span (timeout : Int64) : Int := max timeout.toInt 0 * 1000000

theorem span_nonneg (timeout : Int64) : 0 ≤ span timeout := by
  unfold span
  omega

/-- A longer timeout is a longer span, and timeouts below zero are all the same. -/
theorem span_mono {shorter longer : Int64} (h : shorter.toInt ≤ longer.toInt) :
    span shorter ≤ span longer := by
  unfold span
  omega

section calls

variable {w : world} {timeout shorter longer : Int64} {turns i : Nat} {d y : Int}

theorem world.now_ge (w : world) (i : Nat) : -9223372036854775808 ≤ w.now i :=
  (w.clock i).le_toInt

theorem world.now_mono (w : world) (i j : Nat) (h : i ≤ j) : w.now i ≤ w.now j := w.steady i j h

/-- The deadline of a call: its first reading and the span, when both the span and the sum fit.
-/
theorem world.deadline_eq_some :
    w.deadline i timeout = some d ↔
      d = w.now i + span timeout ∧ span timeout < 9223372036854775808 ∧ d < 9223372036854775808 :=
  add_milliseconds_eq_some (w.now_ge i) (by omega)

/-- The wait for the transport: where the deadline fits it is a poll with that deadline, and
elsewhere it has no meaning. -/
theorem stdio_wait_for_eq_some {r : waited} :
    stdio_wait_for w timeout turns i = some r ↔
      (span timeout < 9223372036854775808 ∧ w.now i + span timeout < 9223372036854775808) ∧
        poll w.now w.transport_done (w.now i + span timeout) turns (i + 1) = r := by
  unfold stdio_wait_for
  simp only [Option.bind_eq_bind, Option.bind_eq_some_iff, world.deadline_eq_some,
    Option.some.injEq]
  constructor
  · rintro ⟨d, ⟨rfl, hspan, hd⟩, hpoll⟩
    exact ⟨⟨hspan, hd⟩, hpoll⟩
  · rintro ⟨⟨hspan, hd⟩, hpoll⟩
    exact ⟨_, ⟨rfl, hspan, hd⟩, hpoll⟩

/-- The wait for the executor, with the duration that it is given;
`condition_variable::wait_for` makes the deadline itself. -/
theorem executor_wait_for_eq_some {duration : Int} {r : waited} (hduration : 0 ≤ duration) :
    executor_wait_for w duration turns i = some r ↔
      (duration * 1000000 < 9223372036854775808 ∧
        w.now i + duration * 1000000 < 9223372036854775808) ∧
        poll w.now w.finished (w.now i + duration * 1000000) turns (i + 1) = r := by
  unfold executor_wait_for
  simp only [Option.bind_eq_bind, Option.bind_eq_some_iff,
    add_milliseconds_eq_some (w.now_ge i) hduration, Option.some.injEq]
  constructor
  · rintro ⟨d, ⟨rfl, hspan, hd⟩, hpoll⟩
    exact ⟨⟨hspan, hd⟩, hpoll⟩
  · rintro ⟨⟨hspan, hd⟩, hpoll⟩
    exact ⟨_, ⟨rfl, hspan, hd⟩, hpoll⟩

/-- What is left for the executor when the transport is done at reading `i`. -/
def left_after (w : world) (timeout : Int64) (i : Nat) : Int :=
  max ((w.now 0 + span timeout - w.now (i + 1)).tdiv 1000000) 0

theorem left_after_nonneg (w : world) (timeout : Int64) (i : Nat) : 0 ≤ left_after w timeout i :=
  Int.le_max_right _ _

/-- How the call goes on when the transport is done at reading `i`. -/
theorem server_wait_for_completes (hspan : span timeout < 9223372036854775808)
    (hdeadline : w.now 1 + span timeout < 9223372036854775808) (hexecutor : w.has_executor = true)
    (hpoll : poll w.now w.transport_done (w.now 1 + span timeout) turns 2 = .completes i) :
    server_wait_for w timeout turns =
      if -9223372036854775808 ≤ w.now 0 + span timeout - w.now (i + 1) then
        executor_wait_for w (left_after w timeout i) turns (i + 2)
      else none := by
  have hfirst : w.now 0 ≤ w.now 1 := w.now_mono 0 1 (Nat.zero_le 1)
  have hafter : w.now 0 ≤ w.now (i + 1) := w.now_mono 0 (i + 1) (Nat.zero_le _)
  -- the server's own deadline and the transport's, from two readings of one clock
  have hown : w.deadline 0 timeout = some (w.now 0 + span timeout) :=
    world.deadline_eq_some.mpr ⟨rfl, hspan, by omega⟩
  have hstdio : stdio_wait_for w timeout turns 1 = some (.completes i) :=
    stdio_wait_for_eq_some.mpr ⟨⟨hspan, hdeadline⟩, hpoll⟩
  unfold server_wait_for
  rw [hown, hstdio]
  simp only [Option.bind_eq_bind, Option.bind_some, hexecutor, if_true]
  split
  -- what is left is computed, or its computation is out of range
  · next hlow =>
      have hleft : remaining (w.now 0 + span timeout) (w.now (i + 1)) =
          some (left_after w timeout i) :=
        remaining_eq_some.mpr ⟨rfl, hlow, by omega⟩
      rw [hleft]
      rfl
  · next hlow =>
      have hleft : remaining (w.now 0 + span timeout) (w.now (i + 1)) = none := by
        cases hr : remaining (w.now 0 + span timeout) (w.now (i + 1)) with
        | none => rfl
        | some left => exact absurd (remaining_eq_some.mp hr).2.1 hlow
      rw [hleft]
      rfl

/-- A call that comes to anything has deadlines that fit. -/
theorem server_wait_for_spans {r : waited} (h : server_wait_for w timeout turns = some r) :
    span timeout < 9223372036854775808 ∧ w.now 1 + span timeout < 9223372036854775808 := by
  unfold server_wait_for at h
  simp only [Option.bind_eq_bind, Option.bind_eq_some_iff] at h
  obtain ⟨_, _, transport, hstdio, _⟩ := h
  exact (stdio_wait_for_eq_some.mp hstdio).1

/-- Where the transport is not done in time, the call comes to the same. -/
theorem server_wait_for_same {r : waited} (hspan : span timeout < 9223372036854775808)
    (hdeadline : w.now 1 + span timeout < 9223372036854775808)
    (hpoll : poll w.now w.transport_done (w.now 1 + span timeout) turns 2 = r)
    (hr : ∀ i, r = .completes i → w.has_executor = false) :
    server_wait_for w timeout turns = some r := by
  have hfirst : w.now 0 ≤ w.now 1 := w.now_mono 0 1 (Nat.zero_le 1)
  have hown : w.deadline 0 timeout = some (w.now 0 + span timeout) :=
    world.deadline_eq_some.mpr ⟨rfl, hspan, by omega⟩
  have hstdio : stdio_wait_for w timeout turns 1 = some r :=
    stdio_wait_for_eq_some.mpr ⟨⟨hspan, hdeadline⟩, hpoll⟩
  unfold server_wait_for
  rw [hown, hstdio]
  cases r with
  | waiting => rfl
  | gives_up reading => rfl
  | completes i =>
      have hnone := hr i rfl
      simp only [Option.bind_eq_bind, Option.bind_some, hnone]
      rfl

/-! ## Longer and shorter timeouts

Two calls that see the same clock and the same work can differ only in their deadlines, and the
one with the longer timeout has the later one. That carries over to the second wait of the
server, because it begins at the same reading in both calls, with no less time left in the
longer one. -/

/-- Whenever the longer call gives up, the shorter one has given up before, unless it overflows. -/
def no_earlier (longer shorter : Option waited) : Prop :=
  ∀ y, longer = some (.gives_up y) → shorter = none ∨ ∃ x, shorter = some (.gives_up x) ∧ x ≤ y

/-- A longer wait for the transport does not give up before a shorter one. -/
theorem stdio_no_earlier (h : shorter.toInt ≤ longer.toInt) :
    no_earlier (stdio_wait_for w longer turns i) (stdio_wait_for w shorter turns i) := by
  intro y hlonger
  obtain ⟨⟨hspan, hdeadline⟩, hpoll⟩ := stdio_wait_for_eq_some.mp hlonger
  have hle := span_mono h
  obtain ⟨x, hx, hxy⟩ := gives_up_earlier w.now_mono
    (show w.now i + span shorter ≤ w.now i + span longer by omega) hpoll
  exact .inr ⟨x, stdio_wait_for_eq_some.mpr ⟨⟨by omega, by omega⟩, hx⟩, hxy⟩

/-- Nor does a longer wait for the server. Either the transport is not done by the earlier
deadline, or both calls go on to the executor. -/
theorem server_no_earlier (h : shorter.toInt ≤ longer.toInt) :
    no_earlier (server_wait_for w longer turns) (server_wait_for w shorter turns) := by
  intro y hlonger
  obtain ⟨hspan, hdeadline⟩ := server_wait_for_spans hlonger
  have hle := span_mono h
  have hspan' : span shorter < 9223372036854775808 := by omega
  have hdeadline' : w.now 1 + span shorter < 9223372036854775808 := by omega
  cases hpoll : poll w.now w.transport_done (w.now 1 + span longer) turns 2 with
  | waiting =>
      rw [server_wait_for_same hspan hdeadline hpoll (by simp)] at hlonger
      cases hlonger
  | gives_up reading =>
      -- the transport is not done in time, with either timeout
      rw [server_wait_for_same hspan hdeadline hpoll (by simp)] at hlonger
      cases hlonger
      obtain ⟨x, hx, hxy⟩ := gives_up_earlier w.now_mono
        (show w.now 1 + span shorter ≤ w.now 1 + span longer by omega) hpoll
      exact .inr ⟨x, server_wait_for_same hspan' hdeadline' hx (by simp), hxy⟩
  | completes n =>
      cases hexecutor : w.has_executor with
      | false =>
          rw [server_wait_for_same hspan hdeadline hpoll fun _ _ => hexecutor] at hlonger
          cases hlonger
      | true =>
          rw [server_wait_for_completes hspan hdeadline hexecutor hpoll] at hlonger
          split at hlonger
          · obtain ⟨⟨hleft, hlimit⟩, hlast⟩ :=
              (executor_wait_for_eq_some (left_after_nonneg w longer n)).mp hlonger
            have hafter : w.now (n + 2 + 1) ≤ y := le_of_gives_up w.now_mono hlast
            rcases completes_or_gives_up w.now_mono hpoll with hdone | ⟨x, hx, hxn⟩
            · -- with both, the transport is done at the same reading
              rw [server_wait_for_completes hspan' hdeadline' hexecutor hdone]
              split
              · have hmono : left_after w shorter n ≤ left_after w longer n :=
                  whole_milliseconds_mono (by omega)
                obtain ⟨x, hx, hxy⟩ := gives_up_earlier w.now_mono
                  (show w.now (n + 2) + left_after w shorter n * 1000000 ≤
                    w.now (n + 2) + left_after w longer n * 1000000 by omega) hlast
                refine .inr ⟨x, ?_, hxy⟩
                apply (executor_wait_for_eq_some (left_after_nonneg w shorter n)).mpr
                exact ⟨⟨by omega, by omega⟩, hx⟩
              · exact .inl rfl
            · -- the shorter one gives up while the transport is still at work
              refine .inr ⟨x, server_wait_for_same hspan' hdeadline' hx (by simp), ?_⟩
              have hn : w.now n ≤ w.now (n + 2 + 1) := w.now_mono n (n + 2 + 1) (by omega)
              omega
          · cases hlonger

end calls

/-! ## Every timeout

What a timed wait is to be holds for every timeout that is in range, for any clock and any work.
Out of range there is nothing to be said: the addition overflows, and the standard gives that no
meaning. The two directions are proved separately, since from the outside only the definedness
of the calls can be seen. -/

/-- What a timed wait with this timeout is to be. -/
structure sound (w : world) (timeout : Int64) : Prop where
  stdio : ∀ turns i, i ≤ 1 → stdio_wait_for w timeout turns i ≠ none
  server : ∀ turns, server_wait_for w timeout turns ≠ none
  not_before : ∀ i d, w.deadline i timeout = some d → w.now i ≤ d
  stdio_later : ∀ shorter : Int64, shorter.toInt ≤ timeout.toInt → ∀ turns i,
    no_earlier (stdio_wait_for w timeout turns i) (stdio_wait_for w shorter turns i)
  server_later : ∀ shorter : Int64, shorter.toInt ≤ timeout.toInt → ∀ turns,
    no_earlier (server_wait_for w timeout turns) (server_wait_for w shorter turns)

/-- The timeout, in nanoseconds, fits next to the readings it is added to. Where the transport is
done in time and the executor is waited for, what is left fits as well. -/
structure in_range (w : world) (timeout : Int64) : Prop where
  span : span timeout < 9223372036854775808
  deadline : w.now 1 + timed_wait.span timeout < 9223372036854775808
  left : w.has_executor = true → ∀ i,
    finishes w.now w.transport_done (w.now 1 + timed_wait.span timeout) 2 i →
      -9223372036854775808 ≤ w.now 0 + timed_wait.span timeout - w.now (i + 1) ∧
        w.now (i + 2) + left_after w timeout i * 1000000 < 9223372036854775808

/-- What is left for the executor is no longer than the timeout was, since time does not go
back. -/
theorem left_after_le (w : world) (timeout : Int64) (i : Nat) :
    left_after w timeout i * 1000000 ≤ span timeout := by
  have hle := whole_milliseconds_le (w.now 0 + span timeout - w.now (i + 1))
  have hafter : w.now 0 ≤ w.now (i + 1) := w.now_mono 0 (i + 1) (Nat.zero_le _)
  have hspan := span_nonneg timeout
  unfold left_after
  omega

/-- In range every deadline of the call on the server fits, so it comes to something. -/
theorem in_range.server_defined {w : world} {timeout : Int64} (h : in_range w timeout)
    (turns : Nat) : server_wait_for w timeout turns ≠ none := by
  obtain ⟨hspan, hdeadline, hleft⟩ := h
  cases hpoll : poll w.now w.transport_done (w.now 1 + timed_wait.span timeout) turns 2 with
  | waiting =>
      rw [server_wait_for_same hspan hdeadline hpoll (by simp)]
      simp
  | gives_up reading =>
      rw [server_wait_for_same hspan hdeadline hpoll (by simp)]
      simp
  | completes i =>
      cases hexecutor : w.has_executor with
      | false =>
          rw [server_wait_for_same hspan hdeadline hpoll fun _ _ => hexecutor]
          simp
      | true =>
          -- what the executor is given is no more than the whole timeout
          obtain ⟨hlow, hhigh⟩ := hleft hexecutor i (poll_completes_iff.mp hpoll).1
          have hle := left_after_le w timeout i
          rw [server_wait_for_completes hspan hdeadline hexecutor hpoll, if_pos hlow,
            (executor_wait_for_eq_some (left_after_nonneg w timeout i)).mpr
              ⟨⟨by omega, hhigh⟩, rfl⟩]
          simp

/-- A call that comes to something for any number of turns has used only sums that fit. -/
theorem in_range_of_defined {w : world} {timeout : Int64}
    (h : ∀ turns, server_wait_for w timeout turns ≠ none) : in_range w timeout := by
  obtain ⟨r, hr⟩ := Option.ne_none_iff_exists'.mp (h 0)
  obtain ⟨hspan, hdeadline⟩ := server_wait_for_spans hr
  refine ⟨hspan, hdeadline, ?_⟩
  intro hexecutor i hfinishes
  -- with enough turns, the call sees the transport done
  have hpoll : poll w.now w.transport_done (w.now 1 + span timeout) i 2 = .completes i :=
    poll_completes_iff.mpr ⟨hfinishes, by omega⟩
  have hdefined := h i
  rw [server_wait_for_completes hspan hdeadline hexecutor hpoll] at hdefined
  split at hdefined
  · next hlow =>
      refine ⟨hlow, ?_⟩
      obtain ⟨q, hq⟩ := Option.ne_none_iff_exists'.mp hdefined
      exact ((executor_wait_for_eq_some (left_after_nonneg w timeout i)).mp hq).1.2
  · exact absurd rfl hdefined

/-- The timed waits do what they are to do exactly where the timeout is in range. -/
theorem sound_iff_in_range (w : world) (timeout : Int64) :
    sound w timeout ↔ in_range w timeout := by
  constructor
  · intro h
    exact in_range_of_defined h.server
  · intro h
    refine ⟨?_, h.server_defined, ?_, ?_, ?_⟩
    · intro turns i hi
      have hreading : w.now i ≤ w.now 1 := w.now_mono i 1 hi
      have hdeadline := h.deadline
      rw [stdio_wait_for_eq_some.mpr ⟨⟨h.span, by omega⟩, rfl⟩]
      simp
    · intro i d hd
      have hspan := span_nonneg timeout
      have heq := (world.deadline_eq_some.mp hd).1
      omega
    · intro shorter hle turns i
      exact stdio_no_earlier hle
    · intro shorter hle turns
      exact server_no_earlier hle

/-- A clock that stands, and a transport that is never done. -/
def standing_clock : world where
  clock _ := 0
  steady _ _ _ := Int.le_refl _
  transport_done _ := false
  has_executor := true
  finished _ := false

/-- A caller that wants to wait for ever. -/
theorem longest_timeout_unsound : ¬sound standing_clock Int64.maxValue := by
  intro h
  apply h.server 0
  decide

end SynapseMcp.timed_wait
