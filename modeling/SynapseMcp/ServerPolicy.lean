/-
`detail/server_policy.hpp` and `handlers.hpp`: the token bucket of tool calls, the
check on application text, and the output filter.

A `std::string` an application returns is any bytes. `valid_text` is what decides
whether it may become a JSON string; `utf8` is the string it then is. What a hook or a
handler does is an answer: it returns, or it throws.

The `double`s of the bucket are read as exact rationals. A reading of the clock is a number
of nanoseconds in 64 bits with a sign, and so is the difference of two. A difference that does
not fit has no meaning in C++; here it wraps, as it does on the machines the code runs on.
-/
import SynapseMcp.TokenBucket
import Mathlib.Algebra.Order.Ring.Rat
import Mathlib.Data.Rat.Cast.Order
import Mathlib.Tactic.Ring

set_option autoImplicit false

namespace SynapseMcp

open TokenBucket

/-! ## Text

What the application returns is bytes, and only some of them can go out. `valid_text` looks at
the bytes first and then at whether they are UTF-8; the filter asks it twice, of what it is
given and of what a hook made of that. Of a text that is refused nothing is kept. -/

/-- What a callback of the application does. -/
inductive call_outcome (α : Type) where
  | returned (value : α)
  | threw

/-- What a handler returns instead of a result: a text for the peer. -/
structure handler_error where
  public_message : List UInt8

/-- The string the bytes encode, if they are UTF-8. -/
def utf8 (text : List UInt8) : Option String := String.fromUTF8? ⟨text.toArray⟩

/-- No control character but TAB, LF and CR, no DEL, and valid UTF-8. -/
def valid_text (text : List UInt8) : Bool :=
  text.all (fun ch => !((ch < 32 && ch != 9 && ch != 10 && ch != 13) || ch == 127)) &&
    (utf8 text).isSome

/-- `filter_output`, if it is set. -/
abbrev filter_hook :=
  Option (String → List UInt8 → call_outcome (Except handler_error (List UInt8)))

/-- `filter`: `none` is the unexpected. The hook is not called with invalid text. -/
def server_policy.filter (hook : filter_hook) (operation : String) (text : List UInt8) :
    call_outcome (Option (List UInt8)) :=
  if !valid_text text then .returned none
  else
    match hook with
    | none => .returned (some text)
    | some filter_output =>
        match filter_output operation text with
        | .threw => .threw
        | .returned (.error _) => .returned none
        | .returned (.ok filtered) =>
            if valid_text filtered then .returned (some filtered) else .returned none

/-! ## The token bucket

The bucket has the fields of the source. The first call starts the clock and credits nothing;
every later one credits what the clock advanced since its latest reading, up to the burst, and
then takes a token if there is a whole one. The statement about the rate is `rate_bounded`: it
is about series of calls, and every block of a series, with the readings each call happened to
see. -/

/-- The bucket: its size and rate, the tokens in it, and the latest reading of the clock. -/
structure server_policy where
  tool_burst : Nat
  tool_requests_per_second : ℚ
  tokens_ : ℚ
  last_ : Int64 := 0
  clock_started_ : Bool := false

namespace server_policy

/-- The constructor. -/
def make (tool_burst : Nat) (tool_requests_per_second : ℚ) : server_policy where
  tool_burst := tool_burst
  tool_requests_per_second := tool_requests_per_second
  tokens_ := tool_burst

/-- `duration<double>(elapsed).count()`. -/
def seconds (elapsed : Int) : ℚ := elapsed / 1000000000

/-- `server_policy::consume`: the bucket is filled up to the reading, and a token taken if there
is one. -/
def consume (p : server_policy) (now : Int64) : server_policy × Bool :=
  let p := if p.clock_started_ then p else { p with last_ := now, clock_started_ := true }
  let p :=
    if p.last_ < now then
      { p with
        tokens_ :=
          min (p.tool_burst : ℚ)
            (p.tokens_ + seconds (now - p.last_).toInt * p.tool_requests_per_second)
        last_ := now }
    else p
  if p.tokens_ < 1 then (p, false) else ({ p with tokens_ := p.tokens_ - 1 }, true)

/-- The policy after a series of calls of `consume`, with these readings of the clock. -/
def after (p : server_policy) (readings : List Int64) : server_policy :=
  readings.foldl (fun p now => (p.consume now).1) p

/-- How many of the calls returned true. -/
def granted (p : server_policy) : List Int64 → Nat
  | [] => 0
  | now :: rest => (if (p.consume now).2 then 1 else 0) + (p.consume now).1.granted rest

/-- What one call adds to the tokens before it takes one. -/
def refilled (p : server_policy) (now : Int64) : ℚ :=
  (p.consume now).1.tokens_ + (if (p.consume now).2 then 1 else 0) - p.tokens_

/-- What a series of calls adds. -/
def credited (p : server_policy) : List Int64 → ℚ
  | [] => 0
  | now :: rest => p.refilled now + (p.consume now).1.credited rest

end server_policy

/-- The largest of a number and a series of readings. -/
def latest (most : Int) (readings : List Int64) : Int :=
  readings.foldl (fun most now => max most now.toInt) most

/-- The rate bound, for the calls that see these readings. The level stays between zero and the
burst. A block of calls lets through at most the burst and the rate times what the largest
reading advanced in it. A reading that is not later than every reading before it adds nothing
and takes nothing, and what is added in a block is at most the rate times that advance, so no
time is credited twice. -/
structure rate_bounded (burst : Nat) (rate : ℚ) (readings : List Int64) : Prop where
  level : ∀ before, before <+: readings →
    0 ≤ ((server_policy.make burst rate).after before).tokens_ ∧
      ((server_policy.make burst rate).after before).tokens_ ≤ burst
  block : ∀ before first block, before ++ first :: block <+: readings →
    (((server_policy.make burst rate).after before).granted (first :: block) : ℚ) ≤
      burst + rate * server_policy.seconds
        (latest first.toInt (before ++ block) - latest first.toInt before)
  backward : ∀ first before now, first :: before ++ [now] <+: readings →
    now.toInt ≤ latest first.toInt before →
      ((server_policy.make burst rate).after (first :: before)).refilled now = 0
  credited : ∀ first before block, first :: before ++ block <+: readings →
    ((server_policy.make burst rate).after (first :: before)).credited block ≤
      rate * server_policy.seconds
        (latest first.toInt (before ++ block) - latest first.toInt before)

namespace server_policy

/-! ## When the difference fits

A reading that is later than the latest one by 2^63 nanoseconds or more makes the difference
negative, and the call takes tokens instead of adding some. As long as there are enough, nothing
else goes wrong. -/

/-- The difference fits, or the tokens there are pay for what it takes once it has wrapped. -/
def affordable (p : server_policy) (now : Int64) : Prop :=
  p.clock_started_ = true → p.last_ < now →
    now.toInt - p.last_.toInt < 2 ^ 63 ∨
      seconds (2 ^ 64 - (now.toInt - p.last_.toInt)) * p.tool_requests_per_second ≤ p.tokens_

/-- So it is in every call of a series, as each finds the policy. -/
def paid (p : server_policy) : List Int64 → Prop
  | [] => True
  | now :: rest => p.affordable now ∧ (p.consume now).1.paid rest

end server_policy

/-- No reading is 2^63 nanoseconds or more past the latest one before it. -/
def within_reach (most : Int) : List Int64 → Prop
  | [] => True
  | now :: rest => now.toInt - most < 2 ^ 63 ∧ within_reach (max most now.toInt) rest

/-- The first reading counts from itself. -/
def in_reach : List Int64 → Prop
  | [] => True
  | first :: rest => within_reach first.toInt rest

namespace server_policy

/-- What the difference of two readings comes to where the second is later: the true difference,
if it fits 64 bits, and otherwise 2^64 less. -/
theorem difference_cases {last now : Int64} (h : last < now) :
    (now.toInt - last.toInt < 2 ^ 63 ∧ (now - last).toInt = now.toInt - last.toInt) ∨
      (2 ^ 63 ≤ now.toInt - last.toInt ∧
        (now - last).toInt = now.toInt - last.toInt - 2 ^ 64) := by
  rw [Int64.lt_iff_toInt_lt] at h
  rw [Int64.toInt_sub, Int.bmod_def]
  have hnow := now.toInt_lt
  have hlast := last.le_toInt
  by_cases hfits : now.toInt - last.toInt < 2 ^ 63
  · left
    rw [if_pos (by omega)]
    omega
  · right
    rw [if_neg (by omega)]
    omega

/-! ## `consume` is an offer

The time it credits is what the clock has advanced past its latest reading, which is
the largest so far.

The difference of two readings is computed in 64 bits and may wrap. What has wrapped is
negative, and a negative difference would take tokens away, so here the condition of the
statement enters: a call is affordable if the tokens there pay for what it is charged. Such a
call is an offer to the bucket of the library, of an amount that is not negative; one that is
not affordable leaves the level below zero, and no later lemma is about it. -/

/-- The reading the next call measures from: its own, when it is the first. -/
def since (p : server_policy) (now : Int64) : Int64 := if p.clock_started_ then p.last_ else now

/-- The amount a call tops the bucket up by. -/
def credit (p : server_policy) (now : Int64) : ℚ :=
  if p.since now < now then seconds (now - p.since now).toInt * p.tool_requests_per_second else 0

/-- The reading a call leaves. -/
def later (p : server_policy) (now : Int64) : Int64 :=
  if p.since now < now then now else p.since now

/-- The reading a call leaves is the larger of the two. -/
theorem later_toInt (p : server_policy) (now : Int64) :
    (p.later now).toInt = max (p.since now).toInt now.toInt := by
  unfold later
  split
  · rename_i h
    rw [Int64.lt_iff_toInt_lt] at h
    omega
  · rename_i h
    rw [Int64.lt_iff_toInt_lt] at h
    omega

/-- The bucket belongs to these limits, and its level is within them. -/
structure within (p : server_policy) (burst : Nat) (rate : ℚ) : Prop where
  tool_burst : p.tool_burst = burst
  tool_requests_per_second : p.tool_requests_per_second = rate
  nonneg : 0 ≤ p.tokens_
  le : p.tokens_ ≤ burst

/-- A bucket begins full. -/
theorem make_within {burst : Nat} {rate : ℚ} : (make burst rate).within burst rate :=
  ⟨rfl, rfl, Nat.cast_nonneg burst, le_refl _⟩

/-- What a call leaves, as a draw on the bucket of the library: the amount it credits is
offered, and one token is taken if there is one. -/
theorem consume_eq {p : server_policy} (h : p.tokens_ ≤ p.tool_burst) (now : Int64) :
    p.consume now =
      ({ p with
          tokens_ := (offer (p.tool_burst : ℚ) p.tokens_ (p.credit now)).1
          last_ := p.later now
          clock_started_ := true },
        (offer (p.tool_burst : ℚ) p.tokens_ (p.credit now)).2) := by
  obtain ⟨burst, rate, tokens, last, started⟩ := p
  have htake : ∀ (level : ℚ) (last : Int64),
      (if level < 1 then ((⟨burst, rate, level, last, true⟩ : server_policy), false)
        else (⟨burst, rate, level - 1, last, true⟩, true)) =
        (⟨burst, rate, (draw level).1, last, true⟩, (draw level).2) := by
    intro level last
    unfold draw
    split <;> rfl
  have hstill : ¬now < now := Int64.lt_irrefl
  unfold consume
  cases started with
  | false =>
      -- the first call measures from its own reading
      simp only [Bool.false_eq_true, if_false, if_neg hstill]
      rw [htake, offer, credit, later, since]
      simp only [Bool.false_eq_true, if_false, if_neg hstill]
      rw [refill_zero h]
  | true =>
      simp only [if_true]
      rw [offer, credit, later, since]
      simp only [if_true]
      split
      · rw [htake]
        rfl
      · rw [htake, refill_zero h]

section Runs

variable {burst : Nat} {rate : ℚ} {p : server_policy}

/-- Two spans of time that meet add up. -/
theorem seconds_sub (a b c : Int) : seconds (a - b) + seconds (b - c) = seconds (a - c) := by
  unfold seconds
  push_cast
  ring

/-- A span that is not negative is no time less than none. -/
theorem seconds_nonneg {elapsed : Int} (h : 0 ≤ elapsed) : 0 ≤ seconds elapsed :=
  div_nonneg (Int.cast_nonneg h) (by norm_num)

/-- A longer span is more time. -/
theorem seconds_mono {a b : Int} (h : a ≤ b) : seconds a ≤ seconds b := by
  have hnonneg := seconds_nonneg (sub_nonneg.mpr h)
  unfold seconds at hnonneg ⊢
  push_cast at hnonneg
  linarith

/-- A difference that has wrapped is negative, so a call credits no more than the time that
has passed. -/
theorem credit_le (h : p.within burst rate) (hrate : 0 ≤ rate) (now : Int64) :
    p.credit now ≤
      seconds (max (p.since now).toInt now.toInt - (p.since now).toInt) * rate := by
  rw [credit, h.tool_requests_per_second]
  split
  · rename_i hlater
    refine mul_le_mul_of_nonneg_right (seconds_mono ?_) hrate
    rcases difference_cases hlater with ⟨-, heq⟩ | ⟨-, heq⟩ <;> omega
  · refine mul_nonneg (seconds_nonneg (by omega)) hrate

/-- The tokens there are pay for the call exactly if it is affordable. -/
theorem affordable_iff (h : p.within burst rate) (hrate : 0 ≤ rate) (now : Int64) :
    p.affordable now ↔ 0 ≤ p.tokens_ + p.credit now := by
  have hlevel := h.nonneg
  unfold affordable credit since
  cases p.clock_started_ with
  -- before the first call the clock gives no credit
  | false =>
      have hstill : ¬now < now := Int64.lt_irrefl
      simp [hstill, hlevel]
  | true =>
      simp only [if_true, true_implies]
      by_cases hlater : p.last_ < now
      · rw [if_pos hlater]
        simp only [hlater, true_implies]
        -- the difference of the readings is right, or wrapped around and negative
        rcases difference_cases hlater with ⟨hfits, heq⟩ | ⟨hwraps, heq⟩
        · have hnonneg : 0 ≤ seconds (now - p.last_).toInt * p.tool_requests_per_second := by
            refine mul_nonneg (seconds_nonneg ?_) (h.tool_requests_per_second ▸ hrate)
            rw [heq]
            rw [Int64.lt_iff_toInt_lt] at hlater
            omega
          exact ⟨fun _ => by linarith, fun _ => .inl hfits⟩
        · have hneg : seconds (now - p.last_).toInt =
              -seconds (2 ^ 64 - (now.toInt - p.last_.toInt)) := by
            rw [heq]
            unfold seconds
            push_cast
            ring
          rw [hneg]
          constructor
          · rintro (hfits | hpays)
            · omega
            · linarith
          · exact fun hpays => .inr (by linarith)
      · rw [if_neg hlater]
        simp [hlater, hlevel]

/-- A call is an offer, of the amount it credits, to a bucket of these limits. -/
theorem within.consume_eq (h : p.within burst rate) (now : Int64) :
    p.consume now =
      ({ p with
          tokens_ := (offer (burst : ℚ) p.tokens_ (p.credit now)).1
          last_ := p.later now
          clock_started_ := true },
        (offer (burst : ℚ) p.tokens_ (p.credit now)).2) := by
  rw [server_policy.consume_eq (by rw [h.tool_burst]; exact h.le), h.tool_burst]

/-- One call that is affordable keeps the level within the limits. -/
theorem within.consume (h : p.within burst rate) (hrate : 0 ≤ rate) {now : Int64}
    (hpays : p.affordable now) : (p.consume now).1.within burst rate := by
  rw [h.consume_eq]
  exact ⟨h.tool_burst, h.tool_requests_per_second,
    offer_level_nonneg (Nat.cast_nonneg burst) ((affordable_iff h hrate now).mp hpays),
    offer_level_le⟩

/-- One that is not leaves less than nothing. -/
theorem within.overdrawn (h : p.within burst rate) (hrate : 0 ≤ rate) {now : Int64}
    (howes : ¬p.affordable now) : (p.consume now).1.tokens_ < 0 := by
  rw [affordable_iff h hrate, not_le] at howes
  rw [h.consume_eq]
  exact offer_level_neg howes

/-- A series in two parts. -/
theorem after_append (p : server_policy) (before rest : List Int64) :
    p.after (before ++ rest) = (p.after before).after rest := List.foldl_append

/-- A series is paid for when both of its parts are, each as it finds the bucket. -/
theorem paid_append {before rest : List Int64} :
    p.paid (before ++ rest) ↔ p.paid before ∧ (p.after before).paid rest := by
  induction before generalizing p with
  | nil => exact ⟨fun h => ⟨trivial, h⟩, fun h => h.2⟩
  | cons now before ih =>
      rw [List.cons_append, paid, ih, paid, and_assoc]
      rfl

/-- A series that is paid for keeps the level within the limits. -/
theorem within.after (h : p.within burst rate) (hrate : 0 ≤ rate) {readings : List Int64}
    (hpaid : p.paid readings) : (p.after readings).within burst rate := by
  induction readings generalizing p with
  | nil => exact h
  | cons now rest ih => exact ih (h.consume hrate hpaid.1) hpaid.2

/-! ## A series of calls

With the amounts it offers a series of calls is a series of draws on the bucket of
`TokenBucket`, whose bounds on what is drawn hold for any amounts that are not negative. What is
particular here is that the amounts are differences of readings. They add up to no more than the
largest reading advanced, however the readings jump back and forth, because a reading that is
not past the latest one offers nothing and does not move it. -/

/-- The amounts a series of calls tops the bucket up by. -/
def amounts (p : server_policy) : List Int64 → List ℚ
  | [] => []
  | now :: rest => p.credit now :: (p.consume now).1.amounts rest

/-- A series of calls is a series of offers. -/
theorem granted_eq_drawn (h : p.within burst rate) (hrate : 0 ≤ rate) {readings : List Int64}
    (hpaid : p.paid readings) :
    p.granted readings = drawn (burst : ℚ) p.tokens_ (p.amounts readings) := by
  induction readings generalizing p with
  | nil => rfl
  | cons now rest ih =>
      rw [granted, amounts, drawn, ih (h.consume hrate hpaid.1) hpaid.2, h.consume_eq]

/-- As long as every call of a series is paid for, the level after them is that of the offers
they make. -/
theorem after_tokens (h : p.within burst rate) (hrate : 0 ≤ rate) {readings : List Int64}
    (hpaid : p.paid readings) :
    (p.after readings).tokens_ = level_after (burst : ℚ) p.tokens_ (p.amounts readings) := by
  induction readings generalizing p with
  | nil => rfl
  | cons now rest ih =>
      rw [amounts, level_after]
      have hrest := ih (h.consume hrate hpaid.1) hpaid.2
      rw [after, List.foldl_cons]
      rw [after] at hrest
      rw [hrest, h.consume_eq]

/-- So the next call measures from the largest reading so far. -/
theorem since_consume (h : p.within burst rate) (now next : Int64) :
    ((p.consume now).1.since next).toInt = max (p.since now).toInt now.toInt := by
  rw [h.consume_eq]
  exact p.later_toInt now

/-- The largest reading of a series, its first reading taken off. -/
theorem latest_cons (most : Int) (now : Int64) (rest : List Int64) :
    latest most (now :: rest) = latest (max most now.toInt) rest := rfl

/-- The amounts of a series add up to no more than the time the clock advanced in it. -/
theorem amounts_sum_le (h : p.within burst rate) (hrate : 0 ≤ rate) {last : Int}
    (hlast : ∀ now, (p.since now).toInt = last) {readings : List Int64}
    (hpaid : p.paid readings) :
    (p.amounts readings).sum ≤ seconds (latest last readings - last) * rate := by
  induction readings generalizing p last with
  | nil =>
      rw [amounts, List.sum_nil, latest, List.foldl_nil, sub_self, seconds, Int.cast_zero,
        zero_div, zero_mul]
  | cons now rest ih =>
      have hnext : ∀ next, ((p.consume now).1.since next).toInt = max last now.toInt := by
        intro next
        rw [since_consume h, hlast]
      have hfirst := credit_le h hrate now
      have hrest := ih (h.consume hrate hpaid.1) hnext hpaid.2
      rw [hlast] at hfirst
      have hsplit := seconds_sub (latest (max last now.toInt) rest) (max last now.toInt) last
      rw [amounts, List.sum_cons, latest_cons, ← hsplit, add_mul]
      linarith

/-- After a series of calls the next measures from the largest reading. -/
theorem since_after (h : p.within burst rate) (hrate : 0 ≤ rate) {last : Int}
    (hlast : ∀ now, (p.since now).toInt = last) {readings : List Int64}
    (hpaid : p.paid readings) (next : Int64) :
    ((p.after readings).since next).toInt = latest last readings := by
  induction readings generalizing p last with
  | nil => exact hlast next
  | cons now rest ih =>
      refine ih (h.consume hrate hpaid.1) (fun next => ?_) hpaid.2
      rw [since_consume h, hlast]

/-- The same for a bucket that was just made: it measures from the first reading on. -/
theorem since_after_first (hrate : 0 ≤ rate) {first : Int64} {readings : List Int64}
    (hpaid : (make burst rate).paid (first :: readings)) (next : Int64) :
    (((make burst rate).after (first :: readings)).since next).toInt =
      latest first.toInt readings := by
  refine since_after (make_within.consume hrate hpaid.1) hrate (fun now => ?_) hpaid.2 next
  rw [since_consume make_within]
  exact max_self first.toInt

/-- The largest reading of a series in two parts. -/
theorem latest_append (most : Int) (before rest : List Int64) :
    latest most (before ++ rest) = latest (latest most before) rest := List.foldl_append

/-- The largest reading does not depend on which is counted first. -/
theorem latest_max (most more : Int) (readings : List Int64) :
    latest (max most more) readings = max (latest most readings) more := by
  induction readings generalizing most with
  | nil => rfl
  | cons next rest ih =>
      rw [latest_cons, latest_cons, max_right_comm, ih]

/-- What a call adds is what the top-up does to the level. -/
theorem refilled_eq (h : p.within burst rate) (now : Int64) :
    p.refilled now = refill (burst : ℚ) p.tokens_ (p.credit now) - p.tokens_ := by
  have hdraw := draw_conserves (refill (burst : ℚ) p.tokens_ (p.credit now))
  rw [refilled, h.consume_eq]
  change (draw (refill (burst : ℚ) p.tokens_ (p.credit now))).1 +
    (if (draw (refill (burst : ℚ) p.tokens_ (p.credit now))).2 then 1 else 0) - p.tokens_ = _
  push_cast at hdraw
  linarith

/-- What the top-ups add to the level is no more than the amounts: a full bucket takes none. -/
theorem credited_le (h : p.within burst rate) (hrate : 0 ≤ rate) {readings : List Int64}
    (hpaid : p.paid readings) : p.credited readings ≤ (p.amounts readings).sum := by
  induction readings generalizing p with
  | nil => exact le_refl _
  | cons now rest ih =>
      have hrefill : refill (burst : ℚ) p.tokens_ (p.credit now) ≤ p.tokens_ + p.credit now :=
        refill_le_add
      have hrest := ih (h.consume hrate hpaid.1) hpaid.2
      rw [credited, amounts, List.sum_cons, refilled_eq h]
      linarith

/-- A series is paid for if it never leaves less than nothing. -/
theorem paid_of_levels (h : p.within burst rate) (hrate : 0 ≤ rate) {readings : List Int64}
    (hlevel : ∀ before, before <+: readings → 0 ≤ (p.after before).tokens_) :
    p.paid readings := by
  induction readings generalizing p with
  | nil => trivial
  | cons now rest ih =>
      have hpays : p.affordable now := by
        by_contra howes
        have hfirst : 0 ≤ (p.consume now).1.tokens_ := hlevel [now] ⟨rest, rfl⟩
        exact absurd (h.overdrawn hrate howes) (not_lt.mpr hfirst)
      refine ⟨hpays, ih (h.consume hrate hpays) fun before hbefore => ?_⟩
      exact hlevel (now :: before) (List.cons_prefix_cons.mpr ⟨rfl, hbefore⟩)

/-- Readings that stay within reach of each other never make the difference wrap. -/
theorem paid_of_reach (h : p.within burst rate) (hrate : 0 ≤ rate) {last : Int}
    (hlast : ∀ now, (p.since now).toInt = last) {readings : List Int64}
    (hreach : within_reach last readings) : p.paid readings := by
  induction readings generalizing p last with
  | nil => trivial
  | cons now rest ih =>
      have hpays : p.affordable now := by
        intro hstarted _
        have hlast' := hlast now
        rw [since, if_pos hstarted] at hlast'
        exact .inl (hlast' ▸ hreach.1)
      refine ⟨hpays, ih (h.consume hrate hpays) (fun next => ?_) hreach.2⟩
      rw [since_consume h, hlast]

/-- The same from the first reading on, which credits nothing. -/
theorem make_paid_of_reach (hrate : 0 ≤ rate) {readings : List Int64}
    (hreach : in_reach readings) : (make burst rate).paid readings := by
  cases readings with
  | nil => trivial
  | cons first rest =>
      have hpays : (make burst rate).affordable first := fun hstarted => by cases hstarted
      refine ⟨hpays, paid_of_reach (make_within.consume hrate hpays) hrate (fun next => ?_) hreach⟩
      rw [since_consume make_within]
      exact max_self first.toInt

/-- A series that is paid for meets the bound. Each of the four parts is an account of the
bucket: what it holds, what a block takes, and what a reading adds. -/
theorem bounded_of_paid (hrate : 0 ≤ rate) {readings : List Int64}
    (hpaid : (make burst rate).paid readings) : rate_bounded burst rate readings := by
  have hsplit : ∀ {before rest : List Int64}, before ++ rest <+: readings →
      (make burst rate).paid before ∧ ((make burst rate).after before).paid rest := by
    rintro before rest ⟨more, rfl⟩
    exact paid_append.mp (paid_append.mp hpaid).1
  have hwithin : ∀ {before : List Int64}, (make burst rate).paid before →
      ((make burst rate).after before).within burst rate :=
    fun hbefore => make_within.after hrate hbefore
  constructor
  · rintro before ⟨more, rfl⟩
    have h := hwithin (paid_append.mp hpaid).1
    exact ⟨h.nonneg, h.le⟩
  · intro before first block hprefix
    obtain ⟨hbefore, hblock⟩ := hsplit hprefix
    have h := hwithin hbefore
    have hnext := h.consume hrate hblock.1
    -- the last reading after the block's first call is the largest up to it
    have hsince : ∀ next,
        ((((make burst rate).after before).consume first).1.since next).toInt =
          latest first.toInt before := by
      intro next
      rw [since_consume h]
      cases before with
      | nil => exact max_self first.toInt
      | cons earliest before =>
          rw [since_after_first hrate hbefore, latest_cons, ← latest_max, max_comm]
    have hlevel := (h.after hrate hblock).nonneg
    rw [after_tokens h hrate hblock] at hlevel
    -- the first top-up of the block fills the bucket at most
    have hbound := drawn_cons_le hlevel
    have hsum := amounts_sum_le hnext hrate hsince hblock.2
    rw [granted_eq_drawn h hrate hblock, latest_append, mul_comm rate]
    exact le_trans hbound (add_le_add_right hsum _)
  · intro first before now hprefix hnow
    obtain ⟨hbefore, -⟩ := hsplit hprefix
    have h := hwithin hbefore
    have hsince := since_after_first hrate hbefore now
    have hzero : ((make burst rate).after (first :: before)).credit now = 0 := by
      rw [credit, if_neg]
      rw [Int64.lt_iff_toInt_lt, hsince]
      exact not_lt.mpr hnow
    rw [refilled_eq h, hzero, refill_zero h.le, sub_self]
  · intro first before block hprefix
    obtain ⟨hbefore, hblock⟩ := hsplit hprefix
    have h := hwithin hbefore
    have hcredited := credited_le h hrate hblock
    have hsum := amounts_sum_le h hrate (since_after_first hrate hbefore) hblock
    rw [latest_append, mul_comm rate]
    exact le_trans hcredited hsum

end Runs

end server_policy

open server_policy in
/-- The rate bound holds of a series of calls exactly if the bucket can pay in each of them:
the reading is not later than the latest one by 2^63 nanoseconds or more, or there are tokens
enough for what the difference takes once it has wrapped. So it holds of every series whose
readings never are that far past the latest one before them. -/
theorem consume_rate_bound_iff {burst : Nat} {rate : ℚ} (hrate : 0 < rate)
    (readings : List Int64) :
    (rate_bounded burst rate readings ↔ (make burst rate).paid readings) ∧
      (in_reach readings → rate_bounded burst rate readings) := by
  have hnonneg := le_of_lt hrate
  refine ⟨⟨fun h => ?_, bounded_of_paid hnonneg⟩, fun hreach => ?_⟩
  -- a call the bucket cannot pay leaves less than nothing, and the bound says that none does
  · exact paid_of_levels make_within hnonneg fun before hbefore => (h.level before hbefore).1
  · exact bounded_of_paid hnonneg (make_paid_of_reach hnonneg hreach)

open server_policy in
/-- One token and one a second: the readings 0 s, 1 s, 0 s and 1 s keep to the bound. -/
theorem consume_rate_bound_iff_one :
    (0 : ℚ) < 1 ∧ in_reach [0, 1000000000, 0, 1000000000] ∧
      rate_bounded 1 1 [0, 1000000000, 0, 1000000000] := by
  have hreach : in_reach [0, 1000000000, 0, 1000000000] := by
    simp only [in_reach, within_reach]
    decide
  exact ⟨by decide, hreach, (consume_rate_bound_iff (by decide) _).2 hreach⟩

/-- One token and one a second: the first reading is the least there is, and the second one the
greatest. The difference wraps to one nanosecond less than nothing, and that is taken from the
empty bucket. -/
theorem consume_rate_bound_broken :
    ¬rate_bounded 1 1 [Int64.minValue, Int64.maxValue, Int64.maxValue] := by
  intro h
  have hlevel := (h.level [Int64.minValue, Int64.maxValue] ⟨[Int64.maxValue], rfl⟩).1
  exact absurd hlevel (by decide +kernel)

end SynapseMcp
