/-
Token buckets: a level below a capacity that is topped up and drawn down by ones.

Nothing in this file names the SDK. An offer tops the level up by some amount, never
past the capacity, and draws one token if there is one. Two rules carry every bound on
what a bucket lets through: the level stays between zero and the capacity exactly as long
as no top-up takes more than there is, and tokens are conserved, so what a series of offers
drew is at most the level it began with and the amounts it was topped up by
(`drawn_add_level_le`). A series whose first offer is counted from its top-up draws at most
the capacity and the later amounts (`drawn_cons_le`), which is the bound for a window that
starts anywhere. An amount may be negative.
-/
import Mathlib.Algebra.Order.Field.Basic
import Mathlib.Tactic.Linarith

set_option autoImplicit false

namespace SynapseMcp.TokenBucket

variable {K : Type*} [Field K] [LinearOrder K]

/-! ## Offers

An offer is a top-up and a draw. The two are kept apart because they are bounded by different
things: a top-up by the capacity, a draw by what is there. -/

/-- Top the level up by `amount`. -/
def refill (capacity level amount : K) : K := min capacity (level + amount)

/-- Draw one token if there is one: the level after it, and whether there was. -/
def draw (level : K) : K × Bool := if level < 1 then (level, false) else (level - 1, true)

/-- One offer. -/
def offer (capacity level amount : K) : K × Bool := draw (refill capacity level amount)

/-- The level after a series of offers. -/
def level_after (capacity level : K) : List K → K
  | [] => level
  | amount :: rest => level_after capacity (offer capacity level amount).1 rest

/-- How many tokens a series of offers drew. -/
def drawn (capacity level : K) : List K → Nat
  | [] => 0
  | amount :: rest =>
      (if (offer capacity level amount).2 then 1 else 0) +
        drawn capacity (offer capacity level amount).1 rest

variable {capacity level amount : K}

/-! ## Bounds

One offer keeps the level between zero and the capacity if its top-up takes no more than there
is. A series conserves tokens, and that is all that is needed to bound what it drew. -/

/-- A top-up stops at the capacity. -/
theorem refill_le_capacity : refill capacity level amount ≤ capacity := min_le_left _ _

/-- And adds no more than the amount. -/
theorem refill_le_add : refill capacity level amount ≤ level + amount := min_le_right _ _

/-- Nothing is added to a level within the capacity. -/
theorem refill_zero (h : level ≤ capacity) : refill capacity level 0 = level := by
  rw [refill, add_zero, min_eq_right h]

/-- What a draw takes off the level is what it lets through. -/
theorem draw_conserves (level : K) :
    ((if (draw level).2 then 1 else 0 : Nat) : K) + (draw level).1 = level := by
  unfold draw
  split
  · simp
  · simp

variable [IsStrictOrderedRing K]

/-- A draw takes only what is there. -/
theorem draw_level_nonneg (h : 0 ≤ level) : 0 ≤ (draw level).1 := by
  unfold draw
  split
  · exact h
  · rename_i hone
    have := not_lt.mp hone
    change 0 ≤ level - 1
    linarith

/-- A draw never adds. -/
theorem draw_level_le : (draw level).1 ≤ level := by
  unfold draw
  split
  · exact le_refl level
  · change level - 1 ≤ level
    linarith

/-- An offer that takes no more than there is leaves a level that is not negative. -/
theorem offer_level_nonneg (hcapacity : 0 ≤ capacity) (hpays : 0 ≤ level + amount) :
    0 ≤ (offer capacity level amount).1 :=
  draw_level_nonneg (le_min hcapacity hpays)

/-- A top-up that takes more than there is leaves less than nothing. -/
theorem offer_level_neg (howes : level + amount < 0) : (offer capacity level amount).1 < 0 :=
  lt_of_le_of_lt (le_trans draw_level_le refill_le_add) howes

/-- An offer leaves the level within the capacity. -/
theorem offer_level_le : (offer capacity level amount).1 ≤ capacity :=
  le_trans draw_level_le refill_le_capacity

/-- Tokens are conserved by a series of offers: what was drawn and what is left is at most what
there was and what came in. The induction is on the series, one draw at a time. -/
theorem drawn_add_level_le (capacity level : K) (amounts : List K) :
    (drawn capacity level amounts : K) + level_after capacity level amounts ≤
      level + amounts.sum := by
  induction amounts generalizing level with
  | nil => simp [drawn, level_after]
  | cons amount rest ih =>
      have hrest := ih (offer capacity level amount).1
      have hdraw := draw_conserves (refill capacity level amount)
      have hrefill : refill capacity level amount ≤ level + amount := refill_le_add
      rw [drawn, level_after, List.sum_cons, Nat.cast_add]
      change ((if (offer capacity level amount).2 then 1 else 0 : Nat) : K) +
        (offer capacity level amount).1 = _ at hdraw
      linarith

/-- From its first top-up on, a series that ends with a level no less than nothing draws at
most the capacity and the later amounts. -/
theorem drawn_cons_le {amounts : List K}
    (hafter : 0 ≤ level_after capacity level (amount :: amounts)) :
    (drawn capacity level (amount :: amounts) : K) ≤ capacity + amounts.sum := by
  -- the first offer starts at most from the capacity, whatever its amount was
  have hrest := drawn_add_level_le capacity (offer capacity level amount).1 amounts
  have hdraw := draw_conserves (refill capacity level amount)
  have hrefill : refill capacity level amount ≤ capacity := refill_le_capacity
  rw [level_after] at hafter
  rw [drawn, Nat.cast_add]
  change ((if (offer capacity level amount).2 then 1 else 0 : Nat) : K) +
    (offer capacity level amount).1 = _ at hdraw
  linarith

end SynapseMcp.TokenBucket
