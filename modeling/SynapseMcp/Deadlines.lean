/-
Waiting until something is done or a deadline has passed.

Nothing in this file names the SDK. The waiter looks again and again, and each time it reads the
clock: `clock i` is what it reads at turn `i`, `done i` is what it finds then. `poll` is its loop
with a number of turns to go. A later deadline can only make it look longer.
-/
import Mathlib.Order.Basic

set_option autoImplicit false

namespace SynapseMcp.Deadlines

inductive waited where
  | completes (turn : Nat)
  /-- The deadline was reached, with this reading of the clock. -/
  | gives_up (reading : Int)
  /-- It still waits after all the turns. -/
  | waiting
  deriving DecidableEq

def poll (clock : Nat → Int) (done : Nat → Bool) (deadline : Int) : Nat → Nat → waited
  | 0, _ => .waiting
  | turns + 1, i =>
      if done i then .completes i
      else if deadline ≤ clock i then .gives_up (clock i)
      else poll clock done deadline turns (i + 1)

/-- It is done at turn `i`, before the deadline and not earlier. -/
def finishes (clock : Nat → Int) (done : Nat → Bool) (deadline : Int) (start i : Nat) : Prop :=
  start ≤ i ∧ done i = true ∧
    ∀ j, start ≤ j → j < i → done j = false ∧ clock j < deadline

variable {clock : Nat → Int} {done : Nat → Bool} {deadline later : Int} {turns i n : Nat}
  {reading : Int}

/-! ## One poll

A turn is decided in a fixed order: what is done is seen before the clock is read, so a poll
that finds it done completes even where the deadline has passed meanwhile. All lemmas go by
induction on the turns that are left. -/

/-- The poll completes at turn `n` exactly where it finishes there, with a turn left for it. The
induction is on the turns that are left. -/
theorem poll_completes_iff :
    poll clock done deadline turns i = .completes n ↔
      finishes clock done deadline i n ∧ n < i + turns := by
  induction turns generalizing i with
  | zero =>
      constructor
      · intro h
        cases h
      · rintro ⟨⟨hle, _⟩, hlt⟩
        omega
  | succ turns ih =>
      unfold poll
      by_cases hdone : done i = true
      · -- done at this turn, so nothing finishes at a later one
        rw [if_pos hdone]
        constructor
        · intro h
          cases h
          refine ⟨⟨Nat.le_refl n, hdone, ?_⟩, by omega⟩
          intro j hnj hjn
          omega
        · rintro ⟨⟨hle, _, hbefore⟩, _⟩
          have heq : i = n := by
            by_contra hne
            have hfalse := (hbefore i (Nat.le_refl i) (by omega)).1
            rw [hdone] at hfalse
            cases hfalse
          rw [heq]
      · rw [if_neg hdone]
        by_cases hdeadline : deadline ≤ clock i
        · -- the reading of this turn is one of those that would have to be earlier
          rw [if_pos hdeadline]
          constructor
          · intro h
            cases h
          · rintro ⟨⟨hle, hn, hbefore⟩, _⟩
            have hne : i ≠ n := by
              intro heq
              rw [heq] at hdone
              exact hdone hn
            have hclock := (hbefore i (Nat.le_refl i) (by omega)).2
            omega
        · -- the loop goes on one turn later, with one turn less
          rw [if_neg hdeadline, ih]
          constructor
          · rintro ⟨⟨hle, hn, hbefore⟩, hlt⟩
            refine ⟨⟨by omega, hn, ?_⟩, by omega⟩
            intro j hij hjn
            by_cases hj : j = i
            · subst hj
              exact ⟨Bool.eq_false_iff.mpr hdone, by omega⟩
            · exact hbefore j (by omega) hjn
          · rintro ⟨⟨hle, hn, hbefore⟩, hlt⟩
            have hne : i ≠ n := by
              intro heq
              rw [heq] at hdone
              exact hdone hn
            exact ⟨⟨by omega, hn, fun j hij hjn => hbefore j (by omega) hjn⟩, by omega⟩

/-- It gives up with a reading of its own, one that was taken at this turn or later, so with a
monotone clock no earlier than the reading of this turn. -/
theorem le_of_gives_up (hclock : ∀ i j, i ≤ j → clock i ≤ clock j)
    (h : poll clock done deadline turns i = .gives_up reading) : clock i ≤ reading := by
  induction turns generalizing i with
  | zero => cases h
  | succ turns ih =>
      unfold poll at h
      split at h
      · cases h
      · split at h
        · cases h
          exact Int.le_refl _
        · exact Int.le_trans (hclock i (i + 1) (Nat.le_succ i)) (ih h)

/-! ## Two deadlines

The same clock and the same turns, with one deadline not behind the other. As long as both polls
wait they are at the same turn; they part where the earlier deadline is reached. The clock must
not go back, since a reading is compared with later ones. -/

/-- Whoever gives up with the later deadline gives up with the earlier one, and no later. -/
theorem gives_up_earlier (hclock : ∀ i j, i ≤ j → clock i ≤ clock j) (hle : deadline ≤ later)
    (h : poll clock done later turns i = .gives_up reading) :
    ∃ x, poll clock done deadline turns i = .gives_up x ∧ x ≤ reading := by
  induction turns generalizing i with
  | zero => cases h
  | succ turns ih =>
      have hread := le_of_gives_up hclock h
      unfold poll at h ⊢
      by_cases hdone : done i = true
      · rw [if_pos hdone] at h
        cases h
      · rw [if_neg hdone] at h ⊢
        by_cases hdeadline : deadline ≤ clock i
        · rw [if_pos hdeadline]
          exact ⟨clock i, rfl, hread⟩
        · rw [if_neg hdeadline]
          rw [if_neg (by omega)] at h
          exact ih h

/-- Where one deadline is met, another one is met at the same turn or was given up before it. -/
theorem completes_or_gives_up (hclock : ∀ i j, i ≤ j → clock i ≤ clock j)
    (h : poll clock done later turns i = .completes n) :
    poll clock done deadline turns i = .completes n ∨
      ∃ x, poll clock done deadline turns i = .gives_up x ∧ x ≤ clock n := by
  induction turns generalizing i with
  | zero => cases h
  | succ turns ih =>
      have hin := (poll_completes_iff.mp h).1.1
      unfold poll at h ⊢
      by_cases hdone : done i = true
      · rw [if_pos hdone] at h ⊢
        exact .inl h
      · rw [if_neg hdone] at h ⊢
        by_cases hdeadline : deadline ≤ clock i
        · rw [if_pos hdeadline]
          exact .inr ⟨clock i, rfl, hclock i n hin⟩
        · rw [if_neg hdeadline]
          rw [if_neg] at h
          · exact ih h
          · intro hlater
            rw [if_pos hlater] at h
            cases h

end SynapseMcp.Deadlines
