/-
Transition systems that come to rest: how many steps of one kind a state has left.

Nothing in this file names the SDK. A budget is a number that every step of the kind
lowers, so it bounds the length of every run made of such steps; a state is stuck when no
such step is possible. The two together are completion: a run that cannot go on for ever
ends in a stuck state (`Steps.within`, `Budget.comes_to_rest`), and what is known of the
stuck states is then what every maximal run achieves.

A kind of steps is a predicate on the whole step, with the state it leads to: where a label
stands for two transitions, only that tells them apart.
-/
import SynapseMcp.Transition
import Mathlib.Algebra.Ring.Nat

set_option autoImplicit false

namespace SynapseMcp.Transition

namespace System

variable {σ ε : Type*}

/-- The same system, taking only the steps of one kind. -/
def only (S : System σ ε) (K : σ → ε → σ → Prop) : System σ ε where
  init := S.init
  step s a t := K s a t ∧ S.step s a t

/-- A run that takes this many steps. -/
inductive Steps (S : System σ ε) : ℕ → σ → σ → Prop
  | refl (s : σ) : Steps S 0 s s
  | tail {n : ℕ} {s t u : σ} {a : ε} (h : Steps S n s t) (last : S.step t a u) :
      Steps S (n + 1) s u

/-- No step of the kind is possible. -/
def Stuck (S : System σ ε) (K : σ → ε → σ → Prop) (s : σ) : Prop :=
  ∀ a t, K s a t → ¬S.step s a t

/-- Every step of the kind lowers the budget of a reachable state. -/
def Budget (S : System σ ε) (K : σ → ε → σ → Prop) (budget : σ → ℕ) : Prop :=
  ∀ s a t, S.Reachable s → K s a t → S.step s a t → budget t < budget s

variable {S : System σ ε} {K : σ → ε → σ → Prop} {budget : σ → ℕ}

/-! ## Spending a budget

A budget bounds the runs made of steps of its kind alone; other steps may raise it again, so
nothing is said of runs in which they are mixed. That a stuck state is reached at all is an
induction on the budget, with no assumption on who takes the steps. -/

/-- A run of steps of one kind is a run. -/
theorem only_run {s t : σ} (h : (S.only K).Run s t) : S.Run s t :=
  Relation.ReflTransGen.mono (fun _ _ ⟨a, ha⟩ => ⟨a, ha.2⟩) _ _ h

/-- Forgetting how many steps it takes. -/
theorem Steps.run {n : ℕ} {s t : σ} (h : S.Steps n s t) : S.Run s t := by
  induction h with
  | refl => exact .refl
  | tail _ last ih => exact ih.tail ⟨_, last⟩

/-- A run of steps of the kind is no longer than what it spends. -/
theorem Steps.within (hbudget : S.Budget K budget) {n : ℕ} {s t : σ} (hs : S.Reachable s)
    (h : (S.only K).Steps n s t) : n + budget t ≤ budget s := by
  induction h with
  | refl => rw [Nat.zero_add]
  | tail hmid last ih =>
      have hreach := hs.run (only_run hmid.run)
      have hless := hbudget _ _ _ hreach last.1 last.2
      have hspent := ih hs
      omega

/-- From every reachable state some run of such steps ends where none is possible. -/
theorem Budget.comes_to_rest (hbudget : S.Budget K budget) {s : σ} (hs : S.Reachable s) :
    ∃ t, (S.only K).Run s t ∧ S.Stuck K t := by
  -- by strong induction on the budget: a state that is not stuck has a successor with less
  induction hb : budget s using Nat.strong_induction_on generalizing s with
  | _ b ih =>
      by_cases hstuck : S.Stuck K s
      · exact ⟨s, .refl, hstuck⟩
      · obtain ⟨a, u, hK, hstep⟩ : ∃ a u, K s a u ∧ S.step s a u := by
          by_contra hnone
          exact hstuck fun a u hK hstep => hnone ⟨a, u, hK, hstep⟩
        have hless := hbudget s a u hs hK hstep
        obtain ⟨t, hrun, ht⟩ := ih (budget u) (hb ▸ hless) (hs.step hstep) rfl
        exact ⟨t, .head ⟨a, hK, hstep⟩ hrun, ht⟩

/-! ## Completion

What a user of this file supplies is a budget and a lemma about the stuck states; what comes out
is the bound, the result and that a maximal run exists, so that the result is not said of
nothing. -/

/-- What is known of the stuck states holds at the end of every maximal run. -/
structure Completes (S : System σ ε) (K : σ → ε → σ → Prop) (most : ℕ) (P : σ → Prop)
    (s : σ) : Prop where
  /-- No run of such steps is longer. -/
  bounded : ∀ n t, (S.only K).Steps n s t → n ≤ most
  /-- A run that cannot be continued has done its work. -/
  done : ∀ t, (S.only K).Run s t → S.Stuck K t → P t
  /-- There is one. -/
  possible : ∃ t, (S.only K).Run s t ∧ S.Stuck K t

/-- The same where steps of a smaller kind, `L`, are enough: the bound is on all steps of the
kind `K`, and a run has done its work as soon as no step of `L` is left. -/
structure CompletesBy (S : System σ ε) (K L : σ → ε → σ → Prop) (most : ℕ) (P : σ → Prop)
    (s : σ) : Prop where
  bounded : ∀ n t, (S.only K).Steps n s t → n ≤ most
  done : ∀ t, (S.only K).Run s t → S.Stuck L t → P t
  /-- There is such a run, and steps of `L` make it. -/
  possible : ∃ t, (S.only L).Run s t ∧ S.Stuck L t

/-- A smaller kind has the same budget. -/
theorem Budget.mono {L : σ → ε → σ → Prop} (hLK : ∀ s a t, L s a t → K s a t)
    (hbudget : S.Budget K budget) : S.Budget L budget :=
  fun s a t hs hL hstep => hbudget s a t hs (hLK s a t hL) hstep

/-- From a budget for `K` and what is known where no step of `L` is left. -/
theorem Budget.completes_by {L : σ → ε → σ → Prop} (hLK : ∀ s a t, L s a t → K s a t)
    (hbudget : S.Budget K budget) {P : σ → Prop} {s : σ} (hs : S.Reachable s)
    (hdone : ∀ t, S.Reachable t → S.Stuck L t → P t) :
    S.CompletesBy K L (budget s) P s where
  bounded n t h := by
    have hspent := Steps.within hbudget hs h
    omega
  done t hrun hstuck := hdone t (hs.run (only_run hrun)) hstuck
  possible := (hbudget.mono hLK).comes_to_rest hs

/-- The same with one kind of steps. -/
theorem Budget.completes (hbudget : S.Budget K budget) {P : σ → Prop} {s : σ}
    (hs : S.Reachable s) (hdone : ∀ t, S.Reachable t → S.Stuck K t → P t) :
    S.Completes K (budget s) P s where
  bounded n t h := by
    have hspent := Steps.within hbudget hs h
    omega
  done t hrun hstuck := hdone t (hs.run (only_run hrun)) hstuck
  possible := hbudget.comes_to_rest hs

end System

end SynapseMcp.Transition
