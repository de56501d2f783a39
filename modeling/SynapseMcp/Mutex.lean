/-
A mutex and the ones who are inside.

Nothing in this file names the SDK. `inside` says of each party whether it is in a section that
the mutex protects, `owner` is whom the mutex names. A step of a party enters, leaves, or stays
where it is; what `Guards` says is kept by all three.
-/
import Mathlib.Logic.Basic

set_option autoImplicit false

namespace SynapseMcp.Mutex

variable {P : Type*}

/-- The mutex names the one who is inside. -/
def Guards (owner : Option P) (inside : P → Bool) : Prop :=
  ∀ p, inside p = true ↔ owner = some p

/-- What a step of `p` does with the mutex, and whether `p` is inside before and after it. -/
inductive Act (p : P) : Option P → Bool → Option P → Bool → Prop where
  | stay (owner : Option P) (here : Bool) : Act p owner here owner here
  | enter (here : Bool) : Act p none here (some p) true
  | leave (owner : Option P) : Act p owner true none false

variable {owner owner' : Option P} {inside inside' : P → Bool} {p q : P}

/-- Two who are inside are both the one that is named. -/
theorem Guards.unique (h : Guards owner inside) (hp : inside p = true) (hq : inside q = true) :
    p = q := by
  have hpo := (h p).mp hp
  rw [(h q).mp hq] at hpo
  exact (Option.some.inj hpo).symm

/-- Whatever `p` does, the mutex names the one who is inside. The others stay where they are;
when `p` enters nobody is named, and when it leaves nobody else can have been inside. -/
theorem Guards.act (h : Guards owner inside) (hact : Act p owner (inside p) owner' (inside' p))
    (hothers : ∀ q, q ≠ p → inside' q = inside q) : Guards owner' inside' := by
  intro q
  by_cases hq : q = p
  · subst hq
    generalize hold : inside q = old at hact
    generalize hnew : inside' q = new at hact
    cases hact with
    | stay =>
        rw [← hold]
        exact h q
    | enter => simp
    | leave => simp
  -- another party is inside after the step only if it was before
  · rw [hothers q hq]
    generalize hold : inside p = old at hact
    generalize hnew : inside' p = new at hact
    cases hact with
    | stay => exact h q
    | enter =>
        constructor
        · intro hin
          have hnone := (h q).mp hin
          cases hnone
        · intro howner
          exact absurd (Option.some.inj howner).symm hq
    | leave =>
        constructor
        · intro hin
          exact absurd (h.unique hin hold) hq
        · intro hnone
          cases hnone

end SynapseMcp.Mutex
