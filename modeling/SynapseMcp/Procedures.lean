/-
Procedures that change a state and may leave early, with pre- and postconditions.

Nothing in this file names the SDK. A procedure is a function of the state that either returns a
value or leaves with an exit; the state it has made by then stays. `Meets` gives it a condition on
the state before, one on the value and the state where it returns, and one on the exit and the
state where it leaves. There is a rule for each way to build a procedure, so a proof follows the
text of the procedure.
-/
import Mathlib.Logic.Basic

set_option autoImplicit false

namespace SynapseMcp.Procedures

variable {σ ε α β : Type}

abbrev Procedure (σ ε α : Type) := ExceptT ε (StateM σ) α

/-- What a run from the state comes to. -/
def outcome (x : Procedure σ ε α) (s : σ) : Except ε α × σ := x.run.run s

/-- A function that changes the state and always returns. -/
def call (f : σ → α × σ) : Procedure σ ε α := ExceptT.lift (fun s => f s)

/-- Leaves with `e` unless `c` holds. -/
def ensure (c : Prop) [Decidable c] (e : ε) : Procedure σ ε Unit :=
  if c then pure () else throw e

/-! ## Runs

A run is the body applied to the state. Both parts of the outcome are kept, because the state
that a procedure leaves with is as much of interest as the exit: in a language with exceptions
it is what the caller finds. The lemmas say what each construct does to a run; the one for a
bind is the only one that looks into the transformer. -/

@[simp] theorem outcome_pure (a : α) (s : σ) :
    outcome (pure a : Procedure σ ε α) s = (.ok a, s) := rfl

@[simp] theorem outcome_throw (e : ε) (s : σ) :
    outcome (throw e : Procedure σ ε α) s = (.error e, s) := rfl

@[simp] theorem outcome_call (f : σ → α × σ) (s : σ) :
    outcome (call f : Procedure σ ε α) s = (.ok (f s).1, (f s).2) := rfl

/-- A bind runs the continuation in the state in which the first part returned, and leaves where
the first part leaves, with the state of that moment. -/
theorem outcome_bind (x : Procedure σ ε α) (f : α → Procedure σ ε β) (s : σ) :
    outcome (x >>= f) s =
      match outcome x s with
      | (.ok a, t) => outcome (f a) t
      | (.error e, t) => (.error e, t) := by
  change (ExceptT.bindCont f (x s).1) (x s).2 = _
  unfold outcome ExceptT.run StateT.run
  cases hxs : x s with
  | mk r t =>
      cases r with
      | ok a => rfl
      | error e => rfl

/-- A handler starts in the state in which the body left. -/
theorem outcome_tryCatch (x : Procedure σ ε α) (f : ε → Procedure σ ε α) (s : σ) :
    outcome (tryCatch x f) s =
      match outcome x s with
      | (.ok a, t) => (.ok a, t)
      | (.error e, t) => outcome (f e) t := by
  change (match x s with
    | (r, t) => (match r with
      | .ok a => pure (.ok a)
      | .error e => f e : StateM σ (Except ε α)) t) = _
  unfold outcome ExceptT.run StateT.run
  cases hxs : x s with
  | mk r t =>
      cases r with
      | ok a => rfl
      | error e => rfl

/-! ## Conditions

The condition for leaving is separate from the one for returning, and speaks of the state too:
"the state is as it was" is a condition for leaving that most callers want. A rule takes the
conditions of the parts to one of the whole. The condition for leaving is the same throughout a
body, since wherever the body leaves it is the caller who has to cope; the conditions in between
are those that a bind hands on. -/

/-- Where `pre` holds the run returns with `post` or leaves with `fail`. -/
def Meets (x : Procedure σ ε α) (pre : σ → Prop) (post : α → σ → Prop) (fail : ε → σ → Prop) :
    Prop :=
  ∀ s, pre s →
    match outcome x s with
    | (.ok a, t) => post a t
    | (.error e, t) => fail e t

variable {pre : σ → Prop} {post : α → σ → Prop} {fail : ε → σ → Prop}

/-- A value is returned in the state as it is. -/
theorem Meets.pure {a : α} (h : ∀ s, pre s → post a s) :
    Meets (Pure.pure a : Procedure σ ε α) pre post fail := h

/-- An exit is taken in the state as it is, and the condition for leaving must hold of it. -/
theorem Meets.throw {e : ε} (h : ∀ s, pre s → fail e s) :
    Meets (throw e : Procedure σ ε α) pre post fail := h

/-- A function of the state returns, with what it makes of the state. -/
theorem Meets.call {f : σ → α × σ} (h : ∀ s, pre s → post (f s).1 (f s).2) :
    Meets (call f : Procedure σ ε α) pre post fail := h

/-- What the first part returns with is what the continuation starts from; both may leave, with
the same condition. -/
theorem Meets.bind {x : Procedure σ ε α} {f : α → Procedure σ ε β} {next : β → σ → Prop}
    (hx : Meets x pre post fail) (hf : ∀ a, Meets (f a) (post a) next fail) :
    Meets (x >>= f) pre next fail := by
  intro s hs
  have hx' := hx s hs
  rw [outcome_bind]
  cases hxs : outcome x s with
  | mk r t =>
      rw [hxs] at hx'
      cases r with
      | ok a => exact hf a t hx'
      | error e => exact hx'

/-- The rule of consequence: less may be assumed and more concluded, for either way to end. -/
theorem Meets.imp {x : Procedure σ ε α} {pre' : σ → Prop} {post' : α → σ → Prop}
    {fail' : ε → σ → Prop} (h : Meets x pre post fail) (hpre : ∀ s, pre' s → pre s)
    (hpost : ∀ a s, post a s → post' a s) (hfail : ∀ e s, fail e s → fail' e s) :
    Meets x pre' post' fail' := by
  intro s hs
  have hx := h s (hpre s hs)
  cases hxs : outcome x s with
  | mk r t =>
      rw [hxs] at hx
      cases r with
      | ok a => exact hpost a t hx
      | error e => exact hfail e t hx

/-- The branches of a test. -/
theorem Meets.ite {c : Prop} [Decidable c] {x y : Procedure σ ε α}
    (hx : c → Meets x pre post fail) (hy : ¬c → Meets y pre post fail) :
    Meets (if c then x else y) pre post fail := by
  by_cases hc : c
  · rw [if_pos hc]
    exact hx hc
  · rw [if_neg hc]
    exact hy hc

/-- A fact that says nothing about the state is at hand in what follows. -/
theorem Meets.assuming {c : Prop} {x : Procedure σ ε α} (h : c → Meets x pre post fail) :
    Meets x (fun s => c ∧ pre s) post fail := by
  intro s hs
  exact h hs.1 s hs.2

/-- A test that leaves when it fails: behind it the tested fact is at hand, and the state is as
it was before. -/
theorem Meets.ensure {c : Prop} [Decidable c] {e : ε} (h : ∀ s, pre s → ¬c → fail e s) :
    Meets (ensure c e : Procedure σ ε Unit) pre (fun _ s => c ∧ pre s) fail := by
  apply Meets.ite
  · intro hc
    exact Meets.pure fun s hs => ⟨hc, hs⟩
  · intro hc
    exact Meets.throw fun s hs => h s hs hc

/-- A test and what follows it, which may use the tested fact; the form in which the checks at
the head of a body are gone through. -/
theorem Meets.ensure_bind {c : Prop} [Decidable c] {e : ε} {x : Procedure σ ε α}
    (h : ∀ s, pre s → ¬c → fail e s) (hx : c → Meets x pre post fail) :
    Meets (Procedures.ensure c e >>= fun _ => x) pre post fail := by
  apply Meets.bind (Meets.ensure h)
  intro _
  exact Meets.assuming hx

end SynapseMcp.Procedures
