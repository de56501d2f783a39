/-
Transition systems: where a run may start, what one atomic step does, and what
holds of every run.

Nothing in this file names the SDK. A system is a predicate on initial states and
a labelled step relation; the label says whose step it is and what the
environment answered in it. A run is the reflexive-transitive closure of the
unlabelled step, so `Relation.ReflTransGen` and its API are used as they stand.

Five rules carry every run-level result of the development: an inductive
invariant holds of every reachable state (`Reachable.invariant`, and `Run.keeps` from a
reachable state on), a relation between successive states that composes holds between
the ends of a run (`Run.relates`), a map that sends steps to runs sends reachable states to
reachable states (`Simulation.reachable`), a relation along which a run of another system
begins and goes on gives each state a reachable one (`Following.reachable`), and a system
whose steps are restricted is still the system it was cut from (`restrict_reachable`).
-/
import Mathlib.Logic.Relation

set_option autoImplicit false

namespace SynapseMcp.Transition

/-- A labelled transition system: the initial states and the atomic steps. -/
structure System (σ ε : Type*) where
  init : σ → Prop
  step : σ → ε → σ → Prop

namespace System

variable {σ ε τ δ : Type*}

/-- One step of any label. -/
def Step (S : System σ ε) (s t : σ) : Prop := ∃ a, S.step s a t

/-- Any finite number of steps. -/
def Run (S : System σ ε) : σ → σ → Prop := Relation.ReflTransGen S.Step

/-- The states some run from an initial state ends in. -/
def Reachable (S : System σ ε) (t : σ) : Prop := ∃ s, S.init s ∧ S.Run s t

/-- The same system, taking only the steps that meet `C`. -/
def restrict (S : System σ ε) (C : σ → ε → Prop) : System σ ε where
  init := S.init
  step s a t := C s a ∧ S.step s a t

variable {S : System σ ε}

/-- A run begins in an initial state. -/
theorem Reachable.of_init {s : σ} (h : S.init s) : S.Reachable s :=
  ⟨s, h, .refl⟩

/-- What a run from a reachable state comes to is reachable. -/
theorem Reachable.run {s t : σ} (hs : S.Reachable s) (h : S.Run s t) : S.Reachable t := by
  obtain ⟨r, hr, hrs⟩ := hs
  exact ⟨r, hr, hrs.trans h⟩

/-- So is what one step comes to. -/
theorem Reachable.step {s t : σ} {a : ε} (hs : S.Reachable s) (h : S.step s a t) :
    S.Reachable t :=
  hs.run (.single ⟨a, h⟩)

/-- What holds initially and is kept by every step from a reachable state holds
of every reachable state. -/
theorem Reachable.invariant {P : σ → Prop} (hinit : ∀ s, S.init s → P s)
    (hstep : ∀ s a t, S.Reachable s → P s → S.step s a t → P t)
    {t : σ} (ht : S.Reachable t) : P t := by
  obtain ⟨s, hs, hrun⟩ := ht
  induction hrun with
  | refl => exact hinit s hs
  | tail hmid hlast ih =>
      obtain ⟨a, ha⟩ := hlast
      exact hstep _ a _ ⟨s, hs, hmid⟩ ih ha

/-- What holds of a reachable state and is kept by every step holds at the end of
every run from it. -/
theorem Run.keeps {P : σ → Prop} (hstep : ∀ s a t, S.Reachable s → P s → S.step s a t → P t)
    {s t : σ} (hs : S.Reachable s) (hP : P s) (h : S.Run s t) : P t := by
  induction h with
  | refl => exact hP
  | tail hmid hlast ih =>
      obtain ⟨a, ha⟩ := hlast
      exact hstep _ a _ (hs.run hmid) ih ha

/-- A reflexive, transitive relation every step is in relates the ends of a run. -/
theorem Run.relates {R : σ → σ → Prop} (hrefl : ∀ s, R s s)
    (htrans : ∀ s t u, R s t → R t u → R s u)
    (hstep : ∀ s a t, S.Reachable s → S.step s a t → R s t)
    {s t : σ} (hs : S.Reachable s) (h : S.Run s t) : R s t := by
  induction h with
  | refl => exact hrefl s
  | tail hmid hlast ih =>
      obtain ⟨a, ha⟩ := hlast
      exact htrans _ _ _ ih (hstep _ a _ (hs.run hmid) ha)

/-- A restricted run is a run of the whole system, from any state. -/
theorem restrict_run {C : σ → ε → Prop} {s t : σ} (h : (S.restrict C).Run s t) : S.Run s t :=
  Relation.ReflTransGen.mono (fun _ _ ⟨a, ha⟩ => ⟨a, ha.2⟩) _ _ h

/-- A restricted run is a run of the whole system. -/
theorem restrict_reachable {C : σ → ε → Prop} {t : σ} (h : (S.restrict C).Reachable t) :
    S.Reachable t := by
  obtain ⟨s, hs, hrun⟩ := h
  exact ⟨s, hs, restrict_run hrun⟩

/-- And one with fewer restrictions. -/
theorem restrict_mono {C D : σ → ε → Prop} (hCD : ∀ s a, C s a → D s a) {t : σ}
    (h : (S.restrict C).Reachable t) : (S.restrict D).Reachable t := by
  obtain ⟨s, hs, hrun⟩ := h
  exact ⟨s, hs, Relation.ReflTransGen.mono (fun _ _ ⟨a, hC, ha⟩ => ⟨a, hCD _ a hC, ha⟩) _ _ hrun⟩

/-- A restriction that forbids nothing. -/
theorem restrict_free {C : σ → ε → Prop} (hC : ∀ s a, C s a) {t : σ} (h : S.Reachable t) :
    (S.restrict C).Reachable t := by
  obtain ⟨s, hs, hrun⟩ := h
  exact ⟨s, hs, Relation.ReflTransGen.mono (fun _ _ ⟨a, ha⟩ => ⟨a, hC _ a, ha⟩) _ _ hrun⟩

/-- `abs` maps `S` into `T`: initial states to initial states, and each step from
a reachable state to a run (to no step at all, when `T` does not see it). -/
structure Simulation (S : System σ ε) (T : System τ δ) (abs : σ → τ) : Prop where
  init : ∀ s, S.init s → T.init (abs s)
  step : ∀ s a t, S.Reachable s → T.Reachable (abs s) → S.step s a t → T.Run (abs s) (abs t)

/-- Forward simulation: a reachable state of `S` maps to a reachable state of `T`. -/
theorem Simulation.reachable {T : System τ δ} {abs : σ → τ} (sim : Simulation S T abs)
    {t : σ} (ht : S.Reachable t) : T.Reachable (abs t) := by
  refine ht.invariant (P := fun s => T.Reachable (abs s)) ?_ ?_
  · intro s hs
    exact .of_init (sim.init s hs)
  · intro s a t hs habs hst
    exact habs.run (sim.step s a t hs habs hst)

/-- In a run of `S` that comes to a state that has `begun`, a run of `T` begins too, and goes
along with it from there, as `R` tells. -/
structure Following (S : System σ ε) (T : System τ δ) (begun : σ → Prop) (R : σ → τ → Prop) :
    Prop where
  init : ∀ s, S.init s → begun s → ∃ u, T.Reachable u ∧ R s u
  begins : ∀ s a t, S.Reachable s → ¬ begun s → S.step s a t → begun t →
    ∃ u, T.Reachable u ∧ R t u
  step : ∀ s a t u, S.Reachable s → T.Reachable u → begun s → R s u → S.step s a t → begun t →
    ∃ v, T.Run u v ∧ R t v

/-- A relation that follows: a reachable state that has begun is related to a reachable state. -/
theorem Following.reachable {T : System τ δ} {begun : σ → Prop} {R : σ → τ → Prop}
    (h : Following S T begun R) {t : σ} (ht : S.Reachable t) (hbegun : begun t) :
    ∃ u, T.Reachable u ∧ R t u := by
  revert hbegun
  refine ht.invariant (P := fun s => begun s → ∃ u, T.Reachable u ∧ R s u) h.init ?_
  intro s a t hs hfollows hstep hbegun
  by_cases hwas : begun s
  · obtain ⟨u, hu, hR⟩ := hfollows hwas
    obtain ⟨v, hrun, hR'⟩ := h.step s a t u hs hu hwas hR hstep hbegun
    exact ⟨v, hu.run hrun, hR'⟩
  · exact h.begins s a t hs hwas hstep hbegun

/-! ## Records

Some statements are about what went before and is not in the state any more. The system is then
run together with a record that its steps write and none of them reads. The record changes
nothing about what can be reached, so what is proved with it can be said of the system itself. -/

variable {γ : Type*}

/-- `S` with a record its steps write and do not read. -/
def recording (S : System σ ε) (record : σ → ε → γ → γ) (start : γ) : System (σ × γ) ε where
  init s := S.init s.1 ∧ s.2 = start
  step s a t := S.step s.1 a t.1 ∧ t.2 = record s.1 a s.2

variable {record : σ → ε → γ → γ} {start : γ}

/-- The record is left out again: a state reached with it is reached without it. -/
theorem recording_reachable {s : σ × γ} (h : (S.recording record start).Reachable s) :
    S.Reachable s.1 := by
  refine h.invariant (P := fun s => S.Reachable s.1) ?_ ?_
  · intro s hs
    exact .of_init hs.1
  · intro s a t _ hs hstep
    exact hs.step hstep.1

end System

end SynapseMcp.Transition
