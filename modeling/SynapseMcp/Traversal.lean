/-
Traversals that mark what they have seen.

A traversal hands a state on that only grows. It marks a node before it goes into it and
comes back when the node is settled: everything the node asks for is in the state. In
between, the nodes it is inside of are marked and not settled, so being closed is no
invariant of the state. What every piece of a traversal does keep is `Covers`: what it
marks, it settles.
-/
import Mathlib.Order.Basic
import Mathlib.Data.List.Nodup
import Mathlib.Logic.Relation

set_option autoImplicit false

namespace SynapseMcp.Traversal

variable {σ ν α ε : Type}

/-! ## Marks and what they stand for

The state is any preorder: it is the caller's, and all that is known of it is that it grows and
that a settled node stays settled. `Covers` composes (`Covers.trans`), so it is proved of a
traversal from its steps, and the outermost call, which starts with nothing marked, has it that
every mark is on a settled node (`Covers.closed`). -/

/-- States in the order they grow, and what is said of a node in a state. -/
structure Marking (σ ν : Type) [Preorder σ] where
  marked : σ → ν → Prop
  settled : σ → ν → Prop
  settled_mono {s t : σ} {n : ν} : s ≤ t → settled s n → settled t n

section Covers

variable [Preorder σ] {M : Marking σ ν} {s t u : σ} {n : ν}

/-- From `s` to `t` the state grew, and the new marks are on settled nodes. -/
structure Covers (M : Marking σ ν) (s t : σ) : Prop where
  grows : s ≤ t
  settles : ∀ n, M.marked t n → M.marked s n ∨ M.settled t n

/-- Nothing done. -/
theorem Covers.refl (M : Marking σ ν) (s : σ) : Covers M s s := ⟨le_rfl, fun _ h => .inl h⟩

/-- One piece after another. What the first one settled is settled still. -/
theorem Covers.trans (h : Covers M s t) (h' : Covers M t u) : Covers M s u := by
  refine ⟨h.grows.trans h'.grows, fun n hn => ?_⟩
  rcases h'.settles n hn with hmarked | hsettled
  · rcases h.settles n hmarked with hmarked | hsettled
    · exact .inl hmarked
    · exact .inr (M.settled_mono h'.grows hsettled)
  · exact .inr hsettled

/-- A step that marks nothing. -/
theorem Covers.of_grows (h : s ≤ t) (hmarked : ∀ n, M.marked t n → M.marked s n) : Covers M s t :=
  ⟨h, fun n hn => .inl (hmarked n hn)⟩

/-- A node is marked, its inside is covered, and then it is settled. -/
theorem Covers.visit (hgrows : s ≤ t) (hmarked : ∀ m, M.marked t m → M.marked s m ∨ m = n)
    (hinside : Covers M t u) (hsettled : M.settled u n) : Covers M s u := by
  refine ⟨hgrows.trans hinside.grows, fun m hm => ?_⟩
  rcases hinside.settles m hm with hmt | hdone
  · rcases hmarked m hmt with hms | rfl
    · exact .inl hms
    · exact .inr hsettled
  · exact .inr hdone

/-- Where nothing was marked, everything is settled in the end: the marks there are were all
made on the way. -/
theorem Covers.closed (h : Covers M s t) (hfresh : ∀ n, ¬M.marked s n) :
    ∀ n, M.marked t n → M.settled t n :=
  fun n hn => (h.settles n hn).resolve_left (hfresh n)

end Covers

/-! ## Loops

A loop over a list is a fold that stops at the first error. The rules take an invariant `I` that
speaks of the elements still to come, so that a bound on what is left can be among the things it
says. -/

section Loop

variable {f : σ → α → Except ε σ}

/-- What a loop has left to do goes down as it runs. -/
theorem foldlM_rest {I : List α → σ → Prop}
    (hbody : ∀ a l s t, I (a :: l) s → f s a = .ok t → I l t) {l : List α} {s t : σ} (hs : I l s)
    (h : l.foldlM f s = .ok t) : I [] t := by
  induction l generalizing s with
  | nil =>
      have heq : s = t := by simpa [pure, Except.pure] using h
      exact heq ▸ hs
  | cons a l ih =>
      rw [List.foldlM_cons] at h
      cases hfirst : f s a with
      | error e => simp [hfirst, bind, Except.bind] at h
      | ok u =>
          rw [hfirst] at h
          exact ih (hbody a l s u hs hfirst) h

/-- A loop does not fail with an error its body does not fail with. -/
theorem foldlM_ne_error {e : ε} {I : List α → σ → Prop}
    (hbody : ∀ a l s, I (a :: l) s → f s a ≠ .error e ∧ ∀ t, f s a = .ok t → I l t) {l : List α}
    {s : σ} (hs : I l s) : l.foldlM f s ≠ .error e := by
  induction l generalizing s with
  | nil => simp [pure, Except.pure]
  | cons a l ih =>
      obtain ⟨hne, hnext⟩ := hbody a l s hs
      rw [List.foldlM_cons]
      cases hfirst : f s a with
      | error e' =>
          rw [hfirst] at hne
          exact hne
      | ok u => exact ih (hnext u hfirst)

/-- A loop whose body covers and keeps `P` covers and keeps `P`; what the body establishes of
an element, and growth preserves, holds of all of them. -/
theorem Covers.foldlM [Preorder σ] {M : Marking σ ν} {P : σ → Prop} {Q : α → σ → Prop}
    {l : List α} {s t : σ}
    (hmono : ∀ a s t, s ≤ t → Q a s → Q a t)
    (hbody : ∀ a ∈ l, ∀ s t, P s → f s a = .ok t → Covers M s t ∧ P t ∧ Q a t)
    (hs : P s) (h : l.foldlM f s = .ok t) : Covers M s t ∧ P t ∧ ∀ a ∈ l, Q a t := by
  induction l generalizing s with
  | nil =>
      have heq : s = t := by simpa [pure, Except.pure] using h
      subst heq
      exact ⟨.refl M s, hs, by simp⟩
  | cons a l ih =>
      rw [List.foldlM_cons] at h
      cases hfirst : f s a with
      | error e => simp [hfirst, bind, Except.bind] at h
      | ok u =>
          rw [hfirst] at h
          obtain ⟨hcovers, hu, hq⟩ := hbody a List.mem_cons_self s u hs hfirst
          obtain ⟨hrest, ht, hall⟩ :=
            ih (fun b hb => hbody b (List.mem_cons_of_mem _ hb)) hu h
          refine ⟨hcovers.trans hrest, ht, ?_⟩
          rw [List.forall_mem_cons]
          exact ⟨hmono a u t hrest.grows hq, hall⟩

end Loop

/-! ## Logs

What a computation comes to is listed as it goes, so that one that fails has a list too:
the list of what it came to before it failed.

A list is kept beside each computation rather than in its state, so that the computation itself
is the one of the program. `onward` joins two lists the way `>>=` joins the calls, and each
property below has one rule for each way to build a computation: return, fail, one call after
another, a loop. Three properties of lists are followed in this way.

`Once`: no entry is made twice, because what was entered is seen from then on.

`Reports`: the call fails with a certain error exactly where its list has an entry.

`Mirrors`: two computations go the same way as long as every entry of the list is of a certain
kind. -/

section Logs

/-- The list goes on where the call returned. -/
def onward (x : Except ε α) (log : α → List ν) : List ν :=
  match x with
  | .ok a => log a
  | .error _ => []

/-- The list of a loop: that of the first element, then that of the rest if the first returned.
-/
def foldlM_log (f : σ → α → Except ε σ) (log : σ → α → List ν) : List α → σ → List ν
  | [], _ => []
  | a :: l, s => log s a ++ onward (f s a) (foldlM_log f log l)

variable {β γ : Type}

/-- Every entry of the list was unseen before the call and is made once, and a call that
returns has seen the list and nothing else. `I` is what the states keep. -/
structure Once (seen : σ → ν → Prop) (I : σ → Prop) (state : β → σ) (s : σ) (log : List ν)
    (x : Except ε β) : Prop where
  nodup : log.Nodup
  fresh : ∀ n ∈ log, ¬seen s n
  returned : ∀ b, x = .ok b → I (state b) ∧ ∀ n, seen (state b) n ↔ seen s n ∨ n ∈ log

variable {seen : σ → ν → Prop} {I : σ → Prop} {state : β → σ} {state' : γ → σ} {s t : σ} {n : ν}
  {log : List ν} {x : Except ε β}

/-- A call that fails at once makes no entry. -/
theorem Once.error (e : ε) : Once seen I state s [] (.error e) :=
  ⟨List.nodup_nil, by simp, nofun⟩

/-- A call that returns a state in which the same has been seen. -/
theorem Once.ok {b : β} (hI : I (state b)) (hseen : ∀ n, seen (state b) n ↔ seen s n) :
    Once (ε := ε) seen I state s [] (.ok b) := by
  refine ⟨List.nodup_nil, by simp, ?_⟩
  rintro b' ⟨⟩
  exact ⟨hI, fun n => by simpa using hseen n⟩

/-- An entry is made, and the call fails. -/
theorem Once.fails (e : ε) (hnew : ¬seen s n) : Once seen I state s [n] (.error e) :=
  ⟨List.nodup_singleton n, by simpa using hnew, nofun⟩

/-- An entry is made, and the call goes on from where it is seen. -/
theorem Once.enter (hnew : ¬seen s n) (hseen : ∀ m, seen t m ↔ seen s m ∨ m = n)
    (h : Once seen I state t log x) : Once seen I state s (n :: log) x := by
  have hn : seen t n := (hseen n).mpr (.inr rfl)
  refine ⟨List.nodup_cons.mpr ⟨fun hmem => h.fresh n hmem hn, h.nodup⟩, ?_, fun b hb => ?_⟩
  -- an entry of the rest was unseen after `n` was seen, so before that too
  · intro m hm hs
    rcases List.mem_cons.mp hm with rfl | hlog
    · exact hnew hs
    · exact h.fresh m hlog ((hseen m).mpr (.inl hs))
  · obtain ⟨hI, hall⟩ := h.returned b hb
    refine ⟨hI, fun m => ?_⟩
    rw [hall m, hseen m, List.mem_cons, or_assoc]

/-- Two states in which the same has been seen are as good as each other to start from. -/
theorem Once.of_same (hseen : ∀ m, seen t m ↔ seen s m) (h : Once seen I state t log x) :
    Once seen I state s log x := by
  refine ⟨h.nodup, fun m hm hs => h.fresh m hm ((hseen m).mpr hs), fun b hb => ?_⟩
  obtain ⟨hI, hall⟩ := h.returned b hb
  exact ⟨hI, fun m => (hall m).trans (or_congr_left (hseen m))⟩

/-- The second call makes no entry the first made: it starts from where that one is seen. -/
theorem Once.bind {f : β → Except ε γ} {rest : β → List ν} (hx : Once seen I state s log x)
    (hf : ∀ b, x = .ok b → I (state b) → Once seen I state' (state b) (rest b) (f b)) :
    Once seen I state' s (log ++ onward x rest) (x >>= f) := by
  cases x with
  | error e =>
      refine ⟨?_, ?_, nofun⟩
      · rw [onward, List.append_nil]
        exact hx.nodup
      · rw [onward, List.append_nil]
        exact hx.fresh
  | ok b =>
      obtain ⟨hI, hall⟩ := hx.returned b rfl
      have hnext := hf b rfl hI
      refine ⟨?_, ?_, fun c hc => ?_⟩
      · apply List.nodup_append'.mpr
        refine ⟨hx.nodup, hnext.nodup, fun m hm hm' => ?_⟩
        exact hnext.fresh m hm' ((hall m).mpr (.inr hm))
      · intro m hm hs
        rcases List.mem_append.mp hm with hlog | hrest
        · exact hx.fresh m hlog hs
        · exact hnext.fresh m hrest ((hall m).mpr (.inl hs))
      · obtain ⟨hI', hall'⟩ := hnext.returned c hc
        refine ⟨hI', fun m => ?_⟩
        rw [hall' m, hall m, List.mem_append, or_assoc]
        rfl

/-- A call that makes no entry, before one that does. -/
theorem Once.before {f : β → Except ε γ} {rest : β → List ν} (hx : Once seen I state s [] x)
    (hf : ∀ b, x = .ok b → I (state b) → Once seen I state' (state b) (rest b) (f b)) :
    Once seen I state' s (onward x rest) (x >>= f) :=
  hx.bind hf

/-- A call that makes no entry, after one that does. -/
theorem Once.after {f : β → Except ε γ} (hx : Once seen I state s log x)
    (hf : ∀ b, x = .ok b → I (state b) → Once seen I state' (state b) [] (f b)) :
    Once seen I state' s log (x >>= f) := by
  have hboth := hx.bind hf
  cases x with
  | error e => simpa [onward] using hboth
  | ok b => simpa [onward] using hboth

/-- A value is worked out that the state has no part in. -/
theorem Once.value {f : α → Except ε β} {rest : α → List ν} {y : Except ε α}
    (hf : ∀ a, y = .ok a → Once seen I state s (rest a) (f a)) :
    Once seen I state s (onward y rest) (y >>= f) := by
  cases y with
  | error e => exact .error e
  | ok a => exact hf a rfl

/-- A loop whose body makes each entry once makes each once: the next element starts where those
before it are seen. -/
theorem Once.foldlM {f : σ → α → Except ε σ} {entries : σ → α → List ν}
    (hf : ∀ a s, I s → Once seen I id s (entries s a) (f s a)) (l : List α) (hs : I s) :
    Once seen I id s (foldlM_log f entries l s) (l.foldlM f s) := by
  induction l generalizing s with
  | nil => exact .ok hs fun _ => Iff.rfl
  | cons a l ih =>
      rw [foldlM_log, List.foldlM_cons]
      exact (hf a s hs).bind fun t _ ht => ih ht

/-- A call raises `e` exactly where its list has an entry, and `Q` holds of the entries. -/
structure Reports (e : ε) (Q : ν → Prop) (log : List ν) (x : Except ε β) : Prop where
  raised : x = .error e ↔ log ≠ []
  entries : ∀ n ∈ log, Q n

variable {e : ε} {Q : ν → Prop}

/-- A call that does not raise `e` reports nothing. -/
theorem Reports.silent (hx : x ≠ .error e) : Reports e Q [] x :=
  ⟨⟨fun h => absurd h hx, fun h => absurd rfl h⟩, nofun⟩

/-- Neither does one that returns. -/
theorem Reports.ok {b : β} : Reports e Q [] (.ok b : Except ε β) :=
  .silent (by simp)

/-- An entry is made and `e` raised. -/
theorem Reports.one (hn : Q n) : Reports (β := β) e Q [n] (.error e) :=
  ⟨⟨fun _ => List.cons_ne_nil n [], fun _ => rfl⟩, by simpa using hn⟩

/-- One call after another. If the first raised `e` the list is its own; if it returned, it had
nothing to report, and the list is that of the second. -/
theorem Reports.bind {f : β → Except ε γ} {rest : β → List ν} (hx : Reports e Q log x)
    (hf : ∀ b, x = .ok b → Reports e Q (rest b) (f b)) :
    Reports e Q (log ++ onward x rest) (x >>= f) := by
  cases x with
  | error e' =>
      rw [onward, List.append_nil]
      refine ⟨Iff.trans ?_ hx.raised, hx.entries⟩
      exact ⟨fun h => congrArg Except.error (Except.error.inj h),
        fun h => congrArg Except.error (Except.error.inj h)⟩
  | ok b =>
      have hnil : log = [] := by
        by_contra hne
        cases hx.raised.mpr hne
      rw [hnil, List.nil_append]
      exact hf b rfl

/-- A call that does not raise `e`, before one that may. -/
theorem Reports.value {f : α → Except ε β} {rest : α → List ν} {y : Except ε α}
    (hy : y ≠ .error e) (hf : ∀ a, y = .ok a → Reports e Q (rest a) (f a)) :
    Reports e Q (onward y rest) (y >>= f) :=
  (Reports.silent hy).bind hf

/-- A call that does not raise `e`, after one that may. -/
theorem Reports.after {f : β → Except ε γ} (hx : Reports e Q log x)
    (hf : ∀ b, x = .ok b → f b ≠ .error e) : Reports e Q log (x >>= f) := by
  have hboth := hx.bind fun b hb => Reports.silent (hf b hb)
  cases x with
  | error e' => simpa [onward] using hboth
  | ok b => simpa [onward] using hboth

/-- A loop whose body reports reports. What it has left to do goes down as it runs, and `I` may
say so. -/
theorem Reports.foldlM {f : σ → α → Except ε σ} {entries : σ → α → List ν}
    {I : List α → σ → Prop}
    (hf : ∀ a l s, I (a :: l) s →
      Reports e Q (entries s a) (f s a) ∧ ∀ t, f s a = .ok t → I l t) {l : List α} (hs : I l s) :
    Reports e Q (foldlM_log f entries l s) (l.foldlM f s) := by
  induction l generalizing s with
  | nil => exact .silent nofun
  | cons a l ih =>
      obtain ⟨hreports, hnext⟩ := hf a l s hs
      rw [foldlM_log, List.foldlM_cons]
      exact hreports.bind fun t ht => ih (hnext t ht)

/-- `x` goes as `y` does, its result being the image of the other; or both fail, in a way that
`lost` allows. -/
def Shadows (lost : ε → ε → Prop) (f : β → γ) (x : Except ε γ) (y : Except ε β) : Prop :=
  x = y.map f ∨ ∃ e₁ e₂, x = .error e₁ ∧ y = .error e₂ ∧ lost e₁ e₂

/-- Where `P` holds of the entries of `x`, it goes as `y` does, and `J` holds of what that
returns. -/
def Mirrors (lost : ε → ε → Prop) (P : ν → Prop) (f : β → γ) (J : β → Prop) (log : List ν)
    (x : Except ε γ) (y : Except ε β) : Prop :=
  (∀ n ∈ log, P n) → Shadows lost f x y ∧ ∀ b, y = .ok b → J b

variable {lost : ε → ε → Prop} {P : ν → Prop} {f : β → γ} {J : β → Prop}

/-- The first is the image of the second, with no condition on the list. -/
theorem Mirrors.same {x : Except ε γ} {y : Except ε β} (h : x = y.map f)
    (hJ : ∀ b, y = .ok b → J b) : Mirrors lost P f J log x y :=
  fun _ => ⟨.inl h, hJ⟩

/-- Both raise the same error. -/
theorem Mirrors.raised {e : ε} : Mirrors lost P f J log (.error e) (.error e) :=
  .same rfl (by simp)

variable {β' γ' : Type} {g : β' → γ'} {J' : β' → Prop}

/-- Both go through one call and then another. The second ones are compared where the first
returned; where the first failed, both have failed. -/
theorem Mirrors.bind {x : Except ε γ} {y : Except ε β} {k : γ → Except ε γ'}
    {k' : β → Except ε β'} {rest : γ → List ν} (hx : Mirrors lost P f J log x y)
    (hk : ∀ b, y = .ok b → J b → Mirrors lost P g J' (rest (f b)) (k (f b)) (k' b)) :
    Mirrors lost P g J' (log ++ onward x rest) (x >>= k) (y >>= k') := by
  intro hlog
  rw [List.forall_mem_append] at hlog
  obtain ⟨hsame | ⟨e₁, e₂, rfl, rfl, hlost⟩, hJ⟩ := hx hlog.1
  · subst hsame
    cases y with
    | error e => exact ⟨.inl rfl, nofun⟩
    | ok b => exact hk b rfl (hJ b rfl) hlog.2
  · exact ⟨.inr ⟨e₁, e₂, rfl, rfl, hlost⟩, nofun⟩

/-- What is known of the result may be weakened. -/
theorem Mirrors.imp {x : Except ε γ} {y : Except ε β} {I : β → Prop}
    (h : Mirrors lost P f I log x y) (himp : ∀ b, I b → J b) : Mirrors lost P f J log x y := by
  intro hlog
  obtain ⟨hshadows, hI⟩ := h hlog
  exact ⟨hshadows, fun b hb => himp b (hI b hb)⟩

/-- Both go through a call without entries first. -/
theorem Mirrors.before {x : Except ε γ} {y : Except ε β} {k : γ → Except ε γ'}
    {k' : β → Except ε β'} {rest : γ → List ν} (hx : x = y.map f)
    (hk : ∀ b, y = .ok b → Mirrors lost P g J' (rest (f b)) (k (f b)) (k' b)) :
    Mirrors lost P g J' (onward x rest) (x >>= k) (y >>= k') := by
  have hsame : Mirrors lost P f (fun b => y = .ok b) [] x y := .same hx fun _ hb => hb
  exact hsame.bind fun b _ hb => hk b hb

/-- Both work out one value first. -/
theorem Mirrors.value {y : Except ε α} {k : α → Except ε γ'} {k' : α → Except ε β'}
    {rest : α → List ν} (hk : ∀ a, y = .ok a → Mirrors lost P g J' (rest a) (k a) (k' a)) :
    Mirrors lost P g J' (onward y rest) (y >>= k) (y >>= k') := by
  cases y with
  | error e => exact .same rfl nofun
  | ok a => exact hk a rfl

/-- Both go through a call without entries last, which therefore has nothing to ask of the list;
it need only go the same way from what the first returned. -/
theorem Mirrors.after {x : Except ε γ} {y : Except ε β} {k : γ → Except ε γ'}
    {k' : β → Except ε β'} (hx : Mirrors lost P f J log x y)
    (hk : ∀ b, y = .ok b → J b → k (f b) = (k' b).map g ∧ ∀ c, k' b = .ok c → J' c) :
    Mirrors lost P g J' log (x >>= k) (y >>= k') := by
  intro hlog
  have hboth : Mirrors lost P g J' (log ++ onward x fun _ => []) (x >>= k) (y >>= k') :=
    hx.bind fun b hb hJ => .same (hk b hb hJ).1 (hk b hb hJ).2
  apply hboth
  rw [List.forall_mem_append]
  refine ⟨hlog, ?_⟩
  cases x <;> exact nofun

/-- Two loops over one list, whose bodies go the same way. -/
theorem Mirrors.foldlM {f : σ → σ} {F G : σ → α → Except ε σ} {entries : σ → α → List ν}
    {I : List α → σ → Prop}
    (hstep : ∀ a l s, I (a :: l) s →
      Mirrors lost P f (I l) (entries (f s) a) (F (f s) a) (G s a)) {l : List α} (hs : I l s) :
    Mirrors lost P f (I []) (foldlM_log F entries l (f s)) (l.foldlM F (f s)) (l.foldlM G s) := by
  induction l generalizing s with
  | nil =>
      refine .same rfl ?_
      rintro t ⟨⟩
      exact hs
  | cons a l ih =>
      rw [foldlM_log, List.foldlM_cons, List.foldlM_cons]
      exact (hstep a l s hs).bind fun t _ ht => ih ht

end Logs

/-! ## Chains

Each node has at most one next.

A chain is followed by a loop or a recursion that ends exactly where the chain does. `Ends` is
the induction that such a function is defined along, and a chain that ends goes through no node
twice. -/

section Chains

open Relation

variable {next : ν → Option ν} {n m : ν}

/-- Going on comes to an end. -/
inductive Ends (next : ν → Option ν) : ν → Prop
  | stop {n : ν} : next n = none → Ends next n
  | step {n m : ν} : next n = some m → Ends next m → Ends next n

/-- Going on comes back to a node it went through. -/
def Returns (next : ν → Option ν) (n : ν) : Prop :=
  ∃ m, ReflTransGen (fun a b => next a = some b) n m ∧ TransGen (fun a b => next a = some b) m m

/-- A chain that ends, from its second node on. -/
theorem Ends.of_next (h : Ends next n) (hm : next n = some m) : Ends next m := by
  cases h with
  | stop hnone =>
      rw [hnone] at hm
      cases hm
  | step hstep hends =>
      rw [hstep] at hm
      cases hm
      exact hends

/-- No node of a chain that ends comes back to itself. The induction is on the way to the end:
at the last node there is nothing to go on to, and a cycle through an earlier one is a cycle
through the next. -/
theorem Ends.not_cycle (h : Ends next n) : ¬TransGen (fun a b => next a = some b) n n := by
  induction h with
  | stop hnone =>
      intro hcycle
      obtain ⟨m, hm, -⟩ := TransGen.head'_iff.mp hcycle
      rw [hnone] at hm
      cases hm
  | step hstep _ ih =>
      intro hcycle
      -- the cycle can be entered one node later
      obtain ⟨m, hm, hrest⟩ := TransGen.head'_iff.mp hcycle
      rw [hstep] at hm
      cases hm
      exact ih (TransGen.tail' hrest hstep)

/-- A chain that ends, from any of its nodes on. -/
theorem Ends.of_reaches (h : Ends next n) (hm : ReflTransGen (fun a b => next a = some b) n m) :
    Ends next m := by
  induction hm with
  | refl => exact h
  | tail _ hstep ih => exact ih.of_next hstep

/-- So it comes back to none of them. -/
theorem Ends.not_returns (h : Ends next n) : ¬Returns next n := by
  rintro ⟨m, hreach, hcycle⟩
  exact (h.of_reaches hreach).not_cycle hcycle

end Chains

end SynapseMcp.Traversal
