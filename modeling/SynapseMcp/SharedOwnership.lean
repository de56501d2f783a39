/-
A table whose entries leave when their last owner lets go.

Nothing in this file names the SDK. A ledger has a table of keys, and for every key
how many references to it are held and how many of its retirements are under way:
a retirement begins when the last reference is dropped and ends by erasing the key
from the table. The two are separate because the one who drops the last reference
has to take a lock before the table can be changed, and others run in between.

`Balanced` is what such a table is for: a key is listed exactly while a reference
to it is held or its retirement is under way, once, and never both. Every move of
the ledger keeps it (`Balanced.move`). The counts are functions, so a program whose
references lie in many places states each move pointwise.
-/
import Mathlib.Data.List.Basic
import Mathlib.Data.List.Nodup

set_option autoImplicit false

namespace SynapseMcp.SharedOwnership

variable {κ : Type*} [DecidableEq κ]

/-! ## Ledgers

Dropping the last reference and taking the entry out of the table are two steps, with a lock
taken in between, and it is in between that things can go wrong: the key could be taken up
again, or its entry be erased twice. The ledger counts both sides, and the moves are all there
is: a key is listed with its first reference, references are copied and dropped, the last one to
be dropped begins a retirement, and the retirement erases. That a key is never taken up again
while it is being retired is the side condition of the first move, and it is for the program to
show. -/

/-- The table, and for each key how many references are held and how many retirements are under
way. -/
structure Ledger (κ : Type*) where
  table : List κ
  held : κ → ℕ
  retiring : κ → ℕ

/-- One at `k`, nothing elsewhere. -/
def one (k j : κ) : ℕ := if j = k then 1 else 0

@[simp] theorem one_self (k : κ) : one k k = 1 := if_pos rfl

/-- The counts of a move change at one key only. -/
theorem one_of_ne {k j : κ} (h : j ≠ k) : one k j = 0 := if_neg h

/-- And by one. -/
theorem one_le (k j : κ) : one k j ≤ 1 := by
  unfold one
  split <;> omega

/-- What can happen to a ledger in one atomic step. -/
inductive Move (L L' : Ledger κ) : Prop
  /-- References change hands. -/
  | pass (table : L'.table = L.table) (held : ∀ j, L'.held j = L.held j)
      (retiring : ∀ j, L'.retiring j = L.retiring j)
  /-- A new key is listed, with its first reference. -/
  | enter (k : κ) (is_fresh : k ∉ L.table) (table : L'.table = L.table ++ [k])
      (held : ∀ j, L'.held j = L.held j + one k j)
      (retiring : ∀ j, L'.retiring j = L.retiring j)
  /-- A reference is copied. -/
  | share (k : κ) (has : 0 < L.held k) (table : L'.table = L.table)
      (held : ∀ j, L'.held j = L.held j + one k j)
      (retiring : ∀ j, L'.retiring j = L.retiring j)
  /-- A reference is dropped while another one is held. -/
  | release (k : κ) (others : 0 < L'.held k) (table : L'.table = L.table)
      (held : ∀ j, L.held j = L'.held j + one k j)
      (retiring : ∀ j, L'.retiring j = L.retiring j)
  /-- The last reference is dropped. -/
  | retire (k : κ) (last : L'.held k = 0) (table : L'.table = L.table)
      (held : ∀ j, L.held j = L'.held j + one k j)
      (retiring : ∀ j, L'.retiring j = L.retiring j + one k j)
  /-- The retirement ends. -/
  | erase (k : κ) (table : L'.table = L.table.filter (· ≠ k))
      (held : ∀ j, L'.held j = L.held j)
      (retiring : ∀ j, L.retiring j = L'.retiring j + one k j)

/-- What the table is for: a key is listed exactly while somebody holds it or is about to erase
it, it is listed once and erased once, and nobody holds what is being erased. -/
structure Balanced (L : Ledger κ) : Prop where
  nodup : L.table.Nodup
  mem_iff : ∀ k, k ∈ L.table ↔ 0 < L.held k + L.retiring k
  retires_once : ∀ k, L.retiring k ≤ 1
  unheld : ∀ k, 0 < L.retiring k → L.held k = 0

omit [DecidableEq κ] in
/-- A ledger with nothing in it is balanced; this is where a program starts. -/
theorem Balanced.empty {L : Ledger κ} (htable : L.table = []) (hheld : ∀ k, L.held k = 0)
    (hretiring : ∀ k, L.retiring k = 0) : Balanced L where
  nodup := by simp [htable]
  mem_iff := fun k => by simp [htable, hheld k, hretiring k]
  retires_once := fun k => by simp [hretiring k]
  unheld := fun k _ => hheld k

/-- Every move keeps the ledger balanced. The cases are the moves, and each is a case
distinction on whether a key is the one that moves: the others have the counts they had, and for
that one the counts are added up. -/
theorem Balanced.move {L L' : Ledger κ} (h : Balanced L) (m : Move L L') : Balanced L' := by
  cases m with
  | pass table held retiring =>
      refine ⟨table ▸ h.nodup, ?_, ?_, ?_⟩
      · intro k
        rw [table, held, retiring]
        exact h.mem_iff k
      · intro k
        rw [retiring]
        exact h.retires_once k
      · intro k hk
        rw [retiring] at hk
        rw [held]
        exact h.unheld k hk
  | enter k is_fresh table held retiring =>
      -- a key outside the table has no holder and is not retiring
      have hnone : L.held k + L.retiring k = 0 := by
        have := mt (h.mem_iff k).mpr is_fresh
        omega
      refine ⟨?_, ?_, ?_, ?_⟩
      · rw [table, List.nodup_append]
        refine ⟨h.nodup, List.nodup_singleton k, ?_⟩
        intro a ha b hb
        rw [List.mem_singleton.mp hb]
        rintro rfl
        exact is_fresh ha
      · intro j
        rw [table, held, retiring, List.mem_append, List.mem_singleton, h.mem_iff j]
        by_cases hj : j = k
        · subst hj
          rw [one_self]
          simp only [or_true, true_iff]
          omega
        · rw [one_of_ne hj]
          simp [hj]
      · intro j
        rw [retiring]
        exact h.retires_once j
      · intro j hj
        rw [retiring] at hj
        have hjk : j ≠ k := by
          rintro rfl
          omega
        rw [held, one_of_ne hjk, h.unheld j hj]
  -- another holder of a key that is in the table: only its count changes
  | share k has table held retiring =>
      refine ⟨table ▸ h.nodup, ?_, ?_, ?_⟩
      · intro j
        rw [table, held, retiring, h.mem_iff j]
        by_cases hj : j = k
        · subst hj
          omega
        · rw [one_of_ne hj]
          omega
      · intro j
        rw [retiring]
        exact h.retires_once j
      · intro j hj
        rw [retiring] at hj
        have hnone := h.unheld j hj
        have hjk : j ≠ k := by
          rintro rfl
          omega
        rw [held, one_of_ne hjk, hnone]
  -- a holder goes and one is left, so the key stays held
  | release k others table held retiring =>
      refine ⟨table ▸ h.nodup, ?_, ?_, ?_⟩
      · intro j
        rw [table, retiring, h.mem_iff j, held]
        by_cases hj : j = k
        · subst hj
          omega
        · rw [one_of_ne hj]
          omega
      · intro j
        rw [retiring]
        exact h.retires_once j
      · intro j hj
        rw [retiring] at hj
        have hnone := h.unheld j hj
        rw [held] at hnone
        omega
  -- the last holder goes: the key is retiring from here on, once
  | retire k last table held retiring =>
      have hk := held k
      rw [last, one_self] at hk
      -- it was held, so it was not retiring already
      have hfree : L.retiring k = 0 := by
        by_contra hne
        have := h.unheld k (by omega)
        omega
      refine ⟨table ▸ h.nodup, ?_, ?_, ?_⟩
      · intro j
        rw [table, retiring, h.mem_iff j, held]
        omega
      · intro j
        rw [retiring]
        by_cases hj : j = k
        · subst hj
          have hself := one_self j
          omega
        · rw [one_of_ne hj]
          exact h.retires_once j
      · intro j hj
        rw [retiring] at hj
        by_cases hjk : j = k
        · rw [hjk]
          exact last
        · rw [one_of_ne hjk] at hj
          have hnone := h.unheld j hj
          rw [held] at hnone
          omega
  -- the key leaves the table with the retirement that is under way
  | erase k table held retiring =>
      refine ⟨?_, ?_, ?_, ?_⟩
      · rw [table]
        exact h.nodup.filter _
      · intro j
        have honce := h.retires_once j
        have hfree := h.unheld j
        rw [table, held, List.mem_filter, h.mem_iff j, retiring]
        rw [retiring] at honce hfree
        by_cases hj : j = k
        · subst hj
          rw [one_self] at honce hfree ⊢
          have := hfree (by omega)
          simp
          omega
        · rw [one_of_ne hj]
          simp [hj]
      · intro j
        have honce := h.retires_once j
        rw [retiring] at honce
        omega
      · intro j hj
        rw [held]
        exact h.unheld j (by rw [retiring]; omega)

end SynapseMcp.SharedOwnership
