/-
Maps as association lists in the order of their keys.

`emplace` puts a value in under a key the map does not have and leaves the map alone
when it does. A list that is `Ordered` has every key once, so that looking a key up
and being a member say the same.
-/
import Mathlib.Data.List.Pairwise
import Mathlib.Data.List.Perm.Basic
import Mathlib.Order.Lattice

set_option autoImplicit false

namespace SynapseMcp.OrderedMap

variable {κ α : Type}

/-! ## Lookup and membership

`List.lookup` takes the first entry under a key. Where the keys are different it is the only
one, and a statement about lookups becomes one about members, which is what `List.Perm` is good
for. -/

section Lookup

variable [BEq κ] [LawfulBEq κ]

/-- What is found is in the map. -/
theorem mem_of_lookup {m : List (κ × α)} {key : κ} {value : α} (h : m.lookup key = some value) :
    (key, value) ∈ m := by
  obtain ⟨l, l', rfl, -⟩ := List.lookup_eq_some_iff.mp h
  exact List.mem_append_right _ List.mem_cons_self

/-- Different keys, so the first entry under a key is the only one. -/
theorem lookup_of_mem {m : List (κ × α)} {key : κ} {value : α}
    (hkeys : m.Pairwise (fun e e' => e.1 ≠ e'.1)) (hmem : (key, value) ∈ m) :
    m.lookup key = some value := by
  induction m with
  | nil => cases hmem
  | cons entry rest ih =>
      obtain ⟨key', value'⟩ := entry
      rw [List.pairwise_cons] at hkeys
      rcases List.mem_cons.mp hmem with heq | hrest
      · cases heq
        rw [List.lookup_cons, beq_self_eq_true]
      · have hne : (key == key') = false := by
          rw [beq_eq_false_iff_ne]
          exact (hkeys.1 _ hrest).symm
        rw [List.lookup_cons, hne]
        exact ih hkeys.2 hrest

/-- Nothing is found only where no entry has the key. -/
theorem ne_of_lookup {m : List (κ × α)} {key : κ} (h : m.lookup key = none) :
    ∀ entry ∈ m, entry.1 ≠ key := by
  intro entry hentry heq
  have hne : key ≠ entry.1 := by simpa using List.lookup_eq_none_iff.mp h entry hentry
  exact hne heq.symm

end Lookup

/-! ## `emplace`

The map stays in the order of its keys, as a `std::map` does, so the entries come out in that
order whatever order they were put in. For the entries themselves it is enough to know that a
new one was added somewhere. -/

section Emplace

variable [LinearOrder κ]

/-- An entry is put in at its place, unless there is one under its key. -/
def emplace (key : κ) (value : α) : List (κ × α) → List (κ × α)
  | [] => [(key, value)]
  | entry :: rest =>
      if key < entry.1 then (key, value) :: entry :: rest
      else if entry.1 < key then entry :: emplace key value rest
      else entry :: rest

/-- The keys increase. -/
def Ordered (m : List (κ × α)) : Prop := m.Pairwise fun e e' => e.1 < e'.1

/-- Keys that increase are different. -/
theorem Ordered.keys_ne {m : List (κ × α)} (h : Ordered m) :
    m.Pairwise fun e e' => e.1 ≠ e'.1 := h.imp fun hlt => ne_of_lt hlt

/-- So no key comes twice. -/
theorem Ordered.nodup {m : List (κ × α)} (h : Ordered m) : (m.map (·.1)).Nodup := by
  rw [List.Nodup, List.pairwise_map]
  exact h.keys_ne

/-- A new key brings its entry in, and the other entries are those there were, up to the order.
-/
theorem emplace_perm {m : List (κ × α)} {key : κ} (value : α) (h : ∀ entry ∈ m, entry.1 ≠ key) :
    (emplace key value m).Perm ((key, value) :: m) := by
  induction m with
  | nil => exact .refl _
  | cons entry rest ih =>
      rw [List.forall_mem_cons] at h
      rw [emplace]
      by_cases hlt : key < entry.1
      · rw [if_pos hlt]
      · have hgt : entry.1 < key := lt_of_le_of_ne (not_lt.mp hlt) h.1
        rw [if_neg hlt, if_pos hgt]
        exact ((ih h.2).cons entry).trans (.swap _ _ _)

/-- Nothing comes in but the entry that was put, so a property of all entries is kept if the new
one has it. -/
theorem mem_emplace {m : List (κ × α)} {key : κ} {value : α} {entry : κ × α}
    (h : entry ∈ emplace key value m) : entry = (key, value) ∨ entry ∈ m := by
  induction m with
  | nil => exact .inl (List.mem_singleton.mp h)
  | cons first rest ih =>
      rw [emplace] at h
      split at h
      · exact List.mem_cons.mp h
      · split at h
        · rcases List.mem_cons.mp h with rfl | hrest
          · exact .inr List.mem_cons_self
          · rcases ih hrest with heq | hmem
            · exact .inl heq
            · exact .inr (List.mem_cons_of_mem _ hmem)
        · exact .inr h

/-- What `emplace` leaves is in order again. The induction follows the list to the place where
the key belongs. -/
theorem Ordered.emplace {m : List (κ × α)} (h : Ordered m) (key : κ) (value : α) :
    Ordered (emplace key value m) := by
  unfold Ordered at h ⊢
  induction m with
  | nil =>
      rw [OrderedMap.emplace]
      exact List.pairwise_singleton _ _
  | cons entry rest ih =>
      have hcons := List.pairwise_cons.mp h
      rw [OrderedMap.emplace]
      by_cases hlt : key < entry.1
      · rw [if_pos hlt]
        refine List.pairwise_cons.mpr ⟨?_, h⟩
        intro entry' hmem
        rcases List.mem_cons.mp hmem with rfl | hrest
        · exact hlt
        · exact lt_trans hlt (hcons.1 entry' hrest)
      · rw [if_neg hlt]
        by_cases hgt : entry.1 < key
        · rw [if_pos hgt]
          refine List.pairwise_cons.mpr ⟨?_, ih hcons.2⟩
          intro entry' hmem
          -- below the new entry there is the rest of the map and what is put into it
          rcases mem_emplace hmem with rfl | hrest
          · exact hgt
          · exact hcons.1 entry' hrest
        · rw [if_neg hgt]
          exact h

end Emplace

end SynapseMcp.OrderedMap
