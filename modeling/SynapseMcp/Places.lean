/-
Lists whose entries are found by their place.

Nothing in this file names the SDK. A list that only grows at its end, and whose entries are
replaced in their place, is a table of calls, of objects or of answers: what is found at a place
afterwards was there before, or is the new entry. Of two such tables that go together, entry by
entry, the entries at one place do.
-/
import Mathlib.Data.List.Forall2

set_option autoImplicit false

namespace SynapseMcp.Places

variable {α : Type*} {l : List α} {x y : α} {i j : Nat}

/-- At a place of a list with one entry more there is what was there, or the new entry at its
end. -/
theorem of_concat (h : (l ++ [x])[i]? = some y) :
    l[i]? = some y ∨ i = l.length ∧ y = x := by
  by_cases hlt : i < l.length
  · rw [List.getElem?_append_left hlt] at h
    exact .inl h
  · have hbound := (List.getElem?_eq_some_iff.mp h).1
    rw [List.length_append, List.length_singleton] at hbound
    have hi : i = l.length := by omega
    rw [hi, List.getElem?_concat_length] at h
    exact .inr ⟨hi, (Option.some.inj h).symm⟩

/-- After a replacement: what was there, or the new entry at the place that was set. -/
theorem of_set (h : (l.set i x)[j]? = some y) :
    (j ≠ i ∧ l[j]? = some y) ∨ (j = i ∧ y = x) := by
  by_cases hji : j = i
  · subst hji
    have hbound := (List.getElem?_eq_some_iff.mp h).1
    rw [List.length_set] at hbound
    rw [List.getElem?_set_self hbound] at h
    exact .inr ⟨rfl, (Option.some.inj h).symm⟩
  · rw [List.getElem?_set_ne (Ne.symm hji)] at h
    exact .inl ⟨hji, h⟩

/-- What was at a place is still there in a longer list. -/
theorem concat_of (h : l[i]? = some y) : (l ++ [x])[i]? = some y := by
  rw [List.getElem?_append_left (List.getElem?_eq_some_iff.mp h).1]
  exact h

section Together

variable {β : Type*} {R : α → β → Prop} {m : List β}

/-- An entry has its counterpart at the same place of the other table. -/
theorem together_at (h : List.Forall₂ R l m) (hx : l[i]? = some x) :
    ∃ y, m[i]? = some y ∧ R x y := by
  induction h generalizing i with
  | nil => cases hx
  | cons hab hrest ih =>
      cases i with
      | zero =>
          cases hx
          exact ⟨_, rfl, hab⟩
      | succ i => exact ih hx

/-- Both are replaced at the same place, by entries that go together. -/
theorem together_set {y : β} (h : List.Forall₂ R l m) (hxy : R x y) :
    List.Forall₂ R (l.set i x) (m.set i y) := by
  induction h generalizing i with
  | nil => exact .nil
  | cons hab hrest ih =>
      cases i with
      | zero => exact .cons hxy hrest
      | succ i => exact .cons hab ih

end Together

end SynapseMcp.Places
