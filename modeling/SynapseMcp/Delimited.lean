/-
Streams of lines: lists of any type, cut at a delimiter.

Nothing in this file names the SDK. `List.splitOn` is the cut, the last piece being
what follows the last delimiter; `delimited` is the stream that ends each piece with
the delimiter. Three rules carry the results about streams that are read or written
piecemeal: a piece without a delimiter only extends the first piece of what follows
it, a delimited stream is cut back into its pieces, and what has been cut off a stream
stays cut off when the stream goes on.
-/
import Mathlib.Data.List.Basic

set_option autoImplicit false

namespace SynapseMcp.Delimited

variable {α : Type*} [BEq α] [LawfulBEq α] {a : α}

/-! ## Cutting a stream

A stream that ends every piece with the delimiter is cut into its pieces and one more, the empty
one after the last delimiter. So the cut of any part of such a stream is, up to its last piece,
a part of the pieces: this is what a reader that has seen only some of the bytes may rely on. -/

/-- Each piece ended by the delimiter. -/
def delimited (a : α) (pieces : List (List α)) : List α := pieces.flatMap (· ++ [a])

omit [BEq α] [LawfulBEq α] in
/-- No pieces make an empty stream. -/
@[simp] theorem delimited_nil : delimited a [] = [] := rfl

omit [BEq α] [LawfulBEq α] in
/-- Streams are put one after the other as their pieces are. -/
@[simp] theorem delimited_append (xs ys : List (List α)) :
    delimited a (xs ++ ys) = delimited a xs ++ delimited a ys := by
  simp [delimited]

omit [BEq α] [LawfulBEq α] in
/-- One piece with its delimiter. -/
@[simp] theorem delimited_singleton (piece : List α) : delimited a [piece] = piece ++ [a] := by
  simp [delimited]

/-- A piece without a delimiter extends the first piece of what follows. -/
theorem splitOn_append_of_not_mem {line : List α} (h : a ∉ line) (rest : List α) :
    (line ++ rest).splitOn a = (rest.splitOn a).modifyHead (line ++ ·) := by
  induction line with
  | nil =>
      rw [List.nil_append]
      cases rest.splitOn a <;> rfl
  | cons x line ih =>
      have hx : ¬ (x == a) = true := by
        intro hxa
        exact h (by simp [eq_of_beq hxa])
      have hline : a ∉ line := fun hmem => h (List.mem_cons_of_mem x hmem)
      rw [List.cons_append, List.splitOn_cons_eq_if_modifyHead, if_neg hx, ih hline,
        List.modifyHead_modifyHead]
      rfl

/-- A delimited stream is cut back into its pieces, nothing following the last. -/
theorem splitOn_delimited {pieces : List (List α)} (h : ∀ piece ∈ pieces, a ∉ piece) :
    (delimited a pieces).splitOn a = pieces ++ [[]] := by
  induction pieces with
  | nil => rfl
  | cons piece pieces ih =>
      have hhead : a ∉ piece := h piece List.mem_cons_self
      have htail := ih fun p hp => h p (List.mem_cons_of_mem piece hp)
      have hstream : delimited a (piece :: pieces) = piece ++ a :: delimited a pieces := by
        simp [delimited]
      -- the first delimiter of the stream is the one that ends the first piece
      rw [hstream, List.splitOn_append_cons_self_of_not_mem hhead, htail]
      rfl

omit [LawfulBEq α] in
/-- What is cut off already stays, and the unfinished piece is carried on. -/
theorem splitOn_append (xs ys : List α) :
    (xs ++ ys).splitOn a =
      (xs.splitOn a).dropLast ++
        (ys.splitOn a).modifyHead ((xs.splitOn a).getLast (List.splitOn_ne_nil a xs) ++ ·) := by
  induction xs with
  | nil =>
      rw [List.nil_append]
      cases ys.splitOn a <;> rfl
  | cons x xs ih =>
      obtain ⟨piece, pieces, hxs⟩ := List.exists_cons_of_ne_nil (List.splitOn_ne_nil a xs)
      rw [List.cons_append, List.splitOn_cons_eq_if_modifyHead, ih]
      by_cases hx : (x == a) = true
      · simp [List.splitOn_cons_eq_if_modifyHead, hx, hxs]
      · -- the byte joins the first piece, which is the unfinished one when it is alone
        cases pieces with
        | nil => simp [List.splitOn_cons_eq_if_modifyHead, hx, hxs, Function.comp_def]
        | cons next pieces => simp [List.splitOn_cons_eq_if_modifyHead, hx, hxs]

/-- The pieces a part of a delimited stream completes are the first of the stream. -/
theorem splitOn_dropLast_of_delimited {pieces : List (List α)} {part : List α}
    (h : ∀ piece ∈ pieces, a ∉ piece) (hpart : part <+: delimited a pieces) :
    (part.splitOn a).dropLast <+: pieces := by
  obtain ⟨rest, hrest⟩ := hpart
  have hcut := splitOn_append (a := a) part rest
  rw [hrest, splitOn_delimited h] at hcut
  -- the stream's own last piece is the empty one
  have hne : (rest.splitOn a).modifyHead
      ((part.splitOn a).getLast (List.splitOn_ne_nil a part) ++ ·) ≠ [] := by
    simp
  have hlast := congrArg List.dropLast hcut
  rw [List.dropLast_concat, List.dropLast_append_of_ne_nil hne] at hlast
  exact ⟨_, hlast.symm⟩

/-! ## What has ended, one element at a time

A reader that goes through a stream keeps the pieces that have ended and the piece it is in. The
lemmas say what the next element does to the two, in the two cases there are. -/

/-- The pieces that have ended. -/
def finished (a : α) (xs : List α) : List (List α) := (xs.splitOn a).dropLast

/-- The piece that has not. -/
def unfinished (a : α) (xs : List α) : List α :=
  (xs.splitOn a).getLast (List.splitOn_ne_nil a xs)

omit [LawfulBEq α] in
/-- Nothing has ended in an empty stream. -/
@[simp] theorem finished_nil : finished a ([] : List α) = [] := rfl

omit [LawfulBEq α] in
/-- Nothing has begun in it either. -/
@[simp] theorem unfinished_nil : unfinished a ([] : List α) = [] := rfl

omit [LawfulBEq α] in
/-- Together they are the cut. -/
theorem splitOn_finished (xs : List α) : xs.splitOn a = finished a xs ++ [unfinished a xs] :=
  (List.dropLast_concat_getLast _).symm

/-- A delimiter ends the piece. -/
theorem finished_concat_self (xs : List α) :
    finished a (xs ++ [a]) = finished a xs ++ [unfinished a xs] := by
  have hone : [a].splitOn a = [[], []] := by simp [List.splitOn_cons_eq_if_modifyHead]
  rw [finished, splitOn_append, hone]
  simp [finished, unfinished]

/-- After a delimiter a new piece begins. -/
theorem unfinished_concat_self (xs : List α) : unfinished a (xs ++ [a]) = [] := by
  have hone : [a].splitOn a = [[], []] := by simp [List.splitOn_cons_eq_if_modifyHead]
  have hcut := splitOn_append (a := a) xs [a]
  rw [hone, splitOn_finished (xs ++ [a])] at hcut
  have hlast := congrArg List.getLast? hcut
  simpa using hlast

/-- Anything else goes on with it. -/
theorem finished_concat_ne {x : α} (h : x ≠ a) (xs : List α) :
    finished a (xs ++ [x]) = finished a xs := by
  have hone : [x].splitOn a = [[x]] := by simp [List.splitOn_cons_eq_if_modifyHead, h]
  rw [finished, splitOn_append, hone]
  simp [finished]

/-- The element joins the piece it is in. -/
theorem unfinished_concat_ne {x : α} (h : x ≠ a) (xs : List α) :
    unfinished a (xs ++ [x]) = unfinished a xs ++ [x] := by
  have hone : [x].splitOn a = [[x]] := by simp [List.splitOn_cons_eq_if_modifyHead, h]
  have hcut := splitOn_append (a := a) xs [x]
  rw [hone, splitOn_finished (xs ++ [x])] at hcut
  have hlast := congrArg List.getLast? hcut
  simpa [unfinished] using hlast

omit [LawfulBEq α] in
/-- The pieces of a part are the first of the whole. -/
theorem finished_prefix (xs ys : List α) : finished a xs <+: finished a (xs ++ ys) := by
  have hne : (ys.splitOn a).modifyHead
      ((xs.splitOn a).getLast (List.splitOn_ne_nil a xs) ++ ·) ≠ [] := by
    simp
  rw [finished, finished, splitOn_append, List.dropLast_append_of_ne_nil hne]
  exact List.prefix_append _ _

end SynapseMcp.Delimited
