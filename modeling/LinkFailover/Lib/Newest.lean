import Mathlib.Algebra.Ring.Nat
import Mathlib.Data.List.Infix
import Mathlib.Tactic.Common

/-!
# The newest elements of a list

A list grows at its end and is cut at its front. What is kept is what came last.

* `newest`: the last elements of a list, up to a number.
* `Kept`: the last elements of a list, and no fewer than a number.
-/

variable {α : Type} {n l : Nat} {xs ys : List α}

/-- The last elements of a list, at most `n`. -/
def newest (n : Nat) (xs : List α) : List α := xs.drop (xs.length - n)

theorem length_newest : (newest n xs).length = min n xs.length := by
  rw [newest, List.length_drop]
  omega

theorem newest_suffix : newest n xs <:+ xs := List.drop_suffix _ _

theorem newest_of_le (h : xs.length ≤ n) : newest n xs = xs := by
  rw [newest, Nat.sub_eq_zero_of_le h, List.drop_zero]

/-- A suffix is the newest elements of its number. -/
theorem newest_of_suffix (h : ys <:+ xs) (hl : ys.length = min n xs.length) : ys = newest n xs := by
  obtain ⟨zs, rfl⟩ := h
  rw [List.length_append] at hl
  have hz : (zs ++ ys).length - n = zs.length := by
    rw [List.length_append]
    omega
  rw [newest, hz, List.drop_left]

theorem suffix_append_right (h : ys <:+ xs) (zs : List α) : ys ++ zs <:+ xs ++ zs := by
  obtain ⟨ws, rfl⟩ := h
  exact ⟨ws, (List.append_assoc _ _ _).symm⟩

/-- What was cut before need not be kept for what is cut later. -/
theorem newest_append : newest n (newest n xs ++ ys) = newest n (xs ++ ys) := by
  refine newest_of_suffix (newest_suffix.trans (suffix_append_right newest_suffix ys)) ?_
  rw [length_newest, List.length_append, List.length_append, length_newest]
  omega

/-- The last elements of a list, and no fewer than `l` if there are so many. -/
structure Kept (l : Nat) (xs kept : List α) : Prop where
  suffix : kept <:+ xs
  enough : min l xs.length ≤ kept.length

theorem Kept.nil : Kept l ([] : List α) [] := ⟨List.suffix_rfl, Nat.min_le_right _ _⟩

theorem Kept.append {kept : List α} (h : Kept l xs kept) (hl : l ≤ n) (x : α) :
    Kept l (xs ++ [x]) (newest n (kept ++ [x])) where
  suffix := newest_suffix.trans (suffix_append_right h.suffix [x])
  enough := by
    have := h.enough
    rw [length_newest, List.length_append, List.length_append, List.length_singleton]
    omega
