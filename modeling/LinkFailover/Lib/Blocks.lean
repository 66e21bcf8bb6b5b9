import Mathlib.Algebra.Ring.Nat
import Mathlib.Data.List.Basic
import Mathlib.Tactic.Common

/-!
# Folding over blocks

A function of a state and a block is folded over the blocks of a string. A string that comes in
pieces is folded as far as its blocks are whole, and what is left waits for the next piece.

* `fold_add`: blocks behind blocks.
* `foldAll_append`, `left_append`: a piece that is put behind a string.
-/

namespace Blocks

variable {σ α : Type} (f : σ → List α → σ) (n : Nat)

/-- The first `k` blocks of a string. -/
def fold : Nat → σ → List α → σ
  | 0, s, _ => s
  | k + 1, s, xs => fold k (f s (xs.take n)) (xs.drop n)

/-- All whole blocks of a string. -/
def foldAll (s : σ) (xs : List α) : σ := fold f n (xs.length / n) s xs

/-- What is left behind them. -/
def left (xs : List α) : List α := xs.drop (n * (xs.length / n))

theorem fold_add (k m : Nat) (s : σ) (xs : List α) :
    fold f n (k + m) s xs = fold f n m (fold f n k s xs) (xs.drop (n * k)) := by
  induction k generalizing s xs with
  | zero => rw [Nat.zero_add, Nat.mul_zero, List.drop_zero, fold]
  | succ k ih =>
    rw [Nat.succ_add, fold, ih, fold, List.drop_drop, Nat.mul_succ, Nat.add_comm n]

/-- Only the blocks themselves are looked at. -/
theorem fold_append {k : Nat} {xs : List α} (h : n * k ≤ xs.length) (s : σ) (ys : List α) :
    fold f n k s (xs ++ ys) = fold f n k s xs := by
  induction k generalizing s xs with
  | zero => rfl
  | succ k ih =>
    rw [Nat.mul_succ] at h
    have hlength : n ≤ xs.length := Nat.le_trans (Nat.le_add_left _ _) h
    rw [fold, fold, List.take_append_of_le_length hlength, List.drop_append_of_le_length hlength]
    refine ih ?_ _
    rw [List.length_drop]
    omega

theorem left_length (xs : List α) : (left n xs).length = xs.length % n := by
  rw [left, List.length_drop, Nat.mod_eq_sub]

theorem left_of_lt {xs : List α} (h : xs.length < n) : left n xs = xs := by
  rw [left, Nat.div_eq_of_lt h, Nat.mul_zero, List.drop_zero]

theorem foldAll_of_lt {xs : List α} (h : xs.length < n) (s : σ) : foldAll f n s xs = s := by
  rw [foldAll, Nat.div_eq_of_lt h, fold]

/-- What is left of a string and a piece behind it make up the rest of both. -/
theorem drop_append_left (xs ys : List α) :
    (xs ++ ys).drop (n * (xs.length / n)) = left n xs ++ ys :=
  List.drop_append_of_le_length (Nat.mul_div_le xs.length n)

variable {n}

theorem length_split (hn : 0 < n) (xs ys : List α) :
    (xs ++ ys).length / n = xs.length / n + (left n xs ++ ys).length / n := by
  have h := Nat.div_add_mod xs.length n
  rw [List.length_append, List.length_append, left_length]
  conv_lhs => rw [← h]
  rw [Nat.add_assoc, Nat.mul_add_div hn]

/-- A string and a piece behind it: the blocks of the string, and those of the piece behind what
was left. -/
theorem foldAll_append (hn : 0 < n) (s : σ) (xs ys : List α) :
    foldAll f n s (xs ++ ys) = foldAll f n (foldAll f n s xs) (left n xs ++ ys) := by
  rw [foldAll, length_split hn, fold_add, drop_append_left,
    fold_append f n (Nat.mul_div_le xs.length n)]
  rfl

theorem left_append (hn : 0 < n) (xs ys : List α) :
    left n (xs ++ ys) = left n (left n xs ++ ys) := by
  rw [left, length_split hn, Nat.mul_add, ← List.drop_drop, drop_append_left]
  rfl

end Blocks
