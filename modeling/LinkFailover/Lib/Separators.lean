import Mathlib.Algebra.Ring.Nat

/-!
# The last separator of a text

A text of parts is read from its end: what stands behind the last separator is the last part, as
long as no part but the first may hold a separator.

* `splitLast`: the text in front of the last separator and the one behind it.
* `append_sep_inj`: two texts that agree have the same last part.
-/

namespace Separators

variable {α : Type} [DecidableEq α] {sep : α} {front front' last last' : List α}

def splitLast (sep : α) : List α → Option (List α × List α)
  | [] => none
  | x :: rest =>
    match splitLast sep rest with
    | some (front, last) => some (x :: front, last)
    | none => if x = sep then some ([], rest) else none

theorem splitLast_of_not_mem (h : sep ∉ last) : splitLast sep last = none := by
  induction last with
  | nil => rfl
  | cons x rest ih =>
    rw [splitLast, ih fun hm => h (List.mem_cons_of_mem _ hm)]
    have hx : x ≠ sep := by
      rintro rfl
      exact h List.mem_cons_self
    exact if_neg hx

theorem splitLast_append (h : sep ∉ last) :
    splitLast sep (front ++ sep :: last) = some (front, last) := by
  induction front with
  | nil =>
    rw [List.nil_append, splitLast, splitLast_of_not_mem h]
    exact if_pos rfl
  | cons x front ih => rw [List.cons_append, splitLast, ih]

/-- Two texts that agree have the same part behind their last separator. -/
theorem append_sep_inj (h : sep ∉ last) (h' : sep ∉ last')
    (he : front ++ sep :: last = front' ++ sep :: last') : front = front' ∧ last = last' := by
  have hsplit : splitLast sep (front ++ sep :: last) = _ := splitLast_append h
  rw [he, splitLast_append h'] at hsplit
  cases hsplit
  exact ⟨rfl, rfl⟩

end Separators
