import LinkFailover.Lib.BoundedTable

/-!
# Counting in bounded tables

A write of a new key adds one record, a write of a key that is there keeps all counts that do not
tell the two records apart, and an eviction that drops nothing only moves the records.
-/

namespace BoundedTable

variable {α κ : Type} [DecidableEq κ] {key : α → κ} {r : α} {xs : List α}

/-- A record of a new key is written behind the others. -/
theorem upsert_fresh (h : ∀ q ∈ xs, key q ≠ key r) : upsert key r xs = xs ++ [r] := by
  have happend := @upsert_append α κ _ key r xs [] h
  rwa [List.append_nil] at happend

/-- What does not tell a record from the one that it replaces is counted as before. -/
theorem countP_upsert {f : α → Bool} (hf : ∀ q ∈ xs, key q = key r → f q = f r)
    (hm : ∃ q ∈ xs, key q = key r) : (upsert key r xs).countP f = xs.countP f := by
  induction xs with
  | nil =>
    obtain ⟨q, hq, -⟩ := hm
    cases hq
  | cons x xs ih =>
    rw [upsert]
    split
    · rename_i h
      rw [List.countP_cons, List.countP_cons, hf x List.mem_cons_self h]
    · rename_i h
      obtain ⟨q, hq, hk⟩ := hm
      have hq' : q ∈ xs := (List.mem_cons.mp hq).resolve_left fun he => h (he ▸ hk)
      rw [List.countP_cons, List.countP_cons,
        ih (fun y hy => hf y (List.mem_cons_of_mem x hy)) ⟨q, hq', hk⟩]

variable {less : α → α → Bool} {done : α → Bool} {limit : Nat}

omit [DecidableEq κ] in
theorem trim_of_not_done (n : Nat) (h : ∀ x ∈ xs, done x = false) :
    trim done limit n xs = xs := by
  cases n with
  | zero => rfl
  | succ n =>
    have hany : xs.any done = false := by simpa using h
    rw [trim, hany]
    split
    · exact if_neg Bool.false_ne_true
    · rfl

/-- Nothing is evicted from a table in which nothing is done. -/
theorem length_evict_of_not_done (h : ∀ x ∈ xs, done x = false) :
    (evict less done limit xs).length = xs.length := by
  unfold evict
  split
  · rfl
  · rw [trim_of_not_done _ fun x hx => h x (mem_sortBy.mp hx), sortBy_perm.length_eq]

/-- An eviction that drops no record only moves them. -/
theorem evict_perm (h : (evict less done limit xs).length = xs.length) :
    (evict less done limit xs).Perm xs := by
  unfold evict at h ⊢
  split
  · exact .refl _
  · rename_i hlong
    rw [if_neg hlong] at h
    have hsorted : (sortBy less xs).Perm xs := sortBy_perm
    rwa [(trim_sublist _).eq_of_length (h.trans hsorted.length_eq.symm)]

end BoundedTable
