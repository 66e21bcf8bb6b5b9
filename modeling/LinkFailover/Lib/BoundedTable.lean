import Mathlib.Algebra.Ring.Nat
import Mathlib.Data.List.Sort
import Mathlib.Data.List.Nodup
import Mathlib.Tactic.Common

/-!
# Bounded tables of keyed records

A table is a list of records. A write replaces the first record with the key of the
new one, or appends it. Above a limit the table is sorted and the first records that
are done are dropped, until the limit is met or no record is done.
-/

namespace BoundedTable

variable {α β κ ι : Type} [DecidableEq κ]

def upsert (key : α → κ) (r : α) : List α → List α
  | [] => [r]
  | x :: xs => if key x = key r then r :: xs else x :: upsert key r xs

/-- Drops the first done record while there are more than `limit`. The first argument
bounds the number of rounds. -/
def trim (done : α → Bool) (limit : Nat) : Nat → List α → List α
  | 0, xs => xs
  | n + 1, xs =>
    if xs.length > limit then
      if xs.any done then trim done limit n (xs.eraseP done) else xs
    else xs

/-- The order a sort by `less` leaves behind. -/
def sortBy (less : α → α → Bool) (xs : List α) : List α :=
  xs.insertionSort fun a b => less b a = false

def evict (less : α → α → Bool) (done : α → Bool) (limit : Nat) (xs : List α) : List α :=
  if xs.length ≤ limit then xs else trim done limit xs.length (sortBy less xs)

/-! ## Replacing or appending -/

section Upsert

variable {key : α → κ} {r q : α} {xs : List α}

theorem mem_upsert_self : r ∈ upsert key r xs := by
  induction xs with
  | nil => simp [upsert]
  | cons x xs ih =>
    rw [upsert]
    split
    · exact List.mem_cons_self
    · exact List.mem_cons_of_mem _ ih

theorem mem_upsert_of_ne (h : q ∈ xs) (hne : key q ≠ key r) : q ∈ upsert key r xs := by
  induction xs with
  | nil => cases h
  | cons x xs ih =>
    rw [upsert]
    rcases List.mem_cons.mp h with rfl | ht
    · rw [if_neg hne]
      exact List.mem_cons_self
    · split
      · exact List.mem_cons_of_mem _ ht
      · exact List.mem_cons_of_mem _ (ih ht)

theorem mem_of_mem_upsert (h : q ∈ upsert key r xs) : q = r ∨ q ∈ xs := by
  induction xs with
  | nil => exact .inl (by simpa [upsert] using h)
  | cons x xs ih =>
    rw [upsert] at h
    split at h
    · rcases List.mem_cons.mp h with rfl | ht
      · exact .inl rfl
      · exact .inr (List.mem_cons_of_mem _ ht)
    · rcases List.mem_cons.mp h with rfl | ht
      · exact .inr List.mem_cons_self
      · exact (ih ht).imp id (List.mem_cons_of_mem _)

theorem upsert_keys :
    (upsert key r xs).map key =
      if key r ∈ xs.map key then xs.map key else xs.map key ++ [key r] := by
  induction xs with
  | nil => simp [upsert]
  | cons x xs ih =>
    rw [upsert]
    by_cases h : key x = key r
    · simp [h]
    · have hne : key r ≠ key x := fun he => h he.symm
      simp only [h, if_false, List.map_cons, ih, List.mem_cons, hne, false_or]
      split <;> simp

theorem upsert_nodup (h : (xs.map key).Nodup) : ((upsert key r xs).map key).Nodup := by
  rw [upsert_keys]
  split
  · exact h
  · rename_i hr
    exact List.nodup_append.mpr ⟨h, by simp, by simpa using fun a ha hk => hr (by simp; exact ⟨a, ha, hk⟩)⟩

/-- Behind records of other keys a table is written as if they were not there. -/
theorem upsert_append {ys : List α} (h : ∀ q ∈ xs, key q ≠ key r) :
    upsert key r (xs ++ ys) = xs ++ upsert key r ys := by
  induction xs with
  | nil => rfl
  | cons x xs ih =>
    rw [List.cons_append, upsert, if_neg (h x List.mem_cons_self),
      ih fun q hq => h q (List.mem_cons_of_mem x hq), List.cons_append]

/-- The record stands behind another one of its key. -/
def Shadowed (key : α → κ) (r : α) : List α → Prop
  | [] => False
  | x :: xs => key x = key r ∧ r ∈ xs ∨ Shadowed key r xs

omit [DecidableEq κ] in
theorem shadowed_append {ys : List α} (hq : q ∈ xs) (hk : key q = key r) (hr : r ∈ ys) :
    Shadowed key r (xs ++ ys) := by
  induction xs with
  | nil => cases hq
  | cons x xs ih =>
    rcases List.mem_cons.mp hq with rfl | hq
    · exact .inl ⟨hk, List.mem_append_right _ hr⟩
    · exact .inr (ih hq)

omit [DecidableEq κ] in
theorem Shadowed.mem (h : Shadowed key r xs) : r ∈ xs := by
  induction xs with
  | nil => exact h.elim
  | cons x xs ih => exact List.mem_cons_of_mem x (h.elim And.right ih)

omit [DecidableEq κ] in
theorem Shadowed.not_nodup (h : Shadowed key r xs) : ¬ (xs.map key).Nodup := by
  induction xs with
  | nil => exact h.elim
  | cons x xs ih =>
    rw [List.map_cons, List.nodup_cons]
    rintro ⟨hx, hn⟩
    rcases h with ⟨hk, hr⟩ | h
    · exact hx (hk ▸ List.mem_map_of_mem hr)
    · exact ih h hn

/-- A write goes to the first record of its key, so it reaches none that stands behind it. -/
theorem Shadowed.upsert {w : α} (h : Shadowed key r xs) : Shadowed key r (upsert key w xs) := by
  induction xs with
  | nil => exact h.elim
  | cons x xs ih =>
    rw [BoundedTable.upsert]
    split
    · rename_i hx
      exact h.imp (fun h => ⟨hx.symm.trans h.1, h.2⟩) id
    · rename_i hx
      exact h.imp (fun h => ⟨h.1, mem_upsert_of_ne h.2 fun hr => hx (h.1.trans hr)⟩) ih

/-- A write puts no record behind another one of its key. -/
theorem Shadowed.of_upsert {w : α} (h : Shadowed key r (BoundedTable.upsert key w xs))
    (hne : r ≠ w) : Shadowed key r xs := by
  induction xs with
  | nil => exact h.elim (fun h => absurd h.2 List.not_mem_nil) id
  | cons x xs ih =>
    rw [BoundedTable.upsert] at h
    split at h
    · rename_i hx
      exact h.imp (fun h => ⟨hx.trans h.1, h.2⟩) id
    · exact h.imp (fun h => ⟨h.1, (mem_of_mem_upsert h.2).resolve_left hne⟩) ih

/-- A key that is already there keeps the number of records. -/
theorem length_upsert_of_mem (h : q ∈ xs) (hk : key q = key r) :
    (upsert key r xs).length = xs.length := by
  have hl := congrArg List.length (@upsert_keys _ _ _ key r xs)
  rw [if_pos (List.mem_map.mpr ⟨q, h, hk⟩)] at hl
  simpa using hl

omit [DecidableEq κ] in
theorem eq_of_key_eq (hn : (xs.map key).Nodup) {a b : α} (ha : a ∈ xs) (hb : b ∈ xs)
    (h : key a = key b) : a = b :=
  List.inj_on_of_nodup_map hn ha hb h

theorem mem_upsert_iff (hn : (xs.map key).Nodup) :
    q ∈ upsert key r xs ↔ q = r ∨ q ∈ xs ∧ key q ≠ key r := by
  constructor
  · intro h
    rcases mem_of_mem_upsert h with rfl | hx
    · exact .inl rfl
    · by_cases hk : key q = key r
      · exact .inl (eq_of_key_eq (upsert_nodup hn) h mem_upsert_self hk)
      · exact .inr ⟨hx, hk⟩
  · rintro (rfl | ⟨hx, hk⟩)
    · exact mem_upsert_self
    · exact mem_upsert_of_ne hx hk

theorem map_upsert {key' : β → κ} (f : α → β) (hf : ∀ a, key' (f a) = key a) :
    (upsert key r xs).map f = upsert key' (f r) (xs.map f) := by
  induction xs with
  | nil => rfl
  | cons x xs ih =>
    simp only [upsert, List.map_cons, hf]
    split
    · rfl
    · rw [List.map_cons, ih]

end Upsert

/-! ## Eviction -/

section Evict

variable {less : α → α → Bool} {done : α → Bool} {limit : Nat} {q : α} {xs : List α}

theorem mem_sortBy : q ∈ sortBy less xs ↔ q ∈ xs := List.mem_insertionSort _

theorem sortBy_perm : (sortBy less xs).Perm xs := List.perm_insertionSort _ _

/-- A sort by a measure is ascending. -/
theorem pairwise_sortBy {f : α → Nat} (h : ∀ a b, less a b = true ↔ f a < f b) :
    (sortBy less xs).Pairwise fun a b => f a ≤ f b := by
  have hle : ∀ a b, less b a = false ↔ f a ≤ f b := fun a b => by
    rw [← Bool.not_eq_true, h]
    exact Nat.not_lt
  have : Std.Total fun a b : α => less b a = false :=
    ⟨fun a b => by rw [hle, hle]; exact Nat.le_total _ _⟩
  have : IsTrans α fun a b : α => less b a = false :=
    ⟨fun a b c => by rw [hle, hle, hle]; exact Nat.le_trans⟩
  exact (List.pairwise_insertionSort _ xs).imp fun {a b} hab => (hle a b).mp hab

theorem trim_sublist (n : Nat) : (trim done limit n xs).Sublist xs := by
  induction n generalizing xs with
  | zero => exact List.Sublist.refl _
  | succ n ih =>
    rw [trim]
    split
    · split
      · exact ih.trans List.eraseP_sublist
      · exact List.Sublist.refl _
    · exact List.Sublist.refl _

theorem mem_trim_of_not_done (n : Nat) (h : q ∈ xs) (hd : done q = false) :
    q ∈ trim done limit n xs := by
  induction n generalizing xs with
  | zero => exact h
  | succ n ih =>
    rw [trim]
    split
    · split
      · exact ih ((List.mem_eraseP_of_neg (by simp [hd])).mpr h)
      · exact h
    · exact h

/-- Enough rounds leave at most `limit` records, or none that is done. -/
theorem trim_bound (n : Nat) (hn : xs.length ≤ n) :
    (trim done limit n xs).length ≤ limit ∨ ∀ x ∈ trim done limit n xs, done x = false := by
  induction n generalizing xs with
  | zero =>
    obtain rfl := List.length_eq_zero_iff.mp (Nat.le_zero.mp hn)
    exact .inl (by simp [trim])
  | succ n ih =>
    rw [trim]
    split
    · split
      · rename_i hany
        obtain ⟨a, ha, hd⟩ := List.any_eq_true.mp hany
        apply ih
        rw [List.length_eraseP_of_mem ha hd]
        omega
      · rename_i hany
        exact .inr (by simpa using hany)
    · exact .inl (by omega)

theorem evict_of_le (h : xs.length ≤ limit) : evict less done limit xs = xs := by
  simp [evict, h]

theorem mem_of_mem_evict (h : q ∈ evict less done limit xs) : q ∈ xs := by
  unfold evict at h
  split at h
  · exact h
  · exact mem_sortBy.mp ((trim_sublist _).mem h)

theorem mem_evict_of_not_done (h : q ∈ xs) (hd : done q = false) :
    q ∈ evict less done limit xs := by
  unfold evict
  split
  · exact h
  · exact mem_trim_of_not_done _ (mem_sortBy.mpr h) hd

theorem evict_bound :
    (evict less done limit xs).length ≤ limit ∨
      ∀ x ∈ evict less done limit xs, done x = false := by
  unfold evict
  split
  · exact .inl ‹_›
  · exact trim_bound _ (by rw [sortBy_perm.length_eq])

omit [DecidableEq κ] in
theorem evict_nodup {key : α → κ} (h : (xs.map key).Nodup) :
    ((evict less done limit xs).map key).Nodup := by
  unfold evict
  split
  · exact h
  · exact ((trim_sublist _).map key).nodup ((sortBy_perm.map key).nodup_iff.mpr h)

theorem map_eraseP {done' : β → Bool} (f : α → β) (hf : ∀ a, done' (f a) = done a) :
    (xs.eraseP done).map f = (xs.map f).eraseP done' := by
  have h : done' ∘ f = done := funext hf
  rw [List.eraseP_map, h]

theorem map_trim {done' : β → Bool} (f : α → β) (hf : ∀ a, done' (f a) = done a) (n : Nat) :
    (trim done limit n xs).map f = trim done' limit n (xs.map f) := by
  induction n generalizing xs with
  | zero => rfl
  | succ n ih =>
    have hany : (xs.map f).any done' = xs.any done := by
      rw [List.any_map]
      congr 1
      exact funext hf
    simp only [trim, List.length_map, hany]
    split
    · split
      · rw [ih, map_eraseP f hf]
      · rfl
    · rfl

theorem map_sortBy {less' : β → β → Bool} (f : α → β)
    (hf : ∀ a b, less' (f a) (f b) = less a b) :
    (sortBy less xs).map f = sortBy less' (xs.map f) :=
  List.map_insertionSort _ _ f _ fun a _ b _ => by simp [hf]

/-- Eviction looks at the order and at what is done, and at nothing else. -/
theorem map_evict {less' : β → β → Bool} {done' : β → Bool} (f : α → β)
    (hl : ∀ a b, less' (f a) (f b) = less a b) (hd : ∀ a, done' (f a) = done a) :
    (evict less done limit xs).map f = evict less' done' limit (xs.map f) := by
  simp only [evict, List.length_map]
  split
  · rfl
  · rw [map_trim f hd, map_sortBy f hl]

end Evict

/-! ## Related tables -/

section Related

variable {R : α → α → Prop} {xs ys : List α}

omit [DecidableEq κ] in
/-- Related lists are the two sides of one list of related pairs. -/
theorem exists_pairs (h : List.Forall₂ R xs ys) :
    ∃ zs : List { z : α × α // R z.1 z.2 }, zs.map (·.1.1) = xs ∧ zs.map (·.1.2) = ys := by
  induction h with
  | nil => exact ⟨[], rfl, rfl⟩
  | @cons a b xs ys hab _ ih =>
    obtain ⟨zs, rfl, rfl⟩ := ih
    exact ⟨⟨(a, b), hab⟩ :: zs, rfl, rfl⟩

omit [DecidableEq κ] in
theorem forall₂_pairs (zs : List { z : α × α // R z.1 z.2 }) :
    List.Forall₂ R (zs.map (·.1.1)) (zs.map (·.1.2)) := by
  induction zs with
  | nil => exact .nil
  | cons z zs ih => exact .cons z.2 ih

/-- A write of related records to related tables. -/
theorem forall₂_upsert {key : α → κ} (hk : ∀ a b, R a b → key b = key a)
    (h : List.Forall₂ R xs ys) {r r' : α} (hr : R r r') :
    List.Forall₂ R (upsert key r xs) (upsert key r' ys) := by
  obtain ⟨zs, rfl, rfl⟩ := exists_pairs h
  let z : { z : α × α // R z.1 z.2 } := ⟨(r, r'), hr⟩
  have h1 : (upsert (fun z => key z.1.1) z zs).map (·.1.1) = upsert key r (zs.map (·.1.1)) :=
    map_upsert _ fun _ => rfl
  have h2 : (upsert (fun z => key z.1.1) z zs).map (·.1.2) = upsert key r' (zs.map (·.1.2)) :=
    map_upsert _ fun z => hk _ _ z.2
  rw [← h1, ← h2]
  exact forall₂_pairs _

omit [DecidableEq κ] in
/-- Related tables are evicted alike, when the order and what is done respect the relation. -/
theorem forall₂_evict {less : α → α → Bool} {done : α → Bool} {limit : Nat}
    (hl : ∀ a b c d, R a c → R b d → less c d = less a b) (hd : ∀ a b, R a b → done b = done a)
    (h : List.Forall₂ R xs ys) :
    List.Forall₂ R (evict less done limit xs) (evict less done limit ys) := by
  obtain ⟨zs, rfl, rfl⟩ := exists_pairs h
  have h1 : (evict (fun y z => less y.1.1 z.1.1) (fun z => done z.1.1) limit zs).map (·.1.1) =
      evict less done limit (zs.map (·.1.1)) := map_evict _ (fun _ _ => rfl) fun _ => rfl
  have h2 : (evict (fun y z => less y.1.1 z.1.1) (fun z => done z.1.1) limit zs).map (·.1.2) =
      evict less done limit (zs.map (·.1.2)) :=
    map_evict _ (fun y z => hl _ _ _ _ y.2 z.2) fun z => hd _ _ z.2
  rw [← h1, ← h2]
  exact forall₂_pairs _

end Related

end BoundedTable
