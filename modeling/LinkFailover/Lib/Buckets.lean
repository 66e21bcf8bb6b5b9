import Mathlib.Algebra.BigOperators.Group.List.Basic
import LinkFailover.Lib.Orders
import LinkFailover.Lib.SortedMap

/-!
# Maps of maps

A map whose values are maps again keeps its entries in buckets. An entry goes into the bucket of its
outer key, which is made when it is missing; a key of the inner maps can be dropped everywhere. A
bucket that has become empty stays.

* `InOrder`: the keys stand in their order, and what is put back in its place changes nothing.
* `get`: the entry under a pair of keys, and what the operations do to it.
* `total`: the number of entries, and what the operations do to it.
-/

namespace SortedMap

variable {κ ι α : Type} [DecidableEq κ] [DecidableEq ι]

/-! ## Maps in order -/

section InOrder

variable {less : κ → κ → Bool}

omit [DecidableEq κ] in
/-- No key comes after a greater one. -/
def InOrder (less : κ → κ → Bool) (m : SortedMap κ α) : Prop :=
  m.entries.Pairwise fun a b => less b.1 a.1 = false

omit [DecidableEq κ] in
theorem inOrder_empty : (empty : SortedMap κ α).InOrder less := .nil

omit [DecidableEq κ] in
theorem InOrder.map {m : SortedMap κ α} (h : m.InOrder less) (f : α → α) :
    (m.map f).InOrder less :=
  List.pairwise_map.mpr h

theorem InOrder.insert (ho : Orders less fun k => k) {m : SortedMap κ α} (h : m.InOrder less)
    (k : κ) (v : α) : (m.insert less k v).InOrder less := by
  have htotal : Std.Total fun a b : κ × α => less b.1 a.1 = false := ⟨fun a b => by
    cases hl : less b.1 a.1 with
    | false => exact .inl rfl
    | true => exact .inr (ho.asymm hl)⟩
  have htrans : IsTrans (κ × α) fun a b => less b.1 a.1 = false :=
    ⟨fun _ _ _ hab hbc => ho.trans hbc hab⟩
  exact List.Pairwise.orderedInsert _ _ (h.filter _)

/-- What a key holds is put back in its place. -/
theorem InOrder.insert_eq (ho : Orders less fun k => k) {m : SortedMap κ α} (h : m.InOrder less)
    {k : κ} {v : α} (hf : m.find? k = some v) : m.insert less k v = m := by
  have hperm : (m.insert less k v).entries.Perm m.entries :=
    (List.perm_orderedInsert _ _ _).trans (perm_erase hf).symm
  refine ext_entries (hperm.eq_of_pairwise (fun a b ha hb hab hba => ?_) (h.insert ho k v) h)
  exact eq_of_key (hperm.mem_iff.mp ha) hb (ho.total hba hab)

end InOrder

/-- The bucket of a key, empty when there is none. -/
def bucket (t : SortedMap κ (SortedMap ι α)) (k : κ) : SortedMap ι α := (t.find? k).getD .empty

def get (t : SortedMap κ (SortedMap ι α)) (k : κ) (i : ι) : Option α := (t.bucket k).find? i

/-- Drops a key of the inner maps from every bucket. -/
def dropInner (t : SortedMap κ (SortedMap ι α)) (i : ι) : SortedMap κ (SortedMap ι α) :=
  t.map (·.erase i)

omit [DecidableEq κ] [DecidableEq ι] in
def total (t : SortedMap κ (SortedMap ι α)) : Nat := (t.entries.map fun e => e.2.size).sum

variable {less : κ → κ → Bool} {less' : ι → ι → Bool} (t : SortedMap κ (SortedMap ι α))

/-! ## Entries -/

omit [DecidableEq ι] in
theorem bucket_insert (k k' : κ) (b : SortedMap ι α) :
    (t.insert less k b).bucket k' = if k' = k then b else t.bucket k' := by
  rw [bucket, find?_insert]
  split <;> rfl

/-- A bucket put in its place again, or an empty one made, changes no entry. -/
theorem get_rebucket (k k' : κ) (i : ι) :
    (t.insert less k (t.bucket k)).get k' i = t.get k' i := by
  rw [get, bucket_insert]
  split
  · rename_i h
    rw [h, get]
  · rfl

theorem get_insert (k k' : κ) (i i' : ι) (v : α) :
    (t.insert less k ((t.bucket k).insert less' i v)).get k' i' =
      if k' = k ∧ i' = i then some v else t.get k' i' := by
  rw [get, bucket_insert]
  by_cases hk : k' = k
  · rw [if_pos hk, find?_insert, hk, get]
    simp only [true_and]
  · rw [if_neg hk, if_neg fun h => hk h.1, get]

theorem bucket_dropInner (k : κ) (i : ι) : (t.dropInner i).bucket k = (t.bucket k).erase i := by
  unfold bucket dropInner
  rw [find?_map]
  cases t.find? k <;> rfl

theorem get_dropInner (k : κ) (i i' : ι) :
    (t.dropInner i).get k i' = if i' = i then none else t.get k i' := by
  rw [get, bucket_dropInner, find?_erase]
  rfl

/-! ## Numbers of entries -/

omit [DecidableEq ι] in
theorem total_erase (k : κ) : (t.erase k).total + (t.bucket k).size = t.total := by
  unfold bucket
  cases hf : t.find? k with
  | none => rw [total, erase_of_find?_eq_none hf]; rfl
  | some b =>
    have hsum := ((perm_erase hf).map fun e => e.2.size).sum_nat
    rw [List.map_cons, List.sum_cons, Nat.add_comm] at hsum
    exact hsum.symm

omit [DecidableEq ι] in
theorem total_insert (k : κ) (b : SortedMap ι α) :
    (t.insert less k b).total + (t.bucket k).size = t.total + b.size := by
  have hperm := List.perm_orderedInsert (fun a b : κ × SortedMap ι α => less b.1 a.1 = false) (k, b)
    (t.erase k).entries
  have hinsert := (hperm.map fun e => e.2.size).sum_nat
  rw [List.map_cons, List.sum_cons] at hinsert
  change (t.insert less k b).total = b.size + (t.erase k).total at hinsert
  have := t.total_erase k
  omega

omit [DecidableEq κ] in
/-- Dropping a key takes one entry from every bucket that contains it. -/
theorem total_dropInner (i : ι) :
    (t.dropInner i).total + t.entries.countP (fun e => e.2.contains i) = t.total := by
  unfold total dropInner map
  rw [List.map_map]
  induction t.entries with
  | nil => rfl
  | cons e es ih =>
    have he := size_erase e.2 i
    rw [List.map_cons, List.map_cons, List.sum_cons, List.sum_cons, List.countP_cons]
    change (e.2.erase i).size + _ + _ = _
    omega

/-! ## Empty buckets -/

/-- A key has a bucket with nothing in it. -/
def Hollow (t : SortedMap κ (SortedMap ι α)) (k : κ) : Prop := ∃ b, t.find? k = some b ∧ b.size = 0

variable {t}

omit [DecidableEq ι] in
theorem hollow_insert {k k' : κ} {b : SortedMap ι α} (h : (t.insert less k b).Hollow k') :
    k' = k ∧ b.size = 0 ∨ k' ≠ k ∧ t.Hollow k' := by
  obtain ⟨b', hb', hsize⟩ := h
  rw [find?_insert] at hb'
  split at hb'
  · rename_i hk
    cases hb'
    exact .inl ⟨hk, hsize⟩
  · rename_i hk
    exact .inr ⟨hk, b', hb', hsize⟩

theorem size_insert_ne_zero (b : SortedMap ι α) (i : ι) (v : α) : (b.insert less' i v).size ≠ 0 := by
  have hsize := @size_insert _ _ _ less' b i v
  split at hsize
  · rename_i hc
    obtain ⟨v', hv'⟩ := Option.isSome_iff_exists.mp hc
    have hpos : 0 < b.size := List.length_pos_of_mem (mem_of_find? hv')
    omega
  · omega

omit [DecidableEq ι] in
theorem not_hollow_rebucket {k : κ} (hb : t.contains k = true) (h : ∀ k', ¬ t.Hollow k') (k' : κ) :
    ¬ (t.insert less k (t.bucket k)).Hollow k' := by
  intro hk'
  rcases hollow_insert hk' with ⟨-, hsize⟩ | ⟨-, hk'⟩
  · obtain ⟨b, hf⟩ := Option.isSome_iff_exists.mp hb
    rw [bucket, hf] at hsize
    exact h k ⟨b, hf, hsize⟩
  · exact h k' hk'

/-- An entry fills the bucket that it goes into. -/
theorem not_hollow_insert {k : κ} {b : SortedMap ι α} {i : ι} {v : α}
    (h : ∀ k', t.Hollow k' → k' = k) (k' : κ) :
    ¬ (t.insert less k (b.insert less' i v)).Hollow k' := by
  intro hk'
  rcases hollow_insert hk' with ⟨-, hsize⟩ | ⟨hne, hk'⟩
  · exact size_insert_ne_zero b i v hsize
  · exact hne (h k' hk')

omit [DecidableEq ι] in
/-- A map without empty buckets has no more of them than entries. -/
theorem size_le_total (h : ∀ k, ¬ t.Hollow k) : t.size ≤ t.total := by
  have hone : ∀ n ∈ t.entries.map fun e => e.2.size, 1 ≤ n := by
    intro n hn
    obtain ⟨e, he, rfl⟩ := List.mem_map.mp hn
    exact Nat.pos_of_ne_zero fun hzero => h e.1 ⟨e.2, find?_of_mem he, hzero⟩
  have hlength := List.length_le_sum_of_one_le _ hone
  rwa [List.length_map] at hlength

/-! ## Entries as a list -/

omit [DecidableEq κ] [DecidableEq ι] in
/-- The pairs of keys that hold an entry. -/
def pairs (t : SortedMap κ (SortedMap ι α)) : List (κ × ι) :=
  t.entries.flatMap fun e => e.2.entries.map fun x => (e.1, x.1)

omit [DecidableEq κ] [DecidableEq ι] in
theorem length_pairs : t.pairs.length = t.total := by
  unfold pairs total size
  rw [List.length_flatMap]
  simp only [List.length_map]

theorem mem_pairs {k : κ} {i : ι} : (k, i) ∈ t.pairs ↔ (t.get k i).isSome = true := by
  unfold pairs get bucket
  rw [List.mem_flatMap]
  constructor
  · rintro ⟨e, he, hx⟩
    obtain ⟨x, hm, heq⟩ := List.mem_map.mp hx
    cases heq
    rw [find?_of_mem he, Option.getD_some, find?_of_mem hm, Option.isSome_some]
  · intro h
    cases hb : t.find? k with
    | none =>
      rw [hb] at h
      cases h
    | some b =>
      rw [hb] at h
      obtain ⟨v, hv⟩ := Option.isSome_iff_exists.mp h
      exact ⟨(k, b), mem_of_find? hb, List.mem_map.mpr ⟨(i, v), mem_of_find? hv, rfl⟩⟩

omit [DecidableEq κ] [DecidableEq ι] in
theorem nodup_pairs : t.pairs.Nodup := by
  unfold pairs
  refine List.nodup_flatMap.mpr ⟨fun e _ => ?_, ?_⟩
  · have hinner : (e.2.entries.map fun x => x.1).Nodup := e.2.nodup
    have hmap := hinner.map fun i i' (h : (e.1, i) = (e.1, i')) => (Prod.mk.inj h).2
    rw [List.map_map] at hmap
    exact hmap
  · refine (List.pairwise_map.mp t.nodup).imp fun {e e'} hne => ?_
    intro x hx hx'
    obtain ⟨y, -, rfl⟩ := List.mem_map.mp hx
    obtain ⟨y', -, heq⟩ := List.mem_map.mp hx'
    exact hne (Prod.mk.inj heq).1.symm

/-- A map has no more entries than two others together that hold one wherever it does. -/
theorem total_le {β γ : Type} {u : SortedMap κ (SortedMap ι β)} {w : SortedMap κ (SortedMap ι γ)}
    (h : ∀ k i, (t.get k i).isSome = true → (u.get k i).isSome = true ∨ (w.get k i).isSome = true) :
    t.total ≤ u.total + w.total := by
  have hsubset : t.pairs ⊆ u.pairs ++ w.pairs := by
    rintro ⟨k, i⟩ hx
    rw [List.mem_append, mem_pairs, mem_pairs]
    exact h k i (mem_pairs.mp hx)
  have hlength := (List.subperm_of_subset nodup_pairs hsubset).length_le
  rwa [List.length_append, length_pairs, length_pairs, length_pairs] at hlength

end SortedMap
