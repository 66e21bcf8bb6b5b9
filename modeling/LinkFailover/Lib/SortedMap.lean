import Mathlib.Algebra.Ring.Nat
import Mathlib.Data.List.Sort
import Mathlib.Data.List.Nodup
import Mathlib.Tactic.Common

/-!
# Ordered maps

A map is a list of entries with different keys. The operations that change a map take the
order of the keys, so a walk over the entries meets them in that order.
-/

structure SortedMap (κ α : Type) where
  entries : List (κ × α)
  nodup : (entries.map Prod.fst).Nodup

namespace SortedMap

variable {κ α : Type} [DecidableEq κ]

omit [DecidableEq κ] in
def empty : SortedMap κ α := ⟨[], List.nodup_nil⟩

def find? (m : SortedMap κ α) (k : κ) : Option α :=
  (m.entries.find? fun e => e.1 = k).map Prod.snd

def contains (m : SortedMap κ α) (k : κ) : Bool := (m.find? k).isSome

omit [DecidableEq κ] in
def size (m : SortedMap κ α) : Nat := m.entries.length

def erase (m : SortedMap κ α) (k : κ) : SortedMap κ α where
  entries := m.entries.filter fun e => e.1 ≠ k
  nodup := (List.filter_sublist.map Prod.fst).nodup m.nodup

/-- Puts an entry into its place. An entry of the same key goes. -/
def insert (less : κ → κ → Bool) (m : SortedMap κ α) (k : κ) (v : α) : SortedMap κ α where
  entries := (m.erase k).entries.orderedInsert (fun a b => less b.1 a.1 = false) (k, v)
  nodup := by
    have hp := (List.perm_orderedInsert (fun a b : κ × α => less b.1 a.1 = false) (k, v)
      (m.erase k).entries).map Prod.fst
    rw [hp.nodup_iff, List.map_cons, List.nodup_cons]
    exact ⟨by simp [erase], (m.erase k).nodup⟩

omit [DecidableEq κ] in
def map (f : α → α) (m : SortedMap κ α) : SortedMap κ α where
  entries := m.entries.map fun e => (e.1, f e.2)
  nodup := by
    rw [List.map_map]
    exact m.nodup

theorem mem_of_find? {m : SortedMap κ α} {k : κ} {v : α} (h : m.find? k = some v) :
    (k, v) ∈ m.entries := by
  obtain ⟨e, he, rfl⟩ := Option.map_eq_some_iff.mp h
  have hk : e.1 = k := by simpa using List.find?_some he
  rw [← hk]
  exact List.mem_of_find?_eq_some he

omit [DecidableEq κ] in
/-- Two entries of one key are one entry. -/
theorem eq_of_key {m : SortedMap κ α} {a b : κ × α} (ha : a ∈ m.entries) (hb : b ∈ m.entries)
    (h : a.1 = b.1) : a = b :=
  List.inj_on_of_nodup_map m.nodup ha hb h

theorem find?_of_mem {m : SortedMap κ α} {e : κ × α} (h : e ∈ m.entries) :
    m.find? e.1 = some e.2 := by
  obtain ⟨x, hx⟩ : ∃ x, m.entries.find? (fun x => x.1 = e.1) = some x :=
    Option.isSome_iff_exists.mp (List.find?_isSome.mpr ⟨e, h, by simp⟩)
  have hk : x.1 = e.1 := by simpa using List.find?_some hx
  rw [find?, hx, eq_of_key (List.mem_of_find?_eq_some hx) h hk]
  rfl

theorem mem_erase {m : SortedMap κ α} {k : κ} {e : κ × α} :
    e ∈ (m.erase k).entries ↔ e ∈ m.entries ∧ e.1 ≠ k := by
  simp [erase]

theorem mem_insert {less : κ → κ → Bool} {m : SortedMap κ α} {k : κ} {v : α} {e : κ × α} :
    e ∈ (m.insert less k v).entries ↔ e = (k, v) ∨ e ∈ m.entries ∧ e.1 ≠ k := by
  rw [insert, List.mem_orderedInsert, mem_erase]

omit [DecidableEq κ] in
theorem mem_map {f : α → α} {m : SortedMap κ α} {e : κ × α} :
    e ∈ (m.map f).entries ↔ ∃ x ∈ m.entries, (x.1, f x.2) = e := by
  simp [map]

theorem find?_eq_some {m : SortedMap κ α} {k : κ} {v : α} :
    m.find? k = some v ↔ (k, v) ∈ m.entries :=
  ⟨mem_of_find?, fun h => find?_of_mem h⟩

theorem find?_eq_none {m : SortedMap κ α} {k : κ} :
    m.find? k = none ↔ ∀ v, (k, v) ∉ m.entries := by
  constructor
  · intro h v hv
    rw [find?_of_mem hv] at h
    cases h
  · intro h
    cases hf : m.find? k with
    | none => rfl
    | some v => exact absurd (mem_of_find? hf) (h v)

theorem find?_insert {less : κ → κ → Bool} (m : SortedMap κ α) (k k' : κ) (v : α) :
    (m.insert less k v).find? k' = if k' = k then some v else m.find? k' := by
  by_cases hk : k' = k
  · rw [if_pos hk, hk]
    exact find?_eq_some.mpr (mem_insert.mpr (.inl rfl))
  · rw [if_neg hk]
    refine Option.ext fun w => ?_
    rw [find?_eq_some, find?_eq_some, mem_insert]
    constructor
    · rintro (he | ⟨hm, -⟩)
      · exact absurd (congrArg Prod.fst he) hk
      · exact hm
    · exact fun hm => .inr ⟨hm, hk⟩

theorem find?_erase (m : SortedMap κ α) (k k' : κ) :
    (m.erase k).find? k' = if k' = k then none else m.find? k' := by
  by_cases hk : k' = k
  · rw [if_pos hk, hk]
    exact find?_eq_none.mpr fun v hv => (mem_erase.mp hv).2 rfl
  · rw [if_neg hk]
    refine Option.ext fun w => ?_
    rw [find?_eq_some, find?_eq_some, mem_erase]
    exact ⟨And.left, fun hm => ⟨hm, hk⟩⟩

omit [DecidableEq κ] in
theorem find?_empty [DecidableEq κ] (k : κ) : (empty : SortedMap κ α).find? k = none := rfl

/-! ## Sizes -/

theorem erase_of_find?_eq_none {m : SortedMap κ α} {k : κ} (h : m.find? k = none) :
    (m.erase k).entries = m.entries := by
  refine List.filter_eq_self.mpr fun e he => ?_
  rw [decide_eq_true_eq]
  rintro rfl
  exact find?_eq_none.mp h e.2 he

/-- An entry and the others. -/
theorem perm_erase {m : SortedMap κ α} {k : κ} {v : α} (h : m.find? k = some v) :
    m.entries.Perm ((k, v) :: (m.erase k).entries) := by
  have hnodup : ((k, v) :: (m.erase k).entries).Nodup :=
    List.nodup_cons.mpr ⟨fun hm => (mem_erase.mp hm).2 rfl, (m.erase k).nodup.of_map⟩
  refine (List.perm_ext_iff_of_nodup m.nodup.of_map hnodup).mpr fun e => ?_
  rw [List.mem_cons, mem_erase]
  constructor
  · intro he
    by_cases hk : e.1 = k
    · exact .inl (eq_of_key he (mem_of_find? h) hk)
    · exact .inr ⟨he, hk⟩
  · rintro (rfl | ⟨he, -⟩)
    · exact mem_of_find? h
    · exact he

/-- What a key holds counts one, or nothing. -/
theorem size_erase (m : SortedMap κ α) (k : κ) :
    (m.erase k).size + (if m.contains k then 1 else 0) = m.size := by
  unfold contains
  cases hf : m.find? k with
  | none => exact congrArg List.length (erase_of_find?_eq_none hf)
  | some v => exact (perm_erase hf).length_eq.symm

theorem size_insert {less : κ → κ → Bool} (m : SortedMap κ α) (k : κ) (v : α) :
    (m.insert less k v).size + (if m.contains k then 1 else 0) = m.size + 1 := by
  have hlength : (m.insert less k v).size = (m.erase k).size + 1 := by
    rw [size, insert, List.orderedInsert_length]
    rfl
  have := size_erase m k
  omega

/-! ## Maps over maps -/

variable {f : α → α} {m : SortedMap κ α} {k : κ}

omit [DecidableEq κ] in
theorem ext_entries {m m' : SortedMap κ α} (h : m.entries = m'.entries) : m = m' := by
  cases m
  cases m'
  cases h
  rfl

theorem find?_map : (m.map f).find? k = (m.find? k).map f := by
  unfold find? map
  rw [List.find?_map, Option.map_map, Option.map_map]
  rfl

theorem contains_map : (m.map f).contains k = m.contains k := by
  rw [contains, find?_map, Option.isSome_map, contains]

theorem map_erase : (m.erase k).map f = (m.map f).erase k := by
  refine ext_entries ?_
  change (m.entries.filter _).map _ = (m.entries.map _).filter _
  rw [List.filter_map]
  rfl

theorem map_insert {less : κ → κ → Bool} {v : α} :
    (m.insert less k v).map f = (m.map f).insert less k (f v) := by
  refine ext_entries ?_
  have h := List.map_orderedInsert (fun a b : κ × α => less b.1 a.1 = false)
    (s := fun a b : κ × α => less b.1 a.1 = false) (fun e : κ × α => (e.1, f e.2))
    (m.erase k).entries (k, v) (fun _ _ => Iff.rfl) fun _ _ => Iff.rfl
  change ((m.erase k).entries.orderedInsert _ (k, v)).map _ = _
  rw [h]
  change ((m.erase k).map f).entries.orderedInsert _ _ = _
  rw [map_erase]
  rfl

end SortedMap
