import LinkFailover.Lib.BoundedTable

/-!
# Strict orders

A Boolean comparison orders the elements of a type strictly, up to a key that it tells apart. Such
orders are pulled back along functions and composed lexicographically.

* `Orders.sort_eq`: a sort does not depend on the order that it begins with.
* `Orders.search_first`: a search for the first element finds one that no other comes before.
-/

/-- A strict order that tells the keys of elements apart. -/
structure Orders {α κ : Type} (less : α → α → Bool) (key : α → κ) : Prop where
  asymm : ∀ {a b}, less a b = true → less b a = false
  trans : ∀ {a b c}, less a b = false → less b c = false → less a c = false
  total : ∀ {a b}, less a b = false → less b a = false → key a = key b

namespace Orders

variable {α β κ ι : Type} {less less₁ less₂ : α → α → Bool} {key : α → κ} {key₁ : α → κ}
  {key₂ : α → ι}

theorem of_linear [LE κ] [LT κ] [DecidableLT κ] [Std.IsLinearOrder κ] [Std.LawfulOrderLT κ]
    (key : α → κ) : Orders (fun a b => decide (key a < key b)) key where
  asymm h := decide_eq_false
    (Std.not_lt.mpr (Std.le_of_lt (of_decide_eq_true h)))
  trans h h' := decide_eq_false (Std.not_lt.mpr
    (Std.le_trans (Std.not_lt.mp (of_decide_eq_false h')) (Std.not_lt.mp (of_decide_eq_false h))))
  total h h' := Std.le_antisymm (Std.not_lt.mp (of_decide_eq_false h'))
    (Std.not_lt.mp (of_decide_eq_false h))

theorem comap (h : Orders less key) (f : β → α) :
    Orders (fun a b => less (f a) (f b)) fun b => key (f b) :=
  ⟨h.asymm, h.trans, h.total⟩

/-- The same order with the greater elements first. -/
theorem flip (h : Orders less key) : Orders (fun a b => less b a) key :=
  ⟨h.asymm, fun h1 h2 => h.trans h2 h1, fun h1 h2 => h.total h2 h1⟩

theorem irrefl (h : Orders less key) (a : α) : less a a = false := by
  cases hl : less a a with
  | false => rfl
  | true => exact hl.symm.trans (h.asymm hl)

theorem strict_trans (h : Orders less key) {a b c : α} (hab : less a b = true)
    (hbc : less b c = true) : less a c = true := by
  by_contra hac
  have := h.trans (Bool.eq_false_iff.mpr hac) (h.asymm hbc)
  rw [hab] at this
  cases this

/-- The first order decides, and the second one where the first does not. -/
def lex (less₁ less₂ : α → α → Bool) (a b : α) : Bool :=
  less₁ a b || !less₁ b a && less₂ a b

theorem lex_iff {a b : α} : lex less₁ less₂ a b = true ↔
    less₁ a b = true ∨ less₁ b a = false ∧ less₂ a b = true := by
  rw [lex, Bool.or_eq_true, Bool.and_eq_true, Bool.not_eq_true']

theorem lex_eq_false {a b : α} : lex less₁ less₂ a b = false ↔
    less₁ a b = false ∧ (less₁ b a = true ∨ less₂ a b = false) := by
  rw [lex, Bool.or_eq_false_iff, Bool.and_eq_false_iff, Bool.not_eq_false']

theorem lex_eq_ite (a b : α) : lex less₁ less₂ a b =
    if less₁ a b then true else if less₁ b a then false else less₂ a b := by
  unfold lex
  cases less₁ a b <;> cases less₁ b a <;> rfl

theorem lexicographic (h₁ : Orders less₁ key₁) (h₂ : Orders less₂ key₂) :
    Orders (lex less₁ less₂) fun a => (key₁ a, key₂ a) where
  asymm {a b} h := by
    rw [lex_eq_false]
    rcases lex_iff.mp h with hl | ⟨hl, hl'⟩
    · exact ⟨h₁.asymm hl, .inl hl⟩
    · exact ⟨hl, .inr (h₂.asymm hl')⟩
  trans {a b c} hab hbc := by
    obtain ⟨hab, hab'⟩ := lex_eq_false.mp hab
    obtain ⟨hbc, hbc'⟩ := lex_eq_false.mp hbc
    refine lex_eq_false.mpr ⟨h₁.trans hab hbc, ?_⟩
    cases hca : less₁ c a with
    | true => exact .inl rfl
    | false =>
      -- neither step is decided by the first order, for it would decide the way back, too
      have hba : less₁ b a = false := h₁.trans hbc hca
      have hcb : less₁ c b = false := h₁.trans hca hab
      rw [hba] at hab'
      rw [hcb] at hbc'
      refine .inr (h₂.trans (hab'.resolve_left ?_) (hbc'.resolve_left ?_)) <;> simp
  total {a b} hab hba := by
    obtain ⟨hab, hab'⟩ := lex_eq_false.mp hab
    obtain ⟨hba, hba'⟩ := lex_eq_false.mp hba
    rw [hba] at hab'
    rw [hab] at hba'
    refine Prod.ext (h₁.total hab hba) (h₂.total (hab'.resolve_left ?_) (hba'.resolve_left ?_)) <;>
      simp

/-- A comparison that goes on to the next one at equal keys. -/
theorem ite_ne_eq_lex [DecidableEq κ] {key : α → κ}
    (h : ∀ {a b}, key a = key b → less₁ a b = false)
    (htotal : ∀ {a b}, less₁ a b = false → less₁ b a = false → key a = key b) (a b : α) :
    (if key a ≠ key b then less₁ a b else less₂ a b) = lex less₁ less₂ a b := by
  unfold lex
  by_cases hkey : key a = key b
  · rw [if_neg (not_not.mpr hkey), h hkey, h hkey.symm]
    rfl
  · rw [if_pos hkey]
    cases hab : less₁ a b with
    | true => rfl
    | false =>
      cases hba : less₁ b a with
      | true => rfl
      | false => exact absurd (htotal hab hba) hkey

section Keys

variable [LE κ] [LT κ] [DecidableLT κ] [DecidableEq κ] [Std.IsLinearOrder κ]
  [Std.LawfulOrderLT κ]

theorem smaller_first (key : α → κ) (a b : α) :
    (if key a ≠ key b then decide (key a < key b) else less₂ a b) =
      lex (fun a b => decide (key a < key b)) less₂ a b := by
  have hless : ∀ {a b : α}, key a = key b → decide (key a < key b) = false := fun he => by
    rw [he]
    exact decide_eq_false Std.lt_irrefl
  exact @ite_ne_eq_lex _ _ (fun a b => decide (key a < key b)) _ _ key hless
    (of_linear key).total a b

theorem greater_first (key : α → κ) (a b : α) :
    (if key a ≠ key b then decide (key b < key a) else less₂ a b) =
      lex (fun a b => decide (key b < key a)) less₂ a b := by
  have hless : ∀ {a b : α}, key a = key b → decide (key b < key a) = false := fun he => by
    rw [he]
    exact decide_eq_false Std.lt_irrefl
  exact @ite_ne_eq_lex _ _ (fun a b => decide (key b < key a)) _ _ key hless
    (of_linear key).flip.total a b

end Keys

/-- A comparison that asks for equality, where this asks that neither comes first. -/
theorem lt_or_eq_and [LE κ] [LT κ] [DecidableLT κ] [DecidableEq κ] [Std.IsLinearOrder κ]
    [Std.LawfulOrderLT κ] (a b : κ) (t : Bool) :
    (decide (a < b) || decide (a = b) && t) = (decide (a < b) || !decide (b < a) && t) := by
  by_cases hab : a < b
  · rw [decide_eq_true hab, Bool.true_or, Bool.true_or]
  · by_cases hba : b < a
    · have hne : a ≠ b := fun he => hab (he ▸ he ▸ hba)
      rw [decide_eq_false hab, decide_eq_false hne, decide_eq_true hba]
      rfl
    · have heq : a = b := Std.le_antisymm (Std.not_lt.mp hba) (Std.not_lt.mp hab)
      rw [decide_eq_true heq, decide_eq_false hba]
      rfl

/-! ## Sorting -/

open BoundedTable

variable {xs ys : List α}

theorem pairwise_sortBy (h : Orders less key) (xs : List α) :
    (sortBy less xs).Pairwise fun a b => less b a = false := by
  have htotal : Std.Total fun a b : α => less b a = false := ⟨fun a b => by
    cases hl : less b a with
    | false => exact .inl rfl
    | true => exact .inr (h.asymm hl)⟩
  have htrans : IsTrans α fun a b => less b a = false := ⟨fun _ _ _ hab hbc => h.trans hbc hab⟩
  exact List.pairwise_insertionSort _ xs

/-- Two arrangements of elements with different keys are sorted alike. -/
theorem sort_eq (h : Orders less key) (hp : xs.Perm ys) (hn : (xs.map key).Nodup) :
    sortBy less xs = sortBy less ys := by
  have hsorted : (sortBy less xs).Perm (sortBy less ys) :=
    sortBy_perm.trans (hp.trans sortBy_perm.symm)
  refine hsorted.eq_of_pairwise (fun a b ha hb hab hba => ?_) (h.pairwise_sortBy xs)
    (h.pairwise_sortBy ys)
  have hb' : b ∈ xs := hp.mem_iff.mpr (mem_sortBy.mp hb)
  exact List.inj_on_of_nodup_map hn (mem_sortBy.mp ha) hb' (h.total hba hab)

/-! ## Searching -/

/-- An element that none of a list comes before. -/
def First (less : α → α → Bool) (xs : List α) (a : α) : Prop :=
  a ∈ xs ∧ ∀ x ∈ xs, less x a = false

theorem First.unique (h : Orders less key) (hn : (xs.map key).Nodup) {a b : α}
    (ha : First less xs a) (hb : First less xs b) : a = b :=
  List.inj_on_of_nodup_map hn ha.1 hb.1 (h.total (hb.2 a ha.1) (ha.2 b hb.1))

/-- One round of a search: an element takes the place of the best one so far when it comes
before it. -/
def earlier (less : α → α → Bool) (best x : α) : α := if less x best then x else best

theorem search_first (h : Orders less key) (best : α) (xs : List α) :
    First less (best :: xs) (xs.foldl (earlier less) best) := by
  induction xs generalizing best with
  | nil =>
    refine ⟨List.mem_cons_self, fun x hx => ?_⟩
    rw [List.mem_singleton.mp hx]
    exact h.irrefl best
  | cons y ys ih =>
    obtain ⟨hmem, hnone⟩ := ih (earlier less best y)
    have hround := hnone _ List.mem_cons_self
    rw [List.foldl_cons]
    revert hmem hnone hround
    generalize ys.foldl (earlier less) (earlier less best y) = found
    unfold earlier
    intro hmem hnone hround
    cases hl : less y best with
    | true =>
      rw [hl, if_pos rfl] at hmem hnone hround
      refine ⟨List.mem_cons_of_mem _ hmem, fun x hx => ?_⟩
      rcases List.mem_cons.mp hx with rfl | hx
      · exact h.trans (h.asymm hl) hround
      · exact hnone x hx
    | false =>
      rw [hl, if_neg Bool.false_ne_true] at hmem hnone hround
      refine ⟨?_, fun x hx => ?_⟩
      · rcases List.mem_cons.mp hmem with rfl | hm
        · exact List.mem_cons_self
        · exact List.mem_cons_of_mem _ (List.mem_cons_of_mem _ hm)
      · rcases List.mem_cons.mp hx with rfl | hx
        · exact hround
        rcases List.mem_cons.mp hx with rfl | hx
        · exact h.trans hl hround
        · exact hnone x (List.mem_cons_of_mem _ hx)

end Orders
