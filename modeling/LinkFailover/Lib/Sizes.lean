import LinkFailover.Lib.Codec

/-!
# Exact sizes of encodings

A writer that adds a number of bytes to every buffer, whatever is in it. The size of a list of
fields is the sum of theirs, so a size is found field by field, in the order in which they are
written.
-/

namespace Codec.Writer

/-- `f` adds `n` bytes to a writer that has not failed, and lets it go on. -/
def Takes (f : Writer → Writer) (n : Nat) : Prop :=
  ∀ w : Writer, w.ok = true → (f w).ok = true ∧ (f w).buffer.length = w.buffer.length + n

namespace Takes

variable {α : Type} {f : Writer → Writer} {fs : List (Writer → Writer)} {m n : Nat}

theorem run (h : Takes f n) : (Writer.run f).length = n := by
  have hlength := (h {} rfl).2
  rwa [List.length_nil, Nat.zero_add] at hlength

theorem append (bs : Bytes) : Takes (fun w => w.append bs) bs.length := by
  intro w hw
  dsimp only
  rw [Writer.append.eq_def, if_pos hw]
  exact ⟨hw, List.length_append⟩

theorem nil : Takes (Writer.fields []) 0 := fun _ hw => ⟨hw, rfl⟩

theorem cons (hf : Takes f m) (hfs : Takes (Writer.fields fs) n) :
    Takes (Writer.fields (f :: fs)) (m + n) := by
  intro w hw
  obtain ⟨hok, hlength⟩ := hf w hw
  obtain ⟨hok', hlength'⟩ := hfs (f w) hok
  refine ⟨hok', ?_⟩
  change (Writer.fields fs (f w)).buffer.length = _
  omega

theorem u16 (v : UInt16) : Takes (Writer.u16 v) 2 := append (leBytes 2 v.toNat)

theorem u32 (v : UInt32) : Takes (Writer.u32 v) 4 := append (leBytes 4 v.toNat)

theorem u64 (v : UInt64) : Takes (Writer.u64 v) 8 := append (leBytes 8 v.toNat)

theorem bool8 (v : Bool) : Takes (Writer.bool8 v) 1 := append [if v then 1 else 0]

theorem fixed (v : FixedBytes n) : Takes (Writer.fixed v) n := by
  have h := append v.bytes
  rwa [v.size] at h

theorem blob {v : Bytes} {maxLen : Nat} (h : v.length ≤ maxLen) :
    Takes (Writer.blob v maxLen) (4 + v.length) := by
  intro w hw
  unfold Writer.blob
  rw [if_pos hw, if_neg (Nat.not_lt_of_le h)]
  exact cons (u32 (UInt32.ofNat v.length)) (cons (append v) nil) w hw

/-- An absent field takes its flag only. -/
theorem option {enc : α → Writer → Writer} (o : Option α) {size : α → Nat}
    (h : ∀ a, Takes (enc a) (size a)) :
    Takes (Writer.option enc o) (1 + (o.map size).getD 0) := by
  cases o with
  | none => exact bool8 false
  | some a =>
    have ha : Takes (Writer.fields [enc a]) (size a) := h a
    exact cons (bool8 true) ha

theorem each {enc : α → Writer → Writer} {size : α → Nat} (xs : List α)
    (h : ∀ a ∈ xs, Takes (enc a) (size a)) :
    Takes (Writer.each enc xs) (xs.map size).sum := by
  induction xs with
  | nil => exact nil
  | cons x xs ih =>
    rw [List.map_cons, List.sum_cons]
    have htail : Takes (Writer.fields [Writer.each enc xs]) _ :=
      ih fun a ha => h a (List.mem_cons_of_mem x ha)
    exact cons (h x List.mem_cons_self) htail

end Takes

end Codec.Writer
