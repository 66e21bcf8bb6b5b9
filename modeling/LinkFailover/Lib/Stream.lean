import LinkFailover.Lib.Codec

/-!
# Streams of items

A grammar looks at the front of a byte stream: it finds a whole item, or bytes that no item
starts with, or too few bytes to tell. What it finds does not change when more bytes follow.
Then one pass over a stream gives what passes over its pieces give, each over what the one
before left and the next piece.
-/

namespace Stream

open Codec

variable {α ε : Type}

/-- What stands at the front of a stream. -/
inductive Found (α ε : Type) where
  | more
  | item (a : α) (rest : Bytes)
  | bad (e : ε)

/-- The items of a stream, the bytes behind them, and why they cannot be the start of an
item. -/
structure Parse (α ε : Type) where
  items : List α
  rest : Bytes
  failure : Option ε

/-- At most the given number of items. -/
def parseUpTo (read : Bytes → Found α ε) : Nat → Bytes → Parse α ε
  | 0, bs => ⟨[], bs, none⟩
  | n + 1, bs =>
    match read bs with
    | .more => ⟨[], bs, none⟩
    | .bad e => ⟨[], bs, some e⟩
    | .item a rest =>
      let p := parseUpTo read n rest
      { p with items := a :: p.items }

def parse (read : Bytes → Found α ε) (bs : Bytes) : Parse α ε := parseUpTo read (bs.length + 1) bs

/-- What is found at the front of a stream does not depend on what follows, and an item takes
at least one byte. -/
structure Grammar (read : Bytes → Found α ε) : Prop where
  item_append : ∀ {bs a rest}, read bs = .item a rest → ∀ more, read (bs ++ more) =
    .item a (rest ++ more)
  bad_append : ∀ {bs e}, read bs = .bad e → ∀ more, read (bs ++ more) = .bad e
  item_shorter : ∀ {bs a rest}, read bs = .item a rest → rest.length < bs.length

namespace Grammar

variable {read : Bytes → Found α ε}

theorem parseUpTo_enough (g : Grammar read) {n m : Nat} {bs : Bytes} (hn : bs.length < n)
    (hm : bs.length < m) : parseUpTo read n bs = parseUpTo read m bs := by
  induction n generalizing m bs with
  | zero => exact absurd hn (Nat.not_lt_zero _)
  | succ n ih =>
    obtain ⟨m, rfl⟩ : ∃ k, m = k + 1 := ⟨m - 1, by omega⟩
    rw [parseUpTo, parseUpTo]
    cases hr : read bs with
    | more => rfl
    | bad e => rfl
    | item a rest =>
      have hlt := g.item_shorter hr
      dsimp only
      rw [ih (m := m) (by omega) (by omega)]

theorem parse_more {bs : Bytes} (h : read bs = .more) : parse read bs = ⟨[], bs, none⟩ := by
  rw [parse, parseUpTo, h]

theorem parse_bad {bs : Bytes} {e : ε} (h : read bs = .bad e) :
    parse read bs = ⟨[], bs, some e⟩ := by
  rw [parse, parseUpTo, h]

theorem parse_item (g : Grammar read) {bs : Bytes} {a : α} {rest : Bytes}
    (h : read bs = .item a rest) :
    parse read bs = { parse read rest with items := a :: (parse read rest).items } := by
  have hlt := g.item_shorter h
  rw [parse, parseUpTo, h]
  dsimp only
  rw [parse, g.parseUpTo_enough (m := rest.length + 1) hlt (Nat.lt_succ_self _)]

/-- Induction along the items of a stream. -/
theorem items_induct (g : Grammar read) {P : Bytes → Prop} (more : ∀ bs, read bs = .more → P bs)
    (bad : ∀ bs e, read bs = .bad e → P bs)
    (item : ∀ bs a rest, read bs = .item a rest → P rest → P bs) (bs : Bytes) : P bs := by
  induction hn : bs.length using Nat.strongRecOn generalizing bs with
  | ind n ih =>
    cases hr : read bs with
    | more => exact more bs hr
    | bad e => exact bad bs e hr
    | item a rest =>
      have hlt := g.item_shorter hr
      exact item bs a rest hr (ih rest.length (by omega) rest rfl)

/-- A stream that is refused is refused with whatever follows, with the same items. -/
theorem parse_append_bad (g : Grammar read) (bs more : Bytes) {e : ε}
    (h : (parse read bs).failure = some e) :
    (parse read (bs ++ more)).items = (parse read bs).items ∧
      (parse read (bs ++ more)).failure = some e := by
  induction bs using g.items_induct with
  | more bs hr =>
    rw [parse_more hr] at h
    cases h
  | bad bs e' hr =>
    rw [parse_bad hr] at h ⊢
    rw [parse_bad (g.bad_append hr more)]
    exact ⟨rfl, h⟩
  | item bs a rest hr ih =>
    rw [g.parse_item hr] at h ⊢
    rw [g.parse_item (g.item_append hr more)]
    obtain ⟨hi, hf⟩ := ih h
    exact ⟨congrArg (a :: ·) hi, hf⟩

/-- A pass over two pieces is a pass over the first, and one over what it left and the
second. -/
theorem parse_append (g : Grammar read) (bs more : Bytes)
    (h : (parse read bs).failure = none) :
    parse read (bs ++ more) =
      { parse read ((parse read bs).rest ++ more) with
        items := (parse read bs).items ++ (parse read ((parse read bs).rest ++ more)).items } := by
  induction bs using g.items_induct with
  | more bs hr =>
    rw [parse_more hr]
    rfl
  | bad bs e hr =>
    rw [parse_bad hr] at h
    cases h
  | item bs a rest hr ih =>
    rw [g.parse_item hr] at h ⊢
    rw [g.parse_item (g.item_append hr more), ih h]
    rfl

/-- Whole items one after the other. -/
theorem parse_items (g : Grammar read) {β : Type} {encode : β → Bytes} {decode : β → α}
    {xs : List β}
    (h : ∀ x ∈ xs, ∀ rest, read (encode x ++ rest) = .item (decode x) rest)
    (hnil : read [] = .more) :
    parse read (xs.flatMap encode) = ⟨xs.map decode, [], none⟩ := by
  induction xs with
  | nil => exact parse_more hnil
  | cons x xs ih =>
    rw [List.flatMap_cons, g.parse_item (h x List.mem_cons_self _),
      ih fun y hy => h y (List.mem_cons_of_mem _ hy)]
    rfl

end Grammar

end Stream
