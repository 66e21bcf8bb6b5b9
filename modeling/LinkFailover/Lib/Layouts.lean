import LinkFailover.Lib.Codec

/-!
# Layouts of encodings

A layout says where the bytes of an encoding stand, and which of them are flags. A parser that
takes every byte but zero for a flag that is up accepts more than one spelling of a value. What it
accepts is laid out as the encoding is, and it is the encoding itself exactly if no flag is spelled
with another byte than zero or one.

* `Layout.flags`: the bytes at the front of an input that are read as flags.
* `Spells`: what a parser accepts is a spelling of what an encoder writes.
* `Spells.canonical_iff`: when it is the encoding itself.
* `Spells.refuses_front`: no parser that spells takes a part of an encoding for the whole.
-/

namespace Codec

/-- Where the bytes stand. What follows a count may depend on it. -/
inductive Layout where
  | empty
  | bytes (n : Nat)
  | text
  | flag
  | optional (inner : Layout)
  | times (n : Nat) (item : Layout)
  | counted (rest : Nat → Layout)
  | seq (first second : Layout)

namespace Layout

/-- One layout after the other. -/
def fields (ls : List Layout) (last : Layout) : Layout := ls.foldr seq last

/-- Passes over the front of an input, and returns the bytes that are flags. -/
def walk : Layout → Parser Bytes
  | empty => pure []
  | bytes n => do
    let _ ← Parser.take n
    return []
  | text => do
    let n ← Parser.u32
    let _ ← Parser.take n.toNat
    return []
  | flag => do
    let b ← Parser.u8
    return [b]
  | optional inner => do
    let b ← Parser.u8
    if b != 0 then return b :: (← walk inner) else return [b]
  | times n item => do
    let xs ← Parser.many (walk item) n
    return xs.flatten
  | counted rest => do
    let n ← Parser.u32
    walk (rest n.toNat)
  | seq first second => do
    let xs ← walk first
    let ys ← walk second
    return xs ++ ys

/-- The flags at the front of an input, as far as it has the layout. -/
def flags (l : Layout) (bs : Bytes) : Bytes := ((l.walk bs).map Prod.fst).getD []

theorem many_stable {α : Type} {p : Parser α} (h : p.Stable) (n : Nat) :
    (Parser.many p n).Stable := by
  induction n with
  | zero => exact .pure _
  | succ n ih => exact h.bind fun _ => ih.bind fun _ => .pure _

theorem walk_stable (l : Layout) : l.walk.Stable := by
  induction l with
  | empty => exact .pure _
  | bytes n => exact (Parser.Stable.take n).bind fun _ => .pure _
  | text => exact Parser.Stable.u32.bind fun n => (Parser.Stable.take _).bind fun _ => .pure _
  | flag => exact ((Parser.Stable.take 1).bind fun _ => .pure _).bind fun _ => .pure _
  | optional inner ih =>
    refine ((Parser.Stable.take 1).bind fun _ => .pure _).bind fun b => ?_
    split
    · exact ih.bind fun _ => .pure _
    · exact .pure _
  | times n item ih => exact (many_stable ih n).bind fun _ => .pure _
  | counted rest ih => exact Parser.Stable.u32.bind fun n => ih _
  | seq first second ih ih' => exact ih.bind fun _ => ih'.bind fun _ => .pure _

end Layout

/-! ## Spellings -/

/-- At the front of an input stands a spelling of what `f` writes: it is laid out in that way, it is
as long, and it is the same exactly if every flag is zero or one. -/
structure Spelling (f : Writer → Writer) (l : Layout) (bs rest : Bytes) : Prop where
  appends : Writer.Appends f
  spelled : ∃ c flags, bs = c ++ rest ∧ l.walk bs = some (flags, rest) ∧
    c.length = (Writer.run f).length ∧ (c = Writer.run f ↔ ∀ b ∈ flags, b.toNat ≤ 1)

namespace Spelling

variable {f : Writer → Writer} {fs : List (Writer → Writer)} {l l' : Layout}
  {bs mid rest : Bytes}

theorem nil (bs : Bytes) : Spelling (Writer.fields []) .empty bs bs :=
  ⟨.nil, [], [], rfl, rfl, rfl, by simp [Writer.run, Writer.fields]⟩

/-- A part without flags. -/
theorem plain {c : Bytes} (hf : ∀ w, f w = w.append c) (hbs : bs = c ++ rest)
    (hwalk : l.walk bs = some ([], rest)) : Spelling f l bs rest := by
  have hrun : Writer.run f = c := by rw [Writer.run, hf, Writer.append_empty]
  exact ⟨.of_eq hf, c, [], hbs, hwalk, by rw [hrun], by simp [hrun]⟩

theorem append (h : Spelling f l bs mid) (h' : Spelling (Writer.fields fs) l' mid rest) :
    Spelling (Writer.fields (f :: fs)) (.seq l l') bs rest := by
  obtain ⟨ha, c, flags, rfl, hwalk, hlength, hiff⟩ := h
  obtain ⟨ha', c', flags', rfl, hwalk', hlength', hiff'⟩ := h'
  have hrun := ha.run_cons ha'
  refine ⟨ha.cons ha', c ++ c', flags ++ flags', (List.append_assoc ..).symm, ?_, ?_, ?_⟩
  · change ((l.walk _).bind fun x => (l'.walk x.2).bind fun y => some (x.1 ++ y.1, y.2)) = _
    rw [hwalk]
    change ((l'.walk _).bind fun y => some (flags ++ y.1, y.2)) = _
    rw [hwalk']
    rfl
  · rw [hrun, List.length_append, List.length_append, hlength, hlength']
  · rw [hrun, List.forall_mem_append, ← hiff, ← hiff']
    constructor
    · exact fun heq => List.append_inj heq hlength
    · rintro ⟨rfl, rfl⟩
      rfl

end Spelling

/-- What `p` accepts is a spelling of what `enc` writes. -/
def Spells {α : Type} (p : Parser α) (l : Layout) (enc : α → Writer → Writer) : Prop :=
  ∀ bs a rest, p bs = some (a, rest) → Spelling (enc a) l bs rest

/-- The same for what is read behind other fields: the value tells the encoders of the fields behind
these, and what is known of it is told in turn. -/
def SpellsFields {β : Type} (p : Parser β) (l : Layout) (fs : β → List (Writer → Writer))
    (Q : β → Prop) : Prop :=
  ∀ bs b rest, p bs = some (b, rest) → Spelling (Writer.fields (fs b)) l bs rest ∧ Q b

section Parsers

variable {α β : Type} {bs rest : Bytes}

theorem bind_eq_some {p : Parser α} {k : α → Parser β} {b : β}
    (h : (p >>= k) bs = some (b, rest)) :
    ∃ a mid, p bs = some (a, mid) ∧ k a mid = some (b, rest) := by
  obtain ⟨⟨a, mid⟩, h₁, h₂⟩ := Option.bind_eq_some_iff.mp h
  exact ⟨a, mid, h₁, h₂⟩

theorem take_eq_some {n : Nat} {c : Bytes} (h : Parser.take n bs = some (c, rest)) :
    bs = c ++ rest ∧ c.length = n := by
  unfold Parser.take at h
  split at h
  · rename_i hn
    cases h
    exact ⟨(List.take_append_drop n bs).symm, List.length_take_of_le hn⟩
  · cases h

end Parsers

/-! ## Fields -/

namespace Spells

variable {bs rest : Bytes}

theorem ofNat_leValue {c : Bytes} {w : Nat} (h : c.length = w) :
    leBytes w (leValue c % 256 ^ w) = c := by
  subst h
  rw [Nat.mod_eq_of_lt (leValue_lt c), leBytes_leValue]

/-- A number of fixed width. -/
theorem number_eq_some {α : Type} {w : Nat} {ofNat : Nat → α} (toNat : α → Nat) {a : α}
    (hnat : ∀ n, toNat (ofNat n) = n % 256 ^ w)
    (h : (do let bs ← Parser.take w; return ofNat (leValue bs) : Parser α) bs = some (a, rest)) :
    bs = leBytes w (toNat a) ++ rest := by
  obtain ⟨c, mid, h₁, h₂⟩ := bind_eq_some h
  cases h₂
  obtain ⟨hbs, hlength⟩ := take_eq_some h₁
  rw [hnat, ofNat_leValue hlength]
  exact hbs

theorem u8_eq_some {b : UInt8} (h : Parser.u8 bs = some (b, rest)) : bs = b :: rest := by
  have := number_eq_some UInt8.toNat (fun _ => UInt8.toNat_ofNat') h
  rwa [leBytes, leBytes, UInt8.ofNat_toNat] at this

theorem u32_eq_some {n : UInt32} (h : Parser.u32 bs = some (n, rest)) :
    bs = leBytes 4 n.toNat ++ rest := number_eq_some UInt32.toNat (fun _ => UInt32.toNat_ofNat') h

theorem walk_bytes {c : Bytes} (n : Nat) (hc : c.length = n) (rest : Bytes) :
    (Layout.bytes n).walk (c ++ rest) = some ([], rest) := by
  change (Parser.take n _).bind _ = _
  rw [Reads.take hc rest]
  rfl

theorem fixed_width {c : Bytes} {f : Writer → Writer} {n : Nat} (hf : ∀ w, f w = w.append c)
    (hc : c.length = n) (hbs : bs = c ++ rest) : Spelling f (.bytes n) bs rest :=
  .plain hf hbs (hbs ▸ walk_bytes n hc rest)

theorem u16 : Spells Parser.u16 (.bytes 2) Writer.u16 := fun _ _ _ h =>
  fixed_width (fun _ => rfl) (leBytes_length 2 _) (number_eq_some UInt16.toNat (fun _ => UInt16.toNat_ofNat') h)

theorem u32 : Spells Parser.u32 (.bytes 4) Writer.u32 := fun _ _ _ h =>
  fixed_width (fun _ => rfl) (leBytes_length 4 _) (u32_eq_some h)

theorem u64 : Spells Parser.u64 (.bytes 8) Writer.u64 := fun _ _ _ h =>
  fixed_width (fun _ => rfl) (leBytes_length 8 _) (number_eq_some UInt64.toNat (fun _ => UInt64.toNat_ofNat') h)

theorem fixed (n : Nat) : Spells (Parser.fixed n) (.bytes n) Writer.fixed := by
  intro bs a rest h
  unfold Parser.fixed at h
  split at h
  · cases h
    exact fixed_width (fun _ => rfl) (FixedBytes.size _) (List.take_append_drop n bs).symm
  · cases h

theorem blob_eq_some {m : Nat} {v : Bytes} (h : Parser.blob m bs = some (v, rest)) :
    ∃ n mid, Parser.u32 bs = some (n, mid) ∧ n.toNat ≤ m ∧
      Parser.take n.toNat mid = some (v, rest) := by
  obtain ⟨n, mid, h₁, h₂⟩ := bind_eq_some h
  obtain ⟨_, mid', h₃, h₄⟩ := bind_eq_some h₂
  unfold Parser.require at h₃
  split at h₃
  · rename_i hn
    cases h₃
    exact ⟨n, mid, h₁, of_decide_eq_true hn, h₄⟩
  · cases h₃

theorem blob_length {m : Nat} {v : Bytes} (h : Parser.blob m bs = some (v, rest)) :
    v.length ≤ m := by
  obtain ⟨n, mid, -, hn, h₄⟩ := blob_eq_some h
  exact (take_eq_some h₄).2 ▸ hn

theorem blob (m : Nat) : Spells (Parser.blob m) .text fun v => Writer.blob v m := by
  intro bs v rest h
  obtain ⟨n, mid, h₁, hn, h₄⟩ := blob_eq_some h
  obtain ⟨hmid, hlength⟩ := take_eq_some h₄
  have hbs := u32_eq_some h₁
  refine .plain (c := leBytes 4 n.toNat ++ v) (fun w => ?_) ?_ ?_
  · dsimp only
    rw [Writer.blob_eq (hlength ▸ hn), hlength, UInt32.ofNat_toNat]
  · rw [hbs, hmid, List.append_assoc]
  · change (Parser.u32 bs).bind _ = _
    rw [h₁]
    change (Parser.take n.toNat mid).bind _ = _
    rw [h₄]
    rfl

theorem bounded (m : Nat) :
    Spells (Parser.bounded m) .text fun v : BoundedBytes m => Writer.blob v.val m := by
  intro bs v rest h
  obtain ⟨c, mid, h₁, h₂⟩ := bind_eq_some h
  split at h₂
  · cases h₂
    exact blob m bs c _ h₁
  · cases h₂

/-- A byte that stands for a flag is what would be written for it exactly if it is zero or one. -/
theorem flag_eq_iff (b : UInt8) : b = (if b != 0 then 1 else 0) ↔ b.toNat ≤ 1 := by
  by_cases hb : b = 0
  · subst hb
    exact iff_of_true rfl (Nat.zero_le 1)
  · have hne : b.toNat ≠ 0 := fun h => hb (UInt8.toNat_inj.mp h)
    rw [if_pos (bne_iff_ne.mpr hb), ← UInt8.toNat_inj]
    change b.toNat = 1 ↔ b.toNat ≤ 1
    omega

theorem bool8_eq_some {v : Bool} (h : Parser.bool8 bs = some (v, rest)) :
    ∃ b, Parser.u8 bs = some (b, rest) ∧ bs = b :: rest ∧ v = (b != 0) := by
  obtain ⟨b, mid, h₁, h₂⟩ := bind_eq_some h
  cases h₂
  exact ⟨b, h₁, u8_eq_some h₁, rfl⟩

theorem bool8 : Spells Parser.bool8 .flag Writer.bool8 := by
  intro bs v rest h
  obtain ⟨b, hu, hbs, rfl⟩ := bool8_eq_some h
  have hrun : Writer.run (Writer.bool8 (b != 0)) = [if b != 0 then 1 else 0] := rfl
  refine ⟨.of_eq fun _ => rfl, [b], [b], hbs, ?_, rfl, ?_⟩
  · change (Parser.u8 bs).bind _ = _
    rw [hu]
    rfl
  · rw [hrun, List.forall_mem_singleton, List.cons.injEq, and_iff_left rfl, flag_eq_iff]

theorem option {α : Type} {p : Parser α} {l : Layout} {enc : α → Writer → Writer}
    (hp : Spells p l enc) : Spells (Parser.option p) (.optional l) (Writer.option enc) := by
  intro bs o rest h
  obtain ⟨v, mid, h₁, h₂⟩ := bind_eq_some h
  obtain ⟨b, hu, hbs, rfl⟩ := bool8_eq_some h₁
  by_cases hb : (b != 0) = true
  · rw [if_pos hb] at h₂
    obtain ⟨a, mid', h₃, h₄⟩ := bind_eq_some h₂
    cases h₄
    obtain ⟨ha, c, flags, hmid, hwalk, hlength, hiff⟩ := hp mid a rest h₃
    have hflag : Writer.Appends (Writer.bool8 true) := .of_eq fun _ => rfl
    have ha' : Writer.Appends (Writer.fields [enc a]) := ha
    have hrun : Writer.run (Writer.fields [Writer.bool8 true, enc a]) =
        [if b != 0 then 1 else 0] ++ Writer.run (enc a) := by
      rw [hb]
      exact hflag.run_cons ha'
    refine ⟨hflag.cons ha', b :: c, b :: flags, ?_, ?_, ?_, ?_⟩
    · rw [hbs, hmid, List.cons_append]
    · change (Parser.u8 bs).bind _ = _
      rw [hu]
      change (if b != 0 then _ else _ : Parser Bytes) mid = _
      rw [if_pos hb]
      change (l.walk mid).bind _ = _
      rw [hwalk]
      rfl
    · change _ = (Writer.run (Writer.fields [Writer.bool8 true, enc a])).length
      rw [hrun, List.length_append, List.length_cons, hlength, Nat.add_comm]
      rfl
    · change _ = Writer.run (Writer.fields [Writer.bool8 true, enc a]) ↔ _
      rw [hrun, List.singleton_append, List.cons.injEq, List.forall_mem_cons, flag_eq_iff, hiff]
  · rw [if_neg hb] at h₂
    cases h₂
    obtain rfl : b = 0 := by simpa using hb
    refine ⟨.of_eq fun _ => rfl, [0], [0], hbs, ?_, rfl, ?_⟩
    · change (Parser.u8 bs).bind _ = _
      rw [hu]
      rfl
    · exact iff_of_true rfl (List.forall_mem_singleton.mpr (Nat.zero_le 1))

/-- A list of a known length. -/
theorem many {α : Type} {p : Parser α} {l : Layout} {enc : α → Writer → Writer}
    (hp : Spells p l enc) {n : Nat} {bs rest : Bytes} {xs : List α}
    (h : Parser.many p n bs = some (xs, rest)) :
    xs.length = n ∧ Spelling (Writer.each enc xs) (.times n l) bs rest := by
  induction n generalizing bs xs with
  | zero =>
    cases h
    exact ⟨rfl, .plain (c := []) (fun w => (Writer.append_nil w).symm) rfl rfl⟩
  | succ n ih =>
    obtain ⟨x, mid, h₁, h₂⟩ := bind_eq_some h
    obtain ⟨ys, _, h₃, h₄⟩ := bind_eq_some h₂
    cases h₄
    obtain ⟨hlength, htail⟩ := ih h₃
    have hitems : Spelling (Writer.fields [Writer.each enc ys]) (.times n l) mid rest := htail
    refine ⟨congrArg (· + 1) hlength, ?_⟩
    obtain ⟨ha, c, flags, hbs, hwalk, hrest⟩ := (hp bs x mid h₁).append hitems
    refine ⟨ha, c, flags, hbs, ?_, hrest⟩
    -- the items are walked through one after the other
    obtain ⟨first, mid₁, hf, hothers⟩ := bind_eq_some hwalk
    obtain ⟨others, mid₂, ho, hflags⟩ := bind_eq_some hothers
    obtain ⟨fss, mid₃, hm, hflatten⟩ := bind_eq_some ho
    cases hflatten
    cases hflags
    change ((l.walk bs).bind fun z => (Parser.many l.walk n z.2).bind fun y => _).bind _ = _
    rw [hf]
    change ((Parser.many l.walk n mid₁).bind fun y => _).bind _ = _
    rw [hm]
    rfl

end Spells

namespace SpellsFields

variable {α β : Type} {p : Parser α} {k : α → Parser β} {l l' : Layout} {enc : α → Writer → Writer}
  {f : β → Writer → Writer} {fs : β → List (Writer → Writer)} {Q : β → Prop}

theorem pure {b : β} (h : Q b) : SpellsFields (pure b) .empty (fun _ => []) Q := by
  intro bs b' rest hb
  cases hb
  exact ⟨.nil _, h⟩

/-- Field by field, in the order in which they are read. -/
theorem cons (hp : Spells p l enc)
    (hk : ∀ a, SpellsFields (k a) l' fs fun b => f b = enc a ∧ Q b) :
    SpellsFields (p >>= k) (.seq l l') (fun b => f b :: fs b) Q := by
  intro bs b rest h
  obtain ⟨a, mid, h₁, h₂⟩ := bind_eq_some h
  obtain ⟨hs, hf, hq⟩ := hk a mid b rest h₂
  refine ⟨?_, hq⟩
  dsimp only
  rw [hf]
  exact (hp bs a mid h₁).append hs

/-- A text is within the bound of its reader. -/
theorem blob {m : Nat} {k : Bytes → Parser β}
    (hk : ∀ v, v.length ≤ m → SpellsFields (k v) l' fs fun b => f b = Writer.blob v m ∧ Q b) :
    SpellsFields (Parser.blob m >>= k) (.seq .text l') (fun b => f b :: fs b) Q := by
  intro bs b rest h
  obtain ⟨v, mid, h₁, h₂⟩ := bind_eq_some h
  obtain ⟨hs, hf, hq⟩ := hk v (Spells.blob_length h₁) mid b rest h₂
  refine ⟨?_, hq⟩
  dsimp only
  rw [hf]
  exact (Spells.blob m bs v mid h₁).append hs

/-- A check between two fields. -/
theorem require {c : Bool} {k : Unit → Parser β} (hk : c = true → SpellsFields (k ()) l fs Q) :
    SpellsFields (Parser.require c >>= k) l fs Q := by
  intro bs b rest h
  obtain ⟨a, mid, h₁, h₂⟩ := bind_eq_some h
  unfold Parser.require at h₁
  split at h₁
  · rename_i hc
    cases h₁
    exact hk hc bs b rest h₂
  · cases h₁

theorem lift {o : Option α} (hk : ∀ a, o = some a → SpellsFields (k a) l fs Q) :
    SpellsFields (Parser.lift o >>= k) l fs Q := by
  intro bs b rest h
  obtain ⟨a, mid, h₁, h₂⟩ := bind_eq_some h
  cases o with
  | none => cases h₁
  | some _ =>
    cases h₁
    exact hk _ rfl _ b rest h₂

/-- A list behind its count, which the layout already knows. -/
theorem times {enc : α → Writer → Writer} {n : Nat} {k : List α → Parser β}
    (hp : Spells p l enc) (hk : ∀ xs, xs.length = n →
      SpellsFields (k xs) l' fs fun b => f b = Writer.each enc xs ∧ Q b) :
    SpellsFields (Parser.many p n >>= k) (.seq (.times n l) l') (fun b => f b :: fs b) Q := by
  intro bs b rest h
  obtain ⟨xs, mid, h₁, h₂⟩ := bind_eq_some h
  obtain ⟨hlength, hspells⟩ := hp.many h₁
  obtain ⟨hs, hf, hq⟩ := hk xs hlength mid b rest h₂
  refine ⟨?_, hq⟩
  dsimp only
  rw [hf]
  exact hspells.append hs

theorem counted {k : UInt32 → Parser β} {L : Nat → Layout}
    (hk : ∀ n, SpellsFields (k n) (L n.toNat) fs fun b => f b = Writer.u32 n ∧ Q b) :
    SpellsFields (Parser.u32 >>= k) (.counted L) (fun b => f b :: fs b) Q := by
  intro bs b rest h
  obtain ⟨n, mid, h₁, h₂⟩ := bind_eq_some h
  obtain ⟨hs, hf, hq⟩ := hk n mid b rest h₂
  refine ⟨?_, hq⟩
  dsimp only
  rw [hf]
  obtain ⟨ha, c, flags, rfl, hwalk, hlength, hiff⟩ := hs
  have hbs := Spells.u32_eq_some h₁
  have hn : Writer.Appends (Writer.u32 n) := .of_eq fun _ => rfl
  have hrun : Writer.run (Writer.fields (Writer.u32 n :: fs b)) =
      leBytes 4 n.toNat ++ Writer.run (Writer.fields (fs b)) := hn.run_cons ha
  refine ⟨hn.cons ha, leBytes 4 n.toNat ++ c, flags, ?_, ?_, ?_, ?_⟩
  · rw [hbs, List.append_assoc]
  · change (Parser.u32 bs).bind _ = _
    rw [h₁]
    exact hwalk
  · rw [hrun, List.length_append, List.length_append, hlength]
  · rw [hrun, List.append_cancel_left_eq, hiff]

end SpellsFields

/-- A parser that reads field by field. -/
theorem Spells.of_fields {α : Type} {p : Parser α} {l : Layout} {fs : α → List (Writer → Writer)}
    (h : SpellsFields p l fs fun _ => True) : Spells p l fun a => Writer.fields (fs a) :=
  fun bs a rest ha => (h bs a rest ha).1

section Conclusions

variable {α : Type} {p : Parser α} {l : Layout} {enc : α → Writer → Writer} {bs rest : Bytes}
  {a : α}

/-- What is accepted is the encoding of its value exactly if every flag is zero or one. -/
theorem Spells.canonical_iff (h : Spells p l enc) (ha : p bs = some (a, rest)) :
    bs = Writer.run (enc a) ++ rest ↔ ∀ b ∈ l.flags bs, b.toNat ≤ 1 := by
  obtain ⟨-, c, flags, rfl, hwalk, -, hiff⟩ := h bs a rest ha
  have hflags : l.flags (c ++ rest) = flags := by
    rw [Layout.flags, hwalk]
    rfl
  rw [hflags, ← hiff]
  exact List.append_left_inj rest

/-- A parser that takes back what was written takes no front of it. -/
theorem Spells.refuses_front (h : Spells p l enc) {f : Writer → Writer} {front more : Bytes}
    (hf : RoundTrip f p a) (hrun : Writer.run f = front ++ more) (hmore : more ≠ []) :
    p front = none := by
  cases hp : p front with
  | none => rfl
  | some x =>
    obtain ⟨b, rest⟩ := x
    obtain ⟨-, c, flags, -, hwalk, -⟩ := h front b rest hp
    have hwhole := hf.reads []
    rw [List.append_nil] at hwhole
    obtain ⟨-, c', flags', -, hwalk', -⟩ := h _ a [] hwhole
    rw [hrun, l.walk_stable front flags rest hwalk more] at hwalk'
    have hnil : rest ++ more = [] := congrArg Prod.snd (Option.some.inj hwalk')
    exact absurd (List.append_eq_nil_iff.mp hnil).2 hmore

end Conclusions

end Codec
