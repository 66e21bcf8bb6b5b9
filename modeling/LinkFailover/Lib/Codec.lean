import Mathlib.Algebra.Ring.Nat
import Mathlib.Data.List.Basic
import Mathlib.Tactic.Common

/-!
# Byte writers, byte parsers and what they have in common

A writer appends fields to a buffer and gives up for good at the first field that
breaks its bound. A parser takes fields from the front of its input and fails as a
whole as soon as one field is missing. `RoundTrip f p a` says that `p` consumes exactly
what `f` writes and returns `a` in front of any rest; the lemmas below build such facts
field by field, in the order in which they are written and read.
-/

namespace Codec

abbrev Bytes := List UInt8

/-- The bytes of a literal of the program text. -/
def text (s : String) : Bytes := s.toList.map fun c => UInt8.ofNat c.toNat

/-! ## Little-endian numbers -/

/-- The low `w` bytes of `n`, least significant first. -/
def leBytes : Nat → Nat → Bytes
  | 0, _ => []
  | w + 1, n => UInt8.ofNat n :: leBytes w (n / 256)

def leValue : Bytes → Nat
  | [] => 0
  | b :: bs => b.toNat + 256 * leValue bs

@[simp] theorem leBytes_length (w n : Nat) : (leBytes w n).length = w := by
  induction w generalizing n with
  | zero => rfl
  | succ w ih => simp [leBytes, ih]

theorem leValue_leBytes (w n : Nat) : leValue (leBytes w n) = n % 256 ^ w := by
  induction w generalizing n with
  | zero => simp [leBytes, leValue, Nat.mod_one]
  | succ w ih =>
    rw [leBytes, leValue, ih, Nat.pow_succ, Nat.mul_comm (256 ^ w) 256, Nat.mod_mul]
    simp

theorem leValue_lt (bs : Bytes) : leValue bs < 256 ^ bs.length := by
  induction bs with
  | nil => simp [leValue]
  | cons b bs ih =>
    have hb := b.toNat_lt
    rw [leValue, List.length_cons, Nat.pow_succ]
    omega

theorem leBytes_leValue (bs : Bytes) : leBytes bs.length (leValue bs) = bs := by
  induction bs with
  | nil => rfl
  | cons b bs ih =>
    have hb := b.toNat_lt
    have hdiv : (b.toNat + 256 * leValue bs) / 256 = leValue bs := by omega
    have hmod : UInt8.ofNat (b.toNat + 256 * leValue bs) = b := by
      apply UInt8.toNat_inj.mp
      rw [UInt8.toNat_ofNat']
      omega
    rw [leValue, List.length_cons, leBytes, hdiv, hmod, ih]

/-! ## Arrays of a fixed size -/

structure FixedBytes (n : Nat) where
  bytes : Bytes
  size : bytes.length = n
  deriving DecidableEq

namespace FixedBytes

def zero (n : Nat) : FixedBytes n := ⟨List.replicate n 0, List.length_replicate⟩

instance (n : Nat) : Inhabited (FixedBytes n) := ⟨zero n⟩

def isZero {n : Nat} (a : FixedBytes n) : Bool := a.bytes.all (· == 0)

@[ext] theorem ext {n : Nat} {a b : FixedBytes n} (h : a.bytes = b.bytes) : a = b := by
  cases a
  cases b
  cases h
  rfl

end FixedBytes

/-- Byte strings of at most `n` bytes. -/
abbrev BoundedBytes (n : Nat) := { bs : Bytes // bs.length ≤ n }

def BoundedBytes.empty (n : Nat) : BoundedBytes n := ⟨[], Nat.zero_le n⟩

/-! ## Writers -/

structure Writer where
  buffer : Bytes := []
  ok : Bool := true

namespace Writer

def append (w : Writer) (bs : Bytes) : Writer :=
  if w.ok then { w with buffer := w.buffer ++ bs } else w

def u8 (v : UInt8) (w : Writer) : Writer := w.append [v]
def u16 (v : UInt16) (w : Writer) : Writer := w.append (leBytes 2 v.toNat)
def u32 (v : UInt32) (w : Writer) : Writer := w.append (leBytes 4 v.toNat)
def u64 (v : UInt64) (w : Writer) : Writer := w.append (leBytes 8 v.toNat)
def bool8 (v : Bool) (w : Writer) : Writer := w.u8 (if v then 1 else 0)
def fixed {n : Nat} (v : FixedBytes n) (w : Writer) : Writer := w.append v.bytes

/-- A field that is written only when it is there, after a flag that says so. -/
def option {α : Type} (enc : α → Writer → Writer) (o : Option α) (w : Writer) : Writer :=
  match o with
  | some a => enc a (bool8 true w)
  | none => bool8 false w

/-- A length-prefixed field. A value above the bound marks the writer failed and
writes nothing. -/
def blob (v : Bytes) (maxLen : Nat) (w : Writer) : Writer :=
  if w.ok then
    if v.length > maxLen then { w with ok := false }
    else (w.u32 (UInt32.ofNat v.length)).append v
  else w

/-- Fields one after the other. -/
def fields (fs : List (Writer → Writer)) (w : Writer) : Writer := fs.foldl (fun w f => f w) w

/-- The elements of a list, one after the other. -/
def each {α : Type} (enc : α → Writer → Writer) (xs : List α) (w : Writer) : Writer :=
  xs.foldl (fun w x => enc x w) w

theorem append_append (w : Writer) (a b : Bytes) :
    (w.append a).append b = w.append (a ++ b) := by
  unfold append
  split <;> simp_all

@[simp] theorem append_nil (w : Writer) : w.append [] = w := by
  unfold append
  split <;> simp

@[simp] theorem append_mk (a bs : Bytes) :
    (({ buffer := a } : Writer).append bs) = { buffer := a ++ bs } := rfl

@[simp] theorem append_empty (bs : Bytes) : (({} : Writer).append bs) = { buffer := bs } := by
  simp [append]

theorem blob_eq {v : Bytes} {maxLen : Nat} (h : v.length ≤ maxLen) (w : Writer) :
    w.blob v maxLen = w.append (leBytes 4 (UInt32.ofNat v.length).toNat ++ v) := by
  have hle : ¬ v.length > maxLen := by omega
  simp only [blob, hle, if_false, u32, append_append]
  split
  · rfl
  · simp_all [append]

end Writer

/-! ## Parsers -/

/-- A parser returns a value and the bytes it left, or nothing. The first field that
cannot be read decides, whatever is asked for afterwards. -/
abbrev Parser (α : Type) := StateT Bytes Option α

namespace Parser

def take (n : Nat) : Parser Bytes := fun bs =>
  if n ≤ bs.length then some (bs.take n, bs.drop n) else none

def u8 : Parser UInt8 := do
  let bs ← take 1
  return UInt8.ofNat (leValue bs)

def u16 : Parser UInt16 := do
  let bs ← take 2
  return UInt16.ofNat (leValue bs)

def u32 : Parser UInt32 := do
  let bs ← take 4
  return UInt32.ofNat (leValue bs)

def u64 : Parser UInt64 := do
  let bs ← take 8
  return UInt64.ofNat (leValue bs)

def bool8 : Parser Bool := do
  let b ← u8
  return b != 0

def fixed (n : Nat) : Parser (FixedBytes n) := fun bs =>
  if h : n ≤ bs.length then
    some (⟨bs.take n, by rw [List.length_take, Nat.min_eq_left h]⟩, bs.drop n)
  else none

/-- Goes on only when the condition holds. -/
def require (b : Bool) : Parser Unit := fun bs => if b then some ((), bs) else none

/-- A value computed without reading, or failure. -/
def lift {α : Type} (a : Option α) : Parser α := fun bs => a.map fun x => (x, bs)

def blob (maxLen : Nat) : Parser Bytes := do
  let n ← u32
  require (n.toNat ≤ maxLen)
  take n.toNat

/-- The same bytes together with their bound. -/
def bounded (maxLen : Nat) : Parser (BoundedBytes maxLen) := do
  let bs ← blob maxLen
  if h : bs.length ≤ maxLen then return ⟨bs, h⟩ else lift none

/-- A value behind a flag. -/
def option {α : Type} (p : Parser α) : Parser (Option α) := do
  if ← bool8 then return some (← p) else return none

/-- `p` repeated `n` times. -/
def many {α : Type} (p : Parser α) : Nat → Parser (List α)
  | 0 => pure []
  | n + 1 => do
    let a ← p
    let as ← many p n
    return a :: as

/-- The value of a parser that must use up its input. -/
def whole {α : Type} (p : Parser α) (bs : Bytes) : Option α :=
  match p bs with
  | some (a, []) => some a
  | _ => none

end Parser

/-! ## Reading exactly what was written -/

/-- In front of any rest, `p` consumes `bs` and returns `a`. -/
def Reads {α : Type} (p : Parser α) (bs : Bytes) (a : α) : Prop :=
  ∀ rest, p (bs ++ rest) = some (a, rest)

namespace Reads

variable {α β : Type}

theorem pure (a : α) : Reads (pure a : Parser α) [] a := fun _ => rfl

theorem bind {p : Parser α} {f : α → Parser β} {bs bs' : Bytes} {a : α} {b : β}
    (hp : Reads p bs a) (hf : Reads (f a) bs' b) : Reads (p >>= f) (bs ++ bs') b := by
  intro rest
  have h : p (bs ++ bs' ++ rest) = some (a, bs' ++ rest) := by
    rw [List.append_assoc]
    exact hp _
  change (p (bs ++ bs' ++ rest)).bind _ = _
  rw [h]
  exact hf rest

/-- The last field of a record: nothing is read after it. -/
theorem map {p : Parser α} {f : α → Parser β} {bs : Bytes} {a : α} {b : β}
    (hp : Reads p bs a) (hf : Reads (f a) [] b) : Reads (p >>= f) bs b := by
  simpa using bind hp hf

theorem require {b : Bool} (h : b = true) : Reads (Parser.require b) [] () := by
  intro rest
  simp [Parser.require, h]

theorem lift {a : Option α} {x : α} (h : a = some x) : Reads (Parser.lift a) [] x := by
  intro rest
  simp [Parser.lift, h]

theorem take {n : Nat} {bs : Bytes} (h : bs.length = n) : Reads (Parser.take n) bs bs := by
  intro rest
  simp [Parser.take, ← h]

theorem u8 (v : UInt8) : Reads Parser.u8 [v] v := by
  refine map (take rfl) ?_
  intro rest
  rw [show leValue [v] = v.toNat by simp [leValue], UInt8.ofNat_toNat]
  rfl

theorem u16 (v : UInt16) : Reads Parser.u16 (leBytes 2 v.toNat) v := by
  refine map (take (leBytes_length 2 _)) ?_
  intro rest
  have hv := v.toNat_lt
  rw [leValue_leBytes, Nat.mod_eq_of_lt (by omega), UInt16.ofNat_toNat]
  rfl

theorem u32 (v : UInt32) : Reads Parser.u32 (leBytes 4 v.toNat) v := by
  refine map (take (leBytes_length 4 _)) ?_
  intro rest
  have hv := v.toNat_lt
  rw [leValue_leBytes, Nat.mod_eq_of_lt (by omega), UInt32.ofNat_toNat]
  rfl

theorem u64 (v : UInt64) : Reads Parser.u64 (leBytes 8 v.toNat) v := by
  refine map (take (leBytes_length 8 _)) ?_
  intro rest
  have hv := v.toNat_lt
  rw [leValue_leBytes, Nat.mod_eq_of_lt (by omega), UInt64.ofNat_toNat]
  rfl

theorem bool8 (v : Bool) : Reads Parser.bool8 [if v then 1 else 0] v := by
  refine map (u8 _) ?_
  intro rest
  cases v <;> rfl

theorem fixed {n : Nat} (v : FixedBytes n) : Reads (Parser.fixed n) v.bytes v := by
  intro rest
  have h : n ≤ (v.bytes ++ rest).length := by
    rw [List.length_append, v.size]
    omega
  simp only [Parser.fixed, h, dite_true, Option.some.injEq, Prod.mk.injEq]
  constructor
  · ext1
    simp [← v.size]
  · simp [← v.size]

theorem blob {v : Bytes} {maxLen : Nat} (h : v.length ≤ maxLen) (h32 : v.length < 2 ^ 32) :
    Reads (Parser.blob maxLen) (leBytes 4 (UInt32.ofNat v.length).toNat ++ v) v := by
  have hn : (UInt32.ofNat v.length).toNat = v.length := by
    rw [UInt32.toNat_ofNat', Nat.mod_eq_of_lt h32]
  refine bind (u32 _) ?_
  refine @bind _ _ _ _ [] _ _ _ (require (by simp [hn, h])) ?_
  exact take hn.symm

end Reads

/-! ## Round trips -/

/-- What `f` writes, `p` reads back as `a`, in front of any rest. -/
def RoundTrip {α : Type} (f : Writer → Writer) (p : Parser α) (a : α) : Prop :=
  ∃ bs, (∀ w, f w = w.append bs) ∧ Reads p bs a

/-- What `f` writes on its own. -/
def Writer.run (f : Writer → Writer) : Bytes := (f {}).buffer

/-- `f` only appends, and cannot fail. -/
def Writer.Appends (f : Writer → Writer) : Prop := ∀ w, f w = w.append (Writer.run f)

namespace Writer.Appends

variable {α : Type} {f : Writer → Writer} {fs : List (Writer → Writer)}

theorem of_eq {bs : Bytes} (h : ∀ w, f w = w.append bs) : Writer.Appends f := by
  intro w
  rw [Writer.run, h, h, Writer.append_empty]

theorem ok (h : Writer.Appends f) : (f {}).ok = true := by
  rw [h, Writer.append_empty]

theorem nil : Writer.Appends (Writer.fields []) := of_eq fun w => (Writer.append_nil w).symm

theorem run_cons (hf : Writer.Appends f) (hfs : Writer.Appends (Writer.fields fs)) :
    Writer.run (Writer.fields (f :: fs)) = Writer.run f ++ Writer.run (Writer.fields fs) := by
  have h : Writer.fields (f :: fs) {} = Writer.fields fs (f {}) := rfl
  rw [Writer.run, h, hfs, hf, Writer.append_empty, Writer.append_mk]

theorem cons (hf : Writer.Appends f) (hfs : Writer.Appends (Writer.fields fs)) :
    Writer.Appends (Writer.fields (f :: fs)) := by
  refine of_eq fun w => (?_ : _ = w.append (Writer.run f ++ Writer.run (Writer.fields fs)))
  change Writer.fields fs (f w) = _
  rw [hfs, hf, Writer.append_append]

theorem each {enc : α → Writer → Writer} {xs : List α} (h : ∀ x ∈ xs, Writer.Appends (enc x)) :
    Writer.Appends (Writer.each enc xs) ∧
      Writer.run (Writer.each enc xs) = xs.flatMap fun x => Writer.run (enc x) := by
  induction xs with
  | nil => exact ⟨nil, rfl⟩
  | cons x xs ih =>
    have hx := h x List.mem_cons_self
    obtain ⟨ha, hr⟩ := ih fun y hy => h y (List.mem_cons_of_mem _ hy)
    have ha' : Writer.Appends (Writer.fields [Writer.each enc xs]) := ha
    refine ⟨cons hx ha', ?_⟩
    rw [List.flatMap_cons, ← hr]
    exact run_cons hx ha'

end Writer.Appends

namespace RoundTrip

variable {α β : Type} {f : Writer → Writer} {fs : List (Writer → Writer)}

theorem appends {p : Parser α} {a : α} (h : RoundTrip f p a) : Writer.Appends f := by
  obtain ⟨bs, hw, -⟩ := h
  exact .of_eq hw

theorem reads {p : Parser α} {a : α} (h : RoundTrip f p a) : Reads p (Writer.run f) a := by
  obtain ⟨bs, hw, hr⟩ := h
  rwa [Writer.run, hw, Writer.append_empty]

theorem whole {p : Parser α} {a : α} (h : RoundTrip f p a) :
    p.whole (Writer.run f) = some a := by
  have hr := h.reads []
  rw [List.append_nil] at hr
  simp [Parser.whole, hr]

/-- Field by field, in the order in which they are written. -/
theorem cons {p : Parser α} {k : α → Parser β} {a : α} {b : β} (hf : RoundTrip f p a)
    (hfs : RoundTrip (Writer.fields fs) (k a) b) :
    RoundTrip (Writer.fields (f :: fs)) (p >>= k) b := by
  obtain ⟨bs, hw, hr⟩ := hf
  obtain ⟨bs', hw', hr'⟩ := hfs
  refine ⟨bs ++ bs', fun w => ?_, hr.bind hr'⟩
  rw [Writer.fields, List.foldl_cons, hw]
  exact (hw' _).trans (Writer.append_append _ _ _)

theorem nil (a : α) : RoundTrip (Writer.fields []) (pure a) a :=
  ⟨[], fun w => (Writer.append_nil w).symm, .pure a⟩

theorem last {p : Parser α} {a : α} (hf : RoundTrip f p a) : RoundTrip (Writer.fields [f]) p a := hf

/-- A check between two fields reads nothing. -/
theorem require {c : Bool} {k : Unit → Parser β} {b : β} (hc : c = true)
    (h : RoundTrip f (k ()) b) : RoundTrip f (Parser.require c >>= k) b := by
  obtain ⟨bs, hw, hr⟩ := h
  exact ⟨bs, hw, by simpa using (Reads.require hc).bind hr⟩

theorem lift {o : Option α} {k : α → Parser β} {a : α} {b : β} (ho : o = some a)
    (h : RoundTrip f (k a) b) : RoundTrip f (Parser.lift o >>= k) b := by
  obtain ⟨bs, hw, hr⟩ := h
  exact ⟨bs, hw, by simpa using (Reads.lift ho).bind hr⟩

theorem u8 (v : UInt8) : RoundTrip (Writer.u8 v) Parser.u8 v := ⟨_, fun _ => rfl, .u8 v⟩

theorem u16 (v : UInt16) : RoundTrip (Writer.u16 v) Parser.u16 v := ⟨_, fun _ => rfl, .u16 v⟩

theorem u32 (v : UInt32) : RoundTrip (Writer.u32 v) Parser.u32 v := ⟨_, fun _ => rfl, .u32 v⟩

theorem u64 (v : UInt64) : RoundTrip (Writer.u64 v) Parser.u64 v := ⟨_, fun _ => rfl, .u64 v⟩

theorem bool8 (v : Bool) : RoundTrip (Writer.bool8 v) Parser.bool8 v :=
  ⟨_, fun _ => rfl, .bool8 v⟩

theorem fixed {n : Nat} (v : FixedBytes n) : RoundTrip (Writer.fixed v) (Parser.fixed n) v :=
  ⟨_, fun _ => rfl, .fixed v⟩

theorem blob {v : Bytes} {maxLen : Nat} (h : v.length ≤ maxLen) (h32 : v.length < 2 ^ 32) :
    RoundTrip (Writer.blob v maxLen) (Parser.blob maxLen) v :=
  ⟨_, fun w => Writer.blob_eq h w, .blob h h32⟩

theorem bounded {n : Nat} (v : BoundedBytes n) (hn : n < 2 ^ 32) :
    RoundTrip (Writer.blob v.val n) (Parser.bounded n) v := by
  change RoundTrip (Writer.fields [Writer.blob v.val n]) _ _
  refine cons (blob v.property (Nat.lt_of_le_of_lt v.property hn)) ?_
  rw [dif_pos v.property]
  exact nil _

theorem optionMap {enc : α → Writer → Writer} {p : Parser β} (o : Option α) (g : α → β)
    (h : ∀ a, RoundTrip (enc a) p (g a)) :
    RoundTrip (Writer.option enc o) (Parser.option p) (o.map g) := by
  cases o with
  | none =>
    change RoundTrip (Writer.fields [Writer.bool8 false]) _ _
    exact cons (bool8 false) (nil _)
  | some a =>
    change RoundTrip (Writer.fields [Writer.bool8 true, enc a]) _ _
    refine cons (bool8 true) ?_
    exact cons (h a) (nil _)

theorem option {enc : α → Writer → Writer} {p : Parser α} (o : Option α)
    (h : ∀ a, RoundTrip (enc a) p a) : RoundTrip (Writer.option enc o) (Parser.option p) o := by
  have := optionMap o id h
  rwa [Option.map_id] at this

theorem each {enc : α → Writer → Writer} {p : Parser α} (xs : List α)
    (h : ∀ x ∈ xs, RoundTrip (enc x) p x) :
    RoundTrip (Writer.each enc xs) (Parser.many p xs.length) xs := by
  induction xs with
  | nil => exact nil []
  | cons x xs ih =>
    have hx := h x List.mem_cons_self
    have hxs := ih fun y hy => h y (List.mem_cons_of_mem _ hy)
    change RoundTrip (Writer.fields [enc x, Writer.each enc xs]) _ _
    exact cons hx (cons hxs (nil _))

end RoundTrip

/-! ## Lower bounds for the length of an encoding -/

/-- `p` succeeds only on inputs of at least `n` bytes. -/
def Parser.Needs {α : Type} (p : Parser α) (n : Nat) : Prop :=
  ∀ bs a rest, p bs = some (a, rest) → n ≤ bs.length

/-- A success of `p` uses up at least `n` bytes. -/
def Parser.Consumes {α : Type} (p : Parser α) (n : Nat) : Prop :=
  ∀ bs a rest, p bs = some (a, rest) → n + rest.length ≤ bs.length

namespace Parser

variable {α β : Type}

theorem Needs.zero {p : Parser α} : p.Needs 0 := fun _ _ _ _ => Nat.zero_le _

theorem Needs.bind {p : Parser α} {k : α → Parser β} {n m : Nat} (hp : p.Consumes n)
    (hk : ∀ a, (k a).Needs m) : (p >>= k).Needs (n + m) := by
  intro bs b rest h
  obtain ⟨⟨a, mid⟩, h1, h2⟩ := Option.bind_eq_some_iff.mp h
  have := hp bs a mid h1
  have := hk a mid b rest h2
  omega

theorem Consumes.take (n : Nat) : (Parser.take n).Consumes n := by
  intro bs a rest h
  unfold Parser.take at h
  split at h
  · cases h
    rw [List.length_drop]
    omega
  · cases h

theorem Consumes.map {p : Parser α} {n : Nat} (hp : p.Consumes n) (f : α → β) :
    (do let a ← p; return f a : Parser β).Consumes n := by
  intro bs b rest h
  obtain ⟨⟨a, mid⟩, h1, h2⟩ := Option.bind_eq_some_iff.mp h
  have h3 : rest = mid := by
    cases h2
    rfl
  rw [h3]
  exact hp bs a mid h1

theorem Consumes.u16 : Parser.u16.Consumes 2 := (Consumes.take 2).map _

theorem Consumes.u64 : Parser.u64.Consumes 8 := (Consumes.take 8).map _

theorem Consumes.fixed (n : Nat) : (Parser.fixed n).Consumes n := by
  intro bs a rest h
  unfold Parser.fixed at h
  split at h
  · cases h
    rw [List.length_drop]
    omega
  · cases h

theorem Consumes.blob (m : Nat) : (Parser.blob m).Consumes 4 := by
  intro bs b rest h
  obtain ⟨⟨n, mid⟩, h1, h2⟩ := Option.bind_eq_some_iff.mp h
  obtain ⟨⟨_, mid'⟩, h3, h4⟩ := Option.bind_eq_some_iff.mp h2
  have hu : Parser.u32.Consumes 4 := (Consumes.take 4).map _
  have h5 := hu bs n mid h1
  have h6 := Consumes.take _ _ _ _ h4
  unfold Parser.require at h3
  split at h3
  · cases h3
    omega
  · cases h3

/-- A success of `p` leaves all but the first `n` bytes. -/
def Leaves {α : Type} (p : Parser α) (n : Nat) : Prop :=
  ∀ bs a rest, p bs = some (a, rest) → n ≤ bs.length ∧ rest = bs.drop n

theorem Leaves.pure (a : α) : (pure a : Parser α).Leaves 0 := by
  intro bs b rest h
  cases h
  exact ⟨Nat.zero_le _, rfl⟩

theorem Leaves.bind {p : Parser α} {k : α → Parser β} {n m : Nat} (hp : p.Leaves n)
    (hk : ∀ a, (k a).Leaves m) : (p >>= k).Leaves (n + m) := by
  intro bs b rest h
  obtain ⟨⟨a, mid⟩, h1, h2⟩ := Option.bind_eq_some_iff.mp h
  obtain ⟨hn, rfl⟩ := hp bs a mid h1
  obtain ⟨hm, rfl⟩ := hk a _ b rest h2
  rw [List.length_drop] at hm
  exact ⟨by omega, List.drop_drop⟩

theorem Leaves.take (n : Nat) : (Parser.take n).Leaves n := by
  intro bs a rest h
  unfold Parser.take at h
  split at h
  · rename_i hn
    cases h
    exact ⟨hn, rfl⟩
  · cases h

theorem Leaves.u16 : Parser.u16.Leaves 2 := (Leaves.take 2).bind fun _ => .pure _

theorem Leaves.u32 : Parser.u32.Leaves 4 := (Leaves.take 4).bind fun _ => .pure _

theorem Leaves.u64 : Parser.u64.Leaves 8 := (Leaves.take 8).bind fun _ => .pure _

/-- What `p` makes of its input does not depend on what follows the bytes it reads. -/
def Stable {α : Type} (p : Parser α) : Prop :=
  ∀ bs a rest, p bs = some (a, rest) → ∀ more, p (bs ++ more) = some (a, rest ++ more)

theorem Stable.pure (a : α) : (pure a : Parser α).Stable := by
  intro bs b rest h more
  cases h
  rfl

theorem Stable.bind {p : Parser α} {k : α → Parser β} (hp : p.Stable) (hk : ∀ a, (k a).Stable) :
    (p >>= k).Stable := by
  intro bs b rest h more
  obtain ⟨⟨a, mid⟩, h1, h2⟩ := Option.bind_eq_some_iff.mp h
  change (p (bs ++ more)).bind _ = _
  rw [hp bs a mid h1 more]
  exact hk a mid b rest h2 more

theorem Stable.take (n : Nat) : (Parser.take n).Stable := by
  intro bs a rest h more
  unfold Parser.take at h ⊢
  split at h
  · rename_i hn
    cases h
    rw [if_pos (by rw [List.length_append]; omega), List.take_append_of_le_length hn,
      List.drop_append_of_le_length hn]
  · cases h

theorem Stable.u16 : Parser.u16.Stable := (Stable.take 2).bind fun _ => .pure _

theorem Stable.u32 : Parser.u32.Stable := (Stable.take 4).bind fun _ => .pure _

end Parser

theorem RoundTrip.length_le {α : Type} {f : Writer → Writer} {p : Parser α} {a : α} {n : Nat}
    (h : RoundTrip f p a) (hp : p.Needs n) : n ≤ (Writer.run f).length := by
  have hr := h.reads []
  rw [List.append_nil] at hr
  exact hp _ _ _ hr

/-- Encodings of at least `n` bytes add up. -/
theorem Writer.length_each {α : Type} {enc : α → Writer → Writer} {xs : List α} {n : Nat}
    (ha : ∀ x ∈ xs, Writer.Appends (enc x)) (hn : ∀ x ∈ xs, n ≤ (Writer.run (enc x)).length) :
    xs.length * n ≤ (Writer.run (Writer.each enc xs)).length := by
  rw [(Writer.Appends.each ha).2]
  clear ha
  induction xs with
  | nil => simp
  | cons x xs ih =>
    have h1 := hn x List.mem_cons_self
    have h2 := ih fun y hy => hn y (List.mem_cons_of_mem _ hy)
    rw [List.flatMap_cons, List.length_append, List.length_cons, Nat.succ_mul]
    omega

/-! ## Encodings that tell their values apart -/

/-- What is read back from one encoding is one value. -/
theorem RoundTrip.inj {α : Type} {f g : Writer → Writer} {p : Parser α} {a b : α}
    (ha : RoundTrip f p a) (hb : RoundTrip g p b) (h : Writer.run f = Writer.run g) : a = b := by
  have hread := ha.whole
  rw [h, hb.whole] at hread
  exact (Option.some.inj hread).symm

/-- A run of encodings that are not empty tells its values apart, also without their number. -/
theorem Writer.each_inj {α : Type} {enc : α → Writer → Writer} {p : Parser α}
    (h : ∀ x, RoundTrip (enc x) p x) (hn : ∀ x, 0 < (Writer.run (enc x)).length) {xs ys : List α}
    (he : Writer.run (Writer.each enc xs) = Writer.run (Writer.each enc ys)) : xs = ys := by
  rw [(Writer.Appends.each fun x _ => (h x).appends).2,
    (Writer.Appends.each fun x _ => (h x).appends).2] at he
  induction xs generalizing ys with
  | nil =>
    cases ys with
    | nil => rfl
    | cons y ys =>
      have hlen := congrArg List.length he
      have hy := hn y
      rw [List.flatMap_nil, List.flatMap_cons, List.length_append, List.length_nil] at hlen
      omega
  | cons x xs ih =>
    cases ys with
    | nil =>
      have hlen := congrArg List.length he
      have hx := hn x
      rw [List.flatMap_nil, List.flatMap_cons, List.length_append, List.length_nil] at hlen
      omega
    | cons y ys =>
      rw [List.flatMap_cons, List.flatMap_cons] at he
      have hx := (h x).reads (xs.flatMap fun x => Writer.run (enc x))
      rw [he, (h y).reads, Option.some.injEq, Prod.mk.injEq] at hx
      rw [hx.1, ih hx.2.symm]

/-! ## Upper bounds for the length of an encoding -/

/-- `f` adds at most `n` bytes, also to a writer that has failed. -/
def Writer.AtMost (f : Writer → Writer) (n : Nat) : Prop :=
  ∀ w, (f w).buffer.length ≤ w.buffer.length + n

namespace Writer.AtMost

variable {α : Type} {f : Writer → Writer} {fs : List (Writer → Writer)} {m n : Nat}

theorem run (h : Writer.AtMost f n) : (Writer.run f).length ≤ n := by
  have := h {}
  simpa [Writer.run] using this

theorem append (bs : Bytes) : Writer.AtMost (fun w => w.append bs) bs.length := by
  intro w
  dsimp only
  rw [Writer.append.eq_def]
  split
  · exact Nat.le_of_eq List.length_append
  · exact Nat.le_add_right _ _

theorem nil : Writer.AtMost (Writer.fields []) 0 := fun _ => Nat.le_refl _

theorem cons (hf : Writer.AtMost f m) (hfs : Writer.AtMost (Writer.fields fs) n) :
    Writer.AtMost (Writer.fields (f :: fs)) (m + n) := by
  intro w
  have h1 := hf w
  have h2 := hfs (f w)
  change (Writer.fields fs (f w)).buffer.length ≤ _
  omega

theorem mono (h : Writer.AtMost f m) (hmn : m ≤ n) : Writer.AtMost f n := fun w =>
  Nat.le_trans (h w) (Nat.add_le_add_left hmn _)

theorem u16 (v : UInt16) : Writer.AtMost (Writer.u16 v) 2 := append (leBytes 2 v.toNat)

theorem u32 (v : UInt32) : Writer.AtMost (Writer.u32 v) 4 := append (leBytes 4 v.toNat)

theorem u64 (v : UInt64) : Writer.AtMost (Writer.u64 v) 8 := append (leBytes 8 v.toNat)

theorem bool8 (v : Bool) : Writer.AtMost (Writer.bool8 v) 1 := append [if v then 1 else 0]

theorem fixed {n : Nat} (v : FixedBytes n) : Writer.AtMost (Writer.fixed v) n := by
  have := append v.bytes
  rwa [v.size] at this

theorem blob {v : Bytes} {maxLen : Nat} (h : v.length ≤ n) :
    Writer.AtMost (Writer.blob v maxLen) (4 + n) := by
  intro w
  unfold Writer.blob
  split
  · split
    · exact Nat.le_add_right _ _
    · have h1 := u32 (UInt32.ofNat v.length) w
      have h2 := append v (w.u32 (UInt32.ofNat v.length))
      dsimp only at h2
      omega
  · exact Nat.le_add_right _ _

/-- Of a value above its bound nothing is written. -/
theorem capped (v : Bytes) (maxLen : Nat) : Writer.AtMost (Writer.blob v maxLen) (4 + maxLen) := by
  by_cases h : v.length ≤ maxLen
  · exact blob h
  · intro w
    unfold Writer.blob
    rw [if_pos (Nat.lt_of_not_le h)]
    split <;> exact Nat.le_add_right _ _

theorem option {enc : α → Writer → Writer} (o : Option α) (h : ∀ a, Writer.AtMost (enc a) n) :
    Writer.AtMost (Writer.option enc o) (1 + n) := by
  cases o with
  | none => exact (bool8 false).mono (Nat.le_add_right _ _)
  | some a =>
    have ha : Writer.AtMost (Writer.fields [enc a]) n := h a
    exact cons (bool8 true) ha

theorem each {enc : α → Writer → Writer} (xs : List α) (h : ∀ a, Writer.AtMost (enc a) n) :
    Writer.AtMost (Writer.each enc xs) (xs.length * n) := by
  induction xs with
  | nil => exact fun _ => Nat.le_add_right _ _
  | cons x xs ih =>
    rw [List.length_cons, Nat.succ_mul, Nat.add_comm]
    have ih' : Writer.AtMost (Writer.fields [Writer.each enc xs]) _ := ih
    exact cons (h x) ih'

end Writer.AtMost

/-! ## Enumerations of a fixed width -/

/-- A number of sixteen bits for which an enumeration of `count` values declares no value. -/
structure Undeclared (count : Nat) where
  number : UInt16
  above : count ≤ number.toNat
  deriving DecidableEq, Repr

/-- A sixteen-bit enumeration whose declared values are numbered `0, 1, …` in the order of
`values`. The type may have more values than these: whoever fills a field of it can put any other
number there. An encoder writes such a number as it is, a decoder takes declared values only. -/
class WireEnum (α : Type) [DecidableEq α] where
  values : List α
  nodup : values.Nodup
  small : values.length < 65536
  undeclared? : α → Option (Undeclared values.length)
  declared_iff : ∀ a, undeclared? a = none ↔ a ∈ values
  undeclared_inj : ∀ {a b u}, undeclared? a = some u → undeclared? b = some u → a = b

/-- An enumeration that has its declared values alone. -/
class ClosedEnum (α : Type) [DecidableEq α] where
  values : List α
  complete : ∀ a, a ∈ values
  nodup : values.Nodup
  small : values.length < 65536

instance {α : Type} [DecidableEq α] [ClosedEnum α] : WireEnum α where
  values := ClosedEnum.values
  nodup := ClosedEnum.nodup
  small := ClosedEnum.small
  undeclared? _ := none
  declared_iff a := ⟨fun _ => ClosedEnum.complete a, fun _ => rfl⟩
  undeclared_inj h := nomatch h

namespace WireEnum

variable {α : Type} [DecidableEq α] [WireEnum α] {a b : α}

def Declared (a : α) : Prop := a ∈ values (α := α)

instance : Decidable (Declared a) := inferInstanceAs (Decidable (a ∈ values))

def code (a : α) : UInt16 :=
  match undeclared? a with
  | some u => u.number
  | none => UInt16.ofNat ((values (α := α)).idxOf a)

/-- The value of a number, or nothing when the number is not below the count. -/
def ofCode? (c : UInt16) : Option α := (values (α := α))[c.toNat]?

theorem code_toNat (h : Declared a) : (code a).toNat = (values (α := α)).idxOf a := by
  have hlt := List.idxOf_lt_length_iff.mpr h
  have hs := small (α := α)
  rw [code, (declared_iff a).mpr h]
  dsimp only
  rw [UInt16.toNat_ofNat', Nat.mod_eq_of_lt (by omega)]

theorem ofCode?_code (h : Declared a) : ofCode? (code a) = some a := by
  have hlt := List.idxOf_lt_length_iff.mpr h
  rw [ofCode?, code_toNat h, List.getElem?_eq_getElem hlt, List.getElem_idxOf]

theorem not_declared {u : Undeclared (values (α := α)).length} (h : undeclared? a = some u) :
    ¬Declared a := fun hd => by
  rw [(declared_iff a).mpr hd] at h
  cases h

theorem undeclared_code (h : ¬Declared a) :
    ∃ u, undeclared? a = some u ∧ code a = u.number := by
  cases hu : undeclared? a with
  | some u => exact ⟨u, rfl, by rw [code, hu]⟩
  | none => exact absurd ((declared_iff a).mp hu) h

/-- No decoder takes the number of a value that is not declared. -/
theorem ofCode?_undeclared (h : ¬Declared a) : ofCode? (code a) = (none : Option α) := by
  obtain ⟨u, -, hcode⟩ := undeclared_code h
  rw [ofCode?, hcode]
  exact List.getElem?_eq_none u.above

theorem ofCode?_declared {c : UInt16} (h : ofCode? c = some a) : Declared a :=
  List.mem_of_getElem? h

theorem code_inj (h : code a = code b) : a = b := by
  by_cases ha : Declared a <;> by_cases hb : Declared b
  · have := (ofCode?_code ha).symm.trans (h ▸ ofCode?_code hb)
    exact Option.some.inj this
  · have := (ofCode?_code ha).symm.trans (h ▸ ofCode?_undeclared hb)
    cases this
  · have := (ofCode?_undeclared ha).symm.trans (h ▸ ofCode?_code hb)
    cases this
  · obtain ⟨u, hu, hnumber⟩ := undeclared_code ha
    obtain ⟨v, hv, hother⟩ := undeclared_code hb
    have : u = v := by
      cases u
      cases v
      cases hnumber.symm.trans (h.trans hother)
      rfl
    exact undeclared_inj hu (this ▸ hv)

end WireEnum

theorem ClosedEnum.declared {α : Type} [DecidableEq α] [ClosedEnum α] (a : α) :
    WireEnum.Declared a :=
  ClosedEnum.complete a

theorem ClosedEnum.ofCode?_code {α : Type} [DecidableEq α] [ClosedEnum α] (a : α) :
    WireEnum.ofCode? (WireEnum.code a) = some a :=
  WireEnum.ofCode?_code (ClosedEnum.declared a)

end Codec
