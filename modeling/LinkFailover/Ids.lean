import LinkFailover.Outcome
import LinkFailover.Hash

/-!
# Identities and generations

Every counter that binds authority has a type of its own, so that one generation cannot
stand in the place of another. A name is absent or satisfies the identity grammar: the
parser and the decoders build no other.
-/

namespace LinkFailover

open Codec

/-! ## Checked counters -/

def checkedAddU64 (a b : UInt64) : Option UInt64 :=
  if a > 0xFFFFFFFFFFFFFFFF - b then none else some (a + b)

structure StrongUint (Tag Rep : Type) where
  value : Rep

namespace StrongUint

variable {Tag : Type}

instance {Rep : Type} [DecidableEq Rep] : DecidableEq (StrongUint Tag Rep) := fun a b =>
  decidable_of_iff (a.value = b.value) ⟨fun h => by cases a; cases b; cases h; rfl, congrArg _⟩

def zero : StrongUint Tag UInt64 := ⟨0⟩

instance : Inhabited (StrongUint Tag UInt64) := ⟨zero⟩
instance : Inhabited (StrongUint Tag UInt32) := ⟨⟨0⟩⟩

def isZero (a : StrongUint Tag UInt64) : Bool := a.value == 0

instance : LT (StrongUint Tag UInt64) := ⟨fun a b => a.value < b.value⟩
instance : LE (StrongUint Tag UInt64) := ⟨fun a b => a.value ≤ b.value⟩
instance : DecidableLT (StrongUint Tag UInt64) := fun a b => UInt64.decLt a.value b.value
instance : DecidableLE (StrongUint Tag UInt64) := fun a b => UInt64.decLe a.value b.value

/-- The successor, or nothing where it would wrap. -/
def next (a : StrongUint Tag UInt64) : Option (StrongUint Tag UInt64) :=
  (checkedAddU64 a.value 1).map fun v => ⟨v⟩

def toNat (a : StrongUint Tag UInt64) : Nat := a.value.toNat

theorem lt_iff {a b : StrongUint Tag UInt64} : a < b ↔ a.toNat < b.toNat := UInt64.lt_iff_toNat_lt

theorem le_iff {a b : StrongUint Tag UInt64} : a ≤ b ↔ a.toNat ≤ b.toNat := UInt64.le_iff_toNat_le

theorem toNat_inj {a b : StrongUint Tag UInt64} : a.toNat = b.toNat ↔ a = b := by
  constructor
  · intro h
    cases a
    cases b
    exact congrArg _ (UInt64.toNat_inj.mp h)
  · rintro rfl
    rfl

/-- What is left when neither a regression nor the same value is given. -/
theorem lt_of_not {a b : StrongUint Tag UInt64} (hlt : ¬ a < b) (hne : a ≠ b) : b < a := by
  rw [lt_iff] at hlt ⊢
  exact Nat.lt_of_le_of_ne (Nat.le_of_not_lt hlt) fun h => hne (toNat_inj.mp h.symm)

end StrongUint

theorem checkedAddU64_one {a b : UInt64} (h : checkedAddU64 a 1 = some b) :
    b.toNat = a.toNat + 1 := by
  unfold checkedAddU64 at h
  split at h
  · cases h
  · rename_i hle
    cases h
    rw [gt_iff_lt, UInt64.lt_iff_toNat_lt] at hle
    have hm : (0xFFFFFFFFFFFFFFFF - 1 : UInt64).toNat = 2 ^ 64 - 2 := rfl
    rw [UInt64.toNat_add, UInt64.toNat_one, Nat.mod_eq_of_lt (by omega)]

theorem StrongUint.next_toNat {Tag : Type} {a b : StrongUint Tag UInt64} (h : a.next = some b) :
    b.toNat = a.toNat + 1 := by
  obtain ⟨v, hv, rfl⟩ := Option.map_eq_some_iff.mp h
  exact checkedAddU64_one hv

inductive LinkGenerationTag
inductive TopologyGenerationTag
inductive PolicyGenerationTag
inductive EpochTag
inductive AttemptSeqTag
inductive ObservationSeqTag
inductive LineageSeqTag
inductive ConfidenceTag

abbrev LinkGeneration := StrongUint LinkGenerationTag UInt64
abbrev TopologyGeneration := StrongUint TopologyGenerationTag UInt64
abbrev PolicyGeneration := StrongUint PolicyGenerationTag UInt64
abbrev Epoch := StrongUint EpochTag UInt64
abbrev AttemptSeq := StrongUint AttemptSeqTag UInt64
abbrev ObservationSeq := StrongUint ObservationSeqTag UInt64
abbrev LineageSeq := StrongUint LineageSeqTag UInt64
/-- Parts per thousand. -/
abbrev Confidence := StrongUint ConfidenceTag UInt32

def kMaxConfidence : UInt32 := 1000

/-! ## Names -/

def kMaxNameLength : Nat := 64

def isNameByte (ch : UInt8) : Bool :=
  (97 ≤ ch && ch ≤ 122) || (65 ≤ ch && ch ≤ 90) || (48 ≤ ch && ch ≤ 57) ||
    ch == 46 || ch == 95 || ch == 45 || ch == 58

/-- The identity grammar: one to 64 bytes out of letters, digits, `.`, `_`, `-` and `:`,
except `.` and `..`. -/
def isValidName (text : Bytes) : Bool :=
  !text.isEmpty && text.length ≤ kMaxNameLength && text != [46] && text != [46, 46] &&
    text.all isNameByte

structure StrongName (Tag : Type) where
  value : Bytes
  valid : value = [] ∨ isValidName value = true

namespace StrongName

variable {Tag : Type}

def none : StrongName Tag := ⟨[], .inl rfl⟩

instance : Inhabited (StrongName Tag) := ⟨none⟩

def parse (text : Bytes) : Result (StrongName Tag) :=
  if h : isValidName text = true then .ok ⟨text, .inr h⟩
  else fail .invalid .invalidArgument "name rejected by identity grammar"

def empty (n : StrongName Tag) : Bool := n.value.isEmpty

instance : LT (StrongName Tag) := ⟨fun a b => a.value < b.value⟩
instance : DecidableLT (StrongName Tag) := fun a b => a.value.decidableLT b.value

@[ext] theorem ext {a b : StrongName Tag} (h : a.value = b.value) : a = b := by
  cases a
  cases b
  cases h
  rfl

instance : DecidableEq (StrongName Tag) := fun a b =>
  decidable_of_iff (a.value = b.value) ⟨ext, congrArg _⟩

theorem length_le (n : StrongName Tag) : n.value.length ≤ kMaxNameLength := by
  rcases n.valid with h | h
  · simp [h]
  · simp only [isValidName, Bool.and_eq_true, decide_eq_true_eq] at h
    exact h.1.1.1.2

theorem parse_ok {n : StrongName Tag} (h : n.empty = false) : parse n.value = .ok n := by
  rcases n.valid with he | hv
  · simp [empty, he] at h
  · simp [parse, hv]

end StrongName

/-- A name that may be absent: no text is the empty name, any other text must satisfy the
grammar. -/
def decodeName {Tag : Type} (text : Bytes) : Option (StrongName Tag) :=
  if text.isEmpty then some .none else (StrongName.parse text).toOption

theorem decodeName_value {Tag : Type} (n : StrongName Tag) : decodeName n.value = some n := by
  unfold decodeName
  split
  · rename_i h
    exact congrArg some (StrongName.ext (List.isEmpty_iff.mp h).symm)
  · rename_i h
    rw [StrongName.parse_ok (by simpa [StrongName.empty] using h)]
    rfl

inductive FabricNameTag
inductive LinkNameTag
inductive PublisherNameTag

abbrev FabricName := StrongName FabricNameTag
abbrev LinkName := StrongName LinkNameTag
abbrev PublisherName := StrongName PublisherNameTag

/-- A link is named by its fabric and its own name, ordered in that order. -/
structure LinkKey where
  fabric : FabricName := .none
  link : LinkName := .none
  deriving DecidableEq

namespace LinkKey

instance : Inhabited LinkKey := ⟨{}⟩

def empty (k : LinkKey) : Bool := k.fabric.empty || k.link.empty

def less (a b : LinkKey) : Bool :=
  if a.fabric < b.fabric then true
  else if b.fabric < a.fabric then false
  else a.link < b.link

end LinkKey

/-- The identity of one process boot. -/
abbrev Incarnation := FixedBytes 16

/-! ## Fields of encoded records -/

def kMaxEncodedString : Nat := 4096

end LinkFailover

namespace Codec

open LinkFailover

def Writer.name {Tag : Type} (n : StrongName Tag) : Writer → Writer :=
  Writer.blob n.value kMaxEncodedString

def Writer.uint {Tag : Type} (v : StrongUint Tag UInt64) : Writer → Writer := Writer.u64 v.value

def Parser.str : Parser Bytes := Parser.blob kMaxEncodedString

theorem RoundTrip.name {Tag : Type} (n : StrongName Tag) :
    RoundTrip (Writer.name n) Parser.str n.value :=
  .blob (Nat.le_trans n.length_le (by decide)) (Nat.lt_of_le_of_lt n.length_le (by decide))

theorem RoundTrip.uint {Tag : Type} (v : StrongUint Tag UInt64) :
    RoundTrip (Writer.uint v) Parser.u64 v.value :=
  .u64 v.value

end Codec
