import LinkFailover.Hash
import LinkFailover.Lib.ShiftRegister
import LinkFailover.Lib.Blocks

/-!
# Checksums and digests

Both are computed another way than they are defined. The checksum looks a byte up in a table
instead of shifting its bits; the digest takes the message in pieces, with a buffer for what does
not fill a block, and pads it byte by byte.

* `crc32c_correct`: the checksum is the bitwise one, and it can be taken in two stretches.
* `sha256_streaming`: the digest is the one of the padded message, however it is cut.
-/

namespace LinkFailover

open Codec

/-! ## The bitwise definition -/

/-- The checksum bit by bit: a byte is added to the register, and the register is shifted by
eight. -/
def crc32cByte (crc : UInt32) (b : UInt8) : UInt32 := Nat.repeat crc32cStep 8 (crc ^^^ b.toUInt32)

def crc32cBitwise (data : Bytes) : UInt32 := ~~~ data.foldl crc32cByte 0xFFFFFFFF

/-- The checksum of two stretches of memory. -/
def crc32cConcat (seed : UInt32) (first second : Bytes) : UInt32 :=
  crc32cExtend (crc32cExtend seed first) second

theorem crc32cStep_toBitVec (x : UInt32) :
    (crc32cStep x).toBitVec = ShiftRegister.step kCrc32cPolynomial.toBitVec x.toBitVec := by
  have hbit : (x &&& 1 != 0) = x.toBitVec.getLsbD 0 := by
    rw [bne, Bool.not_eq_eq_eq_not, Bool.eq_iff_iff, beq_iff_eq, ← UInt32.toBitVec_inj,
      UInt32.toBitVec_and]
    change x.toBitVec &&& 1#32 = 0#32 ↔ _
    rw [BitVec.and_one_eq_setWidth_ofBool_getLsbD]
    cases x.toBitVec.getLsbD 0 <;> decide
  rw [crc32cStep, hbit, ShiftRegister.step]
  split <;> rfl

theorem crc32cSteps_toBitVec (n : Nat) (x : UInt32) :
    (Nat.repeat crc32cStep n x).toBitVec =
      ShiftRegister.steps kCrc32cPolynomial.toBitVec n x.toBitVec := by
  induction n with
  | zero => rfl
  | succ n ih =>
    rw [ShiftRegister.steps_succ, ← ih]
    exact crc32cStep_toBitVec _

/-! ## The table -/

theorem crcTable_getD {i : Nat} (hi : i < 256) :
    crcTable.getD i 0 = crc32cEntry (UInt32.ofNat i) := by
  rw [crcTable, List.getD_eq_getElem?_getD, List.getElem?_map, List.getElem?_range hi]
  rfl

/-- One look into the table is eight steps. -/
theorem crc32c_lookup (x : UInt32) :
    crcTable.getD (x &&& 0xFF).toNat 0 ^^^ (x >>> 8) = Nat.repeat crc32cStep 8 x := by
  have hlow : (x &&& 0xFF).toNat < 256 := by
    rw [UInt32.toNat_and]
    exact Nat.lt_of_le_of_lt Nat.and_le_right (by decide)
  rw [crcTable_getD hlow, UInt32.ofNat_toNat, crc32cEntry, ← UInt32.toBitVec_inj,
    UInt32.toBitVec_xor, crc32cSteps_toBitVec, crc32cSteps_toBitVec,
    ShiftRegister.steps_split _ 8 x.toBitVec]
  rfl

theorem shiftRight_of_byte (b : UInt8) : b.toUInt32 >>> 8 = 0 := by
  rw [← UInt32.toBitVec_inj]
  change (b.toBitVec.setWidth 32) >>> 8 = 0#32
  refine BitVec.eq_of_getLsbD_eq fun i hi => ?_
  rw [BitVec.getLsbD_ushiftRight, BitVec.getLsbD_setWidth, BitVec.getLsbD_of_ge _ _ (by omega),
    Bool.and_false, BitVec.getLsbD_zero]

/-- What the code does with a byte. -/
theorem crc32c_step_byte (crc : UInt32) (b : UInt8) :
    crcTable.getD ((crc ^^^ b.toUInt32) &&& 0xFF).toNat 0 ^^^ (crc >>> 8) = crc32cByte crc b := by
  rw [crc32cByte, ← crc32c_lookup, UInt32.shiftRight_xor, shiftRight_of_byte, UInt32.xor_zero]

theorem crc32cExtend_bits (seed : UInt32) (data : Bytes) :
    crc32cExtend seed data = ~~~ data.foldl crc32cByte (~~~seed) := by
  rw [crc32cExtend, funext fun crc => funext fun b => crc32c_step_byte crc b]

/-! ## Checksums -/

/-- The complement that ends one stretch is undone by the one that begins the next. -/
theorem crc32cExtend_append (seed : UInt32) (first second : Bytes) :
    crc32cExtend seed (first ++ second) = crc32cExtend (crc32cExtend seed first) second := by
  rw [crc32cExtend_bits, crc32cExtend_bits seed first, crc32cExtend_bits, List.foldl_append,
    UInt32.not_not]

/-- The checksum by the table is the one by the bit, and over two stretches it is the one of both
together. -/
theorem crc32c_correct : (∀ data, crc32c data = crc32cBitwise data) ∧
    ∀ seed first second,
      crc32cConcat seed first second = crc32cExtend seed (first ++ second) := by
  refine ⟨fun data => ?_, fun seed first second => (crc32cExtend_append ..).symm⟩
  rw [crc32c, crc32cExtend_bits]
  rfl

/-! ## The definition of the digest -/

/-- The words of a state, one after the other. -/
def Sha256Words.digest (s : Sha256Words) : Digest :=
  ⟨[s.a, s.b, s.c, s.d, s.e, s.f, s.g, s.h].flatMap Sha256.bigEndianBytes, rfl⟩

/-- As many zero bytes as it takes to come to eight bytes before the end of a block. -/
def paddingZeros (length : Nat) : Nat := (119 - length % 64) % 64

/-- A message with a one bit behind it, zeros, and its length in bits. -/
def padded (message : Bytes) : Bytes :=
  message ++ [0x80] ++ List.replicate (paddingZeros message.length) 0 ++
    (leBytes 8 (8 * message.length)).reverse

/-- The compression function over all blocks of the padded message. -/
def sha256Blocks (message : Bytes) : Digest :=
  (Blocks.foldAll Sha256.compress 64 Sha256.reset.state (padded message)).digest

theorem padded_length (message : Bytes) : (padded message).length % 64 = 0 := by
  simp only [padded, paddingZeros, List.length_append, List.length_replicate, List.length_reverse,
    leBytes_length, List.length_singleton]
  omega

/-- No fewer zeros fill the last block. -/
theorem paddingZeros_least {length zeros : Nat} (h : (length + 1 + zeros + 8) % 64 = 0) :
    paddingZeros length ≤ zeros := by
  unfold paddingZeros
  omega

/-! ## The streaming digest -/

namespace Sha256

theorem compressBlocks_eq (k : Nat) (s : Sha256Words) (data : Bytes) :
    compressBlocks k s data = Blocks.fold compress 64 k s data := by
  induction k generalizing s data with
  | zero => rfl
  | succ k ih => rw [compressBlocks, Blocks.fold, ih]

/-- A running digest has taken in these bytes. -/
structure Absorbed (h : Sha256) (data : Bytes) : Prop where
  state : h.state = Blocks.foldAll compress 64 reset.state data
  buffer : h.buffer = Blocks.left 64 data
  bitCount : h.bitCount = UInt64.ofNat data.length * 8
  finished : h.finished = false

variable {h : Sha256} {data more : Bytes}

theorem absorbed_reset : Absorbed reset [] := ⟨rfl, rfl, rfl, rfl⟩

theorem absorb_state (h : Sha256) (data : Bytes) :
    (h.absorb data).state = Blocks.foldAll compress 64 h.state data :=
  compressBlocks_eq _ _ _

/-- A full buffer is the first block of what stands in it and of what comes. -/
theorem foldAll_block {s : Sha256Words} {block : Bytes} (hb : block.length = 64) (rest : Bytes) :
    Blocks.foldAll compress 64 s (block ++ rest) =
      Blocks.foldAll compress 64 (compress s block) rest ∧
    Blocks.left 64 (block ++ rest) = Blocks.left 64 rest := by
  have hone : block.length / 64 = 1 := by rw [hb]
  have hleft : Blocks.left 64 block = [] := by
    rw [Blocks.left, hone]
    exact List.drop_eq_nil_of_le (Nat.le_of_eq hb)
  have hfold : Blocks.foldAll compress 64 s block = compress s block := by
    rw [Blocks.foldAll, hone, Blocks.fold, Blocks.fold, List.take_of_length_le (Nat.le_of_eq hb)]
  refine ⟨?_, ?_⟩
  · rw [Blocks.foldAll_append compress (by decide), hfold, hleft, List.nil_append]
  · rw [Blocks.left_append (by decide), hleft, List.nil_append]

theorem Absorbed.update (ha : Absorbed h data) (more : Bytes) :
    Absorbed (h.update more) (data ++ more) := by
  unfold Sha256.update
  rw [ha.finished, Bool.false_or]
  by_cases hm : more.isEmpty = true
  · rw [if_pos hm, List.isEmpty_iff.mp hm, List.append_nil]
    exact ha
  rw [if_neg hm]
  have hcount : h.bitCount + UInt64.ofNat more.length * 8 =
      UInt64.ofNat (data ++ more).length * 8 := by
    rw [ha.bitCount, List.length_append, UInt64.ofNat_add, UInt64.add_mul]
  have hstate := Blocks.foldAll_append compress (n := 64) (by decide) reset.state data more
  have hleft := Blocks.left_append (n := 64) (by decide) data more
  rw [← ha.state, ← ha.buffer] at hstate
  rw [← ha.buffer] at hleft
  have hlt : h.buffer.length < 64 := by
    rw [ha.buffer, Blocks.left_length]
    exact Nat.mod_lt _ (by decide)
  dsimp only
  by_cases hb : h.buffer.isEmpty = true
  · -- the buffer is empty, and the piece is taken in where it lies
    rw [if_pos hb]
    rw [List.isEmpty_iff.mp hb, List.nil_append] at hstate hleft
    refine ⟨?_, ?_, hcount, rfl⟩
    · rw [hstate]
      exact absorb_state _ _
    · rw [hleft]
      change h.buffer ++ _ = _
      rw [List.isEmpty_iff.mp hb]
      rfl
  rw [if_neg hb]
  by_cases hfull : (h.buffer ++ more.take (64 - h.buffer.length)).length = 64
  · -- the piece fills the buffer
    rw [if_pos hfull]
    have hsplit : h.buffer ++ more = (h.buffer ++ more.take (64 - h.buffer.length)) ++
        more.drop (64 - h.buffer.length) := by
      rw [List.append_assoc, List.take_append_drop]
    obtain ⟨hfold, hrest⟩ := @foldAll_block h.state _ hfull (more.drop (64 - h.buffer.length))
    refine ⟨?_, ?_, hcount, rfl⟩
    · rw [hstate, hsplit, hfold]
      exact absorb_state _ _
    · rw [hleft, hsplit, hrest]
      rfl
  · -- the piece fits into the buffer
    rw [if_neg hfull]
    have hshort : more.length < 64 - h.buffer.length := by
      rw [List.length_append, List.length_take] at hfull
      omega
    have hall : (h.buffer ++ more).length < 64 := by
      rw [List.length_append]
      omega
    rw [List.take_of_length_le (Nat.le_of_lt hshort)]
    refine ⟨?_, ?_, hcount, rfl⟩
    · rw [hstate, Blocks.foldAll_of_lt compress 64 hall]
    · rw [hleft, Blocks.left_of_lt 64 hall]

theorem Absorbed.updates (ha : Absorbed h data) (pieces : List Bytes) :
    Absorbed (pieces.foldl Sha256.update h) (data ++ pieces.flatten) := by
  induction pieces generalizing h data with
  | nil => rwa [List.flatten_nil, List.append_nil]
  | cons piece pieces ih =>
    rw [List.foldl_cons, List.flatten_cons, ← List.append_assoc]
    exact ih (ha.update piece)

theorem Absorbed.buffer_length (ha : Absorbed h data) : h.buffer.length = data.length % 64 := by
  rw [ha.buffer, Blocks.left_length]

/-- Zeros are put behind what was absorbed until the buffer holds 56 bytes. -/
theorem Absorbed.padZeros (ha : Absorbed h data) {n : Nat}
    (hn : (120 - data.length % 64) % 64 ≤ n) :
    Absorbed (Sha256.padZeros n h)
      (data ++ List.replicate ((120 - data.length % 64) % 64) 0) := by
  induction n generalizing h data with
  | zero =>
    rw [Nat.le_zero.mp hn]
    rwa [List.replicate_zero, List.append_nil]
  | succ n ih =>
    rw [Sha256.padZeros, ha.buffer_length]
    by_cases h56 : data.length % 64 = 56
    · rw [if_pos h56, h56]
      rwa [List.replicate_zero, List.append_nil]
    rw [if_neg h56]
    have hnext : (120 - (data ++ [(0 : UInt8)]).length % 64) % 64 + 1 =
        (120 - data.length % 64) % 64 := by
      rw [List.length_append, List.length_singleton]
      omega
    have hih := ih (ha.update [0]) (by omega)
    rwa [List.append_assoc, List.singleton_append, ← List.replicate_succ, hnext] at hih

/-- The length behind the padding is the one of the message. -/
theorem lengthBytes (n : Nat) :
    leBytes 8 (UInt64.ofNat n * 8).toNat = leBytes 8 (8 * n) := by
  have hmod : (UInt64.ofNat n * 8).toNat = 8 * n % 256 ^ 8 := by
    rw [UInt64.toNat_mul, UInt64.toNat_ofNat', Nat.mod_mul_mod, Nat.mul_comm]
    rfl
  rw [hmod]
  have hback := leBytes_leValue (leBytes 8 (8 * n))
  rwa [leValue_leBytes, leBytes_length] at hback

theorem finish_eq (hf : h.finished = false) : h.finish =
    ((Sha256.padZeros 64 (h.update [0x80])).update
      (leBytes 8 h.bitCount.toNat).reverse).state.digest := by
  have hdef : h.finish = (if h.finished then h else
      { (Sha256.padZeros 64 (h.update [0x80])).update
        (leBytes 8 h.bitCount.toNat).reverse with finished := true }).state.digest := rfl
  rw [hdef, hf]
  exact congrArg Sha256Words.digest rfl

theorem Absorbed.finish (ha : Absorbed h data) : h.finish = sha256Blocks data := by
  have hpad := (ha.update [0x80]).padZeros (n := 64)
    (Nat.le_of_lt (Nat.lt_of_lt_of_le (Nat.mod_lt _ (by decide)) (by decide)))
  have hzeros : (120 - (data ++ [(0x80 : UInt8)]).length % 64) % 64 = paddingZeros data.length := by
    rw [List.length_append, List.length_singleton, paddingZeros]
    omega
  rw [hzeros] at hpad
  have hall := hpad.update (leBytes 8 h.bitCount.toNat).reverse
  rw [ha.bitCount, lengthBytes] at hall
  rw [finish_eq ha.finished, ha.bitCount, lengthBytes, hall.state]
  rfl

end Sha256

/-- The digest of a message that comes in pieces is the one of the whole message, block by
block. -/
theorem sha256_streaming (pieces : List Bytes) :
    (pieces.foldl Sha256.update Sha256.reset).finish = sha256Blocks pieces.flatten :=
  (Sha256.absorbed_reset.updates pieces).finish

/-- The same holds of one piece. -/
theorem sha256_eq_blocks (data : Bytes) : sha256 data = sha256Blocks data := by
  rw [sha256]
  exact (Sha256.absorbed_reset.update data).finish

end LinkFailover
