import LinkFailover.Lib.Codec

/-!
# CRC-32C and SHA-256

Integrity checks and identities. The proofs about the journal and the engine use only
that both are functions of the bytes they are given.
-/

namespace LinkFailover

open Codec

/-! ## CRC-32C -/

def kCrc32cPolynomial : UInt32 := 0x82F63B78

def crc32cStep (crc : UInt32) : UInt32 :=
  if crc &&& 1 != 0 then (crc >>> 1) ^^^ kCrc32cPolynomial else crc >>> 1

/-- The entry of one byte value: eight steps of the shift register. -/
def crc32cEntry (i : UInt32) : UInt32 := Nat.repeat crc32cStep 8 i

def crcTable : List UInt32 := (List.range 256).map fun i => crc32cEntry (UInt32.ofNat i)

def crc32cExtend (seed : UInt32) (data : Bytes) : UInt32 :=
  ~~~ data.foldl
    (fun crc b => crcTable.getD ((crc ^^^ b.toUInt32) &&& 0xFF).toNat 0 ^^^ (crc >>> 8)) (~~~seed)

@[irreducible] def crc32c (data : Bytes) : UInt32 := crc32cExtend 0 data

/-! ## SHA-256 -/

abbrev Digest := FixedBytes 32

def kSha256K : List UInt32 :=
  [0x428a2f98, 0x71374491, 0xb5c0fbcf, 0xe9b5dba5, 0x3956c25b, 0x59f111f1, 0x923f82a4,
   0xab1c5ed5, 0xd807aa98, 0x12835b01, 0x243185be, 0x550c7dc3, 0x72be5d74, 0x80deb1fe,
   0x9bdc06a7, 0xc19bf174, 0xe49b69c1, 0xefbe4786, 0x0fc19dc6, 0x240ca1cc, 0x2de92c6f,
   0x4a7484aa, 0x5cb0a9dc, 0x76f988da, 0x983e5152, 0xa831c66d, 0xb00327c8, 0xbf597fc7,
   0xc6e00bf3, 0xd5a79147, 0x06ca6351, 0x14292967, 0x27b70a85, 0x2e1b2138, 0x4d2c6dfc,
   0x53380d13, 0x650a7354, 0x766a0abb, 0x81c2c92e, 0x92722c85, 0xa2bfe8a1, 0xa81a664b,
   0xc24b8b70, 0xc76c51a3, 0xd192e819, 0xd6990624, 0xf40e3585, 0x106aa070, 0x19a4c116,
   0x1e376c08, 0x2748774c, 0x34b0bcb5, 0x391c0cb3, 0x4ed8aa4a, 0x5b9cca4f, 0x682e6ff3,
   0x748f82ee, 0x78a5636f, 0x84c87814, 0x8cc70208, 0x90befffa, 0xa4506ceb, 0xbef9a3f7,
   0xc67178f2]

def rotr (value : UInt32) (shift : UInt32) : UInt32 :=
  (value >>> shift) ||| (value <<< (32 - shift))

structure Sha256Words where
  a : UInt32
  b : UInt32
  c : UInt32
  d : UInt32
  e : UInt32
  f : UInt32
  g : UInt32
  h : UInt32
  deriving DecidableEq

structure Sha256 where
  state : Sha256Words
  bitCount : UInt64
  buffer : Bytes
  finished : Bool

namespace Sha256

def reset : Sha256 where
  state := ⟨0x6a09e667, 0xbb67ae85, 0x3c6ef372, 0xa54ff53a, 0x510e527f, 0x9b05688c, 0x1f83d9ab,
    0x5be0cd19⟩
  bitCount := 0
  buffer := []
  finished := false

def bigEndian32 : Bytes → UInt32
  | [p, q, r, s] =>
    (p.toUInt32 <<< 24) ||| (q.toUInt32 <<< 16) ||| (r.toUInt32 <<< 8) ||| s.toUInt32
  | _ => 0

/-- The first sixteen words of the schedule, straight from the block. -/
def blockWords (block : Bytes) : List UInt32 :=
  (List.range 16).map fun i => bigEndian32 ((block.drop (4 * i)).take 4)

def nextWord (w : List UInt32) : UInt32 :=
  let i := w.length
  let w15 := w.getD (i - 15) 0
  let w2 := w.getD (i - 2) 0
  let s0 := rotr w15 7 ^^^ rotr w15 18 ^^^ (w15 >>> 3)
  let s1 := rotr w2 17 ^^^ rotr w2 19 ^^^ (w2 >>> 10)
  w.getD (i - 16) 0 + s0 + w.getD (i - 7) 0 + s1

def schedule (block : Bytes) : List UInt32 :=
  Nat.repeat (fun w => w ++ [nextWord w]) 48 (blockWords block)

def round (v : Sha256Words) (k w : UInt32) : Sha256Words :=
  let s1 := rotr v.e 6 ^^^ rotr v.e 11 ^^^ rotr v.e 25
  let ch := (v.e &&& v.f) ^^^ (~~~v.e &&& v.g)
  let temp1 := v.h + s1 + ch + k + w
  let s0 := rotr v.a 2 ^^^ rotr v.a 13 ^^^ rotr v.a 22
  let maj := (v.a &&& v.b) ^^^ (v.a &&& v.c) ^^^ (v.b &&& v.c)
  let temp2 := s0 + maj
  ⟨temp1 + temp2, v.a, v.b, v.c, v.d + temp1, v.e, v.f, v.g⟩

def compress (s : Sha256Words) (block : Bytes) : Sha256Words :=
  let v := (kSha256K.zip (schedule block)).foldl (fun v kw => round v kw.1 kw.2) s
  ⟨s.a + v.a, s.b + v.b, s.c + v.c, s.d + v.d, s.e + v.e, s.f + v.f, s.g + v.g, s.h + v.h⟩

/-- Compresses the first `n` blocks of `data`. -/
def compressBlocks : Nat → Sha256Words → Bytes → Sha256Words
  | 0, s, _ => s
  | n + 1, s, data => compressBlocks n (compress s (data.take 64)) (data.drop 64)

/-- Whole blocks are compressed where they lie; what is left waits in the buffer. -/
def absorb (h : Sha256) (data : Bytes) : Sha256 :=
  let n := data.length / 64
  { h with
    state := compressBlocks n h.state data
    buffer := h.buffer ++ data.drop (64 * n) }

def update (h : Sha256) (data : Bytes) : Sha256 :=
  if h.finished || data.isEmpty then h
  else
    let h := { h with bitCount := h.bitCount + UInt64.ofNat data.length * 8 }
    if h.buffer.isEmpty then h.absorb data
    else
      let room := 64 - h.buffer.length
      let buffer := h.buffer ++ data.take room
      if buffer.length = 64 then
        { h with state := compress h.state buffer, buffer := [] }.absorb (data.drop room)
      else { h with buffer := buffer }

/-- Zero bytes until the buffer holds 56, in at most the given number of rounds. -/
def padZeros : Nat → Sha256 → Sha256
  | 0, h => h
  | n + 1, h => if h.buffer.length = 56 then h else padZeros n (h.update [0])

def bigEndianBytes (v : UInt32) : Bytes :=
  [(v >>> 24).toUInt8, (v >>> 16).toUInt8, (v >>> 8).toUInt8, v.toUInt8]

def finish (h : Sha256) : Digest :=
  let h :=
    if h.finished then h
    else
      let padded := padZeros 64 (h.update [0x80])
      { padded.update (leBytes 8 h.bitCount.toNat).reverse with finished := true }
  let s := h.state
  ⟨[s.a, s.b, s.c, s.d, s.e, s.f, s.g, s.h].flatMap bigEndianBytes, rfl⟩

end Sha256

@[irreducible] def sha256 (data : Bytes) : Digest := (Sha256.reset.update data).finish

example : (sha256 (text "abc")).bytes.take 4 = [0xba, 0x78, 0x16, 0xbf] := by decide +kernel

example : crc32c (text "123456789") = 0xE3069283 := by decide +kernel

end LinkFailover
