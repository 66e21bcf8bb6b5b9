import LinkFailover.Outcome
import LinkFailover.Hash
import LinkFailover.Lib.Stream

/-!
# Frames

A frame is a header of 20 bytes and a payload, with a checksum over both. The decoder keeps
the bytes it could not use yet and fails for good at the first bytes that start no frame.
It also fails when a chunk is longer than what one frame leaves of its buffer, whatever the
chunk holds.

* `frameGrammar`: what is found at the front of a stream does not depend on what follows.
* `readFrame_encode`: a written frame is found at the front of every stream it begins.
* `decode_chunks`: when the decoder does to a chunked stream what one pass does to the whole.
-/

namespace LinkFailover

open Codec Stream

/-! ## Format -/

def kFrameHeaderSize : Nat := 20
def kMaxFramePayload : UInt64 := 1048576
def kDefaultFramePayload : UInt64 := 262144
def kWireProtocolVersion : UInt16 := 1
def kFrameMagic : Bytes := text "LFF1"

inductive MessageType where
  | hello | helloAck | response | publishFailure | publishReplacement | setPolicy | setTopology
  | requestFailover | requestRollback | reportApplication | reportVerification
  | resolveInterrupted | inspect | claimDirective | shutdown | ping
  deriving DecidableEq, Repr

namespace MessageType

def code : MessageType → UInt16
  | hello => 1
  | helloAck => 2
  | response => 3
  | publishFailure => 10
  | publishReplacement => 11
  | setPolicy => 12
  | setTopology => 13
  | requestFailover => 20
  | requestRollback => 21
  | reportApplication => 22
  | reportVerification => 23
  | resolveInterrupted => 24
  | inspect => 25
  | claimDirective => 30
  | shutdown => 40
  | ping => 41

def all : List MessageType :=
  [hello, helloAck, response, publishFailure, publishReplacement, setPolicy, setTopology,
    requestFailover, requestRollback, reportApplication, reportVerification, resolveInterrupted,
    inspect, claimDirective, shutdown, ping]

/-- The message type of a number, when it is known. -/
def ofCode? (raw : UInt16) : Option MessageType := all.find? fun t => t.code == raw

theorem ofCode?_code (t : MessageType) : ofCode? t.code = some t := by cases t <;> rfl

end MessageType

structure FrameHeader where
  version : UInt16 := kWireProtocolVersion
  type : MessageType := .ping
  flags : UInt16 := 0
  length : UInt32 := 0
  crc : UInt32 := 0
  deriving DecidableEq

structure Frame where
  header : FrameHeader
  payload : Bytes
  deriving DecidableEq

/-- The header fields as they stand in a frame, without the checksum. -/
structure RawFrameHeader where
  magic : Bytes := kFrameMagic
  version : UInt16 := kWireProtocolVersion
  type : UInt16
  flags : UInt16 := 0
  reserved : UInt16 := 0
  length : UInt32

namespace RawFrameHeader

def encode (h : RawFrameHeader) : Writer → Writer :=
  Writer.fields [fun w => w.append h.magic, .u16 h.version, .u16 h.type, .u16 h.flags,
    .u16 h.reserved, .u32 h.length]

def decode : Parser RawFrameHeader := do
  let magic ← Parser.take 4
  let version ← Parser.u16
  let type ← Parser.u16
  let flags ← Parser.u16
  let reserved ← Parser.u16
  let length ← Parser.u32
  return { magic, version, type, flags, reserved, length }

theorem roundTrip {h : RawFrameHeader} (hm : h.magic.length = 4) : RoundTrip h.encode decode h := by
  refine .cons ⟨h.magic, fun _ => rfl, .take hm⟩ ?_
  refine .cons (.u16 _) ?_
  refine .cons (.u16 _) ?_
  refine .cons (.u16 _) ?_
  refine .cons (.u16 _) ?_
  exact .cons (.u32 _) (.nil _)

end RawFrameHeader

/-- The checksum covers the 16 bytes before its field and the payload. -/
def frameCrc (head payload : Bytes) : UInt32 := crc32c (head ++ payload)

/-- No frame is larger than the hard ceiling, whatever was negotiated. -/
def clampPayload (maxPayload : UInt64) : UInt64 :=
  if maxPayload > kMaxFramePayload then kMaxFramePayload else maxPayload

def encodeFrame (type : MessageType) (flags : UInt16) (payload : Bytes) (maxPayload : UInt64) :
    Result Bytes :=
  if payload.length > (clampPayload maxPayload).toNat then
    failWith .limitExceeded .frameTooLarge "frame payload exceeds the negotiated maximum"
      .invalidArgument (decimal payload.length)
  else if flags ≠ 0 then fail .invalid .reservedBitsSet "frame flags must be zero"
  else
    let head := Writer.run (RawFrameHeader.encode {
      type := type.code
      flags := flags
      length := UInt32.ofNat payload.length })
    .ok (head ++ leBytes 4 (frameCrc head payload).toNat ++ payload)

/-! ## Decoding -/

/-- The fields of a header and its checksum. -/
def readFrameHeader : Parser (RawFrameHeader × UInt32) := do
  let h ← RawFrameHeader.decode
  let crc ← Parser.u32
  return (h, crc)

/-- The verdict on a header, its first 16 bytes and the bytes behind it. -/
def judgeFrame (maxPayload : UInt64) (h : RawFrameHeader) (crc : UInt32) (head rest : Bytes) :
    Found Frame Status :=
  if h.magic ≠ kFrameMagic then
    .bad (Status.failure .invalid .malformedEncoding (text "frame magic mismatch"))
  else if h.version ≠ kWireProtocolVersion then
    .bad ((Status.failure .unsupported .protocolVersionMismatch
      (text "unsupported protocol version")).add .invalidArgument (decimal h.version.toNat))
  else
    match MessageType.ofCode? h.type with
    | none =>
      .bad ((Status.failure .unsupported .unknownMessageType
        (text "unknown message type")).add .invalidArgument (decimal h.type.toNat))
    | some type =>
      if h.flags ≠ 0 ∨ h.reserved ≠ 0 then
        .bad (Status.failure .invalid .reservedBitsSet
          (text "frame flags and reserved fields must be zero"))
      else if h.length.toNat > maxPayload.toNat then
        .bad ((Status.failure .limitExceeded .frameTooLarge
          (text "declared frame payload exceeds the negotiated maximum")).add .invalidArgument
          (decimal h.length.toNat))
      else if rest.length < h.length.toNat then .more
      else if crc ≠ frameCrc head (rest.take h.length.toNat) then
        .bad (Status.failure .corrupt .checksumMismatch (text "frame checksum mismatch"))
      else
        .item
          { header := { version := h.version, type, flags := 0, length := h.length, crc }
            payload := rest.take h.length.toNat }
          (rest.drop h.length.toNat)

/-- One round of the decoding loop over the bytes that were not used yet. -/
def readFrame (maxPayload : UInt64) (bytes : Bytes) : Found Frame Status :=
  if bytes.length < kFrameHeaderSize then .more
  else
    match readFrameHeader bytes with
    | none => .more
    | some ((h, crc), rest) => judgeFrame maxPayload h crc (bytes.take 16) rest

structure FrameDecoder where
  maxPayload : UInt64
  buffer : Bytes := []
  failed : Bool := false
  failure : Status := Status.success

namespace FrameDecoder

/-- The most bytes that the decoder takes in. The sum is one of machine numbers. -/
def limit (maxPayload : UInt64) : Nat := (maxPayload + UInt64.ofNat kFrameHeaderSize).toNat

/-- Takes in a chunk: the decoder after it, the frames handed over in order, and the status. -/
def push (d : FrameDecoder) (chunk : Bytes) : FrameDecoder × List Frame × Status :=
  if d.failed then (d, [], d.failure)
  else if d.buffer.length + chunk.length > limit d.maxPayload then
    let failure := Status.failure .limitExceeded .frameTooLarge
      (text "framing buffer exceeds the negotiated maximum")
    ({ d with failed := true, failure := failure }, [], failure)
  else
    let p := parse (readFrame d.maxPayload) (d.buffer ++ chunk)
    match p.failure with
    | some failure =>
      ({ d with buffer := d.buffer ++ chunk, failed := true, failure := failure }, p.items, failure)
    | none => ({ d with buffer := p.rest }, p.items, Status.success)

/-- The chunks of a stream, one after the other: the decoder and all frames handed over. -/
def pushAll (d : FrameDecoder) : List Bytes → FrameDecoder × List Frame
  | [] => (d, [])
  | chunk :: chunks =>
    let pushed := d.push chunk
    let rest := pushAll pushed.1 chunks
    (rest.1, pushed.2.1 ++ rest.2)

end FrameDecoder

/-! ## The grammar of frames -/

theorem RawFrameHeader.decode_leaves : RawFrameHeader.decode.Leaves 16 := by
  refine Parser.Leaves.bind (m := 12) (.take 4) fun _ => ?_
  refine Parser.Leaves.bind (m := 10) .u16 fun _ => ?_
  refine Parser.Leaves.bind (m := 8) .u16 fun _ => ?_
  refine Parser.Leaves.bind (m := 6) .u16 fun _ => ?_
  refine Parser.Leaves.bind (m := 4) .u16 fun _ => ?_
  exact Parser.Leaves.bind (m := 0) .u32 fun _ => .pure _

theorem RawFrameHeader.decode_stable : RawFrameHeader.decode.Stable := by
  refine .bind (.take 4) fun _ => ?_
  refine .bind .u16 fun _ => ?_
  refine .bind .u16 fun _ => ?_
  refine .bind .u16 fun _ => ?_
  refine .bind .u16 fun _ => ?_
  exact .bind .u32 fun _ => .pure _

theorem readFrameHeader_leaves : readFrameHeader.Leaves kFrameHeaderSize :=
  RawFrameHeader.decode_leaves.bind fun _ => Parser.Leaves.u32.bind (m := 0) fun _ => .pure _

theorem readFrameHeader_stable : readFrameHeader.Stable :=
  RawFrameHeader.decode_stable.bind fun _ => .bind .u32 fun _ => .pure _

/-- A verdict, with more bytes behind it. -/
def extendFound {α ε : Type} (more : Bytes) : Found α ε → Found α ε
  | .more => .more
  | .item a rest => .item a (rest ++ more)
  | .bad e => .bad e

theorem judgeFrame_append {maxPayload : UInt64} {h : RawFrameHeader} {crc : UInt32}
    {head rest : Bytes} (hj : judgeFrame maxPayload h crc head rest ≠ .more) (more : Bytes) :
    judgeFrame maxPayload h crc head (rest ++ more) =
      extendFound more (judgeFrame maxPayload h crc head rest) := by
  unfold judgeFrame at hj ⊢
  split
  · rfl
  · rename_i hmagic
    rw [if_neg hmagic] at hj
    split
    · rfl
    · rename_i hversion
      rw [if_neg hversion] at hj
      cases ht : MessageType.ofCode? h.type with
      | none => rfl
      | some type =>
        simp only [ht] at hj ⊢
        split
        · rfl
        · rename_i hflags
          rw [if_neg hflags] at hj
          split
          · rfl
          · rename_i hmax
            rw [if_neg hmax] at hj
            by_cases hlt : rest.length < h.length.toNat
            · rw [if_pos hlt] at hj
              exact absurd rfl hj
            · have hle := Nat.not_lt.mp hlt
              rw [if_neg hlt, if_neg (by rw [List.length_append]; omega),
                List.take_append_of_le_length hle, List.drop_append_of_le_length hle]
              split <;> rfl

theorem readFrame_append {maxPayload : UInt64} {bytes : Bytes}
    (h : readFrame maxPayload bytes ≠ .more) (more : Bytes) :
    readFrame maxPayload (bytes ++ more) = extendFound more (readFrame maxPayload bytes) := by
  unfold readFrame at h ⊢
  by_cases hshort : bytes.length < kFrameHeaderSize
  · rw [if_pos hshort] at h
    exact absurd rfl h
  · have hlong : ¬ (bytes ++ more).length < kFrameHeaderSize := by
      rw [List.length_append]
      omega
    rw [if_neg hshort] at h ⊢
    rw [if_neg hlong]
    cases hr : readFrameHeader bytes with
    | none =>
      rw [hr] at h
      exact absurd rfl h
    | some x =>
      obtain ⟨⟨raw, crc⟩, rest⟩ := x
      rw [hr] at h
      have htake : (bytes ++ more).take 16 = bytes.take 16 :=
        List.take_append_of_le_length (by rw [kFrameHeaderSize] at hshort; omega)
      rw [readFrameHeader_stable _ _ _ hr more, htake]
      exact judgeFrame_append h more

theorem judgeFrame_rest {maxPayload : UInt64} {h : RawFrameHeader} {crc : UInt32}
    {head rest rest' : Bytes} {f : Frame}
    (hj : judgeFrame maxPayload h crc head rest = .item f rest') :
    rest'.length ≤ rest.length := by
  unfold judgeFrame at hj
  split at hj
  · cases hj
  · split at hj
    · cases hj
    · split at hj
      · cases hj
      · split at hj
        · cases hj
        · split at hj
          · cases hj
          · split at hj
            · cases hj
            · split at hj
              · cases hj
              · cases hj
                rw [List.length_drop]
                omega

theorem frameGrammar (maxPayload : UInt64) : Grammar (readFrame maxPayload) where
  item_append h more := by
    rw [readFrame_append (fun he => by rw [h] at he; cases he) more, h]
    rfl
  bad_append h more := by
    rw [readFrame_append (fun he => by rw [h] at he; cases he) more, h]
    rfl
  item_shorter h := by
    unfold readFrame at h
    split at h
    · cases h
    · rename_i hshort
      split at h
      · cases h
      · rename_i raw crc rest hr
        obtain ⟨hle, rfl⟩ := readFrameHeader_leaves _ _ _ hr
        have hrest := judgeFrame_rest h
        rw [List.length_drop] at hrest
        rw [kFrameHeaderSize] at hle hrest
        omega

theorem readFrame_nil (maxPayload : UInt64) : readFrame maxPayload [] = .more := rfl

/-! ## Written frames -/

/-- The frame that is read where this payload was written. -/
def Frame.of (type : MessageType) (payload : Bytes) : Frame where
  header :=
    { type
      length := UInt32.ofNat payload.length
      crc := frameCrc (Writer.run (RawFrameHeader.encode {
        type := type.code
        length := UInt32.ofNat payload.length })) payload }
  payload := payload

theorem rawFrameHead_length (h : RawFrameHeader) (hm : h.magic.length = 4) :
    (Writer.run h.encode).length = 16 := by
  simp [Writer.run, RawFrameHeader.encode, Writer.fields, Writer.u32, Writer.u16, hm]

/-- A payload that a frame may carry under this maximum. -/
def FrameFits (maxPayload : UInt64) (payload : Bytes) : Prop :=
  payload.length ≤ maxPayload.toNat ∧ payload.length ≤ kMaxFramePayload.toNat

theorem clampPayload_le (maxPayload : UInt64) :
    (clampPayload maxPayload).toNat ≤ maxPayload.toNat ∧
      (clampPayload maxPayload).toNat ≤ kMaxFramePayload.toNat := by
  unfold clampPayload
  split
  · rename_i h
    have hlt : kMaxFramePayload.toNat < maxPayload.toNat := h
    exact ⟨Nat.le_of_lt hlt, Nat.le_refl _⟩
  · rename_i h
    have hge : ¬ kMaxFramePayload.toNat < maxPayload.toNat := h
    exact ⟨Nat.le_refl _, Nat.not_lt.mp hge⟩

/-- Only payloads within the maximum are encoded. -/
theorem encodeFrame_ok {type : MessageType} {payload : Bytes} {maxPayload : UInt64}
    {bytes : Bytes} (h : encodeFrame type 0 payload maxPayload = .ok bytes) :
    FrameFits maxPayload payload ∧
      bytes = Writer.run (RawFrameHeader.encode {
          type := type.code
          length := UInt32.ofNat payload.length }) ++
        (leBytes 4 (Frame.of type payload).header.crc.toNat ++ payload) := by
  have hclamp := clampPayload_le maxPayload
  unfold encodeFrame at h
  split at h
  · cases h
  · rename_i hle
    rw [if_neg (not_not.mpr rfl)] at h
    cases h
    exact ⟨⟨by omega, by omega⟩, by rw [List.append_assoc]; rfl⟩

/-- A written frame is found at the front of every stream that begins with it. -/
theorem readFrame_encode {type : MessageType} {payload : Bytes} {maxPayload : UInt64}
    {bytes : Bytes} (h : encodeFrame type 0 payload maxPayload = .ok bytes) (rest : Bytes) :
    readFrame maxPayload (bytes ++ rest) = .item (Frame.of type payload) rest := by
  obtain ⟨⟨hfits, hmax⟩, rfl⟩ := encodeFrame_ok h
  generalize hraw : (RawFrameHeader.mk kFrameMagic kWireProtocolVersion type.code 0 0
    (UInt32.ofNat payload.length)) = raw
  have hlen := rawFrameHead_length raw (by rw [← hraw]; rfl)
  have hread : Reads readFrameHeader
      (Writer.run raw.encode ++ leBytes 4 (Frame.of type payload).header.crc.toNat)
      (raw, (Frame.of type payload).header.crc) :=
    (RawFrameHeader.roundTrip (by rw [← hraw]; rfl)).reads.bind (.map (.u32 _) (.pure _))
  have hlong : ¬ (Writer.run raw.encode ++
      (leBytes 4 (Frame.of type payload).header.crc.toNat ++ payload) ++ rest).length <
      kFrameHeaderSize := by
    rw [List.length_append, List.length_append, List.length_append, hlen, leBytes_length,
      kFrameHeaderSize]
    omega
  have hassoc : Writer.run raw.encode ++
      (leBytes 4 (Frame.of type payload).header.crc.toNat ++ payload) ++ rest =
      (Writer.run raw.encode ++ leBytes 4 (Frame.of type payload).header.crc.toNat) ++
        (payload ++ rest) := by
    simp only [List.append_assoc]
  have hhead : (Writer.run raw.encode ++
      (leBytes 4 (Frame.of type payload).header.crc.toNat ++ payload) ++ rest).take 16 =
      Writer.run raw.encode := by
    rw [List.append_assoc, List.take_left' hlen]
  rw [readFrame, if_neg hlong, hhead, hassoc, hread (payload ++ rest)]
  have hsize : raw.length.toNat = payload.length := by
    rw [← hraw]
    change (UInt32.ofNat payload.length).toNat = _
    rw [UInt32.toNat_ofNat', Nat.mod_eq_of_lt]
    exact Nat.lt_of_le_of_lt hmax (by decide)
  have hge : ¬ (payload ++ rest).length < payload.length := by
    rw [List.length_append]
    omega
  have hmagic : raw.magic = kFrameMagic := by rw [← hraw]
  have hversion : raw.version = kWireProtocolVersion := by rw [← hraw]
  have htype : MessageType.ofCode? raw.type = some type := by
    rw [← hraw]
    exact MessageType.ofCode?_code type
  have hflags : ¬ (raw.flags ≠ 0 ∨ raw.reserved ≠ 0) := by
    rw [← hraw]
    rintro (h | h) <;> exact h rfl
  have hcrc : ¬ (Frame.of type payload).header.crc ≠ frameCrc (Writer.run raw.encode) payload := by
    rw [← hraw]
    exact not_not.mpr rfl
  have hlength : raw.length = (Frame.of type payload).header.length := by rw [← hraw]; rfl
  dsimp only
  rw [judgeFrame, if_neg (not_not.mpr hmagic), if_neg (not_not.mpr hversion), htype]
  simp only [hsize, List.take_left, List.drop_left, if_neg hflags, if_neg hge, if_neg hcrc,
    if_neg (Nat.not_lt.mpr hfits), hversion]
  rw [hlength]
  rfl

/-! ## Decoding in chunks -/

namespace FrameDecoder

/-- One pass over a whole stream. -/
def reference (maxPayload : UInt64) (stream : Bytes) : Parse Frame Status :=
  parse (readFrame maxPayload) stream

theorem reference_append {maxPayload : UInt64} {s more : Bytes}
    (h : (reference maxPayload s).failure = none) :
    (reference maxPayload (s ++ more)).items = (reference maxPayload s).items ++
        (reference maxPayload ((reference maxPayload s).rest ++ more)).items ∧
      (reference maxPayload (s ++ more)).failure =
        (reference maxPayload ((reference maxPayload s).rest ++ more)).failure ∧
      (reference maxPayload (s ++ more)).rest =
        (reference maxPayload ((reference maxPayload s).rest ++ more)).rest := by
  have happ := (frameGrammar maxPayload).parse_append s more h
  unfold reference
  rw [happ]
  exact ⟨rfl, rfl, rfl⟩

/-- More bytes do not take frames back. -/
theorem reference_begins (maxPayload : UInt64) (s more : Bytes) :
    (reference maxPayload s).items <+: (reference maxPayload (s ++ more)).items := by
  cases hf : (reference maxPayload s).failure with
  | none =>
    rw [(reference_append hf).1]
    exact List.prefix_append _ _
  | some e =>
    have hbad := (frameGrammar maxPayload).parse_append_bad s more hf
    exact ⟨[], by rw [List.append_nil]; exact hbad.1.symm⟩

/-- The decoder behind a stream that is not refused. -/
def behind (maxPayload : UInt64) (s : Bytes) : FrameDecoder where
  maxPayload := maxPayload
  buffer := (reference maxPayload s).rest

/-- The chunk is longer than what the bytes that wait for more leave of the limit. -/
def Overflows (maxPayload : UInt64) (s chunk : Bytes) : Prop :=
  (reference maxPayload s).failure = none ∧
    limit maxPayload < (reference maxPayload s).rest.length + chunk.length

theorem push_failed {d : FrameDecoder} (h : d.failed = true) (chunk : Bytes) :
    d.push chunk = (d, [], d.failure) := by
  rw [push, if_pos h]

theorem pushAll_failed {d : FrameDecoder} (h : d.failed = true) (chunks : List Bytes) :
    d.pushAll chunks = (d, []) := by
  induction chunks with
  | nil => rfl
  | cons chunk chunks ih =>
    rw [pushAll, push_failed h]
    dsimp only
    rw [ih]
    rfl

/-- The status of a push that leaves the decoder failed is the one it keeps. -/
theorem push_status (d : FrameDecoder) (chunk : Bytes) (h : (d.push chunk).1.failed = true) :
    (d.push chunk).2.2 = (d.push chunk).1.failure := by
  unfold push at h ⊢
  split
  · rfl
  · rename_i hd
    rw [if_neg hd] at h
    split
    · rfl
    · rename_i hfit
      rw [if_neg hfit] at h
      cases hp : (parse (readFrame d.maxPayload) (d.buffer ++ chunk)).failure with
      | some e => simp only [hp]
      | none =>
        simp only [hp] at h
        exact absurd h hd

theorem push_overflow {maxPayload : UInt64} {s chunk : Bytes} (h : Overflows maxPayload s chunk) :
    ((behind maxPayload s).push chunk).1.failed = true ∧
      ((behind maxPayload s).push chunk).2.1 = [] := by
  have hlt : (behind maxPayload s).buffer.length + chunk.length >
      limit (behind maxPayload s).maxPayload := h.2
  have hok : ¬ (behind maxPayload s).failed = true := Bool.false_ne_true
  rw [push, if_neg hok, if_pos hlt]
  exact ⟨rfl, rfl⟩

/-- A chunk that does not overflow is decoded as part of the stream. -/
theorem push_behind {maxPayload : UInt64} {s chunk : Bytes}
    (hs : (reference maxPayload s).failure = none) (h : ¬ Overflows maxPayload s chunk) :
    (reference maxPayload s).items ++ ((behind maxPayload s).push chunk).2.1 =
        (reference maxPayload (s ++ chunk)).items ∧
      (∀ e, (reference maxPayload (s ++ chunk)).failure = some e →
        ((behind maxPayload s).push chunk).1.failed = true) ∧
      ((reference maxPayload (s ++ chunk)).failure = none →
        ((behind maxPayload s).push chunk).1 = behind maxPayload (s ++ chunk)) := by
  have hfit : ¬ (behind maxPayload s).buffer.length + chunk.length >
      limit (behind maxPayload s).maxPayload := fun hlt => h ⟨hs, hlt⟩
  have hok : ¬ (behind maxPayload s).failed = true := Bool.false_ne_true
  obtain ⟨hitems, hfail, hrest⟩ := @reference_append _ _ chunk hs
  have hpush : (behind maxPayload s).push chunk =
      match (reference maxPayload ((reference maxPayload s).rest ++ chunk)).failure with
      | some failure =>
        ({ behind maxPayload s with
            buffer := (reference maxPayload s).rest ++ chunk
            failed := true
            failure := failure },
          (reference maxPayload ((reference maxPayload s).rest ++ chunk)).items, failure)
      | none =>
        ({ behind maxPayload s with
            buffer := (reference maxPayload ((reference maxPayload s).rest ++ chunk)).rest },
          (reference maxPayload ((reference maxPayload s).rest ++ chunk)).items,
          Status.success) := by
    rw [push, if_neg hok, if_neg hfit]
    rfl
  rw [hpush, hitems, hfail]
  cases hf : (reference maxPayload ((reference maxPayload s).rest ++ chunk)).failure with
  | none =>
    refine ⟨rfl, fun e he => (by cases he), fun _ => ?_⟩
    simp only [behind, hrest]
  | some e =>
    exact ⟨rfl, fun _ _ => rfl, fun he => (by cases he)⟩

/-- Wherever a chunk overflows, no frame of the stream is left and the stream is refused. -/
def Unhurt (maxPayload : UInt64) (s : Bytes) (chunks : List Bytes) : Prop :=
  ∀ before chunk after, chunks = before ++ chunk :: after →
    Overflows maxPayload (s ++ before.flatten) chunk →
      (reference maxPayload (s ++ before.flatten)).items =
          (reference maxPayload (s ++ chunks.flatten)).items ∧
        (reference maxPayload (s ++ chunks.flatten)).failure ≠ none

theorem unhurt_cons {maxPayload : UInt64} {s chunk : Bytes} {chunks : List Bytes} :
    Unhurt maxPayload s (chunk :: chunks) ↔
      (Overflows maxPayload s chunk →
        (reference maxPayload s).items =
            (reference maxPayload (s ++ (chunk :: chunks).flatten)).items ∧
          (reference maxPayload (s ++ (chunk :: chunks).flatten)).failure ≠ none) ∧
        Unhurt maxPayload (s ++ chunk) chunks := by
  have hflat : ∀ before : List Bytes, s ++ chunk ++ before.flatten =
      s ++ (chunk :: before).flatten := by
    intro before
    rw [List.flatten_cons, List.append_assoc]
  constructor
  · intro h
    refine ⟨fun hover => ?_, fun before c after hsplit hover => ?_⟩
    · have := h [] chunk chunks rfl
      simp only [List.flatten_nil, List.append_nil] at this
      exact this hover
    · have := h (chunk :: before) c after (by rw [hsplit]; rfl)
      rw [hflat] at hover ⊢
      rw [hflat]
      exact this hover
  · rintro ⟨hfirst, hrest⟩ before c after hsplit hover
    cases before with
    | nil =>
      cases hsplit
      rw [List.flatten_nil, List.append_nil] at hover ⊢
      exact hfirst hover
    | cons b before =>
      cases hsplit
      rw [← hflat] at hover ⊢
      rw [← hflat]
      exact hrest before c after rfl hover

/-- Chunks behind a stream: the decoder does what one pass does exactly when they leave it
unhurt. -/
theorem pushAll_behind {maxPayload : UInt64} {s : Bytes} {chunks : List Bytes}
    (hs : (reference maxPayload s).failure = none) :
    ((reference maxPayload s).items ++ ((behind maxPayload s).pushAll chunks).2 =
          (reference maxPayload (s ++ chunks.flatten)).items ∧
        (((behind maxPayload s).pushAll chunks).1.failed = true ↔
          (reference maxPayload (s ++ chunks.flatten)).failure ≠ none)) ↔
      Unhurt maxPayload s chunks := by
  induction chunks generalizing s with
  | nil =>
    rw [List.flatten_nil, List.append_nil]
    constructor
    · intro _ before chunk after hsplit
      exact absurd hsplit (by simp)
    · intro _
      refine ⟨List.append_nil _, ?_⟩
      rw [hs]
      exact ⟨fun h => absurd h Bool.false_ne_true, fun h => absurd rfl h⟩
  | cons chunk chunks ih =>
    rw [unhurt_cons]
    have hflat : s ++ (chunk :: chunks).flatten = s ++ chunk ++ chunks.flatten := by
      rw [List.flatten_cons, List.append_assoc]
    rw [pushAll]
    dsimp only
    by_cases hover : Overflows maxPayload s chunk
    · obtain ⟨hfailed, hnone⟩ := push_overflow hover
      rw [pushAll_failed hfailed, hnone]
      constructor
      · rintro ⟨hitems, hfail⟩
        have hsame : (reference maxPayload s).items =
            (reference maxPayload (s ++ (chunk :: chunks).flatten)).items := by
          rw [← hitems]
          simp
        refine ⟨fun _ => ⟨hsame, hfail.mp hfailed⟩, fun before c after hsplit _ => ?_⟩
        rw [← hflat]
        refine ⟨?_, hfail.mp hfailed⟩
        -- the frames before the chunk lie between those of `s` and those of the whole stream
        have h1 := reference_begins maxPayload s (chunk ++ before.flatten)
        have h2 := reference_begins maxPayload (s ++ chunk ++ before.flatten) (c ++ after.flatten)
        have hwhole : s ++ chunk ++ before.flatten ++ (c ++ after.flatten) =
            s ++ (chunk :: chunks).flatten := by
          rw [hflat, hsplit, List.flatten_append, List.flatten_cons]
          simp only [List.append_assoc]
        rw [← List.append_assoc] at h1
        rw [hwhole] at h2
        exact h2.eq_of_length_le (by rw [← hsame]; exact h1.length_le)
      · rintro ⟨hfirst, -⟩
        obtain ⟨hitems, hfail⟩ := hfirst hover
        exact ⟨by simpa using hitems, fun _ => hfail, fun _ => hfailed⟩
    · obtain ⟨hitems, hbad, hgood⟩ := push_behind hs hover
      rw [← List.append_assoc, hitems, hflat]
      have hvac : (Overflows maxPayload s chunk →
          (reference maxPayload s).items =
              (reference maxPayload (s ++ chunk ++ chunks.flatten)).items ∧
            (reference maxPayload (s ++ chunk ++ chunks.flatten)).failure ≠ none) ↔ True :=
        iff_true_intro fun h => absurd h hover
      rw [hvac, true_and]
      cases hf : (reference maxPayload (s ++ chunk)).failure with
      | none =>
        rw [hgood hf]
        exact ih hf
      | some e =>
        have hrefused := (frameGrammar maxPayload).parse_append_bad (s ++ chunk) chunks.flatten hf
        have hfailure : (reference maxPayload (s ++ chunk ++ chunks.flatten)).failure ≠ none := by
          unfold reference
          rw [hrefused.2]
          exact Option.some_ne_none e
        rw [pushAll_failed (hbad e hf), List.append_nil]
        constructor
        · intro _ before c after _ hover'
          have hsome := ((frameGrammar maxPayload).parse_append_bad (s ++ chunk)
            before.flatten hf).2
          have hnone := hover'.1
          unfold reference at hnone
          rw [hsome] at hnone
          cases hnone
        · intro _
          exact ⟨hrefused.1.symm, fun _ => hfailure, fun _ => hbad e hf⟩

theorem reference_nil (maxPayload : UInt64) : reference maxPayload [] = ⟨[], [], none⟩ :=
  Grammar.parse_more (readFrame_nil maxPayload)

/-- Written frames one after the other are found by one pass. -/
theorem reference_written {maxPayload : UInt64} {written : List (MessageType × Bytes)}
    {encode : MessageType × Bytes → Bytes}
    (h : ∀ w ∈ written, encodeFrame w.1 0 w.2 maxPayload = .ok (encode w)) :
    reference maxPayload (written.flatMap encode) =
      ⟨written.map fun w => Frame.of w.1 w.2, [], none⟩ :=
  (frameGrammar maxPayload).parse_items (fun w hw rest => readFrame_encode (h w hw) rest)
    (readFrame_nil maxPayload)

/-- Written frames that fit into one chunk are handed over by one push. -/
theorem push_written {maxPayload : UInt64} {written : List (MessageType × Bytes)}
    {encode : MessageType × Bytes → Bytes}
    (h : ∀ w ∈ written, encodeFrame w.1 0 w.2 maxPayload = .ok (encode w))
    (hfit : (written.flatMap encode).length ≤ limit maxPayload) :
    ((FrameDecoder.mk maxPayload [] false .success).push (written.flatMap encode)).2 =
      (written.map fun w => Frame.of w.1 w.2, Status.success) := by
  have href := reference_written h
  rw [reference] at href
  rw [push, if_neg Bool.false_ne_true, List.length_nil, Nat.zero_add,
    if_neg (Nat.not_lt.mpr hfit)]
  simp only [List.nil_append, href]

/-- A stream pushed in chunks into a fresh decoder. The frames handed over and the failure are
those of one pass over the whole stream exactly when, wherever a chunk overflows, no frame of
the stream is left and the stream is refused. Frames that were written are recovered exactly
when no chunk overflows. A decoder that has failed hands nothing over and keeps its status. -/
theorem decode_chunks (maxPayload : UInt64) (chunks : List Bytes) :
    ((((FrameDecoder.mk maxPayload [] false .success).pushAll chunks).2 =
          (reference maxPayload chunks.flatten).items ∧
        (((FrameDecoder.mk maxPayload [] false .success).pushAll chunks).1.failed = true ↔
          (reference maxPayload chunks.flatten).failure ≠ none)) ↔
      ∀ before chunk after, chunks = before ++ chunk :: after →
        Overflows maxPayload before.flatten chunk →
          (reference maxPayload before.flatten).items =
              (reference maxPayload chunks.flatten).items ∧
            (reference maxPayload chunks.flatten).failure ≠ none) ∧
    (∀ (written : List (MessageType × Bytes)) (encode : MessageType × Bytes → Bytes),
      (∀ w ∈ written, encodeFrame w.1 0 w.2 maxPayload = .ok (encode w)) →
      chunks.flatten = written.flatMap encode →
        ((((FrameDecoder.mk maxPayload [] false .success).pushAll chunks).2 =
            written.map (fun w => Frame.of w.1 w.2) ∧
          ((FrameDecoder.mk maxPayload [] false .success).pushAll chunks).1.failed = false) ↔
        ∀ before chunk after, chunks = before ++ chunk :: after →
          ¬ Overflows maxPayload before.flatten chunk)) ∧
    (∀ (d : FrameDecoder) (chunk : Bytes), (d.push chunk).1.failed = true →
      ∀ later, (d.push chunk).1.push later = ((d.push chunk).1, [], (d.push chunk).2.2)) := by
  have hmain := @pushAll_behind maxPayload [] chunks (by rw [reference_nil])
  have hfresh : behind maxPayload [] = FrameDecoder.mk maxPayload [] false .success := by
    rw [behind, reference_nil]
  rw [hfresh, reference_nil, List.nil_append, List.nil_append] at hmain
  have hunhurt : Unhurt maxPayload [] chunks ↔
      ∀ before chunk after, chunks = before ++ chunk :: after →
        Overflows maxPayload before.flatten chunk →
          (reference maxPayload before.flatten).items =
              (reference maxPayload chunks.flatten).items ∧
            (reference maxPayload chunks.flatten).failure ≠ none := by
    simp only [Unhurt, List.nil_append]
  rw [hunhurt] at hmain
  refine ⟨hmain, fun written encode hw hflat => ?_, fun d chunk hfailed later => ?_⟩
  · have href := reference_written hw
    rw [hflat, href] at hmain
    constructor
    · rintro ⟨hframes, hok⟩ before chunk after hsplit hover
      have hall := hmain.mp ⟨hframes, by rw [hok]; simp⟩ before chunk after hsplit hover
      exact hall.2 rfl
    · intro hnone
      obtain ⟨hframes, hok⟩ := hmain.mpr fun before chunk after hsplit hover =>
        absurd hover (hnone before chunk after hsplit)
      refine ⟨hframes, ?_⟩
      cases hf : ((FrameDecoder.mk maxPayload [] false .success).pushAll chunks).1.failed with
      | false => rfl
      | true => exact absurd rfl (hok.mp hf)
  · rw [push_failed hfailed, push_status d chunk hfailed]

end FrameDecoder

namespace Sample

def pingBytes : Bytes := ((encodeFrame .ping 0 [1] 4).toOption).getD []

theorem encode_ping : encodeFrame .ping 0 [1] 4 = .ok pingBytes := rfl

theorem pingBytes_length : pingBytes.length = 21 := rfl

end Sample

/-- Two whole frames in one push make the decoder fail before it hands over the first. -/
theorem one_push_refused :
    ¬ ∀ (maxPayload : UInt64) (chunks : List Bytes),
      ((FrameDecoder.mk maxPayload [] false .success).pushAll chunks).2 =
          (FrameDecoder.reference maxPayload chunks.flatten).items ∧
        (((FrameDecoder.mk maxPayload [] false .success).pushAll chunks).1.failed = true ↔
          (FrameDecoder.reference maxPayload chunks.flatten).failure ≠ none) := by
  intro h
  obtain ⟨-, hfailed⟩ := h 4 [Sample.pingBytes ++ Sample.pingBytes]
  have hflat : [Sample.pingBytes ++ Sample.pingBytes].flatten =
      [(MessageType.ping, ([1] : Bytes)), (MessageType.ping, ([1] : Bytes))].flatMap
        fun _ => Sample.pingBytes := by
    simp
  rw [hflat, @FrameDecoder.reference_written 4 _ _
    (fun w hw => by
      rcases List.mem_cons.mp hw with rfl | hw
      · exact Sample.encode_ping
      · rw [List.mem_singleton.mp hw]
        exact Sample.encode_ping)] at hfailed
  have hover : FrameDecoder.Overflows 4 [] (Sample.pingBytes ++ Sample.pingBytes) := by
    rw [FrameDecoder.Overflows, FrameDecoder.reference_nil, List.length_append,
      Sample.pingBytes_length]
    exact ⟨rfl, by decide⟩
  have hpush := (FrameDecoder.push_overflow hover).1
  rw [FrameDecoder.behind, FrameDecoder.reference_nil] at hpush
  exact hfailed.mp hpush rfl

/-- The same two frames, one in each push, are recovered. -/
theorem decode_chunks_sample :
    ((FrameDecoder.mk 4 [] false .success).pushAll [Sample.pingBytes, Sample.pingBytes]).2 =
      [Frame.of .ping [1], Frame.of .ping [1]] := by
  refine (((FrameDecoder.decode_chunks 4 [Sample.pingBytes, Sample.pingBytes]).2.1
    [(.ping, [1]), (.ping, [1])] (fun _ => Sample.pingBytes) ?_ ?_).mpr ?_).1
  · intro w hw
    rcases List.mem_cons.mp hw with rfl | hw
    · exact Sample.encode_ping
    · rw [List.mem_singleton.mp hw]
      exact Sample.encode_ping
  · simp
  · intro before chunk after hsplit hover
    have hrest : (FrameDecoder.reference 4 before.flatten).rest = [] ∧ chunk.length = 21 := by
      rcases before with _ | ⟨b, _ | ⟨b', before⟩⟩
      · cases hsplit
        rw [List.flatten_nil, FrameDecoder.reference_nil]
        exact ⟨rfl, Sample.pingBytes_length⟩
      · cases hsplit
        have hone : [Sample.pingBytes].flatten =
            [(MessageType.ping, ([1] : Bytes))].flatMap fun _ => Sample.pingBytes := by
          simp
        rw [hone, @FrameDecoder.reference_written 4 _ _ (fun w hw => by
          rw [List.mem_singleton.mp hw]
          exact Sample.encode_ping)]
        exact ⟨rfl, Sample.pingBytes_length⟩
      · have hlen := congrArg List.length hsplit
        simp at hlen
    have hlt := hover.2
    rw [hrest.1, hrest.2] at hlt
    exact absurd hlt (by decide)

end LinkFailover
