import LinkFailover.Ids

/-!
# The journal file

A header with the base sequence, then records, each behind a header of its own with a
checksum over the header and one over the payload. A record that ends beyond the file is a
torn tail, which replay cuts off when asked to; every other deviation is corruption.

* `scan_frames`: scanning written records, with or without a torn tail behind them, calls
  the hook on exactly these records, in order.
* `replay_frames`: the same for a whole file.
-/

namespace LinkFailover

open Codec

/-! ## Format -/

inductive RecordType where
  | boot | policyCommit | topologyCommit | attemptCreate | attemptUpdate | decisionCommit
  | fence | completion | rollback | idempotencyIndex | checkpoint | shutdown
  deriving DecidableEq, Repr

instance : ClosedEnum RecordType where
  values := [.boot, .policyCommit, .topologyCommit, .attemptCreate, .attemptUpdate,
    .decisionCommit, .fence, .completion, .rollback, .idempotencyIndex, .checkpoint, .shutdown]
  complete a := by cases a <;> decide
  nodup := by decide
  small := by decide

def kJournalFormatVersion : UInt16 := 1
def kJournalHeaderSize : Nat := 32
def kRecordHeaderSize : Nat := 32
def kMaxRecordPayload : Nat := 1048576
def kJournalMagic : UInt32 := 0x314E494C
def kRecordMagic : UInt32 := 0x3143524C
def kMaxJournalBytes : Nat := 268435456

structure JournalRecord where
  type : RecordType
  seq : LineageSeq
  payload : Bytes
  deriving DecidableEq

/-- A header is closed by the checksum over what precedes it. -/
def sealHeader (head : Bytes) : Bytes := head ++ leBytes 4 (crc32c head).toNat

/-- The fields of a journal header as they stand in the file. -/
structure RawJournalHeader where
  magic : UInt32 := kJournalMagic
  version : UInt16 := kJournalFormatVersion
  flags : UInt16 := 0
  base : UInt64
  reserved : UInt64 := 0
  reserved' : UInt32 := 0
  deriving DecidableEq

namespace RawJournalHeader

def encode (h : RawJournalHeader) : Writer → Writer :=
  Writer.fields [.u32 h.magic, .u16 h.version, .u16 h.flags, .u64 h.base, .u64 h.reserved,
    .u32 h.reserved']

def decode : Parser RawJournalHeader := do
  let magic ← Parser.u32
  let version ← Parser.u16
  let flags ← Parser.u16
  let base ← Parser.u64
  let reserved ← Parser.u64
  let reserved' ← Parser.u32
  return { magic, version, flags, base, reserved, reserved' }

theorem roundTrip (h : RawJournalHeader) : RoundTrip h.encode decode h := by
  refine .cons (.u32 _) ?_
  refine .cons (.u16 _) ?_
  refine .cons (.u16 _) ?_
  refine .cons (.u64 _) ?_
  refine .cons (.u64 _) ?_
  exact .cons (.u32 _) (.nil _)

end RawJournalHeader

def buildJournalHeader (base : LineageSeq) : Bytes :=
  sealHeader (Writer.run (RawJournalHeader.encode { base := base.value }))

/-- The base sequence of a journal, or why its header is refused. -/
def parseJournalHeader (data : Bytes) : Result LineageSeq :=
  match (do let h ← RawJournalHeader.decode; let crc ← Parser.u32; return (h, crc)) data with
  | none => fail .invalid .truncatedFrame "journal header is truncated"
  | some ((h, crc), _) =>
    if h.magic ≠ kJournalMagic then fail .corrupt .corruptRecord "journal magic mismatch"
    else if crc32c (data.take 28) ≠ crc then
      fail .corrupt .checksumMismatch "journal header checksum mismatch"
    else if h.version ≠ kJournalFormatVersion then
      failWith .unsupported .unsupportedFormatVersion "unsupported journal format version"
        .invalidArgument (decimal h.version.toNat)
    else if h.flags ≠ 0 then
      fail .invalid .reservedBitsSet "journal header flags must be zero"
    else if h.reserved ≠ 0 ∨ h.reserved' ≠ 0 then
      fail .invalid .reservedBitsSet "journal header reserved fields must be zero"
    else .ok ⟨h.base⟩

/-- The fields of a record header as they stand in the file. -/
structure RawRecordHeader where
  magic : UInt32 := kRecordMagic
  version : UInt16 := kJournalFormatVersion
  type : UInt16
  length : UInt32
  seq : UInt64
  payloadCrc : UInt32
  reserved : UInt32 := 0
  deriving DecidableEq

namespace RawRecordHeader

def encode (h : RawRecordHeader) : Writer → Writer :=
  Writer.fields [.u32 h.magic, .u16 h.version, .u16 h.type, .u32 h.length, .u64 h.seq,
    .u32 h.payloadCrc, .u32 h.reserved]

def decode : Parser RawRecordHeader := do
  let magic ← Parser.u32
  let version ← Parser.u16
  let type ← Parser.u16
  let length ← Parser.u32
  let seq ← Parser.u64
  let payloadCrc ← Parser.u32
  let reserved ← Parser.u32
  return { magic, version, type, length, seq, payloadCrc, reserved }

theorem roundTrip (h : RawRecordHeader) : RoundTrip h.encode decode h := by
  refine .cons (.u32 _) ?_
  refine .cons (.u16 _) ?_
  refine .cons (.u16 _) ?_
  refine .cons (.u32 _) ?_
  refine .cons (.u64 _) ?_
  refine .cons (.u32 _) ?_
  exact .cons (.u32 _) (.nil _)

end RawRecordHeader

def rawHeader (r : JournalRecord) : RawRecordHeader where
  type := WireEnum.code r.type
  length := UInt32.ofNat r.payload.length
  seq := r.seq.value
  payloadCrc := crc32c r.payload

def buildRecordHeader (r : JournalRecord) : Bytes :=
  sealHeader (Writer.run (rawHeader r).encode)

/-- The bytes of a record in the file. -/
def frame (r : JournalRecord) : Bytes := buildRecordHeader r ++ r.payload

/-- The type and the raw fields of a record header, or why it is refused. -/
def parseRecordHeader (data : Bytes) : Result (RecordType × RawRecordHeader) :=
  match (do let h ← RawRecordHeader.decode; let crc ← Parser.u32; return (h, crc)) data with
  | none => fail .invalid .truncatedFrame "record header is truncated"
  | some ((h, crc), _) =>
    if h.magic ≠ kRecordMagic then fail .corrupt .corruptRecord "record magic mismatch"
    else if crc32c (data.take 28) ≠ crc then
      fail .corrupt .checksumMismatch "record header checksum mismatch"
    else if h.version ≠ kJournalFormatVersion then
      failWith .unsupported .unsupportedFormatVersion "unsupported record format version"
        .invalidArgument (decimal h.version.toNat)
    else
      match WireEnum.ofCode? h.type with
      | none =>
        failWith .corrupt .unsupportedValue "unknown record type" .invalidArgument
          (decimal h.type.toNat)
      | some type =>
        if h.length.toNat > kMaxRecordPayload then
          failWith .limitExceeded .limitExceeded "record payload exceeds the supported bound"
            .invalidArgument (decimal h.length.toNat)
        else if h.reserved ≠ 0 then
          fail .invalid .reservedBitsSet "record header reserved field must be zero"
        else .ok (type, h)

/-! ## Scanning -/

/-- What stands at the front of the unread part of a journal. -/
inductive Head where
  | done
  | torn
  | record (r : JournalRecord) (rest : Bytes)

/-- What follows a record header: its whole payload with the right checksum, or less. -/
def readPayload (type : RecordType) (h : RawRecordHeader) (rest : Bytes) : Result Head :=
  if rest.length < h.length.toNat then .ok .torn
  else if crc32c (rest.take h.length.toNat) ≠ h.payloadCrc then
    failWith .corrupt .checksumMismatch "record payload checksum mismatch" .corruptRecord
      (decimal h.seq.toNat)
  else .ok (.record ⟨type, ⟨h.seq⟩, rest.take h.length.toNat⟩ (rest.drop h.length.toNat))

def readHead (data : Bytes) : Result Head :=
  if data.isEmpty then .ok .done
  else if data.length < kRecordHeaderSize then .ok .torn
  else do
    let (type, h) ← parseRecordHeader data
    readPayload type h (data.drop kRecordHeaderSize)

/-- The state of a replay: what the hook made of the records so far, the last sequence, the
number of records and of bytes read. -/
structure Scan (σ : Type) where
  state : σ
  lastSeq : LineageSeq
  records : Nat := 0
  offset : Nat := kJournalHeaderSize
  torn : Bool := false

variable {σ : Type}

def scanRecord (hook : σ → JournalRecord → Result σ) (s : Scan σ) (r : JournalRecord) :
    Result (Scan σ) :=
  if s.lastSeq < r.seq then do
    let state ← hook s.state r
    return { s with
      state := state
      lastSeq := r.seq
      records := s.records + 1
      offset := s.offset + kRecordHeaderSize + r.payload.length }
  else
    failWith .corrupt .sequenceRegression "record sequence does not advance the lineage"
      .corruptRecord (decimal r.seq.toNat)

/-- At most the given number of rounds; a round reads at least one header. -/
def scan (hook : σ → JournalRecord → Result σ) : Nat → Bytes → Scan σ → Result (Scan σ)
  | 0, _, s => .ok s
  | n + 1, data, s => do
    match ← readHead data with
    | .done => return s
    | .torn => return { s with torn := true }
    | .record r rest =>
      let s ← scanRecord hook s r
      scan hook n rest s

structure JournalOpenResult where
  base : LineageSeq := .zero
  lastSeq : LineageSeq := .zero
  tornTailRecovered : Bool := false
  truncatedToEmpty : Bool := false
  recordsReplayed : Nat := 0
  bytesDiscarded : Nat := 0

/-- The outcome of a scan over a file of the given size. -/
def JournalOpenResult.ofScan (size : Nat) (base : LineageSeq) (s : Scan σ) : JournalOpenResult where
  base := base
  lastSeq := s.lastSeq
  tornTailRecovered := s.torn
  recordsReplayed := s.records
  bytesDiscarded := if s.torn then size - s.offset else 0

/-- Replays a journal file: the outcome, the state the hook built, and the file as it is
left behind. -/
def replay (file : Option Bytes) (repairTornTail : Bool) (hook : σ → JournalRecord → Result σ)
    (state : σ) : Result (JournalOpenResult × σ × Bytes) :=
  match file with
  | none => fail .notFound .unknownLink "journal file does not exist"
  | some data =>
    if data.length > kMaxJournalBytes then
      failWith .limitExceeded .limitExceeded "file exceeds the configured maximum"
        .invalidArgument (decimal data.length)
    else if data.length < kJournalHeaderSize then
      if !repairTornTail then fail .corrupt .corruptRecord "journal header is incomplete"
      else
        .ok ({ tornTailRecovered := true
               truncatedToEmpty := true
               bytesDiscarded := data.length }, state, [])
    else do
      let base ← parseJournalHeader data
      let s ← scan hook data.length (data.drop kJournalHeaderSize)
        { state := state, lastSeq := base }
      if s.torn && !repairTornTail then
        failWith .corrupt .tornTailRecovered "journal ends in a torn record" .truncatedFrame
          (decimal (data.length - s.offset))
      else
        return (.ofScan data.length base s, s.state, if s.torn then data.take s.offset else data)

/-! ## Written headers are accepted -/

theorem sealHeader_length {head : Bytes} (h : head.length = 28) : (sealHeader head).length = 32 := by
  rw [sealHeader, List.length_append, h, leBytes_length]

/-- A sealed header reads back as its fields and the checksum of its bytes. -/
theorem reads_sealed {α : Type} {f : Writer → Writer} {p : Parser α} {a : α}
    (h : RoundTrip f p a) (rest : Bytes) :
    (do let x ← p; let crc ← Parser.u32; return (x, crc) : Parser (α × UInt32))
      (sealHeader (Writer.run f) ++ rest) = some ((a, crc32c (Writer.run f)), rest) := by
  have hr : Reads (do let x ← p; let crc ← Parser.u32; return (x, crc) : Parser (α × UInt32))
      (sealHeader (Writer.run f)) (a, crc32c (Writer.run f)) :=
    h.reads.bind (.map (.u32 _) (.pure _))
  exact hr rest

theorem take_sealed {head : Bytes} (h : head.length = 28) (rest : Bytes) :
    (sealHeader head ++ rest).take 28 = head := by
  rw [sealHeader, List.append_assoc, List.take_left' h]

theorem journalHead_length (h : RawJournalHeader) : (Writer.run h.encode).length = 28 := by
  simp [Writer.run, RawJournalHeader.encode, Writer.fields, Writer.u32, Writer.u16, Writer.u64]

theorem buildJournalHeader_length (base : LineageSeq) :
    (buildJournalHeader base).length = kJournalHeaderSize :=
  sealHeader_length (journalHead_length _)

theorem parseJournalHeader_build (base : LineageSeq) (rest : Bytes) :
    parseJournalHeader (buildJournalHeader base ++ rest) = .ok base := by
  unfold parseJournalHeader buildJournalHeader
  rw [reads_sealed (RawJournalHeader.roundTrip _), take_sealed (journalHead_length _)]
  simp

theorem recordHead_length (h : RawRecordHeader) : (Writer.run h.encode).length = 28 := by
  simp [Writer.run, RawRecordHeader.encode, Writer.fields, Writer.u32, Writer.u16, Writer.u64]

theorem buildRecordHeader_length (r : JournalRecord) :
    (buildRecordHeader r).length = kRecordHeaderSize :=
  sealHeader_length (recordHead_length _)

theorem frame_length (r : JournalRecord) :
    (frame r).length = kRecordHeaderSize + r.payload.length := by
  rw [frame, List.length_append, buildRecordHeader_length]

/-- A record the writer accepts. -/
def JournalRecord.Fits (r : JournalRecord) : Prop := r.payload.length ≤ kMaxRecordPayload

theorem JournalRecord.Fits.toNat_length {r : JournalRecord} (h : r.Fits) :
    (UInt32.ofNat r.payload.length).toNat = r.payload.length := by
  rw [UInt32.toNat_ofNat', Nat.mod_eq_of_lt (Nat.lt_of_le_of_lt h (by decide))]

theorem parseRecordHeader_build {r : JournalRecord} (h : r.Fits) (rest : Bytes) :
    parseRecordHeader (buildRecordHeader r ++ rest) = .ok (r.type, rawHeader r) := by
  unfold parseRecordHeader buildRecordHeader
  rw [reads_sealed (RawRecordHeader.roundTrip _), take_sealed (recordHead_length _)]
  have hl : (rawHeader r).length.toNat ≤ kMaxRecordPayload := by
    change (UInt32.ofNat r.payload.length).toNat ≤ _
    rw [h.toNat_length]
    exact h
  have ht : WireEnum.ofCode? (rawHeader r).type = some r.type := ClosedEnum.ofCode?_code _
  have hm : (rawHeader r).magic = kRecordMagic := rfl
  have hv : (rawHeader r).version = kJournalFormatVersion := rfl
  have hr : (rawHeader r).reserved = 0 := rfl
  simp [ht, hm, hv, hr, Nat.not_lt_of_le hl]

/-! ## Written records are read back -/

theorem readHead_of_parse {data : Bytes} {type : RecordType} {h : RawRecordHeader}
    (hl : kRecordHeaderSize ≤ data.length) (hp : parseRecordHeader data = .ok (type, h)) :
    readHead data = readPayload type h (data.drop kRecordHeaderSize) := by
  have hne : data.isEmpty = false := by
    cases data with
    | nil => exact absurd hl (by decide)
    | cons b bs => rfl
  simp only [readHead, hne, Nat.not_lt_of_le hl, hp, Bool.false_eq_true, if_false]
  rfl

theorem readHead_frame {r : JournalRecord} (h : r.Fits) (rest : Bytes) :
    readHead (frame r ++ rest) = .ok (.record r rest) := by
  have hlen : kRecordHeaderSize ≤ (frame r ++ rest).length := by
    rw [List.length_append, frame_length]
    omega
  have hparse : parseRecordHeader (frame r ++ rest) = .ok (r.type, rawHeader r) := by
    rw [frame, List.append_assoc, parseRecordHeader_build h]
  have hdrop : (frame r ++ rest).drop kRecordHeaderSize = r.payload ++ rest := by
    rw [frame, List.append_assoc, List.drop_left' (buildRecordHeader_length r)]
  have hsize : (rawHeader r).length.toNat = r.payload.length := h.toNat_length
  have hge : ¬ (r.payload ++ rest).length < r.payload.length := by
    rw [List.length_append]
    omega
  rw [readHead_of_parse hlen hparse, hdrop]
  have hcrc : ¬ crc32c r.payload ≠ (rawHeader r).payloadCrc := not_not.mpr rfl
  simp only [readPayload, hsize, hge, hcrc, if_false, List.take_left, List.drop_left]
  rfl

/-- A proper prefix of a written record is a torn tail. -/
theorem readHead_torn {r : JournalRecord} (h : r.Fits) {n : Nat} (h0 : 0 < n)
    (hn : n < (frame r).length) : readHead ((frame r).take n) = .ok .torn := by
  have hlen := frame_length r
  have htake : ((frame r).take n).length = n := by
    rw [List.length_take]
    omega
  by_cases hlt : n < kRecordHeaderSize
  · have hne : ((frame r).take n).isEmpty = false := by
      rw [List.isEmpty_eq_false_iff, ← List.length_pos_iff]
      omega
    simp only [readHead, hne, htake, hlt, if_true, Bool.false_eq_true, if_false]
  · have hsplit : (frame r).take n =
        buildRecordHeader r ++ r.payload.take (n - kRecordHeaderSize) := by
      rw [frame, List.take_append, buildRecordHeader_length,
        List.take_of_length_le (by rw [buildRecordHeader_length]; omega)]
    have hparse : parseRecordHeader ((frame r).take n) = .ok (r.type, rawHeader r) := by
      rw [hsplit, parseRecordHeader_build h]
    have hrest : (((frame r).take n).drop kRecordHeaderSize).length <
        (rawHeader r).length.toNat := by
      have hsize : (rawHeader r).length.toNat = r.payload.length := h.toNat_length
      rw [List.length_drop, htake, hsize]
      omega
    rw [readHead_of_parse (by omega) hparse, readPayload, if_pos hrest]

/-- The scan of the records of a file, without the bytes. -/
def scanAll (hook : σ → JournalRecord → Result σ) (records : List JournalRecord) (s : Scan σ) :
    Result (Scan σ) :=
  records.foldlM (scanRecord hook) s

/-- Scanning written records, and a torn tail behind them when there is one, hands exactly
these records to the hook. -/
theorem scan_frames {hook : σ → JournalRecord → Result σ} {records : List JournalRecord}
    {tail : Bytes} {torn : Bool} (hfits : ∀ r ∈ records, r.Fits)
    (htail : readHead tail = .ok (if torn then .torn else .done)) {n : Nat} {s : Scan σ}
    (hn : (records.flatMap frame ++ tail).length ≤ n) (hs : s.torn = false)
    (h0 : torn = true → 0 < tail.length) :
    scan hook n (records.flatMap frame ++ tail) s =
      (scanAll hook records s).map fun s => { s with torn := torn } := by
  induction records generalizing n s with
  | nil =>
    rw [List.flatMap_nil, List.nil_append]
    cases n with
    | zero =>
      have ht : torn = false := by
        cases torn with
        | false => rfl
        | true =>
          have := h0 rfl
          simp only [List.flatMap_nil, List.nil_append] at hn
          omega
      rw [ht, ← hs]
      rfl
    | succ n =>
      rw [scan, htail]
      cases torn with
      | true => rfl
      | false =>
        change Except.ok s = Except.ok { s with torn := false }
        rw [← hs]
  | cons r records ih =>
    have hlen := frame_length r
    rw [List.flatMap_cons, List.append_assoc] at hn ⊢
    rw [List.length_append, hlen, kRecordHeaderSize] at hn
    cases n with
    | zero => omega
    | succ n =>
      rw [scan, readHead_frame (hfits r List.mem_cons_self)]
      change (scanRecord hook s r >>= fun s => scan hook n _ s) = _
      rw [scanAll, List.foldlM_cons]
      cases hr : scanRecord hook s r with
      | error e => rfl
      | ok s' =>
        have hs' : s'.torn = false := by
          unfold scanRecord at hr
          split at hr
          · cases hh : hook s.state r with
            | error e => rw [hh] at hr; cases hr
            | ok state =>
              rw [hh] at hr
              cases hr
              exact hs
          · cases hr
        exact ih (fun q hq => hfits q (List.mem_cons_of_mem _ hq)) (by omega) hs'

/-- The offset reached by a scan, past the header. -/
theorem scanAll_offset {hook : σ → JournalRecord → Result σ} {records : List JournalRecord}
    {s s' : Scan σ} (h : scanAll hook records s = .ok s') :
    s'.offset = s.offset + (records.flatMap frame).length := by
  induction records generalizing s with
  | nil =>
    cases h
    simp
  | cons r records ih =>
    rw [scanAll, List.foldlM_cons] at h
    cases hr : scanRecord hook s r with
    | error e => rw [hr] at h; cases h
    | ok t =>
      rw [hr] at h
      have ht : t.offset = s.offset + kRecordHeaderSize + r.payload.length := by
        unfold scanRecord at hr
        split at hr
        · cases hh : hook s.state r with
          | error e => rw [hh] at hr; cases hr
          | ok state => rw [hh] at hr; cases hr; rfl
        · cases hr
      rw [ih h, ht, List.flatMap_cons, List.length_append, frame_length]
      omega

/-- A journal as its writer leaves it: a header, whole records, and possibly the beginning
of one more record. -/
structure JournalShape (file : Bytes) (base : LineageSeq) (records : List JournalRecord)
    (tail : Bytes) : Prop where
  bytes : file = buildJournalHeader base ++ (records.flatMap frame ++ tail)
  fits : ∀ r ∈ records, r.Fits
  torn : tail = [] ∨ ∃ r : JournalRecord, r.Fits ∧ ∃ n, 0 < n ∧ n < (frame r).length ∧
    tail = (frame r).take n

theorem JournalShape.readHead_tail {file : Bytes} {base : LineageSeq}
    {records : List JournalRecord} {tail : Bytes} (h : JournalShape file base records tail) :
    readHead tail = .ok (if !tail.isEmpty then .torn else .done) := by
  rcases h.torn with rfl | ⟨r, hr, n, h0, hn, rfl⟩
  · rfl
  · have hne : ((frame r).take n).isEmpty = false := by
      rw [List.isEmpty_eq_false_iff, ← List.length_pos_iff, List.length_take]
      omega
    rw [readHead_torn hr h0 hn, hne]
    rfl

/-- A replay of a journal that its writer left behind, up to the scan of its records. -/
theorem replay_shape {hook : σ → JournalRecord → Result σ} {file : Bytes} {base : LineageSeq}
    {records : List JournalRecord} {tail : Bytes} (h : JournalShape file base records tail)
    (hsize : file.length ≤ kMaxJournalBytes) (repair : Bool) (state : σ) :
    replay (some file) repair hook state =
      ((scanAll hook records { state := state, lastSeq := base }).map
        fun s => { s with torn := !tail.isEmpty }) >>= fun s =>
        if s.torn && !repair then
          failWith .corrupt .tornTailRecovered "journal ends in a torn record" .truncatedFrame
            (decimal (file.length - s.offset))
        else
          return (.ofScan file.length base s, s.state,
            if s.torn then file.take s.offset else file) := by
  have hlen := congrArg List.length h.bytes
  rw [List.length_append, buildJournalHeader_length] at hlen
  have hdrop : file.drop kJournalHeaderSize = records.flatMap frame ++ tail := by
    rw [h.bytes, List.drop_left' (buildJournalHeader_length base)]
  have hparse : parseJournalHeader file = .ok base := by
    rw [h.bytes, parseJournalHeader_build]
  have hscan := @scan_frames _ hook _ _ _ h.fits h.readHead_tail file.length
    { state := state, lastSeq := base } (by omega) rfl (by simp [List.length_pos_iff])
  rw [replay, if_neg (by omega), if_neg (by omega), hparse]
  change (scan hook file.length (file.drop kJournalHeaderSize) _ >>= _) = _
  rw [hdrop, hscan]

/-- Replaying a journal that its writer left behind is a fold of the hook over its records.
The file keeps its whole records and loses its tail. -/
theorem replay_frames {hook : σ → JournalRecord → Result σ} {file : Bytes} {base : LineageSeq}
    {records : List JournalRecord} {tail : Bytes} (h : JournalShape file base records tail)
    (hsize : file.length ≤ kMaxJournalBytes) {repair : Bool} (hr : tail = [] ∨ repair = true)
    (state : σ) :
    replay (some file) repair hook state =
      (scanAll hook records { state := state, lastSeq := base }).map fun s =>
        (.ofScan file.length base { s with torn := !tail.isEmpty }, s.state,
          buildJournalHeader base ++ records.flatMap frame) := by
  rw [replay_shape h hsize]
  cases hall : scanAll hook records { state := state, lastSeq := base } with
  | error e => rfl
  | ok s =>
    have hoff := scanAll_offset hall
    change (if (!tail.isEmpty && !repair) = true then _ else _) = _
    rw [if_neg (by rcases hr with rfl | rfl <;> simp)]
    refine congrArg Except.ok (Prod.ext rfl (Prod.ext rfl ?_))
    change (if (!tail.isEmpty) = true then file.take s.offset else file) = _
    cases tail with
    | nil => simpa using h.bytes
    | cons b bs =>
      have hs : s.offset = (buildJournalHeader base ++ records.flatMap frame).length := by
        rw [hoff, List.length_append, buildJournalHeader_length]
      change file.take s.offset = buildJournalHeader base ++ records.flatMap frame
      rw [h.bytes, hs, ← List.append_assoc, List.take_left]

/-- Without repair a torn tail makes the replay fail. -/
theorem replay_torn {hook : σ → JournalRecord → Result σ} {file : Bytes} {base : LineageSeq}
    {records : List JournalRecord} {tail : Bytes} (h : JournalShape file base records tail)
    (hsize : file.length ≤ kMaxJournalBytes) (ht : tail ≠ []) (state : σ) :
    ∃ e, replay (some file) false hook state = .error e := by
  rw [replay_shape h hsize]
  cases scanAll hook records { state := state, lastSeq := base } with
  | error e => exact ⟨e, rfl⟩
  | ok s =>
    change ∃ e, (if (!tail.isEmpty && !false) = true then _ else _) = Except.error e
    rw [if_pos (by simp [ht])]
    exact ⟨_, rfl⟩

end LinkFailover
