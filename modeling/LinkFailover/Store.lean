import LinkFailover.DurableState

/-!
# The lineage store

A directory with a snapshot and a journal, and the store that a process opens on it. A commit
appends one record to the journal and changes the memory only when the append succeeded. A
checkpoint replaces the snapshot and starts a new journal; these are two steps on the medium.

The medium of the model carries two scripts that say how the writes of one process end:
`appendFaults` for the appends and `checkpointFaults` for the checkpoints. A process that is
killed in the middle of an append is one whose append fails after some bytes and that does
nothing afterwards. `history` is a record for the proofs: no function reads it.
-/

namespace LinkFailover

open Codec

/-! ## Snapshot frames -/

def kSnapshotMagic : UInt32 := 0x31504E53
def kSnapshotFormatVersion : UInt16 := 1
def kSnapshotHeaderSize : Nat := 32
def kMaxSnapshotBytes : Nat := 33554432

structure RawSnapshotHeader where
  magic : UInt32 := kSnapshotMagic
  version : UInt16 := kSnapshotFormatVersion
  flags : UInt16 := 0
  length : UInt32
  payloadCrc : UInt32
  reserved : UInt64 := 0
  reserved' : UInt32 := 0
  deriving DecidableEq

namespace RawSnapshotHeader

def encode (h : RawSnapshotHeader) : Writer → Writer :=
  Writer.fields [.u32 h.magic, .u16 h.version, .u16 h.flags, .u32 h.length, .u32 h.payloadCrc,
    .u64 h.reserved, .u32 h.reserved']

def decode : Parser RawSnapshotHeader := do
  let magic ← Parser.u32
  let version ← Parser.u16
  let flags ← Parser.u16
  let length ← Parser.u32
  let payloadCrc ← Parser.u32
  let reserved ← Parser.u64
  let reserved' ← Parser.u32
  return { magic, version, flags, length, payloadCrc, reserved, reserved' }

theorem roundTrip (h : RawSnapshotHeader) : RoundTrip h.encode decode h := by
  refine .cons (.u32 _) ?_
  refine .cons (.u16 _) ?_
  refine .cons (.u16 _) ?_
  refine .cons (.u32 _) ?_
  refine .cons (.u32 _) ?_
  refine .cons (.u64 _) ?_
  exact .cons (.u32 _) (.nil _)

theorem length_encode (h : RawSnapshotHeader) : (Writer.run h.encode).length = 28 := by
  simp [Writer.run, RawSnapshotHeader.encode, Writer.fields, Writer.u32, Writer.u16, Writer.u64]

end RawSnapshotHeader

def frameSnapshot (payload : Bytes) : Bytes :=
  sealHeader (Writer.run (RawSnapshotHeader.encode
    { length := UInt32.ofNat payload.length, payloadCrc := crc32c payload })) ++ payload

def unframeSnapshot (framed : Bytes) : Result Bytes :=
  match (do let h ← RawSnapshotHeader.decode; let crc ← Parser.u32; return (h, crc)) framed with
  | none => fail .corrupt .corruptRecord "snapshot is shorter than its header"
  | some ((h, crc), payload) =>
    if h.magic ≠ kSnapshotMagic then fail .corrupt .corruptRecord "snapshot magic mismatch"
    else if crc32c (framed.take 28) ≠ crc then
      fail .corrupt .checksumMismatch "snapshot header checksum mismatch"
    else if h.version ≠ kSnapshotFormatVersion then
      failWith .unsupported .unsupportedFormatVersion "unsupported snapshot format version"
        .invalidArgument (decimal h.version.toNat)
    else if h.flags ≠ 0 then
      fail .invalid .reservedBitsSet "snapshot flags must be zero"
    else if h.length.toNat > kMaxSnapshotBytes then
      fail .limitExceeded .limitExceeded "snapshot payload exceeds the supported bound"
    else if framed.length ≠ kSnapshotHeaderSize + h.length.toNat then
      fail .corrupt .corruptRecord "snapshot length does not match its declared payload"
    else if crc32c payload ≠ h.payloadCrc then
      fail .corrupt .checksumMismatch "snapshot payload checksum mismatch"
    else .ok payload

theorem frameSnapshot_length (payload : Bytes) :
    (frameSnapshot payload).length = kSnapshotHeaderSize + payload.length := by
  rw [frameSnapshot, List.length_append, sealHeader_length (RawSnapshotHeader.length_encode _)]
  rfl

theorem unframeSnapshot_frame {payload : Bytes} (h : payload.length ≤ kMaxSnapshotBytes) :
    unframeSnapshot (frameSnapshot payload) = .ok payload := by
  have hn : (UInt32.ofNat payload.length).toNat = payload.length :=
    toNat_ofNat_length h (by decide)
  have hlen : (frameSnapshot payload).length ≠ kSnapshotHeaderSize + payload.length ↔ False :=
    iff_false_intro (not_not.mpr (frameSnapshot_length payload))
  have htake : (frameSnapshot payload).take 28 = _ :=
    take_sealed (RawSnapshotHeader.length_encode _) payload
  rw [unframeSnapshot, htake]
  unfold frameSnapshot at hlen ⊢
  rw [reads_sealed (RawSnapshotHeader.roundTrip _)]
  simp only [hn, hlen, if_false, ne_eq, not_true_eq_false, gt_iff_lt, Nat.not_lt_of_le h]

/-! ## The medium -/

structure Directory where
  snapshot : Option Bytes := none
  journal : Option Bytes := none
  staging : Option Bytes := none
  deriving DecidableEq

/-- How an append or the creation of a journal ends: well, or after so many bytes. -/
abbrev Fault := Option Nat

/-- The step at which a checkpoint fails. -/
inductive CheckpointFault where
  | snapshot
  | staging (written : Nat)
  | rename
  | reopen

/-- One event in the life of a directory. -/
inductive Event where
  /-- A process opens the directory with these options. -/
  | opened (o : StoreOptions)
  /-- A replay applies a record to the table of attempts or to the idempotency index. -/
  | replayed (seq : LineageSeq) (p : Payload) (before after : DurableState)
  /-- A whole record reaches the journal. The commit may still be reported as failed, and
  then the memory stays as it was. -/
  | committed (seq : LineageSeq) (p : Payload) (before after : DurableState)
      (acknowledged : Bool)
  /-- A snapshot of a state replaces the snapshot, and the journal is replaced or not. -/
  | checkpointed (d : DurableState) (rotated : Bool)

structure Medium where
  directory : Directory := {}
  appendFaults : List Fault := []
  checkpointFaults : List (Option CheckpointFault) := []
  history : List Event := []

namespace Medium

/-- How the next append ends. -/
def nextFault (m : Medium) : Fault := m.appendFaults.head?.join

def popFault (m : Medium) : Medium := { m with appendFaults := m.appendFaults.tail }

def nextCheckpointFault (m : Medium) : Option CheckpointFault := m.checkpointFaults.head?.join

def popCheckpointFault (m : Medium) : Medium :=
  { m with checkpointFaults := m.checkpointFaults.tail }

def log (m : Medium) (events : List Event) : Medium := { m with history := m.history ++ events }

end Medium

/-! ## The journal writer -/

structure JournalWriter where
  lastSeq : LineageSeq
  failed : Bool := false

namespace JournalWriter

/-- Opens a journal file for appending, or creates it with a fresh header. -/
def openFile (file : Option Bytes) (fault : Fault) (base last : LineageSeq) (createNew : Bool) :
    Option Bytes × Result JournalWriter :=
  if base.value ≠ 0 ∧ last.value < base.value then
    (file, fail .invalid .sequenceRegression "journal last sequence precedes its base sequence")
  else if createNew then
    match fault with
    | none => (some (buildJournalHeader base), .ok { lastSeq := base })
    | some n =>
      (some ((buildJournalHeader base).take n),
        fail .ioError .internalError "cannot write journal header")
  else
    match file with
    | none => (file, fail .notFound .unknownLink "journal file does not exist")
    | some data =>
      if data.length < kJournalHeaderSize then
        (file, fail .corrupt .corruptRecord "journal file is shorter than its header")
      else
        match parseJournalHeader data with
        | .error e => (file, .error e)
        | .ok found =>
          if found ≠ base then
            (file, failWith .conflict .sequenceRegression
              "journal base sequence does not match the snapshot" .invalidArgument
              (decimal found.toNat))
          else (file, .ok { lastSeq := last })

/-- The status of an append that failed after `n` bytes of a frame. -/
def appendFailure (r : JournalRecord) (n : Nat) : Status :=
  Status.failure .ioError .internalError
    (text (if n < kRecordHeaderSize then "cannot write record header"
      else if n < (frame r).length then "cannot write record payload"
      else "journal fsync failed"))

def append (w : JournalWriter) (file : Bytes) (fault : Fault) (r : JournalRecord) :
    JournalWriter × Bytes × Status :=
  if w.failed then
    (w, file, Status.failure .ioError .stickyDecodeFailure
      (text "journal writer has already failed"))
  else if r.payload.length > kMaxRecordPayload then
    (w, file, Status.failure .limitExceeded .limitExceeded
      (text "record payload exceeds the supported bound"))
  else if ¬ w.lastSeq < r.seq then
    ({ w with failed := true }, file, Status.failure .conflict .sequenceRegression
      (text "record sequence does not advance the lineage"))
  else
    match fault with
    | none => ({ w with lastSeq := r.seq }, file ++ frame r, Status.success)
    | some n => ({ w with failed := true }, file ++ (frame r).take n, appendFailure r n)

end JournalWriter

/-! ## The store -/

structure LineageStore where
  options : StoreOptions
  state : DurableState
  writer : JournalWriter
  failed : Bool := false
  recordsSinceSnapshot : UInt64 := 0
  medium : Medium

namespace LineageStore

/-- The state behind a record: what the record applies, at the new position. -/
def applied (apply : LineageSeq → DurableState → DurableState) (seq : LineageSeq)
    (d : DurableState) : DurableState :=
  { apply seq d with lastSeq := seq, recordCount := (apply seq d).recordCount + 1 }

/-- Appends a record and only then applies it to the state. The first failure is final. -/
def commit (s : LineageStore) (p : Payload) (apply : LineageSeq → DurableState → DurableState) :
    LineageStore × Status :=
  if s.failed then
    (s, Status.failure .ioError .stickyDecodeFailure (text "lineage store has already failed"))
  else
    match s.state.lastSeq.next with
    | none =>
      ({ s with failed := true },
        Status.failure .exhausted .checkedArithmeticOverflow
          (text "lineage sequence space is exhausted"))
    | some next =>
      let file := s.medium.directory.journal.getD []
      let fault := s.medium.nextFault
      let (writer, file', status) := s.writer.append file fault (p.record next)
      let medium :=
        { s.medium.popFault with
          directory := { s.medium.directory with journal := some file' } }
      if !status.isOk then
        let events := if file'.length = (file ++ frame (p.record next)).length then
          [Event.committed next p s.state s.state false] else []
        ({ s with failed := true, writer := writer, medium := medium.log events }, status)
      else
        let state := applied apply next s.state
        ({ s with
            state := state
            writer := writer
            recordsSinceSnapshot := s.recordsSinceSnapshot + 1
            medium := medium.log [.committed next p s.state state true] }, Status.success)

def withDirectory (s : LineageStore) (f : Directory → Directory) : LineageStore :=
  { s with medium := { s.medium with directory := f s.medium.directory } }

def markFailed (s : LineageStore) : LineageStore := { s with failed := true }

/-- The step of a checkpoint that replaces the snapshot and leaves the journal behind. -/
def replaceSnapshot (s : LineageStore) (framed : Bytes) (staging : Option Bytes) : LineageStore :=
  let s := s.withDirectory fun dir => { dir with snapshot := some framed, staging := staging }
  { s with medium := s.medium.log [.checkpointed s.state false] }

/-- The step of a checkpoint that replaces the snapshot and then the journal. -/
def rotate (s : LineageStore) (framed : Bytes) (journal : Option Bytes) : LineageStore :=
  let s := s.withDirectory fun dir =>
    { dir with snapshot := some framed, journal := journal, staging := none }
  { s with medium := s.medium.log [.checkpointed s.state true] }

/-- The journal that is staged behind a snapshot. -/
def staged (fault : Fault) (covers : LineageSeq) : Option Bytes :=
  (JournalWriter.openFile none fault covers covers true).1

/-- Reopens the rotated journal and records the checkpoint in it. -/
def recordCheckpoint (s : LineageStore) (framed : Bytes) : LineageStore × Result LineageSeq :=
  let covers := s.state.lastSeq
  match (JournalWriter.openFile s.medium.directory.journal none covers covers false).2 with
  | .error e => (s.markFailed, .error e)
  | .ok writer =>
    let record : CheckpointPayload :=
      { coversSeq := covers
        recordCount := s.state.recordCount
        snapshotBytes := UInt64.ofNat framed.length }
    let committed := LineageStore.commit { s with writer := writer, recordsSinceSnapshot := 0 }
      (.checkpoint record) fun _ d => d
    (committed.1, if committed.2.isOk then .ok covers else .error committed.2)

/-- Writes the snapshot, then replaces the journal by an empty one that starts behind it. -/
def checkpoint (s : LineageStore) : LineageStore × Result LineageSeq :=
  if s.failed then
    (s, fail .ioError .stickyDecodeFailure "lineage store has already failed")
  else
    match s.state.serialise with
    | .error e => (s, .error e)
    | .ok payload =>
      let framed := frameSnapshot payload
      let covers := s.state.lastSeq
      let fault := s.medium.nextCheckpointFault
      let s := { s with medium := s.medium.popCheckpointFault }
      match fault with
      | some .snapshot => (s, fail .ioError .internalError "short write")
      | some (.staging n) =>
        ((s.replaceSnapshot framed (staged (some n) covers)).markFailed,
          fail .ioError .internalError "cannot write journal header")
      | some .rename =>
        ((s.replaceSnapshot framed (staged none covers)).markFailed,
          fail .ioError .internalError "journal rotation failed")
      | some .reopen =>
        ((s.rotate framed (staged none covers)).markFailed,
          fail .ioError .internalError "cannot open journal file")
      | none => (s.rotate framed (staged none covers)).recordCheckpoint framed

/-- A closed store has let go of its state: it shows an empty one, counts no records and has failed.
Its directory stays as it is. Nothing of an engine commits to a store that it has closed. -/
def close (s : LineageStore) : LineageStore :=
  { s with state := {}, failed := true, recordsSinceSnapshot := 0 }

@[simp] theorem close_state (s : LineageStore) : s.close.state = {} := rfl

@[simp] theorem close_medium (s : LineageStore) : s.close.medium = s.medium := rfl

@[simp] theorem close_options (s : LineageStore) : s.close.options = s.options := rfl

@[simp] theorem close_failed (s : LineageStore) : s.close.failed = true := rfl

/-! ## Opening -/

/-- What the replay of a record adds to the history. -/
def replayEvents (view : JournalRecord) (before after : DurableState) : List Event :=
  match view.type.attemptWrite?, AttemptRecord.decode.whole view.payload with
  | some w, some r => [.replayed view.seq (.attempt w r) before after]
  | _, _ =>
    match view.type, IdempotencyEntry.decode.whole view.payload with
    | .idempotencyIndex, some e => [.replayed view.seq (.idempotency e) before after]
    | _, _ => []

/-- Records at or below the watermark of the snapshot are skipped. -/
def replayHook (o : StoreOptions) (covered : LineageSeq) (acc : DurableState × List Event)
    (view : JournalRecord) : Result (DurableState × List Event) :=
  if view.seq ≤ covered then .ok acc
  else do
    let d ← acc.1.applyRecord o view
    return (d, acc.2 ++ replayEvents view acc.1 d)

/-- The state that a directory starts from: the options, or the snapshot when there is one. -/
def loadSnapshot (o : StoreOptions) (snapshot : Option Bytes) : Result DurableState :=
  match snapshot with
  | none => .ok { fabric := o.fabric, policy := o.policy, topology := o.topology }
  | some framed =>
    if framed.length > kMaxSnapshotBytes then
      failWith .limitExceeded .limitExceeded "file exceeds the configured maximum"
        .invalidArgument (decimal framed.length)
    else do
      let payload ← unframeSnapshot framed
      let restored ← DurableState.deserialise payload
      if restored.fabric ≠ o.fabric then
        failWith .conflict .unknownFabric "durable lineage belongs to a different fabric"
          .invalidArgument restored.fabric.value
      else if !restored.policy.validate.isOk then .error restored.policy.validate
      else if !restored.topology.validate.isOk then .error restored.topology.validate
      else return restored

/-- What a replay leaves for the writer: the base and the last sequence of the journal, and
whether the journal has to be created. -/
structure Replayed where
  state : DurableState
  events : List Event
  base : LineageSeq
  last : LineageSeq
  create : Bool
  file : Option Bytes

/-- The larger of the two. -/
def maxSeq (a b : LineageSeq) : LineageSeq := if a < b then b else a

def replayJournal (o : StoreOptions) (start : DurableState) (file : Option Bytes) :
    Result Replayed :=
  let covered := start.lastSeq
  match file with
  | none => .ok ⟨start, [], covered, covered, true, none⟩
  | some _ => do
    let (result, (state, events), left) ←
      replay file o.repairTornTail (replayHook o covered) (start, [])
    return ⟨state, events, maxSeq result.base covered, maxSeq result.lastSeq covered,
      result.truncatedToEmpty, some left⟩

/-- The store behind a replay, with the writer that was opened for it. -/
def openWith (o : StoreOptions) (m : Medium) (r : Replayed) :
    Result JournalWriter → Medium × Result LineageStore
  | .error e => (m, .error e)
  | .ok writer =>
    let m := m.log (.opened o :: r.events)
    (m, .ok
      { options := o
        state := { r.state with lastSeq := r.last }
        writer := writer
        medium := m })

/-- Opens the journal for appending, after its replay. -/
def openReplayed (o : StoreOptions) (m : Medium) (r : Replayed) : Medium × Result LineageStore :=
  let fault := if r.create then m.nextFault else none
  let opened := JournalWriter.openFile r.file fault r.base r.last r.create
  let m := if r.create then m.popFault else m
  openWith o { m with directory := { m.directory with journal := opened.1 } } r opened.2

/-- The medium on which an open begins: a staging journal is never a source of truth. -/
def unstaged (m : Medium) : Medium := { m with directory := { m.directory with staging := none } }

/-- Opens the lineage of a directory. -/
def openStore (o : StoreOptions) (m : Medium) : Medium × Result LineageStore :=
  if !o.policy.validate.isOk then (m, .error o.policy.validate)
  else if !o.topology.validate.isOk then (m, .error o.topology.validate)
  else
    match loadSnapshot o m.directory.snapshot with
    | .error e => (unstaged m, .error e)
    | .ok start =>
      match replayJournal o start m.directory.journal with
      | .error e => (unstaged m, .error e)
      | .ok r => openReplayed o (unstaged m) r

/-! ## Restart fencing -/

/-- The record of an attempt that a restart cut off. -/
def interrupt (r : AttemptRecord) : AttemptRecord :=
  { r with
    phase := .interrupted
    reasons := r.reasons.push (Reason.of (interruptionReason r.phase)
      (text "process terminated while the attempt was in flight")) }

def restartFence (epoch : Epoch) (coordinator : Incarnation) (r : AttemptRecord) : FenceRecord where
  kind := .preRestartAuthority
  subject := r.subject
  subjectGeneration := r.subjectGeneration
  attemptSeq := r.attemptSeq
  epoch := epoch
  coordinator := coordinator
  detail :=
    if attemptPhaseHoldsAuthority r.phase then
      ⟨text "held failover authority across a restart", by simp [text]⟩
    else ⟨text "was in flight across a restart", by simp [text]⟩

/-- Marks the attempts of a list that are not terminal as interrupted and writes a fence for
each. Unlike every other write of an attempt this one does not evict. -/
def fenceAttempts (epoch : Epoch) (coordinator : Incarnation) :
    List AttemptRecord → LineageStore → LineageStore × Result Nat
  | [], s => (s, .ok 0)
  | r :: rs, s =>
    if r.isTerminal then fenceAttempts epoch coordinator rs s
    else
      let updated := interrupt r
      match s.commit (.attempt .update updated) fun seq d =>
          { d with attempts := upsertAttempt { updated with updateSeq := seq } d.attempts } with
      | (s, applied) =>
        if !applied.isOk then (s, .error applied)
        else
          let fence := restartFence epoch coordinator r
          match s.commit (.fence fence) fun seq d =>
              d.noteFence s.options { fence with seq := seq } with
          | (s, fenced) =>
            if !fenced.isOk then (s, .error fenced)
            else
              match fenceAttempts epoch coordinator rs s with
              | (s, n) => (s, n.map (· + 1))

def fenceRestartAuthority (s : LineageStore) (epoch : Epoch) (coordinator : Incarnation) :
    LineageStore × Result Nat :=
  fenceAttempts epoch coordinator s.state.attempts s

end LineageStore

/-! ## Lookups -/

namespace DurableState

def concerns (subject : LinkKey) (generation : LinkGeneration) (r : AttemptRecord) : Bool :=
  r.subject = subject && r.subjectGeneration = generation

/-- The later of two attempts by sequence, the first one when they are equal. -/
def laterAttempt (found : Option AttemptRecord) (r : AttemptRecord) : Option AttemptRecord :=
  match found with
  | none => some r
  | some f => if f.attemptSeq < r.attemptSeq then some r else some f

def latestAttempt (d : DurableState) (subject : LinkKey) (generation : LinkGeneration) :
    Option AttemptRecord :=
  (d.attempts.filter (concerns subject generation)).foldl laterAttempt none

def countAttempts (d : DurableState) (subject : LinkKey) (generation : LinkGeneration) : Nat :=
  d.attempts.countP (concerns subject generation)

/-- The key of the lookup leaves the generation out. -/
def findAttempt (d : DurableState) (subject : LinkKey) (seq : AttemptSeq) :
    Option AttemptRecord :=
  d.attempts.find? fun r => r.subject = subject && r.attemptSeq = seq

/-- Whether a record holds authority that was minted by the boot the state names. -/
def isActive (d : DurableState) (r : AttemptRecord) : Bool :=
  attemptPhaseHoldsAuthority r.phase && r.authority.epoch = d.epoch &&
    r.authority.coordinator = d.coordinator

def activeAuthority (d : DurableState) (subject : LinkKey) (generation : LinkGeneration) :
    Option AttemptRecord :=
  (d.attempts.filter fun r => concerns subject generation r && d.isActive r).foldl laterAttempt
    none

def findIdempotency (d : DurableState) (key : Digest) : Option IdempotencyEntry :=
  if key.isZero then none else d.idempotency.find? fun e => e.key = key

/-! ## What the lookups find -/

variable {d : DurableState} {subject : LinkKey} {generation : LinkGeneration}
  {q r : AttemptRecord}

theorem concerns_iff : concerns subject generation r = true ↔
    r.subject = subject ∧ r.subjectGeneration = generation := by
  simp [concerns]

/-- The latest of a list, started from a record, is in the list or is that record, and none is
later. -/
theorem foldl_later {xs : List AttemptRecord} {f : AttemptRecord} :
    ∃ q, xs.foldl laterAttempt (some f) = some q ∧ (q = f ∨ q ∈ xs) ∧
      f.attemptSeq.toNat ≤ q.attemptSeq.toNat ∧
      ∀ x ∈ xs, x.attemptSeq.toNat ≤ q.attemptSeq.toNat := by
  induction xs generalizing f with
  | nil => exact ⟨f, rfl, .inl rfl, Nat.le_refl _, by simp⟩
  | cons x xs ih =>
    rw [List.foldl_cons, laterAttempt]
    split
    · rename_i hlt
      rw [StrongUint.lt_iff] at hlt
      obtain ⟨q, hq, hm, hf, hx⟩ := ih (f := x)
      refine ⟨q, hq, .inr ?_, by omega, ?_⟩
      · rcases hm with rfl | hm
        · exact List.mem_cons_self
        · exact List.mem_cons_of_mem _ hm
      · intro y hy
        rcases List.mem_cons.mp hy with rfl | hy
        · exact hf
        · exact hx y hy
    · rename_i hlt
      rw [StrongUint.lt_iff] at hlt
      obtain ⟨q, hq, hm, hf, hx⟩ := ih (f := f)
      refine ⟨q, hq, hm.imp id (List.mem_cons_of_mem _), hf, ?_⟩
      intro y hy
      rcases List.mem_cons.mp hy with rfl | hy
      · omega
      · exact hx y hy

theorem foldl_later_none {xs : List AttemptRecord} :
    xs.foldl laterAttempt none = none ↔ xs = [] := by
  cases xs with
  | nil => simp
  | cons x xs =>
    obtain ⟨q, hq, -⟩ := @foldl_later xs x
    simp [laterAttempt, hq]

theorem foldl_later_some {xs : List AttemptRecord} (h : xs.foldl laterAttempt none = some q) :
    q ∈ xs ∧ ∀ x ∈ xs, x.attemptSeq.toNat ≤ q.attemptSeq.toNat := by
  cases xs with
  | nil => cases h
  | cons x xs =>
    obtain ⟨q', hq', hm, hf, hx⟩ := @foldl_later xs x
    rw [List.foldl_cons, laterAttempt, hq'] at h
    cases h
    refine ⟨?_, ?_⟩
    · rcases hm with rfl | hm
      · exact List.mem_cons_self
      · exact List.mem_cons_of_mem _ hm
    · intro y hy
      rcases List.mem_cons.mp hy with rfl | hy
      · exact hf
      · exact hx y hy

theorem latestAttempt_some (h : d.latestAttempt subject generation = some q) :
    q ∈ d.attempts ∧ q.subject = subject ∧ q.subjectGeneration = generation ∧
      ∀ x ∈ d.attempts, x.subject = subject → x.subjectGeneration = generation →
        x.attemptSeq.toNat ≤ q.attemptSeq.toNat := by
  obtain ⟨hm, hx⟩ := foldl_later_some h
  obtain ⟨hq, hc⟩ := List.mem_filter.mp hm
  obtain ⟨hs, hg⟩ := concerns_iff.mp hc
  exact ⟨hq, hs, hg, fun x h h1 h2 => hx x (List.mem_filter.mpr ⟨h, concerns_iff.mpr ⟨h1, h2⟩⟩)⟩

theorem latestAttempt_isSome (h : q ∈ d.attempts) (hs : q.subject = subject)
    (hg : q.subjectGeneration = generation) :
    ∃ l, d.latestAttempt subject generation = some l := by
  cases hl : d.latestAttempt subject generation with
  | some l => exact ⟨l, rfl⟩
  | none =>
    have hm := List.mem_filter.mpr ⟨h, concerns_iff.mpr ⟨hs, hg⟩⟩
    rw [foldl_later_none.mp hl] at hm
    cases hm

theorem activeAuthority_none : d.activeAuthority subject generation = none ↔
    ∀ q ∈ d.attempts, q.subject = subject → q.subjectGeneration = generation →
      d.isActive q = false := by
  rw [activeAuthority, foldl_later_none, List.filter_eq_nil_iff]
  simp only [Bool.and_eq_true, concerns_iff, not_and, Bool.not_eq_true, and_imp]

theorem isActive_iff : d.isActive q = true ↔ attemptPhaseHoldsAuthority q.phase = true ∧
    q.authority.epoch = d.epoch ∧ q.authority.coordinator = d.coordinator := by
  simp [isActive, and_assoc]

theorem findAttempt_some {seq : AttemptSeq} (h : d.findAttempt subject seq = some q) :
    q ∈ d.attempts ∧ q.subject = subject ∧ q.attemptSeq = seq := by
  refine ⟨List.mem_of_find?_eq_some h, ?_⟩
  simpa using List.find?_some h

theorem findIdempotency_some {key : Digest} {e : IdempotencyEntry}
    (h : d.findIdempotency key = some e) : e ∈ d.idempotency ∧ e.key = key := by
  unfold findIdempotency at h
  split at h
  · cases h
  · exact ⟨List.mem_of_find?_eq_some h, by simpa using List.find?_some h⟩

end DurableState

end LinkFailover
