import LinkFailover.Payload

/-!
# The durable state

What a boot finds on its medium: definitions, epoch, and three bounded tables of attempts,
fences and idempotency entries. The live engine changes it through the `note…` functions, a
replay through `applyRecord`, one journal record after the other. A snapshot is the whole
state in one frame.

* `applyRecord_*`: what a replay makes of each kind of written record.
* `deserialise_serialise`: a snapshot of an encodable state is read back as that state.
-/

namespace LinkFailover

open Codec

structure DurableState where
  fabric : FabricName := .none
  policy : FailoverPolicy := {}
  topology : TopologySnapshot := {}
  epoch : Epoch := .zero
  coordinator : Incarnation := .zero 16
  lastSeq : LineageSeq := .zero
  bootCount : UInt64 := 0
  recordCount : UInt64 := 0
  epochAdvances : UInt64 := 0
  attempts : List AttemptRecord := []
  fences : List FenceRecord := []
  idempotency : List IdempotencyEntry := []
  deriving DecidableEq

structure StoreOptions where
  fabric : FabricName := .none
  policy : FailoverPolicy := {}
  topology : TopologySnapshot := {}
  maxAttempts : Nat := 4096
  maxFences : Nat := 8192
  maxIdempotency : Nat := 8192
  snapshotEveryRecords : UInt64 := 1024
  enableSnapshot : Bool := true
  repairTornTail : Bool := true

/-! ## Retention -/

def attemptLess (a b : AttemptRecord) : Bool :=
  if a.subject.less b.subject then true
  else if b.subject.less a.subject then false
  else a.attemptSeq < b.attemptSeq

/-- The key under which the table replaces a record. It leaves the generation out. -/
def AttemptRecord.key (r : AttemptRecord) : LinkKey × AttemptSeq := (r.subject, r.attemptSeq)

def AttemptRecord.isTerminal (r : AttemptRecord) : Bool := attemptPhaseIsTerminal r.phase

/-- Above the limit, terminal attempts go first to last in the order of subject and sequence.
Attempts that are not terminal stay, even above the limit. -/
def evictAttempts (o : StoreOptions) (attempts : List AttemptRecord) : List AttemptRecord :=
  BoundedTable.evict attemptLess AttemptRecord.isTerminal o.maxAttempts attempts

def evictFences (o : StoreOptions) (fences : List FenceRecord) : List FenceRecord :=
  if fences.length ≤ o.maxFences then fences
  else (BoundedTable.sortBy FenceRecord.less fences).drop (fences.length - o.maxFences)

def evictIdempotency (o : StoreOptions) (entries : List IdempotencyEntry) :
    List IdempotencyEntry :=
  if entries.length ≤ o.maxIdempotency then entries
  else entries.drop (entries.length - o.maxIdempotency)

def upsertAttempt (r : AttemptRecord) (attempts : List AttemptRecord) : List AttemptRecord :=
  BoundedTable.upsert AttemptRecord.key r attempts

namespace DurableState

/-! ## Live updates -/

def noteAttempt (o : StoreOptions) (r : AttemptRecord) (d : DurableState) : DurableState :=
  { d with attempts := evictAttempts o (upsertAttempt r d.attempts) }

def noteFence (o : StoreOptions) (f : FenceRecord) (d : DurableState) : DurableState :=
  { d with fences := evictFences o (d.fences ++ [f]) }

def noteIdempotency (o : StoreOptions) (e : IdempotencyEntry) (d : DurableState) : DurableState :=
  { d with idempotency := evictIdempotency o (d.idempotency ++ [e]) }

def noteEpoch (p : BootPayload) (d : DurableState) : DurableState :=
  { d with
    epoch := p.epoch
    coordinator := p.coordinator
    bootCount := p.bootCount
    epochAdvances := p.epochAdvances }

/-! ## Replay -/

def malformed {α : Type} (detail : String) : Result α := fail .corrupt .malformedEncoding detail

/-- The consistency checks of an attempt record against its type and its position. -/
def checkAttempt (type : RecordType) (seq : LineageSeq) (r : AttemptRecord) : Result Unit :=
  if type = .attemptCreate ∧ r.phase ≠ .evaluated ∧ r.phase ≠ .refused ∧
      r.phase ≠ .indeterminate then
    fail .corrupt .corruptRecord
      "AttemptCreate record carries a phase that is not an entry phase"
  else if type = .completion ∧ r.phase ≠ .committed then
    fail .corrupt .corruptRecord "Completion record does not carry a committed attempt"
  else if type = .rollback ∧ r.phase ≠ .rolledBack then
    fail .corrupt .corruptRecord "Rollback record does not carry a rolled-back attempt"
  else if ¬ r.createSeq ≤ seq then
    fail .corrupt .sequenceRegression "attempt record precedes its creation sequence"
  else .ok ()

/-- The attempt in a record, when the replay accepts it. -/
def readAttempt (view : JournalRecord) : Result AttemptRecord :=
  match AttemptRecord.decode.whole view.payload with
  | none => malformed "attempt record payload is malformed"
  | some r => do
    checkAttempt view.type view.seq r
    return r

/-- The fence in a record: its own sequence must be its position. -/
def readFence (view : JournalRecord) : Result FenceRecord :=
  match FenceRecord.decode.whole view.payload with
  | none => malformed "fence record payload is malformed"
  | some f =>
    if f.seq ≠ view.seq then
      fail .corrupt .corruptRecord "fence record sequence does not match its lineage position"
    else .ok f

def applyRecord (o : StoreOptions) (d : DurableState) (view : JournalRecord) :
    Result DurableState :=
  match view.type with
  | .boot =>
    match BootPayload.decode.whole view.payload with
    | none => malformed "boot record payload is malformed"
    | some p => .ok (d.noteEpoch p)
  | .policyCommit =>
    match FailoverPolicy.decode.whole view.payload with
    | none => malformed "policy record payload is malformed"
    | some p => .ok { d with policy := p }
  | .topologyCommit =>
    match TopologySnapshot.decode.whole view.payload with
    | none => malformed "topology record payload is malformed"
    | some t => .ok { d with topology := t }
  | .attemptCreate | .attemptUpdate | .completion | .rollback => do
    let r ← readAttempt view
    return d.noteAttempt o r
  | .fence => do
    let f ← readFence view
    return d.noteFence o f
  | .decisionCommit =>
    match FailoverDecision.decode.whole view.payload with
    | none => malformed "decision record payload is malformed"
    | some _ => .ok d
  | .idempotencyIndex =>
    match IdempotencyEntry.decode.whole view.payload with
    | none => malformed "idempotency record payload is malformed"
    | some e => .ok (d.noteIdempotency o e)
  | .checkpoint | .shutdown => .ok d

variable {o : StoreOptions} {d : DurableState} {seq : LineageSeq}

theorem applyRecord_boot (p : BootPayload) :
    applyRecord o d ((Payload.boot p).record seq) = .ok (d.noteEpoch p) := by
  simp only [applyRecord, Payload.record, Payload.type, Payload.bytes, p.roundTrip.whole]

theorem applyRecord_policy {p : FailoverPolicy} (h : WireEnum.Declared p.agreement) :
    applyRecord o d ((Payload.policy p).record seq) = .ok { d with policy := p } := by
  simp only [applyRecord, Payload.record, Payload.type, Payload.bytes, (p.roundTrip h).whole]

theorem applyRecord_topology {t : TopologySnapshot} (h : t.links.length ≤ kMaxTopologyLinks) :
    applyRecord o d ((Payload.topology t).record seq) = .ok { d with topology := t } := by
  simp only [applyRecord, Payload.record, Payload.type, Payload.bytes, (t.roundTrip h).whole]

theorem readAttempt_record (w : AttemptWrite) {r : AttemptRecord}
    (hd : WireEnum.Declared r.revalidation) :
    readAttempt ((Payload.attempt w r).record seq) =
      (checkAttempt w.type seq r).map fun _ => r := by
  simp only [readAttempt, Payload.record, Payload.type, Payload.bytes, (r.roundTrip hd).whole]
  cases checkAttempt w.type seq r <;> rfl

theorem applyRecord_attempt (w : AttemptWrite) {r : AttemptRecord}
    (hd : WireEnum.Declared r.revalidation) :
    applyRecord o d ((Payload.attempt w r).record seq) =
      (checkAttempt w.type seq r).map fun _ => d.noteAttempt o r := by
  have h : applyRecord o d ((Payload.attempt w r).record seq) =
      (readAttempt ((Payload.attempt w r).record seq)).map fun r => d.noteAttempt o r := by
    cases w <;> (simp only [applyRecord, Payload.record, Payload.type, AttemptWrite.type]; rfl)
  rw [h, readAttempt_record w hd]
  cases checkAttempt w.type seq r <;> rfl

theorem readFence_record (f : FenceRecord) :
    readFence ((Payload.fence f).record seq) =
      if f.seq ≠ seq then
        fail .corrupt .corruptRecord "fence record sequence does not match its lineage position"
      else .ok f := by
  have h : FenceRecord.decode.whole ((Payload.fence f).record seq).payload = some f :=
    f.roundTrip.whole
  rw [readFence, h]
  rfl

theorem applyRecord_fence (f : FenceRecord) :
    applyRecord o d ((Payload.fence f).record seq) =
      if f.seq ≠ seq then
        fail .corrupt .corruptRecord "fence record sequence does not match its lineage position"
      else .ok (d.noteFence o f) := by
  change (readFence _ >>= fun f => pure (d.noteFence o f)) = _
  rw [readFence_record]
  split <;> rfl

theorem applyRecord_decision {c : FailoverDecision} (h : c.Encodable) :
    applyRecord o d ((Payload.decision c).record seq) = .ok d := by
  simp only [applyRecord, Payload.record, Payload.type, Payload.bytes,
    (FailoverDecision.roundTrip h).whole]

theorem applyRecord_idempotency {e : IdempotencyEntry} (h : e.Encodable) :
    applyRecord o d ((Payload.idempotency e).record seq) = .ok (d.noteIdempotency o e) := by
  simp only [applyRecord, Payload.record, Payload.type, Payload.bytes,
    (IdempotencyEntry.roundTrip h).whole]

theorem applyRecord_checkpoint (c : CheckpointPayload) :
    applyRecord o d ((Payload.checkpoint c).record seq) = .ok d := rfl

theorem applyRecord_shutdown (s : ShutdownPayload) :
    applyRecord o d ((Payload.shutdown s).record seq) = .ok d := rfl

/-- A replay stops at a record that holds an undeclared value. -/
theorem applyRecord_declared {p : Payload} {d' : DurableState}
    (h : applyRecord o d (p.record seq) = .ok d') : p.Declared := by
  by_contra hp
  cases p with
  | policy p =>
    simp only [applyRecord, Payload.record, Payload.type, Payload.bytes,
      (FailoverPolicy.refuses hp).whole] at h
    cases h
  | attempt w r =>
    have hread : readAttempt ((Payload.attempt w r).record seq) =
        malformed "attempt record payload is malformed" := by
      simp only [readAttempt, Payload.record, Payload.bytes, (AttemptRecord.refuses hp).whole]
    have happly : applyRecord o d ((Payload.attempt w r).record seq) =
        (readAttempt ((Payload.attempt w r).record seq)).map fun r => d.noteAttempt o r := by
      cases w <;> (simp only [applyRecord, Payload.record, Payload.type, AttemptWrite.type]; rfl)
    rw [happly, hread] at h
    cases h
  | _ => exact hp trivial

/-! ## Snapshots -/

def kSnapshotElements : Nat := 1000000

/-- The idempotency entries of a snapshot carry a version and a length of their own. -/
def encodeSnapshotEntry (e : IdempotencyEntry) : Writer → Writer :=
  Writer.fields [.u16 1, .blob (Writer.run e.encode) kMaxIdempotencyDecisionBytes]

def decodeSnapshotEntry : Parser Bytes := do
  let entryVersion ← Parser.u16
  let payload ← Parser.blob kMaxIdempotencyDecisionBytes
  Parser.require (entryVersion == 1)
  return payload

structure SnapshotCounters where
  epoch : UInt64
  coordinator : Incarnation
  lastSeq : UInt64
  bootCount : UInt64
  recordCount : UInt64
  epochAdvances : UInt64
  attempts : UInt32
  fences : UInt32
  idempotency : UInt32

namespace SnapshotCounters

def encode (c : SnapshotCounters) : Writer → Writer :=
  Writer.fields
    [.u64 c.epoch, .fixed c.coordinator, .u64 c.lastSeq, .u64 c.bootCount, .u64 c.recordCount,
      .u64 c.epochAdvances, .u32 c.attempts, .u32 c.fences, .u32 c.idempotency]

def decode : Parser SnapshotCounters := do
  let epoch ← Parser.u64
  let coordinator ← Parser.fixed 16
  let lastSeq ← Parser.u64
  let bootCount ← Parser.u64
  let recordCount ← Parser.u64
  let epochAdvances ← Parser.u64
  let attempts ← Parser.u32
  let fences ← Parser.u32
  let idempotency ← Parser.u32
  return { epoch, coordinator, lastSeq, bootCount, recordCount, epochAdvances, attempts, fences,
           idempotency }

theorem roundTrip (c : SnapshotCounters) : RoundTrip c.encode decode c := by
  refine .cons (.u64 _) ?_
  refine .cons (.fixed _) ?_
  refine .cons (.u64 _) ?_
  refine .cons (.u64 _) ?_
  refine .cons (.u64 _) ?_
  refine .cons (.u64 _) ?_
  refine .cons (.u32 _) ?_
  refine .cons (.u32 _) ?_
  exact .cons (.u32 _) (.nil _)

end SnapshotCounters

def counters (d : DurableState) : SnapshotCounters where
  epoch := d.epoch.value
  coordinator := d.coordinator
  lastSeq := d.lastSeq.value
  bootCount := d.bootCount
  recordCount := d.recordCount
  epochAdvances := d.epochAdvances
  attempts := UInt32.ofNat d.attempts.length
  fences := UInt32.ofNat d.fences.length
  idempotency := UInt32.ofNat d.idempotency.length

/-- The counts of all three tables stand before the tables. -/
def encode (d : DurableState) : Writer → Writer :=
  Writer.fields
    [.fields [.u16 kIdentityFormatVersion, .name d.fabric, d.policy.encode], d.topology.encode,
      d.counters.encode, .each AttemptRecord.encode d.attempts, .each FenceRecord.encode d.fences,
      .each encodeSnapshotEntry d.idempotency]

def serialise (d : DurableState) : Result Bytes :=
  if d.idempotency.any fun e => (Writer.run e.encode).length > kMaxIdempotencyDecisionBytes then
    fail .limitExceeded .limitExceeded "idempotency entry exceeds the snapshot bound"
  else if !(d.encode {}).ok then
    fail .limitExceeded .limitExceeded "snapshot exceeds the supported bound"
  else .ok (d.encode {}).buffer

/-- One section of a snapshot, with the status that reports its failure. -/
def part {α : Type} (p : Parser α) (detail : String) (bs : Bytes) : Result (α × Bytes) :=
  match p bs with
  | none => malformed detail
  | some r => .ok r

def readEntries : Nat → Bytes → Result (List IdempotencyEntry × Bytes)
  | 0, bs => .ok ([], bs)
  | n + 1, bs => do
    let (payload, rest) ← part decodeSnapshotEntry "snapshot idempotency entry is malformed" bs
    match IdempotencyEntry.decode.whole payload with
    | none => malformed "snapshot idempotency payload is malformed"
    | some e => do
      let (es, rest) ← readEntries n rest
      return (e :: es, rest)

def deserialise (payload : Bytes) : Result DurableState := do
  let ((formatVersion, fabric, policy), rest) ← part
    (do
      let formatVersion ← Parser.u16
      let fabric ← Parser.str
      let policy ← FailoverPolicy.decode
      return (formatVersion, fabric, policy))
    "snapshot policy is malformed" payload
  let (topology, rest) ← part TopologySnapshot.decode "snapshot topology is malformed" rest
  let (c, rest) ← part SnapshotCounters.decode "snapshot header fields are malformed" rest
  if formatVersion ≠ kIdentityFormatVersion then
    fail .unsupported .unsupportedFormatVersion
      "unsupported snapshot identity format version"
  else if c.attempts.toNat > kSnapshotElements ∨ c.fences.toNat > kSnapshotElements ∨
      c.idempotency.toNat > kSnapshotElements then
    fail .limitExceeded .limitExceeded "snapshot declares an impossible element count"
  else
    match (StrongName.parse fabric : Result FabricName) with
    | .error _ => malformed "snapshot fabric name is malformed"
    | .ok fabric => do
      let (attempts, rest) ← part (Parser.many AttemptRecord.decode c.attempts.toNat)
        "snapshot attempt record is malformed" rest
      let (fences, rest) ← part (Parser.many FenceRecord.decode c.fences.toNat)
        "snapshot fence record is malformed" rest
      let (idempotency, rest) ← readEntries c.idempotency.toNat rest
      if !rest.isEmpty then fail .corrupt .trailingBytes "snapshot contains trailing bytes"
      else
        return {
          fabric := fabric
          policy := policy
          topology := topology
          epoch := ⟨c.epoch⟩
          coordinator := c.coordinator
          lastSeq := ⟨c.lastSeq⟩
          bootCount := c.bootCount
          recordCount := c.recordCount
          epochAdvances := c.epochAdvances
          attempts := attempts
          fences := fences
          idempotency := idempotency }

/-- What a snapshot needs to come back, besides its size. -/
structure Sound (d : DurableState) : Prop where
  fabric : d.fabric.empty = false
  links : d.topology.links.length ≤ kMaxTopologyLinks
  entries : ∀ e ∈ d.idempotency, e.Encodable

/-- What the state holds of the enumerations that a caller fills is declared. A snapshot is written
without a look at them, and read back only with them. -/
structure Declared (d : DurableState) : Prop where
  policy : WireEnum.Declared d.policy.agreement
  attempts : ∀ r ∈ d.attempts, WireEnum.Declared r.revalidation

/-- The loader believes no larger counts. -/
structure Counted (d : DurableState) : Prop where
  attempts : d.attempts.length ≤ kSnapshotElements
  fences : d.fences.length ≤ kSnapshotElements
  idempotency : d.idempotency.length ≤ kSnapshotElements

/-- What makes a snapshot of a state come back as that state. -/
structure Encodable (d : DurableState) : Prop extends d.Sound, d.Counted where
  declared : d.Declared

theorem appends_entry {e : IdempotencyEntry}
    (h : (Writer.run e.encode).length ≤ kMaxIdempotencyDecisionBytes) :
    Writer.Appends (encodeSnapshotEntry e) :=
  (RoundTrip.u16 _).appends.cons <|
    (RoundTrip.blob h (Nat.lt_of_le_of_lt h (by decide))).appends.cons .nil

theorem roundTrip_entry {e : IdempotencyEntry} (h : e.Encodable) :
    RoundTrip (encodeSnapshotEntry e) decodeSnapshotEntry (Writer.run e.encode) := by
  refine .cons (.u16 _) ?_
  refine .cons (.blob h.size (Nat.lt_of_le_of_lt h.size (by decide))) ?_
  exact .require (by decide) (.nil _)

theorem part_reads {α : Type} {f : Writer → Writer} {p : Parser α} {a : α}
    (h : RoundTrip f p a) (detail : String) (rest : Bytes) :
    part p detail (Writer.run f ++ rest) = .ok (a, rest) := by
  rw [part, h.reads rest]

theorem readEntries_reads {es : List IdempotencyEntry} (h : ∀ e ∈ es, e.Encodable)
    (rest : Bytes) :
    readEntries es.length (es.flatMap (fun e => Writer.run (encodeSnapshotEntry e)) ++ rest) =
      .ok (es, rest) := by
  induction es with
  | nil => rfl
  | cons e es ih =>
    have he := h e List.mem_cons_self
    rw [List.flatMap_cons, List.append_assoc, List.length_cons, readEntries,
      part_reads (roundTrip_entry he)]
    change (match IdempotencyEntry.decode.whole (Writer.run e.encode) with
      | none => _
      | some e => _) = _
    rw [(IdempotencyEntry.roundTrip he).whole]
    change (readEntries es.length _ >>= _) = _
    rw [ih fun x hx => h x (List.mem_cons_of_mem _ hx)]
    rfl

theorem roundTrip_definitions {d : DurableState} (h : WireEnum.Declared d.policy.agreement) :
    RoundTrip (Writer.fields [.u16 kIdentityFormatVersion, .name d.fabric, d.policy.encode])
      (do
        let formatVersion ← Parser.u16
        let fabric ← Parser.str
        let policy ← FailoverPolicy.decode
        return (formatVersion, fabric, policy))
      (kIdentityFormatVersion, d.fabric.value, d.policy) := by
  refine .cons (.u16 _) ?_
  refine .cons (.name _) ?_
  exact .cons (d.policy.roundTrip h) (.nil _)

/-- The sections of an encoded state, one after the other. -/
theorem encode_sections {d : DurableState}
    (h : ∀ e ∈ d.idempotency, (Writer.run e.encode).length ≤ kMaxIdempotencyDecisionBytes) :
    (d.encode {}).ok = true ∧ (d.encode {}).buffer =
      Writer.run (Writer.fields [.u16 kIdentityFormatVersion, .name d.fabric, d.policy.encode]) ++
        (Writer.run d.topology.encode ++ (Writer.run d.counters.encode ++
          (Writer.run (Writer.each AttemptRecord.encode d.attempts) ++
            (Writer.run (Writer.each FenceRecord.encode d.fences) ++
              (d.idempotency.flatMap (fun e => Writer.run (encodeSnapshotEntry e)) ++ []))))) := by
  have h1 : Writer.Appends (.fields [.u16 kIdentityFormatVersion, .name d.fabric, d.policy.encode]) :=
    (RoundTrip.u16 _).appends.cons <| (RoundTrip.name _).appends.cons <| d.policy.appends.cons .nil
  have h2 := d.topology.appends
  have h3 := d.counters.roundTrip.appends
  have h4 := (Writer.Appends.each fun r (_ : r ∈ d.attempts) => r.appends).1
  have h5 := (RoundTrip.each d.fences fun f _ => f.roundTrip).appends
  obtain ⟨h6, hr⟩ := @Writer.Appends.each _ encodeSnapshotEntry _ fun e he =>
    appends_entry (h e he)
  have a6 := h6.cons .nil
  have a5 := h5.cons a6
  have a4 := h4.cons a5
  have a3 := h3.cons a4
  have a2 := h2.cons a3
  have a1 := h1.cons a2
  refine ⟨a1.ok, ?_⟩
  change Writer.run (Writer.fields _) = _
  rw [h1.run_cons a2, h2.run_cons a3, h3.run_cons a4, h4.run_cons a5, h5.run_cons a6,
    h6.run_cons .nil, hr]
  rfl

theorem serialise_ok {d : DurableState} (h : d.Sound) :
    d.serialise = .ok (d.encode {}).buffer := by
  have hany : (d.idempotency.any fun e =>
      (Writer.run e.encode).length > kMaxIdempotencyDecisionBytes) = false := by
    rw [List.any_eq_false]
    intro e he
    simpa using (h.entries e he).size
  rw [serialise, hany, (encode_sections fun e he => (h.entries e he).size).1]
  rfl

/-- In `2 ^ 25` bytes there is no room for a table above the bound. -/
theorem Sound.counted {d : DurableState} (h : d.Sound)
    (hl : (d.encode {}).buffer.length ≤ 33554432) : d.Counted := by
  have hread : ∀ r : AttemptRecord,
      RoundTrip r.encode (AttemptRecord.decodeBy fun _ => some r.revalidation) r := fun r =>
    AttemptRecord.roundTripBy rfl
  have ha := Writer.length_each (n := 58) (fun r (_ : r ∈ d.attempts) => r.appends)
    fun r _ => (hread r).length_le (.bind .u16 fun _ => .bind (.blob _) fun _ =>
      .bind (.blob _) fun _ => .bind .u64 fun _ => .bind .u64 fun _ => .bind (.fixed 32) fun _ =>
      .zero)
  have hf := Writer.length_each (n := 36) (fun f (_ : f ∈ d.fences) => f.roundTrip.appends)
    fun f _ => f.roundTrip.length_le (.bind .u16 fun _ => .bind .u16 fun _ =>
      .bind (.blob _) fun _ => .bind (.blob _) fun _ => .bind .u64 fun _ => .bind .u64 fun _ =>
      .bind .u64 fun _ => .zero)
  have he : ∀ e ∈ d.idempotency, 40 ≤ (Writer.run (encodeSnapshotEntry e)).length := by
    intro e hm
    have hp : 34 ≤ (Writer.run e.encode).length :=
      (IdempotencyEntry.roundTrip (h.entries e hm)).length_le
        (.bind .u16 fun _ => .bind (.fixed 32) fun _ => .zero)
    have hrun : Writer.run (encodeSnapshotEntry e) =
        leBytes 2 1 ++ (leBytes 4 (UInt32.ofNat (Writer.run e.encode).length).toNat ++
          Writer.run e.encode) := by
      change (Writer.blob _ _ (Writer.u16 1 {})).buffer = _
      rw [Writer.blob_eq (h.entries e hm).size]
      rfl
    rw [hrun]
    simp only [List.length_append, leBytes_length]
    omega
  have hi := Writer.length_each (n := 40)
    (fun e he => (roundTrip_entry (h.entries e he)).appends) he
  obtain ⟨-, hr⟩ := @Writer.Appends.each _ encodeSnapshotEntry _ fun e he =>
    (roundTrip_entry (h.entries e he)).appends
  rw [hr] at hi
  have hlen := congrArg List.length (encode_sections fun e he => (h.entries e he).size).2
  simp only [List.length_append, List.length_nil] at hlen
  refine ⟨?_, ?_, ?_⟩ <;> rw [kSnapshotElements] <;> omega

theorem Sound.encodable {d : DurableState} (h : d.Sound) (hd : d.Declared)
    (hl : (d.encode {}).buffer.length ≤ 33554432) : d.Encodable :=
  { h with toCounted := h.counted hl, declared := hd }

variable {d : DurableState}

theorem Counted.toNat_counts (h : d.Counted) :
    d.counters.attempts.toNat = d.attempts.length ∧ d.counters.fences.toNat = d.fences.length ∧
      d.counters.idempotency.toNat = d.idempotency.length :=
  ⟨toNat_ofNat_length h.attempts (by decide), toNat_ofNat_length h.fences (by decide),
    toNat_ofNat_length h.idempotency (by decide)⟩

theorem Counted.not_impossible (h : d.Counted) :
    ¬(d.counters.attempts.toNat > kSnapshotElements ∨ d.counters.fences.toNat > kSnapshotElements ∨
      d.counters.idempotency.toNat > kSnapshotElements) := by
  obtain ⟨ha, hf, hi⟩ := h.toNat_counts
  rw [ha, hf, hi, not_or, not_or]
  exact ⟨Nat.not_lt_of_le h.attempts, Nat.not_lt_of_le h.fences, Nat.not_lt_of_le h.idempotency⟩

/-- A snapshot of an encodable state is read back as that state. -/
theorem deserialise_serialise (h : d.Encodable) : deserialise (d.encode {}).buffer = .ok d := by
  obtain ⟨ha, hf, hi⟩ := h.toCounted.toNat_counts
  have h4 := RoundTrip.each d.attempts fun r hr => r.roundTrip (h.declared.attempts r hr)
  have h5 := RoundTrip.each d.fences fun f _ => f.roundTrip
  rw [deserialise, (encode_sections fun e he => (h.entries e he).size).2,
    part_reads (roundTrip_definitions h.declared.policy), ok_bind]
  dsimp only
  rw [part_reads (d.topology.roundTrip h.links), ok_bind]
  dsimp only
  rw [part_reads d.counters.roundTrip, ok_bind]
  dsimp only
  rw [if_neg (not_not.mpr rfl), if_neg h.toCounted.not_impossible, StrongName.parse_ok h.fabric]
  simp only [ha, hf, hi]
  rw [part_reads h4, ok_bind]
  dsimp only
  rw [part_reads h5, ok_bind]
  dsimp only
  rw [readEntries_reads h.entries, ok_bind]
  rfl

theorem part_refuses {α : Type} {f : Writer → Writer} {p : Parser α} (h : Refuses f p)
    (detail : String) (rest : Bytes) :
    part p detail (Writer.run f ++ rest) = malformed detail := by
  rw [part, h.2 rest]

theorem refuses_definitions (h : ¬WireEnum.Declared d.policy.agreement) :
    Refuses (Writer.fields [.u16 kIdentityFormatVersion, .name d.fabric, d.policy.encode])
      (do
        let formatVersion ← Parser.u16
        let fabric ← Parser.str
        let policy ← FailoverPolicy.decode
        return (formatVersion, fabric, policy)) := by
  refine .cons (.u16 _) ?_
  refine .cons (.name _) ?_
  exact .here (FailoverPolicy.refuses h) .nil

/-- A snapshot that holds an undeclared value is written like any other and not read back. -/
theorem deserialise_undeclared (h : d.Sound) (hc : d.Counted) (hd : ¬d.Declared) :
    ∃ e, deserialise (d.encode {}).buffer = .error e := by
  rw [deserialise, (encode_sections fun e he => (h.entries e he).size).2]
  by_cases hp : WireEnum.Declared d.policy.agreement
  · have hbad : ∃ r ∈ d.attempts, ¬WireEnum.Declared r.revalidation := by
      by_contra hall
      exact hd ⟨hp, fun r hr => by_contra fun hr' => hall ⟨r, hr, hr'⟩⟩
    have h4 : Refuses (Writer.each AttemptRecord.encode d.attempts)
        (Parser.many AttemptRecord.decode d.attempts.length) := Refuses.each
      (fun r _ => (Decidable.em (WireEnum.Declared r.revalidation)).imp
        r.roundTrip AttemptRecord.refuses)
      (hbad.imp fun r hr => hr.imp id AttemptRecord.refuses)
    rw [part_reads (roundTrip_definitions hp), ok_bind]
    dsimp only
    rw [part_reads (d.topology.roundTrip h.links), ok_bind]
    dsimp only
    rw [part_reads d.counters.roundTrip, ok_bind]
    dsimp only
    rw [if_neg (not_not.mpr rfl), if_neg hc.not_impossible, StrongName.parse_ok h.fabric]
    simp only [hc.toNat_counts.1]
    rw [part_refuses h4]
    exact ⟨_, rfl⟩
  · rw [part_refuses (refuses_definitions hp)]
    exact ⟨_, rfl⟩

/-- When what was written of a state is read back at all, its epoch and its watermark are. -/
theorem deserialise_counters {payload : Bytes} {d' : DurableState} (hs : d.serialise = .ok payload)
    (hl : payload.length ≤ 33554432) (h : deserialise payload = .ok d') :
    d'.epoch = d.epoch ∧ d'.lastSeq = d.lastSeq := by
  unfold serialise at hs
  split at hs
  · cases hs
  rename_i hany
  split at hs
  · cases hs
  cases hs
  have hsections := (encode_sections (by simpa using hany)).2
  rw [hsections] at hl h
  have hp : WireEnum.Declared d.policy.agreement := by
    by_contra hp
    rw [deserialise, part_refuses (refuses_definitions hp)] at h
    cases h
  rw [deserialise, part_reads (roundTrip_definitions hp), ok_bind] at h
  dsimp only at h
  have hlinks : d.topology.links.length ≤ kMaxTopologyLinks := by
    by_contra hgt
    have hle := d.topology.length_le_run
    simp only [List.length_append] at hl
    rw [part_refuses (TopologySnapshot.refuses (Nat.lt_of_not_le hgt) (by omega))] at h
    cases h
  rw [part_reads (d.topology.roundTrip hlinks), ok_bind] at h
  dsimp only at h
  rw [part_reads d.counters.roundTrip, ok_bind] at h
  dsimp only at h
  split at h
  · cases h
  split at h
  · cases h
  split at h
  · cases h
  obtain ⟨⟨attempts, mid⟩, -, h⟩ := bind_ok h
  obtain ⟨⟨fences, mid'⟩, -, h⟩ := bind_ok h
  obtain ⟨⟨idempotency, mid''⟩, -, h⟩ := bind_ok h
  dsimp only at h
  split at h
  · cases h
  · cases h
    exact ⟨rfl, rfl⟩

end DurableState

end LinkFailover
