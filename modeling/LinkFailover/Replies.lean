import LinkFailover.AnswerSizes
import LinkFailover.Encodings
import LinkFailover.Lib.Rejections

/-!
# Replies

What the coordinator writes into its frames, as the other end of the connection reads it. A reply
has an envelope and a body, and no field tells where the body begins: the reader encodes the
envelope again and skips as many bytes.

* `ResponseEnvelope.offset`: the envelope takes up just what its encoding takes.
* `EngineView.whole_eq`: which views are read back, and that they are read back as they are.
-/

namespace LinkFailover

open Codec

/-! ## The handshake -/

namespace HelloResponse

/-- The tick of the coordinator is read and not kept. -/
def decode : Parser HelloResponse := do
  let envelopeVersion ← Parser.u16
  let protocolVersion ← Parser.u16
  let epoch ← Parser.u64
  let coordinator ← Parser.fixed 16
  let sessionId ← Parser.u64
  let maxPayload ← Parser.u32
  let _serverTick ← Parser.u64
  Parser.require (envelopeVersion == kWireProtocolVersion)
  Parser.require (protocolVersion == kWireProtocolVersion)
  Parser.require (maxPayload ≠ 0 && maxPayload.toNat ≤ kMaxFramePayload.toNat)
  return { epoch := ⟨epoch⟩, coordinator, sessionId, maxPayload }

theorem roundTrip {r : HelloResponse} (h : r.maxPayload ≠ 0)
    (hm : r.maxPayload.toNat ≤ kMaxFramePayload.toNat) : RoundTrip r.encode decode r := by
  refine .cons (.u16 _) ?_
  refine .cons (.u16 _) ?_
  refine .cons (.uint _) ?_
  refine .cons (.fixed _) ?_
  refine .cons (.u64 _) ?_
  refine .cons (.u32 _) ?_
  refine .cons (.u64 _) ?_
  refine .require (by decide) ?_
  refine .require (by decide) ?_
  refine .require ?_ (.nil _)
  rw [Bool.and_eq_true, decide_eq_true_eq, decide_eq_true_eq]
  exact ⟨h, hm⟩

end HelloResponse

/-! ## Envelopes -/

structure ResponseEnvelope where
  op : UInt16 := 0
  outcome : Outcome := .ok
  reasons : List Reason := []

namespace ResponseEnvelope

def encode (v : ResponseEnvelope) : Writer → Writer :=
  Writer.fields
    [.u16 kWireProtocolVersion, .u16 v.op, .u16 (WireEnum.code v.outcome), encodeReasons v.reasons]

def decode : Parser ResponseEnvelope := do
  let envelopeVersion ← Parser.u16
  let op ← Parser.u16
  let outcome ← Parser.u16
  let reasons ← decodeReasons kMaxReasons
  Parser.require (envelopeVersion == kWireProtocolVersion)
  let outcome ← Parser.lift (WireEnum.ofCode? outcome)
  return { op, outcome, reasons }

theorem roundTrip {v : ResponseEnvelope} (h : v.reasons.length ≤ kMaxReasons) :
    RoundTrip v.encode decode v := by
  refine .cons (.u16 _) ?_
  refine .cons (.u16 _) ?_
  refine .cons (.u16 _) ?_
  refine .cons (roundTrip_reasons h (by decide)) ?_
  refine .require (by decide) ?_
  exact .lift (ClosedEnum.ofCode?_code _) (.nil _)

def layout : Layout := .fields [.bytes 2, .bytes 2, .bytes 2, reasonsLayout] .empty

theorem spells : Spells decode layout encode := by
  refine .of_fields ?_
  refine .cons .u16 fun envelopeVersion => ?_
  refine .cons .u16 fun op => ?_
  refine .cons .u16 fun outcome => ?_
  refine .cons (decodeReasons_spells _) fun reasons => ?_
  refine .require fun hversion => ?_
  refine .lift fun outcome' houtcome => ?_
  obtain rfl := eq_of_beq hversion
  obtain rfl := ofCode?_spelled houtcome
  exact .pure ⟨rfl, rfl, rfl, rfl, trivial⟩

/-- The envelope that is read takes up just the bytes that its encoding takes, whoever wrote it. -/
theorem offset {payload rest : Bytes} {v : ResponseEnvelope}
    (h : decode payload = some (v, rest)) : payload = Writer.run v.encode ++ rest :=
  spells.canonical ⟨trivial, trivial, trivial, fun _ => ⟨⟨trivial, trivial, trivial⟩, trivial⟩,
    trivial⟩ h

end ResponseEnvelope

/-! ## Directives -/

def decodeClaimResponse : Parser (List ApplyDirective) := do
  let envelopeVersion ← Parser.u16
  let count ← Parser.u32
  Parser.require (envelopeVersion == kWireProtocolVersion)
  Parser.require (count.toNat ≤ 64)
  Parser.many ApplyDirective.decode count.toNat

theorem roundTrip_claim {directives : List ApplyDirective} (h : directives.length ≤ 64)
    (hd : ∀ d ∈ directives, d.subject.empty = false ∧ d.replacement.empty = false) :
    RoundTrip (encodeClaimResponse directives) decodeClaimResponse directives := by
  have h32 := toNat_ofNat_length h (by decide)
  refine .cons (.u16 _) ?_
  refine .cons (.u32 _) ?_
  refine .require (by decide) ?_
  refine .require (by simpa [h32] using h) ?_
  rw [h32]
  exact .last (.each _ fun d hm => ApplyDirective.roundTrip (hd d hm).1 (hd d hm).2)

/-! ## Inspection -/

namespace EngineView

/-- Above this a reader takes no count. -/
def kMaxViewCount : Nat := 1000000

/-- How many records of a kind a view lists at most. -/
def kMaxViewRecords : Nat := 256

/-- The counts of a view, in the order in which they are written. -/
def counts (v : EngineView) : List Nat :=
  [v.trackedPublishers, v.evidenceEntries, v.retainedAttempts, v.retainedFences,
    v.retainedDecisions, v.pendingDirectives, v.activeAuthorities, v.interruptedAttempts]

def decode : Parser EngineView := do
  let envelopeVersion ← Parser.u16
  let fabric ← Parser.str
  let epoch ← Parser.u64
  let coordinator ← Parser.fixed 16
  let policyGeneration ← Parser.u64
  let topologyGeneration ← Parser.u64
  let policyDigest ← Parser.fixed 32
  let topologyDigest ← Parser.fixed 32
  let bootCount ← Parser.u64
  let lastSeq ← Parser.u64
  let tracked ← Parser.u64
  let evidence ← Parser.u64
  let attempts ← Parser.u64
  let fences ← Parser.u64
  let decisions ← Parser.u64
  let pending ← Parser.u64
  let active ← Parser.u64
  let interrupted ← Parser.u64
  let storeFailed ← Parser.bool8
  Parser.require (envelopeVersion == kWireProtocolVersion)
  let fabric ← Parser.lift (StrongName.parse fabric).toOption
  Parser.require ([tracked, evidence, attempts, fences, decisions, pending, active,
    interrupted].all fun n => n.toNat ≤ kMaxViewCount)
  let attemptCount ← Parser.u32
  Parser.require (attemptCount.toNat ≤ kMaxViewRecords)
  let recentAttempts ← Parser.many AttemptRecord.decode attemptCount.toNat
  let fenceCount ← Parser.u32
  Parser.require (fenceCount.toNat ≤ kMaxViewRecords)
  let recentFences ← Parser.many FenceRecord.decode fenceCount.toNat
  return {
    fabric
    epoch := ⟨epoch⟩
    coordinator
    policyGeneration := ⟨policyGeneration⟩
    topologyGeneration := ⟨topologyGeneration⟩
    policyDigest
    topologyDigest
    bootCount
    lastSeq := ⟨lastSeq⟩
    trackedPublishers := tracked.toNat
    evidenceEntries := evidence.toNat
    retainedAttempts := attempts.toNat
    retainedFences := fences.toNat
    retainedDecisions := decisions.toNat
    pendingDirectives := pending.toNat
    activeAuthorities := active.toNat
    interruptedAttempts := interrupted.toNat
    storeFailed
    recentAttempts
    recentFences }

/-- What the reader of a view asks of its counts and lists. -/
structure Readable (v : EngineView) : Prop where
  counts : ∀ n ∈ v.counts, n ≤ kMaxViewCount
  attempts : v.recentAttempts.length ≤ kMaxViewRecords
  fences : v.recentFences.length ≤ kMaxViewRecords
  verdicts : ∀ r ∈ v.recentAttempts, WireEnum.Declared r.revalidation

instance (v : EngineView) : Decidable v.Readable :=
  decidable_of_iff ((∀ n ∈ v.counts, n ≤ kMaxViewCount) ∧
    v.recentAttempts.length ≤ kMaxViewRecords ∧ v.recentFences.length ≤ kMaxViewRecords ∧
      ∀ r ∈ v.recentAttempts, WireEnum.Declared r.revalidation)
    ⟨fun h => ⟨h.1, h.2.1, h.2.2.1, h.2.2.2⟩, fun h => ⟨h.1, h.2, h.3, h.4⟩⟩

theorem toNat_count {n : Nat} (h : n < 2 ^ 64) : (UInt64.ofNat n).toNat = n := by
  rw [UInt64.toNat_ofNat', Nat.mod_eq_of_lt h]

theorem roundTrip {v : EngineView} (hf : v.fabric.empty = false) (h : v.Readable) :
    RoundTrip v.encode decode v := by
  obtain ⟨hc, ha, hb, hd⟩ := h
  have hcount : ∀ n ∈ v.counts, (UInt64.ofNat n).toNat = n := fun n hn =>
    toNat_count (Nat.lt_of_le_of_lt (hc n hn) (by decide))
  have ha32 := toNat_ofNat_length ha (by decide)
  have hb32 := toNat_ofNat_length hb (by decide)
  simp only [counts, List.forall_mem_cons] at hc hcount
  obtain ⟨hc1, hc2, hc3, hc4, hc5, hc6, hc7, hc8, -⟩ := hc
  obtain ⟨hn1, hn2, hn3, hn4, hn5, hn6, hn7, hn8, -⟩ := hcount
  refine .cons (.u16 _) ?_
  refine .cons (.name _) ?_
  refine .cons (.uint _) ?_
  refine .cons (.fixed _) ?_
  refine .cons (.uint _) ?_
  refine .cons (.uint _) ?_
  refine .cons (.fixed _) ?_
  refine .cons (.fixed _) ?_
  refine .cons (.u64 _) ?_
  refine .cons (.uint _) ?_
  refine .cons (.u64 _) ?_
  refine .cons (.u64 _) ?_
  refine .cons (.u64 _) ?_
  refine .cons (.u64 _) ?_
  refine .cons (.u64 _) ?_
  refine .cons (.u64 _) ?_
  refine .cons (.u64 _) ?_
  refine .cons (.u64 _) ?_
  refine .cons (.bool8 _) ?_
  refine .require (by decide) ?_
  refine .lift (congrArg Except.toOption (StrongName.parse_ok hf)) ?_
  refine .require ?_ ?_
  · simp only [List.all_cons, List.all_nil, hn1, hn2, hn3, hn4, hn5, hn6, hn7, hn8, hc1, hc2, hc3,
      hc4, hc5, hc6, hc7, hc8, decide_true, Bool.and_true]
  refine .cons (.u32 _) ?_
  refine .require (by simpa [ha32] using ha) ?_
  rw [ha32]
  refine .cons (.each _ fun r hr => r.roundTrip (hd r hr)) ?_
  refine .cons (.u32 _) ?_
  refine .require (by simpa [hb32] using hb) ?_
  rw [hb32]
  refine .cons (.each _ fun f _ => f.roundTrip) ?_
  simp only [hn1, hn2, hn3, hn4, hn5, hn6, hn7, hn8]
  exact .nil _

/-- What is written of the lists of a view. -/
theorem appends_lists (v : EngineView) : Writer.Appends (Writer.fields
    [.u32 (UInt32.ofNat v.recentAttempts.length), .each AttemptRecord.encode v.recentAttempts,
      .u32 (UInt32.ofNat v.recentFences.length), .each FenceRecord.encode v.recentFences]) :=
  (RoundTrip.u32 _).appends.cons <|
    (Writer.Appends.each fun r _ => r.appends).1.cons <|
      (RoundTrip.u32 _).appends.cons <|
        (Writer.Appends.each fun f _ => f.roundTrip.appends).1.cons .nil

/-- A view with a count above the bound is refused. -/
theorem refused {v : EngineView} (hf : v.fabric.empty = false) (hw : ∀ n ∈ v.counts, n < 2 ^ 64)
    (h : ∃ n ∈ v.counts, kMaxViewCount < n) : Refuses v.encode decode := by
  have hcount : ∀ n ∈ v.counts, (UInt64.ofNat n).toNat = n := fun n hn => toNat_count (hw n hn)
  refine .cons (.u16 _) ?_
  refine .cons (.name _) ?_
  refine .cons (.uint _) ?_
  refine .cons (.fixed _) ?_
  refine .cons (.uint _) ?_
  refine .cons (.uint _) ?_
  refine .cons (.fixed _) ?_
  refine .cons (.fixed _) ?_
  refine .cons (.u64 _) ?_
  refine .cons (.uint _) ?_
  refine .cons (.u64 _) ?_
  refine .cons (.u64 _) ?_
  refine .cons (.u64 _) ?_
  refine .cons (.u64 _) ?_
  refine .cons (.u64 _) ?_
  refine .cons (.u64 _) ?_
  refine .cons (.u64 _) ?_
  refine .cons (.u64 _) ?_
  refine .cons (.bool8 _) ?_
  refine .past (by decide) ?_
  refine .lift (congrArg Except.toOption (StrongName.parse_ok hf)) ?_
  refine .require v.appends_lists ?_
  obtain ⟨n, hn, hlt⟩ := h
  refine List.all_eq_false.mpr ⟨UInt64.ofNat n, ?_, ?_⟩
  · exact List.mem_map_of_mem (f := UInt64.ofNat) hn
  · rw [decide_eq_true_eq, hcount n hn]
    omega

/-- A view whose lists are within their bounds, and whose attempts have declared verdicts, is read
back exactly if no count is above its bound. -/
theorem whole_eq {v : EngineView} (hf : v.fabric.empty = false) (hw : ∀ n ∈ v.counts, n < 2 ^ 64)
    (ha : v.recentAttempts.length ≤ kMaxViewRecords)
    (hb : v.recentFences.length ≤ kMaxViewRecords)
    (hd : ∀ r ∈ v.recentAttempts, WireEnum.Declared r.revalidation) :
    decode.whole (Writer.run v.encode) =
      if ∀ n ∈ v.counts, n ≤ kMaxViewCount then some v else none := by
  split
  · rename_i hc
    exact (roundTrip hf ⟨hc, ha, hb, hd⟩).whole
  · rename_i hc
    refine (refused hf hw ?_).whole
    simpa using hc

end EngineView

/-! ## Decisions -/

namespace FailoverDecision

/-- More reasons than a decision is read back with are refused. -/
theorem refuses_reasons {reasons : List Reason} {limit : Nat} (h : limit < reasons.length)
    (h32 : reasons.length < 2 ^ 32) : Refuses (encodeReasons reasons) (decodeReasons limit) := by
  refine .cons (.u32 _) ?_
  refine .require ((Writer.Appends.each fun r _ => r.roundTrip.appends).1.cons .nil) ?_
  rw [UInt32.toNat_ofNat', Nat.mod_eq_of_lt h32]
  simpa using h

theorem appends_candidates {d : FailoverDecision} (h : ∀ a ∈ d.candidates, a.Encodable) :
    Writer.Appends (Writer.fields
      [.u32 (UInt32.ofNat d.candidates.length), .each CandidateAssessment.encode d.candidates]) :=
  (RoundTrip.u32 _).appends.cons <|
    (Writer.Appends.each fun a ha => (CandidateAssessment.roundTrip (h a ha)).appends).1.cons .nil

/-- A decision with too many reasons is refused. -/
theorem refused {d : FailoverDecision} (h : kMaxDecisionReasons < d.reasons.length)
    (h32 : d.reasons.length < 2 ^ 32) (ha : ∀ a ∈ d.candidates, a.Encodable) :
    Refuses d.encode decode := by
  refine .cons (.u16 _) ?_
  refine .cons (.fixed _) ?_
  refine .cons (.u16 _) ?_
  refine .cons (.u16 _) ?_
  refine .cons (.u16 _) ?_
  refine .cons (.name _) ?_
  refine .cons (.name _) ?_
  refine .cons (.name _) ?_
  refine .cons (.uint _) ?_
  refine .cons (.optionMap _ _ ReplacementField.roundTrip) ?_
  refine .cons (.uint _) ?_
  refine .cons (.fixed _) ?_
  refine .cons (.uint _) ?_
  refine .cons (.fixed _) ?_
  refine .cons d.authority.roundTrip ?_
  refine .cons (.fixed _) ?_
  refine .cons (.uint _) ?_
  refine .cons (.bool8 _) ?_
  refine .cons (.bool8 _) ?_
  exact .here (refuses_reasons h h32) (appends_candidates ha)

/-- A decision that can be written is read back exactly if it has no more reasons than the bound. -/
theorem whole_eq {d : FailoverDecision} (h32 : d.reasons.length < 2 ^ 32)
    (hc : d.candidates.length ≤ kMaxDecisionCandidates) (ha : ∀ a ∈ d.candidates, a.Encodable) :
    decode.whole (Writer.run d.encode) =
      if d.reasons.length ≤ kMaxDecisionReasons then some d.normalised else none := by
  split
  · rename_i h
    exact (roundTrip ⟨h, hc, ha⟩).whole
  · rename_i h
    exact (refused (Nat.lt_of_not_le h) h32 ha).whole

end FailoverDecision

end LinkFailover
