import LinkFailover.Policy

/-!
# Observations and what the coordinator retains of them

An observation is attributed to a publisher and to one incarnation of it. Its freshness is
decided by the receipt state of the coordinator alone; the publisher's clock is carried
along and never consulted.
-/

namespace LinkFailover

open Codec

/-! ## Reports -/

/-- What a publisher saw. Nothing between a caller in the process and the evidence table looks
whether the state is a declared one. -/
inductive ObservationState where
  | unknown | up | degraded | down | unusable
  | undeclared (number : Undeclared 5)
  deriving DecidableEq, Repr

instance : WireEnum ObservationState where
  values := [.unknown, .up, .degraded, .down, .unusable]
  nodup := by decide
  small := by decide
  undeclared?
    | .undeclared u => some u
    | _ => none
  declared_iff a := by cases a <;> simp
  undeclared_inj {a b u} ha hb := by
    cases a <;> cases b <;> cases ha <;> cases hb
    rfl

def observationStateIsFailure (value : ObservationState) (treatDegradedAsFailure : Bool) : Bool :=
  match value with
  | .down | .unusable => true
  | .degraded => treatDegradedAsFailure
  | .up | .unknown | .undeclared _ => false

/-- What the decoders of both reports ask of a confidence and a state beyond their shape. -/
structure Plausible (state : ObservationState) (confidence : Confidence) : Prop where
  state : WireEnum.Declared state
  confidence : confidence.value ≤ kMaxConfidence

instance {state : ObservationState} {confidence : Confidence} :
    Decidable (Plausible state confidence) :=
  decidable_of_iff (WireEnum.Declared state ∧ confidence.value ≤ kMaxConfidence)
    ⟨fun h => ⟨h.1, h.2⟩, fun h => ⟨h.state, h.confidence⟩⟩

/-- Who observed, and under which boot of its process. -/
structure EvidenceStamp where
  publisher : PublisherName := .none
  publisherIncarnation : Incarnation := .zero 16
  publisherEpoch : Epoch := .zero
  observationSeq : ObservationSeq := .zero
  wallClockMs : Int64 := 0
  deriving DecidableEq

namespace EvidenceStamp

def encode (s : EvidenceStamp) : Writer → Writer :=
  Writer.fields
    [.name s.publisher, .fixed s.publisherIncarnation, .uint s.publisherEpoch,
      .uint s.observationSeq, .u64 s.wallClockMs.toUInt64]

def decode : Parser EvidenceStamp := do
  let publisher ← Parser.str
  let incarnation ← Parser.fixed 16
  let epoch ← Parser.u64
  let seq ← Parser.u64
  let wall ← Parser.u64
  let publisher ← Parser.lift (decodeName publisher)
  return {
    publisher := publisher
    publisherIncarnation := incarnation
    publisherEpoch := ⟨epoch⟩
    observationSeq := ⟨seq⟩
    wallClockMs := wall.toInt64 }

theorem roundTrip (s : EvidenceStamp) : RoundTrip s.encode decode s := by
  refine .cons (.name _) ?_
  refine .cons (.fixed _) ?_
  refine .cons (.uint _) ?_
  refine .cons (.uint _) ?_
  refine .cons (.u64 _) ?_
  refine .lift (decodeName_value _) ?_
  rw [Int64.toInt64_toUInt64]
  exact .nil _

end EvidenceStamp

/-- An observation of a subject link. -/
structure FailureReport where
  subject : LinkKey := {}
  linkGeneration : LinkGeneration := .zero
  topologyGeneration : TopologyGeneration := .zero
  state : ObservationState := .unknown
  confidence : Confidence := ⟨0⟩
  stamp : EvidenceStamp := {}
  deriving DecidableEq

namespace FailureReport

def encode (r : FailureReport) : Writer → Writer :=
  Writer.fields
    [.name r.subject.fabric, .name r.subject.link, .uint r.linkGeneration,
      .uint r.topologyGeneration, .u16 (WireEnum.code r.state), .u32 r.confidence.value,
      r.stamp.encode]

def decode : Parser FailureReport := do
  let fabric ← Parser.str
  let link ← Parser.str
  let generation ← Parser.u64
  let topology ← Parser.u64
  let state ← Parser.u16
  let confidence ← Parser.u32
  let state ← Parser.lift (WireEnum.ofCode? state)
  Parser.require (confidence ≤ kMaxConfidence)
  let stamp ← EvidenceStamp.decode
  let fabric ← Parser.lift (decodeName fabric)
  let link ← Parser.lift (decodeName link)
  return {
    subject := ⟨fabric, link⟩
    linkGeneration := ⟨generation⟩
    topologyGeneration := ⟨topology⟩
    state := state
    confidence := ⟨confidence⟩
    stamp := stamp }

def digest (r : FailureReport) : Digest := sha256 (Writer.run r.encode)

theorem roundTrip (r : FailureReport) (h : Plausible r.state r.confidence) :
    RoundTrip r.encode decode r := by
  refine .cons (.name _) ?_
  refine .cons (.name _) ?_
  refine .cons (.uint _) ?_
  refine .cons (.uint _) ?_
  refine .cons (.u16 _) ?_
  refine .cons (.u32 _) ?_
  refine .lift (WireEnum.ofCode?_code h.state) ?_
  refine .require (decide_eq_true h.confidence) ?_
  refine .cons r.stamp.roundTrip ?_
  refine .lift (decodeName_value _) ?_
  exact .lift (decodeName_value _) (.nil _)

end FailureReport

/-- An observation of a link that may replace another one. -/
structure ReplacementReport where
  candidate : LinkKey := {}
  linkGeneration : LinkGeneration := .zero
  topologyGeneration : TopologyGeneration := .zero
  state : ObservationState := .unknown
  confidence : Confidence := ⟨0⟩
  capacityUnits : UInt32 := 0
  costUnits : UInt32 := 0
  adjacencyAuthorized : Bool := false
  adjacencyPolicyGeneration : PolicyGeneration := .zero
  stamp : EvidenceStamp := {}
  deriving DecidableEq

namespace ReplacementReport

def encode (r : ReplacementReport) : Writer → Writer :=
  Writer.fields
    [.name r.candidate.fabric, .name r.candidate.link, .uint r.linkGeneration,
      .uint r.topologyGeneration, .u16 (WireEnum.code r.state), .u32 r.confidence.value,
      .u32 r.capacityUnits, .u32 r.costUnits, .bool8 r.adjacencyAuthorized,
      .uint r.adjacencyPolicyGeneration, r.stamp.encode]

def decode : Parser ReplacementReport := do
  let fabric ← Parser.str
  let link ← Parser.str
  let generation ← Parser.u64
  let topology ← Parser.u64
  let state ← Parser.u16
  let confidence ← Parser.u32
  let capacity ← Parser.u32
  let cost ← Parser.u32
  let authorized ← Parser.bool8
  let adjacencyPolicy ← Parser.u64
  let state ← Parser.lift (WireEnum.ofCode? state)
  Parser.require (confidence ≤ kMaxConfidence)
  let stamp ← EvidenceStamp.decode
  let fabric ← Parser.lift (decodeName fabric)
  let link ← Parser.lift (decodeName link)
  return {
    candidate := ⟨fabric, link⟩
    linkGeneration := ⟨generation⟩
    topologyGeneration := ⟨topology⟩
    state := state
    confidence := ⟨confidence⟩
    capacityUnits := capacity
    costUnits := cost
    adjacencyAuthorized := authorized
    adjacencyPolicyGeneration := ⟨adjacencyPolicy⟩
    stamp := stamp }

def digest (r : ReplacementReport) : Digest := sha256 (Writer.run r.encode)

theorem roundTrip (r : ReplacementReport) (h : Plausible r.state r.confidence) :
    RoundTrip r.encode decode r := by
  refine .cons (.name _) ?_
  refine .cons (.name _) ?_
  refine .cons (.uint _) ?_
  refine .cons (.uint _) ?_
  refine .cons (.u16 _) ?_
  refine .cons (.u32 _) ?_
  refine .cons (.u32 _) ?_
  refine .cons (.u32 _) ?_
  refine .cons (.bool8 _) ?_
  refine .cons (.uint _) ?_
  refine .lift (WireEnum.ofCode?_code h.state) ?_
  refine .require (decide_eq_true h.confidence) ?_
  refine .cons r.stamp.roundTrip ?_
  refine .lift (decodeName_value _) ?_
  exact .lift (decodeName_value _) (.nil _)

end ReplacementReport

/-- An alternate that a caller wants considered. Generation zero asks for whatever
generation the runtime holds. -/
structure ReplacementCandidate where
  candidate : LinkKey := {}
  expectedGeneration : LinkGeneration := .zero
  deriving DecidableEq

namespace ReplacementCandidate

def encode (c : ReplacementCandidate) : Writer → Writer :=
  Writer.fields
    [.name c.candidate.fabric, .name c.candidate.link, .uint c.expectedGeneration]

def decode : Parser ReplacementCandidate := do
  let fabric ← Parser.str
  let link ← Parser.str
  let generation ← Parser.u64
  let fabric ← Parser.lift (decodeName fabric)
  let link ← Parser.lift (decodeName link)
  return { candidate := ⟨fabric, link⟩, expectedGeneration := ⟨generation⟩ }

theorem roundTrip (c : ReplacementCandidate) : RoundTrip c.encode decode c := by
  refine .cons (.name _) ?_
  refine .cons (.name _) ?_
  refine .cons (.uint _) ?_
  refine .lift (decodeName_value _) ?_
  exact .lift (decodeName_value _) (.nil _)

end ReplacementCandidate

/-! ## Retained evidence -/

inductive FreshnessClass where
  | current | expired | priorIncarnation | future
  deriving DecidableEq, Repr

/-- A report together with the receipt state of the coordinator that retained it. -/
structure Retained (Report : Type) where
  report : Report
  digest : Digest := .zero 32
  receiptSeq : LineageSeq := .zero
  receiptTick : UInt64 := 0
  receiptEpoch : Epoch := .zero
  receiptCoordinator : Incarnation := .zero 16
  durable : Bool := false
  deriving DecidableEq

abbrev RetainedFailureEvidence := Retained FailureReport
abbrev RetainedReplacementEvidence := Retained ReplacementReport

/-! ## Assessments -/

/-- Proven usable, proven unusable or undecided. The selector gives one of the three; an outcome
that somebody else has built can hold any number. -/
inductive Verdict where
  | eligible | disproven | indeterminate
  | undeclared (number : Undeclared 3)
  deriving DecidableEq, Repr

instance : WireEnum Verdict where
  values := [.eligible, .disproven, .indeterminate]
  nodup := by decide
  small := by decide
  undeclared?
    | .undeclared u => some u
    | _ => none
  declared_iff a := by cases a <;> simp
  undeclared_inj {a b u} ha hb := by
    cases a <;> cases b <;> cases ha <;> cases hb
    rfl

/-- Neither proven usable nor proven unusable. -/
def Verdict.undecided : Verdict → Bool
  | .eligible | .disproven => false
  | .indeterminate | .undeclared _ => true

structure CandidateAssessment where
  candidate : LinkKey := {}
  linkGeneration : LinkGeneration := .zero
  verdict : Verdict := .indeterminate
  reason : ReasonCode := .none
  detail : Bytes := []
  state : ObservationState := .unknown
  confidence : Confidence := ⟨0⟩
  freshness : FreshnessClass := .priorIncarnation
  ageTicks : UInt64 := 0
  capacityUnits : UInt32 := 0
  costUnits : UInt32 := 0
  adjacencyAuthorized : Bool := false
  evidenceDigest : Digest := .zero 32
  deriving DecidableEq

namespace CandidateAssessment

def less (a b : CandidateAssessment) : Bool :=
  if a.candidate.less b.candidate then true
  else if b.candidate.less a.candidate then false
  else a.linkGeneration > b.linkGeneration

end CandidateAssessment

end LinkFailover
