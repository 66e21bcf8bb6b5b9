import LinkFailover.Attempt
import LinkFailover.Selector

/-!
# Decisions, requests and reports

A decision reports what one operation established, and on which rung of the ladder of
assertions. Its encoding goes into the journal for audit; `FailoverDecision.roundTrip`
says when the decoder takes it back.
-/

namespace LinkFailover

open Codec

/-! ## Enumerations -/

inductive DecisionKind where
  | observe | grant | refuse | rollback | revalidate | indeterminate | acknowledge | verify | fence
  deriving DecidableEq, Repr

instance : ClosedEnum DecisionKind where
  values := [.observe, .grant, .refuse, .rollback, .revalidate, .indeterminate, .acknowledge,
    .verify, .fence]
  complete a := by cases a <;> decide
  nodup := by decide
  small := by decide

/-- The highest rung a decision reached. -/
inductive Assertion where
  | none | observation | eligibility | recommendation | authorization | acknowledgement
  | verifiedEffect
  deriving DecidableEq, Repr

instance : ClosedEnum Assertion where
  values := [.none, .observation, .eligibility, .recommendation, .authorization,
    .acknowledgement, .verifiedEffect]
  complete a := by cases a <;> decide
  nodup := by decide
  small := by decide

instance : ClosedEnum FreshnessClass where
  values := [.current, .expired, .priorIncarnation, .future]
  complete a := by cases a <;> decide
  nodup := by decide
  small := by decide

/-! ## Decisions -/

def kMaxDecisionReasons : Nat := kMaxReasons
def kMaxDecisionCandidates : Nat := 256

structure FailoverDecision where
  decisionId : Digest := .zero 32
  kind : DecisionKind := .indeterminate
  assertion : Assertion := .none
  outcome : Outcome := .indeterminate
  fabric : FabricName := .none
  subject : LinkKey := {}
  subjectGeneration : LinkGeneration := .zero
  hasReplacement : Bool := false
  replacement : LinkKey := {}
  replacementGeneration : LinkGeneration := .zero
  attemptSeq : AttemptSeq := .zero
  attemptId : Digest := .zero 32
  epoch : Epoch := .zero
  coordinator : Incarnation := .zero 16
  authority : AuthorityVector := {}
  evidenceDigest : Digest := .zero 32
  lineageSeq : LineageSeq := .zero
  durable : Bool := false
  idempotentReplay : Bool := false
  reasons : List Reason := []
  candidates : List CandidateAssessment := []
  deriving DecidableEq

/-- The fields of a replacement, present only behind their flag. -/
structure ReplacementField where
  link : LinkKey
  generation : LinkGeneration

def ReplacementField.encode (r : ReplacementField) : Writer → Writer :=
  Writer.fields [.name r.link.fabric, .name r.link.link, .uint r.generation]

namespace FailoverDecision

/-- Appends a reason; the list itself has no bound. -/
def because (d : FailoverDecision) (code : ReasonCode) (detail : String) : FailoverDecision :=
  { d with reasons := d.reasons ++ [Reason.of code (text detail)] }

def replacementField (d : FailoverDecision) : Option ReplacementField :=
  if d.hasReplacement then some ⟨d.replacement, d.replacementGeneration⟩ else none

def computeId (d : FailoverDecision) : Digest :=
  sha256 (Writer.run (Writer.fields
    [.u16 kIdentityFormatVersion, .blob (text "lff.decision") kMaxEncodedString, .name d.fabric,
      .name d.subject.fabric, .name d.subject.link, .uint d.subjectGeneration,
      .uint d.attemptSeq, .u16 (WireEnum.code d.kind), .u16 (WireEnum.code d.assertion),
      .uint d.lineageSeq, .option ReplacementField.encode d.replacementField]))

end FailoverDecision

def encodeReasons (reasons : List Reason) : Writer → Writer :=
  Writer.fields [.u32 (UInt32.ofNat reasons.length), .each Reason.encode reasons]

def decodeReasons (limit : Nat) : Parser (List Reason) := do
  let count ← Parser.u32
  Parser.require (count.toNat ≤ limit)
  Parser.many Reason.decode count.toNat

theorem toNat_ofNat_length {α : Type} {xs : List α} {n : Nat} (h : xs.length ≤ n)
    (hn : n < 2 ^ 32) : (UInt32.ofNat xs.length).toNat = xs.length := by
  rw [UInt32.toNat_ofNat', Nat.mod_eq_of_lt (Nat.lt_of_le_of_lt h hn)]

theorem roundTrip_reasons {reasons : List Reason} {limit : Nat} (h : reasons.length ≤ limit)
    (hl : limit < 2 ^ 32) : RoundTrip (encodeReasons reasons) (decodeReasons limit) reasons := by
  have h32 := toNat_ofNat_length h hl
  refine .cons (.u32 _) ?_
  refine .require (by simpa [h32] using h) ?_
  rw [h32]
  exact .last (.each _ fun x _ => x.roundTrip)

namespace CandidateAssessment

def encode (a : CandidateAssessment) : Writer → Writer :=
  Writer.fields
    [.name a.candidate.fabric, .name a.candidate.link, .uint a.linkGeneration,
      .u16 (WireEnum.code a.verdict), .u16 (WireEnum.code a.reason), .blob a.detail 256,
      .u16 (WireEnum.code a.state), .u32 a.confidence.value, .u16 (WireEnum.code a.freshness),
      .u64 a.ageTicks, .u32 a.capacityUnits, .u32 a.costUnits, .bool8 a.adjacencyAuthorized,
      .fixed a.evidenceDigest]

def decode : Parser CandidateAssessment := do
  let fabric ← Parser.str
  let link ← Parser.str
  let generation ← Parser.u64
  let verdict ← Parser.u16
  let reason ← Parser.u16
  let detail ← Parser.blob 256
  let state ← Parser.u16
  let confidence ← Parser.u32
  let freshness ← Parser.u16
  let age ← Parser.u64
  let capacity ← Parser.u32
  let cost ← Parser.u32
  let adjacency ← Parser.bool8
  let evidence ← Parser.fixed 32
  let verdict ← Parser.lift (WireEnum.ofCode? verdict)
  let reason ← Parser.lift (WireEnum.ofCode? reason)
  let state ← Parser.lift (WireEnum.ofCode? state)
  let freshness ← Parser.lift (WireEnum.ofCode? freshness)
  Parser.require (confidence ≤ kMaxConfidence)
  let fabric ← Parser.lift (decodeName fabric)
  let link ← Parser.lift (decodeName link)
  return {
    candidate := ⟨fabric, link⟩
    linkGeneration := ⟨generation⟩
    verdict := verdict
    reason := reason
    detail := detail
    state := state
    confidence := ⟨confidence⟩
    freshness := freshness
    ageTicks := age
    capacityUnits := capacity
    costUnits := cost
    adjacencyAuthorized := adjacency
    evidenceDigest := evidence }

/-- What the decoder of an assessment asks beyond its shape. -/
structure Encodable (a : CandidateAssessment) : Prop where
  detail : a.detail.length ≤ 256
  verdict : WireEnum.Declared a.verdict
  evidence : Plausible a.state a.confidence

theorem roundTrip {a : CandidateAssessment} (h : a.Encodable) : RoundTrip a.encode decode a := by
  refine .cons (.name _) ?_
  refine .cons (.name _) ?_
  refine .cons (.uint _) ?_
  refine .cons (.u16 _) ?_
  refine .cons (.u16 _) ?_
  refine .cons (.blob h.detail (Nat.lt_of_le_of_lt h.detail (by decide))) ?_
  refine .cons (.u16 _) ?_
  refine .cons (.u32 _) ?_
  refine .cons (.u16 _) ?_
  refine .cons (.u64 _) ?_
  refine .cons (.u32 _) ?_
  refine .cons (.u32 _) ?_
  refine .cons (.bool8 _) ?_
  refine .cons (.fixed _) ?_
  refine .lift (WireEnum.ofCode?_code h.verdict) ?_
  refine .lift (ClosedEnum.ofCode?_code _) ?_
  refine .lift (WireEnum.ofCode?_code h.evidence.state) ?_
  refine .lift (ClosedEnum.ofCode?_code _) ?_
  refine .require (decide_eq_true h.evidence.confidence) ?_
  refine .lift (decodeName_value _) ?_
  exact .lift (decodeName_value _) (.nil _)

end CandidateAssessment

namespace ReplacementField

/-- The fields behind the flag, as they are read. -/
structure Raw where
  fabric : Bytes
  link : Bytes
  generation : UInt64

def raw (r : ReplacementField) : Raw := ⟨r.link.fabric.value, r.link.link.value, r.generation.value⟩

def Raw.decode : Parser Raw := do
  let fabric ← Parser.str
  let link ← Parser.str
  let generation ← Parser.u64
  return ⟨fabric, link, generation⟩

theorem roundTrip (r : ReplacementField) : RoundTrip r.encode Raw.decode r.raw := by
  refine .cons (.name _) ?_
  refine .cons (.name _) ?_
  exact .cons (.uint _) (.nil _)

/-- The names of a replacement, checked by the given name decoders. -/
def Raw.check (fabricName : Bytes → Option FabricName) (linkName : Bytes → Option LinkName) :
    Option Raw → Option (Option ReplacementField)
  | none => some none
  | some r => do
    let fabric ← fabricName r.fabric
    let link ← linkName r.link
    return some ⟨⟨fabric, link⟩, ⟨r.generation⟩⟩

theorem check_raw {fabricName : Bytes → Option FabricName} {linkName : Bytes → Option LinkName}
    (o : Option ReplacementField) (hf : ∀ r ∈ o, fabricName r.link.fabric.value = some r.link.fabric)
    (hl : ∀ r ∈ o, linkName r.link.link.value = some r.link.link) :
    Raw.check fabricName linkName (o.map raw) = some o := by
  cases o with
  | none => rfl
  | some r =>
    change (do
      let fabric ← fabricName r.link.fabric.value
      let link ← linkName r.link.link.value
      return some ⟨⟨fabric, link⟩, ⟨r.generation.value⟩⟩) = some (some r)
    rw [hf r rfl, hl r rfl]
    rfl

end ReplacementField

namespace FailoverDecision

def encode (d : FailoverDecision) : Writer → Writer :=
  Writer.fields
    [.u16 kIdentityFormatVersion, .fixed d.decisionId, .u16 (WireEnum.code d.kind),
      .u16 (WireEnum.code d.assertion), .u16 (WireEnum.code d.outcome), .name d.fabric,
      .name d.subject.fabric, .name d.subject.link, .uint d.subjectGeneration,
      .option ReplacementField.encode d.replacementField, .uint d.attemptSeq, .fixed d.attemptId,
      .uint d.epoch, .fixed d.coordinator, d.authority.encode, .fixed d.evidenceDigest,
      .uint d.lineageSeq, .bool8 d.durable, .bool8 d.idempotentReplay, encodeReasons d.reasons,
      .u32 (UInt32.ofNat d.candidates.length), .each CandidateAssessment.encode d.candidates]

def decode : Parser FailoverDecision := do
  let formatVersion ← Parser.u16
  let decisionId ← Parser.fixed 32
  let kind ← Parser.u16
  let assertion ← Parser.u16
  let outcome ← Parser.u16
  let fabric ← Parser.str
  let subjectFabric ← Parser.str
  let subjectLink ← Parser.str
  let subjectGeneration ← Parser.u64
  let replacement ← Parser.option ReplacementField.Raw.decode
  let attemptSeq ← Parser.u64
  let attemptId ← Parser.fixed 32
  let epoch ← Parser.u64
  let coordinator ← Parser.fixed 16
  let authority ← AuthorityVector.decode
  let evidenceDigest ← Parser.fixed 32
  let lineageSeq ← Parser.u64
  let durable ← Parser.bool8
  let idempotentReplay ← Parser.bool8
  let reasons ← decodeReasons kMaxDecisionReasons
  let candidateCount ← Parser.u32
  Parser.require (formatVersion == kIdentityFormatVersion)
  let kind ← Parser.lift (WireEnum.ofCode? kind)
  let assertion ← Parser.lift (WireEnum.ofCode? assertion)
  let outcome ← Parser.lift (WireEnum.ofCode? outcome)
  Parser.require (candidateCount.toNat ≤ kMaxDecisionCandidates)
  let fabric ← Parser.lift (decodeName fabric)
  let subjectFabric ← Parser.lift (decodeName subjectFabric)
  let subjectLink ← Parser.lift (decodeName subjectLink)
  let replacement ← Parser.lift (ReplacementField.Raw.check decodeName decodeName replacement)
  let candidates ← Parser.many CandidateAssessment.decode candidateCount.toNat
  return {
    decisionId := decisionId
    kind := kind
    assertion := assertion
    outcome := outcome
    fabric := fabric
    subject := ⟨subjectFabric, subjectLink⟩
    subjectGeneration := ⟨subjectGeneration⟩
    hasReplacement := replacement.isSome
    replacement := (replacement.map (·.link)).getD {}
    replacementGeneration := (replacement.map (·.generation)).getD .zero
    attemptSeq := ⟨attemptSeq⟩
    attemptId := attemptId
    epoch := ⟨epoch⟩
    coordinator := coordinator
    authority := authority
    evidenceDigest := evidenceDigest
    lineageSeq := ⟨lineageSeq⟩
    durable := durable
    idempotentReplay := idempotentReplay
    reasons := reasons
    candidates := candidates }

/-- What the decoder of a decision asks beyond its shape. -/
structure Encodable (d : FailoverDecision) : Prop where
  reasons : d.reasons.length ≤ kMaxDecisionReasons
  candidates : d.candidates.length ≤ kMaxDecisionCandidates
  assessments : ∀ a ∈ d.candidates, a.Encodable

/-- A decision comes back with its replacement fields cleared when the flag is down. -/
def normalised (d : FailoverDecision) : FailoverDecision :=
  { d with
    hasReplacement := d.replacementField.isSome
    replacement := (d.replacementField.map (·.link)).getD {}
    replacementGeneration := (d.replacementField.map (·.generation)).getD .zero }

theorem roundTrip {d : FailoverDecision} (h : d.Encodable) :
    RoundTrip d.encode decode d.normalised := by
  have h32 := toNat_ofNat_length h.candidates (by decide)
  refine .cons (.u16 _) ?_
  refine .cons (.fixed _) ?_
  refine .cons (.u16 _) ?_
  refine .cons (.u16 _) ?_
  refine .cons (.u16 _) ?_
  refine .cons (.name _) ?_
  refine .cons (.name _) ?_
  refine .cons (.name _) ?_
  refine .cons (.uint _) ?_
  refine .cons (.optionMap _ _ ReplacementField.roundTrip) ?_
  refine .cons (.uint _) ?_
  refine .cons (.fixed _) ?_
  refine .cons (.uint _) ?_
  refine .cons (.fixed _) ?_
  refine .cons d.authority.roundTrip ?_
  refine .cons (.fixed _) ?_
  refine .cons (.uint _) ?_
  refine .cons (.bool8 _) ?_
  refine .cons (.bool8 _) ?_
  refine .cons (roundTrip_reasons h.reasons (by decide)) ?_
  refine .cons (.u32 _) ?_
  refine .require (by decide) ?_
  refine .lift (ClosedEnum.ofCode?_code _) ?_
  refine .lift (ClosedEnum.ofCode?_code _) ?_
  refine .lift (ClosedEnum.ofCode?_code _) ?_
  refine .require (by simpa [h32] using h.candidates) ?_
  refine .lift (decodeName_value _) ?_
  refine .lift (decodeName_value _) ?_
  refine .lift (decodeName_value _) ?_
  refine .lift (ReplacementField.check_raw _ (fun r _ => decodeName_value _)
    fun r _ => decodeName_value _) ?_
  rw [h32]
  exact .cons (.each _ fun a ha => CandidateAssessment.roundTrip (h.assessments a ha)) (.nil _)

end FailoverDecision

/-! ## Requests and reports -/

/-- Asks for a replacement of one failed generation of a link. Two requests with the same
idempotency key never produce two authorities. -/
structure FailoverRequest where
  subject : LinkKey := {}
  subjectGeneration : LinkGeneration := .zero
  candidates : List ReplacementCandidate := []
  expected : AuthorityExpectation := {}
  idempotencyKey : Digest := .zero 32

structure RollbackRequest where
  subject : LinkKey := {}
  subjectGeneration : LinkGeneration := .zero
  attemptSeq : AttemptSeq := .zero
  expected : AuthorityExpectation := {}
  idempotencyKey : Digest := .zero 32
  rationale : Bytes := []

structure RevalidationRequest where
  subject : LinkKey := {}
  subjectGeneration : LinkGeneration := .zero
  attemptSeq : AttemptSeq := .zero
  verdict : RevalidationVerdict := .unknown
  observerIncarnation : Incarnation := .zero 16
  observerEpoch : Epoch := .zero
  rationale : Bytes := []

structure ApplicationReport where
  subject : LinkKey := {}
  subjectGeneration : LinkGeneration := .zero
  attemptSeq : AttemptSeq := .zero
  attemptId : Digest := .zero 32
  applierIncarnation : Incarnation := .zero 16
  applierEpoch : Epoch := .zero
  accepted : Bool := false
  detail : Bytes := []

structure VerificationReport where
  subject : LinkKey := {}
  subjectGeneration : LinkGeneration := .zero
  attemptSeq : AttemptSeq := .zero
  attemptId : Digest := .zero 32
  verifierIncarnation : Incarnation := .zero 16
  verifierEpoch : Epoch := .zero
  effectObserved : Bool := false
  detail : Bytes := []

end LinkFailover
