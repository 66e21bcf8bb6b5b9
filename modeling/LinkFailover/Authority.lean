import LinkFailover.Policy

/-!
# Authority vectors and fences

The authority vector names every generation, digest and incarnation under which an attempt
holds authority. A fence states that an authority of the past is no longer live.
-/

namespace LinkFailover

open Codec

/-! ## Authority vectors -/

structure AuthorityVector where
  fabric : FabricName := .none
  subject : LinkKey := {}
  subjectGeneration : LinkGeneration := .zero
  replacement : LinkKey := {}
  replacementGeneration : LinkGeneration := .zero
  topologyGeneration : TopologyGeneration := .zero
  topologyDigest : Digest := .zero 32
  policyGeneration : PolicyGeneration := .zero
  policyDigest : Digest := .zero 32
  epoch : Epoch := .zero
  coordinator : Incarnation := .zero 16
  evidencePublisher : PublisherName := .none
  publisherIncarnation : Incarnation := .zero 16
  publisherSeq : ObservationSeq := .zero
  /-- Zero until an applier is bound to the authority. -/
  applierIncarnation : Incarnation := .zero 16
  attemptSeq : AttemptSeq := .zero
  evidenceDigest : Digest := .zero 32
  deriving DecidableEq

namespace AuthorityVector

def encode (v : AuthorityVector) : Writer → Writer :=
  Writer.fields
    [.u16 kIdentityFormatVersion, .name v.fabric, .name v.subject.fabric, .name v.subject.link,
      .uint v.subjectGeneration, .name v.replacement.fabric, .name v.replacement.link,
      .uint v.replacementGeneration, .uint v.topologyGeneration, .fixed v.topologyDigest,
      .uint v.policyGeneration, .fixed v.policyDigest, .uint v.epoch, .fixed v.coordinator,
      .name v.evidencePublisher, .fixed v.publisherIncarnation, .uint v.publisherSeq,
      .fixed v.applierIncarnation, .uint v.attemptSeq, .fixed v.evidenceDigest]

def decode : Parser AuthorityVector := do
  let formatVersion ← Parser.u16
  let fabric ← Parser.str
  let subjectFabric ← Parser.str
  let subjectLink ← Parser.str
  let subjectGeneration ← Parser.u64
  let replacementFabric ← Parser.str
  let replacementLink ← Parser.str
  let replacementGeneration ← Parser.u64
  let topologyGeneration ← Parser.u64
  let topologyDigest ← Parser.fixed 32
  let policyGeneration ← Parser.u64
  let policyDigest ← Parser.fixed 32
  let epoch ← Parser.u64
  let coordinator ← Parser.fixed 16
  let evidencePublisher ← Parser.str
  let publisherIncarnation ← Parser.fixed 16
  let publisherSeq ← Parser.u64
  let applierIncarnation ← Parser.fixed 16
  let attemptSeq ← Parser.u64
  let evidenceDigest ← Parser.fixed 32
  Parser.require (formatVersion == kIdentityFormatVersion)
  let fabric ← Parser.lift (decodeName fabric)
  let subjectFabric ← Parser.lift (decodeName subjectFabric)
  let subjectLink ← Parser.lift (decodeName subjectLink)
  let replacementFabric ← Parser.lift (decodeName replacementFabric)
  let replacementLink ← Parser.lift (decodeName replacementLink)
  let evidencePublisher ← Parser.lift (decodeName evidencePublisher)
  return {
    fabric := fabric
    subject := ⟨subjectFabric, subjectLink⟩
    subjectGeneration := ⟨subjectGeneration⟩
    replacement := ⟨replacementFabric, replacementLink⟩
    replacementGeneration := ⟨replacementGeneration⟩
    topologyGeneration := ⟨topologyGeneration⟩
    topologyDigest := topologyDigest
    policyGeneration := ⟨policyGeneration⟩
    policyDigest := policyDigest
    epoch := ⟨epoch⟩
    coordinator := coordinator
    evidencePublisher := evidencePublisher
    publisherIncarnation := publisherIncarnation
    publisherSeq := ⟨publisherSeq⟩
    applierIncarnation := applierIncarnation
    attemptSeq := ⟨attemptSeq⟩
    evidenceDigest := evidenceDigest }

theorem roundTrip (v : AuthorityVector) : RoundTrip v.encode decode v := by
  refine .cons (.u16 _) ?_
  refine .cons (.name _) ?_
  refine .cons (.name _) ?_
  refine .cons (.name _) ?_
  refine .cons (.uint _) ?_
  refine .cons (.name _) ?_
  refine .cons (.name _) ?_
  refine .cons (.uint _) ?_
  refine .cons (.uint _) ?_
  refine .cons (.fixed _) ?_
  refine .cons (.uint _) ?_
  refine .cons (.fixed _) ?_
  refine .cons (.uint _) ?_
  refine .cons (.fixed _) ?_
  refine .cons (.name _) ?_
  refine .cons (.fixed _) ?_
  refine .cons (.uint _) ?_
  refine .cons (.fixed _) ?_
  refine .cons (.uint _) ?_
  refine .cons (.fixed _) ?_
  refine .require (by decide) ?_
  refine .lift (decodeName_value _) ?_
  refine .lift (decodeName_value _) ?_
  refine .lift (decodeName_value _) ?_
  refine .lift (decodeName_value _) ?_
  refine .lift (decodeName_value _) ?_
  exact .lift (decodeName_value _) (.nil _)

end AuthorityVector

/-- What a caller asserts about the authority in force. An absent field asserts nothing. -/
structure AuthorityExpectation where
  epoch : Option Epoch := none
  coordinator : Option Incarnation := none
  topologyGeneration : Option TopologyGeneration := none
  policyGeneration : Option PolicyGeneration := none
  subjectGeneration : Option LinkGeneration := none
  policyDigest : Option Digest := none
  topologyDigest : Option Digest := none
  deriving DecidableEq

structure AuthorityMismatch where
  code : ReasonCode
  field : Bytes
  deriving DecidableEq

/-- One entry when the field is asserted and differs from the current value. -/
def mismatchOf {α : Type} [DecidableEq α] (expected : Option α) (current : α) (code : ReasonCode)
    (field : String) : List AuthorityMismatch :=
  match expected with
  | some v => if v = current then [] else [⟨code, text field⟩]
  | none => []

/-- Every difference, in a fixed order. -/
def compareAuthority (expectation : AuthorityExpectation) (current : AuthorityVector) :
    List AuthorityMismatch :=
  mismatchOf expectation.epoch current.epoch .epochMismatch "epoch" ++
  mismatchOf expectation.coordinator current.coordinator .coordinatorIncarnationMismatch
    "coordinator" ++
  mismatchOf expectation.topologyGeneration current.topologyGeneration
    .topologyGenerationMismatch "topology_generation" ++
  mismatchOf expectation.policyGeneration current.policyGeneration .policyGenerationMismatch
    "policy_generation" ++
  mismatchOf expectation.subjectGeneration current.subjectGeneration .subjectGenerationMismatch
    "subject_generation" ++
  mismatchOf expectation.policyDigest current.policyDigest .policyGenerationMismatch
    "policy_digest" ++
  mismatchOf expectation.topologyDigest current.topologyDigest .topologyGenerationMismatch
    "topology_digest"

/-- Every asserted field equals the value in force. -/
structure AuthorityExpectation.Holds (x : AuthorityExpectation) (current : AuthorityVector) :
    Prop where
  epoch : ∀ v, x.epoch = some v → v = current.epoch
  coordinator : ∀ v, x.coordinator = some v → v = current.coordinator
  topologyGeneration : ∀ v, x.topologyGeneration = some v → v = current.topologyGeneration
  policyGeneration : ∀ v, x.policyGeneration = some v → v = current.policyGeneration
  subjectGeneration : ∀ v, x.subjectGeneration = some v → v = current.subjectGeneration
  policyDigest : ∀ v, x.policyDigest = some v → v = current.policyDigest
  topologyDigest : ∀ v, x.topologyDigest = some v → v = current.topologyDigest

theorem mismatchOf_eq_nil {α : Type} [DecidableEq α] {expected : Option α} {current : α}
    {code : ReasonCode} {field : String} :
    mismatchOf expected current code field = [] ↔ ∀ v, expected = some v → v = current := by
  cases expected with
  | none => simp [mismatchOf]
  | some v => by_cases h : v = current <;> simp [mismatchOf, h]

theorem mismatchOf_length {α : Type} [DecidableEq α] (expected : Option α) (current : α)
    (code : ReasonCode) (field : String) : (mismatchOf expected current code field).length ≤ 1 := by
  cases expected with
  | none => exact Nat.zero_le _
  | some v => by_cases h : v = current <;> simp [mismatchOf, h]

theorem compareAuthority_eq_nil {x : AuthorityExpectation} {current : AuthorityVector} :
    compareAuthority x current = [] ↔ x.Holds current := by
  simp only [compareAuthority, List.append_eq_nil_iff, mismatchOf_eq_nil]
  constructor
  · rintro ⟨⟨⟨⟨⟨⟨h1, h2⟩, h3⟩, h4⟩, h5⟩, h6⟩, h7⟩
    exact ⟨h1, h2, h3, h4, h5, h6, h7⟩
  · rintro ⟨h1, h2, h3, h4, h5, h6, h7⟩
    exact ⟨⟨⟨⟨⟨⟨h1, h2⟩, h3⟩, h4⟩, h5⟩, h6⟩, h7⟩

theorem compareAuthority_length (x : AuthorityExpectation) (current : AuthorityVector) :
    (compareAuthority x current).length ≤ 7 := by
  have h1 := mismatchOf_length x.epoch current.epoch .epochMismatch "epoch"
  have h2 := mismatchOf_length x.coordinator current.coordinator .coordinatorIncarnationMismatch
    "coordinator"
  have h3 := mismatchOf_length x.topologyGeneration current.topologyGeneration
    .topologyGenerationMismatch "topology_generation"
  have h4 := mismatchOf_length x.policyGeneration current.policyGeneration
    .policyGenerationMismatch "policy_generation"
  have h5 := mismatchOf_length x.subjectGeneration current.subjectGeneration
    .subjectGenerationMismatch "subject_generation"
  have h6 := mismatchOf_length x.policyDigest current.policyDigest .policyGenerationMismatch
    "policy_digest"
  have h7 := mismatchOf_length x.topologyDigest current.topologyDigest
    .topologyGenerationMismatch "topology_digest"
  simp only [compareAuthority, List.length_append]
  omega

/-! ## Fences -/

inductive FenceKind where
  | attemptSuperseded | preRestartAuthority | sessionRevoked | policyChanged | topologyChanged
  | epochAdvanced | rollbackRevoked
  deriving DecidableEq, Repr

instance : ClosedEnum FenceKind where
  values := [.attemptSuperseded, .preRestartAuthority, .sessionRevoked, .policyChanged,
    .topologyChanged, .epochAdvanced, .rollbackRevoked]
  complete a := by cases a <;> decide
  nodup := by decide
  small := by decide

structure FenceRecord where
  kind : FenceKind := .preRestartAuthority
  subject : LinkKey := {}
  subjectGeneration : LinkGeneration := .zero
  attemptSeq : AttemptSeq := .zero
  epoch : Epoch := .zero
  coordinator : Incarnation := .zero 16
  seq : LineageSeq := .zero
  detail : BoundedBytes 512 := .empty 512
  deriving DecidableEq

namespace FenceRecord

def encode (f : FenceRecord) : Writer → Writer :=
  Writer.fields
    [.u16 kIdentityFormatVersion, .u16 (WireEnum.code f.kind), .name f.subject.fabric,
      .name f.subject.link, .uint f.subjectGeneration, .uint f.attemptSeq, .uint f.epoch,
      .fixed f.coordinator, .uint f.seq, Writer.blob f.detail.val 512]

def decode : Parser FenceRecord := do
  let formatVersion ← Parser.u16
  let kind ← Parser.u16
  let fabric ← Parser.str
  let link ← Parser.str
  let generation ← Parser.u64
  let attemptSeq ← Parser.u64
  let epoch ← Parser.u64
  let coordinator ← Parser.fixed 16
  let seq ← Parser.u64
  let detail ← Parser.bounded 512
  Parser.require (formatVersion == kIdentityFormatVersion)
  let kind ← Parser.lift (WireEnum.ofCode? kind)
  let fabric ← Parser.lift (decodeName fabric)
  let link ← Parser.lift (decodeName link)
  return {
    kind := kind
    subject := ⟨fabric, link⟩
    subjectGeneration := ⟨generation⟩
    attemptSeq := ⟨attemptSeq⟩
    epoch := ⟨epoch⟩
    coordinator := coordinator
    seq := ⟨seq⟩
    detail := detail }

theorem roundTrip (f : FenceRecord) : RoundTrip f.encode decode f := by
  refine .cons (.u16 _) ?_
  refine .cons (.u16 _) ?_
  refine .cons (.name _) ?_
  refine .cons (.name _) ?_
  refine .cons (.uint _) ?_
  refine .cons (.uint _) ?_
  refine .cons (.uint _) ?_
  refine .cons (.fixed _) ?_
  refine .cons (.uint _) ?_
  refine .cons (.bounded _ (by decide)) ?_
  refine .require (by decide) ?_
  refine .lift (ClosedEnum.ofCode?_code _) ?_
  refine .lift (decodeName_value _) ?_
  exact .lift (decodeName_value _) (.nil _)

/-- Fences are kept in the order of their lineage positions. -/
def less (a b : FenceRecord) : Bool := a.seq < b.seq

end FenceRecord

end LinkFailover
