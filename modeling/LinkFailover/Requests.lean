import LinkFailover.Operations

/-!
# Requests on the wire

The bodies of requests and reports. Unlike the records of the journal they name their subject in
full: the decoders refuse an absent name. Each `roundTrip` says when a decoder takes back what was
encoded.
-/

namespace LinkFailover

open Codec

/-- A name that may not be absent. -/
def parseName {Tag : Type} (text : Bytes) : Option (StrongName Tag) :=
  (StrongName.parse text).toOption

theorem parseName_value {Tag : Type} {n : StrongName Tag} (h : n.empty = false) :
    parseName n.value = some n := by
  rw [parseName, StrongName.parse_ok h]
  rfl

theorem LinkKey.named {k : LinkKey} (h : k.empty = false) :
    k.fabric.empty = false ∧ k.link.empty = false := by
  simpa [LinkKey.empty] using h

/-! ## Expectations -/

namespace AuthorityExpectation

def encode (x : AuthorityExpectation) : Writer → Writer :=
  Writer.fields
    [.u16 kIdentityFormatVersion, .option .uint x.epoch, .option .fixed x.coordinator,
      .option .uint x.topologyGeneration, .option .uint x.policyGeneration,
      .option .uint x.subjectGeneration, .option .fixed x.policyDigest,
      .option .fixed x.topologyDigest]

def decode : Parser AuthorityExpectation := do
  let formatVersion ← Parser.u16
  let epoch ← Parser.option Parser.u64
  let coordinator ← Parser.option (Parser.fixed 16)
  let topologyGeneration ← Parser.option Parser.u64
  let policyGeneration ← Parser.option Parser.u64
  let subjectGeneration ← Parser.option Parser.u64
  let policyDigest ← Parser.option (Parser.fixed 32)
  let topologyDigest ← Parser.option (Parser.fixed 32)
  Parser.require (formatVersion == kIdentityFormatVersion)
  return {
    epoch := epoch.map fun v => ⟨v⟩
    coordinator := coordinator
    topologyGeneration := topologyGeneration.map fun v => ⟨v⟩
    policyGeneration := policyGeneration.map fun v => ⟨v⟩
    subjectGeneration := subjectGeneration.map fun v => ⟨v⟩
    policyDigest := policyDigest
    topologyDigest := topologyDigest }

theorem map_value {Tag : Type} (o : Option (StrongUint Tag UInt64)) :
    (o.map (·.value)).map (fun v => (⟨v⟩ : StrongUint Tag UInt64)) = o := by
  cases o <;> rfl

theorem roundTrip (x : AuthorityExpectation) : RoundTrip x.encode decode x := by
  refine .cons (.u16 _) ?_
  refine .cons (.optionMap x.epoch (·.value) .uint) ?_
  refine .cons (.option x.coordinator .fixed) ?_
  refine .cons (.optionMap x.topologyGeneration (·.value) .uint) ?_
  refine .cons (.optionMap x.policyGeneration (·.value) .uint) ?_
  refine .cons (.optionMap x.subjectGeneration (·.value) .uint) ?_
  refine .cons (.option x.policyDigest .fixed) ?_
  refine .cons (.option x.topologyDigest .fixed) ?_
  refine .require (by decide) ?_
  simp only [map_value]
  exact .nil _

end AuthorityExpectation

/-! ## Requests -/

namespace FailoverRequest

def encode (r : FailoverRequest) : Writer → Writer :=
  Writer.fields
    [.u16 kIdentityFormatVersion, .name r.subject.fabric, .name r.subject.link,
      .uint r.subjectGeneration, .u32 (UInt32.ofNat r.candidates.length),
      .each ReplacementCandidate.encode r.candidates, r.expected.encode, .fixed r.idempotencyKey]

def decode : Parser FailoverRequest := do
  let formatVersion ← Parser.u16
  let fabric ← Parser.str
  let link ← Parser.str
  let generation ← Parser.u64
  let count ← Parser.u32
  Parser.require (formatVersion == kIdentityFormatVersion)
  Parser.require (count ≤ kMaxPolicyCandidates)
  let fabric ← Parser.lift (parseName fabric)
  let link ← Parser.lift (parseName link)
  let candidates ← Parser.many ReplacementCandidate.decode count.toNat
  let expected ← AuthorityExpectation.decode
  let idempotencyKey ← Parser.fixed 32
  return {
    subject := ⟨fabric, link⟩
    subjectGeneration := ⟨generation⟩
    candidates := candidates
    expected := expected
    idempotencyKey := idempotencyKey }

theorem roundTrip {r : FailoverRequest} (hs : r.subject.empty = false)
    (hc : r.candidates.length ≤ kMaxPolicyCandidates.toNat) : RoundTrip r.encode decode r := by
  have h32 := toNat_ofNat_length hc (by decide)
  have hle : UInt32.ofNat r.candidates.length ≤ kMaxPolicyCandidates := by
    rw [UInt32.le_iff_toNat_le, h32]
    exact hc
  obtain ⟨hfabric, hlink⟩ := LinkKey.named hs
  refine .cons (.u16 _) ?_
  refine .cons (.name _) ?_
  refine .cons (.name _) ?_
  refine .cons (.uint _) ?_
  refine .cons (.u32 _) ?_
  refine .require (by decide) ?_
  refine .require (decide_eq_true hle) ?_
  refine .lift (parseName_value hfabric) ?_
  refine .lift (parseName_value hlink) ?_
  rw [h32]
  refine .cons (.each _ fun c _ => c.roundTrip) ?_
  refine .cons r.expected.roundTrip ?_
  exact .cons (.fixed _) (.nil _)

end FailoverRequest

namespace RollbackRequest

def encode (r : RollbackRequest) : Writer → Writer :=
  Writer.fields
    [.u16 kIdentityFormatVersion, .name r.subject.fabric, .name r.subject.link,
      .uint r.subjectGeneration, .uint r.attemptSeq, r.expected.encode, .fixed r.idempotencyKey,
      .blob r.rationale 256]

def decode : Parser RollbackRequest := do
  let formatVersion ← Parser.u16
  let fabric ← Parser.str
  let link ← Parser.str
  let generation ← Parser.u64
  let attemptSeq ← Parser.u64
  Parser.require (formatVersion == kIdentityFormatVersion)
  let fabric ← Parser.lift (parseName fabric)
  let link ← Parser.lift (parseName link)
  let expected ← AuthorityExpectation.decode
  let idempotencyKey ← Parser.fixed 32
  let rationale ← Parser.blob 256
  return {
    subject := ⟨fabric, link⟩
    subjectGeneration := ⟨generation⟩
    attemptSeq := ⟨attemptSeq⟩
    expected := expected
    idempotencyKey := idempotencyKey
    rationale := rationale }

theorem roundTrip {r : RollbackRequest} (hs : r.subject.empty = false)
    (hr : r.rationale.length ≤ 256) : RoundTrip r.encode decode r := by
  obtain ⟨hfabric, hlink⟩ := LinkKey.named hs
  refine .cons (.u16 _) ?_
  refine .cons (.name _) ?_
  refine .cons (.name _) ?_
  refine .cons (.uint _) ?_
  refine .cons (.uint _) ?_
  refine .require (by decide) ?_
  refine .lift (parseName_value hfabric) ?_
  refine .lift (parseName_value hlink) ?_
  refine .cons r.expected.roundTrip ?_
  refine .cons (.fixed _) ?_
  exact .cons (.blob hr (Nat.lt_of_le_of_lt hr (by decide))) (.nil _)

end RollbackRequest

namespace RevalidationRequest

def encode (r : RevalidationRequest) : Writer → Writer :=
  Writer.fields
    [.u16 kIdentityFormatVersion, .name r.subject.fabric, .name r.subject.link,
      .uint r.subjectGeneration, .uint r.attemptSeq, .u16 (WireEnum.code r.verdict),
      .fixed r.observerIncarnation, .uint r.observerEpoch, .blob r.rationale 256]

def decode : Parser RevalidationRequest := do
  let formatVersion ← Parser.u16
  let fabric ← Parser.str
  let link ← Parser.str
  let generation ← Parser.u64
  let attemptSeq ← Parser.u64
  let verdict ← Parser.u16
  let observer ← Parser.fixed 16
  let observerEpoch ← Parser.u64
  let rationale ← Parser.blob 256
  Parser.require (formatVersion == kIdentityFormatVersion)
  let verdict ← Parser.lift (WireEnum.ofCode? verdict)
  let fabric ← Parser.lift (parseName fabric)
  let link ← Parser.lift (parseName link)
  return {
    subject := ⟨fabric, link⟩
    subjectGeneration := ⟨generation⟩
    attemptSeq := ⟨attemptSeq⟩
    verdict := verdict
    observerIncarnation := observer
    observerEpoch := ⟨observerEpoch⟩
    rationale := rationale }

theorem roundTrip {r : RevalidationRequest} (hs : r.subject.empty = false)
    (hr : r.rationale.length ≤ 256) (hv : WireEnum.Declared r.verdict) :
    RoundTrip r.encode decode r := by
  obtain ⟨hfabric, hlink⟩ := LinkKey.named hs
  refine .cons (.u16 _) ?_
  refine .cons (.name _) ?_
  refine .cons (.name _) ?_
  refine .cons (.uint _) ?_
  refine .cons (.uint _) ?_
  refine .cons (.u16 _) ?_
  refine .cons (.fixed _) ?_
  refine .cons (.uint _) ?_
  refine .cons (.blob hr (Nat.lt_of_le_of_lt hr (by decide))) ?_
  refine .require (by decide) ?_
  refine .lift (WireEnum.ofCode?_code hv) ?_
  refine .lift (parseName_value hfabric) ?_
  exact .lift (parseName_value hlink) (.nil _)

end RevalidationRequest

/-! ## Reports -/

/-- What an application report and a verification report have in common on the wire. -/
structure ReportFields where
  subject : LinkKey
  subjectGeneration : LinkGeneration
  attemptSeq : AttemptSeq
  attemptId : Digest
  incarnation : Incarnation
  epoch : Epoch
  positive : Bool
  detail : Bytes

namespace ReportFields

def encode (r : ReportFields) : Writer → Writer :=
  Writer.fields
    [.u16 kIdentityFormatVersion, .name r.subject.fabric, .name r.subject.link,
      .uint r.subjectGeneration, .uint r.attemptSeq, .fixed r.attemptId, .fixed r.incarnation,
      .uint r.epoch, .bool8 r.positive, .blob r.detail 256]

def decode : Parser ReportFields := do
  let formatVersion ← Parser.u16
  let fabric ← Parser.str
  let link ← Parser.str
  let generation ← Parser.u64
  let attemptSeq ← Parser.u64
  let attemptId ← Parser.fixed 32
  let incarnation ← Parser.fixed 16
  let epoch ← Parser.u64
  let positive ← Parser.bool8
  let detail ← Parser.blob 256
  Parser.require (formatVersion == kIdentityFormatVersion)
  let fabric ← Parser.lift (parseName fabric)
  let link ← Parser.lift (parseName link)
  return {
    subject := ⟨fabric, link⟩
    subjectGeneration := ⟨generation⟩
    attemptSeq := ⟨attemptSeq⟩
    attemptId := attemptId
    incarnation := incarnation
    epoch := ⟨epoch⟩
    positive := positive
    detail := detail }

theorem roundTrip {r : ReportFields} (hs : r.subject.empty = false)
    (hd : r.detail.length ≤ 256) : RoundTrip r.encode decode r := by
  obtain ⟨hfabric, hlink⟩ := LinkKey.named hs
  refine .cons (.u16 _) ?_
  refine .cons (.name _) ?_
  refine .cons (.name _) ?_
  refine .cons (.uint _) ?_
  refine .cons (.uint _) ?_
  refine .cons (.fixed _) ?_
  refine .cons (.fixed _) ?_
  refine .cons (.uint _) ?_
  refine .cons (.bool8 _) ?_
  refine .cons (.blob hd (Nat.lt_of_le_of_lt hd (by decide))) ?_
  refine .require (by decide) ?_
  refine .lift (parseName_value hfabric) ?_
  exact .lift (parseName_value hlink) (.nil _)

end ReportFields

namespace ApplicationReport

def fields (r : ApplicationReport) : ReportFields where
  subject := r.subject
  subjectGeneration := r.subjectGeneration
  attemptSeq := r.attemptSeq
  attemptId := r.attemptId
  incarnation := r.applierIncarnation
  epoch := r.applierEpoch
  positive := r.accepted
  detail := r.detail

def ofFields (r : ReportFields) : ApplicationReport where
  subject := r.subject
  subjectGeneration := r.subjectGeneration
  attemptSeq := r.attemptSeq
  attemptId := r.attemptId
  applierIncarnation := r.incarnation
  applierEpoch := r.epoch
  accepted := r.positive
  detail := r.detail

def encode (r : ApplicationReport) : Writer → Writer := r.fields.encode

def decode : Parser ApplicationReport := do return ofFields (← ReportFields.decode)

theorem roundTrip {r : ApplicationReport} (hs : r.subject.empty = false)
    (hd : r.detail.length ≤ 256) : RoundTrip r.encode decode r := by
  change RoundTrip (Writer.fields [r.fields.encode]) _ _
  exact .cons (ReportFields.roundTrip (r := r.fields) hs hd) (.nil _)

end ApplicationReport

namespace VerificationReport

def fields (r : VerificationReport) : ReportFields where
  subject := r.subject
  subjectGeneration := r.subjectGeneration
  attemptSeq := r.attemptSeq
  attemptId := r.attemptId
  incarnation := r.verifierIncarnation
  epoch := r.verifierEpoch
  positive := r.effectObserved
  detail := r.detail

def ofFields (r : ReportFields) : VerificationReport where
  subject := r.subject
  subjectGeneration := r.subjectGeneration
  attemptSeq := r.attemptSeq
  attemptId := r.attemptId
  verifierIncarnation := r.incarnation
  verifierEpoch := r.epoch
  effectObserved := r.positive
  detail := r.detail

def encode (r : VerificationReport) : Writer → Writer := r.fields.encode

def decode : Parser VerificationReport := do return ofFields (← ReportFields.decode)

theorem roundTrip {r : VerificationReport} (hs : r.subject.empty = false)
    (hd : r.detail.length ≤ 256) : RoundTrip r.encode decode r := by
  change RoundTrip (Writer.fields [r.fields.encode]) _ _
  exact .cons (ReportFields.roundTrip (r := r.fields) hs hd) (.nil _)

end VerificationReport

/-! ## Directives -/

namespace ApplyDirective

def encode (d : ApplyDirective) : Writer → Writer :=
  Writer.fields
    [.u16 kIdentityFormatVersion, .name d.subject.fabric, .name d.subject.link,
      .uint d.subjectGeneration, .name d.replacement.fabric, .name d.replacement.link,
      .uint d.replacementGeneration, .uint d.attemptSeq, .fixed d.attemptId, d.authority.encode,
      .u64 d.issuedTick]

def decode : Parser ApplyDirective := do
  let formatVersion ← Parser.u16
  let subjectFabric ← Parser.str
  let subjectLink ← Parser.str
  let subjectGeneration ← Parser.u64
  let replacementFabric ← Parser.str
  let replacementLink ← Parser.str
  let replacementGeneration ← Parser.u64
  let attemptSeq ← Parser.u64
  let attemptId ← Parser.fixed 32
  let authority ← AuthorityVector.decode
  let issuedTick ← Parser.u64
  Parser.require (formatVersion == kIdentityFormatVersion)
  let subjectFabric ← Parser.lift (parseName subjectFabric)
  let subjectLink ← Parser.lift (parseName subjectLink)
  let replacementFabric ← Parser.lift (parseName replacementFabric)
  let replacementLink ← Parser.lift (parseName replacementLink)
  return {
    subject := ⟨subjectFabric, subjectLink⟩
    subjectGeneration := ⟨subjectGeneration⟩
    replacement := ⟨replacementFabric, replacementLink⟩
    replacementGeneration := ⟨replacementGeneration⟩
    attemptSeq := ⟨attemptSeq⟩
    attemptId := attemptId
    authority := authority
    issuedTick := issuedTick }

theorem roundTrip {d : ApplyDirective} (hs : d.subject.empty = false)
    (hr : d.replacement.empty = false) : RoundTrip d.encode decode d := by
  obtain ⟨hfabric, hlink⟩ := LinkKey.named hs
  obtain ⟨hfabric', hlink'⟩ := LinkKey.named hr
  refine .cons (.u16 _) ?_
  refine .cons (.name _) ?_
  refine .cons (.name _) ?_
  refine .cons (.uint _) ?_
  refine .cons (.name _) ?_
  refine .cons (.name _) ?_
  refine .cons (.uint _) ?_
  refine .cons (.uint _) ?_
  refine .cons (.fixed _) ?_
  refine .cons d.authority.roundTrip ?_
  refine .cons (.u64 _) ?_
  refine .require (by decide) ?_
  refine .lift (parseName_value hfabric) ?_
  refine .lift (parseName_value hlink) ?_
  refine .lift (parseName_value hfabric') ?_
  exact .lift (parseName_value hlink') (.nil _)

end ApplyDirective

end LinkFailover
