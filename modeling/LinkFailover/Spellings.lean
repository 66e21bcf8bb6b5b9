import LinkFailover.Lib.Layouts
import LinkFailover.Requests

/-!
# Spellings

The decoders take every byte but zero for a flag that is up, so that a value with a flag has more
spellings than its encoding. No other part of an encoding can be spelled in two ways: numbers have
one width, texts their length in front of them, and names and enumerations are checked. Each type
has its layout, which says where the flags stand, and a lemma `spells`, which goes through its
decoder field by field.
-/

namespace LinkFailover

open Codec

/-! ## Parts -/

theorem ofCode?_spelled {α : Type} [DecidableEq α] [WireEnum α] {c : UInt16} {a : α}
    (h : WireEnum.ofCode? c = some a) : c = WireEnum.code a := by
  obtain ⟨hlt, ha⟩ := List.getElem?_eq_some_iff.mp h
  refine UInt16.toNat_inj.mp ?_
  rw [WireEnum.code_toNat (WireEnum.ofCode?_declared h), ← ha]
  exact (List.Nodup.idxOf_getElem WireEnum.nodup c.toNat hlt).symm

theorem parse_spelled {Tag : Type} {bs : Bytes} {n : StrongName Tag}
    (h : (StrongName.parse bs).toOption = some n) : bs = n.value := by
  unfold StrongName.parse at h
  split at h
  · cases h
    rfl
  · cases h

theorem decodeName_spelled {Tag : Type} {bs : Bytes} {n : StrongName Tag}
    (h : decodeName bs = some n) : bs = n.value := by
  unfold decodeName at h
  split at h
  · rename_i hempty
    cases h
    exact List.isEmpty_iff.mp hempty
  · exact parse_spelled h

theorem count_spelled {α : Type} {xs : List α} {n : UInt32} (h : xs.length = n.toNat) :
    Writer.u32 (UInt32.ofNat xs.length) = Writer.u32 n := by
  rw [h, UInt32.ofNat_toNat]

theorem option_spelled {Tag : Type} {o : Option UInt64} :
    Writer.option Writer.uint (o.map fun v => (⟨v⟩ : StrongUint Tag UInt64)) =
      Writer.option Writer.u64 o := by
  cases o <;> rfl

/-- The constructor of a reason cuts nothing off what its decoder lets through. -/
theorem reason_spelled {code : ReasonCode} {detail : Bytes} (h : detail.length ≤ kMaxReasonDetail) :
    (Reason.of code detail).detail = detail := List.take_of_length_le h

def Reason.layout : Layout :=
  .fields [.bytes 2, .text] .empty

theorem Reason.spells : Spells decode layout encode := by
  refine .of_fields ?_
  refine .cons .u16 fun code => ?_
  refine .blob fun detail hdetail => ?_
  refine .lift fun code' hcode => ?_
  obtain rfl := ofCode?_spelled hcode
  exact .pure ⟨by rw [reason_spelled hdetail], rfl, trivial⟩

theorem log_spelled {reasons : List Reason} {log : ReasonLog}
    (h : (if h : reasons.length ≤ kMaxAttemptReasons then some (⟨reasons, h⟩ : ReasonLog)
      else none) = some log) : reasons = log.entries := by
  split at h
  · cases h
    rfl
  · cases h

/-! ## Records, policies and evidence -/

def AuthorityVector.layout : Layout :=
  .fields [.bytes 2, .text, .text, .text, .bytes 8, .text, .text, .bytes 8, .bytes 8, .bytes 32,
    .bytes 8, .bytes 32, .bytes 8, .bytes 16, .text, .bytes 16, .bytes 8, .bytes 16, .bytes 8,
    .bytes 32] .empty

theorem AuthorityVector.spells : Spells decode layout encode := by
  refine .of_fields ?_
  refine .cons .u16 fun formatVersion => ?_
  refine .cons (.blob _) fun fabric => ?_
  refine .cons (.blob _) fun subjectFabric => ?_
  refine .cons (.blob _) fun subjectLink => ?_
  refine .cons .u64 fun subjectGeneration => ?_
  refine .cons (.blob _) fun replacementFabric => ?_
  refine .cons (.blob _) fun replacementLink => ?_
  refine .cons .u64 fun replacementGeneration => ?_
  refine .cons .u64 fun topologyGeneration => ?_
  refine .cons (.fixed 32) fun topologyDigest => ?_
  refine .cons .u64 fun policyGeneration => ?_
  refine .cons (.fixed 32) fun policyDigest => ?_
  refine .cons .u64 fun epoch => ?_
  refine .cons (.fixed 16) fun coordinator => ?_
  refine .cons (.blob _) fun evidencePublisher => ?_
  refine .cons (.fixed 16) fun publisherIncarnation => ?_
  refine .cons .u64 fun publisherSeq => ?_
  refine .cons (.fixed 16) fun applierIncarnation => ?_
  refine .cons .u64 fun attemptSeq => ?_
  refine .cons (.fixed 32) fun evidenceDigest => ?_
  refine .require fun hversion => ?_
  refine .lift fun fabric' hfabric => ?_
  refine .lift fun subjectFabric' hsubjectFabric => ?_
  refine .lift fun subjectLink' hsubjectLink => ?_
  refine .lift fun replacementFabric' hreplacementFabric => ?_
  refine .lift fun replacementLink' hreplacementLink => ?_
  refine .lift fun evidencePublisher' hevidencePublisher => ?_
  obtain rfl := eq_of_beq hversion
  obtain rfl := decodeName_spelled hfabric
  obtain rfl := decodeName_spelled hsubjectFabric
  obtain rfl := decodeName_spelled hsubjectLink
  obtain rfl := decodeName_spelled hreplacementFabric
  obtain rfl := decodeName_spelled hreplacementLink
  obtain rfl := decodeName_spelled hevidencePublisher
  exact .pure ⟨rfl, rfl, rfl, rfl, rfl, rfl, rfl, rfl, rfl, rfl, rfl, rfl, rfl, rfl, rfl, rfl,
    rfl, rfl, rfl, rfl, trivial⟩

def AuthorityExpectation.layout : Layout :=
  .fields [.bytes 2, .optional (.bytes 8), .optional (.bytes 16), .optional (.bytes 8),
    .optional (.bytes 8), .optional (.bytes 8), .optional (.bytes 32), .optional (.bytes 32)]
    .empty

theorem AuthorityExpectation.spells : Spells decode layout encode := by
  refine .of_fields ?_
  refine .cons .u16 fun formatVersion => ?_
  refine .cons (.option .u64) fun epoch => ?_
  refine .cons (.option (.fixed 16)) fun coordinator => ?_
  refine .cons (.option .u64) fun topologyGeneration => ?_
  refine .cons (.option .u64) fun policyGeneration => ?_
  refine .cons (.option .u64) fun subjectGeneration => ?_
  refine .cons (.option (.fixed 32)) fun policyDigest => ?_
  refine .cons (.option (.fixed 32)) fun topologyDigest => ?_
  refine .require fun hversion => ?_
  obtain rfl := eq_of_beq hversion
  exact .pure ⟨rfl, rfl, option_spelled, option_spelled, option_spelled, rfl, option_spelled, rfl,
    trivial⟩

def EvidenceStamp.layout : Layout :=
  .fields [.text, .bytes 16, .bytes 8, .bytes 8, .bytes 8] .empty

theorem EvidenceStamp.spells : Spells decode layout encode := by
  refine .of_fields ?_
  refine .cons (.blob _) fun publisher => ?_
  refine .cons (.fixed 16) fun incarnation => ?_
  refine .cons .u64 fun epoch => ?_
  refine .cons .u64 fun seq => ?_
  refine .cons .u64 fun wall => ?_
  refine .lift fun publisher' hpublisher => ?_
  obtain rfl := decodeName_spelled hpublisher
  exact .pure ⟨by rw [UInt64.toUInt64_toInt64], rfl, rfl, rfl, rfl, trivial⟩

def FailureReport.layout : Layout :=
  .fields [.text, .text, .bytes 8, .bytes 8, .bytes 2, .bytes 4, EvidenceStamp.layout] .empty

theorem FailureReport.spells : Spells decode layout encode := by
  refine .of_fields ?_
  refine .cons (.blob _) fun fabric => ?_
  refine .cons (.blob _) fun link => ?_
  refine .cons .u64 fun generation => ?_
  refine .cons .u64 fun topology => ?_
  refine .cons .u16 fun state => ?_
  refine .cons .u32 fun confidence => ?_
  refine .lift fun state' hstate => ?_
  refine .require fun _ => ?_
  refine .cons EvidenceStamp.spells fun stamp => ?_
  refine .lift fun fabric' hfabric => ?_
  refine .lift fun link' hlink => ?_
  obtain rfl := ofCode?_spelled hstate
  obtain rfl := decodeName_spelled hfabric
  obtain rfl := decodeName_spelled hlink
  exact .pure ⟨rfl, rfl, rfl, rfl, rfl, rfl, rfl, trivial⟩

def ReplacementReport.layout : Layout :=
  .fields [.text, .text, .bytes 8, .bytes 8, .bytes 2, .bytes 4, .bytes 4, .bytes 4, .flag,
    .bytes 8, EvidenceStamp.layout] .empty

theorem ReplacementReport.spells : Spells decode layout encode := by
  refine .of_fields ?_
  refine .cons (.blob _) fun fabric => ?_
  refine .cons (.blob _) fun link => ?_
  refine .cons .u64 fun generation => ?_
  refine .cons .u64 fun topology => ?_
  refine .cons .u16 fun state => ?_
  refine .cons .u32 fun confidence => ?_
  refine .cons .u32 fun capacity => ?_
  refine .cons .u32 fun cost => ?_
  refine .cons .bool8 fun authorized => ?_
  refine .cons .u64 fun adjacencyPolicy => ?_
  refine .lift fun state' hstate => ?_
  refine .require fun _ => ?_
  refine .cons EvidenceStamp.spells fun stamp => ?_
  refine .lift fun fabric' hfabric => ?_
  refine .lift fun link' hlink => ?_
  obtain rfl := ofCode?_spelled hstate
  obtain rfl := decodeName_spelled hfabric
  obtain rfl := decodeName_spelled hlink
  exact .pure ⟨rfl, rfl, rfl, rfl, rfl, rfl, rfl, rfl, rfl, rfl, rfl, trivial⟩

def ReplacementCandidate.layout : Layout :=
  .fields [.text, .text, .bytes 8] .empty

theorem ReplacementCandidate.spells : Spells decode layout encode := by
  refine .of_fields ?_
  refine .cons (.blob _) fun fabric => ?_
  refine .cons (.blob _) fun link => ?_
  refine .cons .u64 fun generation => ?_
  refine .lift fun fabric' hfabric => ?_
  refine .lift fun link' hlink => ?_
  obtain rfl := decodeName_spelled hfabric
  obtain rfl := decodeName_spelled hlink
  exact .pure ⟨rfl, rfl, rfl, trivial⟩

def FailoverPolicy.layout : Layout :=
  .fields [.bytes 2, .bytes 8, .bytes 4, .bytes 4, .bytes 8, .bytes 4, .flag, .flag, .flag, .flag,
    .bytes 2, .bytes 4, .bytes 4, .bytes 4, .flag, .flag] .empty

theorem FailoverPolicy.spells : Spells decode layout encode := by
  refine .of_fields ?_
  refine .cons .u16 fun formatVersion => ?_
  refine .cons .u64 fun generation => ?_
  refine .cons .u32 fun minFailure => ?_
  refine .cons .u32 fun minReplacement => ?_
  refine .cons .u64 fun maxAge => ?_
  refine .cons .u32 fun minCapacity => ?_
  refine .cons .bool8 fun subjectCapacity => ?_
  refine .cons .bool8 fun adjacency => ?_
  refine .cons .bool8 fun degradedReplacement => ?_
  refine .cons .bool8 fun degradedFailure => ?_
  refine .cons .u16 fun agreement => ?_
  refine .cons .u32 fun maxAttempts => ?_
  refine .cons .u32 fun maxCandidates => ?_
  refine .cons .u32 fun maxRetained => ?_
  refine .cons .bool8 fun verifiedEffect => ?_
  refine .cons .bool8 fun enabled => ?_
  refine .require fun hversion => ?_
  refine .lift fun agreement' hagreement => ?_
  obtain rfl := eq_of_beq hversion
  obtain rfl := ofCode?_spelled hagreement
  exact .pure ⟨rfl, rfl, rfl, rfl, rfl, rfl, rfl, rfl, rfl, rfl, rfl, rfl, rfl, rfl, rfl, rfl,
    trivial⟩

def LinkDefinition.layout : Layout :=
  .fields [.text, .text, .bytes 8, .bytes 4] .empty

theorem LinkDefinition.spells : Spells decode layout encode := by
  refine .of_fields ?_
  refine .cons (.blob _) fun fabric => ?_
  refine .cons (.blob _) fun link => ?_
  refine .cons .u64 fun generation => ?_
  refine .cons .u32 fun capacity => ?_
  refine .lift fun fabric' hfabric => ?_
  refine .lift fun link' hlink => ?_
  obtain rfl := decodeName_spelled hfabric
  obtain rfl := decodeName_spelled hlink
  exact .pure ⟨rfl, rfl, rfl, rfl, trivial⟩

def TopologySnapshot.layout : Layout :=
  .fields [.bytes 2, .bytes 8] (.counted fun n =>
    .fields [.times n LinkDefinition.layout] .empty)

theorem TopologySnapshot.spells : Spells decode layout encode := by
  refine .of_fields ?_
  refine .cons .u16 fun formatVersion => ?_
  refine .cons .u64 fun generation => ?_
  refine .counted fun count => ?_
  refine .require fun hversion => ?_
  refine .require fun _ => ?_
  refine .times LinkDefinition.spells fun links hlinks => ?_
  obtain rfl := eq_of_beq hversion
  exact .pure ⟨rfl, count_spelled hlinks, rfl, rfl, trivial⟩

def FenceRecord.layout : Layout :=
  .fields [.bytes 2, .bytes 2, .text, .text, .bytes 8, .bytes 8, .bytes 8, .bytes 16, .bytes 8,
    .text] .empty

theorem FenceRecord.spells : Spells decode layout encode := by
  refine .of_fields ?_
  refine .cons .u16 fun formatVersion => ?_
  refine .cons .u16 fun kind => ?_
  refine .cons (.blob _) fun fabric => ?_
  refine .cons (.blob _) fun link => ?_
  refine .cons .u64 fun generation => ?_
  refine .cons .u64 fun attemptSeq => ?_
  refine .cons .u64 fun epoch => ?_
  refine .cons (.fixed 16) fun coordinator => ?_
  refine .cons .u64 fun seq => ?_
  refine .cons (.bounded 512) fun detail => ?_
  refine .require fun hversion => ?_
  refine .lift fun kind' hkind => ?_
  refine .lift fun fabric' hfabric => ?_
  refine .lift fun link' hlink => ?_
  obtain rfl := eq_of_beq hversion
  obtain rfl := ofCode?_spelled hkind
  obtain rfl := decodeName_spelled hfabric
  obtain rfl := decodeName_spelled hlink
  exact .pure ⟨rfl, rfl, rfl, rfl, rfl, rfl, rfl, rfl, rfl, rfl, trivial⟩

def AttemptRecord.layout : Layout :=
  .fields [.bytes 2, .text, .text, .bytes 8, .bytes 8, .bytes 32, .bytes 32, .bytes 2, .text,
    .text, .bytes 8, AuthorityVector.layout, .bytes 32, .bytes 8, .bytes 8, .bytes 16, .bytes 8,
    .bytes 8, .optional (.bytes 32), .bytes 16, .flag, .bytes 2] (.counted fun n =>
    .fields [.times n Reason.layout] .empty)

theorem AttemptRecord.spells : Spells decode layout encode := by
  refine .of_fields ?_
  refine .cons .u16 fun formatVersion => ?_
  refine .cons (.blob _) fun fabric => ?_
  refine .cons (.blob _) fun link => ?_
  refine .cons .u64 fun generation => ?_
  refine .cons .u64 fun attemptSeq => ?_
  refine .cons (.fixed 32) fun attemptId => ?_
  refine .cons (.fixed 32) fun idempotencyKey => ?_
  refine .cons .u16 fun phase => ?_
  refine .cons (.blob _) fun replacementFabric => ?_
  refine .cons (.blob _) fun replacementLink => ?_
  refine .cons .u64 fun replacementGeneration => ?_
  refine .cons AuthorityVector.spells fun authority => ?_
  refine .cons (.fixed 32) fun evidenceDigest => ?_
  refine .cons .u64 fun createdTick => ?_
  refine .cons .u64 fun createdEpoch => ?_
  refine .cons (.fixed 16) fun coordinator => ?_
  refine .cons .u64 fun createSeq => ?_
  refine .cons .u64 fun updateSeq => ?_
  refine .cons (.option (.fixed 32)) fun predecessor => ?_
  refine .cons (.fixed 16) fun applier => ?_
  refine .cons .bool8 fun revalidated => ?_
  refine .cons .u16 fun revalidation => ?_
  refine .counted fun reasonCount => ?_
  refine .require fun hversion => ?_
  refine .lift fun phase' hphase => ?_
  refine .require fun _ => ?_
  refine .lift fun revalidation' hrevalidation => ?_
  refine .lift fun fabric' hfabric => ?_
  refine .lift fun link' hlink => ?_
  refine .lift fun replacementFabric' hreplacementFabric => ?_
  refine .lift fun replacementLink' hreplacementLink => ?_
  refine .times Reason.spells fun reasons hreasons => ?_
  refine .lift fun log hlog => ?_
  obtain rfl := eq_of_beq hversion
  obtain rfl := ofCode?_spelled hphase
  obtain rfl := ofCode?_spelled hrevalidation
  obtain rfl := decodeName_spelled hfabric
  obtain rfl := decodeName_spelled hlink
  obtain rfl := decodeName_spelled hreplacementFabric
  obtain rfl := decodeName_spelled hreplacementLink
  obtain rfl := log_spelled hlog
  exact .pure ⟨rfl, count_spelled hreasons, rfl, rfl, rfl, rfl, rfl, rfl, rfl, rfl, rfl, rfl, rfl,
    rfl, rfl, rfl, rfl, rfl, rfl, rfl, rfl, rfl, rfl, rfl, trivial⟩

/-! ## Decisions -/

/-- The fields of a replacement as they stand, before their names are checked. -/
def ReplacementField.Raw.encode (r : Raw) : Writer → Writer :=
  Writer.fields
    [.blob r.fabric kMaxEncodedString, .blob r.link kMaxEncodedString, .u64 r.generation]

def ReplacementField.layout : Layout :=
  .fields [.text, .text, .bytes 8] .empty

theorem ReplacementField.Raw.spells : Spells decode layout encode := by
  refine .of_fields ?_
  refine .cons (.blob _) fun fabric => ?_
  refine .cons (.blob _) fun link => ?_
  refine .cons .u64 fun generation => ?_
  exact .pure ⟨rfl, rfl, rfl, trivial⟩

theorem ReplacementField.check_spelled {fabricName : Bytes → Option FabricName}
    {linkName : Bytes → Option LinkName}
    (hf : ∀ {bs n}, fabricName bs = some n → bs = n.value)
    (hl : ∀ {bs n}, linkName bs = some n → bs = n.value) {raw : Option Raw}
    {o : Option ReplacementField} (h : Raw.check fabricName linkName raw = some o) :
    Writer.option ReplacementField.encode o = Writer.option Raw.encode raw := by
  cases raw with
  | none =>
    cases h
    rfl
  | some r =>
    obtain ⟨fabric, hfabric, h⟩ := Option.bind_eq_some_iff.mp h
    obtain ⟨link, hlink, h⟩ := Option.bind_eq_some_iff.mp h
    cases h
    funext w
    change ReplacementField.encode _ (Writer.bool8 true w) = r.encode (Writer.bool8 true w)
    unfold ReplacementField.encode Raw.encode
    rw [hf hfabric, hl hlink]
    rfl

/-- The fields behind the flag of a decoded value. -/
theorem ReplacementField.field_spelled {o : Option ReplacementField} {f : Writer → Writer}
    (h : Writer.option encode o = f) :
    Writer.option encode
      (if o.isSome = true then
        some ⟨(o.map (·.link)).getD {}, (o.map (·.generation)).getD .zero⟩
      else none) = f := by
  cases o <;> exact h

def reasonsLayout : Layout := .counted fun n => .fields [.times n Reason.layout] .empty

theorem decodeReasons_spells (limit : Nat) :
    Spells (decodeReasons limit) reasonsLayout encodeReasons := by
  refine .of_fields ?_
  refine .counted fun count => ?_
  refine .require fun _ => ?_
  rw [← bind_pure (Parser.many Reason.decode count.toNat)]
  refine .times Reason.spells fun reasons hreasons => ?_
  exact .pure ⟨rfl, count_spelled hreasons, trivial⟩

def CandidateAssessment.layout : Layout :=
  .fields [.text, .text, .bytes 8, .bytes 2, .bytes 2, .text, .bytes 2, .bytes 4, .bytes 2,
    .bytes 8, .bytes 4, .bytes 4, .flag, .bytes 32] .empty

theorem CandidateAssessment.spells : Spells decode layout encode := by
  refine .of_fields ?_
  refine .cons (.blob _) fun fabric => ?_
  refine .cons (.blob _) fun link => ?_
  refine .cons .u64 fun generation => ?_
  refine .cons .u16 fun verdict => ?_
  refine .cons .u16 fun reason => ?_
  refine .cons (.blob _) fun detail => ?_
  refine .cons .u16 fun state => ?_
  refine .cons .u32 fun confidence => ?_
  refine .cons .u16 fun freshness => ?_
  refine .cons .u64 fun age => ?_
  refine .cons .u32 fun capacity => ?_
  refine .cons .u32 fun cost => ?_
  refine .cons .bool8 fun adjacency => ?_
  refine .cons (.fixed 32) fun evidence => ?_
  refine .lift fun verdict' hverdict => ?_
  refine .lift fun reason' hreason => ?_
  refine .lift fun state' hstate => ?_
  refine .lift fun freshness' hfreshness => ?_
  refine .require fun _ => ?_
  refine .lift fun fabric' hfabric => ?_
  refine .lift fun link' hlink => ?_
  obtain rfl := ofCode?_spelled hverdict
  obtain rfl := ofCode?_spelled hreason
  obtain rfl := ofCode?_spelled hstate
  obtain rfl := ofCode?_spelled hfreshness
  obtain rfl := decodeName_spelled hfabric
  obtain rfl := decodeName_spelled hlink
  exact .pure ⟨rfl, rfl, rfl, rfl, rfl, rfl, rfl, rfl, rfl, rfl, rfl, rfl, rfl, rfl, trivial⟩

def FailoverDecision.layout : Layout :=
  .fields [.bytes 2, .bytes 32, .bytes 2, .bytes 2, .bytes 2, .text, .text, .text, .bytes 8,
    .optional ReplacementField.layout, .bytes 8, .bytes 32, .bytes 8, .bytes 16,
    AuthorityVector.layout, .bytes 32, .bytes 8, .flag, .flag, reasonsLayout] (.counted fun n =>
    .fields [.times n CandidateAssessment.layout] .empty)

theorem FailoverDecision.spells : Spells decode layout encode := by
  refine .of_fields ?_
  refine .cons .u16 fun formatVersion => ?_
  refine .cons (.fixed 32) fun decisionId => ?_
  refine .cons .u16 fun kind => ?_
  refine .cons .u16 fun assertion => ?_
  refine .cons .u16 fun outcome => ?_
  refine .cons (.blob _) fun fabric => ?_
  refine .cons (.blob _) fun subjectFabric => ?_
  refine .cons (.blob _) fun subjectLink => ?_
  refine .cons .u64 fun subjectGeneration => ?_
  refine .cons (.option ReplacementField.Raw.spells) fun replacement => ?_
  refine .cons .u64 fun attemptSeq => ?_
  refine .cons (.fixed 32) fun attemptId => ?_
  refine .cons .u64 fun epoch => ?_
  refine .cons (.fixed 16) fun coordinator => ?_
  refine .cons AuthorityVector.spells fun authority => ?_
  refine .cons (.fixed 32) fun evidenceDigest => ?_
  refine .cons .u64 fun lineageSeq => ?_
  refine .cons .bool8 fun durable => ?_
  refine .cons .bool8 fun idempotentReplay => ?_
  refine .cons (decodeReasons_spells _) fun reasons => ?_
  refine .counted fun candidateCount => ?_
  refine .require fun hversion => ?_
  refine .lift fun kind' hkind => ?_
  refine .lift fun assertion' hassertion => ?_
  refine .lift fun outcome' houtcome => ?_
  refine .require fun _ => ?_
  refine .lift fun fabric' hfabric => ?_
  refine .lift fun subjectFabric' hsubjectFabric => ?_
  refine .lift fun subjectLink' hsubjectLink => ?_
  refine .lift fun replacement' hreplacement => ?_
  refine .times CandidateAssessment.spells fun candidates hcandidates => ?_
  obtain rfl := eq_of_beq hversion
  obtain rfl := ofCode?_spelled hkind
  obtain rfl := ofCode?_spelled hassertion
  obtain rfl := ofCode?_spelled houtcome
  obtain rfl := decodeName_spelled hfabric
  obtain rfl := decodeName_spelled hsubjectFabric
  obtain rfl := decodeName_spelled hsubjectLink
  have hfield := ReplacementField.check_spelled decodeName_spelled decodeName_spelled hreplacement
  exact .pure ⟨rfl, count_spelled hcandidates, rfl, rfl, rfl, rfl, rfl, rfl, rfl, rfl, rfl, rfl,
    ReplacementField.field_spelled hfield, rfl, rfl, rfl, rfl, rfl, rfl, rfl, rfl, rfl, trivial⟩

def IdempotencyEntry.layout : Layout :=
  .fields [.bytes 2, .bytes 32, .bytes 32, .bytes 2, .bytes 2, .bytes 2, .text, .text, .bytes 8,
    .optional ReplacementField.layout, .bytes 8, .bytes 8] (.counted fun n =>
    .fields [.times n Reason.layout] .empty)

theorem IdempotencyEntry.spells : Spells decode layout encode := by
  refine .of_fields ?_
  refine .cons .u16 fun formatVersion => ?_
  refine .cons (.fixed 32) fun key => ?_
  refine .cons (.fixed 32) fun decisionId => ?_
  refine .cons .u16 fun kind => ?_
  refine .cons .u16 fun assertion => ?_
  refine .cons .u16 fun outcome => ?_
  refine .cons (.blob _) fun fabric => ?_
  refine .cons (.blob _) fun link => ?_
  refine .cons .u64 fun generation => ?_
  refine .cons (.option ReplacementField.Raw.spells) fun replacement => ?_
  refine .cons .u64 fun attemptSeq => ?_
  refine .cons .u64 fun seq => ?_
  refine .counted fun reasonCount => ?_
  refine .require fun hversion => ?_
  refine .lift fun kind' hkind => ?_
  refine .lift fun assertion' hassertion => ?_
  refine .lift fun outcome' houtcome => ?_
  refine .require fun _ => ?_
  refine .lift fun fabric' hfabric => ?_
  refine .lift fun link' hlink => ?_
  refine .lift fun replacement' hreplacement => ?_
  refine .times Reason.spells fun reasons hreasons => ?_
  obtain rfl := eq_of_beq hversion
  obtain rfl := ofCode?_spelled hkind
  obtain rfl := ofCode?_spelled hassertion
  obtain rfl := ofCode?_spelled houtcome
  obtain rfl := parse_spelled hfabric
  obtain rfl := parse_spelled hlink
  have hfield := ReplacementField.check_spelled parse_spelled parse_spelled hreplacement
  exact .pure ⟨rfl, count_spelled hreasons, rfl, rfl, ReplacementField.field_spelled hfield, rfl,
    rfl, rfl, rfl, rfl, rfl, rfl, rfl, rfl, trivial⟩

/-! ## Requests and reports -/

def FailoverRequest.layout : Layout :=
  .fields [.bytes 2, .text, .text, .bytes 8] (.counted fun n =>
    .fields [.times n ReplacementCandidate.layout, AuthorityExpectation.layout, .bytes 32] .empty)

theorem FailoverRequest.spells : Spells decode layout encode := by
  refine .of_fields ?_
  refine .cons .u16 fun formatVersion => ?_
  refine .cons (.blob _) fun fabric => ?_
  refine .cons (.blob _) fun link => ?_
  refine .cons .u64 fun generation => ?_
  refine .counted fun count => ?_
  refine .require fun hversion => ?_
  refine .require fun _ => ?_
  refine .lift fun fabric' hfabric => ?_
  refine .lift fun link' hlink => ?_
  refine .times ReplacementCandidate.spells fun candidates hcandidates => ?_
  refine .cons AuthorityExpectation.spells fun expected => ?_
  refine .cons (.fixed 32) fun idempotencyKey => ?_
  obtain rfl := eq_of_beq hversion
  obtain rfl := parse_spelled hfabric
  obtain rfl := parse_spelled hlink
  exact .pure ⟨rfl, rfl, rfl, count_spelled hcandidates, rfl, rfl, rfl, rfl, trivial⟩

def RollbackRequest.layout : Layout :=
  .fields [.bytes 2, .text, .text, .bytes 8, .bytes 8, AuthorityExpectation.layout, .bytes 32,
    .text] .empty

theorem RollbackRequest.spells : Spells decode layout encode := by
  refine .of_fields ?_
  refine .cons .u16 fun formatVersion => ?_
  refine .cons (.blob _) fun fabric => ?_
  refine .cons (.blob _) fun link => ?_
  refine .cons .u64 fun generation => ?_
  refine .cons .u64 fun attemptSeq => ?_
  refine .require fun hversion => ?_
  refine .lift fun fabric' hfabric => ?_
  refine .lift fun link' hlink => ?_
  refine .cons AuthorityExpectation.spells fun expected => ?_
  refine .cons (.fixed 32) fun idempotencyKey => ?_
  refine .cons (.blob _) fun rationale => ?_
  obtain rfl := eq_of_beq hversion
  obtain rfl := parse_spelled hfabric
  obtain rfl := parse_spelled hlink
  exact .pure ⟨rfl, rfl, rfl, rfl, rfl, rfl, rfl, rfl, trivial⟩

def RevalidationRequest.layout : Layout :=
  .fields [.bytes 2, .text, .text, .bytes 8, .bytes 8, .bytes 2, .bytes 16, .bytes 8, .text]
    .empty

theorem RevalidationRequest.spells : Spells decode layout encode := by
  refine .of_fields ?_
  refine .cons .u16 fun formatVersion => ?_
  refine .cons (.blob _) fun fabric => ?_
  refine .cons (.blob _) fun link => ?_
  refine .cons .u64 fun generation => ?_
  refine .cons .u64 fun attemptSeq => ?_
  refine .cons .u16 fun verdict => ?_
  refine .cons (.fixed 16) fun observer => ?_
  refine .cons .u64 fun observerEpoch => ?_
  refine .cons (.blob _) fun rationale => ?_
  refine .require fun hversion => ?_
  refine .lift fun verdict' hverdict => ?_
  refine .lift fun fabric' hfabric => ?_
  refine .lift fun link' hlink => ?_
  obtain rfl := eq_of_beq hversion
  obtain rfl := ofCode?_spelled hverdict
  obtain rfl := parse_spelled hfabric
  obtain rfl := parse_spelled hlink
  exact .pure ⟨rfl, rfl, rfl, rfl, rfl, rfl, rfl, rfl, rfl, trivial⟩

def ReportFields.layout : Layout :=
  .fields [.bytes 2, .text, .text, .bytes 8, .bytes 8, .bytes 32, .bytes 16, .bytes 8, .flag,
    .text] .empty

theorem ReportFields.spells : Spells decode layout encode := by
  refine .of_fields ?_
  refine .cons .u16 fun formatVersion => ?_
  refine .cons (.blob _) fun fabric => ?_
  refine .cons (.blob _) fun link => ?_
  refine .cons .u64 fun generation => ?_
  refine .cons .u64 fun attemptSeq => ?_
  refine .cons (.fixed 32) fun attemptId => ?_
  refine .cons (.fixed 16) fun incarnation => ?_
  refine .cons .u64 fun epoch => ?_
  refine .cons .bool8 fun positive => ?_
  refine .cons (.blob _) fun detail => ?_
  refine .require fun hversion => ?_
  refine .lift fun fabric' hfabric => ?_
  refine .lift fun link' hlink => ?_
  obtain rfl := eq_of_beq hversion
  obtain rfl := parse_spelled hfabric
  obtain rfl := parse_spelled hlink
  exact .pure ⟨rfl, rfl, rfl, rfl, rfl, rfl, rfl, rfl, rfl, rfl, trivial⟩

theorem ApplicationReport.spells : Spells decode ReportFields.layout encode := by
  intro bs r rest h
  obtain ⟨fields, mid, h₁, h₂⟩ := bind_eq_some h
  cases h₂
  exact ReportFields.spells bs fields rest h₁

theorem VerificationReport.spells : Spells decode ReportFields.layout encode := by
  intro bs r rest h
  obtain ⟨fields, mid, h₁, h₂⟩ := bind_eq_some h
  cases h₂
  exact ReportFields.spells bs fields rest h₁

def ApplyDirective.layout : Layout :=
  .fields [.bytes 2, .text, .text, .bytes 8, .text, .text, .bytes 8, .bytes 8, .bytes 32,
    AuthorityVector.layout, .bytes 8] .empty

theorem ApplyDirective.spells : Spells decode layout encode := by
  refine .of_fields ?_
  refine .cons .u16 fun formatVersion => ?_
  refine .cons (.blob _) fun subjectFabric => ?_
  refine .cons (.blob _) fun subjectLink => ?_
  refine .cons .u64 fun subjectGeneration => ?_
  refine .cons (.blob _) fun replacementFabric => ?_
  refine .cons (.blob _) fun replacementLink => ?_
  refine .cons .u64 fun replacementGeneration => ?_
  refine .cons .u64 fun attemptSeq => ?_
  refine .cons (.fixed 32) fun attemptId => ?_
  refine .cons AuthorityVector.spells fun authority => ?_
  refine .cons .u64 fun issuedTick => ?_
  refine .require fun hversion => ?_
  refine .lift fun subjectFabric' hsubjectFabric => ?_
  refine .lift fun subjectLink' hsubjectLink => ?_
  refine .lift fun replacementFabric' hreplacementFabric => ?_
  refine .lift fun replacementLink' hreplacementLink => ?_
  obtain rfl := eq_of_beq hversion
  obtain rfl := parse_spelled hsubjectFabric
  obtain rfl := parse_spelled hsubjectLink
  obtain rfl := parse_spelled hreplacementFabric
  obtain rfl := parse_spelled hreplacementLink
  exact .pure ⟨rfl, rfl, rfl, rfl, rfl, rfl, rfl, rfl, rfl, rfl, rfl, trivial⟩

end LinkFailover
