import LinkFailover.Spellings
import LinkFailover.System

/-!
# Encodings

Every value that goes into a journal or onto a wire has one encoding. Its decoder takes that
encoding back, whatever follows it, and takes no part of it. What else it takes differs from the
encoding of its value in nothing but the bytes of flags.

* `Coded`: the types of values that are written.
* `decode_undoes_encode`: a decoder takes back what was encoded, and nothing less.
* `encoding_canonical_iff`: when what a decoder takes is the encoding of its value.
-/

namespace LinkFailover

open Codec

/-- Only a replacement that is not there can be lost. -/
theorem FailoverDecision.normalised_of_absent {d : FailoverDecision}
    (h : d.hasReplacement = false → d.replacement = {} ∧ d.replacementGeneration = .zero) :
    d.normalised = d := by
  obtain ⟨id, kind, assertion, outcome, fabric, subject, generation, has, replacement,
    replacementGeneration⟩ := d
  cases has with
  | true => rfl
  | false =>
    obtain ⟨h₁, h₂⟩ := h rfl
    cases h₁
    cases h₂
    rfl

/-- The types of values that are written. -/
inductive Coded where
  | attemptRecord | authorityVector | authorityExpectation | fenceRecord | failoverDecision
  | failoverPolicy | topologySnapshot | failureReport | replacementReport | failoverRequest
  | rollbackRequest | revalidationRequest | applicationReport | verificationReport
  | applyDirective | idempotencyEntry
  deriving DecidableEq

namespace Coded

abbrev Value : Coded → Type
  | attemptRecord => AttemptRecord
  | authorityVector => AuthorityVector
  | authorityExpectation => AuthorityExpectation
  | fenceRecord => FenceRecord
  | failoverDecision => FailoverDecision
  | failoverPolicy => FailoverPolicy
  | topologySnapshot => TopologySnapshot
  | failureReport => FailureReport
  | replacementReport => ReplacementReport
  | failoverRequest => FailoverRequest
  | rollbackRequest => RollbackRequest
  | revalidationRequest => RevalidationRequest
  | applicationReport => ApplicationReport
  | verificationReport => VerificationReport
  | applyDirective => ApplyDirective
  | idempotencyEntry => IdempotencyEntry

def encode : (t : Coded) → t.Value → Writer → Writer
  | attemptRecord => AttemptRecord.encode
  | authorityVector => AuthorityVector.encode
  | authorityExpectation => AuthorityExpectation.encode
  | fenceRecord => FenceRecord.encode
  | failoverDecision => FailoverDecision.encode
  | failoverPolicy => FailoverPolicy.encode
  | topologySnapshot => TopologySnapshot.encode
  | failureReport => FailureReport.encode
  | replacementReport => ReplacementReport.encode
  | failoverRequest => FailoverRequest.encode
  | rollbackRequest => RollbackRequest.encode
  | revalidationRequest => RevalidationRequest.encode
  | applicationReport => ApplicationReport.encode
  | verificationReport => VerificationReport.encode
  | applyDirective => ApplyDirective.encode
  | idempotencyEntry => IdempotencyEntry.encode

def decode : (t : Coded) → Parser t.Value
  | attemptRecord => AttemptRecord.decode
  | authorityVector => AuthorityVector.decode
  | authorityExpectation => AuthorityExpectation.decode
  | fenceRecord => FenceRecord.decode
  | failoverDecision => FailoverDecision.decode
  | failoverPolicy => FailoverPolicy.decode
  | topologySnapshot => TopologySnapshot.decode
  | failureReport => FailureReport.decode
  | replacementReport => ReplacementReport.decode
  | failoverRequest => FailoverRequest.decode
  | rollbackRequest => RollbackRequest.decode
  | revalidationRequest => RevalidationRequest.decode
  | applicationReport => ApplicationReport.decode
  | verificationReport => VerificationReport.decode
  | applyDirective => ApplyDirective.decode
  | idempotencyEntry => IdempotencyEntry.decode

def layout : Coded → Layout
  | attemptRecord => AttemptRecord.layout
  | authorityVector => AuthorityVector.layout
  | authorityExpectation => AuthorityExpectation.layout
  | fenceRecord => FenceRecord.layout
  | failoverDecision => FailoverDecision.layout
  | failoverPolicy => FailoverPolicy.layout
  | topologySnapshot => TopologySnapshot.layout
  | failureReport => FailureReport.layout
  | replacementReport => ReplacementReport.layout
  | failoverRequest => FailoverRequest.layout
  | rollbackRequest => RollbackRequest.layout
  | revalidationRequest => RevalidationRequest.layout
  | applicationReport => ReportFields.layout
  | verificationReport => ReportFields.layout
  | applyDirective => ApplyDirective.layout
  | idempotencyEntry => IdempotencyEntry.layout

/-- An idempotency entry is decoded only as a payload of its own. -/
def whole (t : Coded) : Bool := t = idempotencyEntry

/-- A decoder as it is called, with the bytes that it leaves. -/
def read (t : Coded) (bs : Bytes) : Option (t.Value × Bytes) :=
  if t.whole then (t.decode.whole bs).map fun x => (x, []) else t.decode bs

/-- What a value must be for its encoding to be taken back: subjects are named where the decoder
takes no absent name, enumerations are declared, lists and texts are within their limits,
confidences within their scale, and what a flag calls absent is left out. -/
def WithinLimits : (t : Coded) → t.Value → Prop
  | authorityVector, _ | authorityExpectation, _ | fenceRecord, _ => True
  | attemptRecord, r => WireEnum.Declared r.revalidation
  | failoverPolicy, p => WireEnum.Declared p.agreement
  | failoverDecision, d =>
    d.Encodable ∧
      (d.hasReplacement = false → d.replacement = {} ∧ d.replacementGeneration = .zero)
  | topologySnapshot, t => t.links.length ≤ kMaxTopologyLinks
  | failureReport, r => Plausible r.state r.confidence
  | replacementReport, r => Plausible r.state r.confidence
  | failoverRequest, r =>
    r.subject.empty = false ∧ r.candidates.length ≤ kMaxPolicyCandidates.toNat
  | rollbackRequest, r => r.subject.empty = false ∧ r.rationale.length ≤ 256
  | revalidationRequest, r =>
    r.subject.empty = false ∧ r.rationale.length ≤ 256 ∧ WireEnum.Declared r.verdict
  | applicationReport, r => r.subject.empty = false ∧ r.detail.length ≤ 256
  | verificationReport, r => r.subject.empty = false ∧ r.detail.length ≤ 256
  | applyDirective, d => d.subject.empty = false ∧ d.replacement.empty = false
  | idempotencyEntry, e =>
    e.subject.empty = false ∧ (e.hasReplacement = true → e.replacement.empty = false) ∧
      (e.hasReplacement = false → e.replacement = {} ∧ e.replacementGeneration = .zero) ∧
      e.reasons.length ≤ kMaxReasons

theorem roundTrip {t : Coded} {x : t.Value} (h : t.WithinLimits x) :
    RoundTrip (t.encode x) t.decode x := by
  cases t with
  | attemptRecord => exact AttemptRecord.roundTrip x h
  | authorityVector => exact AuthorityVector.roundTrip x
  | authorityExpectation => exact AuthorityExpectation.roundTrip x
  | fenceRecord => exact FenceRecord.roundTrip x
  | failoverDecision =>
    have hback := FailoverDecision.roundTrip h.1
    rwa [FailoverDecision.normalised_of_absent h.2] at hback
  | failoverPolicy => exact FailoverPolicy.roundTrip x h
  | topologySnapshot => exact TopologySnapshot.roundTrip x h
  | failureReport => exact FailureReport.roundTrip x h
  | replacementReport => exact ReplacementReport.roundTrip x h
  | failoverRequest => exact FailoverRequest.roundTrip h.1 h.2
  | rollbackRequest => exact RollbackRequest.roundTrip h.1 h.2
  | revalidationRequest => exact RevalidationRequest.roundTrip h.1 h.2.1 h.2.2
  | applicationReport => exact ApplicationReport.roundTrip h.1 h.2
  | verificationReport => exact VerificationReport.roundTrip h.1 h.2
  | applyDirective => exact ApplyDirective.roundTrip h.1 h.2
  | idempotencyEntry => exact IdempotencyEntry.roundTrip_of h.1 h.2.1 h.2.2.1 h.2.2.2

theorem spells (t : Coded) : Spells t.decode t.layout t.encode := by
  cases t with
  | attemptRecord => exact AttemptRecord.spells
  | authorityVector => exact AuthorityVector.spells
  | authorityExpectation => exact AuthorityExpectation.spells
  | fenceRecord => exact FenceRecord.spells
  | failoverDecision => exact FailoverDecision.spells
  | failoverPolicy => exact FailoverPolicy.spells
  | topologySnapshot => exact TopologySnapshot.spells
  | failureReport => exact FailureReport.spells
  | replacementReport => exact ReplacementReport.spells
  | failoverRequest => exact FailoverRequest.spells
  | rollbackRequest => exact RollbackRequest.spells
  | revalidationRequest => exact RevalidationRequest.spells
  | applicationReport => exact ApplicationReport.spells
  | verificationReport => exact VerificationReport.spells
  | applyDirective => exact ApplyDirective.spells
  | idempotencyEntry => exact IdempotencyEntry.spells

theorem decode_of_read {t : Coded} {bs rest : Bytes} {x : t.Value}
    (h : t.read bs = some (x, rest)) : t.decode bs = some (x, rest) := by
  unfold read at h
  split at h
  · obtain ⟨y, hy, hx⟩ := Option.map_eq_some_iff.mp h
    cases hx
    unfold Parser.whole at hy
    split at hy
    · rename_i a hd
      cases hy
      exact hd
    · cases hy
  · exact h

end Coded

/-- A decoder takes back what was encoded and leaves what follows, and it takes no front of it. -/
theorem decode_undoes_encode {t : Coded} {x : t.Value} (h : t.WithinLimits x) :
    (t.encode x {}).ok = true ∧
      (∀ rest, (t.whole = true → rest = []) →
        t.read (Writer.run (t.encode x) ++ rest) = some (x, rest)) ∧
      ∀ front more, Writer.run (t.encode x) = front ++ more → more ≠ [] → t.read front = none := by
  have hback := Coded.roundTrip h
  refine ⟨hback.appends.ok, fun rest hrest => ?_, fun front more hrun hmore => ?_⟩
  · unfold Coded.read
    split
    · rename_i hwhole
      rw [hrest hwhole, List.append_nil, hback.whole]
      rfl
    · exact hback.reads rest
  · have hnone := t.spells.refuses_front hback hrun hmore
    cases hread : t.read front with
    | none => rfl
    | some y =>
      obtain ⟨y, rest⟩ := y
      rw [Coded.decode_of_read hread] at hnone
      cases hnone

/-- What an applier says about the primary link of the sample. -/
def Sample.acknowledgement : ApplicationReport where
  subject := primary
  subjectGeneration := ⟨1⟩
  attemptSeq := ⟨1⟩
  applierIncarnation := incarnation 9
  accepted := true
  detail := text "applied"

theorem decode_undoes_encode_sample :
    Coded.read .applicationReport (Writer.run Sample.acknowledgement.encode ++ [1, 2]) =
      some (Sample.acknowledgement, [1, 2]) :=
  (@decode_undoes_encode .applicationReport Sample.acknowledgement ⟨rfl, by decide⟩).2.1 [1, 2]
    fun h => by cases h

/-- A report that is more than certain is written and not taken back. -/
theorem confidence_not_undone : ∃ r : FailureReport, (r.encode {}).ok = true ∧
    Coded.read .failureReport (Writer.run r.encode) = none :=
  ⟨{ confidence := ⟨1001⟩ }, rfl, rfl⟩

/-- What a decoder takes is the encoding of its value exactly if no byte that it reads as a flag is
above one. -/
theorem encoding_canonical_iff {t : Coded} {bs rest : Bytes} {x : t.Value}
    (h : t.read bs = some (x, rest)) :
    bs = Writer.run (t.encode x) ++ rest ↔ ∀ b ∈ t.layout.flags bs, b.toNat ≤ 1 :=
  t.spells.canonical_iff (Coded.decode_of_read h)

/-- The encoding of the sample has one flag, and it is up. -/
theorem encoding_canonical_sample :
    (ReportFields.layout.flags (Writer.run Sample.acknowledgement.encode)).all
      (fun b => decide (b.toNat ≤ 1)) = true :=
  List.all_eq_true.mpr fun b hb => decide_eq_true <|
    (@encoding_canonical_iff .applicationReport _ [] Sample.acknowledgement rfl).mp
      (List.append_nil _).symm b hb

/-- The same report with another byte for the flag that is up. -/
theorem encoding_not_canonical : ∃ bs, bs ≠ Writer.run Sample.acknowledgement.encode ∧
    Coded.read .applicationReport bs = some (Sample.acknowledgement, []) :=
  ⟨(Writer.run Sample.acknowledgement.encode).set 84 2, by decide, rfl⟩

end LinkFailover
