import LinkFailover.Lib.Codec

/-!
# Outcomes, reason codes, statuses and results

The vocabulary of every answer of the runtime. Only `Outcome.ok` asserts that what the
caller asked for was established.
-/

namespace LinkFailover

open Codec

/-- In the order of their numbers on disk and on the wire. -/
inductive Outcome where
  | ok | refused | unknown | stale | conflict | invalid | unsupported | notFound
  | limitExceeded | corrupt | indeterminate | interrupted | exhausted | ioError | closed
  | unauthenticated
  deriving DecidableEq, Repr

instance : ClosedEnum Outcome where
  values :=
  [
    .ok, .refused, .unknown, .stale, .conflict, .invalid, .unsupported, .notFound,
    .limitExceeded, .corrupt, .indeterminate, .interrupted, .exhausted, .ioError, .closed,
    .unauthenticated
  ]
  complete a := by cases a <;> decide
  nodup := by decide
  small := by decide

/-- The explanation surface: stable numbers, part of every record that carries reasons. -/
inductive ReasonCode where
  | none | invalidArgument | malformedEncoding | unsupportedValue | limitExceeded
  | trailingBytes | checksumMismatch | unsupportedFormatVersion | corruptRecord
  | sequenceRegression | tornTailRecovered | nullField | unknownFabric | unknownLink
  | unknownGeneration | generationMismatch | policyGenerationMismatch
  | topologyGenerationMismatch | subjectGenerationMismatch | replacementGenerationMismatch
  | epochMismatch | incarnationMismatch | staleAuthority | sessionMismatch
  | sessionSequenceRegressed | sessionSequenceReplayed | coordinatorIncarnationMismatch
  | publisherIncarnationMismatch | workerIncarnationMismatch | preRestartAuthority
  | evidenceMissing | evidenceUnknown | evidenceStale | evidenceConflicted
  | evidenceLowConfidence | evidenceDigestMismatch | evidenceFromPriorIncarnation
  | subjectNotFailed | subjectUnknown | replacementNotEligible
  | replacementInsufficientCapacity | replacementNotAdjacencyAuthorized
  | replacementStateUnusable | replacementIsSubject | noEligibleReplacement
  | selectionIndeterminate | selectedHighestObjective | certifiedInfeasible | candidateSetEmpty
  | alreadyAuthoritative | attemptInFlight | attemptCompleted | attemptUnknown
  | duplicateCompletion | lateAcknowledgement | replayDetected | idempotentReplay
  | revalidationRequired | fenceRequired | fenced | attemptsExhausted | backendRejected
  | backendUnknown | effectUnverified | effectVerified | acknowledgementNotEffect
  | rollbackRequested | rollbackNotAuthorized | rollbackCompleted
  | restoreRequiresNewGeneration | originalLinkRestored | interruptedBeforeCommit
  | interruptedAfterCommit | interruptedAfterApply | epochAdvancedOnBoot
  | durableLineagePreserved | dynamicStateNotRestored | protocolVersionMismatch | frameTooLarge
  | unknownMessageType | stickyDecodeFailure | connectionClosed | socketError | notListening
  | shutdown | truncatedFrame | reservedBitsSet | policyRejected | policyConfidenceUnreachable
  | policyDisabled | internalError | checkedArithmeticOverflow | featureUnsupported
  | syntheticFixture
  deriving DecidableEq, Repr

instance : ClosedEnum ReasonCode where
  values :=
  [
    .none, .invalidArgument, .malformedEncoding, .unsupportedValue, .limitExceeded,
    .trailingBytes, .checksumMismatch, .unsupportedFormatVersion, .corruptRecord,
    .sequenceRegression, .tornTailRecovered, .nullField, .unknownFabric, .unknownLink,
    .unknownGeneration, .generationMismatch, .policyGenerationMismatch,
    .topologyGenerationMismatch, .subjectGenerationMismatch, .replacementGenerationMismatch,
    .epochMismatch, .incarnationMismatch, .staleAuthority, .sessionMismatch,
    .sessionSequenceRegressed, .sessionSequenceReplayed, .coordinatorIncarnationMismatch,
    .publisherIncarnationMismatch, .workerIncarnationMismatch, .preRestartAuthority,
    .evidenceMissing, .evidenceUnknown, .evidenceStale, .evidenceConflicted,
    .evidenceLowConfidence, .evidenceDigestMismatch, .evidenceFromPriorIncarnation,
    .subjectNotFailed, .subjectUnknown, .replacementNotEligible,
    .replacementInsufficientCapacity, .replacementNotAdjacencyAuthorized,
    .replacementStateUnusable, .replacementIsSubject, .noEligibleReplacement,
    .selectionIndeterminate, .selectedHighestObjective, .certifiedInfeasible,
    .candidateSetEmpty, .alreadyAuthoritative, .attemptInFlight, .attemptCompleted,
    .attemptUnknown, .duplicateCompletion, .lateAcknowledgement, .replayDetected,
    .idempotentReplay, .revalidationRequired, .fenceRequired, .fenced, .attemptsExhausted,
    .backendRejected, .backendUnknown, .effectUnverified, .effectVerified,
    .acknowledgementNotEffect, .rollbackRequested, .rollbackNotAuthorized, .rollbackCompleted,
    .restoreRequiresNewGeneration, .originalLinkRestored, .interruptedBeforeCommit,
    .interruptedAfterCommit, .interruptedAfterApply, .epochAdvancedOnBoot,
    .durableLineagePreserved, .dynamicStateNotRestored, .protocolVersionMismatch,
    .frameTooLarge, .unknownMessageType, .stickyDecodeFailure, .connectionClosed, .socketError,
    .notListening, .shutdown, .truncatedFrame, .reservedBitsSet, .policyRejected,
    .policyConfidenceUnreachable, .policyDisabled, .internalError, .checkedArithmeticOverflow,
    .featureUnsupported, .syntheticFixture
  ]
  complete a := by cases a <;> decide
  nodup := by decide
  small := by decide

/-! ## Reasons and statuses -/

def kMaxReasonDetail : Nat := 160
def kMaxReasons : Nat := 24

/-- A reason never holds a detail above the bound: the constructor cuts it off. -/
structure Reason where
  code : ReasonCode
  detail : Bytes
  bounded : detail.length ≤ kMaxReasonDetail

def Reason.of (code : ReasonCode) (detail : Bytes := []) : Reason :=
  ⟨code, detail.take kMaxReasonDetail, by rw [List.length_take]; exact Nat.min_le_left _ _⟩

@[ext] theorem Reason.ext {a b : Reason} (hc : a.code = b.code) (hd : a.detail = b.detail) :
    a = b := by
  cases a
  cases b
  cases hc
  cases hd
  rfl

instance : DecidableEq Reason := fun a b =>
  decidable_of_iff (a.code = b.code ∧ a.detail = b.detail)
    ⟨fun h => Reason.ext h.1 h.2, fun h => h ▸ ⟨rfl, rfl⟩⟩

/-- A detail within the bound is kept whole. -/
theorem Reason.of_detail (r : Reason) : Reason.of r.code r.detail = r :=
  Reason.ext rfl (List.take_of_length_le r.bounded)

structure Status where
  outcome : Outcome := .ok
  reasons : List Reason := []
  deriving DecidableEq

namespace Status

def success : Status := {}

/-- A status keeps its first `kMaxReasons` reasons. -/
def add (s : Status) (code : ReasonCode) (detail : Bytes := []) : Status :=
  if s.reasons.length < kMaxReasons then
    { s with reasons := s.reasons ++ [Reason.of code detail] }
  else s

def failure (outcome : Outcome) (code : ReasonCode) (detail : Bytes := []) : Status :=
  ({ outcome := outcome } : Status).add code detail

def isOk (s : Status) : Bool := s.outcome == .ok

end Status

/-- A result holds a value or the status that explains its absence. -/
abbrev Result (α : Type) := Except Status α

def fail {α : Type} (outcome : Outcome) (code : ReasonCode) (detail : String) : Result α :=
  .error (Status.failure outcome code (text detail))

/-- A failure with a second reason that names the offending value. -/
def failWith {α : Type} (outcome : Outcome) (code : ReasonCode) (detail : String)
    (extra : ReasonCode) (value : Bytes) : Result α :=
  .error ((Status.failure outcome code (text detail)).add extra value)

@[simp] theorem ok_bind {α β : Type} (a : α) (f : α → Result β) : (Except.ok a >>= f) = f a := rfl

theorem bind_ok {α β : Type} {x : Result α} {f : α → Result β} {b : β}
    (h : x >>= f = .ok b) : ∃ a, x = .ok a ∧ f a = .ok b := by
  cases x with
  | error e => cases h
  | ok a => exact ⟨a, rfl, h⟩

@[simp] theorem error_bind {α β : Type} (e : Status) (f : α → Result β) :
    ((Except.error e : Result α) >>= f) = Except.error e := rfl

def decimal (n : Nat) : Bytes := text (Nat.repr n)

end LinkFailover
