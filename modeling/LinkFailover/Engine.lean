import LinkFailover.Store
import LinkFailover.Lib.SortedMap

/-!
# The engine

One boot of the coordinator over one lineage store. Evidence and publishers live in memory
only: a restart forgets them. This module holds the state, what a decision is made of, the
commits behind a decision and the evaluation of the failure evidence. The operations follow
in the next modules.
-/

namespace LinkFailover

open Codec

/-! ## Options and state -/

structure EngineLimits where
  maxTrackedPublishers : Nat := 512
  maxEvidenceEntries : Nat := 8192
  maxAttempts : Nat := 4096
  maxFences : Nat := 8192
  maxIdempotency : Nat := 8192
  maxRetainedDecisions : Nat := 4096
  maxPendingDirectives : Nat := 256
  maxCandidatesPerRequest : Nat := kMaxPolicyCandidates.toNat

structure EngineOptions where
  fabric : FabricName := .none
  policy : FailoverPolicy := {}
  topology : TopologySnapshot := {}
  limits : EngineLimits := {}
  snapshotEveryRecords : UInt64 := 1024
  enableSnapshot : Bool := true
  repairTornTail : Bool := true

def EngineOptions.store (o : EngineOptions) : StoreOptions where
  fabric := o.fabric
  policy := o.policy
  topology := o.topology
  maxAttempts := o.limits.maxAttempts
  maxFences := o.limits.maxFences
  maxIdempotency := o.limits.maxIdempotency
  snapshotEveryRecords := o.snapshotEveryRecords
  enableSnapshot := o.enableSnapshot
  repairTornTail := o.repairTornTail

structure PublisherState where
  incarnation : Incarnation
  epoch : Epoch
  highestSeq : ObservationSeq := .zero
  firstSeenTick : UInt64 := 0
  accepted : UInt64 := 0
  rejected : UInt64 := 0

abbrev PublisherMap (α : Type) := SortedMap PublisherName α

/-- Evidence by link, then by publisher. -/
abbrev EvidenceTable (Report : Type) := SortedMap LinkKey (PublisherMap (Retained Report))

def nameLess {Tag : Type} (a b : StrongName Tag) : Bool := a < b

structure Engine where
  options : EngineOptions
  store : LineageStore
  incarnation : Incarnation
  epoch : Epoch
  tick : UInt64 := 0
  decisions : List FailoverDecision := []
  publishers : PublisherMap PublisherState := .empty
  failureEvidence : EvidenceTable FailureReport := .empty
  replacementEvidence : EvidenceTable ReplacementReport := .empty
  lastObservationSeq : SortedMap LinkKey (PublisherMap ObservationSeq) := .empty
  evidenceEntries : Nat := 0
  closed : Bool := false
  storeFailed : Bool := false

namespace Engine

def state (e : Engine) : DurableState := e.store.state

def withStore (e : Engine) (s : LineageStore) : Engine := { e with store := s }

/-- The store after a write, and a failure to write remembered for ever. -/
def withWrite (e : Engine) (written : LineageStore × Status) : Engine :=
  { e with store := written.1, storeFailed := e.storeFailed || !written.2.isOk }

def advance (e : Engine) : Engine := { e with tick := e.tick + 1 }

@[simp] theorem withStore_store (e : Engine) (s : LineageStore) : (e.withStore s).store = s := rfl

@[simp] theorem withWrite_store (e : Engine) (w : LineageStore × Status) :
    (e.withWrite w).store = w.1 := rfl

@[simp] theorem withWrite_epoch (e : Engine) (w : LineageStore × Status) :
    (e.withWrite w).epoch = e.epoch := rfl

@[simp] theorem withWrite_incarnation (e : Engine) (w : LineageStore × Status) :
    (e.withWrite w).incarnation = e.incarnation := rfl

@[simp] theorem withWrite_options (e : Engine) (w : LineageStore × Status) :
    (e.withWrite w).options = e.options := rfl

@[simp] theorem advance_store (e : Engine) : e.advance.store = e.store := rfl

@[simp] theorem advance_state (e : Engine) : e.advance.state = e.state := rfl

/-! ## What a decision is made of -/

def currentAuthority (e : Engine) (subject : LinkKey) (generation : LinkGeneration) :
    AuthorityVector where
  fabric := e.options.fabric
  subject := subject
  subjectGeneration := generation
  topologyGeneration := e.state.topology.generation
  topologyDigest := e.state.topology.digest
  policyGeneration := e.state.policy.generation
  policyDigest := e.state.policy.digest
  epoch := e.epoch
  coordinator := e.incarnation

def baseDecision (e : Engine) (subject : LinkKey) (generation : LinkGeneration) :
    FailoverDecision where
  fabric := e.options.fabric
  subject := subject
  subjectGeneration := generation
  epoch := e.epoch
  coordinator := e.incarnation

/-- The decision that an idempotency entry stands for. -/
def replayDecision (e : Engine) (entry : IdempotencyEntry) : FailoverDecision :=
  { e.baseDecision entry.subject entry.subjectGeneration with
    kind := entry.kind
    assertion := entry.assertion
    outcome := entry.outcome
    decisionId := entry.decisionId
    hasReplacement := entry.hasReplacement
    replacement := entry.replacement
    replacementGeneration := entry.replacementGeneration
    attemptSeq := entry.attemptSeq
    lineageSeq := entry.seq
    durable := true
    idempotentReplay := true
    reasons := entry.reasons ++
      [Reason.of .idempotentReplay (text "the original decision is returned; no new authority")] }

/-- Keeps the newest decisions. -/
def rememberDecision (e : Engine) (d : FailoverDecision) : Engine :=
  { e with
    decisions := (e.decisions ++ [d]).drop
      ((e.decisions ++ [d]).length - e.options.limits.maxRetainedDecisions) }

@[simp] theorem rememberDecision_store (e : Engine) (d : FailoverDecision) :
    (e.rememberDecision d).store = e.store := rfl

/-! ## Commits -/

/-- Records a decision. The answer to the caller says whether that worked. -/
def commitDecision (e : Engine) (d : FailoverDecision) : Engine × FailoverDecision :=
  let written := e.store.commit (.decision d) fun _ s => s
  if !written.2.isOk then
    (e.withWrite written,
      { d with durable := false }.because .internalError "decision could not be recorded")
  else
    let recorded := { d with lineageSeq := written.1.state.lastSeq, durable := true }
    (e.withWrite written, { recorded with decisionId := recorded.computeId })

def idempotencyEntry (d : FailoverDecision) (key : Digest) : IdempotencyEntry where
  key := key
  decisionId := d.decisionId
  kind := d.kind
  assertion := d.assertion
  outcome := d.outcome
  subject := d.subject
  subjectGeneration := d.subjectGeneration
  hasReplacement := d.hasReplacement
  replacement := d.replacement
  replacementGeneration := d.replacementGeneration
  attemptSeq := d.attemptSeq
  seq := d.lineageSeq
  reasons := d.reasons

/-- An entry above the bound of its decoder is left out. -/
def commitIdempotency (e : Engine) (d : FailoverDecision) (key : Digest) : Engine :=
  if key.isZero || !d.durable then e
  else
    let entry := idempotencyEntry d key
    if (Writer.run entry.encode).length > kMaxIdempotencyDecisionBytes then e
    else e.withWrite (e.store.commit (.idempotency entry) fun _ s =>
      s.noteIdempotency e.store.options entry)

def maybeCheckpoint (e : Engine) : Engine :=
  if !e.options.enableSnapshot || e.options.snapshotEveryRecords == 0 then e
  else if e.state.recordCount == 0 then e
  else if e.store.recordsSinceSnapshot < e.options.snapshotEveryRecords then e
  else
    match e.store.checkpoint with
    | (s, .ok _) => e.withStore s
    | (s, .error _) => { e.withStore s with storeFailed := true }

def createdAt (r : AttemptRecord) (seq : LineageSeq) : AttemptRecord :=
  { r with createSeq := seq, updateSeq := seq }

def updatedAt (r : AttemptRecord) (seq : LineageSeq) : AttemptRecord := { r with updateSeq := seq }

/-- Commits an attempt record. The table receives the record stamped with its position. -/
def writeAttempt (e : Engine) (w : AttemptWrite) (r : AttemptRecord)
    (stamp : AttemptRecord → LineageSeq → AttemptRecord) : LineageStore × Status :=
  e.store.commit (.attempt w r) fun seq d => d.noteAttempt e.store.options (stamp r seq)

def createAttempt (e : Engine) (r : AttemptRecord) : LineageStore × Status :=
  e.writeAttempt .create r createdAt

def updateAttempt (e : Engine) (w : AttemptWrite) (r : AttemptRecord) : LineageStore × Status :=
  e.writeAttempt w r updatedAt

def writeFence (e : Engine) (f : FenceRecord) : LineageStore × Status :=
  e.store.commit (.fence f) fun seq d => d.noteFence e.store.options { f with seq := seq }

end Engine

/-! ## Failure evidence -/

/-- How fresh a receipt is, and its age. Only receipts of this coordinator can be current. -/
def classifyReceipt (receiptCoordinator : Incarnation) (receiptTick : UInt64)
    (current : Incarnation) (now maxAge : UInt64) : FreshnessClass × UInt64 :=
  if receiptCoordinator ≠ current then (.priorIncarnation, 0)
  else if receiptTick > now then (.future, 0)
  else
    let age := now - receiptTick
    (if age > maxAge then .expired else .current, age)

theorem classifyReceipt_current {rc c : Incarnation} {rt now maxAge : UInt64}
    (h : (classifyReceipt rc rt c now maxAge).1 = .current) :
    rc = c ∧ rt ≤ now ∧ now - rt ≤ maxAge := by
  unfold classifyReceipt at h
  split at h
  · cases h
  rename_i hc
  split at h
  · cases h
  rename_i ht
  dsimp only at h
  split at h
  · cases h
  rename_i ha
  exact ⟨not_not.mp hc, UInt64.not_lt.mp ht, UInt64.not_lt.mp ha⟩

structure FailureVerdict where
  established : Bool := false
  outcome : Outcome := .unknown
  reason : ReasonCode := .evidenceMissing
  detail : Bytes := []
  publisher : PublisherName := .none
  publisherIncarnation : Incarnation := .zero 16
  publisherSeq : ObservationSeq := .zero
  evidenceDigest : Digest := .zero 32
  extra : List Reason := []
  bounded : extra.length ≤ 4 := by decide

/-- What one retained observation of the subject counts as. -/
inductive FailureFinding where
  | stale | generation | lowConfidence | unknown
  | qualified (failed : Bool) (age : UInt64)
  deriving DecidableEq

/-- The running result of a walk over the observations of one link. -/
structure FailureTally where
  qualified : Nat := 0
  failures : Nat := 0
  sawStale : Bool := false
  sawLowConfidence : Bool := false
  sawUnknown : Bool := false
  sawGeneration : Bool := false
  best : Option (RetainedFailureEvidence × UInt64) := none

/-- The more confident of two observations, then the younger one, then the one of the smaller
publisher. -/
def preferred {Report : Type} (stamp : Report → EvidenceStamp) (confidence : Report → Confidence)
    (publisher : PublisherName) (candidate : Retained Report) (age : UInt64)
    (best : Retained Report) (bestAge : UInt64) : Bool :=
  (confidence candidate.report).value > (confidence best.report).value ||
    ((confidence candidate.report).value == (confidence best.report).value &&
      (age < bestAge || (age == bestAge && publisher < (stamp best.report).publisher)))

namespace FailureTally

def add (t : FailureTally) (publisher : PublisherName) (retained : RetainedFailureEvidence) :
    FailureFinding → FailureTally
  | .stale => { t with sawStale := true }
  | .generation => { t with sawGeneration := true }
  | .lowConfidence => { t with sawLowConfidence := true }
  | .unknown => { t with sawUnknown := true }
  | .qualified false _ => { t with qualified := t.qualified + 1 }
  | .qualified true age =>
    { t with
      qualified := t.qualified + 1
      failures := t.failures + 1
      best :=
        match t.best with
        | none => some (retained, age)
        | some (best, bestAge) =>
          if preferred (·.stamp) (·.confidence) publisher retained age best bestAge then
            some (retained, age)
          else t.best }

/-- Whether the observations agree on a failure. -/
def agrees (t : FailureTally) : AgreementRule → Bool
  | .unanimous => t.failures = t.qualified
  | .majorityOfFreshQualified | .undeclared _ => t.failures * 2 > t.qualified

/-- Whether they contradict each other without an agreement on a failure. -/
def conflicts (t : FailureTally) : AgreementRule → Bool
  | .unanimous => t.failures > 0
  | .majorityOfFreshQualified | .undeclared _ => t.failures * 2 = t.qualified

/-- Why no observation counts: each kind seen, in a fixed order. The first one is the reason
of the verdict. -/
def unusable (t : FailureTally) : List (ReasonCode × String × String) :=
  (if t.sawStale then
    [(.evidenceStale, "every published failure observation is stale",
      "outside the policy window")] else []) ++
  (if t.sawLowConfidence then
    [(.evidenceLowConfidence, "no observation reaches the policy confidence",
      "below policy threshold")] else []) ++
  (if t.sawUnknown then
    [(.evidenceUnknown, "publishers reported an unknown state",
      "publisher state is unknown")] else []) ++
  (if t.sawGeneration then
    [(.generationMismatch, "observations bind a different link or topology generation",
      "generation mismatch")] else [])

theorem unusable_length (t : FailureTally) : t.unusable.length ≤ 4 := by
  unfold unusable
  cases t.sawStale <;> cases t.sawLowConfidence <;> cases t.sawUnknown <;>
    cases t.sawGeneration <;> decide

def verdict (t : FailureTally) (rule : AgreementRule) : FailureVerdict :=
  if t.qualified = 0 then
    { outcome := .unknown
      reason := (t.unusable.head?.map (·.1)).getD .evidenceMissing
      detail := text ((t.unusable.head?.map (·.2.1)).getD
        "no usable failure observation is current")
      extra := t.unusable.map fun u => Reason.of u.1 (text u.2.2)
      bounded := by rw [List.length_map]; exact t.unusable_length }
  else
    match t.agrees rule, t.best with
    | true, some (best, _) =>
      { established := true
        outcome := .ok
        reason := .selectedHighestObjective
        detail := text "failure is established under the current policy"
        publisher := best.report.stamp.publisher
        publisherIncarnation := best.report.stamp.publisherIncarnation
        publisherSeq := best.report.stamp.observationSeq
        evidenceDigest := best.digest }
    | agreed, _ =>
      if !agreed && t.conflicts rule then
        { outcome := .indeterminate
          reason := .evidenceConflicted
          detail := text "fresh qualified observations contradict each other" }
      else
        { outcome := .refused
          reason := .subjectNotFailed
          detail := text "current qualified observations report the subject as healthy" }

end FailureTally

namespace Engine

/-- Whether a stamp names the incarnation under which its publisher is registered. -/
def publisherCurrent (e : Engine) (publisher : PublisherName) (stamp : EvidenceStamp) : Bool :=
  match e.publishers.find? publisher with
  | none => false
  | some p => p.incarnation = stamp.publisherIncarnation

def classifyRetained {Report : Type} (e : Engine) (retained : Retained Report) :
    FreshnessClass × UInt64 :=
  classifyReceipt retained.receiptCoordinator retained.receiptTick e.incarnation e.tick
    e.state.policy.evidenceMaxAgeTicks

def failureFinding (e : Engine) (generation : LinkGeneration) (publisher : PublisherName)
    (retained : RetainedFailureEvidence) : FailureFinding :=
  let policy := e.state.policy
  if !e.publisherCurrent publisher retained.report.stamp then .stale
  else if retained.report.linkGeneration ≠ generation ∨
      retained.report.topologyGeneration ≠ e.state.topology.generation then .generation
  else
    let (freshness, age) := e.classifyRetained retained
    if freshness ≠ .current then .stale
    else if retained.report.confidence.value < policy.minFailureConfidence.value then
      .lowConfidence
    else if retained.report.state = .unknown then .unknown
    else
      .qualified (observationStateIsFailure retained.report.state policy.treatDegradedAsFailed)
        age

def failureBucket (e : Engine) (subject : LinkKey) : List (PublisherName × RetainedFailureEvidence) :=
  ((e.failureEvidence.find? subject).map (·.entries)).getD []

def failureTally (e : Engine) (subject : LinkKey) (generation : LinkGeneration) : FailureTally :=
  (e.failureBucket subject).foldl
    (fun t entry => t.add entry.1 entry.2 (e.failureFinding generation entry.1 entry.2)) {}

/-- Whether the failure of a generation of a link is established, under the definitions in
force. -/
def evaluateFailure (e : Engine) (subject : LinkKey) (generation : LinkGeneration) :
    FailureVerdict :=
  if (e.failureBucket subject).isEmpty then
    { outcome := .unknown
      reason := .evidenceMissing
      detail := text "no failure observation has been published for this link" }
  else (e.failureTally subject generation).verdict e.state.policy.agreement

end Engine

end LinkFailover
