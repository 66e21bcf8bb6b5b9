import LinkFailover.Failover

/-!
# The other operations

Definitions, the life of an attempt after its grant, the boundary to the applier, and the
beginning and the end of a boot.
-/

namespace LinkFailover

open Codec

namespace Engine

/-! ## Definitions -/

def abortedAttempt (r : AttemptRecord) (detail : String) : AttemptRecord :=
  { r with phase := .aborted, reasons := r.reasons.push (Reason.of .fenced (text detail)) }

def fenceOf (e : Engine) (kind : FenceKind) (r : AttemptRecord) (detail : BoundedBytes 512) :
    FenceRecord where
  kind := kind
  subject := r.subject
  subjectGeneration := r.subjectGeneration
  attemptSeq := r.attemptSeq
  epoch := e.epoch
  coordinator := e.incarnation
  detail := detail

/-- Why the authorities of a definition that is no longer in force are fenced. -/
structure FenceCause where
  kind : FenceKind
  detail : String
  bounded : (text detail).length ≤ 512

/-- Aborts and fences the attempts of a list that hold authority. The list was taken before the
first write. -/
def fenceAuthorities (cause : FenceCause) : List AttemptRecord → Engine → Engine × Status
  | [], e => (e, Status.success)
  | r :: rs, e =>
    if !attemptPhaseHoldsAuthority r.phase then fenceAuthorities cause rs e
    else
      let aborted := e.updateAttempt .update (abortedAttempt r cause.detail)
      let e := e.withWrite aborted
      if !aborted.2.isOk then (e, aborted.2)
      else
        let fenced := e.writeFence (e.fenceOf cause.kind r ⟨text cause.detail, cause.bounded⟩)
        let e := e.withWrite fenced
        if !fenced.2.isOk then (e, fenced.2) else fenceAuthorities cause rs e

def fenceActiveAuthorities (e : Engine) (cause : FenceCause) : Engine × Status :=
  fenceAuthorities cause e.state.attempts e

/-- A new definition in place of the current one: an earlier generation is stale, the same
generation must have the same content. -/
def setDefinition {Tag : Type} (e : Engine) (new current : StrongUint Tag UInt64)
    (sameContent : Bool) (code : ReasonCode) (regresses conflicts : String)
    (commit : Engine → LineageStore × Status) (cause : FenceCause) : Engine × Status :=
  if new < current then
    (e, (Status.failure .stale code (text regresses)).add .sequenceRegression
      (decimal new.toNat))
  else if new = current then
    if sameContent then (e, Status.success)
    else (e, Status.failure .conflict code (text conflicts))
  else
    let committed := commit e
    let e := e.withWrite committed
    if !committed.2.isOk then (e, committed.2) else e.fenceActiveAuthorities cause

def shuttingDown : Status := Status.failure .closed .shutdown (text "engine is shutting down")

def policyChanged : FenceCause :=
  ⟨.policyChanged, "policy generation changed", by simp [text]⟩

def topologyChanged : FenceCause :=
  ⟨.topologyChanged, "topology generation changed", by simp [text]⟩

def setPolicy (e : Engine) (policy : FailoverPolicy) : Engine × Status :=
  if e.closed then (e, shuttingDown)
  else if !policy.validate.isOk then (e, policy.validate)
  else
    e.setDefinition policy.generation e.state.policy.generation
      (policy.digest = e.state.policy.digest) .policyGenerationMismatch
      "policy generation regresses" "same policy generation with different content"
      (fun e => e.store.commit (.policy policy) fun _ d => { d with policy := policy })
      policyChanged

def setTopology (e : Engine) (topology : TopologySnapshot) : Engine × Status :=
  let candidate := topology.canonicalise
  if e.closed then (e, shuttingDown)
  else if !candidate.validate.isOk then (e, candidate.validate)
  else
    e.setDefinition candidate.generation e.state.topology.generation
      (candidate.digest = e.state.topology.digest) .topologyGenerationMismatch
      "topology generation regresses" "same topology generation with different content"
      (fun e => e.store.commit (.topology candidate) fun _ d => { d with topology := candidate })
      topologyChanged

/-! ## Application and verification -/

/-- A decision about an attempt that is there. -/
def attemptDecision (e : Engine) (found : AttemptRecord) (kind : DecisionKind)
    (assertion : Assertion) : FailoverDecision :=
  { e.baseDecision found.subject found.subjectGeneration with
    attemptSeq := found.attemptSeq
    attemptId := found.attemptId
    authority := found.authority
    hasReplacement := !found.replacement.empty
    replacement := found.replacement
    replacementGeneration := found.replacementGeneration
    kind := kind
    assertion := assertion }

/-- The record of an attempt in its next phase, with the reason for it. -/
def movedTo (r : AttemptRecord) (phase : AttemptPhase) (code : ReasonCode) (detail : Bytes) :
    AttemptRecord :=
  { r with phase := phase, reasons := r.reasons.push (Reason.of code detail) }

/-- Writes a decision and answers with it, without an idempotency entry or a checkpoint. -/
def answer (e : Engine) (d : FailoverDecision) : Engine × Result FailoverDecision :=
  let committed := e.commitDecision d
  (committed.1.rememberDecision committed.2, .ok committed.2)

def answerAndCheckpoint (e : Engine) (d : FailoverDecision) : Engine × Result FailoverDecision :=
  let committed := e.commitDecision d
  (committed.1.maybeCheckpoint.rememberDecision committed.2, .ok committed.2)

def unknownAttempt {α : Type} (e : Engine) : Engine × Result α :=
  (e, fail .notFound .attemptUnknown "no attempt with that identity exists")

/-- What an application report makes of an attempt, or why it changes nothing. -/
def applicationConflict : AttemptPhase → Option (ReasonCode × String)
  | .authorized => none
  | .evaluated => some (.attemptUnknown, "the attempt never became authoritative")
  | .acknowledged | .verified =>
    some (.duplicateCompletion, "an application report was already accepted")
  | .committed | .rolledBack => some (.lateAcknowledgement, "the attempt is already terminal")
  | _ => some (.attemptCompleted, "the attempt is already terminal")

def acceptedAttempt (found : AttemptRecord) (applier : Incarnation) (phase : AttemptPhase) :
    AttemptRecord :=
  { movedTo found phase .acknowledgementNotEffect
      (text "an acknowledgement is not a verified effect") with
    applierIncarnation := applier }

/-- The record type under which an attempt in its new phase is written. -/
def completionOrUpdate (phase : AttemptPhase) : AttemptWrite :=
  if phase = .committed then .completion else .update

def applyAttempt (e : Engine) (found : AttemptRecord) (report : ApplicationReport) :
    AttemptRecord × FailoverDecision :=
  let d := e.attemptDecision found .acknowledge .acknowledgement
  if !report.accepted then
    (movedTo found .aborted .backendRejected report.detail,
      { d with outcome := .refused }.because .backendRejected
        "the applier refused the directive")
  else
    (acceptedAttempt found report.applierIncarnation
        (if e.state.policy.requireVerifiedEffect then .acknowledged else .committed),
      { d with outcome := .ok }.because .acknowledgementNotEffect
        "acceptance recorded; the effect is not yet verified")

def recordFound (e : Engine) (found : AttemptRecord) (report : ApplicationReport) :
    Engine × Result FailoverDecision :=
  if found.subjectGeneration ≠ report.subjectGeneration then
    (e, fail .stale .subjectGenerationMismatch "the report binds a different subject generation")
  else if found.attemptId ≠ report.attemptId then
    (e, fail .conflict .attemptUnknown
      "the report does not carry the attempt identity it claims")
  else if report.applierIncarnation.isZero then
    (e, fail .invalid .workerIncarnationMismatch
      "an application report must name the applier incarnation")
  else
    match applicationConflict found.phase with
    | some (code, detail) =>
      e.settleUndurable
        ({ e.attemptDecision found .acknowledge .acknowledgement with
            outcome := .conflict }.because code detail)
    | none =>
      let updated := (e.applyAttempt found report).1
      e.afterWrite (e.updateAttempt (completionOrUpdate updated.phase) updated)
        "the application report could not be recorded" fun e' =>
        e'.answerAndCheckpoint (e.applyAttempt found report).2

def recordApplication (e : Engine) (report : ApplicationReport) :
    Engine × Result FailoverDecision :=
  match e.unavailable with
  | some s => (e, .error s)
  | none =>
    let e := e.advance
    match e.state.findAttempt report.subject report.attemptSeq with
    | none => e.unknownAttempt
    | some found => e.recordFound found report

/-- The effect was observed: the attempt is verified and then committed. -/
def recordEffect (e : Engine) (found : AttemptRecord) (report : VerificationReport) :
    Engine × Result FailoverDecision :=
  let verified := movedTo found .verified .effectVerified report.detail
  let d := e.attemptDecision found .verify .verifiedEffect
  e.afterWrite (e.updateAttempt .update verified)
    "the verification report could not be recorded" fun e =>
    e.afterWrite (e.updateAttempt .completion { verified with phase := .committed })
      "the completion record could not be written" fun e =>
      e.answerAndCheckpoint ({ d with outcome := .ok }.because .effectVerified
        "the replacement effect was independently observed")

/-- The effect could not be observed. -/
def recordNoEffect (e : Engine) (found : AttemptRecord) (report : VerificationReport) :
    Engine × Result FailoverDecision :=
  let d := e.attemptDecision found .verify .acknowledgement
  e.afterWrite
    (e.updateAttempt .update (movedTo found .indeterminate .effectUnverified report.detail))
    "the verification report could not be recorded" fun e =>
    e.answer ({ d with outcome := .indeterminate }.because .effectUnverified
      "the effect could not be observed")

/-- Unlike an application report this one is not checked for the generation: the attempt id
stands for it. -/
def verifyFound (e : Engine) (found : AttemptRecord) (report : VerificationReport) :
    Engine × Result FailoverDecision :=
  if found.attemptId ≠ report.attemptId then
    (e, fail .conflict .attemptUnknown
      "the report does not carry the attempt identity it claims")
  else if found.phase = .committed ∨ found.phase = .verified then
    e.settleUndurable
      ({ e.attemptDecision found .verify .verifiedEffect with outcome := .conflict }.because
        .duplicateCompletion "the effect was already verified")
  else if found.phase ≠ .acknowledged then
    e.settleUndurable
      ({ e.attemptDecision found .verify .observation with outcome := .conflict }.because
        .lateAcknowledgement "verification requires an acknowledged attempt")
  else if !report.effectObserved then e.recordNoEffect found report
  else e.recordEffect found report

def recordVerification (e : Engine) (report : VerificationReport) :
    Engine × Result FailoverDecision :=
  match e.unavailable with
  | some s => (e, .error s)
  | none =>
    let e := e.advance
    match e.state.findAttempt report.subject report.attemptSeq with
    | none => e.unknownAttempt
    | some found => e.verifyFound found report

/-! ## Rollback -/

def rollbackDetail : BoundedBytes 512 :=
  ⟨text "failover authority revoked by rollback", by simp [text]⟩

def rollbackHolder (e : Engine) (found : AttemptRecord) (req : RollbackRequest) :
    Engine × Result FailoverDecision :=
  let d := { e.attemptDecision found .rollback .authorization with outcome := .ok }
  e.afterWrite
    (e.updateAttempt .rollback (movedTo found .rolledBack .rollbackRequested req.rationale))
    "the rollback could not be recorded" fun e =>
    e.afterWrite (e.writeFence (e.fenceOf .rollbackRevoked found rollbackDetail))
      "the rollback fence could not be written" fun e =>
      let committed := e.commitDecision
        ((d.because .rollbackCompleted "failover authority was revoked").because
          .restoreRequiresNewGeneration
          "restoring the original link is a new generation-bound transition, not a resurrection")
      ((committed.1.commitIdempotency committed.2 req.idempotencyKey).rememberDecision
        committed.2, .ok committed.2)

def rollbackFound (e : Engine) (found : AttemptRecord) (req : RollbackRequest) :
    Engine × Result FailoverDecision :=
  let mismatches :=
    compareAuthority req.expected (e.currentAuthority req.subject found.subjectGeneration)
  if !mismatches.isEmpty then
    e.settleUndurable (staleDecision (e.attemptDecision found .rollback .observation)
      "the rollback binds authority that is no longer current" mismatches)
  else if found.phase = .rolledBack then
    e.settleUndurable
      ({ e.attemptDecision found .rollback .authorization with
          outcome := .ok
          idempotentReplay := true }.because .idempotentReplay
        "the attempt was already rolled back")
  else if !attemptPhaseHoldsAuthority found.phase then
    e.settleUndurable
      ({ e.attemptDecision found .rollback .observation with outcome := .conflict }.because
        .rollbackNotAuthorized "the attempt does not hold authority to revert")
  else e.rollbackHolder found req

/-- A rollback does not look at whether the store has failed. -/
def requestRollback (e : Engine) (req : RollbackRequest) : Engine × Result FailoverDecision :=
  if e.closed then (e, .error shuttingDown)
  else
    let e := e.advance
    match e.state.findIdempotency req.idempotencyKey with
    | some entry => (e, .ok (e.replayDecision entry))
    | none =>
      match e.state.findAttempt req.subject req.attemptSeq with
      | none => e.unknownAttempt
      | some found => e.rollbackFound found req

/-! ## Revalidation -/

/-- The authority of an attempt, bound anew to the coordinator and the definitions in force. -/
def reboundAuthority (e : Engine) (a : AuthorityVector) : AuthorityVector :=
  { a with
    policyGeneration := e.state.policy.generation
    policyDigest := e.state.policy.digest
    topologyGeneration := e.state.topology.generation
    topologyDigest := e.state.topology.digest
    epoch := e.epoch
    coordinator := e.incarnation }

/-- The record of an interrupted attempt after a verdict on it. -/
def revalidatedAttempt (e : Engine) (found : AttemptRecord) (verdict : RevalidationVerdict) :
    AttemptRecord :=
  let r := { found with revalidated := true, revalidation := verdict }
  match verdict with
  | .notApplied =>
    movedTo r .aborted .fenced (text "revalidation proved that no effect was applied")
  | .applied =>
    { movedTo r .committed .effectVerified
        (text "revalidation observed the replacement in effect") with
      authority := e.reboundAuthority found.authority
      coordinator := e.incarnation }
  | .unknown | .undeclared _ =>
    movedTo r .interrupted .backendUnknown
      (text "revalidation could not determine whether an effect exists")

/-- The decision of a revalidation, up to the two reasons that every verdict ends with. -/
def verdictDecision (e : Engine) (found : AttemptRecord) (verdict : RevalidationVerdict) :
    FailoverDecision :=
  let d := e.attemptDecision found .revalidate .observation
  match verdict with
  | .notApplied =>
    { d with outcome := .ok }.because .fenced "the interrupted authority is released"
  | .applied =>
    let d :=
      { d with
        outcome := .ok
        assertion := .authorization
        authority := e.reboundAuthority found.authority }.because .effectVerified
        "the replacement is in effect and is now bound to the current epoch"
    let d :=
      if found.authority.policyGeneration ≠ e.state.policy.generation then
        d.because .policyGenerationMismatch
          "the authority is re-bound under the current policy generation"
      else d
    if found.authority.topologyGeneration ≠ e.state.topology.generation then
      d.because .topologyGenerationMismatch
        "the authority is re-bound under the current topology generation"
    else d
  | .unknown | .undeclared _ =>
    { d with outcome := .indeterminate }.because .backendUnknown
      "the interrupted attempt remains indeterminate and blocks new authority"

def revalidationDecision (e : Engine) (found : AttemptRecord) (verdict : RevalidationVerdict) :
    FailoverDecision :=
  ((e.verdictDecision found verdict).because .durableLineagePreserved
    "the pre-restart record is retained as history").because .dynamicStateNotRestored
    "no pre-restart dynamic authority was restored"

/-- The answer to a revalidation that was settled before. -/
def settledDecision (e : Engine) (found : AttemptRecord) : FailoverDecision :=
  let d := e.attemptDecision found .revalidate .observation
  let d : FailoverDecision :=
    match found.revalidation with
    | .notApplied => { d with outcome := .ok }
    | .applied => { d with outcome := .ok, assertion := .authorization }
    | .unknown | .undeclared _ => { d with outcome := .indeterminate }
  { d with idempotentReplay := true }.because .idempotentReplay
    "the attempt was already revalidated"

def resolveFound (e : Engine) (found : AttemptRecord) (req : RevalidationRequest) :
    Engine × Result FailoverDecision :=
  if found.revalidated then e.settleUndurable (e.settledDecision found)
  else if found.phase ≠ .interrupted then
    e.settleUndurable
      ({ e.attemptDecision found .revalidate .observation with outcome := .conflict }.because
        .attemptCompleted "the attempt is not interrupted and was never revalidated")
  else
    let updated := e.revalidatedAttempt found req.verdict
    e.afterWrite (e.updateAttempt (completionOrUpdate updated.phase) updated)
      "the revalidation could not be recorded" fun e' =>
      e'.answer (e.revalidationDecision found req.verdict)

/-- A revalidation does not look at whether the store has failed. -/
def resolveInterrupted (e : Engine) (req : RevalidationRequest) :
    Engine × Result FailoverDecision :=
  if e.closed then (e, .error shuttingDown)
  else if req.observerIncarnation.isZero then
    (e, fail .invalid .workerIncarnationMismatch
      "revalidation must name the observing incarnation")
  else if req.observerEpoch ≠ e.epoch then
    (e, fail .stale .epochMismatch
      "revalidation was produced for a different coordinator epoch")
  else
    let e := e.advance
    match e.state.findAttempt req.subject req.attemptSeq with
    | none => e.unknownAttempt
    | some found => e.resolveFound found req

/-! ## The boundary to the applier -/

end Engine

structure ApplyDirective where
  subject : LinkKey := {}
  subjectGeneration : LinkGeneration := .zero
  replacement : LinkKey := {}
  replacementGeneration : LinkGeneration := .zero
  attemptSeq : AttemptSeq := .zero
  attemptId : Digest := .zero 32
  authority : AuthorityVector := {}
  issuedTick : UInt64 := 0

namespace Engine

def isPending (r : AttemptRecord) : Bool := r.phase = .authorized && !r.replacement.empty

def directiveOf (e : Engine) (r : AttemptRecord) : ApplyDirective where
  subject := r.subject
  subjectGeneration := r.subjectGeneration
  replacement := r.replacement
  replacementGeneration := r.replacementGeneration
  attemptSeq := r.attemptSeq
  attemptId := r.attemptId
  authority := r.authority
  issuedTick := e.tick

def pendingDirectives (e : Engine) (maxCount : Nat) : List ApplyDirective :=
  if e.closed then []
  else
    ((BoundedTable.sortBy attemptLess (e.state.attempts.filter isPending)).take
      (min maxCount e.options.limits.maxPendingDirectives)).map e.directiveOf

def takeDirective (e : Engine) (subject : LinkKey) (generation : LinkGeneration)
    (seq : AttemptSeq) : Option ApplyDirective :=
  if e.closed then none
  else
    match e.state.findAttempt subject seq with
    | none => none
    | some r =>
      if r.subjectGeneration ≠ generation ∨ isPending r = false then none
      else some (e.directiveOf r)

/-! ## Beginning and end of a boot -/

/-- What the build of a process says about itself in its boot record. -/
structure Build where
  toolchain : BoundedBytes 64 := .empty 64
  architecture : BoundedBytes 64 := .empty 64

/-- The boot record of the next epoch. -/
def nextBoot (d : DurableState) (incarnation : Incarnation) (build : Build) :
    Result BootPayload :=
  match d.epoch.next with
  | none =>
    fail .exhausted .checkedArithmeticOverflow "coordinator epoch space is exhausted"
  | some epoch =>
    match checkedAddU64 d.bootCount 1, checkedAddU64 d.epochAdvances 1 with
    | some bootCount, some epochAdvances =>
      .ok
        { epoch := epoch
          coordinator := incarnation
          bootCount := bootCount
          epochAdvances := epochAdvances
          toolchain := build.toolchain
          architecture := build.architecture }
    | _, _ => fail .exhausted .checkedArithmeticOverflow "boot counter space is exhausted"

/-- Advances the epoch of an opened store and fences what the last boot left in flight. -/
def bootStore (s : LineageStore) (incarnation : Incarnation) (build : Build) :
    LineageStore × Result Epoch :=
  match nextBoot s.state incarnation build with
  | .error e => (s, .error e)
  | .ok boot =>
    let booted := s.commit (.boot boot) fun _ d => d.noteEpoch boot
    if !booted.2.isOk then (booted.1, .error booted.2)
    else
      match booted.1.fenceRestartAuthority boot.epoch incarnation with
      | (s, .error e) => (s, .error e)
      | (s, .ok _) => (s, .ok boot.epoch)

def openEngine (o : EngineOptions) (incarnation : Incarnation) (build : Build) (m : Medium) :
    Medium × Result Engine :=
  if !o.policy.validate.isOk then (m, .error o.policy.validate)
  else if !o.topology.validate.isOk then (m, .error o.topology.validate)
  else if o.fabric.empty then
    (m, fail .invalid .unknownFabric "engine fabric name must be set")
  else if o.topology.generation.isZero then
    (m, fail .invalid .invalidArgument "topology generation must be non-zero")
  else
    match LineageStore.openStore o.store m with
    | (m, .error e) => (m, .error e)
    | (_, .ok s) =>
      match bootStore s incarnation build with
      | (s, .error e) => (s.medium, .error e)
      | (s, .ok epoch) =>
        (s.medium, .ok { options := o, store := s, incarnation := incarnation, epoch := epoch })

def checkpoint (e : Engine) : Engine × Status :=
  if e.closed then (e, shuttingDown)
  else
    match e.store.checkpoint with
    | (s, .error status) => ({ e.withStore s with storeFailed := true }, status)
    | (s, .ok _) => (e.withStore s, Status.success)

/-- The last record and the last snapshot of a process. -/
def shutDown (e : Engine) : Engine × Status :=
  let shutdown : ShutdownPayload :=
    { epoch := e.epoch, coordinator := e.incarnation, lastSeq := e.state.lastSeq }
  let written := e.store.commit (.shutdown shutdown) fun _ d => d
  let e := e.withStore written.1
  if written.2.isOk && e.options.enableSnapshot then
    match e.store.checkpoint with
    | (s, .error _) => ({ e.withStore s with storeFailed := true }, written.2)
    | (s, .ok _) => (e.withStore s, written.2)
  else (e, written.2)

/-- The engine without its store. -/
def shut (e : Engine) : Engine := { e.withStore e.store.close with closed := true }

def close (e : Engine) : Engine × Status :=
  if e.closed then (e, Status.success) else (e.shutDown.1.shut, e.shutDown.2)

end Engine

end LinkFailover
