import LinkFailover.Observations

/-!
# Requesting a failover

A request is first turned into a plan, from the state of the engine alone: the structural
checks, the gates of single authority and revalidation, the evaluation of the failure, the
resolution and selection of a replacement. Only then anything is written.

* `planFailover_grant`: what holds of a request whose plan is a grant.
* `requestFailover_grant`: an answer that grants comes from such a plan.
-/

namespace LinkFailover

open Codec

/-- What a request leads to. `record` writes a refused or undecided attempt before the decision,
`grant` an attempt and its authority. -/
inductive FailoverPlan where
  | fail (s : Status)
  | replay (d : FailoverDecision)
  | settle (d : FailoverDecision) (durable : Bool)
  | record (d : FailoverDecision) (r : AttemptRecord)
  | grant (d : FailoverDecision) (a : AttemptRecord)

namespace Engine

def rejected (outcome : Outcome) (code : ReasonCode) (detail : String) : Status :=
  Status.failure outcome code (text detail)

/-! ## Structural checks -/

def checkCandidates (fabric : FabricName) (subject : LinkKey) :
    List LinkKey → List ReplacementCandidate → Option Status
  | _, [] => none
  | seen, c :: cs =>
    if c.candidate.fabric ≠ fabric then
      some (rejected .notFound .unknownFabric "candidate names an unknown fabric")
    else if c.candidate = subject then
      some (rejected .invalid .replacementIsSubject "a link cannot be its own replacement")
    else if c.candidate ∈ seen then
      some (rejected .invalid .invalidArgument "candidate set contains a duplicate link")
    else checkCandidates fabric subject (c.candidate :: seen) cs

def checkRequest (e : Engine) (req : FailoverRequest) : Option Status :=
  if req.subject.fabric ≠ e.options.fabric then
    some (rejected .notFound .unknownFabric "request names an unknown fabric")
  else if req.subject.link.empty then
    some (rejected .invalid .nullField "request must name a subject link")
  else if req.subjectGeneration.isZero then
    some (rejected .invalid .unknownGeneration "request must bind the subject link generation")
  else if req.candidates.length > e.options.limits.maxCandidatesPerRequest ∨
      req.candidates.length > e.state.policy.maxCandidates.toNat then
    some (rejected .limitExceeded .limitExceeded "candidate set exceeds the configured bound")
  else checkCandidates e.options.fabric req.subject [] req.candidates

/-! ## Resolution of the candidates -/

/-- Whether the evidence on a candidate is bound to its definition and the topology. -/
def bindsReplacement (e : Engine) (definition : LinkDefinition)
    (entry : PublisherName × RetainedReplacementEvidence) : Bool :=
  e.publisherCurrent entry.1 entry.2.report.stamp &&
    entry.2.report.linkGeneration = definition.generation &&
    entry.2.report.topologyGeneration = e.state.topology.generation

def qualifiesReplacement (e : Engine) (retained : RetainedReplacementEvidence) : Bool :=
  (e.classifyRetained retained).1 = .current &&
    retained.report.confidence.value ≥ e.state.policy.minReplacementConfidence.value

/-- One round of the search for the best observation of a candidate. An observation that does
not qualify is taken only as long as there is no other. -/
def betterReplacement (e : Engine) (best : Option (PublisherName × RetainedReplacementEvidence))
    (entry : PublisherName × RetainedReplacementEvidence) :
    Option (PublisherName × RetainedReplacementEvidence) :=
  match best with
  | none => some entry
  | some b =>
    if e.qualifiesReplacement entry.2 &&
        preferred (·.stamp) (·.confidence) entry.1 entry.2 (e.classifyRetained entry.2).2 b.2
          (e.classifyRetained b.2).2 then
      some entry
    else best

/-- Whether another current and qualified observation contradicts the chosen one. -/
def contradicted (e : Engine) (bound : List (PublisherName × RetainedReplacementEvidence))
    (best : PublisherName × RetainedReplacementEvidence) : Bool :=
  bound.any fun entry =>
    entry.1 ≠ best.1 && e.qualifiesReplacement entry.2 &&
      entry.2.report.state ≠ best.2.report.state

def resolveCandidate (e : Engine) (c : ReplacementCandidate) : ResolvedCandidate :=
  let asserted := !c.expectedGeneration.isZero
  match e.state.topology.find c.candidate with
  | none =>
    { candidate := c.candidate
      linkGeneration := c.expectedGeneration
      generationAsserted := asserted }
  | some definition =>
    let entry : ResolvedCandidate :=
      { candidate := c.candidate
        linkGeneration := definition.generation
        generationAsserted := asserted
        generationMatched := !asserted || c.expectedGeneration = definition.generation }
    match e.replacementEvidence.find? c.candidate with
    | none => entry
    | some bucket =>
      let bound := bucket.entries.filter (e.bindsReplacement definition)
      match bound.foldl e.betterReplacement none with
      | none => entry
      | some best =>
        { entry with
          evidencePresent := true
          report := best.2.report
          evidenceDigest := best.2.digest
          freshness := (e.classifyRetained best.2).1
          ageTicks := (e.classifyRetained best.2).2
          conflicted := e.contradicted bound best }

def selectionInput (e : Engine) (req : FailoverRequest) (link : LinkDefinition) :
    SelectionInput where
  fabric := e.options.fabric
  subject := req.subject
  subjectGeneration := link.generation
  topologyGeneration := e.state.topology.generation
  policyGeneration := e.state.policy.generation
  policy := e.state.policy
  minReplacementCapacity :=
    if e.state.policy.requireSubjectCapacity &&
        link.capacityUnits > e.state.policy.minReplacementCapacity then link.capacityUnits
    else e.state.policy.minReplacementCapacity
  candidates := BoundedTable.sortBy (fun a b => a.candidate.less b.candidate)
    (req.candidates.map e.resolveCandidate)
  epoch := e.epoch
  coordinator := e.incarnation

/-! ## Plans -/

def attemptCount (e : Engine) (req : FailoverRequest) : Nat :=
  e.state.countAttempts req.subject req.subjectGeneration

def withinBudget (e : Engine) (req : FailoverRequest) : Bool :=
  e.attemptCount req < e.state.policy.maxAttemptsPerGeneration.toNat

def nextAttemptSeq (e : Engine) (req : FailoverRequest) : AttemptSeq :=
  ⟨UInt64.ofNat (e.attemptCount req + 1)⟩

def nextAttemptId (e : Engine) (req : FailoverRequest) : Digest :=
  computeAttemptId e.options.fabric req.subject req.subjectGeneration (e.nextAttemptSeq req)

/-- The record of an attempt that ends where it begins. -/
def closedAttempt (e : Engine) (req : FailoverRequest) (kind : DecisionKind) (evidence : Digest)
    (reasons : ReasonLog) : AttemptRecord where
  subject := req.subject
  subjectGeneration := req.subjectGeneration
  attemptSeq := e.nextAttemptSeq req
  attemptId := e.nextAttemptId req
  idempotencyKey := req.idempotencyKey
  phase := if kind = .refuse then .refused else .indeterminate
  evidenceDigest := evidence
  createdTick := e.tick
  createdEpoch := e.epoch
  coordinator := e.incarnation
  reasons := reasons

/-- Within the budget the attempt is written and the decision is durable; above it neither. -/
def closeAttempt (e : Engine) (req : FailoverRequest) (d : FailoverDecision) (evidence : Digest)
    (reasons : ReasonLog) : FailoverPlan :=
  if e.withinBudget req then .record d (e.closedAttempt req d.kind evidence reasons)
  else
    .settle (d.because .attemptsExhausted "the attempt budget for this generation is exhausted")
      false

theorem reasonsOfVerdict_bounded (v : FailureVerdict) :
    (Reason.of v.reason v.detail :: v.extra).length ≤ kMaxAttemptReasons := by
  have := v.bounded
  rw [List.length_cons, kMaxAttemptReasons]
  omega

def reasonsOfVerdict (v : FailureVerdict) : ReasonLog :=
  ⟨Reason.of v.reason v.detail :: v.extra, reasonsOfVerdict_bounded v⟩

/-- The failure is not established. -/
def planUnestablished (e : Engine) (req : FailoverRequest) (d : FailoverDecision)
    (v : FailureVerdict) : FailoverPlan :=
  e.closeAttempt req
    { d with
      assertion := .observation
      outcome := v.outcome
      kind := if v.outcome = .refused then .refuse else .indeterminate
      attemptSeq := e.nextAttemptSeq req
      attemptId := if e.withinBudget req then e.nextAttemptId req else d.attemptId
      reasons := (reasonsOfVerdict v).entries } v.evidenceDigest (reasonsOfVerdict v)

/-- What a selection without a selected candidate amounts to. -/
def unselected : SelectionStatus → DecisionKind × Outcome × ReasonLog
  | .provenInfeasible =>
    (.refuse, .refused,
      ⟨[Reason.of .certifiedInfeasible
          (text "every supplied alternate was conclusively disproven"),
        Reason.of .noEligibleReplacement (text "no supplied alternate is eligible")],
        by decide⟩)
  | .emptyCandidateSet =>
    (.refuse, .refused,
      ⟨[Reason.of .candidateSetEmpty (text "no alternate was supplied")], by decide⟩)
  | _ =>
    (.indeterminate, .indeterminate,
      ⟨[Reason.of .selectionIndeterminate
          (text "at least one supplied alternate could not be decided")], by decide⟩)

def planUnselected (e : Engine) (req : FailoverRequest) (d : FailoverDecision)
    (status : SelectionStatus) : FailoverPlan :=
  e.closeAttempt req
    { d with
      assertion := .eligibility
      attemptSeq := e.nextAttemptSeq req
      attemptId := e.nextAttemptId req
      kind := (unselected status).1
      outcome := (unselected status).2.1
      reasons := (unselected status).2.2.entries } d.evidenceDigest (unselected status).2.2

def grantReasons : ReasonLog :=
  ⟨[Reason.of .selectedHighestObjective
      (text "the highest-ranked eligible alternate was selected"),
    Reason.of .fenced (text "prior authority for this generation is excluded")], by decide⟩

def grantAuthority (e : Engine) (req : FailoverRequest) (v : FailureVerdict)
    (chosen : CandidateAssessment) (seq : AttemptSeq) : AuthorityVector :=
  { e.currentAuthority req.subject req.subjectGeneration with
    replacement := chosen.candidate
    replacementGeneration := chosen.linkGeneration
    evidencePublisher := v.publisher
    publisherIncarnation := v.publisherIncarnation
    publisherSeq := v.publisherSeq
    attemptSeq := seq
    evidenceDigest := v.evidenceDigest }

/-- The attempt that a new one continues, when that one still holds authority. -/
def predecessor (e : Engine) (req : FailoverRequest) : Option Digest :=
  match e.state.latestAttempt req.subject req.subjectGeneration with
  | none => none
  | some previous =>
    if attemptPhaseHoldsAuthority previous.phase then some previous.attemptId else none

def grantedAttempt (e : Engine) (req : FailoverRequest) (v : FailureVerdict)
    (chosen : CandidateAssessment) (seq : AttemptSeq) : AttemptRecord where
  subject := req.subject
  subjectGeneration := req.subjectGeneration
  attemptSeq := seq
  attemptId := computeAttemptId e.options.fabric req.subject req.subjectGeneration seq
  idempotencyKey := req.idempotencyKey
  phase := .evaluated
  replacement := chosen.candidate
  replacementGeneration := chosen.linkGeneration
  authority := e.grantAuthority req v chosen seq
  evidenceDigest := v.evidenceDigest
  createdTick := e.tick
  createdEpoch := e.epoch
  coordinator := e.incarnation
  predecessor := e.predecessor req
  reasons := grantReasons

def planGrant (e : Engine) (req : FailoverRequest) (d : FailoverDecision) (v : FailureVerdict)
    (chosen : CandidateAssessment) (seq : AttemptSeq) : FailoverPlan :=
  .grant
    { d with
      kind := .grant
      assertion := .authorization
      outcome := .ok
      hasReplacement := true
      replacement := chosen.candidate
      replacementGeneration := chosen.linkGeneration
      attemptSeq := seq
      attemptId := computeAttemptId e.options.fabric req.subject req.subjectGeneration seq
      authority := e.grantAuthority req v chosen seq
      reasons := grantReasons.entries }
    (e.grantedAttempt req v chosen seq)

/-- The assessment that was selected, when it stands for one of the candidates. -/
def chosenAssessment (input : SelectionInput) (outcome : SelectionOutcome) :
    Option CandidateAssessment :=
  match outcome.selectedIndex.bind fun i => outcome.assessments[i]? with
  | none => none
  | some chosen =>
    if input.candidates.any fun c =>
        decide (c.candidate = chosen.candidate) &&
          decide (c.linkGeneration = chosen.linkGeneration) then some chosen
    else none

/-- A candidate is selected. -/
def planSelected (e : Engine) (req : FailoverRequest) (d : FailoverDecision) (v : FailureVerdict)
    (input : SelectionInput) (outcome : SelectionOutcome) : FailoverPlan :=
  if !e.withinBudget req then
    .settle
      ({ d with kind := .refuse, assertion := .eligibility, outcome := .refused }.because
        .attemptsExhausted
        "the attempt budget for this generation is exhausted; no authority was created") false
  else
    match chosenAssessment input outcome with
    | none =>
      .fail (rejected .indeterminate .internalError
        "internal selection bookkeeping failed; no authority was created")
    | some chosen =>
      match checkedAddU64 (UInt64.ofNat (e.attemptCount req)) 1 with
      | none =>
        .fail (rejected .exhausted .checkedArithmeticOverflow
          "attempt sequence space is exhausted")
      | some next => e.planGrant req d v chosen ⟨next⟩

/-- The failure is established. -/
def planSelection (e : Engine) (req : FailoverRequest) (d : FailoverDecision)
    (v : FailureVerdict) (link : LinkDefinition) : FailoverPlan :=
  let input := e.selectionInput req link
  let outcome := selectReplacement input
  if !(validateSelection input outcome).isOk then
    .fail (rejected .indeterminate .internalError
      "internal selection validation failed; no authority was created")
  else
    let d := { d with candidates := outcome.assessments, evidenceDigest := v.evidenceDigest }
    if outcome.status ≠ .selected then e.planUnselected req d outcome.status
    else e.planSelected req d v input outcome

def planEvidence (e : Engine) (req : FailoverRequest) (d : FailoverDecision)
    (link : LinkDefinition) : FailoverPlan :=
  let v := e.evaluateFailure req.subject req.subjectGeneration
  if !v.established then e.planUnestablished req d v else e.planSelection req d v link

/-- An attempt that a restart interrupted has to be revalidated before any other. -/
def planRevalidation (e : Engine) (req : FailoverRequest) (d : FailoverDecision)
    (link : LinkDefinition) : FailoverPlan :=
  match e.state.latestAttempt req.subject req.subjectGeneration with
  | none => e.planEvidence req d link
  | some latest =>
    if latest.phase = .interrupted then
      let d :=
        { d with
          kind := .indeterminate
          assertion := .observation
          outcome := .indeterminate
          attemptSeq := latest.attemptSeq }
      .settle
        (if latest.revalidated then
          d.because .backendUnknown "the interrupted attempt was revalidated as unknown"
        else
          d.because .revalidationRequired
            "an attempt interrupted by a restart must be revalidated first") true
    else e.planEvidence req d link

/-- No attempt starts while another one holds authority. -/
def planAuthority (e : Engine) (req : FailoverRequest) (d : FailoverDecision)
    (link : LinkDefinition) : FailoverPlan :=
  match e.state.activeAuthority req.subject req.subjectGeneration with
  | some active =>
    .settle
      ({ d with
          kind := .refuse
          assertion := .observation
          outcome := .conflict
          attemptSeq := active.attemptSeq
          attemptId := active.attemptId }.because .alreadyAuthoritative
        "another attempt already holds authority for this generation") false
  | none => e.planRevalidation req d link

/-- A decision about an expectation that is out of date names every field that differs. -/
def staleDecision (d : FailoverDecision) (detail : String) (mismatches : List AuthorityMismatch) :
    FailoverDecision :=
  let d := { d with assertion := .observation, outcome := .stale }.because .staleAuthority detail
  { d with reasons := d.reasons ++ mismatches.map fun m => Reason.of m.code m.field }

def planExpectation (e : Engine) (req : FailoverRequest) (d : FailoverDecision)
    (link : LinkDefinition) : FailoverPlan :=
  let mismatches := compareAuthority req.expected d.authority
  if !mismatches.isEmpty then
    .settle { staleDecision d "the request binds authority that is no longer current" mismatches
      with kind := .indeterminate } false
  else if !e.state.policy.failoverEnabled then
    .settle
      ({ d with kind := .refuse, assertion := .eligibility, outcome := .refused }.because
        .policyDisabled "failover is disabled by policy") false
  else e.planAuthority req d link

def planSubject (e : Engine) (req : FailoverRequest) : FailoverPlan :=
  match e.state.topology.find req.subject with
  | none =>
    .fail (rejected .notFound .unknownLink "subject link is not present in the current topology")
  | some link =>
    if link.generation ≠ req.subjectGeneration then
      .fail (rejected .stale .subjectGenerationMismatch
        "subject generation is not the current topology generation")
    else
      e.planExpectation req
        { e.baseDecision req.subject req.subjectGeneration with
          authority := e.currentAuthority req.subject req.subjectGeneration } link

def planFailover (e : Engine) (req : FailoverRequest) : FailoverPlan :=
  match e.checkRequest req with
  | some s => .fail s
  | none =>
    match e.state.findIdempotency req.idempotencyKey with
    | some entry => .replay (e.replayDecision entry)
    | none => e.planSubject req

/-! ## Execution -/

def settleUndurable (e : Engine) (d : FailoverDecision) : Engine × Result FailoverDecision :=
  let d := { d with durable := false }
  let d := { d with decisionId := d.computeId }
  (e.rememberDecision d, .ok d)

/-- Writes a decision with its idempotency entry and answers with it. -/
def settleDurable (e : Engine) (d : FailoverDecision) (key : Digest) :
    Engine × Result FailoverDecision :=
  let committed := e.commitDecision d
  (((committed.1.commitIdempotency committed.2 key).maybeCheckpoint).rememberDecision committed.2,
    .ok committed.2)

def settle (e : Engine) (d : FailoverDecision) (durable : Bool) (key : Digest) :
    Engine × Result FailoverDecision :=
  if durable then e.settleDurable d key else e.settleUndurable d

/-- Goes on with the engine after a write, unless the write failed. -/
def afterWrite (e : Engine) (written : LineageStore × Status) (detail : String)
    (k : Engine → Engine × Result FailoverDecision) : Engine × Result FailoverDecision :=
  if !written.2.isOk then
    (e.withWrite written, fail written.2.outcome .internalError detail)
  else k (e.withWrite written)

def execute (e : Engine) (req : FailoverRequest) : FailoverPlan → Engine × Result FailoverDecision
  | .fail s => (e, .error s)
  | .replay d => (e, .ok d)
  | .settle d durable => e.settle d durable req.idempotencyKey
  | .record d r =>
    e.afterWrite (e.createAttempt r) "the attempt record could not be written" fun e =>
      e.settleDurable d req.idempotencyKey
  | .grant d a =>
    e.afterWrite (e.createAttempt a)
      "the attempt intent could not be written; no authority was created" fun e =>
      e.afterWrite (e.updateAttempt .update { a with phase := .authorized })
        "the grant could not be written; no authority was created" fun e =>
        e.settleDurable d req.idempotencyKey

def requestFailover (e : Engine) (req : FailoverRequest) : Engine × Result FailoverDecision :=
  match e.unavailable with
  | some s => (e, .error s)
  | none => e.advance.execute req (e.advance.planFailover req)

end Engine

end LinkFailover
