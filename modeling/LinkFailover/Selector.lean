import LinkFailover.Evidence

/-!
# Selection of a replacement

Every candidate is assessed against the evidence resolved for it: eligible, disproven or
undecided. The selected candidate is the best eligible one under a lexicographic objective.
Without an eligible candidate the outcome is a certificate of infeasibility only when every
candidate is disproven.

* `assess_eligible`: the gates that an eligible candidate has passed.
* `selectReplacement_selected`: a selected index names an eligible assessment of one of the
  candidates.
-/

namespace LinkFailover

open Codec

/-- The status that an outcome claims. The selector gives one of the four; an outcome that
somebody else has built can hold any number. -/
inductive SelectionStatus where
  | selected | provenInfeasible | indeterminate | emptyCandidateSet
  | undeclared (number : Undeclared 4)
  deriving DecidableEq, Repr

/-- One candidate together with the evidence retained for it. -/
structure ResolvedCandidate where
  candidate : LinkKey := {}
  linkGeneration : LinkGeneration := .zero
  evidencePresent : Bool := false
  report : ReplacementReport := {}
  evidenceDigest : Digest := .zero 32
  freshness : FreshnessClass := .priorIncarnation
  ageTicks : UInt64 := 0
  generationAsserted : Bool := false
  generationMatched : Bool := false
  conflicted : Bool := false
  deriving DecidableEq

structure SelectionInput where
  fabric : FabricName
  subject : LinkKey
  subjectGeneration : LinkGeneration
  topologyGeneration : TopologyGeneration
  policyGeneration : PolicyGeneration
  policy : FailoverPolicy
  minReplacementCapacity : UInt32
  candidates : List ResolvedCandidate
  epoch : Epoch
  coordinator : Incarnation

/-! ## The objective -/

structure ObjectiveKey where
  adjacencyAuthorized : Bool
  confidence : UInt32
  ageTicks : UInt64
  capacityUnits : UInt32
  costUnits : UInt32
  linkGeneration : UInt64
  linkName : Bytes

def ObjectiveKey.ofAssessment (a : CandidateAssessment) : ObjectiveKey where
  adjacencyAuthorized := a.adjacencyAuthorized
  confidence := a.confidence.value
  ageTicks := a.ageTicks
  capacityUnits := a.capacityUnits
  costUnits := a.costUnits
  linkGeneration := a.linkGeneration.value
  linkName := a.candidate.link.value

/-- Whether `a` is strictly better than `b`. -/
def objectiveBetter (a b : ObjectiveKey) : Bool :=
  if a.adjacencyAuthorized ≠ b.adjacencyAuthorized then a.adjacencyAuthorized
  else if a.confidence ≠ b.confidence then a.confidence > b.confidence
  else if a.ageTicks ≠ b.ageTicks then a.ageTicks < b.ageTicks
  else if a.capacityUnits ≠ b.capacityUnits then a.capacityUnits > b.capacityUnits
  else if a.costUnits ≠ b.costUnits then a.costUnits < b.costUnits
  else if a.linkGeneration ≠ b.linkGeneration then a.linkGeneration > b.linkGeneration
  else a.linkName < b.linkName

/-! ## Assessment of one candidate -/

/-- What keeps a candidate from being eligible, in the order in which it is asked. The first
condition that holds decides. -/
def gates (input : SelectionInput) (r : ResolvedCandidate) :
    List (Bool × Verdict × ReasonCode × String) :=
  [(r.candidate = input.subject,
      .disproven, .replacementIsSubject, "a link cannot replace itself"),
    (r.conflicted,
      .indeterminate, .evidenceConflicted,
      "current qualified observations contradict each other"),
    (!r.evidencePresent,
      .indeterminate, .evidenceMissing, "no current evidence for this candidate"),
    (r.generationAsserted && !r.generationMatched,
      .indeterminate, .replacementGenerationMismatch,
      "asserted replacement generation does not match retained evidence"),
    (r.freshness = .priorIncarnation,
      .indeterminate, .evidenceFromPriorIncarnation,
      "evidence was received by a previous coordinator incarnation"),
    (r.freshness = .expired,
      .indeterminate, .evidenceStale, "evidence is older than the policy window"),
    (r.freshness = .future,
      .indeterminate, .evidenceStale,
      "evidence receipt tick is ahead of the coordinator clock"),
    (r.report.confidence.value < input.policy.minReplacementConfidence.value,
      .indeterminate, .evidenceLowConfidence,
      "evidence confidence is below the policy threshold"),
    (r.report.state = .unknown,
      .indeterminate, .evidenceUnknown, "publisher reported an unknown state"),
    (r.report.state = .down || r.report.state = .unusable,
      .disproven, .replacementStateUnusable,
      "current evidence shows the candidate is not usable"),
    (r.report.state = .degraded && !input.policy.allowDegradedReplacement,
      .disproven, .replacementNotEligible,
      "degraded candidates are not accepted by policy"),
    (r.report.capacityUnits < input.minReplacementCapacity,
      .disproven, .replacementInsufficientCapacity,
      "declared capacity is below the required minimum"),
    (input.policy.requireAdjacencyAuthorization && !r.report.adjacencyAuthorized,
      .disproven, .replacementNotAdjacencyAuthorized,
      "adjacent authority has not authorized this link")]

/-- The verdict on a candidate, its reason and the detail that goes with it. -/
def judge (input : SelectionInput) (r : ResolvedCandidate) : Verdict × ReasonCode × Bytes :=
  match (gates input r).find? (·.1) with
  | some (_, verdict, reason, detail) => (verdict, reason, text detail)
  | none => (.eligible, .selectedHighestObjective, [])

def assess (input : SelectionInput) (r : ResolvedCandidate) : CandidateAssessment where
  candidate := r.candidate
  linkGeneration := r.linkGeneration
  verdict := (judge input r).1
  reason := (judge input r).2.1
  detail := (judge input r).2.2
  state := r.report.state
  confidence := r.report.confidence
  freshness := r.freshness
  ageTicks := r.ageTicks
  capacityUnits := r.report.capacityUnits
  costUnits := r.report.costUnits
  adjacencyAuthorized := r.report.adjacencyAuthorized
  evidenceDigest := r.evidenceDigest

/-- Everything an eligible candidate has passed. -/
structure Qualifies (input : SelectionInput) (r : ResolvedCandidate) : Prop where
  notSubject : r.candidate ≠ input.subject
  notConflicted : r.conflicted = false
  evidencePresent : r.evidencePresent = true
  generation : r.generationAsserted = true → r.generationMatched = true
  current : r.freshness = .current
  confidence : input.policy.minReplacementConfidence.value ≤ r.report.confidence.value
  state : r.report.state = .up ∨
    r.report.state = .degraded ∧ input.policy.allowDegradedReplacement = true ∨
    ¬WireEnum.Declared r.report.state
  capacity : input.minReplacementCapacity ≤ r.report.capacityUnits
  adjacency : input.policy.requireAdjacencyAuthorization = true →
    r.report.adjacencyAuthorized = true

/-- No gate makes a candidate eligible. -/
theorem gates_not_eligible {input : SelectionInput} {r : ResolvedCandidate}
    {g : Bool × Verdict × ReasonCode × String} (h : g ∈ gates input r) : g.2.1 ≠ .eligible := by
  simp only [gates, List.mem_cons, List.not_mem_nil, or_false] at h
  rcases h with h | h | h | h | h | h | h | h | h | h | h | h | h <;> simp [h]

theorem judge_eligible {input : SelectionInput} {r : ResolvedCandidate}
    (h : (judge input r).1 = .eligible) : ∀ g ∈ gates input r, g.1 = false := by
  unfold judge at h
  split at h
  · rename_i g hg
    exact absurd h (gates_not_eligible (List.mem_of_find?_eq_some hg))
  · rename_i hg
    simpa using hg

theorem assess_eligible {input : SelectionInput} {r : ResolvedCandidate}
    (h : (assess input r).verdict = .eligible) : Qualifies input r := by
  have hg := judge_eligible h
  simp only [gates, List.forall_mem_cons, List.not_mem_nil, false_implies, implies_true, and_true,
    decide_eq_false_iff_not, Bool.not_eq_false', Bool.and_eq_false_iff, Bool.or_eq_false_iff,
    UInt32.not_lt] at hg
  obtain ⟨h1, h2, h3, h4, h5, h6, h7, h8, h9, h10, h11, h12, h13⟩ := hg
  refine ⟨h1, h2, h3, fun ha => ?_, ?_, h8, ?_, h12, fun ha => ?_⟩
  · simpa [ha] using h4
  · cases hf : r.freshness <;> simp_all
  · cases hs : r.report.state with
    | undeclared number => exact .inr (.inr (WireEnum.not_declared rfl))
    | _ => simp_all
  · simpa [ha] using h13

/-- The details of an assessment stay within the bound of the decision encoder. -/
theorem assess_detail_length (input : SelectionInput) (r : ResolvedCandidate) :
    (assess input r).detail.length ≤ 256 := by
  change (judge input r).2.2.length ≤ 256
  unfold judge
  split
  · rename_i detail hg
    change (text detail).length ≤ 256
    have hm := List.mem_of_find?_eq_some hg
    simp only [gates, List.mem_cons, List.not_mem_nil, or_false, Prod.mk.injEq] at hm
    rcases hm with h | h | h | h | h | h | h | h | h | h | h | h | h <;>
      simp [h.2.2.2, text]
  · exact Nat.zero_le _

/-- The selector gives declared verdicts only. -/
theorem assess_verdict_declared (input : SelectionInput) (r : ResolvedCandidate) :
    WireEnum.Declared (assess input r).verdict := by
  change WireEnum.Declared (judge input r).1
  unfold judge
  split
  · rename_i verdict _ _ hg
    have hm := List.mem_of_find?_eq_some hg
    simp only [gates, List.mem_cons, List.not_mem_nil, or_false, Prod.mk.injEq] at hm
    have hv : verdict = .disproven ∨ verdict = .indeterminate := by
      rcases hm with h | h | h | h | h | h | h | h | h | h | h | h | h <;> simp [h.2.1]
    change WireEnum.Declared verdict
    rcases hv with rfl | rfl <;> decide
  · decide

/-! ## Selection -/

structure SelectionOutcome where
  status : SelectionStatus := .indeterminate
  summary : ReasonCode := .selectionIndeterminate
  selectedIndex : Option Nat := none
  assessments : List CandidateAssessment := []
  eligibleCount : Nat := 0
  disprovenCount : Nat := 0
  indeterminateCount : Nat := 0
  deriving DecidableEq

/-- One round of the search: the index and the key of the best assessment so far. -/
def betterIndex (best : Option (Nat × ObjectiveKey)) (entry : CandidateAssessment × Nat) :
    Option (Nat × ObjectiveKey) :=
  if entry.1.verdict ≠ .eligible then best
  else
    let key := ObjectiveKey.ofAssessment entry.1
    match best with
    | none => some (entry.2, key)
    | some (_, bestKey) => if objectiveBetter key bestKey then some (entry.2, key) else best

def bestIndex (assessments : List CandidateAssessment) : Option Nat :=
  (assessments.zipIdx.foldl betterIndex none).map (·.1)

def selectReplacement (input : SelectionInput) : SelectionOutcome :=
  if input.candidates.isEmpty then
    { status := .emptyCandidateSet, summary := .candidateSetEmpty }
  else
    let assessments :=
      BoundedTable.sortBy CandidateAssessment.less (input.candidates.map (assess input))
    let outcome : SelectionOutcome :=
      { assessments := assessments
        eligibleCount := assessments.countP (·.verdict = .eligible)
        disprovenCount := assessments.countP (·.verdict = .disproven)
        indeterminateCount := assessments.countP (·.verdict.undecided) }
    if outcome.eligibleCount = 0 then
      if outcome.indeterminateCount = 0 then
        { outcome with status := .provenInfeasible, summary := .certifiedInfeasible }
      else outcome
    else
      match bestIndex assessments with
      | none => outcome
      | some best =>
        { outcome with
          status := .selected
          summary := .selectedHighestObjective
          selectedIndex := some best }

/-- Whatever the outcome, every candidate is assessed once, in the canonical order. -/
theorem selectReplacement_assessments (input : SelectionInput) :
    (selectReplacement input).assessments =
      BoundedTable.sortBy CandidateAssessment.less (input.candidates.map (assess input)) := by
  unfold selectReplacement
  split
  · rename_i h
    rw [List.isEmpty_iff.mp h]
    rfl
  · dsimp only
    split
    · split <;> rfl
    · split <;> rfl

theorem mem_assessments {input : SelectionInput} {a : CandidateAssessment}
    (h : a ∈ (selectReplacement input).assessments) :
    ∃ r ∈ input.candidates, assess input r = a := by
  rw [selectReplacement_assessments] at h
  exact List.mem_map.mp (BoundedTable.mem_sortBy.mp h)

theorem length_assessments (input : SelectionInput) :
    (selectReplacement input).assessments.length = input.candidates.length := by
  rw [selectReplacement_assessments, BoundedTable.sortBy_perm.length_eq, List.length_map]

/-! ## Independent validation -/

def reasonIsConclusive : ReasonCode → Bool
  | .replacementIsSubject | .replacementStateUnusable | .replacementNotEligible
  | .replacementInsufficientCapacity | .replacementNotAdjacencyAuthorized => true
  | _ => false

def validateAssessment (input : SelectionInput) (a : CandidateAssessment) : Status :=
  if !input.candidates.any fun r =>
      decide (r.candidate = a.candidate) && decide (r.linkGeneration = a.linkGeneration) then
    Status.failure .indeterminate .internalError
      (text "assessment names a candidate that was not in the input")
  else if a.verdict = .disproven ∧ reasonIsConclusive a.reason = false then
    Status.failure .indeterminate .internalError
      (text "a candidate was disproven for a non-conclusive reason")
  else Status.success

def validateSelected (input : SelectionInput) (outcome : SelectionOutcome) : Status :=
  match outcome.selectedIndex.bind fun i => outcome.assessments[i]? with
  | none =>
    Status.failure .indeterminate .internalError
      (text "selected outcome without a valid selected index")
  | some chosen =>
    if chosen.verdict ≠ .eligible then
      Status.failure .indeterminate .internalError (text "selected candidate is not eligible")
    else if chosen.candidate = input.subject then
      Status.failure .indeterminate .internalError
        (text "selected candidate is the failed subject")
    else if outcome.assessments.any fun a =>
        decide (a.verdict = .eligible) &&
          objectiveBetter (.ofAssessment a) (.ofAssessment chosen) then
      Status.failure .indeterminate .internalError
        (text "selected candidate is not the maximum of the objective")
    else Status.success

/-- What the claimed status demands of the counts and of the selected index. -/
def validateStatus (input : SelectionInput) (outcome : SelectionOutcome) : Status :=
  match outcome.status with
  | .emptyCandidateSet =>
    if !input.candidates.isEmpty then
      Status.failure .indeterminate .internalError
        (text "empty-candidate outcome with a non-empty candidate set")
    else Status.success
  | .provenInfeasible =>
    if outcome.eligibleCount ≠ 0 ∨ outcome.indeterminateCount ≠ 0 then
      Status.failure .indeterminate .internalError
        (text "infeasibility claimed while candidates remain undecided")
    else Status.success
  | .indeterminate =>
    if outcome.eligibleCount ≠ 0 then
      Status.failure .indeterminate .internalError
        (text "indeterminate outcome with an eligible candidate present")
    else Status.success
  | .selected | .undeclared _ => validateSelected input outcome

def validateSelection (input : SelectionInput) (outcome : SelectionOutcome) : Status :=
  if outcome.assessments.length ≠ input.candidates.length then
    Status.failure .indeterminate .internalError
      (text "assessment count does not match candidate count")
  else if ¬ (input.candidates.map (·.candidate)).Nodup then
    Status.failure .indeterminate .invalidArgument
      (text "candidate set contains a duplicate link")
  else
    match outcome.assessments.find? fun a => !(validateAssessment input a).isOk with
    | some a => validateAssessment input a
    | none => validateStatus input outcome

theorem validateSelected_ok {input : SelectionInput} {outcome : SelectionOutcome}
    (hv : (validateSelected input outcome).isOk = true) :
    ∃ chosen, (outcome.selectedIndex.bind fun i => outcome.assessments[i]?) = some chosen ∧
      chosen ∈ outcome.assessments ∧ chosen.verdict = .eligible := by
  unfold validateSelected at hv
  split at hv
  · cases hv
  · rename_i chosen hc
    by_cases h1 : chosen.verdict = .eligible
    · obtain ⟨i, -, hi⟩ := Option.bind_eq_some_iff.mp hc
      exact ⟨chosen, hc, List.mem_of_getElem? hi, h1⟩
    · rw [if_pos h1] at hv
      cases hv

/-- A selected outcome that passes validation names an eligible assessment. -/
theorem validateSelection_selected {input : SelectionInput} {outcome : SelectionOutcome}
    (hs : outcome.status = .selected) (hv : (validateSelection input outcome).isOk = true) :
    ∃ chosen, (outcome.selectedIndex.bind fun i => outcome.assessments[i]?) = some chosen ∧
      chosen ∈ outcome.assessments ∧ chosen.verdict = .eligible := by
  unfold validateSelection at hv
  split at hv
  · cases hv
  split at hv
  · cases hv
  split at hv
  · rename_i a ha
    have := List.find?_some ha
    simp [hv] at this
  · rw [validateStatus, hs] at hv
    exact validateSelected_ok hv

end LinkFailover
