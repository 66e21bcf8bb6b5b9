import LinkFailover.System

/-!
# What a grant rests on

The gates of a grant, read as a specification. Failure is established by the observations that
qualify, and by all of them; the replacement is a link of the topology that a qualified
observation supports and none contradicts.

* `mem_qualifiedFailures`: which observations count.
* `failureEstablished`: what an established failure means.
* `requestFailover_granted`: a grant is sound.
-/

namespace LinkFailover

open Codec

/-! ## Observations that qualify -/

/-- Received by this coordinator within the freshness window, from the current incarnation of
its publisher. -/
structure CurrentObservation {Report : Type} (e : Engine) (stamp : EvidenceStamp)
    (publisher : PublisherName) (x : Retained Report) : Prop where
  received : x.receiptCoordinator = e.incarnation
  arrived : x.receiptTick ≤ e.tick
  fresh : e.tick - x.receiptTick ≤ e.state.policy.evidenceMaxAgeTicks
  attributed : stamp.publisher = publisher
  incarnation : ∃ s, e.publishers.find? publisher = some s ∧
    s.incarnation = stamp.publisherIncarnation

/-- An observation of a generation of a link that counts for or against its failure. -/
structure QualifiedFailure (e : Engine) (subject : LinkKey) (generation : LinkGeneration)
    (publisher : PublisherName) (x : RetainedFailureEvidence) : Prop
    extends CurrentObservation e x.report.stamp publisher x where
  subject : x.report.subject = subject
  linkGeneration : x.report.linkGeneration = generation
  topologyGeneration : x.report.topologyGeneration = e.state.topology.generation
  confidence : e.state.policy.minFailureConfidence.value ≤ x.report.confidence.value
  known : x.report.state ≠ .unknown

/-- An observation of a link that counts for or against its use. -/
structure QualifiedReplacement (e : Engine) (link : LinkDefinition) (publisher : PublisherName)
    (x : RetainedReplacementEvidence) : Prop
    extends CurrentObservation e x.report.stamp publisher x where
  candidate : x.report.candidate = link.link
  linkGeneration : x.report.linkGeneration = link.generation
  topologyGeneration : x.report.topologyGeneration = e.state.topology.generation
  confidence : e.state.policy.minReplacementConfidence.value ≤ x.report.confidence.value

theorem publisherCurrent_iff {e : Engine} {publisher : PublisherName} {stamp : EvidenceStamp} :
    e.publisherCurrent publisher stamp = true ↔
      ∃ s, e.publishers.find? publisher = some s ∧ s.incarnation = stamp.publisherIncarnation := by
  unfold Engine.publisherCurrent
  split
  · rename_i h
    simp [h]
  · rename_i p h
    simp [h]

theorem classifyReceipt_current_iff {rc c : Incarnation} {rt now maxAge : UInt64} :
    (classifyReceipt rc rt c now maxAge).1 = .current ↔ rc = c ∧ rt ≤ now ∧ now - rt ≤ maxAge := by
  refine ⟨classifyReceipt_current, fun ⟨hc, ht, ha⟩ => ?_⟩
  rw [classifyReceipt, if_neg (not_not.mpr hc), if_neg (UInt64.not_lt.mpr ht)]
  dsimp only
  rw [if_neg (UInt64.not_lt.mpr ha)]

/-! ## The failure -/

/-- The observation counts, and as what. -/
def FailureFinding.qualifies : FailureFinding → Bool
  | .qualified _ _ => true
  | _ => false

namespace Engine

/-- Whether an observation counts for or against the failure of a generation. -/
def counts (e : Engine) (generation : LinkGeneration)
    (x : PublisherName × RetainedFailureEvidence) : Bool :=
  (e.failureFinding generation x.1 x.2).qualifies

/-- The retained observations that count. -/
def qualifiedFailures (e : Engine) (subject : LinkKey) (generation : LinkGeneration) :
    List (PublisherName × RetainedFailureEvidence) :=
  (e.failureBucket subject).filter (e.counts generation)

/-- Whether an observation reports a failure under the policy in force. -/
def reportsFailure (e : Engine) (x : RetainedFailureEvidence) : Bool :=
  observationStateIsFailure x.report.state e.state.policy.treatDegradedAsFailed

variable {e : Engine} {subject : LinkKey} {generation : LinkGeneration}

theorem mem_failureBucket {x : PublisherName × RetainedFailureEvidence} :
    x ∈ e.failureBucket subject ↔ EvidenceTable.Has e.failureEvidence subject x.1 x.2 := by
  unfold failureBucket
  constructor
  · intro h
    cases hf : e.failureEvidence.find? subject with
    | none => simp [hf] at h
    | some b =>
      rw [hf] at h
      exact EvidenceTable.has_of_find hf h
  · rintro ⟨b, hb, rfl, hx⟩
    rw [SortedMap.find?_of_mem hb]
    exact hx

/-- What makes an observation count, and whether it then counts as a failure. -/
theorem failureFinding_qualified {x : PublisherName × RetainedFailureEvidence} {failed : Bool}
    {age : UInt64} : e.failureFinding generation x.1 x.2 = .qualified failed age ↔
      (e.publisherCurrent x.1 x.2.report.stamp = true ∧ x.2.report.linkGeneration = generation ∧
        x.2.report.topologyGeneration = e.state.topology.generation ∧
        (e.classifyRetained x.2).1 = .current ∧
        e.state.policy.minFailureConfidence.value ≤ x.2.report.confidence.value ∧
        x.2.report.state ≠ .unknown) ∧
      failed = e.reportsFailure x.2 ∧ age = (e.classifyRetained x.2).2 := by
  unfold failureFinding
  dsimp only
  by_cases h1 : e.publisherCurrent x.1 x.2.report.stamp = true
  swap
  · simp [h1]
  rw [if_neg (by simp [h1])]
  by_cases h2 : x.2.report.linkGeneration = generation ∧
      x.2.report.topologyGeneration = e.state.topology.generation
  swap
  · rw [if_pos (by tauto)]
    simp only [reduceCtorEq, false_iff]
    tauto
  rw [if_neg (by tauto)]
  by_cases h3 : (e.classifyRetained x.2).1 = .current
  swap
  · rw [if_pos h3]
    simp [h3]
  rw [if_neg (not_not.mpr h3)]
  by_cases h4 : x.2.report.confidence.value < e.state.policy.minFailureConfidence.value
  · rw [if_pos h4]
    simp only [reduceCtorEq, false_iff]
    intro h
    exact absurd h4 (UInt32.not_lt.mpr h.1.2.2.2.2.1)
  rw [if_neg h4]
  by_cases h5 : x.2.report.state = .unknown
  · rw [if_pos h5]
    simp [h5]
  rw [if_neg h5]
  simp only [FailureFinding.qualified.injEq]
  constructor
  · rintro ⟨rfl, rfl⟩
    exact ⟨⟨h1, h2.1, h2.2, h3, UInt32.not_lt.mp h4, h5⟩, rfl, rfl⟩
  · rintro ⟨-, rfl, rfl⟩
    exact ⟨rfl, rfl⟩

theorem counts_iff {x : PublisherName × RetainedFailureEvidence} :
    e.counts generation x = true ↔
      e.failureFinding generation x.1 x.2 =
        .qualified (e.reportsFailure x.2) (e.classifyRetained x.2).2 := by
  unfold counts
  constructor
  · intro h
    cases hf : e.failureFinding generation x.1 x.2 with
    | qualified failed age =>
      obtain ⟨-, rfl, rfl⟩ := failureFinding_qualified.mp hf
      rfl
    | _ => rw [hf] at h; cases h
  · intro h
    rw [h]
    rfl

/-- Every observation of a link is retained under the link and the publisher that it names. -/
def FailuresFiled (e : Engine) (subject : LinkKey) : Prop :=
  ∀ x ∈ e.failureBucket subject, x.2.report.subject = subject ∧ x.2.report.stamp.publisher = x.1

theorem failuresFiled {wire : Prop} (h : EngineOk wire e) : e.FailuresFiled subject := fun _ hx =>
  h.failures (mem_failureBucket.mp hx)

/-- Which observations count: the retained ones that qualify. -/
theorem FailuresFiled.mem (h : e.FailuresFiled subject)
    {x : PublisherName × RetainedFailureEvidence} :
    x ∈ e.qualifiedFailures subject generation ↔
      EvidenceTable.Has e.failureEvidence subject x.1 x.2 ∧
        QualifiedFailure e subject generation x.1 x.2 := by
  rw [qualifiedFailures, List.mem_filter, counts_iff, failureFinding_qualified,
    publisherCurrent_iff, classifyRetained, classifyReceipt_current_iff]
  constructor
  · rintro ⟨hx, ⟨hp, hl, ht, ⟨hc, ha, hf⟩, hconf, hk⟩, -⟩
    obtain ⟨hs, hpub⟩ := h x hx
    exact ⟨mem_failureBucket.mp hx, ⟨⟨hc, ha, hf, hpub, hp⟩, hs, hl, ht, hconf, hk⟩⟩
  · rintro ⟨hx, hq⟩
    exact ⟨mem_failureBucket.mpr hx, ⟨hq.incarnation, hq.linkGeneration, hq.topologyGeneration,
      ⟨hq.received, hq.arrived, hq.fresh⟩, hq.confidence, hq.known⟩, rfl, rfl⟩

theorem mem_qualifiedFailures {wire : Prop} (h : EngineOk wire e)
    {x : PublisherName × RetainedFailureEvidence} :
    x ∈ e.qualifiedFailures subject generation ↔
      EvidenceTable.Has e.failureEvidence subject x.1 x.2 ∧
        QualifiedFailure e subject generation x.1 x.2 :=
  (failuresFiled h).mem

/-- The tally counts the observations that qualify, and those of them that report a failure. -/
theorem failureTally_counts (bucket : List (PublisherName × RetainedFailureEvidence))
    (t : FailureTally) :
    (bucket.foldl (fun t x => t.add x.1 x.2 (e.failureFinding generation x.1 x.2)) t).qualified =
        t.qualified + (bucket.filter (e.counts generation)).length ∧
      (bucket.foldl (fun t x => t.add x.1 x.2 (e.failureFinding generation x.1 x.2)) t).failures =
        t.failures + (bucket.filter (e.counts generation)).countP fun x =>
          e.reportsFailure x.2 := by
  induction bucket generalizing t with
  | nil => exact ⟨rfl, rfl⟩
  | cons x bucket ih =>
    obtain ⟨h1, h2⟩ := ih (t.add x.1 x.2 (e.failureFinding generation x.1 x.2))
    rw [List.foldl_cons, h1, h2]
    by_cases hq : e.counts generation x = true
    · rw [List.filter_cons_of_pos hq, List.length_cons, List.countP_cons, counts_iff.mp hq]
      cases e.reportsFailure x.2 with
      | true =>
        simp only [FailureTally.add, if_true]
        omega
      | false =>
        simp only [FailureTally.add, Bool.false_eq_true, if_false]
        omega
    · rw [List.filter_cons_of_neg hq]
      cases hf : e.failureFinding generation x.1 x.2 with
      | qualified failed age =>
        rw [counts, hf] at hq
        exact absurd rfl hq
      | _ => exact ⟨rfl, rfl⟩

/-- The observations that qualify agree on a failure, by the rule of the policy in force. -/
def FailureAgreed (e : Engine) (subject : LinkKey) (generation : LinkGeneration) : Prop :=
  match e.state.policy.agreement with
  | .unanimous => e.qualifiedFailures subject generation ≠ [] ∧
      ∀ x ∈ e.qualifiedFailures subject generation, e.reportsFailure x.2 = true
  | .majorityOfFreshQualified | .undeclared _ => (e.qualifiedFailures subject generation).length <
      2 * (e.qualifiedFailures subject generation).countP fun x => e.reportsFailure x.2

/-- What an established failure means. -/
theorem failureEstablished (h : (e.evaluateFailure subject generation).established = true) :
    e.FailureAgreed subject generation := by
  unfold evaluateFailure at h
  split at h
  · cases h
  obtain ⟨hq, hf⟩ := @failureTally_counts e generation (e.failureBucket subject) {}
  rw [Nat.zero_add] at hq hf
  change (e.failureTally subject generation).qualified = _ at hq
  change (e.failureTally subject generation).failures = _ at hf
  unfold FailureTally.verdict at h
  split at h
  · cases h
  rename_i hne
  split at h
  · rename_i hagree _
    rw [hq] at hne
    unfold FailureTally.agrees at hagree
    unfold FailureAgreed
    cases hrule : e.state.policy.agreement with
    | unanimous =>
      simp only [hrule, decide_eq_true_eq, hq, hf] at hagree
      exact ⟨fun hn => hne (by rw [qualifiedFailures] at hn; rw [hn]; rfl),
        List.countP_eq_length.mp hagree⟩
    | majorityOfFreshQualified | undeclared =>
      simp only [hrule, decide_eq_true_eq, hq, hf] at hagree
      change (List.filter _ _).length < 2 * List.countP _ (List.filter _ _)
      omega
  · split at h <;> cases h

/-! ## The replacement -/

/-- The evidence on a candidate, when there is any. -/
theorem resolveCandidate_evidence {c : ReplacementCandidate}
    (h : (e.resolveCandidate c).evidencePresent = true) :
    ∃ l bucket best, e.state.topology.find c.candidate = some l ∧
      e.replacementEvidence.find? c.candidate = some bucket ∧
      best ∈ bucket.entries.filter (e.bindsReplacement l) ∧
      e.resolveCandidate c =
        { candidate := c.candidate
          linkGeneration := l.generation
          generationAsserted := !c.expectedGeneration.isZero
          generationMatched :=
            !!c.expectedGeneration.isZero || c.expectedGeneration = l.generation
          evidencePresent := true
          report := best.2.report
          evidenceDigest := best.2.digest
          freshness := (e.classifyRetained best.2).1
          ageTicks := (e.classifyRetained best.2).2
          conflicted := e.contradicted (bucket.entries.filter (e.bindsReplacement l)) best } := by
  unfold resolveCandidate at h ⊢
  cases hl : e.state.topology.find c.candidate with
  | none =>
    rw [hl] at h
    cases h
  | some l =>
    rw [hl] at h
    dsimp only at h ⊢
    cases hb : e.replacementEvidence.find? c.candidate with
    | none =>
      rw [hb] at h
      cases h
    | some bucket =>
      rw [hb] at h
      dsimp only at h ⊢
      cases hbest : (bucket.entries.filter (e.bindsReplacement l)).foldl e.betterReplacement
          none with
      | none =>
        rw [hbest] at h
        cases h
      | some best =>
        refine ⟨l, bucket, best, rfl, rfl, ?_, rfl⟩
        rcases foldl_betterReplacement_mem hbest rfl with hm | hm
        · exact hm
        · cases hm

theorem bindsReplacement_iff {l : LinkDefinition} {x : PublisherName × RetainedReplacementEvidence} :
    e.bindsReplacement l x = true ↔ e.publisherCurrent x.1 x.2.report.stamp = true ∧
      x.2.report.linkGeneration = l.generation ∧
      x.2.report.topologyGeneration = e.state.topology.generation := by
  simp only [bindsReplacement, Bool.and_eq_true, decide_eq_true_eq, and_assoc]

/-- An observation that binds a link and qualifies. -/
theorem qualifiedReplacement_iff {wire : Prop} (h : EngineOk wire e) {l : LinkDefinition}
    {x : PublisherName × RetainedReplacementEvidence}
    (hx : EvidenceTable.Has e.replacementEvidence l.link x.1 x.2) :
    e.bindsReplacement l x = true ∧ e.qualifiesReplacement x.2 = true ↔
      QualifiedReplacement e l x.1 x.2 := by
  rw [bindsReplacement_iff, publisherCurrent_iff, qualifiesReplacement, Bool.and_eq_true,
    decide_eq_true_eq, decide_eq_true_eq, classifyRetained, classifyReceipt_current_iff]
  obtain ⟨hs, hpub⟩ := h.replacements hx
  constructor
  · rintro ⟨⟨hp, hl, ht⟩, ⟨hc, ha, hf⟩, hconf⟩
    exact ⟨⟨hc, ha, hf, hpub, hp⟩, hs, hl, ht, hconf⟩
  · intro hq
    exact ⟨⟨hq.incarnation, hq.linkGeneration, hq.topologyGeneration⟩,
      ⟨hq.received, hq.arrived, hq.fresh⟩, hq.confidence⟩

/-- A candidate of a request that the evidence supports. -/
structure Supported (e : Engine) (req : FailoverRequest) (subject : LinkDefinition)
    (c : ReplacementCandidate) (l : LinkDefinition) : Prop where
  candidate : c ∈ req.candidates
  found : e.state.topology.find c.candidate = some l
  generation : c.expectedGeneration.isZero = false → c.expectedGeneration = l.generation
  other : c.candidate ≠ req.subject
  /-- A qualified observation finds the link usable, with the capacity and the adjacency that
  the policy in force asks for. The gates name the states that they turn away, so a value outside
  the enumeration, which no decoder lets in, passes them. -/
  observed : ∃ p x, EvidenceTable.Has e.replacementEvidence c.candidate p x ∧
    QualifiedReplacement e l p x ∧
    (x.report.state = .up ∨
      x.report.state = .degraded ∧ e.state.policy.allowDegradedReplacement = true ∨
      ¬WireEnum.Declared x.report.state) ∧
    (e.selectionInput req subject).minReplacementCapacity ≤ x.report.capacityUnits ∧
    (e.state.policy.requireAdjacencyAuthorization = true → x.report.adjacencyAuthorized = true)
  uncontradicted : ∀ p x q y, EvidenceTable.Has e.replacementEvidence c.candidate p x →
    QualifiedReplacement e l p x → EvidenceTable.Has e.replacementEvidence c.candidate q y →
    QualifiedReplacement e l q y → x.report.state = y.report.state

theorem supported {wire : Prop} (h : EngineOk wire e) {req : FailoverRequest}
    {subject : LinkDefinition} {c : ReplacementCandidate} (hs : Selects e req subject c) :
    ∃ l, Supported e req subject c l ∧
      (assess (e.selectionInput req subject) (e.resolveCandidate c)).candidate = c.candidate ∧
      (assess (e.selectionInput req subject) (e.resolveCandidate c)).linkGeneration =
        l.generation := by
  obtain ⟨l, bucket, best, hl, hb, hm, hr⟩ := resolveCandidate_evidence hs.qualifies.evidencePresent
  obtain ⟨hbucket, hbinds⟩ := List.mem_filter.mp hm
  have hlink : l.link = c.candidate := (TopologySnapshot.find_link hl).2
  have hq := hs.qualifies
  rw [hr] at hq
  obtain ⟨hne, hnc, -, hgen, hcur, hconf, hstate, hcap, hadj⟩ := hq
  have hhas : ∀ {x}, x ∈ bucket.entries →
      EvidenceTable.Has e.replacementEvidence l.link x.1 x.2 := fun hx => by
    rw [hlink]
    exact EvidenceTable.has_of_find hb hx
  have hbest : e.qualifiesReplacement best.2 = true := by
    rw [qualifiesReplacement, Bool.and_eq_true, decide_eq_true_eq, decide_eq_true_eq]
    exact ⟨hcur, hconf⟩
  -- every qualified observation agrees with the chosen one
  have hagree : ∀ p x, EvidenceTable.Has e.replacementEvidence c.candidate p x →
      QualifiedReplacement e l p x → x.report.state = best.2.report.state := by
    intro p x hx hqx
    have hmem : (p, x) ∈ bucket.entries := by
      obtain ⟨b, hbm, hbl, hxm⟩ := hx
      have := SortedMap.find?_of_mem hbm
      rw [hbl, hb] at this
      cases this
      exact hxm
    obtain ⟨h1, h2⟩ := (qualifiedReplacement_iff h (x := (p, x)) (hlink ▸ hx)).mpr hqx
    have hnone := List.any_eq_false.mp hnc (p, x) (List.mem_filter.mpr ⟨hmem, h1⟩)
    by_cases hp : p = best.1
    · have heq := SortedMap.eq_of_key hmem hbucket hp
      rw [← heq]
    · by_contra hstate
      exact hnone (by simp [hp, h2, hstate])
  refine ⟨l, ⟨hs.candidate, hl, fun hz => ?_, hne, ?_, ?_⟩, ?_, ?_⟩
  · have := hgen (by simp [hz])
    simpa [hz] using this
  · exact ⟨best.1, best.2, hlink ▸ hhas hbucket,
      (qualifiedReplacement_iff h (hhas hbucket)).mp ⟨hbinds, hbest⟩, hstate, hcap, hadj⟩
  · intro p x q y hx hqx hy hqy
    rw [hagree p x hx hqx, hagree q y hy hqy]
  · rw [hr]
    rfl
  · rw [hr]
    rfl

/-! ## Answers that grant -/

/-- A plan that is not a grant does not answer like one. -/
def Ungranted : FailoverPlan → Prop
  | .fail _ | .grant _ _ => True
  | .replay d => d.idempotentReplay = true
  | .settle d _ | .record d _ => d.kind ≠ .grant

variable {req : FailoverRequest} {d : FailoverDecision}

theorem closeAttempt_ungranted {evidence : Digest} {reasons : ReasonLog} (h : d.kind ≠ .grant) :
    Ungranted (e.closeAttempt req d evidence reasons) := by
  unfold closeAttempt
  split
  · exact h
  · exact h

theorem planEvidence_ungranted (link : LinkDefinition) :
    Ungranted (e.planEvidence req d link) := by
  unfold planEvidence
  dsimp only
  split
  · refine closeAttempt_ungranted ?_
    dsimp only
    split <;> simp
  · rcases @planSelection_cases e req d
      (e.evaluateFailure req.subject req.subjectGeneration) link with
      ⟨s, hp⟩ | ⟨d', hp, hk⟩ | ⟨status, hp⟩ | ⟨c, hs, hw, hp⟩
    · rw [hp]
      trivial
    · rw [hp, Ungranted, hk]
      simp
    · rw [hp]
      refine closeAttempt_ungranted ?_
      cases status <;> simp [unselected]
    · rw [hp]
      trivial

theorem planRevalidation_ungranted (link : LinkDefinition) :
    Ungranted (e.planRevalidation req d link) := by
  unfold planRevalidation
  split
  · exact planEvidence_ungranted link
  split
  · dsimp only
    split
    · exact fun h => by cases h
    · exact fun h => by cases h
  · exact planEvidence_ungranted link

theorem planExpectation_ungranted (link : LinkDefinition) :
    Ungranted (e.planExpectation req d link) := by
  unfold planExpectation
  dsimp only
  split
  · exact fun h => by cases h
  split
  · exact fun h => by cases h
  unfold planAuthority
  split
  · exact fun h => by cases h
  · exact planRevalidation_ungranted link

theorem planFailover_ungranted : Ungranted (e.planFailover req) := by
  unfold planFailover
  split
  · trivial
  split
  · rfl
  unfold planSubject
  split
  · trivial
  split
  · trivial
  exact planExpectation_ungranted _

/-- A decision after it was written, or after that failed. -/
def Recorded (d d' : FailoverDecision) : Prop :=
  ∃ durable seq id reasons,
    d' = { d with durable := durable, lineageSeq := seq, decisionId := id, reasons := reasons }

theorem commitDecision_recorded (d : FailoverDecision) : Recorded d (e.commitDecision d).2 := by
  unfold commitDecision
  dsimp only
  split
  · exact ⟨_, _, _, _, rfl⟩
  · exact ⟨_, _, _, _, rfl⟩

theorem settleUndurable_recorded {d' : FailoverDecision} (h : (e.settleUndurable d).2 = .ok d') :
    Recorded d d' := by
  cases h
  exact ⟨_, _, _, _, rfl⟩

theorem settleDurable_recorded {key : Digest} {d' : FailoverDecision}
    (h : (e.settleDurable d key).2 = .ok d') : Recorded d d' := by
  cases h
  exact commitDecision_recorded d

theorem afterWrite_ok {written : LineageStore × Status} {detail : String}
    {k : Engine → Engine × Result FailoverDecision} {d' : FailoverDecision}
    (h : (e.afterWrite written detail k).2 = .ok d') :
    written.2.isOk = true ∧ (k (e.withWrite written)).2 = .ok d' := by
  unfold afterWrite at h
  split at h
  · cases h
  · rename_i hok
    exact ⟨by simpa using hok, h⟩

/-- Only the plan of a grant is answered by a grant of its own. -/
theorem execute_granted {plan : FailoverPlan} (hp : Ungranted plan)
    (h : (e.execute req plan).2 = .ok d) (hk : d.kind = .grant)
    (hi : d.idempotentReplay = false) : ∃ d' a, plan = .grant d' a ∧ Recorded d' d := by
  cases plan with
  | fail s => cases h
  | replay d' =>
    cases h
    rw [Ungranted, hi] at hp
    cases hp
  | settle d' durable =>
    have hr : Recorded d' d := by
      cases durable with
      | true => exact settleDurable_recorded h
      | false => exact settleUndurable_recorded h
    obtain ⟨_, _, _, _, rfl⟩ := hr
    exact absurd hk hp
  | record d' r =>
    obtain ⟨_, _, _, _, rfl⟩ := settleDurable_recorded (afterWrite_ok h).2
    exact absurd hk hp
  | grant d' a =>
    exact ⟨d', a, rfl, settleDurable_recorded (afterWrite_ok (afterWrite_ok h).2).2⟩

end Engine

/-- What a grant states, all of it in one state of the engine. -/
structure SoundGrant (e : Engine) (req : FailoverRequest) (d : FailoverDecision) : Prop where
  enabled : e.state.policy.failoverEnabled = true
  expected : req.expected.Holds (e.currentAuthority req.subject req.subjectGeneration)
  failure : e.FailureAgreed req.subject req.subjectGeneration
  counted : ∀ x, x ∈ e.qualifiedFailures req.subject req.subjectGeneration ↔
    EvidenceTable.Has e.failureEvidence req.subject x.1 x.2 ∧
      QualifiedFailure e req.subject req.subjectGeneration x.1 x.2
  replacement : ∃ subject c l, e.state.topology.find req.subject = some subject ∧
    subject.generation = req.subjectGeneration ∧ Engine.Supported e req subject c l ∧
    d.replacement = c.candidate ∧ d.replacementGeneration = l.generation

/-- A grant that is not an idempotent replay is sound, at the tick of the request. -/
theorem requestFailover_granted {e : Engine} (h : Reachable e) {req : FailoverRequest}
    {d : FailoverDecision} (hd : (e.requestFailover req).2 = .ok d) (hk : d.kind = .grant)
    (hi : d.idempotentReplay = false) : SoundGrant e.advance req d := by
  have hok : EngineOk False e.advance := h.ok.leads Engine.advance_leads
  unfold Engine.requestFailover at hd
  split at hd
  · cases hd
  obtain ⟨d', a, hplan, hrec⟩ := Engine.execute_granted Engine.planFailover_ungranted hd hk hi
  obtain ⟨subject, c, gates, hgrant⟩ := Engine.planFailover_grant hplan
  obtain ⟨l, hs, hc, hl⟩ := Engine.supported hok gates.selects
  cases hgrant
  obtain ⟨_, _, _, _, rfl⟩ := hrec
  exact
    { enabled := gates.enabled
      expected := gates.expected
      failure := Engine.failureEstablished gates.established
      counted := fun x => Engine.mem_qualifiedFailures hok
      replacement := ⟨subject, c, l, gates.subject, gates.subjectGeneration, hs, hc, hl⟩ }

/-- A process that has just heard of the failure grants the alternate. -/
theorem requestFailover_granted_sample : ∃ e d, Reachable e ∧
    (e.requestFailover (Sample.request ⟨1⟩)).2 = .ok d ∧
    SoundGrant e.advance (Sample.request ⟨1⟩) d := by
  obtain ⟨e, he, hp⟩ := @System.of_serves (System.run (Sample.booted {} {}))
    (fun e => e.grants (Sample.request ⟨1⟩)) (by decide +kernel)
  obtain ⟨d, hd, hk, hi⟩ := Engine.grants_iff.mp hp
  exact ⟨e, d, ⟨_, he⟩, hd, requestFailover_granted ⟨_, he⟩ hd hk hi⟩

end LinkFailover
