import LinkFailover.Retention

/-!
# What a plan has checked

A plan that writes has passed every gate in front of the write. The lemmas follow the stages of
the plan from the last one to the first; each stage only adds the condition that it checks
itself.

* `planFailover_ok`: whatever is planned is fit to be written.
* `planFailover_grant`: the gates that a grant has passed.
-/

namespace LinkFailover

open Codec

/-! ## Decisions that are fit to be written -/

/-- What the decoders of decisions and of idempotency entries ask of a decision. -/
structure DecisionOk (wire : Prop) (d : FailoverDecision) : Prop where
  subject : d.subject.empty = false
  replacement : d.hasReplacement = true → d.replacement.empty = false
  noReplacement : d.hasReplacement = false →
    d.replacement = {} ∧ d.replacementGeneration = .zero
  reasons : d.reasons.length ≤ kMaxReasons
  candidates : d.candidates.length ≤ kMaxDecisionCandidates
  assessments : wire → ∀ a ∈ d.candidates, a.Encodable

theorem DecisionOk.encodable {wire : Prop} {d : FailoverDecision} (h : DecisionOk wire d)
    (hw : wire) : d.Encodable :=
  ⟨h.reasons, h.candidates, h.assessments hw⟩

theorem DecisionOk.entry {wire : Prop} {d : FailoverDecision} (h : DecisionOk wire d)
    {key : Digest}
    (hs : (Writer.run (Engine.idempotencyEntry d key).encode).length ≤
      kMaxIdempotencyDecisionBytes) : (Engine.idempotencyEntry d key).Encodable :=
  ⟨h.subject, h.replacement, h.noReplacement, h.reasons, hs⟩

/-- A decision that names no replacement, with few reasons and no candidates. -/
theorem DecisionOk.plain {wire : Prop} {d : FailoverDecision} (hs : d.subject.empty = false)
    (hh : d.hasReplacement = false) (hr : d.replacement = {})
    (hg : d.replacementGeneration = .zero) (hl : d.reasons.length ≤ kMaxReasons)
    (hc : d.candidates = []) : DecisionOk wire d where
  subject := hs
  replacement h := by rw [hh] at h; cases h
  noReplacement _ := ⟨hr, hg⟩
  reasons := hl
  candidates := by rw [hc]; exact Nat.zero_le _
  assessments _ := by simp [hc]

namespace Engine

/-- A decision as a request starts with it. -/
structure Blank (req : FailoverRequest) (d : FailoverDecision) : Prop where
  subject : d.subject = req.subject
  hasReplacement : d.hasReplacement = false
  replacement : d.replacement = {}
  replacementGeneration : d.replacementGeneration = .zero
  reasons : d.reasons = []
  candidates : d.candidates = []

/-- What the structural checks of a request leave. -/
structure Checked (e : Engine) (req : FailoverRequest) : Prop where
  fabric : req.subject.fabric = e.options.fabric
  link : req.subject.link.empty = false
  limit : req.candidates.length ≤ e.options.limits.maxCandidatesPerRequest
  candidates : req.candidates.length ≤ e.state.policy.maxCandidates.toNat
  fabrics : ∀ c ∈ req.candidates, c.candidate.fabric = e.options.fabric
  others : ∀ c ∈ req.candidates, c.candidate ≠ req.subject
  nodup : (req.candidates.map (·.candidate)).Nodup

theorem checkCandidates_none {fabric : FabricName} {subject : LinkKey} {seen : List LinkKey}
    {cs : List ReplacementCandidate} (h : checkCandidates fabric subject seen cs = none) :
    (∀ c ∈ cs, c.candidate.fabric = fabric ∧ c.candidate ≠ subject ∧ c.candidate ∉ seen) ∧
      (cs.map (·.candidate)).Nodup := by
  induction cs generalizing seen with
  | nil => simp
  | cons c cs ih =>
    rw [checkCandidates] at h
    by_cases h1 : c.candidate.fabric ≠ fabric
    · rw [if_pos h1] at h
      cases h
    rw [if_neg h1] at h
    by_cases h2 : c.candidate = subject
    · rw [if_pos h2] at h
      cases h
    rw [if_neg h2] at h
    by_cases h3 : c.candidate ∈ seen
    · rw [if_pos h3] at h
      cases h
    rw [if_neg h3] at h
    obtain ⟨hall, hn⟩ := ih h
    refine ⟨fun x hx => ?_, ?_⟩
    · rcases List.mem_cons.mp hx with rfl | hx
      · exact ⟨not_not.mp h1, h2, h3⟩
      · obtain ⟨a, b, c⟩ := hall x hx
        exact ⟨a, b, fun hm => c (List.mem_cons_of_mem _ hm)⟩
    · rw [List.map_cons, List.nodup_cons]
      refine ⟨fun hm => ?_, hn⟩
      obtain ⟨x, hx, he⟩ := List.mem_map.mp hm
      exact (hall x hx).2.2 (he ▸ List.mem_cons_self)

theorem checkRequest_none {e : Engine} {req : FailoverRequest} (h : e.checkRequest req = none) :
    Checked e req := by
  unfold checkRequest at h
  by_cases h1 : req.subject.fabric ≠ e.options.fabric
  · rw [if_pos h1] at h
    cases h
  rw [if_neg h1] at h
  by_cases h2 : req.subject.link.empty = true
  · rw [if_pos h2] at h
    cases h
  rw [if_neg h2] at h
  by_cases h3 : req.subjectGeneration.isZero = true
  · rw [if_pos h3] at h
    cases h
  rw [if_neg h3] at h
  by_cases h4 : req.candidates.length > e.options.limits.maxCandidatesPerRequest ∨
      req.candidates.length > e.state.policy.maxCandidates.toNat
  · rw [if_pos h4] at h
    cases h
  rw [if_neg h4] at h
  obtain ⟨hall, hn⟩ := checkCandidates_none h
  exact
    { fabric := not_not.mp h1
      link := by simpa using h2
      limit := by omega
      candidates := by omega
      fabrics := fun c hc => (hall c hc).1
      others := fun c hc => (hall c hc).2.1
      nodup := hn }

/-! ## Plans -/

/-- What a plan relies on. -/
structure Ready (wire : Prop) (e : Engine) : Prop where
  fabric : e.options.fabric.empty = false
  policy : e.state.policy.validate.isOk = true
  topology : e.state.topology.validate.isOk = true
  epoch : e.epoch = e.state.epoch
  coordinator : e.incarnation = e.state.coordinator
  evidence : wire → ∀ b ∈ e.replacementEvidence.entries, ∀ r ∈ b.2.entries,
    Plausible r.2.report.state r.2.report.confidence

/-- The gates in front of every new attempt. -/
structure Open (e : Engine) (req : FailoverRequest) : Prop where
  checked : e.Checked req
  key : e.state.findIdempotency req.idempotencyKey = none
  active : e.state.activeAuthority req.subject req.subjectGeneration = none
  latest : ∀ q, e.state.latestAttempt req.subject req.subjectGeneration = some q →
    q.phase ≠ .interrupted

/-- What a plan writes is fit to be written. -/
def PlanOk (wire : Prop) (e : Engine) : FailoverPlan → Prop
  | .fail _ | .replay _ => True
  | .settle d durable => durable = true → DecisionOk wire d
  | .record d r => DecisionOk wire d ∧ Creates e.state r ∧
      (r.phase = .refused ∨ r.phase = .indeterminate) ∧ r.authority = {}
  | .grant d a => DecisionOk wire d ∧ Creates e.state a ∧ a.phase = .evaluated ∧
      a.authority.Binds e.state

/-- A decision of a request, with the assessments it was made from. -/
structure Assessed (wire : Prop) (req : FailoverRequest) (d : FailoverDecision) : Prop where
  subject : d.subject = req.subject
  hasReplacement : d.hasReplacement = false
  replacement : d.replacement = {}
  replacementGeneration : d.replacementGeneration = .zero
  candidates : d.candidates.length ≤ kMaxDecisionCandidates
  assessments : wire → ∀ a ∈ d.candidates, a.Encodable

theorem Assessed.decisionOk {wire : Prop} {req : FailoverRequest} {d : FailoverDecision}
    (h : Assessed wire req d) (hs : req.subject.empty = false) (hl : d.reasons.length ≤ kMaxReasons) :
    DecisionOk wire d where
  subject := by rw [h.subject, hs]
  replacement hr := by rw [h.hasReplacement] at hr; cases hr
  noReplacement _ := ⟨h.replacement, h.replacementGeneration⟩
  reasons := hl
  candidates := h.candidates
  assessments := h.assessments

section Stages

variable {wire : Prop} {e : Engine} {req : FailoverRequest} {d : FailoverDecision}

theorem Checked.subject (h : e.Checked req) (hr : Ready wire e) : req.subject.empty = false := by
  rw [LinkKey.empty, h.fabric, hr.fabric, h.link]
  rfl

theorem withinBudget_iff : e.withinBudget req = true ↔
    e.state.countAttempts req.subject req.subjectGeneration <
      e.state.policy.maxAttemptsPerGeneration.toNat :=
  decide_eq_true_iff

/-- An attempt that is within the budget, under the next sequence. -/
theorem Open.creates (h : e.Open req) (hr : Ready wire e) (hw : e.withinBudget req = true)
    {r : AttemptRecord} (hs : r.subject = req.subject)
    (hg : r.subjectGeneration = req.subjectGeneration) (hk : r.idempotencyKey = req.idempotencyKey)
    (hq : r.attemptSeq = e.nextAttemptSeq req)
    (hi : r.attemptId =
      computeAttemptId e.options.fabric req.subject req.subjectGeneration r.attemptSeq)
    (hc : r.createSeq = .zero) (hv : r.revalidated = false) (hu : r.revalidation = .unknown)
    (hn : ReplacementNormal r.replacement r.replacementGeneration) : Creates e.state r where
  budget := by
    rw [hs, hg]
    exact withinBudget_iff.mp hw
  seq := by
    rw [hs, hg, hq]
    rfl
  id := by rw [hi, hs, hg, h.checked.fabric]
  createSeq := hc
  subject := by rw [hs, h.checked.subject hr]
  replacement := hn
  active := by rw [hs, hg, h.active]
  latest := by
    rw [hs, hg]
    exact h.latest
  revalidated := hv
  revalidation := hu
  key := by rw [hk, h.key]

theorem closeAttempt_ok (h : e.Open req) (hr : Ready wire e) (ha : Assessed wire req d)
    {evidence : Digest} {reasons : ReasonLog} (hk : d.kind = .refuse ∨ d.kind = .indeterminate)
    (hl : d.reasons.length ≤ kMaxReasons) :
    PlanOk wire e (e.closeAttempt req d evidence reasons) := by
  unfold closeAttempt
  by_cases hw : e.withinBudget req = true
  · rw [if_pos hw]
    refine ⟨ha.decisionOk (h.checked.subject hr) hl,
      h.creates hr hw rfl rfl rfl rfl rfl rfl rfl rfl (.inr ⟨rfl, rfl⟩), ?_, rfl⟩
    rcases hk with hk | hk <;> simp [closedAttempt, hk]
  · rw [if_neg hw]
    exact fun hc => by cases hc

theorem planUnestablished_ok (h : e.Open req) (hr : Ready wire e) (hb : Blank req d)
    (v : FailureVerdict) : PlanOk wire e (e.planUnestablished req d v) := by
  unfold planUnestablished
  refine closeAttempt_ok h hr ?_ ?_ ?_
  · exact ⟨hb.subject, hb.hasReplacement, hb.replacement, hb.replacementGeneration,
      by rw [hb.candidates]; exact Nat.zero_le _, by simp [hb.candidates]⟩
  · dsimp only
    split
    · exact .inl rfl
    · exact .inr rfl
  · have := (reasonsOfVerdict v).bounded
    rw [kMaxReasons]
    rw [kMaxAttemptReasons] at this
    dsimp only
    omega

theorem planUnselected_ok (h : e.Open req) (hr : Ready wire e) (ha : Assessed wire req d)
    (status : SelectionStatus) : PlanOk wire e (e.planUnselected req d status) := by
  unfold planUnselected
  refine closeAttempt_ok h hr ?_ ?_ ?_
  · exact ⟨ha.subject, ha.hasReplacement, ha.replacement, ha.replacementGeneration,
      ha.candidates, ha.assessments⟩
  · cases status <;> simp [unselected]
  · have := (unselected status).2.2.bounded
    rw [kMaxReasons]
    rw [kMaxAttemptReasons] at this
    dsimp only
    omega

/-! ## The selected candidate -/

theorem find_nonempty {t : TopologySnapshot} (ht : t.validate.isOk = true) {key : LinkKey}
    {l : LinkDefinition} (h : t.find key = some l) :
    key.empty = false ∧ l.generation.isZero = false := by
  obtain ⟨hm, rfl⟩ := TopologySnapshot.find_link h
  unfold TopologySnapshot.validate at ht
  split at ht
  · exact absurd ht (by decide)
  split at ht
  · split at ht <;> exact absurd ht (by decide)
  · rename_i hf
    have := List.find?_eq_none.mp hf l hm
    simpa using this

/-- Only a link of the topology has evidence. -/
theorem resolveCandidate_present {c : ReplacementCandidate}
    (h : (e.resolveCandidate c).evidencePresent = true) :
    ∃ l, e.state.topology.find c.candidate = some l ∧
      (e.resolveCandidate c).linkGeneration = l.generation := by
  unfold resolveCandidate at h ⊢
  split at h
  · cases h
  · rename_i l hl
    refine ⟨l, hl, ?_⟩
    split
    · rfl
    · dsimp only
      split <;> rfl

theorem resolveCandidate_candidate (c : ReplacementCandidate) :
    (e.resolveCandidate c).candidate = c.candidate := by
  unfold resolveCandidate
  split
  · rfl
  · dsimp only
    split
    · rfl
    · split <;> rfl

theorem foldl_betterReplacement_mem
    {bound : List (PublisherName × RetainedReplacementEvidence)}
    {init best : Option (PublisherName × RetainedReplacementEvidence)}
    (h : bound.foldl e.betterReplacement init = best) {b : PublisherName × RetainedReplacementEvidence}
    (hb : best = some b) : b ∈ bound ∨ init = some b := by
  induction bound generalizing init with
  | nil => exact .inr (h.trans hb)
  | cons x bound ih =>
    rcases ih h with hm | hm
    · exact .inl (List.mem_cons_of_mem _ hm)
    · unfold betterReplacement at hm
      split at hm
      · cases hm
        exact .inl List.mem_cons_self
      · split at hm
        · cases hm
          exact .inl List.mem_cons_self
        · exact .inr hm

/-- The report behind a candidate is one that is retained, or none. -/
theorem resolveCandidate_report (c : ReplacementCandidate) :
    (e.resolveCandidate c).report = {} ∨
      ∃ b ∈ e.replacementEvidence.entries, ∃ r ∈ b.2.entries,
        (e.resolveCandidate c).report = r.2.report := by
  unfold resolveCandidate
  split
  · exact .inl rfl
  · rename_i l hl
    dsimp only
    split
    · exact .inl rfl
    · rename_i bucket hbucket
      split
      · exact .inl rfl
      · rename_i best hbest
        rcases foldl_betterReplacement_mem hbest rfl with hm | hm
        · exact .inr ⟨_, SortedMap.mem_of_find? hbucket, best, (List.mem_filter.mp hm).1, rfl⟩
        · cases hm

theorem assessments_encodable (hr : Ready wire e) (hw : wire) (link : LinkDefinition)
    {a : CandidateAssessment}
    (ha : a ∈ (selectReplacement (e.selectionInput req link)).assessments) : a.Encodable := by
  obtain ⟨r, hrm, rfl⟩ := mem_assessments ha
  refine ⟨assess_detail_length _ _, assess_verdict_declared _ _, ?_⟩
  obtain ⟨c, -, rfl⟩ := List.mem_map.mp (BoundedTable.mem_sortBy.mp hrm)
  change Plausible (e.resolveCandidate c).report.state (e.resolveCandidate c).report.confidence
  rcases e.resolveCandidate_report c with h | ⟨b, hb, x, hx, h⟩
  · rw [h]
    decide
  · rw [h]
    exact hr.evidence hw b hb x hx

theorem maxCandidates_le {p : FailoverPolicy} (h : p.validate.isOk = true) :
    p.maxCandidates.toNat ≤ kMaxDecisionCandidates := by
  by_contra hgt
  rw [kMaxDecisionCandidates] at hgt
  have hmax : p.maxCandidates > kMaxPolicyCandidates := by
    rw [gt_iff_lt, UInt32.lt_iff_toNat_lt, kMaxPolicyCandidates]
    change 256 < _
    omega
  have hc : (p.maxCandidates == 0 || decide (p.maxCandidates > kMaxPolicyCandidates)) = true := by
    simp [hmax]
  unfold FailoverPolicy.validate at h
  split at h
  · exact absurd h (by decide)
  split at h
  · exact absurd h (by decide)
  split at h
  · exact absurd h (by decide)
  exact absurd h (by decide)

/-- A selected candidate is one of the request that qualifies. -/
structure Selects (e : Engine) (req : FailoverRequest) (link : LinkDefinition)
    (c : ReplacementCandidate) : Prop where
  candidate : c ∈ req.candidates
  qualifies : Qualifies (e.selectionInput req link) (e.resolveCandidate c)
  selected : (selectReplacement (e.selectionInput req link)).status = .selected

/-- How the stage behind a selection ends. -/
theorem planSelected_cases {v : FailureVerdict} {link : LinkDefinition}
    (hs : (selectReplacement (e.selectionInput req link)).status = .selected)
    (hv : (validateSelection (e.selectionInput req link)
      (selectReplacement (e.selectionInput req link))).isOk = true) :
    let plan := e.planSelected req d v (e.selectionInput req link)
      (selectReplacement (e.selectionInput req link))
    (∃ s, plan = .fail s) ∨ (∃ d', plan = .settle d' false ∧ d'.kind = .refuse) ∨
      ∃ c, Selects e req link c ∧ e.withinBudget req = true ∧
        plan = e.planGrant req d v (assess (e.selectionInput req link) (e.resolveCandidate c))
          (e.nextAttemptSeq req) := by
  intro plan
  have hplan : plan = e.planSelected req d v (e.selectionInput req link)
    (selectReplacement (e.selectionInput req link)) := rfl
  unfold planSelected at hplan
  by_cases hw : e.withinBudget req = true
  swap
  · rw [if_pos (by simpa using hw)] at hplan
    exact .inr (.inl ⟨_, hplan, rfl⟩)
  rw [if_neg (by simp [hw])] at hplan
  cases hc : chosenAssessment (e.selectionInput req link)
      (selectReplacement (e.selectionInput req link)) with
  | none =>
    rw [hc] at hplan
    exact .inl ⟨_, hplan⟩
  | some chosen =>
    rw [hc] at hplan
    dsimp only at hplan
    cases hn : checkedAddU64 (UInt64.ofNat (e.attemptCount req)) 1 with
    | none =>
      rw [hn] at hplan
      exact .inl ⟨_, hplan⟩
    | some next =>
      rw [hn] at hplan
      dsimp only at hplan
      have hcount := withinBudget_iff.mp hw
      have hmax := e.state.policy.maxAttemptsPerGeneration.toNat_lt
      have hnext : (⟨next⟩ : AttemptSeq) = e.nextAttemptSeq req := by
        rw [← StrongUint.toNat_inj]
        change next.toNat = (UInt64.ofNat (e.attemptCount req + 1)).toNat
        rw [checkedAddU64_one hn, UInt64.toNat_ofNat', UInt64.toNat_ofNat', attemptCount,
          Nat.mod_eq_of_lt (by omega), Nat.mod_eq_of_lt (by omega)]
      obtain ⟨chosen', hsel, hmem, helig⟩ := validateSelection_selected hs hv
      have hchosen : chosen = chosen' := by
        unfold chosenAssessment at hc
        rw [hsel] at hc
        dsimp only at hc
        split at hc
        · cases hc
          rfl
        · cases hc
      obtain ⟨r, hr, hassess⟩ := mem_assessments hmem
      obtain ⟨c, hcm, rfl⟩ := List.mem_map.mp (BoundedTable.mem_sortBy.mp hr)
      rw [hnext, hchosen, ← hassess] at hplan
      rw [← hassess] at helig
      exact .inr (.inr ⟨c, ⟨hcm, assess_eligible helig, hs⟩, hw, hplan⟩)

/-- The grant of a selected candidate. -/
theorem planGrant_ok (h : e.Open req) (hr : Ready wire e) (ha : Assessed wire req d)
    {v : FailureVerdict} {link : LinkDefinition} {c : ReplacementCandidate}
    (hs : Selects e req link c) (hw : e.withinBudget req = true) :
    PlanOk wire e (e.planGrant req d v
      (assess (e.selectionInput req link) (e.resolveCandidate c)) (e.nextAttemptSeq req)) := by
  obtain ⟨l, hl, -⟩ := e.resolveCandidate_present hs.qualifies.evidencePresent
  have hne : (e.resolveCandidate c).candidate.empty = false := by
    rw [resolveCandidate_candidate]
    exact (find_nonempty hr.topology hl).1
  refine ⟨⟨?_, fun _ => hne, fun hc => ?_, ?_, ha.candidates, ha.assessments⟩,
    h.creates hr hw rfl rfl rfl rfl rfl rfl rfl rfl (.inl hne), rfl, ?_⟩
  · change d.subject.empty = false
    rw [ha.subject, h.checked.subject hr]
  · cases hc
  · exact Nat.le_of_ble_eq_true rfl
  · exact ⟨hr.epoch, hr.coordinator, rfl, rfl, rfl, rfl⟩

/-- The decision behind a selection. -/
def assessedDecision (e : Engine) (req : FailoverRequest) (d : FailoverDecision)
    (v : FailureVerdict) (link : LinkDefinition) : FailoverDecision :=
  { d with
    candidates := (selectReplacement (e.selectionInput req link)).assessments
    evidenceDigest := v.evidenceDigest }

theorem assessedDecision_assessed (h : e.Checked req) (hr : Ready wire e) (hb : Blank req d)
    (v : FailureVerdict) (link : LinkDefinition) :
    Assessed wire req (e.assessedDecision req d v link) where
  subject := hb.subject
  hasReplacement := hb.hasReplacement
  replacement := hb.replacement
  replacementGeneration := hb.replacementGeneration
  candidates := by
    have hl : (e.selectionInput req link).candidates.length = req.candidates.length := by
      rw [selectionInput, BoundedTable.sortBy_perm.length_eq, List.length_map]
    rw [assessedDecision, length_assessments, hl]
    exact Nat.le_trans h.candidates (maxCandidates_le hr.policy)
  assessments hw _ ha := assessments_encodable hr hw link ha

/-- How the stage behind an established failure ends. -/
theorem planSelection_cases (v : FailureVerdict) (link : LinkDefinition) :
    let plan := e.planSelection req d v link
    (∃ s, plan = .fail s) ∨ (∃ d', plan = .settle d' false ∧ d'.kind = .refuse) ∨
      (∃ status, plan = e.planUnselected req (e.assessedDecision req d v link) status) ∨
      ∃ c, Selects e req link c ∧ e.withinBudget req = true ∧
        plan = e.planGrant req (e.assessedDecision req d v link) v
          (assess (e.selectionInput req link) (e.resolveCandidate c)) (e.nextAttemptSeq req) := by
  intro plan
  have hplan : plan = e.planSelection req d v link := rfl
  unfold planSelection at hplan
  dsimp only at hplan
  by_cases hv : (validateSelection (e.selectionInput req link)
      (selectReplacement (e.selectionInput req link))).isOk = true
  swap
  · rw [if_pos (by simpa using hv)] at hplan
    exact .inl ⟨_, hplan⟩
  rw [if_neg (by simp [hv])] at hplan
  by_cases hs : (selectReplacement (e.selectionInput req link)).status = .selected
  swap
  · rw [if_pos hs] at hplan
    exact .inr (.inr (.inl ⟨_, hplan⟩))
  rw [if_neg (not_not.mpr hs)] at hplan
  rw [hplan]
  rcases planSelected_cases hs hv with h | h | h
  · exact .inl h
  · exact .inr (.inl h)
  · exact .inr (.inr (.inr h))

theorem planEvidence_ok (h : e.Open req) (hr : Ready wire e) (hb : Blank req d)
    (link : LinkDefinition) : PlanOk wire e (e.planEvidence req d link) := by
  unfold planEvidence
  dsimp only
  split
  · exact planUnestablished_ok h hr hb _
  · have ha := assessedDecision_assessed h.checked hr hb
      (e.evaluateFailure req.subject req.subjectGeneration) link
    rcases @planSelection_cases e req d
      (e.evaluateFailure req.subject req.subjectGeneration) link with
      ⟨s, hp⟩ | ⟨d', hp, -⟩ | ⟨status, hp⟩ | ⟨c, hs, hw, hp⟩ <;> rw [hp]
    · trivial
    · exact fun hc => by cases hc
    · exact planUnselected_ok h hr ha status
    · exact planGrant_ok h hr ha hs hw

theorem planRevalidation_ok (hc : e.Checked req)
    (hk : e.state.findIdempotency req.idempotencyKey = none)
    (hactive : e.state.activeAuthority req.subject req.subjectGeneration = none)
    (hr : Ready wire e) (hb : Blank req d) (link : LinkDefinition) :
    PlanOk wire e (e.planRevalidation req d link) := by
  unfold planRevalidation
  cases hl : e.state.latestAttempt req.subject req.subjectGeneration with
  | none => exact planEvidence_ok ⟨hc, hk, hactive, by simp [hl]⟩ hr hb link
  | some latest =>
    dsimp only
    by_cases hp : latest.phase = .interrupted
    · rw [if_pos hp]
      intro _
      split
      · exact .plain (by rw [← hc.subject hr]; exact congrArg LinkKey.empty hb.subject)
          hb.hasReplacement hb.replacement hb.replacementGeneration
          (by simp [FailoverDecision.because, hb.reasons, kMaxReasons]) hb.candidates
      · exact .plain (by rw [← hc.subject hr]; exact congrArg LinkKey.empty hb.subject)
          hb.hasReplacement hb.replacement hb.replacementGeneration
          (by simp [FailoverDecision.because, hb.reasons, kMaxReasons]) hb.candidates
    · rw [if_neg hp]
      refine planEvidence_ok ⟨hc, hk, hactive, fun q hq => ?_⟩ hr hb link
      rw [hl] at hq
      cases hq
      exact hp

theorem planExpectation_ok (hc : e.Checked req)
    (hk : e.state.findIdempotency req.idempotencyKey = none) (hr : Ready wire e)
    (hb : Blank req d) (link : LinkDefinition) : PlanOk wire e (e.planExpectation req d link) := by
  unfold planExpectation
  dsimp only
  split
  · exact fun h => by cases h
  split
  · exact fun h => by cases h
  unfold planAuthority
  split
  · exact fun h => by cases h
  · rename_i hactive
    exact planRevalidation_ok hc hk hactive hr hb link

/-- Whatever is planned is fit to be written. -/
theorem planFailover_ok (hr : Ready wire e) : PlanOk wire e (e.planFailover req) := by
  unfold planFailover
  split
  · trivial
  rename_i hcheck
  split
  · trivial
  rename_i hk
  unfold planSubject
  split
  · trivial
  split
  · trivial
  exact planExpectation_ok (checkRequest_none hcheck) hk hr ⟨rfl, rfl, rfl, rfl, rfl, rfl⟩ _

/-! ## The gates of a grant -/

/-- Everything that a granted request has passed. -/
structure GrantGates (e : Engine) (req : FailoverRequest) (link : LinkDefinition)
    (c : ReplacementCandidate) : Prop extends Open e req where
  subject : e.state.topology.find req.subject = some link
  subjectGeneration : link.generation = req.subjectGeneration
  expected : req.expected.Holds (e.currentAuthority req.subject req.subjectGeneration)
  enabled : e.state.policy.failoverEnabled = true
  established : (e.evaluateFailure req.subject req.subjectGeneration).established = true
  budget : e.withinBudget req = true
  selects : Selects e req link c

theorem closeAttempt_ne_grant {evidence : Digest} {reasons : ReasonLog} {d' : FailoverDecision}
    {a : AttemptRecord} : e.closeAttempt req d evidence reasons ≠ .grant d' a := by
  unfold closeAttempt
  split <;> simp

theorem planEvidence_grant {link : LinkDefinition} {d' : FailoverDecision} {a : AttemptRecord}
    (h : e.planEvidence req d link = .grant d' a) :
    (e.evaluateFailure req.subject req.subjectGeneration).established = true ∧
      e.withinBudget req = true ∧ ∃ c, Selects e req link c ∧ .grant d' a =
        e.planGrant req (e.assessedDecision req d
            (e.evaluateFailure req.subject req.subjectGeneration) link)
          (e.evaluateFailure req.subject req.subjectGeneration)
          (assess (e.selectionInput req link) (e.resolveCandidate c)) (e.nextAttemptSeq req) := by
  unfold planEvidence at h
  dsimp only at h
  split at h
  · exact absurd h closeAttempt_ne_grant
  rename_i hest
  rcases @planSelection_cases e req d
    (e.evaluateFailure req.subject req.subjectGeneration) link with
    ⟨s, hp⟩ | ⟨d', hp, -⟩ | ⟨status, hp⟩ | ⟨c, hs, hw, hp⟩ <;> rw [hp] at h
  · cases h
  · cases h
  · exact absurd h closeAttempt_ne_grant
  · exact ⟨by simpa using hest, hw, c, hs, h.symm⟩

/-- The gates that a grant has passed, and the grant behind them. -/
theorem planFailover_grant {d' : FailoverDecision} {a : AttemptRecord}
    (h : e.planFailover req = .grant d' a) :
    ∃ link c, GrantGates e req link c ∧ .grant d' a =
      e.planGrant req
        (e.assessedDecision req
          { e.baseDecision req.subject req.subjectGeneration with
            authority := e.currentAuthority req.subject req.subjectGeneration }
          (e.evaluateFailure req.subject req.subjectGeneration) link)
        (e.evaluateFailure req.subject req.subjectGeneration)
        (assess (e.selectionInput req link) (e.resolveCandidate c)) (e.nextAttemptSeq req) := by
  unfold planFailover at h
  split at h
  · cases h
  rename_i hcheck
  split at h
  · cases h
  rename_i hk
  unfold planSubject at h
  split at h
  · cases h
  rename_i link hlink
  split at h
  · cases h
  rename_i hgen
  unfold planExpectation at h
  dsimp only at h
  split at h
  · cases h
  rename_i hexp
  split at h
  · cases h
  rename_i hen
  unfold planAuthority at h
  split at h
  · cases h
  rename_i hactive
  have hexpected : req.expected.Holds (e.currentAuthority req.subject req.subjectGeneration) :=
    compareAuthority_eq_nil.mp (by simpa using hexp)
  unfold planRevalidation at h
  split at h
  · rename_i hl
    obtain ⟨hest, hw, c, hs, hp⟩ := planEvidence_grant h
    exact ⟨link, c,
      { checked := checkRequest_none hcheck
        key := hk
        active := hactive
        latest := by simp [hl]
        subject := hlink
        subjectGeneration := not_not.mp hgen
        expected := hexpected
        enabled := by simpa using hen
        established := hest
        budget := hw
        selects := hs }, hp⟩
  · rename_i latest hl
    split at h
    · cases h
    rename_i hphase
    obtain ⟨hest, hw, c, hs, hp⟩ := planEvidence_grant h
    exact ⟨link, c,
      { checked := checkRequest_none hcheck
        key := hk
        active := hactive
        latest := fun q hq => by
          rw [hl] at hq
          cases hq
          exact hphase
        subject := hlink
        subjectGeneration := not_not.mp hgen
        expected := hexpected
        enabled := by simpa using hen
        established := hest
        budget := hw
        selects := hs }, hp⟩

end Stages

end Engine

end LinkFailover
