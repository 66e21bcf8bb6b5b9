import LinkFailover.Agreement
import LinkFailover.Atomicity
import LinkFailover.PolicyText
import LinkFailover.Selections

/-!
# Warrants

When a request is granted. The gates in front of a grant are necessary and together they are
enough: no request that has passed them is turned away, and the checks of the coordinator on its
own work behind them never fail.

* `Engine.Warranted`: what a failover asks for.
* `Engine.warranted_iff`: exactly the warranted requests are planned as grants.
* `failover_granted_iff`: when a request is answered by a grant of its own.
* `grant_narrowed`: the candidates that a grant passes over have no part in it.
-/

namespace LinkFailover

open Codec

namespace Engine

variable {e : Engine} {req : FailoverRequest} {d : FailoverDecision}

/-! ## What a grant asks for -/

/-- A candidate of a request that may stand in for a link, of which no other is better. -/
structure BestCandidate (e : Engine) (req : FailoverRequest) (link : LinkDefinition)
    (c : ReplacementCandidate) : Prop where
  candidate : c ∈ req.candidates
  qualifies : Qualifies (e.selectionInput req link) (e.resolveCandidate c)
  best : ∀ c' ∈ req.candidates, Qualifies (e.selectionInput req link) (e.resolveCandidate c') →
    assessmentBetter (assess (e.selectionInput req link) (e.resolveCandidate c'))
      (assess (e.selectionInput req link) (e.resolveCandidate c)) = false

/-- What a failover asks for: of the request, of the definitions and the authority in force, of the
evidence and of the attempts so far. -/
structure Warranted (e : Engine) (req : FailoverRequest) (link : LinkDefinition) : Prop
    extends Open e req where
  bound : req.subjectGeneration.isZero = false
  subject : e.state.topology.find req.subject = some link
  subjectGeneration : link.generation = req.subjectGeneration
  expected : req.expected.Holds (e.currentAuthority req.subject req.subjectGeneration)
  enabled : e.state.policy.failoverEnabled = true
  failure : e.FailureAgreed req.subject req.subjectGeneration
  budget : e.state.countAttempts req.subject req.subjectGeneration <
    e.state.policy.maxAttemptsPerGeneration.toNat
  candidate : ∃ c ∈ req.candidates, Qualifies (e.selectionInput req link) (e.resolveCandidate c)

/-! ## The checks of a request -/

theorem checkCandidates_of {fabric : FabricName} {subject : LinkKey} {seen : List LinkKey}
    {cs : List ReplacementCandidate}
    (h : ∀ c ∈ cs, c.candidate.fabric = fabric ∧ c.candidate ≠ subject ∧ c.candidate ∉ seen)
    (hn : (cs.map (·.candidate)).Nodup) : checkCandidates fabric subject seen cs = none := by
  induction cs generalizing seen with
  | nil => rfl
  | cons c cs ih =>
    obtain ⟨hfabric, hother, hnew⟩ := h c List.mem_cons_self
    rw [List.map_cons, List.nodup_cons] at hn
    rw [checkCandidates, if_neg (not_not.mpr hfabric), if_neg hother, if_neg hnew]
    refine ih (fun x hx => ?_) hn.2
    obtain ⟨hf, ho, hs⟩ := h x (List.mem_cons_of_mem _ hx)
    refine ⟨hf, ho, fun hm => ?_⟩
    rcases List.mem_cons.mp hm with heq | hm
    · exact hn.1 (List.mem_map.mpr ⟨x, hx, heq⟩)
    · exact hs hm

/-- The structural checks are exactly these. -/
theorem checkRequest_iff :
    e.checkRequest req = none ↔ e.Checked req ∧ req.subjectGeneration.isZero = false := by
  constructor
  · intro h
    refine ⟨checkRequest_none h, ?_⟩
    unfold checkRequest at h
    split at h
    · cases h
    split at h
    · cases h
    split at h
    · cases h
    · rename_i hz
      exact Bool.eq_false_iff.mpr hz
  · rintro ⟨hc, hz⟩
    have hlink : ¬ req.subject.link.empty = true := by rw [hc.link]; exact Bool.false_ne_true
    have hzero : ¬ req.subjectGeneration.isZero = true := by rw [hz]; exact Bool.false_ne_true
    have hlimit := hc.limit
    have hcandidates := hc.candidates
    rw [checkRequest, if_neg (not_not.mpr hc.fabric), if_neg hlink, if_neg hzero, if_neg (by omega)]
    exact checkCandidates_of (fun c hm => ⟨hc.fabrics c hm, hc.others c hm, List.not_mem_nil⟩)
      hc.nodup

/-! ## The failure -/

/-- The failure is established exactly if the observations that qualify agree on it. -/
theorem established_iff {generation : LinkGeneration} {subject : LinkKey}
    (hfiled : e.FailuresFiled subject) :
    (e.evaluateFailure subject generation).established = true ↔
      e.FailureAgreed subject generation := by
  refine ⟨failureEstablished, fun h => ?_⟩
  have href := verdict_reference hfiled (@failureTally_tallied e subject generation hfiled)
  have hagreed : e.qualifiedFailures subject generation ≠ [] ∧
      e.state.policy.agreement.Establishes
        ((e.qualifiedFailures subject generation).countP fun x => e.reportsFailure x.2)
        (e.qualifiedFailures subject generation).length := by
    unfold FailureAgreed at h
    cases hrule : e.state.policy.agreement with
    | unanimous =>
      rw [hrule] at h
      exact ⟨h.1, List.countP_eq_length.mpr h.2⟩
    | majorityOfFreshQualified | undeclared =>
      rw [hrule] at h
      dsimp only at h
      refine ⟨fun hnil => ?_, h⟩
      rw [hnil] at h
      exact absurd h (Nat.lt_irrefl 0)
  have hsome : ¬ (e.failureBucket subject).isEmpty = true := by
    intro hempty
    refine hagreed.1 ?_
    rw [qualifiedFailures, List.isEmpty_iff.mp hempty]
    rfl
  rw [evaluateFailure, if_neg hsome]
  exact href.established.mpr hagreed

/-! ## The selection -/

theorem mem_selectionInput {link : LinkDefinition} {r : ResolvedCandidate} :
    r ∈ (e.selectionInput req link).candidates ↔
      ∃ c ∈ req.candidates, e.resolveCandidate c = r := by
  unfold selectionInput
  rw [BoundedTable.mem_sortBy, List.mem_map]

/-- The candidates of a request that passed its checks are different links of one fabric. -/
theorem Checked.oneFabric (h : e.Checked req) (link : LinkDefinition) :
    OneFabric (e.selectionInput req link).candidates := by
  have hof : ∀ r ∈ (e.selectionInput req link).candidates,
      r.candidate.fabric = e.options.fabric := by
    intro r hr
    obtain ⟨c, hc, rfl⟩ := mem_selectionInput.mp hr
    rw [resolveCandidate_candidate]
    exact h.fabrics c hc
  refine ⟨fun r hr r' hr' => (hof r hr).trans (hof r' hr').symm, ?_⟩
  have hnames : (req.candidates.map e.resolveCandidate).map (·.candidate) =
      req.candidates.map (·.candidate) := by
    rw [List.map_map]
    exact List.map_congr_left fun c _ => resolveCandidate_candidate c
  refine ((BoundedTable.sortBy_perm.map _).nodup_iff).mpr ?_
  rw [hnames]
  exact h.nodup

theorem selected_of {input : SelectionInput} {r : ResolvedCandidate} (hr : r ∈ input.candidates)
    (hq : Qualifies input r) : (selectReplacement input).status = .selected := by
  have hm : assess input r ∈ (selectReplacement input).assessments :=
    (mem_selected rfl).mpr ⟨r, hr, rfl⟩
  have heligible : (assess input r).verdict = .eligible := judge_eligible_iff.mpr hq
  rcases selectReplacement_status (List.ne_nil_of_mem hr) with ⟨hs, -⟩ | ⟨-, hall⟩ | ⟨-, hnone, -⟩
  · exact hs
  · rw [hall _ hm] at heligible
    cases heligible
  · exact absurd heligible (hnone _ hm)

/-- The assessment that is selected stands for one of the candidates. -/
theorem chosenAssessment_of {input : SelectionInput}
    (hs : (selectReplacement input).status = .selected) :
    ∃ r ∈ input.candidates, chosenAssessment input (selectReplacement input) =
        some (assess input r) ∧ Qualifies input r ∧
      ∀ r' ∈ input.candidates, Qualifies input r' →
        assessmentBetter (assess input r') (assess input r) = false := by
  obtain ⟨i, a, hi, ha, he, hbest⟩ := selectReplacement_index hs
  obtain ⟨r, hr, rfl⟩ := (mem_selected rfl).mp (List.mem_of_getElem? ha)
  refine ⟨r, hr, ?_, judge_eligible_iff.mp he, fun r' hr' hq => ?_⟩
  · have hsome : ((selectReplacement input).selectedIndex.bind fun i =>
        (selectReplacement input).assessments[i]?) = some (assess input r) := by
      rw [hi, Option.bind_some, ha]
    have hany : (input.candidates.any fun c =>
        decide (c.candidate = (assess input r).candidate) &&
          decide (c.linkGeneration = (assess input r).linkGeneration)) = true := by
      refine List.any_eq_true.mpr ⟨r, hr, ?_⟩
      rw [Bool.and_eq_true, decide_eq_true_eq, decide_eq_true_eq]
      exact ⟨rfl, rfl⟩
    unfold chosenAssessment
    rw [hsome]
    dsimp only
    rw [if_pos hany]
  · exact hbest _ ((mem_selected rfl).mpr ⟨r', hr', rfl⟩) (judge_eligible_iff.mpr hq)

/-! ## Plans -/

/-- The attempt that is granted a candidate. -/
def attemptFor (e : Engine) (req : FailoverRequest) (link : LinkDefinition)
    (c : ReplacementCandidate) : AttemptRecord :=
  e.grantedAttempt req (e.evaluateFailure req.subject req.subjectGeneration)
    (assess (e.selectionInput req link) (e.resolveCandidate c))
    ⟨UInt64.ofNat (e.attemptCount req) + 1⟩

/-- Within the budget a selected candidate is granted. -/
theorem planSelected_grants {link : LinkDefinition}
    (hs : (selectReplacement (e.selectionInput req link)).status = .selected)
    (hw : e.withinBudget req = true) : ∃ d' c, BestCandidate e req link c ∧
      d'.replacement = c.candidate ∧ e.planSelected req d
        (e.evaluateFailure req.subject req.subjectGeneration) (e.selectionInput req link)
        (selectReplacement (e.selectionInput req link)) = .grant d' (e.attemptFor req link c) := by
  obtain ⟨r, hr, hchosen, hq, hbest⟩ := chosenAssessment_of hs
  obtain ⟨c, hc, rfl⟩ := mem_selectionInput.mp hr
  have hcount := withinBudget_iff.mp hw
  have hmax := e.state.policy.maxAttemptsPerGeneration.toNat_lt
  have hone : (1 : UInt64).toNat = 1 := rfl
  have hnext : checkedAddU64 (UInt64.ofNat (e.attemptCount req)) 1 =
      some (UInt64.ofNat (e.attemptCount req) + 1) := by
    refine checkedAddU64_eq ?_
    rw [UInt64.toNat_ofNat', attemptCount, hone]
    omega
  unfold planSelected
  rw [if_neg (by simp [hw]), hchosen]
  dsimp only
  rw [hnext]
  exact ⟨_, c, ⟨hc, hq, fun c' hc' => hbest _ (mem_selectionInput.mpr ⟨c', hc', rfl⟩)⟩,
    resolveCandidate_candidate c, rfl⟩

theorem planEvidence_grants {link : LinkDefinition} (hc : e.Checked req)
    (hest : (e.evaluateFailure req.subject req.subjectGeneration).established = true)
    (hw : e.withinBudget req = true) (hq : ∃ c ∈ req.candidates,
      Qualifies (e.selectionInput req link) (e.resolveCandidate c)) :
    ∃ d' c, BestCandidate e req link c ∧ d'.replacement = c.candidate ∧
      e.planEvidence req d link = .grant d' (e.attemptFor req link c) := by
  obtain ⟨c, hm, hq⟩ := hq
  have hs := selected_of (mem_selectionInput.mpr ⟨c, hm, rfl⟩) hq
  have hv := selectReplacement_valid (hc.oneFabric link)
  unfold planEvidence
  dsimp only
  rw [if_neg (by simp [hest]), planSelection]
  dsimp only
  rw [if_neg (by simp [hv]), if_neg (not_not.mpr hs)]
  exact planSelected_grants hs hw

/-- A warranted request is granted, whatever else is retained and in force. -/
theorem Warranted.grants {link : LinkDefinition} (h : e.Warranted req link)
    (hfiled : e.FailuresFiled req.subject) : ∃ d' c, BestCandidate e req link c ∧
      d'.replacement = c.candidate ∧
      e.planFailover req = .grant d' (e.attemptFor req link c) := by
  have hcheck : e.checkRequest req = none := checkRequest_iff.mpr ⟨h.checked, h.bound⟩
  have hevidence := fun d => @planEvidence_grants e req d link h.checked
    ((established_iff hfiled).mpr h.failure) (withinBudget_iff.mpr h.budget) h.candidate
  have hexpected := compareAuthority_eq_nil.mpr h.expected
  rw [planFailover, hcheck]
  dsimp only
  rw [h.key]
  dsimp only
  rw [planSubject, h.subject]
  dsimp only
  rw [if_neg (not_not.mpr h.subjectGeneration), planExpectation]
  dsimp only
  rw [hexpected, if_neg (by simp), if_neg (by simp [h.enabled]), planAuthority, h.active]
  dsimp only
  rw [planRevalidation]
  cases hl : e.state.latestAttempt req.subject req.subjectGeneration with
  | none => exact hevidence _
  | some latest =>
    dsimp only
    rw [if_neg (h.latest latest hl)]
    exact hevidence _

/-- Exactly the warranted requests are planned as grants. -/
theorem warranted_iff (hfiled : e.FailuresFiled req.subject) :
    (∃ d' a, e.planFailover req = .grant d' a) ↔ ∃ link, e.Warranted req link := by
  constructor
  · rintro ⟨d', a, h⟩
    have hcheck : e.checkRequest req = none := by
      unfold planFailover at h
      split at h
      · cases h
      · assumption
    obtain ⟨link, c, hgates, -⟩ := planFailover_grant h
    exact ⟨link,
      { toOpen := hgates.toOpen
        bound := (checkRequest_iff.mp hcheck).2
        subject := hgates.subject
        subjectGeneration := hgates.subjectGeneration
        expected := hgates.expected
        enabled := hgates.enabled
        failure := failureEstablished hgates.established
        budget := withinBudget_iff.mp hgates.budget
        candidate := ⟨c, hgates.selects.candidate, hgates.selects.qualifies⟩ }⟩
  · rintro ⟨link, h⟩
    obtain ⟨d', c, -, -, hp⟩ := h.grants hfiled
    exact ⟨d', _, hp⟩

/-! ## Requests -/

/-- The store takes both records of the attempt that a request is granted. -/
def TakesGrant (e : Engine) (req : FailoverRequest) : Prop :=
  ∀ d a, e.planFailover req = .grant d a →
    e.store.acceptsAt 0 (.attempt .create a) = true ∧
      e.store.acceptsAt 1 (.attempt .update { a with phase := .authorized }) = true

/-- A grant that was planned and answered was written. -/
theorem execute_grant_accepts (hs : e.store.StoreOk) {d' : FailoverDecision} {a : AttemptRecord}
    (h : (e.execute req (.grant d a)).2 = .ok d') :
    e.store.acceptsAt 0 (.attempt .create a) = true ∧
      e.store.acceptsAt 1 (.attempt .update { a with phase := .authorized }) = true := by
  obtain ⟨hcreate, h⟩ := afterWrite_ok h
  obtain ⟨hupdate, -⟩ := afterWrite_ok h
  exact ⟨(createAttempt_accepted hs).mp hcreate, (authorizeAttempt_accepted hs hcreate).mp hupdate⟩

/-- A grant that was planned is answered, when both of its records can be written. -/
theorem execute_grant_answers (hs : e.store.StoreOk) {a : AttemptRecord}
    (h0 : e.store.acceptsAt 0 (.attempt .create a) = true)
    (h1 : e.store.acceptsAt 1 (.attempt .update { a with phase := .authorized }) = true) :
    ∃ d', (e.execute req (.grant d a)).2 = .ok d' ∧ Recorded d d' := by
  have hcreate := (createAttempt_accepted hs).mpr h0
  have hupdate := (authorizeAttempt_accepted hs hcreate).mpr h1
  rw [execute, afterWrite_true hcreate, afterWrite_true hupdate]
  exact ⟨_, rfl, commitDecision_recorded d⟩

/-- A planned grant is one of its own, of the attempt that is written with it. -/
theorem planFailover_granting {a : AttemptRecord} (h : e.planFailover req = .grant d a) :
    d.kind = .grant ∧ d.idempotentReplay = false ∧ d.attemptId = a.attemptId ∧
      d.authority = a.authority := by
  obtain ⟨link, c, -, hgrant⟩ := planFailover_grant h
  cases hgrant
  exact ⟨rfl, rfl, rfl, rfl⟩

/-- The plan behind an answer that grants. -/
theorem requestFailover_planned (hd : (e.requestFailover req).2 = .ok d) (hk : d.kind = .grant)
    (hi : d.idempotentReplay = false) : e.unavailable = none ∧ ∃ d' a,
      e.advance.planFailover req = .grant d' a ∧ Recorded d' d ∧
        (e.advance.execute req (.grant d' a)).2 = .ok d := by
  unfold requestFailover at hd
  cases hu : e.unavailable with
  | some s =>
    rw [hu] at hd
    cases hd
  | none =>
    rw [hu] at hd
    dsimp only at hd
    obtain ⟨d', a, hplan, hrec⟩ := execute_granted planFailover_ungranted hd hk hi
    rw [hplan] at hd
    exact ⟨rfl, d', a, hplan, hrec, hd⟩

/-- The answer to a planned grant whose records can be written. -/
theorem requestFailover_answers (hs : e.store.StoreOk) (hu : e.unavailable = none)
    {a : AttemptRecord} (hplan : e.advance.planFailover req = .grant d a)
    (h0 : e.store.acceptsAt 0 (.attempt .create a) = true)
    (h1 : e.store.acceptsAt 1 (.attempt .update { a with phase := .authorized }) = true) :
    ∃ d', (e.requestFailover req).2 = .ok d' ∧ Recorded d d' := by
  obtain ⟨d', hd, hrec⟩ := @execute_grant_answers e.advance req d hs a h0 h1
  refine ⟨d', ?_, hrec⟩
  rw [requestFailover, hu]
  dsimp only
  rw [hplan]
  exact hd

end Engine

open Engine

/-- A request is answered by a grant of its own exactly if the process is available, the request is
warranted and its attempt can be written, and then the best of the candidates is granted. -/
theorem failover_granted_iff {e : Engine} (h : Reachable e) (req : FailoverRequest) :
    (e.Grants req ↔ e.unavailable = none ∧ (∃ link, e.advance.Warranted req link) ∧
      e.advance.TakesGrant req) ∧
    ∀ d, (e.requestFailover req).2 = .ok d → d.kind = .grant → d.idempotentReplay = false →
      ∃ link c, e.advance.Warranted req link ∧ e.advance.BestCandidate req link c ∧
        d.replacement = c.candidate := by
  have hok : EngineOk False e.advance := h.ok.leads advance_leads
  have hfiled : e.advance.FailuresFiled req.subject := failuresFiled hok
  refine ⟨⟨?_, ?_⟩, ?_⟩
  · rintro ⟨d, hd, hk, hi⟩
    obtain ⟨hu, d', a, hplan, -, hexecuted⟩ := requestFailover_planned hd hk hi
    refine ⟨hu, (warranted_iff hfiled).mp ⟨d', a, hplan⟩, fun d'' a' hplan' => ?_⟩
    rw [hplan] at hplan'
    cases hplan'
    exact execute_grant_accepts hok.store hexecuted
  · rintro ⟨hu, hw, htakes⟩
    obtain ⟨d', a, hplan⟩ := (warranted_iff hfiled).mpr hw
    obtain ⟨h0, h1⟩ := htakes d' a hplan
    obtain ⟨d, hd, _, _, _, _, rfl⟩ := requestFailover_answers h.ok.store hu hplan h0 h1
    obtain ⟨hk, hi, -⟩ := planFailover_granting hplan
    exact ⟨_, hd, hk, hi⟩
  · intro d hd hk hi
    obtain ⟨-, d', a, hplan, ⟨_, _, _, _, rfl⟩, -⟩ := requestFailover_planned hd hk hi
    obtain ⟨link, hw⟩ := (warranted_iff hfiled).mp ⟨d', a, hplan⟩
    obtain ⟨d'', c, hbest, hc, hplan'⟩ := hw.grants hfiled
    rw [hplan] at hplan'
    cases hplan'
    exact ⟨link, c, hw, hbest, hc⟩

/-- A request that a process grants was warranted. -/
theorem failover_granted_iff_sample : ∃ e, Reachable e ∧
    ∃ link, e.advance.Warranted (Sample.request ⟨1⟩) link := by
  obtain ⟨e, he, hgrants⟩ := @System.of_serves (System.run (Sample.booted {} {}))
    (fun e => e.grants (Sample.request ⟨1⟩)) (by decide +kernel)
  have hreach : Reachable e := ⟨_, he⟩
  exact ⟨e, hreach,
    ((failover_granted_iff hreach (Sample.request ⟨1⟩)).1.mp (grants_iff.mp hgrants)).2.1⟩

/-! ## Other candidates -/

namespace Engine

variable {e : Engine} {req : FailoverRequest} {link : LinkDefinition}
  {cs : List ReplacementCandidate}

/-- Two candidates of which no other is better are the same link. -/
theorem BestCandidate.unique {c c' : ReplacementCandidate} (hc : e.Checked req)
    (h : e.BestCandidate req link c) (h' : e.BestCandidate req link c') :
    c.candidate = c'.candidate := by
  have hmem : ∀ {c}, e.BestCandidate req link c →
      assess (e.selectionInput req link) (e.resolveCandidate c) ∈
        (selectReplacement (e.selectionInput req link)).assessments := fun h =>
    (mem_selected rfl).mpr ⟨_, mem_selectionInput.mpr ⟨_, h.candidate, rfl⟩, rfl⟩
  have hsame := (hc.oneFabric link).eq_of_objective (hmem h) (hmem h')
    (h'.best c h.candidate h.qualifies) (h.best c' h'.candidate h'.qualifies)
  have hnames := congrArg CandidateAssessment.candidate hsame
  rw [← resolveCandidate_candidate (e := e) c, ← resolveCandidate_candidate (e := e) c']
  exact hnames

/-- A candidate is judged by itself. -/
theorem qualifies_narrowed {r : ResolvedCandidate} :
    Qualifies (e.selectionInput { req with candidates := cs } link) r ↔
      Qualifies (e.selectionInput req link) r :=
  ⟨fun h => ⟨h.1, h.2, h.3, h.4, h.5, h.6, h.7, h.8, h.9⟩,
    fun h => ⟨h.1, h.2, h.3, h.4, h.5, h.6, h.7, h.8, h.9⟩⟩

/-- With fewer candidates a request is still warranted, as long as one of them may stand in. -/
theorem Warranted.narrowed (h : e.Warranted req link) (hcs : cs.Sublist req.candidates)
    {c : ReplacementCandidate} (hm : c ∈ cs)
    (hq : Qualifies (e.selectionInput req link) (e.resolveCandidate c)) :
    e.Warranted { req with candidates := cs } link where
  checked :=
    { fabric := h.checked.fabric
      link := h.checked.link
      limit := hcs.length_le.trans h.checked.limit
      candidates := hcs.length_le.trans h.checked.candidates
      fabrics := fun c hc => h.checked.fabrics c (hcs.subset hc)
      others := fun c hc => h.checked.others c (hcs.subset hc)
      nodup := (hcs.map _).nodup h.checked.nodup }
  key := h.key
  active := h.active
  latest := h.latest
  bound := h.bound
  subject := h.subject
  subjectGeneration := h.subjectGeneration
  expected := h.expected
  enabled := h.enabled
  failure := h.failure
  budget := h.budget
  candidate := ⟨c, hm, qualifies_narrowed.mpr hq⟩

/-- The best of all candidates is the best of some of them. -/
theorem BestCandidate.narrowed {c : ReplacementCandidate} (h : e.BestCandidate req link c)
    (hcs : cs.Sublist req.candidates) (hm : c ∈ cs) :
    e.BestCandidate { req with candidates := cs } link c :=
  ⟨hm, qualifies_narrowed.mpr h.qualifies, fun c' hc' hq =>
    h.best c' (hcs.subset hc') (qualifies_narrowed.mp hq)⟩

end Engine

/-- The candidates that were not granted do not matter: a request that leaves some of them out is
granted the same replacement, by the same record. -/
theorem grant_narrowed {e : Engine} (h : Reachable e) {req : FailoverRequest}
    {d : FailoverDecision} (hd : (e.requestFailover req).2 = .ok d) (hk : d.kind = .grant)
    (hi : d.idempotentReplay = false) {cs : List ReplacementCandidate}
    (hcs : cs.Sublist req.candidates) {c : ReplacementCandidate} (hm : c ∈ cs)
    (hc : d.replacement = c.candidate) :
    ∃ d', (e.requestFailover { req with candidates := cs }).2 = .ok d' ∧ d'.kind = .grant ∧
      d'.idempotentReplay = false ∧ d'.replacement = d.replacement ∧
      d'.attemptId = d.attemptId ∧ d'.authority = d.authority := by
  have hok : EngineOk False e.advance := h.ok.leads advance_leads
  have hfiled : e.advance.FailuresFiled req.subject := failuresFiled hok
  obtain ⟨hu, d₀, a, hplan, hrec, hexecuted⟩ := requestFailover_planned hd hk hi
  obtain ⟨h0, h1⟩ := execute_grant_accepts hok.store hexecuted
  obtain ⟨link, hw⟩ := (warranted_iff hfiled).mp ⟨d₀, a, hplan⟩
  obtain ⟨-, -, hid, hauthority⟩ := planFailover_granting hplan
  obtain ⟨_, _, _, _, rfl⟩ := hrec
  obtain ⟨d₁, c₁, hbest, hc₁, hplan₁⟩ := hw.grants hfiled
  rw [hplan] at hplan₁
  cases hplan₁
  have hsame : ∀ {x y : ReplacementCandidate}, x ∈ req.candidates → y ∈ req.candidates →
      x.candidate = y.candidate → x = y := fun hx hy =>
    List.inj_on_of_nodup_map hw.checked.nodup hx hy
  obtain rfl : c = c₁ := hsame (hcs.subset hm) hbest.candidate (hc.symm.trans hc₁)
  -- the request with fewer candidates has the same best one, and the same attempt
  have hw' := hw.narrowed hcs hm hbest.qualifies
  obtain ⟨d₂, c₂, hbest₂, hc₂, hplan₂⟩ := hw'.grants hfiled
  have hnames := hbest₂.unique hw'.checked (hbest.narrowed hcs hm)
  obtain rfl : c₂ = c := hsame (hcs.subset hbest₂.candidate) (hcs.subset hm) hnames
  obtain ⟨d', hd', _, _, _, _, rfl⟩ := requestFailover_answers h.ok.store hu hplan₂ h0 h1
  obtain ⟨hk₂, hi₂, hid₂, hauthority₂⟩ := planFailover_granting hplan₂
  exact ⟨_, hd', hk₂, hi₂, hc₂.trans hc.symm, hid₂.trans hid.symm,
    hauthority₂.trans hauthority.symm⟩

/-- The alternate link is granted without the unknown one as well. -/
theorem grant_narrowed_sample : ∃ e c, Reachable e ∧ c ∈ Sample.choice.candidates ∧
    e.Grants { Sample.choice with candidates := [c] } := by
  obtain ⟨e, he, hgrants⟩ := @System.of_serves (System.run (Sample.booted {} {}))
    (fun e => e.grants Sample.choice) (by decide +kernel)
  have hreach : Reachable e := ⟨_, he⟩
  obtain ⟨d, hd, hk, hi⟩ := grants_iff.mp hgrants
  obtain ⟨-, d₀, a, hplan, ⟨_, _, _, _, rfl⟩, -⟩ := requestFailover_planned hd hk hi
  obtain ⟨link, c, hgates, hgrant⟩ := planFailover_grant hplan
  cases hgrant
  have hm := hgates.selects.candidate
  obtain ⟨d', hd', hk', hi', -⟩ := grant_narrowed hreach hd hk hi
    (List.singleton_sublist.mpr hm) List.mem_cons_self (resolveCandidate_candidate c)
  exact ⟨e, c, hreach, hm, d', hd', hk', hi'⟩

end LinkFailover
