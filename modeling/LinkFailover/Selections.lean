import LinkFailover.CandidateOrder

/-!
# What a selection means

The selector and the validator that checks its outcomes. The objective orders the candidates of one
fabric strictly, so there is one best candidate among the eligible ones. The validator derives the
maximum of the objective again, but it takes the word of the outcome for how many candidates are
eligible or undecided, and it does not ask whether every candidate is assessed.

* `objectiveBetter_orders`: the objective is a strict total order.
* `selectReplacement_exact`: what the selector decides.
* `validateSelection_sound_iff`: which of the outcomes that the validator accepts are sound.
-/

namespace LinkFailover

open Codec

/-! ## The objective -/

/-- The components of the objective, in the order in which they decide. -/
def objectiveLex : ObjectiveKey → ObjectiveKey → Bool :=
  Orders.lex (fun a b => decide (b.adjacencyAuthorized < a.adjacencyAuthorized))
    (Orders.lex (fun a b => decide (b.confidence < a.confidence))
      (Orders.lex (fun a b => decide (a.ageTicks < b.ageTicks))
        (Orders.lex (fun a b => decide (b.capacityUnits < a.capacityUnits))
          (Orders.lex (fun a b => decide (a.costUnits < b.costUnits))
            (Orders.lex (fun a b => decide (b.linkGeneration < a.linkGeneration))
              fun a b => decide (a.linkName < b.linkName))))))

theorem objectiveBetter_eq_lex : objectiveBetter = objectiveLex := by
  have hadjacency : ∀ (a b : ObjectiveKey) (t : Bool),
      (if a.adjacencyAuthorized ≠ b.adjacencyAuthorized then a.adjacencyAuthorized else t) =
        if a.adjacencyAuthorized ≠ b.adjacencyAuthorized then
          decide (b.adjacencyAuthorized < a.adjacencyAuthorized) else t := by
    intro a b t
    cases a.adjacencyAuthorized <;> cases b.adjacencyAuthorized <;> rfl
  funext a b
  unfold objectiveBetter objectiveLex
  rw [hadjacency, ← Orders.greater_first ObjectiveKey.adjacencyAuthorized,
    ← Orders.greater_first ObjectiveKey.confidence, ← Orders.smaller_first ObjectiveKey.ageTicks,
    ← Orders.greater_first ObjectiveKey.capacityUnits,
    ← Orders.smaller_first ObjectiveKey.costUnits,
    ← Orders.greater_first ObjectiveKey.linkGeneration]

/-- The objective tells any two keys apart. -/
theorem objectiveBetter_orders : Orders objectiveBetter fun k => k := by
  have h := (Orders.of_linear ObjectiveKey.adjacencyAuthorized).flip.lexicographic
    ((Orders.of_linear ObjectiveKey.confidence).flip.lexicographic
      ((Orders.of_linear ObjectiveKey.ageTicks).lexicographic
        ((Orders.of_linear ObjectiveKey.capacityUnits).flip.lexicographic
          ((Orders.of_linear ObjectiveKey.costUnits).lexicographic
            ((Orders.of_linear ObjectiveKey.linkGeneration).flip.lexicographic
              (Orders.of_linear ObjectiveKey.linkName))))))
  rw [objectiveBetter_eq_lex]
  refine ⟨h.asymm, h.trans, fun {a b} hab hba => ?_⟩
  have hkeys := h.total hab hba
  simp only [Prod.mk.injEq] at hkeys
  obtain ⟨h1, h2, h3, h4, h5, h6, h7⟩ := hkeys
  cases a
  cases b
  simp only [ObjectiveKey.mk.injEq]
  exact ⟨h1, h2, h3, h4, h5, h6, h7⟩

/-! ## Verdicts -/

variable {input : SelectionInput} {r : ResolvedCandidate}

/-- The evidence on a candidate that can decide about it. -/
structure Bears (input : SelectionInput) (r : ResolvedCandidate) : Prop where
  evidencePresent : r.evidencePresent = true
  current : r.freshness = .current
  generation : r.generationAsserted = true → r.generationMatched = true
  confidence : input.policy.minReplacementConfidence.value ≤ r.report.confidence.value
  notConflicted : r.conflicted = false

/-- What is reported of a candidate rules it out: its state, its capacity or its adjacency. -/
def RulesOut (input : SelectionInput) (r : ResolvedCandidate) : Prop :=
  r.report.state = .down ∨ r.report.state = .unusable ∨
    r.report.state = .degraded ∧ input.policy.allowDegradedReplacement = false ∨
    r.report.capacityUnits < input.minReplacementCapacity ∨
    input.policy.requireAdjacencyAuthorization = true ∧ r.report.adjacencyAuthorized = false

/-- A candidate is the subject itself, or evidence that can decide, of a known state, rules it
out. -/
def ShownInfeasible (input : SelectionInput) (r : ResolvedCandidate) : Prop :=
  r.candidate = input.subject ∨ Bears input r ∧ r.report.state ≠ .unknown ∧ RulesOut input r

/-- A candidate without evidence that can decide stays undecided. -/
theorem judge_undecided_of (hs : r.candidate ≠ input.subject)
    (hb : ¬ (Bears input r ∧ r.report.state ≠ .unknown)) :
    (judge input r).1 = .indeterminate := by
  unfold judge gates
  simp only [List.find?_cons, hs, decide_false]
  cases hc : r.conflicted with
  | true => rfl
  | false =>
    cases hp : r.evidencePresent with
    | false => rfl
    | true =>
      cases hg : r.generationAsserted && !r.generationMatched with
      | true => rfl
      | false =>
        cases hf : r.freshness with
        | current =>
          by_cases hlow : r.report.confidence.value < input.policy.minReplacementConfidence.value
          · simp [hlow]
          have hunknown : r.report.state = .unknown := by
            by_contra hk
            refine hb ⟨⟨hp, hf, fun ha => ?_, UInt32.not_lt.mp hlow, hc⟩, hk⟩
            simpa [ha] using hg
          simp [hlow, hunknown]
        | _ => simp

/-- The last four gates decide about a candidate whose evidence can decide. -/
theorem judge_of_bears (hs : r.candidate ≠ input.subject) (hb : Bears input r)
    (hk : r.report.state ≠ .unknown) :
    (judge input r).1 = match ((gates input r).drop 9).find? (·.1) with
      | some g => g.2.1
      | none => .eligible := by
  have hfront : ∀ g ∈ (gates input r).take 9, ¬ g.1 = true := by
    have hlow := UInt32.not_lt.mpr hb.confidence
    simpa [gates, hs, hb.notConflicted, hb.evidencePresent, hb.current, hlow, hk] using
      hb.generation
  unfold judge
  have hfind : (gates input r).find? (·.1) = ((gates input r).drop 9).find? (·.1) := by
    conv_lhs => rw [← List.take_append_drop 9 (gates input r)]
    rw [List.find?_append, List.find?_eq_none.mpr hfront, Option.none_or]
  rw [hfind]
  cases ((gates input r).drop 9).find? (·.1) <;> rfl

theorem rulesOut_iff : RulesOut input r ↔ ∃ g ∈ (gates input r).drop 9, g.1 = true := by
  simp [gates, RulesOut, or_assoc]

theorem judge_disproven_iff : (judge input r).1 = .disproven ↔ ShownInfeasible input r := by
  by_cases hs : r.candidate = input.subject
  · refine iff_of_true ?_ (.inl hs)
    unfold judge gates
    simp [hs]
  by_cases hb : Bears input r ∧ r.report.state ≠ .unknown
  swap
  · rw [judge_undecided_of hs hb]
    refine iff_of_false (by simp) ?_
    rintro (h | ⟨h, hk, -⟩)
    · exact hs h
    · exact hb ⟨h, hk⟩
  obtain ⟨hb, hk⟩ := hb
  rw [judge_of_bears hs hb hk, ShownInfeasible, rulesOut_iff]
  cases hf : ((gates input r).drop 9).find? (·.1) with
  | some g =>
    have hg := List.mem_of_find?_eq_some hf
    have hd : g.2.1 = .disproven := by
      simp [gates] at hg
      rcases hg with rfl | rfl | rfl | rfl <;> rfl
    exact iff_of_true hd (.inr ⟨hb, hk, g, hg, List.find?_some hf⟩)
  | none =>
    have hnone := List.find?_eq_none.mp hf
    refine iff_of_false (by simp) ?_
    rintro (h | ⟨-, -, g, hg, ht⟩)
    · exact hs h
    · exact hnone g hg ht

theorem judge_eligible_iff : (judge input r).1 = .eligible ↔ Qualifies input r := by
  refine ⟨assess_eligible, fun hq => ?_⟩
  have hk : r.report.state ≠ .unknown := by
    rcases hq.state with h | ⟨h, -⟩ | h
    · simp [h]
    · simp [h]
    · rintro hu
      exact h (hu ▸ (WireEnum.declared_iff _).mp rfl)
  have hb : Bears input r :=
    ⟨hq.evidencePresent, hq.current, hq.generation, hq.confidence, hq.notConflicted⟩
  have hnone : ((gates input r).drop 9).find? (·.1) = none := by
    have hcapacity := UInt32.not_lt.mpr hq.capacity
    have hadjacency := hq.adjacency
    rcases hq.state with h | ⟨h, ha⟩ | h
    · simpa [gates, h, hcapacity] using hadjacency
    · simpa [gates, h, ha, hcapacity] using hadjacency
    · cases hs : r.report.state with
      | undeclared number => simpa [gates, hs, hcapacity] using hadjacency
      | _ => exact absurd (hs ▸ (WireEnum.declared_iff _).mp rfl) h
  rw [judge_of_bears hq.notSubject hb hk, hnone]

/-! ## The search -/

def assessmentBetter (a b : CandidateAssessment) : Bool :=
  objectiveBetter (.ofAssessment a) (.ofAssessment b)

theorem assessmentBetter_orders : Orders assessmentBetter ObjectiveKey.ofAssessment :=
  objectiveBetter_orders.comap ObjectiveKey.ofAssessment

/-- From an eligible assessment on, the search goes for the best one. -/
theorem foldl_betterIndex (g : CandidateAssessment × Nat) (xs : List (CandidateAssessment × Nat)) :
    xs.foldl betterIndex (some (g.2, .ofAssessment g.1)) =
      (let best := (xs.filter fun x => x.1.verdict = .eligible).foldl
        (Orders.earlier fun x y => assessmentBetter x.1 y.1) g
      some (best.2, .ofAssessment best.1)) := by
  induction xs generalizing g with
  | nil => rfl
  | cons x xs ih =>
    rw [List.foldl_cons]
    by_cases he : x.1.verdict = .eligible
    · have hround : betterIndex (some (g.2, .ofAssessment g.1)) x =
          some ((Orders.earlier (fun x y => assessmentBetter x.1 y.1) g x).2,
            .ofAssessment (Orders.earlier (fun x y => assessmentBetter x.1 y.1) g x).1) := by
        unfold betterIndex Orders.earlier assessmentBetter
        rw [if_neg (not_not.mpr he)]
        dsimp only
        split <;> rfl
      rw [hround, ih, List.filter_cons_of_pos (by simpa using he), List.foldl_cons]
    · have hround : betterIndex (some (g.2, .ofAssessment g.1)) x =
          some (g.2, .ofAssessment g.1) := by
        unfold betterIndex
        rw [if_pos he]
      rw [hround, ih, List.filter_cons_of_neg (by simpa using he)]

/-- The search finds an eligible assessment that no other one is better than. -/
theorem bestIndex_first {xs : List CandidateAssessment} (h : ∃ a ∈ xs, a.verdict = .eligible) :
    ∃ i a, bestIndex xs = some i ∧ xs[i]? = some a ∧ a.verdict = .eligible ∧
      ∀ b ∈ xs, b.verdict = .eligible → assessmentBetter b a = false := by
  have hfound : ∀ {ys : List (CandidateAssessment × Nat)}, (∃ y ∈ ys, y.1.verdict = .eligible) →
      ∃ g, ys.foldl betterIndex none = some (g.2, .ofAssessment g.1) ∧
        Orders.First (fun x y => assessmentBetter x.1 y.1)
          (ys.filter fun y => y.1.verdict = .eligible) g := by
    intro ys
    induction ys with
    | nil => simp
    | cons y ys ih =>
      rintro ⟨z, hz, he⟩
      by_cases hy : y.1.verdict = .eligible
      · have hround : betterIndex none y = some (y.2, .ofAssessment y.1) := by
          unfold betterIndex
          rw [if_neg (not_not.mpr hy)]
        rw [List.foldl_cons, hround, foldl_betterIndex,
          List.filter_cons_of_pos (by simpa using hy)]
        exact ⟨_, rfl, (assessmentBetter_orders.comap Prod.fst).search_first y _⟩
      · have hround : betterIndex none y = none := by
          unfold betterIndex
          rw [if_pos hy]
        rw [List.foldl_cons, hround, List.filter_cons_of_neg (by simpa using hy)]
        refine ih ⟨z, (List.mem_cons.mp hz).resolve_left ?_, he⟩
        rintro rfl
        exact hy he
  obtain ⟨a, ha, he⟩ := h
  obtain ⟨i, hi⟩ := List.getElem?_of_mem ha
  obtain ⟨g, hbest, hmem, hnone⟩ := hfound ⟨(a, i), List.mk_mem_zipIdx_iff_getElem?.mpr hi, he⟩
  obtain ⟨hg, hge⟩ := List.mem_filter.mp hmem
  refine ⟨g.2, g.1, ?_, List.mem_zipIdx_iff_getElem?.mp hg, by simpa using hge, fun b hb hbe => ?_⟩
  · rw [bestIndex, hbest]
    rfl
  · obtain ⟨j, hj⟩ := List.getElem?_of_mem hb
    exact hnone (b, j) (List.mem_filter.mpr
      ⟨List.mk_mem_zipIdx_iff_getElem?.mpr hj, by simpa using hbe⟩)

/-! ## The selector -/

/-- The counters of an outcome are the numbers of its assessments. -/
structure Counted (outcome : SelectionOutcome) : Prop where
  eligible : outcome.eligibleCount = outcome.assessments.countP (·.verdict = .eligible)
  disproven : outcome.disprovenCount = outcome.assessments.countP (·.verdict = .disproven)
  indeterminate :
    outcome.indeterminateCount = outcome.assessments.countP (·.verdict = .indeterminate)

/-- The objective orders the assessments strictly. -/
structure ObjectiveOrder (xs : List CandidateAssessment) : Prop where
  irrefl : ∀ a ∈ xs, assessmentBetter a a = false
  trans : ∀ a ∈ xs, ∀ b ∈ xs, ∀ c ∈ xs, assessmentBetter a b = true →
    assessmentBetter b c = true → assessmentBetter a c = true
  total : ∀ a ∈ xs, ∀ b ∈ xs, a ≠ b → assessmentBetter a b = true ∨ assessmentBetter b a = true

/-- What the selector decides about candidates of one fabric with different links. -/
structure SelectsExactly (input : SelectionInput) (outcome : SelectionOutcome) : Prop where
  ordered : ObjectiveOrder outcome.assessments
  empty : outcome.status = .emptyCandidateSet ↔ input.candidates = []
  selected : outcome.status = .selected ↔ ∃ r ∈ input.candidates, Qualifies input r
  maximum : outcome.status = .selected → ∃ i a, outcome.selectedIndex = some i ∧
    outcome.assessments[i]? = some a ∧ a.verdict = .eligible ∧
    ∀ b ∈ outcome.assessments, b.verdict = .eligible → b ≠ a → assessmentBetter a b = true
  infeasible : outcome.status = .provenInfeasible ↔
    input.candidates ≠ [] ∧ ∀ r ∈ input.candidates, ShownInfeasible input r
  indeterminate : outcome.status = .indeterminate ↔ input.candidates ≠ [] ∧
    (∀ r ∈ input.candidates, ¬ Qualifies input r) ∧
    ∃ r ∈ input.candidates, ¬ ShownInfeasible input r
  assessed : outcome.assessments.Perm (input.candidates.map (assess input))
  counted : Counted outcome
  valid : (validateSelection input outcome).isOk = true

/-- The links of one fabric, all different. -/
structure OneFabric (candidates : List ResolvedCandidate) : Prop where
  fabric : ∀ r ∈ candidates, ∀ r' ∈ candidates, r.candidate.fabric = r'.candidate.fabric
  distinct : (candidates.map (·.candidate)).Nodup

theorem mem_selected {outcome : SelectionOutcome} (h : outcome = selectReplacement input)
    {a : CandidateAssessment} :
    a ∈ outcome.assessments ↔ ∃ r ∈ input.candidates, assess input r = a := by
  rw [h, selectReplacement_assessments, BoundedTable.mem_sortBy, List.mem_map]

theorem LinkKey.eq_of_names {a b : LinkKey} (hf : a.fabric = b.fabric)
    (hl : a.link.value = b.link.value) : a = b := by
  cases a with
  | mk fabric link =>
    cases b with
    | mk fabric' link' =>
      obtain rfl : fabric = fabric' := hf
      obtain rfl : link = link' := StrongName.ext hl
      rfl

/-- The objective tells the assessments of different links of one fabric apart. -/
theorem OneFabric.eq_of_objective (h : OneFabric input.candidates) {a b : CandidateAssessment}
    (ha : a ∈ (selectReplacement input).assessments)
    (hb : b ∈ (selectReplacement input).assessments)
    (hab : assessmentBetter a b = false) (hba : assessmentBetter b a = false) : a = b := by
  obtain ⟨r, hr, rfl⟩ := (mem_selected rfl).mp ha
  obtain ⟨s, hs, rfl⟩ := (mem_selected rfl).mp hb
  have hkey := assessmentBetter_orders.total hab hba
  have hname : r.candidate.link.value = s.candidate.link.value :=
    congrArg ObjectiveKey.linkName hkey
  have hlink : r.candidate = s.candidate := LinkKey.eq_of_names (h.fabric r hr s hs) hname
  rw [List.inj_on_of_nodup_map h.distinct hr hs hlink]

/-- The status that the verdicts call for. -/
theorem selectReplacement_status (hne : input.candidates ≠ []) :
    ((selectReplacement input).status = .selected ∧
      ∃ a ∈ (selectReplacement input).assessments, a.verdict = .eligible) ∨
    ((selectReplacement input).status = .provenInfeasible ∧
      ∀ a ∈ (selectReplacement input).assessments, a.verdict = .disproven) ∨
    ((selectReplacement input).status = .indeterminate ∧
      (∀ a ∈ (selectReplacement input).assessments, a.verdict ≠ .eligible) ∧
      ∃ a ∈ (selectReplacement input).assessments, a.verdict ≠ .disproven) := by
  rw [selectReplacement_assessments]
  unfold selectReplacement
  rw [if_neg (by simpa [List.isEmpty_iff] using hne)]
  dsimp only
  generalize BoundedTable.sortBy CandidateAssessment.less
    (input.candidates.map (assess input)) = xs
  by_cases he : xs.countP (·.verdict = .eligible) = 0
  · have hnone : ∀ a ∈ xs, a.verdict ≠ .eligible := by simpa using he
    rw [if_pos he]
    by_cases hi : xs.countP (·.verdict.undecided) = 0
    · have hdecided : ∀ a ∈ xs, a.verdict.undecided = false := by simpa using hi
      rw [if_pos hi]
      refine .inr (.inl ⟨rfl, fun a ha => ?_⟩)
      have hda := hdecided a ha
      cases hv : a.verdict with
      | eligible => exact absurd hv (hnone a ha)
      | disproven => rfl
      | indeterminate | undeclared =>
        rw [hv] at hda
        cases hda
    · obtain ⟨a, ha, hv⟩ := List.countP_pos_iff.mp (Nat.pos_of_ne_zero hi)
      rw [if_neg hi]
      refine .inr (.inr ⟨rfl, hnone, a, ha, ?_⟩)
      rintro hd
      rw [hd] at hv
      cases hv
  · obtain ⟨a, ha, hv⟩ := List.countP_pos_iff.mp (Nat.pos_of_ne_zero he)
    obtain ⟨i, -, hbest, -⟩ := bestIndex_first ⟨a, ha, of_decide_eq_true hv⟩
    rw [if_neg he, hbest]
    exact .inl ⟨rfl, a, ha, of_decide_eq_true hv⟩

/-- What rules a candidate out is a conclusive reason. -/
theorem judge_conclusive (h : (judge input r).1 = .disproven) :
    reasonIsConclusive (judge input r).2.1 = true := by
  have hgates : ∀ g ∈ gates input r, g.2.1 = .disproven → reasonIsConclusive g.2.2.1 = true := by
    simp [gates, reasonIsConclusive]
  unfold judge at h ⊢
  cases hf : (gates input r).find? (·.1) with
  | none =>
    rw [hf] at h
    cases h
  | some g =>
    rw [hf] at h
    exact hgates g (List.mem_of_find?_eq_some hf) h

theorem validateAssessment_ok {a : CandidateAssessment}
    (ha : a ∈ (selectReplacement input).assessments) :
    (validateAssessment input a).isOk = true := by
  obtain ⟨r, hr, rfl⟩ := (mem_selected rfl).mp ha
  have hany : (input.candidates.any fun s => decide (s.candidate = (assess input r).candidate) &&
      decide (s.linkGeneration = (assess input r).linkGeneration)) = true :=
    List.any_eq_true.mpr ⟨r, hr, by simp [assess]⟩
  have hreason : ¬ ((assess input r).verdict = .disproven ∧
      reasonIsConclusive (assess input r).reason = false) := by
    rintro ⟨hv, hc⟩
    have := judge_conclusive (r := r) hv
    rw [assess] at hc
    dsimp only at hc
    rw [this] at hc
    cases hc
  unfold validateAssessment
  rw [hany, if_neg (by simp), if_neg hreason]
  rfl

theorem validateSelection_eq {outcome : SelectionOutcome}
    (hl : outcome.assessments.length = input.candidates.length)
    (hn : (input.candidates.map (·.candidate)).Nodup)
    (ha : ∀ a ∈ outcome.assessments, (validateAssessment input a).isOk = true) :
    validateSelection input outcome = validateStatus input outcome := by
  unfold validateSelection
  rw [if_neg (not_not.mpr hl), if_neg (not_not.mpr hn),
    List.find?_eq_none.mpr fun a hm => by simp [ha a hm]]

/-- The selector gives declared verdicts only, so whoever it leaves undecided is indeterminate. -/
theorem undecided_iff {a : CandidateAssessment} (ha : a ∈ (selectReplacement input).assessments) :
    a.verdict.undecided = decide (a.verdict = .indeterminate) := by
  obtain ⟨r, -, rfl⟩ := (mem_selected rfl).mp ha
  have hd := assess_verdict_declared input r
  cases hv : (assess input r).verdict with
  | undeclared number => exact absurd (hv ▸ hd) (WireEnum.not_declared rfl)
  | _ => rfl

theorem selectReplacement_counted (input : SelectionInput) : Counted (selectReplacement input) := by
  have hindeterminate : (selectReplacement input).indeterminateCount =
      (selectReplacement input).assessments.countP (·.verdict.undecided) := by
    unfold selectReplacement
    split
    · rfl
    dsimp only
    split
    · split <;> rfl
    · split <;> rfl
  have hcounts : (selectReplacement input).eligibleCount =
        (selectReplacement input).assessments.countP (·.verdict = .eligible) ∧
      (selectReplacement input).disprovenCount =
        (selectReplacement input).assessments.countP (·.verdict = .disproven) := by
    unfold selectReplacement
    split
    · exact ⟨rfl, rfl⟩
    dsimp only
    split
    · split <;> exact ⟨rfl, rfl⟩
    · split <;> exact ⟨rfl, rfl⟩
  refine ⟨hcounts.1, hcounts.2, hindeterminate.trans (List.countP_congr fun a ha => ?_)⟩
  rw [undecided_iff ha]

theorem selectReplacement_index (h : (selectReplacement input).status = .selected) :
    ∃ i a, (selectReplacement input).selectedIndex = some i ∧
      (selectReplacement input).assessments[i]? = some a ∧ a.verdict = .eligible ∧
      ∀ b ∈ (selectReplacement input).assessments, b.verdict = .eligible →
        assessmentBetter b a = false := by
  have hassessments := selectReplacement_assessments input
  unfold selectReplacement at h hassessments ⊢
  split at h
  · cases h
  rename_i hne
  rw [if_neg hne] at hassessments ⊢
  dsimp only at h hassessments ⊢
  split at h
  · split at h <;> cases h
  rename_i he
  rw [if_neg he] at hassessments ⊢
  cases hbest : bestIndex (BoundedTable.sortBy CandidateAssessment.less
      (input.candidates.map (assess input))) with
  | none =>
    rw [hbest] at h
    cases h
  | some best =>
    obtain ⟨a, ha, hv⟩ := List.countP_pos_iff.mp (Nat.pos_of_ne_zero he)
    obtain ⟨i, c, hi, hc, hce, hnone⟩ := bestIndex_first ⟨a, ha, of_decide_eq_true hv⟩
    rw [hbest] at hi
    cases hi
    exact ⟨best, c, rfl, hc, hce, hnone⟩

theorem selectReplacement_nil (h : input.candidates = []) :
    (selectReplacement input).status = .emptyCandidateSet := by
  unfold selectReplacement
  rw [h]
  rfl

/-- No assessment has a verdict that all of them differ from. -/
theorem countP_verdict {xs : List CandidateAssessment} {v : Verdict}
    (h : ∀ a ∈ xs, a.verdict ≠ v) : xs.countP (·.verdict = v) = 0 :=
  List.countP_eq_zero.mpr fun a ha => by simpa using h a ha

theorem validateSelected_selects (hs : (selectReplacement input).status = .selected) :
    (validateSelected input (selectReplacement input)).isOk = true := by
  obtain ⟨i, a, hi, ha, he, hnone⟩ := selectReplacement_index hs
  have hchosen : (selectReplacement input).selectedIndex.bind
      (fun i => (selectReplacement input).assessments[i]?) = some a := by
    rw [hi]
    exact ha
  have hsubject : a.candidate ≠ input.subject := by
    obtain ⟨r, -, rfl⟩ := (mem_selected rfl).mp (List.mem_of_getElem? ha)
    exact (assess_eligible he).notSubject
  have hmaximum : (selectReplacement input).assessments.any (fun b =>
      decide (b.verdict = .eligible) && objectiveBetter (.ofAssessment b) (.ofAssessment a)) =
        false := by
    rw [List.any_eq_false]
    intro b hb
    rw [Bool.and_eq_true, decide_eq_true_eq]
    rintro ⟨hbe, hbetter⟩
    rw [show objectiveBetter (.ofAssessment b) (.ofAssessment a) = false from
      hnone b hb hbe] at hbetter
    cases hbetter
  unfold validateSelected
  rw [hchosen]
  dsimp only
  rw [if_neg (not_not.mpr he), if_neg hsubject, hmaximum]
  rfl

/-- The validator accepts what the selector decides. -/
theorem selectReplacement_valid (h : OneFabric input.candidates) :
    (validateSelection input (selectReplacement input)).isOk = true := by
  rw [validateSelection_eq (length_assessments input) h.distinct fun a ha => validateAssessment_ok ha]
  obtain ⟨heligible, -, hindeterminate⟩ := selectReplacement_counted input
  by_cases hne : input.candidates = []
  · rw [validateStatus, selectReplacement_nil hne, hne]
    rfl
  unfold validateStatus
  rcases selectReplacement_status hne with ⟨hs, -⟩ | ⟨hs, hall⟩ | ⟨hs, hnone, -⟩ <;> rw [hs] <;>
    dsimp only
  · exact validateSelected_selects hs
  · rw [countP_verdict fun a ha => by simp [hall a ha]] at heligible hindeterminate
    rw [if_neg (by simp [heligible, hindeterminate])]
    rfl
  · rw [countP_verdict hnone] at heligible
    rw [if_neg (by simp [heligible])]
    rfl

/-- The selector is exact: it selects the best of the eligible candidates, proves infeasibility from
evidence that rules every candidate out, and decides nothing else. -/
theorem selectReplacement_exact (h : OneFabric input.candidates) :
    SelectsExactly input (selectReplacement input) := by
  have heligible : (∃ a ∈ (selectReplacement input).assessments, a.verdict = .eligible) ↔
      ∃ r ∈ input.candidates, Qualifies input r := by
    constructor
    · rintro ⟨a, ha, hv⟩
      obtain ⟨r, hr, rfl⟩ := (mem_selected rfl).mp ha
      exact ⟨r, hr, judge_eligible_iff.mp hv⟩
    · rintro ⟨r, hr, hq⟩
      exact ⟨assess input r, (mem_selected rfl).mpr ⟨r, hr, rfl⟩, judge_eligible_iff.mpr hq⟩
  have hdisproven : (∀ a ∈ (selectReplacement input).assessments, a.verdict = .disproven) ↔
      ∀ r ∈ input.candidates, ShownInfeasible input r := by
    constructor
    · intro hall r hr
      exact judge_disproven_iff.mp (hall (assess input r) ((mem_selected rfl).mpr ⟨r, hr, rfl⟩))
    · intro hall a ha
      obtain ⟨r, hr, rfl⟩ := (mem_selected rfl).mp ha
      exact judge_disproven_iff.mpr (hall r hr)
  have hexclusive : ∀ r, Qualifies input r → ¬ ShownInfeasible input r := fun r hq hs => by
    have := (judge_eligible_iff.mpr hq).symm.trans (judge_disproven_iff.mpr hs)
    cases this
  have hassessed : (selectReplacement input).assessments.Perm
      (input.candidates.map (assess input)) := by
    rw [selectReplacement_assessments]
    exact BoundedTable.sortBy_perm
  have hordered : ObjectiveOrder (selectReplacement input).assessments := by
    refine ⟨fun a _ => assessmentBetter_orders.irrefl a,
      fun _ _ _ _ _ _ => assessmentBetter_orders.strict_trans, fun a ha b hb hne => ?_⟩
    by_contra hneither
    rw [not_or, Bool.not_eq_true, Bool.not_eq_true] at hneither
    exact hne (h.eq_of_objective ha hb hneither.1 hneither.2)
  have hmaximum : (selectReplacement input).status = .selected → ∃ i a,
      (selectReplacement input).selectedIndex = some i ∧
      (selectReplacement input).assessments[i]? = some a ∧ a.verdict = .eligible ∧
      ∀ b ∈ (selectReplacement input).assessments, b.verdict = .eligible → b ≠ a →
        assessmentBetter a b = true := by
    intro hs
    obtain ⟨i, a, hi, ha, he, hnone⟩ := selectReplacement_index hs
    refine ⟨i, a, hi, ha, he, fun b hb hbe hne => ?_⟩
    refine (hordered.total a (List.mem_of_getElem? ha) b hb hne.symm).resolve_right ?_
    rw [hnone b hb hbe]
    exact Bool.false_ne_true
  by_cases hne : input.candidates = []
  · have hs := selectReplacement_nil hne
    exact ⟨hordered, by simp [hs, hne], by simp [hs, hne], hmaximum, by simp [hs, hne], by simp [hs, hne],
      hassessed, selectReplacement_counted input, selectReplacement_valid h⟩
  rcases selectReplacement_status hne with ⟨hs, hsome⟩ | ⟨hs, hall⟩ | ⟨hs, hnone, hsome⟩
  · obtain ⟨r, hr, hq⟩ := heligible.mp hsome
    refine ⟨hordered, by simp [hs, hne], iff_of_true hs ⟨r, hr, hq⟩, hmaximum, ?_, ?_, hassessed,
      selectReplacement_counted input, selectReplacement_valid h⟩
    · exact iff_of_false (by simp [hs]) fun hi => hexclusive r hq (hi.2 r hr)
    · exact iff_of_false (by simp [hs]) fun hi => hi.2.1 r hr hq
  · have hshown := hdisproven.mp hall
    refine ⟨hordered, by simp [hs, hne], ?_, hmaximum, iff_of_true hs ⟨hne, hshown⟩, ?_, hassessed,
      selectReplacement_counted input, selectReplacement_valid h⟩
    · exact iff_of_false (by simp [hs]) fun ⟨r, hr, hq⟩ => hexclusive r hq (hshown r hr)
    · exact iff_of_false (by simp [hs]) fun ⟨_, _, r, hr, hn⟩ => hn (hshown r hr)
  · have hunqualified : ∀ r ∈ input.candidates, ¬ Qualifies input r := fun r hr hq => by
      obtain ⟨a, ha, hv⟩ := heligible.mpr ⟨r, hr, hq⟩
      exact hnone a ha hv
    have hnotall : ¬ ∀ r ∈ input.candidates, ShownInfeasible input r := fun hall => by
      obtain ⟨a, ha, hv⟩ := hsome
      exact hv (hdisproven.mpr hall a ha)
    refine ⟨hordered, by simp [hs, hne], ?_, hmaximum, ?_, iff_of_true hs ⟨hne, hunqualified, ?_⟩, hassessed,
      selectReplacement_counted input, selectReplacement_valid h⟩
    · exact iff_of_false (by simp [hs]) fun ⟨r, hr, hq⟩ => hunqualified r hr hq
    · exact iff_of_false (by simp [hs]) fun hi => hnotall hi.2
    · simpa using hnotall

namespace Sample

/-- A candidate that a publisher reports in some state. -/
def heard (link : LinkKey) (state : ObservationState) (capacity : UInt32) : ResolvedCandidate where
  candidate := link
  linkGeneration := ⟨1⟩
  evidencePresent := true
  report :=
    { candidate := link
      state := state
      confidence := ⟨1000⟩
      capacityUnits := capacity
      adjacencyAuthorized := true }
  freshness := .current

/-- A selection for the primary link, by the default policy. -/
def selectionOf (candidates : List ResolvedCandidate) : SelectionInput where
  fabric := name 102
  subject := primary
  subjectGeneration := ⟨1⟩
  topologyGeneration := ⟨1⟩
  policyGeneration := ⟨1⟩
  policy := {}
  minReplacementCapacity := 5
  candidates := candidates
  epoch := ⟨1⟩
  coordinator := incarnation 1

/-- One candidate. -/
def selection (state : ObservationState) (capacity : UInt32) : SelectionInput :=
  selectionOf [heard alternate state capacity]

theorem selection_oneFabric (state : ObservationState) (capacity : UInt32) :
    OneFabric (selection state capacity).candidates :=
  ⟨by simp [selection, selectionOf], by simp [selection, selectionOf]⟩

def link (c : UInt8) : LinkKey := ⟨name 102, name c⟩

/-- The subject itself, a link that is too small and one that nothing is known of. -/
def unfit : List ResolvedCandidate :=
  [heard primary .up 10, heard (link 99) .up 1, { candidate := link 100, linkGeneration := ⟨1⟩ }]

end Sample

/-- Among five candidates two qualify, and the one of more capacity is selected. Without these two
the selection is undecided, and without the unknown one as well nothing is left. -/
theorem selectReplacement_exact_sample :
    let several := Sample.selectionOf (Sample.unfit ++
      [Sample.heard Sample.alternate .up 10, Sample.heard (Sample.link 101) .up 20])
    let undecided := Sample.selectionOf Sample.unfit
    let hopeless := Sample.selectionOf (Sample.unfit.take 2)
    ((selectReplacement several).selectedIndex.bind fun i =>
      ((selectReplacement several).assessments[i]?).map (·.candidate)) = some (Sample.link 101) ∧
      SelectsExactly several (selectReplacement several) ∧
    (selectReplacement undecided).status = .indeterminate ∧
      SelectsExactly undecided (selectReplacement undecided) ∧
    (selectReplacement hopeless).status = .provenInfeasible ∧
      SelectsExactly hopeless (selectReplacement hopeless) := by
  refine ⟨by decide, selectReplacement_exact ⟨by decide, by decide⟩, by decide,
    selectReplacement_exact ⟨by decide, by decide⟩, by decide,
    selectReplacement_exact ⟨by decide, by decide⟩⟩

/-- A candidate that is too small stays undecided as long as its state is reported as unknown. -/
theorem unknown_not_infeasible : ∃ input, OneFabric input.candidates ∧
    ¬ ((selectReplacement input).status = .provenInfeasible ↔ input.candidates ≠ [] ∧
      ∀ r ∈ input.candidates, r.candidate = input.subject ∨ Bears input r ∧ RulesOut input r) := by
  refine ⟨Sample.selection .unknown 1, Sample.selection_oneFabric .unknown 1, fun h => ?_⟩
  have hproven := h.mpr ⟨by simp [Sample.selection, Sample.selectionOf], by
    simp only [Sample.selection, Sample.selectionOf, List.mem_singleton, forall_eq]
    refine .inr ⟨⟨rfl, rfl, by decide, by decide, rfl⟩, ?_⟩
    exact .inr (.inr (.inr (.inl (by decide))))⟩
  revert hproven
  decide

/-! ## The validator -/

/-- An outcome that is what it claims to be. -/
structure SoundOutcome (input : SelectionInput) (outcome : SelectionOutcome) : Prop where
  oneToOne : (outcome.assessments.map fun a => (a.candidate, a.linkGeneration)).Perm
    (input.candidates.map fun r => (r.candidate, r.linkGeneration))
  empty : outcome.status = .emptyCandidateSet → input.candidates = []
  selected : outcome.status = .selected → ∃ i a, outcome.selectedIndex = some i ∧
    outcome.assessments[i]? = some a ∧ a.verdict = .eligible ∧ a.candidate ≠ input.subject ∧
    ∀ b ∈ outcome.assessments, b.verdict = .eligible → assessmentBetter b a = false
  infeasible : outcome.status = .provenInfeasible → ∀ a ∈ outcome.assessments,
    a.verdict = .disproven ∧ reasonIsConclusive a.reason = true
  indeterminate : outcome.status = .indeterminate → ∀ a ∈ outcome.assessments,
    a.verdict ≠ .eligible

/-- No link is assessed twice, and the counters that the status rests on are the numbers of such
assessments. They count as the selector does: what is neither eligible nor disproven, a number
outside the enumeration included, is undecided. -/
structure Honest (outcome : SelectionOutcome) : Prop where
  distinct : (outcome.assessments.map (·.candidate)).Nodup
  eligible : outcome.status = .provenInfeasible ∨ outcome.status = .indeterminate →
    outcome.eligibleCount = outcome.assessments.countP (·.verdict = .eligible)
  indeterminate : outcome.status = .provenInfeasible →
    outcome.indeterminateCount = outcome.assessments.countP (·.verdict.undecided)

variable {outcome : SelectionOutcome}

theorem validateAssessment_of_ok {a : CandidateAssessment}
    (h : (validateAssessment input a).isOk = true) :
    (∃ r ∈ input.candidates, r.candidate = a.candidate ∧ r.linkGeneration = a.linkGeneration) ∧
      (a.verdict = .disproven → reasonIsConclusive a.reason = true) := by
  unfold validateAssessment at h
  split at h
  · cases h
  rename_i hany
  split at h
  · cases h
  rename_i hreason
  rw [Bool.not_eq_true, Bool.not_eq_false', List.any_eq_true] at hany
  obtain ⟨r, hr, hsame⟩ := hany
  rw [Bool.and_eq_true, decide_eq_true_eq, decide_eq_true_eq] at hsame
  exact ⟨⟨r, hr, hsame⟩, fun hv => Bool.not_eq_false _ ▸ fun hc => hreason ⟨hv, hc⟩⟩

/-- Everything that an accepted outcome has passed. -/
theorem validateSelection_of_ok (h : (validateSelection input outcome).isOk = true) :
    outcome.assessments.length = input.candidates.length ∧
      (input.candidates.map (·.candidate)).Nodup ∧
      (∀ a ∈ outcome.assessments, (validateAssessment input a).isOk = true) ∧
      (validateStatus input outcome).isOk = true := by
  unfold validateSelection at h
  split at h
  · cases h
  rename_i hlength
  split at h
  · cases h
  rename_i hdistinct
  split at h
  · rename_i a ha
    have := List.find?_some ha
    simp [h] at this
  · rename_i hnone
    refine ⟨not_not.mp hlength, not_not.mp hdistinct, fun a ha => ?_, h⟩
    simpa using List.find?_eq_none.mp hnone a ha

theorem validateSelected_of_ok (h : (validateSelected input outcome).isOk = true) :
    ∃ i a, outcome.selectedIndex = some i ∧ outcome.assessments[i]? = some a ∧
      a.verdict = .eligible ∧ a.candidate ≠ input.subject ∧
      ∀ b ∈ outcome.assessments, b.verdict = .eligible → assessmentBetter b a = false := by
  unfold validateSelected at h
  split at h
  · cases h
  rename_i a ha
  obtain ⟨i, hi, hget⟩ := Option.bind_eq_some_iff.mp ha
  split at h
  · cases h
  rename_i he
  split at h
  · cases h
  rename_i hs
  split at h
  · cases h
  rename_i hmaximum
  refine ⟨i, a, hi, hget, not_not.mp he, hs, fun b hb hbe => ?_⟩
  by_contra hbetter
  exact hmaximum (List.any_eq_true.mpr ⟨b, hb, by
    rw [Bool.and_eq_true, decide_eq_true_eq]
    exact ⟨hbe, Bool.not_eq_false _ ▸ hbetter⟩⟩)

/-- The assessments of an accepted outcome are those of the candidates, one each, unless a link is
assessed twice. -/
theorem oneToOne_iff (h : (validateSelection input outcome).isOk = true) :
    (outcome.assessments.map fun a => (a.candidate, a.linkGeneration)).Perm
      (input.candidates.map fun r => (r.candidate, r.linkGeneration)) ↔
      (outcome.assessments.map (·.candidate)).Nodup := by
  obtain ⟨hlength, hdistinct, hassess, -⟩ := validateSelection_of_ok h
  constructor
  · intro hp
    have hcandidates := hp.map Prod.fst
    rw [List.map_map, List.map_map] at hcandidates
    exact hcandidates.nodup_iff.mpr hdistinct
  · intro hn
    have hpairs : (outcome.assessments.map fun a => (a.candidate, a.linkGeneration)).Nodup := by
      refine List.Nodup.of_map Prod.fst ?_
      rw [List.map_map]
      exact hn
    have hsub : (outcome.assessments.map fun a => (a.candidate, a.linkGeneration)) ⊆
        input.candidates.map fun r => (r.candidate, r.linkGeneration) := by
      intro x hx
      obtain ⟨a, ha, rfl⟩ := List.mem_map.mp hx
      obtain ⟨⟨r, hr, hc, hg⟩, -⟩ := validateAssessment_of_ok (hassess a ha)
      exact List.mem_map.mpr ⟨r, hr, by rw [hc, hg]⟩
    refine (List.subperm_of_subset hpairs hsub).perm_of_length_le ?_
    rw [List.length_map, List.length_map, hlength]

theorem countP_zero_iff {xs : List CandidateAssessment} {v : Verdict} :
    0 = xs.countP (·.verdict = v) ↔ ∀ a ∈ xs, a.verdict ≠ v := by
  rw [eq_comm, List.countP_eq_zero]
  simp

theorem countP_undecided_zero_iff {xs : List CandidateAssessment} :
    0 = xs.countP (·.verdict.undecided) ↔ ∀ a ∈ xs, a.verdict.undecided = false := by
  rw [eq_comm, List.countP_eq_zero]
  simp

/-- An accepted outcome is sound exactly when no link is assessed twice and the counters that its
status rests on are right. -/
theorem validateSelection_sound_iff (h : (validateSelection input outcome).isOk = true) :
    SoundOutcome input outcome ↔ Honest outcome := by
  have hone := oneToOne_iff h
  obtain ⟨-, -, hassess, hstatus⟩ := validateSelection_of_ok h
  have hconclusive : ∀ a ∈ outcome.assessments, a.verdict = .disproven →
      reasonIsConclusive a.reason = true := fun a ha => (validateAssessment_of_ok (hassess a ha)).2
  unfold validateStatus at hstatus
  cases hs : outcome.status with
  | emptyCandidateSet =>
    rw [hs] at hstatus
    have hempty : input.candidates = [] := by
      by_contra hne
      rw [if_pos (by simpa [List.isEmpty_iff] using hne)] at hstatus
      cases hstatus
    constructor
    · exact fun hsound => ⟨hone.mp hsound.oneToOne, by simp [hs], by simp [hs]⟩
    · exact fun hh => ⟨hone.mpr hh.distinct, fun _ => hempty, by simp [hs], by simp [hs],
        by simp [hs]⟩
  | undeclared number =>
    constructor
    · exact fun hsound => ⟨hone.mp hsound.oneToOne, by simp [hs], by simp [hs]⟩
    · exact fun hh => ⟨hone.mpr hh.distinct, by simp [hs], by simp [hs], by simp [hs],
        by simp [hs]⟩
  | selected =>
    rw [hs] at hstatus
    have hselected := validateSelected_of_ok hstatus
    constructor
    · exact fun hsound => ⟨hone.mp hsound.oneToOne, by simp [hs], by simp [hs]⟩
    · exact fun hh => ⟨hone.mpr hh.distinct, by simp [hs], fun _ => hselected, by simp [hs],
        by simp [hs]⟩
  | provenInfeasible =>
    rw [hs] at hstatus
    have hzero : outcome.eligibleCount = 0 ∧ outcome.indeterminateCount = 0 := by
      by_contra hne
      rw [not_and_or] at hne
      rw [if_pos hne] at hstatus
      cases hstatus
    constructor
    · intro hsound
      have hall := hsound.infeasible hs
      refine ⟨hone.mp hsound.oneToOne, fun _ => ?_, fun _ => ?_⟩
      · rw [hzero.1, countP_zero_iff]
        exact fun a ha hv => by simp [(hall a ha).1] at hv
      · rw [hzero.2, countP_undecided_zero_iff]
        exact fun a ha => by rw [(hall a ha).1]; rfl
    · intro hh
      have he := countP_zero_iff.mp (hzero.1 ▸ hh.eligible (.inl hs))
      have hi := countP_undecided_zero_iff.mp (hzero.2 ▸ hh.indeterminate hs)
      refine ⟨hone.mpr hh.distinct, by simp [hs], by simp [hs], fun _ a ha => ?_, by simp [hs]⟩
      have hdisproven : a.verdict = .disproven := by
        cases hv : a.verdict with
        | eligible => exact absurd hv (he a ha)
        | disproven => rfl
        | indeterminate | undeclared =>
          have hdecided := hi a ha
          rw [hv] at hdecided
          cases hdecided
      exact ⟨hdisproven, hconclusive a ha hdisproven⟩
  | indeterminate =>
    rw [hs] at hstatus
    have hzero : outcome.eligibleCount = 0 := by
      by_contra hne
      rw [if_pos hne] at hstatus
      cases hstatus
    constructor
    · intro hsound
      refine ⟨hone.mp hsound.oneToOne, fun _ => ?_, by simp [hs]⟩
      rw [hzero, countP_zero_iff]
      exact hsound.indeterminate hs
    · intro hh
      have he := countP_zero_iff.mp (hzero ▸ hh.eligible (.inr hs))
      exact ⟨hone.mpr hh.distinct, by simp [hs], by simp [hs], by simp [hs], fun _ => he⟩

/-- The outcome of the selector for the candidate that is up, but for the status and the counter of
eligible candidates. -/
def Sample.forged : SelectionOutcome :=
  { selectReplacement (Sample.selection .up 10) with
    status := .provenInfeasible
    eligibleCount := 0 }

/-- The validator accepts that an eligible candidate is proven infeasible. -/
theorem validateSelection_accepts_forged : ∃ input outcome,
    (validateSelection input outcome).isOk = true ∧ ¬ SoundOutcome input outcome := by
  refine ⟨Sample.selection .up 10, Sample.forged, by decide, fun hs => ?_⟩
  have hall := hs.infeasible rfl
  revert hall
  decide

theorem validateSelection_sound_sample :
    SoundOutcome (Sample.selection .up 10) (selectReplacement (Sample.selection .up 10)) :=
  (validateSelection_sound_iff (by decide)).mpr ⟨by decide, by decide, by decide⟩

end LinkFailover
