import LinkFailover.CandidateOrder
import LinkFailover.GrantSoundness

/-!
# The verdict on a failure

One walk over the retained observations of a link counts those that qualify, counts the failures
among them and keeps the best of these. What comes out of it depends on the qualified observations
only, and not on their order.

* `FollowsReference`: the verdict that a list of qualified observations calls for.
* `failureTally_best`: the failure that the walk keeps.
* `evaluateFailure_reference`: the walk comes to that verdict.
-/

namespace LinkFailover

open Codec

/-- A retained observation of a failing link, with its publisher. -/
abbrev FailureObservation := PublisherName × RetainedFailureEvidence

/-! ## The reference -/

/-- Whether so many failures among so many observations establish a failure. The code asks for
unanimity by name and takes the majority under any other rule, so also under a number outside the
enumeration. -/
def AgreementRule.Establishes (failures qualified : Nat) : AgreementRule → Prop
  | .unanimous => failures = qualified
  | .majorityOfFreshQualified | .undeclared _ => qualified < 2 * failures

/-- Whether the observations contradict each other, when they do not establish a failure. -/
def AgreementRule.Divides (failures qualified : Nat) : AgreementRule → Prop
  | .unanimous => 0 < failures
  | .majorityOfFreshQualified | .undeclared _ => 2 * failures = qualified

/-- The more confident of two observations ranks higher, then the younger one, then the one of the
smaller publisher. -/
structure RanksBelow (e : Engine) (x y : FailureObservation) : Prop where
  confidence : x.2.report.confidence.value ≤ y.2.report.confidence.value
  age : x.2.report.confidence.value = y.2.report.confidence.value →
    e.tick - y.2.receiptTick ≤ e.tick - x.2.receiptTick
  publisher : x.2.report.confidence.value = y.2.report.confidence.value →
    e.tick - y.2.receiptTick = e.tick - x.2.receiptTick → nameLess x.1 y.1 = false

/-- The verdict that the qualified observations call for, by the rule of the policy in force. -/
structure FollowsReference (e : Engine) (Q : List FailureObservation) (v : FailureVerdict) :
    Prop where
  unknown : v.outcome = .unknown ↔ Q = []
  established : v.established = true ↔ Q ≠ [] ∧
    e.state.policy.agreement.Establishes (Q.countP fun x => e.reportsFailure x.2) Q.length
  conflicted : v.outcome = .indeterminate ∧ v.reason = .evidenceConflicted ↔
    Q ≠ [] ∧ v.established = false ∧
      e.state.policy.agreement.Divides (Q.countP fun x => e.reportsFailure x.2) Q.length
  refused : v.outcome = .refused ↔ Q ≠ [] ∧ v.established = false ∧
    ¬ e.state.policy.agreement.Divides (Q.countP fun x => e.reportsFailure x.2) Q.length
  cited : v.established = true → ∃ x ∈ Q, e.reportsFailure x.2 = true ∧
    (∀ y ∈ Q, e.reportsFailure y.2 = true → RanksBelow e y x) ∧
    v.publisher = x.1 ∧ v.publisherSeq = x.2.report.stamp.observationSeq ∧
    v.evidenceDigest = x.2.digest

namespace Engine

variable {e : Engine} {subject : LinkKey} {generation : LinkGeneration} {x y : FailureObservation}

/-! ## The failure that the walk keeps -/

def failureAge (e : Engine) (x : FailureObservation) : UInt64 := (e.classifyRetained x.2).2

def failureRanksAbove (e : Engine) : FailureObservation → FailureObservation → Bool :=
  ranksAbove (·.confidence) e.failureAge

/-- The observations that count, and count for the failure. -/
def countsFor (e : Engine) (generation : LinkGeneration) (x : FailureObservation) : Bool :=
  e.counts generation x && e.reportsFailure x.2

/-- One step of the walk, as far as the best failure goes. -/
theorem failureTally_step (t : FailureTally) :
    (t.add x.1 x.2 (e.failureFinding generation x.1 x.2)).best =
      if e.countsFor generation x then
        match t.best with
        | none => some (x.2, e.failureAge x)
        | some (best, age) =>
          if preferred (·.stamp) (·.confidence) x.1 x.2 (e.failureAge x) best age then
            some (x.2, e.failureAge x)
          else t.best
      else t.best := by
  unfold countsFor
  by_cases hq : e.counts generation x = true
  · rw [hq, counts_iff.mp hq, Bool.true_and]
    cases hr : e.reportsFailure x.2 with
    | true => rfl
    | false => rfl
  · rw [Bool.eq_false_iff.mpr hq, Bool.false_and, if_neg Bool.false_ne_true]
    cases hf : e.failureFinding generation x.1 x.2 with
    | qualified failed age =>
      rw [counts, hf] at hq
      exact absurd rfl hq
    | _ => rfl

/-- From an observation on, the walk keeps the highest ranked one among it and the failures that
follow. -/
theorem foldl_failureTally {xs : List FailureObservation} {t : FailureTally}
    {f : FailureObservation} (hfiled : ∀ x ∈ f :: xs, x.2.report.stamp.publisher = x.1)
    (hf : t.best = some (f.2, e.failureAge f)) :
    ∃ g, (xs.foldl (fun t x => t.add x.1 x.2 (e.failureFinding generation x.1 x.2)) t).best =
        some (g.2, e.failureAge g) ∧
      g = (xs.filter (e.countsFor generation)).foldl (Orders.earlier e.failureRanksAbove) f := by
  induction xs generalizing t f with
  | nil => exact ⟨f, hf, rfl⟩
  | cons x xs ih =>
    have hstep := @failureTally_step e generation x t
    have hrest : ∀ {g}, g ∈ f :: x :: xs → ∀ y ∈ g :: xs, y.2.report.stamp.publisher = y.1 := by
      intro g hg y hy
      rcases List.mem_cons.mp hy with rfl | hy
      · exact hfiled y hg
      · exact hfiled y (List.mem_cons_of_mem _ (List.mem_cons_of_mem _ hy))
    rw [hf] at hstep
    dsimp only at hstep
    rw [preferred_eq_ranksAbove (x := x) (y := f) (·.confidence) e.failureAge
      (hfiled f List.mem_cons_self)] at hstep
    rw [List.foldl_cons]
    cases hq : e.countsFor generation x with
    | false =>
      rw [hq, if_neg Bool.false_ne_true] at hstep
      rw [List.filter_cons_of_neg (by simp [hq])]
      exact ih (hrest List.mem_cons_self) hstep
    | true =>
      rw [hq, if_pos rfl] at hstep
      rw [List.filter_cons_of_pos hq, List.foldl_cons]
      refine ih (f := Orders.earlier e.failureRanksAbove f x) ?_ ?_
      · unfold Orders.earlier
        split
        · exact hrest (List.mem_cons_of_mem _ List.mem_cons_self)
        · exact hrest List.mem_cons_self
      · rw [hstep]
        unfold Orders.earlier failureRanksAbove
        split <;> rfl

/-- The walk keeps the highest ranked failure. -/
theorem failureTally_best {xs : List FailureObservation} {t : FailureTally}
    (hfiled : ∀ x ∈ xs, x.2.report.stamp.publisher = x.1) (ht : t.best = none)
    (hne : xs.filter (e.countsFor generation) ≠ []) :
    ∃ g, (xs.foldl (fun t x => t.add x.1 x.2 (e.failureFinding generation x.1 x.2)) t).best =
        some (g.2, e.failureAge g) ∧
      Orders.First e.failureRanksAbove (xs.filter (e.countsFor generation)) g := by
  induction xs generalizing t with
  | nil => exact absurd rfl hne
  | cons x xs ih =>
    have hstep := @failureTally_step e generation x t
    rw [List.foldl_cons]
    cases hq : e.countsFor generation x with
    | false =>
      rw [hq, if_neg Bool.false_ne_true] at hstep
      rw [List.filter_cons_of_neg (by simp [hq])] at hne ⊢
      exact ih (fun y hy => hfiled y (List.mem_cons_of_mem _ hy)) (hstep.trans ht) hne
    | true =>
      rw [hq, if_pos rfl, ht] at hstep
      rw [List.filter_cons_of_pos hq]
      obtain ⟨g, hbest, rfl⟩ := @foldl_failureTally _ generation _ _ _ hfiled hstep
      exact ⟨_, hbest, (ranksAbove_orders FailureReport.confidence e.failureAge).search_first x _⟩

/-! ## The verdict -/

theorem qualified_filter : (e.qualifiedFailures subject generation).filter
    (fun x => e.reportsFailure x.2) =
      (e.failureBucket subject).filter (e.countsFor generation) := by
  rw [qualifiedFailures, List.filter_filter]
  exact List.filter_congr fun x _ => Bool.and_comm _ _

/-- The observations behind the best failure rank below it. -/
theorem ranksBelow_of_first (hfiled : e.FailuresFiled subject)
    (hx : x ∈ e.qualifiedFailures subject generation)
    (hy : y ∈ e.qualifiedFailures subject generation)
    (hnone : e.failureRanksAbove y x = false) : RanksBelow e y x := by
  have hage : ∀ {z}, z ∈ e.qualifiedFailures subject generation →
      e.failureAge z = e.tick - z.2.receiptTick := by
    intro z hz
    obtain ⟨-, hq⟩ := hfiled.mem.mp hz
    unfold failureAge classifyRetained classifyReceipt
    rw [if_neg (not_not.mpr hq.received), if_neg (UInt64.not_lt.mpr hq.arrived)]
  rw [failureRanksAbove, ranksAbove] at hnone
  obtain ⟨hconfidence, hrest⟩ := Orders.lex_eq_false.mp hnone
  have hconfidence' := UInt32.not_lt.mp (of_decide_eq_false hconfidence)
  have hsame : y.2.report.confidence.value = x.2.report.confidence.value →
      Orders.lex (fun x y => decide (e.failureAge x < e.failureAge y))
        (fun x y => nameLess x.1 y.1) y x = false := fun he =>
    hrest.resolve_left fun hlt => UInt32.lt_irrefl _ (he ▸ of_decide_eq_true hlt)
  refine ⟨hconfidence', fun he => ?_, fun he hsameAge => ?_⟩
  · obtain ⟨hlt, -⟩ := Orders.lex_eq_false.mp (hsame he)
    rw [← hage hx, ← hage hy]
    exact UInt64.not_lt.mp (of_decide_eq_false hlt)
  · obtain ⟨-, hrest⟩ := Orders.lex_eq_false.mp (hsame he)
    refine hrest.resolve_left fun hlt => ?_
    have := of_decide_eq_true hlt
    rw [hage hx, hage hy, hsameAge] at this
    exact UInt64.lt_irrefl _ this

theorem qualifiedFailures_nodup : ((e.qualifiedFailures subject generation).map Prod.fst).Nodup := by
  unfold qualifiedFailures failureBucket
  cases e.failureEvidence.find? subject with
  | none => exact List.nodup_nil
  | some bucket => exact (List.filter_sublist.map Prod.fst).nodup bucket.nodup

/-- The counts of the walk, and the failure that it keeps. -/
structure Tallied (e : Engine) (subject : LinkKey) (generation : LinkGeneration)
    (t : FailureTally) : Prop where
  qualified : t.qualified = (e.qualifiedFailures subject generation).length
  failures : t.failures =
    (e.qualifiedFailures subject generation).countP fun x => e.reportsFailure x.2
  best : 0 < t.failures → ∃ g, t.best = some (g.2, e.failureAge g) ∧
    Orders.First e.failureRanksAbove
      ((e.qualifiedFailures subject generation).filter fun x => e.reportsFailure x.2) g

theorem failureTally_tallied (hfiled : e.FailuresFiled subject) :
    Tallied e subject generation (e.failureTally subject generation) := by
  obtain ⟨hq, hf⟩ := @failureTally_counts e generation (e.failureBucket subject) {}
  rw [Nat.zero_add] at hq hf
  refine ⟨hq, hf, fun hpos => ?_⟩
  rw [qualified_filter]
  refine failureTally_best (fun x hx => (hfiled x hx).2) rfl fun hnil => ?_
  rw [failureTally, hf, List.countP_eq_length_filter] at hpos
  change 0 < ((e.qualifiedFailures subject generation).filter _).length at hpos
  rw [qualified_filter, hnil] at hpos
  exact Nat.lt_irrefl 0 hpos

/-- The verdict on a tally. -/
theorem verdict_reference {t : FailureTally} (hfiled : e.FailuresFiled subject)
    (ht : Tallied e subject generation t) :
    FollowsReference e (e.qualifiedFailures subject generation)
      (t.verdict e.state.policy.agreement) := by
  obtain ⟨hq, hf, hbest⟩ := ht
  have hmem : ∀ {x}, x ∈ (e.qualifiedFailures subject generation).filter
      (fun x => e.reportsFailure x.2) ↔ x ∈ e.qualifiedFailures subject generation ∧
        e.reportsFailure x.2 = true := List.mem_filter
  have hrank : ∀ {x y}, x ∈ e.qualifiedFailures subject generation →
      y ∈ e.qualifiedFailures subject generation → e.failureRanksAbove y x = false →
      RanksBelow e y x := fun hx hy hn => ranksBelow_of_first hfiled hx hy hn
  have hfiled' : ∀ {x}, x ∈ e.qualifiedFailures subject generation →
      x.2.report.stamp.publisher = x.1 := fun hx => ((hfiled.mem.mp hx).2).attributed
  generalize e.qualifiedFailures subject generation = Q at hq hf hbest hmem hrank hfiled'
  have hle : t.failures ≤ t.qualified := by
    rw [hq, hf]
    exact List.countP_le_length
  have hagrees : t.agrees e.state.policy.agreement = true ↔
      e.state.policy.agreement.Establishes t.failures t.qualified := by
    unfold FailureTally.agrees AgreementRule.Establishes
    cases e.state.policy.agreement with
    | unanimous => rw [decide_eq_true_eq]
    | majorityOfFreshQualified | undeclared => rw [decide_eq_true_eq]; omega
  have hconflicts : t.conflicts e.state.policy.agreement = true ↔
      e.state.policy.agreement.Divides t.failures t.qualified := by
    unfold FailureTally.conflicts AgreementRule.Divides
    cases e.state.policy.agreement with
    | unanimous => rw [decide_eq_true_eq]
    | majorityOfFreshQualified | undeclared => rw [decide_eq_true_eq]; omega
  have hnil : Q = [] ↔ t.qualified = 0 := by rw [hq, List.length_eq_zero_iff]
  rw [hq] at hagrees hconflicts
  rw [hf] at hagrees hconflicts
  unfold FailureTally.verdict
  by_cases h0 : t.qualified = 0
  · rw [if_pos h0]
    have hQ := hnil.mpr h0
    exact ⟨by simp [hQ], by simp [hQ], by simp [hQ], by simp [hQ], by simp⟩
  rw [if_neg h0]
  have hQ : Q ≠ [] := fun h => h0 (hnil.mp h)
  cases ha : t.agrees e.state.policy.agreement with
  | true =>
    have hpos : 0 < t.failures := by
      have := ha
      unfold FailureTally.agrees at this
      split at this
      all_goals
        rw [decide_eq_true_eq] at this
        omega
    obtain ⟨g, hg, hmax, hfirst⟩ := hbest hpos
    obtain ⟨hgQ, hgr⟩ := hmem.mp hmax
    rw [hg]
    dsimp only
    refine ⟨by simp [hQ], by simp [hQ, hagrees.mp ha], by simp, by simp, fun _ => ?_⟩
    exact ⟨g, hgQ, hgr, fun y hy hr => hrank hgQ hy (hfirst y (hmem.mpr ⟨hy, hr⟩)),
      hfiled' hgQ, rfl, rfl⟩
  | false =>
    have hna : ¬ e.state.policy.agreement.Establishes (Q.countP fun x => e.reportsFailure x.2)
        Q.length := fun h => by
      rw [hagrees.mpr h] at ha
      cases ha
    dsimp only
    cases hc : t.conflicts e.state.policy.agreement with
    | true =>
      have hd := hconflicts.mp hc
      rw [if_pos (show (!false && true) = true from rfl)]
      exact ⟨by simp [hQ], by simp [hna], by simp [hQ, hd], by simp [hd], by simp⟩
    | false =>
      have hd : ¬ e.state.policy.agreement.Divides (Q.countP fun x => e.reportsFailure x.2)
          Q.length := fun h => by
        rw [hconflicts.mpr h] at hc
        cases hc
      rw [if_neg (by simp)]
      exact ⟨by simp [hQ], by simp [hna], by simp [hd], by simp [hQ, hd], by simp⟩

/-- The evaluation of a failure comes to the verdict that the qualified observations call for,
whatever else is retained and in whatever order. -/
theorem evaluateFailure_reference (hfiled : e.FailuresFiled subject)
    (generation : LinkGeneration) :
    ∃ Q : List FailureObservation, (Q.map Prod.fst).Nodup ∧
      (∀ x, x ∈ Q ↔ EvidenceTable.Has e.failureEvidence subject x.1 x.2 ∧
        QualifiedFailure e subject generation x.1 x.2) ∧
      FollowsReference e Q (e.evaluateFailure subject generation) := by
  refine ⟨_, qualifiedFailures_nodup, fun _ => hfiled.mem, ?_⟩
  unfold evaluateFailure
  by_cases hempty : (e.failureBucket subject).isEmpty = true
  · have hQ : e.qualifiedFailures subject generation = [] := by
      rw [qualifiedFailures, List.isEmpty_iff.mp hempty]
      rfl
    rw [if_pos hempty, hQ]
    exact ⟨by simp, by simp, by simp, by simp, by simp⟩
  · rw [if_neg hempty]
    exact verdict_reference hfiled (failureTally_tallied hfiled)

end Engine

namespace Sample

/-- A publisher finds the primary link in some state. -/
def finds (publisher : PublisherName) (state : ObservationState) (confidence : UInt32) : Operation :=
  .publishFailure
    { subject := primary
      linkGeneration := ⟨1⟩
      topologyGeneration := ⟨1⟩
      state := state
      confidence := ⟨confidence⟩
      stamp := { stamp 1 with publisher := publisher } }

/-- Two publishers find the link down and one finds it up. A fourth one is not confident enough to
count. -/
def divided (rule : AgreementRule) : List Action :=
  [.start { options := options { agreement := rule } {}, incarnation := incarnation 1 },
    .perform (finds (name 97) .down 900), .perform (finds (name 98) .up 1000),
    .perform (finds (name 99) .down 1000), .perform (finds (name 100) .up 1)]

/-- How an engine judges those four observations. -/
def judges (e : Engine) (established : Bool) : Bool :=
  let v := e.evaluateFailure primary ⟨1⟩
  decide ((e.failureBucket primary).length = 4 ∧ (e.qualifiedFailures primary ⟨1⟩).length = 3 ∧
    v.established = established) &&
    if established then decide (v.publisher = name 99) else decide (v.reason = .evidenceConflicted)

end Sample

/-- The majority of three qualified observations establishes the failure, and the more confident of
the two that report it is cited. When all have to agree, the same observations are in conflict. -/
theorem evaluateFailure_reference_sample : ∃ e e' : Engine, Reachable e ∧ Reachable e' ∧
    Sample.judges e true = true ∧ Sample.judges e' false = true ∧ ∀ e₀ ∈ [e, e'],
      ∃ Q : List FailureObservation, (Q.map Prod.fst).Nodup ∧
        (∀ x, x ∈ Q ↔ EvidenceTable.Has e₀.failureEvidence Sample.primary x.1 x.2 ∧
          QualifiedFailure e₀ Sample.primary ⟨1⟩ x.1 x.2) ∧
        FollowsReference e₀ Q (e₀.evaluateFailure Sample.primary ⟨1⟩) := by
  obtain ⟨e, he, hp⟩ := @System.of_serves (System.run (Sample.divided .majorityOfFreshQualified))
    (fun e => Sample.judges e true) (by decide +kernel)
  obtain ⟨e', he', hp'⟩ := @System.of_serves (System.run (Sample.divided .unanimous))
    (fun e => Sample.judges e false) (by decide +kernel)
  refine ⟨e, e', ⟨_, he⟩, ⟨_, he'⟩, hp, hp', fun e₀ hm => ?_⟩
  have hreach : Reachable e₀ := by
    rcases List.mem_cons.mp hm with rfl | hm
    · exact ⟨_, he⟩
    · rw [List.mem_singleton.mp hm]
      exact ⟨_, he'⟩
  exact Engine.evaluateFailure_reference (Engine.failuresFiled hreach.ok) ⟨1⟩

end LinkFailover
