import LinkFailover.CandidateOrder
import LinkFailover.EvidenceTables

/-!
# Refused publications

A publication that is refused should change nothing but the clock. One that is refused because the
tables are full has registered its publisher before, or retired it, and has made a bucket for its
link. Nothing of this is taken back.

* `Ordered`: the tables of every run stand in the order of their links.
* `Traceless`: when a refused publication leaves no trace.
* `refused_traceless_iff`: a refused publication leaves no trace exactly then.
-/

namespace LinkFailover

open Codec

/-! ## Tables in order -/

/-- Both tables stand in the order of their links. -/
structure Ordered (e : Engine) : Prop where
  failures : e.failureEvidence.InOrder LinkKey.less
  replacements : e.replacementEvidence.InOrder LinkKey.less

section Orders

variable {e e₁ e' : Engine} {ok : Bool}

theorem Ordered.admitted {stamp : EvidenceStamp} (h : Ordered e) (hadmits : Engine.Admits e stamp e₁) :
    Ordered e₁ := by
  cases hadmits with
  | known => exact h
  | registered => exact ⟨h.failures, h.replacements⟩
  | restarted => exact ⟨h.failures.map _, h.replacements.map _⟩

theorem Ordered.retainFailure {report : FailureReport} (h : Ordered e)
    (hretains : Engine.Retains e Engine.failureReports report e' ok) : Ordered e' := by
  cases hretains with
  | replayed => exact h
  | full => exact ⟨h.failures.insert LinkKey.less_orders _ _, h.replacements⟩
  | accepted => exact ⟨h.failures.insert LinkKey.less_orders _ _, h.replacements⟩

theorem Ordered.retainReplacement {report : ReplacementReport} (h : Ordered e)
    (hretains : Engine.Retains e Engine.replacementReports report e' ok) : Ordered e' := by
  cases hretains with
  | replayed => exact h
  | full => exact ⟨h.failures, h.replacements.insert LinkKey.less_orders _ _⟩
  | accepted => exact ⟨h.failures, h.replacements.insert LinkKey.less_orders _ _⟩

theorem Ordered.advance (h : Ordered e) : Ordered e.advance := ⟨h.failures, h.replacements⟩

theorem Ordered.publishFailure {report : FailureReport} (h : Ordered e)
    (hpublishes : Engine.Publishes e Engine.failureReports report e' ok) : Ordered e' := by
  cases hpublishes with
  | malformed => exact h
  | unregistered => exact h.advance
  | admitted _ _ hadmits hretains => exact (h.advance.admitted hadmits).retainFailure hretains

theorem Ordered.publishReplacement {report : ReplacementReport} (h : Ordered e)
    (hpublishes : Engine.Publishes e Engine.replacementReports report e' ok) : Ordered e' := by
  cases hpublishes with
  | malformed => exact h
  | unregistered => exact h.advance
  | admitted _ _ hadmits hretains => exact (h.advance.admitted hadmits).retainReplacement hretains

theorem Ordered.perform {wire : Prop} (hok : EngineOk wire e) (h : Ordered e) (op : Operation) :
    Ordered (e.perform op).1 := by
  rcases perform_keeps hok op with hk | ⟨report, rfl⟩ | ⟨report, rfl⟩
  · constructor
    · rw [hk.failureEvidence]
      exact h.failures
    · rw [hk.replacementEvidence]
      exact h.replacements
  · exact h.publishFailure (e.publish_inversion Engine.failureReports report)
  · exact h.publishReplacement (e.publish_inversion Engine.replacementReports report)

end Orders

theorem run_ordered {actions : List Action} {e : Engine} (h : System.run actions = .up e) :
    Ordered e := by
  induction actions using List.reverseRecOn generalizing e with
  | nil => cases h
  | append_singleton actions a ih =>
    have hok : (System.run actions).Ok False := System.run_ok False.elim
    rw [System.run_append] at h
    cases hs : System.run actions with
    | down m =>
      rw [hs] at h
      cases a with
      | start b =>
        rw [System.step] at h
        split at h
        · cases h
        · rename_i m' e' hopen
          cases h
          obtain ⟨s, epoch, rfl⟩ := Boot.open_blank hopen
          exact ⟨SortedMap.inOrder_empty, SortedMap.inOrder_empty⟩
      | perform | kill => cases h
    | up e₀ =>
      rw [hs] at h hok
      cases a with
      | start b =>
        cases h
        exact ih hs
      | perform op =>
        cases h
        exact (ih hs).perform hok op
      | kill => cases h

/-! ## Traces -/

section Traces

variable {Report : Type} {k : Engine.ReportKind Report} {report : Report} {e e₁ e' : Engine}
  {ok : Bool} {events : List EvidenceEvent}

/-- A refusal of a report leaves no trace: the report is not well formed, the registry refuses it,
or its publisher is known under its incarnation and either its sequence does not advance or there
is a bucket for its link. -/
def Traceless (e : Engine) (k : Engine.ReportKind Report) (report : Report) : Prop :=
  (e.admitReport k report).isSome = true ∨ e.RegistryRefuses (k.stamp report) ∨
    e.Knows (k.stamp report) ∧ (e.sequenceReplayed (k.link report) (k.stamp report) = true ∨
      (k.table e).contains (k.link report) = true)

/-- The engine is the one before, but for its clock. -/
def Untouched (e e' : Engine) : Prop := { e' with tick := e.tick } = e

theorem untouched_advance (e : Engine) : Untouched e e.advance := rfl

theorem Untouched.publishers (h : Untouched e e') : e'.publishers = e.publishers := by
  unfold Untouched at h
  have hsame := congrArg Engine.publishers h
  exact hsame

/-- Whoever was not known is known under another incarnation afterwards. -/
theorem not_untouched_of_admits {stamp : EvidenceStamp} (hunknown : ¬ e.Knows stamp)
    (hknows : e'.Knows stamp) : ¬ Untouched e e' := by
  intro h
  obtain ⟨s, hs, hi⟩ := hknows
  rw [h.publishers] at hs
  exact hunknown ⟨s, hs, hi⟩

/-- A publisher that was not known under an incarnation has nothing booked under it. -/
theorem Registered.advances (h : Registered e events) {stamp : EvidenceStamp} {link : LinkKey}
    (hunknown : ¬ e.Knows stamp) (hadmits : Engine.Admits e stamp e₁) :
    e₁.sequenceReplayed link stamp = false := by
  have hnone : e₁.lastObservationSeq.get link stamp.publisher = none := by
    cases hadmits with
    | registered hnew =>
      change e.lastObservationSeq.get link stamp.publisher = none
      rw [h.sequences, h.silent hnew]
      rfl
    | known hknown => exact absurd hknown hunknown
    | restarted =>
      exact (SortedMap.get_dropInner e.lastObservationSeq link stamp.publisher
        stamp.publisher).trans (if_pos rfl)
  rw [Bool.eq_false_iff]
  intro hreplayed
  obtain ⟨last, hlast, -⟩ := Engine.sequenceReplayed_iff.mp hreplayed
  rw [hnone] at hlast
  cases hlast

theorem bucketed_knows (hk : Engine.OwnTable k) {stamp : EvidenceStamp} (h : e.Knows stamp) :
    (e.bucketed k report).Knows stamp := by
  obtain ⟨s, hs, hi⟩ := h
  exact ⟨s, by rw [Engine.bucketed, hk.publishers, hs], hi⟩

/-- The bucket of a link that has one is put back in its place. -/
theorem bucketed_eq (hk : Engine.OwnTable k) (hordered : (k.table e).InOrder LinkKey.less)
    (hbucket : (k.table e).contains (k.link report) = true) : e.bucketed k report = e := by
  obtain ⟨b, hb⟩ := Option.isSome_iff_exists.mp hbucket
  have hbucketOf : e.bucketOf k report = b := by
    rw [Engine.bucketOf, SortedMap.bucket, hb]
    rfl
  rw [Engine.bucketed, hbucketOf, hordered.insert_eq LinkKey.less_orders hb, hk.put_table]

theorem not_untouched_of_bucket (hk : Engine.OwnTable k)
    (hbucket : (k.table e).contains (k.link report) = false) :
    ¬ Untouched e (e.advance.bucketed k report) := by
  intro h
  unfold Untouched at h
  have htable := congrArg k.table h
  rw [hk.table_tick, Engine.bucketed, hk.table_put] at htable
  have hcontains : ((k.table e.advance).insert LinkKey.less (k.link report)
      (e.advance.bucketOf k report)).contains (k.link report) = true := by
    rw [SortedMap.contains, SortedMap.find?_insert, if_pos rfl, Option.isSome_some]
  rw [htable, hbucket] at hcontains
  cases hcontains

/-- A refused publication leaves no trace exactly when the condition holds before it. -/
theorem refused_untouched_iff (hk : Engine.OwnTable k) (hregistered : Registered e events)
    (hordered : (k.table e).InOrder LinkKey.less)
    (hpublishes : Engine.Publishes e k report e' false) :
    Untouched e e' ↔ Traceless e k report := by
  have htable : k.table e.advance = k.table e := hk.table_tick e _
  cases hpublishes with
  | malformed hm => exact iff_of_true rfl (.inl (by rw [hm, Option.isSome_some]))
  | unregistered _ hrefuses =>
    exact iff_of_true (untouched_advance e) (.inr (.inl hrefuses))
  | @admitted e₁ _ _ hformed hagrees hadmits hretains =>
    by_cases hknown : e.Knows (k.stamp report)
    · obtain rfl : e₁ = e.advance := hadmits.of_knows hknown
      cases hretains with
      | replayed hreplayed =>
        exact iff_of_true (untouched_advance e) (.inr (.inr ⟨hknown, .inl hreplayed⟩))
      | full hadvances =>
        have hadvances' : e.sequenceReplayed (k.link report) (k.stamp report) = false := hadvances
        cases hbucket : (k.table e).contains (k.link report) with
        | true =>
          rw [bucketed_eq hk (by rw [htable]; exact hordered) (by rw [htable]; exact hbucket)]
          exact iff_of_true (untouched_advance e) (.inr (.inr ⟨hknown, .inr hbucket⟩))
        | false =>
          refine iff_of_false (not_untouched_of_bucket hk hbucket) ?_
          rintro (hm | hrefuses | ⟨-, hreplayed | hcontains⟩)
          · rw [hformed] at hm
            cases hm
          · exact hagrees hrefuses
          · rw [hadvances'] at hreplayed
            cases hreplayed
          · rw [hbucket] at hcontains
            cases hcontains
    · have hnot : ¬ Traceless e k report := by
        rintro (hm | hrefuses | ⟨hknows, -⟩)
        · rw [hformed] at hm
          cases hm
        · exact hagrees hrefuses
        · exact hknown hknows
      have hadvanced : Registered e.advance events :=
        ⟨hregistered.registry, hregistered.epochs, hregistered.attributed, hregistered.sequences,
          hregistered.rising, hregistered.room⟩
      cases hretains with
      | replayed hreplayed =>
        rw [hadvanced.advances hknown hadmits] at hreplayed
        cases hreplayed
      | full =>
        exact iff_of_false
          (not_untouched_of_admits hknown (bucketed_knows hk hadmits.knows)) hnot

end Traces

/-- A publication that is refused, in whatever state a run leads to, leaves everything but the
clock as it was exactly when the report is not well formed, the registry refuses its publisher, or
its publisher is known under its incarnation and either its sequence does not advance or its link
has a bucket in the table. -/
theorem refused_traceless_iff {e : Engine} (h : Reachable e) :
    (∀ report, (e.publishFailureReport report).2.isOk = false →
        (Untouched e (e.publishFailureReport report).1 ↔
          Traceless e Engine.failureReports report)) ∧
      ∀ report, (e.publishReplacementReport report).2.isOk = false →
        (Untouched e (e.publishReplacementReport report).1 ↔
          Traceless e Engine.replacementReports report) := by
  obtain ⟨actions, hrun⟩ := h
  have hregistered := (watch_ok hrun).evident.registered
  have hordered := run_ordered hrun
  constructor
  · intro report hrefused
    have hpublishes := e.publish_inversion Engine.failureReports report
    rw [show (e.publish Engine.failureReports report).2.isOk = false from hrefused] at hpublishes
    exact refused_untouched_iff Engine.failureReports_ownTable hregistered hordered.failures
      hpublishes
  · intro report hrefused
    have hpublishes := e.publish_inversion Engine.replacementReports report
    rw [show (e.publish Engine.replacementReports report).2.isOk = false from hrefused]
      at hpublishes
    exact refused_untouched_iff Engine.replacementReports_ownTable hregistered
      hordered.replacements hpublishes

/-- A process whose tables take nothing in. -/
def Sample.full : List Action :=
  [.start { options := options {} { maxEvidenceEntries := 0 }, incarnation := incarnation 1 }]

/-- The first report of a publisher is refused, and the publisher is registered. -/
theorem refused_not_untouched : ¬ ∀ e, Reachable e → ∀ report,
    (e.publishFailureReport report).2.isOk = false →
      Untouched e (e.publishFailureReport report).1 := by
  intro hall
  obtain ⟨e, he, hp⟩ := @System.of_serves (System.run Sample.full)
    (fun e => !(e.publishFailureReport Sample.downReport).2.isOk && e.publishers.size == 0 &&
      (e.publishFailureReport Sample.downReport).1.publishers.size == 1) (by decide +kernel)
  simp only [Bool.and_eq_true, beq_iff_eq, Bool.not_eq_true'] at hp
  obtain ⟨⟨hrefused, hnone⟩, hone⟩ := hp
  rw [(hall e ⟨_, he⟩ Sample.downReport hrefused).publishers, hnone] at hone
  cases hone

/-- A report that a process has heard already is refused and leaves no trace. The first report of a
publisher, refused by a table that takes nothing in, leaves one. -/
theorem refused_traceless_sample : ∃ e e', Reachable e ∧ Reachable e' ∧
    (e.publishFailureReport Sample.downReport).2.isOk = false ∧
    Untouched e (e.publishFailureReport Sample.downReport).1 ∧
    (e'.publishFailureReport Sample.downReport).2.isOk = false ∧
    ¬ Traceless e' Engine.failureReports Sample.downReport := by
  obtain ⟨e, he, hp⟩ := @System.of_serves (System.run (Sample.booted {} {}))
    (fun e => !(e.publishFailureReport Sample.downReport).2.isOk &&
      decide ((e.publishers.find? Sample.downReport.stamp.publisher).map (·.incarnation) =
        some Sample.downReport.stamp.publisherIncarnation) &&
      e.sequenceReplayed Sample.primary Sample.downReport.stamp) (by decide +kernel)
  simp only [Bool.and_eq_true, Bool.not_eq_true', decide_eq_true_eq] at hp
  obtain ⟨⟨hrefused, hknows⟩, hreplayed⟩ := hp
  obtain ⟨e', he', hp'⟩ := @System.of_serves (System.run Sample.full)
    (fun e => !(e.publishFailureReport Sample.downReport).2.isOk && e.publishers.size == 0 &&
      (e.publishFailureReport Sample.downReport).1.publishers.size == 1) (by decide +kernel)
  simp only [Bool.and_eq_true, beq_iff_eq, Bool.not_eq_true'] at hp'
  obtain ⟨⟨hrefused', hnone⟩, hone⟩ := hp'
  refine ⟨e, e', ⟨_, he⟩, ⟨_, he'⟩, hrefused, ?_, hrefused', fun hless => ?_⟩
  · exact ((refused_traceless_iff ⟨_, he⟩).1 Sample.downReport hrefused).mpr
      (.inr (.inr ⟨Option.map_eq_some_iff.mp hknows, .inl hreplayed⟩))
  · have hsame := ((refused_traceless_iff ⟨_, he'⟩).1 Sample.downReport hrefused').mpr hless
    rw [hsame.publishers, hnone] at hone
    cases hone

end LinkFailover
