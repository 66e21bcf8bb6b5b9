import LinkFailover.Lib.Buckets
import LinkFailover.System

/-!
# What a publication does

A publication is refused at once, is refused by the registry of publishers, or is admitted. An
admitted one may still be refused, because its sequence does not advance or because the tables are
full. Only then is the report retained.

* `Admits`: the ways in which the registry admits a stamp.
* `Retains`: what becomes of an admitted report.
* `publish_inversion`: how a publication ends.
-/

namespace LinkFailover

open Codec

namespace Engine

variable {e : Engine} {stamp : EvidenceStamp}

/-! ## Admission -/

/-- The publisher of a stamp is registered under the incarnation that the stamp names. -/
def Knows (e : Engine) (stamp : EvidenceStamp) : Prop :=
  ∃ s, e.publishers.find? stamp.publisher = some s ∧ s.incarnation = stamp.publisherIncarnation

/-- The registry has no place left for the publisher of a stamp, or knows a later incarnation. -/
def RegistryRefuses (e : Engine) (stamp : EvidenceStamp) : Prop :=
  match e.publishers.find? stamp.publisher with
  | none => e.options.limits.maxTrackedPublishers ≤ e.publishers.size
  | some s => s.incarnation ≠ stamp.publisherIncarnation ∧ stamp.publisherEpoch ≤ s.epoch

/-- The engine once a publisher is registered for the first time. -/
def registered (e : Engine) (stamp : EvidenceStamp) : Engine :=
  e.putPublisher stamp.publisher
    { incarnation := stamp.publisherIncarnation
      epoch := stamp.publisherEpoch
      firstSeenTick := e.tick }

/-- The engine once a publisher is back with a later incarnation. -/
def restarted (e : Engine) (stamp : EvidenceStamp) (s : PublisherState) : Engine :=
  (e.putPublisher stamp.publisher
    { s with
      incarnation := stamp.publisherIncarnation
      epoch := stamp.publisherEpoch }).retirePublisher stamp.publisher

inductive Admits (e : Engine) (stamp : EvidenceStamp) : Engine → Prop where
  | registered (hnew : e.publishers.find? stamp.publisher = none)
      (hroom : e.publishers.size < e.options.limits.maxTrackedPublishers) :
      Admits e stamp (e.registered stamp)
  | known (hknown : e.Knows stamp) : Admits e stamp e
  | restarted {s : PublisherState} (hs : e.publishers.find? stamp.publisher = some s)
      (hother : s.incarnation ≠ stamp.publisherIncarnation) (hlater : s.epoch < stamp.publisherEpoch) :
      Admits e stamp (e.restarted stamp s)

theorem admitPublisher_cases (e : Engine) (stamp : EvidenceStamp) :
    e.RegistryRefuses stamp ∧ (e.admitPublisher stamp).1 = e ∧
        (e.admitPublisher stamp).2.isOk = false ∨
      ¬ e.RegistryRefuses stamp ∧ Admits e stamp (e.admitPublisher stamp).1 ∧
        (e.admitPublisher stamp).2.isOk = true := by
  unfold admitPublisher RegistryRefuses
  cases hs : e.publishers.find? stamp.publisher with
  | none =>
    dsimp only
    by_cases hfull : e.publishers.size ≥ e.options.limits.maxTrackedPublishers
    · rw [if_pos hfull]
      exact .inl ⟨hfull, rfl, rfl⟩
    · rw [if_neg hfull]
      exact .inr ⟨hfull, .registered hs (Nat.not_le.mp hfull), rfl⟩
  | some s =>
    dsimp only
    by_cases hi : s.incarnation = stamp.publisherIncarnation
    · rw [if_pos hi]
      exact .inr ⟨fun h => h.1 hi, .known ⟨s, hs, hi⟩, rfl⟩
    rw [if_neg hi]
    by_cases hless : stamp.publisherEpoch < s.epoch
    · rw [if_pos hless]
      refine .inl ⟨⟨hi, ?_⟩, rfl, rfl⟩
      rw [StrongUint.lt_iff] at hless
      rw [StrongUint.le_iff]
      omega
    rw [if_neg hless]
    by_cases heq : stamp.publisherEpoch = s.epoch
    · rw [if_pos heq]
      exact .inl ⟨⟨hi, StrongUint.le_iff.mpr (by rw [heq])⟩, rfl, rfl⟩
    rw [if_neg heq]
    have hlater : s.epoch < stamp.publisherEpoch := by
      have hne : stamp.publisherEpoch.toNat ≠ s.epoch.toNat :=
        fun h => heq (StrongUint.toNat_inj.mp h)
      rw [StrongUint.lt_iff] at hless ⊢
      omega
    refine .inr ⟨fun h => ?_, .restarted hs hi hlater, rfl⟩
    rw [StrongUint.le_iff] at h
    rw [StrongUint.lt_iff] at hlater
    omega

theorem find?_putPublisher (e : Engine) (p q : PublisherName) (s : PublisherState) :
    (e.putPublisher p s).publishers.find? q = if q = p then some s else e.publishers.find? q :=
  SortedMap.find?_insert ..

/-- Whoever is admitted is registered under the incarnation of the stamp. -/
theorem Admits.knows {e₁ : Engine} (h : Admits e stamp e₁) : e₁.Knows stamp := by
  cases h with
  | registered => exact ⟨_, (e.find?_putPublisher _ _ _).trans (if_pos rfl), rfl⟩
  | known hknown => exact hknown
  | restarted => exact ⟨_, (e.find?_putPublisher _ _ _).trans (if_pos rfl), rfl⟩

/-- A known publisher is admitted without a change. -/
theorem Admits.of_knows {e₁ : Engine} (h : Admits e stamp e₁) (hknows : e.Knows stamp) :
    e₁ = e := by
  obtain ⟨s, hs, hi⟩ := hknows
  cases h with
  | registered hnew =>
    rw [hs] at hnew
    cases hnew
  | known => rfl
  | restarted hs' hother =>
    rw [hs] at hs'
    cases hs'
    exact absurd hi hother

theorem Admits.tick {e₁ : Engine} (h : Admits e stamp e₁) : e₁.tick = e.tick := by
  cases h <;> rfl

/-! ## Retention -/

variable {Report : Type} {k : ReportKind Report} {report : Report}

/-- The last sequence that is booked for a link and a publisher. -/
theorem sequenceReplayed_iff {link : LinkKey} :
    e.sequenceReplayed link stamp = true ↔
      ∃ last, e.lastObservationSeq.get link stamp.publisher = some last ∧
        stamp.observationSeq ≤ last := by
  unfold sequenceReplayed SortedMap.get SortedMap.bucket
  cases e.lastObservationSeq.find? link with
  | none => simp [SortedMap.find?_empty]
  | some b =>
    dsimp only [Option.getD_some]
    cases b.find? stamp.publisher with
    | none => simp
    | some last => simp [StrongUint.le_iff, StrongUint.lt_iff]

def bucketOf (e : Engine) (k : ReportKind Report) (report : Report) :
    PublisherMap (Retained Report) :=
  (k.table e).bucket (k.link report)

/-- The tables are full for a report that takes nobody's place. -/
def TablesFull (e : Engine) (k : ReportKind Report) (report : Report) : Prop :=
  (e.bucketOf k report).contains (k.stamp report).publisher = false ∧
    e.options.limits.maxEvidenceEntries ≤ e.evidenceEntries

/-- The engine once a report is refused because the tables are full. -/
def bucketed (e : Engine) (k : ReportKind Report) (report : Report) : Engine :=
  k.put e ((k.table e).insert LinkKey.less (k.link report) (e.bucketOf k report))

/-- The engine once a report is retained. -/
def accepting (e : Engine) (k : ReportKind Report) (report : Report) : Engine :=
  (k.put e ((k.table e).insert LinkKey.less (k.link report)
    ((e.bucketOf k report).insert nameLess (k.stamp report).publisher
      (e.retain report (k.digest report))))).noteObservation (k.link report) (k.stamp report)
    ((e.bucketOf k report).contains (k.stamp report).publisher)

inductive Retains (e : Engine) (k : ReportKind Report) (report : Report) :
    Engine → Bool → Prop where
  | replayed (hreplayed : e.sequenceReplayed (k.link report) (k.stamp report) = true) :
      Retains e k report e false
  | full (hadvances : e.sequenceReplayed (k.link report) (k.stamp report) = false)
      (hfull : e.TablesFull k report) : Retains e k report (e.bucketed k report) false
  | accepted (hadvances : e.sequenceReplayed (k.link report) (k.stamp report) = false)
      (hroom : ¬ e.TablesFull k report) : Retains e k report (e.accepting k report) true

theorem retainReport_retains (e : Engine) (k : ReportKind Report) (report : Report) :
    Retains e k report (e.retainReport k report).1 (e.retainReport k report).2.isOk := by
  unfold retainReport
  dsimp only
  cases hreplayed : e.sequenceReplayed (k.link report) (k.stamp report) with
  | true => exact .replayed hreplayed
  | false =>
    rw [if_neg (by simp)]
    by_cases hfull : e.TablesFull k report
    · rw [if_pos (by simpa [TablesFull, bucketOf, SortedMap.bucket] using hfull)]
      exact .full hreplayed hfull
    · rw [if_neg (by simpa [TablesFull, bucketOf, SortedMap.bucket] using hfull)]
      exact .accepted hreplayed hfull

/-! ## Tables -/

/-- A table that is changed is what it was changed to, and nothing else changes. -/
structure OwnTable (k : ReportKind Report) : Prop where
  table_put : ∀ e t, k.table (k.put e t) = t
  put_table : ∀ e, k.put e (k.table e) = e
  publishers : ∀ e t, (k.put e t).publishers = e.publishers
  lastObservationSeq : ∀ e t, (k.put e t).lastObservationSeq = e.lastObservationSeq
  evidenceEntries : ∀ e t, (k.put e t).evidenceEntries = e.evidenceEntries
  options : ∀ e t, (k.put e t).options = e.options
  tick : ∀ e t, (k.put e t).tick = e.tick
  table_tick : ∀ e t, k.table { e with tick := t } = k.table e

theorem failureReports_ownTable : OwnTable failureReports :=
  ⟨fun _ _ => rfl, fun _ => rfl, fun _ _ => rfl, fun _ _ => rfl, fun _ _ => rfl, fun _ _ => rfl,
    fun _ _ => rfl, fun _ _ => rfl⟩

theorem replacementReports_ownTable : OwnTable replacementReports :=
  ⟨fun _ _ => rfl, fun _ => rfl, fun _ _ => rfl, fun _ _ => rfl, fun _ _ => rfl, fun _ _ => rfl,
    fun _ _ => rfl, fun _ _ => rfl⟩

section Accepting

variable (hk : OwnTable k)
include hk

theorem accepting_sequences : (e.accepting k report).lastObservationSeq =
    e.lastObservationSeq.insert LinkKey.less (k.link report)
      ((e.lastObservationSeq.bucket (k.link report)).insert nameLess (k.stamp report).publisher
        (k.stamp report).observationSeq) := by
  change SortedMap.insert _ (k.put e _).lastObservationSeq _ (SortedMap.insert _
    (((k.put e _).lastObservationSeq.find? _).getD _) _ _) = _
  rw [hk.lastObservationSeq]
  rfl

theorem accepting_options : (e.accepting k report).options = e.options := hk.options e _

theorem accepting_tick : (e.accepting k report).tick = e.tick := hk.tick e _

/-- A booked publisher keeps its incarnation and its epoch. -/
theorem accepting_publishers (hknows : e.Knows (k.stamp report)) (p : PublisherName) :
    ((e.accepting k report).publishers.find? p).map (fun s => (s.incarnation, s.epoch)) =
      (e.publishers.find? p).map fun s => (s.incarnation, s.epoch) := by
  obtain ⟨s, hs, -⟩ := hknows
  change (Engine.publishers (putPublisher (k.put e _) _ _) |>.find? p).map _ = _
  rw [find?_putPublisher, hk.publishers, hs]
  split
  · rename_i hp
    rw [hp, hs]
    rfl
  · rfl

theorem accepting_size (hknows : e.Knows (k.stamp report)) :
    (e.accepting k report).publishers.size = e.publishers.size := by
  obtain ⟨s, hs, -⟩ := hknows
  have hcontains : e.publishers.contains (k.stamp report).publisher = true := by
    rw [SortedMap.contains, hs, Option.isSome_some]
  have hsize := @SortedMap.size_insert _ _ _ nameLess (k.put e ((k.table e).insert LinkKey.less
    (k.link report) ((e.bucketOf k report).insert nameLess (k.stamp report).publisher
      (e.retain report (k.digest report))))).publishers (k.stamp report).publisher
    { s with highestSeq := (k.stamp report).observationSeq, accepted := s.accepted + 1 }
  rw [hk.publishers, hcontains, if_pos rfl] at hsize
  change (Engine.publishers (putPublisher (k.put e _) _ _)).size = _
  rw [hk.publishers, hs, putPublisher, hk.publishers]
  exact Nat.add_right_cancel hsize

end Accepting

/-! ## Publication -/

/-- How a publication ends. -/
inductive Publishes (e : Engine) (k : ReportKind Report) (report : Report) :
    Engine → Bool → Prop where
  | malformed {s : Status} (hmalformed : e.admitReport k report = some s) :
      Publishes e k report e false
  | unregistered (hformed : e.admitReport k report = none)
      (hrefuses : e.RegistryRefuses (k.stamp report)) : Publishes e k report e.advance false
  | admitted {e₁ e' : Engine} {ok : Bool} (hformed : e.admitReport k report = none)
      (hagrees : ¬ e.RegistryRefuses (k.stamp report))
      (hadmits : Admits e.advance (k.stamp report) e₁) (hretains : Retains e₁ k report e' ok) :
      Publishes e k report e' ok

theorem admitReport_not_ok {s : Status} (h : e.admitReport k report = some s) :
    s.isOk = false := by
  unfold admitReport unavailable at h
  dsimp only at h
  split at h
  · rename_i hu
    split at hu
    · cases hu
      cases h
      rfl
    split at hu
    · cases hu
      cases h
      rfl
    · cases hu
  split at h
  · cases h
    rfl
  split at h
  · cases h
    rfl
  split at h
  · cases h
    rfl
  · cases h

theorem publish_inversion (e : Engine) (k : ReportKind Report) (report : Report) :
    Publishes e k report (e.publish k report).1 (e.publish k report).2.isOk := by
  unfold publish
  cases hformed : e.admitReport k report with
  | some s =>
    rw [admitReport_not_ok hformed]
    exact .malformed hformed
  | none =>
    dsimp only
    rcases e.advance.admitPublisher_cases (k.stamp report) with
      ⟨hrefuses, hsame, hok⟩ | ⟨hagrees, hadmits, hok⟩
    · rw [hok, if_pos (by simp), hok, hsame]
      exact .unregistered hformed hrefuses
    · rw [hok, if_neg (by simp)]
      exact .admitted hformed hagrees hadmits (retainReport_retains _ k report)

end Engine

end LinkFailover
