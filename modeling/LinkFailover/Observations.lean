import LinkFailover.Engine

/-!
# Publishing observations

An observation is admitted when it names this fabric, a publisher and non-zero generations,
when it comes from the current incarnation of its publisher or from a later one, and when its
sequence advances. A later incarnation retires everything that the publisher said before.
-/

namespace LinkFailover

open Codec

def hexDigit (n : UInt8) : UInt8 := if n < 10 then 48 + n else 87 + n

def hex (bs : Bytes) : Bytes := bs.flatMap fun (b : UInt8) => [hexDigit (b >>> 4), hexDigit (b &&& 15)]

namespace Engine

/-- The failure of an operation that a shut down engine or a failed store refuses. -/
def unavailable (e : Engine) : Option Status :=
  if e.closed then
    some (Status.failure .closed .shutdown (text "engine is shutting down"))
  else if e.storeFailed then
    some (Status.failure .ioError .internalError (text "durable lineage is unavailable"))
  else none

/-- Everything of a publisher is dropped from the memory, whatever link it is about. -/
def retirePublisher (e : Engine) (p : PublisherName) : Engine :=
  let held := fun {α : Type} (t : SortedMap LinkKey (PublisherMap α)) =>
    t.entries.countP fun b => b.2.contains p
  { e with
    evidenceEntries := e.evidenceEntries - held e.failureEvidence - held e.replacementEvidence
    failureEvidence := e.failureEvidence.map (·.erase p)
    replacementEvidence := e.replacementEvidence.map (·.erase p)
    lastObservationSeq := e.lastObservationSeq.map (·.erase p) }

def putPublisher (e : Engine) (p : PublisherName) (s : PublisherState) : Engine :=
  { e with publishers := e.publishers.insert nameLess p s }

/-- Checks the publisher of a stamp against the registry, and registers it. -/
def admitPublisher (e : Engine) (stamp : EvidenceStamp) : Engine × Status :=
  match e.publishers.find? stamp.publisher with
  | none =>
    if e.publishers.size ≥ e.options.limits.maxTrackedPublishers then
      (e, Status.failure .exhausted .limitExceeded (text "publisher registry is full"))
    else
      (e.putPublisher stamp.publisher
        { incarnation := stamp.publisherIncarnation
          epoch := stamp.publisherEpoch
          firstSeenTick := e.tick }, Status.success)
  | some p =>
    if p.incarnation = stamp.publisherIncarnation then (e, Status.success)
    else if stamp.publisherEpoch < p.epoch then
      (e, (Status.failure .stale .publisherIncarnationMismatch
        (text "observation comes from a retired publisher incarnation")).add .preRestartAuthority
        (hex stamp.publisherIncarnation.bytes))
    else if stamp.publisherEpoch = p.epoch then
      (e, Status.failure .conflict .publisherIncarnationMismatch
        (text "two incarnations claim the same publisher epoch"))
    else
      ((e.putPublisher stamp.publisher
        { p with incarnation := stamp.publisherIncarnation, epoch := stamp.publisherEpoch }
        ).retirePublisher stamp.publisher, Status.success)

/-- Whether a sequence does not advance what the publisher last said about a link. -/
def sequenceReplayed (e : Engine) (link : LinkKey) (stamp : EvidenceStamp) : Bool :=
  match e.lastObservationSeq.find? link with
  | none => false
  | some last =>
    match last.find? stamp.publisher with
    | none => false
    | some seq => !decide (seq < stamp.observationSeq)

/-- Books an accepted observation: its sequence, the count of entries and the publisher. -/
def noteObservation (e : Engine) (link : LinkKey) (stamp : EvidenceStamp) (replacing : Bool) :
    Engine :=
  let last := (e.lastObservationSeq.find? link).getD .empty
  let publisher := (e.publishers.find? stamp.publisher).getD
    { incarnation := .zero 16, epoch := .zero }
  { e.putPublisher stamp.publisher
      { publisher with
        highestSeq := stamp.observationSeq
        accepted := publisher.accepted + 1 } with
    lastObservationSeq := e.lastObservationSeq.insert LinkKey.less link
      (last.insert nameLess stamp.publisher stamp.observationSeq)
    evidenceEntries := if replacing then e.evidenceEntries else e.evidenceEntries + 1 }

def retain {Report : Type} (e : Engine) (report : Report) (digest : Digest) : Retained Report where
  report := report
  digest := digest
  receiptTick := e.tick
  receiptEpoch := e.epoch
  receiptCoordinator := e.incarnation

/-- What a kind of report is about, and the table that retains it. -/
structure ReportKind (Report : Type) where
  link : Report → LinkKey
  linkGeneration : Report → LinkGeneration
  topologyGeneration : Report → TopologyGeneration
  stamp : Report → EvidenceStamp
  digest : Report → Digest
  table : Engine → EvidenceTable Report
  put : Engine → EvidenceTable Report → Engine

def failureReports : ReportKind FailureReport where
  link := (·.subject)
  linkGeneration := (·.linkGeneration)
  topologyGeneration := (·.topologyGeneration)
  stamp := (·.stamp)
  digest := FailureReport.digest
  table := (·.failureEvidence)
  put e t := { e with failureEvidence := t }

def replacementReports : ReportKind ReplacementReport where
  link := (·.candidate)
  linkGeneration := (·.linkGeneration)
  topologyGeneration := (·.topologyGeneration)
  stamp := (·.stamp)
  digest := ReplacementReport.digest
  table := (·.replacementEvidence)
  put e t := { e with replacementEvidence := t }

variable {Report : Type}

/-- The checks that need no registry. -/
def admitReport (e : Engine) (k : ReportKind Report) (report : Report) : Option Status :=
  let link := k.link report
  let stamp := k.stamp report
  match e.unavailable with
  | some s => some s
  | none =>
    if link.fabric ≠ e.options.fabric then
      some ((Status.failure .notFound .unknownFabric
        (text "observation names an unknown fabric")).add .invalidArgument link.fabric.value)
    else if link.link.empty || (k.linkGeneration report).isZero ||
        (k.topologyGeneration report).isZero then
      some (Status.failure .invalid .nullField
        (text "observation must bind a link and non-zero generations"))
    else if stamp.publisher.empty || stamp.publisherIncarnation.isZero then
      some (Status.failure .invalid .nullField
        (text "observation must name a publisher and its incarnation"))
    else none

/-- Retains a report whose publisher is admitted. The bucket of the link exists afterwards
even when the table is full. -/
def retainReport (e : Engine) (k : ReportKind Report) (report : Report) : Engine × Status :=
  let link := k.link report
  let stamp := k.stamp report
  if e.sequenceReplayed link stamp then
    (e, (Status.failure .stale .sessionSequenceReplayed
      (text "observation sequence does not advance")).add .sequenceRegression
      (decimal stamp.observationSeq.toNat))
  else
    let bucket := ((k.table e).find? link).getD .empty
    let replacing := bucket.contains stamp.publisher
    if !replacing && e.evidenceEntries ≥ e.options.limits.maxEvidenceEntries then
      (k.put e ((k.table e).insert LinkKey.less link bucket),
        Status.failure .exhausted .limitExceeded (text "evidence table is full"))
    else
      let bucket := bucket.insert nameLess stamp.publisher (e.retain report (k.digest report))
      ((k.put e ((k.table e).insert LinkKey.less link bucket)).noteObservation link stamp
        replacing, Status.success)

def publish (e : Engine) (k : ReportKind Report) (report : Report) : Engine × Status :=
  match e.admitReport k report with
  | some s => (e, s)
  | none =>
    match e.advance.admitPublisher (k.stamp report) with
    | (e, admitted) => if !admitted.isOk then (e, admitted) else e.retainReport k report

def publishFailureReport (e : Engine) (report : FailureReport) : Engine × Status :=
  e.publish failureReports report

def publishReplacementReport (e : Engine) (report : ReplacementReport) : Engine × Status :=
  e.publish replacementReports report

end Engine

/-! ## What a table retains -/

/-- The table retains this of a publisher on a link. -/
def EvidenceTable.Has {Report : Type} (t : EvidenceTable Report) (link : LinkKey)
    (publisher : PublisherName) (x : Retained Report) : Prop :=
  ∃ b ∈ t.entries, b.1 = link ∧ (publisher, x) ∈ b.2.entries

section Tables

variable {Report : Type} {t : EvidenceTable Report} {link l : LinkKey}
  {publisher p : PublisherName} {x y : Retained Report}

theorem EvidenceTable.has_of_find {b : PublisherMap (Retained Report)} (h : t.find? link = some b)
    (hx : (publisher, x) ∈ b.entries) : EvidenceTable.Has t link publisher x :=
  ⟨(link, b), SortedMap.mem_of_find? h, rfl, hx⟩

/-- Nothing is retained behind a retirement that was not retained before. -/
theorem EvidenceTable.has_erase
    (h : EvidenceTable.Has (SortedMap.map (fun b => b.erase p) t) link publisher x) :
    EvidenceTable.Has t link publisher x := by
  obtain ⟨b, hb, hl, hx⟩ := h
  obtain ⟨c, hc, rfl⟩ := SortedMap.mem_map.mp hb
  exact ⟨c, hc, hl, (SortedMap.mem_erase.mp hx).1⟩

/-- The bucket of a link, with more or less in it, in its place. -/
theorem EvidenceTable.has_insert {b : PublisherMap (Retained Report)}
    (h : EvidenceTable.Has (t.insert LinkKey.less link b) l publisher x) :
    l = link ∧ (publisher, x) ∈ b.entries ∨ EvidenceTable.Has t l publisher x := by
  obtain ⟨c, hc, hl, hx⟩ := h
  rcases SortedMap.mem_insert.mp hc with rfl | ⟨hm, -⟩
  · exact .inl ⟨hl.symm, hx⟩
  · exact .inr ⟨c, hm, hl, hx⟩

theorem EvidenceTable.has_bucket (h : (publisher, x) ∈ ((t.find? link).getD .empty).entries) :
    EvidenceTable.Has t link publisher x := by
  cases hf : t.find? link with
  | none => simp [hf, SortedMap.empty] at h
  | some b =>
    rw [hf] at h
    exact has_of_find hf h

end Tables

/-- Both tables of an engine retain no more than those of another. -/
structure Fewer (e e' : Engine) : Prop where
  failures : ∀ {l p x}, EvidenceTable.Has e'.failureEvidence l p x →
    EvidenceTable.Has e.failureEvidence l p x
  replacements : ∀ {l p x}, EvidenceTable.Has e'.replacementEvidence l p x →
    EvidenceTable.Has e.replacementEvidence l p x

/-- What a publication leaves alone. -/
structure Unmoved (e e' : Engine) : Prop where
  store : e'.store = e.store
  options : e'.options = e.options
  incarnation : e'.incarnation = e.incarnation
  epoch : e'.epoch = e.epoch
  closed : e'.closed = e.closed
  storeFailed : e'.storeFailed = e.storeFailed

namespace Engine

variable {e : Engine} {Report : Type}

theorem admitPublisher_fewer (e : Engine) (stamp : EvidenceStamp) :
    Fewer e (e.admitPublisher stamp).1 ∧ Unmoved e (e.admitPublisher stamp).1 := by
  unfold admitPublisher
  split
  · split
    · exact ⟨⟨id, id⟩, ⟨rfl, rfl, rfl, rfl, rfl, rfl⟩⟩
    · exact ⟨⟨id, id⟩, ⟨rfl, rfl, rfl, rfl, rfl, rfl⟩⟩
  split
  · exact ⟨⟨id, id⟩, ⟨rfl, rfl, rfl, rfl, rfl, rfl⟩⟩
  split
  · exact ⟨⟨id, id⟩, ⟨rfl, rfl, rfl, rfl, rfl, rfl⟩⟩
  split
  · exact ⟨⟨id, id⟩, ⟨rfl, rfl, rfl, rfl, rfl, rfl⟩⟩
  · exact ⟨⟨EvidenceTable.has_erase, EvidenceTable.has_erase⟩, ⟨rfl, rfl, rfl, rfl, rfl, rfl⟩⟩

/-- A table with the bucket of a link in its place again, and nothing new in it but a report. -/
structure Rebucketed (k : ReportKind Report) (report : Report) (t t' : EvidenceTable Report) :
    Prop where
  has : ∀ {l p x}, EvidenceTable.Has t' l p x → EvidenceTable.Has t l p x ∨
    l = k.link report ∧ p = (k.stamp report).publisher ∧ x.report = report

theorem rebucketed_insert {k : ReportKind Report} {report : Report} {t : EvidenceTable Report}
    {b : PublisherMap (Retained Report)}
    (h : ∀ p x, (p, x) ∈ b.entries → EvidenceTable.Has t (k.link report) p x ∨
      p = (k.stamp report).publisher ∧ x.report = report) :
    Rebucketed k report t (t.insert LinkKey.less (k.link report) b) where
  has hx := by
    rcases EvidenceTable.has_insert hx with ⟨rfl, hm⟩ | hm
    · exact (h _ _ hm).imp id fun hr => ⟨rfl, hr⟩
    · exact .inl hm

/-- How an engine changes with a publication: nothing is added, or the table of the report takes
it in and the observation is booked or not. -/
theorem publish_cases (e : Engine) (k : ReportKind Report) (report : Report) :
    ∃ e₁, Fewer e e₁ ∧ Unmoved e e₁ ∧ ((e.publish k report).1 = e₁ ∨
      ∃ t, Rebucketed k report (k.table e₁) t ∧ ((e.publish k report).1 = k.put e₁ t ∨
        ∃ replacing, (e.publish k report).1 =
          (k.put e₁ t).noteObservation (k.link report) (k.stamp report) replacing)) := by
  unfold publish
  split
  · exact ⟨e, ⟨id, id⟩, ⟨rfl, rfl, rfl, rfl, rfl, rfl⟩, .inl rfl⟩
  dsimp only
  obtain ⟨hfewer, hmoved⟩ := e.advance.admitPublisher_fewer (k.stamp report)
  refine ⟨(e.advance.admitPublisher (k.stamp report)).1, ⟨hfewer.failures, hfewer.replacements⟩,
    ⟨hmoved.store, hmoved.options, hmoved.incarnation, hmoved.epoch, hmoved.closed,
      hmoved.storeFailed⟩, ?_⟩
  split
  · exact .inl rfl
  unfold retainReport
  dsimp only
  split
  · exact .inl rfl
  split
  · exact .inr ⟨_, rebucketed_insert fun _ _ hx => .inl (EvidenceTable.has_bucket hx), .inl rfl⟩
  · refine .inr ⟨_, rebucketed_insert fun p x hx => ?_, .inr ⟨_, rfl⟩⟩
    rcases SortedMap.mem_insert.mp hx with h | ⟨h, -⟩
    · cases h
      exact .inr ⟨rfl, rfl⟩
    · exact .inl (EvidenceTable.has_bucket h)

/-- A published failure report is the only thing that its publication adds. -/
theorem publishFailureReport_adds (e : Engine) (report : FailureReport) :
    Unmoved e (e.publishFailureReport report).1 ∧
      Rebucketed failureReports report e.failureEvidence
        (e.publishFailureReport report).1.failureEvidence ∧
      ∀ {l p x}, EvidenceTable.Has (e.publishFailureReport report).1.replacementEvidence l p x →
        EvidenceTable.Has e.replacementEvidence l p x := by
  obtain ⟨e₁, hf, hm, h | ⟨t, ht, h | ⟨replacing, h⟩⟩⟩ := e.publish_cases failureReports report
  · rw [publishFailureReport, h]
    exact ⟨hm, ⟨fun hx => .inl (hf.failures hx)⟩, hf.replacements⟩
  · rw [publishFailureReport, h]
    exact ⟨⟨hm.store, hm.options, hm.incarnation, hm.epoch, hm.closed, hm.storeFailed⟩,
      ⟨fun hx => (ht.has hx).imp hf.failures id⟩, hf.replacements⟩
  · rw [publishFailureReport, h]
    exact ⟨⟨hm.store, hm.options, hm.incarnation, hm.epoch, hm.closed, hm.storeFailed⟩,
      ⟨fun hx => (ht.has hx).imp hf.failures id⟩, hf.replacements⟩

/-- A published replacement report is the only thing that its publication adds. -/
theorem publishReplacementReport_adds (e : Engine) (report : ReplacementReport) :
    Unmoved e (e.publishReplacementReport report).1 ∧
      Rebucketed replacementReports report e.replacementEvidence
        (e.publishReplacementReport report).1.replacementEvidence ∧
      ∀ {l p x}, EvidenceTable.Has (e.publishReplacementReport report).1.failureEvidence l p x →
        EvidenceTable.Has e.failureEvidence l p x := by
  obtain ⟨e₁, hf, hm, h | ⟨t, ht, h | ⟨replacing, h⟩⟩⟩ :=
    e.publish_cases replacementReports report
  · rw [publishReplacementReport, h]
    exact ⟨hm, ⟨fun hx => .inl (hf.replacements hx)⟩, hf.failures⟩
  · rw [publishReplacementReport, h]
    exact ⟨⟨hm.store, hm.options, hm.incarnation, hm.epoch, hm.closed, hm.storeFailed⟩,
      ⟨fun hx => (ht.has hx).imp hf.replacements id⟩, hf.failures⟩
  · rw [publishReplacementReport, h]
    exact ⟨⟨hm.store, hm.options, hm.incarnation, hm.epoch, hm.closed, hm.storeFailed⟩,
      ⟨fun hx => (ht.has hx).imp hf.replacements id⟩, hf.failures⟩

end Engine

end LinkFailover
