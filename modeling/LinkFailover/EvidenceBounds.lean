import LinkFailover.Refusals

/-!
# Bounds on the evidence

The counter bounds the entries of the tables, and with them the sequences that are booked. It does
not bound the links: a bucket that a refused report made, or that a retirement emptied, stays. As
long as no publication leaves an empty bucket behind, there are no more links than entries.

* `Fills`: a publication that leaves no empty bucket behind.
* `evidence_bounded`: the bounds in every run of such publications.
* `link_keys_unbounded`: as many links as are ever named, in tables that hold nothing.
-/

namespace LinkFailover

open Codec

/-! ## Publications that fill their buckets -/

namespace Engine

variable {Report : Type}

/-- The engine once the publisher of a stamp has lost what an earlier incarnation of it said. -/
def cleared (e : Engine) (stamp : EvidenceStamp) : Engine :=
  match e.publishers.find? stamp.publisher with
  | none => e
  | some s =>
    if s.incarnation = stamp.publisherIncarnation then e else e.retirePublisher stamp.publisher

/-- The report is well formed, and the registry does not refuse its publisher. -/
def Admissible (e : Engine) (k : ReportKind Report) (report : Report) : Prop :=
  e.admitReport k report = none ∧ ¬ e.RegistryRefuses (k.stamp report)

/-- The report advances its sequence, and no bucket stays empty in its table or among the
sequences: a refusal finds the bucket of its link, and only a report that is retained comes from an
incarnation that empties buckets, none but that of its link. -/
structure FillsOwn (e : Engine) (k : ReportKind Report) (report : Report) : Prop where
  bucket : e.TablesFull k report → (k.table e).contains (k.link report) = true
  table : ∀ l, (k.table e).Hollow l → l = k.link report ∧ ¬ e.TablesFull k report
  sequences : ∀ l, e.lastObservationSeq.Hollow l → l = k.link report ∧ ¬ e.TablesFull k report

/-- An operation leaves no empty bucket behind. -/
def Fills (e : Engine) : Operation → Prop
  | .publishFailure report =>
    e.Admissible failureReports report →
      (e.cleared report.stamp).sequenceReplayed report.subject report.stamp = false →
        (e.cleared report.stamp).FillsOwn failureReports report ∧
          ∀ l, ¬ (e.cleared report.stamp).replacementEvidence.Hollow l
  | .publishReplacement report =>
    e.Admissible replacementReports report →
      (e.cleared report.stamp).sequenceReplayed report.candidate report.stamp = false →
        (e.cleared report.stamp).FillsOwn replacementReports report ∧
          ∀ l, ¬ (e.cleared report.stamp).failureEvidence.Hollow l
  | _ => True

end Engine

/-- No operation of a run leaves an empty bucket behind. -/
def Filling (actions : List Action) : Prop :=
  ∀ before op after, actions = before ++ .perform op :: after →
    ∀ e, System.run before = .up e → e.Fills op

/-- No bucket of the three maps is empty. -/
structure Solid (e : Engine) : Prop where
  failures : ∀ l, ¬ e.failureEvidence.Hollow l
  replacements : ∀ l, ¬ e.replacementEvidence.Hollow l
  sequences : ∀ l, ¬ e.lastObservationSeq.Hollow l

section Steps

variable {Report : Type} {k : Engine.ReportKind Report} {report : Report} {e e₁ e' : Engine}
  {ok : Bool} {stamp : EvidenceStamp}

/-- What an admission and the clearing of a publisher leave alike. -/
structure SameEvidence (e e' : Engine) : Prop where
  failures : e'.failureEvidence = e.failureEvidence
  replacements : e'.replacementEvidence = e.replacementEvidence
  sequences : e'.lastObservationSeq = e.lastObservationSeq
  entries : e'.evidenceEntries = e.evidenceEntries
  options : e'.options = e.options

theorem sameEvidence_admits (hadmits : Engine.Admits e stamp e₁) :
    SameEvidence (e.cleared stamp) e₁ := by
  unfold Engine.cleared
  cases hadmits with
  | registered hnew =>
    rw [hnew]
    exact ⟨rfl, rfl, rfl, rfl, rfl⟩
  | known hknown =>
    obtain ⟨s, hs, hi⟩ := hknown
    rw [hs]
    dsimp only
    rw [if_pos hi]
    exact ⟨rfl, rfl, rfl, rfl, rfl⟩
  | restarted hs hother =>
    rw [hs]
    dsimp only
    rw [if_neg hother]
    exact ⟨rfl, rfl, rfl, rfl, rfl⟩

theorem sameEvidence_advance (e : Engine) (stamp : EvidenceStamp) :
    SameEvidence (e.cleared stamp) (e.advance.cleared stamp) := by
  unfold Engine.cleared
  rw [show e.advance.publishers = e.publishers from rfl]
  cases e.publishers.find? stamp.publisher with
  | none => exact ⟨rfl, rfl, rfl, rfl, rfl⟩
  | some s =>
    dsimp only
    split
    · exact ⟨rfl, rfl, rfl, rfl, rfl⟩
    · exact ⟨rfl, rfl, rfl, rfl, rfl⟩

theorem SameEvidence.trans {e'' : Engine} (h : SameEvidence e e') (h' : SameEvidence e' e'') :
    SameEvidence e e'' :=
  ⟨h'.failures.trans h.failures, h'.replacements.trans h.replacements,
    h'.sequences.trans h.sequences, h'.entries.trans h.entries, h'.options.trans h.options⟩

theorem SameEvidence.sequenceReplayed (h : SameEvidence e e') (link : LinkKey)
    (stamp : EvidenceStamp) : e'.sequenceReplayed link stamp = e.sequenceReplayed link stamp := by
  unfold Engine.sequenceReplayed
  rw [h.sequences]

theorem SameEvidence.solid (h : SameEvidence e e') (hs : Solid e) : Solid e' := by
  constructor
  · rw [h.failures]
    exact hs.failures
  · rw [h.replacements]
    exact hs.replacements
  · rw [h.sequences]
    exact hs.sequences

/-- Only a publisher that is not back from a restart can repeat itself. -/
theorem sameEvidence_of_replayed {link : LinkKey} (hadmits : Engine.Admits e stamp e₁)
    (hreplayed : e₁.sequenceReplayed link stamp = true) : SameEvidence e e₁ := by
  cases hadmits with
  | registered => exact ⟨rfl, rfl, rfl, rfl, rfl⟩
  | known => exact ⟨rfl, rfl, rfl, rfl, rfl⟩
  | restarted =>
    obtain ⟨last, hlast, -⟩ := Engine.sequenceReplayed_iff.mp hreplayed
    have hnone := (SortedMap.get_dropInner e.lastObservationSeq link stamp.publisher
      stamp.publisher).trans (if_pos rfl)
    change (e.lastObservationSeq.dropInner stamp.publisher).get link stamp.publisher = _ at hlast
    rw [hnone] at hlast
    cases hlast

theorem Engine.FillsOwn.same (htable : k.table e' = k.table e) (hsame : SameEvidence e e')
    (h : e.FillsOwn k report) : e'.FillsOwn k report := by
  have hfull : e'.TablesFull k report ↔ e.TablesFull k report := by
    unfold Engine.TablesFull Engine.bucketOf
    rw [htable, hsame.entries, hsame.options]
  constructor
  · rw [hfull, htable]
    exact h.bucket
  · rw [hfull, htable]
    exact h.table
  · rw [hfull, hsame.sequences]
    exact h.sequences

theorem Solid.retainFailure {report : FailureReport}
    (hfills : e.sequenceReplayed report.subject report.stamp = false →
      e.FillsOwn Engine.failureReports report ∧ ∀ l, ¬ e.replacementEvidence.Hollow l)
    (hreplayed : e.sequenceReplayed report.subject report.stamp = true → Solid e)
    (hretains : Engine.Retains e Engine.failureReports report e' ok) : Solid e' := by
  cases hretains with
  | replayed h => exact hreplayed h
  | full hadvances hfull =>
    obtain ⟨hown, hother⟩ := hfills hadvances
    exact ⟨SortedMap.not_hollow_rebucket (hown.bucket hfull) fun l hl => (hown.table l hl).2 hfull,
      hother, fun l hl => (hown.sequences l hl).2 hfull⟩
  | accepted hadvances =>
    obtain ⟨hown, hother⟩ := hfills hadvances
    exact ⟨SortedMap.not_hollow_insert fun l hl => (hown.table l hl).1, hother,
      SortedMap.not_hollow_insert fun l hl => (hown.sequences l hl).1⟩

theorem Solid.retainReplacement {report : ReplacementReport}
    (hfills : e.sequenceReplayed report.candidate report.stamp = false →
      e.FillsOwn Engine.replacementReports report ∧ ∀ l, ¬ e.failureEvidence.Hollow l)
    (hreplayed : e.sequenceReplayed report.candidate report.stamp = true → Solid e)
    (hretains : Engine.Retains e Engine.replacementReports report e' ok) : Solid e' := by
  cases hretains with
  | replayed h => exact hreplayed h
  | full hadvances hfull =>
    obtain ⟨hown, hother⟩ := hfills hadvances
    exact ⟨hother, SortedMap.not_hollow_rebucket (hown.bucket hfull)
      fun l hl => (hown.table l hl).2 hfull, fun l hl => (hown.sequences l hl).2 hfull⟩
  | accepted hadvances =>
    obtain ⟨hown, hother⟩ := hfills hadvances
    exact ⟨hother, SortedMap.not_hollow_insert fun l hl => (hown.table l hl).1,
      SortedMap.not_hollow_insert fun l hl => (hown.sequences l hl).1⟩

theorem Solid.advance (h : Solid e) : Solid e.advance :=
  ⟨h.failures, h.replacements, h.sequences⟩

theorem Solid.publishFailure {report : FailureReport} (h : Solid e)
    (hfills : e.Fills (.publishFailure report))
    (hpublishes : Engine.Publishes e Engine.failureReports report e' ok) : Solid e' := by
  cases hpublishes with
  | malformed => exact h
  | unregistered => exact h.advance
  | admitted hformed hagrees hadmits hretains =>
    have hsame := (sameEvidence_advance e report.stamp).trans (sameEvidence_admits hadmits)
    refine Solid.retainFailure (fun hadvances => ?_)
      (fun hreplayed => (sameEvidence_of_replayed hadmits hreplayed).solid h.advance) hretains
    rw [hsame.sequenceReplayed] at hadvances
    obtain ⟨hown, hother⟩ := hfills ⟨hformed, hagrees⟩ hadvances
    rw [hsame.replacements]
    exact ⟨hown.same hsame.failures hsame, hother⟩

theorem Solid.publishReplacement {report : ReplacementReport} (h : Solid e)
    (hfills : e.Fills (.publishReplacement report))
    (hpublishes : Engine.Publishes e Engine.replacementReports report e' ok) : Solid e' := by
  cases hpublishes with
  | malformed => exact h
  | unregistered => exact h.advance
  | admitted hformed hagrees hadmits hretains =>
    have hsame := (sameEvidence_advance e report.stamp).trans (sameEvidence_admits hadmits)
    refine Solid.retainReplacement (fun hadvances => ?_)
      (fun hreplayed => (sameEvidence_of_replayed hadmits hreplayed).solid h.advance) hretains
    rw [hsame.sequenceReplayed] at hadvances
    obtain ⟨hown, hother⟩ := hfills ⟨hformed, hagrees⟩ hadvances
    rw [hsame.failures]
    exact ⟨hown.same hsame.replacements hsame, hother⟩

theorem Solid.perform {wire : Prop} (hok : EngineOk wire e) (h : Solid e) {op : Operation}
    (hfills : e.Fills op) : Solid (e.perform op).1 := by
  rcases perform_keeps hok op with hk | ⟨report, rfl⟩ | ⟨report, rfl⟩
  · exact SameEvidence.solid ⟨hk.failureEvidence, hk.replacementEvidence, hk.lastObservationSeq,
      hk.evidenceEntries, hk.options⟩ h
  · exact h.publishFailure hfills (e.publish_inversion Engine.failureReports report)
  · exact h.publishReplacement hfills (e.publish_inversion Engine.replacementReports report)

end Steps

/-! ## Runs -/

theorem not_hollow_empty {κ ι α : Type} [DecidableEq κ] (k : κ) :
    ¬ (SortedMap.empty : SortedMap κ (SortedMap ι α)).Hollow k := by
  rintro ⟨b, hb, -⟩
  cases hb

theorem Filling.of_append {actions : List Action} {a : Action} (h : Filling (actions ++ [a])) :
    Filling actions := fun before op after hsplit =>
  h before op (after ++ [a]) (by rw [hsplit, List.append_assoc, List.cons_append])

theorem run_solid {actions : List Action} (hfilling : Filling actions) {e : Engine}
    (h : System.run actions = .up e) : Solid e := by
  induction actions using List.reverseRecOn generalizing e with
  | nil => cases h
  | append_singleton actions a ih =>
    have hok : (System.run actions).Ok False := System.run_ok False.elim
    rw [System.run_append] at h
    cases hs : System.run actions with
    | down m =>
      rw [hs] at h
      cases a with
      | start b =>
        rw [System.step] at h
        split at h
        · cases h
        · rename_i m' e' hopen
          cases h
          obtain ⟨s, epoch, rfl⟩ := Boot.open_blank hopen
          exact ⟨not_hollow_empty, not_hollow_empty, not_hollow_empty⟩
      | perform | kill => cases h
    | up e₀ =>
      rw [hs] at h hok
      cases a with
      | start b =>
        cases h
        exact ih hfilling.of_append hs
      | perform op =>
        cases h
        exact (ih hfilling.of_append hs).perform hok (hfilling actions op [] rfl e₀ hs)
      | kill => cases h

/-- A sequence is booked for what a table retains. -/
theorem Evident.sequences_total {e : Engine} {events : List EvidenceEvent} (h : Evident e events) :
    e.lastObservationSeq.total ≤ e.failureEvidence.total + e.replacementEvidence.total := by
  refine SortedMap.total_le fun l p hbooked => ?_
  rw [h.registered.sequences, Option.isSome_map] at hbooked
  cases hsaid : saidAbout l p events with
  | nil =>
    rw [hsaid] at hbooked
    cases hbooked
  | cons o os =>
    have hf := h.failures l p
    have hr := h.replacements l p
    rw [hsaid, List.findSome?_cons] at hf hr
    cases o with
    | failure r =>
      refine .inl ?_
      rw [← Option.isSome_map, hf]
      rfl
    | replacement r =>
      refine .inr ?_
      rw [← Option.isSome_map, hr]
      rfl

/-- The entries are bounded in every run, and so are the links in a run that leaves no empty bucket
behind. -/
theorem evidence_bounded (actions : List Action) {e : Engine} (h : System.run actions = .up e) :
    (e.failureEvidence.total + e.replacementEvidence.total ≤ e.options.limits.maxEvidenceEntries ∧
        e.lastObservationSeq.total ≤ e.options.limits.maxEvidenceEntries) ∧
      (Filling actions →
        e.failureEvidence.size + e.replacementEvidence.size ≤
            e.options.limits.maxEvidenceEntries ∧
          e.lastObservationSeq.size ≤ e.options.limits.maxEvidenceEntries) := by
  have hevident := (watch_ok h).evident
  have htotal : e.failureEvidence.total + e.replacementEvidence.total ≤
      e.options.limits.maxEvidenceEntries := hevident.counted.entries ▸ hevident.counted.room
  have hsequences := Nat.le_trans hevident.sequences_total htotal
  refine ⟨⟨htotal, hsequences⟩, fun hfilling => ?_⟩
  have hsolid := run_solid hfilling h
  have hf := SortedMap.size_le_total hsolid.failures
  have hr := SortedMap.size_le_total hsolid.replacements
  have hs := SortedMap.size_le_total hsolid.sequences
  exact ⟨Nat.le_trans (Nat.add_le_add hf hr) htotal, Nat.le_trans hs hsequences⟩

/-! ## Links without evidence -/

/-- A report of the sample about another link. -/
def Sample.reportOf (n : LinkName) : FailureReport :=
  { downReport with subject := ⟨name 102, n⟩ }

/-- A process that takes no evidence in, and was told of some links by one publisher. -/
structure Told (links : List LinkName) (e : Engine) : Prop where
  available : e.unavailable = none
  fabric : e.options.fabric = Sample.name 102
  entries : e.options.limits.maxEvidenceEntries = 0
  publishers : e.options.limits.maxTrackedPublishers = 1
  sequences : e.lastObservationSeq = .empty
  known : e.publishers = .empty ∨ e.Knows (Sample.stamp 1)
  buckets : ∀ n, e.failureEvidence.contains ⟨Sample.name 102, n⟩ = true → n ∈ links
  size : e.failureEvidence.size = links.length

theorem Told.admissible {links : List LinkName} {e : Engine} (h : Told links e) {n : LinkName}
    (hn : n.empty = false) :
    e.Admissible Engine.failureReports (Sample.reportOf n) := by
  constructor
  · have hlink : (Engine.failureReports.link (Sample.reportOf n)).link.empty = false := hn
    have hfabric : (Engine.failureReports.link (Sample.reportOf n)).fabric = e.options.fabric :=
      h.fabric.symm
    unfold Engine.admitReport
    rw [h.available]
    dsimp only
    rw [if_neg (not_not.mpr hfabric), hlink]
    rfl
  · unfold Engine.RegistryRefuses
    rcases h.known with hempty | ⟨s, hs, hi⟩
    · rw [hempty, SortedMap.find?_empty]
      dsimp only
      rw [h.publishers]
      decide
    · have hs' : SortedMap.find? e.publishers
          (Engine.failureReports.stamp (Sample.reportOf n)).publisher = some s := hs
      rw [hs']
      exact fun hrefuses => hrefuses.1 hi

theorem Told.admitted {links : List LinkName} {e e₁ : Engine} (h : Told links e)
    (hadmits : Engine.Admits e (Sample.stamp 1) e₁) : Told links e₁ := by
  have hknows := hadmits.knows
  cases hadmits with
  | known => exact h
  | registered =>
    exact ⟨h.available, h.fabric, h.entries, h.publishers, h.sequences, .inr hknows, h.buckets,
      h.size⟩
  | restarted hs hother =>
    rcases h.known with hempty | ⟨s, hs', hi⟩
    · rw [hempty] at hs
      cases hs
    · rw [hs] at hs'
      cases hs'
      exact absurd hi hother

/-- One more link is refused, and remembered. -/
theorem Told.next {links : List LinkName} {e : Engine} (h : Told links e) {n : LinkName}
    (hn : n.empty = false) (hnew : n ∉ links) :
    Told (links ++ [n]) (e.publishFailureReport (Sample.reportOf n)).1 := by
  have hadmissible := h.admissible hn
  have hpublishes := e.publish_inversion Engine.failureReports (Sample.reportOf n)
  unfold Engine.publishFailureReport
  revert hpublishes
  generalize (e.publish Engine.failureReports (Sample.reportOf n)).1 = e'
  generalize (e.publish Engine.failureReports (Sample.reportOf n)).2.isOk = ok
  intro hpublishes
  cases hpublishes with
  | malformed hm =>
    rw [hadmissible.1] at hm
    cases hm
  | unregistered _ hrefuses => exact absurd hrefuses hadmissible.2
  | @admitted e₁ _ _ _ _ hadmits hretains =>
    have hadvanced : Told links e.advance :=
      ⟨h.available, h.fabric, h.entries, h.publishers, h.sequences, h.known, h.buckets, h.size⟩
    have hknows : e₁.Knows (Sample.stamp 1) := hadmits.knows
    have h₁ := hadvanced.admitted hadmits
    have hbucket : e₁.failureEvidence.contains ⟨Sample.name 102, n⟩ = false :=
      Bool.eq_false_iff.mpr fun hc => hnew (h₁.buckets n hc)
    have hnone : e₁.failureEvidence.find? ⟨Sample.name 102, n⟩ = none :=
      Option.isNone_iff_eq_none.mp (Option.isSome_eq_false_iff.mp hbucket)
    have hempty : e₁.bucketOf Engine.failureReports (Sample.reportOf n) = .empty := by
      change (SortedMap.find? e₁.failureEvidence ⟨Sample.name 102, n⟩).getD _ = _
      rw [hnone]
      rfl
    cases hretains with
    | replayed hreplayed =>
      obtain ⟨last, hlast, -⟩ := Engine.sequenceReplayed_iff.mp hreplayed
      rw [h₁.sequences] at hlast
      cases hlast
    | accepted _ hroom =>
      refine absurd ⟨?_, ?_⟩ hroom
      · rw [hempty]
        rfl
      · rw [h₁.entries]
        exact Nat.zero_le _
    | full =>
      refine ⟨h₁.available, h₁.fabric, h₁.entries, h₁.publishers, h₁.sequences, .inr ?_,
        fun n' hn' => ?_, ?_⟩
      · exact bucketed_knows Engine.failureReports_ownTable hknows
      · change (e₁.failureEvidence.insert LinkKey.less ⟨Sample.name 102, n⟩ _).contains _ = true
          at hn'
        rw [SortedMap.contains, SortedMap.find?_insert] at hn'
        split at hn'
        · rename_i heq
          rw [(LinkKey.mk.inj heq).2]
          exact List.mem_append_right _ (List.mem_singleton_self _)
        · exact List.mem_append_left _ (h₁.buckets n' hn')
      · have hsize := @SortedMap.size_insert _ _ _ LinkKey.less e₁.failureEvidence
          ⟨Sample.name 102, n⟩ (e₁.bucketOf Engine.failureReports (Sample.reportOf n))
        rw [hbucket, h₁.size] at hsize
        rw [List.length_append]
        exact hsize

/-- A process that takes no evidence in. -/
def Sample.closedTables : List Action :=
  [.start
    { options := options {} { maxEvidenceEntries := 0, maxTrackedPublishers := 1 }
      incarnation := incarnation 1 }]

theorem run_start_blank {b : Boot} {e : Engine} (h : System.run [.start b] = .up e) :
    ∃ s epoch, e = { options := e.options, store := s, incarnation := e.incarnation, epoch } := by
  rw [System.run, List.foldl_cons, List.foldl_nil, System.step] at h
  split at h
  · cases h
  · rename_i m' e' hopen
    cases h
    obtain ⟨s, epoch, rfl⟩ := Boot.open_blank hopen
    exact ⟨s, epoch, rfl⟩

theorem told {links : List LinkName} (hnodup : links.Nodup)
    (hlinks : ∀ n ∈ links, n.empty = false) : ∃ e, Reachable e ∧ Told links e := by
  induction links using List.reverseRecOn with
  | nil =>
    obtain ⟨e, he, hp⟩ := @System.of_serves (System.run Sample.closedTables)
      (fun e => e.unavailable.isNone && decide (e.options.fabric = Sample.name 102) &&
        e.options.limits.maxEvidenceEntries == 0 && e.options.limits.maxTrackedPublishers == 1)
      (by decide +kernel)
    simp only [Bool.and_eq_true, beq_iff_eq, decide_eq_true_eq, Option.isNone_iff_eq_none] at hp
    obtain ⟨⟨⟨havailable, hfabric⟩, hentries⟩, hpublishers⟩ := hp
    obtain ⟨s, epoch, hblank⟩ := run_start_blank he
    refine ⟨e, ⟨_, he⟩, havailable, hfabric, hentries, hpublishers, ?_, .inl ?_, fun n hn => ?_, ?_⟩
    · rw [hblank]
    · rw [hblank]
    · rw [hblank] at hn
      cases hn
    · rw [hblank]
      rfl
  | append_singleton links n ih =>
    rw [List.nodup_append] at hnodup
    obtain ⟨e, he, htold⟩ := ih hnodup.1 fun x hx => hlinks x (List.mem_append_left _ hx)
    refine ⟨_, he.perform (.publishFailure (Sample.reportOf n)), htold.next ?_ fun hn => ?_⟩
    · exact hlinks n (List.mem_append_right _ (List.mem_singleton_self _))
    · exact hnodup.2.2 n hn n (List.mem_singleton_self _) rfl

/-- No number below that of the names that the grammar has bounds the links, whatever the limits
are. -/
theorem link_keys_unbounded : ¬ ∃ bound : Nat → Nat → Nat,
    (∃ links : List LinkName, links.Nodup ∧ (∀ n ∈ links, n.empty = false) ∧
      bound 0 1 < links.length) ∧
    ∀ e, Reachable e → e.failureEvidence.size ≤
      bound e.options.limits.maxEvidenceEntries e.options.limits.maxTrackedPublishers := by
  rintro ⟨bound, ⟨links, hnodup, hlinks, hlength⟩, hbound⟩
  obtain ⟨e, he, htold⟩ := told hnodup hlinks
  have hle := hbound e he
  rw [htold.entries, htold.publishers, htold.size] at hle
  omega

/-! ## A run that fills its buckets -/

/-- The publication comes from a publisher that is new or known, and there is room in the tables. -/
def Engine.roomy (e : Engine) (op : Operation) : Bool :=
  let stamp :=
    match op with
    | .publishFailure report => some report.stamp
    | .publishReplacement report => some report.stamp
    | _ => none
  (stamp.all fun stamp => (e.publishers.find? stamp.publisher).all fun s =>
    decide (s.incarnation = stamp.publisherIncarnation)) &&
  decide (e.evidenceEntries < e.options.limits.maxEvidenceEntries)

theorem Engine.cleared_of_known {e : Engine} {stamp : EvidenceStamp}
    (h : (e.publishers.find? stamp.publisher).all
      (fun s => decide (s.incarnation = stamp.publisherIncarnation)) = true) :
    e.cleared stamp = e := by
  unfold cleared
  cases hs : e.publishers.find? stamp.publisher with
  | none => rfl
  | some s =>
    rw [hs] at h
    exact if_pos (of_decide_eq_true h)

/-- With room in the tables, a publisher that is not back from a restart leaves no empty bucket. -/
theorem Solid.fills {e : Engine} (h : Solid e) {op : Operation} (hroomy : e.roomy op = true) :
    e.Fills op := by
  obtain ⟨hknown, hroom⟩ := Bool.and_eq_true_iff.mp hroomy
  have hfull : ∀ {Report : Type} (k : Engine.ReportKind Report) (report : Report),
      ¬ e.TablesFull k report :=
    fun k report hf => absurd hf.2 (Nat.not_le.mpr (of_decide_eq_true hroom))
  cases op with
  | publishFailure report =>
    intro _ _
    rw [Engine.cleared_of_known hknown]
    exact ⟨⟨fun hf => absurd hf (hfull _ _), fun l hl => absurd hl (h.failures l),
      fun l hl => absurd hl (h.sequences l)⟩, h.replacements⟩
  | publishReplacement report =>
    intro _ _
    rw [Engine.cleared_of_known hknown]
    exact ⟨⟨fun hf => absurd hf (hfull _ _), fun l hl => absurd hl (h.replacements l),
      fun l hl => absurd hl (h.sequences l)⟩, h.failures⟩
  | _ => trivial

theorem Filling.append {actions : List Action} (h : Filling actions) {op : Operation}
    (hop : ∀ e, System.run actions = .up e → e.Fills op) :
    Filling (actions ++ [.perform op]) := by
  intro before op' after hsplit e he
  rcases List.eq_nil_or_concat' after with rfl | ⟨after', a, rfl⟩
  · obtain ⟨rfl, hlast⟩ := List.append_inj' hsplit rfl
    cases hlast
    exact hop e he
  · rw [← List.cons_append, ← List.append_assoc] at hsplit
    obtain ⟨rfl, -⟩ := List.append_inj' hsplit rfl
    exact h before op' after' rfl e he

theorem filling_start (b : Boot) : Filling [.start b] := by
  intro before op after hsplit e he
  cases before with
  | nil => cases hsplit
  | cons a before =>
    have htail := (List.cons.inj hsplit).2
    exact absurd htail.symm (List.append_ne_nil_of_right_ne_nil _ (List.cons_ne_nil _ _))

theorem Filling.append_roomy {actions : List Action} (h : Filling actions) {op : Operation}
    (hroomy : (System.run actions).serves (·.roomy op) = true) :
    Filling (actions ++ [.perform op]) := by
  refine h.append fun e he => ?_
  rw [he] at hroomy
  exact (run_solid h he).fills hroomy

theorem evidence_bounded_sample : ∃ e, System.run (Sample.booted {} {}) = .up e ∧
    Filling (Sample.booted {} {}) ∧
    e.failureEvidence.size + e.replacementEvidence.size ≤ e.options.limits.maxEvidenceEntries ∧
    e.lastObservationSeq.size ≤ e.options.limits.maxEvidenceEntries := by
  have hfilling : Filling (Sample.booted {} {}) :=
    ((filling_start { options := Sample.options {} {}, incarnation := Sample.incarnation 1
      }).append_roomy (by decide +kernel)).append_roomy (by decide +kernel)
  obtain ⟨e, he, -⟩ := @System.of_serves (System.run (Sample.booted {} {})) (fun _ => true)
    (by decide +kernel)
  exact ⟨e, he, hfilling, (evidence_bounded _ he).2 hfilling⟩

end LinkFailover
