import LinkFailover.Acceptance
import LinkFailover.Accounting
import LinkFailover.Checkpoints
import LinkFailover.Effects

/-!
# Rounds of a worker

Nothing in the coordinator waits for a worker, and a worker gives up at the first call that brings
no decision. When neither is disturbed, one round of the worker carries out every directive that
it claimed.

* `Engine.Calm`: nothing is in the way of so many records.
* `Engine.Passes`: which attempts a process leaves alone.
* `round_completes`: what a round makes of the attempts that it claimed.
-/

namespace LinkFailover

open Codec

/-! ## Calm processes -/

namespace Engine

/-- Nothing is in the way of `n` records: no write fails, the attempts are within the limit of
their table, and no checkpoint falls due. -/
structure Calm (e : Engine) (n : Nat) : Prop where
  available : e.unavailable = none
  roomy : e.store.Roomy n
  keyed : e.store.Keyed
  table : e.state.attempts.length ≤ e.store.options.maxAttempts
  undue : e.options.enableSnapshot = false ∨ e.options.snapshotEveryRecords = 0 ∨
    e.store.recordsSinceSnapshot.toNat + n < e.options.snapshotEveryRecords.toNat

/-- The last record of an attempt. -/
def lastRecord (e : Engine) (i : Identity) : Option AttemptRecord :=
  lastWrite (lineage e.store.medium.history) i

/-- A process goes on, and leaves all attempts alone but those of some keys. -/
structure Passes (K : LinkKey × AttemptSeq → Prop) (e e' : Engine) : Prop where
  options : e'.options = e.options
  incarnation : e'.incarnation = e.incarnation
  epoch : e'.epoch = e.epoch
  policy : e'.state.policy = e.state.policy
  retained : ∀ q ∈ e.state.attempts, ¬ K q.key → q ∈ e'.state.attempts
  recorded : ∀ i, ¬ K (i.1, i.2.2) → e'.lastRecord i = e.lastRecord i

section Records

variable {e e' e'' : Engine} {K K' : LinkKey × AttemptSeq → Prop} {n : Nat}

theorem Passes.refl (e : Engine) (K : LinkKey × AttemptSeq → Prop) : Passes K e e :=
  ⟨rfl, rfl, rfl, rfl, fun _ hq _ => hq, fun _ _ => rfl⟩

theorem Passes.trans (h : Passes K e e') (h' : Passes K e' e'') : Passes K e e'' :=
  ⟨h'.options.trans h.options, h'.incarnation.trans h.incarnation, h'.epoch.trans h.epoch,
    h'.policy.trans h.policy, fun q hq hk => h'.retained q (h.retained q hq hk) hk,
    fun i hk => (h'.recorded i hk).trans (h.recorded i hk)⟩

theorem Passes.mono (h : Passes K e e') (hk : ∀ x, K x → K' x) : Passes K' e e' :=
  ⟨h.options, h.incarnation, h.epoch, h.policy,
    fun q hq hn => h.retained q hq fun hx => hn (hk _ hx),
    fun i hn => h.recorded i fun hx => hn (hk _ hx)⟩

theorem Calm.mono {m : Nat} (h : e.Calm n) (hm : m ≤ n) : e.Calm m where
  available := h.available
  roomy := h.roomy.mono hm
  keyed := h.keyed
  table := h.table
  undue := h.undue.imp id (.imp id fun hu => by omega)

theorem Calm.advance (h : e.Calm n) : e.advance.Calm n :=
  ⟨h.available, h.roomy, h.keyed, h.table, h.undue⟩

theorem advance_passes : Passes K e e.advance :=
  ⟨rfl, rfl, rfl, rfl, fun _ hq _ => hq, fun _ _ => rfl⟩

/-- A record that fits is written, whatever it does to the table within the limit. -/
theorem Calm.commit (h : e.Calm (n + 1)) {p : Payload} (hp : ∀ seq, (p.record seq).Fits)
    {apply : LineageSeq → DurableState → DurableState}
    (hkeyed : ∀ seq, ((LineageStore.applied apply seq e.state).attempts.map
      AttemptRecord.key).Nodup)
    (htable : ∀ seq, (LineageStore.applied apply seq e.state).attempts.length ≤
      e.store.options.maxAttempts) :
    (e.store.commit p apply).2.isOk = true ∧ (e.withWrite (e.store.commit p apply)).Calm n ∧
      ∃ seq, (e.store.commit p apply).1.state = LineageStore.applied apply seq e.state ∧
        lineage (e.store.commit p apply).1.medium.history =
          lineage e.store.medium.history ++ [(seq, p)] := by
  obtain ⟨hok, hroomy, seq', -, hstate', hopt⟩ := h.roomy.commit hp apply
  obtain ⟨-, hf, seq, -, -, hstate, -, hh⟩ := commit_ok hok
  have hsince := commit_since.1 hok
  refine ⟨hok, ⟨?_, hroomy, ?_, ?_, ?_⟩, seq, hstate, by rw [hh, lineage_append, lineage_committed]⟩
  · rw [Pile.withWrite_ok hok]
    exact h.available
  · change ((e.store.commit p apply).1.state.attempts.map AttemptRecord.key).Nodup
    rw [hstate]
    exact hkeyed seq
  · change (e.store.commit p apply).1.state.attempts.length ≤
      (e.store.commit p apply).1.options.maxAttempts
    rw [hstate, hopt]
    exact htable seq
  · refine h.undue.imp id (.imp id fun hu => ?_)
    change (e.store.commit p apply).1.recordsSinceSnapshot.toNat + n <
      e.options.snapshotEveryRecords.toNat
    have hmax := e.options.snapshotEveryRecords.toNat_lt
    have hone : (e.store.recordsSinceSnapshot + 1).toNat =
        e.store.recordsSinceSnapshot.toNat + 1 := by
      rw [UInt64.toNat_add]
      exact Nat.mod_eq_of_lt (show e.store.recordsSinceSnapshot.toNat + 1 < 2 ^ 64 by omega)
    rw [hsince, hone]
    omega

/-- An attempt is written over the record that the table has of it. -/
theorem Calm.update (h : e.Calm (n + 1)) (w : AttemptWrite) {q r : AttemptRecord}
    (hq : q ∈ e.state.attempts) (hk : q.key = r.key) :
    (e.updateAttempt w r).2.isOk = true ∧ (e.withWrite (e.updateAttempt w r)).Calm n ∧
      Passes (· = r.key) e (e.withWrite (e.updateAttempt w r)) ∧
      (∃ r' ∈ (e.withWrite (e.updateAttempt w r)).state.attempts, r'.unstamped = r.unstamped) ∧
      (e.withWrite (e.updateAttempt w r)).lastRecord r.identity = some r := by
  have hlength : ∀ seq, (upsertAttempt (updatedAt r seq) e.state.attempts).length =
      e.state.attempts.length := fun seq => BoundedTable.length_upsert_of_mem hq hk
  have hwritten : ∀ seq, (LineageStore.applied
      (fun seq d => d.noteAttempt e.store.options (updatedAt r seq)) seq e.state).attempts =
        upsertAttempt (updatedAt r seq) e.state.attempts := fun seq =>
    BoundedTable.evict_of_le (by rw [hlength]; exact h.table)
  obtain ⟨hok, hcalm, seq, hstate, hl⟩ := @Calm.commit e n h (.attempt w r)
    (AttemptRecord.fits w r) (fun seq d => d.noteAttempt e.store.options (updatedAt r seq))
    (fun seq => by rw [hwritten]; exact BoundedTable.upsert_nodup h.keyed)
    (fun seq => by rw [hwritten, hlength]; exact h.table)
  have htable : (e.updateAttempt w r).1.state.attempts =
      upsertAttempt (updatedAt r seq) e.state.attempts := by
    rw [← hwritten]
    exact congrArg DurableState.attempts hstate
  refine ⟨hok, hcalm, ⟨rfl, rfl, rfl, ?_, fun x hx hne => ?_, fun i hne => ?_⟩,
    ⟨updatedAt r seq, ?_, rfl⟩, ?_⟩
  · have hpolicy := congrArg DurableState.policy hstate
    exact hpolicy
  · change x ∈ (e.updateAttempt w r).1.state.attempts
    rw [htable]
    exact BoundedTable.mem_upsert_of_ne hx hne
  · change lastWrite (lineage (e.updateAttempt w r).1.medium.history) i = _
    rw [show lineage (e.updateAttempt w r).1.medium.history = _ from hl,
      lastWrite_other _ _ _ fun hi => hne (by rw [← hi]; rfl)]
    rfl
  · change updatedAt r seq ∈ (e.updateAttempt w r).1.state.attempts
    rw [htable]
    exact BoundedTable.mem_upsert_self
  · change lastWrite (lineage (e.updateAttempt w r).1.medium.history) r.identity = _
    rw [show lineage (e.updateAttempt w r).1.medium.history = _ from hl, lastWrite_attempt]

/-- Neither calm nor attempts depend on what is remembered of decisions. -/
theorem Calm.remember (h : e.Calm n) (d : FailoverDecision) : (e.rememberDecision d).Calm n :=
  ⟨h.available, h.roomy, h.keyed, h.table, h.undue⟩

theorem remember_passes (d : FailoverDecision) : Passes K e (e.rememberDecision d) :=
  ⟨rfl, rfl, rfl, rfl, fun _ hq _ => hq, fun _ _ => rfl⟩

/-- No checkpoint is taken. -/
theorem Calm.maybeCheckpoint (h : e.Calm n) : e.maybeCheckpoint = e := by
  unfold Engine.maybeCheckpoint
  rcases h.undue with hu | hu | hu
  · rw [hu]
    rfl
  · rw [hu]
    exact if_pos (by simp)
  · split
    · rfl
    split
    · rfl
    · exact if_pos (UInt64.lt_iff_toNat_lt.mpr (by omega))

/-- A decision is written, answered and remembered. -/
theorem Calm.answer (h : e.Calm (n + 1)) {d : FailoverDecision}
    (hr : d.reasons.length ≤ kMaxDecisionReasons)
    (hc : d.candidates.length ≤ kMaxDecisionCandidates) :
    ∃ e' d', e.answerAndCheckpoint d = (e', .ok d') ∧ d'.reasons = d.reasons ∧ e'.Calm n ∧
      Passes (fun _ => False) e e' := by
  obtain ⟨hok, hcalm, seq, hstate, hl⟩ := @Calm.commit e n h (.decision d)
    (FailoverDecision.fits hr hc) (fun _ s => s) (fun _ => h.keyed) fun _ => h.table
  have hcommit : (e.commitDecision d).1 = e.withWrite (e.store.commit (.decision d) fun _ s => s) ∧
      (e.commitDecision d).2.reasons = d.reasons := by
    rw [commitDecision, if_neg (by rw [hok]; exact Bool.false_ne_true)]
    exact ⟨rfl, rfl⟩
  have hanswer : e.answerAndCheckpoint d =
      ((e.withWrite (e.store.commit (.decision d) fun _ s => s)).rememberDecision
        (e.commitDecision d).2, .ok (e.commitDecision d).2) := by
    rw [answerAndCheckpoint, hcommit.1, hcalm.maybeCheckpoint]
  have hpasses : Passes (fun _ => False) e
      (e.withWrite (e.store.commit (.decision d) fun _ s => s)) := by
    refine ⟨rfl, rfl, rfl, ?_, fun x hx _ => ?_, fun i _ => ?_⟩
    · have hpolicy := congrArg DurableState.policy hstate
      exact hpolicy
    · have htable := congrArg DurableState.attempts hstate
      exact htable ▸ hx
    · change lastWrite (lineage (e.store.commit (.decision d) fun _ s => s).1.medium.history) i = _
      rw [hl, lastWrite_append]
      rfl
  exact ⟨_, _, hanswer, hcommit.2, hcalm.remember _, hpasses.trans (remember_passes _)⟩

/-- A decision is answered and remembered, and not written. -/
theorem Calm.settleUndurable (h : e.Calm n) (d : FailoverDecision) :
    ∃ e' d', e.settleUndurable d = (e', .ok d') ∧ d'.reasons = d.reasons ∧ e'.Calm n ∧
      Passes (fun _ => False) e e' :=
  ⟨_, _, rfl, rfl, h.remember _, remember_passes _⟩

/-! ## Reports that are taken -/

/-- The attempt of a directive is in this phase, in the table and in the lineage. -/
structure Has (e : Engine) (d : ApplyDirective) (phase : AttemptPhase) : Prop where
  retained : ∃ q ∈ e.state.attempts, q.identity = d.identity ∧ q.attemptId = d.attemptId ∧
    q.phase = phase
  recorded : ∃ r, e.lastRecord d.identity = some r ∧ r.phase = phase

variable {d : ApplyDirective} {phase : AttemptPhase}

theorem Has.pass (h : e.Has d phase) (hp : Passes K e e') (hk : ¬ K (d.key)) : e'.Has d phase := by
  obtain ⟨q, hq, hid, hrest⟩ := h.retained
  obtain ⟨r, hr, hphase⟩ := h.recorded
  refine ⟨⟨q, hp.retained q hq ?_, hid, hrest⟩, r, (hp.recorded _ hk).trans hr, hphase⟩
  rwa [show q.key = d.key from congrArg (fun i : Identity => (i.1, i.2.2)) hid]

/-- The record of an attempt is written, with all else that a record says of it. -/
theorem Calm.write (h : e.Calm (n + 1)) {q r : AttemptRecord} (hq : q ∈ e.state.attempts)
    (hid : q.identity = d.identity) (haid : q.attemptId = d.attemptId)
    (hr : r.identity = q.identity) (hraid : r.attemptId = q.attemptId) (w : AttemptWrite)
    (detail : String) (k : Engine → Engine × Result FailoverDecision) :
    ∃ e', e.afterWrite (e.updateAttempt w r) detail k = k e' ∧ e'.Calm n ∧
      Passes (· = d.key) e e' ∧ e'.Has d r.phase ∧
      ∃ r' ∈ e'.state.attempts, r'.unstamped = r.unstamped := by
  have hkey : r.key = d.key := congrArg (fun i : Identity => (i.1, i.2.2)) (hr.trans hid)
  obtain ⟨hok, hcalm, hpasses, ⟨r', hr', hu⟩, hlast⟩ := h.update w hq
    (congrArg (fun i : Identity => (i.1, i.2.2)) hr.symm)
  refine ⟨_, afterWrite_true hok, hcalm, hkey ▸ hpasses, ⟨⟨r', hr', ?_, ?_, ?_⟩, r, ?_, rfl⟩,
    r', hr', hu⟩
  · exact (identity_of_unstamped hu).trans (hr.trans hid)
  · have hsame := congrArg AttemptRecord.attemptId hu
    exact Eq.trans hsame (hraid.trans haid)
  · exact phase_of_unstamped hu
  · rw [← hid, ← hr]
    exact hlast

/-- One record and one decision: the attempt is in its next phase. -/
theorem Calm.move (h : e.Calm (n + 2)) {q r : AttemptRecord} (hq : q ∈ e.state.attempts)
    (hid : q.identity = d.identity) (haid : q.attemptId = d.attemptId)
    (hr : r.identity = q.identity) (hraid : r.attemptId = q.attemptId) (w : AttemptWrite)
    (decision : FailoverDecision) (hreasons : decision.reasons.length ≤ kMaxDecisionReasons)
    (hcandidates : decision.candidates.length ≤ kMaxDecisionCandidates) (detail : String) :
    ∃ e' d', e.afterWrite (e.updateAttempt w r) detail (fun e => e.answerAndCheckpoint decision) =
        (e', .ok d') ∧ d'.reasons = decision.reasons ∧ e'.Calm n ∧ Passes (· = d.key) e e' ∧
      e'.Has d r.phase := by
  obtain ⟨e₁, hwrite, hcalm₁, hpasses₁, hhas₁, -⟩ := h.write hq hid haid hr hraid w detail
    fun e => e.answerAndCheckpoint decision
  obtain ⟨e₂, d', hanswer, hd', hcalm₂, hpasses₂⟩ := hcalm₁.answer hreasons hcandidates
  exact ⟨e₂, d', hwrite.trans hanswer, hd', hcalm₂,
    hpasses₁.trans (hpasses₂.mono fun _ hx => hx.elim), hhas₁.pass hpasses₂ id⟩

/-- The attempt of a directive, as a report finds it. -/
theorem Calm.finds (h : e.Calm n) (hd : e.Has d phase) : ∃ q ∈ e.state.attempts,
    e.state.findAttempt d.subject d.attemptSeq = some q ∧ q.identity = d.identity ∧
      q.attemptId = d.attemptId ∧ q.phase = phase := by
  obtain ⟨q, hq, hid, hrest⟩ := hd.retained
  refine ⟨q, hq, ?_, hid, hrest⟩
  rw [← show q.subject = d.subject from congrArg Prod.fst hid,
    ← show q.attemptSeq = d.attemptSeq from congrArg (fun i : Identity => i.2.2) hid]
  exact findAttempt_of_mem h.keyed hq

/-- What an application report makes of an authorized attempt. -/
def appliedPhase (e : Engine) (accepted : Bool) : AttemptPhase :=
  if !accepted then .aborted
  else if e.state.policy.requireVerifiedEffect then .acknowledged else .committed

/-- The record and the decision of an application report. -/
theorem applyAttempt_parts (e : Engine) (q : AttemptRecord) (report : ApplicationReport) :
    (e.applyAttempt q report).1.attemptId = q.attemptId ∧
      (e.applyAttempt q report).1.phase = e.appliedPhase report.accepted ∧
      (e.applyAttempt q report).2.reasons.length = 1 ∧
      (e.applyAttempt q report).2.candidates = [] := by
  unfold applyAttempt appliedPhase
  cases report.accepted with
  | false => exact ⟨rfl, rfl, rfl, rfl⟩
  | true => exact ⟨rfl, rfl, rfl, rfl⟩

theorem Calm.application (h : e.Calm (n + 2)) (hd : e.Has d .authorized) {w : Worker}
    (hz : w.incarnation.isZero = false) (accepted : Bool) :
    ∃ e' answer, e.recordApplication (w.application d accepted) = (e', .ok answer) ∧
      answer.reasons.length ≤ kMaxDecisionReasons ∧ e'.Calm n ∧ Passes (· = d.key) e e' ∧
      e'.Has d (e.appliedPhase accepted) := by
  obtain ⟨q, hq, hfind, hid, haid, hp⟩ := h.finds hd
  obtain ⟨hrid, hrphase, hreasons, hcandidates⟩ :=
    e.advance.applyAttempt_parts q (w.application d accepted)
  obtain ⟨e', answer, hmove, hanswer, hcalm, hpasses, hhas⟩ :=
    @Calm.move e.advance n d h.advance q (e.advance.applyAttempt q (w.application d accepted)).1 hq
      hid haid (applyAttempt_identity q _) hrid
      (completionOrUpdate (e.advance.applyAttempt q (w.application d accepted)).1.phase)
      (e.advance.applyAttempt q (w.application d accepted)).2 (by rw [hreasons]; decide)
      (by rw [hcandidates]; decide) "the application report could not be recorded"
  refine ⟨e', answer, ?_, ?_, hcalm, advance_passes.trans hpasses, hrphase ▸ hhas⟩
  · have hsought : e.advance.state.findAttempt (w.application d accepted).subject
        (w.application d accepted).attemptSeq = some q := hfind
    rw [recordApplication, h.available]
    dsimp only
    rw [hsought]
    dsimp only
    have hgeneration : ¬ q.subjectGeneration ≠ (w.application d accepted).subjectGeneration :=
      not_not.mpr (congrArg (fun i : Identity => i.2.1) hid)
    have hsame : ¬ q.attemptId ≠ (w.application d accepted).attemptId := not_not.mpr haid
    have happlier : ¬ (w.application d accepted).applierIncarnation.isZero = true :=
      Bool.eq_false_iff.mp hz
    rw [recordFound, if_neg hgeneration, if_neg hsame, if_neg happlier, hp]
    exact hmove
  · rw [hanswer, hreasons]
    decide

/-- What a verification makes of an attempt, when the effect was seen. -/
theorem Calm.verification (h : e.Calm (n + 3))
    (hd : e.Has d .acknowledged ∨ e.Has d .committed) (w : Worker) :
    ∃ e' answer, e.recordVerification (w.verification d true) = (e', .ok answer) ∧
      answer.reasons.length ≤ kMaxDecisionReasons ∧ e'.Calm n ∧ Passes (· = d.key) e e' ∧
      e'.Has d .committed := by
  have hfound : ∀ {q}, e.state.findAttempt d.subject d.attemptSeq = some q →
      e.recordVerification (w.verification d true) =
        e.advance.verifyFound q (w.verification d true) := fun hfind => by
    have hsought : e.advance.state.findAttempt (w.verification d true).subject
        (w.verification d true).attemptSeq = some _ := hfind
    rw [recordVerification, h.available]
    dsimp only
    rw [hsought]
  rcases hd with hd | hd
  · obtain ⟨q, hq, hfind, hid, haid, hp⟩ := h.finds hd
    have hsame : ¬ q.attemptId ≠ (w.verification d true).attemptId := not_not.mpr haid
    rw [hfound hfind, verifyFound, if_neg hsame, if_neg (by simp [hp]), if_neg (by simp [hp]),
      if_neg (by simp [Worker.verification]), recordEffect]
    obtain ⟨e₁, hwrite, hcalm₁, hpasses₁, -, r, hr, hu⟩ := h.advance.write (r := movedTo q .verified
      .effectVerified (w.verification d true).detail) hq hid haid rfl rfl .update
      "the verification report could not be recorded" _
    rw [hwrite]
    have hidentity := identity_of_unstamped hu
    have hrid : r.identity = q.identity := hidentity
    have hids := congrArg AttemptRecord.attemptId hu
    have hraid : r.attemptId = q.attemptId := hids
    obtain ⟨e₂, answer, hmove, hanswer, hcalm₂, hpasses₂, hhas⟩ := hcalm₁.move (d := d)
      (r := { movedTo q .verified .effectVerified (w.verification d true).detail with
        phase := .committed }) hr (hrid.trans hid) (hraid.trans haid) hrid.symm hraid.symm
      .completion
      ({ e.advance.attemptDecision q .verify .verifiedEffect with outcome := .ok }.because
        .effectVerified "the replacement effect was independently observed")
      (Nat.le_of_ble_eq_true rfl) (Nat.zero_le _) "the completion record could not be written"
    refine ⟨e₂, answer, hmove, ?_, hcalm₂, advance_passes.trans (hpasses₁.trans hpasses₂), hhas⟩
    rw [hanswer]
    exact Nat.le_of_ble_eq_true rfl
  · obtain ⟨q, hq, hfind, hid, haid, hp⟩ := h.finds hd
    have hsame : ¬ q.attemptId ≠ (w.verification d true).attemptId := not_not.mpr haid
    rw [hfound hfind, verifyFound, if_neg hsame, if_pos (.inl hp)]
    obtain ⟨e', answer, hsettle, hanswer, hcalm, hpasses⟩ := h.advance.settleUndurable
      ({ e.advance.attemptDecision q .verify .verifiedEffect with outcome := .conflict }.because
        .duplicateCompletion "the effect was already verified")
    have hpasses : Passes (fun _ => False) e e' := advance_passes.trans hpasses
    refine ⟨e', answer, hsettle, ?_, hcalm.mono (by omega), hpasses.mono fun _ hx => hx.elim,
      hd.pass hpasses id⟩
    rw [hanswer]
    exact Nat.le_of_ble_eq_true rfl

end Records

end Engine

/-! ## Directives that are carried out -/

/-- Where a worker that is not disturbed leaves an attempt. -/
def WorkerOptions.outcome (o : WorkerOptions) (requireVerified : Bool) : AttemptPhase :=
  if o.reject then .aborted
  else if requireVerified && !o.verify then .acknowledged else .committed

namespace Fleet

/-- The worker goes on for so many steps, and nothing goes wrong. -/
def works (f : Fleet) (k : Nat) : Fleet := (List.replicate k (FleetAction.work {})).foldl step f

/-- A worker is connected to the process that is up. -/
structure Serves (f : Fleet) (w : Worker) (e : Engine) : Prop where
  up : f.system = .up e
  worker : f.worker = some w
  epoch : e.epoch = w.epoch
  incarnation : e.incarnation = w.coordinator

section Steps

variable {f : Fleet} {w : Worker} {e e' : Engine} {n : Nat}

theorem works_add (f : Fleet) (j k : Nat) : f.works (j + k) = (f.works j).works k := by
  rw [works, List.replicate_add, List.foldl_append]
  rfl

theorem Serves.works_one (h : f.Serves w e) : f.works 1 = f.work w {} := by
  change f.step (.work {}) = _
  rw [step, h.worker]

theorem Serves.coordinator (h : f.Serves w e) : f.coordinator w = some e := by
  rw [Fleet.coordinator, h.up]
  exact if_pos ⟨h.epoch, h.incarnation⟩

/-- A report that brings a decision. -/
theorem Serves.report (h : f.Serves w e) {r : WorkerReport} {next : Stage}
    {answer : FailoverDecision} (hp : (e.perform r.operation).1 = e')
    (ht : e.tells r.call = .decision (tellDecision (.ok answer)))
    (hl : answer.reasons.length ≤ kMaxDecisionReasons) :
    f.report w r {} next =
      { f with system := .up e', worker := some { w with stage := next } } := by
  have hdecided : (e.tells r.call).decided = true := by
    rw [ht, tellDecision, if_pos hl]
    rfl
  rw [Fleet.report, h.coordinator]
  dsimp only
  rw [hp, if_pos hdecided]
  rfl

/-- A worker that goes on behind a report. -/
theorem Serves.next (h : f.Serves w e) {K : LinkKey × AttemptSeq → Prop}
    (hp : Engine.Passes K e e') (stage : Stage) :
    ({ f with system := .up e', worker := some { w with stage := stage } } : Fleet).Serves
      { w with stage := stage } e' :=
  ⟨rfl, rfl, hp.epoch.trans h.epoch, hp.incarnation.trans h.incarnation⟩

/-- An application report of a worker. -/
theorem Serves.application (h : f.Serves w e) (hc : e.Calm (n + 2)) {d : ApplyDirective}
    (hd : e.Has d .authorized) (hz : w.incarnation.isZero = false) (accepted : Bool)
    (next : Stage) :
    ∃ e', f.report w (.application (w.application d accepted)) {} next =
        { f with system := .up e', worker := some { w with stage := next } } ∧ e'.Calm n ∧
      Engine.Passes (· = d.key) e e' ∧ e'.Has d (e.appliedPhase accepted) := by
  obtain ⟨e', answer, hr, hl, hcalm, hpasses, hhas⟩ := hc.application hd hz accepted
  refine ⟨e', h.report (congrArg Prod.fst hr) ?_ hl, hcalm, hpasses, hhas⟩
  change CallAnswer.decision (tellDecision (e.recordApplication _).2) = _
  rw [hr]

/-- A verification report of a worker that saw the effect. -/
theorem Serves.verification (h : f.Serves w e) (hc : e.Calm (n + 3)) {d : ApplyDirective}
    (hd : e.Has d .acknowledged ∨ e.Has d .committed) (next : Stage) :
    ∃ e', f.report w (.verification (w.verification d true)) {} next =
        { f with system := .up e', worker := some { w with stage := next } } ∧ e'.Calm n ∧
      Engine.Passes (· = d.key) e e' ∧ e'.Has d .committed := by
  obtain ⟨e', answer, hr, hl, hcalm, hpasses, hhas⟩ := hc.verification hd w
  refine ⟨e', h.report (congrArg Prod.fst hr) ?_ hl, hcalm, hpasses, hhas⟩
  change CallAnswer.decision (tellDecision (e.recordVerification _).2) = _
  rw [hr]

/-- A worker that has written the effect of a directive. -/
theorem Serves.acknowledge (h : f.Serves w e) {d : ApplyDirective} {path : Bytes}
    {todo : List ApplyDirective} (hs : w.stage = .applied d path todo)
    (hz : w.incarnation.isZero = false) (hc : e.Calm (n + 2)) (hd : e.Has d .authorized) :
    ∃ e', f.works 1 = { f with
        system := .up e'
        worker := some { w with
          stage := if w.options.verify then .acknowledged d path todo else .directed todo } } ∧
      e'.Calm n ∧ Engine.Passes (· = d.key) e e' ∧ e'.Has d (e.appliedPhase true) := by
  have hwork := h.works_one
  rw [work, hs] at hwork
  obtain ⟨e', hr, hrest⟩ := h.application hc hd hz true
    (if w.options.verify then .acknowledged d path todo else .directed todo)
  exact ⟨e', hwork.trans hr, hrest⟩

/-- A worker that verifies an effect that it finds. -/
theorem Serves.verify (h : f.Serves w e) {d : ApplyDirective} {path : Bytes}
    {todo : List ApplyDirective} (hs : w.stage = .acknowledged d path todo)
    (hread : readEffect f.files path = true) (hc : e.Calm (n + 3))
    (hd : e.Has d .acknowledged ∨ e.Has d .committed) :
    ∃ e', (f.works 1).Serves { w with stage := .directed todo } e' ∧ e'.Calm n ∧
      Engine.Passes (· = d.key) e e' ∧ e'.Has d .committed := by
  have hwork := h.works_one
  rw [work, hs] at hwork
  dsimp only at hwork
  rw [hread] at hwork
  obtain ⟨e', hr, hcalm, hpasses, hhas⟩ := h.verification hc hd (.directed todo)
  exact ⟨e', hwork.trans hr ▸ h.next hpasses _, hcalm, hpasses, hhas⟩

/-- A directive is carried out. -/
theorem Serves.directive (h : f.Serves w e) {d : ApplyDirective} {todo : List ApplyDirective}
    (hs : w.stage = .directed (d :: todo)) (hz : w.incarnation.isZero = false)
    (hc : e.Calm (n + 5)) (hd : e.Has d .authorized) :
    ∃ k e', (f.works k).Serves { w with stage := .directed todo } e' ∧ e'.Calm n ∧
      Engine.Passes (· = d.key) e e' ∧
      e'.Has d (w.options.outcome e.state.policy.requireVerifiedEffect) := by
  have hwork := h.works_one
  rw [work, hs] at hwork
  dsimp only at hwork
  cases hreject : w.options.reject with
  | true =>
    obtain ⟨e', hr, hcalm, hpasses, hhas⟩ :=
      h.application (n := n + 3) hc hd hz false (.directed todo)
    rw [if_pos hreject, hr] at hwork
    refine ⟨1, e', hwork ▸ h.next hpasses _, hcalm.mono (by omega), hpasses, ?_⟩
    rw [WorkerOptions.outcome, if_pos hreject]
    exact hhas
  | false =>
    have hwrite : f.works 1 = (f.put w d (effectText d w.options.worker)).enter w
        (.applied d (effectPath w.options.effectDir d) todo) := by
      rw [hwork, if_neg (by simp [hreject])]
      rfl
    have h₁ : (f.works 1).Serves
        { w with stage := .applied d (effectPath w.options.effectDir d) todo } e := by
      rw [hwrite]
      exact ⟨h.up, rfl, h.epoch, h.incarnation⟩
    have hread : readEffect (f.works 1).files (effectPath w.options.effectDir d) = true := by
      rw [hwrite]
      exact readEffect_of_text Effects.read_write
    obtain ⟨e₁, hr, hcalm₁, hpasses₁, hhas₁⟩ :=
      h₁.acknowledge (n := n + 3) rfl hz hc hd
    have hserves := h₁.next hpasses₁ (if w.options.verify then
      .acknowledged d (effectPath w.options.effectDir d) todo else .directed todo)
    rw [← hr] at hserves
    rw [WorkerOptions.outcome, if_neg (by simp [hreject])]
    cases hverify : w.options.verify with
    | false =>
      rw [hverify] at hserves
      refine ⟨1 + 1, e₁, ?_, hcalm₁.mono (by omega), hpasses₁, ?_⟩
      · rw [works_add]
        exact hserves
      · rw [Bool.not_false, Bool.and_true]
        exact hhas₁
    | true =>
      rw [hverify] at hserves
      have hfiles : readEffect ((f.works 1).works 1).files
          (effectPath w.options.effectDir d) = true := by
        rw [hr]
        exact hread
      have hstands : e₁.Has d .acknowledged ∨ e₁.Has d .committed := by
        rw [Engine.appliedPhase, if_neg (by simp)] at hhas₁
        cases hv : e.state.policy.requireVerifiedEffect with
        | true => exact .inl (by rwa [hv] at hhas₁)
        | false => exact .inr (by rwa [hv] at hhas₁)
      obtain ⟨e₂, hserves₂, hcalm₂, hpasses₂, hhas₂⟩ :=
        hserves.verify rfl hfiles hcalm₁ hstands
      refine ⟨1 + 1 + 1, e₂, ?_, hcalm₂, hpasses₁.trans hpasses₂, ?_⟩
      · rw [works_add, works_add]
        exact hserves₂
      · rw [Bool.not_true, Bool.and_false]
        exact hhas₂

/-- Directives that are carried out, one behind the other. -/
theorem Serves.directives {todo : List ApplyDirective} (h : f.Serves w e)
    (hs : w.stage = .directed todo) (hz : w.incarnation.isZero = false)
    (hc : e.Calm (5 * todo.length)) (hd : ∀ d ∈ todo, e.Has d .authorized)
    (hkeys : (todo.map ApplyDirective.key).Nodup) :
    ∃ k e', (f.works k).Serves { w with stage := .directed [] } e' ∧
      Engine.Passes (· ∈ todo.map ApplyDirective.key) e e' ∧
      ∀ d ∈ todo, e'.Has d (w.options.outcome e.state.policy.requireVerifiedEffect) := by
  induction todo generalizing f w e with
  | nil =>
    refine ⟨0, e, ?_, .refl _ _, fun d hd => absurd hd List.not_mem_nil⟩
    rw [← hs]
    exact h
  | cons d todo ih =>
    rw [List.map_cons, List.nodup_cons] at hkeys
    rw [List.length_cons, Nat.mul_add] at hc
    have hother : ∀ d' ∈ todo, d'.key ≠ d.key := by
      rintro d' hd' he
      exact hkeys.1 (he ▸ List.mem_map_of_mem hd')
    obtain ⟨j, e₁, hserves₁, hcalm₁, hpasses₁, hhas₁⟩ :=
      h.directive hs hz hc (hd d List.mem_cons_self)
    have hleft : ∀ d' ∈ todo, e₁.Has d' .authorized := fun d' hd' =>
      (hd d' (List.mem_cons_of_mem _ hd')).pass hpasses₁ (hother d' hd')
    obtain ⟨k, e₂, hserves₂, hpasses₂, hhas₂⟩ := ih hserves₁ rfl hz hcalm₁ hleft hkeys.2
    rw [hpasses₁.policy] at hhas₂
    refine ⟨j + k, e₂, ?_, ?_, fun d' hd' => ?_⟩
    · rw [works_add]
      exact hserves₂
    · refine (hpasses₁.mono fun x hx => ?_).trans (hpasses₂.mono fun x hx => ?_)
      · rw [hx]
        exact List.mem_cons_self
      · exact List.mem_cons_of_mem _ hx
    · rcases List.mem_cons.mp hd' with rfl | hd'
      · exact hhas₁.pass hpasses₂ hkeys.1
      · exact hhas₂ d' hd'

end Steps

end Fleet

/-- A directive that is handed out is of an attempt that is authorized, also in the lineage. -/
theorem pending_has {e : Engine} (h : EngineOk False e) (hf : e.store.failed = false)
    {d : ApplyDirective} {n : Nat} (hd : d ∈ e.pendingDirectives n) : e.Has d .authorized := by
  obtain ⟨q, hq, hp, rfl⟩ := pendingDirectives_mem hd
  obtain ⟨r, hr, hu⟩ := (Engine.ok_state h hf).known q hq
  exact ⟨⟨q, hq, rfl, rfl, hp⟩, r, hr, (phase_of_unstamped hu).trans hp⟩

/-- A worker that nobody disturbs carries out a whole round: behind it every attempt that it
claimed is committed, or aborted by a worker that rejects directives, or left acknowledged by one
that does not verify where the policy asks for it. -/
theorem round_completes {actions : List FleetAction} {w : Worker} {e : Engine}
    (hw : (Fleet.run actions).worker = some w) (hs : w.stage = .claiming)
    (he : (Fleet.run actions).coordinator w = some e) (hz : w.incarnation.isZero = false)
    (hc : e.Calm (5 * (e.pendingDirectives 8).length)) :
    ∃ k e', (Fleet.run (actions ++ List.replicate k (.work {}))).system = .up e' ∧
      (Fleet.run (actions ++ List.replicate k (.work {}))).worker =
        some { w with round := w.round + 1, stage := .directed [] } ∧
      ∀ d ∈ e.pendingDirectives 8,
        ∃ r, lastWrite (lineage e'.store.medium.history) d.identity = some r ∧
          r.phase = w.options.outcome e.state.policy.requireVerifiedEffect := by
  obtain ⟨hup, hepoch, hincarnation⟩ := Fleet.coordinator_some he
  have hserves : (Fleet.run actions).Serves w e := ⟨hup, hw, hepoch, hincarnation⟩
  have hclaim := hserves.works_one
  rw [Fleet.work, hs] at hclaim
  dsimp only at hclaim
  rw [Fleet.claim, he] at hclaim
  have hclaimed : ((Fleet.run actions).works 1).Serves
      { w with round := w.round + 1, stage := .directed (e.pendingDirectives 8) } e := by
    rw [hclaim]
    exact ⟨hup, rfl, hepoch, hincarnation⟩
  have hok : EngineOk False e := by
    have hok := Fleet.run_ok actions
    rw [hup] at hok
    exact hok
  obtain ⟨k, e', hserves', -, hhas⟩ := hclaimed.directives rfl hz hc
    (fun d hd => pending_has hok hc.roomy.running hd) (pending_keys hc.keyed)
  have hrun : Fleet.run (actions ++ List.replicate (1 + k) (.work {})) =
      ((Fleet.run actions).works 1).works k := by
    rw [← Fleet.works_add, Fleet.run, List.foldl_append]
    rfl
  refine ⟨1 + k, e', ?_, ?_, fun d hd => (hhas d hd).recorded⟩
  · rw [hrun]
    exact hserves'.up
  · rw [hrun]
    exact hserves'.worker

/-- A worker is connected to the process that it finds. -/
theorem Fleet.connected {actions : List FleetAction} {o : WorkerOptions} {i : Incarnation}
    {e : Engine}
    (he : (Fleet.run (actions ++ [.connect o i])).system = .up e) :
    (Fleet.run (actions ++ [.connect o i])).worker =
      some { options := o, incarnation := i, coordinator := e.incarnation, epoch := e.epoch } := by
  rw [Fleet.run_append, Fleet.step] at he ⊢
  split at he
  · rename_i m hs
    rw [hs] at he
    cases he
  · rename_i e' hs
    rw [hs]
    cases hs.symm.trans he
    rfl

namespace Sample

/-- The two links have failed for their own traffic, and each of them can carry that of the other. -/
def crossed : List Action :=
  booted {} {} ++
    [Action.perform (.publishFailure
        { subject := alternate
          linkGeneration := ⟨1⟩
          topologyGeneration := ⟨1⟩
          state := .down
          confidence := ⟨1000⟩
          stamp := stamp 2 }),
      Action.perform (.publishReplacement
        { candidate := primary
          linkGeneration := ⟨1⟩
          topologyGeneration := ⟨1⟩
          state := .up
          confidence := ⟨1000⟩
          capacityUnits := 10
          adjacencyAuthorized := true
          stamp := stamp 2 })]

/-- Two grants, and a worker in front of its first claim. -/
def connected : List FleetAction :=
  (crossed ++
    [Action.perform (.requestFailover (request ⟨1⟩)),
      Action.perform (.requestFailover
        { subject := alternate
          subjectGeneration := ⟨1⟩
          candidates := [⟨primary, .zero⟩] })]).map .system ++
    [.connect { effectDir := [] } (incarnation 2)]

end Sample

/-- The worker carries out both grants. -/
theorem round_completes_sample : ∃ (e : Engine) (k : Nat) (e' : Engine),
    (Fleet.run Sample.connected).system = .up e ∧ (e.pendingDirectives 8).length = 2 ∧
      (Fleet.run (Sample.connected ++ List.replicate k (.work {}))).system = .up e' ∧
      ∀ d ∈ e.pendingDirectives 8,
        ∃ r, lastWrite (lineage e'.store.medium.history) d.identity = some r ∧
          r.phase = .committed := by
  obtain ⟨e, he, hp⟩ := @System.of_serves (Fleet.run Sample.connected).system
    (fun e => e.unavailable.isNone && !e.store.failed && e.store.medium.appendFaults.isEmpty &&
      decide (e.state.lastSeq.toNat + 10 < 2 ^ 64) &&
      decide (e.state.attempts.length ≤ e.store.options.maxAttempts) &&
      decide (e.store.recordsSinceSnapshot.toNat + 10 < e.options.snapshotEveryRecords.toNat) &&
      decide ((e.pendingDirectives 8).length = 2))
    (by decide +kernel)
  simp only [Bool.and_eq_true, Bool.not_eq_true', decide_eq_true_eq, Option.isNone_iff_eq_none,
    List.isEmpty_iff] at hp
  obtain ⟨⟨⟨⟨⟨⟨hu, hf⟩, hfaults⟩, hroom⟩, htable⟩, hsince⟩, htwo⟩ := hp
  have hok : EngineOk False e := by
    have hok := Fleet.run_ok Sample.connected
    rw [he] at hok
    exact hok
  have hcalm : e.Calm (5 * (e.pendingDirectives 8).length) := by
    rw [htwo]
    exact ⟨hu, ⟨hok.store, hf, hfaults, hroom⟩, hok.keyed, htable, .inr (.inr hsince)⟩
  have hw := Fleet.connected he
  obtain ⟨k, e', hup, -, hall⟩ := @round_completes Sample.connected _ e hw rfl
    (by rw [Fleet.coordinator, he]; exact if_pos ⟨rfl, rfl⟩) rfl hcalm
  refine ⟨e, k, e', he, htwo, hup, fun d hd => ?_⟩
  obtain ⟨r, hr, hphase⟩ := hall d hd
  refine ⟨r, hr, hphase.trans ?_⟩
  rw [WorkerOptions.outcome, if_neg Bool.false_ne_true, Bool.not_true, Bool.and_false]
  rfl

end LinkFailover
