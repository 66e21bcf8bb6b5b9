import LinkFailover.Branches
import LinkFailover.Serving

/-!
# The operations are paths

Each operation of a serving engine, step by step: what it writes obeys the guards.
-/

namespace LinkFailover

open Codec

namespace Engine

variable {wire : Prop} {e : Engine}

/-! ## Requests -/

theorem execute_leads {req : FailoverRequest} {plan : FailoverPlan}
    (h : e.store.failed = false → PlanOk wire e plan) :
    Leads wire e .serving (e.execute req plan).1 .serving := by
  cases plan with
  | fail | replay => exact .refl _ _
  | settle d durable => exact settle_leads fun hf hd => h hf hd
  | record d r =>
    refine afterWrite_leads (fun hf => ?_) fun hok => settleDurable_leads fun _ => ?_
    · obtain ⟨-, hc, hp, ha⟩ := h hf
      exact .record hc hp ha
    · exact (h (commit_ok hok).1).1
  | grant d a =>
    refine afterWrite_leads (fun hf => ?_) fun hok =>
      afterWrite_leads (fun _ => .authorize a) fun _ => settleDurable_leads fun _ => ?_
    · obtain ⟨-, hc, hp, hb⟩ := h hf
      exact .grant hc hp hb
    · exact (h (commit_ok hok).1).1

theorem requestFailover_leads (h : EngineOk wire e) (req : FailoverRequest) :
    Leads wire e .serving (e.requestFailover req).1 .serving := by
  unfold requestFailover
  split
  · exact .refl _ _
  · refine advance_leads.trans (execute_leads fun hf => planFailover_ok ?_)
    exact ready (h.leads advance_leads) hf

/-! ## Decisions about an attempt -/

/-- A decision about an attempt, with a few reasons. -/
theorem attemptDecision_ok {found : AttemptRecord} (hs : found.subject.empty = false)
    (hr : ReplacementNormal found.replacement found.replacementGeneration)
    {d : FailoverDecision} (h1 : d.subject = found.subject)
    (h2 : d.hasReplacement = !found.replacement.empty) (h3 : d.replacement = found.replacement)
    (h4 : d.replacementGeneration = found.replacementGeneration)
    (h5 : d.reasons.length ≤ kMaxReasons) (h6 : d.candidates = []) : DecisionOk wire d where
  subject := by rw [h1, hs]
  replacement h := by
    rw [h2] at h
    rw [h3]
    simpa using h
  noReplacement h := by
    rw [h2] at h
    rw [h3, h4]
    rcases hr with hr | hr
    · simp [hr] at h
    · exact hr
  reasons := h5
  candidates := by rw [h6]; exact Nat.zero_le _
  assessments _ := by simp [h6]

/-- A decision with a few reasons and no assessments is fit for the journal. -/
theorem encodable_few {d : FailoverDecision} (hr : d.reasons.length ≤ kMaxReasons)
    (hc : d.candidates = []) : d.Encodable :=
  ⟨hr, by rw [hc]; exact Nat.zero_le _, by simp [hc]⟩

/-! ## Application and verification -/

/-- The record of an attempt in its next phase continues the attempt. -/
theorem continues_movedTo {d : DurableState} {found : AttemptRecord} {p : AttemptPhase}
    {code : ReasonCode} {detail : Bytes} (hm : phaseMoves found.phase p = true)
    (hd : found.phase = .authorized → p = .committed → d.policy.requireVerifiedEffect = false)
    (hi : found.phase ≠ .interrupted) :
    Continues d found (writeOf p) (movedTo found p code detail) :=
  ⟨rfl, rfl, rfl, rfl, rfl, rfl, hm, hd, rfl, .inl rfl, fun h => absurd h hi, fun _ => rfl⟩

theorem applyAttempt_continues {found : AttemptRecord} (hp : found.phase = .authorized)
    (report : ApplicationReport) :
    Continues e.state found (completionOrUpdate (e.applyAttempt found report).1.phase)
        (e.applyAttempt found report).1 ∧
      (e.applyAttempt found report).1.phase ≠ .rolledBack ∧
      ((e.applyAttempt found report).1.phase = .aborted →
        (e.applyAttempt found report).1.lastReason = some .backendRejected) := by
  unfold applyAttempt
  dsimp only
  split
  · refine ⟨?_, by simp [movedTo], fun _ => ?_⟩
    · exact continues_movedTo (p := .aborted) (by rw [hp]; rfl) (by simp) (by simp [hp])
    · simp only [movedTo, AttemptRecord.lastReason, ReasonLog.getLast?_push]
      rfl
  · cases hv : e.state.policy.requireVerifiedEffect with
    | true =>
      refine ⟨⟨rfl, rfl, rfl, rfl, rfl, rfl, by rw [hp]; rfl, by simp [acceptedAttempt, movedTo],
        rfl, .inl rfl, by simp [hp], fun _ => rfl⟩, by simp [acceptedAttempt, movedTo],
        by simp [acceptedAttempt, movedTo]⟩
    | false =>
      refine ⟨⟨rfl, rfl, rfl, rfl, rfl, rfl, by rw [hp]; rfl, fun _ _ => hv,
        rfl, .inl rfl, by simp [hp], fun _ => rfl⟩, by simp [acceptedAttempt, movedTo],
        by simp [acceptedAttempt, movedTo]⟩

theorem recordFound_leads {found : AttemptRecord} (hm : found ∈ e.state.attempts)
    (report : ApplicationReport) :
    Leads wire e .serving (e.recordFound found report).1 .serving := by
  refine recordFound_cases (P := fun out => Leads wire e .serving out.1 .serving)
    (fun _ _ _ _ => .refl _ _) (fun _ _ _ => settleUndurable_leads) fun _ _ _ hp _ => ?_
  obtain ⟨h1, h2, h3⟩ := applyAttempt_continues (e := e) hp report
  refine afterWrite_leads (fun _ => .carry hm h1 h2 (fun ha _ => h3 ha) fun _ hi => ?_) fun _ =>
    answerAndCheckpoint_leads fun _ _ => ?_
  · rw [hp] at hi
    cases hi
  · unfold applyAttempt
    dsimp only
    split <;> exact encodable_few
      (by simp [FailoverDecision.because, attemptDecision, baseDecision, kMaxReasons]) rfl

theorem recordApplication_leads (report : ApplicationReport) :
    Leads wire e .serving (e.recordApplication report).1 .serving :=
  recordApplication_cases (P := fun out => Leads wire e .serving out.1 .serving)
    (fun _ _ => .refl _ _) (fun _ _ => advance_leads) fun _ _ hfound =>
      advance_leads.trans (recordFound_leads (e := e.advance)
        (DurableState.findAttempt_some hfound).1 report)

/-- A record in flight is in the table once it is noted. -/
theorem noted_mem {o : StoreOptions} {d : DurableState} {r : AttemptRecord}
    (ht : r.isTerminal = false) : r ∈ (d.noteAttempt o r).attempts :=
  Upserted.mem_self (.inl ⟨o, rfl⟩) ht

theorem recordEffect_leads {found : AttemptRecord} (hm : found ∈ e.state.attempts)
    (hp : found.phase = .acknowledged) (report : VerificationReport) :
    Leads wire e .serving (e.recordEffect found report).1 .serving := by
  have hfirst : Continues e.state found .update
      (movedTo found .verified .effectVerified report.detail) :=
    continues_movedTo (p := .verified) (by rw [hp]; rfl) (by simp) (by simp [hp])
  refine afterWrite_leads
    (fun _ => .carry hm hfirst (by simp [movedTo]) (by simp [movedTo]) (by simp [hp]))
    fun hok => afterWrite_leads (fun _ => ?_) fun _ => answerAndCheckpoint_leads fun _ _ =>
      encodable_few (by simp [FailoverDecision.because, attemptDecision, baseDecision, kMaxReasons])
        rfl
  -- the verified record is the one that the first write has left in the table
  obtain ⟨-, -, seq, -, -, hstate, -⟩ := commit_ok hok
  refine .carry (q := updatedAt (movedTo found .verified .effectVerified report.detail) seq)
    ?_ ⟨rfl, rfl, rfl, rfl, rfl, rfl, rfl, by simp [updatedAt, movedTo], rfl, .inl rfl,
      by simp [updatedAt, movedTo], fun _ => rfl⟩ (by simp) (by simp) (by simp [updatedAt, movedTo])
  change _ ∈ (e.store.commit _ _).1.state.attempts
  rw [hstate]
  exact noted_mem rfl

theorem recordNoEffect_leads {found : AttemptRecord} (hm : found ∈ e.state.attempts)
    (hp : found.phase = .acknowledged) (report : VerificationReport) :
    Leads wire e .serving (e.recordNoEffect found report).1 .serving := by
  have hc : Continues e.state found .update
      (movedTo found .indeterminate .effectUnverified report.detail) :=
    continues_movedTo (p := .indeterminate) (by rw [hp]; rfl) (by simp) (by simp [hp])
  exact afterWrite_leads
    (fun _ => .carry hm hc (by simp [movedTo]) (by simp [movedTo]) (by simp [hp]))
    fun _ => answer_leads fun _ _ =>
      encodable_few (by simp [FailoverDecision.because, attemptDecision, baseDecision, kMaxReasons])
        rfl

theorem verifyFound_leads {found : AttemptRecord} (hm : found ∈ e.state.attempts)
    (report : VerificationReport) :
    Leads wire e .serving (e.verifyFound found report).1 .serving :=
  verifyFound_cases (P := fun out => Leads wire e .serving out.1 .serving)
    (fun _ _ _ _ => .refl _ _) (fun _ _ _ => settleUndurable_leads)
    (fun _ _ _ => settleUndurable_leads) (fun _ hp _ => recordNoEffect_leads hm hp report)
    fun _ hp _ => recordEffect_leads hm hp report

theorem recordVerification_leads (report : VerificationReport) :
    Leads wire e .serving (e.recordVerification report).1 .serving :=
  recordVerification_cases (P := fun out => Leads wire e .serving out.1 .serving)
    (fun _ _ => .refl _ _) (fun _ _ => advance_leads) fun _ _ hfound =>
      advance_leads.trans (verifyFound_leads (e := e.advance)
        (DurableState.findAttempt_some hfound).1 report)

/-! ## Rollback -/

theorem rollbackHolder_leads (h : EngineOk wire e) {found : AttemptRecord}
    (hm : found ∈ e.state.attempts) (hp : attemptPhaseHoldsAuthority found.phase = true)
    (req : RollbackRequest) : Leads wire e .serving (e.rollbackHolder found req).1 .serving := by
  have hc : Continues e.state found .rollback
      (movedTo found .rolledBack .rollbackRequested req.rationale) := by
    refine continues_movedTo (p := .rolledBack) ?_ (by simp) ?_
    · revert hp
      cases found.phase <;> exact id
    · intro hi
      rw [hi] at hp
      cases hp
  refine afterWrite_leads (fun _ => .rollback hm hc rfl) fun hok =>
    afterWrite_leads (fun _ => .fence ⟨rfl, rfl, rfl⟩ rfl) fun _ => ?_
  dsimp only
  have hd : DecisionOk wire
      ((({ e.attemptDecision found .rollback .authorization with outcome := .ok }).because
        .rollbackCompleted "failover authority was revoked").because
        .restoreRequiresNewGeneration
        "restoring the original link is a new generation-bound transition, not a resurrection") := by
    have hs := ok_state h (commit_ok hok).1
    exact attemptDecision_ok (hs.subjects _ hm) (hs.replacements _ hm) rfl rfl rfl rfl
      (by simp [FailoverDecision.because, attemptDecision, baseDecision, kMaxReasons]) rfl
  exact (commitDecision_leads fun _ => hd.encodable).trans
    ((commitIdempotency_leads fun _ hdur => commitDecision_decisionOk hd hdur).trans
      rememberDecision_leads)

theorem rollbackFound_leads (h : EngineOk wire e) {found : AttemptRecord}
    (hm : found ∈ e.state.attempts) (req : RollbackRequest) :
    Leads wire e .serving (e.rollbackFound found req).1 .serving :=
  rollbackFound_cases (P := fun out => Leads wire e .serving out.1 .serving)
    (fun _ _ => settleUndurable_leads) (fun _ _ _ => settleUndurable_leads)
    (fun _ _ _ => settleUndurable_leads) fun _ hp => rollbackHolder_leads h hm hp req

theorem requestRollback_leads (h : EngineOk wire e) (req : RollbackRequest) :
    Leads wire e .serving (e.requestRollback req).1 .serving :=
  requestRollback_cases (P := fun out => Leads wire e .serving out.1 .serving) (fun _ => .refl _ _)
    (fun _ _ _ => advance_leads) (fun _ _ _ => advance_leads) fun _ _ _ hfound =>
      advance_leads.trans (rollbackFound_leads (h.leads advance_leads)
        (DurableState.findAttempt_some hfound).1 req)

/-! ## Revalidation -/

theorem revalidatedAttempt_continues (h : EngineOk wire e) (ho : e.closed = false)
    {found : AttemptRecord} (hp : found.phase = .interrupted) (verdict : RevalidationVerdict) :
    Continues e.state found
      (completionOrUpdate (e.revalidatedAttempt found verdict).phase)
      (e.revalidatedAttempt found verdict) ∧
      (e.revalidatedAttempt found verdict).phase ≠ .rolledBack := by
  cases verdict with
  | notApplied =>
    exact ⟨⟨rfl, rfl, rfl, rfl, rfl, rfl, by rw [hp]; rfl, by simp [hp], rfl, .inl rfl,
      fun _ _ => ⟨rfl, trivial⟩, fun hn => absurd hp hn⟩,
      by simp [revalidatedAttempt, movedTo]⟩
  | applied =>
    exact ⟨⟨rfl, rfl, rfl, rfl, rfl, rfl, by rw [hp]; rfl, by simp [hp], rfl,
      .inr ⟨hp, rfl, h.epoch ho, h.coordinator ho, rfl, rfl, rfl, rfl⟩,
      fun _ _ => ⟨rfl, trivial⟩, fun hn => absurd hp hn⟩,
      by simp [revalidatedAttempt, movedTo]⟩
  | unknown | undeclared =>
    exact ⟨⟨rfl, rfl, rfl, rfl, rfl, rfl, by rw [hp]; rfl, by simp [hp], rfl, .inl rfl,
      fun _ hn => absurd rfl hn, fun hn => absurd hp hn⟩, by simp [revalidatedAttempt, movedTo]⟩

theorem revalidationDecision_encodable (found : AttemptRecord) (verdict : RevalidationVerdict) :
    (e.revalidationDecision found verdict).Encodable := by
  have hcases : (e.verdictDecision found verdict).reasons.length ≤ 3 ∧
      (e.verdictDecision found verdict).candidates = [] := by
    cases verdict with
    | notApplied | unknown | undeclared => exact ⟨Nat.le_of_ble_eq_true rfl, rfl⟩
    | applied =>
      simp only [verdictDecision]
      split <;> split <;> exact ⟨Nat.le_of_ble_eq_true rfl, rfl⟩
  refine encodable_few ?_ hcases.2
  simp only [revalidationDecision, FailoverDecision.because, List.length_append,
    List.length_singleton, kMaxReasons]
  omega

/-- The verdict of the caller goes into the record whatever it is. -/
theorem revalidatedAttempt_revalidation (found : AttemptRecord) (verdict : RevalidationVerdict) :
    (e.revalidatedAttempt found verdict).revalidation = verdict := by
  cases verdict <;> rfl

theorem resolveFound_leads (h : EngineOk wire e) {found : AttemptRecord}
    (hm : found ∈ e.state.attempts) {req : RevalidationRequest}
    (hv : wire → e.store.failed = false → found.phase = .interrupted →
      found.revalidated = false → WireEnum.Declared req.verdict) :
    Leads wire e .serving (e.resolveFound found req).1 .serving := by
  refine resolveFound_cases (P := fun out => Leads wire e .serving out.1 .serving)
    (fun _ => settleUndurable_leads) (fun _ _ _ => settleUndurable_leads) fun hr hp _ => ?_
  refine afterWrite_leads (fun hf => ?_) fun _ =>
    answer_leads fun _ _ => revalidationDecision_encodable _ _
  obtain ⟨hc, hs⟩ := revalidatedAttempt_continues h (ok_open h hf) hp req.verdict
  refine .carry hm hc hs (fun _ hh => ?_) fun hw _ => ?_
  · rw [hp] at hh
    cases hh
  · rw [revalidatedAttempt_revalidation]
    exact hv hw hf hp hr

theorem resolveInterrupted_leads (h : EngineOk wire e) {req : RevalidationRequest}
    (hv : wire → e.store.failed = false → req.observerIncarnation.isZero = false →
      req.observerEpoch = e.epoch →
      ∀ found, e.state.findAttempt req.subject req.attemptSeq = some found →
        found.phase = .interrupted → found.revalidated = false →
        WireEnum.Declared req.verdict) :
    Leads wire e .serving (e.resolveInterrupted req).1 .serving :=
  resolveInterrupted_cases (P := fun out => Leads wire e .serving out.1 .serving)
    (fun _ => .refl _ _) (fun _ _ _ _ => .refl _ _) (fun _ _ _ _ => advance_leads)
    fun found _ hzero hepoch hfound =>
      advance_leads.trans (resolveFound_leads (h.leads advance_leads)
        (DurableState.findAttempt_some hfound).1 fun hw hf => hv hw hf hzero hepoch found hfound)

/-! ## Definitions -/

theorem abortedAttempt_continues {d : DurableState} {r : AttemptRecord}
    (h : attemptPhaseHoldsAuthority r.phase = true) (detail : String) :
    Continues d r .update (abortedAttempt r detail) where
  identity := rfl
  id := rfl
  idempotencyKey := rfl
  createSeq := rfl
  replacement := rfl
  replacementGeneration := rfl
  phase := by
    change phaseMoves r.phase .aborted = true
    revert h
    cases r.phase <;> first | exact id | exact fun _ => rfl
  direct _ hc := by cases hc
  write := rfl
  authority := .inl rfl
  settles hi _ := by
    rw [hi] at h
    cases h
  verdict _ := rfl

/-- What is left to fence: the records of a suffix of the list, each of a key of its own, known
to the lineage, and no other that holds authority. -/
structure Unfenced (e : Engine) (rs : List AttemptRecord) : Prop where
  keys : (rs.map AttemptRecord.key).Nodup
  known : ∀ q ∈ rs, Known (lineage e.store.medium.history) q
  holders : ∀ q ∈ e.state.attempts, attemptPhaseHoldsAuthority q.phase = true → q ∈ rs

/-- A record without authority is passed over. -/
theorem Unfenced.skip {r : AttemptRecord} {rs : List AttemptRecord} (h : Unfenced e (r :: rs))
    (hr : attemptPhaseHoldsAuthority r.phase = false) : Unfenced e rs where
  keys := (List.nodup_cons.mp h.keys).2
  known q hq := h.known q (List.mem_cons_of_mem _ hq)
  holders q hq hh := by
    rcases List.mem_cons.mp (h.holders q hq hh) with rfl | hm
    · rw [hr] at hh
      cases hh
    · exact hm

/-- A record is aborted: the others stay as they are known. -/
theorem Unfenced.abort {r : AttemptRecord} {rs : List AttemptRecord} {detail : String}
    (h : Unfenced e (r :: rs)) (hk : (e.state.attempts.map AttemptRecord.key).Nodup)
    (hok : (e.updateAttempt .update (abortedAttempt r detail)).2.isOk = true) :
    Unfenced (e.withWrite (e.updateAttempt .update (abortedAttempt r detail))) rs := by
  obtain ⟨-, -, seq, -, -, hstate, -, hhistory⟩ := commit_ok hok
  obtain ⟨hr, hn⟩ := List.nodup_cons.mp h.keys
  have hother : ∀ q ∈ rs, q.key ≠ r.key := fun q hq hc =>
    hr (hc ▸ List.mem_map_of_mem hq)
  refine ⟨hn, fun q hq => ?_, fun q hq hh => ?_⟩
  · change Known (lineage (e.updateAttempt .update (abortedAttempt r detail)).1.medium.history) q
    rw [updateAttempt, writeAttempt, hhistory, lineage_append, lineage_committed]
    refine (h.known q (List.mem_cons_of_mem _ hq)).append seq fun w x hx hid => ?_
    cases hx
    exact hother q hq (key_of_identity hid).symm
  · change q ∈ (e.updateAttempt .update (abortedAttempt r detail)).1.state.attempts at hq
    rw [updateAttempt, writeAttempt, hstate] at hq
    rcases Upserted.of_mem (.inl ⟨e.store.options, rfl⟩) hk hq with rfl | ⟨hm, hne⟩
    · cases hh
    · rcases List.mem_cons.mp (h.holders q hm hh) with rfl | hx
      · exact absurd rfl hne
      · exact hx

/-- A fence leaves the attempts alone. -/
theorem Unfenced.fence {rs : List AttemptRecord} {f : FenceRecord} (h : Unfenced e rs)
    (hok : (e.writeFence f).2.isOk = true) : Unfenced (e.withWrite (e.writeFence f)) rs := by
  obtain ⟨-, -, seq, -, -, hstate, -, hhistory⟩ := commit_ok hok
  refine ⟨h.keys, fun q hq => ?_, fun q hq hh => ?_⟩
  · change Known (lineage (e.writeFence f).1.medium.history) q
    rw [writeFence, hhistory, lineage_append, lineage_committed]
    exact (h.known q hq).append seq (by simp)
  · change q ∈ (e.writeFence f).1.state.attempts at hq
    rw [writeFence, hstate] at hq
    exact h.holders q hq hh

/-- The walk over the authorities of a definition that is no longer in force. -/
theorem fenceAuthorities_leads (cause : FenceCause) {todo rs : List AttemptRecord}
    (ht : Trace wire e.store.medium.history (e.store.phase (.fencing todo)))
    (hsub : ∀ q ∈ rs, q ∈ todo) (hu : e.store.failed = false → Unfenced e rs) :
    Leads wire e (.fencing todo) (fenceAuthorities cause rs e).1 .serving := by
  induction rs generalizing e with
  | nil =>
    refine ⟨.single (.fenced fun hf q hq => ?_), .refl e, rfl, id⟩
    by_contra hh
    exact List.not_mem_nil ((hu hf).holders q hq (by simpa using hh))
  | cons r rs ih =>
    have hsub' : ∀ q ∈ rs, q ∈ todo := fun q hq => hsub q (List.mem_cons_of_mem _ hq)
    rw [fenceAuthorities]
    by_cases hr : attemptPhaseHoldsAuthority r.phase = true
    swap
    · rw [if_pos (by simpa using hr)]
      exact ih ht hsub' fun hf => (hu hf).skip (by simpa using hr)
    rw [if_neg (by simpa using hr)]
    dsimp only
    have h1 : Leads wire e (.fencing todo)
        (e.withWrite (e.updateAttempt .update (abortedAttempt r cause.detail)))
        (.owing (abortedAttempt r cause.detail) (.fencing todo)) :=
      withWrite_leads fun hf => .abort (hsub r List.mem_cons_self)
        ((hu hf).known r List.mem_cons_self) hr rfl (abortedAttempt_continues hr _)
    cases hok : (e.updateAttempt .update (abortedAttempt r cause.detail)).2.isOk with
    | false => exact Leads.failed h1 (commit_not_ok hok).1
    | true =>
      have hf := (commit_ok hok).1
      rw [LineageStore.phase_live hf] at ht
      have hu1 := (hu hf).abort ht.stateOk.keys hok
      have ht1 := h1.path.trace (by rwa [LineageStore.phase_live hf])
      rw [if_neg (by simp)]
      revert h1 hu1 ht1
      generalize e.withWrite (e.updateAttempt .update (abortedAttempt r cause.detail)) = e₁
      intro h1 hu1 ht1
      have h2 : Leads wire e₁ (.owing (abortedAttempt r cause.detail) (.fencing todo))
          (e₁.withWrite (e₁.writeFence
            (e₁.fenceOf cause.kind r ⟨text cause.detail, cause.bounded⟩))) (.fencing todo) :=
        withWrite_leads fun _ => .fence ⟨rfl, rfl, rfl⟩ rfl
      cases hok2 : (e₁.writeFence
          (e₁.fenceOf cause.kind r ⟨text cause.detail, cause.bounded⟩)).2.isOk with
      | false => exact h1.trans (Leads.failed h2 (commit_not_ok hok2).1)
      | true =>
        rw [if_neg (by simp)]
        exact h1.trans (h2.trans (ih (h2.path.trace ht1) hsub' fun _ => hu1.fence hok2))

/-- The attempts in front of a new definition are all that there is to fence. -/
theorem unfenced_all (hs : StateOk (lineage e.store.medium.history) e.state) :
    Unfenced e e.state.attempts :=
  ⟨hs.keys, hs.known, fun _ hq _ => hq⟩

theorem setDefinition_leads {Tag : Type} (h : EngineOk wire e) {new current : StrongUint Tag UInt64}
    {sameContent : Bool} {code : ReasonCode} {regresses conflicts : String} {p : Payload}
    {apply : LineageSeq → DurableState → DurableState} {cause : FenceCause}
    (w : e.store.failed = false → current < new →
      Writes wire (lineage e.store.medium.history) e.store.options e.state .serving p apply
        (.fencing e.state.attempts))
    (ha : ∀ seq, (apply seq e.state).attempts = e.state.attempts) :
    Leads wire e .serving
      (e.setDefinition new current sameContent code regresses conflicts
        (fun e => e.store.commit p apply) cause).1 .serving := by
  unfold setDefinition
  split
  · exact .refl _ _
  split
  · split
    · exact .refl _ _
    · exact .refl _ _
  dsimp only
  rename_i hlt hne
  have h1 := withWrite_leads fun hf : e.store.failed = false => w hf (StrongUint.lt_of_not hlt hne)
  cases hok : (e.store.commit p apply).2.isOk with
  | false => exact Leads.failed h1 (commit_not_ok hok).1
  | true =>
    obtain ⟨-, -, seq, -, -, hstate, -⟩ := commit_ok hok
    have ht := h1.path.trace h.trace
    have hattempts : (e.withWrite (e.store.commit p apply)).state.attempts = e.state.attempts := by
      change (e.store.commit p apply).1.state.attempts = _
      rw [hstate]
      exact ha seq
    rw [if_neg (by simp), fenceActiveAuthorities, hattempts]
    refine h1.trans (fenceAuthorities_leads cause ht (fun q hq => hq) fun hlive => ?_)
    rw [LineageStore.phase_live hlive] at ht
    have hu := unfenced_all ht.stateOk
    rwa [hattempts] at hu

theorem setPolicy_leads (h : EngineOk wire e) {policy : FailoverPolicy}
    (hd : wire → e.store.failed = false → policy.validate.isOk = true →
      e.state.policy.generation < policy.generation → WireEnum.Declared policy.agreement) :
    Leads wire e .serving (e.setPolicy policy).1 .serving := by
  unfold setPolicy
  split
  · exact .refl _ _
  split
  · exact .refl _ _
  · rename_i hv
    have hv : policy.validate.isOk = true := by simpa using hv
    exact setDefinition_leads h (fun hf hlt => .policy hv fun hw => hd hw hf hv hlt) fun _ => rfl

theorem setTopology_leads (h : EngineOk wire e) (topology : TopologySnapshot) :
    Leads wire e .serving (e.setTopology topology).1 .serving := by
  unfold setTopology
  dsimp only
  split
  · exact .refl _ _
  split
  · exact .refl _ _
  · rename_i hv
    exact setDefinition_leads h (fun _ _ => .topology (by simpa using hv)) fun _ => rfl

/-! ## Checkpoint and close -/

theorem checkpoint_leads : Leads wire e .serving e.checkpoint.1 .serving := by
  unfold checkpoint
  split
  · exact .refl _ _
  split
  · rename_i hc
    exact withCheckpoint_leads hc
  · rename_i hc
    exact withCheckpoint_leads hc

theorem shutDown_path : Path wire (e.store, .serving) (e.shutDown.1.store, .serving) := by
  unfold shutDown
  dsimp only
  have hw : Path wire (e.store, .serving) ((e.store.commit (.shutdown
      { epoch := e.epoch, coordinator := e.incarnation, lastSeq := e.state.lastSeq })
        fun _ d => d).1, .serving) := .single (.write fun _ => .shutdown _)
  split
  · split
    · rename_i hc
      exact hw.trans (withCheckpoint_leads (e := e.withStore _) hc).path
    · rename_i hc
      exact hw.trans (withCheckpoint_leads (e := e.withStore _) hc).path
  · exact hw

theorem shutDown_keeps : Keeps e e.shutDown.1 := by
  unfold shutDown
  dsimp only
  split
  · split <;> exact ⟨rfl, rfl, rfl, rfl, rfl, rfl, rfl, rfl⟩
  · exact ⟨rfl, rfl, rfl, rfl, rfl, rfl, rfl, rfl⟩

theorem close_open (hc : e.closed = false) : e.close.1 = e.shutDown.1.shut := by
  rw [close, if_neg (by simp [hc])]

theorem close_keeps : Keeps e e.close.1 := by
  cases hc : e.closed with
  | true =>
    rw [close, if_pos hc]
    exact .refl e
  | false =>
    rw [close_open hc]
    exact shutDown_keeps.trans ⟨rfl, rfl, rfl, rfl, rfl, rfl, rfl, rfl⟩

theorem close_closed : e.close.1.closed = true := by
  cases hc : e.closed with
  | true =>
    rw [close, if_pos hc]
    exact hc
  | false =>
    rw [close_open hc]
    rfl

theorem close_attempts : e.close.1.state.attempts ⊆ e.state.attempts := by
  cases hc : e.closed with
  | true =>
    rw [close, if_pos hc]
    exact List.Subset.refl _
  | false =>
    rw [close_open hc]
    exact List.nil_subset _

/-- A second close changes nothing; the first writes like any operation and then lets go of the
store. -/
theorem close_path : ∃ s, Path wire (e.store, .serving) (s, .serving) ∧
    (e.close.1.store = s ∧ e.close.1.closed = e.closed ∨
      e.close.1.store = s.close ∧ e.close.1.closed = true ∧ e.closed = false) := by
  cases hc : e.closed with
  | true =>
    rw [close, if_pos hc]
    exact ⟨_, .refl, .inl ⟨rfl, hc⟩⟩
  | false =>
    rw [close_open hc]
    exact ⟨_, shutDown_path, .inr ⟨rfl, rfl, rfl⟩⟩

/-- A close ends the trace of a process; what it has written stays. -/
theorem close_ok (h : EngineOk wire e) : EngineOk wire e.close.1 := by
  cases hc : e.closed with
  | true =>
    rw [close, if_pos hc]
    exact h
  | false =>
    have hk := (close_keeps (e := e))
    rw [close_open hc] at hk ⊢
    have hpath := @shutDown_path wire e
    exact
      { trace := .stopped (hpath.trace h.trace)
        store := ⟨(hpath.storeOk h.store).represents, fun hf => Bool.noConfusion hf⟩
        options := by rw [hk.options, ← h.options]; exact hpath.options
        fabric := by rw [hk.options, h.fabric]
        closed := fun _ => rfl
        shut := fun _ => rfl
        epoch := fun hf => Bool.noConfusion hf
        coordinator := fun hf => Bool.noConfusion hf
        evidence := by rw [hk.replacementEvidence]; exact h.evidence
        failures := by rw [hk.failureEvidence]; exact h.failures
        replacements := by rw [hk.replacementEvidence]; exact h.replacements
        stops := fun _ => .inr rfl
        keyed := List.nodup_nil }

end Engine

end LinkFailover
