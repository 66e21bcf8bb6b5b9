import LinkFailover.Operations

/-!
# The branches of the operations on an attempt

The four operations that act on a retained attempt (an application report, a verification, a
rollback, a revalidation) have the same outline: a few checks on the request, a look for the attempt
that it names, and then a branch that depends on the attempt. What a proof has to say about such an
operation it says about its branches, and each rule of this module leads from the branches to the
operation. A rule names a branch once, with what the operation has found out when it takes it. The
texts of errors are left open, since nothing depends on them there.

* `recordApplication_cases`, `recordVerification_cases`, `requestRollback_cases`,
  `resolveInterrupted_cases`: from the request to the attempt.
* `recordFound_cases`, `verifyFound_cases`, `rollbackFound_cases`, `resolveFound_cases`: from the
  attempt to what is written and answered.
-/

namespace LinkFailover

namespace Engine

variable {e : Engine} {found : AttemptRecord} {P : Engine × Result FailoverDecision → Prop}

theorem applicationConflict_none {p : AttemptPhase} (h : applicationConflict p = none) :
    p = .authorized := by
  cases p <;> first | rfl | cases h

/-! ## Application -/

/-- An application report: the engine is not available, it has no such attempt, or the report is
about an attempt that it retains. -/
theorem recordApplication_cases {report : ApplicationReport}
    (unavailable : ∀ s, e.unavailable = some s → P (e, .error s))
    (unknown : e.unavailable = none →
      e.state.findAttempt report.subject report.attemptSeq = none → P e.advance.unknownAttempt)
    (known : ∀ found, e.unavailable = none →
      e.state.findAttempt report.subject report.attemptSeq = some found →
      P (e.advance.recordFound found report)) : P (e.recordApplication report) := by
  unfold recordApplication
  cases hu : e.unavailable with
  | some s => exact unavailable s hu
  | none =>
    dsimp only
    rw [advance_state]
    cases hfound : e.state.findAttempt report.subject report.attemptSeq with
    | none => exact unknown hu hfound
    | some found => exact known found hu hfound

/-- A report on an attempt is refused, or answered without a record when the phase of the attempt
does not wait for it, or the attempt is authorized and is written. -/
theorem recordFound_cases {report : ApplicationReport}
    (refused : found.subjectGeneration ≠ report.subjectGeneration ∨
      found.attemptId ≠ report.attemptId ∨ report.applierIncarnation.isZero = true →
      ∀ outcome code detail, P (e, fail outcome code detail))
    (settled : ∀ code detail, applicationConflict found.phase = some (code, detail) →
      P (e.settleUndurable ({ e.attemptDecision found .acknowledge .acknowledgement with
        outcome := .conflict }.because code detail)))
    (written : found.subjectGeneration = report.subjectGeneration →
      found.attemptId = report.attemptId → report.applierIncarnation.isZero = false →
      found.phase = .authorized → ∀ detail, P (e.afterWrite
        (e.updateAttempt (completionOrUpdate (e.applyAttempt found report).1.phase)
          (e.applyAttempt found report).1) detail fun e' =>
        e'.answerAndCheckpoint (e.applyAttempt found report).2)) :
    P (e.recordFound found report) := by
  unfold recordFound
  split
  · rename_i hgeneration
    exact refused (.inl hgeneration) _ _ _
  rename_i hgeneration
  split
  · rename_i hid
    exact refused (.inr (.inl hid)) _ _ _
  rename_i hid
  split
  · rename_i hzero
    exact refused (.inr (.inr hzero)) _ _ _
  rename_i hzero
  split
  · rename_i hconflict
    exact settled _ _ hconflict
  · rename_i hphase
    exact written (not_not.mp hgeneration) (not_not.mp hid) (Bool.eq_false_iff.mpr hzero)
      (applicationConflict_none hphase) _

/-! ## Verification -/

/-- A verification: the engine is not available, it has no such attempt, or the report is about an
attempt that it retains. -/
theorem recordVerification_cases {report : VerificationReport}
    (unavailable : ∀ s, e.unavailable = some s → P (e, .error s))
    (unknown : e.unavailable = none →
      e.state.findAttempt report.subject report.attemptSeq = none → P e.advance.unknownAttempt)
    (known : ∀ found, e.unavailable = none →
      e.state.findAttempt report.subject report.attemptSeq = some found →
      P (e.advance.verifyFound found report)) : P (e.recordVerification report) := by
  unfold recordVerification
  cases hu : e.unavailable with
  | some s => exact unavailable s hu
  | none =>
    dsimp only
    rw [advance_state]
    cases hfound : e.state.findAttempt report.subject report.attemptSeq with
    | none => exact unknown hu hfound
    | some found => exact known found hu hfound

/-- A verification is refused, or answered without a record when the attempt is verified already or
does not wait for it, or the attempt is acknowledged and what was observed is written. -/
theorem verifyFound_cases {report : VerificationReport}
    (refused : found.attemptId ≠ report.attemptId →
      ∀ outcome code detail, P (e, fail outcome code detail))
    (repeated : found.phase = .committed ∨ found.phase = .verified → ∀ code detail,
      P (e.settleUndurable ({ e.attemptDecision found .verify .verifiedEffect with
        outcome := .conflict }.because code detail)))
    (late : found.phase ≠ .acknowledged → ∀ code detail,
      P (e.settleUndurable ({ e.attemptDecision found .verify .observation with
        outcome := .conflict }.because code detail)))
    (unobserved : found.attemptId = report.attemptId → found.phase = .acknowledged →
      report.effectObserved = false → P (e.recordNoEffect found report))
    (observed : found.attemptId = report.attemptId → found.phase = .acknowledged →
      report.effectObserved = true → P (e.recordEffect found report)) :
    P (e.verifyFound found report) := by
  unfold verifyFound
  split
  · rename_i hid
    exact refused hid _ _ _
  rename_i hid
  split
  · rename_i hdone
    exact repeated hdone _ _
  split
  · rename_i hphase
    exact late hphase _ _
  rename_i hphase
  split
  · rename_i hobserved
    exact unobserved (not_not.mp hid) (not_not.mp hphase) (by simpa using hobserved)
  · rename_i hobserved
    exact observed (not_not.mp hid) (not_not.mp hphase) (by simpa using hobserved)

/-! ## Rollback -/

/-- A rollback: the engine is closed, the key was answered before, there is no such attempt, or the
request is about an attempt that is retained. -/
theorem requestRollback_cases {req : RollbackRequest}
    (closed : e.closed = true → P (e, .error shuttingDown))
    (replayed : ∀ entry, e.closed = false → e.state.findIdempotency req.idempotencyKey = some entry →
      P (e.advance, .ok (e.advance.replayDecision entry)))
    (unknown : e.closed = false → e.state.findIdempotency req.idempotencyKey = none →
      e.state.findAttempt req.subject req.attemptSeq = none → P e.advance.unknownAttempt)
    (known : ∀ found, e.closed = false → e.state.findIdempotency req.idempotencyKey = none →
      e.state.findAttempt req.subject req.attemptSeq = some found →
      P (e.advance.rollbackFound found req)) : P (e.requestRollback req) := by
  unfold requestRollback
  split
  · rename_i hclosed
    exact closed hclosed
  rename_i hclosed
  dsimp only
  rw [advance_state]
  cases hkey : e.state.findIdempotency req.idempotencyKey with
  | some entry => exact replayed entry (Bool.eq_false_iff.mpr hclosed) hkey
  | none =>
    dsimp only
    cases hfound : e.state.findAttempt req.subject req.attemptSeq with
    | none => exact unknown (Bool.eq_false_iff.mpr hclosed) hkey hfound
    | some found => exact known found (Bool.eq_false_iff.mpr hclosed) hkey hfound

/-- A rollback is answered without a record when it binds authority that is no longer current, when
the attempt was rolled back before, or when the attempt holds nothing; else the attempt is rolled
back. -/
theorem rollbackFound_cases {req : RollbackRequest}
    (stale : compareAuthority req.expected
        (e.currentAuthority req.subject found.subjectGeneration) ≠ [] → ∀ detail, P (e.settleUndurable (staleDecision
      (e.attemptDecision found .rollback .observation) detail
      (compareAuthority req.expected (e.currentAuthority req.subject found.subjectGeneration)))))
    (repeated : found.phase = .rolledBack → ∀ code detail, P (e.settleUndurable
      ({ e.attemptDecision found .rollback .authorization with
          outcome := .ok
          idempotentReplay := true }.because code detail)))
    (unheld : attemptPhaseHoldsAuthority found.phase = false → ∀ code detail,
      P (e.settleUndurable ({ e.attemptDecision found .rollback .observation with
        outcome := .conflict }.because code detail)))
    (held : compareAuthority req.expected
        (e.currentAuthority req.subject found.subjectGeneration) = [] →
      attemptPhaseHoldsAuthority found.phase = true → P (e.rollbackHolder found req)) :
    P (e.rollbackFound found req) := by
  unfold rollbackFound
  dsimp only
  split
  · rename_i hmatch
    exact stale (by simpa using hmatch) _
  rename_i hmatch
  split
  · rename_i hphase
    exact repeated hphase _ _
  split
  · rename_i hholds
    exact unheld (by simpa using hholds) _ _
  · rename_i hholds
    exact held (by simpa using hmatch) (by simpa using hholds)

/-! ## Revalidation -/

/-- A revalidation: it is refused, there is no such attempt, or it is a verdict of this epoch on an
attempt that is retained. -/
theorem resolveInterrupted_cases {req : RevalidationRequest}
    (closed : e.closed = true → P (e, .error shuttingDown))
    (refused : req.observerIncarnation.isZero = true ∨ req.observerEpoch ≠ e.epoch →
      ∀ outcome code detail, P (e, fail outcome code detail))
    (unknown : e.closed = false → req.observerIncarnation.isZero = false →
      req.observerEpoch = e.epoch → e.state.findAttempt req.subject req.attemptSeq = none →
      P e.advance.unknownAttempt)
    (known : ∀ found, e.closed = false → req.observerIncarnation.isZero = false →
      req.observerEpoch = e.epoch → e.state.findAttempt req.subject req.attemptSeq = some found →
      P (e.advance.resolveFound found req)) : P (e.resolveInterrupted req) := by
  unfold resolveInterrupted
  split
  · rename_i hclosed
    exact closed hclosed
  rename_i hclosed
  split
  · rename_i hzero
    exact refused (.inl hzero) _ _ _
  rename_i hzero
  split
  · rename_i hepoch
    exact refused (.inr hepoch) _ _ _
  rename_i hepoch
  dsimp only
  rw [advance_state]
  cases hfound : e.state.findAttempt req.subject req.attemptSeq with
  | none =>
    exact unknown (Bool.eq_false_iff.mpr hclosed) (Bool.eq_false_iff.mpr hzero)
      (not_not.mp hepoch) hfound
  | some found =>
    exact known found (Bool.eq_false_iff.mpr hclosed) (Bool.eq_false_iff.mpr hzero)
      (not_not.mp hepoch) hfound

/-- A verdict is answered without a record when one was recorded before or the attempt is not
interrupted; else it is written. -/
theorem resolveFound_cases {req : RevalidationRequest}
    (repeated : found.revalidated = true → P (e.settleUndurable (e.settledDecision found)))
    (finished : found.phase ≠ .interrupted → ∀ code detail,
      P (e.settleUndurable ({ e.attemptDecision found .revalidate .observation with
        outcome := .conflict }.because code detail)))
    (written : found.revalidated = false → found.phase = .interrupted → ∀ detail, P (e.afterWrite
      (e.updateAttempt (completionOrUpdate (e.revalidatedAttempt found req.verdict).phase)
        (e.revalidatedAttempt found req.verdict)) detail fun e' =>
      e'.answer (e.revalidationDecision found req.verdict))) :
    P (e.resolveFound found req) := by
  unfold resolveFound
  split
  · rename_i hrevalidated
    exact repeated hrevalidated
  rename_i hrevalidated
  split
  · rename_i hphase
    exact finished hphase _ _
  · rename_i hphase
    exact written (Bool.eq_false_iff.mpr hrevalidated) (not_not.mp hphase) _

end Engine

end LinkFailover
