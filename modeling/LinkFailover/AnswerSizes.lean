import LinkFailover.Acceptance
import LinkFailover.Server
import LinkFailover.Stamps
import LinkFailover.Lib.Sizes

/-!
# Sizes of answers

Statuses, decisions and directives are bounded well below the limit of a frame. An inspection lists
up to 256 attempts and as many fences, and what they take together has no bound of that kind.

* `AttemptRecord.size`, `FenceRecord.size`: what a listed record takes, from its names and reasons.
* `Engine.inspectionSize`: what the answer to an inspection takes.
* `respond_iff`: which answers fit a frame.
-/

namespace LinkFailover

open Codec

/-! ## Sizes of what an inspection lists -/

def AuthorityVector.size (v : AuthorityVector) : Nat :=
  226 + v.fabric.value.length + v.subject.fabric.value.length + v.subject.link.value.length +
    v.replacement.fabric.value.length + v.replacement.link.value.length +
    v.evidencePublisher.value.length

def Reason.size (r : Reason) : Nat := 6 + r.detail.length

def AttemptRecord.size (r : AttemptRecord) : Nat :=
  212 + r.subject.fabric.value.length + r.subject.link.value.length +
    r.replacement.fabric.value.length + r.replacement.link.value.length + r.authority.size +
    (r.predecessor.map fun _ => 32).getD 0 + (r.reasons.entries.map Reason.size).sum

def FenceRecord.size (f : FenceRecord) : Nat :=
  64 + f.subject.fabric.value.length + f.subject.link.value.length + f.detail.val.length

section Sizes

open Writer

theorem nameTakes {Tag : Type} (n : StrongName Tag) : Takes (.name n) (4 + n.value.length) :=
  .blob (Nat.le_trans n.length_le (by decide))

theorem uintTakes {Tag : Type} (v : StrongUint Tag UInt64) : Takes (.uint v) 8 := .u64 v.value

theorem Reason.takes (r : Reason) : Takes r.encode r.size := by
  have h : Takes r.encode (2 + ((4 + r.detail.length) + 0)) :=
    .cons (.u16 _) <| .cons (.blob r.bounded) .nil
  rw [Reason.size, show 6 + r.detail.length = 2 + ((4 + r.detail.length) + 0) by omega]
  exact h

theorem AuthorityVector.takes (v : AuthorityVector) : Takes v.encode v.size := by
  have h : Takes v.encode _ :=
    .cons (.u16 _) <| .cons (nameTakes _) <| .cons (nameTakes _) <| .cons (nameTakes _) <|
      .cons (uintTakes _) <| .cons (nameTakes _) <| .cons (nameTakes _) <|
      .cons (uintTakes _) <| .cons (uintTakes _) <| .cons (.fixed _) <| .cons (uintTakes _) <|
      .cons (.fixed _) <| .cons (uintTakes _) <| .cons (.fixed _) <| .cons (nameTakes _) <|
      .cons (.fixed _) <| .cons (uintTakes _) <| .cons (.fixed _) <| .cons (uintTakes _) <|
      .cons (.fixed _) .nil
  convert h using 1
  rw [AuthorityVector.size]
  omega

theorem AttemptRecord.takes (r : AttemptRecord) : Takes r.encode r.size := by
  have hpredecessor : Takes (.option .fixed r.predecessor)
      (1 + (r.predecessor.map fun _ => 32).getD 0) := .option _ fun d => .fixed d
  have h : Takes r.encode _ :=
    .cons (.u16 _) <| .cons (nameTakes _) <| .cons (nameTakes _) <| .cons (uintTakes _) <|
      .cons (uintTakes _) <| .cons (.fixed _) <| .cons (.fixed _) <| .cons (.u16 _) <|
      .cons (nameTakes _) <| .cons (nameTakes _) <| .cons (uintTakes _) <|
      .cons r.authority.takes <| .cons (.fixed _) <| .cons (.u64 _) <| .cons (uintTakes _) <|
      .cons (.fixed _) <| .cons (uintTakes _) <| .cons (uintTakes _) <|
      .cons hpredecessor <| .cons (.fixed _) <| .cons (.bool8 _) <|
      .cons (.u16 _) <| .cons (.u32 _) <| .cons (.each _ fun x _ => x.takes) .nil
  convert h using 1
  rw [AttemptRecord.size]
  omega

theorem FenceRecord.takes (f : FenceRecord) : Takes f.encode f.size := by
  have h : Takes f.encode _ :=
    .cons (.u16 _) <| .cons (.u16 _) <| .cons (nameTakes _) <| .cons (nameTakes _) <|
      .cons (uintTakes _) <| .cons (uintTakes _) <| .cons (uintTakes _) <| .cons (.fixed _) <|
      .cons (uintTakes _) <| .cons (.blob f.detail.property) .nil
  convert h using 1
  rw [FenceRecord.size]
  omega

theorem EngineView.takes (v : EngineView) : Takes v.encode
    (199 + v.fabric.value.length + (v.recentAttempts.map AttemptRecord.size).sum +
      (v.recentFences.map FenceRecord.size).sum) := by
  have h : Takes v.encode _ :=
    .cons (.u16 _) <| .cons (nameTakes _) <| .cons (uintTakes _) <| .cons (.fixed _) <|
      .cons (uintTakes _) <| .cons (uintTakes _) <| .cons (.fixed _) <| .cons (.fixed _) <|
      .cons (.u64 _) <| .cons (uintTakes _) <| .cons (.u64 _) <| .cons (.u64 _) <|
      .cons (.u64 _) <| .cons (.u64 _) <| .cons (.u64 _) <| .cons (.u64 _) <| .cons (.u64 _) <|
      .cons (.u64 _) <| .cons (.bool8 _) <| .cons (.u32 _) <|
      .cons (.each _ fun r _ => r.takes) <| .cons (.u32 _) <|
      .cons (.each _ fun f _ => f.takes) .nil
  convert h using 1
  omega

end Sizes

/-! ## Statuses -/

/-- A status within the number of reasons that it can hold. -/
def Status.Brief (s : Status) : Prop := s.reasons.length ≤ kMaxReasons

namespace Status

variable {s : Status} {outcome : Outcome} {code : ReasonCode} {detail : Bytes}

theorem brief_success : Brief success := Nat.zero_le _

theorem Brief.add (h : s.Brief) : (s.add code detail).Brief := by
  rw [Brief, Status.add]
  split
  · rename_i hlt
    rw [List.length_append]
    exact hlt
  · exact h

theorem brief_failure : (failure outcome code detail).Brief :=
  Brief.add (s := { outcome := outcome }) (Nat.zero_le _)

end Status

theorem commit_brief {s : LineageStore} {p : Payload} {apply : Applies} :
    (s.commit p apply).2.Brief := by
  have happend : ∀ (w : JournalWriter) file fault r, (w.append file fault r).2.2.Brief := by
    intro w file fault r
    unfold JournalWriter.append
    split
    · exact Status.brief_failure
    split
    · exact Status.brief_failure
    split
    · exact Status.brief_failure
    split
    · exact Status.brief_success
    · exact Status.brief_failure
  unfold LineageStore.commit
  split
  · exact Status.brief_failure
  split
  · exact Status.brief_failure
  dsimp only
  split
  · exact happend _ _ _ _
  · exact Status.brief_success

namespace Engine

variable {e : Engine}

theorem unavailable_brief {s : Status} (h : e.unavailable = some s) : s.Brief := by
  unfold unavailable at h
  split at h
  · cases h
    exact Status.brief_failure
  split at h
  · cases h
    exact Status.brief_failure
  · cases h

theorem publish_brief {Report : Type} (k : ReportKind Report) (report : Report) :
    (e.publish k report).2.Brief := by
  unfold publish
  split
  · rename_i s hs
    unfold admitReport at hs
    dsimp only at hs
    split at hs
    · rename_i u hu
      cases hs
      exact unavailable_brief hu
    split at hs
    · cases hs
      exact Status.brief_failure.add
    split at hs
    · cases hs
      exact Status.brief_failure
    split at hs
    · cases hs
      exact Status.brief_failure
    · cases hs
  have hadmitted : (e.advance.admitPublisher (k.stamp report)).2.Brief := by
    unfold admitPublisher
    split
    · split
      · exact Status.brief_failure
      · exact Status.brief_success
    split
    · exact Status.brief_success
    split
    · exact Status.brief_failure.add
    split
    · exact Status.brief_failure
    · exact Status.brief_success
  dsimp only
  split
  · exact hadmitted
  unfold retainReport
  dsimp only
  split
  · exact Status.brief_failure.add
  split
  · exact Status.brief_failure
  · exact Status.brief_success

theorem fenceAuthorities_brief (cause : FenceCause) (rs : List AttemptRecord) :
    (fenceAuthorities cause rs e).2.Brief := by
  induction rs generalizing e with
  | nil => exact Status.brief_success
  | cons r rs ih =>
    rw [fenceAuthorities]
    split
    · exact ih
    dsimp only
    split
    · exact commit_brief
    split
    · exact commit_brief
    · exact ih

theorem setDefinition_brief {Tag : Type} {new current : StrongUint Tag UInt64} {same : Bool}
    {code : ReasonCode} {regresses conflicts : String} {commit : Engine → LineageStore × Status}
    {cause : FenceCause} (h : (commit e).2.Brief) :
    (e.setDefinition new current same code regresses conflicts commit cause).2.Brief := by
  unfold setDefinition
  split
  · exact Status.brief_failure.add
  split
  · split
    · exact Status.brief_success
    · exact Status.brief_failure
  dsimp only
  split
  · exact h
  · exact fenceAuthorities_brief cause _

theorem setPolicy_brief (policy : FailoverPolicy) : (e.setPolicy policy).2.Brief := by
  unfold setPolicy
  split
  · exact Status.brief_failure
  split
  · unfold FailoverPolicy.validate
    repeat' split
    all_goals first
      | exact Status.brief_failure.add
      | exact Status.brief_failure
      | exact Status.brief_success
  · exact setDefinition_brief commit_brief

theorem setTopology_brief (topology : TopologySnapshot) : (e.setTopology topology).2.Brief := by
  unfold setTopology
  dsimp only
  split
  · exact Status.brief_failure
  split
  · unfold TopologySnapshot.validate
    repeat' split
    all_goals first | exact Status.brief_failure | exact Status.brief_success
  · exact setDefinition_brief commit_brief

end Engine

/-! ## Decisions -/

/-- A decision with at most so many reasons, and no more candidates than its decoder takes. -/
structure FailoverDecision.Brief (n : Nat) (d : FailoverDecision) : Prop where
  reasons : d.reasons.length ≤ n
  candidates : d.candidates.length ≤ kMaxDecisionCandidates

theorem FailoverDecision.Brief.because {n : Nat} {d : FailoverDecision} (h : d.Brief n)
    (code : ReasonCode) (detail : String) : (d.because code detail).Brief (n + 1) :=
  ⟨by
    rw [FailoverDecision.because, List.length_append]
    exact Nat.succ_le_succ h.reasons, h.candidates⟩

theorem FailoverDecision.Brief.mono {m n : Nat} {d : FailoverDecision} (h : d.Brief m)
    (hmn : m ≤ n) : d.Brief n :=
  ⟨h.reasons.trans hmn, h.candidates⟩

/-- A decision with few reasons and no candidates. -/
theorem FailoverDecision.Brief.few {n : Nat} {d : FailoverDecision} (hr : d.reasons.length ≤ n)
    (hc : d.candidates = []) : d.Brief n :=
  ⟨hr, by rw [hc]; exact Nat.zero_le _⟩

/-- What an operation answers with. A reason may come on top when the decision is written. -/
def BriefResult : Result FailoverDecision → Prop
  | .error s => s.Brief
  | .ok d => d.Brief (kMaxReasons + 2)

def FailoverPlan.Brief : FailoverPlan → Prop
  | .fail s => s.Brief
  | .replay d | .settle d _ | .record d _ | .grant d _ => d.Brief (kMaxReasons + 1)

namespace Engine

variable {e : Engine} {req : FailoverRequest} {d : FailoverDecision}

theorem commitDecision_brief {n : Nat} (h : d.Brief n) : (e.commitDecision d).2.Brief (n + 1) := by
  unfold commitDecision
  dsimp only
  split
  · exact FailoverDecision.Brief.because (d := { d with durable := false })
      ⟨h.reasons, h.candidates⟩ _ _
  · exact ⟨h.reasons.trans (Nat.le_succ n), h.candidates⟩

theorem settleUndurable_brief (h : d.Brief (kMaxReasons + 1)) :
    BriefResult (e.settleUndurable d).2 :=
  ⟨h.reasons.trans (Nat.le_succ _), h.candidates⟩

theorem settle_brief {durable : Bool} {key : Digest} (h : d.Brief (kMaxReasons + 1)) :
    BriefResult (e.settle d durable key).2 := by
  unfold settle
  split
  · exact commitDecision_brief h
  · exact settleUndurable_brief h

theorem answer_brief (h : d.Brief (kMaxReasons + 1)) : BriefResult (e.answer d).2 :=
  commitDecision_brief h

theorem answerAndCheckpoint_brief (h : d.Brief (kMaxReasons + 1)) :
    BriefResult (e.answerAndCheckpoint d).2 :=
  commitDecision_brief h

theorem afterWrite_brief {written : LineageStore × Status} {detail : String}
    {k : Engine → Engine × Result FailoverDecision} (h : ∀ e, BriefResult (k e).2) :
    BriefResult (e.afterWrite written detail k).2 := by
  unfold afterWrite
  split
  · exact Status.brief_failure
  · exact h _

theorem execute_brief {plan : FailoverPlan} (h : plan.Brief) :
    BriefResult (e.execute req plan).2 := by
  cases plan with
  | fail s => exact h
  | replay d => exact h.mono (Nat.le_succ _)
  | settle d durable => exact settle_brief h
  | record d r => exact afterWrite_brief fun _ => @settle_brief _ d true req.idempotencyKey h
  | grant d a =>
    exact afterWrite_brief fun _ => afterWrite_brief fun _ =>
      @settle_brief _ d true req.idempotencyKey h

theorem closeAttempt_brief {evidence : Digest} {reasons : ReasonLog} (h : d.Brief kMaxReasons) :
    (e.closeAttempt req d evidence reasons).Brief := by
  unfold closeAttempt
  split
  · exact h.mono (Nat.le_succ _)
  · exact h.because _ _

theorem staleDecision_brief {x : AuthorityExpectation} {current : AuthorityVector}
    {detail : String} (hr : d.reasons = []) (hc : d.candidates = []) :
    (staleDecision d detail (compareAuthority x current)).Brief (kMaxReasons + 1) := by
  refine .few ?_ hc
  have hlength := compareAuthority_length x current
  rw [staleDecision]
  simp only [FailoverDecision.because, hr, List.length_append, List.length_map, List.length_nil,
    List.length_cons, kMaxReasons]
  omega

theorem planSelection_brief (hc : e.Checked req)
    (hp : e.state.policy.maxCandidates.toNat ≤ kMaxDecisionCandidates)
    (hr : d.reasons = []) (v : FailureVerdict) (link : LinkDefinition) :
    (e.planSelection req d v link).Brief := by
  have hcandidates : (selectReplacement (e.selectionInput req link)).assessments.length ≤
      kMaxDecisionCandidates := by
    rw [length_assessments, selectionInput, BoundedTable.sortBy_perm.length_eq, List.length_map]
    exact hc.candidates.trans hp
  unfold planSelection
  dsimp only
  split
  · exact Status.brief_failure
  split
  · refine closeAttempt_brief ⟨?_, hcandidates⟩
    refine (ReasonLog.bounded _).trans ?_
    decide
  unfold planSelected
  split
  · refine FailoverDecision.Brief.because ⟨?_, hcandidates⟩ _ _
    rw [hr]
    exact Nat.zero_le _
  split
  · exact Status.brief_failure
  split
  · exact Status.brief_failure
  · exact ⟨Nat.le_of_ble_eq_true rfl, hcandidates⟩

theorem checkRequest_brief {s : Status} (h : e.checkRequest req = some s) : s.Brief := by
  have hcandidates : ∀ {fabric subject seen cs},
      checkCandidates fabric subject seen cs = some s → s.Brief := by
    intro fabric subject seen cs h
    induction cs generalizing seen with
    | nil => cases h
    | cons c cs ih =>
      rw [checkCandidates] at h
      split at h
      · cases h
        exact Status.brief_failure
      split at h
      · cases h
        exact Status.brief_failure
      split at h
      · cases h
        exact Status.brief_failure
      · exact ih h
  unfold checkRequest at h
  split at h
  · cases h
    exact Status.brief_failure
  split at h
  · cases h
    exact Status.brief_failure
  split at h
  · cases h
    exact Status.brief_failure
  split at h
  · cases h
    exact Status.brief_failure
  · exact hcandidates h

theorem replayDecision_brief {x : IdempotencyEntry} (h : x.reasons.length ≤ kMaxReasons) :
    (e.replayDecision x).Brief (kMaxReasons + 1) := by
  refine .few ?_ rfl
  rw [replayDecision, List.length_append]
  exact Nat.succ_le_succ h

theorem planEvidence_brief (hc : e.Checked req)
    (hp : e.state.policy.maxCandidates.toNat ≤ kMaxDecisionCandidates)
    (hr : d.reasons = []) (hd : d.candidates = []) (link : LinkDefinition) :
    (e.planEvidence req d link).Brief := by
  unfold planEvidence
  dsimp only
  split
  · refine closeAttempt_brief (.few ?_ hd)
    refine (ReasonLog.bounded _).trans ?_
    decide
  · exact planSelection_brief hc hp hr _ link

theorem planFailover_brief (hp : e.state.policy.maxCandidates.toNat ≤ kMaxDecisionCandidates)
    (he : ∀ x ∈ e.state.idempotency, x.Encodable) : (e.planFailover req).Brief := by
  unfold planFailover
  split
  · rename_i s hs
    exact checkRequest_brief hs
  rename_i hcheck
  have hc := checkRequest_none hcheck
  split
  · rename_i x hx
    exact replayDecision_brief (he x (DurableState.findIdempotency_some hx).1).reasons
  unfold planSubject
  split
  · exact Status.brief_failure
  split
  · exact Status.brief_failure
  unfold planExpectation
  dsimp only
  split
  · have h := @staleDecision_brief (e.baseDecision req.subject req.subjectGeneration)
      req.expected (e.currentAuthority req.subject req.subjectGeneration)
      "the request binds authority that is no longer current" rfl rfl
    exact ⟨h.reasons, h.candidates⟩
  split
  · exact FailoverDecision.Brief.few (Nat.le_of_ble_eq_true rfl) rfl
  unfold planAuthority
  split
  · exact FailoverDecision.Brief.few (Nat.le_of_ble_eq_true rfl) rfl
  unfold planRevalidation
  split
  · exact planEvidence_brief hc hp rfl rfl _
  split
  · dsimp only
    split
    · exact FailoverDecision.Brief.few (Nat.le_of_ble_eq_true rfl) rfl
    · exact FailoverDecision.Brief.few (Nat.le_of_ble_eq_true rfl) rfl
  · exact planEvidence_brief hc hp rfl rfl _

theorem recordApplication_brief (report : ApplicationReport) :
    BriefResult (e.recordApplication report).2 := by
  refine recordApplication_cases (P := fun out => BriefResult out.2)
    (fun _ hs => unavailable_brief hs) (fun _ _ => Status.brief_failure) fun found _ _ => ?_
  refine recordFound_cases (P := fun out => BriefResult out.2) ?_
    (fun _ _ _ => settleUndurable_brief (.few (Nat.le_of_ble_eq_true rfl) rfl)) fun _ _ _ _ _ => ?_
  · exact fun _ _ _ _ => Status.brief_failure
  · refine afterWrite_brief fun _ => answerAndCheckpoint_brief ?_
    unfold applyAttempt
    dsimp only
    split
    · exact .few (Nat.le_of_ble_eq_true rfl) rfl
    · exact .few (Nat.le_of_ble_eq_true rfl) rfl

theorem recordVerification_brief (report : VerificationReport) :
    BriefResult (e.recordVerification report).2 := by
  refine recordVerification_cases (P := fun out => BriefResult out.2)
    (fun _ hs => unavailable_brief hs) (fun _ _ => Status.brief_failure) fun found _ _ => ?_
  refine verifyFound_cases (P := fun out => BriefResult out.2) ?_
    (fun _ _ _ => settleUndurable_brief (.few (Nat.le_of_ble_eq_true rfl) rfl))
    (fun _ _ _ => settleUndurable_brief (.few (Nat.le_of_ble_eq_true rfl) rfl))
    (fun _ _ _ => ?_) fun _ _ _ => ?_
  · exact fun _ _ _ _ => Status.brief_failure
  · exact afterWrite_brief fun _ => answer_brief (.few (Nat.le_of_ble_eq_true rfl) rfl)
  · exact afterWrite_brief fun _ => afterWrite_brief fun _ =>
      answerAndCheckpoint_brief (.few (Nat.le_of_ble_eq_true rfl) rfl)

theorem requestRollback_brief (he : ∀ x ∈ e.state.idempotency, x.Encodable)
    (req : RollbackRequest) : BriefResult (e.requestRollback req).2 := by
  refine requestRollback_cases (P := fun out => BriefResult out.2) (fun _ => Status.brief_failure)
    (fun x _ hx => ?_) (fun _ _ _ => Status.brief_failure) fun found _ _ _ => ?_
  · exact (replayDecision_brief (he x (DurableState.findIdempotency_some hx).1).reasons).mono
      (Nat.le_succ _)
  refine rollbackFound_cases (P := fun out => BriefResult out.2)
    (fun _ _ => settleUndurable_brief (staleDecision_brief rfl rfl))
    (fun _ _ _ => settleUndurable_brief (.few (Nat.le_of_ble_eq_true rfl) rfl))
    (fun _ _ _ => settleUndurable_brief (.few (Nat.le_of_ble_eq_true rfl) rfl)) fun _ _ => ?_
  exact afterWrite_brief fun _ => afterWrite_brief fun _ =>
    commitDecision_brief (.few (Nat.le_of_ble_eq_true rfl) rfl)

theorem resolveInterrupted_brief (req : RevalidationRequest) :
    BriefResult (e.resolveInterrupted req).2 := by
  refine resolveInterrupted_cases (P := fun out => BriefResult out.2)
    (fun _ => Status.brief_failure) ?_ (fun _ _ _ _ => Status.brief_failure) fun found _ _ _ _ => ?_
  · exact fun _ _ _ _ => Status.brief_failure
  refine resolveFound_cases (P := fun out => BriefResult out.2)
    (fun _ => settleUndurable_brief (.few ?_ ?_))
    (fun _ _ _ => settleUndurable_brief (.few (Nat.le_of_ble_eq_true rfl) rfl)) fun _ _ _ => ?_
  · unfold settledDecision
    dsimp only
    split <;> exact Nat.le_of_ble_eq_true rfl
  · unfold settledDecision
    dsimp only
    split <;> rfl
  · refine afterWrite_brief fun _ => answer_brief ?_
    have hverdict : (e.advance.verdictDecision found req.verdict).reasons.length ≤ 3 ∧
        (e.advance.verdictDecision found req.verdict).candidates = [] := by
      unfold verdictDecision
      cases req.verdict with
      | notApplied | unknown | undeclared => exact ⟨Nat.le_of_ble_eq_true rfl, rfl⟩
      | applied =>
        dsimp only
        split <;> split <;> exact ⟨Nat.le_of_ble_eq_true rfl, rfl⟩
    refine .few ?_ hverdict.2
    rw [revalidationDecision]
    simp only [FailoverDecision.because, List.length_append, List.length_cons, List.length_nil,
      kMaxReasons]
    have := hverdict.1
    omega

end Engine

/-! ## What fits -/

/-- The state of a process is one that it came to, also behind a failure, or it is closed and shows
an empty one. -/
theorem Reachable.lived {e : Engine} (h : Reachable e) :
    e.state.policy.maxCandidates.toNat ≤ kMaxDecisionCandidates ∧
      ∀ x ∈ e.state.idempotency, x.Encodable := by
  obtain ⟨actions, he⟩ := h
  cases hopen : e.closed with
  | true =>
    rw [(Reachable.ok ⟨actions, he⟩).shut hopen]
    exact ⟨by decide, fun x hx => by cases hx⟩
  | false =>
    obtain ⟨history, o, j, -, ht⟩ := System.run_lived he hopen
    have hs := ht.stateOk
    exact ⟨Engine.maxCandidates_le hs.policy, hs.idempotency⟩

/-- What a session has to send for a frame that was admitted. -/
def Engine.respond (e : Engine) (f : Frame) : Served :=
  match f.request with
  | .error status => ⟨e, status, []⟩
  | .ok request => e.serve request

/-- What the answer to an inspection takes. -/
def Engine.inspectionSize (e : Engine) (limit : Nat) : Nat :=
  209 + e.options.fabric.value.length +
    (((BoundedTable.sortBy recentAttemptLess e.state.attempts).take limit).map
      AttemptRecord.size).sum +
    (((BoundedTable.sortBy recentFenceLess e.state.fences).take limit).map FenceRecord.size).sum

theorem envelope_le {op : UInt16} {status : Status} (h : status.Brief) :
    (Writer.run (encodeResponseEnvelope op status)).length ≤ 4000 := by
  have hreasons : Writer.AtMost (encodeReasons status.reasons) (4 + (24 * 166 + 0)) :=
    .cons (.u32 _) <| .cons ((Writer.AtMost.each _ reasonAtMost).mono
      (Nat.mul_le_mul_right _ h)) .nil
  have hall : Writer.AtMost (encodeResponseEnvelope op status) _ :=
    .cons (.u16 _) <| .cons (.u16 _) <| .cons (.u16 _) <| .cons hreasons .nil
  exact hall.run.trans (by decide)

theorem decision_le {d : FailoverDecision} (h : d.Brief (kMaxReasons + 2)) :
    (Writer.run d.encode).length ≤ 200000 := by
  have hrun := d.atMost.run
  have hr : d.reasons.length ≤ 26 := h.reasons
  have hc : d.candidates.length ≤ 256 := h.candidates
  omega

theorem ApplyDirective.atMost (d : ApplyDirective) : Writer.AtMost d.encode 1100 := by
  have h : Writer.AtMost d.encode _ :=
    .cons (.u16 _) <| .cons (nameAtMost _) <| .cons (nameAtMost _) <| .cons (uintAtMost _) <|
      .cons (nameAtMost _) <| .cons (nameAtMost _) <| .cons (uintAtMost _) <|
      .cons (uintAtMost _) <| .cons (.fixed _) <| .cons d.authority.atMost <| .cons (.u64 _) .nil
  exact h.mono (by decide)

theorem claim_le {e : Engine} {maxCount : Nat} (h : maxCount ≤ 64) :
    (Writer.run (encodeClaimResponse (e.pendingDirectives maxCount))).length ≤ 200000 := by
  have hcount : (e.pendingDirectives maxCount).length ≤ 64 := by
    unfold Engine.pendingDirectives
    split
    · exact Nat.zero_le _
    · rw [List.length_map]
      exact (List.length_take_le _ _).trans ((Nat.min_le_left _ _).trans h)
  have hall : Writer.AtMost (encodeClaimResponse (e.pendingDirectives maxCount)) _ :=
    .cons (.u16 _) <| .cons (.u32 _) <| .cons ((Writer.AtMost.each _ ApplyDirective.atMost).mono
      (Nat.mul_le_mul_right _ hcount)) .nil
  exact hall.run.trans (by decide)

/-- What the decoder of a request admits. -/
def Request.Decoded : Request → Prop
  | .operate op => op ≠ .checkpoint ∧ op ≠ .close
  | .inspect limit => limit ≤ 256
  | .claim maxCount => maxCount ≤ 64
  | .ping | .shutdown => True

theorem readBody_ok {α : Type} {p : Parser α} {body : Bytes} {what : String} {ask : α → Request}
    {request : Request} (h : readBody p body what ask = .ok request) :
    ∃ a, p.whole body = some a ∧ request = ask a := by
  unfold readBody at h
  split at h
  · cases h
  · rename_i a ha
    cases h
    exact ⟨a, ha, rfl⟩

theorem decodeCount_bound {bound : UInt32 → Bool} {body : Bytes} {n : Nat}
    (h : (decodeCount bound).whole body = some n) : ∃ v : UInt32, bound v = true ∧ n = v.toNat := by
  obtain ⟨rest, h⟩ : ∃ rest, decodeCount bound body = some (n, rest) := by
    unfold Parser.whole at h
    split at h
    · rename_i a hd
      cases h
      exact ⟨_, hd⟩
    · cases h
  obtain ⟨⟨version, mid⟩, -, h⟩ := Option.bind_eq_some_iff.mp h
  obtain ⟨⟨v, mid⟩, -, h⟩ := Option.bind_eq_some_iff.mp h
  obtain ⟨⟨_, mid⟩, -, h⟩ := Option.bind_eq_some_iff.mp h
  obtain ⟨⟨_, mid⟩, hbound, h⟩ := Option.bind_eq_some_iff.mp h
  cases h
  refine ⟨v, ?_, rfl⟩
  unfold Parser.require at hbound
  split at hbound
  · assumption
  · cases hbound

theorem parseRequest_decoded {type : MessageType} {body : Bytes} {request : Request}
    (h : parseRequest type body = .ok request) : request.Decoded := by
  cases type with
  | inspect =>
    obtain ⟨n, hn, rfl⟩ := readBody_ok h
    obtain ⟨v, hv, rfl⟩ := decodeCount_bound hn
    exact UInt32.le_iff_toNat_le.mp (of_decide_eq_true hv)
  | claimDirective =>
    obtain ⟨n, hn, rfl⟩ := readBody_ok h
    obtain ⟨v, hv, rfl⟩ := decodeCount_bound hn
    rw [Bool.and_eq_true] at hv
    exact UInt32.le_iff_toNat_le.mp (of_decide_eq_true hv.2)
  | ping | shutdown =>
    cases h
    trivial
  | hello | helloAck | response => cases h
  | publishFailure | publishReplacement | setPolicy | setTopology | requestFailover
  | requestRollback | reportApplication | reportVerification | resolveInterrupted =>
    obtain ⟨a, -, rfl⟩ := readBody_ok h
    exact ⟨Operation.noConfusion, Operation.noConfusion⟩

theorem parseRequest_brief {type : MessageType} {body : Bytes} {status : Status}
    (h : parseRequest type body = .error status) : status.Brief := by
  have hbody : ∀ {α : Type} {p : Parser α} {what : String} {ask : α → Request},
      readBody p body what ask = .error status → status.Brief := by
    intro α p what ask h
    unfold readBody at h
    split at h
    · cases h
      exact Status.brief_failure
    · cases h
  cases type with
  | ping | shutdown => cases h
  | hello | helloAck | response =>
    cases h
    exact Status.brief_failure
  | inspect | claimDirective | publishFailure | publishReplacement | setPolicy | setTopology
  | requestFailover | requestRollback | reportApplication | reportVerification
  | resolveInterrupted => exact hbody h

section Serving

variable {e : Engine} {type : MessageType}

/-- What an operation is answered with takes less than a frame. -/
theorem serve_operate_le (h : Reachable e) {op : Operation} (hop : (Request.operate op).Decoded) :
    (Writer.run (encodeResponseEnvelope type.code (e.serve (.operate op)).status)).length +
      (e.serve (.operate op)).body.length ≤ 262144 := by
  obtain ⟨hp, he⟩ := h.lived
  have hstatus : ∀ {status : Status}, status.Brief →
      (Writer.run (encodeResponseEnvelope type.code status)).length + ([] : Bytes).length ≤
        262144 := fun hs => (envelope_le hs).trans (by decide)
  have hdecision : ∀ r : Engine × Result FailoverDecision, BriefResult r.2 →
      e.perform op = r.map id .decision →
      (Writer.run (encodeResponseEnvelope type.code (e.serve (.operate op)).status)).length +
        (e.serve (.operate op)).body.length ≤ 262144 := by
    rintro ⟨e', status | d⟩ hr hperform
    · rw [Engine.serve, hperform]
      exact hstatus hr
    · rw [Engine.serve, hperform]
      have h1 := @envelope_le type.code { outcome := d.outcome } (Nat.zero_le _)
      have h2 := decision_le hr
      dsimp only [Prod.map]
      omega
  cases op with
  | publishFailure report => exact hstatus (Engine.publish_brief Engine.failureReports report)
  | publishReplacement report =>
    exact hstatus (Engine.publish_brief Engine.replacementReports report)
  | setPolicy policy => exact hstatus (Engine.setPolicy_brief policy)
  | setTopology topology => exact hstatus (Engine.setTopology_brief topology)
  | checkpoint => exact absurd rfl hop.1
  | close => exact absurd rfl hop.2
  | requestFailover req =>
    have hr : BriefResult (e.requestFailover req).2 := by
      unfold Engine.requestFailover
      split
      · rename_i s hs
        exact Engine.unavailable_brief hs
      · exact Engine.execute_brief (Engine.planFailover_brief hp he)
    exact hdecision _ hr rfl
  | recordApplication report => exact hdecision _ (Engine.recordApplication_brief report) rfl
  | recordVerification report => exact hdecision _ (Engine.recordVerification_brief report) rfl
  | requestRollback req => exact hdecision _ (Engine.requestRollback_brief he req) rfl
  | resolveInterrupted req => exact hdecision _ (Engine.resolveInterrupted_brief req) rfl

/-- An inspection takes what it lists and its fixed fields. -/
theorem serve_inspect_length (limit : Nat) :
    (Writer.run (encodeResponseEnvelope type.code (e.serve (.inspect limit)).status)).length +
      (e.serve (.inspect limit)).body.length = e.inspectionSize limit := by
  have hbody := (e.inspect limit).takes.run
  have henvelope : (Writer.run (encodeResponseEnvelope type.code .success)).length = 10 := rfl
  change (Writer.run (encodeResponseEnvelope type.code .success)).length +
    (Writer.run (e.inspect limit).encode).length = _
  rw [henvelope, hbody, Engine.inspectionSize]
  simp only [Engine.inspect]
  omega

end Serving

/-- What is to be sent for a frame fits, unless it is an inspection whose attempts and fences take
more than a frame together. -/
theorem respond_iff {e : Engine} (h : Reachable e) (f : Frame) :
    (Writer.run (encodeResponseEnvelope f.header.type.code (e.respond f).status)).length +
        (e.respond f).body.length ≤ 262144 ↔
      ∀ limit, f.request = .ok (.inspect limit) → e.inspectionSize limit ≤ 262144 := by
  rw [Engine.respond]
  cases hf : f.request with
  | error status =>
    refine iff_of_true ?_ (by simp)
    exact (envelope_le (parseRequest_brief hf)).trans (by decide)
  | ok request =>
    have hd := parseRequest_decoded hf
    cases request with
    | operate op => exact iff_of_true (serve_operate_le h hd) (by simp)
    | inspect limit =>
      rw [serve_inspect_length]
      simp
    | claim maxCount =>
      refine iff_of_true ?_ (by simp)
      have h1 := @envelope_le f.header.type.code .success (Nat.zero_le _)
      have h2 := @claim_le e maxCount hd
      exact (Nat.add_le_add h1 h2).trans (by decide)
    | ping =>
      refine iff_of_true ?_ (by simp)
      have hbody : Writer.Takes (Writer.fields
          [.u16 kWireProtocolVersion, .uint e.epoch, .fixed e.incarnation]) 26 :=
        .cons (.u16 _) <| .cons (uintTakes _) <| .cons (.fixed _) .nil
      exact (Nat.add_le_add (@envelope_le f.header.type.code .success (Nat.zero_le _))
        hbody.run.le).trans (by decide)
    | shutdown =>
      refine iff_of_true ?_ (by simp)
      exact (@envelope_le f.header.type.code .success (Nat.zero_le _)).trans (by decide)

end LinkFailover
