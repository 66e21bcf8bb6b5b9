import LinkFailover.Atomicity
import LinkFailover.Client
import LinkFailover.Lib.Rejections

/-!
# What a client is told

The answer of the engine goes through an encoder and a decoder on its way to the caller. What comes
out at the other end is what the engine answered, with one exception: an error of the engine has no
body, and the client adds that none was there.

* `ListedResult`: the assessments of every decision can be written.
* `Engine.serve_brief`: every status fits into its envelope.
* `Engine.tells`: what the caller is told, from what the engine answers.
* `finish_reply`: the detour over the wire comes to the same.
-/

namespace LinkFailover

open Codec

/-! ## The assessments of a decision -/

/-- Every assessment of a decision can be written and read back. -/
def FailoverDecision.Listed (d : FailoverDecision) : Prop := ∀ a ∈ d.candidates, a.Encodable

theorem FailoverDecision.listed_of_nil {d : FailoverDecision} (h : d.candidates = []) :
    d.Listed := by
  rw [Listed, h]
  exact List.forall_mem_nil _

def ListedResult : Result FailoverDecision → Prop
  | .error _ => True
  | .ok d => d.Listed

def FailoverPlan.Listed : FailoverPlan → Prop
  | .fail _ => True
  | .replay d | .settle d _ | .record d _ | .grant d _ => d.Listed

namespace Engine

variable {e : Engine} {req : FailoverRequest} {d : FailoverDecision}

theorem commitDecision_listed (h : d.Listed) : (e.commitDecision d).2.Listed := by
  unfold commitDecision
  dsimp only
  split
  · exact h
  · exact h

theorem settle_listed {durable : Bool} {key : Digest} (h : d.Listed) :
    ListedResult (e.settle d durable key).2 := by
  unfold settle
  split
  · exact commitDecision_listed h
  · exact h

theorem answer_listed (h : d.Listed) : ListedResult (e.answer d).2 := commitDecision_listed h

theorem answerAndCheckpoint_listed (h : d.Listed) : ListedResult (e.answerAndCheckpoint d).2 :=
  commitDecision_listed h

theorem afterWrite_listed {written : LineageStore × Status} {detail : String}
    {k : Engine → Engine × Result FailoverDecision} (h : ∀ e, ListedResult (k e).2) :
    ListedResult (e.afterWrite written detail k).2 := by
  unfold afterWrite
  split
  · trivial
  · exact h _

theorem execute_listed {plan : FailoverPlan} (h : plan.Listed) :
    ListedResult (e.execute req plan).2 := by
  cases plan with
  | fail s => trivial
  | replay d => exact h
  | settle d durable => exact settle_listed h
  | record d r => exact afterWrite_listed fun _ => @settle_listed _ d true req.idempotencyKey h
  | grant d a =>
    exact afterWrite_listed fun _ => afterWrite_listed fun _ =>
      @settle_listed _ d true req.idempotencyKey h

theorem closeAttempt_listed {evidence : Digest} {reasons : ReasonLog} (h : d.Listed) :
    (e.closeAttempt req d evidence reasons).Listed := by
  unfold closeAttempt
  split
  · exact h
  · exact h

theorem planEvidence_listed (hr : Ready True e) (hd : d.candidates = []) (link : LinkDefinition) :
    (e.planEvidence req d link).Listed := by
  have ha : ∀ v, (e.assessedDecision req d v link).Listed := fun v a ha =>
    assessments_encodable hr trivial link ha
  unfold planEvidence
  dsimp only
  split
  · exact closeAttempt_listed (FailoverDecision.listed_of_nil hd)
  unfold planSelection
  dsimp only
  split
  · trivial
  split
  · exact closeAttempt_listed (ha (e.evaluateFailure req.subject req.subjectGeneration))
  unfold planSelected
  split
  · exact ha (e.evaluateFailure req.subject req.subjectGeneration)
  split
  · trivial
  split
  · trivial
  · exact ha (e.evaluateFailure req.subject req.subjectGeneration)

theorem planFailover_listed (hr : Ready True e) : (e.planFailover req).Listed := by
  have hnil : ∀ {d : FailoverDecision}, d.candidates = [] → d.Listed :=
    FailoverDecision.listed_of_nil
  unfold planFailover
  split
  · trivial
  split
  · exact hnil rfl
  unfold planSubject
  split
  · trivial
  split
  · trivial
  unfold planExpectation
  dsimp only
  split
  · exact hnil rfl
  split
  · exact hnil rfl
  unfold planAuthority
  split
  · exact hnil rfl
  unfold planRevalidation
  split
  · exact planEvidence_listed hr rfl _
  split
  · dsimp only
    split
    · exact hnil rfl
    · exact hnil rfl
  · exact planEvidence_listed hr rfl _

theorem requestFailover_listed (h : EngineOk True e) (req : FailoverRequest) :
    ListedResult (e.requestFailover req).2 := by
  unfold requestFailover
  split
  · trivial
  · rename_i hu
    have hf := not_failed_of_available h hu
    exact execute_listed (planFailover_listed (ready (h.leads advance_leads) hf))

theorem recordApplication_listed (report : ApplicationReport) :
    ListedResult (e.recordApplication report).2 := by
  refine recordApplication_cases (P := fun out => ListedResult out.2) (fun _ _ => trivial)
    (fun _ _ => trivial) fun found _ _ => ?_
  refine recordFound_cases (P := fun out => ListedResult out.2) (fun _ _ _ _ => trivial)
    (fun _ _ _ => FailoverDecision.listed_of_nil rfl) fun _ _ _ _ _ => ?_
  refine afterWrite_listed fun _ => answerAndCheckpoint_listed ?_
  unfold applyAttempt
  dsimp only
  split
  · exact FailoverDecision.listed_of_nil rfl
  · exact FailoverDecision.listed_of_nil rfl

theorem recordVerification_listed (report : VerificationReport) :
    ListedResult (e.recordVerification report).2 := by
  refine recordVerification_cases (P := fun out => ListedResult out.2) (fun _ _ => trivial)
    (fun _ _ => trivial) fun found _ _ => ?_
  refine verifyFound_cases (P := fun out => ListedResult out.2) (fun _ _ _ _ => trivial)
    (fun _ _ _ => FailoverDecision.listed_of_nil rfl)
    (fun _ _ _ => FailoverDecision.listed_of_nil rfl) (fun _ _ _ => ?_) fun _ _ _ => ?_
  · exact afterWrite_listed fun _ => answer_listed (FailoverDecision.listed_of_nil rfl)
  · exact afterWrite_listed fun _ => afterWrite_listed fun _ =>
      answerAndCheckpoint_listed (FailoverDecision.listed_of_nil rfl)

theorem requestRollback_listed (req : RollbackRequest) :
    ListedResult (e.requestRollback req).2 := by
  refine requestRollback_cases (P := fun out => ListedResult out.2) (fun _ => trivial)
    (fun _ _ _ => FailoverDecision.listed_of_nil rfl) (fun _ _ _ => trivial) fun found _ _ _ => ?_
  refine rollbackFound_cases (P := fun out => ListedResult out.2)
    (fun _ _ => FailoverDecision.listed_of_nil rfl)
    (fun _ _ _ => FailoverDecision.listed_of_nil rfl)
    (fun _ _ _ => FailoverDecision.listed_of_nil rfl) fun _ _ => ?_
  exact afterWrite_listed fun _ => afterWrite_listed fun _ =>
    commitDecision_listed (FailoverDecision.listed_of_nil rfl)

theorem resolveInterrupted_listed (req : RevalidationRequest) :
    ListedResult (e.resolveInterrupted req).2 := by
  refine resolveInterrupted_cases (P := fun out => ListedResult out.2) (fun _ => trivial)
    (fun _ _ _ _ => trivial) (fun _ _ _ _ => trivial) fun found _ _ _ _ => ?_
  refine resolveFound_cases (P := fun out => ListedResult out.2)
    (fun _ => FailoverDecision.listed_of_nil ?_) (fun _ _ _ => FailoverDecision.listed_of_nil rfl)
    fun _ _ _ => ?_
  · unfold settledDecision
    dsimp only
    split <;> rfl
  · refine afterWrite_listed fun _ => answer_listed (FailoverDecision.listed_of_nil ?_)
    change (e.advance.verdictDecision found req.verdict).candidates = []
    unfold verdictDecision
    cases req.verdict with
    | notApplied | unknown | undeclared => rfl
    | applied =>
      dsimp only
      split <;> split <;> rfl

end Engine

/-! ## Statuses -/

namespace Engine

variable {e : Engine}

/-- Every status that the engine answers with fits into an envelope. -/
theorem serve_brief (h : Reachable e) {request : Request} (hd : request.Decoded) :
    (e.serve request).status.Brief := by
  obtain ⟨hp, he⟩ := h.lived
  have hdecision : ∀ r : Engine × Result FailoverDecision, BriefResult r.2 → ∀ op,
      e.perform op = r.map id .decision → (e.serve (.operate op)).status.Brief := by
    rintro ⟨e', status | d⟩ hr op hperform
    · rw [Engine.serve, hperform]
      exact hr
    · rw [Engine.serve, hperform]
      exact Nat.zero_le _
  cases request with
  | inspect | claim | ping | shutdown => exact Status.brief_success
  | operate op =>
    cases op with
    | publishFailure report => exact publish_brief failureReports report
    | publishReplacement report => exact publish_brief replacementReports report
    | setPolicy policy => exact setPolicy_brief policy
    | setTopology topology => exact setTopology_brief topology
    | checkpoint => exact absurd rfl hd.1
    | close => exact absurd rfl hd.2
    | requestFailover req =>
      have hr : BriefResult (e.requestFailover req).2 := by
        unfold requestFailover
        split
        · rename_i s hs
          exact unavailable_brief hs
        · exact execute_brief (planFailover_brief hp he)
      exact hdecision _ hr _ rfl
    | recordApplication report => exact hdecision _ (recordApplication_brief report) _ rfl
    | recordVerification report => exact hdecision _ (recordVerification_brief report) _ rfl
    | requestRollback req => exact hdecision _ (requestRollback_brief he req) _ rfl
    | resolveInterrupted req => exact hdecision _ (resolveInterrupted_brief req) _ rfl

end Engine

/-! ## Reading a status back -/

/-- The reasons of an envelope are put back one after the other. -/
theorem CallResult.toStatus_eq {r : CallResult} (h : r.reasons.length ≤ kMaxReasons) :
    r.toStatus = ⟨r.outcome, r.reasons⟩ := by
  have hfold : ∀ (xs : List Reason) (s : Status), s.reasons.length + xs.length ≤ kMaxReasons →
      xs.foldl (fun s x => s.add x.code x.detail) s = { s with reasons := s.reasons ++ xs } := by
    intro xs
    induction xs with
    | nil => intro s _; simp
    | cons x xs ih =>
      intro s hs
      rw [List.length_cons] at hs
      have hlt : s.reasons.length < kMaxReasons := by omega
      rw [List.foldl_cons, Status.add, if_pos hlt, Reason.of_detail, ih]
      · simp
      · rw [List.length_append, List.length_singleton]
        omega
  exact hfold r.reasons { outcome := r.outcome } (by simpa using h)

namespace CallResult

variable {α : Type} {r : CallResult} {p : Parser α} {missing : String} {a : α}

/-- What is read from the whole body. A parser that needs bytes finds none in a missing one. -/
theorem take_ok (hp : p.whole [] = none) (h : p.whole r.body = some a) :
    r.take p missing = .ok a := by
  have hb : ¬ r.body.isEmpty = true := by
    intro hb
    rw [List.isEmpty_iff.mp hb, hp] at h
    cases h
  rw [take, if_neg hb, h]

theorem take_missing (h : p.whole r.body = none) :
    r.take p missing = .error (r.toStatus.add .malformedEncoding (text missing)) := by
  have hnone : (if r.body.isEmpty then none else p.whole r.body) = none := by
    rw [h, ite_self]
  rw [take, hnone]

end CallResult

/-! ## Calls -/

namespace Call

/-- What a caller has to keep to, so that the coordinator takes the call as it is meant. -/
def Within : Call → Prop
  | publishFailureReport report => Plausible report.state report.confidence
  | publishReplacementReport report => Plausible report.state report.confidence
  | setPolicy policy => WireEnum.Declared policy.agreement
  | ping | shutdownServer => True
  | setTopology topology => topology.links.length ≤ kMaxTopologyLinks
  | requestFailover request =>
    request.subject.empty = false ∧ request.candidates.length ≤ kMaxPolicyCandidates.toNat
  | requestRollback request => request.subject.empty = false ∧ request.rationale.length ≤ 256
  | recordApplication report => report.subject.empty = false ∧ report.detail.length ≤ 256
  | recordVerification report => report.subject.empty = false ∧ report.detail.length ≤ 256
  | resolveInterrupted request => request.subject.empty = false ∧
      request.rationale.length ≤ 256 ∧ WireEnum.Declared request.verdict
  | inspect historyLimit => historyLimit ≤ 256
  | claimDirectives maxCount => maxCount ≠ 0 ∧ maxCount ≤ 64

/-- The request that a call stands for. -/
def request : Call → Request
  | publishFailureReport report => .operate (.publishFailure report)
  | publishReplacementReport report => .operate (.publishReplacement report)
  | setPolicy policy => .operate (.setPolicy policy)
  | setTopology topology => .operate (.setTopology topology)
  | requestFailover request => .operate (.requestFailover request)
  | requestRollback request => .operate (.requestRollback request)
  | recordApplication report => .operate (.recordApplication report)
  | recordVerification report => .operate (.recordVerification report)
  | resolveInterrupted request => .operate (.resolveInterrupted request)
  | inspect historyLimit => .inspect historyLimit
  | claimDirectives maxCount => .claim maxCount
  | ping => .ping
  | shutdownServer => .shutdown

end Call

theorem readBody_roundTrip {α : Type} {f : Writer → Writer} {p : Parser α} {a : α}
    (h : RoundTrip f p a) (what : String) (ask : α → Request) :
    readBody p (Writer.run f) what ask = .ok (ask a) := by
  rw [readBody, h.whole]

theorem decodeCount_roundTrip {n : Nat} {bound : UInt32 → Bool} (h32 : n < 2 ^ 32)
    (hb : bound (UInt32.ofNat n) = true) :
    RoundTrip (encodeCount n) (decodeCount bound) n := by
  have hn : (UInt32.ofNat n).toNat = n := by rw [UInt32.toNat_ofNat', Nat.mod_eq_of_lt h32]
  refine .cons (.u16 _) ?_
  refine .cons (.u32 _) ?_
  refine .require (by decide) ?_
  refine .require hb ?_
  rw [hn]
  exact .nil n

/-- A call within its limits is understood. -/
theorem Call.parse {call : Call} (h : call.Within) :
    parseRequest call.type call.body = .ok call.request := by
  have hle : ∀ {n m : Nat}, n ≤ m → m < 2 ^ 32 → n < 2 ^ 32 := fun h => Nat.lt_of_le_of_lt h
  unfold Call.type Call.body Call.request parseRequest
  cases call with
  | publishFailureReport report => exact readBody_roundTrip (FailureReport.roundTrip report h) _ _
  | publishReplacementReport report =>
    exact readBody_roundTrip (ReplacementReport.roundTrip report h) _ _
  | setPolicy policy => exact readBody_roundTrip (FailoverPolicy.roundTrip policy h) _ _
  | setTopology topology => exact readBody_roundTrip (TopologySnapshot.roundTrip topology h) _ _
  | requestFailover request => exact readBody_roundTrip (FailoverRequest.roundTrip h.1 h.2) _ _
  | requestRollback request => exact readBody_roundTrip (RollbackRequest.roundTrip h.1 h.2) _ _
  | recordApplication report => exact readBody_roundTrip (ApplicationReport.roundTrip h.1 h.2) _ _
  | recordVerification report =>
    exact readBody_roundTrip (VerificationReport.roundTrip h.1 h.2) _ _
  | resolveInterrupted request =>
    exact readBody_roundTrip (RevalidationRequest.roundTrip h.1 h.2.1 h.2.2) _ _
  | inspect n =>
    refine readBody_roundTrip (decodeCount_roundTrip (hle h (by decide)) ?_) _ _
    rw [decide_eq_true_eq, UInt32.le_iff_toNat_le, UInt32.toNat_ofNat',
      Nat.mod_eq_of_lt (hle h (by decide))]
    exact h
  | claimDirectives n =>
    obtain ⟨hne, h64⟩ := h
    have hn : (UInt32.ofNat n).toNat = n := by
      rw [UInt32.toNat_ofNat', Nat.mod_eq_of_lt (hle h64 (by decide))]
    refine readBody_roundTrip (decodeCount_roundTrip (hle h64 (by decide)) ?_) _ _
    rw [Bool.and_eq_true, decide_eq_true_eq, decide_eq_true_eq, UInt32.le_iff_toNat_le, hn]
    refine ⟨fun h0 => hne ?_, h64⟩
    rw [← hn, h0]
    rfl
  | ping | shutdownServer => rfl

/-! ## What a caller is told -/

/-- What the coordinator has to say to a call. -/
def Engine.reply (e : Engine) (call : Call) : Served :=
  match parseRequest call.type call.body with
  | .error status => ⟨e, status, []⟩
  | .ok request => e.serve request

def Served.result (s : Served) : CallResult where
  outcome := s.status.outcome
  reasons := s.status.reasons
  body := s.body

def noDecision : Bytes := text "the response carried no decision"

/-- A decision arrives unless it has more reasons than its decoder takes, and an error arrives with
the remark that no decision came with it. -/
def tellDecision : Result FailoverDecision → Result FailoverDecision
  | .error s => .error (s.add .malformedEncoding noDecision)
  | .ok d =>
    if d.reasons.length ≤ kMaxDecisionReasons then .ok d.normalised
    else .error (({ outcome := d.outcome } : Status).add .malformedEncoding noDecision)

/-- What the caller is told, from what the engine answers. -/
def Engine.tells (e : Engine) : Call → CallAnswer
  | .publishFailureReport report => .status (e.publishFailureReport report).2
  | .publishReplacementReport report => .status (e.publishReplacementReport report).2
  | .setPolicy policy => .status (e.setPolicy policy).2
  | .setTopology topology => .status (e.setTopology topology).2
  | .requestFailover req => .decision (tellDecision (e.requestFailover req).2)
  | .requestRollback req => .decision (tellDecision (e.requestRollback req).2)
  | .recordApplication report => .decision (tellDecision (e.recordApplication report).2)
  | .recordVerification report => .decision (tellDecision (e.recordVerification report).2)
  | .resolveInterrupted req => .decision (tellDecision (e.resolveInterrupted req).2)
  | .inspect limit =>
    .view (if ∀ n ∈ (e.inspect limit).counts, n ≤ EngineView.kMaxViewCount then
        .ok (e.inspect limit)
      else .error (Status.success.add .malformedEncoding (text "the response carried no view")))
  | .claimDirectives maxCount => .directives (.ok (e.pendingDirectives maxCount))
  | .ping | .shutdownServer => .status .success

/-! ## The same -/

section Finishing

variable {e : Engine} {call : Call}

/-- A decision on its way to the caller. -/
theorem take_decision {op : Operation} {answer : Result FailoverDecision}
    (ha : (e.perform op).2 = .decision answer) (hl : ListedResult answer)
    (hb : BriefResult answer) :
    (e.serve (.operate op)).result.take FailoverDecision.decode "the response carried no decision" =
      tellDecision answer := by
  rw [Engine.serve]
  generalize e.perform op = performed at ha ⊢
  obtain ⟨e', answer'⟩ := performed
  cases ha
  cases answer with
  | error s =>
    refine (CallResult.take_missing rfl).trans ?_
    have hs : s.reasons.length ≤ kMaxReasons := hb
    rw [CallResult.toStatus_eq hs]
    rfl
  | ok d =>
    have hreasons : d.reasons.length < 2 ^ 32 := Nat.lt_of_le_of_lt hb.reasons (by decide)
    have hwhole := FailoverDecision.whole_eq hreasons hb.candidates hl
    rw [tellDecision]
    split at hwhole
    · rename_i hfew
      rw [if_pos hfew]
      exact CallResult.take_ok rfl hwhole
    · rename_i hmany
      rw [if_neg hmany]
      exact CallResult.take_missing hwhole

theorem take_view {limit : Nat} (hf : e.options.fabric.empty = false)
    (hw : ∀ n ∈ (e.inspect limit).counts, n < 2 ^ 64) (hl : limit ≤ 256)
    (hd : ∀ r ∈ e.state.attempts, WireEnum.Declared r.revalidation) :
    (e.serve (.inspect limit)).result.take EngineView.decode "the response carried no view" =
      if ∀ n ∈ (e.inspect limit).counts, n ≤ EngineView.kMaxViewCount then .ok (e.inspect limit)
      else
        .error (Status.success.add .malformedEncoding (text "the response carried no view")) := by
  have hshort : ∀ {α : Type} (xs : List α), (xs.take limit).length ≤ EngineView.kMaxViewRecords :=
    fun xs => (List.length_take_le _ _).trans hl
  have hwhole := EngineView.whole_eq (v := e.inspect limit) hf hw (hshort _) (hshort _) fun r hr =>
    hd r (BoundedTable.mem_sortBy.mp (List.mem_of_mem_take hr))
  split
  · rename_i h
    rw [if_pos h] at hwhole
    exact CallResult.take_ok rfl hwhole
  · rename_i h
    rw [if_neg h] at hwhole
    exact CallResult.take_missing hwhole

/-- The links of every directive are named. -/
theorem pending_named (hr : Reachable e) {maxCount : Nat} :
    ∀ d ∈ e.pendingDirectives maxCount, d.subject.empty = false ∧ d.replacement.empty = false := by
  intro d hd
  unfold Engine.pendingDirectives at hd
  split at hd
  · cases hd
  obtain ⟨r, hr', rfl⟩ := List.mem_map.mp hd
  have hm := List.mem_filter.mp (BoundedTable.mem_sortBy.mp (List.mem_of_mem_take hr'))
  have hopen := Engine.ok_open_of_attempt hr.ok hm.1
  obtain ⟨actions, he⟩ := hr
  obtain ⟨history, o, j, -, ht⟩ := System.run_lived he hopen
  refine ⟨ht.stateOk.subjects r hm.1, ?_⟩
  have hpending := hm.2
  rw [Engine.isPending, Bool.and_eq_true, Bool.not_eq_true'] at hpending
  exact hpending.2

theorem take_directives (hr : Reachable e) {maxCount : Nat} (hm : maxCount ≤ 64) :
    (e.serve (.claim maxCount)).result.take decodeClaimResponse
      "the response carried no directives" = .ok (e.pendingDirectives maxCount) := by
  have hcount : (e.pendingDirectives maxCount).length ≤ 64 := by
    unfold Engine.pendingDirectives
    split
    · exact Nat.zero_le _
    · rw [List.length_map]
      exact (List.length_take_le _ _).trans ((Nat.min_le_left _ _).trans hm)
  exact CallResult.take_ok rfl (roundTrip_claim hcount (pending_named hr)).whole

/-- The counts of a view are those of a machine. -/
def Engine.Counted (e : Engine) : Prop := ∀ limit, ∀ n ∈ (e.inspect limit).counts, n < 2 ^ 64

/-- What the coordinator says to a call within its limits, as the caller hears it, is what the
engine answers, as long as no count of a view wraps and its attempts have declared verdicts. -/
theorem finish_reply (hr : Reachable e) (hok : EngineOk True e) (hcount : e.Counted)
    (hd : ∀ r ∈ e.state.attempts, WireEnum.Declared r.revalidation) (hc : call.Within) : call.finish (.ok (e.reply call).result) = e.tells call := by
  have hreply : e.reply call = e.serve call.request := by rw [Engine.reply, Call.parse hc]
  obtain ⟨hp, he⟩ := hr.lived
  have hbrief : (CallResult.toStatus (e.reply call).result) = (e.reply call).status := by
    rw [hreply]
    exact CallResult.toStatus_eq (Engine.serve_brief hr (parseRequest_decoded (Call.parse hc)))
  rw [hreply] at hbrief ⊢
  cases call with
  | publishFailureReport | publishReplacementReport | setPolicy | setTopology | ping
  | shutdownServer => exact congrArg CallAnswer.status hbrief
  | requestFailover req =>
    have hb : BriefResult (e.requestFailover req).2 := by
      unfold Engine.requestFailover
      split
      · rename_i s hs
        exact Engine.unavailable_brief hs
      · exact Engine.execute_brief (Engine.planFailover_brief hp he)
    exact congrArg CallAnswer.decision
      (take_decision rfl (Engine.requestFailover_listed hok req) hb)
  | requestRollback req =>
    exact congrArg CallAnswer.decision
      (take_decision rfl (Engine.requestRollback_listed req) (Engine.requestRollback_brief he req))
  | recordApplication report =>
    exact congrArg CallAnswer.decision (take_decision rfl (Engine.recordApplication_listed report)
      (Engine.recordApplication_brief report))
  | recordVerification report =>
    exact congrArg CallAnswer.decision (take_decision rfl (Engine.recordVerification_listed report)
      (Engine.recordVerification_brief report))
  | resolveInterrupted req =>
    exact congrArg CallAnswer.decision (take_decision rfl (Engine.resolveInterrupted_listed req)
      (Engine.resolveInterrupted_brief req))
  | inspect limit => exact congrArg CallAnswer.view (take_view hok.fabric (hcount limit) hc hd)
  | claimDirectives n => exact congrArg CallAnswer.directives (take_directives hr hc.2)

end Finishing

end LinkFailover
