import LinkFailover.Lib.Newest
import LinkFailover.EvidenceTables

/-!
# The decisions of a boot

Every operation that answers with a decision remembers it, unless the answer was found in the
idempotency index. The memory holds the newest of them.

* `Remembers`: what an operation with an answer leaves in memory.
* `minutes`: a run, with the decisions that the boot that is up has made.
* `decisions_newest`: the memory is the end of the minutes.
-/

namespace LinkFailover

/-! ## Operations -/

/-- What makes no decision. -/
structure SameMemory (e e' : Engine) : Prop where
  decisions : e'.decisions = e.decisions
  options : e'.options = e.options

theorem SameMemory.refl (e : Engine) : SameMemory e e := ⟨rfl, rfl⟩

theorem SameMemory.trans {e e' e'' : Engine} (h : SameMemory e e') (h' : SameMemory e' e'') :
    SameMemory e e'' :=
  ⟨h'.decisions.trans h.decisions, h'.options.trans h.options⟩

/-- The memory behind an answer: a decision comes last, and an error changes nothing. -/
structure Remembers (e : Engine) (answered : Engine × Result FailoverDecision) : Prop where
  decisions : answered.1.decisions =
    match answered.2 with
    | .ok d => newest e.options.limits.maxRetainedDecisions (e.decisions ++ [d])
    | .error _ => e.decisions
  options : answered.1.options = e.options

section Answering

variable {e e' : Engine} {d : FailoverDecision} {answered : Engine × Result FailoverDecision}

theorem Remembers.failed (h : SameMemory e e') (s : Status) : Remembers e (e', .error s) :=
  ⟨h.decisions, h.options⟩

theorem Remembers.remembered (h : SameMemory e e') (d : FailoverDecision) :
    Remembers e (e'.rememberDecision d, .ok d) := by
  refine ⟨?_, h.options⟩
  change newest e'.options.limits.maxRetainedDecisions (e'.decisions ++ [d]) = _
  rw [h.decisions, h.options]

theorem Remembers.after (h : SameMemory e e') (h' : Remembers e' answered) :
    Remembers e answered := by
  refine ⟨?_, h'.options.trans h.options⟩
  rw [h'.decisions, h.decisions, h.options]

namespace Engine

theorem withWrite_memory (e : Engine) (w : LineageStore × Status) :
    SameMemory e (e.withWrite w) := ⟨rfl, rfl⟩

theorem advance_memory (e : Engine) : SameMemory e e.advance := ⟨rfl, rfl⟩

theorem commitDecision_memory (e : Engine) (d : FailoverDecision) :
    SameMemory e (e.commitDecision d).1 := by
  rw [commitDecision_store]
  exact ⟨rfl, rfl⟩

theorem commitIdempotency_memory (e : Engine) (d : FailoverDecision) (key : Digest) :
    SameMemory e (e.commitIdempotency d key) := by
  unfold commitIdempotency
  split
  · exact .refl e
  dsimp only
  split
  · exact .refl e
  · exact ⟨rfl, rfl⟩

theorem maybeCheckpoint_memory (e : Engine) : SameMemory e e.maybeCheckpoint := by
  unfold maybeCheckpoint
  split
  · exact .refl e
  split
  · exact .refl e
  split
  · exact .refl e
  · split
    · exact ⟨rfl, rfl⟩
    · exact ⟨rfl, rfl⟩

theorem settleUndurable_remembers : Remembers e (e.settleUndurable d) :=
  .remembered (.refl e) _

theorem settleDurable_remembers (key : Digest) : Remembers e (e.settleDurable d key) :=
  .remembered (((e.commitDecision_memory d).trans (commitIdempotency_memory _ _ key)).trans
    (maybeCheckpoint_memory _)) _

theorem settle_remembers (durable : Bool) (key : Digest) :
    Remembers e (e.settle d durable key) := by
  cases durable with
  | true => exact settleDurable_remembers key
  | false => exact settleUndurable_remembers

theorem answer_remembers : Remembers e (e.answer d) := .remembered (e.commitDecision_memory d) _

theorem answerAndCheckpoint_remembers : Remembers e (e.answerAndCheckpoint d) :=
  .remembered ((e.commitDecision_memory d).trans (maybeCheckpoint_memory _)) _

theorem afterWrite_remembers {written : LineageStore × Status} {detail : String}
    {k : Engine → Engine × Result FailoverDecision}
    (h : ∀ e', Remembers e' (k e')) : Remembers e (e.afterWrite written detail k) := by
  unfold afterWrite
  split
  · exact .failed (e.withWrite_memory written) _
  · exact .after (e.withWrite_memory written) (h _)

/-! ## Requests -/

/-- A plan that was made, and not found in the index. -/
def Fresh : FailoverPlan → Prop
  | .replay _ => False
  | _ => True

variable {req : FailoverRequest}

theorem closeAttempt_fresh {evidence : Digest} {reasons : ReasonLog} :
    Fresh (e.closeAttempt req d evidence reasons) := by
  unfold closeAttempt
  split
  · trivial
  · trivial

theorem planEvidence_fresh (link : LinkDefinition) : Fresh (e.planEvidence req d link) := by
  unfold planEvidence
  dsimp only
  split
  · exact closeAttempt_fresh
  · rcases @planSelection_cases e req d
      (e.evaluateFailure req.subject req.subjectGeneration) link with
      ⟨s, hp⟩ | ⟨d', hp, -⟩ | ⟨status, hp⟩ | ⟨c, -, -, hp⟩
    · rw [hp]
      trivial
    · rw [hp]
      trivial
    · rw [hp]
      exact closeAttempt_fresh
    · rw [hp]
      trivial

theorem planSubject_fresh : Fresh (e.planSubject req) := by
  unfold planSubject
  split
  · trivial
  split
  · trivial
  unfold planExpectation
  dsimp only
  split
  · trivial
  split
  · trivial
  unfold planAuthority
  split
  · trivial
  unfold planRevalidation
  split
  · exact planEvidence_fresh _
  split
  · trivial
  · exact planEvidence_fresh _

theorem execute_remembers {p : FailoverPlan} (h : Fresh p) : Remembers e (e.execute req p) := by
  cases p with
  | fail s => exact .failed (.refl e) s
  | replay => exact h.elim
  | settle d durable => exact settle_remembers durable _
  | record d r => exact afterWrite_remembers fun _ => settleDurable_remembers _
  | grant d a => exact afterWrite_remembers fun _ => afterWrite_remembers fun _ => settleDurable_remembers _

/-- The answer to an operation is found in the idempotency index. -/
def indexed (e : Engine) : Operation → Bool
  | .requestFailover req => (e.state.findIdempotency req.idempotencyKey).isSome
  | .requestRollback req => (e.state.findIdempotency req.idempotencyKey).isSome
  | _ => false

theorem requestFailover_remembers (h : e.indexed (.requestFailover req) = false) :
    Remembers e (e.requestFailover req) := by
  unfold requestFailover
  split
  · exact .failed (.refl e) _
  refine .after e.advance_memory (execute_remembers ?_)
  unfold planFailover
  split
  · trivial
  split
  · rename_i entry hentry
    rw [indexed, show e.state.findIdempotency req.idempotencyKey = some entry from hentry] at h
    cases h
  · exact planSubject_fresh

/-- An answer from the index is not remembered again. -/
theorem requestFailover_indexed (h : e.indexed (.requestFailover req) = true) :
    SameMemory e (e.requestFailover req).1 := by
  unfold requestFailover
  split
  · exact .refl e
  refine e.advance_memory.trans ?_
  unfold planFailover
  split
  · exact .refl _
  split
  · exact .refl _
  · rename_i hnone
    rw [indexed, show e.state.findIdempotency req.idempotencyKey = none from hnone] at h
    cases h

/-! ## Reports -/

theorem recordApplication_remembers (report : ApplicationReport) :
    Remembers e (e.recordApplication report) := by
  refine recordApplication_cases (P := Remembers e) (fun s _ => .failed (.refl e) s)
    (fun _ _ => .failed e.advance_memory _) fun found _ _ => .after e.advance_memory ?_
  exact recordFound_cases (P := Remembers e.advance) (fun _ _ _ _ => .failed (.refl _) _)
    (fun _ _ _ => settleUndurable_remembers)
    fun _ _ _ _ _ => afterWrite_remembers fun _ => answerAndCheckpoint_remembers

theorem recordVerification_remembers (report : VerificationReport) :
    Remembers e (e.recordVerification report) := by
  refine recordVerification_cases (P := Remembers e) (fun s _ => .failed (.refl e) s)
    (fun _ _ => .failed e.advance_memory _) fun found _ _ => .after e.advance_memory ?_
  refine verifyFound_cases (P := Remembers e.advance) (fun _ _ _ _ => .failed (.refl _) _)
    (fun _ _ _ => settleUndurable_remembers) (fun _ _ _ => settleUndurable_remembers)
    (fun _ _ _ => ?_) fun _ _ _ => ?_
  · exact afterWrite_remembers fun _ => answer_remembers
  · exact afterWrite_remembers fun _ =>
      afterWrite_remembers fun _ => answerAndCheckpoint_remembers

theorem requestRollback_remembers {req : RollbackRequest}
    (h : e.indexed (.requestRollback req) = false) : Remembers e (e.requestRollback req) := by
  refine requestRollback_cases (P := Remembers e) (fun _ => .failed (.refl e) _)
    (fun entry _ hentry => ?_) (fun _ _ _ => .failed e.advance_memory _)
    fun found _ _ _ => .after e.advance_memory ?_
  · rw [indexed, hentry] at h
    cases h
  · refine rollbackFound_cases (P := Remembers e.advance) (fun _ _ => settleUndurable_remembers)
      (fun _ _ _ => settleUndurable_remembers) (fun _ _ _ => settleUndurable_remembers)
      fun _ _ => ?_
    refine afterWrite_remembers fun _ => afterWrite_remembers fun _ => ?_
    exact .remembered ((commitDecision_memory _ _).trans (commitIdempotency_memory _ _ _)) _

theorem requestRollback_indexed {req : RollbackRequest}
    (h : e.indexed (.requestRollback req) = true) : SameMemory e (e.requestRollback req).1 := by
  rw [indexed, Option.isSome_iff_ne_none] at h
  exact requestRollback_cases (P := fun out => SameMemory e out.1) (fun _ => .refl e)
    (fun _ _ _ => e.advance_memory) (fun _ hnone _ => absurd hnone h)
    fun _ _ hnone _ => absurd hnone h

theorem resolveInterrupted_remembers (req : RevalidationRequest) :
    Remembers e (e.resolveInterrupted req) := by
  refine resolveInterrupted_cases (P := Remembers e) (fun _ => .failed (.refl e) _)
    (fun _ _ _ _ => .failed (.refl e) _) (fun _ _ _ _ => .failed e.advance_memory _)
    fun found _ _ _ _ => .after e.advance_memory ?_
  exact resolveFound_cases (P := Remembers e.advance) (fun _ => settleUndurable_remembers)
    (fun _ _ _ => settleUndurable_remembers) fun _ _ _ => afterWrite_remembers fun _ => answer_remembers

/-! ## Operations without a decision -/

theorem publishFailureReport_memory (report : FailureReport) :
    SameMemory e (e.publishFailureReport report).1 := by
  have h := e.publish_inversion failureReports report
  unfold publishFailureReport
  revert h
  generalize (e.publish failureReports report).1 = e'
  generalize (e.publish failureReports report).2.isOk = ok
  intro h
  cases h with
  | malformed | unregistered => exact ⟨rfl, rfl⟩
  | @admitted e₁ _ _ _ _ hadmits hretains =>
    have hadmitted : SameMemory e e₁ := by
      cases hadmits <;> exact ⟨rfl, rfl⟩
    refine hadmitted.trans ?_
    cases hretains <;> exact ⟨rfl, rfl⟩

theorem publishReplacementReport_memory (report : ReplacementReport) :
    SameMemory e (e.publishReplacementReport report).1 := by
  have h := e.publish_inversion replacementReports report
  unfold publishReplacementReport
  revert h
  generalize (e.publish replacementReports report).1 = e'
  generalize (e.publish replacementReports report).2.isOk = ok
  intro h
  cases h with
  | malformed | unregistered => exact ⟨rfl, rfl⟩
  | @admitted e₁ _ _ _ _ hadmits hretains =>
    have hadmitted : SameMemory e e₁ := by
      cases hadmits <;> exact ⟨rfl, rfl⟩
    refine hadmitted.trans ?_
    cases hretains <;> exact ⟨rfl, rfl⟩

theorem fenceAuthorities_memory (cause : FenceCause) (rs : List AttemptRecord) (e : Engine) :
    SameMemory e (fenceAuthorities cause rs e).1 := by
  induction rs generalizing e with
  | nil => exact .refl e
  | cons r rs ih =>
    unfold fenceAuthorities
    split
    · exact ih e
    dsimp only
    split
    · exact ⟨rfl, rfl⟩
    split
    · exact ⟨rfl, rfl⟩
    · exact .trans ((e.withWrite_memory _).trans (withWrite_memory _ _)) (ih _)

theorem setDefinition_memory {Tag : Type} {new current : StrongUint Tag UInt64}
    {sameContent : Bool} {code : ReasonCode} {regresses conflicts : String}
    {commit : Engine → LineageStore × Status} {cause : FenceCause} :
    SameMemory e
      (e.setDefinition new current sameContent code regresses conflicts commit cause).1 := by
  unfold setDefinition
  split
  · exact .refl e
  split
  · split
    · exact .refl e
    · exact .refl e
  dsimp only
  split
  · exact e.withWrite_memory _
  · exact (e.withWrite_memory _).trans (fenceAuthorities_memory _ _ _)

theorem setPolicy_memory (policy : FailoverPolicy) : SameMemory e (e.setPolicy policy).1 := by
  unfold setPolicy
  split
  · exact .refl e
  split
  · exact .refl e
  · exact setDefinition_memory

theorem setTopology_memory (topology : TopologySnapshot) :
    SameMemory e (e.setTopology topology).1 := by
  unfold setTopology
  dsimp only
  split
  · exact .refl e
  split
  · exact .refl e
  · exact setDefinition_memory

theorem checkpoint_memory : SameMemory e e.checkpoint.1 := by
  unfold checkpoint
  split
  · exact .refl e
  split
  · exact ⟨rfl, rfl⟩
  · exact ⟨rfl, rfl⟩

theorem shutDown_memory : SameMemory e e.shutDown.1 := by
  unfold shutDown
  dsimp only
  split
  · split
    · exact ⟨rfl, rfl⟩
    · exact ⟨rfl, rfl⟩
  · exact ⟨rfl, rfl⟩

theorem close_memory : SameMemory e e.close.1 := by
  unfold close
  split
  · exact .refl e
  · exact ⟨shutDown_memory.decisions, shutDown_memory.options⟩

/-! ## Minutes -/

/-- The decision that an operation makes. -/
def decided (e : Engine) (op : Operation) : List FailoverDecision :=
  match (e.perform op).2 with
  | .decision (.ok d) => if e.indexed op then [] else [d]
  | _ => []

/-- The memory behind an operation. -/
structure Minuted (e : Engine) (made : List FailoverDecision) (e' : Engine) : Prop where
  decisions : e'.decisions = e.decisions ∧ made = [] ∨
    e'.decisions = newest e.options.limits.maxRetainedDecisions (e.decisions ++ made)
  options : e'.options = e.options

theorem minuted_of_same {made : List FailoverDecision} (h : SameMemory e e') (hm : made = []) :
    Minuted e made e' := ⟨.inl ⟨h.decisions, hm⟩, h.options⟩

theorem minuted_of_remembers {op : Operation} (h : Remembers e answered)
    (hop : e.perform op = answered.map id .decision) (hi : e.indexed op = false) :
    Minuted e (e.decided op) (e.perform op).1 := by
  unfold decided
  rw [hop, hi]
  obtain ⟨e', r⟩ := answered
  cases r with
  | error s => exact ⟨.inl ⟨h.decisions, rfl⟩, h.options⟩
  | ok d => exact ⟨.inr h.decisions, h.options⟩

theorem decided_of_indexed {op : Operation} (h : e.indexed op = true) : e.decided op = [] := by
  unfold decided
  rw [h]
  split
  · rfl
  · rfl

theorem perform_minuted (e : Engine) (op : Operation) :
    Minuted e (e.decided op) (e.perform op).1 := by
  cases op with
  | publishFailure report => exact minuted_of_same (publishFailureReport_memory report) rfl
  | publishReplacement report => exact minuted_of_same (publishReplacementReport_memory report) rfl
  | requestFailover req =>
    cases hi : e.indexed (.requestFailover req) with
    | true => exact minuted_of_same (requestFailover_indexed hi) (decided_of_indexed hi)
    | false => exact minuted_of_remembers (requestFailover_remembers hi) rfl hi
  | recordApplication report =>
    exact minuted_of_remembers (recordApplication_remembers report) rfl rfl
  | recordVerification report =>
    exact minuted_of_remembers (recordVerification_remembers report) rfl rfl
  | requestRollback req =>
    cases hi : e.indexed (.requestRollback req) with
    | true => exact minuted_of_same (requestRollback_indexed hi) (decided_of_indexed hi)
    | false => exact minuted_of_remembers (requestRollback_remembers hi) rfl hi
  | resolveInterrupted req =>
    exact minuted_of_remembers (resolveInterrupted_remembers req) rfl rfl
  | setPolicy policy => exact minuted_of_same (setPolicy_memory policy) rfl
  | setTopology topology => exact minuted_of_same (setTopology_memory topology) rfl
  | checkpoint => exact minuted_of_same checkpoint_memory rfl
  | close => exact minuted_of_same close_memory rfl

end Engine

end Answering

/-- A system with the decisions that the boot that is up has made, in their order. -/
structure Minutes where
  system : System
  made : List FailoverDecision := []

def Minutes.step (w : Minutes) (a : Action) : Minutes :=
  match w.system, a with
  | .up e, .perform op => { system := .up (e.perform op).1, made := w.made ++ e.decided op }
  | .up e, .kill => { system := .down e.store.medium }
  | s@(.up _), .start _ => { system := s, made := w.made }
  | s, a => { system := s.step a }

def minutes (actions : List Action) : Minutes := actions.foldl Minutes.step { system := .down {} }

theorem minutes_append (actions : List Action) (a : Action) :
    minutes (actions ++ [a]) = (minutes actions).step a := by
  rw [minutes, List.foldl_append]
  rfl

theorem Minutes.step_system (w : Minutes) (a : Action) : (w.step a).system = w.system.step a := by
  unfold Minutes.step
  cases hs : w.system with
  | down m => rfl
  | up e => cases a <;> rfl

theorem minutes_system (actions : List Action) : (minutes actions).system = System.run actions := by
  induction actions using List.reverseRecOn with
  | nil => rfl
  | append_singleton actions a ih =>
    rw [minutes_append, Minutes.step_system, ih, System.run_append]

/-- The memory of every process that is up holds the newest decisions of its boot, in order. -/
theorem decisions_newest {actions : List Action} {e : Engine} (h : System.run actions = .up e) :
    e.decisions = newest e.options.limits.maxRetainedDecisions (minutes actions).made := by
  induction actions using List.reverseRecOn generalizing e with
  | nil => cases h
  | append_singleton actions a ih =>
    rw [System.run_append, ← minutes_system] at h
    rw [← minutes_system] at ih
    rw [minutes_append]
    generalize minutes actions = w at h ih
    obtain ⟨system, made⟩ := w
    cases system with
    | down m =>
      cases a with
      | start b =>
        change System.step (.down m) (.start b) = .up e at h
        rw [System.step] at h
        split at h
        · cases h
        · rename_i m' e' hopen
          cases h
          obtain ⟨s, epoch, rfl⟩ := Boot.open_blank hopen
          exact (newest_of_le (Nat.zero_le _)).symm
      | perform | kill => cases h
    | up e₀ =>
      cases a with
      | start b =>
        cases h
        exact ih rfl
      | perform op =>
        cases h
        have hold : e₀.decisions = newest e₀.options.limits.maxRetainedDecisions made := ih rfl
        obtain ⟨hdecisions, hoptions⟩ := e₀.perform_minuted op
        rw [hoptions]
        change (e₀.perform op).1.decisions = newest _ (made ++ e₀.decided op)
        rcases hdecisions with ⟨hsame, hnone⟩ | hnew
        · rw [hsame, hnone, List.append_nil]
          exact hold
        · rw [hnew, hold]
          exact newest_append
      | kill => cases h

end LinkFailover
