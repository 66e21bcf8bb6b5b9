import LinkFailover.Atomicity
import LinkFailover.Replays

/-!
# The ladder of assertions

A decision asserts how far its attempt has come: that it was authorized, that its application was
accepted, that its effect was seen. The operations choose the rung by the phase of the record they
find, and some of them by nothing at all: an application report asserts an acknowledgement also
when it is refused or comes too late, a verification takes every committed attempt for a verified
one, and an attempt that was cut off before its grant counts as granted once it was revalidated.

* `Earned`: what a record says of its attempt is borne out by the run.
* `assertion_ladder`: which decisions assert no more than their attempt has reached.
-/

namespace LinkFailover

open Codec

/-! ## Rungs -/

/-- An operation of the run wrote a record of the attempt, in this manner. -/
def Shown (actions : List Action) (i : Identity) (K : Operation → AttemptRecord → Prop) : Prop :=
  ∃ e op w r seq, Performs actions e op ∧ (w, r) ∈ e.amendments op ∧
    (seq, Payload.attempt w r) ∈ lineage (System.run actions).history ∧ r.identity = i ∧ K op r

/-- The attempt was granted by a request. -/
def Granted (actions : List Action) (i : Identity) : Prop :=
  Shown actions i fun op r => (∃ req, op = .requestFailover req) ∧ r.phase = .authorized

/-- An application report was accepted for the attempt. -/
def Applied (actions : List Action) (i : Identity) : Prop :=
  Shown actions i fun op _ => ∃ report, op = .recordApplication report ∧ report.accepted = true

/-- A verification with the effect observed was accepted for the attempt, or a revalidation
concluded that it is applied. -/
def Effective (actions : List Action) (i : Identity) : Prop :=
  Shown actions i fun op _ =>
    (∃ report, op = .recordVerification report ∧ report.effectObserved = true) ∨
      ∃ req, op = .resolveInterrupted req ∧ req.verdict = .applied

/-- The attempt has reached the rung of an assertion. -/
def Reached (actions : List Action) (i : Identity) : Assertion → Prop
  | .authorization => Granted actions i
  | .acknowledgement => Applied actions i
  | .verifiedEffect => Effective actions i
  | .none | .observation | .eligibility | .recommendation => True

/-- A restart cut the attempt off before its grant was written. -/
def AttemptRecord.cutOff (r : AttemptRecord) : Bool :=
  r.reasons.entries.any fun x => x.code = .interruptedBeforeCommit

/-- The attempt that a decision names. -/
def FailoverDecision.identity (d : FailoverDecision) : Identity :=
  (d.subject, d.subjectGeneration, d.attemptSeq)

/-- What an operation finds when its decision asserts more than the attempt has reached:

* an application report that is not accepted for an authorized attempt, while no applier is
  known for the attempt;
* a verification of an attempt that was committed as soon as its application was accepted;
* a rollback or a revalidation of an attempt that was cut off before its grant. -/
def Engine.Overstates (e : Engine) (op : Operation) : Prop :=
  ∃ found, e.target op = some found ∧
    match op with
    | .recordApplication report => ¬ (found.phase = .authorized ∧ report.accepted = true) ∧
        found.applierIncarnation.isZero = true
    | .recordVerification _ =>
      found.phase = .committed ∧ found.lastReason ≠ some .effectVerified
    | .requestRollback req => found.phase = .committed ∧ found.cutOff = true ∧
        compareAuthority req.expected (e.currentAuthority req.subject found.subjectGeneration) = []
    | .resolveInterrupted req => found.phase = .interrupted ∧ found.cutOff = true ∧
        req.verdict = .applied
    | _ => False

section Rungs

variable {actions : List Action} {i : Identity} {K : Operation → AttemptRecord → Prop}

theorem Shown.append (h : Shown actions i K) (a : Action) : Shown (actions ++ [a]) i K := by
  obtain ⟨e, op, w, r, seq, hp, hm, hl, hi, hk⟩ := h
  exact ⟨e, op, w, r, seq, hp.append a, hm,
    (lineage_begins (System.run_history actions [a])).subset hl, hi, hk⟩

end Rungs

/-! ## What records say -/

/-- What a record says of its attempt is borne out by the run. -/
structure Earned (actions : List Action) (r : AttemptRecord) : Prop where
  granted : r.phase = .authorized ∨ r.phase = .acknowledged ∨ r.phase = .verified →
    Granted actions r.identity
  interrupted : r.phase = .interrupted → r.revalidated = false →
    r.lastReason = some .interruptedBeforeCommit ∨ Granted actions r.identity
  committed : r.phase = .committed → r.cutOff = true ∨ Granted actions r.identity
  applied : r.phase = .acknowledged ∨ r.applierIncarnation.isZero = false →
    Applied actions r.identity
  effective : r.phase = .verified ∨ r.phase = .committed ∧ r.lastReason = some .effectVerified →
    Effective actions r.identity

section Records

variable {actions : List Action} {q r : AttemptRecord}

theorem Earned.append (h : Earned actions r) (a : Action) : Earned (actions ++ [a]) r where
  granted hp := Shown.append (h.granted hp) a
  interrupted hp hv := (h.interrupted hp hv).imp id fun hg => Shown.append hg a
  committed hp := (h.committed hp).imp id fun hg => Shown.append hg a
  applied hp := Shown.append (h.applied hp) a
  effective hp := Shown.append (h.effective hp) a

/-- The positions of a record in the lineage say nothing of its attempt. -/
theorem Earned.of_unstamped (h : Earned actions r) (hu : r.unstamped = q.unstamped) :
    Earned actions q := by
  have hsame : ∀ {x : AttemptRecord}, Earned actions x ↔ Earned actions x.unstamped := by
    intro x
    exact ⟨fun h => ⟨h.granted, h.interrupted, h.committed, h.applied, h.effective⟩,
      fun h => ⟨h.granted, h.interrupted, h.committed, h.applied, h.effective⟩⟩
  rw [hsame, ← hu, ← hsame]
  exact h

/-- A record that ends an attempt without effect says only who applied it. -/
theorem Earned.ended (h : Earned actions q) (hid : r.identity = q.identity)
    (hp : r.phase = .aborted ∨ r.phase = .rolledBack ∨ r.phase = .indeterminate)
    (ha : r.applierIncarnation = q.applierIncarnation) : Earned actions r := by
  have happlied : r.applierIncarnation.isZero = false → Applied actions r.identity := by
    intro hz
    rw [hid]
    exact h.applied (.inr (by rwa [ha] at hz))
  refine ⟨fun hx => ?_, fun hx => ?_, fun hx => ?_, fun hx => ?_, fun hx => ?_⟩
  · rcases hp with hp | hp | hp <;> rw [hp] at hx <;> simp at hx
  · rcases hp with hp | hp | hp <;> rw [hp] at hx <;> cases hx
  · rcases hp with hp | hp | hp <;> rw [hp] at hx <;> cases hx
  · refine happlied (hx.resolve_left fun hx => ?_)
    rcases hp with hp | hp | hp <;> rw [hp] at hx <;> cases hx
  · rcases hp with hp | hp | hp <;> rw [hp] at hx <;> simp at hx

theorem lastReason_push {code : ReasonCode} {detail : Bytes}
    (h : r.reasons = q.reasons.push (Reason.of code detail)) : r.lastReason = some code := by
  rw [AttemptRecord.lastReason, h, ReasonLog.getLast?_push]
  rfl

/-- The last reason of a record is not the one that the next reason drops. -/
theorem cutOff_push {code : ReasonCode} {detail : Bytes}
    (h : r.reasons = q.reasons.push (Reason.of code detail))
    (hq : q.lastReason = some .interruptedBeforeCommit) : r.cutOff = true := by
  obtain ⟨x, hx, hcode⟩ := Option.map_eq_some_iff.mp hq
  have hlast : q.reasons.entries ≠ [] := by
    intro hnil
    rw [hnil] at hx
    cases hx
  have hsplit : q.reasons.entries = q.reasons.entries.dropLast ++ [x] := by
    rw [List.getLast?_eq_some_getLast hlast, Option.some.injEq] at hx
    rw [← hx, List.dropLast_append_getLast]
  have hm : x ∈ r.reasons.entries := by
    rw [h, ReasonLog.push]
    split
    · rename_i hlen
      rw [List.length_append, List.length_singleton, kMaxAttemptReasons] at hlen
      have hdrop : (q.reasons.entries ++ [Reason.of code detail]).drop 1 =
          q.reasons.entries.dropLast.drop 1 ++ [x, Reason.of code detail] := by
        have hlen' : q.reasons.entries.dropLast.length = q.reasons.entries.length - 1 :=
          List.length_dropLast
        rw [hsplit, List.append_assoc, List.drop_append_of_le_length (by omega)]
        rw [← hsplit]
        rfl
      change x ∈ (q.reasons.entries ++ [Reason.of code detail]).drop 1
      rw [hdrop]
      simp
    · exact List.mem_append_left _ (List.mem_of_getLast? hx)
  exact List.any_eq_true.mpr ⟨x, hm, decide_eq_true hcode⟩

/-- A restart. -/
theorem Earned.interrupt (h : Earned actions q) (ht : q.isTerminal = false) :
    Earned actions (LineageStore.interrupt q) := by
  have hlast : (LineageStore.interrupt q).lastReason = some (interruptionReason q.phase) :=
    lastReason_push rfl
  refine ⟨fun hx => ?_, fun _ _ => ?_, fun hx => ?_, fun hx => ?_, fun hx => ?_⟩
  · rcases hx with hx | hx | hx <;> cases hx
  · rw [hlast]
    by_cases hh : attemptPhaseHoldsAuthority q.phase = true
    · refine .inr (h.granted ?_)
      rw [AttemptRecord.isTerminal] at ht
      revert ht hh
      cases q.phase <;> simp [attemptPhaseIsTerminal, attemptPhaseHoldsAuthority]
    · rw [evaluated_of_not_terminal ht (by simpa using hh)]
      exact .inl rfl
  · cases hx
  · exact h.applied (.inr (hx.resolve_left fun hx => (by cases hx)))
  · rcases hx with hx | ⟨hx, -⟩ <;> cases hx

end Records

/-! ## What operations write -/

namespace Engine

/-- New attempts name no applier. -/
def Unapplied (p : FailoverPlan) : Prop :=
  ∀ x ∈ p.amendments, x.2.applierIncarnation.isZero = true

variable {e : Engine} {req : FailoverRequest} {d : FailoverDecision}

theorem Unapplied.fail (s : Status) : Unapplied (.fail s) := fun _ hx => absurd hx List.not_mem_nil

theorem Unapplied.settle (d : FailoverDecision) (b : Bool) : Unapplied (.settle d b) :=
  fun _ hx => absurd hx List.not_mem_nil

theorem closeAttempt_unapplied {evidence : Digest} {reasons : ReasonLog} :
    Unapplied (e.closeAttempt req d evidence reasons) := by
  unfold closeAttempt
  split
  · intro x hx
    rw [List.mem_singleton.mp hx]
    rfl
  · exact .settle _ _

theorem planEvidence_unapplied (link : LinkDefinition) :
    Unapplied (e.planEvidence req d link) := by
  unfold planEvidence
  dsimp only
  split
  · exact closeAttempt_unapplied
  · rcases @planSelection_cases e req d
      (e.evaluateFailure req.subject req.subjectGeneration) link with
      ⟨s, hp⟩ | ⟨d', hp, -⟩ | ⟨status, hp⟩ | ⟨c, -, -, hp⟩
    · rw [hp]
      exact .fail s
    · rw [hp]
      exact .settle _ _
    · rw [hp]
      exact closeAttempt_unapplied
    · rw [hp]
      intro x hx
      rcases List.mem_cons.mp hx with rfl | hx
      · rfl
      · rw [List.mem_singleton.mp hx]
        rfl

theorem planExpectation_unapplied (link : LinkDefinition) :
    Unapplied (e.planExpectation req d link) := by
  unfold planExpectation
  dsimp only
  split
  · exact .settle _ _
  split
  · exact .settle _ _
  unfold planAuthority
  split
  · exact .settle _ _
  unfold planRevalidation
  split
  · exact planEvidence_unapplied link
  split
  · exact .settle _ _
  · exact planEvidence_unapplied link

theorem planFailover_unapplied : Unapplied (e.planFailover req) := by
  unfold planFailover
  split
  · exact .fail _
  split
  · exact fun _ hx => absurd hx List.not_mem_nil
  unfold planSubject
  split
  · exact .fail _
  split
  · exact .fail _
  exact planExpectation_unapplied _

/-- The record that an operation comes to is one of the table. -/
theorem target_mem {op : Operation} {found : AttemptRecord} (h : e.target op = some found) :
    found ∈ e.state.attempts := by
  cases op with
  | recordApplication | recordVerification | requestRollback | resolveInterrupted =>
    exact (target_names rfl h).1
  | _ => cases h

end Engine

section Writes

variable {actions : List Action} {e : Engine} {op : Operation} {w : AttemptWrite}
  {r : AttemptRecord}

/-- A record of a request. -/
theorem earned_request (h : EngineOk False e) (hf : e.store.failed = false)
    {req : FailoverRequest} (hm : (w, r) ∈ e.amendments (.requestFailover req))
    (hshow : r.phase = .authorized → Granted actions r.identity) : Earned actions r := by
  have hzero : r.applierIncarnation.isZero = true := by
    have hm' := hm
    dsimp only [Engine.amendments] at hm'
    split at hm'
    · cases hm'
    · exact Engine.planFailover_unapplied _ hm'
  have happlied : r.phase ≠ .acknowledged →
      (r.phase = .acknowledged ∨ r.applierIncarnation.isZero = false) →
      Applied actions r.identity := by
    rintro hne (hp | hp)
    · exact absurd hp hne
    · rw [hzero] at hp
      cases hp
  have hphase : r.phase = .refused ∨ r.phase = .indeterminate ∨ r.phase = .evaluated ∨
      r.phase = .authorized := by
    cases ha : e.amendments (.requestFailover req) with
    | nil =>
      rw [ha] at hm
      cases hm
    | cons x rest =>
      rw [ha] at hm
      obtain ⟨-, -, ⟨hx, rfl⟩ | ⟨⟨hx, -⟩, rfl⟩⟩ := Engine.failover_amendments h hf ha
      · have heq := List.mem_singleton.mp hm
        rw [← heq] at hx
        exact hx.imp id .inl
      · rcases List.mem_cons.mp hm with hm | hm
        · rw [← hm] at hx
          exact .inr (.inr (.inl hx))
        · cases List.mem_singleton.mp hm
          exact .inr (.inr (.inr rfl))
  rcases hphase with hp | hp | hp | hp
  · exact ⟨by simp [hp], by simp [hp], by simp [hp], happlied (by simp [hp]), by simp [hp]⟩
  · exact ⟨by simp [hp], by simp [hp], by simp [hp], happlied (by simp [hp]), by simp [hp]⟩
  · exact ⟨by simp [hp], by simp [hp], by simp [hp], happlied (by simp [hp]), by simp [hp]⟩
  · exact ⟨fun _ => hshow hp, by simp [hp], by simp [hp], happlied (by simp [hp]), by simp [hp]⟩

theorem earned_application {found : AttemptRecord} {report : ApplicationReport}
    (hm : (w, r) ∈ e.applicationAmendments found report) (hfound : Earned actions found)
    (hshow : report.accepted = true → Applied actions r.identity) : Earned actions r := by
  unfold Engine.applicationAmendments at hm
  split at hm
  · cases hm
  rename_i hguard
  simp only [not_or, not_not] at hguard
  have hphase : found.phase = .authorized := hguard.2.2.2
  obtain ⟨-, rfl⟩ := Prod.mk.inj (List.mem_singleton.mp hm)
  unfold Engine.applyAttempt at hshow ⊢
  cases ha : report.accepted with
  | false =>
    rw [ha] at hshow
    exact hfound.ended rfl (.inl rfl) rfl
  | true =>
    rw [ha] at hshow
    have hgranted := hfound.granted (.inl hphase)
    have happlied := hshow rfl
    have hlast : (Engine.acceptedAttempt found report.applierIncarnation
        (if e.state.policy.requireVerifiedEffect then .acknowledged else .committed)).lastReason =
        some .acknowledgementNotEffect := lastReason_push rfl
    refine ⟨fun _ => hgranted, fun hx => ?_, fun _ => .inr hgranted, fun _ => happlied,
      fun hx => ?_⟩
    · change (if e.state.policy.requireVerifiedEffect then AttemptPhase.acknowledged
        else .committed) = .interrupted at hx
      split at hx <;> cases hx
    · rcases hx with hx | ⟨-, hx⟩
      · change (if e.state.policy.requireVerifiedEffect then AttemptPhase.acknowledged
          else .committed) = .verified at hx
        split at hx <;> cases hx
      · change (Engine.acceptedAttempt _ _ _).lastReason = _ at hx
        rw [hlast] at hx
        cases hx

theorem earned_verification {found : AttemptRecord} {report : VerificationReport}
    (hm : (w, r) ∈ Engine.verificationAmendments found report) (hfound : Earned actions found)
    (hshow : report.effectObserved = true → Effective actions r.identity) : Earned actions r := by
  unfold Engine.verificationAmendments at hm
  split at hm
  · cases hm
  rename_i hguard
  simp only [not_or, not_not] at hguard
  have hgranted := hfound.granted (.inr (.inl hguard.2))
  have happlied := hfound.applied (.inl hguard.2)
  cases ho : report.effectObserved with
  | false =>
    rw [ho] at hm
    obtain ⟨-, rfl⟩ := Prod.mk.inj (List.mem_singleton.mp hm)
    exact hfound.ended rfl (.inr (.inr rfl)) rfl
  | true =>
    rw [ho] at hm hshow
    have heffective := hshow rfl
    rcases List.mem_cons.mp hm with hm | hm
    · obtain ⟨-, rfl⟩ := Prod.mk.inj hm
      exact ⟨fun _ => hgranted, fun hx => (by cases hx), fun hx => (by cases hx),
        fun _ => happlied, fun _ => heffective⟩
    · obtain ⟨-, rfl⟩ := Prod.mk.inj (List.mem_singleton.mp hm)
      exact ⟨fun _ => hgranted, fun hx => (by cases hx), fun _ => .inr hgranted,
        fun _ => happlied, fun _ => heffective⟩

theorem earned_revalidation {found : AttemptRecord} {req : RevalidationRequest}
    (hm : (w, r) ∈ e.revalidationAmendments found req) (hfound : Earned actions found)
    (hshow : req.verdict = .applied → Effective actions r.identity) : Earned actions r := by
  unfold Engine.revalidationAmendments at hm
  split at hm
  · cases hm
  rename_i hguard
  simp only [not_or, not_not, Bool.not_eq_true] at hguard
  obtain ⟨-, rfl⟩ := Prod.mk.inj (List.mem_singleton.mp hm)
  cases hv : req.verdict with
  | notApplied => exact hfound.ended rfl (.inl rfl) rfl
  | applied =>
    rw [hv] at hshow
    have heffective := hshow rfl
    refine ⟨fun hx => ?_, fun hx => (by cases hx), fun _ => ?_, fun hx => ?_,
      fun _ => heffective⟩
    · rcases hx with hx | hx | hx <;> cases hx
    · refine (hfound.interrupted hguard.2 hguard.1).imp (fun hlast => ?_) id
      exact @cutOff_push found _ _ _ rfl hlast
    · exact hfound.applied (.inr (hx.resolve_left fun hx => (by cases hx)))
  | unknown | undeclared =>
    refine ⟨fun hx => ?_, fun _ hx => (by cases hx), fun hx => (by cases hx), fun hx => ?_,
      fun hx => ?_⟩
    · rcases hx with hx | hx | hx <;> cases hx
    · exact hfound.applied (.inr (hx.resolve_left fun hx => (by cases hx)))
    · rcases hx with hx | ⟨hx, -⟩ <;> cases hx

/-- A record that an operation writes, when the records of the table are borne out. -/
theorem made_earned (h : EngineOk False e) (hf : e.store.failed = false)
    (htable : ∀ q ∈ e.state.attempts, Earned actions q) (hm : (w, r) ∈ e.amendments op)
    (hshow : ∀ K : Operation → AttemptRecord → Prop, K op r → Shown actions r.identity K) :
    Earned actions r := by
  have htarget : ∀ {ws : AttemptRecord → List Amendment},
      (w, r) ∈ (e.target op).elim [] ws → ∃ found, Earned actions found ∧ (w, r) ∈ ws found := by
    intro ws hm
    cases ht : e.target op with
    | none =>
      rw [ht] at hm
      cases hm
    | some found =>
      rw [ht] at hm
      exact ⟨found, htable found (Engine.target_mem ht), hm⟩
  have hfencing : ∀ {cause : Engine.FenceCause},
      (w, r) ∈ Engine.fencingAmendments cause e.state.attempts → Earned actions r := by
    intro cause hm
    obtain ⟨q, hq, he⟩ := List.mem_map.mp hm
    obtain ⟨-, rfl⟩ := Prod.mk.inj he
    exact (htable q (List.mem_filter.mp hq).1).ended rfl (.inl rfl) rfl
  cases op with
  | requestFailover req =>
    exact earned_request h hf hm fun hp => hshow _ ⟨⟨req, rfl⟩, hp⟩
  | recordApplication report =>
    obtain ⟨found, hfound, hm⟩ := htarget hm
    exact earned_application hm hfound fun ha => hshow _ ⟨report, rfl, ha⟩
  | recordVerification report =>
    obtain ⟨found, hfound, hm⟩ := htarget hm
    exact earned_verification hm hfound fun ho => hshow _ (.inl ⟨report, rfl, ho⟩)
  | requestRollback req =>
    obtain ⟨found, hfound, hm⟩ := htarget hm
    unfold Engine.rollbackAmendments at hm
    split at hm
    · cases hm
    obtain ⟨-, rfl⟩ := Prod.mk.inj (List.mem_singleton.mp hm)
    exact hfound.ended rfl (.inr (.inl rfl)) rfl
  | resolveInterrupted req =>
    obtain ⟨found, hfound, hm⟩ := htarget hm
    exact earned_revalidation hm hfound fun hv => hshow _ (.inr ⟨req, rfl, hv⟩)
  | setPolicy policy =>
    dsimp only [Engine.amendments] at hm
    split at hm
    · cases hm
    unfold Engine.definitionAmendments at hm
    split at hm
    · cases hm
    · exact hfencing hm
  | setTopology topology =>
    dsimp only [Engine.amendments] at hm
    split at hm
    · cases hm
    unfold Engine.definitionAmendments at hm
    split at hm
    · cases hm
    · exact hfencing hm
  | publishFailure | publishReplacement | checkpoint | close => cases hm

end Writes

/-! ## Runs -/

theorem lastWrite_mem {entries : List Entry} {i : Identity} {r : AttemptRecord}
    (h : lastWrite entries i = some r) : ∃ seq w, (seq, Payload.attempt w r) ∈ entries := by
  induction entries using List.reverseRecOn with
  | nil => cases h
  | append_singleton entries x ih =>
    obtain ⟨seq, p⟩ := x
    have hold : lastWrite entries i = some r →
        ∃ seq' w, (seq', Payload.attempt w r) ∈ entries ++ [(seq, p)] := fun h => by
      obtain ⟨seq', w, hm⟩ := ih h
      exact ⟨seq', w, List.mem_append_left _ hm⟩
    rw [lastWrite_append] at h
    cases p with
    | attempt w q =>
      dsimp only at h
      split at h
      · cases h
        exact ⟨seq, w, List.mem_append_right _ List.mem_cons_self⟩
      · exact hold h
    | _ => exact hold h

/-- What is known of an attempt is borne out when every record of it is. -/
theorem Known.earned {actions : List Action} {entries : List Entry} {q : AttemptRecord}
    (h : Known entries q)
    (hrun : ∀ seq w r, (seq, Payload.attempt w r) ∈ entries → Earned actions r) :
    Earned actions q := by
  obtain ⟨r, hr, hu⟩ := h
  obtain ⟨seq, w, hm⟩ := lastWrite_mem hr
  exact (hrun seq w r hm).of_unstamped hu

/-- Every record of a run is borne out by it. -/
theorem System.run_earned {actions : List Action} {seq : LineageSeq} {w : AttemptWrite}
    {r : AttemptRecord} (hx : (seq, Payload.attempt w r) ∈ lineage (run actions).history) :
    Earned actions r := by
  induction actions using List.reverseRecOn generalizing seq w r with
  | nil => cases hx
  | append_singleton actions a ih =>
    have hok := @run_ok False actions False.elim
    have hold : ∀ {seq w r}, (seq, Payload.attempt w r) ∈ lineage (run actions).history →
        Earned (actions ++ [a]) r := fun hm => (ih hm).append a
    cases hrun : run actions with
    | down m =>
      rw [run_append, hrun] at hx
      rw [hrun] at hok hold
      cases a with
      | start b =>
        have hm : MediumOk False (b.medium m) := ⟨hok.trace, hok.represents⟩
        obtain ⟨entries, rs, hl, hknown, hp⟩ :=
          @openEngine_commits False b.options b.incarnation b.build _ hm
        have ho := (@openEngine_outcome False b.options b.incarnation b.build _ hm).2
        rw [step, Boot.open] at hx
        revert hl ho hx
        generalize Engine.openEngine b.options b.incarnation b.build (b.medium m) = result
        obtain ⟨m', result⟩ := result
        intro hx hl ho
        have hx : (seq, Payload.attempt w r) ∈ lineage m'.history := by
          cases result with
          | error _ => exact hx
          | ok e =>
            have hmedium : e.store.medium = m' := (ho e rfl).2.2
            rw [← hmedium]
            exact hx
        rw [hl, List.mem_append] at hx
        rcases hx with hx | hx
        · exact hold hx
        rcases hp _ hx with ⟨c, hc⟩ | hb
        · cases hc
        · cases hb with
          | @interrupt q hq ht =>
            exact Earned.interrupt ((hknown q hq).earned fun _ _ _ => hold) ht
      | perform | kill => exact hold hx
    | up e =>
      cases a with
      | perform op =>
        have hafter := hx
        rw [run_append, hrun] at hx
        rw [hrun] at hok hold
        by_cases hf : e.store.failed = true
        · change (seq, Payload.attempt w r) ∈ lineage (e.perform op).1.store.medium.history at hx
          rw [perform_of_failed_medium hok hf op] at hx
          exact hold hx
        have hf : e.store.failed = false := by simpa using hf
        obtain ⟨new, hl, hp⟩ := e.perform_lineage op
        change (seq, Payload.attempt w r) ∈ lineage (e.perform op).1.store.medium.history at hx
        rw [hl, List.mem_append] at hx
        rcases hx with hx | hx
        · exact hold hx
        rcases hp _ hx with ⟨c, hc⟩ | ⟨apply, hmakes⟩
        · cases hc
        · cases hmakes with
          | attempt hm =>
            exact made_earned hok hf
              (fun q hq => ((Engine.ok_state hok hf).known q hq).earned fun _ _ _ => hold) hm
              fun K hk => ⟨e, op, w, r, seq, ⟨actions, [], rfl, hrun⟩, hm, hafter, rfl, hk⟩
      | start | kill =>
        rw [run_append, hrun] at hx
        rw [hrun] at hold
        exact hold hx

/-! ## Answers -/

section Landed

variable {actions : List Action} {e : Engine} {op : Operation} {i : Identity}

/-- What an operation committed stands in the lineage behind it. -/
theorem amended_lineage {x : Amendment} (hx : x ∈ e.amended op) :
    ∃ seq, (seq, Payload.attempt x.1 x.2) ∈ lineage (e.perform op).1.store.medium.history := by
  rw [Engine.amended, amendments, List.mem_filterMap] at hx
  obtain ⟨event, hm, he⟩ := hx
  cases event with
  | committed seq p apply durable landed =>
    cases landed with
    | false => cases p <;> cases he
    | true =>
      cases p with
      | attempt w r =>
        cases he
        exact ⟨seq, List.mem_filterMap.mpr ⟨_, List.mem_of_mem_drop hm, rfl⟩⟩
      | _ => cases he
  | _ => cases he

/-- A follow-up whose first record is accepted has written it. -/
theorem Shown.landed {K : Operation → AttemptRecord → Prop} {w : AttemptWrite}
    {r : AttemptRecord} {rest : List Amendment} (hrun : System.run actions = .up e)
    (hi : op.names = some i) (ha : e.amendments op = (w, r) :: rest)
    (hw : e.store.accepts (.attempt w r) = true) (hk : K op r) :
    Shown (actions ++ [.perform op]) r.identity K := by
  have hok : EngineOk False e := by
    have h := @System.run_ok False actions False.elim
    rwa [hrun] at h
  have hne := (Engine.amended_ne_nil hok.store (Engine.followUp_first hi)).mpr
    (by rw [Engine.writes, ha]; exact hw)
  have hm : (w, r) ∈ e.amended op := by
    obtain ⟨tail, ht⟩ := (@Engine.amended_begins e op (Engine.ne_close_of_names hi)).1
    rw [ha] at ht
    cases hd : e.amended op with
    | nil => exact absurd hd hne
    | cons x done =>
      rw [hd] at ht
      cases ht
      exact List.mem_cons_self
  obtain ⟨seq, hl⟩ := amended_lineage hm
  refine ⟨e, op, w, r, seq, ⟨actions, [], rfl, hrun⟩, ?_, ?_, rfl, hk⟩
  · rw [ha]
    exact List.mem_cons_self
  · rw [System.run_append, hrun]
    exact hl

end Landed

/-- Whatever is answered names this attempt and asserts this rung. -/
def Asserts (found : AttemptRecord) (x : Assertion) (r : Result FailoverDecision) : Prop :=
  ∀ d, r = .ok d → d.identity = found.identity ∧ d.assertion = x

namespace Engine

variable {e : Engine} {found : AttemptRecord} {x : Assertion} {d : FailoverDecision}

theorem asserts_error (s : Status) : Asserts found x (.error s) := fun _ h => (by cases h)

theorem asserts_settleUndurable (hi : d.identity = found.identity) (hx : d.assertion = x) :
    Asserts found x (e.settleUndurable d).2 := by
  rintro d' ⟨⟩
  exact ⟨hi, hx⟩

theorem asserts_commitDecision (hi : d.identity = found.identity) (hx : d.assertion = x) :
    Asserts found x (.ok (e.commitDecision d).2) := by
  rintro d' ⟨⟩
  obtain ⟨_, _, _, _, hd⟩ := @commitDecision_recorded e d
  rw [hd]
  exact ⟨hi, hx⟩

theorem asserts_afterWrite {written : LineageStore × Status} {detail : String}
    {k : Engine → Engine × Result FailoverDecision}
    (h : ∀ e', Asserts found x (k e').2) : Asserts found x (e.afterWrite written detail k).2 :=
  fun d hd => h _ d (afterWrite_ok hd).2

/-- An answer behind a write of an attempt means that the write was accepted. -/
theorem accepts_of_answer (h : e.store.StoreOk) {w : AttemptWrite} {r : AttemptRecord}
    {detail : String} {k : Engine → Engine × Result FailoverDecision}
    (hd : (e.afterWrite (e.updateAttempt w r) detail k).2 = .ok d) :
    e.store.accepts (.attempt w r) = true :=
  (commit_isOk_iff h).mp (afterWrite_ok hd).1

/-- An application report asserts an acknowledgement, whatever becomes of it. -/
theorem recordFound_asserts {report : ApplicationReport} :
    Asserts found .acknowledgement (e.recordFound found report).2 := by
  refine recordFound_cases (P := fun out => Asserts found .acknowledgement out.2)
    (fun _ _ _ _ => asserts_error _) (fun _ _ _ => asserts_settleUndurable rfl rfl)
    fun _ _ _ _ _ => asserts_afterWrite fun e' => asserts_commitDecision ?_ ?_
  · unfold applyAttempt
    dsimp only
    split <;> rfl
  · unfold applyAttempt
    dsimp only
    split <;> rfl

/-- An application report that is answered, for an authorized attempt, was written. -/
theorem recordFound_accepts (h : e.store.StoreOk) {report : ApplicationReport}
    (hp : found.phase = .authorized) (hd : (e.recordFound found report).2 = .ok d) :
    ∃ w r, e.applicationAmendments found report = [(w, r)] ∧ r.identity = found.identity ∧
      e.store.accepts (.attempt w r) = true := by
  revert hd
  refine recordFound_cases (P := fun out => out.2 = .ok d → ∃ w r,
      e.applicationAmendments found report = [(w, r)] ∧ r.identity = found.identity ∧
        e.store.accepts (.attempt w r) = true)
    (fun _ _ _ _ hd => ?_) (fun _ _ hconflict _ => ?_) fun h1 h2 h3 _ _ hd => ?_
  · cases hd
  · rw [hp] at hconflict
    cases hconflict
  · refine ⟨_, _, ?_, applyAttempt_identity found report, accepts_of_answer h hd⟩
    rw [applicationAmendments, if_neg (by simp [h1, h2, h3, hp])]

/-- What a verification asserts: the effect, for an attempt that is committed or verified
already, or the rung it has come to. -/
theorem verifyFound_asserts {report : VerificationReport} :
    (found.phase = .committed ∨ found.phase = .verified) ∧
        Asserts found .verifiedEffect (e.verifyFound found report).2 ∨
      found.phase ≠ .acknowledged ∧ Asserts found .observation (e.verifyFound found report).2 ∨
      found.phase = .acknowledged ∧ report.effectObserved = false ∧
        Asserts found .acknowledgement (e.verifyFound found report).2 ∨
      found.phase = .acknowledged ∧ report.effectObserved = true ∧
        Asserts found .verifiedEffect (e.verifyFound found report).2 := by
  refine verifyFound_cases (P := fun out =>
      (found.phase = .committed ∨ found.phase = .verified) ∧ Asserts found .verifiedEffect out.2 ∨
      found.phase ≠ .acknowledged ∧ Asserts found .observation out.2 ∨
      found.phase = .acknowledged ∧ report.effectObserved = false ∧
        Asserts found .acknowledgement out.2 ∨
      found.phase = .acknowledged ∧ report.effectObserved = true ∧
        Asserts found .verifiedEffect out.2)
    (fun _ _ _ _ => ?_) (fun hdone _ _ => ?_) (fun hp _ _ => ?_) (fun _ hp ho => ?_)
    fun _ hp ho => ?_
  · by_cases hp : found.phase = .acknowledged
    · cases ho : report.effectObserved with
      | false => exact .inr (.inr (.inl ⟨hp, rfl, asserts_error _⟩))
      | true => exact .inr (.inr (.inr ⟨hp, rfl, asserts_error _⟩))
    · exact .inr (.inl ⟨hp, asserts_error _⟩)
  · exact .inl ⟨hdone, asserts_settleUndurable rfl rfl⟩
  · exact .inr (.inl ⟨hp, asserts_settleUndurable rfl rfl⟩)
  · refine .inr (.inr (.inl ⟨hp, ho, ?_⟩))
    exact asserts_afterWrite fun _ => asserts_commitDecision rfl rfl
  · refine .inr (.inr (.inr ⟨hp, ho, ?_⟩))
    exact asserts_afterWrite fun _ => asserts_afterWrite fun _ => asserts_commitDecision rfl rfl

/-- A verification with the effect observed that is answered, for an acknowledged attempt, was
written. -/
theorem verifyFound_accepts (h : e.store.StoreOk) {report : VerificationReport}
    (hp : found.phase = .acknowledged) (ho : report.effectObserved = true)
    (hd : (e.verifyFound found report).2 = .ok d) :
    ∃ w r rest, verificationAmendments found report = (w, r) :: rest ∧
      r.identity = found.identity ∧ e.store.accepts (.attempt w r) = true := by
  revert hd
  refine verifyFound_cases (P := fun out => out.2 = .ok d → ∃ w r rest,
      verificationAmendments found report = (w, r) :: rest ∧ r.identity = found.identity ∧
        e.store.accepts (.attempt w r) = true)
    (fun _ _ _ _ hd => ?_) (fun hdone _ _ _ => ?_) (fun hphase _ _ _ => absurd hp hphase)
    (fun _ _ hn _ => ?_) fun hid _ _ hd => ?_
  · cases hd
  · rw [hp] at hdone
    rcases hdone with hdone | hdone <;> cases hdone
  · rw [ho] at hn
    cases hn
  · have ha : verificationAmendments found report =
        [(.update, movedTo found .verified .effectVerified report.detail),
          (.completion, { movedTo found .verified .effectVerified report.detail with
            phase := .committed })] := by
      rw [verificationAmendments, if_neg (by simp [hid, hp]), if_neg (by simp [ho])]
    exact ⟨_, _, _, ha, rfl, accepts_of_answer h hd⟩

/-- A rollback asserts the authorization of an attempt that holds authority, unless it was rolled
back before. -/
theorem rollbackFound_asserts (h : e.store.StoreOk) {req : RollbackRequest}
    (hd : (e.rollbackFound found req).2 = .ok d) : d.identity = found.identity ∧
      (d.idempotentReplay = true ∨ d.assertion = .observation ∨ d.assertion = .authorization ∧
        compareAuthority req.expected (e.currentAuthority req.subject found.subjectGeneration) =
          [] ∧ attemptPhaseHoldsAuthority found.phase = true ∧ e.store.failed = false) := by
  revert hd
  refine rollbackFound_cases (P := fun out => out.2 = .ok d → d.identity = found.identity ∧
      (d.idempotentReplay = true ∨ d.assertion = .observation ∨ d.assertion = .authorization ∧
        compareAuthority req.expected (e.currentAuthority req.subject found.subjectGeneration) =
          [] ∧ attemptPhaseHoldsAuthority found.phase = true ∧ e.store.failed = false))
    (fun _ _ hd => ?_) (fun _ _ _ hd => ?_) (fun _ _ _ hd => ?_) fun hmatch hholds hd => ?_
  · cases hd
    exact ⟨rfl, .inr (.inl rfl)⟩
  · cases hd
    exact ⟨rfl, .inl rfl⟩
  · cases hd
    exact ⟨rfl, .inr (.inl rfl)⟩
  · have haccepts := accepts_not_failed (accepts_of_answer h hd)
    have hrecorded : Asserts found .authorization (e.rollbackHolder found req).2 :=
      asserts_afterWrite fun _ => asserts_afterWrite fun _ => asserts_commitDecision rfl rfl
    obtain ⟨hi, hx⟩ := hrecorded d hd
    exact ⟨hi, .inr (.inr ⟨hx, hmatch, hholds, haccepts⟩)⟩

theorem revalidationDecision_asserts {verdict : RevalidationVerdict} :
    (e.revalidationDecision found verdict).identity = found.identity ∧
      (verdict ≠ .applied → (e.revalidationDecision found verdict).assertion = .observation) ∧
      (verdict = .applied → (e.revalidationDecision found verdict).assertion = .authorization) := by
  cases verdict with
  | notApplied | unknown | undeclared => exact ⟨rfl, fun _ => rfl, fun h => (by cases h)⟩
  | applied =>
    unfold revalidationDecision verdictDecision
    dsimp only
    refine ⟨?_, fun h => absurd rfl h, fun _ => ?_⟩
    · split <;> split <;> rfl
    · split <;> split <;> rfl

/-- A revalidation asserts an authorization when the verdict is that the attempt is applied. -/
theorem resolveFound_asserts (h : e.store.StoreOk) {req : RevalidationRequest}
    (hd : (e.resolveFound found req).2 = .ok d) : d.identity = found.identity ∧
      (d.idempotentReplay = true ∨ d.assertion = .observation ∨ d.assertion = .authorization ∧
        found.revalidated = false ∧ found.phase = .interrupted ∧ req.verdict = .applied ∧
          e.store.failed = false) := by
  revert hd
  refine resolveFound_cases (P := fun out => out.2 = .ok d → d.identity = found.identity ∧
      (d.idempotentReplay = true ∨ d.assertion = .observation ∨ d.assertion = .authorization ∧
        found.revalidated = false ∧ found.phase = .interrupted ∧ req.verdict = .applied ∧
          e.store.failed = false))
    (fun _ hd => ?_) (fun _ _ _ hd => ?_) fun hr hp _ hd => ?_
  · cases hd
    unfold settledDecision
    dsimp only
    split <;> exact ⟨rfl, .inl rfl⟩
  · cases hd
    exact ⟨rfl, .inr (.inl rfl)⟩
  have haccepts := accepts_not_failed (accepts_of_answer h hd)
  obtain ⟨hi, hother, happlied⟩ := @revalidationDecision_asserts e found req.verdict
  by_cases hv : req.verdict = .applied
  · obtain ⟨hi, hx⟩ := asserts_afterWrite (k := fun e' =>
      e'.answer (e.revalidationDecision found req.verdict))
      (fun _ => asserts_commitDecision hi (happlied hv)) d hd
    exact ⟨hi, .inr (.inr ⟨hx, hr, hp, hv, haccepts⟩)⟩
  · obtain ⟨hi, hx⟩ := asserts_afterWrite (k := fun e' =>
      e'.answer (e.revalidationDecision found req.verdict))
      (fun _ => asserts_commitDecision hi (hother hv)) d hd
    exact ⟨hi, .inr (.inl hx)⟩

end Engine

/-! ## The ladder -/

section Ladder

variable {actions : List Action} {e : Engine} {d : FailoverDecision}

theorem System.run_engineOk (hrun : System.run actions = .up e) : EngineOk False e := by
  have h := @System.run_ok False actions False.elim
  rwa [hrun] at h

/-- The attempts of a process whose store has not failed are borne out by the run. -/
theorem System.run_attempts (hrun : System.run actions = .up e) (hf : e.store.failed = false)
    {q : AttemptRecord} (hq : q ∈ e.state.attempts) : Earned actions q := by
  have hhistory : (System.run actions).history = e.store.medium.history := by
    rw [hrun]
    rfl
  refine ((Engine.ok_state (System.run_engineOk hrun) hf).known q hq).earned fun seq w r hm => ?_
  rw [← hhistory] at hm
  exact System.run_earned hm

theorem not_failed_of_available (h : EngineOk False e) (hu : e.unavailable = none) :
    e.store.failed = false := by
  by_contra hf
  obtain ⟨s, hs⟩ := Engine.unavailable_of_failed h.stops (by simpa using hf)
  rw [hu] at hs
  cases hs

theorem recordApplication_reached (hrun : System.run actions = .up e) {report : ApplicationReport}
    (ho : ¬ e.Overstates (.recordApplication report))
    (hd : (e.recordApplication report).2 = .ok d) :
    Reached (actions ++ [.perform (.recordApplication report)]) d.identity d.assertion := by
  have hok := System.run_engineOk hrun
  revert hd
  refine Engine.recordApplication_cases (P := fun out => out.2 = .ok d →
      Reached (actions ++ [.perform (.recordApplication report)]) d.identity d.assertion)
    (fun _ _ hd => ?_) (fun _ _ hd => ?_) fun found hu hfind hd => ?_
  · cases hd
  · cases hd
  have ht := Engine.target_recordApplication hu hfind
  have hearned :=
    System.run_attempts hrun (not_failed_of_available hok hu) (Engine.target_mem ht)
  obtain ⟨hi, hx⟩ := Engine.recordFound_asserts d hd
  rw [hx, hi]
  by_cases hz : found.applierIncarnation.isZero = true
  · have hnew : found.phase = .authorized ∧ report.accepted = true := by
      by_contra hn
      exact ho ⟨found, ht, hn, hz⟩
    obtain ⟨w, r, ha, hr, hw⟩ :=
      @Engine.recordFound_accepts e.advance found d hok.store report hnew.1 hd
    rw [← hr]
    refine @Shown.landed actions e _ _ _ w r [] hrun rfl ?_ hw ⟨report, rfl, hnew.2⟩
    dsimp only [Engine.amendments]
    rw [ht]
    exact ha
  · exact Shown.append (hearned.applied (.inr (by simpa using hz))) _

theorem recordVerification_reached (hrun : System.run actions = .up e)
    {report : VerificationReport} (ho : ¬ e.Overstates (.recordVerification report))
    (hd : (e.recordVerification report).2 = .ok d) :
    Reached (actions ++ [.perform (.recordVerification report)]) d.identity d.assertion := by
  have hok := System.run_engineOk hrun
  revert hd
  refine Engine.recordVerification_cases (P := fun out => out.2 = .ok d →
      Reached (actions ++ [.perform (.recordVerification report)]) d.identity d.assertion)
    (fun _ _ hd => ?_) (fun _ _ hd => ?_) fun found hu hfind hd => ?_
  · cases hd
  · cases hd
  have ht := Engine.target_recordVerification hu hfind
  have hearned :=
    System.run_attempts hrun (not_failed_of_available hok hu) (Engine.target_mem ht)
  rcases @Engine.verifyFound_asserts e.advance found report with
    ⟨hp, h⟩ | ⟨-, h⟩ | ⟨hp, -, h⟩ | ⟨hp, hobserved, h⟩
  · obtain ⟨hi, hx⟩ := h d hd
    rw [hx, hi]
    refine Shown.append (hearned.effective ?_) _
    rcases hp with hp | hp
    · refine .inr ⟨hp, ?_⟩
      by_contra hlast
      exact ho ⟨found, ht, hp, hlast⟩
    · exact .inl hp
  · obtain ⟨hi, hx⟩ := h d hd
    rw [hx]
    trivial
  · obtain ⟨hi, hx⟩ := h d hd
    rw [hx, hi]
    exact Shown.append (hearned.applied (.inl hp)) _
  · obtain ⟨hi, hx⟩ := h d hd
    obtain ⟨w, r, rest, ha, hr, hw⟩ :=
      @Engine.verifyFound_accepts e.advance found d hok.store report hp hobserved hd
    rw [hx, hi, ← hr]
    refine @Shown.landed actions e _ _ _ w r rest hrun rfl ?_ hw (.inl ⟨report, rfl, hobserved⟩)
    dsimp only [Engine.amendments]
    rw [ht]
    exact ha

theorem requestRollback_reached (hrun : System.run actions = .up e) {req : RollbackRequest}
    (ho : ¬ e.Overstates (.requestRollback req)) (hd : (e.requestRollback req).2 = .ok d)
    (hreplay : d.idempotentReplay = false) :
    Reached (actions ++ [.perform (.requestRollback req)]) d.identity d.assertion := by
  have hok := System.run_engineOk hrun
  revert hd
  refine Engine.requestRollback_cases (P := fun out => out.2 = .ok d →
      Reached (actions ++ [.perform (.requestRollback req)]) d.identity d.assertion)
    (fun _ hd => ?_) (fun _ _ _ hd => ?_) (fun _ _ _ hd => ?_) fun found hc hk hfind hd => ?_
  · cases hd
  · cases hd
    cases hreplay
  · cases hd
  have ht := Engine.target_requestRollback hc hk hfind
  obtain ⟨hi, h | h | ⟨hx, hmatch, hholds, hf⟩⟩ :=
    @Engine.rollbackFound_asserts e.advance found d hok.store req hd
  · rw [hreplay] at h
    cases h
  · rw [h]
    trivial
  have hearned := System.run_attempts hrun hf (Engine.target_mem ht)
  rw [hx, hi]
  refine Shown.append ?_ _
  by_cases hp : found.phase = .committed
  · refine (hearned.committed hp).resolve_left fun hcut => ?_
    exact ho ⟨found, ht, hp, hcut, hmatch⟩
  · refine hearned.granted ?_
    revert hholds hp
    cases found.phase <;> simp [attemptPhaseHoldsAuthority]

theorem resolveInterrupted_reached (hrun : System.run actions = .up e) {req : RevalidationRequest}
    (ho : ¬ e.Overstates (.resolveInterrupted req)) (hd : (e.resolveInterrupted req).2 = .ok d)
    (hreplay : d.idempotentReplay = false) :
    Reached (actions ++ [.perform (.resolveInterrupted req)]) d.identity d.assertion := by
  have hok := System.run_engineOk hrun
  revert hd
  refine Engine.resolveInterrupted_cases (P := fun out => out.2 = .ok d →
      Reached (actions ++ [.perform (.resolveInterrupted req)]) d.identity d.assertion)
    (fun _ hd => ?_) (fun _ _ _ _ hd => ?_) (fun _ _ _ _ hd => ?_)
    fun found hc hz hepoch hfind hd => ?_
  · cases hd
  · cases hd
  · cases hd
  have ht := Engine.target_resolveInterrupted hc hz hepoch hfind
  obtain ⟨hi, h | h | ⟨hx, hr, hp, hv, hf⟩⟩ :=
    @Engine.resolveFound_asserts e.advance found d hok.store req hd
  · rw [hreplay] at h
    cases h
  · rw [h]
    trivial
  have hearned := System.run_attempts hrun hf (Engine.target_mem ht)
  rw [hx, hi]
  refine Shown.append ((hearned.interrupted hp hr).resolve_left fun hlast => ?_) _
  refine ho ⟨found, ht, hp, ?_, hv⟩
  obtain ⟨x, hmem, hcode⟩ := Option.map_eq_some_iff.mp hlast
  exact List.any_eq_true.mpr ⟨x, List.mem_of_getLast? hmem, decide_eq_true hcode⟩

end Ladder

/-- The decision of an operation that moves an attempt along, unless it is a replay, asserts no more
than the attempt has reached in the run, when the operation does not find what it overstates. -/
theorem assertion_ladder {actions : List Action} {e : Engine} (hrun : System.run actions = .up e)
    {op : Operation} (hop : op.names.isSome = true) (ho : ¬ e.Overstates op)
    {d : FailoverDecision} (hd : (e.perform op).2 = .decision (.ok d))
    (hreplay : d.idempotentReplay = false) :
    Reached (actions ++ [.perform op]) d.identity d.assertion := by
  cases op with
  | recordApplication report =>
    exact recordApplication_reached hrun ho (Answer.decision.inj hd)
  | recordVerification report =>
    exact recordVerification_reached hrun ho (Answer.decision.inj hd)
  | requestRollback req =>
    exact requestRollback_reached hrun ho (Answer.decision.inj hd) hreplay
  | resolveInterrupted req =>
    exact resolveInterrupted_reached hrun ho (Answer.decision.inj hd) hreplay
  | _ => cases hop

/-! ## Two reports -/

namespace Sample

/-- The attempt that was granted, and the decision that answers the applier's report on it. -/
def reported (e : Engine) (accepted : Bool) : Option (AttemptRecord × FailoverDecision) :=
  match e.state.attempts with
  | [r] =>
    match (e.perform (.recordApplication (applied r accepted))).2 with
    | .decision (.ok d) => some (r, d)
    | _ => none
  | _ => none

theorem reported_answer {e : Engine} {accepted : Bool} {r : AttemptRecord} {d : FailoverDecision}
    (h : reported e accepted = some (r, d)) :
    (e.perform (.recordApplication (applied r accepted))).2 = .decision (.ok d) := by
  unfold reported at h
  split at h
  · split at h
    · rename_i hd
      cases h
      exact hd
    · cases h
  · cases h

end Sample

/-- The applier refuses the first attempt that was granted, and no report has accepted it: the
decision asserts an acknowledgement. -/
theorem refusal_asserts_acknowledgement : ∃ (actions : List Action) (e : Engine) (op : Operation)
    (d : FailoverDecision), System.run actions = .up e ∧ op.names.isSome = true ∧
      (e.perform op).2 = .decision (.ok d) ∧ d.idempotentReplay = false ∧
        ¬ Reached (actions ++ [.perform op]) d.identity d.assertion := by
  obtain ⟨e, he, hp⟩ := @System.of_serves (System.run Sample.grantedOnce)
    (fun e => (Sample.reported e false).any fun x : AttemptRecord × FailoverDecision =>
      decide (x.2.assertion = .acknowledgement) && !x.2.idempotentReplay) (by decide +kernel)
  obtain ⟨⟨r, d⟩, hx, hp⟩ := (Option.any_eq_true _ _).mp hp
  simp only [Bool.and_eq_true, decide_eq_true_eq, Bool.not_eq_true'] at hp
  refine ⟨_, e, _, d, he, rfl, Sample.reported_answer hx, hp.2, ?_⟩
  rw [hp.1]
  rintro ⟨_, op, _, _, _, hperforms, -, -, -, report, rfl, haccepted⟩
  have hm := hperforms.mem
  simp only [Sample.grantedOnce, Sample.booted, List.mem_append, List.mem_cons,
    List.not_mem_nil, or_false, reduceCtorEq, false_or, Action.perform.injEq, Sample.down,
    Sample.usable, Operation.recordApplication.injEq] at hm
  rw [hm] at haccepted
  cases haccepted

/-- The applier accepts the first attempt that was granted. -/
theorem assertion_ladder_sample : ∃ (actions : List Action) (e : Engine) (op : Operation)
    (d : FailoverDecision), System.run actions = .up e ∧
      (e.perform op).2 = .decision (.ok d) ∧ d.assertion = .acknowledgement ∧
        Reached (actions ++ [.perform op]) d.identity d.assertion := by
  obtain ⟨e, he, hp⟩ := @System.of_serves (System.run Sample.grantedOnce)
    (fun e : Engine => (Sample.reported e true).any fun x : AttemptRecord × FailoverDecision =>
      decide (x.2.assertion = .acknowledgement) && (!x.2.idempotentReplay &&
        (e.target (.recordApplication (Sample.applied x.1 true))).all
          fun found : AttemptRecord => decide (found.phase = .authorized))) (by decide +kernel)
  obtain ⟨⟨r, d⟩, hx, hp⟩ := (Option.any_eq_true _ _).mp hp
  simp only [Bool.and_eq_true, decide_eq_true_eq, Bool.not_eq_true'] at hp
  obtain ⟨hassertion, hreplay, hfound⟩ := hp
  refine ⟨_, e, _, d, he, Sample.reported_answer hx, hassertion,
    assertion_ladder he rfl ?_ (Sample.reported_answer hx) hreplay⟩
  rintro ⟨found, ht, hn, -⟩
  rw [ht] at hfound
  exact hn ⟨of_decide_eq_true hfound, rfl⟩

end LinkFailover
