import LinkFailover.Conversations
import LinkFailover.KeyedGrants
import LinkFailover.Ladder
import LinkFailover.Memories

/-!
# Receipts

An answer that calls itself durable speaks of a record. It has the place of that record in the
lineage, and the record stays there whatever happens next. This is what a caller has in its hands,
also at the other end of a connection.

* `FailoverDecision.Stands`: the record that an answer speaks of.
* `Engine.perform_filed`: an answer is recorded before it is given, or it comes from the index.
* `answers_recorded`: every durable answer of a run.
* `receipts`: every durable decision that a client returns.
-/

namespace LinkFailover

open Codec

/-! ## Decisions in a lineage -/

namespace FailoverDecision

/-- The answer to a decision whose record has this place. -/
def recordedAt (d : FailoverDecision) (seq : LineageSeq) : FailoverDecision :=
  let recorded := { d with lineageSeq := seq, durable := true }
  { recorded with decisionId := recorded.computeId }

/-- An attempt with the authority that a decision grants. -/
structure Backs (r : AttemptRecord) (d : FailoverDecision) : Prop where
  identity : r.identity = d.identity
  attemptId : r.attemptId = d.attemptId
  authorized : r.phase = .authorized
  replacement : r.replacement = d.replacement
  replacementGeneration : r.replacementGeneration = d.replacementGeneration
  authority : r.authority = d.authority

/-- An attempt was given the authority of a grant. -/
def Backed (d : FailoverDecision) (entries : List Entry) : Prop :=
  d.kind = .grant → ∃ seq r, (seq, .attempt .update r) ∈ entries ∧ Backs r d

/-- The record of a decision, behind the one of its authority. -/
def Filed (d : FailoverDecision) (entries : List Entry) : Prop :=
  ∃ before after record, entries = before ++ (d.lineageSeq, .decision record) :: after ∧
    d = record.recordedAt d.lineageSeq ∧ d.Backed before

/-- An answer speaks of a record: it is its decision, or it says it again. -/
def Stands (d : FailoverDecision) (entries : List Entry) : Prop :=
  ∃ d₀ : FailoverDecision, d₀.Filed entries ∧ d.lineageSeq = d₀.lineageSeq ∧
    d.assertion = d₀.assertion ∧ (d = d₀ ∨ d.Restates d₀)

theorem Filed.mono {d : FailoverDecision} {entries entries' : List Entry} (h : d.Filed entries)
    (hp : entries <+: entries') : d.Filed entries' := by
  obtain ⟨before, after, record, rfl, hd, hb⟩ := h
  obtain ⟨more, rfl⟩ := hp
  exact ⟨before, after ++ more, record, by rw [List.append_assoc, List.cons_append], hd, hb⟩

theorem Stands.mono {d : FailoverDecision} {entries entries' : List Entry} (h : d.Stands entries)
    (hp : entries <+: entries') : d.Stands entries' := by
  obtain ⟨d₀, hf, h⟩ := h
  exact ⟨d₀, hf.mono hp, h⟩

theorem Filed.stands {d : FailoverDecision} {entries : List Entry} (h : d.Filed entries) :
    d.Stands entries := ⟨d, h, rfl, rfl, .inl rfl⟩

theorem Backed.of_kind {d : FailoverDecision} {entries : List Entry} (h : d.kind ≠ .grant) :
    d.Backed entries := fun hk => absurd hk h

theorem Backed.recordedAt {d : FailoverDecision} {entries : List Entry} (h : d.Backed entries)
    (seq : LineageSeq) : (d.recordedAt seq).Backed entries := by
  intro hk
  obtain ⟨place, r, hm, hb⟩ := h hk
  exact ⟨place, r, hm, hb.identity, hb.attemptId, hb.authorized, hb.replacement,
    hb.replacementGeneration, hb.authority⟩

end FailoverDecision

/-! ## Operations -/

/-- What an operation answers as durable is recorded. -/
def Attests (out : Engine × Result FailoverDecision) : Prop :=
  ∀ d, out.2 = .ok d → d.durable = true → d.Filed (lineage out.1.store.medium.history)

namespace Engine

variable {e : Engine} {d : FailoverDecision}

/-- The entries behind a decision do not disturb it. -/
theorem filed_commits {K : Payload → Applies → Prop} {s s' : LineageStore}
    (h : d.Filed (lineage s.medium.history)) (hc : Commits K s s') :
    d.Filed (lineage s'.medium.history) := by
  obtain ⟨entries, hl, -⟩ := hc.lineage
  exact h.mono ⟨entries, hl.symm⟩

theorem commitDecision_filed (hb : d.Backed (lineage e.store.medium.history))
    (hd : (e.commitDecision d).2.durable = true) :
    (e.commitDecision d).2.Filed (lineage (e.commitDecision d).1.store.medium.history) := by
  unfold commitDecision at hd ⊢
  dsimp only at hd ⊢
  cases hok : (e.store.commit (.decision d) fun _ s => s).2.isOk with
  | false =>
    rw [hok] at hd
    cases hd
  | true =>
    obtain ⟨-, -, seq, -, -, hstate, -, hh⟩ := commit_ok hok
    have hlast : (e.store.commit (.decision d) fun _ s => s).1.state.lastSeq = seq := by
      rw [hstate]
      rfl
    rw [if_neg (by simp), hlast]
    refine ⟨_, [], d, ?_, rfl, hb.recordedAt seq⟩
    change lineage (e.store.commit (.decision d) fun _ s => s).1.medium.history = _
    rw [hh, lineage_append, lineage_committed]

theorem settleUndurable_attests : Attests (e.settleUndurable d) := by
  rintro d' ⟨⟩ hd
  cases hd

theorem answer_attests (hk : d.kind ≠ .grant) : Attests (e.answer d) := by
  rintro d' ⟨⟩ hd
  exact commitDecision_filed (.of_kind hk) hd

theorem answerAndCheckpoint_attests (hk : d.kind ≠ .grant) : Attests (e.answerAndCheckpoint d) := by
  rintro d' ⟨⟩ hd
  exact filed_commits (commitDecision_filed (.of_kind hk) hd)
    (@maybeCheckpoint_commits (fun _ _ => True) _)

theorem commitIdempotency_filed {d' : FailoverDecision} {key : Digest}
    (h : d.Filed (lineage e.store.medium.history)) :
    d.Filed (lineage (e.commitIdempotency d' key).store.medium.history) :=
  filed_commits h (@commitIdempotency_commits (fun _ _ => True) _ _ _ fun _ _ _ => trivial)

theorem settleDurable_attests {key : Digest} (hb : d.Backed (lineage e.store.medium.history)) :
    Attests (e.settleDurable d key) := by
  rintro d' ⟨⟩ hd
  exact filed_commits (commitIdempotency_filed (commitDecision_filed hb hd))
    (@maybeCheckpoint_commits (fun _ _ => True) _)

theorem afterWrite_attests {written : LineageStore × Status} {detail : String}
    {k : Engine → Engine × Result FailoverDecision}
    (h : written.2.isOk = true → Attests (k (e.withWrite written))) :
    Attests (e.afterWrite written detail k) := by
  intro d' hd
  obtain ⟨hok, hd'⟩ := afterWrite_ok hd
  rw [afterWrite_true hok]
  exact h hok d' hd'

/-- The record of the authority that a decision grants. -/
theorem updateAttempt_backs {r : AttemptRecord} (hok : (e.updateAttempt .update r).2.isOk = true)
    (hb : FailoverDecision.Backs r d) :
    d.Backed (lineage (e.updateAttempt .update r).1.medium.history) := by
  obtain ⟨seq, hl⟩ := commit_ok_lineage hok
  refine fun _ => ⟨seq, r, ?_, hb⟩
  rw [updateAttempt, writeAttempt, hl]
  exact List.mem_append_right _ (List.mem_singleton_self _)

/-- What a plan grants is granted to the attempt that it writes. -/
theorem planFailover_backs {req : FailoverRequest} {a : AttemptRecord}
    (h : e.planFailover req = .grant d a) :
    FailoverDecision.Backs { a with phase := .authorized } d := by
  obtain ⟨link, c, hgates, hgrant⟩ := planFailover_grant h
  cases hgrant
  exact ⟨rfl, rfl, rfl, rfl, rfl, rfl⟩

/-- A request under a key that has been answered. -/
theorem planFailover_replay {req : FailoverRequest} (h : e.planFailover req = .replay d) :
    e.checkRequest req = none ∧
      ∃ x, e.state.findIdempotency req.idempotencyKey = some x ∧ d = e.replayDecision x := by
  have hu := @planFailover_ungranted e req
  unfold planFailover at h
  cases hc : e.checkRequest req with
  | some s =>
    rw [hc] at h
    cases h
  | none =>
    rw [hc] at h
    dsimp only at h
    cases hx : e.state.findIdempotency req.idempotencyKey with
    | some x =>
      rw [hx] at h
      cases h
      exact ⟨rfl, x, rfl, rfl⟩
    | none =>
      rw [hx] at h
      have hfresh := @planSubject_fresh e req
      dsimp only at h
      rw [h] at hfresh
      exact hfresh.elim

theorem execute_attests {req : FailoverRequest} {plan : FailoverPlan} (hu : Ungranted plan)
    (hr : ∀ d, plan ≠ .replay d)
    (hg : ∀ d a, plan = .grant d a → FailoverDecision.Backs { a with phase := .authorized } d) :
    Attests (e.execute req plan) := by
  cases plan with
  | fail s =>
    intro d hd
    cases hd
  | replay d => exact absurd rfl (hr d)
  | settle d durable =>
    cases durable with
    | true => exact settleDurable_attests (.of_kind hu)
    | false => exact settleUndurable_attests
  | record d r => exact afterWrite_attests fun _ => settleDurable_attests (.of_kind hu)
  | grant d a =>
    exact afterWrite_attests fun _ => afterWrite_attests fun hok =>
      settleDurable_attests (updateAttempt_backs hok (hg d a rfl))

theorem attests_error {s : Status} : Attests (e, (.error s)) := by
  intro d hd
  cases hd

theorem recordApplication_attests (report : ApplicationReport) :
    Attests (e.recordApplication report) := by
  refine recordApplication_cases (P := Attests) (fun _ _ => attests_error)
    (fun _ _ => attests_error) fun found _ _ => ?_
  refine recordFound_cases (P := Attests) (fun _ _ _ _ => attests_error)
    (fun _ _ _ => settleUndurable_attests) fun _ _ _ _ _ => ?_
  refine afterWrite_attests fun _ => answerAndCheckpoint_attests ?_
  unfold applyAttempt
  dsimp only
  split
  · exact fun hk => by cases hk
  · exact fun hk => by cases hk

theorem recordVerification_attests (report : VerificationReport) :
    Attests (e.recordVerification report) := by
  refine recordVerification_cases (P := Attests) (fun _ _ => attests_error)
    (fun _ _ => attests_error) fun found _ _ => ?_
  refine verifyFound_cases (P := Attests) (fun _ _ _ _ => attests_error)
    (fun _ _ _ => settleUndurable_attests) (fun _ _ _ => settleUndurable_attests)
    (fun _ _ _ => ?_) fun _ _ _ => ?_
  · exact afterWrite_attests fun _ => answer_attests fun hk => by cases hk
  · exact afterWrite_attests fun _ => afterWrite_attests fun _ =>
      answerAndCheckpoint_attests fun hk => by cases hk

theorem rollbackFound_attests (found : AttemptRecord) (req : RollbackRequest) :
    Attests (e.rollbackFound found req) := by
  refine rollbackFound_cases (P := Attests) (fun _ _ => settleUndurable_attests)
    (fun _ _ _ => settleUndurable_attests) (fun _ _ _ => settleUndurable_attests) fun _ _ => ?_
  unfold rollbackHolder
  dsimp only
  refine afterWrite_attests fun _ => afterWrite_attests fun _ => ?_
  rintro d ⟨⟩ hd
  exact commitIdempotency_filed (commitDecision_filed (.of_kind fun hk => by cases hk) hd)

theorem revalidationDecision_kind (found : AttemptRecord) (verdict : RevalidationVerdict) :
    (e.revalidationDecision found verdict).kind = .revalidate := by
  cases verdict with
  | notApplied | unknown | undeclared => rfl
  | applied =>
    unfold revalidationDecision verdictDecision
    dsimp only
    split <;> split <;> rfl

theorem resolveInterrupted_attests (req : RevalidationRequest) :
    Attests (e.resolveInterrupted req) := by
  refine resolveInterrupted_cases (P := Attests) (fun _ => attests_error)
    (fun _ _ _ _ => attests_error) (fun _ _ _ _ => attests_error) fun found _ _ _ _ => ?_
  refine resolveFound_cases (P := Attests) (fun _ => settleUndurable_attests)
    (fun _ _ _ => settleUndurable_attests) fun _ _ _ => ?_
  refine afterWrite_attests fun _ => answer_attests ?_
  rw [revalidationDecision_kind]
  exact fun hk => by cases hk

/-- A durable answer was recorded before it was given, or it was found in the index. -/
theorem perform_filed {op : Operation} (hd : (e.perform op).2 = .decision (.ok d))
    (hdurable : d.durable = true) :
    d.Filed (lineage (e.perform op).1.store.medium.history) ∨
      ∃ x, e.AnswersFrom op x ∧ d = e.advance.replayDecision x := by
  cases op with
  | publishFailure | publishReplacement | setPolicy | setTopology | checkpoint | close => cases hd
  | recordApplication report =>
    exact .inl (recordApplication_attests report d (Answer.decision.inj hd) hdurable)
  | recordVerification report =>
    exact .inl (recordVerification_attests report d (Answer.decision.inj hd) hdurable)
  | resolveInterrupted req =>
    exact .inl (resolveInterrupted_attests req d (Answer.decision.inj hd) hdurable)
  | requestRollback req =>
    replace hd : (e.requestRollback req).2 = .ok d := Answer.decision.inj hd
    change d.Filed (lineage (e.requestRollback req).1.store.medium.history) ∨ _
    revert hd
    refine requestRollback_cases (P := fun out => out.2 = .ok d →
      d.Filed (lineage out.1.store.medium.history) ∨
        ∃ x, e.AnswersFrom (.requestRollback req) x ∧ d = e.advance.replayDecision x)
      (fun _ hd => ?_) (fun x hc hx hd => ?_) (fun _ _ _ hd => ?_) fun found _ _ _ hd => ?_
    · cases hd
    · cases hd
      exact .inr ⟨x, ⟨hc, hx⟩, rfl⟩
    · cases hd
    · exact .inl (rollbackFound_attests found req d hd hdurable)
  | requestFailover req =>
    replace hd : (e.requestFailover req).2 = .ok d := Answer.decision.inj hd
    change d.Filed (lineage (e.requestFailover req).1.store.medium.history) ∨ _
    unfold requestFailover at hd ⊢
    cases hu : e.unavailable with
    | some s =>
      rw [hu] at hd
      cases hd
    | none =>
      rw [hu] at hd
      dsimp only at hd ⊢
      by_cases hr : ∃ d', e.advance.planFailover req = .replay d'
      · obtain ⟨d', hr⟩ := hr
        obtain ⟨hcheck, x, hx, rfl⟩ := planFailover_replay hr
        rw [hr] at hd
        cases hd
        exact .inr ⟨x, ⟨hu, hcheck, hx⟩, rfl⟩
      · exact .inl (execute_attests planFailover_ungranted (fun d' hd' => hr ⟨d', hd'⟩)
          (fun _ _ => planFailover_backs) d hd hdurable)

end Engine

/-! ## Runs -/

/-- A durable answer stands behind its operation, also when it comes from the index. -/
theorem perform_stands {actions : List Action} {e : Engine} (h : System.run actions = .up e)
    {op : Operation} {d : FailoverDecision} (hd : (e.perform op).2 = .decision (.ok d))
    (hdurable : d.durable = true) :
    d.Stands (lineage (e.perform op).1.store.medium.history) := by
  rcases Engine.perform_filed hd hdurable with hf | ⟨x, hx, rfl⟩
  · exact hf.stands
  obtain ⟨-, -, hm⟩ := hx.answer
  obtain ⟨e₀, op₀, ⟨before, after, hactions, hrun⟩, hk, hz, hnone, d₀, hd₀, hdurable₀, he⟩ :=
    System.run_stored h hm
  have hf : d₀.Filed (lineage (e₀.perform op₀).1.store.medium.history) := by
    rcases Engine.perform_filed hd₀ hdurable₀ with hf | ⟨y, hy, -⟩
    · exact hf
    -- the request that stored the entry found none
    obtain ⟨-, hky, hmy⟩ := hy.answer
    rw [hk] at hky
    rw [DurableState.findIdempotency, if_neg (by simp [hz]), List.find?_eq_none] at hnone
    have hne := hnone y hmy
    rw [Option.some.inj hky, decide_eq_true_eq] at hne
    exact absurd rfl hne
  refine ⟨d₀, ?_, ?_⟩
  · have hthen : System.run (before ++ [.perform op₀]) = .up (e₀.perform op₀).1 := by
      rw [System.run_append, hrun]
      rfl
    have hnow := System.run_history (before ++ [.perform op₀]) after
    rw [List.append_assoc, List.singleton_append, ← hactions, hthen, h] at hnow
    obtain ⟨new, hl, -⟩ := e.perform_lineage op
    exact (hf.mono (lineage_begins hnow)).mono ⟨new, hl.symm⟩
  · rw [he]
    exact ⟨rfl, rfl, .inr ⟨rfl, rfl, rfl, rfl, rfl, rfl, rfl, rfl, rfl, rfl⟩⟩

/-- Every durable answer of a run speaks of a record, which stays in the lineage whatever the rest
of the run brings. -/
theorem answers_recorded {actions : List Action} {e : Engine} {op : Operation}
    (hp : Performs actions e op) {d : FailoverDecision}
    (hd : (e.perform op).2 = .decision (.ok d)) (hdurable : d.durable = true) :
    d.Stands (lineage (System.run actions).history) := by
  obtain ⟨before, after, rfl, hrun⟩ := hp
  have hthen : System.run (before ++ [.perform op]) = .up (e.perform op).1 := by
    rw [System.run_append, hrun]
    rfl
  have hnow := System.run_history (before ++ [.perform op]) after
  rw [List.append_assoc, List.singleton_append, hthen] at hnow
  exact (perform_stands hrun hd hdurable).mono (lineage_begins hnow)

namespace Sample

/-- A process that has answered the same request twice. -/
def repeated : List Action := granted ++ [.perform (.requestFailover (keyed ⟨1⟩))]

end Sample

/-- The second answer comes from the index, and it speaks of the record of the first one. -/
theorem answers_recorded_sample : ∃ (e : Engine) (op : Operation) (d : FailoverDecision),
    Performs Sample.repeated e op ∧ (e.perform op).2 = .decision (.ok d) ∧
    d.idempotentReplay = true ∧ d.Stands (lineage (System.run Sample.repeated).history) := by
  obtain ⟨e, he, hp⟩ := @System.of_serves (System.run Sample.granted)
    (fun e => e.unavailable.isNone && ((e.advance.checkRequest (Sample.keyed ⟨1⟩)).isNone &&
      (e.state.findIdempotency Sample.key).isSome)) (by decide +kernel)
  simp only [Bool.and_eq_true, Option.isNone_iff_eq_none] at hp
  obtain ⟨hu, hc, hs⟩ := hp
  obtain ⟨x, hx⟩ := Option.isSome_iff_exists.mp hs
  have hfrom : e.AnswersFrom (.requestFailover (Sample.keyed ⟨1⟩)) x := ⟨hu, hc, hx⟩
  obtain ⟨hanswer, -, -⟩ := hfrom.answer
  have hperforms : Performs Sample.repeated e (.requestFailover (Sample.keyed ⟨1⟩)) :=
    ⟨Sample.granted, [], rfl, he⟩
  exact ⟨e, _, _, hperforms, hanswer, rfl, answers_recorded hperforms hanswer rfl⟩

/-! ## Clients -/

section Clients

variable {e : Engine} {call : Call} {d : FailoverDecision}

theorem perform_tellable (hr : Reachable e) (hok : EngineOk True e) {op : Operation}
    {answer : Result FailoverDecision} (ha : (e.perform op).2 = .decision answer) :
    ListedResult answer ∧ BriefResult answer := by
  obtain ⟨hp, he⟩ := hr.lived
  cases op with
  | publishFailure | publishReplacement | setPolicy | setTopology | checkpoint | close => cases ha
  | requestFailover req =>
    cases ha
    refine ⟨Engine.requestFailover_listed hok req, ?_⟩
    change BriefResult (e.requestFailover req).2
    unfold Engine.requestFailover
    split
    · rename_i s hs
      exact Engine.unavailable_brief hs
    · exact Engine.execute_brief (Engine.planFailover_brief hp he)
  | requestRollback req =>
    cases ha
    exact ⟨Engine.requestRollback_listed req, Engine.requestRollback_brief he req⟩
  | recordApplication report =>
    cases ha
    exact ⟨Engine.recordApplication_listed report, Engine.recordApplication_brief report⟩
  | recordVerification report =>
    cases ha
    exact ⟨Engine.recordVerification_listed report, Engine.recordVerification_brief report⟩
  | resolveInterrupted req =>
    cases ha
    exact ⟨Engine.resolveInterrupted_listed req, Engine.resolveInterrupted_brief req⟩

/-- A decision that a caller finds in an answer is what an operation answered. -/
theorem take_told (hr : Reachable e) (hok : EngineOk True e)
    (hparse : ∀ request, parseRequest call.type call.body = .ok request →
      ∃ op answer, request = .operate op ∧ (e.perform op).2 = .decision answer)
    (h : (e.reply call).result.take FailoverDecision.decode "the response carried no decision" =
      .ok d) :
    ∃ op d', parseRequest call.type call.body = .ok (.operate op) ∧
      (e.perform op).2 = .decision (.ok d') ∧ d = d'.normalised := by
  unfold Engine.reply at h
  cases hrequest : parseRequest call.type call.body with
  | error status =>
    rw [hrequest] at h
    rw [CallResult.take_missing rfl] at h
    cases h
  | ok request =>
    obtain ⟨op, answer, rfl, ha⟩ := hparse request hrequest
    obtain ⟨hl, hb⟩ := perform_tellable hr hok ha
    rw [hrequest] at h
    dsimp only at h
    rw [take_decision ha hl hb] at h
    cases answer with
    | error s => cases h
    | ok d' =>
      rw [tellDecision] at h
      split at h
      · cases h
        exact ⟨op, d', rfl, ha, rfl⟩
      · cases h

/-- A decision that a client returns is what an operation answered. -/
theorem finish_told (hr : Reachable e) (hok : EngineOk True e)
    (h : call.finish (.ok (e.reply call).result) = .decision (.ok d)) :
    ∃ op d', parseRequest call.type call.body = .ok (.operate op) ∧
      (e.perform op).2 = .decision (.ok d') ∧ d = d'.normalised := by
  cases call with
  | publishFailureReport | publishReplacementReport | setPolicy | setTopology | ping
  | shutdownServer | inspect | claimDirectives => cases h
  | requestFailover | requestRollback | recordApplication | recordVerification
  | resolveInterrupted =>
    refine take_told hr hok (fun request hrequest => ?_) (CallAnswer.decision.inj h)
    obtain ⟨a, -, rfl⟩ := readBody_ok hrequest
    exact ⟨_, _, rfl, rfl⟩

end Clients

namespace Dialogue

variable {w : Dialogue} {b : Bearings}

/-- The lineage behind a server only grows. -/
theorem step_lineage (w : Dialogue) (a : Action) :
    lineage w.server.engine.store.medium.history <+:
      lineage (w.step a).server.engine.store.medium.history := by
  have hserver : ∀ (s : Server) (a : Server.Action), lineage s.engine.store.medium.history <+:
      lineage (s.step a).engine.store.medium.history := by
    intro s a
    rcases s.step_performs a with hsame | ⟨op, -, hstep⟩
    · rw [hsame]
    · rw [hstep]
      obtain ⟨new, hl, -⟩ := s.engine.perform_lineage op
      exact ⟨new, hl.symm⟩
  cases a with
  | serve a =>
    change _ <+: lineage (w.serve a).server.engine.store.medium.history
    rcases w.serve_eq a with hsame | ⟨-, hserve⟩
    · rw [hsame]
    · rw [hserve]
      exact hserver w.server a
  | deliver n =>
    change _ <+: lineage (w.deliver n).server.engine.store.medium.history
    unfold deliver
    split
    · exact List.prefix_rfl
    · exact hserver w.server (.read w.index (w.toServer.take n))
  | call call =>
    change _ <+: lineage (w.call call).server.engine.store.medium.history
    rw [w.call_server call]
  | receive n =>
    change _ <+: lineage (w.receive n).server.engine.store.medium.history
    rw [w.receive_server n]
  | lose status =>
    change _ <+: lineage (w.lose status).server.engine.store.medium.history
    rw [w.lose_server status]

theorem run_lineage (w : Dialogue) (actions : List Action) :
    lineage w.server.engine.store.medium.history <+:
      lineage (w.run actions).server.engine.store.medium.history := by
  induction actions using List.reverseRecOn with
  | nil => exact List.prefix_rfl
  | append_singleton actions a ih =>
    rw [run_append]
    exact ih.trans (step_lineage _ a)

/-- The engine behind the call that is carried out. -/
theorem dispatch_engine {call : Call} (h : w.Carries call) {op : Operation}
    (hop : parseRequest call.type call.body = .ok (.operate op)) (takes : Bool) :
    (w.step (.serve (.dispatch w.index takes))).server.engine = (w.server.engine.perform op).1 := by
  obtain ⟨-, c, f, v, hc, hn, hf⟩ := h
  change (w.server.dispatch w.index takes).engine = _
  rw [Server.dispatch, hc]
  dsimp only
  rw [hn]
  dsimp only
  rw [hf, hop]
  dsimp only
  exact (Server.answer_engine { w.server with
    engine := (w.server.engine.serve (.operate op)).engine } w.index c f v _ _ _ takes).1.trans
      (Server.serve_engine w.server.engine (.operate op))

end Dialogue

open Dialogue

/-- Whatever durable decision a client returns, its record is in the lineage of the coordinator, and
it stays there. -/
theorem receipts {w : Dialogue} (h : w.Begins) {actions : List Dialogue.Action}
    (hown : Dialogue.Decoded actions) {k : Nat} {call : Call} {r : Result CallResult}
    (hk : (w.run actions).returned[k]? = some (call, .answered r)) {d : FailoverDecision}
    (hd : call.finish r = .decision (.ok d)) (hdurable : d.durable = true) :
    ∃ d' : FailoverDecision, d = d'.normalised ∧
      d'.Stands (lineage (w.run actions).server.engine.store.medium.history) := by
  obtain ⟨b, -, hkeeps⟩ := h.keeps hown
  obtain ⟨e, ⟨before, takes, after, hactions, hcarries, -, rfl⟩, hr⟩ :=
    (hkeeps actions List.prefix_rfl).answers k call r hk
  have hf := (hkeeps before ⟨_, hactions.symm⟩).fit
  rw [hr] at hd
  obtain ⟨op, d', hop, ha, rfl⟩ := finish_told hf.ok.engine hf.engine hd
  refine ⟨d', rfl, ?_⟩
  obtain ⟨origin, horigin⟩ := hf.ok.engine
  refine (perform_stands horigin ha hdurable).mono ?_
  have hlater := ((w.run before).step (.serve (.dispatch w.index takes))).run_lineage after
  have hrun : w.run actions =
      ((w.run before).step (.serve (.dispatch w.index takes))).run after := by
    rw [hactions, Dialogue.run, List.foldl_append]
    rfl
  rw [← hrun, ← run_index w before, dispatch_engine hcarries hop] at hlater
  exact hlater

/-- The client is told of a record. -/
theorem receipts_sample : ∃ (w : Dialogue) (actions : List Dialogue.Action)
    (d : FailoverDecision), w.Begins ∧ d.durable = true ∧ ∃ d' : FailoverDecision,
      d = d'.normalised ∧
      d'.Stands (lineage (w.run actions).server.engine.store.medium.history) := by
  obtain ⟨w, actions, e, hbegins, hown, -, hdecides, hreturned⟩ := Sample.talked
  obtain ⟨-, d, hd, hdurable⟩ := Sample.decides_decision hdecides
  exact ⟨w, actions, d, hbegins, hdurable,
    receipts hbegins hown (k := 0) (by rw [hreturned]; rfl) hd hdurable⟩

end LinkFailover
