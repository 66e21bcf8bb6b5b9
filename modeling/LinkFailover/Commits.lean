import LinkFailover.Followups
import LinkFailover.Restart

/-!
# What reaches the journal

The records that an operation brings to the journal, whether their commit is reported as good or
not. A definition comes from the operation that sets it, and an idempotency entry restates the
decision that the operation answers with.

* `Commits`: commits of a kind between two stores.
* `perform_stores`, `openEngine_commits`: what an operation and what a boot commit.
* `System.run_lineage`: where a record of a run comes from.
-/

namespace LinkFailover

open Codec

/-! ## Commits between two stores -/

/-- What a commit applies to the state, at its position. -/
abbrev Applies := LineageSeq → DurableState → DurableState

/-- A store becomes another one by commits of a kind and by checkpoints. -/
inductive Commits (K : Payload → Applies → Prop) : LineageStore → LineageStore → Prop
  | refl (s : LineageStore) : Commits K s s
  | commit {s : LineageStore} {p : Payload} {apply : Applies} (h : K p apply) :
      Commits K s (s.commit p apply).1
  | checkpoint (s : LineageStore) : Commits K s s.checkpoint.1
  | trans {s s' s'' : LineageStore} (h : Commits K s s') (h' : Commits K s' s'') : Commits K s s''

section Stores

variable {K : Payload → Applies → Prop} {s s' : LineageStore}

theorem Commits.of_eq (h : s' = s) : Commits K s s' := by
  rw [h]
  exact .refl s

/-- The records that commits of a kind bring to the journal, and those of checkpoints. -/
theorem Commits.lineage (h : Commits K s s') : ∃ entries,
    LinkFailover.lineage s'.medium.history = LinkFailover.lineage s.medium.history ++ entries ∧
      ∀ x ∈ entries, (∃ c, x.2 = .checkpoint c) ∨ ∃ apply, K x.2 apply := by
  have hcommit : ∀ (s : LineageStore) (p : Payload) (apply : Applies), ∃ entries,
      LinkFailover.lineage (s.commit p apply).1.medium.history =
        LinkFailover.lineage s.medium.history ++ entries ∧ ∀ x ∈ entries, x.2 = p := by
    intro s p apply
    have ho := s.commit_outcome p apply
    revert ho
    generalize (s.commit p apply).1 = s'
    generalize (s.commit p apply).2 = st
    intro ho
    cases ho with
    | refused _ _ _ _ history => exact ⟨[], by rw [history, List.append_nil], by simp⟩
    | lost _ _ _ _ _ _ _ history | done _ _ _ _ _ _ history =>
      exact ⟨_, by rw [history, lineage_append], by simp⟩
  induction h with
  | refl => exact ⟨[], by rw [List.append_nil], by simp⟩
  | @commit s p apply h =>
    obtain ⟨entries, hl, hp⟩ := hcommit s p apply
    exact ⟨entries, hl, fun x hx => .inr ⟨apply, by rw [hp x hx]; exact h⟩⟩
  | checkpoint s =>
    have ho := s.checkpoint_outcome
    revert ho
    generalize s.checkpoint.1 = s'
    intro ho
    cases ho with
    | unchanged _ _ _ history => exact ⟨[], by rw [history, List.append_nil], by simp⟩
    | broken _ _ _ _ _ history => exact ⟨[], by rw [history, lineage_append]; rfl, by simp⟩
    | @rotated s₁ c _ _ _ _ history =>
      obtain ⟨entries, hl, hp⟩ := hcommit s₁ (.checkpoint c) fun _ d => d
      refine ⟨entries, ?_, fun x hx => .inl ⟨c, hp x hx⟩⟩
      rw [hl, history, lineage_append, lineage_checkpointed, List.append_nil]
  | trans _ _ ih ih' =>
    obtain ⟨entries, hl, hp⟩ := ih
    obtain ⟨entries', hl', hp'⟩ := ih'
    refine ⟨entries ++ entries', by rw [hl', hl, List.append_assoc], fun x hx => ?_⟩
    exact (List.mem_append.mp hx).elim (hp x) (hp' x)

/-- A part of the state that no commit of a kind touches. -/
theorem Commits.keeps {α : Type} {f : DurableState → α} (h : Commits K s s')
    (hk : ∀ p apply, K p apply → ∀ seq d, f (LineageStore.applied apply seq d) = f d)
    (hc : ∀ seq d, f (LineageStore.applied (fun _ d => d) seq d) = f d) :
    f s'.state = f s.state := by
  have hcommit : ∀ (s : LineageStore) (p : Payload) (apply : Applies),
      (∀ seq d, f (LineageStore.applied apply seq d) = f d) →
      f (s.commit p apply).1.state = f s.state := by
    intro s p apply ha
    cases hok : (s.commit p apply).2.isOk with
    | false => rw [(commit_not_ok hok).2.1]
    | true =>
      obtain ⟨-, -, seq, -, -, hstate, -⟩ := commit_ok hok
      rw [hstate, ha]
  induction h with
  | refl => rfl
  | commit h => exact hcommit _ _ _ (hk _ _ h)
  | checkpoint s =>
    have ho := s.checkpoint_outcome
    revert ho
    generalize s.checkpoint.1 = s'
    intro ho
    cases ho with
    | unchanged state | broken _ _ _ state => rw [state]
    | @rotated s₁ c _ _ state => rw [hcommit s₁ _ _ hc, state]
  | trans _ _ ih ih' => rw [ih', ih]

end Stores

/-- A kind that has the commits of an operation in it, with these amendments, but for
definitions and idempotency entries. -/
structure Ordinary (K : Payload → Applies → Prop) (ws : List Amendment) : Prop where
  attempt : ∀ w r, (w, r) ∈ ws → ∀ o (stamp : AttemptRecord → LineageSeq → AttemptRecord),
    K (.attempt w r) fun seq d => d.noteAttempt o (stamp r seq)
  fence : ∀ f o, K (.fence f) fun seq d => d.noteFence o { f with seq := seq }
  decision : ∀ c, K (.decision c) fun _ d => d
  shutdown : ∀ p, K (.shutdown p) fun _ d => d

namespace Engine

variable {K : Payload → Applies → Prop} {ws : List Amendment} {e : Engine} {d : FailoverDecision}
  {key : Digest}

theorem commitDecision_commits (h : Ordinary K ws) :
    Commits K e.store (e.commitDecision d).1.store := by
  rw [commitDecision_store]
  exact .commit (h.decision d)

theorem commitIdempotency_commits
    (h : d.durable = true → key.isZero = false → ∀ o, K (.idempotency (idempotencyEntry d key))
      fun _ s => s.noteIdempotency o (idempotencyEntry d key)) :
    Commits K e.store (e.commitIdempotency d key).store := by
  unfold commitIdempotency
  split
  · exact .refl _
  rename_i hk
  simp only [Bool.or_eq_true, not_or, Bool.not_eq_true, Bool.not_eq_false'] at hk
  dsimp only
  split
  · exact .refl _
  · exact .commit (h hk.2 hk.1 _)

theorem maybeCheckpoint_commits : Commits K e.store e.maybeCheckpoint.store := by
  unfold maybeCheckpoint
  split
  · exact .refl _
  split
  · exact .refl _
  split
  · exact .refl _
  have hc : Commits K e.store e.store.checkpoint.1 := .checkpoint _
  revert hc
  generalize e.store.checkpoint = c
  intro hc
  obtain ⟨s, r⟩ := c
  cases r <;> exact hc

/-- A decision and the entry that restates it. -/
theorem recordDecision_commits (h : Ordinary K ws) (hs : (e.commitDecision d).2.durable = true →
      key.isZero = false → ∀ o, K (.idempotency (idempotencyEntry (e.commitDecision d).2 key))
        fun _ s => s.noteIdempotency o (idempotencyEntry (e.commitDecision d).2 key)) :
    Commits K e.store ((e.commitDecision d).1.commitIdempotency (e.commitDecision d).2 key).store :=
  (commitDecision_commits h).trans (commitIdempotency_commits hs)

theorem settleDurable_commits (h : Ordinary K ws) (hs : ∀ d', (e.settleDurable d key).2 = .ok d' →
      d'.durable = true → key.isZero = false → ∀ o, K (.idempotency (idempotencyEntry d' key))
        fun _ s => s.noteIdempotency o (idempotencyEntry d' key)) :
    Commits K e.store (e.settleDurable d key).1.store :=
  (recordDecision_commits h (hs _ rfl)).trans maybeCheckpoint_commits

theorem afterWrite_commits {written : LineageStore × Status} {detail : String}
    {k : Engine → Engine × Result FailoverDecision} (hw : Commits K e.store written.1)
    (hk : (e.afterWrite written detail k).2 = (k (e.withWrite written)).2 →
      Commits K written.1 (k (e.withWrite written)).1.store) :
    Commits K e.store (e.afterWrite written detail k).1.store := by
  unfold afterWrite at hk ⊢
  cases hok : written.2.isOk with
  | false => exact hw
  | true =>
    rw [hok] at hk
    exact hw.trans (hk rfl)

theorem execute_commits {req : FailoverRequest} {plan : FailoverPlan}
    (h : Ordinary K plan.amendments)
    (hs : ∀ d', (e.execute req plan).2 = .ok d' → plan ≠ .replay d' → d'.durable = true →
      req.idempotencyKey.isZero = false →
      ∀ o, K (.idempotency (idempotencyEntry d' req.idempotencyKey))
        fun _ s => s.noteIdempotency o (idempotencyEntry d' req.idempotencyKey)) :
    Commits K e.store (e.execute req plan).1.store := by
  cases plan with
  | fail | replay => exact .refl _
  | settle d durable =>
    cases durable with
    | true => exact settleDurable_commits h fun d' hd => hs d' hd (by simp)
    | false => exact .refl _
  | record d r =>
    refine afterWrite_commits (.commit (h.attempt _ _ List.mem_cons_self _ _)) fun hk => ?_
    exact @settleDurable_commits K _ (e.withWrite _) _ _ h fun d' hd =>
      hs d' (by rw [execute, hk, hd]) (by simp)
  | grant d a =>
    refine afterWrite_commits (.commit (h.attempt _ _ List.mem_cons_self _ _)) fun hk => ?_
    refine @afterWrite_commits K (e.withWrite _) _ _ _
      (.commit (h.attempt _ _ (List.mem_cons_of_mem _ List.mem_cons_self) _ _)) fun hk' => ?_
    exact @settleDurable_commits K _ ((e.withWrite _).withWrite _) _ _ h fun d' hd =>
      hs d' (by rw [execute, hk, hk', hd]) (by simp)

theorem answer_commits (h : Ordinary K ws) : Commits K e.store (e.answer d).1.store :=
  commitDecision_commits h

theorem answerAndCheckpoint_commits (h : Ordinary K ws) :
    Commits K e.store (e.answerAndCheckpoint d).1.store :=
  (commitDecision_commits h).trans maybeCheckpoint_commits

theorem recordFound_commits (found : AttemptRecord) (report : ApplicationReport)
    (h : Ordinary K (e.applicationAmendments found report)) :
    Commits K e.store (e.recordFound found report).1.store := by
  refine recordFound_cases (P := fun out => Commits K e.store out.1.store) (fun _ _ _ _ => .refl _)
    (fun _ _ _ => .refl _) fun h1 h2 h3 h4 _ => ?_
  refine afterWrite_commits (.commit (h.attempt _ _ ?_ _ _)) fun _ =>
    @answerAndCheckpoint_commits K _ (e.withWrite _) _ h
  rw [applicationAmendments, if_neg (by simp [h1, h2, h3, h4])]
  exact List.mem_cons_self

theorem verifyFound_commits (found : AttemptRecord) (report : VerificationReport)
    (h : Ordinary K (verificationAmendments found report)) :
    Commits K e.store (e.verifyFound found report).1.store := by
  refine verifyFound_cases (P := fun out => Commits K e.store out.1.store) (fun _ _ _ _ => .refl _)
    (fun _ _ _ => .refl _) (fun _ _ _ => .refl _) (fun h1 h2 ho => ?_) fun h1 h2 ho => ?_
  · rw [verificationAmendments, if_neg (by simp [h1, h2]), if_pos (by simp [ho])] at h
    exact afterWrite_commits (.commit (h.attempt _ _ List.mem_cons_self _ _)) fun _ =>
      @answer_commits K _ (e.withWrite _) _ h
  · rw [verificationAmendments, if_neg (by simp [h1, h2]), if_neg (by simp [ho])] at h
    refine afterWrite_commits (.commit (h.attempt _ _ List.mem_cons_self _ _)) fun _ => ?_
    exact @afterWrite_commits K (e.withWrite _) _ _ _
      (.commit (h.attempt _ _ (List.mem_cons_of_mem _ List.mem_cons_self) _ _)) fun _ =>
        @answerAndCheckpoint_commits K _ ((e.withWrite _).withWrite _) _ h

theorem resolveFound_commits (found : AttemptRecord) (req : RevalidationRequest)
    (h : Ordinary K (e.revalidationAmendments found req)) :
    Commits K e.store (e.resolveFound found req).1.store := by
  refine resolveFound_cases (P := fun out => Commits K e.store out.1.store) (fun _ => .refl _)
    (fun _ _ _ => .refl _) fun h1 h2 _ => ?_
  refine afterWrite_commits (.commit (h.attempt _ _ ?_ _ _)) fun _ =>
    @answer_commits K _ (e.withWrite _) _ h
  rw [revalidationAmendments, if_neg (by simp [h1, h2])]
  exact List.mem_cons_self

theorem rollbackFound_commits (found : AttemptRecord) (req : RollbackRequest)
    (h : Ordinary K (e.rollbackAmendments found req))
    (hs : ∀ d', (e.rollbackFound found req).2 = .ok d' → d'.durable = true →
      req.idempotencyKey.isZero = false →
      ∀ o, K (.idempotency (idempotencyEntry d' req.idempotencyKey))
        fun _ s => s.noteIdempotency o (idempotencyEntry d' req.idempotencyKey)) :
    Commits K e.store (e.rollbackFound found req).1.store := by
  revert hs
  refine rollbackFound_cases (P := fun out => (∀ d', out.2 = .ok d' → d'.durable = true →
      req.idempotencyKey.isZero = false →
      ∀ o, K (.idempotency (idempotencyEntry d' req.idempotencyKey))
        fun _ s => s.noteIdempotency o (idempotencyEntry d' req.idempotencyKey)) →
    Commits K e.store out.1.store) (fun _ _ _ => .refl _) (fun _ _ _ _ => .refl _)
    (fun _ _ _ _ => .refl _) fun h1 h2 hs => ?_
  have hm : (AttemptWrite.rollback, movedTo found .rolledBack .rollbackRequested req.rationale) ∈
      e.rollbackAmendments found req := by
    rw [rollbackAmendments, if_neg (by simp [h1, h2])]
    exact List.mem_cons_self
  unfold rollbackHolder at hs ⊢
  refine afterWrite_commits (.commit (h.attempt _ _ hm _ _)) fun hk => ?_
  refine @afterWrite_commits K (e.withWrite _) _ _ _ (.commit (h.fence _ _)) fun hk' => ?_
  exact @recordDecision_commits K _ ((e.withWrite _).withWrite _) _ _ h (hs _ (by rw [hk, hk']))

theorem fenceAuthorities_commits (cause : FenceCause) (rs : List AttemptRecord)
    (h : Ordinary K (fencingAmendments cause rs)) :
    Commits K e.store (fenceAuthorities cause rs e).1.store := by
  induction rs generalizing e with
  | nil => exact .refl _
  | cons r rs ih =>
    unfold fenceAuthorities
    by_cases hr : attemptPhaseHoldsAuthority r.phase = true
    swap
    · rw [if_pos (by simpa using hr)]
      rw [fencingAmendments, @List.filter_cons_of_neg _ _ r rs hr] at h
      exact ih h
    rw [if_neg (by simpa using hr)]
    rw [fencingAmendments, @List.filter_cons_of_pos _ _ r rs hr, List.map_cons] at h
    have h' : Ordinary K (fencingAmendments cause rs) :=
      { h with attempt := fun w x hx => h.attempt w x (List.mem_cons_of_mem _ hx) }
    dsimp only
    have hw : Commits K e.store (e.updateAttempt .update (abortedAttempt r cause.detail)).1 :=
      .commit (h.attempt _ _ List.mem_cons_self _ _)
    revert hw
    generalize e.updateAttempt .update (abortedAttempt r cause.detail) = aborted
    intro hw
    split
    · exact hw
    have hf : Commits K aborted.1 ((e.withWrite aborted).writeFence
        ((e.withWrite aborted).fenceOf cause.kind r ⟨text cause.detail, cause.bounded⟩)).1 :=
      .commit (h.fence _ _)
    revert hf
    generalize (e.withWrite aborted).writeFence
      ((e.withWrite aborted).fenceOf cause.kind r ⟨text cause.detail, cause.bounded⟩) = fenced
    intro hf
    split
    · exact hw.trans hf
    · exact (hw.trans hf).trans (@ih ((e.withWrite aborted).withWrite fenced) h')

theorem setDefinition_commits {Tag : Type} {new current : StrongUint Tag UInt64}
    {sameContent : Bool} {code : ReasonCode} {regresses conflicts : String}
    {commit : Engine → LineageStore × Status} {cause : FenceCause}
    (h : Ordinary K (e.definitionAmendments new current cause))
    (hc : Commits K e.store (commit e).1)
    (ht : (commit e).1.state.attempts = e.state.attempts) : Commits K e.store
      (e.setDefinition new current sameContent code regresses conflicts commit cause).1.store := by
  unfold setDefinition
  split
  · exact .refl _
  split
  · split
    · exact .refl _
    · exact .refl _
  rename_i h1 h2
  dsimp only
  split
  · exact hc
  · rw [definitionAmendments, if_neg (not_or.mpr ⟨h1, h2⟩), ← ht] at h
    exact hc.trans (@fenceAuthorities_commits K (e.withWrite (commit e)) cause _ h)

theorem setPolicy_commits {policy : FailoverPolicy}
    (h : Ordinary K (e.amendments (.setPolicy policy)))
    (hp : K (.policy policy) fun _ d => { d with policy := policy }) :
    Commits K e.store (e.setPolicy policy).1.store := by
  unfold setPolicy
  split
  · exact .refl _
  split
  · exact .refl _
  rename_i h1 h2
  dsimp only [amendments] at h
  rw [if_neg (by simp only [Bool.or_eq_true]; exact not_or.mpr ⟨h1, h2⟩)] at h
  exact setDefinition_commits h (.commit hp) (commit_attempts fun _ _ => rfl)

theorem setTopology_commits {topology : TopologySnapshot}
    (h : Ordinary K (e.amendments (.setTopology topology)))
    (ht : K (.topology topology.canonicalise) fun _ d =>
      { d with topology := topology.canonicalise }) :
    Commits K e.store (e.setTopology topology).1.store := by
  unfold setTopology
  dsimp only
  split
  · exact .refl _
  split
  · exact .refl _
  rename_i h1 h2
  dsimp only [amendments] at h
  rw [if_neg (by simp only [Bool.or_eq_true]; exact not_or.mpr ⟨h1, h2⟩)] at h
  exact setDefinition_commits h (.commit ht) (commit_attempts fun _ _ => rfl)

theorem withCheckpoint_commits {s : LineageStore} {r : Result LineageSeq}
    (hc : e.store.checkpoint = (s, r)) : Commits K e.store s := by
  have h : Commits K e.store e.store.checkpoint.1 := .checkpoint _
  rwa [hc] at h

theorem checkpoint_commits : Commits K e.store e.checkpoint.1.store := by
  unfold checkpoint
  split
  · exact .refl _
  split
  · rename_i hc
    exact withCheckpoint_commits hc
  · rename_i hc
    exact withCheckpoint_commits hc

theorem shutDown_commits (h : Ordinary K ws) : Commits K e.store e.shutDown.1.store := by
  unfold shutDown
  dsimp only
  have hdown : Commits K e.store (e.store.commit (.shutdown
      { epoch := e.epoch, coordinator := e.incarnation, lastSeq := e.state.lastSeq })
      fun _ d => d).1 := .commit (h.shutdown _)
  split
  · split
    · rename_i hc
      exact hdown.trans (@withCheckpoint_commits K (e.withStore _) _ _ hc)
    · rename_i hc
      exact hdown.trans (@withCheckpoint_commits K (e.withStore _) _ _ hc)
  · exact hdown

end Engine

/-! ## Operations -/

/-- The key that a request carries. -/
def Operation.key : Operation → Option Digest
  | .requestFailover req => some req.idempotencyKey
  | .requestRollback req => some req.idempotencyKey
  | _ => none

/-- An operation stores an entry: it found none under its key, and the entry restates what it
answers. -/
def Engine.Stores (e : Engine) (op : Operation) (x : IdempotencyEntry) : Prop :=
  op.key = some x.key ∧ x.key.isZero = false ∧ e.state.findIdempotency x.key = none ∧
    ∃ d, (e.perform op).2 = .decision (.ok d) ∧ d.durable = true ∧
      x = Engine.idempotencyEntry d x.key

/-- What an operation can commit. -/
inductive Engine.Makes (e : Engine) (op : Operation) : Payload → Applies → Prop
  | attempt {w : AttemptWrite} {r : AttemptRecord} (h : (w, r) ∈ e.amendments op)
      (o : StoreOptions) (stamp : AttemptRecord → LineageSeq → AttemptRecord) :
      Makes e op (.attempt w r) fun seq d => d.noteAttempt o (stamp r seq)
  | fence (f : FenceRecord) (o : StoreOptions) :
      Makes e op (.fence f) fun seq d => d.noteFence o { f with seq := seq }
  | decision (c : FailoverDecision) : Makes e op (.decision c) fun _ d => d
  | shutdown (p : ShutdownPayload) : Makes e op (.shutdown p) fun _ d => d
  | policy {p : FailoverPolicy} (h : op = .setPolicy p) :
      Makes e op (.policy p) fun _ d => { d with policy := p }
  | topology {t : TopologySnapshot} (h : op = .setTopology t) :
      Makes e op (.topology t.canonicalise) fun _ d => { d with topology := t.canonicalise }
  | idempotency {x : IdempotencyEntry} (h : e.Stores op x) (o : StoreOptions) :
      Makes e op (.idempotency x) fun _ d => d.noteIdempotency o x

namespace Engine

variable {e : Engine}

theorem makes_ordinary (op : Operation) : Ordinary (e.Makes op) (e.amendments op) :=
  ⟨fun _ _ => .attempt, .fence, .decision, .shutdown⟩

/-- A plan that is neither a failure nor a replay found no entry under the key. -/
theorem planFailover_key {req : FailoverRequest} (hf : ∀ s, e.planFailover req ≠ .fail s)
    (hr : ∀ d, e.planFailover req ≠ .replay d) :
    e.state.findIdempotency req.idempotencyKey = none := by
  unfold planFailover at hf hr
  split at hf
  · exact absurd rfl (hf _)
  rename_i hc
  rw [hc] at hr
  dsimp only at hr
  cases hk : e.state.findIdempotency req.idempotencyKey with
  | none => rfl
  | some entry =>
    rw [hk] at hr
    exact absurd rfl (hr _)

theorem requestFailover_commits (req : FailoverRequest) :
    Commits (e.Makes (.requestFailover req)) e.store (e.requestFailover req).1.store := by
  have hp : (e.perform (.requestFailover req)).2 = .decision (e.requestFailover req).2 := rfl
  have hm := e.makes_ordinary (.requestFailover req)
  dsimp only [amendments] at hm
  unfold requestFailover at hp ⊢
  cases hu : e.unavailable with
  | some s => exact .refl _
  | none =>
    rw [hu] at hp hm
    rw [if_neg (by simp)] at hm
    refine @execute_commits _ e.advance req _ hm fun d hd hr hdur hk o => ?_
    refine .idempotency ⟨rfl, hk, ?_, d, by rw [hp, hd], hdur, rfl⟩ o
    refine @planFailover_key e.advance req (fun s hs => ?_) fun d' hd' => ?_
    · rw [hs] at hd
      cases hd
    · rw [hd'] at hd hr
      cases hd
      exact hr rfl

theorem requestRollback_commits (req : RollbackRequest) :
    Commits (e.Makes (.requestRollback req)) e.store (e.requestRollback req).1.store := by
  have hp : (e.perform (.requestRollback req)).2 = .decision (e.requestRollback req).2 := rfl
  have hm := e.makes_ordinary (.requestRollback req)
  dsimp only [amendments] at hm
  revert hp
  refine requestRollback_cases (P := fun out =>
      (e.perform (.requestRollback req)).2 = .decision out.2 →
      Commits (e.Makes (.requestRollback req)) e.store out.1.store)
    (fun _ _ => .refl _) (fun _ _ _ _ => .refl _) (fun _ _ _ _ => .refl _)
    fun found hopen hkey hfound hp => ?_
  rw [target_requestRollback hopen hkey hfound] at hm
  exact @rollbackFound_commits _ e.advance found req hm fun d hd hdur hz =>
    .idempotency ⟨rfl, hz, hkey, d, by rw [hp, hd], hdur, rfl⟩

theorem resolveInterrupted_commits (req : RevalidationRequest) :
    Commits (e.Makes (.resolveInterrupted req)) e.store (e.resolveInterrupted req).1.store := by
  have hm := e.makes_ordinary (.resolveInterrupted req)
  dsimp only [amendments] at hm
  refine resolveInterrupted_cases
    (P := fun out => Commits (e.Makes (.resolveInterrupted req)) e.store out.1.store)
    (fun _ => .refl _) (fun _ _ _ _ => .refl _) (fun _ _ _ _ => .refl _)
    fun found hopen hzero hepoch hfound => ?_
  rw [target_resolveInterrupted hopen hzero hepoch hfound] at hm
  exact @resolveFound_commits _ e.advance found req hm

theorem recordApplication_commits (report : ApplicationReport) :
    Commits (e.Makes (.recordApplication report)) e.store (e.recordApplication report).1.store := by
  have hm := e.makes_ordinary (.recordApplication report)
  dsimp only [amendments] at hm
  refine recordApplication_cases
    (P := fun out => Commits (e.Makes (.recordApplication report)) e.store out.1.store)
    (fun _ _ => .refl _) (fun _ _ => .refl _) fun found hu hfound => ?_
  rw [target_recordApplication hu hfound] at hm
  exact @recordFound_commits _ e.advance found report hm

theorem recordVerification_commits (report : VerificationReport) :
    Commits (e.Makes (.recordVerification report)) e.store
      (e.recordVerification report).1.store := by
  have hm := e.makes_ordinary (.recordVerification report)
  dsimp only [amendments] at hm
  refine recordVerification_cases
    (P := fun out => Commits (e.Makes (.recordVerification report)) e.store out.1.store)
    (fun _ _ => .refl _) (fun _ _ => .refl _) fun found hu hfound => ?_
  rw [target_recordVerification hu hfound] at hm
  exact @verifyFound_commits _ e.advance found report hm

/-- A close lets go of the store behind its commits, so it is left to `perform_stores`. -/
theorem perform_commits {op : Operation} (hop : op ≠ .close) :
    Commits (e.Makes op) e.store (e.perform op).1.store := by
  cases op with
  | publishFailure report => exact .of_eq (e.publishFailureReport_adds report).1.store
  | publishReplacement report => exact .of_eq (e.publishReplacementReport_adds report).1.store
  | requestFailover req => exact requestFailover_commits req
  | recordApplication report => exact recordApplication_commits report
  | recordVerification report => exact recordVerification_commits report
  | requestRollback req => exact requestRollback_commits req
  | resolveInterrupted req => exact resolveInterrupted_commits req
  | setPolicy policy => exact setPolicy_commits (makes_ordinary _) (.policy rfl)
  | setTopology topology => exact setTopology_commits (makes_ordinary _) (.topology rfl)
  | checkpoint => exact checkpoint_commits
  | close => exact absurd rfl hop

/-- What an operation commits; a close lets go of the store behind it. -/
theorem perform_stores (e : Engine) (op : Operation) : ∃ s, Commits (e.Makes op) e.store s ∧
    ((e.perform op).1.store = s ∨ (e.perform op).1.store = s.close) := by
  by_cases hop : op = .close
  · subst hop
    change ∃ s, _ ∧ (e.close.1.store = s ∨ e.close.1.store = s.close)
    unfold close
    split
    · exact ⟨_, .refl _, .inl rfl⟩
    · exact ⟨_, shutDown_commits (makes_ordinary _), .inr rfl⟩
  · exact ⟨_, perform_commits hop, .inl rfl⟩

/-- The records that an operation brings to the journal. -/
theorem perform_lineage (e : Engine) (op : Operation) : ∃ entries,
    lineage (e.perform op).1.store.medium.history = lineage e.store.medium.history ++ entries ∧
      ∀ x ∈ entries, (∃ c, x.2 = .checkpoint c) ∨ ∃ apply, e.Makes op x.2 apply := by
  obtain ⟨s, hs, h | h⟩ := e.perform_stores op
  · rw [h]
    exact hs.lineage
  · rw [h]
    exact hs.lineage

end Engine

/-! ## Boots -/

/-- The records that a boot can bring to the journal. -/
def Payload.OfBoot : Payload → Prop
  | .boot _ | .fence _ => True
  | .attempt _ r => r.phase = .interrupted
  | _ => False

/-- The records of a boot that finds these attempts. -/
inductive Payload.Boots (rs : List AttemptRecord) : Payload → Prop
  | boot (p : BootPayload) : Boots rs (.boot p)
  | fence (f : FenceRecord) : Boots rs (.fence f)
  | interrupt {r : AttemptRecord} (h : r ∈ rs) (ht : r.isTerminal = false) :
      Boots rs (.attempt .update (LineageStore.interrupt r))

theorem Payload.Boots.ofBoot {rs : List AttemptRecord} {p : Payload} (h : p.Boots rs) :
    p.OfBoot := by
  cases h with
  | boot | fence => trivial
  | interrupt => rfl

theorem fenceAttempts_commits {epoch : Epoch} {coordinator : Incarnation}
    {all rs : List AttemptRecord} (hall : ∀ r ∈ rs, r ∈ all) {s : LineageStore} :
    Commits (fun p _ => p.Boots all) s (LineageStore.fenceAttempts epoch coordinator rs s).1 := by
  induction rs generalizing s with
  | nil => exact .refl _
  | cons r rs ih =>
    have ih := @ih fun r hr => hall r (List.mem_cons_of_mem _ hr)
    by_cases hr : r.isTerminal = true
    · rw [LineageStore.fenceAttempts, if_pos hr]
      exact ih
    have hr : r.isTerminal = false := by simpa using hr
    rw [LineageStore.fenceAttempts_cons hr]
    have h1 : Commits (fun p _ => p.Boots all) s (s.writeInterrupt r).1 :=
      .commit (.interrupt (hall r List.mem_cons_self) hr)
    split
    · exact h1
    have h2 : Commits (fun p _ => p.Boots all) (s.writeInterrupt r).1
        ((s.writeInterrupt r).1.writeRestartFence epoch coordinator r).1 := .commit (.fence _)
    split
    · exact h1.trans h2
    · exact (h1.trans h2).trans ih

theorem bootStore_commits {s : LineageStore} {incarnation : Incarnation} {build : Engine.Build} :
    Commits (fun p _ => p.Boots s.state.attempts) s
      (Engine.bootStore s incarnation build).1 := by
  unfold Engine.bootStore
  split
  · exact .refl _
  rename_i boot _
  have hsame : (s.commit (.boot boot) fun _ d => d.noteEpoch boot).1.state.attempts =
      s.state.attempts := Engine.commit_attempts fun _ _ => rfl
  have h1 : Commits (fun p _ => p.Boots s.state.attempts) s
      (s.commit (.boot boot) fun _ d => d.noteEpoch boot).1 := .commit (.boot _)
  dsimp only
  split
  · exact h1
  have h2 : Commits (fun p _ => p.Boots s.state.attempts)
      (s.commit (.boot boot) fun _ d => d.noteEpoch boot).1
      ((s.commit (.boot boot) fun _ d => d.noteEpoch boot).1.fenceRestartAuthority boot.epoch
        incarnation).1 := by
    refine fenceAttempts_commits fun r hr => ?_
    rwa [hsame] at hr
  revert h2
  generalize (s.commit (.boot boot) fun _ d => d.noteEpoch boot).1.fenceRestartAuthority boot.epoch
    incarnation = w
  intro h2
  obtain ⟨s', r⟩ := w
  cases r <;> exact h1.trans h2

/-- A boot adds its own record, and what it makes of the attempts in flight. -/
theorem openEngine_commits {wire : Prop} {o : EngineOptions} {incarnation : Incarnation}
    {build : Engine.Build} {m : Medium} (h : MediumOk wire m) :
    ∃ entries rs, lineage (Engine.openEngine o incarnation build m).1.history =
      lineage m.history ++ entries ∧ (∀ q ∈ rs, Known (lineage m.history) q) ∧
        ∀ x ∈ entries, (∃ c, x.2 = .checkpoint c) ∨ x.2.Boots rs := by
  rcases @openEngine_cases _ o incarnation build _ h with
    ⟨m', e, hopen, -, hh⟩ | ⟨s, d, events, -, hd, -, hh, hlive, -, -, hopen⟩
  · rw [hopen]
    exact ⟨[], [], by rw [hh, List.append_nil], by simp, by simp⟩
  have hl : lineage s.medium.history = lineage m.history := by
    rw [hh, lineage_opened hd]
  have hknown := hlive.stateOk.known
  rw [hl] at hknown
  obtain ⟨new, hnew, hp⟩ := (@bootStore_commits s incarnation build).lineage
  rw [hopen]
  revert hnew
  generalize Engine.bootStore s incarnation build = w
  intro hnew
  obtain ⟨s', r⟩ := w
  refine ⟨new, s.state.attempts, ?_, hknown, fun x hx => (hp x hx).imp id fun ⟨_, h⟩ => h⟩
  rw [← hl]
  cases r <;> exact hnew

/-! ## Runs -/

/-- A record of a run comes from a checkpoint, from a boot or from an operation. -/
theorem System.run_lineage {actions : List Action} {x : Entry}
    (hx : x ∈ lineage (run actions).history) : (∃ c, x.2 = .checkpoint c) ∨ x.2.OfBoot ∨
      ∃ e op, Performs actions e op ∧ ∃ apply, e.Makes op x.2 apply := by
  induction actions using List.reverseRecOn with
  | nil => cases hx
  | append_singleton actions a ih =>
    have hok := @run_ok False actions False.elim
    have hold : x ∈ lineage (run actions).history →
        (∃ c, x.2 = .checkpoint c) ∨ x.2.OfBoot ∨
          ∃ e op, Performs (actions ++ [a]) e op ∧ ∃ apply, e.Makes op x.2 apply := fun hx =>
      (ih hx).imp id (.imp id fun ⟨e, op, hp, hb⟩ => ⟨e, op, hp.append a, hb⟩)
    rw [run_append] at hx
    cases hrun : run actions with
    | down m =>
      rw [hrun] at hx hok hold
      cases a with
      | start b =>
        have hm : MediumOk False (b.medium m) := ⟨hok.trace, hok.represents⟩
        obtain ⟨entries, rs, hl, -, hp⟩ :=
          @openEngine_commits False b.options b.incarnation b.build _ hm
        have ho := (@openEngine_outcome False b.options b.incarnation b.build _ hm).2
        rw [step, Boot.open] at hx
        revert hl ho hx
        generalize Engine.openEngine b.options b.incarnation b.build (b.medium m) = result
        obtain ⟨m', r⟩ := result
        intro hx hl ho
        have hx : x ∈ lineage m'.history := by
          cases r with
          | error _ => exact hx
          | ok e =>
            have hmedium : e.store.medium = m' := (ho e rfl).2.2
            rw [← hmedium]
            exact hx
        rw [hl, List.mem_append] at hx
        exact hx.elim hold fun hx => (hp x hx).imp id fun hb => .inl hb.ofBoot
      | perform | kill => exact hold hx
    | up e =>
      rw [hrun] at hx hold
      cases a with
      | perform op =>
        obtain ⟨new, hl, hp⟩ := e.perform_lineage op
        change x ∈ lineage (e.perform op).1.store.medium.history at hx
        rw [hl, List.mem_append] at hx
        exact hx.elim hold fun hx => (hp x hx).imp id fun h =>
          .inr ⟨e, op, ⟨actions, [], rfl, hrun⟩, h⟩
      | start | kill => exact hold hx

end LinkFailover
