import LinkFailover.Directives
import LinkFailover.KeyedGrants

/-!
# What a new definition revokes

A definition of a later generation takes the authority of every retained attempt. The walk goes
over a copy of the table while its own writes replace, sort and evict records of the live one. It
comes to every holder all the same: a record that holds authority is not terminal and so stays
until its own abort is written, and no other abort has its key.

* `fenceAuthorities_walked`: what a walk leaves behind when all its records are accepted.
* `definitions_revoke`: what a change of a definition does, and when it does nothing.
-/

namespace LinkFailover

open Codec

/-- Two different texts with one digest. -/
def Collide (a b : Bytes) : Prop := a ≠ b ∧ sha256 a = sha256 b

theorem FailoverPolicy.eq_of_digest {p p' : FailoverPolicy} (h : p.digest = p'.digest) :
    p = p' ∨ Collide (Writer.run p.encode) (Writer.run p'.encode) := by
  by_cases he : Writer.run p.encode = Writer.run p'.encode
  · exact .inl (FailoverPolicy.encode_inj he)
  · exact .inr ⟨he, h⟩

theorem TopologySnapshot.eq_of_digest {t t' : TopologySnapshot} (h : t.digest = t'.digest) :
    t = t' ∨ Collide (Writer.run t.encode) (Writer.run t'.encode) := by
  by_cases he : Writer.run t.encode = Writer.run t'.encode
  · exact .inl (encode_inj he)
  · exact .inr ⟨he, h⟩

/-- The payloads of a lineage, in order. -/
def payloads (history : List Event) : List Payload := (lineage history).map Prod.snd

/-! ## The walk -/

namespace Engine

/-- The record in place of an attempt that was fenced. -/
def AbortOf (cause : FenceCause) (r q : AttemptRecord) : Prop :=
  ∃ seq, q = updatedAt (abortedAttempt r cause.detail) seq

/-- What a walk over a list of attempts leaves behind. -/
structure Walked (cause : FenceCause) (rs : List AttemptRecord) (e e' : Engine) : Prop where
  policy : e'.state.policy = e.state.policy
  topology : e'.state.topology = e.state.topology
  written : payloads e'.store.medium.history =
    payloads e.store.medium.history ++ e.fencingPayloads cause rs
  table : ∀ q ∈ e'.state.attempts,
    (∃ r ∈ rs, attemptPhaseHoldsAuthority r.phase = true ∧ AbortOf cause r q) ∨
      q ∈ e.state.attempts ∧
        ∀ r ∈ rs, attemptPhaseHoldsAuthority r.phase = true → q.key ≠ r.key
  kept : e.state.attempts.length ≤ e.store.options.maxAttempts →
    (∀ r ∈ rs, attemptPhaseHoldsAuthority r.phase = true → ∃ q ∈ e.state.attempts, q.key = r.key) →
    ∀ r ∈ e.state.attempts, ∃ q ∈ e'.state.attempts, q.key = r.key

variable {e : Engine} {cause : FenceCause} {rs : List AttemptRecord} {r : AttemptRecord}

theorem commit_payloads {s : LineageStore} {p : Payload} {apply : Applies}
    (h : (s.commit p apply).2.isOk = true) :
    payloads (s.commit p apply).1.medium.history = payloads s.medium.history ++ [p] := by
  obtain ⟨seq, hl⟩ := commit_ok_lineage h
  rw [payloads, hl, List.map_append]
  rfl

theorem fencingPayloads_holder (hr : attemptPhaseHoldsAuthority r.phase = true) :
    e.fencingPayloads cause (r :: rs) =
      .attempt .update (abortedAttempt r cause.detail) ::
        .fence (e.fenceOf cause.kind r ⟨text cause.detail, cause.bounded⟩) ::
        e.fencingPayloads cause rs := by
  rw [fencingPayloads, @List.filter_cons_of_pos _ _ r rs hr, List.flatMap_cons]
  rfl

theorem fencingPayloads_other (hr : ¬ attemptPhaseHoldsAuthority r.phase = true) :
    e.fencingPayloads cause (r :: rs) = e.fencingPayloads cause rs := by
  rw [fencingPayloads, @List.filter_cons_of_neg _ _ r rs hr]
  rfl

/-- A store behind a record that leaves the definitions alone. -/
structure Accepted (s s' : LineageStore) (p : Payload) (attempts : List AttemptRecord) : Prop where
  policy : s'.state.policy = s.state.policy
  topology : s'.state.topology = s.state.topology
  options : s'.options = s.options
  written : payloads s'.medium.history = payloads s.medium.history ++ [p]
  attempts : s'.state.attempts = attempts

theorem abort_accepted
    (h : (e.updateAttempt .update (abortedAttempt r cause.detail)).2.isOk = true) :
    ∃ x, AbortOf cause r x ∧
      Accepted e.store (e.updateAttempt .update (abortedAttempt r cause.detail)).1
        (.attempt .update (abortedAttempt r cause.detail))
        (evictAttempts e.store.options (upsertAttempt x e.state.attempts)) := by
  obtain ⟨-, -, seq, -, -, hstate, hoptions, -⟩ := commit_ok h
  have hpolicy := congrArg DurableState.policy hstate
  have htopology := congrArg DurableState.topology hstate
  have hattempts := congrArg DurableState.attempts hstate
  exact ⟨updatedAt (abortedAttempt r cause.detail) seq, ⟨seq, rfl⟩, hpolicy, htopology, hoptions,
    commit_payloads h, hattempts⟩

theorem fence_accepted {f : FenceRecord} (h : (e.writeFence f).2.isOk = true) :
    Accepted e.store (e.writeFence f).1 (.fence f) e.state.attempts := by
  obtain ⟨-, -, seq, -, -, hstate, hoptions, -⟩ := commit_ok h
  have hpolicy := congrArg DurableState.policy hstate
  have htopology := congrArg DurableState.topology hstate
  have hattempts := congrArg DurableState.attempts hstate
  exact ⟨hpolicy, htopology, hoptions, commit_payloads h, hattempts⟩

theorem AbortOf.key {q : AttemptRecord} (h : AbortOf cause r q) : q.key = r.key := by
  obtain ⟨seq, rfl⟩ := h
  rfl

/-- What a walk leaves behind the abort and the fence of one more attempt. -/
theorem Walked.cons {e₁ e' : Engine} {s : LineageStore} {x : AttemptRecord}
    (hk : e.store.Keyed) (hr : attemptPhaseHoldsAuthority r.phase = true)
    (hx : AbortOf cause r x)
    (ha : Accepted e.store s (.attempt .update (abortedAttempt r cause.detail))
      (evictAttempts e.store.options (upsertAttempt x e.state.attempts)))
    (hf : Accepted s e₁.store (.fence (e.fenceOf cause.kind r ⟨text cause.detail, cause.bounded⟩))
      s.state.attempts)
    (hsame : e₁.fencingPayloads cause rs = e.fencingPayloads cause rs)
    (h : Walked cause rs e₁ e') : Walked cause (r :: rs) e e' where
  policy := h.policy.trans (hf.policy.trans ha.policy)
  topology := h.topology.trans (hf.topology.trans ha.topology)
  written := by
    rw [h.written, hf.written, ha.written, hsame, fencingPayloads_holder hr, List.append_assoc,
      List.append_assoc]
    rfl
  table := by
    intro q hq
    rcases h.table q hq with ⟨r', hr', hrest⟩ | ⟨hm, hne⟩
    · exact .inl ⟨r', List.mem_cons_of_mem _ hr', hrest⟩
    rw [state, hf.attempts, ha.attempts] at hm
    rcases (BoundedTable.mem_upsert_iff hk).mp (BoundedTable.mem_of_mem_evict hm) with
      rfl | ⟨hm, hkey⟩
    · exact .inl ⟨r, List.mem_cons_self, hr, hx⟩
    · refine .inr ⟨hm, fun r' hr' hholds => ?_⟩
      rcases List.mem_cons.mp hr' with rfl | hr'
      · rwa [hx.key] at hkey
      · exact hne r' hr' hholds
  kept := by
    intro hlen hthere r' hr'
    obtain ⟨q₀, hq₀, hk₀⟩ := hthere r List.mem_cons_self hr
    have hlength : (upsertAttempt x e.state.attempts).length = e.state.attempts.length :=
      BoundedTable.length_upsert_of_mem hq₀ (hk₀.trans hx.key.symm)
    have htable : e₁.state.attempts = upsertAttempt x e.state.attempts := by
      rw [state, hf.attempts, ha.attempts]
      exact BoundedTable.evict_of_le (by rw [hlength]; exact hlen)
    have hkeys : ∀ q ∈ e.state.attempts, ∃ q' ∈ e₁.state.attempts, q'.key = q.key := by
      intro q hq
      rw [htable]
      by_cases hqx : q.key = x.key
      · exact ⟨x, BoundedTable.mem_upsert_self, hqx.symm⟩
      · exact ⟨q, BoundedTable.mem_upsert_of_ne hq hqx, rfl⟩
    have hthere₁ : ∀ r ∈ rs, attemptPhaseHoldsAuthority r.phase = true →
        ∃ q ∈ e₁.state.attempts, q.key = r.key := by
      intro r₁ hr₁ hholds
      obtain ⟨q, hq, hk₁⟩ := hthere r₁ (List.mem_cons_of_mem _ hr₁) hholds
      obtain ⟨q', hq', hk'⟩ := hkeys q hq
      exact ⟨q', hq', hk'.trans hk₁⟩
    obtain ⟨q, hq, hk₁⟩ := hkeys r' hr'
    obtain ⟨q', hq', hk'⟩ := h.kept
      (by rw [htable, hlength, hf.options, ha.options]; exact hlen) hthere₁ q hq
    exact ⟨q', hq', hk'.trans hk₁⟩

/-- A walk whose records are all accepted. -/
theorem fenceAuthorities_walked (hk : e.store.Keyed)
    (hok : (fenceAuthorities cause rs e).2.isOk = true) :
    Walked cause rs e (fenceAuthorities cause rs e).1 := by
  induction rs generalizing e with
  | nil =>
    refine ⟨rfl, rfl, ?_, fun q hq => .inr ⟨hq, fun r hr => absurd hr List.not_mem_nil⟩,
      fun _ _ r hr => ⟨r, hr, rfl⟩⟩
    rw [fencingPayloads, List.filter_nil, List.flatMap_nil, List.append_nil]
    rfl
  | cons r rs ih =>
    rw [fenceAuthorities] at hok ⊢
    by_cases hr : attemptPhaseHoldsAuthority r.phase = true
    swap
    · rw [if_pos (by simpa using hr)] at hok ⊢
      have h := ih hk hok
      have hskip : ∀ {P : AttemptRecord → Prop},
          (∀ r ∈ rs, attemptPhaseHoldsAuthority r.phase = true → P r) →
          ∀ r' ∈ r :: rs, attemptPhaseHoldsAuthority r'.phase = true → P r' := by
        intro P hP r' hr' hholds
        rcases List.mem_cons.mp hr' with rfl | hr'
        · exact absurd hholds hr
        · exact hP r' hr' hholds
      refine ⟨h.policy, h.topology, ?_, fun q hq => ?_, fun hlen hthere => ?_⟩
      · rw [h.written, fencingPayloads_other hr]
      · rcases h.table q hq with ⟨r', hr', hrest⟩ | ⟨hm, hne⟩
        · exact .inl ⟨r', List.mem_cons_of_mem _ hr', hrest⟩
        · exact .inr ⟨hm, hskip hne⟩
      · exact h.kept hlen fun r' hr' => hthere r' (List.mem_cons_of_mem _ hr')
    rw [if_neg (by simpa using hr)] at hok ⊢
    dsimp only at hok ⊢
    cases hok₁ : (e.updateAttempt .update (abortedAttempt r cause.detail)).2.isOk with
    | false =>
      rw [hok₁] at hok
      exact absurd (hok₁.symm.trans hok) Bool.false_ne_true
    | true =>
      rw [hok₁] at hok
      obtain ⟨x, hx, ha⟩ := abort_accepted hok₁
      revert hok ha
      generalize e.updateAttempt .update (abortedAttempt r cause.detail) = aborted
      intro hok ha
      rw [if_neg (by simp)] at hok ⊢
      cases hok₂ : ((e.withWrite aborted).writeFence ((e.withWrite aborted).fenceOf cause.kind r
          ⟨text cause.detail, cause.bounded⟩)).2.isOk with
      | false =>
        rw [hok₂] at hok
        exact absurd (hok₂.symm.trans hok) Bool.false_ne_true
      | true =>
        rw [hok₂] at hok
        have hf := fence_accepted hok₂
        rw [if_neg (by simp)] at hok ⊢
        have hkeyed : ((e.withWrite aborted).writeFence ((e.withWrite aborted).fenceOf cause.kind r
            ⟨text cause.detail, cause.bounded⟩)).1.Keyed := by
          rw [LineageStore.Keyed, hf.attempts]
          change (aborted.1.state.attempts.map _).Nodup
          rw [ha.attempts]
          exact BoundedTable.evict_nodup (BoundedTable.upsert_nodup hk)
        refine Walked.cons hk hr hx ha ?_ ?_ (ih hkeyed hok)
        · exact hf
        · rfl

/-! ## Operations -/

/-- What a definition of a later generation makes of an engine: nobody holds authority any more,
every holder was aborted and is named by a fence, and the other attempts are as they were, as far
as they are still there. All are, where the table is within its limit. -/
structure Revokes (e e' : Engine) (p : Payload) (cause : FenceCause) : Prop where
  none : ∀ q ∈ e'.state.attempts, attemptPhaseHoldsAuthority q.phase = false
  holders : ∀ r ∈ e.state.attempts, attemptPhaseHoldsAuthority r.phase = true →
    (∃ q ∈ e'.state.attempts, AbortOf cause r q) ∨ ∀ q ∈ e'.state.attempts, q.key ≠ r.key
  others : ∀ r ∈ e.state.attempts, attemptPhaseHoldsAuthority r.phase = false →
    r ∈ e'.state.attempts ∨ ∀ q ∈ e'.state.attempts, q.key ≠ r.key
  known : ∀ q ∈ e'.state.attempts, ∃ r ∈ e.state.attempts, q.key = r.key
  kept : e.state.attempts.length ≤ e.store.options.maxAttempts →
    ∀ r ∈ e.state.attempts, ∃ q ∈ e'.state.attempts, q.key = r.key
  written : payloads e'.store.medium.history = payloads e.store.medium.history ++
    p :: e.fencingPayloads cause e.state.attempts
  fenced : ∀ r ∈ e.state.attempts, attemptPhaseHoldsAuthority r.phase = true →
    ∃ f, .fence f ∈ e.fencingPayloads cause e.state.attempts ∧ f.kind = cause.kind ∧ f.Names r

theorem mem_fences (hm : r ∈ rs) (hr : attemptPhaseHoldsAuthority r.phase = true) :
    .fence (e.fenceOf cause.kind r ⟨text cause.detail, cause.bounded⟩) ∈
      e.fencingPayloads cause rs := by
  refine List.mem_flatMap.mpr ⟨r, List.mem_filter.mpr ⟨hm, hr⟩, ?_⟩
  exact List.mem_cons_of_mem _ List.mem_cons_self

/-- The walk over the whole table, behind the record of the definition. -/
theorem Walked.revokes {e₁ e' : Engine} {p : Payload} (hk : e.store.Keyed)
    (h : Walked cause e₁.state.attempts e₁ e') (hattempts : e₁.state.attempts = e.state.attempts)
    (hoptions : e₁.store.options = e.store.options)
    (hwritten : payloads e₁.store.medium.history = payloads e.store.medium.history ++ [p])
    (hsame : e₁.fencingPayloads cause e.state.attempts =
      e.fencingPayloads cause e.state.attempts) : Revokes e e' p cause := by
  rw [hattempts] at h
  have htable := h.table
  have hkept := h.kept
  rw [hattempts] at htable hkept
  rw [hoptions] at hkept
  have hone : ∀ {a b}, a ∈ e.state.attempts → b ∈ e.state.attempts → a.key = b.key → a = b :=
    fun ha hb hab => BoundedTable.eq_of_key_eq hk ha hb hab
  refine ⟨fun q hq => ?_, fun r hr hholds => ?_, fun r hr hno => ?_, fun q hq => ?_,
    fun hlen => hkept hlen fun r hr _ => ⟨r, hr, rfl⟩, ?_, fun r hr hholds => ?_⟩
  · rcases htable q hq with ⟨r, -, -, seq, rfl⟩ | ⟨hm, hne⟩
    · rfl
    · cases hq' : attemptPhaseHoldsAuthority q.phase with
      | false => rfl
      | true => exact absurd rfl (hne q hm hq')
  · by_cases hthere : ∃ q ∈ e'.state.attempts, q.key = r.key
    · obtain ⟨q, hq, hqr⟩ := hthere
      refine .inl ⟨q, hq, ?_⟩
      rcases htable q hq with ⟨r', hr', -, hx⟩ | ⟨hm, hne⟩
      · rwa [hone hr' hr (hx.key.symm.trans hqr)] at hx
      · exact absurd hqr (hne r hr hholds)
    · exact .inr fun q hq hqr => hthere ⟨q, hq, hqr⟩
  · by_cases hthere : ∃ q ∈ e'.state.attempts, q.key = r.key
    · obtain ⟨q, hq, hqr⟩ := hthere
      refine .inl ?_
      rcases htable q hq with ⟨r', hr', hholds, hx⟩ | ⟨hm, -⟩
      · rw [hone hr' hr (hx.key.symm.trans hqr), hno] at hholds
        cases hholds
      · rwa [hone hm hr hqr] at hq
    · exact .inr fun q hq hqr => hthere ⟨q, hq, hqr⟩
  · rcases htable q hq with ⟨r, hr, -, hx⟩ | ⟨hm, -⟩
    · exact ⟨r, hr, hx.key⟩
    · exact ⟨q, hm, rfl⟩
  · rw [h.written, hwritten, hsame, List.append_assoc]
    rfl
  · exact ⟨_, mem_fences hr hholds, rfl, ⟨rfl, rfl, rfl⟩⟩

/-- A definition of a later generation that is accepted. -/
theorem setDefinition_revokes {Tag : Type} {new current : StrongUint Tag UInt64}
    {sameContent : Bool} {code : ReasonCode} {regresses conflicts : String} (p : Payload)
    (apply : Applies) (hk : e.store.Keyed) (hnew : current < new)
    (ha : ∀ seq d, (apply seq d).attempts = d.attempts)
    (hok : (e.setDefinition new current sameContent code regresses conflicts
      (fun e => e.store.commit p apply) cause).2.isOk = true) :
    Revokes e (e.setDefinition new current sameContent code regresses conflicts
        (fun e => e.store.commit p apply) cause).1 p cause ∧
      ∃ seq, (e.setDefinition new current sameContent code regresses conflicts
          (fun e => e.store.commit p apply) cause).1.state.policy = (apply seq e.state).policy ∧
        (e.setDefinition new current sameContent code regresses conflicts
          (fun e => e.store.commit p apply) cause).1.state.topology =
            (apply seq e.state).topology := by
  have hlt := StrongUint.lt_iff.mp hnew
  have hnot : ¬ new < current := fun h => by
    have := StrongUint.lt_iff.mp h
    omega
  have hne : ¬ new = current := fun h => by
    rw [h] at hlt
    omega
  unfold setDefinition at hok ⊢
  rw [if_neg hnot, if_neg hne] at hok ⊢
  dsimp only at hok ⊢
  cases hcommit : (e.store.commit p apply).2.isOk with
  | false =>
    rw [hcommit] at hok
    exact absurd (hcommit.symm.trans hok) Bool.false_ne_true
  | true =>
    rw [hcommit] at hok
    obtain ⟨-, -, seq, -, -, hstate, hoptions, -⟩ := commit_ok hcommit
    have hwritten := commit_payloads hcommit
    have hattempts := @commit_attempts e.store p apply ha
    have hpolicy := congrArg DurableState.policy hstate
    have htopology := congrArg DurableState.topology hstate
    revert hok hoptions hwritten hattempts hpolicy htopology
    generalize e.store.commit p apply = committed
    intro hok hoptions hwritten hattempts hpolicy htopology
    rw [if_neg (by simp)] at hok ⊢
    have hkeyed : (e.withWrite committed).store.Keyed := by
      rw [withWrite_store, LineageStore.Keyed, hattempts]
      exact hk
    have hwalk := fenceAuthorities_walked hkeyed hok
    exact ⟨hwalk.revokes hk hattempts hoptions hwritten rfl, seq, hwalk.policy.trans hpolicy,
      hwalk.topology.trans htopology⟩

/-- A definition that is not of a later generation changes nothing, and is accepted only when it
has the content of the one in force. -/
theorem setDefinition_same {Tag : Type} {new current : StrongUint Tag UInt64}
    {sameContent : Bool} {code : ReasonCode} {regresses conflicts : String}
    {commit : Engine → LineageStore × Status} (hle : new ≤ current) :
    (e.setDefinition new current sameContent code regresses conflicts commit cause).1 = e ∧
      ((e.setDefinition new current sameContent code regresses conflicts commit cause).2.isOk =
        true → sameContent = true) := by
  unfold setDefinition
  by_cases hlt : new < current
  · rw [if_pos hlt]
    exact ⟨rfl, fun h => absurd h Bool.false_ne_true⟩
  have heq : new = current := by
    rw [StrongUint.lt_iff] at hlt
    have hle' := StrongUint.le_iff.mp hle
    exact StrongUint.toNat_inj.mp (by omega)
  rw [if_neg hlt, if_pos heq]
  cases sameContent with
  | true => exact ⟨rfl, fun _ => rfl⟩
  | false => exact ⟨rfl, fun h => absurd h Bool.false_ne_true⟩

end Engine

namespace Engine

variable {e : Engine}

theorem setPolicy_revokes (hk : e.store.Keyed) {policy : FailoverPolicy}
    (hnew : e.state.policy.generation < policy.generation)
    (hok : (e.setPolicy policy).2.isOk = true) :
    e.Revokes (e.setPolicy policy).1 (.policy policy) policyChanged ∧
      (e.setPolicy policy).1.state.policy = policy := by
  unfold setPolicy at hok ⊢
  by_cases hc : e.closed = true
  · rw [if_pos hc] at hok
    exact absurd hok Bool.false_ne_true
  rw [if_neg hc] at hok ⊢
  by_cases hv : (!policy.validate.isOk) = true
  · rw [if_pos hv] at hok
    rw [hok] at hv
    exact absurd hv Bool.false_ne_true
  rw [if_neg hv] at hok ⊢
  obtain ⟨hrevokes, seq, hpolicy, -⟩ := setDefinition_revokes (.policy policy)
    (fun _ d => { d with policy := policy }) hk hnew (fun _ _ => rfl) hok
  exact ⟨hrevokes, hpolicy⟩

theorem setTopology_revokes (hk : e.store.Keyed) {topology : TopologySnapshot}
    (hnew : e.state.topology.generation < topology.generation)
    (hok : (e.setTopology topology).2.isOk = true) :
    e.Revokes (e.setTopology topology).1 (.topology topology.canonicalise) topologyChanged ∧
      (e.setTopology topology).1.state.topology = topology.canonicalise := by
  unfold setTopology at hok ⊢
  dsimp only at hok ⊢
  by_cases hc : e.closed = true
  · rw [if_pos hc] at hok
    exact absurd hok Bool.false_ne_true
  rw [if_neg hc] at hok ⊢
  by_cases hv : (!topology.canonicalise.validate.isOk) = true
  · rw [if_pos hv] at hok
    rw [hok] at hv
    exact absurd hv Bool.false_ne_true
  rw [if_neg hv] at hok ⊢
  obtain ⟨hrevokes, seq, -, htopology⟩ := setDefinition_revokes
    (.topology topology.canonicalise) (fun _ d => { d with topology := topology.canonicalise })
    hk hnew (fun _ _ => rfl) hok
  exact ⟨hrevokes, htopology⟩

theorem setPolicy_same {policy : FailoverPolicy}
    (hold : policy.validate.isOk = false ∨ policy.generation ≤ e.state.policy.generation) :
    (e.setPolicy policy).1 = e ∧
      ((e.setPolicy policy).2.isOk = true → policy.digest = e.state.policy.digest) := by
  unfold setPolicy
  by_cases hc : e.closed = true
  · rw [if_pos hc]
    exact ⟨rfl, fun hok => absurd hok Bool.false_ne_true⟩
  rw [if_neg hc]
  by_cases hv : policy.validate.isOk = true
  · rw [if_neg (by rw [hv]; exact Bool.false_ne_true)]
    obtain ⟨hsame, hcontent⟩ := setDefinition_same
      (hold.resolve_left fun hno => Bool.false_ne_true (hno.symm.trans hv))
    exact ⟨hsame, fun hok => of_decide_eq_true (hcontent hok)⟩
  · rw [if_pos (by rw [Bool.not_eq_true] at hv; rw [hv]; rfl)]
    exact ⟨rfl, fun hok => absurd hok hv⟩

theorem setTopology_same {topology : TopologySnapshot}
    (hold : topology.canonicalise.validate.isOk = false ∨
      topology.generation ≤ e.state.topology.generation) :
    (e.setTopology topology).1 = e ∧ ((e.setTopology topology).2.isOk = true →
      topology.canonicalise.digest = e.state.topology.digest) := by
  unfold setTopology
  dsimp only
  by_cases hc : e.closed = true
  · rw [if_pos hc]
    exact ⟨rfl, fun hok => absurd hok Bool.false_ne_true⟩
  rw [if_neg hc]
  by_cases hv : topology.canonicalise.validate.isOk = true
  · rw [if_neg (by rw [hv]; exact Bool.false_ne_true)]
    obtain ⟨hsame, hcontent⟩ := setDefinition_same
      (hold.resolve_left fun hno => Bool.false_ne_true (hno.symm.trans hv))
    exact ⟨hsame, fun hok => of_decide_eq_true (hcontent hok)⟩
  · rw [if_pos (by rw [Bool.not_eq_true] at hv; rw [hv]; rfl)]
    exact ⟨rfl, fun hok => absurd hok hv⟩

end Engine

/-- What `setPolicy` and `setTopology` do in every reachable state. A definition of a later
generation that is accepted revokes all authority and is in force. A definition that is invalid
or not of a later generation changes nothing and writes nothing, and is reported as a success only
when it is the one in force, up to a collision of their digests. The definition that counts is
the canonical form of a topology. -/
theorem definitions_revoke {e : Engine} (h : Reachable e) :
    (∀ policy, e.state.policy.generation < policy.generation →
      (e.setPolicy policy).2.isOk = true →
        e.Revokes (e.setPolicy policy).1 (.policy policy) Engine.policyChanged ∧
          (e.setPolicy policy).1.state.policy = policy) ∧
    (∀ topology, e.state.topology.generation < topology.generation →
      (e.setTopology topology).2.isOk = true →
        e.Revokes (e.setTopology topology).1 (.topology topology.canonicalise)
            Engine.topologyChanged ∧
          (e.setTopology topology).1.state.topology = topology.canonicalise) ∧
    (∀ policy, policy.validate.isOk = false ∨
        policy.generation ≤ e.state.policy.generation →
      (e.setPolicy policy).1 = e ∧ ((e.setPolicy policy).2.isOk = true →
        policy = e.state.policy ∨
          Collide (Writer.run policy.encode) (Writer.run e.state.policy.encode))) ∧
    (∀ topology, topology.canonicalise.validate.isOk = false ∨
        topology.generation ≤ e.state.topology.generation →
      (e.setTopology topology).1 = e ∧ ((e.setTopology topology).2.isOk = true →
        topology.canonicalise = e.state.topology ∨
          Collide (Writer.run topology.canonicalise.encode)
            (Writer.run e.state.topology.encode))) := by
  have hk := h.ok.keyed
  refine ⟨fun policy => Engine.setPolicy_revokes hk, fun topology => Engine.setTopology_revokes hk,
    fun policy hold => ?_, fun topology hold => ?_⟩
  · obtain ⟨hsame, hdigest⟩ := Engine.setPolicy_same hold
    exact ⟨hsame, fun hok => FailoverPolicy.eq_of_digest (hdigest hok)⟩
  · obtain ⟨hsame, hdigest⟩ := Engine.setTopology_same hold
    exact ⟨hsame, fun hok => TopologySnapshot.eq_of_digest (hdigest hok)⟩

/-- The policy of the second generation takes the authority of a grant. -/
theorem definitions_revoke_sample : ∃ e, Reachable e ∧
    (∃ r ∈ e.state.attempts, attemptPhaseHoldsAuthority r.phase = true) ∧
    e.Revokes (e.setPolicy { generation := ⟨2⟩ }).1 (.policy { generation := ⟨2⟩ })
      Engine.policyChanged := by
  obtain ⟨e, he, hp⟩ := @System.of_serves
    (System.run (Sample.booted {} {} ++ [.perform (.requestFailover (Sample.request ⟨1⟩))]))
    (fun e => e.state.attempts.any (fun r => attemptPhaseHoldsAuthority r.phase) &&
      (decide (e.state.policy.generation < ⟨2⟩) &&
        (e.setPolicy { generation := ⟨2⟩ }).2.isOk)) (by decide +kernel)
  rw [Bool.and_eq_true, Bool.and_eq_true, decide_eq_true_eq] at hp
  obtain ⟨r, hr, hholds⟩ := List.any_eq_true.mp hp.1
  exact ⟨e, ⟨_, he⟩, ⟨r, hr, hholds⟩,
    ((definitions_revoke ⟨_, he⟩).1 { generation := ⟨2⟩ } hp.2.1 hp.2.2).1⟩

end LinkFailover
