import LinkFailover.Atomicity
import LinkFailover.Commits
import LinkFailover.Reboots

/-!
# Directives

A directive is handed out for an attempt that is authorized, under the authority of the attempt.
A new definition is in force before the attempts of the old one are aborted, one append after the
other, and the walk ends with the first append that fails. What it has not come to is still handed
out, under a definition that is no longer in force.

* `Directed`: the authorized attempts are bound to what is in force.
* `directives_current`: in which runs every directive is.
-/

namespace LinkFailover

open Codec

/-! ## Directives in force -/

/-- The authority of a directive is the one in force. -/
structure ApplyDirective.Current (v : ApplyDirective) (e : Engine) : Prop where
  epoch : v.authority.epoch = e.epoch
  coordinator : v.authority.coordinator = e.incarnation
  policyGeneration : v.authority.policyGeneration = e.state.policy.generation
  policyDigest : v.authority.policyDigest = e.state.policy.digest
  topologyGeneration : v.authority.topologyGeneration = e.state.topology.generation
  topologyDigest : v.authority.topologyDigest = e.state.topology.digest

namespace Engine

/-- A directive that the engine hands out when it is asked for the pending ones or for one. -/
def Hands (e : Engine) (v : ApplyDirective) : Prop :=
  (∃ n, v ∈ e.pendingDirectives n) ∨
    ∃ subject generation seq, e.takeDirective subject generation seq = some v

/-- The record of a new definition, and the cause that the attempts of the old one are fenced
with. -/
def installs (e : Engine) : Operation → Option (Payload × FenceCause)
  | .setPolicy policy =>
    if e.closed || !policy.validate.isOk ||
        decide (policy.generation ≤ e.state.policy.generation) then none
    else some (.policy policy, policyChanged)
  | .setTopology topology =>
    if e.closed || !topology.canonicalise.validate.isOk ||
        decide (topology.canonicalise.generation ≤ e.state.topology.generation) then none
    else some (.topology topology.canonicalise, topologyChanged)
  | _ => none

/-- The records that abort and fence the attempts of a list. -/
def fencingPayloads (e : Engine) (cause : FenceCause) (rs : List AttemptRecord) : List Payload :=
  (rs.filter fun r => attemptPhaseHoldsAuthority r.phase).flatMap fun r =>
    [.attempt .update (abortedAttempt r cause.detail),
      .fence (e.fenceOf cause.kind r ⟨text cause.detail, cause.bounded⟩)]

/-- Among the appends ahead, behind `n` others, every abort of an authorized attempt is accepted,
and so is all that comes before it. -/
def Reaches (s : LineageStore) (n : Nat) (detail : String) (payloads : List Payload) : Prop :=
  ∀ before r after, payloads = before ++ .attempt .update (abortedAttempt r detail) :: after →
    r.phase = .authorized →
    ∀ k p, (before ++ [Payload.attempt .update (abortedAttempt r detail)])[k]? = some p →
      s.acceptsAt (n + k) p = true

/-- A new definition that is in force aborts all authorized attempts of the old one. -/
def FencesThrough (e : Engine) (op : Operation) : Prop :=
  ∀ p cause, e.installs op = some (p, cause) → e.store.acceptsAt 0 p = true →
    Reaches e.store 1 cause.detail (e.fencingPayloads cause e.state.attempts)

end Engine

/-- Every authorized attempt is bound to what is in force. -/
def Directed (e : Engine) : Prop :=
  ∀ q ∈ e.state.attempts, q.phase = .authorized → q.authority.Binds e.state

section Handing

variable {e : Engine} {v : ApplyDirective}

theorem isPending_authorized {r : AttemptRecord} (h : Engine.isPending r = true) :
    r.phase = .authorized := by
  rw [Engine.isPending, Bool.and_eq_true] at h
  exact of_decide_eq_true h.1

/-- A directive is that of an authorized attempt. -/
theorem Engine.Hands.attempt (h : e.Hands v) :
    ∃ q ∈ e.state.attempts, q.phase = .authorized ∧ v = e.directiveOf q := by
  rcases h with ⟨n, hv⟩ | ⟨subject, generation, seq, hv⟩
  · unfold Engine.pendingDirectives at hv
    split at hv
    · cases hv
    obtain ⟨q, hq, rfl⟩ := List.mem_map.mp hv
    obtain ⟨hm, hp⟩ := List.mem_filter.mp (BoundedTable.mem_sortBy.mp (List.mem_of_mem_take hq))
    exact ⟨q, hm, isPending_authorized hp, rfl⟩
  · unfold Engine.takeDirective at hv
    split at hv
    · cases hv
    split at hv
    · cases hv
    rename_i r hfound
    split at hv
    · cases hv
    rename_i hp
    simp only [not_or, not_not, Bool.not_eq_false] at hp
    cases hv
    exact ⟨r, (DurableState.findAttempt_some hfound).1, isPending_authorized hp.2, rfl⟩

theorem Directed.current {wire : Prop} (h : EngineOk wire e) (hd : Directed e) (hv : e.Hands v) :
    (∃ q ∈ e.state.attempts, q.phase = .authorized ∧ v = e.directiveOf q) ∧ v.Current e := by
  obtain ⟨q, hq, hp, rfl⟩ := hv.attempt
  have hb := hd q hq hp
  have hopen := Engine.ok_open_of_attempt h hq
  exact ⟨⟨q, hq, hp, rfl⟩, hb.epoch.trans (h.epoch hopen).symm,
    hb.coordinator.trans (h.coordinator hopen).symm,
    hb.policyGeneration, hb.policyDigest, hb.topologyGeneration, hb.topologyDigest⟩

end Handing

/-! ## Fencing -/

namespace Engine

variable {wire : Prop} {e : Engine}

theorem Reaches.shift {s s' : LineageStore} {n : Nat} {detail : String} {payloads : List Payload}
    (hs : ∀ n p, s'.acceptsAt n p = s.acceptsAt (n + 1) p)
    (h : Reaches s (n + 1) detail payloads) : Reaches s' n detail payloads := by
  intro before r after he hr k p hk
  rw [hs]
  have := h before r after he hr k p hk
  rwa [Nat.add_right_comm] at this

/-- The appends behind the first one. -/
theorem Reaches.tail {s : LineageStore} {n : Nat} {detail : String} {p : Payload}
    {payloads : List Payload} (h : Reaches s n detail (p :: payloads)) :
    Reaches s (n + 1) detail payloads := by
  intro before r after he hr k q hk
  have := h (p :: before) r after (by rw [he]; rfl) hr (k + 1) q (by simpa using hk)
  rwa [Nat.add_right_comm, Nat.add_assoc]

/-- An authorized attempt is still ahead, and so the next append is accepted. -/
theorem Reaches.head {s : LineageStore} {n : Nat} {detail : String} {p : Payload}
    {payloads : List Payload} (h : Reaches s n detail (p :: payloads)) {r : AttemptRecord}
    (hm : Payload.attempt .update (abortedAttempt r detail) ∈ p :: payloads)
    (hr : r.phase = .authorized) : s.acceptsAt n p = true := by
  obtain ⟨before, after, he⟩ := List.append_of_mem hm
  refine h before r after he hr 0 p ?_
  cases before with
  | nil =>
    cases he
    rfl
  | cons x before =>
    cases he
    rfl

theorem mem_fencingPayloads {cause : FenceCause} {rs : List AttemptRecord} {r : AttemptRecord}
    (hm : r ∈ rs) (hr : r.phase = .authorized) :
    Payload.attempt .update (abortedAttempt r cause.detail) ∈ e.fencingPayloads cause rs := by
  refine List.mem_flatMap.mpr ⟨r, List.mem_filter.mpr ⟨hm, ?_⟩, List.mem_cons_self⟩
  rw [hr]
  rfl

/-- A walk that reaches every authorized attempt leaves none. -/
theorem fenceAuthorities_authorized {cause : FenceCause} {rs : List AttemptRecord}
    (hs : e.store.StoreOk) (hk : e.store.Keyed)
    (hrs : ∀ q ∈ e.state.attempts, q.phase = .authorized → q ∈ rs)
    (hreach : Reaches e.store 0 cause.detail (e.fencingPayloads cause rs)) :
    ∀ q ∈ (fenceAuthorities cause rs e).1.state.attempts, q.phase ≠ .authorized := by
  induction rs generalizing e with
  | nil => exact fun q hq hp => List.not_mem_nil (hrs q hq hp)
  | cons r rs ih =>
    rw [fenceAuthorities]
    by_cases hr : attemptPhaseHoldsAuthority r.phase = true
    swap
    · rw [if_pos (by simpa using hr)]
      rw [fencingPayloads, @List.filter_cons_of_neg _ _ r rs hr] at hreach
      refine ih hs hk (fun q hq hp => ?_) hreach
      rcases List.mem_cons.mp (hrs q hq hp) with rfl | hm
      · rw [hp] at hr
        exact absurd rfl hr
      · exact hm
    rw [if_neg (by simpa using hr)]
    rw [fencingPayloads, @List.filter_cons_of_pos _ _ r rs hr, List.flatMap_cons] at hreach
    change Reaches e.store 0 cause.detail (_ :: _ :: e.fencingPayloads cause rs) at hreach
    dsimp only
    cases hok : (e.updateAttempt .update (abortedAttempt r cause.detail)).2.isOk with
    | false =>
      -- the table is as it was, and an authorized attempt in it is ahead
      intro q hq hp
      have hstate : (e.updateAttempt .update (abortedAttempt r cause.detail)).1.state = e.state :=
        (commit_not_ok hok).2.1
      change q ∈ (e.updateAttempt .update (abortedAttempt r cause.detail)).1.state.attempts at hq
      rw [hstate] at hq
      have hm := @mem_fencingPayloads e cause _ _ (hrs q hq hp) hp
      rw [fencingPayloads, @List.filter_cons_of_pos _ _ r rs hr, List.flatMap_cons] at hm
      have hacc := hreach.head hm hp
      rw [LineageStore.acceptsAt_zero] at hacc
      rw [updateAttempt, writeAttempt, (commit_isOk_iff hs).mpr hacc] at hok
      cases hok
    | true =>
      rw [if_neg (by simp)]
      have hreach1 : Reaches (e.updateAttempt .update (abortedAttempt r cause.detail)).1 0
          cause.detail (_ :: e.fencingPayloads cause rs) :=
        hreach.tail.shift fun n p => commit_acceptsAt hok n
      have hs1 : (e.updateAttempt .update (abortedAttempt r cause.detail)).1.StoreOk :=
        hs.commit _ _
      obtain ⟨x, hx, -, htable⟩ := @writeAttempt_noted e .update
        (abortedAttempt r cause.detail) updatedAt (fun _ => rfl) hok
      have hk1 : (e.updateAttempt .update (abortedAttempt r cause.detail)).1.Keyed := by
        rw [LineageStore.Keyed, updateAttempt, htable]
        exact BoundedTable.evict_nodup (BoundedTable.upsert_nodup hk)
      have hrs1 : ∀ q ∈ (e.updateAttempt .update (abortedAttempt r cause.detail)).1.state.attempts,
          q.phase = .authorized → q ∈ rs := by
        intro q hq hp
        rw [updateAttempt, htable] at hq
        rcases (BoundedTable.mem_upsert_iff hk).mp (BoundedTable.mem_of_mem_evict hq) with
          rfl | ⟨hm, hne⟩
        · rw [phase_of_unstamped hx] at hp
          cases hp
        · rcases List.mem_cons.mp (hrs q hm hp) with rfl | hm
          · exact absurd ((key_of_unstamped hx).trans rfl).symm hne
          · exact hm
      revert hreach1 hs1 hk1 hrs1
      generalize e.updateAttempt .update (abortedAttempt r cause.detail) = aborted
      intro hreach1 hs1 hk1 hrs1
      have hsame : ((e.withWrite aborted).writeFence ((e.withWrite aborted).fenceOf cause.kind r
          ⟨text cause.detail, cause.bounded⟩)).1.state.attempts = aborted.1.state.attempts :=
        commit_attempts fun _ _ => rfl
      cases hok2 : ((e.withWrite aborted).writeFence ((e.withWrite aborted).fenceOf cause.kind r
          ⟨text cause.detail, cause.bounded⟩)).2.isOk with
      | false =>
        intro q hq hp
        change q ∈ ((e.withWrite aborted).writeFence ((e.withWrite aborted).fenceOf cause.kind r
          ⟨text cause.detail, cause.bounded⟩)).1.state.attempts at hq
        rw [hsame] at hq
        have hacc := hreach1.head (List.mem_cons_of_mem _
          (@mem_fencingPayloads e cause _ _ (hrs1 q hq hp) hp)) hp
        rw [LineageStore.acceptsAt_zero] at hacc
        have := (@commit_isOk_iff _ hs1 _ fun seq d => d.noteFence aborted.1.options
          { e.fenceOf cause.kind r ⟨text cause.detail, cause.bounded⟩ with seq := seq }).mpr hacc
        change ((e.withWrite aborted).writeFence ((e.withWrite aborted).fenceOf cause.kind r
          ⟨text cause.detail, cause.bounded⟩)).2.isOk = true at this
        rw [hok2] at this
        cases this
      | true =>
        rw [if_neg (by simp)]
        have hreach2 : Reaches ((e.withWrite aborted).writeFence ((e.withWrite aborted).fenceOf
            cause.kind r ⟨text cause.detail, cause.bounded⟩)).1 0 cause.detail
            (e.fencingPayloads cause rs) :=
          hreach1.tail.shift fun n p => commit_acceptsAt hok2 n
        refine @ih ((e.withWrite aborted).withWrite _) (hs1.commit _ _) ?_ ?_ hreach2
        · rw [LineageStore.Keyed]
          change (((e.withWrite aborted).writeFence _).1.state.attempts.map _).Nodup
          rw [hsame]
          exact hk1
        · intro q hq hp
          change q ∈ ((e.withWrite aborted).writeFence _).1.state.attempts at hq
          rw [hsame] at hq
          exact hrs1 q hq hp

/-! ## Operations -/

/-- An operation installs a definition: it is committed, and the walk over the old attempts
leads to this engine. -/
def Installs (e : Engine) (op : Operation) (e' : Engine) : Prop :=
  ∃ p apply cause, e.installs op = some (p, cause) ∧ (e.store.commit p apply).2.isOk = true ∧
    (∀ seq d, (apply seq d).attempts = d.attempts) ∧ e' =
      (fenceAuthorities cause (e.store.commit p apply).1.state.attempts
        (e.withWrite (e.store.commit p apply))).1

/-- A definition that is refused or cannot be recorded leaves the state alone. -/
theorem setDefinition_installs {Tag : Type} {op : Operation} {new current : StrongUint Tag UInt64}
    {sameContent : Bool} {code : ReasonCode} {regresses conflicts : String} {p : Payload}
    {apply : Applies} {cause : FenceCause}
    (hi : current < new → e.installs op = some (p, cause))
    (ha : ∀ seq d, (apply seq d).attempts = d.attempts) {e' : Engine}
    (he : e' = (e.setDefinition new current sameContent code regresses conflicts
      (fun e => e.store.commit p apply) cause).1) :
    e'.state = e.state ∨ e.Installs op e' := by
  unfold setDefinition at he
  by_cases hlt : new < current
  · rw [if_pos hlt] at he
    exact .inl (congrArg state he)
  rw [if_neg hlt] at he
  by_cases heq : new = current
  · rw [if_pos heq] at he
    refine .inl ?_
    cases sameContent <;> exact congrArg state he
  rw [if_neg heq] at he
  dsimp only at he
  cases hok : (e.store.commit p apply).2.isOk with
  | false =>
    rw [hok] at he
    refine .inl ((congrArg state he).trans ?_)
    exact (commit_not_ok hok).2.1
  | true =>
    rw [hok] at he
    exact .inr ⟨p, apply, cause, hi (StrongUint.lt_of_not hlt heq), hok, ha, he⟩

/-- The guard of a definition, once its generation is newer. -/
theorem installs_guard {Tag : Type} {closed valid : Bool} {new current : StrongUint Tag UInt64}
    (hc : ¬ closed = true) (hv : ¬ (!valid) = true) (hlt : current < new) :
    ¬ (closed || !valid || decide (new ≤ current)) = true := by
  simp only [Bool.or_eq_true, decide_eq_true_eq, not_or]
  refine ⟨⟨hc, hv⟩, ?_⟩
  rw [StrongUint.le_iff]
  rw [StrongUint.lt_iff] at hlt
  omega

theorem setPolicy_installs (policy : FailoverPolicy) :
    (e.perform (.setPolicy policy)).1.state = e.state ∨
      e.Installs (.setPolicy policy) (e.perform (.setPolicy policy)).1 := by
  have hp : (e.perform (.setPolicy policy)).1 = (e.setPolicy policy).1 := rfl
  unfold setPolicy at hp
  by_cases hc : e.closed = true
  · rw [if_pos hc] at hp
    exact .inl (congrArg state hp)
  rw [if_neg hc] at hp
  by_cases hv : (!policy.validate.isOk) = true
  · rw [if_pos hv] at hp
    exact .inl (congrArg state hp)
  rw [if_neg hv] at hp
  have hi : e.state.policy.generation < policy.generation →
      e.installs (.setPolicy policy) = some (.policy policy, policyChanged) := fun hlt => by
    rw [installs, if_neg (installs_guard hc hv hlt)]
  refine setDefinition_installs hi ?_ hp
  exact fun _ _ => rfl

theorem setTopology_installs (topology : TopologySnapshot) :
    (e.perform (.setTopology topology)).1.state = e.state ∨
      e.Installs (.setTopology topology) (e.perform (.setTopology topology)).1 := by
  have hp : (e.perform (.setTopology topology)).1 = (e.setTopology topology).1 := rfl
  unfold setTopology at hp
  dsimp only at hp
  by_cases hc : e.closed = true
  · rw [if_pos hc] at hp
    exact .inl (congrArg state hp)
  rw [if_neg hc] at hp
  by_cases hv : (!topology.canonicalise.validate.isOk) = true
  · rw [if_pos hv] at hp
    exact .inl (congrArg state hp)
  rw [if_neg hv] at hp
  have hi : e.state.topology.generation < topology.canonicalise.generation →
      e.installs (.setTopology topology) = some (.topology topology.canonicalise, topologyChanged) :=
    fun hlt => by rw [installs, if_neg (installs_guard hc hv hlt)]
  refine setDefinition_installs hi ?_ hp
  exact fun _ _ => rfl

/-- Other operations leave the definitions and the boot as they are, up to the close. -/
theorem perform_in_force {op : Operation} (hop : op ≠ .close)
    (hp : ∀ policy, op ≠ .setPolicy policy) (ht : ∀ topology, op ≠ .setTopology topology)
    (a : AuthorityVector) (h : a.Binds e.state) : a.Binds (e.perform op).1.state := by
  have hk := (perform_commits (e := e) hop).keeps
    (f := fun d => (d.epoch, d.coordinator, d.policy, d.topology)) (fun p apply hm seq d => by
      cases hm with
      | policy h => exact absurd h (hp _)
      | topology h => exact absurd h (ht _)
      | _ => rfl) fun _ _ => rfl
  simp only [Prod.mk.injEq] at hk
  exact h.congr hk.1 hk.2.1 hk.2.2.1 hk.2.2.2

/-- What an operation that installs nothing leaves authorized is bound to what is in force. -/
theorem directed_ordinary (h : EngineOk False e) (hf : e.store.failed = false) (hd : Directed e)
    {op : Operation} (hop : op ≠ .close) (hp : ∀ policy, op ≠ .setPolicy policy)
    (ht : ∀ topology, op ≠ .setTopology topology) : Directed (e.perform op).1 := by
  intro q hq hq'
  refine perform_in_force hop hp ht _ ?_
  rcases (amended_begins hop).2.mem hq with ⟨w, hw, hu⟩ | hm
  swap
  · exact hd q hm hq'
  have hwm := (amended_begins hop).1.subset hw
  have hphase : w.2.phase = .authorized := (phase_of_unstamped hu).trans hq'
  rw [← authority_of_unstamped hu]
  by_cases hr : ∃ req, op = .requestFailover req
  · obtain ⟨req, rfl⟩ := hr
    cases ha : e.amendments (.requestFailover req) with
    | nil =>
      rw [ha] at hwm
      cases hwm
    | cons x rest =>
      rw [ha] at hwm
      obtain ⟨-, -, ⟨hx, rfl⟩ | ⟨⟨hx, hb⟩, rfl⟩⟩ := failover_amendments h hf ha
      · rw [List.mem_singleton.mp hwm] at hphase
        rw [hphase] at hx
        simp at hx
      · rcases List.mem_cons.mp hwm with rfl | hwm
        · rw [hphase] at hx
          cases hx
        · rw [List.mem_singleton.mp hwm]
          exact hb
  · obtain ⟨found, -, -, ⟨hi, -⟩ | hl⟩ := amendments_phase (fun req he => hr ⟨req, he⟩) hwm
    · rw [hphase] at hi
      cases hi
    · rw [lifecycle_created (.inr (.inl hphase))] at hl
      cases hl

/-- A process that can write has bound all that is in flight to what is in force. -/
theorem directed_live (h : EngineOk wire e) (hf : e.store.failed = false) : Directed e := by
  intro q hq hp
  refine ((ok_trace h hf).liveOk q hq ?_).1
  rw [AttemptRecord.isTerminal, hp]
  rfl

theorem directed_perform (h : EngineOk False e) (hd : Directed e) {op : Operation}
    (ht : e.FencesThrough op) : Directed (e.perform op).1 := by
  by_cases hop : op = .close
  · rw [hop]
    intro q hq
    have hopen := ok_open_of_attempt (close_ok h) hq
    rw [close_closed] at hopen
    cases hopen
  by_cases hf : e.store.failed = true
  · rw [Directed, state, (perform_of_failed h hf op).1.resolve_right fun hc => hop hc.1]
    exact hd
  have hf : e.store.failed = false := by simpa using hf
  have hinstalls : ((e.perform op).1.state = e.state ∨ e.Installs op (e.perform op).1) →
      Directed (e.perform op).1 := by
    rintro (hs | ⟨p, apply, cause, hi, hok, hattempts, he⟩)
    · rw [Directed, hs]
      exact hd
    have hacc : e.store.acceptsAt 0 p = true := by
      rw [LineageStore.acceptsAt_zero]
      exact (commit_isOk_iff h.store).mp hok
    have hsame : (e.store.commit p apply).1.state.attempts = e.state.attempts :=
      commit_attempts hattempts
    have hreach : Reaches (e.store.commit p apply).1 0 cause.detail
        (e.fencingPayloads cause (e.store.commit p apply).1.state.attempts) := by
      rw [hsame]
      exact (ht p cause hi hacc).shift fun n p => commit_acceptsAt hok n
    have hnone := @fenceAuthorities_authorized (e.withWrite (e.store.commit p apply)) cause
      (e.store.commit p apply).1.state.attempts (h.store.commit _ _)
      (by rw [LineageStore.Keyed, withWrite_store, hsame]; exact h.keyed) (fun q hq _ => hq) hreach
    intro q hq hp
    rw [he] at hq
    exact absurd hp (hnone q hq)
  cases op with
  | setPolicy policy => exact hinstalls (setPolicy_installs policy)
  | setTopology topology => exact hinstalls (setTopology_installs topology)
  | _ => exact directed_ordinary h hf hd hop (by simp) (by simp)

end Engine

/-! ## Runs -/

theorem System.run_directed {actions : List Action} {e : Engine} (h : run actions = .up e)
    (ht : ∀ e₀ op, Performs actions e₀ op → e₀.FencesThrough op) : Directed e := by
  induction actions using List.reverseRecOn generalizing e with
  | nil => cases h
  | append_singleton actions a ih =>
    have hok := @run_ok False actions False.elim
    have ih' : ∀ e', run actions = .up e' → Directed e' := fun e' he =>
      ih he fun e₀ op hp => ht e₀ op (hp.append a)
    rw [run_append] at h
    cases hrun : run actions with
    | down m =>
      rw [hrun] at h hok
      cases a with
      | start b =>
        have hm : MediumOk False (b.medium m) := ⟨hok.trace, hok.represents⟩
        have ho := (@openEngine_outcome False b.options b.incarnation b.build _ hm).2
        rw [step, Boot.open] at h
        revert ho h
        generalize Engine.openEngine b.options b.incarnation b.build (b.medium m) = result
        obtain ⟨m', r⟩ := result
        intro h ho
        cases r with
        | error _ => cases h
        | ok e' =>
          cases h
          obtain ⟨hok', hf, -⟩ := ho e rfl
          exact Engine.directed_live hok' hf
      | perform | kill => cases h
    | up e₁ =>
      rw [hrun] at h hok
      cases a with
      | start =>
        cases h
        exact ih' e hrun
      | perform op =>
        cases h
        exact Engine.directed_perform hok (ih' e₁ hrun) (ht e₁ op ⟨actions, [], rfl, hrun⟩)
      | kill => cases h

/-- Every directive that is handed out is of an authorized attempt and under the authority in
force, in every run whose new definitions are fenced through to the last authorized attempt. -/
theorem directives_current {actions : List Action} {e : Engine} (h : System.run actions = .up e)
    (ht : ∀ e₀ op, Performs actions e₀ op → e₀.FencesThrough op) {v : ApplyDirective}
    (hv : e.Hands v) :
    (∃ q ∈ e.state.attempts, q.phase = .authorized ∧ v = e.directiveOf q) ∧ v.Current e :=
  (System.run_directed h ht).current (Reachable.ok ⟨actions, h⟩) hv

/-- The policy of the second generation is in force when the abort of the granted attempt cannot
be written: its directive is still handed out, under the policy of the first. -/
theorem setPolicy_leaves_directive : ∃ (e : Engine) (v : ApplyDirective), Reachable e ∧
    e.Hands v ∧ ¬ v.Current e := by
  obtain ⟨e, he, hp⟩ := @System.of_serves
    (System.run
      [.start { options := Sample.options {} {}, incarnation := Sample.incarnation 1,
                appendFaults := [none, none, none, none, none, none, some 0] },
        .perform (Sample.down ⟨1⟩ ⟨1⟩ 1), .perform (Sample.usable ⟨1⟩ 1),
        .perform (.requestFailover (Sample.request ⟨1⟩)),
        .perform (.setPolicy { generation := ⟨2⟩ })])
    (fun e => (e.pendingDirectives 1).any fun v =>
      decide (v.authority.policyGeneration ≠ e.state.policy.generation)) (by decide +kernel)
  obtain ⟨v, hv, hp⟩ := List.any_eq_true.mp hp
  exact ⟨e, v, ⟨_, he⟩, .inl ⟨1, hv⟩, fun hc => of_decide_eq_true hp hc.policyGeneration⟩

/-- Whether a new definition is appended, and every abort and fence behind it. -/
def Sample.fencesAll (e : Engine) (op : Operation) : Bool :=
  match e.installs op with
  | none => true
  | some (p, cause) =>
    ((p :: e.fencingPayloads cause e.state.attempts).zipIdx).all fun x => e.store.acceptsAt x.2 x.1

theorem Sample.fencesThrough {e : Engine} {op : Operation} (h : fencesAll e op = true) :
    e.FencesThrough op := by
  rintro p cause hi - before r after hsplit - k q hk
  rw [fencesAll, hi] at h
  have hm : (q, 1 + k) ∈ (p :: e.fencingPayloads cause e.state.attempts).zipIdx := by
    rw [List.mem_zipIdx_iff_getElem?, Nat.add_comm, List.getElem?_cons_succ, hsplit,
      ← List.singleton_append, ← List.append_assoc,
      List.getElem?_append_left (List.getElem?_eq_some_iff.mp hk).1]
    exact hk
  exact List.all_eq_true.mp h _ hm

/-- A policy and a topology replace the definitions of a grant. Under each of them the failover is
granted again, and only the last grant is handed out, under the authority in force. -/
theorem directives_current_sample : ∃ (e : Engine) (v : ApplyDirective), Reachable e ∧
    e.state.fences.length = 2 ∧ e.Hands v ∧ v.authority.policyGeneration = ⟨2⟩ ∧
    v.authority.topologyGeneration = ⟨2⟩ ∧ v.Current e := by
  let actions := Sample.grantedOnce ++ [.perform (.setPolicy { generation := ⟨2⟩ }),
    .perform (.requestFailover (Sample.request ⟨1⟩)),
    .perform (.setTopology (Sample.topology ⟨2⟩ ⟨2⟩)), .perform (Sample.down ⟨2⟩ ⟨2⟩ 2),
    .perform (Sample.usable ⟨2⟩ 2), .perform (.requestFailover (Sample.request ⟨2⟩))]
  obtain ⟨hpasses, hserves⟩ : System.passes Sample.fencesAll actions (.down {}) = true ∧
      (System.run actions).serves (fun e => decide (e.state.fences.length = 2) &&
        (e.pendingDirectives 4).any fun v => decide (v.authority.policyGeneration = ⟨2⟩ ∧
          v.authority.topologyGeneration = ⟨2⟩)) = true := by decide +kernel
  obtain ⟨e, he, hp⟩ := System.of_serves hserves
  rw [Bool.and_eq_true, decide_eq_true_eq] at hp
  obtain ⟨v, hv, hauthority⟩ := List.any_eq_true.mp hp.2
  obtain ⟨hpolicy, htopology⟩ := of_decide_eq_true hauthority
  exact ⟨e, v, ⟨_, he⟩, hp.1, .inl ⟨4, hv⟩, hpolicy, htopology, (directives_current he
    (fun e₀ op hperf => Sample.fencesThrough (hperf.passes hpasses)) (.inl ⟨4, hv⟩)).2⟩

end LinkFailover
