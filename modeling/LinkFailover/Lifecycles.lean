import LinkFailover.Followups
import LinkFailover.Reboots
import LinkFailover.Restart

/-!
# The life of an attempt

The phases that an attempt passes through, operation by operation and across a restart. The one
operation that can leave them is a request: its sequence number is a count over the retained
table, so a new attempt may get the number of one that is still there, and takes its place.

* `lifecycle`: how a phase moves within a boot.
* `lifecycle_iff`: which operations keep to it.
-/

namespace LinkFailover

open Codec

/-! ## Phases -/

/-- How the phase of an attempt moves within one boot. -/
def lifecycle (requireVerified : Bool) : AttemptPhase → AttemptPhase → Bool
  | .authorized, .acknowledged => true
  | .authorized, .committed => !requireVerified
  | .acknowledged, .verified | .acknowledged, .committed | .acknowledged, .indeterminate => true
  | .interrupted, .aborted | .interrupted, .committed => true
  | old, .aborted | old, .rolledBack => attemptPhaseHoldsAuthority old
  | _, _ => false

/-- Nothing moves into a phase in which a request writes an attempt. -/
theorem lifecycle_created {b : Bool} {old new : AttemptPhase}
    (h : new = .evaluated ∨ new = .authorized ∨ new = .refused) : lifecycle b old new = false := by
  rcases h with rfl | rfl | rfl <;> cases old <;> rfl

theorem lifecycle_indeterminate {b : Bool} {old : AttemptPhase}
    (h : attemptPhaseIsTerminal old = true) : lifecycle b old .indeterminate = false := by
  cases old <;> first | rfl | cases h

theorem lifecycle_aborted {b : Bool} {old : AttemptPhase}
    (h : attemptPhaseHoldsAuthority old = true) : lifecycle b old .aborted = true := by
  cases old <;> first | rfl | cases h

theorem lifecycle_rolledBack {b : Bool} {old : AttemptPhase}
    (h : attemptPhaseHoldsAuthority old = true) : lifecycle b old .rolledBack = true := by
  cases old <;> first | rfl | cases h

namespace Engine

/-- Every attempt that an operation finds and leaves is in its phase or has moved along. -/
def FollowsLifecycle (e : Engine) (op : Operation) : Prop :=
  ∀ q ∈ e.state.attempts, ∀ x ∈ (e.perform op).1.state.attempts, x.identity = q.identity →
    x.phase = q.phase ∨ lifecycle e.state.policy.requireVerifiedEffect q.phase x.phase = true

/-- An operation writes a new attempt in the place of a retained one of the same identity, and
the table keeps it. -/
def Reissues (e : Engine) (op : Operation) : Prop :=
  ∃ req r rest, op = .requestFailover req ∧ e.amendments op = (.create, r) :: rest ∧
    e.store.accepts (.attempt .create r) = true ∧
    r ∈ noted e.store.options e.state.attempts r ∧
    ∃ q ∈ e.state.attempts, q.identity = r.identity ∧ q.phase ≠ r.phase

variable {wire : Prop} {e : Engine}

/-! ## Requests -/

theorem accepts_not_failed {s : LineageStore} {p : Payload} (h : s.accepts p = true) :
    s.failed = false := by
  unfold LineageStore.accepts at h
  simp only [Bool.and_eq_true, Bool.not_eq_true'] at h
  exact h.1.1

/-- What a request is going to write of attempts. -/
theorem failover_amendments (h : EngineOk wire e) (hf : e.store.failed = false)
    {req : FailoverRequest} {x : Amendment} {rest : List Amendment}
    (ha : e.amendments (.requestFailover req) = x :: rest) :
    x.1 = .create ∧ Creates e.state x.2 ∧
      ((x.2.phase = .refused ∨ x.2.phase = .indeterminate) ∧ rest = [] ∨
        (x.2.phase = .evaluated ∧ x.2.authority.Binds e.state) ∧
          rest = [(.update, { x.2 with phase := .authorized })]) := by
  have hp := @planFailover_ok wire e.advance req (ready (h.leads advance_leads) hf)
  dsimp only [amendments] at ha
  split at ha
  · cases ha
  revert hp ha
  generalize e.advance.planFailover req = plan
  intro hp ha
  cases plan with
  | record d r =>
    obtain ⟨-, hc, hphase, -⟩ := hp
    cases ha
    exact ⟨rfl, hc, .inl ⟨hphase, rfl⟩⟩
  | grant d a =>
    obtain ⟨-, hc, hphase, hb⟩ := hp
    cases ha
    exact ⟨rfl, hc, .inr ⟨⟨hphase, hb⟩, rfl⟩⟩
  | _ => cases ha

/-- A new attempt meets none of its identity that is in flight. -/
theorem creates_terminal (h : EngineOk wire e) (hf : e.store.failed = false) {r q : AttemptRecord}
    (hc : Creates e.state r) (hq : q ∈ e.state.attempts) (hi : q.identity = r.identity) :
    q.isTerminal = true := by
  by_contra ht
  have ht' : q.isTerminal = false := by simpa using ht
  obtain ⟨hb, hne⟩ := (ok_trace h hf).liveOk q hq ht'
  have hholds : attemptPhaseHoldsAuthority q.phase = true := by
    by_contra hh
    exact hne (evaluated_of_not_terminal ht' (by simpa using hh))
  have hidle := DurableState.activeAuthority_none.mp hc.active q hq (congrArg Prod.fst hi)
    (congrArg (fun i : Identity => i.2.1) hi)
  rw [DurableState.isActive_iff.mpr ⟨hholds, hb.epoch, hb.coordinator⟩] at hidle
  cases hidle

/-! ## Follow-ups -/

/-- The phases that a follow-up moves the record it finds to. -/
theorem followUp_phase {op : Operation} {i : Identity} (hi : op.names = some i) {x : Amendment}
    (hx : x ∈ e.amendments op) : ∃ found, e.target op = some found ∧
      x.2.identity = found.identity ∧ (x.2.phase = .interrupted ∧ found.phase = .interrupted ∨
        lifecycle e.state.policy.requireVerifiedEffect found.phase x.2.phase = true) := by
  obtain ⟨found, ht, hid⟩ := amendments_identity hi hx
  refine ⟨found, ht, hid, ?_⟩
  cases op with
  | recordApplication report =>
    dsimp only [amendments] at hx
    rw [ht] at hx
    change x ∈ e.advance.applicationAmendments found report at hx
    unfold applicationAmendments at hx
    split at hx
    · cases hx
    rename_i hg
    simp only [not_or, not_not] at hg
    rw [List.mem_singleton.mp hx, hg.2.2.2]
    refine .inr ?_
    unfold applyAttempt
    dsimp only
    split
    · rfl
    · dsimp only [acceptedAttempt, movedTo]
      rw [advance_state]
      cases hv : e.state.policy.requireVerifiedEffect <;> rfl
  | recordVerification report =>
    dsimp only [amendments] at hx
    rw [ht] at hx
    change x ∈ verificationAmendments found report at hx
    unfold verificationAmendments at hx
    split at hx
    · cases hx
    rename_i hg
    simp only [not_or, not_not] at hg
    rw [hg.2]
    refine .inr ?_
    split at hx
    · rw [List.mem_singleton.mp hx]
      rfl
    · rcases List.mem_cons.mp hx with rfl | hx
      · rfl
      · rw [List.mem_singleton.mp hx]
        rfl
  | requestRollback req =>
    dsimp only [amendments] at hx
    rw [ht] at hx
    change x ∈ e.advance.rollbackAmendments found req at hx
    unfold rollbackAmendments at hx
    split at hx
    · cases hx
    rename_i hg
    simp only [not_or, Bool.not_eq_false] at hg
    rw [List.mem_singleton.mp hx]
    exact .inr (lifecycle_rolledBack hg.2)
  | resolveInterrupted req =>
    dsimp only [amendments] at hx
    rw [ht] at hx
    change x ∈ e.advance.revalidationAmendments found req at hx
    unfold revalidationAmendments at hx
    split at hx
    · cases hx
    rename_i hg
    simp only [not_or, not_not] at hg
    rw [List.mem_singleton.mp hx, hg.2]
    cases req.verdict with
    | notApplied | applied => exact .inr rfl
    | unknown | undeclared => exact .inl ⟨rfl, rfl⟩
  | _ => cases hi

/-- Whatever is not a request moves the records that it finds along the lifecycle. -/
theorem amendments_phase {op : Operation} (hr : ∀ req, op ≠ .requestFailover req) {x : Amendment}
    (hx : x ∈ e.amendments op) : ∃ found ∈ e.state.attempts, x.2.identity = found.identity ∧
      (x.2.phase = .interrupted ∧ found.phase = .interrupted ∨
        lifecycle e.state.policy.requireVerifiedEffect found.phase x.2.phase = true) := by
  have hfencing : ∀ cause, x ∈ fencingAmendments cause e.state.attempts →
      ∃ found ∈ e.state.attempts, x.2.identity = found.identity ∧
        (x.2.phase = .interrupted ∧ found.phase = .interrupted ∨
        lifecycle e.state.policy.requireVerifiedEffect found.phase x.2.phase = true) := by
    intro cause h
    obtain ⟨found, hm, rfl⟩ := List.mem_map.mp h
    obtain ⟨hm, hh⟩ := List.mem_filter.mp hm
    exact ⟨found, hm, rfl, .inr (lifecycle_aborted hh)⟩
  cases hn : op.names with
  | some i =>
    obtain ⟨found, ht, hid, hp⟩ := followUp_phase hn hx
    exact ⟨found, (target_names hn ht).1, hid, hp⟩
  | none =>
    cases op with
    | requestFailover req => exact absurd rfl (hr req)
    | setPolicy policy =>
      dsimp only [amendments] at hx
      split at hx
      · cases hx
      unfold definitionAmendments at hx
      split at hx
      · cases hx
      · exact hfencing _ hx
    | setTopology topology =>
      dsimp only [amendments] at hx
      split at hx
      · cases hx
      unfold definitionAmendments at hx
      split at hx
      · cases hx
      · exact hfencing _ hx
    | recordApplication | recordVerification | requestRollback | resolveInterrupted => cases hn
    | _ => cases hx

end Engine

/-! ## Requests that reissue a number -/

/-- A phase that a request writes is not one that a finished attempt moves to. -/
theorem not_lifecycle {b : Bool} {q x : AttemptRecord} (ht : q.isTerminal = true)
    (hx : x.phase = .evaluated ∨ x.phase = .authorized ∨
      (x.phase = .refused ∨ x.phase = .indeterminate) ∧ q.phase ≠ x.phase) :
    ¬ (x.phase = q.phase ∨ lifecycle b q.phase x.phase = true) := by
  have hlive : ∀ p, attemptPhaseIsTerminal p = false → p ≠ q.phase := by
    rintro p hp rfl
    rw [AttemptRecord.isTerminal, hp] at ht
    cases ht
  rintro (h | h)
  · rcases hx with hx | hx | ⟨-, hne⟩
    · exact hlive _ rfl (hx ▸ h)
    · exact hlive _ rfl (hx ▸ h)
    · exact hne h.symm
  · rcases hx with hx | hx | ⟨hx | hx, -⟩
    · rw [lifecycle_created (.inl hx)] at h
      cases h
    · rw [lifecycle_created (.inr (.inl hx))] at h
      cases h
    · rw [lifecycle_created (.inr (.inr hx))] at h
      cases h
    · rw [hx, lifecycle_indeterminate ht] at h
      cases h

/-- A record that is still open is not evicted by its own write. -/
theorem mem_noted_self {o : StoreOptions} {table : List AttemptRecord} {r : AttemptRecord}
    (h : r.isTerminal = false) : r ∈ noted o table r :=
  BoundedTable.mem_evict_of_not_done BoundedTable.mem_upsert_self h

theorem Engine.Reissues.breaks {e : Engine} {op : Operation} (h : EngineOk wire e)
    (hr : e.Reissues op) : ¬ e.FollowsLifecycle op := by
  obtain ⟨req, r, rest, rfl, ha, hacc, hret, q, hq, hid, hne⟩ := hr
  obtain ⟨-, hc, hcases⟩ := failover_amendments h (accepts_not_failed hacc) ha
  have ht := creates_terminal h (accepts_not_failed hacc) hc hq hid
  have hwrites : e.writes (.requestFailover req) = true := by
    rw [writes, ha]
    exact hacc
  have hdone := (amended_ne_nil h.store (requestFailover_amends (e := e) req)).mpr hwrites
  obtain ⟨hp, stamped, hs, htable⟩ := @amended_begins e (.requestFailover req) (by simp)
  rw [ha] at hp
  revert hp hs hdone
  generalize e.amended (.requestFailover req) = done
  intro hdone hp hs
  obtain ⟨y, done, rfl⟩ := List.exists_cons_of_ne_nil hdone
  obtain ⟨rfl, hrest⟩ := List.cons_prefix_cons.mp hp
  obtain ⟨r', rs, rfl⟩ : ∃ r' rs, stamped = r' :: rs := by
    cases stamped with
    | nil => cases hs
    | cons r' rs => exact ⟨r', rs, rfl⟩
  rw [List.map_cons, List.map_cons, List.cons.injEq] at hs
  obtain ⟨hr', hrs⟩ := hs
  -- the new record is in the table behind its own write
  obtain ⟨x, hx, hxr⟩ := mem_noted_of_unstamped hr' hret
  intro hfollows
  have hstays : done = [] → x ∈ (e.perform (.requestFailover req)).1.state.attempts := by
    rintro rfl
    obtain rfl : rs = [] := by simpa using hrs
    rw [htable]
    exact hx
  have hxid : x.identity = q.identity := (identity_of_unstamped hxr).trans hid.symm
  have hphase : x.phase = r.phase := phase_of_unstamped hxr
  rcases hcases with ⟨hrefused, rfl⟩ | ⟨⟨hevaluated, -⟩, rfl⟩
  · obtain rfl := List.prefix_nil.mp hrest
    refine not_lifecycle ht (.inr (.inr ⟨?_, ?_⟩)) (hfollows q hq x (hstays rfl) hxid)
    · rwa [hphase]
    · rwa [hphase]
  · cases done with
    | nil =>
      exact not_lifecycle ht (.inl (hphase.trans hevaluated)) (hfollows q hq x (hstays rfl) hxid)
    | cons z done =>
      -- the grant went through as well
      obtain ⟨rfl, htail⟩ := List.cons_prefix_cons.mp hrest
      obtain rfl := List.prefix_nil.mp htail
      obtain ⟨a, rfl⟩ : ∃ a, rs = [a] := by
        rw [List.map_singleton] at hrs
        exact List.map_eq_singleton_iff.mp hrs |>.imp fun _ h => h.1
      have hau : a.unstamped = ({ r with phase := .authorized } : AttemptRecord).unstamped := by
        simpa using hrs
      have hphase : a.phase = .authorized := phase_of_unstamped hau
      refine not_lifecycle ht (.inr (.inl hphase)) (hfollows q hq a ?_ ?_)
      · rw [htable]
        refine mem_noted_self ?_
        rw [AttemptRecord.isTerminal, hphase]
        rfl
      · exact (identity_of_unstamped hau).trans hid.symm

theorem Engine.followsLifecycle {e : Engine} {op : Operation} (h : EngineOk False e)
    (hn : ¬ e.Reissues op) : e.FollowsLifecycle op := by
  intro q hq x hx hid
  by_cases hop : op = .close
  · -- a close empties the table or finds the engine closed
    rw [hop] at hx
    exact .inl (congrArg AttemptRecord.phase (BoundedTable.eq_of_key_eq h.keyed
      (Engine.close_attempts hx) hq (key_of_identity hid)))
  rcases (amended_begins hop).2.mem hx with ⟨w, hw, hu⟩ | hx
  swap
  · exact .inl (congrArg AttemptRecord.phase
      (BoundedTable.eq_of_key_eq h.keyed hx hq (key_of_identity hid)))
  have hwm := (amended_begins hop).1.subset hw
  have hwid : w.2.identity = q.identity := (identity_of_unstamped hu).trans hid
  by_cases hr : ∃ req, op = .requestFailover req
  swap
  · obtain ⟨found, hm, hf, hp⟩ := amendments_phase (fun req he => hr ⟨req, he⟩) hwm
    obtain rfl : found = q :=
      BoundedTable.eq_of_key_eq h.keyed hm hq (key_of_identity (hf.symm.trans hwid))
    rw [phase_of_unstamped hu] at hp
    exact hp.imp (fun h => h.1.trans h.2.symm) id
  obtain ⟨req, rfl⟩ := hr
  have hwrites := (amended_ne_nil h.store (requestFailover_amends (e := e) req)).mp
    (List.ne_nil_of_mem hw)
  obtain ⟨hp, stamped, hs, htable⟩ := @amended_begins e (.requestFailover req) (by simp)
  rw [writes] at hwrites
  revert hw hwm hwrites hp hs
  generalize e.amended (.requestFailover req) = done
  cases ha : e.amendments (.requestFailover req) with
  | nil =>
    intro _ hm
    cases hm
  | cons y rest =>
    intro hw hwm hacc hp hs
    have hf := accepts_not_failed hacc
    obtain ⟨hy, hc, hcases⟩ := failover_amendments h hf ha
    obtain ⟨w₀, r⟩ := y
    obtain rfl : w₀ = .create := hy
    have hsame : w.2.identity = r.identity := by
      rcases List.mem_cons.mp hwm with rfl | hm
      · rfl
      · rcases hcases with ⟨-, rfl⟩ | ⟨-, rfl⟩
        · cases hm
        · rw [List.mem_singleton.mp hm]
          rfl
    have ht := creates_terminal h hf hc hq (hwid.symm.trans hsame)
    by_contra hbad
    have hdropped : q.phase ≠ r.phase → r ∉ noted e.store.options e.state.attempts r :=
      fun hne hret => hn ⟨req, r, rest, rfl, ha, hacc, hret, q, hq, hwid.symm.trans hsame, hne⟩
    rcases hcases with ⟨-, rfl⟩ | ⟨⟨hevaluated, -⟩, rfl⟩
    · obtain rfl := List.mem_singleton.mp hwm
      have hne : q.phase ≠ r.phase := fun he =>
        hbad (.inl ((phase_of_unstamped hu).symm.trans he.symm))
      -- the record of the attempt is the new one, and it was evicted
      obtain ⟨done', rfl⟩ : ∃ done', done = (.create, r) :: done' := by
        obtain ⟨z, done', rfl⟩ := List.exists_cons_of_ne_nil (List.ne_nil_of_mem hw)
        obtain ⟨rfl, -⟩ := List.cons_prefix_cons.mp hp
        exact ⟨done', rfl⟩
      obtain rfl := List.prefix_nil.mp (List.cons_prefix_cons.mp hp).2
      obtain ⟨r', rfl, hr'⟩ := List.map_eq_singleton_iff.mp hs
      rw [htable] at hx
      obtain ⟨x', hx', hux⟩ := @mem_noted_of_unstamped _ _ _ r hr'.symm _ hx
      have hk : x'.key = r.key :=
        key_of_identity ((identity_of_unstamped hux).trans (hid.trans (hwid.symm.trans hsame)))
      rcases (BoundedTable.mem_upsert_iff h.keyed).mp (BoundedTable.mem_of_mem_evict hx') with
        rfl | ⟨-, hne'⟩
      · exact hdropped hne hx'
      · exact hne' hk
    · refine hdropped ?_ (mem_noted_self ?_)
      · intro he
        rw [AttemptRecord.isTerminal, he, hevaluated] at ht
        cases ht
      · rw [AttemptRecord.isTerminal, hevaluated]
        rfl

/-! ## Restarts -/

/-- An attempt before and after a boot is in its phase, or was in flight and is interrupted. -/
theorem Restarts.phases {d : DurableState} {e : Engine} (h : Restarts d e)
    (hn : (d.attempts.map AttemptRecord.key).Nodup) {q x : AttemptRecord} (hq : q ∈ d.attempts)
    (hx : x ∈ e.state.attempts) (hid : x.identity = q.identity) :
    x.phase = q.phase ∨ q.isTerminal = false ∧ x.phase = .interrupted := by
  obtain ⟨r, hr, hrx⟩ := forall₂_right h.attempts hx
  have hrq : r.identity = q.identity := by
    rw [← hid]
    unfold Restarted at hrx
    split at hrx
    · rw [hrx]
    · obtain ⟨seq, rfl⟩ := hrx
      rfl
  obtain rfl := BoundedTable.eq_of_key_eq hn hr hq (key_of_identity hrq)
  unfold Restarted at hrx
  split at hrx
  · exact .inl (congrArg AttemptRecord.phase hrx)
  · rename_i ht
    obtain ⟨seq, rfl⟩ := hrx
    exact .inr ⟨by simpa using ht, rfl⟩

/-- An operation keeps to the lifecycle exactly if it does not reissue the number of a retained
attempt, and a restart interrupts what is in flight and moves nothing else. -/
theorem lifecycle_iff (actions : List Action) :
    (∀ e, System.run actions = .up e → ∀ op, e.FollowsLifecycle op ↔ ¬ e.Reissues op) ∧
    ∀ m, System.run actions = .down m → ∀ (b : Boot) (e : Engine), (b.open m).2 = .ok e →
      ∃ s, (LineageStore.openStore b.options.store (b.medium m)).2 = .ok s ∧
        ∀ q ∈ s.state.attempts, ∀ x ∈ e.state.attempts, x.identity = q.identity →
          x.phase = q.phase ∨ q.isTerminal = false ∧ x.phase = .interrupted := by
  constructor
  · intro e h op
    have hok := Reachable.ok ⟨actions, h⟩
    exact ⟨fun hf hr => hr.breaks hok hf, Engine.followsLifecycle hok⟩
  intro m h b e he
  have hok := @System.run_ok False actions False.elim
  rw [h] at hok
  have hm : MediumOk False (b.medium m) := ⟨hok.trace, hok.represents⟩
  obtain ⟨s, hs, hn, -, hr⟩ := openEngine_restart hm he
  exact ⟨s, hs, fun q hq x hx hid => hr.phases hn hq hx hid⟩

/-- With two attempts retained, the fourth attempt of a generation gets the number of the third,
which was indeterminate, and is granted. -/
theorem requestFailover_resurrects : ∃ e, Reachable e ∧
    ¬ e.FollowsLifecycle (.requestFailover (Sample.request ⟨1⟩)) := by
  let request : Action := .perform (.requestFailover (Sample.request ⟨1⟩))
  obtain ⟨e, he, hp⟩ := @System.of_serves
    (System.run
      [.start { options := Sample.options {} { maxAttempts := 2 },
                incarnation := Sample.incarnation 1 },
        request, request, request, .perform (Sample.down ⟨1⟩ ⟨1⟩ 1), .perform (Sample.usable ⟨1⟩ 1)])
    (fun e => e.state.attempts.any fun q =>
      (e.perform (.requestFailover (Sample.request ⟨1⟩))).1.state.attempts.any fun x =>
        decide (x.identity = q.identity) && (decide (x.phase ≠ q.phase) &&
          !lifecycle e.state.policy.requireVerifiedEffect q.phase x.phase)) (by decide +kernel)
  obtain ⟨q, hq, hp⟩ := List.any_eq_true.mp hp
  obtain ⟨x, hx, hp⟩ := List.any_eq_true.mp hp
  simp only [Bool.and_eq_true, decide_eq_true_eq, Bool.not_eq_true'] at hp
  obtain ⟨hid, hne, hl⟩ := hp
  refine ⟨e, ⟨_, he⟩, fun hf => ?_⟩
  rcases hf q hq x hx hid with h | h
  · exact hne h
  · rw [hl] at h
    cases h

namespace Sample

/-- A process whose first request came before its evidence. -/
def informed : List Action :=
  [.start { options := options {} {}, incarnation := incarnation 1 },
    .perform (.requestFailover (request ⟨1⟩)), .perform (down ⟨1⟩ ⟨1⟩ 1), .perform (usable ⟨1⟩ 1)]

/-- Whether what an operation writes anew is under an identity that is not retained. -/
def isNew (e : Engine) (op : Operation) : Bool :=
  match e.amendments op with
  | (.create, r) :: _ => e.state.attempts.all fun q => decide (q.identity ≠ r.identity)
  | _ => true

theorem not_reissues {e : Engine} {op : Operation} (h : isNew e op = true) : ¬ e.Reissues op := by
  rintro ⟨req, r, rest, -, hamends, -, -, q, hq, hid, -⟩
  rw [isNew, hamends] at h
  exact of_decide_eq_true (List.all_eq_true.mp h q hq) hid

/-- Whether this attempt was granted, is acknowledged when its applier accepts, and is interrupted
by a restart. -/
def livesOn (e : Engine) (r : AttemptRecord) : Bool :=
  decide (r.phase = .authorized) && isNew e (.recordApplication (applied r true)) &&
    (e.perform (.recordApplication (applied r true))).1.state.attempts.any (fun x =>
      decide (x.identity = r.identity ∧ x.phase = .acknowledged)) &&
    (e.reboot again).any fun next => next.state.attempts.any fun x =>
      decide (x.identity = r.identity ∧ x.phase = .interrupted)

end Sample

/-- Next to a finished attempt a request is granted a new one. An attempt that was granted is acknowledged
by its applier, or interrupted by a restart in front of that. Each of the steps keeps to the
lifecycle. -/
theorem lifecycle_iff_sample : ∃ (e e' next : Engine) (r : AttemptRecord) (s : LineageStore),
    System.run Sample.informed = .up e ∧ (e.state.attempts.any AttemptRecord.isTerminal) = true ∧
    e.grants (Sample.request ⟨1⟩) = true ∧
    e.FollowsLifecycle (.requestFailover (Sample.request ⟨1⟩)) ∧
    System.run Sample.grantedOnce = .up e' ∧ r ∈ e'.state.attempts ∧ r.phase = .authorized ∧
    e'.FollowsLifecycle (.recordApplication (Sample.applied r true)) ∧
    (∃ x ∈ (e'.perform (.recordApplication (Sample.applied r true))).1.state.attempts,
      x.identity = r.identity ∧ x.phase = .acknowledged) ∧
    (∃ x ∈ next.state.attempts, x.identity = r.identity ∧ x.phase = .interrupted) ∧
    ∀ q ∈ s.state.attempts, ∀ x ∈ next.state.attempts, x.identity = q.identity →
      x.phase = q.phase ∨ q.isTerminal = false ∧ x.phase = .interrupted := by
  obtain ⟨e, he, hp⟩ := @System.of_serves (System.run Sample.informed) (fun e : Engine =>
    e.state.attempts.any AttemptRecord.isTerminal &&
      (e.grants (Sample.request ⟨1⟩) &&
        Sample.isNew e (.requestFailover (Sample.request ⟨1⟩)))) (by decide +kernel)
  rw [Bool.and_eq_true, Bool.and_eq_true] at hp
  obtain ⟨hterminal, hgrants, hnew⟩ := hp
  have hfollows := ((lifecycle_iff _).1 e he _).mpr (Sample.not_reissues hnew)
  obtain ⟨e', he', hp⟩ := @System.of_serves (System.run Sample.grantedOnce)
    (fun e : Engine => e.state.attempts.any (Sample.livesOn e)) (by decide +kernel)
  obtain ⟨r, hr, hlives⟩ := List.any_eq_true.mp hp
  simp only [Sample.livesOn, Bool.and_eq_true, decide_eq_true_eq] at hlives
  obtain ⟨⟨⟨hphase, hnew'⟩, hmoved⟩, hreboot⟩ := hlives
  have hfollows' := ((lifecycle_iff _).1 e' he' _).mpr (Sample.not_reissues hnew')
  obtain ⟨x, hx, hmoved⟩ := List.any_eq_true.mp hmoved
  obtain ⟨next, hnext, hreboot⟩ := (Option.any_eq_true _ _).mp hreboot
  obtain ⟨y, hy, hinterrupted⟩ := List.any_eq_true.mp hreboot
  have hkilled := System.run_append _ _ |>.trans (congrArg (System.step · .kill) he')
  have hopen := Engine.open_reboot (Reachable.ok ⟨_, he'⟩) hnext
  obtain ⟨s, -, hrestart⟩ := (lifecycle_iff _).2 _ hkilled Sample.again next (by rw [hopen])
  exact ⟨e, e', next, r, s, he, hterminal, hgrants, hfollows, he', hr, hphase, hfollows',
    ⟨x, hx, of_decide_eq_true hmoved⟩, ⟨y, hy, of_decide_eq_true hinterrupted⟩, hrestart⟩

end LinkFailover
