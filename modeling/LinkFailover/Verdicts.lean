import LinkFailover.Lifecycles
import LinkFailover.Commits
import LinkFailover.Reboots
import LinkFailover.Atomicity
import LinkFailover.FailStop

/-!
# Verdicts on interrupted attempts

An attempt that a restart interrupted waits for a verdict. The check that keeps a conclusive
verdict final looks at whether any verdict was recorded. So an attempt whose effect was found
unknown is answered like a settled one from then on, and no later verdict reaches it.

* `Engine.takesEffect_iff`: when a conclusive verdict takes effect.
* `System.concluded`: a recorded conclusive verdict stays in the lineage.
* `revalidation_open_iff`: both of them, over all runs.
-/

namespace LinkFailover

open Codec

/-! ## Verdicts that are asked for -/

/-- A conclusive verdict on an interrupted attempt about which nothing but inconclusive verdicts
were recorded: `Unknown`, or a value that the enumeration does not name. -/
structure Engine.Concludes (e : Engine) (r : AttemptRecord) (req : RevalidationRequest) :
    Prop where
  retained : r ∈ e.state.attempts
  phase : r.phase = .interrupted
  unknown : r.revalidated = true → ¬ r.revalidation.Conclusive
  subject : req.subject = r.subject
  seq : req.attemptSeq = r.attemptSeq
  epoch : req.observerEpoch = e.epoch
  verdict : req.verdict.Conclusive

/-- The phase that a conclusive verdict moves an attempt to; one that is applied is bound to the
coordinator and the definitions in force. -/
def Engine.Settles (e : Engine) (verdict : RevalidationVerdict) (x : AttemptRecord) : Prop :=
  x.revalidated = true ∧ x.revalidation = verdict ∧
    match verdict with
    | .notApplied => x.phase = .aborted
    | .applied => x.phase = .committed ∧ x.authority.Binds e.state
    | .unknown | .undeclared _ => False

/-- The table is written with a settled record of the attempt. -/
def Engine.TakesEffect (e : Engine) (r : AttemptRecord) (req : RevalidationRequest) : Prop :=
  ∃ x, x.identity = r.identity ∧ e.Settles req.verdict x ∧
    (e.perform (.resolveInterrupted req)).1.state.attempts =
      noted e.store.options e.state.attempts x

/-- The engine is open, the request names who observed, no verdict was recorded for the attempt,
and the journal accepts the record. -/
structure Engine.Listens (e : Engine) (r : AttemptRecord) (req : RevalidationRequest) :
    Prop where
  opened : e.closed = false
  observer : req.observerIncarnation.isZero = false
  unsettled : r.revalidated = false
  accepts : e.store.accepts
    (.attempt (completionOrUpdate (e.advance.revalidatedAttempt r req.verdict).phase)
      (e.advance.revalidatedAttempt r req.verdict)) = true

namespace Engine

variable {e : Engine} {r : AttemptRecord} {req : RevalidationRequest}

theorem revalidatedAttempt_settles (h : EngineOk False e) (hr : r ∈ e.state.attempts)
    {verdict : RevalidationVerdict} (hv : verdict.Conclusive) :
    e.Settles verdict (e.advance.revalidatedAttempt r verdict) := by
  have hopen := ok_open_of_attempt h hr
  cases verdict with
  | notApplied => exact ⟨rfl, rfl, rfl⟩
  | applied =>
    exact ⟨rfl, rfl, rfl, h.epoch hopen, h.coordinator hopen, rfl, rfl, rfl, rfl⟩
  | unknown | undeclared => exact hv.elim

/-- The stamps of a record do not matter to its verdict. -/
theorem Settles.of_unstamped {verdict : RevalidationVerdict} {x y : AttemptRecord}
    (h : e.Settles verdict x) (hu : y.unstamped = x.unstamped) : e.Settles verdict y := by
  have hrevalidated : y.unstamped.revalidated = x.unstamped.revalidated := by rw [hu]
  have hrevalidation : y.unstamped.revalidation = x.unstamped.revalidation := by rw [hu]
  have hphase := phase_of_unstamped hu
  have hauthority := authority_of_unstamped hu
  obtain ⟨h1, h2, h3⟩ := h
  refine ⟨hrevalidated.trans h1, hrevalidation.trans h2, ?_⟩
  cases verdict with
  | notApplied => exact hphase.trans h3
  | applied => exact ⟨hphase.trans h3.1, hauthority ▸ h3.2⟩
  | unknown | undeclared => exact h3

/-- What a request is going to write about the attempt that it names. -/
theorem resolve_amendments (hk : e.store.Keyed) (hr : r ∈ e.state.attempts)
    (hs : req.subject = r.subject) (hq : req.attemptSeq = r.attemptSeq) :
    e.amendments (.resolveInterrupted req) =
      if e.closed || req.observerIncarnation.isZero || decide (req.observerEpoch ≠ e.epoch)
      then [] else e.advance.revalidationAmendments r req := by
  have hfound : e.state.findAttempt r.subject r.attemptSeq = some r := findAttempt_of_mem hk hr
  dsimp only [amendments, target]
  rw [hs, hq, hfound]
  split <;> rfl

/-- An operation that commits no amendment leaves the table alone. -/
theorem attempts_of_amended_nil (op : Operation) (hop : op ≠ .close) (h : e.amended op = []) :
    (e.perform op).1.state.attempts = e.state.attempts := by
  obtain ⟨-, stamped, hs, htable⟩ := @amended_begins e op hop
  rw [h, List.map_nil, List.map_eq_nil_iff] at hs
  rw [htable, hs, List.foldl_nil]

theorem attempts_of_not_writes (h : e.store.StoreOk)
    (hw : e.writes (.resolveInterrupted req) = false) :
    (e.perform (.resolveInterrupted req)).1.state.attempts = e.state.attempts := by
  refine attempts_of_amended_nil _ (by simp) ?_
  by_contra hne
  rw [(amended_ne_nil h (resolveInterrupted_amends (e := e) req)).mp hne] at hw
  cases hw

/-- A verdict that is recorded is not looked at again. -/
theorem writes_of_revalidated (hk : e.store.Keyed) (hr : r ∈ e.state.attempts)
    (hs : req.subject = r.subject) (hq : req.attemptSeq = r.attemptSeq)
    (hv : r.revalidated = true) : e.writes (.resolveInterrupted req) = false := by
  have hnone : e.advance.revalidationAmendments r req = [] := if_pos (.inl hv)
  have ha : e.amendments (.resolveInterrupted req) = [] := by
    rw [resolve_amendments hk hr hs hq, hnone, ite_self]
  rw [writes, ha]

theorem writes_iff_listens (hk : e.store.Keyed) (hc : e.Concludes r req) :
    e.writes (.resolveInterrupted req) = true ↔ e.Listens r req := by
  have ha := resolve_amendments hk hc.retained hc.subject hc.seq
  rw [hc.epoch, decide_eq_false (not_not.mpr rfl), Bool.or_false] at ha
  by_cases hgate : (e.closed || req.observerIncarnation.isZero) = true
  · rw [if_pos hgate] at ha
    rw [writes, ha]
    refine iff_of_false Bool.false_ne_true fun hl => ?_
    rw [hl.opened, hl.observer] at hgate
    cases hgate
  rw [if_neg hgate, revalidationAmendments] at ha
  rw [Bool.or_eq_true, not_or, Bool.not_eq_true, Bool.not_eq_true] at hgate
  by_cases hv : r.revalidated = true
  · rw [if_pos (.inl hv)] at ha
    rw [writes, ha]
    refine iff_of_false Bool.false_ne_true fun hl => ?_
    rw [hl.unsettled] at hv
    cases hv
  · rw [if_neg (not_or.mpr ⟨hv, not_not.mpr hc.phase⟩)] at ha
    rw [writes, ha]
    exact ⟨fun hacc => ⟨hgate.1, hgate.2, Bool.not_eq_true _ ▸ hv, hacc⟩, Listens.accepts⟩

/-- A conclusive verdict takes effect exactly if none was recorded before and its record can be
written. -/
theorem takesEffect_iff (h : EngineOk False e) (hc : e.Concludes r req) :
    e.TakesEffect r req ↔ e.Listens r req := by
  rw [← writes_iff_listens h.keyed hc]
  constructor
  · rintro ⟨x, hid, ⟨-, -, hsettled⟩, htable⟩
    by_contra hw
    have hsame := @attempts_of_not_writes e req h.store (by simpa using hw)
    have hr : r ∈ noted e.store.options e.state.attempts x := by
      rw [← htable, hsame]
      exact hc.retained
    rcases (BoundedTable.mem_upsert_iff h.keyed).mp (BoundedTable.mem_of_mem_evict hr) with
      rfl | ⟨-, hne⟩
    · revert hsettled
      rw [hc.phase]
      cases req.verdict with
      | notApplied => exact fun h => AttemptPhase.noConfusion h
      | applied => exact fun h => AttemptPhase.noConfusion h.1
      | unknown | undeclared => exact id
    · exact hne (key_of_identity hid).symm
  · intro hw
    have hdone := (amended_ne_nil h.store (resolveInterrupted_amends (e := e) req)).mpr hw
    have hl := (writes_iff_listens h.keyed hc).mp hw
    obtain ⟨hp, stamped, hs, htable⟩ := @amended_begins e (.resolveInterrupted req) (by simp)
    have hamend : e.amendments (.resolveInterrupted req) =
        [(completionOrUpdate (e.advance.revalidatedAttempt r req.verdict).phase,
          e.advance.revalidatedAttempt r req.verdict)] := by
      rw [resolve_amendments h.keyed hc.retained hc.subject hc.seq,
        if_neg (by simp [hl.opened, hl.observer, hc.epoch]), revalidationAmendments,
        if_neg (by simp [hl.unsettled, hc.phase])]
    rw [hamend] at hp
    rcases List.prefix_cons_iff.mp hp with hnil | ⟨rest, heq, hrest⟩
    · exact absurd hnil hdone
    rw [heq, List.prefix_nil.mp hrest, List.map_singleton, List.map_eq_singleton_iff] at hs
    obtain ⟨x, rfl, hu⟩ := hs
    exact ⟨x, (identity_of_unstamped hu).trans (revalidatedAttempt_identity r req.verdict),
      (revalidatedAttempt_settles h hc.retained hc.verdict).of_unstamped hu, htable⟩

end Engine

/-! ## Verdicts that are recorded -/

/-- A conclusive verdict was recorded for the attempt. -/
def AttemptRecord.Concluded (r : AttemptRecord) : Prop :=
  r.revalidated = true ∧ r.revalidation.Conclusive

theorem AttemptRecord.Concluded.of_unstamped {r q : AttemptRecord} (h : r.Concluded)
    (hu : q.unstamped = r.unstamped) : q.Concluded := by
  have hrevalidated : q.unstamped.revalidated = r.unstamped.revalidated := by rw [hu]
  have hrevalidation : q.unstamped.revalidation = r.unstamped.revalidation := by rw [hu]
  refine ⟨hrevalidated.trans h.1, ?_⟩
  rw [show q.revalidation = r.revalidation from hrevalidation]
  exact h.2

/-- The last record of an attempt in a lineage carries a conclusive verdict. -/
def Concluded (entries : List Entry) (i : Identity) : Prop :=
  ∃ r, lastWrite entries i = some r ∧ r.Concluded

theorem Concluded.of_known {entries : List Entry} {q : AttemptRecord}
    (h : Concluded entries q.identity) (hk : Known entries q) : q.Concluded := by
  obtain ⟨r, hr, hc⟩ := h
  obtain ⟨r', hr', hu⟩ := hk
  obtain rfl : r = r' := Option.some_inj.mp (hr.symm.trans hr')
  exact hc.of_unstamped hu.symm

/-- By induction on the new records: each one is of another attempt, or it carries a verdict as
well. -/
theorem Concluded.append {entries new : List Entry} {i : Identity} (h : Concluded entries i)
    (hnew : ∀ x ∈ new, ∀ w r, x.2 = .attempt w r → r.identity = i → r.Concluded) :
    Concluded (entries ++ new) i := by
  induction new using List.reverseRecOn with
  | nil => rwa [List.append_nil]
  | append_singleton new x ih =>
    obtain ⟨r, hr, hc⟩ := ih fun y hy => hnew y (List.mem_append_left _ hy)
    rw [← List.append_assoc]
    obtain ⟨seq, p⟩ := x
    rw [Concluded, lastWrite_append]
    have hx := hnew (seq, p) (List.mem_append_right _ List.mem_cons_self)
    cases p with
    | attempt w r' =>
      dsimp only
      split
      · rename_i hid
        exact ⟨r', rfl, hx w r' rfl hid⟩
      · exact ⟨r, hr, hc⟩
    | _ => exact ⟨r, hr, hc⟩

namespace Engine

variable {e : Engine} {r : AttemptRecord} {req : RevalidationRequest}

/-- Whatever an operation other than a request writes of an attempt keeps the verdict that was
recorded for it. -/
theorem amendments_concluded {op : Operation} (hr : ∀ req, op ≠ .requestFailover req)
    {x : Amendment} (hx : x ∈ e.amendments op) : ∃ found ∈ e.state.attempts,
      x.2.identity = found.identity ∧ (found.Concluded → x.2.Concluded) := by
  have hfencing : ∀ cause, x ∈ fencingAmendments cause e.state.attempts →
      ∃ found ∈ e.state.attempts, x.2.identity = found.identity ∧
        (found.Concluded → x.2.Concluded) := by
    intro cause h
    obtain ⟨found, hm, rfl⟩ := List.mem_map.mp h
    exact ⟨found, (List.mem_filter.mp hm).1, rfl, id⟩
  cases hn : op.names with
  | some i =>
    obtain ⟨found, ht, hid⟩ := amendments_identity hn hx
    refine ⟨found, (target_names hn ht).1, hid, ?_⟩
    cases op with
    | recordApplication report =>
      dsimp only [amendments] at hx
      rw [ht] at hx
      change x ∈ e.advance.applicationAmendments found report at hx
      unfold applicationAmendments at hx
      split at hx
      · cases hx
      rw [List.mem_singleton.mp hx]
      unfold applyAttempt
      dsimp only
      split
      · exact id
      · exact id
    | recordVerification report =>
      dsimp only [amendments] at hx
      rw [ht] at hx
      change x ∈ verificationAmendments found report at hx
      unfold verificationAmendments at hx
      split at hx
      · cases hx
      split at hx
      · rw [List.mem_singleton.mp hx]
        exact id
      · rcases List.mem_cons.mp hx with rfl | hx
        · exact id
        · rw [List.mem_singleton.mp hx]
          exact id
    | requestRollback req =>
      dsimp only [amendments] at hx
      rw [ht] at hx
      change x ∈ e.advance.rollbackAmendments found req at hx
      unfold rollbackAmendments at hx
      split at hx
      · cases hx
      rw [List.mem_singleton.mp hx]
      exact id
    | resolveInterrupted req =>
      dsimp only [amendments] at hx
      rw [ht] at hx
      change x ∈ e.advance.revalidationAmendments found req at hx
      unfold revalidationAmendments at hx
      split at hx
      · cases hx
      rename_i hg
      exact fun hc => absurd (.inl hc.1) hg
    | _ => cases hn
  | none =>
    cases op with
    | requestFailover req => exact absurd rfl (hr req)
    | setPolicy policy =>
      dsimp only [amendments] at hx
      split at hx
      · cases hx
      unfold definitionAmendments at hx
      split at hx
      · cases hx
      · exact hfencing _ hx
    | setTopology topology =>
      dsimp only [amendments] at hx
      split at hx
      · cases hx
      unfold definitionAmendments at hx
      split at hx
      · cases hx
      · exact hfencing _ hx
    | recordApplication | recordVerification | requestRollback | resolveInterrupted => cases hn
    | _ => cases hx

/-- An operation comes to write a new attempt under an identity. -/
def Recreates (e : Engine) (op : Operation) (i : Identity) : Prop :=
  ∃ r, (.create, r) ∈ e.amendments op ∧ r.identity = i

/-- All that a request writes is of the attempt that it creates. -/
theorem recreates_of_request (h : EngineOk False e) (hf : e.store.failed = false)
    {req : FailoverRequest} {x : Amendment} (hx : x ∈ e.amendments (.requestFailover req)) :
    e.Recreates (.requestFailover req) x.2.identity := by
  obtain ⟨y, rest, ha⟩ := List.exists_cons_of_ne_nil (List.ne_nil_of_mem hx)
  obtain ⟨hcreate, -, hcases⟩ := failover_amendments h hf ha
  have hid : x.2.identity = y.2.identity := by
    rw [ha] at hx
    rcases List.mem_cons.mp hx with rfl | hx
    · rfl
    · rcases hcases with ⟨-, rfl⟩ | ⟨-, rfl⟩
      · cases hx
      · rw [List.mem_singleton.mp hx]
        rfl
  refine ⟨y.2, ?_, hid.symm⟩
  rw [ha, ← hcreate]
  exact List.mem_cons_self

theorem perform_concluded {op : Operation} {i : Identity} (h : EngineOk False e)
    (hc : Concluded (lineage e.store.medium.history) i) (hn : ¬ e.Recreates op i) :
    Concluded (lineage (e.perform op).1.store.medium.history) i := by
  cases hf : e.store.failed with
  | true => rwa [perform_of_failed_medium h hf op]
  | false =>
    obtain ⟨new, hl, hp⟩ := e.perform_lineage op
    rw [hl]
    refine hc.append fun x hx w r hxr hid => ?_
    rcases hp x hx with ⟨c, hxc⟩ | ⟨apply, hm⟩
    · rw [hxc] at hxr
      cases hxr
    have hamend : (w, r) ∈ e.amendments op := by
      rw [hxr] at hm
      cases hm with
      | attempt hm => exact hm
    by_cases hr : ∃ req, op = .requestFailover req
    · obtain ⟨req, rfl⟩ := hr
      exact absurd (hid ▸ recreates_of_request h hf hamend) hn
    · obtain ⟨found, hfound, hsame, hkeeps⟩ :=
        amendments_concluded (fun req heq => hr ⟨req, heq⟩) hamend
      rw [← hid, hsame] at hc
      exact hkeeps (hc.of_known ((ok_state h hf).known found hfound))

/-- A verdict in the lineage keeps a revalidation from changing the table. -/
theorem resolve_of_concluded (h : EngineOk False e)
    (hc : Concluded (lineage e.store.medium.history) r.identity) (hr : r ∈ e.state.attempts)
    (hs : req.subject = r.subject) (hq : req.attemptSeq = r.attemptSeq) :
    (e.perform (.resolveInterrupted req)).1.state.attempts = e.state.attempts := by
  cases hf : e.store.failed with
  | true =>
    have hstore := (perform_of_failed h hf (.resolveInterrupted req)).1.resolve_right (by simp)
    rw [state, hstore]
    rfl
  | false =>
    have hcr := hc.of_known ((ok_state h hf).known r hr)
    exact attempts_of_not_writes h.store (writes_of_revalidated h.keyed hr hs hq hcr.1)

end Engine

namespace System

theorem step_concluded {s : System} (h : s.Ok False) (a : Action) {i : Identity}
    (hc : Concluded (lineage s.history) i)
    (hn : ∀ e op, s = .up e → a = .perform op → ¬ e.Recreates op i) :
    Concluded (lineage (s.step a).history) i := by
  cases s with
  | down m =>
    cases a with
    | start b =>
      have hm : MediumOk False (b.medium m) := ⟨h.trace, h.represents⟩
      obtain ⟨entries, rs, hl, hknown, hp⟩ :=
        @openEngine_commits False b.options b.incarnation b.build _ hm
      have ho := (@openEngine_outcome False b.options b.incarnation b.build _ hm).2
      have hboot : Concluded (lineage m.history ++ entries) i := by
        refine hc.append fun x hx w r hxr hid => ?_
        rcases hp x hx with ⟨c, hxc⟩ | hboots
        · rw [hxc] at hxr
          cases hxr
        rw [hxr] at hboots
        cases hboots with
        | @interrupt q hq =>
          have hqi : q.identity = i := hid
          rw [← hqi] at hc
          exact hc.of_known (hknown q hq)
      rw [step, Boot.open]
      revert hl ho
      generalize Engine.openEngine b.options b.incarnation b.build (b.medium m) = result
      obtain ⟨m', r⟩ := result
      intro hl ho
      have hconcluded : Concluded (lineage m'.history) i := by
        rw [hl]
        exact hboot
      cases r with
      | error _ => exact hconcluded
      | ok e =>
        obtain ⟨-, -, hmedium⟩ := ho e rfl
        change Concluded (lineage e.store.medium.history) i
        rwa [hmedium]
    | perform | kill => exact hc
  | up e =>
    cases a with
    | perform op => exact Engine.perform_concluded h hc (hn e op rfl rfl)
    | start | kill => exact hc

/-- By induction on what follows: the verdict stays the last word on the attempt until a request
comes to write a new one in its place. -/
theorem concluded {actions later : List Action} {i : Identity}
    (hc : Concluded (lineage (run actions).history) i)
    (hn : ∀ front op back e, later = front ++ .perform op :: back →
      run (actions ++ front) = .up e → ¬ e.Recreates op i) :
    Concluded (lineage (run (actions ++ later)).history) i := by
  induction later using List.reverseRecOn with
  | nil => rwa [List.append_nil]
  | append_singleton later a ih =>
    rw [← List.append_assoc, run_append]
    refine step_concluded (run_ok False.elim) a (ih fun front op back e hsplit => ?_) ?_
    · refine hn front op (back ++ [a]) e ?_
      rw [hsplit, List.append_assoc, List.cons_append]
    · rintro e op hup rfl
      exact hn later op [] e rfl hup

end System

/-- In every reachable state a conclusive verdict on an attempt without one takes effect exactly if
no verdict at all was recorded; and once a conclusive one is recorded, no revalidation changes
the attempt. -/
theorem revalidation_open_iff (actions : List Action) :
    (∀ e, System.run actions = .up e → ∀ r req, e.Concludes r req →
      (e.TakesEffect r req ↔ e.Listens r req)) ∧
    ∀ i, Concluded (lineage (System.run actions).history) i → ∀ later e,
      System.run (actions ++ later) = .up e →
      (∀ front op back e', later = front ++ .perform op :: back →
        System.run (actions ++ front) = .up e' → ¬ e'.Recreates op i) →
      ∀ r ∈ e.state.attempts, r.identity = i → ∀ req : RevalidationRequest,
        req.subject = r.subject → req.attemptSeq = r.attemptSeq →
        (e.perform (.resolveInterrupted req)).1.state.attempts = e.state.attempts := by
  constructor
  · intro e he r req hc
    exact Engine.takesEffect_iff (Reachable.ok ⟨actions, he⟩) hc
  · rintro i hc later e he hn r hr rfl req hs hq
    have hlater := System.concluded hc hn
    rw [he] at hlater
    exact Engine.resolve_of_concluded (Reachable.ok ⟨_, he⟩) hlater hr hs hq

/-! ## An unknown verdict -/

namespace Sample

/-- A failover of the primary link was granted, and the process was killed and started again. -/
def interrupted : List Action := grantedOnce ++ [.kill, .start again]

def verdict (v : RevalidationVerdict) : RevalidationRequest where
  subject := primary
  subjectGeneration := ⟨1⟩
  attemptSeq := ⟨1⟩
  verdict := v
  observerIncarnation := incarnation 3
  observerEpoch := ⟨2⟩

/-- A retained attempt that the verdict is about. -/
def awaits (e : Engine) (v : RevalidationVerdict) (r : AttemptRecord) : Bool :=
  decide (r.phase = .interrupted) && (!r.revalidated || decide (r.revalidation = .unknown)) &&
    decide (r.subject = primary) && decide (r.attemptSeq = ⟨1⟩) && decide (e.epoch = ⟨2⟩) &&
    decide v.Conclusive

theorem concludes_of_awaits {e : Engine} {v : RevalidationVerdict} {r : AttemptRecord}
    (hr : r ∈ e.state.attempts) (h : awaits e v r = true) : e.Concludes r (verdict v) := by
  simp only [awaits, Bool.and_eq_true, Bool.or_eq_true, Bool.not_eq_true', decide_eq_true_eq] at h
  obtain ⟨⟨⟨⟨⟨hphase, hunknown⟩, hsubject⟩, hseq⟩, hepoch⟩, hverdict⟩ := h
  refine ⟨hr, hphase, fun hv => ?_, hsubject.symm, hseq.symm, hepoch.symm, hverdict⟩
  rcases hunknown with h | h
  · rw [h] at hv
    cases hv
  · rw [h]
    exact id

/-- The attempt is interrupted and without a verdict, and a first verdict is recorded. -/
theorem interrupted_awaits : ∃ e r r', System.run interrupted = .up e ∧
    (e.Concludes r (verdict .applied) ∧ e.Listens r (verdict .applied)) ∧
    (e.perform (.resolveInterrupted (verdict .unknown))).1.Concludes r' (verdict .notApplied) ∧
      (e.perform (.resolveInterrupted (verdict .unknown))).1.closed = false ∧
      (e.perform (.resolveInterrupted (verdict .unknown))).1.store.failed = false ∧
      r'.revalidated = true := by
  obtain ⟨e, he, hp⟩ := @System.of_reboot grantedOnce [] again
    (fun e : Engine =>
      (!e.closed && e.state.attempts.any
        fun r : AttemptRecord => awaits e .applied r && (!r.revalidated && e.store.accepts
          (.attempt .completion (e.advance.revalidatedAttempt r .applied)))) &&
      (fun e : Engine => !e.closed && !e.store.failed && e.state.attempts.any
        fun r : AttemptRecord => awaits e .notApplied r && r.revalidated)
          (e.perform (.resolveInterrupted (verdict .unknown))).1) (by decide +kernel)
  simp only [Bool.and_eq_true, Bool.not_eq_true', List.any_eq_true] at hp
  obtain ⟨⟨hclosed, r, hr, hawaits, hunsettled, haccepts⟩, ⟨hclosed', hfailed⟩, r', hr', hawaits',
    hrevalidated⟩ := hp
  exact ⟨e, r, r', he, ⟨concludes_of_awaits hr hawaits, hclosed, by decide, hunsettled, haccepts⟩,
    concludes_of_awaits hr' hawaits', hclosed', hfailed, hrevalidated⟩

/-- The verdict that the attempt was applied, and a report of the next failure behind it. -/
def settled : List Action :=
  [.perform (.resolveInterrupted (verdict .applied)), .perform (down ⟨1⟩ ⟨1⟩ 3)]

/-- The conclusive verdict is recorded, and the attempt is still retained when the report has
come. -/
theorem settled_concluded : Concluded (lineage (System.run (interrupted ++ settled.take 1)).history)
      (primary, ⟨1⟩, ⟨1⟩) ∧
    ∃ e r, System.run (interrupted ++ settled.take 1 ++ settled.drop 1) = .up e ∧
      r ∈ e.state.attempts ∧ r.identity = (primary, ⟨1⟩, ⟨1⟩) ∧ r.phase = .committed := by
  obtain ⟨e, he, hp⟩ := @System.of_reboot grantedOnce (settled.take 1) again
    (fun e : Engine => ((lastWrite (lineage e.store.medium.history) (primary, ⟨1⟩, ⟨1⟩)).any
        fun r : AttemptRecord => decide (r.revalidated = true ∧ r.revalidation.Conclusive)) &&
      (e.perform (down ⟨1⟩ ⟨1⟩ 3)).1.state.attempts.any fun r : AttemptRecord =>
        decide (r.identity = (primary, ⟨1⟩, ⟨1⟩) ∧ r.phase = .committed)) (by decide +kernel)
  have hrun : System.run (interrupted ++ settled.take 1) = .up e := by
    rw [interrupted, List.append_assoc]
    exact he
  rw [Bool.and_eq_true] at hp
  obtain ⟨x, hx, hconcluded⟩ := (Option.any_eq_true _ _).mp hp.1
  obtain ⟨r, hr, hcommitted⟩ := List.any_eq_true.mp hp.2
  obtain ⟨hid, hphase⟩ := of_decide_eq_true hcommitted
  refine ⟨?_, _, r, ?_, hr, hid, hphase⟩
  · have hverdict := of_decide_eq_true hconcluded
    rw [hrun]
    exact ⟨x, hx, hverdict⟩
  · rw [System.run, List.foldl_append, ← System.run, hrun]
    rfl

end Sample

/-- The first verdict on the attempt was that nothing is known. That nothing was applied is found out
later, and the attempt stays interrupted. -/
theorem unknown_verdict_final : ∃ e r req, Reachable e ∧ e.Concludes r req ∧
    e.closed = false ∧ req.observerIncarnation.isZero = false ∧ e.store.failed = false ∧
    ¬ e.TakesEffect r req := by
  obtain ⟨e, -, r, he, -, hc, hclosed, hfailed, hrevalidated⟩ := Sample.interrupted_awaits
  have hreach := Reachable.perform ⟨_, he⟩ (.resolveInterrupted (Sample.verdict .unknown))
  refine ⟨_, r, _, hreach, hc, hclosed, by decide, hfailed, fun ht => ?_⟩
  have hl := (Engine.takesEffect_iff hreach.ok hc).mp ht
  rw [hl.unsettled] at hrevalidated
  cases hrevalidated

/-- A first verdict that is conclusive is taken, and the opposite verdict that comes later changes
nothing. -/
theorem revalidation_open_sample : ∃ e r e' r', Reachable e ∧
    e.TakesEffect r (Sample.verdict .applied) ∧ Reachable e' ∧ r' ∈ e'.state.attempts ∧
    r'.phase = .committed ∧
    (e'.perform (.resolveInterrupted (Sample.verdict .notApplied))).1.state.attempts =
      e'.state.attempts := by
  obtain ⟨e, r, -, he, ⟨hc, hl⟩, -⟩ := Sample.interrupted_awaits
  obtain ⟨hconcluded, e', r', he', hr', hid, hphase⟩ := Sample.settled_concluded
  have htakes := ((revalidation_open_iff _).1 e he r _ hc).mpr hl
  have hfinal := (revalidation_open_iff _).2 _ hconcluded _ e' he' (by
    rintro front op back e₀ hsplit - ⟨x, hx, -⟩
    have hop : Action.perform op ∈ Sample.settled.drop 1 := by
      rw [hsplit]
      exact List.mem_append_right _ List.mem_cons_self
    cases List.mem_singleton.mp hop
    cases hx) r' hr' hid
  have hsubject := congrArg Prod.fst hid
  have hseq := congrArg (·.2.2) hid
  exact ⟨e, r, e', r', ⟨_, he⟩, htakes, ⟨_, he'⟩, hr', hphase,
    hfinal (Sample.verdict .notApplied) hsubject.symm hseq.symm⟩

end LinkFailover
