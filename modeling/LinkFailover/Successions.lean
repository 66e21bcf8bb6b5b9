import LinkFailover.Holders
import LinkFailover.Readback

/-!
# How authority changes hands

The table says who holds the authority over a generation of a link now. The lineage says who ever
held it, so the law of one winner is a law of the lineage: whatever record gives an attempt the
authority of the running boot, every other record of that boot that gave it to an attempt of the same
generation has a record behind it that takes it away again. A boot ends all authority at once, since
no record before it carries its epoch.

* `Succession`: the law, for every record of a lineage.
* `Succeeds`: what a write says of the record before it of its attempt.
* `successionLaw`: every write says so in a run that keeps the held attempts.
* `authority_changes_hands`: the law of one winner over such runs.
* `committed_excludes`: a retained attempt that is committed in the running boot excludes others.
* `committed_not_kept`: the next boot grants its generation again.
-/

namespace LinkFailover

open Codec

/-! ## The law of one winner -/

/-- Reverted, fenced, or of an unknown effect: what ends authority within a boot. -/
def GivenUp (phase : AttemptPhase) : Prop :=
  phase = .rolledBack ∨ phase = .aborted ∨ phase = .indeterminate

instance : DecidablePred GivenUp := fun _ => inferInstanceAs (Decidable (_ ∨ _ ∨ _))

/-- A record among these gives an attempt up. -/
def GivesUp (entries : List Entry) (i : Identity) : Prop :=
  ∃ seq w r, (seq, Payload.attempt w r) ∈ entries ∧ r.identity = i ∧ GivenUp r.phase

/-- Whenever an attempt comes to hold the authority of the last boot, every record that gave it to
an attempt of the same generation of the link was followed by one that gives that attempt up. -/
def Succession (entries : List Entry) : Prop :=
  ∀ before seq w r after, entries = before ++ (seq, Payload.attempt w r) :: after →
    r.ActiveIn before → (∀ q, lastWrite before r.identity = some q → ¬ q.ActiveIn before) →
    ∀ earlier n v q behind, before = earlier ++ (n, Payload.attempt v q) :: behind →
      q.ActiveIn before → q.subject = r.subject → q.subjectGeneration = r.subjectGeneration →
      GivesUp behind q.identity

instance (entries : List Entry) (r : AttemptRecord) : Decidable (r.ActiveIn entries) :=
  inferInstanceAs (Decidable (_ ∧ _ ∧ _))

section Lineages

variable {entries : List Entry} {seq : LineageSeq} {p : Payload} {w : AttemptWrite}
  {q r : AttemptRecord} {i : Identity}

theorem GivesUp.append (h : GivesUp entries i) (x : Entry) : GivesUp (entries ++ [x]) i := by
  obtain ⟨seq, w, r, hm, hi, hr⟩ := h
  exact ⟨seq, w, r, List.mem_append_left _ hm, hi, hr⟩

/-- What an authority becomes within a boot, if it does not stay one. -/
theorem givenUp_of_moves {old new : AttemptPhase} (h : phaseMoves old new = true)
    (hold : attemptPhaseHoldsAuthority old = true)
    (hnew : attemptPhaseHoldsAuthority new = false) : GivenUp new := by
  cases old <;> cases new <;> revert h hold hnew <;> decide

theorem not_active_of_phase (h : attemptPhaseHoldsAuthority r.phase = false) :
    ¬ r.ActiveIn entries := by
  rintro ⟨hholds, -⟩
  rw [h] at hholds
  cases hholds

/-- The last record of every active attempt is active, or the attempt was given up since. -/
structure Accounted (entries : List Entry) : Prop where
  epochs : ∀ seq w r, (seq, Payload.attempt w r) ∈ entries →
    r.authority.epoch.toNat ≤ (lastEpoch entries).toNat
  follows : ∀ earlier n v q behind, entries = earlier ++ (n, Payload.attempt v q) :: behind →
    q.ActiveIn entries → GivesUp behind q.identity ∨
      ∃ last, lastWrite entries q.identity = some last ∧ last.ActiveIn entries

/-- What a record of an attempt says of the one before it: it is no authority when it creates the
attempt, and it hands the authority of the attempt on or gives it up. -/
structure Succeeds (entries : List Entry) (w : AttemptWrite) (r : AttemptRecord) : Prop where
  created : w = .create → attemptPhaseHoldsAuthority r.phase = false
  moved : w ≠ .create → ∀ q, lastWrite entries r.identity = some q → q.ActiveIn entries →
    r.ActiveIn entries ∨ GivenUp r.phase

/-- A record of an attempt, after which the attempt is active or given up if it was active. -/
def SuccessionEntry (entries : List Entry) (x : Entry) : Prop :=
  HeldEntry entries x ∧ ∀ w r, x.2 = .attempt w r → Succeeds entries w r

/-- Behind a boot nothing is active. -/
theorem Accounted.boot (h : Accounted entries) {b : BootPayload}
    (hb : (lastEpoch entries).next = some b.epoch) : Accounted (entries ++ [(seq, .boot b)]) := by
  have hnext := StrongUint.next_toNat hb
  have hmem : ∀ {n w r}, (n, Payload.attempt w r) ∈ entries ++ [(seq, .boot b)] →
      (n, Payload.attempt w r) ∈ entries := fun hm => by simpa using hm
  refine ⟨fun n w r hm => ?_, fun earlier n v q behind he hq => ?_⟩
  · have hle := h.epochs n w r (hmem hm)
    rw [lastEpoch_boot]
    omega
  · have hle := h.epochs n v q (hmem (he ▸ List.mem_append_right _ List.mem_cons_self))
    obtain ⟨-, hepoch, -⟩ := hq
    rw [hepoch, lastEpoch_boot] at hle
    omega

theorem Accounted.other (h : Accounted entries) (hb : ∀ b, p ≠ .boot b)
    (hp : ∀ w r, p ≠ .attempt w r) : Accounted (entries ++ [(seq, p)]) := by
  refine ⟨fun n w r hm => ?_, fun earlier n v q behind he hq => ?_⟩
  · rw [lastEpoch_of_not_boot hb]
    rcases List.mem_append.mp hm with hm | hm
    · exact h.epochs n w r hm
    · cases List.mem_singleton.mp hm
      exact absurd rfl (hp w r)
  · rcases List.eq_nil_or_concat behind with rfl | ⟨behind, x, rfl⟩
    · cases (List.append_inj' he rfl).2
      exact absurd rfl (hp v q)
    · rw [List.concat_eq_append, ← List.cons_append, ← List.append_assoc] at he
      obtain ⟨hentries, -⟩ := List.append_inj' he rfl
      rw [activeIn_append hb] at hq
      rcases h.follows earlier n v q behind hentries hq with hgiven | ⟨last, hlast, hactive⟩
      · exact .inl (List.concat_eq_append ▸ hgiven.append x)
      · exact .inr ⟨last, by rwa [lastWrite_of_not_attempt hp], (activeIn_append hb).mpr hactive⟩

theorem Accounted.attempt (h : Accounted entries) (hw : HeldWrite entries w r)
    (hs : Succeeds entries w r) : Accounted (entries ++ [(seq, .attempt w r)]) := by
  have hboot : ∀ b, Payload.attempt w r ≠ .boot b := fun _ => Payload.noConfusion
  refine ⟨fun n v q hm => ?_, fun earlier n v q behind he hq => ?_⟩
  · rw [lastEpoch_of_not_boot hboot]
    rcases List.mem_append.mp hm with hm | hm
    · exact h.epochs n v q hm
    · cases List.mem_singleton.mp hm
      exact hw.epoch
  rcases List.eq_nil_or_concat behind with rfl | ⟨behind, x, rfl⟩
  · cases (List.append_inj' he rfl).2
    exact .inr ⟨r, lastWrite_attempt .., hq⟩
  rw [List.concat_eq_append, ← List.cons_append, ← List.append_assoc] at he
  obtain ⟨hentries, hx⟩ := List.append_inj' he rfl
  cases hx
  rw [activeIn_append hboot] at hq
  rw [List.concat_eq_append]
  rcases h.follows earlier n v q behind hentries hq with hgiven | ⟨last, hlast, hactive⟩
  · exact .inl (hgiven.append _)
  by_cases hsame : r.identity = q.identity
  swap
  · exact .inr ⟨last, by rwa [lastWrite_other _ _ _ hsame], (activeIn_append hboot).mpr hactive⟩
  rw [← hsame] at hlast ⊢
  -- an attempt that is active is not created again
  have hcreate : w ≠ .create := fun hcreate => by
    have hfree := hw.alone hcreate r.identity ⟨last, hlast, .inr hactive⟩
    have hself : DurableState.concerns r.identity.1 r.identity.2.1 r = true :=
      DurableState.concerns_iff.mpr ⟨rfl, rfl⟩
    rw [hself] at hfree
    cases hfree
  rcases hs.moved hcreate last hlast hactive with hr | hr
  · exact .inr ⟨r, lastWrite_attempt .., (activeIn_append hboot).mpr hr⟩
  · exact .inl ⟨seq, w, r, List.mem_append_right _ (List.mem_singleton_self _), rfl, hr⟩

theorem Accounted.append (h : Accounted entries) (hx : SuccessionEntry entries (seq, p)) :
    Accounted (entries ++ [(seq, p)]) := by
  cases p with
  | boot b => exact h.boot hx.1
  | attempt w r => exact h.attempt hx.1 (hx.2 w r rfl)
  | _ => exact h.other (fun _ => Payload.noConfusion) fun _ _ => Payload.noConfusion

/-- What the records of a lineage say adds up. -/
theorem accounted_of (h : ∀ before x after, entries = before ++ x :: after →
    SuccessionEntry before x) : Undisputed entries ∧ Accounted entries := by
  induction entries using List.reverseRecOn with
  | nil =>
    refine ⟨undisputed_nil, fun _ _ _ hm => absurd hm List.not_mem_nil, fun earlier _ _ _ _ he => ?_⟩
    cases earlier <;> cases he
  | append_singleton entries x ih =>
    obtain ⟨hundisputed, haccounted⟩ := ih fun before y after he =>
      h before y (after ++ [x]) (by rw [he, List.append_assoc, List.cons_append])
    have hx := h entries x [] rfl
    exact ⟨hundisputed.append hx.1, haccounted.append hx⟩

/-- Whatever an attempt that comes to be active finds active of its generation was given up. -/
theorem succession_of (h : ∀ before x after, entries = before ++ x :: after →
    SuccessionEntry before x) : Succession entries := by
  intro before seq w r after he hr hnew earlier n v q behind hbefore hq hsubject hgeneration
  obtain ⟨hundisputed, haccounted⟩ := @accounted_of before fun before' x after' he' =>
    h before' x (after' ++ (seq, .attempt w r) :: after) (by rw [he, he']; simp)
  obtain ⟨hheld, hsucceeds⟩ := h before _ after he
  rcases haccounted.follows earlier n v q behind hbefore hq with hgiven | ⟨last, hlast, hactive⟩
  · exact hgiven
  -- the attempt would be active still, and the only one of its generation that is
  have hcreate : w ≠ .create := fun hcreate =>
    not_active_of_phase ((hsucceeds w r rfl).created hcreate) hr
  have halone := hundisputed.alone r.identity q.identity
    ((show HeldWrite before w r from hheld).held hcreate (.inr hr)) ⟨last, hlast, .inr hactive⟩
    hsubject.symm hgeneration.symm
  exact absurd hactive (hnew last (halone ▸ hlast))

end Lineages

/-! ## Writes -/

/-- Nothing is active. -/
def Idle (entries : List Entry) : Prop :=
  ∀ i r, lastWrite entries i = some r → ¬ r.ActiveIn entries

/-- A boot interrupts what no longer holds authority. -/
def LiveIdle (entries : List Entry) : Job → Prop
  | .booted => Idle entries
  | .owing _ j => LiveIdle entries j
  | _ => True

section Steps

variable {wire : Prop} {entries : List Entry} {o : StoreOptions} {d d' : DurableState} {j j' : Job}
  {p : Payload} {apply : LineageSeq → DurableState → DurableState} {seq : LineageSeq}
  {w : AttemptWrite} {q r : AttemptRecord}

theorem Idle.other (h : Idle entries) (hb : ∀ b, p ≠ .boot b) (hp : ∀ w r, p ≠ .attempt w r) :
    Idle (entries ++ [(seq, p)]) := by
  intro i r hr
  rw [lastWrite_of_not_attempt hp] at hr
  rw [activeIn_append hb]
  exact h i r hr

theorem Idle.attempt (h : Idle entries) (hr : attemptPhaseHoldsAuthority r.phase = false) :
    Idle (entries ++ [(seq, .attempt w r)]) := by
  intro i x hx
  rw [activeIn_append fun _ => Payload.noConfusion]
  by_cases hsame : r.identity = i
  · subst hsame
    rw [lastWrite_attempt] at hx
    cases hx
    exact not_active_of_phase hr
  · rw [lastWrite_other _ _ _ hsame] at hx
    exact h i x hx

theorem Undisputed.idle (h : Undisputed entries) {b : BootPayload}
    (hb : (lastEpoch entries).next = some b.epoch) : Idle (entries ++ [(seq, .boot b)]) := by
  rintro i r hr ⟨-, hepoch, -⟩
  have hle := h.epochs i r (by rwa [lastWrite_of_not_attempt fun _ _ => Payload.noConfusion] at hr)
  have hnext := StrongUint.next_toNat hb
  rw [hepoch, lastEpoch_boot] at hle
  omega

theorem LiveIdle.other (h : LiveIdle entries j) (hb : ∀ b, p ≠ .boot b)
    (hp : ∀ w r, p ≠ .attempt w r) : LiveIdle (entries ++ [(seq, p)]) j := by
  induction j with
  | booted => exact Idle.other h hb hp
  | owing r j ih => exact ih h
  | _ => trivial

/-- A later record of an attempt keeps the authority that it does not give up. -/
theorem Continues.succeeds (h : Continues d q w r) (hk : Known entries q) :
    Succeeds entries w r where
  created hw := absurd (h.write.symm.trans hw) (writeOf_ne_create _)
  moved := by
    rintro - last hlast ⟨hholds, hepoch, hcoordinator⟩
    obtain ⟨last', hlast', hu⟩ := hk
    rw [← h.identity, hlast] at hlast'
    cases hlast'
    rw [phase_of_unstamped hu] at hholds
    cases hnew : attemptPhaseHoldsAuthority r.phase with
    | false => exact .inr (givenUp_of_moves h.phase hholds hnew)
    | true =>
      have hkept : r.authority = q.authority := by
        refine h.authority.resolve_right ?_
        rintro ⟨hinterrupted, -⟩
        rw [hinterrupted] at hholds
        cases hholds
      exact .inl ⟨hnew, by rw [hkept, ← authority_of_unstamped hu, hepoch],
        by rw [hkept, ← authority_of_unstamped hu, hcoordinator]⟩

/-- The guards of a write give what it says of the record before it. -/
theorem Writes.succeeds (hw : Writes wire entries o d j p apply j') (hs : StateOk entries d)
    (hl : LiveOk entries d j) (hi : LiveIdle entries j) :
    ∀ w r, p = .attempt w r → Succeeds entries w r := by
  cases hw with
  | interrupt =>
    rintro _ _ ⟨⟩
    exact ⟨fun hw => (by cases hw), fun _ q hq ha => absurd ha (hi _ q hq)⟩
  | record _ hp =>
    rintro _ _ ⟨⟩
    refine ⟨fun _ => ?_, fun hw => absurd rfl hw⟩
    rcases hp with hp | hp
    · rw [hp]
      rfl
    · rw [hp]
      rfl
  | grant _ hp =>
    rintro _ _ ⟨⟩
    refine ⟨fun _ => ?_, fun hw => absurd rfl hw⟩
    rw [hp]
    rfl
  | authorize a =>
    rintro _ _ ⟨⟩
    obtain ⟨-, hk, -, hphase, -⟩ := hl
    refine ⟨fun hw => (by cases hw), fun _ q hq ha => absurd ha (not_active_of_phase ?_)⟩
    rw [← hk.phase hq, hphase]
    rfl
  | carry hq hc =>
    rintro _ _ ⟨⟩
    exact hc.succeeds (hs.known _ hq)
  | rollback hq hc =>
    rintro _ _ ⟨⟩
    exact hc.succeeds (hs.known _ hq)
  | abort _ known _ _ hc =>
    rintro _ _ ⟨⟩
    exact hc.succeeds known
  | _ => exact fun _ _ => Payload.noConfusion

/-- What a write leaves of what a boot relies on. -/
theorem Writes.liveIdle (hw : Writes wire entries o d j p apply j') (h : Undisputed entries)
    (hb : ∀ b, p = .boot b → (lastEpoch entries).next = some b.epoch) (hi : LiveIdle entries j) :
    LiveIdle (entries ++ [(seq, p)]) j' := by
  cases hw with
  | boot => exact h.idle (hb _ rfl)
  | interrupt => exact Idle.attempt hi rfl
  | fence =>
    exact LiveIdle.other (show LiveIdle entries j' from hi) (fun _ => Payload.noConfusion)
      fun _ _ => Payload.noConfusion
  | _ => trivial

end Steps

/-- In a run that keeps the held attempts, every record of an attempt says what becomes of the
authority that it finds. -/
theorem successionLaw (wire : Prop) : LineageLaw wire (KeepsMark heldMark) HeldOk SuccessionEntry
    fun entries _ _ j => LiveOpen entries j ∧ LiveIdle entries j where
  start := (holderLaw wire).start
  positions := (holderLaw wire).positions
  effect h hl := (holderLaw wire).effect h hl.1
  opened _ := ⟨trivial, trivial⟩
  guard ht h ho hw hn :=
    ⟨(holderLaw wire).guard ht h ho.1 hw hn, hw.succeeds ht.stateOk ht.liveOk ho.2⟩
  live ht h ho hw hn hr := by
    have hentry := (holderLaw wire).guard ht h ho.1 hw hn
    refine ⟨(holderLaw wire).live ht h ho.1 hw hn hr, hw.liveIdle h.undisputed ?_ ho.2⟩
    rintro b rfl
    exact hentry
  booted {_ o _} h ho ht := ⟨(holderLaw wire).booted (o := o) h ho.1 ht, trivial⟩
  fenced {_ o _ _} h ho hd := ⟨(holderLaw wire).fenced (o := o) h ho.1 hd, trivial⟩
  local_rule := (holderLaw wire).local_rule

/-! ## Runs -/

/-- In every run whose writes keep the held attempts, and number no new attempt below a retained one
of its generation, an attempt comes to hold the authority of its boot only after every attempt of
the same generation that held it before was rolled back, aborted or left indeterminate. -/
theorem authority_changes_hands {actions : List Action}
    (hk : (System.run actions).history.all (Event.keeps heldMark) = true) :
    Succession (lineage (System.run actions).history) := by
  obtain ⟨phase, ht⟩ := @System.run_trace False actions False.elim
  exact succession_of fun before x after he =>
    (((successionLaw False).holds ht (obeys_of_keeps hk)).entries before x after he).1

namespace Sample

/-- The records behind an earlier authority that a later record finds of its generation when it makes
its attempt active, and the attempt that it finds. -/
def takesFrom (entries : List Entry) (n m : Nat) : Option (List Entry × Identity) :=
  match entries.drop n, (entries.take n).drop m with
  | (_, .attempt _ r) :: _, (_, .attempt _ q) :: behind =>
    if r.ActiveIn (entries.take n) ∧
        (lastWrite (entries.take n) r.identity).all (fun x => !decide (x.ActiveIn (entries.take n))) ∧
        q.ActiveIn (entries.take n) ∧ q.subject = r.subject ∧
        q.subjectGeneration = r.subjectGeneration then
      some (behind, q.identity)
    else none
  | _, _ => none

theorem takesFrom_some {entries behind : List Entry} {n m : Nat} {i : Identity}
    (h : takesFrom entries n m = some (behind, i)) (hs : Succession entries) : GivesUp behind i := by
  unfold takesFrom at h
  split at h
  swap
  · cases h
  rename_i seq w r after x v q behind' hlater hearlier
  split at h
  swap
  · cases h
  rename_i hc
  obtain ⟨hr, hnew, hq, hsubject, hgeneration⟩ := hc
  cases h
  refine hs (entries.take n) seq w r after ?_ hr (fun y hy => ?_) ((entries.take n).take m) x v q
    behind ?_ hq hsubject hgeneration
  · rw [← hlater, List.take_append_drop]
  · rw [hy] at hnew
    simpa using hnew
  · rw [← hearlier, List.take_append_drop]

/-- Whether a record among these gives an attempt up. -/
def givesUp (entries : List Entry) (i : Identity) : Bool :=
  entries.any fun x =>
    match x.2 with
    | .attempt _ r => decide (r.identity = i) && decide (GivenUp r.phase)
    | _ => false

theorem givesUp_of {entries : List Entry} {i : Identity} (h : GivesUp entries i) :
    givesUp entries i = true := by
  obtain ⟨seq, w, r, hm, hi, hr⟩ := h
  exact List.any_eq_true.mpr ⟨_, hm, by simp [hi, hr]⟩

def rollback : Action :=
  .perform (.requestRollback { subject := primary, subjectGeneration := ⟨1⟩, attemptSeq := ⟨1⟩ })

/-- An attempt is reported as applied. -/
def reportApplied (n : AttemptSeq) : Action :=
  .perform (.recordApplication
    { subject := primary
      subjectGeneration := ⟨1⟩
      attemptSeq := n
      attemptId := computeAttemptId (name 102) primary ⟨1⟩ n
      applierIncarnation := incarnation 8
      accepted := true })

/-- A failover that is committed as soon as its applier accepts it. -/
def completedOnce : List Action :=
  booted { requireVerifiedEffect := false } {} ++
    [.perform (.requestFailover (request ⟨1⟩)), reportApplied ⟨1⟩]

/-- Nobody has reported anything about the alternate link. -/
def requestAlternate : Action :=
  .perform (.requestFailover { subject := alternate, subjectGeneration := ⟨1⟩ })

/-- In a table for one attempt, the second attempt of the primary link is committed and makes place
for an attempt of the alternate link. -/
def crowdedOut : List Action :=
  [.start
      { options := options { requireVerifiedEffect := false } { maxAttempts := 1 }
        incarnation := incarnation 1 },
    .perform (.requestFailover (request ⟨1⟩)), .perform (down ⟨1⟩ ⟨1⟩ 1), .perform (usable ⟨1⟩ 1),
    .perform (.requestFailover (request ⟨1⟩)), reportApplied ⟨2⟩, requestAlternate]

end Sample

/-- A table for one attempt has no room for a committed one and the attempt of another link. The
committed one goes, and its generation is granted again in the same boot. -/
theorem authority_granted_twice : ¬ ∀ actions, Succession (lineage (System.run actions).history) := by
  intro hall
  let actions := Sample.crowdedOut ++ [.perform (.requestFailover (Sample.request ⟨1⟩))]
  have hfinds : ((Sample.takesFrom (lineage (System.run actions).history) 11 6).any fun x =>
      decide (x.2 = (Sample.primary, ⟨1⟩, ⟨2⟩)) && !Sample.givesUp x.1 x.2) = true := by
    decide +kernel
  obtain ⟨⟨behind, i⟩, hfound, hp⟩ := (Option.any_eq_true _ _).mp hfinds
  rw [Bool.and_eq_true, Bool.not_eq_true'] at hp
  rw [Sample.givesUp_of (Sample.takesFrom_some hfound (hall actions))] at hp
  cases hp.2

/-- A failover is granted, taken back and granted again: the second attempt comes to hold the
authority, and behind the record that gave it to the first one there is one that gives it up. -/
theorem authority_changes_hands_sample : ∃ actions behind,
    Sample.takesFrom (lineage (System.run actions).history) 8 2 =
      some (behind, (Sample.primary, ⟨1⟩, ⟨1⟩)) ∧ GivesUp behind (Sample.primary, ⟨1⟩, ⟨1⟩) := by
  let actions := Sample.grantedOnce ++
    [Sample.rollback, .perform (.requestFailover (Sample.request ⟨1⟩))]
  have hruns : ((Sample.takesFrom (lineage (System.run actions).history) 8 2).any fun x =>
      decide (x.2 = (Sample.primary, ⟨1⟩, ⟨1⟩)) &&
        (System.run actions).history.all (Event.keeps heldMark)) = true := by
    decide +kernel
  obtain ⟨⟨behind, i⟩, hfound, hp⟩ := (Option.any_eq_true _ _).mp hruns
  rw [Bool.and_eq_true, decide_eq_true_eq] at hp
  obtain ⟨rfl, hk⟩ := hp
  exact ⟨actions, behind, hfound, Sample.takesFrom_some hfound (authority_changes_hands hk)⟩

/-! ## Completed failovers -/

/-- The last record of an attempt commits it, and no fence names it. -/
def Completed (entries : List Entry) (i : Identity) : Prop :=
  (∃ r, lastWrite entries i = some r ∧ r.phase = .committed) ∧
    ∀ seq f, (seq, Payload.fence f) ∈ entries → (f.subject, f.subjectGeneration, f.attemptSeq) ≠ i

/-- While an attempt is committed under the authority of the running process, and the process retains
it, no request is granted for its generation. -/
theorem committed_excludes {actions : List Action} {e : Engine} (he : System.run actions = .up e)
    {req : FailoverRequest} {r : AttemptRecord} {s : AttemptSeq}
    (hlast : lastWrite (lineage e.store.medium.history)
      (req.subject, req.subjectGeneration, s) = some r)
    (hc : r.phase = .committed) (hepoch : r.authority.epoch = e.epoch)
    (hcoordinator : r.authority.coordinator = e.incarnation)
    (hr : ∃ q ∈ e.state.attempts, q.identity = (req.subject, req.subjectGeneration, s)) :
    ¬ e.Grants req := by
  intro hgrants
  have hok : EngineOk False e := Reachable.ok ⟨actions, he⟩
  obtain ⟨hf, a, hcreates, hconcerns⟩ := hgrants.creates hok
  obtain ⟨q, hq, hid⟩ := hr
  have hopen : e.closed = false := by
    rw [← Bool.not_eq_true]
    intro hclosed
    rw [hok.closed hclosed] at hf
    cases hf
  obtain ⟨r', hlast', hu⟩ := (Engine.ok_state hok hf).known q hq
  rw [hid, hlast] at hlast'
  cases hlast'
  have hactive : e.state.isActive q = true := by
    rw [DurableState.isActive_iff, ← phase_of_unstamped hu, ← authority_of_unstamped hu, hc, hepoch,
      hcoordinator, hok.epoch hopen, hok.coordinator hopen]
    exact ⟨rfl, rfl, rfl⟩
  obtain ⟨hsubject, hgeneration⟩ := DurableState.concerns_iff.mp hconcerns
  have hidle := DurableState.activeAuthority_none.mp hcreates.active q hq
    ((congrArg (·.1) hid).trans hsubject.symm) ((congrArg (·.2.1) hid).trans hgeneration.symm)
  rw [hactive] at hidle
  cases hidle

/-- Whether an attempt is completed, and the next request for its generation is granted. -/
def Sample.completedAndGranted (e : Engine) (i : Identity) (req : FailoverRequest) : Bool :=
  (lastWrite (lineage e.store.medium.history) i).any (fun r => decide (r.phase = .committed)) &&
    (lineage e.store.medium.history).all (fun x => !x.2.isFence) && e.grants req

/-- A failover is completed. The next process retains it, and grants its generation again as soon as
it learns of the failure, since the authority is of the boot before. -/
theorem committed_not_kept : ¬ ∀ (e : Engine) (req : FailoverRequest) (s : AttemptSeq),
    Reachable e →
    Completed (lineage e.store.medium.history) (req.subject, req.subjectGeneration, s) →
    ¬ e.Grants req := by
  intro hall
  obtain ⟨e, he, hp⟩ := @System.of_reboot Sample.completedOnce
    [.perform (Sample.down ⟨1⟩ ⟨1⟩ 1), .perform (Sample.usable ⟨1⟩ 1)] Sample.again
    (fun e => Sample.completedAndGranted e (Sample.primary, ⟨1⟩, ⟨1⟩) (Sample.request ⟨1⟩))
    (by decide +kernel)
  simp only [Sample.completedAndGranted, Bool.and_eq_true, Option.any_eq_true, decide_eq_true_eq,
    List.all_eq_true] at hp
  obtain ⟨⟨⟨r, hlast, hc⟩, hfences⟩, hgrants⟩ := hp
  refine hall e (Sample.request ⟨1⟩) ⟨1⟩ ⟨_, he⟩ ⟨⟨r, hlast, hc⟩, fun seq f hm => ?_⟩
    (Engine.grants_iff.mp hgrants)
  have := hfences _ hm
  cases this

/-- Whether an attempt is completed under the authority of this process, and retained. -/
def Sample.holdsCompleted (e : Engine) (i : Identity) : Bool :=
  (lineage e.store.medium.history).all (fun x => !x.2.isFence) &&
    e.state.attempts.any (fun q => decide (q.identity = i)) &&
    (lastWrite (lineage e.store.medium.history) i).any fun r =>
      decide (r.phase = .committed ∧ r.authority.epoch = e.epoch ∧
        r.authority.coordinator = e.incarnation)

/-- In the process that completed the failover, a second request for it is refused. -/
theorem committed_excludes_sample : ∃ e, System.run Sample.completedOnce = .up e ∧
    Completed (lineage e.store.medium.history) (Sample.primary, ⟨1⟩, ⟨1⟩) ∧
    ¬ e.Grants (Sample.request ⟨1⟩) := by
  obtain ⟨e, he, hp⟩ := @System.of_serves (System.run Sample.completedOnce)
    (fun e => Sample.holdsCompleted e (Sample.primary, ⟨1⟩, ⟨1⟩)) (by decide +kernel)
  simp only [Sample.holdsCompleted, Bool.and_eq_true, Option.any_eq_true, List.any_eq_true,
    decide_eq_true_eq, List.all_eq_true] at hp
  obtain ⟨⟨hfences, hr⟩, r, hlast, hc, hepoch, hcoordinator⟩ := hp
  refine ⟨e, he, ⟨⟨r, hlast, hc⟩, fun seq f hm => ?_⟩,
    committed_excludes he (s := ⟨1⟩) hlast hc hepoch hcoordinator hr⟩
  have := hfences _ hm
  cases this

end LinkFailover
