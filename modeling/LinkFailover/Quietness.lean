import LinkFailover.Atomicity
import LinkFailover.Verdicts

/-!
# Requests that settle nothing

A refusal that restates what is on the medium is not written to the journal, so that a client that
repeats it does not make the lineage longer. The refusal at an interrupted attempt is written, each
time that it is given, though the next boot reads the same attempts with it and without it.

* `commit_lineage_iff`: which commits leave the journal as it is.
* `planFailover_gate`: the one refusal that is written.
* `requests_journaled_iff`: which requests write to the journal exactly if they change an attempt.
-/

namespace LinkFailover

open Codec

/-! ## Appends -/

/-- Whether the disk takes in the whole next record, be it reported as written or not. -/
def LineageStore.lands (s : LineageStore) (p : Payload) : Bool :=
  !s.failed && s.state.lastSeq.next.any fun seq =>
    decide (p.record seq).Fits &&
      s.medium.nextFault.all fun n => decide ((frame (p.record seq)).length ≤ n)

section Appends

variable {s s' s'' : LineageStore} {p : Payload}
  {apply : LineageSeq → DurableState → DurableState}

/-- A commit brings its record to the journal exactly if the disk takes in the whole of it. -/
theorem commit_lineage_iff (h : s.StoreOk) :
    lineage (s.commit p apply).1.medium.history = lineage s.medium.history ↔
      s.lands p = false := by
  have hnew : ∀ seq b a ack,
      lineage (s.medium.history ++ [.committed seq p b a ack]) ≠ lineage s.medium.history := by
    intro seq b a ack
    rw [lineage_append, lineage_committed]
    simp
  unfold LineageStore.commit LineageStore.lands
  by_cases hf : s.failed = true
  · rw [if_pos hf, hf]
    exact iff_of_true rfl rfl
  have hf' : s.failed = false := by simpa using hf
  rw [if_neg hf, hf', Bool.not_false, Bool.true_and]
  cases hn : s.state.lastSeq.next with
  | none => exact iff_of_true rfl rfl
  | some seq =>
    have hs := h.synced hf'
    have hlt : s.writer.lastSeq < (p.record seq).seq := by
      rw [hs.writerSeq, StrongUint.lt_iff]
      change _ < seq.toNat
      rw [StrongUint.next_toNat hn]
      omega
    rw [Option.any_some]
    dsimp only
    generalize s.medium.directory.journal.getD [] = file
    by_cases hfits : (p.record seq).Fits
    · rw [decide_eq_true hfits, Bool.true_and]
      cases hfault : s.medium.nextFault with
      | none =>
        rw [append_next hs.writer _ hfits hlt]
        dsimp only
        rw [show Status.success.isOk = true from rfl, Bool.not_true, if_neg Bool.false_ne_true]
        exact iff_of_false (hnew seq _ _ true) (by simp)
      | some n =>
        have happend : s.writer.append file (some n) (p.record seq) =
            ({ s.writer with failed := true }, file ++ (frame (p.record seq)).take n,
              JournalWriter.appendFailure (p.record seq) n) := by
          rw [JournalWriter.append, if_neg (by simp [hs.writer]), if_neg (Nat.not_lt_of_le hfits),
            if_neg (not_not.mpr hlt)]
        have hok : (JournalWriter.appendFailure (p.record seq) n).isOk = false :=
          failure_isOk (by decide)
        rw [happend, hok, Bool.not_false, if_pos rfl, Option.all_some]
        by_cases hn : (frame (p.record seq)).length ≤ n
        · rw [List.take_of_length_le hn, if_pos rfl, decide_eq_true hn]
          exact iff_of_false (hnew seq _ _ false) (by simp)
        · have hshort : ¬(file ++ (frame (p.record seq)).take n).length =
              (file ++ frame (p.record seq)).length := by
            rw [List.length_append, List.length_append, List.length_take]
            omega
          rw [if_neg hshort, decide_eq_false hn]
          exact iff_of_true (congrArg lineage (List.append_nil _)) rfl
    · have happend : s.writer.append file s.medium.nextFault (p.record seq) =
          (s.writer, file, Status.failure .limitExceeded .limitExceeded
            (text "record payload exceeds the supported bound")) := by
        rw [JournalWriter.append.eq_def, if_neg (by simp [hs.writer]),
          if_pos (Nat.lt_of_not_le hfits)]
      have hok : (Status.failure .limitExceeded .limitExceeded
          (text "record payload exceeds the supported bound")).isOk = false :=
        failure_isOk (by decide)
      have hshort : ¬file.length = (file ++ frame (p.record seq)).length := by
        have := frame_pos (p.record seq)
        rw [List.length_append]
        omega
      rw [happend, hok, Bool.not_false, if_pos rfl, if_neg hshort, decide_eq_false hfits,
        Bool.false_and]
      exact iff_of_true (congrArg lineage (List.append_nil _)) rfl

theorem lands_of_accepts (h : s.accepts p = true) : s.lands p = true := by
  unfold LineageStore.accepts at h
  unfold LineageStore.lands
  simp only [Bool.and_eq_true, Option.isNone_iff_eq_none] at h
  obtain ⟨⟨hf, hfault⟩, hfits⟩ := h
  rw [hf, hfault]
  cases hn : s.state.lastSeq.next with
  | none =>
    rw [hn] at hfits
    cases hfits
  | some seq =>
    rw [hn] at hfits
    have hfits : decide (p.record seq).Fits = true := hfits
    rw [Option.any_some, hfits]
    rfl

/-- What lies between two journals that agree agrees with them. -/
theorem lineage_between (h : s.medium.history <+: s'.medium.history)
    (h' : s'.medium.history <+: s''.medium.history)
    (heq : lineage s''.medium.history = lineage s.medium.history) :
    lineage s'.medium.history = lineage s.medium.history := by
  have hle := (lineage_begins h').length_le
  rw [heq] at hle
  exact ((lineage_begins h).eq_of_length_le hle).symm

theorem Amends.history {ws : List Amendment} (h : Amends s ws s') :
    s.medium.history <+: s'.medium.history := by
  obtain ⟨events, hh, -⟩ := h.events
  exact hh ▸ List.prefix_append _ _

end Appends

namespace Engine

variable {wire : Prop} {e : Engine} {req : FailoverRequest} {d : FailoverDecision}
  {a : AttemptRecord} {key : Digest}

/-- The records of the journal, from the first one on. -/
abbrev journal (e : Engine) : List Entry := lineage e.store.medium.history

/-- A decision is settled durably without a trace exactly if the disk does not take it in. -/
theorem settleDurable_journal (h : e.store.StoreOk) :
    (e.settleDurable d key).1.journal = e.journal ↔ e.store.lands (.decision d) = false := by
  have hc := @commit_lineage_iff _ (.decision d) (fun _ s => s) h
  constructor
  · intro heq
    refine hc.mp (lineage_between commit_history ?_ heq)
    have hrest : Amends (e.commitDecision d).1.store [] (e.settleDurable d key).1.store :=
      commitIdempotency_amends.quiet_left maybeCheckpoint_amends
    rw [commitDecision_store] at hrest
    exact hrest.history
  · intro hl
    have hok : (e.store.commit (.decision d) fun _ s => s).2.isOk = false := by
      rw [← Bool.not_eq_true, commit_isOk_iff h]
      intro ha
      rw [lands_of_accepts ha] at hl
      cases hl
    have hdur : (e.commitDecision d).2.durable = false := by
      rw [commitDecision]
      dsimp only
      rw [hok]
      rfl
    have hkeep : (e.commitDecision d).1.commitIdempotency (e.commitDecision d).2 key =
        (e.commitDecision d).1 := by
      rw [commitIdempotency, hdur, Bool.not_false, Bool.or_true, if_pos rfl]
    have hfailed : (e.commitDecision d).1.store.failed = true := by
      rw [commitDecision_store]
      exact (commit_not_ok hok).1
    have hstore : (e.settleDurable d key).1.store = (e.commitDecision d).1.store := by
      change (Engine.maybeCheckpoint (Engine.commitIdempotency _ _ key)).store = _
      rw [hkeep]
      exact (@maybeCheckpoint_leads False _).path.of_failed hfailed
    rw [journal, hstore, commitDecision_store]
    exact hc.mpr hl

/-! ## The gate of an interrupted attempt -/

/-- The request passes every check up to the latest attempt of its subject, which a restart has
interrupted. -/
structure AtGate (e : Engine) (req : FailoverRequest) (r : AttemptRecord) : Prop where
  checked : e.checkRequest req = none
  fresh : e.state.findIdempotency req.idempotencyKey = none
  subject : ∃ link, e.state.topology.find req.subject = some link ∧
    link.generation = req.subjectGeneration
  expected : req.expected.Holds (e.currentAuthority req.subject req.subjectGeneration)
  enabled : e.state.policy.failoverEnabled = true
  idle : e.state.activeAuthority req.subject req.subjectGeneration = none
  latest : e.state.latestAttempt req.subject req.subjectGeneration = some r
  interrupted : r.phase = .interrupted

/-- The refusal at the gate. -/
def gateDecision (e : Engine) (req : FailoverRequest) (latest : AttemptRecord) :
    FailoverDecision :=
  let d :=
    { e.baseDecision req.subject req.subjectGeneration with
      authority := e.currentAuthority req.subject req.subjectGeneration
      kind := .indeterminate
      assertion := .observation
      outcome := .indeterminate
      attemptSeq := latest.attemptSeq }
  if latest.revalidated then
    d.because .backendUnknown "the interrupted attempt was revalidated as unknown"
  else
    d.because .revalidationRequired "an attempt interrupted by a restart must be revalidated first"

theorem closeAttempt_undurable {d' : FailoverDecision} {evidence : Digest}
    {reasons : ReasonLog} : e.closeAttempt req d evidence reasons ≠ .settle d' true := by
  unfold closeAttempt
  split <;> simp

/-- Behind the gate no refusal is written but together with its attempt. -/
theorem planEvidence_undurable {d' : FailoverDecision} {link : LinkDefinition} :
    e.planEvidence req d link ≠ .settle d' true := by
  unfold planEvidence
  dsimp only
  split
  · exact closeAttempt_undurable
  unfold planSelection
  dsimp only
  split
  · simp
  split
  · exact closeAttempt_undurable
  unfold planSelected
  split
  · simp
  split
  · simp
  split
  · simp
  · simp [planGrant]

/-- A request is refused durably, without an attempt, exactly at the gate. -/
theorem planFailover_gate : e.planFailover req = .settle d true ↔
    ∃ latest, e.AtGate req latest ∧ d = e.gateDecision req latest := by
  constructor
  · intro h
    unfold planFailover at h
    split at h
    · cases h
    rename_i hchecked
    split at h
    · cases h
    rename_i hfresh
    unfold planSubject at h
    split at h
    · cases h
    rename_i link hlink
    split at h
    · cases h
    rename_i hgeneration
    unfold planExpectation at h
    dsimp only at h
    split at h
    · cases h
    rename_i hexpected
    split at h
    · cases h
    rename_i henabled
    unfold planAuthority at h
    split at h
    · cases h
    rename_i hidle
    unfold planRevalidation at h
    split at h
    · exact absurd h planEvidence_undurable
    rename_i latest hlatest
    split at h
    · rename_i hphase
      refine ⟨latest, ⟨hchecked, hfresh, ⟨link, hlink, not_not.mp hgeneration⟩, ?_, ?_, hidle,
        hlatest, hphase⟩, ?_⟩
      · refine compareAuthority_eq_nil.mp ?_
        simpa using hexpected
      · simpa using henabled
      · exact ((FailoverPlan.settle.inj h).1).symm
    · exact absurd h planEvidence_undurable
  · rintro ⟨latest, h, rfl⟩
    obtain ⟨link, hlink, hgeneration⟩ := h.subject
    have hexpected : compareAuthority req.expected
        (e.currentAuthority req.subject req.subjectGeneration) = [] :=
      compareAuthority_eq_nil.mpr h.expected
    unfold planFailover
    rw [h.checked]
    dsimp only
    rw [h.fresh]
    unfold planSubject
    rw [hlink]
    dsimp only
    rw [if_neg (not_not.mpr hgeneration)]
    unfold planExpectation
    dsimp only
    rw [hexpected, h.enabled]
    unfold planAuthority
    rw [if_neg (by simp), if_neg (by simp), h.idle]
    unfold planRevalidation
    rw [h.latest]
    dsimp only
    rw [if_pos h.interrupted]
    rfl

/-! ## What a request writes -/

/-- What a request writes to the journal makes a change of the attempts durable. -/
structure JournalsChanges (e : Engine) (req : FailoverRequest) : Prop where
  quiet : (e.requestFailover req).1.state.attempts = e.state.attempts →
    (e.requestFailover req).1.journal = e.journal
  changed : (e.requestFailover req).1.state.attempts ≠ e.state.attempts →
    ∃ ws, ws ≠ [] ∧ Amends e.store ws (e.requestFailover req).1.store

/-- The request is going to bring a record to the journal that changes no attempt: the refusal of
the gate, the record of an attempt whose append is reported as a failure, or that of an attempt
that the full table has no room for. -/
inductive JournalsIdly (e : Engine) (req : FailoverRequest) : Prop
  | refused {latest : AttemptRecord} (available : e.unavailable = none)
      (gate : e.advance.AtGate req latest)
      (lands : e.store.lands (.decision (e.advance.gateDecision req latest)) = true)
  | lost {r : AttemptRecord} {rest : List Amendment}
      (first : e.amendments (.requestFailover req) = (.create, r) :: rest)
      (lands : e.store.lands (.attempt .create r) = true)
      (reported : e.store.accepts (.attempt .create r) = false)
  | dropped {r : AttemptRecord} {seq : LineageSeq}
      (only : e.amendments (.requestFailover req) = [(.create, r)])
      (accepted : e.store.accepts (.attempt .create r) = true)
      (next : e.state.lastSeq.next = some seq)
      (full : noted e.store.options e.state.attempts (createdAt r seq) = e.state.attempts)

theorem quiet_of_amends (h : Amends e.store [] (e.requestFailover req).1.store) :
    (e.requestFailover req).1.state.attempts = e.state.attempts := by
  obtain ⟨stamped, hs, ht⟩ := h.table
  obtain rfl : stamped = [] := by simpa using hs
  exact ht

/-- The attempts change only with records of theirs that are on the medium. -/
theorem requestFailover_changed
    (h : (e.requestFailover req).1.state.attempts ≠ e.state.attempts) :
    ∃ ws, ws ≠ [] ∧ Amends e.store ws (e.requestFailover req).1.store := by
  obtain ⟨done, -, hd, -⟩ := requestFailover_amends (e := e) req
  refine ⟨done, ?_, hd⟩
  rintro rfl
  exact h (quiet_of_amends hd)

/-- The first record of a request, when it does not get through. -/
theorem createAttempt_lost (h : e.store.StoreOk) (hok : (e.createAttempt a).2.isOk = false) :
    e.store.accepts (.attempt .create a) = false ∧
      ((e.createAttempt a).1.state.attempts = e.state.attempts) ∧
      (lineage (e.createAttempt a).1.medium.history = e.journal ↔
        e.store.lands (.attempt .create a) = false) := by
  refine ⟨?_, congrArg DurableState.attempts (commit_not_ok hok).2.1, commit_lineage_iff h⟩
  rw [← Bool.not_eq_true, ← commit_isOk_iff h]
  exact Bool.not_eq_true _ ▸ hok

/-- The first record of a request, when it gets through, makes the journal longer. -/
theorem createAttempt_longer (h : e.store.StoreOk) (hok : (e.createAttempt a).2.isOk = true)
    {s : LineageStore} (hs : (e.createAttempt a).1.medium.history <+: s.medium.history) :
    lineage s.medium.history ≠ e.journal := by
  intro heq
  have hsame := @commit_lineage_iff e.store (.attempt .create a)
    (fun seq d => d.noteAttempt e.store.options (createdAt a seq)) h
  have hl := hsame.mp (lineage_between commit_history hs heq)
  rw [lands_of_accepts ((commit_isOk_iff h).mp hok)] at hl
  cases hl

/-- Once its first record is written, a granted attempt is in the table. -/
theorem grant_changes (h : EngineOk wire e) (hf : e.store.failed = false)
    (hc : Creates e.state a) (hp : a.phase = .evaluated)
    (hok : (e.createAttempt a).2.isOk = true) :
    (e.execute req (.grant d a)).1.state.attempts ≠ e.state.attempts := by
  intro heq
  have hnew : ∀ x ∈ e.state.attempts, x.identity = a.identity → x.isTerminal = true :=
    fun x hx hid => creates_terminal h hf hc hx hid
  have h0 := (createAttempt_accepted h.store).mp hok
  by_cases h1 : e.store.acceptsAt 1 (.attempt .update { a with phase := .authorized }) = true
  · obtain ⟨⟨x, hx, hid, hphase, -⟩, -⟩ :=
      @execute_grant_written e req d a h.store h0 h1
    rw [heq] at hx
    have ht := hnew x hx hid
    rw [AttemptRecord.isTerminal, hphase] at ht
    cases ht
  · have hok1 : ((e.withWrite (e.createAttempt a)).updateAttempt .update
        { a with phase := .authorized }).2.isOk = false := by
      rw [← Bool.not_eq_true, authorizeAttempt_accepted h.store hok]
      exact h1
    obtain ⟨r, hr, -, htable⟩ := @writeAttempt_noted e .create a createdAt (fun _ => rfl) hok
    rw [execute, afterWrite_true hok, afterWrite_false hok1] at heq
    have hstate : ((e.withWrite (e.createAttempt a)).updateAttempt .update
        { a with phase := .authorized }).1.state = (e.createAttempt a).1.state :=
      (commit_not_ok hok1).2.1
    have hterm : r.isTerminal = false := by
      rw [AttemptRecord.isTerminal, phase_of_unstamped hr, hp]
      rfl
    have hx : r ∈ e.state.attempts := by
      rw [← heq]
      change r ∈ ((e.withWrite (e.createAttempt a)).updateAttempt .update
        { a with phase := .authorized }).1.state.attempts
      rw [hstate, createAttempt, htable]
      exact mem_noted_self hterm
    rw [hnew r hx (identity_of_unstamped hr)] at hterm
    cases hterm

/-- A request that is going to write no record of an attempt is idle only at the gate. -/
theorem journalsIdly_gate (hu : e.unavailable = none)
    (hnone : (e.advance.planFailover req).amendments = []) :
    e.JournalsIdly req ↔
      ∃ d, e.advance.planFailover req = .settle d true ∧ e.store.lands (.decision d) = true := by
  have ha := (@requestFailover_available e req hu).2.trans hnone
  constructor
  · rintro (⟨-, hgate, hl⟩ | ⟨hfirst, -, -⟩ | ⟨honly, -, -, -⟩)
    · exact ⟨_, planFailover_gate.mpr ⟨_, hgate, rfl⟩, hl⟩
    · rw [ha] at hfirst
      cases hfirst
    · rw [ha] at honly
      cases honly
  · rintro ⟨d, hplan, hl⟩
    obtain ⟨latest, hgate, rfl⟩ := planFailover_gate.mp hplan
    exact .refused hu hgate hl

/-- One that is going to write such a record is idle if the append of the record is. -/
theorem journalsIdly_first (hu : e.unavailable = none) {rest : List Amendment}
    (hfirst : (e.advance.planFailover req).amendments = (.create, a) :: rest) :
    e.JournalsIdly req ↔
      (e.store.lands (.attempt .create a) = true ∧ e.store.accepts (.attempt .create a) = false) ∨
      (rest = [] ∧ e.store.accepts (.attempt .create a) = true ∧
        ∃ seq, e.state.lastSeq.next = some seq ∧
          noted e.store.options e.state.attempts (createdAt a seq) = e.state.attempts) := by
  have ha := (@requestFailover_available e req hu).2.trans hfirst
  constructor
  · rintro (⟨-, hgate, -⟩ | ⟨hfirst', hl, hr⟩ | ⟨honly, hacc, hnext, hfull⟩)
    · rw [planFailover_gate.mpr ⟨_, hgate, rfl⟩] at hfirst
      cases hfirst
    · rw [ha] at hfirst'
      cases hfirst'
      exact .inl ⟨hl, hr⟩
    · rw [ha] at honly
      cases honly
      exact .inr ⟨rfl, hacc, _, hnext, hfull⟩
  · rintro (⟨hl, hr⟩ | ⟨rfl, hacc, seq, hnext, hfull⟩)
    · exact .lost ha hl hr
    · exact .dropped ha hacc hnext hfull

/-- A request that cannot write the first record of its attempt. -/
theorem quiet_lost (h : EngineOk wire e) (hu : e.unavailable = none) {rest : List Amendment}
    (hfirst : (e.advance.planFailover req).amendments = (.create, a) :: rest)
    (hok : (e.createAttempt a).2.isOk = false)
    (hstore : (e.requestFailover req).1.store = (e.createAttempt a).1) :
    ((e.requestFailover req).1.state.attempts = e.state.attempts →
      (e.requestFailover req).1.journal = e.journal) ↔ ¬e.JournalsIdly req := by
  obtain ⟨hacc, hsame, hj⟩ := createAttempt_lost h.store hok
  rw [journalsIdly_first hu hfirst, journal, state, hstore, hj, hacc]
  simp only [hsame, true_implies, Bool.false_eq_true, false_and, and_false, or_false, and_true,
    Bool.not_eq_true]

theorem quiet_record (h : EngineOk wire e) (hu : e.unavailable = none)
    (hplan : e.advance.planFailover req = .record d a) :
    ((e.requestFailover req).1.state.attempts = e.state.attempts →
      (e.requestFailover req).1.journal = e.journal) ↔ ¬e.JournalsIdly req := by
  have hfirst : (e.advance.planFailover req).amendments = [(.create, a)] := by
    rw [hplan]
    rfl
  have hexec := (@requestFailover_available e req hu).1
  rw [hplan, execute] at hexec
  cases hok : (e.createAttempt a).2.isOk with
  | false =>
    refine quiet_lost h hu hfirst hok ?_
    rw [hexec, @afterWrite_false e.advance (e.advance.createAttempt a) _ _ hok]
    rfl
  | true =>
    have hacc := (commit_isOk_iff h.store).mp hok
    obtain ⟨-, -, seq, hnext, -, hstate, -⟩ := commit_ok hok
    rw [@afterWrite_true e.advance (e.advance.createAttempt a) _ _ hok] at hexec
    have hlonger : (e.requestFailover req).1.journal ≠ e.journal := by
      refine createAttempt_longer h.store hok ?_
      rw [hexec]
      exact (@settleDurable_amends (e.advance.withWrite (e.createAttempt a)) d _).history
    have htable : (e.requestFailover req).1.state.attempts =
        noted e.store.options e.state.attempts (createdAt a seq) := by
      rw [hexec]
      refine (@settleDurable_attempts (e.advance.withWrite (e.createAttempt a)) d _).trans ?_
      change (e.createAttempt a).1.state.attempts = _
      rw [createAttempt, writeAttempt, hstate]
      rfl
    rw [journalsIdly_first hu hfirst, htable]
    constructor
    · rintro hq (⟨-, hr⟩ | ⟨-, -, seq', hnext', hfull⟩)
      · rw [hacc] at hr
        cases hr
      · obtain rfl : seq = seq' := Option.some.inj (hnext.symm.trans hnext')
        exact hlonger (hq hfull)
    · intro hn hfull
      exact absurd (.inr ⟨rfl, hacc, seq, hnext, hfull⟩) hn

theorem quiet_grant (h : EngineOk wire e) (hu : e.unavailable = none)
    (hplan : e.advance.planFailover req = .grant d a) :
    ((e.requestFailover req).1.state.attempts = e.state.attempts →
      (e.requestFailover req).1.journal = e.journal) ↔ ¬e.JournalsIdly req := by
  have hfirst : (e.advance.planFailover req).amendments =
      [(.create, a), (.update, { a with phase := .authorized })] := by
    rw [hplan]
    rfl
  have hexec := (@requestFailover_available e req hu).1
  rw [hplan] at hexec
  cases hok : (e.createAttempt a).2.isOk with
  | false =>
    refine quiet_lost h hu hfirst hok ?_
    rw [hexec, execute, @afterWrite_false e.advance (e.advance.createAttempt a) _ _ hok]
    rfl
  | true =>
    have hadvance : EngineOk wire e.advance := h.leads advance_leads
    have hf := not_failed_of_available h hu
    obtain ⟨-, hc, hp, -⟩ : PlanOk wire e.advance (.grant d a) :=
      hplan ▸ planFailover_ok (ready hadvance hf)
    have hchanges : (e.requestFailover req).1.state.attempts ≠ e.state.attempts := by
      rw [hexec]
      exact grant_changes hadvance hf hc hp hok
    refine iff_of_true (fun heq => absurd heq hchanges) ?_
    rw [journalsIdly_first hu hfirst]
    rintro (⟨-, hr⟩ | ⟨hnil, -⟩)
    · rw [(commit_isOk_iff h.store).mp hok] at hr
      cases hr
    · cases hnil

/-- A request that changes no attempt is not journaled, unless it is idle. -/
theorem quiet_iff (h : EngineOk wire e) (req : FailoverRequest) :
    ((e.requestFailover req).1.state.attempts = e.state.attempts →
      (e.requestFailover req).1.journal = e.journal) ↔ ¬e.JournalsIdly req := by
  cases hu : e.unavailable with
  | some s =>
    have hnone : e.amendments (.requestFailover req) = [] := by
      rw [amendments, hu]
      rfl
    have hsame : e.requestFailover req = (e, .error s) := by
      rw [requestFailover, hu]
    rw [hsame]
    refine iff_of_true (fun _ => rfl) ?_
    rintro (⟨havailable, -, -⟩ | ⟨hfirst, -, -⟩ | ⟨honly, -, -, -⟩)
    · rw [hu] at havailable
      cases havailable
    · rw [hnone] at hfirst
      cases hfirst
    · rw [hnone] at honly
      cases honly
  | none =>
    have hexec := (@requestFailover_available e req hu).1
    cases hplan : e.advance.planFailover req with
    | record d r => exact quiet_record h hu hplan
    | grant d r => exact quiet_grant h hu hplan
    | fail | replay =>
      rw [journalsIdly_gate hu (by rw [hplan]; rfl), hexec, hplan]
      exact iff_of_true (fun _ => rfl) (by simp)
    | settle d durable =>
      rw [journalsIdly_gate hu (by rw [hplan]; rfl), hexec, hplan, execute, settle]
      cases durable with
      | false => exact iff_of_true (fun _ => rfl) (by simp)
      | true =>
        rw [if_pos rfl, settleDurable_attempts]
        change (_ → _ = e.advance.journal) ↔ _
        rw [settleDurable_journal (show e.advance.store.StoreOk from h.store)]
        simp

end Engine

/-- In every reachable state, what a request writes to the journal makes a change of the attempts
durable, exactly if the request is not journaled idly. -/
theorem requests_journaled_iff {e : Engine} (h : Reachable e) (req : FailoverRequest) :
    e.JournalsChanges req ↔ ¬e.JournalsIdly req :=
  ⟨fun hj => (Engine.quiet_iff h.ok req).mp hj.quiet,
    fun hn => ⟨(Engine.quiet_iff h.ok req).mpr hn, Engine.requestFailover_changed⟩⟩

/-- Whether a request is turned away at the gate, with a record that the store takes. -/
def Sample.gated (e : Engine) : Bool :=
  e.unavailable.isNone &&
    match e.advance.planFailover (request ⟨1⟩) with
    | .settle d true => e.store.lands (.decision d)
    | _ => false

/-- A failover of a link whose attempt was interrupted is asked for again. The refusal is written,
though nothing of the attempts changes. -/
theorem gate_refusal_journaled : ¬∀ e, Reachable e → ∀ req, e.JournalsChanges req := by
  intro hall
  obtain ⟨e, he, hp⟩ := @System.of_reboot Sample.grantedOnce [] Sample.again Sample.gated
    (by decide +kernel)
  rw [Sample.gated, Bool.and_eq_true, Option.isNone_iff_eq_none] at hp
  obtain ⟨hu, hlands⟩ := hp
  split at hlands
  · rename_i d hplan
    have hidle := (Engine.journalsIdly_gate hu (by rw [hplan]; rfl)).mpr ⟨d, hplan, hlands⟩
    exact (Engine.quiet_iff (Reachable.ok ⟨_, he⟩) _).mp (hall e ⟨_, he⟩ _).quiet hidle
  · cases hlands

/-- A failover is granted, and the journal has its attempt. When it is asked for again, the attempt
holds authority: nothing changes, and nothing is written. -/
theorem requests_journaled_sample : ∃ e, Reachable e ∧ e.JournalsChanges (Sample.request ⟨1⟩) ∧
    (e.requestFailover (Sample.request ⟨1⟩)).1.state.attempts ≠ e.state.attempts ∧
    let e' := (e.requestFailover (Sample.request ⟨1⟩)).1
    (e'.requestFailover (Sample.request ⟨1⟩)).1.state.attempts = e'.state.attempts ∧
      (e'.requestFailover (Sample.request ⟨1⟩)).1.journal = e'.journal := by
  obtain ⟨e, he, hp⟩ := @System.of_serves (System.run (Sample.booted {} {}))
    (fun e : Engine =>
      ((decide ((e.amendments (.requestFailover (Sample.request ⟨1⟩))).length = 2) &&
        (e.amendments (.requestFailover (Sample.request ⟨1⟩))).all
          fun x => e.store.accepts (.attempt .create x.2)) &&
      decide ((e.requestFailover (Sample.request ⟨1⟩)).1.state.attempts ≠ e.state.attempts)) &&
      (fun e' : Engine => (e'.amendments (.requestFailover (Sample.request ⟨1⟩))).isEmpty &&
        (e'.state.activeAuthority Sample.primary ⟨1⟩).isSome)
          (e.requestFailover (Sample.request ⟨1⟩)).1)
    (by decide +kernel)
  simp only [Bool.and_eq_true, decide_eq_true_eq, List.all_eq_true, List.isEmpty_iff] at hp
  obtain ⟨⟨⟨htwo, hacc⟩, hchanged⟩, hnone, hactive⟩ := hp
  have hreach : Reachable (e.requestFailover (Sample.request ⟨1⟩)).1 :=
    Reachable.perform ⟨_, he⟩ (.requestFailover (Sample.request ⟨1⟩))
  refine ⟨e, ⟨_, he⟩, (requests_journaled_iff ⟨_, he⟩ _).mpr ?_, hchanged, ?_⟩
  · rintro (⟨hu, hgate, -⟩ | ⟨hfirst, -, hr⟩ | ⟨honly, -, -, -⟩)
    · rw [(Engine.requestFailover_available hu).2,
        Engine.planFailover_gate.mpr ⟨_, hgate, rfl⟩] at htwo
      cases htwo
    · rw [hfirst] at hacc
      rw [hacc _ List.mem_cons_self] at hr
      cases hr
    · rw [honly] at htwo
      cases htwo
  · generalize (e.requestFailover (Sample.request ⟨1⟩)).1 = e' at hnone hactive hreach
    have hamended : e'.amended (.requestFailover (Sample.request ⟨1⟩)) = [] :=
      List.prefix_nil.mp (hnone ▸
        (@Engine.amended_begins e' (.requestFailover (Sample.request ⟨1⟩)) (by simp)).1)
    have hsame := Engine.attempts_of_amended_nil (.requestFailover (Sample.request ⟨1⟩)) (by simp)
      hamended
    refine ⟨hsame, ((requests_journaled_iff hreach _).mpr ?_).quiet hsame⟩
    rintro (⟨-, hgate, -⟩ | ⟨hfirst, -, -⟩ | ⟨honly, -, -, -⟩)
    · have hidle : e'.state.activeAuthority Sample.primary ⟨1⟩ = none := hgate.idle
      rw [hidle] at hactive
      cases hactive
    · rw [hnone] at hfirst
      cases hfirst
    · rw [hnone] at honly
      cases honly

end LinkFailover
