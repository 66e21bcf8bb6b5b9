import LinkFailover.Acceptance
import LinkFailover.Readback

/-!
# What a checkpoint keeps

A checkpoint that succeeds leaves the whole state in the snapshot and a journal that begins behind
it. The writer of the snapshot has no bound, the reader has one, and a state of many idempotency
entries is above it. The writer also takes any number for an enumeration, and the reader the declared
ones alone.

* `Restores`: an open leads back to a state.
* `checkpoint_restores`: which checkpoints are read back.
-/

namespace LinkFailover

open Codec

/-! ## Checkpoints that succeed -/

/-- A checkpoint that succeeds replaces both files and records itself. -/
theorem checkpoint_ok {s : LineageStore} {covers : LineageSeq} (h : s.checkpoint.2 = .ok covers) :
    s.failed = false ∧ ∃ payload c, s.state.serialise = .ok payload ∧
      s.checkpoint.1 =
        ((s.rotated (frameSnapshot payload)).commit (.checkpoint c) fun _ d => d).1 ∧
      ((s.rotated (frameSnapshot payload)).commit (.checkpoint c) fun _ d => d).2.isOk = true := by
  revert h
  unfold LineageStore.checkpoint
  by_cases hf : s.failed = true
  · rw [if_pos hf]
    exact fun h => by cases h
  rw [if_neg hf]
  cases hs : s.state.serialise with
  | error e => exact fun h => by cases h
  | ok payload =>
    dsimp only
    cases hfault : s.medium.nextCheckpointFault with
    | some f => cases f <;> exact fun h => by cases h
    | none =>
      have hopen := LineageStore.openFile_existing (Nat.le_refl s.state.lastSeq.toNat) [] none
      rw [List.append_nil] at hopen
      dsimp only
      rw [LineageStore.staged_none, LineageStore.recordCheckpoint]
      dsimp only [LineageStore.rotate, LineageStore.withDirectory, Medium.log]
      rw [hopen]
      intro h
      refine ⟨by simpa using hf, payload, _, rfl, rfl, ?_⟩
      dsimp only at h
      split at h
      · assumption
      · cases h

/-- The disk behind a checkpoint that succeeded. -/
theorem checkpoint_disk {s : LineageStore} {covers : LineageSeq}
    (h : s.checkpoint.2 = .ok covers) : s.checkpoint.1.failed = false ∧ ∃ seq c,
      s.state.lastSeq.next = some seq ∧
      s.checkpoint.1.disk =
        { snapshot := some s.state, base := s.state.lastSeq, records := [(seq, .checkpoint c)] } := by
  obtain ⟨-, payload, c, -, he, hok⟩ := checkpoint_ok h
  obtain ⟨-, hf, seq, hnext, -, -, -, hhistory⟩ := commit_ok hok
  rw [he]
  refine ⟨hf, seq, c, hnext, ?_⟩
  rw [LineageStore.disk, hhistory, Disk.ofHistory_append,
    show (s.rotated (frameSnapshot payload)).medium.history =
      s.medium.history ++ [.checkpointed s.state true] from rfl, Disk.ofHistory_append]
  rfl

/-! ## Reading back -/

/-- An open leads back to a state, at whatever position. -/
def Restores (o : StoreOptions) (m : Medium) (d : DurableState) : Prop :=
  ∃ s, (LineageStore.openStore o m).2 = .ok s ∧ { s.state with lastSeq := d.lastSeq } = d

/-- The options of an open name the fabric of a state and pass their checks. -/
structure StoreOptions.Suits (o : StoreOptions) (d : DurableState) : Prop where
  policy : o.policy.validate.isOk = true
  topology : o.topology.validate.isOk = true
  fabric : o.fabric = d.fabric

/-- A journal of one record is far below the bound of the reader. -/
theorem journal_single {k : Disk} {x : Entry} (hk : k.records = [x])
    (h : ∀ r ∈ k.views, r.Fits) :
    (buildJournalHeader k.base ++ k.views.flatMap frame).length ≤ kMaxJournalBytes := by
  have hv : k.views = [x.2.record x.1] := by rw [Disk.views, hk]; rfl
  rw [hv] at h ⊢
  have hx : (x.2.record x.1).payload.length ≤ kMaxRecordPayload := h _ List.mem_cons_self
  rw [List.length_append, buildJournalHeader_length, List.flatMap_cons, List.flatMap_nil,
    List.append_nil, frame_length, kJournalHeaderSize, kRecordHeaderSize, kMaxJournalBytes]
  rw [kMaxRecordPayload] at hx
  omega

section Reading

variable {e : Engine} {covers : LineageSeq} {o : StoreOptions}

/-- The directory behind a checkpoint that succeeded stands for its state. -/
theorem checkpoint_represents (h : Reachable e) (hc : e.store.checkpoint.2 = .ok covers) :
    ∃ k, k.snapshot = some e.state ∧ k.base = k.covered ∧ k.opened o = .ok (e.state, []) ∧
      Represents e.store.checkpoint.1.medium.calm.directory k ∧
      e.store.checkpoint.1.medium.calm.directory.journal =
        some (buildJournalHeader k.base ++ k.views.flatMap frame) ∧
      (buildJournalHeader k.base ++ k.views.flatMap frame).length ≤ kMaxJournalBytes := by
  obtain ⟨hf, seq, c, -, hdisk⟩ := checkpoint_disk hc
  have hok : e.store.checkpoint.1.StoreOk := h.ok.store.checkpoint
  have hsync := hok.synced hf
  refine ⟨e.store.checkpoint.1.disk, by rw [hdisk]; rfl, hsync.base, by rw [hdisk]; rfl,
    hok.represents, hsync.journal, journal_single (by rw [hdisk]) hsync.fits⟩

theorem checkpoint_stateOk (h : Reachable e) (hc : e.store.checkpoint.2 = .ok covers) :
    StateOk (lineage e.store.medium.history) e.state :=
  (Engine.ok_trace h.ok (checkpoint_ok hc).1).stateOk

theorem restores_asks (h : Reachable e) (hc : e.store.checkpoint.2 = .ok covers)
    (hr : Restores o e.store.checkpoint.1.medium.calm e.state) :
    (frameSnapshot (e.state.encode {}).buffer).length ≤ kMaxSnapshotBytes ∧ e.state.Declared := by
  obtain ⟨k, hk, -, -, hrep, -⟩ := @checkpoint_represents e covers o h hc
  obtain ⟨t, ht, -⟩ := hr
  have hopen : LineageStore.openStore o e.store.checkpoint.1.medium.calm =
      ((LineageStore.openStore o e.store.checkpoint.1.medium.calm).1, .ok t) := by rw [← ht]
  obtain ⟨hs, -⟩ := LineageStore.openStore_ok hrep (fun d hd => by
    rw [hk] at hd
    cases hd
    exact (checkpoint_stateOk h hc).sound) hopen
  exact ⟨(hs _ hk).size, (hs _ hk).declared⟩

theorem restores_of (h : Reachable e) (hc : e.store.checkpoint.2 = .ok covers)
    (ho : o.Suits e.state)
    (hl : (frameSnapshot (e.state.encode {}).buffer).length ≤ kMaxSnapshotBytes)
    (hd : e.state.Declared) :
    Restores o e.store.checkpoint.1.medium.calm e.state := by
  obtain ⟨k, hk, hbase, hreplay, hrep, hjournal, hsize⟩ := @checkpoint_represents e covers o h hc
  have hs := checkpoint_stateOk h hc
  obtain ⟨m', d, events, hopened, hopen⟩ := LineageStore.openStore_accepts hrep
    (fun d hd => by
      rw [hk] at hd
      cases hd
      exact hs.sound)
    { policy := ho.policy
      topology := ho.topology
      restorable := by
        intro d hd
        rw [hk] at hd
        cases hd
        exact ⟨hl, hd, ho.fabric.symm, hs.policy, hs.topology⟩
      base := hbase
      size := by
        intro file hfile
        cases hjournal.symm.trans hfile
        exact hsize
      repair := .inr hjournal
      fault := rfl
      replay := ⟨_, hreplay⟩ }
  cases hreplay.symm.trans hopened
  exact ⟨_, congrArg Prod.snd hopen, rfl⟩

/-- A checkpoint that succeeds is read back exactly when its snapshot is within the bound of the
reader and the state holds no number outside an enumeration: neither the agreement rule of its
policy, which no validation looks at, nor the verdict of a revalidation. -/
theorem checkpoint_restores (h : Reachable e) (hc : e.store.checkpoint.2 = .ok covers)
    (ho : o.Suits e.state) :
    Restores o e.store.checkpoint.1.medium.calm e.state ↔
      (frameSnapshot (e.state.encode {}).buffer).length ≤ kMaxSnapshotBytes ∧
        e.state.Declared :=
  ⟨restores_asks h hc, fun hr => restores_of h hc ho hr.1 hr.2⟩

end Reading

/-! ## A state above the bound -/

namespace Pile

/-- A process that keeps no attempt that is over and almost every idempotency entry. -/
def options : EngineOptions :=
  { Sample.options {} { maxAttempts := 0, maxIdempotency := 2000000 } with enableSnapshot := false }

def key (n : Nat) : Digest := ⟨1 :: leBytes 31 n, by rw [List.length_cons, leBytes_length]⟩

/-- A request about a link of which nobody has reported anything. -/
def request (n : Nat) : FailoverRequest where
  subject := Sample.primary
  subjectGeneration := ⟨1⟩
  idempotencyKey := key n

theorem key_isZero (n : Nat) : (key n).isZero = false := rfl

theorem key_inj {m n : Nat} (hm : m < 2000000) (hn : n < 2000000) (h : key m = key n) : m = n := by
  have hb := congrArg FixedBytes.bytes h
  have hv := congrArg leValue (List.cons.inj hb).2
  rwa [leValue_leBytes, leValue_leBytes, Nat.mod_eq_of_lt (by omega),
    Nat.mod_eq_of_lt (by omega)] at hv

/-- A process behind `n` of these requests. -/
structure Piled (n : Nat) (e : Engine) : Prop where
  reachable : Reachable e
  closed : e.closed = false
  storeFailed : e.storeFailed = false
  options : e.options = Pile.options
  policy : e.state.policy = Pile.options.policy
  topology : e.state.topology = Pile.options.topology
  attempts : e.state.attempts = []
  evidence : e.failureEvidence = .empty
  running : e.store.failed = false
  faults : e.store.medium.appendFaults = []
  checkpointFaults : e.store.medium.checkpointFaults = []
  seq : e.state.lastSeq.toNat = 3 * n + 1
  size : e.state.idempotency.length = n
  keys : ∀ x ∈ e.state.idempotency, ∃ m < n, x.key = key m

variable {n : Nat} {e : Engine}

theorem Piled.roomy (h : Piled n e) (hn : n < 2000000) : e.store.Roomy 3 where
  ok := h.reachable.ok.store
  running := h.running
  faults := h.faults
  room := by
    have := h.seq
    change e.state.lastSeq.toNat + 3 < 2 ^ 64
    omega

theorem Piled.fresh (h : Piled n e) (hn : n < 2000000) :
    e.state.findIdempotency (key n) = none := by
  rw [DurableState.findIdempotency, if_neg (by simp [key_isZero]), List.find?_eq_none]
  intro x hx hk
  obtain ⟨m, hm, hxm⟩ := h.keys x hx
  rw [decide_eq_true_eq, hxm] at hk
  have := key_inj (by omega) hn hk
  omega

/-- Nothing is known of the link, so that the attempt ends where it begins. -/
theorem Piled.plan (h : Piled n e) (hn : n < 2000000) :
    ∃ d r, e.advance.planFailover (request n) = .record d r ∧ r.isTerminal = true ∧
      d.candidates = [] ∧ d.reasons.length ≤ 2 := by
  have hcheck : e.advance.checkRequest (request n) = none := by
    unfold Engine.checkRequest
    rw [show e.advance.options = Pile.options from h.options,
      show e.advance.state.policy = Pile.options.policy from h.policy]
    rfl
  have hlink : e.advance.state.topology.find (request n).subject =
      some ⟨Sample.primary, ⟨1⟩, 10⟩ := by
    rw [show e.advance.state.topology = Pile.options.topology from h.topology]
    change Pile.options.topology.find Sample.primary = _
    decide
  have hattempts : e.advance.state.attempts = [] := h.attempts
  have hactive : e.advance.state.activeAuthority (request n).subject
      (request n).subjectGeneration = none := by
    rw [DurableState.activeAuthority, hattempts]
    rfl
  have hlatest : e.advance.state.latestAttempt (request n).subject
      (request n).subjectGeneration = none := by
    rw [DurableState.latestAttempt, hattempts]
    rfl
  have hverdict : e.advance.evaluateFailure (request n).subject (request n).subjectGeneration =
      { outcome := .unknown
        reason := .evidenceMissing
        detail := text "no failure observation has been published for this link" } := by
    have hbucket : e.advance.failureBucket (request n).subject = [] := by
      rw [Engine.failureBucket, show e.advance.failureEvidence = .empty from h.evidence]
      rfl
    rw [Engine.evaluateFailure, hbucket]
    rfl
  have hbudget : e.advance.withinBudget (request n) = true := by
    rw [Engine.withinBudget, Engine.attemptCount, DurableState.countAttempts, hattempts,
      show e.advance.state.policy = Pile.options.policy from h.policy]
    rfl
  unfold Engine.planFailover
  rw [hcheck, show e.advance.state.findIdempotency (request n).idempotencyKey = none from
    h.fresh hn]
  dsimp only
  unfold Engine.planSubject
  rw [hlink]
  dsimp only
  rw [if_neg (show ¬ (⟨1⟩ : LinkGeneration) ≠ (request n).subjectGeneration from not_not.mpr rfl)]
  unfold Engine.planExpectation
  dsimp only
  rw [if_neg (by simp [request, compareAuthority, mismatchOf]),
    show e.advance.state.policy = Pile.options.policy from h.policy, if_neg (by decide)]
  unfold Engine.planAuthority
  rw [hactive]
  dsimp only
  unfold Engine.planRevalidation
  rw [hlatest]
  dsimp only
  unfold Engine.planEvidence
  rw [hverdict]
  dsimp only
  rw [if_pos (by decide)]
  unfold Engine.planUnestablished Engine.closeAttempt
  rw [if_pos hbudget]
  exact ⟨_, _, rfl, rfl, rfl, Nat.le_succ 1⟩

theorem withWrite_ok {written : LineageStore × Status} (h : written.2.isOk = true) :
    e.withWrite written = { e with store := written.1 } := by
  rw [Engine.withWrite, h, Bool.not_true, Bool.or_false]

/-- The decision of such a request and its entry, on a medium that does not fail. -/
theorem settled {d : FailoverDecision} {k : Digest} (hroom : e.store.Roomy 2)
    (hz : k.isZero = false) (hc : d.candidates = []) (hr : d.reasons.length ≤ 2)
    (hsnap : e.options.enableSnapshot = false) :
    ∃ x seq, x.key = k ∧ seq.toNat = e.state.lastSeq.toNat + 2 ∧
      ∃ store, store.Roomy 0 ∧
        store.medium.checkpointFaults = e.store.medium.checkpointFaults ∧
        store.state =
          { e.state with
            idempotency := evictIdempotency e.store.options (e.state.idempotency ++ [x])
            lastSeq := seq
            recordCount := e.state.recordCount + 1 + 1 } ∧
        ∃ decisions, (e.settleDurable d k).1 =
          { e with store := store, decisions := decisions } := by
  obtain ⟨hok₁, hroom₁, seq₁, hseq₁, hstate₁, hopt₁⟩ := hroom.commit
    (FailoverDecision.fits (Nat.le_trans hr (by decide)) (by rw [hc]; exact Nat.zero_le _))
    (fun _ s => s)
  obtain ⟨d', hd', hreasons, hdurable⟩ : ∃ d', (e.commitDecision d).2 = d' ∧
      d'.reasons = d.reasons ∧ d'.durable = true := by
    refine ⟨_, rfl, ?_⟩
    rw [Engine.commitDecision, if_neg (by simp [hok₁])]
    exact ⟨rfl, rfl⟩
  have hsmall := IdempotencyEntry.small (x := Engine.idempotencyEntry d' k) (by
    change d'.reasons.length ≤ 2
    rwa [hreasons])
  have he₁ : (e.commitDecision d).1 =
      { e with store := (e.store.commit (.decision d) fun _ s => s).1 } := by
    rw [Engine.commitDecision_store, withWrite_ok hok₁]
  have hfaults₁ : (e.store.commit (.decision d) fun _ s => s).1.medium.checkpointFaults = _ :=
    commit_checkpointFaults
  revert hroom₁ hstate₁ hopt₁ he₁ hfaults₁
  generalize (e.store.commit (.decision d) fun _ s => s).1 = s₁
  intro hroom₁ hstate₁ hopt₁ he₁ hfaults₁
  obtain ⟨hok₂, hroom₂, seq₂, hseq₂, hstate₂, -⟩ := hroom₁.commit
    (p := .idempotency (Engine.idempotencyEntry d' k)) (fun seq => Nat.le_trans hsmall (by decide))
    (fun _ s => s.noteIdempotency s₁.options (Engine.idempotencyEntry d' k))
  refine ⟨Engine.idempotencyEntry d' k, seq₂, rfl, ?_, _, hroom₂,
    commit_checkpointFaults.trans hfaults₁, ?_, ?_⟩
  · rw [hseq₂, hstate₁]
    change seq₁.toNat + 1 = _
    rw [hseq₁]
    rfl
  · rw [hstate₂, hstate₁, hopt₁]
    rfl
  · have hentry : (e.commitDecision d).1.commitIdempotency (e.commitDecision d).2 k =
        { e with store := (s₁.commit (.idempotency (Engine.idempotencyEntry d' k)) fun _ s =>
            s.noteIdempotency s₁.options (Engine.idempotencyEntry d' k)).1 } := by
      rw [hd', he₁, Engine.commitIdempotency, if_neg (by simp [hz, hdurable])]
      dsimp only
      rw [if_neg (Nat.not_lt_of_le hsmall)]
      exact withWrite_ok hok₂
    unfold Engine.settleDurable
    dsimp only
    rw [hentry, Engine.maybeCheckpoint, if_pos (by simp [hsnap])]
    exact ⟨_, rfl⟩

/-- Nothing is kept of an attempt that is over. -/
theorem evictAttempts_single {o : StoreOptions} {r : AttemptRecord} (ho : o.maxAttempts = 0)
    (hr : r.isTerminal = true) : evictAttempts o (upsertAttempt r []) = [] := by
  rw [upsertAttempt, BoundedTable.upsert, evictAttempts, ho, BoundedTable.evict, if_neg (by simp)]
  simp [BoundedTable.trim, BoundedTable.sortBy, hr]

theorem Piled.next (h : Piled n e) (hn : n + 1 < 2000000) :
    Piled (n + 1) (e.requestFailover (request n)).1 := by
  obtain ⟨d, r, hplan, hterminal, hc, hr⟩ := h.plan (by omega)
  have hopt : e.store.options = Pile.options.store := by rw [h.reachable.ok.options, h.options]
  obtain ⟨hok, hroom, seq, hseq, hstate, hopt₁⟩ := (h.roomy (by omega)).commit
    (AttemptRecord.fits .create r)
    (fun seq d => d.noteAttempt e.store.options (Engine.createdAt r seq))
  have hattempts : evictAttempts e.store.options
      (upsertAttempt (Engine.createdAt r seq) e.state.attempts) = [] := by
    rw [h.attempts]
    exact evictAttempts_single (by rw [hopt]; rfl) hterminal
  -- the engine behind the attempt
  have hwritten : e.advance.withWrite (e.advance.createAttempt r) =
      { e.advance with store := (e.store.commit (.attempt .create r) fun seq d =>
          d.noteAttempt e.store.options (Engine.createdAt r seq)).1 } := by
    exact withWrite_ok hok
  have hexec : e.requestFailover (request n) =
      ({ e.advance with store := (e.store.commit (.attempt .create r) fun seq d =>
          d.noteAttempt e.store.options (Engine.createdAt r seq)).1 } : Engine).settleDurable d
        (key n) := by
    rw [Engine.requestFailover, Engine.unavailable, h.closed, h.storeFailed]
    simp only [Bool.false_eq_true, if_false]
    rw [hplan, Engine.execute, Engine.afterWrite, hwritten,
      show (e.advance.createAttempt r).2.isOk = true from hok]
    rfl
  have hreach := h.reachable.perform (.requestFailover (request n))
  change Reachable (e.requestFailover (request n)).1 at hreach
  have hfaults : (e.store.commit (.attempt .create r) fun seq d =>
      d.noteAttempt e.store.options (Engine.createdAt r seq)).1.medium.checkpointFaults = [] :=
    commit_checkpointFaults.trans h.checkpointFaults
  revert hroom hstate hopt₁ hexec hfaults
  generalize (e.store.commit (.attempt .create r) fun seq d =>
    d.noteAttempt e.store.options (Engine.createdAt r seq)).1 = s₁
  intro hroom hstate hopt₁ hexec hfaults
  obtain ⟨x, seq₂, hx, hseq₂, s₂, hroom₂, hfaults₂, hstate₂, decisions, he⟩ :=
    @settled { e.advance with store := s₁ } d (key n) hroom (key_isZero n) hc hr
      (congrArg EngineOptions.enableSnapshot h.options)
  rw [← hexec] at he
  have hs₁ : s₁.state.idempotency = e.state.idempotency := by rw [hstate]; rfl
  have hindex : evictIdempotency s₁.options (s₁.state.idempotency ++ [x]) =
      e.state.idempotency ++ [x] := by
    rw [hs₁, evictIdempotency, if_pos]
    rw [hopt₁, hopt, List.length_append, h.size]
    change n + 1 ≤ 2000000
    omega
  have hs₂ : s₂.state =
      { s₁.state with
        idempotency := e.state.idempotency ++ [x]
        lastSeq := seq₂
        recordCount := s₁.state.recordCount + 1 + 1 } := by
    exact hstate₂.trans (congrArg (fun entries => ({ s₁.state with
      idempotency := entries
      lastSeq := seq₂
      recordCount := s₁.state.recordCount + 1 + 1 } : DurableState)) hindex)
  rw [he] at hreach ⊢
  refine ⟨hreach, h.closed, h.storeFailed, h.options, ?_, ?_, ?_, h.evidence, hroom₂.running,
    hroom₂.faults, hfaults₂.trans hfaults, ?_, ?_, ?_⟩
  · change s₂.state.policy = _
    rw [hs₂, hstate]
    exact h.policy
  · change s₂.state.topology = _
    rw [hs₂, hstate]
    exact h.topology
  · change s₂.state.attempts = _
    rw [hs₂, hstate]
    exact hattempts
  · change s₂.state.lastSeq.toNat = _
    rw [hs₂]
    change seq₂.toNat = _
    rw [hseq₂]
    change s₁.state.lastSeq.toNat + 2 = _
    rw [hstate]
    change seq.toNat + 2 = _
    rw [hseq]
    change e.state.lastSeq.toNat + 1 + 2 = _
    rw [h.seq]
    omega
  · change s₂.state.idempotency.length = _
    rw [hs₂, List.length_append, h.size]
    rfl
  · change ∀ y ∈ s₂.state.idempotency, _
    rw [hs₂]
    intro y hy
    rcases List.mem_append.mp hy with hm | hm
    · obtain ⟨m, hm, hk⟩ := h.keys y hm
      exact ⟨m, by omega, hk⟩
    · exact ⟨n, by omega, by rw [List.mem_singleton.mp hm, hx]⟩

theorem piled (n : Nat) (hn : n < 2000000) : ∃ e, Piled n e := by
  induction n with
  | zero =>
    obtain ⟨e, he, hp⟩ := @System.of_serves
      (System.run [.start { options := Pile.options, incarnation := Sample.incarnation 1 }])
      (fun e => !e.closed && !e.storeFailed && !e.store.failed &&
        decide (e.state.policy = Pile.options.policy) &&
        decide (e.state.topology = Pile.options.topology) && e.state.attempts.isEmpty &&
        e.store.medium.appendFaults.isEmpty && e.store.medium.checkpointFaults.isEmpty &&
        decide (e.state.lastSeq = ⟨1⟩) && e.state.idempotency.isEmpty) (by decide +kernel)
    simp only [Bool.and_eq_true, Bool.not_eq_true', decide_eq_true_eq, List.isEmpty_iff] at hp
    obtain ⟨⟨⟨⟨⟨⟨⟨⟨⟨hclosed, hsf⟩, hf⟩, hpol⟩, htop⟩, hatt⟩, hfaults⟩, hcf⟩, hseq⟩, hidem⟩ := hp
    have hopen : (Engine.openEngine Pile.options (Sample.incarnation 1) {} {}).2 = .ok e := by
      have hstep : System.step (.down {})
        (.start { options := Pile.options, incarnation := Sample.incarnation 1 }) = .up e := he
      rw [System.step] at hstep
      split at hstep
      · cases hstep
      · rename_i hopened
        cases hstep
        exact congrArg Prod.snd hopened
    obtain ⟨s, -, epoch, -, hnew⟩ := openEngine_new hopen
    exact ⟨e,
      { reachable := ⟨_, he⟩
        closed := hclosed
        storeFailed := hsf
        options := by rw [hnew]
        policy := hpol
        topology := htop
        attempts := hatt
        evidence := by rw [hnew]
        running := hf
        faults := hfaults
        checkpointFaults := hcf
        seq := by rw [hseq]; rfl
        size := by rw [hidem]; rfl
        keys := by simp [hidem] }⟩
  | succ n ih =>
    obtain ⟨e, h⟩ := ih (by omega)
    exact ⟨_, h.next hn⟩

end Pile

/-- A checkpoint on a medium that does not fail succeeds, however large the state is. -/
theorem checkpoint_roomy {s : LineageStore} (h : s.Roomy 1) {payload : Bytes}
    (hs : s.state.serialise = .ok payload) (hfault : s.medium.checkpointFaults = []) :
    ∃ covers, s.checkpoint.2 = .ok covers := by
  have hopen := LineageStore.openFile_existing (Nat.le_refl s.state.lastSeq.toNat) [] none
  rw [List.append_nil] at hopen
  have hroom : (s.rotated (frameSnapshot payload)).Roomy 1 :=
    ⟨LineageStore.StoreOk.rotated hs, h.running, h.faults, h.room⟩
  unfold LineageStore.checkpoint
  rw [if_neg (by simp [h.running]), hs]
  dsimp only
  rw [Medium.nextCheckpointFault, hfault]
  dsimp only [List.head?_nil, Option.join_none]
  rw [LineageStore.staged_none, LineageStore.recordCheckpoint]
  dsimp only [LineageStore.rotate, LineageStore.withDirectory, Medium.log]
  rw [hopen]
  exact ⟨_, if_pos (hroom.commit (CheckpointPayload.fits _) (fun _ d => d)).1⟩

/-- A million idempotency entries are more than an open reads back. -/
theorem checkpoint_not_restored : ¬ ∀ (e : Engine) (covers : LineageSeq) (o : StoreOptions),
    Reachable e → e.store.checkpoint.2 = .ok covers → o.Suits e.state →
    Restores o e.store.checkpoint.1.medium.calm e.state := by
  intro hall
  obtain ⟨e, h⟩ := Pile.piled 1000001 (by decide)
  have hs := (Engine.ok_trace h.reachable.ok h.running).stateOk
  obtain ⟨covers, hc⟩ := checkpoint_roomy ((h.roomy (by decide)).mono (by decide))
    (DurableState.serialise_ok hs.sound) h.checkpointFaults
  have hr := hall e covers { Pile.options.store with fabric := e.state.fabric } h.reachable hc
    ⟨show Pile.options.policy.validate.isOk = true by decide,
      show Pile.options.topology.validate.isOk = true by decide, rfl⟩
  have hsize := (restores_asks h.reachable hc hr).1
  rw [frameSnapshot_length] at hsize
  have hfew := (hs.sound.counted (by rw [kMaxSnapshotBytes] at hsize; omega)).idempotency
  rw [h.size] at hfew
  exact absurd hfew (by decide)

/-- A failover is granted under an idempotency key and revoked by a new policy, which leaves an
attempt, a fence and an entry of the index for the checkpoint. -/
theorem checkpoint_restores_sample : ∃ (e : Engine) (covers : LineageSeq), Reachable e ∧
    e.store.checkpoint.2 = .ok covers ∧
    (e.state.attempts.length = 1 ∧ e.state.fences.length = 1 ∧ e.state.idempotency.length = 1) ∧
    Restores (Sample.options {} {}).store e.store.checkpoint.1.medium.calm e.state := by
  let actions := Sample.booted {} {} ++
    [.perform (.requestFailover { Sample.request ⟨1⟩ with idempotencyKey := Pile.key 1 }),
      .perform (.setPolicy { generation := ⟨2⟩ })]
  obtain ⟨e, he, hp⟩ := @System.of_serves (System.run actions)
    (fun e => e.store.checkpoint.2.isOk && decide ((Sample.options {} {}).fabric = e.state.fabric) &&
      decide ((frameSnapshot (e.state.encode {}).buffer).length ≤ kMaxSnapshotBytes) &&
      decide (WireEnum.Declared e.state.policy.agreement) &&
      e.state.attempts.all (fun r => decide (WireEnum.Declared r.revalidation)) &&
      decide (e.state.attempts.length = 1 ∧ e.state.fences.length = 1 ∧
        e.state.idempotency.length = 1))
    (by decide +kernel)
  simp only [Bool.and_eq_true, decide_eq_true_eq, List.all_eq_true] at hp
  obtain ⟨⟨⟨⟨⟨hok, hfabric⟩, hsize⟩, hrule⟩, hverdicts⟩, htables⟩ := hp
  cases hc : e.store.checkpoint.2 with
  | error _ =>
    rw [hc] at hok
    cases hok
  | ok covers =>
    exact ⟨e, covers, ⟨_, he⟩, hc, htables,
      (checkpoint_restores ⟨_, he⟩ hc ⟨by decide, by decide, hfabric⟩).mpr
        ⟨hsize, hrule, hverdicts⟩⟩

end LinkFailover
