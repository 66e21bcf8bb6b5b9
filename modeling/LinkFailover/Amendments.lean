import LinkFailover.System

/-!
# What an operation does to the attempts

The attempt records that an operation is going to commit are read off the state it finds. The
appends may fail, and then it commits the first ones of them only. Decisions, idempotency entries,
fences, definitions and checkpoints leave the table of attempts alone.

* `Amends`: the records that were committed between two stores, and the table behind them.
* `perform_amends`: every operation but the close commits some first ones of its amendments.
* `commit_isOk_iff`: when an append succeeds.
-/

namespace LinkFailover

open Codec

/-! ## Appends that succeed -/

instance (r : JournalRecord) : Decidable r.Fits := inferInstanceAs (Decidable (_ ≤ _))

/-- Whether the next commit of a payload succeeds: the store has not failed, there is a next
position, the payload is within its bound, and the medium does not fail. -/
def LineageStore.accepts (s : LineageStore) (p : Payload) : Bool :=
  !s.failed && s.medium.nextFault.isNone &&
    match s.state.lastSeq.next with
    | none => false
    | some seq => decide (p.record seq).Fits

/-- A writer in step with its journal appends exactly what fits, unless the medium fails. -/
theorem append_isOk_iff {w : JournalWriter} (hw : w.failed = false) {file : Bytes} {fault : Fault}
    {r : JournalRecord} (hseq : w.lastSeq < r.seq) :
    (w.append file fault r).2.2.isOk = true ↔ fault = none ∧ r.Fits := by
  by_cases hfits : r.Fits
  · cases fault with
    | none =>
      rw [append_next hw file hfits hseq]
      exact iff_of_true rfl ⟨rfl, hfits⟩
    | some n =>
      rw [JournalWriter.append, if_neg (by simp [hw]), if_neg (Nat.not_lt_of_le hfits),
        if_neg (not_not.mpr hseq)]
      refine iff_of_false ?_ (by simp)
      change ¬ (JournalWriter.appendFailure r n).isOk = true
      rw [JournalWriter.appendFailure, failure_isOk (by decide)]
      simp
  · rw [JournalWriter.append.eq_def, if_neg (by simp [hw]), if_pos (Nat.lt_of_not_le hfits)]
    refine iff_of_false ?_ fun h => hfits h.2
    dsimp only
    rw [failure_isOk (by decide)]
    simp

theorem commit_isOk_iff {s : LineageStore} (h : s.StoreOk) {p : Payload}
    {apply : LineageSeq → DurableState → DurableState} :
    (s.commit p apply).2.isOk = true ↔ s.accepts p = true := by
  unfold LineageStore.commit LineageStore.accepts
  by_cases hf : s.failed = true
  · rw [if_pos hf, hf, failure_isOk (by decide)]
    simp
  have hf' : s.failed = false := by simpa using hf
  rw [if_neg hf, hf']
  cases hn : s.state.lastSeq.next with
  | none =>
    dsimp only
    rw [failure_isOk (by decide)]
    simp
  | some seq =>
    have hs := h.synced hf'
    have hlt : s.writer.lastSeq < (p.record seq).seq := by
      rw [hs.writerSeq, StrongUint.lt_iff]
      change _ < seq.toNat
      rw [StrongUint.next_toNat hn]
      omega
    have happend := @append_isOk_iff _ hs.writer (s.medium.directory.journal.getD [])
      s.medium.nextFault _ hlt
    revert happend
    dsimp only
    generalize s.writer.append (s.medium.directory.journal.getD []) s.medium.nextFault
      (p.record seq) = result
    obtain ⟨w, file, st⟩ := result
    intro happend
    dsimp only at happend ⊢
    cases hok : st.isOk with
    | true =>
      rw [hok] at happend
      obtain ⟨h1, h2⟩ := happend.mp rfl
      exact iff_of_true rfl (by simp [h1, h2])
    | false =>
      rw [hok] at happend
      refine iff_of_false (by simp [hok]) fun h => ?_
      simp only [Bool.not_false, Bool.true_and, Bool.and_eq_true, Option.isNone_iff_eq_none,
        decide_eq_true_eq] at h
      exact absurd (happend.mpr h) (by simp)

/-! ## Amendments -/

/-- A record of an attempt and the type it is written under. -/
abbrev Amendment := AttemptWrite × AttemptRecord

/-- The amendment that an event makes to the table. -/
def Event.amendment? : Event → Option Amendment
  | .committed _ (.attempt w r) _ _ true => some (w, r)
  | _ => none

/-- The amendments in a stretch of history. -/
def amendments (events : List Event) : List Amendment := events.filterMap Event.amendment?

@[simp] theorem amendments_append (h g : List Event) :
    amendments (h ++ g) = amendments h ++ amendments g :=
  List.filterMap_append

/-- A table behind the write of a record. -/
def noted (o : StoreOptions) (table : List AttemptRecord) (r : AttemptRecord) :
    List AttemptRecord :=
  evictAttempts o (upsertAttempt r table)

/-- The table behind a list of amendments. It holds the records as they were stamped. -/
def Noted (o : StoreOptions) (ws : List Amendment) (before after : List AttemptRecord) : Prop :=
  ∃ stamped : List AttemptRecord,
    stamped.map AttemptRecord.unstamped = ws.map (·.2.unstamped) ∧
      after = stamped.foldl (noted o) before

theorem noted_map (o : StoreOptions) (table : List AttemptRecord) (r : AttemptRecord) :
    (noted o table r).map AttemptRecord.unstamped =
      noted o (table.map AttemptRecord.unstamped) r.unstamped := by
  have hu : (upsertAttempt r table).map AttemptRecord.unstamped =
      upsertAttempt r.unstamped (table.map AttemptRecord.unstamped) :=
    BoundedTable.map_upsert _ fun _ => rfl
  have he : (noted o table r).map AttemptRecord.unstamped =
      evictAttempts o ((upsertAttempt r table).map AttemptRecord.unstamped) :=
    BoundedTable.map_evict _ (fun _ _ => rfl) fun _ => rfl
  rw [he, hu, noted]

/-- The stamps of a record do not matter to what the table retains. -/
theorem mem_noted_of_unstamped {o : StoreOptions} {table : List AttemptRecord}
    {r r' : AttemptRecord} (h : r'.unstamped = r.unstamped) {x : AttemptRecord}
    (hx : x ∈ noted o table r) : ∃ x' ∈ noted o table r', x'.unstamped = x.unstamped := by
  have hm : x.unstamped ∈ (noted o table r').map AttemptRecord.unstamped := by
    rw [noted_map, h, ← noted_map]
    exact List.mem_map_of_mem hx
  obtain ⟨x', hx', he⟩ := List.mem_map.mp hm
  exact ⟨x', hx', he⟩

structure Amends (s : LineageStore) (ws : List Amendment) (s' : LineageStore) : Prop where
  options : s'.options = s.options
  events : ∃ events, s'.medium.history = s.medium.history ++ events ∧ amendments events = ws
  table : Noted s.options ws s.state.attempts s'.state.attempts

section Stores

variable {s s' s'' : LineageStore} {ws ws' : List Amendment}

theorem Amends.refl (s : LineageStore) : Amends s [] s :=
  ⟨rfl, ⟨[], (List.append_nil _).symm, rfl⟩, ⟨[], rfl, rfl⟩⟩

theorem Amends.trans (h : Amends s ws s') (h' : Amends s' ws' s'') : Amends s (ws ++ ws') s'' := by
  obtain ⟨events, hh, hw⟩ := h.events
  obtain ⟨events', hh', hw'⟩ := h'.events
  obtain ⟨stamped, hs, ht⟩ := h.table
  obtain ⟨stamped', hs', ht'⟩ := h'.table
  refine ⟨h'.options.trans h.options, ⟨events ++ events', ?_, ?_⟩, ⟨stamped ++ stamped', ?_, ?_⟩⟩
  · rw [hh', hh, List.append_assoc]
  · rw [amendments_append, hw, hw']
  · rw [List.map_append, List.map_append, hs, hs']
  · rw [ht', ht, h.options, List.foldl_append]

theorem Amends.quiet_left (h : Amends s [] s') (h' : Amends s' ws s'') : Amends s ws s'' :=
  h.trans h'

/-- A commit that leaves the table alone. -/
theorem Amends.commit {p : Payload} {apply : LineageSeq → DurableState → DurableState}
    (hp : ∀ w r, p ≠ .attempt w r) (ha : ∀ seq, (apply seq s.state).attempts = s.state.attempts) :
    Amends s [] (s.commit p apply).1 := by
  have hq : ∀ seq b a ack, amendments [.committed seq p b a ack] = [] := by
    intro seq b a ack
    cases p with
    | attempt w r => exact absurd rfl (hp w r)
    | _ => rfl
  have ho := s.commit_outcome p apply
  revert ho
  generalize (s.commit p apply).1 = s'
  generalize (s.commit p apply).2 = st
  intro ho
  cases ho with
  | refused _ _ state options history =>
    exact ⟨options, ⟨[], by rw [history, List.append_nil], rfl⟩, ⟨[], rfl, congrArg _ state⟩⟩
  | lost _ _ _ _ _ state options history =>
    exact ⟨options, ⟨_, history, hq ..⟩, ⟨[], rfl, congrArg _ state⟩⟩
  | done _ _ _ _ state options history =>
    exact ⟨options, ⟨_, history, hq ..⟩, ⟨[], rfl, (congrArg _ state).trans (ha _)⟩⟩

theorem Amends.checkpoint (s : LineageStore) : Amends s [] s.checkpoint.1 := by
  have ho := s.checkpoint_outcome
  revert ho
  generalize s.checkpoint.1 = s'
  intro ho
  cases ho with
  | unchanged state options _ history =>
    exact ⟨options, ⟨[], by rw [history, List.append_nil], rfl⟩, ⟨[], rfl, congrArg _ state⟩⟩
  | broken _ _ _ state options history =>
    exact ⟨options, ⟨_, history, rfl⟩, ⟨[], rfl, congrArg _ state⟩⟩
  | rotated c _ _ state options history =>
    have h : Amends s [] _ := ⟨options, ⟨_, history, rfl⟩, ⟨[], rfl, congrArg _ state⟩⟩
    exact h.quiet_left (.commit (by simp) fun _ => rfl)

/-- The write of an attempt puts its record into the table, or it fails and changes nothing. -/
theorem Amends.write {w : AttemptWrite} {r : AttemptRecord}
    {stamp : AttemptRecord → LineageSeq → AttemptRecord}
    (hs : ∀ seq, (stamp r seq).unstamped = r.unstamped)
    {c : LineageStore × Status}
    (hc : c = s.commit (.attempt w r) fun seq d => d.noteAttempt s.options (stamp r seq)) :
    Amends s (if c.2.isOk then [(w, r)] else []) c.1 := by
  have ho := s.commit_outcome (.attempt w r) fun seq d => d.noteAttempt s.options (stamp r seq)
  rw [← hc] at ho
  obtain ⟨s', st⟩ := c
  cases ho with
  | refused ok _ state options history =>
    rw [if_neg (by simp [ok])]
    exact ⟨options, ⟨[], by rw [history, List.append_nil], rfl⟩, ⟨[], rfl, congrArg _ state⟩⟩
  | lost ok _ _ _ _ state options history =>
    rw [if_neg (by simp [ok])]
    exact ⟨options, ⟨_, history, rfl⟩, ⟨[], rfl, congrArg _ state⟩⟩
  | @done seq _ _ _ _ state options history =>
    change Amends s [(w, r)] s'
    refine ⟨options, ⟨_, history, rfl⟩, ⟨[stamp r seq], ?_, congrArg _ state⟩⟩
    rw [List.map_singleton, List.map_singleton, hs]

end Stores

/-- The store commits some first ones of these amendments. -/
def AmendsBy (s : LineageStore) (ws : List Amendment) (s' : LineageStore) : Prop :=
  ∃ done, done <+: ws ∧ Amends s done s'

/-- The store commits some first ones of these amendments, and any at all exactly if it accepts
the very first one. -/
def AmendsFirst (s : LineageStore) (ws : List Amendment) (s' : LineageStore) : Prop :=
  ∃ done, done <+: ws ∧ Amends s done s' ∧
    ∀ x rest, ws = x :: rest → s.StoreOk → (done ≠ [] ↔ s.accepts (.attempt x.1 x.2) = true)

section Stores

variable {s s' : LineageStore} {ws : List Amendment}

theorem AmendsFirst.amendsBy (h : AmendsFirst s ws s') : AmendsBy s ws s' := by
  obtain ⟨done, hp, hd, -⟩ := h
  exact ⟨done, hp, hd⟩

theorem AmendsBy.none (h : Amends s [] s') : AmendsBy s ws s' := ⟨[], List.nil_prefix, h⟩

theorem AmendsFirst.none (h : Amends s [] s') : AmendsFirst s [] s' :=
  ⟨[], List.nil_prefix, h, by simp⟩

theorem AmendsFirst.refl (s : LineageStore) : AmendsFirst s [] s := .none (.refl s)

theorem AmendsFirst.nothing (h : ws = []) : AmendsFirst s ws s := by
  rw [h]
  exact .refl s

/-- A write of an attempt, and what follows when it succeeds. -/
theorem AmendsFirst.write {w : AttemptWrite} {r : AttemptRecord}
    {stamp : AttemptRecord → LineageSeq → AttemptRecord}
    (hs : ∀ seq, (stamp r seq).unstamped = r.unstamped)
    {c : LineageStore × Status}
    (hc : c = s.commit (.attempt w r) fun seq d => d.noteAttempt s.options (stamp r seq))
    (hf : c.2.isOk = false → s' = c.1)
    (hk : c.2.isOk = true → AmendsBy c.1 ws s') : AmendsFirst s ((w, r) :: ws) s' := by
  have hw := Amends.write hs hc
  cases hok : c.2.isOk with
  | false =>
    rw [hok] at hw
    refine ⟨[], List.nil_prefix, by rw [hf hok]; exact hw, ?_⟩
    rintro x rest ⟨⟩ hstore
    rw [← commit_isOk_iff hstore, ← hc, hok]
    simp
  | true =>
    rw [hok] at hw
    obtain ⟨done, hp, hd⟩ := hk hok
    refine ⟨(w, r) :: done, List.cons_prefix_cons.mpr ⟨rfl, hp⟩, hw.trans hd, ?_⟩
    rintro x rest ⟨⟩ hstore
    rw [← commit_isOk_iff hstore, ← hc, hok]
    simp

end Stores

namespace Engine

variable {e : Engine} {d : FailoverDecision}

theorem commitDecision_amends : Amends e.store [] (e.commitDecision d).1.store := by
  rw [commitDecision_store]
  exact .commit (by simp) fun _ => rfl

theorem commitIdempotency_amends {key : Digest} :
    Amends e.store [] (e.commitIdempotency d key).store := by
  unfold commitIdempotency
  split
  · exact .refl _
  dsimp only
  split
  · exact .refl _
  · exact .commit (by simp) fun _ => rfl

theorem maybeCheckpoint_amends : Amends e.store [] e.maybeCheckpoint.store := by
  unfold maybeCheckpoint
  split
  · exact .refl _
  split
  · exact .refl _
  split
  · exact .refl _
  have h := Amends.checkpoint e.store
  revert h
  generalize e.store.checkpoint = c
  intro h
  obtain ⟨s, r⟩ := c
  cases r with
  | ok => exact h
  | error => exact h

theorem settleDurable_amends {key : Digest} :
    Amends e.store [] (e.settleDurable d key).1.store :=
  commitDecision_amends.quiet_left (commitIdempotency_amends.quiet_left maybeCheckpoint_amends)

theorem settle_amends {durable : Bool} {key : Digest} :
    Amends e.store [] (e.settle d durable key).1.store := by
  unfold settle
  split
  · exact settleDurable_amends
  · exact .refl _

theorem answer_amends : Amends e.store [] (e.answer d).1.store := commitDecision_amends

theorem answerAndCheckpoint_amends : Amends e.store [] (e.answerAndCheckpoint d).1.store :=
  commitDecision_amends.quiet_left maybeCheckpoint_amends

theorem afterWrite_store {written : LineageStore × Status} {detail : String}
    {k : Engine → Engine × Result FailoverDecision} :
    (written.2.isOk = false → (e.afterWrite written detail k).1.store = written.1) ∧
      (written.2.isOk = true →
        (e.afterWrite written detail k).1 = (k (e.withWrite written)).1) := by
  unfold afterWrite
  cases written.2.isOk with
  | true => exact ⟨by simp, fun _ => rfl⟩
  | false => exact ⟨fun _ => rfl, by simp⟩

/-- An operation that writes an attempt and goes on when that worked. -/
theorem updateAttempt_amends {w : AttemptWrite} {r : AttemptRecord} {detail : String}
    {k : Engine → Engine × Result FailoverDecision} {ws : List Amendment}
    (hk : AmendsBy (e.updateAttempt w r).1 ws (k (e.withWrite (e.updateAttempt w r))).1.store) :
    AmendsFirst e.store ((w, r) :: ws) (e.afterWrite (e.updateAttempt w r) detail k).1.store := by
  refine @AmendsFirst.write _ _ _ _ _ updatedAt (fun _ => rfl) _ rfl afterWrite_store.1 fun hok => ?_
  exact congrArg Engine.store (afterWrite_store.2 hok) ▸ hk

theorem createAttempt_amends {r : AttemptRecord} {detail : String}
    {k : Engine → Engine × Result FailoverDecision} {ws : List Amendment}
    (hk : AmendsBy (e.createAttempt r).1 ws (k (e.withWrite (e.createAttempt r))).1.store) :
    AmendsFirst e.store ((.create, r) :: ws)
      (e.afterWrite (e.createAttempt r) detail k).1.store := by
  refine @AmendsFirst.write _ _ _ _ _ createdAt (fun _ => rfl) _ rfl afterWrite_store.1 fun hok => ?_
  exact congrArg Engine.store (afterWrite_store.2 hok) ▸ hk

/-- An operation that writes anything else and goes on when that worked. -/
theorem afterWrite_quiet {written : LineageStore × Status} {detail : String}
    {k : Engine → Engine × Result FailoverDecision} (hw : Amends e.store [] written.1)
    (hk : Amends written.1 [] (k (e.withWrite written)).1.store) :
    Amends e.store [] (e.afterWrite written detail k).1.store := by
  unfold afterWrite
  split
  · exact hw
  · exact hw.quiet_left hk

/-! ## The amendments of an operation -/

def applicationAmendments (e : Engine) (found : AttemptRecord) (report : ApplicationReport) :
    List Amendment :=
  if found.subjectGeneration ≠ report.subjectGeneration ∨ found.attemptId ≠ report.attemptId ∨
      report.applierIncarnation.isZero = true ∨ found.phase ≠ .authorized then []
  else
    let updated := (e.applyAttempt found report).1
    [(completionOrUpdate updated.phase, updated)]

def verificationAmendments (found : AttemptRecord) (report : VerificationReport) :
    List Amendment :=
  if found.attemptId ≠ report.attemptId ∨ found.phase ≠ .acknowledged then []
  else if !report.effectObserved then
    [(.update, movedTo found .indeterminate .effectUnverified report.detail)]
  else
    let verified := movedTo found .verified .effectVerified report.detail
    [(.update, verified), (.completion, { verified with phase := .committed })]

def rollbackAmendments (e : Engine) (found : AttemptRecord) (req : RollbackRequest) :
    List Amendment :=
  if compareAuthority req.expected (e.currentAuthority req.subject found.subjectGeneration) ≠ [] ∨
      attemptPhaseHoldsAuthority found.phase = false then []
  else [(.rollback, movedTo found .rolledBack .rollbackRequested req.rationale)]

def revalidationAmendments (e : Engine) (found : AttemptRecord) (req : RevalidationRequest) :
    List Amendment :=
  if found.revalidated = true ∨ found.phase ≠ .interrupted then []
  else
    let updated := e.revalidatedAttempt found req.verdict
    [(completionOrUpdate updated.phase, updated)]

/-- The aborted attempts behind a new definition. -/
def fencingAmendments (cause : FenceCause) (attempts : List AttemptRecord) : List Amendment :=
  (attempts.filter fun r => attemptPhaseHoldsAuthority r.phase).map fun r =>
    (.update, abortedAttempt r cause.detail)

def definitionAmendments {Tag : Type} (e : Engine) (new current : StrongUint Tag UInt64)
    (cause : FenceCause) : List Amendment :=
  if new < current ∨ new = current then [] else fencingAmendments cause e.state.attempts

end Engine

def FailoverPlan.amendments : FailoverPlan → List Amendment
  | .record _ r => [(.create, r)]
  | .grant _ a => [(.create, a), (.update, { a with phase := .authorized })]
  | _ => []

namespace Engine

/-- The record under the subject and the sequence of a request, when an operation comes to it. -/
def target (e : Engine) : Operation → Option AttemptRecord
  | .recordApplication report =>
    if e.unavailable.isSome then none else e.state.findAttempt report.subject report.attemptSeq
  | .recordVerification report =>
    if e.unavailable.isSome then none else e.state.findAttempt report.subject report.attemptSeq
  | .requestRollback req =>
    if e.closed || (e.state.findIdempotency req.idempotencyKey).isSome then none
    else e.state.findAttempt req.subject req.attemptSeq
  | .resolveInterrupted req =>
    if e.closed || req.observerIncarnation.isZero || decide (req.observerEpoch ≠ e.epoch) then none
    else e.state.findAttempt req.subject req.attemptSeq
  | _ => none

/-- The amendments of an operation, in the state that it finds. -/
def amendments (e : Engine) (op : Operation) : List Amendment :=
  match op with
  | .requestFailover req =>
    if e.unavailable.isSome then [] else (e.advance.planFailover req).amendments
  | .recordApplication report =>
    (e.target op).elim [] fun found => e.advance.applicationAmendments found report
  | .recordVerification report =>
    (e.target op).elim [] fun found => verificationAmendments found report
  | .requestRollback req =>
    (e.target op).elim [] fun found => e.advance.rollbackAmendments found req
  | .resolveInterrupted req =>
    (e.target op).elim [] fun found => e.advance.revalidationAmendments found req
  | .setPolicy policy =>
    if e.closed || !policy.validate.isOk then []
    else e.definitionAmendments policy.generation e.state.policy.generation policyChanged
  | .setTopology topology =>
    if e.closed || !topology.canonicalise.validate.isOk then []
    else
      e.definitionAmendments topology.generation e.state.topology.generation topologyChanged
  | _ => []

variable {e : Engine}

theorem execute_amends {req : FailoverRequest} (plan : FailoverPlan) :
    AmendsFirst e.store plan.amendments (e.execute req plan).1.store := by
  cases plan with
  | fail | replay => exact .refl _
  | settle => exact .none settle_amends
  | record => exact createAttempt_amends (.none (@settleDurable_amends (e.withWrite _) _ _))
  | grant =>
    refine createAttempt_amends (@updateAttempt_amends (e.withWrite _) _ _ _ _ [] ?_).amendsBy
    exact .none (@settleDurable_amends ((e.withWrite _).withWrite _) _ _)

theorem requestFailover_amends (req : FailoverRequest) :
    AmendsFirst e.store (e.amendments (.requestFailover req)) (e.requestFailover req).1.store := by
  unfold requestFailover
  dsimp only [amendments]
  cases e.unavailable with
  | some s => exact .refl _
  | none => exact @execute_amends e.advance req _

theorem recordFound_amends (found : AttemptRecord) (report : ApplicationReport) :
    AmendsFirst e.store (e.applicationAmendments found report)
      (e.recordFound found report).1.store := by
  refine recordFound_cases
    (P := fun out => AmendsFirst e.store (e.applicationAmendments found report) out.1.store)
    (fun h _ _ _ => .nothing (if_pos (h.imp_right (Or.imp_right .inl))))
    (fun _ _ hc => .nothing (if_pos ?_)) fun h1 h2 h3 h4 _ => ?_
  · refine .inr (.inr (.inr fun hp => ?_))
    rw [hp] at hc
    cases hc
  rw [applicationAmendments, if_neg (by simp [h1, h2, h3, h4])]
  exact updateAttempt_amends (.none (@answerAndCheckpoint_amends (e.withWrite _) _))

theorem verifyFound_amends (found : AttemptRecord) (report : VerificationReport) :
    AmendsFirst e.store (verificationAmendments found report)
      (e.verifyFound found report).1.store := by
  refine verifyFound_cases
    (P := fun out => AmendsFirst e.store (verificationAmendments found report) out.1.store)
    (fun h _ _ _ => .nothing (if_pos (.inl h)))
    (fun h _ _ => .nothing (if_pos (.inr (by rcases h with h | h <;> simp [h]))))
    (fun h _ _ => .nothing (if_pos (.inr h))) (fun h1 h2 h3 => ?_) fun h1 h2 h3 => ?_
  · rw [verificationAmendments, if_neg (by simp [h1, h2]), if_pos (by simp [h3])]
    exact updateAttempt_amends (.none (@answer_amends (e.withWrite _) _))
  · rw [verificationAmendments, if_neg (by simp [h1, h2]), if_neg (by simp [h3])]
    refine updateAttempt_amends (@updateAttempt_amends (e.withWrite _) _ _ _ _ [] ?_).amendsBy
    exact .none (@answerAndCheckpoint_amends ((e.withWrite _).withWrite _) _)

theorem rollbackFound_amends (found : AttemptRecord) (req : RollbackRequest) :
    AmendsFirst e.store (e.rollbackAmendments found req) (e.rollbackFound found req).1.store := by
  refine rollbackFound_cases
    (P := fun out => AmendsFirst e.store (e.rollbackAmendments found req) out.1.store)
    (fun h _ => .nothing (if_pos (.inl h)))
    (fun h _ _ => .nothing (if_pos (.inr (by rw [h]; rfl))))
    (fun h _ _ => .nothing (if_pos (.inr h))) fun h1 h2 => ?_
  rw [rollbackAmendments, if_neg (by simp [h1, h2])]
  refine updateAttempt_amends (.none ?_)
  refine @afterWrite_quiet (e.withWrite _) _ _ _ (.commit (by simp) fun _ => rfl) ?_
  exact (@commitDecision_amends ((e.withWrite _).withWrite _) _).quiet_left
    commitIdempotency_amends

theorem resolveFound_amends (found : AttemptRecord) (req : RevalidationRequest) :
    AmendsFirst e.store (e.revalidationAmendments found req) (e.resolveFound found req).1.store := by
  refine resolveFound_cases
    (P := fun out => AmendsFirst e.store (e.revalidationAmendments found req) out.1.store)
    (fun h => .nothing (if_pos (.inl h))) (fun h _ _ => .nothing (if_pos (.inr h)))
    fun h1 h2 _ => ?_
  rw [revalidationAmendments, if_neg (by simp [h1, h2])]
  exact updateAttempt_amends (.none (@answer_amends (e.withWrite _) _))

/-- The attempt that a report finds in an engine that is available. -/
theorem target_recordApplication {report : ApplicationReport} {found : AttemptRecord}
    (hu : e.unavailable = none)
    (hfound : e.state.findAttempt report.subject report.attemptSeq = some found) :
    e.target (.recordApplication report) = some found := by
  rw [target, hu]
  exact hfound

theorem target_recordVerification {report : VerificationReport} {found : AttemptRecord}
    (hu : e.unavailable = none)
    (hfound : e.state.findAttempt report.subject report.attemptSeq = some found) :
    e.target (.recordVerification report) = some found := by
  rw [target, hu]
  exact hfound

theorem target_requestRollback {req : RollbackRequest} {found : AttemptRecord}
    (hopen : e.closed = false) (hkey : e.state.findIdempotency req.idempotencyKey = none)
    (hfound : e.state.findAttempt req.subject req.attemptSeq = some found) :
    e.target (.requestRollback req) = some found := by
  rw [target, if_neg (by simp [hopen, hkey])]
  exact hfound

theorem target_resolveInterrupted {req : RevalidationRequest} {found : AttemptRecord}
    (hopen : e.closed = false) (hzero : req.observerIncarnation.isZero = false)
    (hepoch : req.observerEpoch = e.epoch)
    (hfound : e.state.findAttempt req.subject req.attemptSeq = some found) :
    e.target (.resolveInterrupted req) = some found := by
  rw [target, if_neg (by simp [hopen, hzero, hepoch])]
  exact hfound

theorem recordApplication_amends (report : ApplicationReport) :
    AmendsFirst e.store (e.amendments (.recordApplication report))
      (e.recordApplication report).1.store := by
  refine recordApplication_cases
    (P := fun out => AmendsFirst e.store (e.amendments (.recordApplication report)) out.1.store)
    (fun s hu => .nothing (by rw [amendments, target, hu]; rfl))
    (fun hu hfound => .nothing (by rw [amendments, target, hu, hfound]; rfl))
    fun found hu hfound => ?_
  rw [amendments, target_recordApplication hu hfound]
  exact @recordFound_amends e.advance found report

theorem recordVerification_amends (report : VerificationReport) :
    AmendsFirst e.store (e.amendments (.recordVerification report))
      (e.recordVerification report).1.store := by
  refine recordVerification_cases
    (P := fun out => AmendsFirst e.store (e.amendments (.recordVerification report)) out.1.store)
    (fun s hu => .nothing (by rw [amendments, target, hu]; rfl))
    (fun hu hfound => .nothing (by rw [amendments, target, hu, hfound]; rfl))
    fun found hu hfound => ?_
  rw [amendments, target_recordVerification hu hfound]
  exact @verifyFound_amends e.advance found report

theorem requestRollback_amends (req : RollbackRequest) :
    AmendsFirst e.store (e.amendments (.requestRollback req)) (e.requestRollback req).1.store := by
  refine requestRollback_cases
    (P := fun out => AmendsFirst e.store (e.amendments (.requestRollback req)) out.1.store)
    (fun hc => .nothing (by rw [amendments, target, hc]; rfl))
    (fun entry hopen hkey => .nothing (by rw [amendments, target, hopen, hkey]; rfl))
    (fun hopen hkey hfound => .nothing (by rw [amendments, target, hopen, hkey, hfound]; rfl))
    fun found hopen hkey hfound => ?_
  rw [amendments, target_requestRollback hopen hkey hfound]
  exact @rollbackFound_amends e.advance found req

theorem resolveInterrupted_amends (req : RevalidationRequest) :
    AmendsFirst e.store (e.amendments (.resolveInterrupted req))
      (e.resolveInterrupted req).1.store := by
  refine resolveInterrupted_cases
    (P := fun out => AmendsFirst e.store (e.amendments (.resolveInterrupted req)) out.1.store)
    (fun hc => .nothing (by rw [amendments, target, hc]; rfl))
    (fun h _ _ _ => .nothing (by
      rw [amendments, target, if_pos (by rcases h with h | h <;> simp [h])]
      rfl))
    (fun hopen hzero hepoch hfound => .nothing (by
      rw [amendments, target, if_neg (by simp [hopen, hzero, hepoch]), hfound]
      rfl))
    fun found hopen hzero hepoch hfound => ?_
  rw [amendments, target_resolveInterrupted hopen hzero hepoch hfound]
  exact @resolveFound_amends e.advance found req

/-! ## Definitions -/

theorem fenceAuthorities_amends (cause : FenceCause) (rs : List AttemptRecord) :
    AmendsBy e.store (fencingAmendments cause rs) (fenceAuthorities cause rs e).1.store := by
  induction rs generalizing e with
  | nil => exact .none (.refl _)
  | cons r rs ih =>
    unfold fenceAuthorities fencingAmendments
    by_cases hh : attemptPhaseHoldsAuthority r.phase = true
    swap
    · rw [@List.filter_cons_of_neg _ _ r rs hh, if_pos (by simpa using hh)]
      exact ih
    rw [@List.filter_cons_of_pos _ _ r rs hh, List.map_cons, if_neg (by simp [hh])]
    dsimp only
    generalize hw : e.updateAttempt .update (abortedAttempt r cause.detail) = aborted
    refine (@AmendsFirst.write _ _ _ _ _ updatedAt (fun _ => rfl) aborted hw.symm (fun hok => ?_)
      fun hok => ?_).amendsBy
    · rw [hok]
      rfl
    rw [if_neg (by simp [hok])]
    have hq : Amends aborted.1 []
        ((e.withWrite aborted).writeFence ((e.withWrite aborted).fenceOf cause.kind r
          ⟨text cause.detail, cause.bounded⟩)).1 := .commit (by simp) fun _ => rfl
    revert hq
    generalize (e.withWrite aborted).writeFence ((e.withWrite aborted).fenceOf cause.kind r
      ⟨text cause.detail, cause.bounded⟩) = fenced
    intro hq
    split
    · exact .none hq
    · obtain ⟨done, hp, hd⟩ := @ih ((e.withWrite aborted).withWrite fenced)
      exact ⟨done, hp, hq.quiet_left hd⟩

theorem setDefinition_amends {Tag : Type} {new current : StrongUint Tag UInt64}
    {sameContent : Bool} {code : ReasonCode} {regresses conflicts : String}
    {commit : Engine → LineageStore × Status} {cause : FenceCause}
    (hq : Amends e.store [] (commit e).1) (ht : (commit e).1.state.attempts = e.state.attempts) :
    AmendsBy e.store (e.definitionAmendments new current cause)
      (e.setDefinition new current sameContent code regresses conflicts commit cause).1.store := by
  unfold setDefinition
  split
  · exact .none (.refl _)
  split
  · split
    · exact .none (.refl _)
    · exact .none (.refl _)
  dsimp only
  split
  · exact .none hq
  · rename_i h1 h2 _
    rw [definitionAmendments, if_neg (not_or.mpr ⟨h1, h2⟩)]
    obtain ⟨done, hp, hd⟩ := @fenceAuthorities_amends (e.withWrite (commit e)) cause
      (e.withWrite (commit e)).state.attempts
    refine ⟨done, ?_, hq.quiet_left hd⟩
    rwa [← ht]

theorem commit_attempts {s : LineageStore} {p : Payload}
    {apply : LineageSeq → DurableState → DurableState}
    (ha : ∀ seq d, (apply seq d).attempts = d.attempts) :
    (s.commit p apply).1.state.attempts = s.state.attempts := by
  cases hok : (s.commit p apply).2.isOk with
  | false => rw [(commit_not_ok hok).2.1]
  | true =>
    obtain ⟨-, -, seq, -, -, hstate, -⟩ := commit_ok hok
    rw [hstate]
    exact ha seq _

theorem setPolicy_amends (policy : FailoverPolicy) :
    AmendsBy e.store (e.amendments (.setPolicy policy)) (e.setPolicy policy).1.store := by
  unfold setPolicy
  split
  · exact .none (.refl _)
  split
  · exact .none (.refl _)
  rename_i h1 h2
  dsimp only [amendments]
  rw [if_neg (by simp only [Bool.or_eq_true]; exact not_or.mpr ⟨h1, h2⟩)]
  exact setDefinition_amends (.commit (by simp) fun _ => rfl) (commit_attempts fun _ _ => rfl)

theorem setTopology_amends (topology : TopologySnapshot) :
    AmendsBy e.store (e.amendments (.setTopology topology)) (e.setTopology topology).1.store := by
  unfold setTopology
  dsimp only
  split
  · exact .none (.refl _)
  split
  · exact .none (.refl _)
  rename_i h1 h2
  dsimp only [amendments]
  rw [if_neg (by simp only [Bool.or_eq_true]; exact not_or.mpr ⟨h1, h2⟩)]
  exact setDefinition_amends (.commit (by simp) fun _ => rfl) (commit_attempts fun _ _ => rfl)

/-! ## All operations -/

/-- The store behind a checkpoint, however it ended. -/
theorem withCheckpoint_amends {s : LineageStore} {r : Result LineageSeq}
    (h : e.store.checkpoint = (s, r)) : Amends e.store [] s := by
  have hc := Amends.checkpoint e.store
  rwa [h] at hc

theorem checkpoint_amends : Amends e.store [] e.checkpoint.1.store := by
  unfold checkpoint
  split
  · exact .refl _
  split
  · rename_i hc
    exact withCheckpoint_amends hc
  · rename_i hc
    exact withCheckpoint_amends hc

/-- A close is left out: it commits no attempt either, but behind it the table is gone. -/
theorem perform_amends {op : Operation} (hop : op ≠ .close) :
    AmendsBy e.store (e.amendments op) (e.perform op).1.store := by
  cases op with
  | publishFailure report =>
    refine .none ?_
    change Amends e.store [] (e.publishFailureReport report).1.store
    rw [(e.publishFailureReport_adds report).1.store]
    exact .refl _
  | publishReplacement report =>
    refine .none ?_
    change Amends e.store [] (e.publishReplacementReport report).1.store
    rw [(e.publishReplacementReport_adds report).1.store]
    exact .refl _
  | requestFailover req => exact (requestFailover_amends req).amendsBy
  | recordApplication report => exact (recordApplication_amends report).amendsBy
  | recordVerification report => exact (recordVerification_amends report).amendsBy
  | requestRollback req => exact (requestRollback_amends req).amendsBy
  | resolveInterrupted req => exact (resolveInterrupted_amends req).amendsBy
  | setPolicy policy => exact setPolicy_amends policy
  | setTopology topology => exact setTopology_amends topology
  | checkpoint => exact .none checkpoint_amends
  | close => exact absurd rfl hop

end Engine

end LinkFailover
