import LinkFailover.Timeless
import LinkFailover.System

/-!
# Publishers' clocks have no influence

Two runs from one state that publish the same reports under different clock readings go the same way:
nothing reads a clock, and nothing looks into the digests of the evidence that were computed over
it.

* `Engine.Agree`: two engines that differ in clock readings and evidence digests only.
* `perform_agree`: every operation keeps to that, and answers the same.
* `wall_clocks`: so does every run.
-/

namespace LinkFailover

open Codec

def ApplyDirective.timeless (v : ApplyDirective) : ApplyDirective :=
  { v with authority := v.authority.timeless }

/-! ## Media and stores -/

/-- Two media hold files of the same lengths, will fail in the same way and have gone through the
same events but for clocks. -/
structure Medium.Agree (m m' : Medium) : Prop where
  snapshot : m.directory.snapshot.map List.length = m'.directory.snapshot.map List.length
  journal : m.directory.journal.map List.length = m'.directory.journal.map List.length
  staging : m.directory.staging.map List.length = m'.directory.staging.map List.length
  appendFaults : m.appendFaults = m'.appendFaults
  checkpointFaults : m.checkpointFaults = m'.checkpointFaults
  history : m.history.map Event.timeless = m'.history.map Event.timeless

/-- Two stores are the same but for clocks. -/
structure LineageStore.Agree (s s' : LineageStore) : Prop where
  timeless : s.timeless = s'.timeless
  medium : s.medium.Agree s'.medium

theorem Medium.Agree.log {m m' : Medium} (h : m.Agree m') {events events' : List Event}
    (he : events.map Event.timeless = events'.map Event.timeless) :
    (m.log events).Agree (m'.log events') where
  snapshot := h.snapshot
  journal := h.journal
  staging := h.staging
  appendFaults := h.appendFaults
  checkpointFaults := h.checkpointFaults
  history := by
    rw [Medium.log, Medium.log, List.map_append, List.map_append, h.history, he]

/-- An append looks at the lengths of the file and of the record only. -/
theorem append_even (w : JournalWriter) {file file' : Bytes} (fault : Fault) {r r' : JournalRecord}
    (hf : file.length = file'.length) (hs : r.seq = r'.seq)
    (hl : r.payload.length = r'.payload.length) :
    (w.append file fault r).1 = (w.append file' fault r').1 ∧
      (w.append file fault r).2.1.length = (w.append file' fault r').2.1.length ∧
        (w.append file fault r).2.2 = (w.append file' fault r').2.2 := by
  have hframe : (frame r).length = (frame r').length := by rw [frame_length, frame_length, hl]
  rw [JournalWriter.append.eq_def, JournalWriter.append.eq_def, ← hs, ← hl]
  split
  · exact ⟨rfl, hf, rfl⟩
  split
  · exact ⟨rfl, hf, rfl⟩
  split
  · exact ⟨rfl, hf, rfl⟩
  cases fault with
  | none =>
    refine ⟨rfl, ?_, rfl⟩
    dsimp only
    rw [List.length_append, List.length_append, hf, hframe]
  | some n =>
    refine ⟨rfl, ?_, ?_⟩
    · dsimp only
      rw [List.length_append, List.length_append, List.length_take, List.length_take, hf, hframe]
    · dsimp only [JournalWriter.appendFailure]
      rw [hframe]

namespace LineageStore

variable {s s' : LineageStore}

theorem Agree.of_fields (options : s.options = s'.options)
    (state : s.state.timeless = s'.state.timeless) (writer : s.writer = s'.writer)
    (failed : s.failed = s'.failed) (records : s.recordsSinceSnapshot = s'.recordsSinceSnapshot)
    (medium : s.medium.Agree s'.medium) : s.Agree s' := by
  refine ⟨?_, medium⟩
  unfold LineageStore.timeless
  rw [options, state, writer, failed, records]

namespace Agree

theorem options (h : s.Agree s') : s.options = s'.options :=
  show s.timeless.options = s'.timeless.options from congrArg LineageStore.options h.timeless

theorem state (h : s.Agree s') : s.state.timeless = s'.state.timeless :=
  show s.timeless.state = s'.timeless.state from congrArg LineageStore.state h.timeless

theorem writer (h : s.Agree s') : s.writer = s'.writer :=
  show s.timeless.writer = s'.timeless.writer from congrArg LineageStore.writer h.timeless

theorem failed (h : s.Agree s') : s.failed = s'.failed :=
  show s.timeless.failed = s'.timeless.failed from congrArg LineageStore.failed h.timeless

theorem records (h : s.Agree s') : s.recordsSinceSnapshot = s'.recordsSinceSnapshot :=
  show s.timeless.recordsSinceSnapshot = s'.timeless.recordsSinceSnapshot from
    congrArg LineageStore.recordsSinceSnapshot h.timeless

theorem lastSeq (h : s.Agree s') : s.state.lastSeq = s'.state.lastSeq :=
  show s.state.timeless.lastSeq = s'.state.timeless.lastSeq from
    congrArg DurableState.lastSeq h.state

end Agree

theorem commit_agree (h : s.Agree s') {p p' : Payload} (hp : p.timeless = p'.timeless)
    {apply apply' : LineageSeq → DurableState → DurableState}
    (ha : ∀ seq, (apply seq s.state).timeless = (apply' seq s'.state).timeless) :
    (s.commit p apply).1.Agree (s'.commit p' apply').1 ∧
      (s.commit p apply).2 = (s'.commit p' apply').2 := by
  have hlength : p.bytes.length = p'.bytes.length := by
    rw [← p.length_timeless, hp, p'.length_timeless]
  unfold commit
  rw [← h.failed, ← h.lastSeq, ← h.writer]
  split
  · exact ⟨h, rfl⟩
  cases s.state.lastSeq.next with
  | none =>
    dsimp only
    exact ⟨.of_fields h.options h.state rfl rfl h.records h.medium, rfl⟩
  | some next =>
    have hfile : (s.medium.directory.journal.getD []).length =
        (s'.medium.directory.journal.getD []).length := by
      have hj := h.medium.journal
      revert hj
      cases s.medium.directory.journal <;> cases s'.medium.directory.journal <;> intro hj
      · rfl
      · cases hj
      · cases hj
      · exact Option.some.inj hj
    have hfault : s.medium.nextFault = s'.medium.nextFault := by
      unfold Medium.nextFault
      rw [h.medium.appendFaults]
    have hframe : (s.medium.directory.journal.getD [] ++ frame (p.record next)).length =
        (s'.medium.directory.journal.getD [] ++ frame (p'.record next)).length := by
      rw [List.length_append, List.length_append, hfile, frame_length, frame_length]
      exact congrArg _ (congrArg _ hlength)
    have happend := @append_even s.writer _ _ s.medium.nextFault (p.record next) (p'.record next)
      hfile rfl hlength
    dsimp only
    rw [← hfault, ← hframe]
    revert happend
    generalize s.writer.append (s.medium.directory.journal.getD []) s.medium.nextFault
      (p.record next) = x
    generalize s.writer.append (s'.medium.directory.journal.getD []) s.medium.nextFault
      (p'.record next) = x'
    obtain ⟨w, file, st⟩ := x
    obtain ⟨w', file', st'⟩ := x'
    rintro ⟨hw, hlen, hst⟩
    dsimp only at hw hlen hst ⊢
    subst hw hst
    rw [← hlen]
    have hmedium : ({ s.medium.popFault with
        directory := { s.medium.directory with journal := some file } } : Medium).Agree
          { s'.medium.popFault with
            directory := { s'.medium.directory with journal := some file' } } :=
      ⟨h.medium.snapshot, congrArg some hlen, h.medium.staging,
        congrArg List.tail h.medium.appendFaults, h.medium.checkpointFaults, h.medium.history⟩
    have hstate := h.state
    split
    · refine ⟨.of_fields h.options h.state rfl rfl h.records (hmedium.log ?_), rfl⟩
      split
      · simp only [List.map_cons, List.map_nil, Event.timeless, hp, hstate]
      · rfl
    · have happlied : (applied apply next s.state).timeless =
          (applied apply' next s'.state).timeless := by
        have hcount : (apply next s.state).recordCount = (apply' next s'.state).recordCount :=
          show (apply next s.state).timeless.recordCount =
            (apply' next s'.state).timeless.recordCount from
            congrArg DurableState.recordCount (ha next)
        have hsame := ha next
        unfold applied
        rw [hcount]
        exact congrArg (fun d : DurableState =>
          { d with lastSeq := next, recordCount := (apply' next s'.state).recordCount + 1 }) hsame
      refine ⟨.of_fields h.options happlied rfl rfl ?_ (hmedium.log ?_), rfl⟩
      · exact congrArg (· + 1) h.records
      · simp only [List.map_cons, List.map_nil, Event.timeless, hp, hstate, happlied]

theorem Agree.markFailed (h : s.Agree s') : s.markFailed.Agree s'.markFailed :=
  .of_fields h.options h.state h.writer rfl h.records h.medium

theorem Agree.replaceSnapshot (h : s.Agree s') {framed framed' : Bytes}
    (hf : framed.length = framed'.length) (staging : Option Bytes) :
    (s.replaceSnapshot framed staging).Agree (s'.replaceSnapshot framed' staging) := by
  have hmedium : ({ s.medium with directory :=
      { s.medium.directory with snapshot := some framed, staging := staging } } : Medium).Agree
        { s'.medium with directory :=
          { s'.medium.directory with snapshot := some framed', staging := staging } } :=
    ⟨congrArg some hf, h.medium.journal, rfl, h.medium.appendFaults, h.medium.checkpointFaults,
      h.medium.history⟩
  have hstate := h.state
  refine .of_fields h.options h.state h.writer h.failed h.records (hmedium.log ?_)
  simp only [LineageStore.withDirectory, List.map_cons, List.map_nil, Event.timeless, hstate]

theorem Agree.rotate (h : s.Agree s') {framed framed' : Bytes}
    (hf : framed.length = framed'.length) (journal : Option Bytes) :
    (s.rotate framed journal).Agree (s'.rotate framed' journal) := by
  have hmedium : ({ s.medium with directory :=
      { s.medium.directory with snapshot := some framed, journal := journal, staging := none } } :
        Medium).Agree
        { s'.medium with directory :=
          { s'.medium.directory with
            snapshot := some framed', journal := journal, staging := none } } :=
    ⟨congrArg some hf, rfl, rfl, h.medium.appendFaults, h.medium.checkpointFaults,
      h.medium.history⟩
  have hstate := h.state
  refine .of_fields h.options h.state h.writer h.failed h.records (hmedium.log ?_)
  simp only [LineageStore.withDirectory, List.map_cons, List.map_nil, Event.timeless, hstate]

/-- The journal behind a rotation has no clock in it yet. -/
theorem recordCheckpoint_agree (h : s.Agree s') {framed framed' : Bytes}
    (hf : framed.length = framed'.length)
    (hj : s.medium.directory.journal = s'.medium.directory.journal) :
    (s.recordCheckpoint framed).1.Agree (s'.recordCheckpoint framed').1 ∧
      (s.recordCheckpoint framed).2 = (s'.recordCheckpoint framed').2 := by
  have hcount : s.state.recordCount = s'.state.recordCount :=
    show s.state.timeless.recordCount = s'.state.timeless.recordCount from
      congrArg DurableState.recordCount h.state
  unfold recordCheckpoint
  dsimp only
  rw [← hj, ← h.lastSeq, ← hcount, ← hf]
  generalize (JournalWriter.openFile s.medium.directory.journal none s.state.lastSeq
    s.state.lastSeq false).2 = opened
  cases opened with
  | error e => exact ⟨h.markFailed, rfl⟩
  | ok writer =>
    have hsame : ({ s with writer := writer, recordsSinceSnapshot := 0 } : LineageStore).Agree
        { s' with writer := writer, recordsSinceSnapshot := 0 } :=
      .of_fields h.options h.state rfl h.failed rfl h.medium
    obtain ⟨hstore, hstatus⟩ := @commit_agree _ _ hsame (.checkpoint
      { coversSeq := s.state.lastSeq
        recordCount := s.state.recordCount
        snapshotBytes := UInt64.ofNat framed.length }) _ rfl (fun _ d => d) (fun _ d => d)
      fun _ => h.state
    refine ⟨hstore, ?_⟩
    dsimp only
    rw [hstatus]

theorem checkpoint_agree (h : s.Agree s') :
    s.checkpoint.1.Agree s'.checkpoint.1 ∧ s.checkpoint.2 = s'.checkpoint.2 := by
  have hserialised : s.state.serialise.map List.length = s'.state.serialise.map List.length := by
    rw [← s.state.serialise_timeless, h.state, s'.state.serialise_timeless]
  have hfault : s.medium.nextCheckpointFault = s'.medium.nextCheckpointFault := by
    unfold Medium.nextCheckpointFault
    rw [h.medium.checkpointFaults]
  unfold checkpoint
  rw [← h.failed, ← h.lastSeq, ← hfault]
  split
  · exact ⟨h, rfl⟩
  revert hserialised
  cases s.state.serialise with
  | error e =>
    cases s'.state.serialise with
    | error e' =>
      intro hs
      cases hs
      exact ⟨h, rfl⟩
    | ok payload => exact fun hs => (by cases hs)
  | ok payload =>
    cases s'.state.serialise with
    | error e => exact fun hs => (by cases hs)
    | ok payload' =>
      intro hs
      have hframed : (frameSnapshot payload).length = (frameSnapshot payload').length := by
        rw [frameSnapshot_length, frameSnapshot_length]
        exact congrArg _ (Except.ok.inj hs)
      have hpopped : ({ s with medium := s.medium.popCheckpointFault } : LineageStore).Agree
          { s' with failed := s.failed, medium := s'.medium.popCheckpointFault } :=
        .of_fields h.options h.state h.writer rfl h.records
          ⟨h.medium.snapshot, h.medium.journal, h.medium.staging, h.medium.appendFaults,
            congrArg List.tail h.medium.checkpointFaults, h.medium.history⟩
      dsimp only
      cases s.medium.nextCheckpointFault with
      | none =>
        dsimp only
        exact recordCheckpoint_agree (hpopped.rotate hframed _) hframed rfl
      | some fault =>
        cases fault <;> dsimp only
        · exact ⟨hpopped, rfl⟩
        · exact ⟨(hpopped.replaceSnapshot hframed _).markFailed, rfl⟩
        · exact ⟨(hpopped.replaceSnapshot hframed _).markFailed, rfl⟩
        · exact ⟨(hpopped.rotate hframed _).markFailed, rfl⟩

end LineageStore

/-! ## Engines -/

/-- Two engines are the same but for the clock readings in their reports and the digests of
evidence that were computed over them. -/
structure Engine.Agree (e e' : Engine) : Prop where
  timeless : e.timeless = e'.timeless
  medium : e.store.medium.Agree e'.store.medium

/-- Two outcomes of an operation on an attempt are the same but for clocks. -/
structure AgreeDecided (r r' : Engine × Result FailoverDecision) : Prop where
  engine : r.1.Agree r'.1
  answer : r.2.map FailoverDecision.timeless = r'.2.map FailoverDecision.timeless

/-- Two outcomes of an operation on the definitions or the store are the same but for clocks. -/
structure AgreeDone (r r' : Engine × Status) : Prop where
  engine : r.1.Agree r'.1
  answer : r.2 = r'.2

namespace Engine

variable {e e' : Engine}

namespace Agree

theorem store (h : e.Agree e') : e.store.Agree e'.store :=
  ⟨congrArg Engine.store h.timeless, h.medium⟩

theorem state (h : e.Agree e') : e.state.timeless = e'.state.timeless := h.store.state

theorem options (h : e.Agree e') : e.options = e'.options :=
  show e.timeless.options = e'.timeless.options from congrArg Engine.options h.timeless

theorem incarnation (h : e.Agree e') : e.incarnation = e'.incarnation :=
  show e.timeless.incarnation = e'.timeless.incarnation from
    congrArg Engine.incarnation h.timeless

theorem epoch (h : e.Agree e') : e.epoch = e'.epoch :=
  show e.timeless.epoch = e'.timeless.epoch from congrArg Engine.epoch h.timeless

theorem closed (h : e.Agree e') : e.closed = e'.closed :=
  show e.timeless.closed = e'.timeless.closed from congrArg Engine.closed h.timeless

theorem policy (h : e.Agree e') : e.state.policy = e'.state.policy :=
  show e.state.timeless.policy = e'.state.timeless.policy from congrArg DurableState.policy h.state

theorem topology (h : e.Agree e') : e.state.topology = e'.state.topology :=
  show e.state.timeless.topology = e'.state.timeless.topology from
    congrArg DurableState.topology h.state

theorem idempotency (h : e.Agree e') (key : Digest) :
    e.state.findIdempotency key = e'.state.findIdempotency key :=
  show e.state.timeless.findIdempotency key = e'.state.timeless.findIdempotency key from
    congrArg (DurableState.findIdempotency · key) h.state

theorem unavailable (h : e.Agree e') : e.unavailable = e'.unavailable :=
  show e.timeless.unavailable = e'.timeless.unavailable from
    congrArg Engine.unavailable h.timeless

theorem currentAuthority (h : e.Agree e') (subject : LinkKey) (generation : LinkGeneration) :
    e.currentAuthority subject generation = e'.currentAuthority subject generation :=
  show e.timeless.currentAuthority subject generation =
    e'.timeless.currentAuthority subject generation from
    congrArg (Engine.currentAuthority · subject generation) h.timeless

theorem advance (h : e.Agree e') : e.advance.Agree e'.advance :=
  ⟨congrArg Engine.advance h.timeless, h.medium⟩

theorem withStore (h : e.Agree e') {s s' : LineageStore} (hs : s.Agree s') :
    (e.withStore s).Agree (e'.withStore s') :=
  ⟨congrArg₂ Engine.withStore h.timeless hs.timeless, hs.medium⟩

theorem markFailed (h : e.Agree e') :
    ({ e with storeFailed := true } : Engine).Agree { e' with storeFailed := true } :=
  ⟨congrArg (fun e : Engine => { e with storeFailed := true }) h.timeless, h.medium⟩

theorem shut (h : e.Agree e') : e.shut.Agree e'.shut :=
  ⟨show e.timeless.shut = e'.timeless.shut from congrArg Engine.shut h.timeless, h.medium⟩

theorem withWrite (h : e.Agree e') {w w' : LineageStore × Status} (hs : w.1.Agree w'.1)
    (hok : w.2 = w'.2) : (e.withWrite w).Agree (e'.withWrite w') := by
  refine ⟨?_, hs.medium⟩
  have hstore := hs.timeless
  change Engine.withWrite e.timeless (w.1.timeless, w.2) =
    Engine.withWrite e'.timeless (w'.1.timeless, w'.2)
  rw [h.timeless, hstore, hok]

theorem rememberDecision (h : e.Agree e') {d d' : FailoverDecision}
    (hd : d.timeless = d'.timeless) : (e.rememberDecision d).Agree (e'.rememberDecision d') := by
  have hcommute : ∀ (e : Engine) (d : FailoverDecision),
      (e.rememberDecision d).timeless = e.timeless.rememberDecision d.timeless := by
    intro e d
    unfold Engine.rememberDecision Engine.timeless
    dsimp only
    rw [List.map_drop, List.map_append, List.length_append, List.length_append, List.length_map]
    rfl
  refine ⟨?_, h.medium⟩
  rw [hcommute, hcommute, h.timeless, hd]

end Agree

theorem findAttempt_agree (h : e.Agree e') (subject : LinkKey) (seq : AttemptSeq) :
    (e.state.findAttempt subject seq = none ∧ e'.state.findAttempt subject seq = none) ∨
      ∃ found found', e.state.findAttempt subject seq = some found ∧
        e'.state.findAttempt subject seq = some found' ∧ found.timeless = found'.timeless := by
  have hfind := congrArg (DurableState.findAttempt · subject seq) h.state
  rw [DurableState.findAttempt_timeless, DurableState.findAttempt_timeless] at hfind
  cases hf : e.state.findAttempt subject seq with
  | none =>
    rw [hf] at hfind
    exact .inl ⟨rfl, Option.map_eq_none_iff.mp hfind.symm⟩
  | some found =>
    rw [hf] at hfind
    obtain ⟨found', hf', hsame⟩ := Option.map_eq_some_iff.mp hfind.symm
    exact .inr ⟨found, found', rfl, hf', hsame.symm⟩

/-! ## Commits -/

theorem writeAttempt_agree (h : e.Agree e') {r r' : AttemptRecord} (hr : r.timeless = r'.timeless)
    (w : AttemptWrite) {stamp : AttemptRecord → LineageSeq → AttemptRecord}
    (hstamp : ∀ (r : AttemptRecord) (seq : LineageSeq),
      (stamp r seq).timeless = stamp r.timeless seq) :
    (e.writeAttempt w r stamp).1.Agree (e'.writeAttempt w r' stamp).1 ∧
      (e.writeAttempt w r stamp).2 = (e'.writeAttempt w r' stamp).2 := by
  refine @LineageStore.commit_agree _ _ h.store (.attempt w r) (.attempt w r')
    (congrArg (Payload.attempt w) hr) _ _ fun seq => ?_
  rw [DurableState.noteAttempt_timeless, DurableState.noteAttempt_timeless, hstamp, hstamp, hr,
    h.store.options]
  exact congrArg _ h.state

theorem createAttempt_agree (h : e.Agree e') {r r' : AttemptRecord}
    (hr : r.timeless = r'.timeless) :
    (e.createAttempt r).1.Agree (e'.createAttempt r').1 ∧
      (e.createAttempt r).2 = (e'.createAttempt r').2 :=
  writeAttempt_agree h hr _ fun _ _ => rfl

theorem updateAttempt_agree (h : e.Agree e') {r r' : AttemptRecord}
    (hr : r.timeless = r'.timeless) (w : AttemptWrite) :
    (e.updateAttempt w r).1.Agree (e'.updateAttempt w r').1 ∧
      (e.updateAttempt w r).2 = (e'.updateAttempt w r').2 :=
  writeAttempt_agree h hr w fun _ _ => rfl

theorem writeFence_agree (h : e.Agree e') (f : FenceRecord) :
    (e.writeFence f).1.Agree (e'.writeFence f).1 ∧ (e.writeFence f).2 = (e'.writeFence f).2 := by
  refine @LineageStore.commit_agree _ _ h.store (.fence f) (.fence f) rfl _ _ fun seq => ?_
  rw [h.store.options]
  exact congrArg (DurableState.noteFence e'.store.options { f with seq := seq }) h.state

theorem commitDecision_agree (h : e.Agree e') {d d' : FailoverDecision}
    (hd : d.timeless = d'.timeless) :
    (e.commitDecision d).1.Agree (e'.commitDecision d').1 ∧
      (e.commitDecision d).2.timeless = (e'.commitDecision d').2.timeless := by
  obtain ⟨hs, hok⟩ := @LineageStore.commit_agree _ _ h.store (.decision d) (.decision d')
    (congrArg Payload.decision hd) (fun _ s => s) (fun _ s => s) fun _ => h.state
  have hengine := h.withWrite hs hok
  unfold commitDecision
  dsimp only
  rw [← hok]
  split
  · exact ⟨hengine, congrArg (fun d : FailoverDecision =>
      { d with durable := false }.because .internalError "decision could not be recorded") hd⟩
  · refine ⟨hengine, ?_⟩
    rw [← hs.lastSeq]
    dsimp only
    generalize (e.store.commit (.decision d) fun _ s => s).1.state.lastSeq = seq
    exact congrArg (fun d : FailoverDecision =>
      { d with
        lineageSeq := seq
        durable := true
        decisionId := FailoverDecision.computeId
          { d with
            lineageSeq := seq
            durable := true } }) hd

theorem commitIdempotency_agree (h : e.Agree e') {d d' : FailoverDecision}
    (hd : d.timeless = d'.timeless) (key : Digest) :
    (e.commitIdempotency d key).Agree (e'.commitIdempotency d' key) := by
  have hentry : idempotencyEntry d key = idempotencyEntry d' key :=
    show idempotencyEntry d.timeless key = idempotencyEntry d'.timeless key by rw [hd]
  have hdurable : d.durable = d'.durable :=
    show d.timeless.durable = d'.timeless.durable by rw [hd]
  unfold commitIdempotency
  rw [← hentry, ← hdurable]
  split
  · exact h
  dsimp only
  split
  · exact h
  · obtain ⟨hs, hok⟩ := @LineageStore.commit_agree _ _ h.store
      (.idempotency (idempotencyEntry d key)) _ rfl
      (fun _ s => s.noteIdempotency e.store.options (idempotencyEntry d key))
      (fun _ s => s.noteIdempotency e'.store.options (idempotencyEntry d key)) (by
        intro _
        rw [h.store.options]
        exact congrArg (DurableState.noteIdempotency e'.store.options (idempotencyEntry d key))
          h.store.state)
    exact h.withWrite hs hok

theorem maybeCheckpoint_agree (h : e.Agree e') : e.maybeCheckpoint.Agree e'.maybeCheckpoint := by
  have hcount : e.state.recordCount = e'.state.recordCount :=
    show e.state.timeless.recordCount = e'.state.timeless.recordCount from
      congrArg DurableState.recordCount h.state
  have hcheckpoint := LineageStore.checkpoint_agree h.store
  unfold maybeCheckpoint
  rw [← h.options, ← hcount, ← h.store.records]
  split
  · exact h
  split
  · exact h
  split
  · exact h
  revert hcheckpoint
  generalize e.store.checkpoint = x
  generalize e'.store.checkpoint = x'
  obtain ⟨s, r⟩ := x
  obtain ⟨s', r'⟩ := x'
  rintro ⟨hs, hr⟩
  dsimp only at hs hr
  subst hr
  cases r with
  | error status => exact (h.withStore hs).markFailed
  | ok seq => exact h.withStore hs

/-! ## Answers -/

theorem settleUndurable_agree (h : e.Agree e') {d d' : FailoverDecision}
    (hd : d.timeless = d'.timeless) : AgreeDecided (e.settleUndurable d) (e'.settleUndurable d') := by
  have hsame := congrArg (fun d : FailoverDecision =>
    { d with
      durable := false
      decisionId := FailoverDecision.computeId { d with durable := false } }) hd
  exact ⟨h.rememberDecision hsame, congrArg Except.ok hsame⟩

theorem settleDurable_agree (h : e.Agree e') {d d' : FailoverDecision}
    (hd : d.timeless = d'.timeless) (key : Digest) :
    AgreeDecided (e.settleDurable d key) (e'.settleDurable d' key) := by
  obtain ⟨he, hd⟩ := commitDecision_agree h hd
  exact ⟨(maybeCheckpoint_agree (commitIdempotency_agree he hd key)).rememberDecision hd,
    congrArg Except.ok hd⟩

theorem answer_agree (h : e.Agree e') {d d' : FailoverDecision} (hd : d.timeless = d'.timeless) :
    AgreeDecided (e.answer d) (e'.answer d') := by
  obtain ⟨he, hd⟩ := commitDecision_agree h hd
  exact ⟨he.rememberDecision hd, congrArg Except.ok hd⟩

theorem answerAndCheckpoint_agree (h : e.Agree e') {d d' : FailoverDecision}
    (hd : d.timeless = d'.timeless) :
    AgreeDecided (e.answerAndCheckpoint d) (e'.answerAndCheckpoint d') := by
  obtain ⟨he, hd⟩ := commitDecision_agree h hd
  exact ⟨(maybeCheckpoint_agree he).rememberDecision hd, congrArg Except.ok hd⟩

theorem afterWrite_agree (h : e.Agree e') {w w' : LineageStore × Status}
    (hw : w.1.Agree w'.1 ∧ w.2 = w'.2) {detail : String}
    {k k' : Engine → Engine × Result FailoverDecision}
    (hk : ∀ e e' : Engine, e.Agree e' → AgreeDecided (k e) (k' e')) :
    AgreeDecided (e.afterWrite w detail k) (e'.afterWrite w' detail k') := by
  have hengine := h.withWrite hw.1 hw.2
  unfold afterWrite
  rw [← hw.2]
  split
  · exact ⟨hengine, rfl⟩
  · exact hk _ _ hengine

/-! ## Requests -/

theorem execute_agree (h : e.Agree e') (req : FailoverRequest) {plan plan' : FailoverPlan}
    (hp : plan.timeless = plan'.timeless) :
    AgreeDecided (e.execute req plan) (e'.execute req plan') := by
  cases plan with
  | fail s =>
    cases plan' with
    | fail s' =>
      cases hp
      exact ⟨h, rfl⟩
    | _ => cases hp
  | replay d =>
    cases plan' with
    | replay d' => exact ⟨h, congrArg Except.ok (FailoverPlan.replay.inj hp)⟩
    | _ => cases hp
  | settle d durable =>
    cases plan' with
    | settle d' durable' =>
      obtain ⟨hd, rfl⟩ := FailoverPlan.settle.inj hp
      unfold execute settle
      dsimp only
      split
      · exact settleDurable_agree h hd _
      · exact settleUndurable_agree h hd
    | _ => cases hp
  | record d r =>
    cases plan' with
    | record d' r' =>
      obtain ⟨hd, hr⟩ := FailoverPlan.record.inj hp
      exact afterWrite_agree h (createAttempt_agree h hr) fun _ _ he => settleDurable_agree he hd _
    | _ => cases hp
  | grant d a =>
    cases plan' with
    | grant d' a' =>
      obtain ⟨hd, ha⟩ := FailoverPlan.grant.inj hp
      have hauthorized := congrArg (fun r : AttemptRecord => { r with phase := .authorized }) ha
      exact afterWrite_agree h (createAttempt_agree h ha) fun _ _ he =>
        afterWrite_agree he (updateAttempt_agree he hauthorized _) fun _ _ he =>
          settleDurable_agree he hd _
    | _ => cases hp

theorem requestFailover_agree (h : e.Agree e') (req : FailoverRequest) :
    AgreeDecided (e.requestFailover req) (e'.requestFailover req) := by
  unfold requestFailover
  rw [← h.unavailable]
  cases e.unavailable with
  | some s => exact ⟨h, rfl⟩
  | none =>
    refine execute_agree h.advance req ?_
    rw [← planFailover_timeless, ← planFailover_timeless, h.advance.timeless]

/-! ## Reports on attempts -/

theorem attemptDecision_agree (h : e.Agree e') {found found' : AttemptRecord}
    (hf : found.timeless = found'.timeless) (kind : DecisionKind) (assertion : Assertion) :
    (e.attemptDecision found kind assertion).timeless =
      (e'.attemptDecision found' kind assertion).timeless := by
  change e.timeless.attemptDecision found.timeless kind assertion =
    e'.timeless.attemptDecision found'.timeless kind assertion
  rw [h.timeless, hf]

/-- A decision that states an outcome and the reason for it. -/
theorem because_agree {d d' : FailoverDecision} (hd : d.timeless = d'.timeless) (outcome : Outcome)
    (code : ReasonCode) (detail : String) :
    ({ d with outcome := outcome }.because code detail).timeless =
      ({ d' with outcome := outcome }.because code detail).timeless :=
  congrArg (fun d : FailoverDecision => { d with outcome := outcome }.because code detail) hd

theorem reason_agree {d d' : FailoverDecision} (hd : d.timeless = d'.timeless) (code : ReasonCode)
    (detail : String) : (d.because code detail).timeless = (d'.because code detail).timeless :=
  congrArg (fun d : FailoverDecision => d.because code detail) hd

theorem movedTo_agree {r r' : AttemptRecord} (hr : r.timeless = r'.timeless) (phase : AttemptPhase)
    (code : ReasonCode) (detail : Bytes) :
    (movedTo r phase code detail).timeless = (movedTo r' phase code detail).timeless :=
  congrArg (movedTo · phase code detail) hr

/-- What operations look at in a record that they find. -/
structure SameFields (found found' : AttemptRecord) : Prop where
  subjectGeneration : found.subjectGeneration = found'.subjectGeneration
  attemptId : found.attemptId = found'.attemptId
  phase : found.phase = found'.phase
  revalidated : found.revalidated = found'.revalidated

theorem sameFields {found found' : AttemptRecord} (h : found.timeless = found'.timeless) :
    SameFields found found' where
  subjectGeneration :=
    show found.timeless.subjectGeneration = found'.timeless.subjectGeneration by rw [h]
  attemptId := show found.timeless.attemptId = found'.timeless.attemptId by rw [h]
  phase := show found.timeless.phase = found'.timeless.phase by rw [h]
  revalidated := show found.timeless.revalidated = found'.timeless.revalidated by rw [h]

theorem applyAttempt_agree (h : e.Agree e') {found found' : AttemptRecord}
    (hf : found.timeless = found'.timeless) (report : ApplicationReport) :
    (e.applyAttempt found report).1.timeless = (e'.applyAttempt found' report).1.timeless ∧
      (e.applyAttempt found report).2.timeless = (e'.applyAttempt found' report).2.timeless := by
  have hd := attemptDecision_agree h hf .acknowledge .acknowledgement
  unfold applyAttempt
  dsimp only
  rw [← h.policy]
  split
  · exact ⟨movedTo_agree hf _ _ _, because_agree hd _ _ _⟩
  · exact ⟨congrArg (acceptedAttempt · report.applierIncarnation
      (if e.state.policy.requireVerifiedEffect then .acknowledged else .committed)) hf,
      because_agree hd _ _ _⟩

theorem recordFound_agree (h : e.Agree e') {found found' : AttemptRecord}
    (hf : found.timeless = found'.timeless) (report : ApplicationReport) :
    AgreeDecided (e.recordFound found report) (e'.recordFound found' report) := by
  have hfields := sameFields hf
  have happlied := applyAttempt_agree h hf report
  have hphase := (sameFields happlied.1).phase
  unfold recordFound
  rw [← hfields.subjectGeneration, ← hfields.attemptId, ← hfields.phase]
  split
  · exact ⟨h, rfl⟩
  split
  · exact ⟨h, rfl⟩
  split
  · exact ⟨h, rfl⟩
  cases applicationConflict found.phase with
  | some conflict =>
    exact settleUndurable_agree h (because_agree (attemptDecision_agree h hf _ _) _ _ _)
  | none =>
    dsimp only
    rw [← hphase]
    exact afterWrite_agree h (updateAttempt_agree h happlied.1 _) fun _ _ he =>
      answerAndCheckpoint_agree he happlied.2

theorem verifyFound_agree (h : e.Agree e') {found found' : AttemptRecord}
    (hf : found.timeless = found'.timeless) (report : VerificationReport) :
    AgreeDecided (e.verifyFound found report) (e'.verifyFound found' report) := by
  have hfields := sameFields hf
  unfold verifyFound
  rw [← hfields.attemptId, ← hfields.phase]
  split
  · exact ⟨h, rfl⟩
  split
  · exact settleUndurable_agree h (because_agree (attemptDecision_agree h hf _ _) _ _ _)
  split
  · exact settleUndurable_agree h (because_agree (attemptDecision_agree h hf _ _) _ _ _)
  split
  · exact afterWrite_agree h (updateAttempt_agree h (movedTo_agree hf _ _ _) _) fun _ _ he =>
      answer_agree he (because_agree (attemptDecision_agree h hf _ _) _ _ _)
  · have hverified := movedTo_agree hf .verified .effectVerified report.detail
    have hcommitted := congrArg (fun r : AttemptRecord => { r with phase := .committed }) hverified
    exact afterWrite_agree h (updateAttempt_agree h hverified _) fun _ _ he =>
      afterWrite_agree he (updateAttempt_agree he hcommitted _) fun _ _ he =>
        answerAndCheckpoint_agree he (because_agree (attemptDecision_agree h hf _ _) _ _ _)

theorem recordApplication_agree (h : e.Agree e') (report : ApplicationReport) :
    AgreeDecided (e.recordApplication report) (e'.recordApplication report) := by
  unfold recordApplication
  rw [← h.unavailable]
  cases e.unavailable with
  | some s => exact ⟨h, rfl⟩
  | none =>
    dsimp only
    rcases findAttempt_agree h.advance report.subject report.attemptSeq with
      ⟨h1, h2⟩ | ⟨found, found', h1, h2, hf⟩
    · rw [h1, h2]
      exact ⟨h.advance, rfl⟩
    · rw [h1, h2]
      exact recordFound_agree h.advance hf report

theorem recordVerification_agree (h : e.Agree e') (report : VerificationReport) :
    AgreeDecided (e.recordVerification report) (e'.recordVerification report) := by
  unfold recordVerification
  rw [← h.unavailable]
  cases e.unavailable with
  | some s => exact ⟨h, rfl⟩
  | none =>
    dsimp only
    rcases findAttempt_agree h.advance report.subject report.attemptSeq with
      ⟨h1, h2⟩ | ⟨found, found', h1, h2, hf⟩
    · rw [h1, h2]
      exact ⟨h.advance, rfl⟩
    · rw [h1, h2]
      exact verifyFound_agree h.advance hf report

/-! ## Rollbacks and revalidations -/

theorem fenceOf_agree (h : e.Agree e') {r r' : AttemptRecord} (hr : r.timeless = r'.timeless)
    (kind : FenceKind) (detail : BoundedBytes 512) :
    e.fenceOf kind r detail = e'.fenceOf kind r' detail := by
  change e.timeless.fenceOf kind r.timeless detail = e'.timeless.fenceOf kind r'.timeless detail
  rw [h.timeless, hr]

theorem rollbackFound_agree (h : e.Agree e') {found found' : AttemptRecord}
    (hf : found.timeless = found'.timeless) (req : RollbackRequest) :
    AgreeDecided (e.rollbackFound found req) (e'.rollbackFound found' req) := by
  have hfields := sameFields hf
  unfold rollbackFound
  dsimp only
  rw [← hfields.subjectGeneration, ← hfields.phase, ← h.currentAuthority]
  split
  · exact settleUndurable_agree h (congrArg (staleDecision ·
      "the rollback binds authority that is no longer current"
      (compareAuthority req.expected (e.currentAuthority req.subject found.subjectGeneration)))
      (attemptDecision_agree h hf .rollback .observation))
  split
  · exact settleUndurable_agree h (congrArg (fun d : FailoverDecision =>
      { d with outcome := .ok, idempotentReplay := true }.because .idempotentReplay
        "the attempt was already rolled back")
      (attemptDecision_agree h hf .rollback .authorization))
  split
  · exact settleUndurable_agree h (because_agree (attemptDecision_agree h hf _ _) _ _ _)
  unfold rollbackHolder
  refine afterWrite_agree h (updateAttempt_agree h (movedTo_agree hf _ _ _) _) fun e₁ e₁' h₁ => ?_
  rw [fenceOf_agree h₁ hf]
  refine afterWrite_agree h₁ (writeFence_agree h₁ _) fun e₂ e₂' h₂ => ?_
  have hcompleted := because_agree (attemptDecision_agree h hf .rollback .authorization) .ok
    .rollbackCompleted "failover authority was revoked"
  have hdecision := reason_agree hcompleted .restoreRequiresNewGeneration
    "restoring the original link is a new generation-bound transition, not a resurrection"
  obtain ⟨he, hd⟩ := commitDecision_agree h₂ hdecision
  exact ⟨(commitIdempotency_agree he hd _).rememberDecision hd, congrArg Except.ok hd⟩

theorem requestRollback_agree (h : e.Agree e') (req : RollbackRequest) :
    AgreeDecided (e.requestRollback req) (e'.requestRollback req) := by
  unfold requestRollback
  rw [← h.closed]
  split
  · exact ⟨h, rfl⟩
  dsimp only
  rw [← h.advance.idempotency]
  cases e.advance.state.findIdempotency req.idempotencyKey with
  | some entry =>
    refine ⟨h.advance, congrArg Except.ok ?_⟩
    change e.advance.timeless.replayDecision entry = e'.advance.timeless.replayDecision entry
    rw [h.advance.timeless]
  | none =>
    dsimp only
    rcases findAttempt_agree h.advance req.subject req.attemptSeq with
      ⟨h1, h2⟩ | ⟨found, found', h1, h2, hf⟩
    · rw [h1, h2]
      exact ⟨h.advance, rfl⟩
    · rw [h1, h2]
      exact rollbackFound_agree h.advance hf req

theorem revalidatedAttempt_agree (h : e.Agree e') {found found' : AttemptRecord}
    (hf : found.timeless = found'.timeless) (verdict : RevalidationVerdict) :
    (e.revalidatedAttempt found verdict).timeless =
      (e'.revalidatedAttempt found' verdict).timeless := by
  have hcommute : ∀ (e : Engine) (found : AttemptRecord),
      (e.revalidatedAttempt found verdict).timeless =
        e.timeless.revalidatedAttempt found.timeless verdict := by
    intro e found
    cases verdict <;> rfl
  rw [hcommute, hcommute, h.timeless, hf]

theorem revalidationDecision_agree (h : e.Agree e') {found found' : AttemptRecord}
    (hf : found.timeless = found'.timeless) (verdict : RevalidationVerdict) :
    (e.revalidationDecision found verdict).timeless =
      (e'.revalidationDecision found' verdict).timeless := by
  have hcommute : ∀ (e : Engine) (found : AttemptRecord),
      (e.revalidationDecision found verdict).timeless =
        e.timeless.revalidationDecision found.timeless verdict := by
    intro e found
    cases verdict with
    | notApplied | unknown | undeclared => rfl
    | applied =>
      have hpolicy : found.timeless.authority.policyGeneration =
        found.authority.policyGeneration := rfl
      have htopology : found.timeless.authority.topologyGeneration =
        found.authority.topologyGeneration := rfl
      have hpolicy' : e.timeless.state.policy = e.state.policy := rfl
      have htopology' : e.timeless.state.topology = e.state.topology := rfl
      unfold revalidationDecision verdictDecision
      dsimp only
      rw [hpolicy, htopology, hpolicy', htopology']
      split <;> split <;> rfl
  rw [hcommute, hcommute, h.timeless, hf]

theorem settledDecision_agree (h : e.Agree e') {found found' : AttemptRecord}
    (hf : found.timeless = found'.timeless) :
    (e.settledDecision found).timeless = (e'.settledDecision found').timeless := by
  have hcommute : ∀ (e : Engine) (found : AttemptRecord),
      (e.settledDecision found).timeless = e.timeless.settledDecision found.timeless := by
    intro e found
    have hverdict : found.timeless.revalidation = found.revalidation := rfl
    unfold settledDecision
    dsimp only
    rw [hverdict]
    cases found.revalidation <;> rfl
  rw [hcommute, hcommute, h.timeless, hf]

theorem resolveFound_agree (h : e.Agree e') {found found' : AttemptRecord}
    (hf : found.timeless = found'.timeless) (req : RevalidationRequest) :
    AgreeDecided (e.resolveFound found req) (e'.resolveFound found' req) := by
  have hfields := sameFields hf
  have hupdated := revalidatedAttempt_agree h hf req.verdict
  unfold resolveFound
  dsimp only
  rw [← hfields.revalidated, ← hfields.phase, ← (sameFields hupdated).phase]
  split
  · exact settleUndurable_agree h (settledDecision_agree h hf)
  split
  · exact settleUndurable_agree h (because_agree (attemptDecision_agree h hf _ _) _ _ _)
  · exact afterWrite_agree h (updateAttempt_agree h hupdated _) fun _ _ he =>
      answer_agree he (revalidationDecision_agree h hf _)

theorem resolveInterrupted_agree (h : e.Agree e') (req : RevalidationRequest) :
    AgreeDecided (e.resolveInterrupted req) (e'.resolveInterrupted req) := by
  unfold resolveInterrupted
  rw [← h.closed, ← h.epoch]
  split
  · exact ⟨h, rfl⟩
  split
  · exact ⟨h, rfl⟩
  split
  · exact ⟨h, rfl⟩
  dsimp only
  rcases findAttempt_agree h.advance req.subject req.attemptSeq with
    ⟨h1, h2⟩ | ⟨found, found', h1, h2, hf⟩
  · rw [h1, h2]
    exact ⟨h.advance, rfl⟩
  · rw [h1, h2]
    exact resolveFound_agree h.advance hf req

/-! ## Definitions -/

theorem fenceAuthorities_agree (cause : FenceCause) {rs rs' : List AttemptRecord}
    (hrs : rs.map AttemptRecord.timeless = rs'.map AttemptRecord.timeless) (h : e.Agree e') :
    AgreeDone (fenceAuthorities cause rs e) (fenceAuthorities cause rs' e') := by
  induction rs generalizing rs' e e' with
  | nil =>
    cases rs' with
    | nil => exact ⟨h, rfl⟩
    | cons r' rs' => cases hrs
  | cons r rs ih =>
    cases rs' with
    | nil => cases hrs
    | cons r' rs' =>
      obtain ⟨hr, hrs⟩ := List.cons.inj hrs
      have haborted := congrArg (abortedAttempt · cause.detail) hr
      unfold fenceAuthorities
      rw [← (sameFields hr).phase]
      split
      · exact ih hrs h
      dsimp only
      obtain ⟨hs, hok⟩ := @updateAttempt_agree e e' h (abortedAttempt r cause.detail)
        (abortedAttempt r' cause.detail) haborted .update
      have h₁ := h.withWrite hs hok
      rw [← hok]
      split
      · exact ⟨h₁, rfl⟩
      rw [fenceOf_agree h₁ hr]
      obtain ⟨hs', hok'⟩ := writeFence_agree h₁
        ((e'.withWrite (e'.updateAttempt .update (abortedAttempt r' cause.detail))).fenceOf
          cause.kind r' ⟨text cause.detail, cause.bounded⟩)
      have h₂ := h₁.withWrite hs' hok'
      rw [← hok']
      split
      · exact ⟨h₂, rfl⟩
      · exact ih hrs h₂

theorem setDefinition_agree {Tag : Type} (h : e.Agree e') (new current : StrongUint Tag UInt64)
    (sameContent : Bool) (code : ReasonCode) (regresses conflicts : String)
    {commit commit' : Engine → LineageStore × Status}
    (hc : (commit e).1.Agree (commit' e').1 ∧ (commit e).2 = (commit' e').2) (cause : FenceCause) :
    AgreeDone (e.setDefinition new current sameContent code regresses conflicts commit cause)
      (e'.setDefinition new current sameContent code regresses conflicts commit' cause) := by
  unfold setDefinition
  dsimp only
  split
  · exact ⟨h, rfl⟩
  split
  · split
    · exact ⟨h, rfl⟩
    · exact ⟨h, rfl⟩
  have h₁ := h.withWrite hc.1 hc.2
  rw [← hc.2]
  split
  · exact ⟨h₁, rfl⟩
  · exact fenceAuthorities_agree cause (congrArg DurableState.attempts h₁.state) h₁

theorem setPolicy_agree (h : e.Agree e') (policy : FailoverPolicy) :
    AgreeDone (e.setPolicy policy) (e'.setPolicy policy) := by
  unfold setPolicy
  rw [← h.closed, ← h.policy]
  split
  · exact ⟨h, rfl⟩
  split
  · exact ⟨h, rfl⟩
  refine setDefinition_agree h _ _ _ _ _ _ ?_ _
  exact @LineageStore.commit_agree _ _ h.store (.policy policy) (.policy policy) rfl
    (fun _ d => { d with policy := policy }) (fun _ d => { d with policy := policy })
    fun _ => congrArg (fun d : DurableState => { d with policy := policy }) h.state

theorem setTopology_agree (h : e.Agree e') (topology : TopologySnapshot) :
    AgreeDone (e.setTopology topology) (e'.setTopology topology) := by
  unfold setTopology
  dsimp only
  rw [← h.closed, ← h.topology]
  split
  · exact ⟨h, rfl⟩
  split
  · exact ⟨h, rfl⟩
  refine setDefinition_agree h _ _ _ _ _ _ ?_ _
  exact @LineageStore.commit_agree _ _ h.store (.topology topology.canonicalise)
    (.topology topology.canonicalise) rfl
    (fun _ d => { d with topology := topology.canonicalise })
    (fun _ d => { d with topology := topology.canonicalise })
    fun _ => congrArg (fun d : DurableState => { d with topology := topology.canonicalise }) h.state

theorem checkpoint_agree (h : e.Agree e') : AgreeDone e.checkpoint e'.checkpoint := by
  have hcheckpoint := LineageStore.checkpoint_agree h.store
  unfold checkpoint
  rw [← h.closed]
  split
  · exact ⟨h, rfl⟩
  revert hcheckpoint
  generalize e.store.checkpoint = x
  generalize e'.store.checkpoint = x'
  obtain ⟨s, r⟩ := x
  obtain ⟨s', r'⟩ := x'
  rintro ⟨hs, hr⟩
  dsimp only at hs hr
  subst hr
  cases r with
  | error status => exact ⟨(h.withStore hs).markFailed, rfl⟩
  | ok seq => exact ⟨h.withStore hs, rfl⟩

/-- The last checkpoint of a process that is closed. -/
theorem lastCheckpoint_agree (h : e.Agree e') (st : Status) :
    AgreeDone
      (if st.isOk && e.options.enableSnapshot then
        match e.store.checkpoint with
        | (s, .error _) => ({ e.withStore s with storeFailed := true }, st)
        | (s, .ok _) => (e.withStore s, st)
      else (e, st))
      (if st.isOk && e'.options.enableSnapshot then
        match e'.store.checkpoint with
        | (s, .error _) => ({ e'.withStore s with storeFailed := true }, st)
        | (s, .ok _) => (e'.withStore s, st)
      else (e', st)) := by
  have hcheckpoint := LineageStore.checkpoint_agree h.store
  rw [← h.options]
  split
  · revert hcheckpoint
    generalize e.store.checkpoint = x
    generalize e'.store.checkpoint = x'
    obtain ⟨s, r⟩ := x
    obtain ⟨s', r'⟩ := x'
    rintro ⟨hs, hr⟩
    dsimp only at hs hr
    subst hr
    cases r with
    | error status => exact ⟨(h.withStore hs).markFailed, rfl⟩
    | ok seq => exact ⟨h.withStore hs, rfl⟩
  · exact ⟨h, rfl⟩

theorem shutDown_agree (h : e.Agree e') : AgreeDone e.shutDown e'.shutDown := by
  have hlast : e.state.lastSeq = e'.state.lastSeq := h.store.lastSeq
  have hshutdown : (Payload.shutdown
      { epoch := e.epoch, coordinator := e.incarnation, lastSeq := e.state.lastSeq }).timeless =
        (Payload.shutdown
          { epoch := e'.epoch
            coordinator := e'.incarnation
            lastSeq := e'.state.lastSeq }).timeless := by
    rw [h.epoch, h.incarnation, hlast]
  obtain ⟨hs, hok⟩ := @LineageStore.commit_agree _ _ h.store _ _ hshutdown (fun _ d => d)
    (fun _ d => d) fun _ => h.store.state
  have hdone := lastCheckpoint_agree (h.withStore hs) (e'.store.commit (.shutdown
    { epoch := e'.epoch, coordinator := e'.incarnation, lastSeq := e'.state.lastSeq })
    fun _ d => d).2
  unfold shutDown
  dsimp only
  rw [hok]
  exact hdone

theorem close_agree (h : e.Agree e') : AgreeDone e.close e'.close := by
  obtain ⟨hdown, hstatus⟩ := shutDown_agree h
  unfold close
  rw [← h.closed]
  split
  · exact ⟨h, rfl⟩
  · exact ⟨hdown.shut, hstatus⟩

/-! ## Publications -/

variable {Report : Type}

/-- The kind of report whose evidence goes without a digest. -/
def ReportKind.undigested (k : ReportKind Report) : ReportKind Report :=
  { k with digest := fun _ => .zero 32 }

/-- Taking the clocks out of a report leaves what it is about and where it is kept. -/
structure ReportKind.Unclocks (k : ReportKind Report) (f : Report → Report) : Prop where
  link : ∀ r, k.link (f r) = k.link r
  linkGeneration : ∀ r, k.linkGeneration (f r) = k.linkGeneration r
  topologyGeneration : ∀ r, k.topologyGeneration (f r) = k.topologyGeneration r
  stamp : ∀ r, k.stamp (f r) = (k.stamp r).timeless
  table : ∀ e, k.table e.timeless = (k.table e).timeless f
  put : ∀ e t, (k.put e t).timeless = k.put e.timeless (t.timeless f)

theorem failureReports_unclocks : failureReports.Unclocks FailureReport.timeless :=
  ⟨fun _ => rfl, fun _ => rfl, fun _ => rfl, fun _ => rfl, fun _ => rfl, fun _ _ => rfl⟩

theorem replacementReports_unclocks : replacementReports.Unclocks ReplacementReport.timeless :=
  ⟨fun _ => rfl, fun _ => rfl, fun _ => rfl, fun _ => rfl, fun _ => rfl, fun _ _ => rfl⟩

theorem retirePublisher_timeless (e : Engine) (p : PublisherName) :
    (e.retirePublisher p).timeless = e.timeless.retirePublisher p := by
  have hheld : ∀ {α : Type} (f : α → α) (t : SortedMap LinkKey (PublisherMap α)),
      (SortedMap.map (SortedMap.map f) t).entries.countP (fun b => b.2.contains p) =
        t.entries.countP fun b => b.2.contains p := by
    intro α f t
    change (t.entries.map _).countP _ = _
    rw [List.countP_map]
    congr 1
    funext b
    exact SortedMap.contains_map
  have herase : ∀ {α : Type} (f : α → α) (t : SortedMap LinkKey (PublisherMap α)),
      SortedMap.map (SortedMap.map f) (SortedMap.map (fun b => b.erase p) t) =
        SortedMap.map (fun b => b.erase p) (SortedMap.map (SortedMap.map f) t) := by
    intro α f t
    refine SortedMap.ext_entries ?_
    change (t.entries.map _).map _ = (t.entries.map _).map _
    rw [List.map_map, List.map_map]
    congr 1
    funext b
    exact congrArg (b.1, ·) SortedMap.map_erase
  unfold retirePublisher Engine.timeless EvidenceTable.timeless
  dsimp only
  rw [hheld, hheld, herase, herase]

theorem admitPublisher_timeless (e : Engine) (stamp : EvidenceStamp) :
    ((e.admitPublisher stamp).1.timeless, (e.admitPublisher stamp).2) =
      e.timeless.admitPublisher stamp.timeless := by
  have hfind : e.timeless.publishers.find? stamp.timeless.publisher =
    e.publishers.find? stamp.publisher := rfl
  unfold admitPublisher
  rw [hfind]
  cases e.publishers.find? stamp.publisher with
  | none =>
    dsimp only
    by_cases hfull : e.publishers.size ≥ e.options.limits.maxTrackedPublishers
    · rw [if_pos hfull]
      exact (if_pos hfull).symm
    · rw [if_neg hfull]
      exact (if_neg hfull).symm
  | some p =>
    dsimp only
    by_cases hsame : p.incarnation = stamp.publisherIncarnation
    · rw [if_pos hsame, if_pos (show _ = stamp.timeless.publisherIncarnation from hsame)]
    rw [if_neg hsame, if_neg (show ¬_ = stamp.timeless.publisherIncarnation from hsame)]
    by_cases hold : stamp.publisherEpoch < p.epoch
    · rw [if_pos hold, if_pos (show stamp.timeless.publisherEpoch < _ from hold)]
      rfl
    rw [if_neg hold, if_neg (show ¬stamp.timeless.publisherEpoch < _ from hold)]
    by_cases hepoch : stamp.publisherEpoch = p.epoch
    · rw [if_pos hepoch, if_pos (show stamp.timeless.publisherEpoch = _ from hepoch)]
    · rw [if_neg hepoch, if_neg (show ¬stamp.timeless.publisherEpoch = _ from hepoch)]
      exact congrArg (·, Status.success) (retirePublisher_timeless _ _)

theorem admitReport_timeless {k : ReportKind Report} {f : Report → Report} (hk : k.Unclocks f)
    (e : Engine) (report : Report) :
    e.timeless.admitReport k.undigested (f report) = e.admitReport k report := by
  unfold admitReport
  simp only [ReportKind.undigested, hk.link, hk.linkGeneration, hk.topologyGeneration, hk.stamp]
  rfl

theorem retainReport_timeless {k : ReportKind Report} {f : Report → Report} (hk : k.Unclocks f)
    (e : Engine) (report : Report) :
    ((e.retainReport k report).1.timeless, (e.retainReport k report).2) =
      e.timeless.retainReport k.undigested (f report) := by
  have hreplayed : ∀ link stamp,
      e.timeless.sequenceReplayed link (EvidenceStamp.timeless stamp) =
        e.sequenceReplayed link stamp := fun _ _ => rfl
  have hbucket : ((k.table e.timeless).find? (k.link report)).getD .empty =
      SortedMap.map (Retained.timeless f) (((k.table e).find? (k.link report)).getD .empty) := by
    rw [hk.table, EvidenceTable.timeless, SortedMap.find?_map]
    cases (k.table e).find? (k.link report) <;> rfl
  have hput : ∀ bucket : PublisherMap (Retained Report),
      (k.put e ((k.table e).insert LinkKey.less (k.link report) bucket)).timeless =
        k.put e.timeless ((k.table e.timeless).insert LinkKey.less (k.link report)
          (SortedMap.map (Retained.timeless f) bucket)) := by
    intro bucket
    rw [hk.put, hk.table]
    exact congrArg (k.put e.timeless) SortedMap.map_insert
  have hinsert : ∀ bucket : PublisherMap (Retained Report),
      SortedMap.map (Retained.timeless f)
          (bucket.insert nameLess (k.stamp report).publisher (e.retain report (k.digest report))) =
        (SortedMap.map (Retained.timeless f) bucket).insert nameLess (k.stamp report).publisher
          (e.timeless.retain (f report) (.zero 32)) := fun _ => SortedMap.map_insert
  have hfull : decide (e.timeless.evidenceEntries ≥
      e.timeless.options.limits.maxEvidenceEntries) =
    decide (e.evidenceEntries ≥ e.options.limits.maxEvidenceEntries) := rfl
  have hpublisher : (k.stamp report).timeless.publisher = (k.stamp report).publisher := rfl
  unfold retainReport
  dsimp only [ReportKind.undigested]
  rw [hk.link, hk.stamp, hreplayed, hbucket, hpublisher, SortedMap.contains_map, hfull]
  generalize ((k.table e).find? (k.link report)).getD .empty = bucket
  split
  · rfl
  split
  · exact congrArg (·, _) (hput bucket)
  · refine congrArg (·, Status.success) ?_
    rw [← hinsert, ← hput]
    rfl

/-- Without clocks, a publication is one of the report without its clock. -/
theorem publish_timeless {k : ReportKind Report} {f : Report → Report} (hk : k.Unclocks f)
    (e : Engine) (report : Report) :
    ((e.publish k report).1.timeless, (e.publish k report).2) =
      e.timeless.publish k.undigested (f report) := by
  have hadmitted : e.timeless.advance.admitPublisher (k.undigested.stamp (f report)) =
      ((e.advance.admitPublisher (k.stamp report)).1.timeless,
        (e.advance.admitPublisher (k.stamp report)).2) := by
    rw [admitPublisher_timeless]
    exact congrArg (e.timeless.advance.admitPublisher ·) (hk.stamp report)
  unfold publish
  rw [admitReport_timeless hk]
  cases e.admitReport k report with
  | some s => rfl
  | none =>
    dsimp only
    rw [hadmitted]
    dsimp only
    split
    · rfl
    · exact retainReport_timeless hk _ _

theorem publish_agree {k : ReportKind Report} {f : Report → Report} (hk : k.Unclocks f)
    (hm : ∀ e r, (Engine.publish e k r).1.store = e.store) (h : e.Agree e') {r r' : Report}
    (hr : f r = f r') : AgreeDone (e.publish k r) (e'.publish k r') := by
  have hsame : ((e.publish k r).1.timeless, (e.publish k r).2) =
      ((e'.publish k r').1.timeless, (e'.publish k r').2) := by
    rw [publish_timeless hk, publish_timeless hk, h.timeless, hr]
  obtain ⟨hengine, hstatus⟩ := Prod.mk.inj hsame
  refine ⟨⟨hengine, ?_⟩, hstatus⟩
  rw [hm, hm]
  exact h.medium

theorem publishFailureReport_agree (h : e.Agree e') {r r' : FailureReport}
    (hr : r.timeless = r'.timeless) :
    AgreeDone (e.publishFailureReport r) (e'.publishFailureReport r') :=
  publish_agree failureReports_unclocks (fun e r => (e.publishFailureReport_adds r).1.store) h hr

theorem publishReplacementReport_agree (h : e.Agree e') {r r' : ReplacementReport}
    (hr : r.timeless = r'.timeless) :
    AgreeDone (e.publishReplacementReport r) (e'.publishReplacementReport r') :=
  publish_agree replacementReports_unclocks
    (fun e r => (e.publishReplacementReport_adds r).1.store) h hr

/-! ## Directives -/

theorem pendingDirectives_agree (h : e.Agree e') (maxCount : Nat) :
    (e.pendingDirectives maxCount).map ApplyDirective.timeless =
      (e'.pendingDirectives maxCount).map ApplyDirective.timeless := by
  have hcommute : ∀ e : Engine, (e.pendingDirectives maxCount).map ApplyDirective.timeless =
      e.timeless.pendingDirectives maxCount := by
    intro e
    have hclosed : e.timeless.closed = e.closed := rfl
    have hpending : e.timeless.state.attempts.filter isPending =
        (e.state.attempts.filter isPending).map AttemptRecord.timeless := by
      change (e.state.attempts.map AttemptRecord.timeless).filter isPending = _
      rw [List.filter_map]
      rfl
    have hsort : BoundedTable.sortBy attemptLess
        ((e.state.attempts.filter isPending).map AttemptRecord.timeless) =
          (BoundedTable.sortBy attemptLess (e.state.attempts.filter isPending)).map
            AttemptRecord.timeless := (BoundedTable.map_sortBy _ fun _ _ => rfl).symm
    unfold pendingDirectives
    rw [hclosed, hpending, hsort]
    split
    · rfl
    · rw [List.map_map, ← List.map_take, List.map_map]
      rfl
  rw [hcommute, hcommute, h.timeless]

theorem takeDirective_agree (h : e.Agree e') (subject : LinkKey) (generation : LinkGeneration)
    (seq : AttemptSeq) : (e.takeDirective subject generation seq).map ApplyDirective.timeless =
      (e'.takeDirective subject generation seq).map ApplyDirective.timeless := by
  unfold takeDirective
  rw [← h.closed]
  split
  · rfl
  rcases findAttempt_agree h subject seq with ⟨h1, h2⟩ | ⟨found, found', h1, h2, hf⟩
  · rw [h1, h2]
  · have hgeneration := congrArg AttemptRecord.subjectGeneration hf
    have hpending := congrArg isPending hf
    have hdirective : ∀ (e : Engine) (r : AttemptRecord),
        (e.directiveOf r).timeless = e.timeless.directiveOf r.timeless := fun _ _ => rfl
    change found.subjectGeneration = found'.subjectGeneration at hgeneration
    change isPending found = isPending found' at hpending
    rw [h1, h2]
    dsimp only
    rw [← hgeneration, ← hpending]
    split
    · rfl
    · exact congrArg some (by rw [hdirective, hdirective, h.timeless, hf])

end Engine

/-! ## Runs -/

/-- An operation whose reports read a stopped clock. -/
def Operation.timeless : Operation → Operation
  | .publishFailure report => .publishFailure report.timeless
  | .publishReplacement report => .publishReplacement report.timeless
  | op => op

def Answer.timeless : Answer → Answer
  | .status s => .status s
  | .decision r => .decision (r.map FailoverDecision.timeless)

namespace Engine

variable {e e' : Engine}

/-- What the operations of a run return, in their order. -/
def answers (e : Engine) : List Operation → List Answer
  | [] => []
  | op :: ops => (e.perform op).2 :: (e.perform op).1.answers ops

theorem perform_agree (h : e.Agree e') {op op' : Operation} (ho : op.timeless = op'.timeless) :
    (e.perform op).1.Agree (e'.perform op').1 ∧
      (e.perform op).2.timeless = (e'.perform op').2.timeless := by
  have hdone : ∀ {r r' : Engine × Status}, AgreeDone r r' →
      (r.map id Answer.status).1.Agree (r'.map id Answer.status).1 ∧
        (r.map id Answer.status).2.timeless = (r'.map id Answer.status).2.timeless :=
    fun hr => ⟨hr.engine, congrArg Answer.status hr.answer⟩
  have hdecided : ∀ {r r' : Engine × Result FailoverDecision}, AgreeDecided r r' →
      (r.map id Answer.decision).1.Agree (r'.map id Answer.decision).1 ∧
        (r.map id Answer.decision).2.timeless = (r'.map id Answer.decision).2.timeless :=
    fun hr => ⟨hr.engine, congrArg Answer.decision hr.answer⟩
  cases op with
  | publishFailure report =>
    cases op' with
    | publishFailure report' =>
      exact hdone (publishFailureReport_agree h (Operation.publishFailure.inj ho))
    | _ => cases ho
  | publishReplacement report =>
    cases op' with
    | publishReplacement report' =>
      exact hdone (publishReplacementReport_agree h (Operation.publishReplacement.inj ho))
    | _ => cases ho
  | requestFailover req => cases op' <;> cases ho; exact hdecided (requestFailover_agree h req)
  | recordApplication report =>
    cases op' <;> cases ho; exact hdecided (recordApplication_agree h report)
  | recordVerification report =>
    cases op' <;> cases ho; exact hdecided (recordVerification_agree h report)
  | requestRollback req => cases op' <;> cases ho; exact hdecided (requestRollback_agree h req)
  | resolveInterrupted req =>
    cases op' <;> cases ho; exact hdecided (resolveInterrupted_agree h req)
  | setPolicy policy => cases op' <;> cases ho; exact hdone (setPolicy_agree h policy)
  | setTopology topology => cases op' <;> cases ho; exact hdone (setTopology_agree h topology)
  | checkpoint => cases op' <;> cases ho; exact hdone (checkpoint_agree h)
  | close => cases op' <;> cases ho; exact hdone (close_agree h)

theorem performAll_agree (h : e.Agree e') {ops ops' : List Operation}
    (ho : ops.map Operation.timeless = ops'.map Operation.timeless) :
    (e.performAll ops).Agree (e'.performAll ops') ∧
      (e.answers ops).map Answer.timeless = (e'.answers ops').map Answer.timeless := by
  induction ops generalizing e e' ops' with
  | nil =>
    cases ops' with
    | nil => exact ⟨h, rfl⟩
    | cons op' ops' => cases ho
  | cons op ops ih =>
    cases ops' with
    | nil => cases ho
    | cons op' ops' =>
      obtain ⟨hop, hops⟩ := List.cons.inj ho
      obtain ⟨hengine, hanswer⟩ := perform_agree h hop
      obtain ⟨hrun, hanswers⟩ := ih hengine hops
      refine ⟨hrun, ?_⟩
      rw [answers, answers, List.map_cons, List.map_cons, hanswer, hanswers]

theorem Agree.refl (e : Engine) : e.Agree e := ⟨rfl, rfl, rfl, rfl, rfl, rfl, rfl⟩

/-- Whatever the clocks of the publishers read, a run returns the same, hands out the same
directives and ends in the same state. -/
theorem wall_clocks (e : Engine) (ops ops' : List Operation)
    (h : ops.map Operation.timeless = ops'.map Operation.timeless) :
    (e.performAll ops).Agree (e.performAll ops') ∧
      (e.answers ops).map Answer.timeless = (e.answers ops').map Answer.timeless ∧
      (∀ maxCount,
        ((e.performAll ops).pendingDirectives maxCount).map ApplyDirective.timeless =
          ((e.performAll ops').pendingDirectives maxCount).map ApplyDirective.timeless) ∧
      ∀ subject generation seq,
        ((e.performAll ops).takeDirective subject generation seq).map ApplyDirective.timeless =
          ((e.performAll ops').takeDirective subject generation seq).map
            ApplyDirective.timeless := by
  obtain ⟨hengine, hanswers⟩ := performAll_agree (.refl e) h
  exact ⟨hengine, hanswers, pendingDirectives_agree hengine, takeDirective_agree hengine⟩

end Engine

/-- The primary link is reported again, at a reading of the publisher's clock. -/
def Sample.downAt (clock : Int64) : Operation :=
  .publishFailure
    { subject := primary
      linkGeneration := ⟨1⟩
      topologyGeneration := ⟨1⟩
      state := .down
      confidence := ⟨1000⟩
      stamp := { stamp 2 with wallClockMs := clock } }

/-- A failover that is granted on a report from the beginning of the publisher's time is granted on
one from the future, too. -/
theorem wall_clocks_sample :
    ∃ e : Engine, System.run (Sample.booted {} {}) = .up e ∧
      (e.perform (Sample.downAt 0)).1.Grants (Sample.request ⟨1⟩) ∧
      (e.answers [Sample.downAt 0, .requestFailover (Sample.request ⟨1⟩)]).map Answer.timeless =
        (e.answers [Sample.downAt 4102444800000, .requestFailover (Sample.request ⟨1⟩)]).map
          Answer.timeless := by
  obtain ⟨e, he, hgrants⟩ := @System.of_serves (System.run (Sample.booted {} {}))
    (fun e : Engine => (e.perform (Sample.downAt 0)).1.grants (Sample.request ⟨1⟩))
    (by decide +kernel)
  have hrun := Engine.wall_clocks e [Sample.downAt 0, .requestFailover (Sample.request ⟨1⟩)]
    [Sample.downAt 4102444800000, .requestFailover (Sample.request ⟨1⟩)] rfl
  exact ⟨e, he, Engine.grants_iff.mp hgrants, hrun.2.1⟩

end LinkFailover
