import LinkFailover.Checkpoints
import LinkFailover.Commits

/-!
# Checkpoints that are cut off

A checkpoint replaces the snapshot and then the journal. In front of the first step the directory
is the one it was, and behind the second one it is read back. Between the two the journal still
begins in front of the snapshot, and the writer of the next process insists that it begins where
the snapshot ends: the records that the replay would skip keep every later process from opening
the directory.

* `LineageStore.HasRecords`: a process that can write has records behind its snapshot.
* `Stranded`: a directory that no process opens any more.
* `checkpoint_crash`: what is left behind at each step.
-/

namespace LinkFailover

open Codec

/-! ## Records behind the snapshot -/

/-- There is a record behind the snapshot as long as the store can write: every boot leaves one, and
so does every checkpoint. -/
def LineageStore.HasRecords (s : LineageStore) : Prop :=
  s.failed = false → s.disk.records ≠ []

theorem commit_hasRecords {s : LineageStore} {p : Payload} {apply : Applies} :
    (s.commit p apply).1.HasRecords := by
  have ho := s.commit_outcome p apply
  revert ho
  generalize (s.commit p apply).1 = s'
  generalize (s.commit p apply).2 = st
  intro ho hf
  cases ho with
  | refused _ failed | lost _ _ failed =>
    rw [failed] at hf
    cases hf
  | done _ _ _ _ _ _ history =>
    rw [LineageStore.disk, history, Disk.ofHistory_append, Disk.step]
    simp

theorem checkpoint_hasRecords {s : LineageStore} (h : s.HasRecords) :
    s.checkpoint.1.HasRecords := by
  have ho := s.checkpoint_outcome
  revert ho
  generalize s.checkpoint.1 = s'
  intro ho
  cases ho with
  | unchanged _ _ failed history =>
    intro hf
    rw [LineageStore.disk, history]
    exact h (failed ▸ hf)
  | broken _ _ failed =>
    intro hf
    rw [failed] at hf
    cases hf
  | rotated => exact commit_hasRecords

theorem Commits.hasRecords {K : Payload → Applies → Prop} {s s' : LineageStore}
    (h : Commits K s s') (hs : s.HasRecords) : s'.HasRecords := by
  induction h with
  | refl => exact hs
  | commit => exact commit_hasRecords
  | checkpoint => exact checkpoint_hasRecords hs
  | trans _ _ ih ih' => exact ih' (ih hs)

theorem bootStore_hasRecords {s : LineageStore} {incarnation : Incarnation}
    {build : Engine.Build} {epoch : Epoch}
    (h : (Engine.bootStore s incarnation build).2 = .ok epoch) :
    (Engine.bootStore s incarnation build).1.HasRecords := by
  revert h
  unfold Engine.bootStore
  cases Engine.nextBoot s.state incarnation build with
  | error e => exact fun h => by cases h
  | ok boot =>
    dsimp only
    split
    · exact fun h => by cases h
    have hwalk := @fenceAttempts_commits boot.epoch incarnation
      (s.commit (.boot boot) fun _ d => d.noteEpoch boot).1.state.attempts
      (s.commit (.boot boot) fun _ d => d.noteEpoch boot).1.state.attempts (fun _ h => h)
      (s.commit (.boot boot) fun _ d => d.noteEpoch boot).1
    have hrecords := hwalk.hasRecords commit_hasRecords
    rw [LineageStore.fenceRestartAuthority]
    revert hrecords
    generalize LineageStore.fenceAttempts boot.epoch incarnation
      (s.commit (.boot boot) fun _ d => d.noteEpoch boot).1.state.attempts
      (s.commit (.boot boot) fun _ d => d.noteEpoch boot).1 = w
    obtain ⟨s', r⟩ := w
    intro hrecords
    cases r with
    | error _ => exact fun h => by cases h
    | ok _ => exact fun _ => hrecords

/-- A process of a run has records behind its snapshot. -/
theorem System.run_hasRecords {actions : List Action} {e : Engine} (h : run actions = .up e) :
    e.store.HasRecords := by
  induction actions using List.reverseRecOn generalizing e with
  | nil => cases h
  | append_singleton actions a ih =>
    rw [run_append] at h
    revert h ih
    generalize run actions = s
    intro ih h
    cases s with
    | down m =>
      cases a with
      | start b =>
        rw [step, Boot.open] at h
        have hnew := @openEngine_new b.options b.incarnation b.build (b.medium m)
        revert hnew h
        generalize Engine.openEngine b.options b.incarnation b.build (b.medium m) = w
        obtain ⟨m', r⟩ := w
        intro h hnew
        cases r with
        | error _ => cases h
        | ok e' =>
          cases h
          obtain ⟨s, -, epoch, hboot, hfields⟩ := hnew rfl
          rw [hfields]
          exact bootStore_hasRecords hboot
      | perform | kill => cases h
    | up e' =>
      cases a with
      | perform op =>
        cases h
        obtain ⟨s, hs, h | h⟩ := e'.perform_stores op
        · rw [h]
          exact hs.hasRecords (ih rfl)
        · rw [h]
          exact fun hf => Bool.noConfusion hf
      | start =>
        cases h
        exact ih rfl
      | kill => cases h

/-! ## Directories that nobody opens -/

/-- A journal that does not begin where the snapshot ends. -/
structure Stranded (m : Medium) : Prop where
  ok : MediumOk False m
  apart : (Disk.ofHistory m.history).base ≠ (Disk.ofHistory m.history).covered

/-- An open of such a directory is refused, and leaves it as it is. -/
theorem Stranded.open {m : Medium} (h : Stranded m) (b : Boot) :
    ∃ m' st, b.open m = (m', .error st) ∧ Stranded m' := by
  have hok : MediumOk False (b.medium m) := ⟨h.ok.trace, h.ok.represents⟩
  unfold Boot.open
  rcases @openEngine_cases _ b.options b.incarnation b.build _ hok with
    ⟨m', st, hopen, hm, hh⟩ | ⟨s, d, events, hstore, -, -, -, -, -, -, -⟩
  · refine ⟨m', st, hopen, hm, ?_⟩
    rw [hh]
    exact h.apart
  · obtain ⟨-, hbase, -, -⟩ :=
      LineageStore.openStore_ok hok.represents (fun d hd => hok.sound hd) hstore
    exact absurd hbase h.apart

theorem Stranded.step {m : Medium} (h : Stranded m) (a : Action) :
    ∃ m', (System.down m).step a = .down m' ∧ Stranded m' := by
  cases a with
  | start b =>
    obtain ⟨m', st, hopen, hm'⟩ := h.open b
    exact ⟨m', by rw [System.step, hopen], hm'⟩
  | perform | kill => exact ⟨m, rfl, h⟩

/-- No process ever comes up on such a directory. -/
theorem Stranded.run {m : Medium} (h : Stranded m) (actions : List Action) :
    ∃ m', actions.foldl System.step (.down m) = .down m' ∧ Stranded m' := by
  induction actions generalizing m with
  | nil => exact ⟨m, rfl, h⟩
  | cons a actions ih =>
    obtain ⟨m', hstep, hm'⟩ := h.step a
    rw [List.foldl_cons, hstep]
    exact ih hm'

/-! ## The steps of a checkpoint -/

/-- What a checkpoint that fails at a step leaves of the store. -/
def LineageStore.cut (s : LineageStore) (framed : Bytes) : CheckpointFault → LineageStore
  | .snapshot => s
  | .staging n => (s.replaceSnapshot framed (staged (some n) s.state.lastSeq)).markFailed
  | .rename => (s.replaceSnapshot framed (staged none s.state.lastSeq)).markFailed
  | .reopen => (s.rotate framed (staged none s.state.lastSeq)).markFailed

/-- Whether a step lies between the two replacements. -/
def CheckpointFault.between : CheckpointFault → Bool
  | .staging _ | .rename => true
  | _ => false

section Steps

variable {e : Engine}

theorem Reachable.serialise (h : Reachable e) (hf : e.store.failed = false) :
    e.state.serialise = .ok (e.state.encode {}).buffer :=
  DurableState.serialise_ok (Engine.ok_state h.ok hf).sound

theorem checkpoint_cut (h : Reachable e) (hf : e.store.failed = false) {f : CheckpointFault}
    (hfault : e.store.medium.nextCheckpointFault = some f) :
    e.store.checkpoint.1 =
      ({ e.store with medium := e.store.medium.popCheckpointFault } : LineageStore).cut
        (frameSnapshot (e.state.encode {}).buffer) f := by
  have hs : e.store.state.serialise = _ := h.serialise hf
  unfold LineageStore.checkpoint
  rw [if_neg (by simp [hf]), hs]
  dsimp only
  cases f <;> simp only [hfault, LineageStore.cut]

/-- A snapshot over the whole journal, and a record in the journal. -/
theorem stranded_replaced (h : Reachable e) (hf : e.store.failed = false)
    (hh : e.store.checkpoint.1.medium.history =
      e.store.medium.history ++ [.checkpointed e.state false]) :
    Stranded e.store.checkpoint.1.medium := by
  have htrace := Engine.ok_trace h.ok hf
  have hpath : MediumOk False e.store.checkpoint.1.medium :=
    mediumOk_stopped (Trace.checkpoint h.ok.trace) h.ok.store.checkpoint
  refine ⟨hpath, fun hb => ?_⟩
  rw [hh, Disk.ofHistory_append] at hb
  obtain ⟨actions, hrun⟩ := h
  refine System.run_hasRecords hrun hf ?_
  change (Disk.ofHistory e.store.medium.history).records = []
  obtain ⟨before, hl, hbase⟩ := htrace.numbered.1.suffix
  have hall := htrace.numbered.1.last
  have hlast := htrace.numbered.2 _ _ _ rfl
  have hcovered : (Disk.ofHistory e.store.medium.history).base = e.state.lastSeq := hb
  rw [← hlast, ← hcovered, ← hbase, hl, List.length_append] at hall
  exact List.length_eq_zero_iff.mp (by omega)

/-- The directory of a checkpoint whose journal was replaced and not opened again. -/
theorem restores_rotated (h : Reachable e) (hf : e.store.failed = false)
    (hfault : e.store.medium.nextCheckpointFault = some .reopen) {o : StoreOptions}
    (ho : o.Suits e.state) :
    Restores o e.store.checkpoint.1.medium.calm e.state ↔
      (frameSnapshot (e.state.encode {}).buffer).length ≤ kMaxSnapshotBytes ∧
        e.state.Declared := by
  have hcut := checkpoint_cut h hf hfault
  have hstate := Engine.ok_state h.ok hf
  have hok : e.store.checkpoint.1.StoreOk := h.ok.store.checkpoint
  have hdisk : e.store.checkpoint.1.disk =
      { snapshot := some e.state, base := e.state.lastSeq, records := [] } := by
    rw [hcut, LineageStore.disk]
    change Disk.ofHistory (e.store.medium.history ++ [.checkpointed e.state true]) = _
    rw [Disk.ofHistory_append]
    rfl
  have hjournal : e.store.checkpoint.1.medium.calm.directory.journal =
      some (buildJournalHeader e.state.lastSeq) := by
    rw [hcut]
    exact LineageStore.staged_none _
  have hrep := hok.represents
  rw [hdisk] at hrep
  have hsound : ∀ d, (some e.state : Option DurableState) = some d → d.Sound := by
    rintro d ⟨⟩
    exact hstate.sound
  have hrep' : Represents e.store.checkpoint.1.medium.calm.directory _ := hrep
  constructor
  · rintro ⟨t, ht, -⟩
    have hopen : LineageStore.openStore o e.store.checkpoint.1.medium.calm =
        ((LineageStore.openStore o e.store.checkpoint.1.medium.calm).1, .ok t) := by rw [← ht]
    obtain ⟨hs, -⟩ := LineageStore.openStore_ok hrep' hsound hopen
    exact ⟨(hs _ rfl).size, (hs _ rfl).declared⟩
  · rintro ⟨hsize, hdeclared⟩
    obtain ⟨m', d, events, hd, hopen⟩ := LineageStore.openStore_accepts (o := o) hrep' hsound
      { policy := ho.policy
        topology := ho.topology
        restorable := by
          rintro d ⟨⟩
          exact ⟨hsize, hdeclared, ho.fabric.symm, hstate.policy, hstate.topology⟩
        base := rfl
        size := by
          intro file hfile
          cases hjournal.symm.trans hfile
          rw [buildJournalHeader_length]
          decide
        repair := .inr (hjournal.trans (by simp [Disk.views]))
        fault := rfl
        replay := ⟨_, rfl⟩ }
    cases hd
    exact ⟨_, congrArg Prod.snd hopen, rfl⟩

/-- What a checkpoint leaves behind when it fails, or the process dies, at one of its steps:

* in front of the snapshot the files and the history are what they were;
* between the snapshot and the journal no process ever opens the directory again;
* behind the journal the state is read back, as far as the reader takes a snapshot of its size and
  the numbers in its enumerations. -/
theorem checkpoint_crash (h : Reachable e) (hf : e.store.failed = false) {f : CheckpointFault}
    (hfault : e.store.medium.nextCheckpointFault = some f) :
    (f = .snapshot → e.store.checkpoint.1.medium.directory = e.store.medium.directory ∧
      e.store.checkpoint.1.medium.history = e.store.medium.history) ∧
    (f.between = true → ∀ (more : List Action) (e' : Engine),
      more.foldl System.step (.down e.store.checkpoint.1.medium) ≠ .up e') ∧
    (f = .reopen → ∀ o : StoreOptions, o.Suits e.state →
      (Restores o e.store.checkpoint.1.medium.calm e.state ↔
        (frameSnapshot (e.state.encode {}).buffer).length ≤ kMaxSnapshotBytes ∧
          e.state.Declared)) := by
  have hcut := checkpoint_cut h hf hfault
  refine ⟨?_, fun hb more e' hup => ?_, ?_⟩
  · rintro rfl
    rw [hcut]
    exact ⟨rfl, rfl⟩
  · have hh : e.store.checkpoint.1.medium.history =
        e.store.medium.history ++ [.checkpointed e.state false] := by
      rw [hcut]
      cases f with
      | staging | rename => rfl
      | snapshot | reopen => cases hb
    obtain ⟨m', hdown, -⟩ := (stranded_replaced h hf hh).run more
    rw [hdown] at hup
    cases hup
  · rintro rfl o ho
    exact restores_rotated h hf hfault ho

end Steps

/-- A process whose first checkpoint is cut off behind its snapshot. -/
theorem checkpoint_crash_sample : ∃ (e : Engine) (f : CheckpointFault), Reachable e ∧
    e.store.medium.nextCheckpointFault = some f ∧ f.between = true ∧
      ∀ (more : List Action) (e' : Engine),
        more.foldl System.step (.down e.store.checkpoint.1.medium) ≠ .up e' := by
  let b : Boot :=
    { options := Sample.options {} {}
      incarnation := Sample.incarnation 1
      checkpointFaults := [some .rename] }
  have hserves : (System.run [.start b]).serves (fun e => !e.store.failed &&
      e.store.medium.nextCheckpointFault.any CheckpointFault.between) = true := by
    decide +kernel
  obtain ⟨e, he, hp⟩ := System.of_serves hserves
  rw [Bool.and_eq_true, Bool.not_eq_true', Option.any_eq_true] at hp
  obtain ⟨hf, f, hfault, hbetween⟩ := hp
  exact ⟨e, f, ⟨_, he⟩, hfault, hbetween, (checkpoint_crash ⟨_, he⟩ hf hfault).2.1 hbetween⟩

end LinkFailover
