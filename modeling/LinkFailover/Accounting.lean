import LinkFailover.Acceptance

/-!
# What a checkpoint has left behind

A store counts the records behind its snapshot, to know when the next checkpoint is due, and those
of the lineage. An open takes neither from the journal: it starts the first counter at zero, and
the second one where the snapshot had it. So both fall short by the records that the open read.

* `LineageStore.Counts`: the counters agree with the files.
* `Path.counts`: no write of a process loses count, unless the medium cuts it off.
* `counts_kept`: in which runs the counters are right.
-/

namespace LinkFailover

open Codec

/-! ## The counters -/

/-- The records above the watermark of the snapshot, which the next start has to read. -/
def Disk.uncovered (k : Disk) : List Entry := k.records.filter fun r => decide (k.covered < r.1)

/-- The counters of a store agree with its files. -/
structure LineageStore.Counts (s : LineageStore) : Prop where
  since : s.recordsSinceSnapshot.toNat = s.disk.uncovered.length
  count : s.state.recordCount.toNat = (lineage s.medium.history).length

/-- The snapshot of a disk was taken with the right count. -/
def Disk.SnapshotCounts (k : Disk) : Prop :=
  ∀ d, k.snapshot = some d → d.recordCount.toNat = d.lastSeq.toNat

/-- A record is on the medium, and its commit was reported as a failure. -/
def Event.lost : Event → Bool
  | .committed _ _ _ _ ack => !ack
  | _ => false

/-- The snapshot of a checkpoint is on the medium, and the checkpoint is reported as a failure. -/
def cutsOff : Option CheckpointFault → Bool
  | none | some .snapshot => false
  | some (.staging _) | some .rename | some .reopen => true

/-- What is on the medium between two stores was reported so: none of the records is lost, and none
of the faults that the checkpoints met came behind the snapshot. -/
structure Reported (s s' : LineageStore) : Prop where
  records : ∃ events, s'.medium.history = s.medium.history ++ events ∧
    ∀ x ∈ events, x.lost = false
  checkpoints : ∃ met, s.medium.checkpointFaults = met ++ s'.medium.checkpointFaults ∧
    ∀ f ∈ met, cutsOff f = false

theorem Reported.refl (s : LineageStore) : Reported s s :=
  ⟨⟨[], (List.append_nil _).symm, by simp⟩, ⟨[], rfl, by simp⟩⟩

section Steps

variable {wire : Prop} {s s' s'' : LineageStore} {j j' : Job} {p : Payload}
  {apply : LineageSeq → DurableState → DurableState}

theorem Reported.trans (h : Reported s s') (h' : Reported s' s'') : Reported s s'' := by
  obtain ⟨events, hh, hl⟩ := h.records
  obtain ⟨events', hh', hl'⟩ := h'.records
  obtain ⟨met, hf, hc⟩ := h.checkpoints
  obtain ⟨met', hf', hc'⟩ := h'.checkpoints
  refine ⟨⟨events ++ events', by rw [hh', hh, List.append_assoc], fun x hx => ?_⟩,
    ⟨met ++ met', by rw [hf, hf', List.append_assoc], fun f hm => ?_⟩⟩
  · exact (List.mem_append.mp hx).elim (hl x) (hl' x)
  · exact (List.mem_append.mp hm).elim (hc f) (hc' f)

/-- What a store has left of a history and of faults. -/
structure Behind (s s' : LineageStore) : Prop where
  history : s.medium.history <+: s'.medium.history
  faults : s'.medium.checkpointFaults <:+ s.medium.checkpointFaults

theorem Behind.trans (h : Behind s s') (h' : Behind s' s'') : Behind s s'' :=
  ⟨h.history.trans h'.history, h'.faults.trans h.faults⟩

/-- Whatever is reported over two stretches is reported over each of them. -/
theorem Reported.split (h : Reported s s'') (h1 : Behind s s') (h2 : Behind s' s'') :
    Reported s s' ∧ Reported s' s'' := by
  obtain ⟨events, hh, hl⟩ := h.records
  obtain ⟨met, hf, hc⟩ := h.checkpoints
  obtain ⟨e1, h1h⟩ := h1.history
  obtain ⟨e2, h2h⟩ := h2.history
  obtain ⟨m1, h1f⟩ := h1.faults
  obtain ⟨m2, h2f⟩ := h2.faults
  obtain rfl : events = e1 ++ e2 := by
    rw [← h2h, ← h1h, List.append_assoc] at hh
    exact (List.append_cancel_left hh).symm
  obtain rfl : met = m1 ++ m2 := by
    rw [← h1f, ← h2f, ← List.append_assoc] at hf
    exact (List.append_cancel_right hf).symm
  exact ⟨⟨⟨e1, h1h.symm, fun x hx => hl x (List.mem_append_left _ hx)⟩,
      ⟨m1, h1f.symm, fun f hm => hc f (List.mem_append_left _ hm)⟩⟩,
    ⟨⟨e2, h2h.symm, fun x hx => hl x (List.mem_append_right _ hx)⟩,
      ⟨m2, h2f.symm, fun f hm => hc f (List.mem_append_right _ hm)⟩⟩⟩

/-! ## Commits -/

theorem commit_since :
    ((s.commit p apply).2.isOk = true →
      (s.commit p apply).1.recordsSinceSnapshot = s.recordsSinceSnapshot + 1) ∧
    ((s.commit p apply).2.isOk = false →
      (s.commit p apply).1.recordsSinceSnapshot = s.recordsSinceSnapshot) := by
  unfold LineageStore.commit
  split
  · exact ⟨fun h => Bool.noConfusion (h.symm.trans (failure_isOk (by decide))), fun _ => rfl⟩
  cases s.state.lastSeq.next with
  | none =>
    exact ⟨fun h => Bool.noConfusion (h.symm.trans (failure_isOk (by decide))), fun _ => rfl⟩
  | some next =>
    dsimp only
    generalize s.writer.append (s.medium.directory.journal.getD []) s.medium.nextFault
      (p.record next) = result
    obtain ⟨w, file, st⟩ := result
    dsimp only
    cases hok : st.isOk with
    | false =>
      rw [if_pos (by simp)]
      exact ⟨fun h => Bool.noConfusion (h.symm.trans hok), fun _ => rfl⟩
    | true =>
      rw [if_neg (by simp)]
      exact ⟨fun _ => rfl, Bool.noConfusion⟩

theorem commit_behind : Behind s (s.commit p apply).1 :=
  ⟨commit_history, by simp only [commit_checkpointFaults, List.suffix_rfl]⟩

theorem uncovered_length_le {history : List Event} (h : Numbered history) :
    (Disk.ofHistory history).uncovered.length ≤ (Disk.ofHistory history).last.toNat := by
  obtain ⟨before, hl, -⟩ := h.suffix
  have hle := List.length_filter_le (fun r : Entry =>
    decide ((Disk.ofHistory history).covered < r.1)) (Disk.ofHistory history).records
  rw [h.last, hl, List.length_append]
  exact hle.trans (Nat.le_add_left ..)

theorem commit_snapshot : (s.commit p apply).1.disk.snapshot = s.disk.snapshot := by
  have ho := s.commit_outcome p apply
  revert ho
  generalize (s.commit p apply).1 = s'
  generalize (s.commit p apply).2 = st
  intro ho
  unfold LineageStore.disk
  cases ho with
  | refused _ _ _ _ history => rw [history]
  | lost _ _ _ _ _ _ _ history | done _ _ _ _ _ _ history =>
    rw [history, Disk.ofHistory_append]
    rfl

/-- A commit that is done counts its record, and one that is refused counts nothing. -/
theorem commit_counts (hs : s.StoreOk) (hn : Numbered s.medium.history)
    (ha : ∀ seq d, (apply seq d).recordCount = d.recordCount)
    (hr : Reported s (s.commit p apply).1) (h : s.Counts) : (s.commit p apply).1.Counts := by
  have hsince := @commit_since s p apply
  have ho := s.commit_outcome p apply
  revert ho hsince hr
  generalize (s.commit p apply).1 = s'
  generalize (s.commit p apply).2 = st
  intro hr hsince ho
  cases ho with
  | refused ok _ state _ history =>
    refine ⟨?_, by rw [state, history]; exact h.count⟩
    rw [hsince.2 ok, LineageStore.disk, history]
    exact h.since
  | lost _ _ _ _ _ _ _ history =>
    obtain ⟨events, hh, hl⟩ := hr.records
    obtain rfl := List.append_cancel_left (history.symm.trans hh)
    cases hl _ List.mem_cons_self
  | @done seq before _ next _ state _ history =>
    have hsync := hs.synced before
    have hseq := StrongUint.next_toNat next
    have hlt := seq.value.toNat_lt
    have hlast : s.state.lastSeq.toNat = (lineage s.medium.history).length := by
      rw [hsync.last]
      exact hn.last
    have hdisk : s'.disk = { s.disk with records := s.disk.records ++ [(seq, p)] } := by
      rw [LineageStore.disk, history, Disk.ofHistory_append]
      rfl
    have hnew : s.disk.covered < seq := by
      have := Disk.base_le_lastOf hs.represents.numbered
      rw [StrongUint.lt_iff, ← hsync.base]
      change s.disk.base.toNat ≤ s.disk.last.toNat at this
      rw [hsync.last] at hseq
      omega
    have huncovered : s'.disk.uncovered = s.disk.uncovered ++ [(seq, p)] := by
      rw [hdisk, Disk.uncovered]
      change (s.disk.records ++ [(seq, p)]).filter (fun r => decide (s.disk.covered < r.1)) = _
      rw [List.filter_append, List.filter_cons_of_pos (by simpa using hnew)]
      rfl
    have hle := uncovered_length_le hn
    have hone : (1 : UInt64).toNat = 1 := rfl
    change seq.toNat < 2 ^ 64 at hlt
    change s.disk.uncovered.length ≤ s.disk.last.toNat at hle
    rw [← hsync.last] at hle
    constructor
    · rw [hsince.1 rfl, huncovered, List.length_append, ← h.since, UInt64.toNat_add, hone]
      have := h.since
      exact Nat.mod_eq_of_lt (by omega)
    · rw [history, lineage_append, List.length_append, ← h.count, state]
      change ((apply seq s.state).recordCount + 1).toNat = _
      rw [ha, UInt64.toNat_add, hone]
      have := h.count
      exact Nat.mod_eq_of_lt (by omega)

/-! ## Checkpoints -/

theorem recordCheckpoint_faults {framed : Bytes} :
    (s.recordCheckpoint framed).1.medium.checkpointFaults = s.medium.checkpointFaults := by
  unfold LineageStore.recordCheckpoint
  dsimp only
  split
  · rfl
  · exact commit_checkpointFaults

/-- A checkpoint that starts to write meets the next fault. -/
theorem checkpoint_faults (hf : s.failed = false) {payload : Bytes}
    (hp : s.state.serialise = .ok payload) :
    s.checkpoint.1.medium.checkpointFaults = s.medium.checkpointFaults.tail := by
  rw [LineageStore.checkpoint, if_neg (by simp [hf]), hp]
  dsimp only
  split
  · rfl
  · rfl
  · rfl
  · rfl
  · exact recordCheckpoint_faults

theorem checkpoint_behind : Behind s s.checkpoint.1 := by
  refine ⟨(@Step.checkpoint False s).history, ?_⟩
  by_cases hf : s.failed = true
  · simp only [checkpoint_of_failed hf, List.suffix_rfl]
  cases hp : s.state.serialise with
  | error e =>
    simp only [LineageStore.checkpoint, if_neg hf, hp, List.suffix_rfl]
  | ok payload =>
    rw [checkpoint_faults (by simpa using hf) hp]
    exact List.tail_suffix _

/-- A checkpoint that is reported as it is leaves everything as it was, or rotates the journal. -/
theorem checkpoint_cases (hr : Reported s s.checkpoint.1) :
    (s.checkpoint.1.state = s.state ∧
      s.checkpoint.1.recordsSinceSnapshot = s.recordsSinceSnapshot ∧
      s.checkpoint.1.medium.history = s.medium.history) ∨
    ∃ payload c, s.failed = false ∧ s.state.serialise = .ok payload ∧
      s.checkpoint.1 =
        ((s.rotated (frameSnapshot payload)).commit (.checkpoint c) fun _ d => d).1 := by
  by_cases hf : s.failed = true
  · rw [checkpoint_of_failed hf]
    exact .inl ⟨rfl, rfl, rfl⟩
  have hf' : s.failed = false := by simpa using hf
  cases hp : s.state.serialise with
  | error e =>
    rw [LineageStore.checkpoint, if_neg hf, hp]
    exact .inl ⟨rfl, rfl, rfl⟩
  | ok payload =>
    have hfaults := checkpoint_faults hf' hp
    cases hfault : s.medium.nextCheckpointFault with
    | none =>
      obtain ⟨c, hc⟩ := LineageStore.checkpoint_none hf' hp hfault
      exact .inr ⟨payload, c, hf', rfl, hc⟩
    | some f =>
      obtain ⟨met, hm, hc⟩ := hr.checkpoints
      have hmem : some f ∈ met := by
        rw [hfaults] at hm
        rw [Medium.nextCheckpointFault] at hfault
        cases hl : s.medium.checkpointFaults with
        | nil =>
          rw [hl] at hfault
          cases hfault
        | cons g rest =>
          rw [hl] at hfault hm
          obtain rfl : g = some f := hfault
          cases met with
          | nil => exact absurd (congrArg List.length hm) (by simp)
          | cons x met =>
            rw [(List.cons.inj hm).1]
            exact List.mem_cons_self
      have hcut := hc _ hmem
      cases f with
      | snapshot =>
        left
        rw [LineageStore.checkpoint, if_neg hf, hp]
        dsimp only
        rw [hfault]
        exact ⟨rfl, rfl, rfl⟩
      | staging | rename | reopen => cases hcut

theorem rotated_disk {framed : Bytes} : (s.rotated framed).disk =
    { snapshot := some s.state, base := s.state.lastSeq } := by
  change Disk.ofHistory (s.medium.history ++ [.checkpointed s.state true]) = _
  rw [Disk.ofHistory_append]
  rfl

theorem commit_records_le :
    (s.commit p apply).1.disk.records.length ≤ s.disk.records.length + 1 := by
  have ho := s.commit_outcome p apply
  revert ho
  generalize (s.commit p apply).1 = s'
  generalize (s.commit p apply).2 = st
  intro ho
  unfold LineageStore.disk
  cases ho with
  | refused _ _ _ _ history =>
    rw [history]
    exact Nat.le_succ _
  | lost _ _ _ _ _ _ _ history | done _ _ _ _ _ _ history =>
    rw [history, Disk.ofHistory_append]
    exact (List.length_append ..).le

/-- A checkpoint that is reported as good leaves no record but its own for the next start. -/
theorem checkpoint_uncovered {c : LineageSeq} (h : s.checkpoint.2 = .ok c) :
    s.checkpoint.1.disk.uncovered.length ≤ 1 := by
  refine (List.length_filter_le _ _).trans ?_
  by_cases hf : s.failed = true
  · rw [LineageStore.checkpoint, if_pos hf] at h
    cases h
  have hf' : s.failed = false := by simpa using hf
  cases hp : s.state.serialise with
  | error e =>
    rw [LineageStore.checkpoint, if_neg hf, hp] at h
    cases h
  | ok payload =>
    cases hfault : s.medium.nextCheckpointFault with
    | none =>
      obtain ⟨c, hc⟩ := LineageStore.checkpoint_none hf' hp hfault
      rw [hc]
      exact commit_records_le.trans (by rw [rotated_disk]; exact Nat.le_refl _)
    | some f =>
      rw [LineageStore.checkpoint, if_neg hf, hp] at h
      dsimp only at h
      rw [hfault] at h
      cases f <;> cases h

theorem rotated_behind {framed : Bytes} : Behind s (s.rotated framed) :=
  ⟨List.prefix_append _ _, List.tail_suffix _⟩

/-- Behind a rotation nothing is left to count. -/
theorem rotated_counts {framed : Bytes} (h : s.Counts) : (s.rotated framed).Counts where
  since := by
    rw [rotated_disk]
    rfl
  count := by
    change s.state.recordCount.toNat =
      (lineage (s.medium.history ++ [.checkpointed s.state true])).length
    rw [lineage_append, lineage_checkpointed, List.append_nil]
    exact h.count

/-! ## Paths -/

theorem Writes.recordCount {entries : List Entry} {o : StoreOptions} {d : DurableState}
    (h : Writes wire entries o d j p apply j') (seq : LineageSeq) (d' : DurableState) :
    (apply seq d').recordCount = d'.recordCount := by
  cases h <;> rfl

theorem Step.behind {x y : LineageStore × Job} (h : Step wire x y) : Behind x.1 y.1 := by
  cases h with
  | write => exact commit_behind
  | checkpoint => exact checkpoint_behind
  | booted | fenced | failed => exact ⟨List.prefix_rfl, List.suffix_rfl⟩

theorem Path.behind {x y : LineageStore × Job} (h : Path wire x y) : Behind x.1 y.1 := by
  induction h with
  | refl => exact ⟨List.prefix_rfl, List.suffix_rfl⟩
  | tail _ hs ih => exact ih.trans hs.behind

/-- The counters stay right, and with them those that a checkpoint puts into the snapshot. -/
theorem Step.counts {x y : LineageStore × Job} (h : Step wire x y)
    (ht : Trace wire x.1.medium.history (x.1.phase x.2)) (hs : x.1.StoreOk)
    (hr : Reported x.1 y.1) (hc : x.1.Counts ∧ x.1.disk.SnapshotCounts) :
    y.1.Counts ∧ y.1.disk.SnapshotCounts := by
  have hn : Numbered x.1.medium.history := ht.numbered.1
  cases h with
  | @write s _ _ p apply w =>
    by_cases hf : s.failed = true
    · rw [commit_of_failed hf]
      exact hc
    have hf' : s.failed = false := by simpa using hf
    refine ⟨commit_counts hs hn (w hf').recordCount hr hc.1, ?_⟩
    rw [Disk.SnapshotCounts, commit_snapshot]
    exact hc.2
  | checkpoint s =>
    rcases checkpoint_cases hr with ⟨hstate, hsince, hhistory⟩ | ⟨payload, c, hf, hp, heq⟩
    · refine ⟨⟨?_, ?_⟩, ?_⟩
      · rw [hsince, LineageStore.disk, hhistory]
        exact hc.1.since
      · rw [hstate, hhistory]
        exact hc.1.count
      · rw [LineageStore.disk, hhistory]
        exact hc.2
    · rw [heq] at hr ⊢
      have hlast := (hs.synced hf).last
      have hnumbered : Numbered (s.rotated (frameSnapshot payload)).medium.history :=
        hn.rotated hlast
      have hreported := (hr.split rotated_behind commit_behind).2
      refine ⟨commit_counts (.rotated hp) hnumbered (fun _ _ => rfl) hreported
        (rotated_counts hc.1), ?_⟩
      rw [Disk.SnapshotCounts, commit_snapshot, rotated_disk]
      rintro d ⟨⟩
      rw [hc.1.count, hlast]
      exact hn.last.symm
  | booted | fenced | failed => exact hc

/-- A commit of a store that has not failed behind it is reported. -/
theorem commit_reported (hf : (s.commit p apply).1.failed = false) :
    s.failed = false ∧ Reported s (s.commit p apply).1 := by
  have ho := s.commit_outcome p apply
  have hfaults := @commit_checkpointFaults s p apply
  revert ho hfaults hf
  generalize (s.commit p apply).1 = s'
  generalize (s.commit p apply).2 = st
  intro hf ho hfaults
  cases ho with
  | refused _ failed | lost _ _ failed =>
    rw [failed] at hf
    cases hf
  | done before _ _ _ _ _ history =>
    exact ⟨before, ⟨_, history, by simp [Event.lost]⟩, ⟨[], hfaults.symm, by simp⟩⟩

/-- The faults that a checkpoint meets. -/
theorem met_of_fault {f : Option CheckpointFault} (h : s.medium.nextCheckpointFault = f)
    (hf : s'.medium.checkpointFaults = s.medium.checkpointFaults.tail) (hc : cutsOff f = false) :
    ∃ met, s.medium.checkpointFaults = met ++ s'.medium.checkpointFaults ∧
      ∀ g ∈ met, cutsOff g = false := by
  rw [hf]
  rw [Medium.nextCheckpointFault] at h
  cases hl : s.medium.checkpointFaults with
  | nil => exact ⟨[], rfl, by simp⟩
  | cons g rest =>
    rw [hl] at h
    obtain rfl : g = f := h
    refine ⟨[g], rfl, fun x hx => ?_⟩
    rw [List.mem_singleton.mp hx]
    exact hc

theorem checkpoint_reported (hf : s.checkpoint.1.failed = false) :
    s.failed = false ∧ Reported s s.checkpoint.1 := by
  by_cases hfailed : s.failed = true
  · rw [checkpoint_of_failed hfailed, hfailed] at hf
    cases hf
  have hf' : s.failed = false := by simpa using hfailed
  refine ⟨hf', ?_⟩
  cases hp : s.state.serialise with
  | error e =>
    rw [LineageStore.checkpoint, if_neg hfailed, hp]
    exact ⟨⟨[], (List.append_nil _).symm, by simp⟩, ⟨[], rfl, by simp⟩⟩
  | ok payload =>
    have hfaults := checkpoint_faults hf' hp
    cases hfault : s.medium.nextCheckpointFault with
    | none =>
      refine ⟨?_, met_of_fault hfault hfaults rfl⟩
      obtain ⟨c, hc⟩ := LineageStore.checkpoint_none hf' hp hfault
      rw [hc] at hf ⊢
      obtain ⟨-, hreported⟩ := commit_reported hf
      obtain ⟨events, hh, hl⟩ := hreported.records
      refine ⟨.checkpointed s.state true :: events, ?_, ?_⟩
      · rw [hh]
        exact List.append_assoc ..
      · exact List.forall_mem_cons.mpr ⟨rfl, hl⟩
    | some f =>
      cases f with
      | snapshot =>
        refine ⟨?_, met_of_fault hfault hfaults rfl⟩
        rw [LineageStore.checkpoint, if_neg hfailed, hp]
        dsimp only
        rw [hfault]
        exact ⟨[], (List.append_nil _).symm, by simp⟩
      | staging | rename | reopen =>
        rw [LineageStore.checkpoint, if_neg hfailed, hp] at hf
        dsimp only at hf
        rw [hfault] at hf
        cases hf

theorem Path.counts {x y : LineageStore × Job} (h : Path wire x y)
    (ht : Trace wire x.1.medium.history (x.1.phase x.2)) (hs : x.1.StoreOk)
    (hr : Reported x.1 y.1) (hc : x.1.Counts ∧ x.1.disk.SnapshotCounts) :
    y.1.Counts ∧ y.1.disk.SnapshotCounts := by
  induction h with
  | refl => exact hc
  | tail hpath hstep ih =>
    obtain ⟨hfirst, hlast⟩ := hr.split (Path.behind hpath) hstep.behind
    exact hstep.counts (Path.trace hpath ht) (Path.storeOk hpath hs) hlast (ih hfirst)

/-- A process that has not failed has reported all that it wrote. -/
theorem Step.reported {x y : LineageStore × Job} (h : Step wire x y) (hf : y.1.failed = false) :
    x.1.failed = false ∧ Reported x.1 y.1 := by
  cases h with
  | write => exact commit_reported hf
  | checkpoint => exact checkpoint_reported hf
  | booted | fenced | failed => exact ⟨hf, .refl _⟩

theorem Path.reported {x y : LineageStore × Job} (h : Path wire x y) (hf : y.1.failed = false) :
    x.1.failed = false ∧ Reported x.1 y.1 := by
  induction h with
  | refl => exact ⟨hf, .refl _⟩
  | tail _ hstep ih =>
    obtain ⟨hf', hlast⟩ := hstep.reported hf
    obtain ⟨hf'', hfirst⟩ := ih hf'
    exact ⟨hf'', hfirst.trans hlast⟩

/-! ## Boots -/

theorem fenceAttempts_snapshot {epoch : Epoch} {coordinator : Incarnation}
    {rs : List AttemptRecord} :
    (LineageStore.fenceAttempts epoch coordinator rs s).1.disk.snapshot = s.disk.snapshot := by
  induction rs generalizing s with
  | nil => rfl
  | cons r rs ih =>
    by_cases hr : r.isTerminal = true
    · rw [LineageStore.fenceAttempts, if_pos hr]
      exact ih
    rw [LineageStore.fenceAttempts_cons (by simpa using hr)]
    have h1 : (s.writeInterrupt r).1.disk.snapshot = s.disk.snapshot := commit_snapshot
    split
    · exact h1
    have h2 : ((s.writeInterrupt r).1.writeRestartFence epoch coordinator r).1.disk.snapshot =
        (s.writeInterrupt r).1.disk.snapshot := commit_snapshot
    split
    · exact h2.trans h1
    · exact ih.trans (h2.trans h1)

/-- A boot takes no snapshot. -/
theorem bootStore_snapshot {incarnation : Incarnation} {build : Engine.Build} :
    (Engine.bootStore s incarnation build).1.disk.snapshot = s.disk.snapshot := by
  unfold Engine.bootStore
  cases Engine.nextBoot s.state incarnation build with
  | error e => rfl
  | ok boot =>
    dsimp only
    have h1 : (s.commit (.boot boot) fun _ d => d.noteEpoch boot).1.disk.snapshot =
        s.disk.snapshot := commit_snapshot
    split
    · exact h1
    have h2 := @fenceAttempts_snapshot (s.commit (.boot boot) fun _ d => d.noteEpoch boot).1
      boot.epoch incarnation
      (s.commit (.boot boot) fun _ d => d.noteEpoch boot).1.state.attempts
    rw [LineageStore.fenceRestartAuthority]
    revert h2
    generalize LineageStore.fenceAttempts boot.epoch incarnation
      (s.commit (.boot boot) fun _ d => d.noteEpoch boot).1.state.attempts
      (s.commit (.boot boot) fun _ d => d.noteEpoch boot).1 = w
    obtain ⟨s', r⟩ := w
    intro h2
    cases r <;> exact h2.trans h1

/-- A journal that starts at its snapshot has no record but those above it. -/
theorem uncovered_eq {k : Disk} (hb : k.base = k.covered) (hn : Disk.Numbered k.base k.records) :
    k.uncovered = k.records := by
  have habove : ∀ (base : LineageSeq) (rs : List Entry), Disk.Numbered base rs →
      ∀ r ∈ rs, base.toNat < r.1.toNat := by
    intro base rs
    induction rs generalizing base with
    | nil => simp
    | cons x rs ih =>
      intro h r hr
      have hx := StrongUint.next_toNat h.1
      rcases List.mem_cons.mp hr with rfl | hr
      · omega
      · have := ih x.1 h.2 r hr
        omega
  rw [Disk.uncovered, List.filter_eq_self]
  intro r hr
  rw [decide_eq_true_eq, ← hb, StrongUint.lt_iff]
  exact habove _ _ hn r hr

/-- A store that is opened with nothing to read starts with the counters of its snapshot. -/
theorem reopened_counts {o : StoreOptions} {k : Disk} {d : DurableState} {m : Medium}
    {events : List Event} (ho : k.opened o = .ok (d, events)) (hb : k.base = k.covered)
    (hn : Disk.Numbered k.base k.records) (hu : k.uncovered = []) (hc : k.SnapshotCounts)
    (hk : Disk.ofHistory m.history = k) (hm : Numbered m.history) :
    (LineageStore.reopened o k d m).Counts := by
  have hrecords : k.records = [] := (uncovered_eq hb hn).symm.trans hu
  have hlast : k.last = k.covered := by
    rw [Disk.last, hrecords, ← hb]
    rfl
  have hd : d = k.start o := by
    rw [Disk.opened, hrecords] at ho
    cases ho
    rfl
  have hl := hm.last
  rw [hk, hlast] at hl
  refine ⟨?_, ?_⟩
  · change (0 : UInt64).toNat = (Disk.ofHistory m.history).uncovered.length
    rw [hk, hu]
    rfl
  · change d.recordCount.toNat = (lineage m.history).length
    rw [← hl, hd, Disk.start, Disk.covered]
    cases hs : k.snapshot with
    | none => rfl
    | some d' => exact hc d' hs

end Steps

/-! ## Runs -/

/-- Every process of the run that comes up finds no record above the snapshot, and whatever reaches
the medium by an operation is reported so. -/
structure CountsFromSnapshots (actions : List Action) : Prop where
  starts : ∀ front b back m e, actions = front ++ .start b :: back →
    System.run front = .down m → System.run (front ++ [.start b]) = .up e →
    (Disk.ofHistory m.history).uncovered = []
  operations : ∀ front op back e, actions = front ++ .perform op :: back →
    System.run front = .up e → Reported e.store (e.perform op).1.store

theorem CountsFromSnapshots.front {actions : List Action} {a : Action}
    (h : CountsFromSnapshots (actions ++ [a])) : CountsFromSnapshots actions where
  starts front b back m e hs :=
    h.starts front b (back ++ [a]) m e (by rw [hs, List.append_assoc]; rfl)
  operations front op back e hs :=
    h.operations front op (back ++ [a]) e (by rw [hs, List.append_assoc]; rfl)

/-- The counters of a process until it is closed, and those that a snapshot on the medium was taken
with. -/
def System.Counts : System → Prop
  | .up e => (e.closed = false → e.store.Counts) ∧ e.store.disk.SnapshotCounts
  | .down m => (Disk.ofHistory m.history).SnapshotCounts

theorem openEngine_counts {o : EngineOptions} {incarnation : Incarnation} {build : Engine.Build}
    {m : Medium} (h : MediumOk False m) (hc : (Disk.ofHistory m.history).SnapshotCounts) :
    (Disk.ofHistory (Engine.openEngine o incarnation build m).1.history).SnapshotCounts ∧
      ∀ e, (Engine.openEngine o incarnation build m).2 = .ok e →
        (Disk.ofHistory m.history).uncovered = [] → e.store.Counts := by
  rcases @openEngine_cases _ o incarnation build _ h with
    ⟨m', e, hopen, -, hh⟩ | ⟨s, d, events, -, hd, hs, hh, hlive, hok, -, hopen⟩
  · rw [hopen]
    exact ⟨by rw [hh]; exact hc, by simp⟩
  have hf : s.failed = false := by rw [hs]; rfl
  have hdisk : s.disk = Disk.ofHistory m.history := by
    rw [LineageStore.disk, hh, ofHistory_opened hd]
  have htrace : Trace False s.medium.history (s.phase .fresh) := by
    rw [LineageStore.phase_live hf]
    exact hlive
  have hsnapshot := @bootStore_snapshot s incarnation build
  have hkept : (Engine.bootStore s incarnation build).1.disk.SnapshotCounts := by
    rw [Disk.SnapshotCounts, hsnapshot, hdisk]
    exact hc
  rw [hopen]
  rcases @bootStore_path False s incarnation build htrace with ⟨e, he⟩ | ⟨hpath, hepoch⟩
  · rw [he] at hkept ⊢
    exact ⟨hkept, by simp⟩
  have hcounts : (Engine.bootStore s incarnation build).1.failed = false →
      (Disk.ofHistory m.history).uncovered = [] →
      (Engine.bootStore s incarnation build).1.Counts := by
    intro hfailed hu
    refine (Path.counts hpath htrace hok (Path.reported hpath hfailed).2 ⟨?_, ?_⟩).1
    · have hbase := (hok.synced hf).base
      have hnumbered := hok.represents.numbered
      rw [hdisk] at hbase hnumbered
      dsimp only
      rw [hs]
      exact reopened_counts hd hbase hnumbered hu hc hdisk hlive.numbered.1
    · rw [hdisk]
      exact hc
  revert hkept hepoch hcounts
  generalize Engine.bootStore s incarnation build = w
  obtain ⟨s', r⟩ := w
  intro hkept hepoch hcounts
  cases r with
  | error e => exact ⟨hkept, by simp⟩
  | ok epoch =>
    refine ⟨hkept, fun e he hu => ?_⟩
    cases he
    exact hcounts (hepoch epoch rfl).1 hu

namespace System

/-- One step of a run keeps count. -/
theorem step_counts {s : System} (h : s.Ok False) (a : Action) (hc : s.Counts)
    (hstart : ∀ m b e, s = .down m → a = .start b → s.step a = .up e →
      (Disk.ofHistory m.history).uncovered = [])
    (hop : ∀ e op, s = .up e → a = .perform op → Reported e.store (e.perform op).1.store) :
    (s.step a).Counts := by
  cases s with
  | down m =>
    cases a with
    | start b =>
      have hm : MediumOk False (b.medium m) := ⟨h.trace, h.represents⟩
      obtain ⟨hkept, hcounts⟩ :=
        @openEngine_counts b.options b.incarnation b.build _ hm hc
      have ho := (@openEngine_outcome False b.options b.incarnation b.build _ hm).2
      replace hstart := fun e => hstart m b e rfl rfl
      rw [step, Boot.open] at hstart ⊢
      revert hkept hcounts hstart ho
      generalize Engine.openEngine b.options b.incarnation b.build (b.medium m) = result
      obtain ⟨m', r⟩ := result
      intro hkept hcounts ho hstart
      cases r with
      | error _ => exact hkept
      | ok e =>
        refine ⟨fun _ => hcounts e rfl (hstart e rfl), ?_⟩
        obtain ⟨-, -, hmedium⟩ := ho e rfl
        rw [LineageStore.disk, hmedium]
        exact hkept
    | perform | kill => exact hc
  | up e =>
    cases a with
    | start => exact hc
    | kill => exact hc.2
    | perform op =>
      have hok : EngineOk False e := h
      have hr := hop e op rfl rfl
      change ((e.perform op).1.closed = false → (e.perform op).1.store.Counts) ∧
        (e.perform op).1.store.disk.SnapshotCounts
      obtain ⟨s, hpath, ⟨hs, hclosed⟩ | ⟨-, hopen, hs, hclosed⟩⟩ :=
        perform_path hok op False.elim
      · rw [hs] at hr
        rw [hs, hclosed]
        cases hopen : e.closed with
        | true =>
          -- a store that was let go of writes nothing more
          have hsame : s = e.store := hpath.of_failed (hok.closed hopen)
          rw [hsame]
          exact ⟨fun hopened => Bool.noConfusion hopened, hc.2⟩
        | false =>
          have hnext := Path.counts hpath hok.trace hok.store hr ⟨hc.1 hopen, hc.2⟩
          exact ⟨fun _ => hnext.1, hnext.2⟩
      · rw [hs] at hr
        rw [hs, hclosed]
        have hr' : Reported e.store s := ⟨hr.records, hr.checkpoints⟩
        exact ⟨fun hopened => Bool.noConfusion hopened,
          (Path.counts hpath hok.trace hok.store hr' ⟨hc.1 hopen, hc.2⟩).2⟩

/-- By induction on the run, whose every process started at its snapshot. -/
theorem run_counts {actions : List Action} (h : CountsFromSnapshots actions) :
    (run actions).Counts := by
  induction actions using List.reverseRecOn with
  | nil =>
    rintro d hd
    cases hd
  | append_singleton actions a ih =>
    have hok := @run_ok False actions False.elim
    rw [run_append]
    refine step_counts hok a (ih h.front) ?_ ?_
    · rintro m b e hrun rfl hup
      refine h.starts actions b [] m e rfl hrun ?_
      rw [run_append]
      exact hup
    · rintro e op hrun rfl
      exact h.operations actions op [] e rfl hrun

end System

/-- The counters of a process agree with its files, and so its rule for checkpoints bounds what the
next start has to read. -/
structure Engine.Accounts (e : Engine) : Prop where
  since : e.store.recordsSinceSnapshot.toNat = e.store.disk.uncovered.length
  count : e.state.recordCount.toNat = (lineage e.store.medium.history).length
  rule : e.options.enableSnapshot = true → e.options.snapshotEveryRecords ≠ 0 →
    e.maybeCheckpoint.storeFailed = false → e.maybeCheckpoint.store.disk.uncovered.length ≤
      max (e.options.snapshotEveryRecords.toNat - 1) 1

theorem LineageStore.Counts.accounts {e : Engine} (h : e.store.Counts)
    (hn : Numbered e.store.medium.history) : e.Accounts where
  since := h.since
  count := h.count
  rule henabled hlimit := by
    unfold Engine.maybeCheckpoint
    rw [if_neg (by simp [henabled, hlimit])]
    split
    · rename_i hzero
      intro _
      have hcount := h.count
      change e.store.state.recordCount == 0 at hzero
      rw [beq_iff_eq.mp hzero] at hcount
      obtain ⟨before, hl, -⟩ := hn.suffix
      have hle := List.length_filter_le (fun r : Entry => decide (e.store.disk.covered < r.1))
        e.store.disk.records
      rw [hl, List.length_append] at hcount
      change 0 = _ + e.store.disk.records.length at hcount
      change e.store.disk.uncovered.length ≤ _ at hle
      omega
    split
    · rename_i hlt
      intro _
      have hsince := h.since
      rw [UInt64.lt_iff_toNat_lt] at hlt
      omega
    · intro hfailed
      have hbounded := @checkpoint_uncovered e.store
      revert hfailed hbounded
      generalize e.store.checkpoint = c
      obtain ⟨s, r⟩ := c
      intro hfailed hbounded
      cases r with
      | ok c => exact (hbounded rfl).trans (Nat.le_max_right _ _)
      | error => cases hfailed

/-- The counters are right in every state of a run in which every process starts at its snapshot and
nothing is cut off behind its effect. An engine that was closed has no counters any more. -/
theorem counts_kept {actions : List Action} (h : CountsFromSnapshots actions) {e : Engine}
    (he : System.run actions = .up e) (hopen : e.closed = false) : e.Accounts := by
  have hc := System.run_counts h
  have hok : EngineOk False e := Reachable.ok ⟨actions, he⟩
  rw [he] at hc
  exact (hc.1 hopen).accounts hok.trace.numbered.1

namespace Sample

def boot (n : UInt8) : Boot := { options := options {} {}, incarnation := incarnation n }

end Sample

/-- A process is killed as soon as it has come up, and the next one has both boot records to read
at its next start, and counts one. -/
theorem short_boots_uncounted :
    ¬∀ actions e, System.run actions = .up e → e.closed = false → e.Accounts := by
  intro hall
  obtain ⟨e, he, hp⟩ := @System.of_serves
    (System.run [.start (Sample.boot 1), .kill, .start (Sample.boot 2)])
    (fun e : Engine => !e.closed &&
      decide (e.store.recordsSinceSnapshot.toNat ≠ e.store.disk.uncovered.length) &&
        decide (e.state.recordCount.toNat ≠ (lineage e.store.medium.history).length))
    (by decide +kernel)
  rw [Bool.and_eq_true, Bool.and_eq_true, Bool.not_eq_true', decide_eq_true_eq,
    decide_eq_true_eq] at hp
  exact hp.1.2 (hall _ e he hp.1.1).since

/-- The first process of a directory takes a checkpoint. -/
theorem counts_kept_sample :
    ∃ e, System.run [.start (Sample.boot 1), .perform .checkpoint] = .up e ∧
      e.Accounts ∧ e.store.disk.uncovered.length = 1 := by
  obtain ⟨e, he, hp⟩ := @System.of_serves
    (System.run [.start (Sample.boot 1), .perform .checkpoint])
    (fun e : Engine => !e.store.failed && decide (e.store.disk.uncovered.length = 1))
    (by decide +kernel)
  rw [Bool.and_eq_true, Bool.not_eq_true', decide_eq_true_eq] at hp
  have hopen : e.closed = false := Engine.ok_open (Reachable.ok ⟨_, he⟩) hp.1
  refine ⟨e, he, counts_kept ⟨?_, ?_⟩ he hopen, hp.2⟩
  · intro front b back m e' hs hm _
    cases front with
    | nil =>
      cases hm
      rfl
    | cons a front =>
      have hs := (List.cons.inj hs).2
      cases front with
      | nil => cases hs
      | cons a front => exact absurd (congrArg List.length (List.cons.inj hs).2) (by simp)
  · intro front op back e' hs hup
    cases front with
    | nil => cases hs
    | cons a front =>
      obtain ⟨rfl, hs⟩ := List.cons.inj hs
      cases front with
      | nil =>
        cases hs
        have hnext : (e'.perform .checkpoint).1 = e := by
          have hrun := System.run_append [.start (Sample.boot 1)] (.perform .checkpoint)
          rw [hup] at hrun
          exact System.up.inj (hrun.symm.trans he)
        have hl := @Engine.checkpoint_leads False e'
        refine (Path.reported hl.path ?_).2
        change (e'.perform .checkpoint).1.store.failed = false
        rw [hnext]
        exact hp.1
      | cons a front => exact absurd (congrArg List.length (List.cons.inj hs).2) (by simp)

end LinkFailover
