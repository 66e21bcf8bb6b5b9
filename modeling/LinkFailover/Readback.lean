import LinkFailover.System

/-!
# Reading back what was written

A replay checks every record again. A fence is encoded before its position is known, so its
record names position zero, and the replay refuses it at any other. Everything else that an engine
writes is read back, as far as the reader accepts the size of the files.

* `applyRecord_accepts`: which records a replay accepts.
* `reads_back`: which directories open again.
-/

namespace LinkFailover

open Codec

/-! ## Records -/

def Payload.isFence : Payload → Bool
  | .fence _ => true
  | _ => false

/-- Whatever state it has come to, a replay accepts a record of the lineage exactly when it is no
fence. -/
theorem applyRecord_accepts {before : List Entry} {seq : LineageSeq} {p : Payload}
    (hx : EntryOk True before (seq, p)) (hd : p.Decodes) (hdeclared : p.Declared)
    (hpos : 0 < seq.toNat) (o : StoreOptions) (d : DurableState) :
    (∃ d', d.applyRecord o (p.record seq) = .ok d') ↔ p.isFence = false := by
  cases p with
  | boot p => exact ⟨fun _ => rfl, fun _ => ⟨_, DurableState.applyRecord_boot p⟩⟩
  | policy p => exact ⟨fun _ => rfl, fun _ => ⟨_, DurableState.applyRecord_policy hdeclared⟩⟩
  | topology t => exact ⟨fun _ => rfl, fun _ => ⟨_, DurableState.applyRecord_topology hd⟩⟩
  | attempt w r =>
    have hr : AttemptOk before seq w r := hx
    refine ⟨fun _ => rfl, fun _ => ⟨d.noteAttempt o r, ?_⟩⟩
    rw [DurableState.applyRecord_attempt w hdeclared, hr.check]
    rfl
  | decision c =>
    exact ⟨fun _ => rfl, fun _ => ⟨_, DurableState.applyRecord_decision (hx trivial)⟩⟩
  | idempotency e => exact ⟨fun _ => rfl, fun _ => ⟨_, DurableState.applyRecord_idempotency hd⟩⟩
  | fence f =>
    have hzero : f.seq = .zero := hx
    refine ⟨fun ⟨d', h⟩ => ?_, fun h => by cases h⟩
    rw [DurableState.applyRecord_fence, if_pos] at h
    · cases h
    · rw [hzero]
      rintro rfl
      exact absurd hpos (by decide)
  | checkpoint c => exact ⟨fun _ => rfl, fun _ => ⟨_, DurableState.applyRecord_checkpoint c⟩⟩
  | shutdown s => exact ⟨fun _ => rfl, fun _ => ⟨_, DurableState.applyRecord_shutdown s⟩⟩

/-- A replay goes through when it accepts every single record. -/
theorem replayRecords_accepts {o : StoreOptions} {rs : List Entry}
    (hrs : ∀ x ∈ rs, ∃ before, EntryOk True before x ∧ x.2.Decodes ∧ x.2.Declared ∧
      0 < x.1.toNat)
    (acc : DurableState × List Event) :
    (∃ acc', Disk.replayRecords o rs acc = .ok acc') ↔ ∀ x ∈ rs, x.2.isFence = false := by
  induction rs generalizing acc with
  | nil => exact ⟨by simp, fun _ => ⟨acc, rfl⟩⟩
  | cons r rs ih =>
    obtain ⟨before, hx, hd, hdeclared, hpos⟩ := hrs r List.mem_cons_self
    have hr := applyRecord_accepts hx hd hdeclared hpos o acc.1
    rw [Disk.replayRecords, List.foldlM_cons, List.forall_mem_cons, ← hr]
    cases ha : acc.1.applyRecord o (r.2.record r.1) with
    | error e =>
      have hstep : Disk.replayRecord o acc r = .error e := by
        rw [Disk.replayRecord, ha]
        rfl
      rw [hstep]
      constructor
      · rintro ⟨_, h⟩
        cases h
      · rintro ⟨⟨_, h⟩, -⟩
        cases h
    | ok d =>
      have hstep : Disk.replayRecord o acc r =
          .ok (d, acc.2 ++ LineageStore.replayEvents (r.2.record r.1) acc.1 d) := by
        rw [Disk.replayRecord, ha]
        rfl
      rw [hstep]
      refine Iff.trans (ih (fun x hm => hrs x (List.mem_cons_of_mem _ hm)) _) ?_
      exact ⟨fun h => ⟨⟨d, rfl⟩, h⟩, And.right⟩

/-! ## Directories -/

/-- No checkpoint was cut off between its two replacements. -/
def CheckpointsWhole (history : List Event) : Prop := ∀ d, Event.checkpointed d false ∉ history

/-- No cut-off checkpoint. -/
def Event.isWhole : Event → Bool
  | .checkpointed _ false => false
  | _ => true

theorem Event.checkpointsWhole {history : List Event} (h : history.all Event.isWhole = true) :
    CheckpointsWhole history :=
  fun _ hm => absurd (List.all_eq_true.mp h _ hm) (by simp [Event.isWhole])

/-- The journal begins where the snapshot ends, unless a checkpoint was cut off. -/
theorem CheckpointsWhole.base {history : List Event} (h : CheckpointsWhole history) :
    (Disk.ofHistory history).base = (Disk.ofHistory history).covered := by
  induction history using List.reverseRecOn with
  | nil => rfl
  | append_singleton history e ih =>
    have hold := ih fun d hm => h d (List.mem_append_left _ hm)
    rw [Disk.ofHistory_append]
    cases e with
    | checkpointed d rotated =>
      cases rotated with
      | true => rfl
      | false => exact absurd (List.mem_append_right _ (List.mem_singleton_self _)) (h d)
    | opened | committed | replayed => exact hold

/-- The medium of a process that was killed, for a process whose writes will not fail. -/
def Medium.calm (m : Medium) : Medium := { m with appendFaults := [], checkpointFaults := [] }

/-- Whether the files are within the bounds of their readers, the rule of the policy in the snapshot
is declared, and no record behind the snapshot is a fence. -/
def Medium.readable (m : Medium) : Bool :=
  m.directory.journal.all (fun file => decide (file.length ≤ kMaxJournalBytes)) &&
    m.directory.snapshot.all (fun file => decide (file.length ≤ kMaxSnapshotBytes)) &&
    (Disk.ofHistory m.history).snapshot.all
      (fun d => decide (WireEnum.Declared d.policy.agreement)) &&
    (Disk.ofHistory m.history).records.all fun x => !x.2.isFence

theorem Medium.readable_iff {m : Medium} : m.readable = true ↔
    (∀ file, m.directory.journal = some file → file.length ≤ kMaxJournalBytes) ∧
      ((∀ file, m.directory.snapshot = some file → file.length ≤ kMaxSnapshotBytes) ∧
        ∀ d, (Disk.ofHistory m.history).snapshot = some d →
          WireEnum.Declared d.policy.agreement) ∧
      ∀ x ∈ (Disk.ofHistory m.history).records, x.2.isFence = false := by
  simp [readable, Option.all_eq_true, and_assoc]

/-- The options of an open that a directory is compared with: definitions that pass their checks,
the fabric of the snapshot, and repair of a torn tail. -/
structure StoreOptions.Reopens (o : StoreOptions) (m : Medium) : Prop where
  policy : o.policy.validate.isOk = true
  topology : o.topology.validate.isOk = true
  repair : o.repairTornTail = true
  fabric : ∀ d, (Disk.ofHistory m.history).snapshot = some d → d.fabric = o.fabric

theorem StoreOptions.Reopens.of_none {o : StoreOptions} {m : Medium}
    (h : (Disk.ofHistory m.history).snapshot.isNone = true) (hp : o.policy.validate.isOk = true)
    (ht : o.topology.validate.isOk = true) (hr : o.repairTornTail = true) : o.Reopens m where
  policy := hp
  topology := ht
  repair := hr
  fabric d hd := by
    rw [hd] at h
    cases h

section Opening

variable {m : Medium} {o : StoreOptions}

/-- Every record of the disk is a record of the lineage, at its position. -/
theorem MediumOk.records (h : MediumOk True m) : ∀ x ∈ (Disk.ofHistory m.history).records,
    ∃ before, EntryOk True before x ∧ x.2.Decodes ∧ x.2.Declared ∧ 0 < x.1.toNat := by
  intro x hx
  obtain ⟨⟨before, hsuffix, -⟩, hpos⟩ := h.trace.numbered.1
  obtain ⟨A, B, hAB⟩ := List.append_of_mem hx
  rw [hAB, ← List.append_assoc] at hsuffix
  obtain ⟨hok, hd⟩ := h.trace.retained.entries _ x B hsuffix
  have := hpos _ x B hsuffix
  exact ⟨_, hok, hd, (h.trace.declared.entries _ x B hsuffix).1 trivial, by omega⟩

/-- What the snapshot of a directory holds is restored, unless its file is too large or the process
that wrote it was started with an undeclared rule. -/
theorem MediumOk.restorable (h : MediumOk True m) (ho : o.Reopens m) :
    (∀ d, (Disk.ofHistory m.history).snapshot = some d → LineageStore.Restorable o d) ↔
      (∀ file, m.directory.snapshot = some file → file.length ≤ kMaxSnapshotBytes) ∧
        ∀ d, (Disk.ofHistory m.history).snapshot = some d →
          WireEnum.Declared d.policy.agreement := by
  cases hk : (Disk.ofHistory m.history).snapshot with
  | none =>
    rw [h.represents.noSnapshot hk]
    exact ⟨by simp, by simp⟩
  | some d =>
    obtain ⟨entries, hs⟩ := h.trace.snapshot hk
    obtain ⟨bytes, hb, hdir⟩ := h.represents.snapshot d hk
    rw [DurableState.serialise_ok (h.sound hk)] at hb
    cases hb
    rw [hdir]
    refine ⟨fun hr => ⟨fun file hfile => ?_, fun d' hd' => ?_⟩, fun ⟨hl, hp⟩ d' hd' => ?_⟩
    · cases hfile
      exact (hr d rfl).size
    · exact (hr d' hd').declared.policy
    · cases hd'
      exact ⟨hl _ rfl, ⟨hp d rfl, h.trace.snapshot_declared trivial hk⟩, ho.fabric d hk, hs.policy,
        hs.topology⟩

/-- A directory that was left by processes fed through the decoders opens again exactly when it
is readable. -/
theorem openStore_readable (h : MediumOk True m)
    (hbase : (Disk.ofHistory m.history).base = (Disk.ofHistory m.history).covered)
    (hfault : m.nextFault = none) (ho : o.Reopens m) :
    (∃ s, (LineageStore.openStore o m).2 = .ok s) ↔ m.readable = true := by
  have hreplay := @replayRecords_accepts o _ h.records ((Disk.ofHistory m.history).start o, [])
  rw [Medium.readable_iff]
  refine ⟨fun ⟨s, hs⟩ => ?_, fun ⟨hj, hs, hf⟩ => ?_⟩
  · have hok : LineageStore.openStore o m = ((LineageStore.openStore o m).1, .ok s) := by
      rw [← hs]
    obtain ⟨hr, -, hsize, hacc⟩ :=
      LineageStore.openStore_ok h.represents (fun d hd => h.sound hd) hok
    exact ⟨hsize, (h.restorable ho).mp hr, hreplay.mp hacc⟩
  · obtain ⟨m', d, events, -, hopen⟩ := LineageStore.openStore_accepts (o := o) h.represents
      (fun d hd => h.sound hd)
      { policy := ho.policy
        topology := ho.topology
        restorable := (h.restorable ho).mpr hs
        base := hbase
        size := hj
        repair := .inl ho.repair
        fault := hfault
        replay := hreplay.mpr hf }
    rw [hopen]
    exact ⟨_, rfl⟩

end Opening

/-! ## Runs -/

theorem System.Ok.mediumOk {wire : Prop} {s : System} (h : s.Ok wire) : MediumOk wire s.medium := by
  cases s with
  | down m => exact h
  | up e => exact mediumOk_stopped (EngineOk.trace h) (EngineOk.store h)

instance : DecidablePred Operation.Decoded
  | .publishFailure r => inferInstanceAs (Decidable (Plausible r.state r.confidence))
  | .publishReplacement r => inferInstanceAs (Decidable (Plausible r.state r.confidence))
  | .setPolicy p => inferInstanceAs (Decidable (WireEnum.Declared p.agreement))
  | .resolveInterrupted r => inferInstanceAs (Decidable (WireEnum.Declared r.verdict))
  | .requestFailover _ | .recordApplication _ | .recordVerification _ | .requestRollback _
  | .setTopology _ | .checkpoint | .close => inferInstanceAs (Decidable True)

/-- Wherever the processes of a run were killed, but for the middle of a checkpoint, the directory
opens again exactly when it is readable. -/
theorem reads_back {actions : List Action} (hw : Decoded actions)
    (hc : CheckpointsWhole (System.run actions).history) {o : StoreOptions}
    (ho : o.Reopens (System.run actions).medium.calm) :
    (∃ s, (LineageStore.openStore o (System.run actions).medium.calm).2 = .ok s) ↔
      (System.run actions).medium.calm.readable = true := by
  have h := (@System.run_ok True actions fun _ => hw).mediumOk
  exact openStore_readable (m := (System.run actions).medium.calm)
    ⟨h.trace, h.represents⟩ hc.base rfl ho

/-- A process grants a failover and takes it back for a new policy, which leaves a fence. -/
theorem Sample.fenced : ∃ actions, Decoded actions ∧
    (System.run actions).history.all Event.isWhole = true ∧
    (Disk.ofHistory (System.run actions).history).snapshot.isNone = true ∧
    (Disk.ofHistory (System.run actions).history).records.any (fun x => x.2.isFence) = true := by
  refine ⟨grantedOnce ++ [.perform (.setPolicy { generation := ⟨2⟩ })], ?_, by decide +kernel⟩
  intro op hm
  simp only [grantedOnce, booted, List.cons_append, List.nil_append, List.mem_cons,
    reduceCtorEq, Action.perform.injEq, List.not_mem_nil, or_false, false_or] at hm
  rcases hm with rfl | rfl | rfl | rfl <;> decide

/-- The fence that such a process writes is refused by every later open. -/
theorem fence_not_read_back : ¬ ∀ actions (o : StoreOptions), Decoded actions →
    CheckpointsWhole (System.run actions).history → o.Reopens (System.run actions).medium.calm →
    ∃ s, (LineageStore.openStore o (System.run actions).medium.calm).2 = .ok s := by
  intro hall
  obtain ⟨actions, hw, hc, hs, hfence⟩ := Sample.fenced
  have hc := Event.checkpointsWhole hc
  have ho : (Sample.options {} {}).store.Reopens (System.run actions).medium.calm :=
    .of_none hs (by decide) (by decide) rfl
  have hm := (@System.run_ok True actions fun _ => hw).mediumOk
  have hreadable := (openStore_readable (m := (System.run actions).medium.calm)
    ⟨hm.trace, hm.represents⟩ hc.base rfl ho).mp (hall actions _ hw hc ho)
  obtain ⟨x, hx, hfence⟩ := List.any_eq_true.mp hfence
  rw [(Medium.readable_iff.mp hreadable).2.2 x hx] at hfence
  cases hfence

/-- A failover is granted, the journal rolls over, and the applier accepts. -/
theorem Sample.rolled : ∃ actions, Decoded actions ∧
    (System.run actions).history.all Event.isWhole = true ∧
    ((Disk.ofHistory (System.run actions).history).snapshot.any fun d =>
      decide (d.attempts.length = 1 ∧ d.fabric = (options {} {}).fabric)) = true ∧
    2 ≤ (Disk.ofHistory (System.run actions).history).records.length ∧
    (System.run actions).medium.calm.readable = true := by
  refine ⟨grantedOnce ++ [.perform .checkpoint, .perform (.recordApplication
    { subject := primary
      subjectGeneration := ⟨1⟩
      attemptSeq := ⟨1⟩
      attemptId := computeAttemptId (name 102) primary ⟨1⟩ ⟨1⟩
      applierIncarnation := incarnation 8
      accepted := true })], ?_, by decide +kernel⟩
  intro op hm
  simp only [grantedOnce, booted, List.cons_append, List.nil_append, List.mem_cons, reduceCtorEq,
    Action.perform.injEq, List.not_mem_nil, or_false, false_or] at hm
  rcases hm with rfl | rfl | rfl | rfl | rfl
  · decide
  · decide
  all_goals trivial

/-- A process was killed behind a checkpoint with an attempt in it, and behind the records of a
report on that attempt. Its directory opens again. -/
theorem reads_back_sample : ∃ (actions : List Action) (d : DurableState) (s : LineageStore),
    (Disk.ofHistory (System.run actions).history).snapshot = some d ∧ d.attempts.length = 1 ∧
    2 ≤ (Disk.ofHistory (System.run actions).history).records.length ∧
    (LineageStore.openStore (Sample.options {} {}).store
      (System.run actions).medium.calm).2 = .ok s := by
  obtain ⟨actions, hw, hc, hs, hlength, hr⟩ := Sample.rolled
  obtain ⟨d, hd, hs⟩ := (Option.any_eq_true _ _).mp hs
  obtain ⟨hattempts, hfabric⟩ := of_decide_eq_true hs
  have ho : (Sample.options {} {}).store.Reopens (System.run actions).medium.calm := by
    refine ⟨by decide, by decide, rfl, fun d' hd' => ?_⟩
    cases hd.symm.trans hd'
    exact hfabric
  obtain ⟨s, hopen⟩ := (reads_back hw (Event.checkpointsWhole hc) ho).mpr hr
  exact ⟨actions, d, s, hd, hattempts, hlength, hopen⟩

end LinkFailover
