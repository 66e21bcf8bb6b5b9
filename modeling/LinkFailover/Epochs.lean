import LinkFailover.Commits
import LinkFailover.Reboots
import LinkFailover.Scans

/-!
# Epochs

The epoch that an open of a directory replays is the epoch of the last boot record behind the
snapshot, or of the snapshot when there is none. Boot records are only ever added, each with the
epoch behind the one before it, and a snapshot takes over the epoch of the state that it is written
from. So every open comes up with a higher epoch than all opens of the directory before it, however
these ended and whatever the directory held when the first of them found it.

* `Directory.Aged`: a directory that tells every open a certain epoch at least.
* `LineageStore.Current`: a store that is in step with the epoch of its directory.
* `Boot.open_current`, `System.step_aged`: an open, and any step of the system.
* `open_restarts_iff`: what an open of any directory leaves.
-/

namespace LinkFailover

open Codec

/-! ## The epoch behind a record -/

/-- The epoch behind a record. A boot record above the watermark sets it, without a look at the one
before. -/
def epochBehind (covered : LineageSeq) (epoch : Epoch) (r : JournalRecord) : Epoch :=
  if r.seq ≤ covered then epoch
  else
    match r.type, BootPayload.decode.whole r.payload with
    | .boot, some p => p.epoch
    | _, _ => epoch

/-- The epoch behind a payload that is committed. -/
def Payload.epochBehind (epoch : Epoch) : Payload → Epoch
  | .boot p => p.epoch
  | _ => epoch

theorem epochBehind_record {covered seq : LineageSeq} (h : covered.toNat < seq.toNat) (epoch : Epoch)
    (p : Payload) :
    LinkFailover.epochBehind covered epoch (p.record seq) = p.epochBehind epoch := by
  have hseq : ¬ (p.record seq).seq ≤ covered := fun hle =>
    Nat.not_lt_of_le (StrongUint.le_iff.mp hle) h
  rw [LinkFailover.epochBehind, if_neg hseq]
  cases p with
  | boot p =>
    change (match RecordType.boot, BootPayload.decode.whole (Writer.run p.encode) with
      | .boot, some p => p.epoch
      | _, _ => epoch) = p.epoch
    rw [p.roundTrip.whole]
  | attempt w r => cases w <;> rfl
  | _ => rfl

/-- Below the watermark nothing counts. -/
theorem epochBehind_covered {covered : LineageSeq} {records : List JournalRecord}
    (h : ∀ r ∈ records, r.seq.toNat ≤ covered.toNat) (epoch : Epoch) :
    records.foldl (epochBehind covered) epoch = epoch := by
  induction records with
  | nil => rfl
  | cons r records ih =>
    have hr : r.seq ≤ covered := StrongUint.le_iff.mpr (h r List.mem_cons_self)
    rw [List.foldl_cons, epochBehind, if_pos hr]
    exact ih fun q hq => h q (List.mem_cons_of_mem _ hq)

theorem applyRecord_epoch {o : StoreOptions} {d d' : DurableState} {r : JournalRecord}
    (h : d.applyRecord o r = .ok d') : d'.epoch =
      match r.type, BootPayload.decode.whole r.payload with
      | .boot, some p => p.epoch
      | _, _ => d.epoch := by
  unfold DurableState.applyRecord at h
  split at h
  · rename_i htype
    rw [htype]
    split at h
    · cases h
    · rename_i hp
      cases h
      rw [hp]
      rfl
  all_goals
    rename_i htype
    rw [htype]
    first
      | (cases h; rfl)
      | (split at h <;> first | (cases h; done) | (cases h; rfl))
      | (obtain ⟨x, -, h⟩ := bind_ok h; cases h; rfl)

theorem replayHook_epoch {o : StoreOptions} {covered : LineageSeq}
    {acc acc' : DurableState × List Event} {r : JournalRecord}
    (h : LineageStore.replayHook o covered acc r = .ok acc') :
    acc'.1.epoch = epochBehind covered acc.1.epoch r := by
  unfold LineageStore.replayHook at h
  split at h
  · rename_i hle
    cases h
    rw [epochBehind, if_pos hle]
  · rename_i hle
    obtain ⟨d, hd, h⟩ := bind_ok h
    cases h
    rw [epochBehind, if_neg hle]
    exact applyRecord_epoch hd

/-- A scan folds the epochs of its records, and none of them is beyond the last sequence. -/
theorem scanAll_epoch {o : StoreOptions} {covered : LineageSeq} {records : List JournalRecord}
    {s t : Scan (DurableState × List Event)}
    (h : scanAll (LineageStore.replayHook o covered) records s = .ok t) :
    t.state.1.epoch = records.foldl (epochBehind covered) s.state.1.epoch ∧
      ∀ r ∈ records, r.seq.toNat ≤ t.lastSeq.toNat := by
  induction records generalizing s with
  | nil =>
    cases h
    exact ⟨rfl, by simp⟩
  | cons r records ih =>
    rw [scanAll, List.foldlM_cons] at h
    obtain ⟨u, hu, h⟩ := bind_ok h
    obtain ⟨hepoch, hseq⟩ := ih h
    have hlast := LineageStore.scanAll_lastSeq h
    unfold scanRecord at hu
    split at hu
    · obtain ⟨state, hstate, hu⟩ := bind_ok hu
      cases hu
      refine ⟨?_, fun q hq => ?_⟩
      · rw [hepoch, List.foldl_cons]
        change records.foldl _ state.1.epoch = _
        rw [replayHook_epoch hstate]
      · rcases List.mem_cons.mp hq with rfl | hq
        · exact hlast
        · exact hseq q hq
    · cases hu

/-! ## Snapshots -/

/-- Every open that loads this snapshot starts at this watermark and this epoch. -/
def SnapshotTells (snapshot : Option Bytes) (covered : LineageSeq) (epoch : Epoch) : Prop :=
  ∀ o start, LineageStore.loadSnapshot o snapshot = .ok start →
    start.lastSeq = covered ∧ start.epoch = epoch

/-- What a snapshot is loaded as, if it is: the options do not matter. -/
theorem loadSnapshot_some {o : StoreOptions} {framed : Bytes} {start : DurableState}
    (h : LineageStore.loadSnapshot o (some framed) = .ok start) :
    framed.length ≤ kMaxSnapshotBytes ∧ ∃ payload, unframeSnapshot framed = .ok payload ∧
      DurableState.deserialise payload = .ok start := by
  unfold LineageStore.loadSnapshot at h
  dsimp only at h
  split at h
  · cases h
  rename_i hsize
  obtain ⟨payload, hpayload, h⟩ := bind_ok h
  obtain ⟨d, hd, h⟩ := bind_ok h
  refine ⟨Nat.le_of_not_lt hsize, payload, hpayload, ?_⟩
  split at h
  · cases h
  split at h
  · cases h
  split at h
  · cases h
  cases h
  exact hd

theorem SnapshotTells.of_load {o : StoreOptions} {snapshot : Option Bytes} {start : DurableState}
    (h : LineageStore.loadSnapshot o snapshot = .ok start) :
    SnapshotTells snapshot start.lastSeq start.epoch := by
  intro o' start' h'
  cases snapshot with
  | none =>
    cases h
    cases h'
    exact ⟨rfl, rfl⟩
  | some framed =>
    obtain ⟨-, payload, hpayload, hd⟩ := loadSnapshot_some h
    obtain ⟨-, payload', hpayload', hd'⟩ := loadSnapshot_some h'
    rw [hpayload] at hpayload'
    cases hpayload'
    rw [hd] at hd'
    cases hd'
    exact ⟨rfl, rfl⟩

theorem SnapshotTells.of_serialise {d : DurableState} {payload : Bytes}
    (h : d.serialise = .ok payload) :
    SnapshotTells (some (frameSnapshot payload)) d.lastSeq d.epoch := by
  intro o start hstart
  obtain ⟨hsize, found, hfound, hd⟩ := loadSnapshot_some hstart
  rw [frameSnapshot_length] at hsize
  have hlength : payload.length ≤ kMaxSnapshotBytes := by omega
  rw [unframeSnapshot_frame hlength] at hfound
  cases hfound
  exact (DurableState.deserialise_counters h hlength hd).symm

/-! ## Directories and stores -/

/-- A directory with a snapshot and a journal of whole records, and perhaps a torn tail, that tells
every open this epoch at least. -/
structure Directory.Aged (n : Nat) (dir : Directory) : Prop where
  told : ∃ (covered : LineageSeq) (epoch : Epoch) (file : Bytes) (base : LineageSeq)
    (records : List JournalRecord) (tail : Bytes), SnapshotTells dir.snapshot covered epoch ∧
    dir.journal = some file ∧ JournalShape file base records tail ∧
    n ≤ (records.foldl (epochBehind covered) epoch).toNat

theorem Directory.Aged.mono {n k : Nat} {dir : Directory} (h : dir.Aged n) (hk : k ≤ n) :
    dir.Aged k := by
  obtain ⟨covered, epoch, file, base, records, tail, hsnapshot, hjournal, hshape, hn⟩ := h
  exact ⟨covered, epoch, file, base, records, tail, hsnapshot, hjournal, hshape, by omega⟩

namespace LineageStore

/-- A store whose epoch is the one that its directory tells, and which is not behind any record of
its journal. -/
structure Current (s : LineageStore) : Prop where
  told : ∃ (covered : LineageSeq) (epoch : Epoch) (base : LineageSeq) (records : List JournalRecord),
    SnapshotTells s.medium.directory.snapshot covered epoch ∧
    s.medium.directory.journal = some (buildJournalHeader base ++ records.flatMap frame) ∧
    (∀ r ∈ records, r.Fits ∧ r.seq.toNat ≤ s.state.lastSeq.toNat) ∧
    covered.toNat ≤ s.state.lastSeq.toNat ∧
    records.foldl (epochBehind covered) epoch = s.state.epoch

/-- A store whose directory tells this epoch at least, and which is in step with it until it
fails. -/
structure Aged (n : Nat) (s : LineageStore) : Prop where
  directory : s.medium.directory.Aged n
  current : s.failed = false → s.Current ∧ n ≤ s.state.epoch.toNat

variable {n : Nat} {s : LineageStore}

theorem Current.directory (h : s.Current) : s.medium.directory.Aged s.state.epoch.toNat := by
  obtain ⟨covered, epoch, base, records, hsnapshot, hjournal, hrecords, -, hepoch⟩ := h
  exact ⟨covered, epoch, _, base, records, [], hsnapshot, hjournal,
    ⟨by rw [List.append_nil], fun r hr => (hrecords r hr).1, .inl rfl⟩, by rw [hepoch]⟩

theorem Current.aged (h : s.Current) (hn : n ≤ s.state.epoch.toNat) : s.Aged n :=
  ⟨h.directory.mono hn, fun _ => ⟨h, hn⟩⟩

/-! ## Commits -/

/-- What is applied along with a payload moves the epoch as its record does, and never back. -/
def Moves (p : Payload) (apply : Applies) (d : DurableState) : Prop :=
  (∀ seq, (applied apply seq d).epoch = p.epochBehind d.epoch) ∧
    d.epoch.toNat ≤ (p.epochBehind d.epoch).toNat

theorem Aged.commit (h : s.Aged n) {p : Payload} {apply : Applies}
    (hp : s.failed = false → Moves p apply s.state) : (s.commit p apply).1.Aged n := by
  by_cases hf : s.failed = true
  · rw [LineageStore.commit, if_pos hf]
    exact h
  have hf' : s.failed = false := by simpa using hf
  obtain ⟨hcurrent, hn⟩ := h.current hf'
  obtain ⟨happly, hrise⟩ := hp hf'
  obtain ⟨covered, epoch, base, records, hsnapshot, hjournal, hrecords, hcovered, hepoch⟩ := hcurrent
  cases hnext : s.state.lastSeq.next with
  | none =>
    rw [LineageStore.commit, if_neg hf, hnext]
    exact ⟨h.directory, fun hc => absurd hc (by simp)⟩
  | some next =>
    have hlt := StrongUint.next_toNat hnext
    have hfits : ∀ r ∈ records, r.Fits := fun r hr => (hrecords r hr).1
    have hfold : (records ++ [p.record next]).foldl (epochBehind covered) epoch =
        p.epochBehind s.state.epoch := by
      rw [List.foldl_append, hepoch]
      exact epochBehind_record (by omega) _ _
    rcases append_outcome s.writer (s.medium.directory.journal.getD []) s.medium.nextFault
      (p.record next) with ⟨ha, hfit⟩ | ⟨w, k, st, ha, hst, hfit⟩
    · rw [commit_done hf' hnext ha, hjournal, Option.getD_some]
      have hj := @journalShape_append base _ _ hfits hfit
      refine Current.aged ⟨covered, epoch, base, records ++ [p.record next], hsnapshot, ?_,
        fun r hr => ?_, ?_, ?_⟩ ?_
      · change some _ = _
        rw [hj.bytes, List.append_nil]
      · rcases List.mem_append.mp hr with hr | hr
        · refine ⟨hfits r hr, ?_⟩
          change _ ≤ next.toNat
          have := (hrecords r hr).2
          omega
        · rw [List.mem_singleton.mp hr]
          exact ⟨hfit, Nat.le_refl _⟩
      · change _ ≤ next.toNat
        omega
      · rw [hfold]
        exact (happly next).symm
      · change n ≤ (applied apply next s.state).epoch.toNat
        rw [happly]
        omega
    · rw [commit_failed hf' hnext ha hst, hjournal, Option.getD_some]
      refine ⟨?_, fun hc => absurd hc (by simp)⟩
      by_cases hk : (frame (p.record next)).length ≤ k
      · -- the whole record reached the file before the failure
        have hk0 : 0 < k := Nat.lt_of_lt_of_le (frame_pos _) hk
        refine ⟨covered, epoch, _, base, records ++ [p.record next], [], hsnapshot, rfl, ?_, ?_⟩
        · rw [List.take_of_length_le hk]
          exact journalShape_append hfits (hfit hk0)
        · rw [hfold]
          omega
      · exact ⟨covered, epoch, _, base, records, _, hsnapshot, rfl,
          journalShape_torn hfits hfit (Nat.lt_of_not_le hk), by rw [hepoch]; omega⟩

/-! ## Checkpoints -/

/-- A directory behind a new snapshot of a store in step: nothing of its journal counts any more. -/
theorem Current.replaced (h : s.Current) {payload : Bytes} (hs : s.state.serialise = .ok payload)
    (staging : Option Bytes) :
    Directory.Aged s.state.epoch.toNat
      { s.medium.directory with snapshot := some (frameSnapshot payload), staging := staging } := by
  obtain ⟨covered, epoch, base, records, -, hjournal, hrecords, -, -⟩ := h
  refine ⟨s.state.lastSeq, s.state.epoch, _, base, records, [], .of_serialise hs, hjournal,
    ⟨by rw [List.append_nil], fun r hr => (hrecords r hr).1, .inl rfl⟩, ?_⟩
  rw [epochBehind_covered fun r hr => (hrecords r hr).2]

theorem rotated_current {payload : Bytes} (hs : s.state.serialise = .ok payload) :
    (s.rotated (frameSnapshot payload)).Current :=
  ⟨s.state.lastSeq, s.state.epoch, s.state.lastSeq, [], .of_serialise hs,
    by rw [List.flatMap_nil, List.append_nil]; rfl, by simp, Nat.le_refl _, rfl⟩

theorem Aged.checkpoint (h : s.Aged n) : s.checkpoint.1.Aged n := by
  by_cases hf : s.failed = true
  · rw [LineageStore.checkpoint, if_pos hf]
    exact h
  have hf' : s.failed = false := by simpa using hf
  obtain ⟨hcurrent, hn⟩ := h.current hf'
  cases hs : s.state.serialise with
  | error e =>
    rw [LineageStore.checkpoint, if_neg hf, hs]
    exact h
  | ok payload =>
    cases hc : s.medium.nextCheckpointFault with
    | none =>
      obtain ⟨c, hc⟩ := checkpoint_none hf' hs hc
      rw [hc]
      exact Aged.commit ((rotated_current hs).aged hn) fun _ => ⟨fun _ => rfl, Nat.le_refl _⟩
    | some f =>
      rw [LineageStore.checkpoint, if_neg hf, hs]
      dsimp only
      rw [hc]
      cases f with
      | snapshot => exact ⟨h.directory, fun _ => ⟨⟨hcurrent.told⟩, hn⟩⟩
      | staging k =>
        exact ⟨(hcurrent.replaced hs _).mono hn, fun hx => absurd hx (by simp [markFailed])⟩
      | rename =>
        exact ⟨(hcurrent.replaced hs _).mono hn, fun hx => absurd hx (by simp [markFailed])⟩
      | reopen =>
        refine ⟨?_, fun hx => absurd hx (by simp [markFailed])⟩
        have hr := (rotated_current hs).directory.mono hn
        rw [staged_none]
        exact hr

theorem Aged.close (h : s.Aged n) : s.close.Aged n :=
  ⟨h.directory, fun hx => by cases hx⟩

/-- Commits that leave the epoch alone. -/
theorem Aged.commits {K : Payload → Applies → Prop} {s' : LineageStore}
    (hk : ∀ p apply, K p apply → ∀ d, Moves p apply d) (h : Commits K s s') (ha : s.Aged n) :
    s'.Aged n := by
  induction h with
  | refl => exact ha
  | commit h => exact ha.commit fun _ => hk _ _ h _
  | checkpoint => exact ha.checkpoint
  | trans _ _ ih ih' => exact ih' (ih ha)

end LineageStore

/-- No operation of an engine moves the epoch. -/
theorem Engine.Makes.moves {e : Engine} {op : Operation} {p : Payload} {apply : Applies}
    (h : e.Makes op p apply) (d : DurableState) : LineageStore.Moves p apply d := by
  cases h <;> exact ⟨fun _ => rfl, Nat.le_refl _⟩

theorem perform_aged {n : Nat} {e : Engine} (h : e.store.Aged n) (op : Operation) :
    (e.perform op).1.store.Aged n := by
  obtain ⟨s, hs, hstore | hstore⟩ := e.perform_stores op
  · rw [hstore]
    exact h.commits (fun _ _ hm d => hm.moves d) hs
  · rw [hstore]
    exact (h.commits (fun _ _ hm d => hm.moves d) hs).close

/-! ## Opens -/

namespace LineageStore

variable {o : StoreOptions} {start : DurableState}

/-- What a replay has read of a journal: these records behind this base. -/
structure Reads (start : DurableState) (base : LineageSeq) (records : List JournalRecord)
    (r : Replayed) : Prop where
  create : r.create = false
  file : r.file = some (buildJournalHeader base ++ records.flatMap frame)
  fits : ∀ q ∈ records, q.Fits
  seqs : ∀ q ∈ records, q.seq.toNat ≤ r.last.toNat
  covered : start.lastSeq.toNat ≤ r.last.toNat
  epoch : r.state.epoch = records.foldl (epochBehind start.lastSeq) start.epoch

theorem reads_of_scan {base : LineageSeq} {records : List JournalRecord} {r : Replayed}
    {t : Scan (DurableState × List Event)} (hfits : ∀ q ∈ records, q.Fits)
    (ht : scanAll (replayHook o start.lastSeq) records { state := (start, []), lastSeq := base } =
      .ok t)
    (hstate : r.state = t.state.1) (hlast : r.last = maxSeq t.lastSeq start.lastSeq)
    (hcreate : r.create = false)
    (hfile : r.file = some (buildJournalHeader base ++ records.flatMap frame)) :
    Reads start base records r := by
  obtain ⟨hepoch, hseqs⟩ := scanAll_epoch ht
  have hmax := maxSeq_toNat t.lastSeq start.lastSeq
  rw [← hlast] at hmax
  refine ⟨hcreate, hfile, hfits, fun q hq => ?_, by omega, by rw [hstate, hepoch]⟩
  have := hseqs q hq
  omega

/-- A replay of a journal that a writer has left reads its records, or fails. -/
theorem replayJournal_reads {file tail : Bytes} {base : LineageSeq} {records : List JournalRecord}
    (h : JournalShape file base records tail) {r : Replayed}
    (hr : replayJournal o start (some file) = .ok r) : Reads start base records r := by
  have hsize : file.length ≤ kMaxJournalBytes := by
    by_contra hgt
    rw [replayJournal.eq_def] at hr
    dsimp only at hr
    rw [replay, if_pos (Nat.lt_of_not_le hgt)] at hr
    cases hr
  by_cases htail : tail = [] ∨ o.repairTornTail = true
  · rw [replayJournal_shape h hsize htail] at hr
    cases ht : scanAll (replayHook o start.lastSeq) records
        { state := (start, []), lastSeq := base } with
    | error e =>
      rw [ht] at hr
      cases hr
    | ok t =>
      rw [ht] at hr
      cases hr
      exact reads_of_scan h.fits ht rfl rfl rfl rfl
  · rw [not_or, Bool.not_eq_true] at htail
    obtain ⟨e, he⟩ := @replay_torn _ (replayHook o start.lastSeq) _ _ _ _ h hsize htail.1 (start, [])
    rw [replayJournal.eq_def] at hr
    dsimp only at hr
    rw [htail.2, he] at hr
    cases hr

/-- A replay of any journal that ends well: there was none to speak of, or it has read records. -/
theorem replayJournal_ok {file : Option Bytes} {r : Replayed}
    (h : replayJournal o start file = .ok r) :
    (r.create = true ∧ r.state = start ∧ start.lastSeq.toNat ≤ r.last.toNat) ∨
      ∃ base records, Reads start base records r := by
  cases file with
  | none =>
    cases h
    exact .inl ⟨rfl, rfl, Nat.le_refl _⟩
  | some file =>
    rw [replayJournal.eq_def] at h
    dsimp only at h
    obtain ⟨x, hx, h⟩ := bind_ok h
    cases replay_ok hx with
    | @emptied result _ emptied =>
      cases h
      refine .inl ⟨emptied, rfl, ?_⟩
      change start.lastSeq.toNat ≤ (maxSeq result.lastSeq start.lastSeq).toNat
      rw [maxSeq_toNat]
      omega
    | @read result base records tail t _ fits scanned _ last kept =>
      cases h
      exact .inr ⟨base, records, reads_of_scan fits scanned rfl (by rw [← last]) kept rfl⟩

theorem openFile_kept (file : Option Bytes) (fault : Fault) (base last : LineageSeq) :
    (JournalWriter.openFile file fault base last false).1 = file := by
  rw [JournalWriter.openFile.eq_def]
  split
  · rfl
  rw [if_neg (by decide)]
  split
  · rfl
  split
  · rfl
  split
  · rfl
  split <;> rfl

theorem openFile_begun {file : Option Bytes} {fault : Fault} {base last : LineageSeq}
    {w : JournalWriter} (h : (JournalWriter.openFile file fault base last true).2 = .ok w) :
    (JournalWriter.openFile file fault base last true).1 = some (buildJournalHeader base) := by
  rw [JournalWriter.openFile.eq_def] at h ⊢
  split at h
  · cases h
  rename_i hbase
  rw [if_pos rfl] at h
  rw [if_neg hbase, if_pos rfl]
  cases fault with
  | none => rfl
  | some n => cases h

/-- The store behind a replay. -/
theorem openReplayed_ok {m : Medium} {r : Replayed} {s : LineageStore}
    (h : (openReplayed o m r).2 = .ok s) : (openReplayed o m r).1 = s.medium ∧
      s.failed = false ∧ s.state = { r.state with lastSeq := r.last } ∧
      s.medium.directory.snapshot = m.directory.snapshot ∧ s.medium.directory.journal =
        if r.create then some (buildJournalHeader r.base) else r.file := by
  unfold openReplayed at h ⊢
  dsimp only at h ⊢
  cases hw : (JournalWriter.openFile r.file (if r.create = true then m.nextFault else none) r.base
      r.last r.create).2 with
  | error e =>
    rw [hw] at h
    cases h
  | ok w =>
    rw [hw] at h
    cases h
    cases hc : r.create with
    | true =>
      rw [hc] at hw
      refine ⟨rfl, rfl, rfl, rfl, ?_⟩
      exact openFile_begun hw
    | false =>
      refine ⟨rfl, rfl, rfl, rfl, ?_⟩
      exact openFile_kept _ _ _ _

/-- A journal that was read stays, whether the open behind the replay succeeds or not. -/
theorem openReplayed_kept {m : Medium} {r : Replayed} (hc : r.create = false) :
    (openReplayed o m r).1.directory = { m.directory with journal := r.file } := by
  unfold openReplayed
  rw [hc]
  dsimp only
  rw [openFile_kept]
  generalize (JournalWriter.openFile _ _ _ _ _).2 = opened
  cases opened <;> rfl

variable {m : Medium} {n : Nat} {s : LineageStore}

/-- How an open ends well, in its steps. -/
theorem openStore_steps (h : (openStore o m).2 = .ok s) : ∃ start r,
    loadSnapshot o m.directory.snapshot = .ok start ∧
      replayJournal o start m.directory.journal = .ok r ∧
      openStore o m = openReplayed o (unstaged m) r := by
  unfold openStore at h ⊢
  split at h
  · cases h
  rename_i hp
  split at h
  · cases h
  rename_i ht
  rw [if_neg hp, if_neg ht]
  cases hl : loadSnapshot o m.directory.snapshot with
  | error e =>
    rw [hl] at h
    cases h
  | ok start =>
    rw [hl] at h
    dsimp only at h ⊢
    cases hr : replayJournal o start m.directory.journal with
    | error e =>
      rw [hr] at h
      cases h
    | ok r => exact ⟨start, r, rfl, hr, rfl⟩

/-- A store that is opened is in step with its directory, whatever that held. -/
theorem openStore_current (h : (openStore o m).2 = .ok s) :
    (openStore o m).1 = s.medium ∧ s.failed = false ∧ s.Current := by
  obtain ⟨start, r, hl, hr, ho⟩ := openStore_steps h
  rw [ho] at h ⊢
  obtain ⟨hm, hf, hstate, hsnapshot, hjournal⟩ := openReplayed_ok h
  have htells := SnapshotTells.of_load hl
  refine ⟨hm, hf, ?_⟩
  rcases replayJournal_ok hr with ⟨hc, hs, hle⟩ | ⟨base, records, hreads⟩
  · refine ⟨start.lastSeq, start.epoch, r.base, [], by rw [hsnapshot]; exact htells, ?_, by simp, ?_,
      ?_⟩
    · rw [hjournal, hc, List.flatMap_nil, List.append_nil]
      rfl
    · rw [hstate]
      exact hle
    · rw [hstate, hs]
      rfl
  · refine ⟨start.lastSeq, start.epoch, base, records, by rw [hsnapshot]; exact htells, ?_,
      fun q hq => ⟨hreads.fits q hq, ?_⟩, ?_, ?_⟩
    · rw [hjournal, hreads.create]
      exact hreads.file
    · rw [hstate]
      exact hreads.seqs q hq
    · rw [hstate]
      exact hreads.covered
    · rw [hstate]
      exact hreads.epoch.symm

theorem aged_unstaged (h : m.directory.Aged n) : (unstaged m).directory.Aged n := ⟨h.told⟩

/-- An open of an aged directory leaves it aged, and comes up with no lower epoch. -/
theorem openStore_aged (h : m.directory.Aged n) : (openStore o m).1.directory.Aged n ∧
    ∀ s, (openStore o m).2 = .ok s → n ≤ s.state.epoch.toNat := by
  have hu := aged_unstaged h
  unfold openStore
  split
  · exact ⟨h, fun s hs => by cases hs⟩
  split
  · exact ⟨h, fun s hs => by cases hs⟩
  cases hl : loadSnapshot o m.directory.snapshot with
  | error e => exact ⟨hu, fun s hs => by cases hs⟩
  | ok start =>
    dsimp only
    cases hr : replayJournal o start m.directory.journal with
    | error e => exact ⟨hu, fun s hs => by cases hs⟩
    | ok r =>
      obtain ⟨covered, epoch, file, base, records, tail, hsnapshot, hjournal, hshape, hn⟩ := h
      rw [hjournal] at hr
      have hreads := replayJournal_reads hshape hr
      obtain ⟨rfl, rfl⟩ := hsnapshot _ _ hl
      refine ⟨?_, fun s hs => ?_⟩
      · dsimp only
        rw [openReplayed_kept hreads.create, hreads.file]
        exact ⟨_, _, _, base, records, [], hsnapshot, rfl,
          ⟨by rw [List.append_nil], hreads.fits, .inl rfl⟩, hn⟩
      · rw [(openReplayed_ok hs).2.2.1]
        change n ≤ r.state.epoch.toNat
        rw [hreads.epoch]
        exact hn

/-! ## Boots -/

theorem fenceAttempts_aged {epoch : Epoch} {coordinator : Incarnation} {rs : List AttemptRecord}
    (h : s.Aged n) : (fenceAttempts epoch coordinator rs s).1.Aged n := by
  induction rs generalizing s with
  | nil => exact h
  | cons r rs ih =>
    by_cases hr : r.isTerminal = true
    · rw [fenceAttempts, if_pos hr]
      exact ih h
    rw [fenceAttempts_cons (by simpa using hr)]
    have h1 : (s.writeInterrupt r).1.Aged n := h.commit fun _ => ⟨fun _ => rfl, Nat.le_refl _⟩
    have h2 : ((s.writeInterrupt r).1.writeRestartFence epoch coordinator r).1.Aged n :=
      h1.commit fun _ => ⟨fun _ => rfl, Nat.le_refl _⟩
    split
    · exact h1
    split
    · exact h2
    · exact ih h2

end LineageStore

theorem bootStore_aged {n : Nat} {s : LineageStore} (h : s.Aged n) (incarnation : Incarnation)
    (build : Engine.Build) : (Engine.bootStore s incarnation build).1.Aged n := by
  unfold Engine.bootStore
  cases hb : Engine.nextBoot s.state incarnation build with
  | error e => exact h
  | ok boot =>
    have hlt := StrongUint.next_toNat (nextBoot_epoch hb).1
    have h1 : (s.commit (.boot boot) fun _ d => d.noteEpoch boot).1.Aged n :=
      h.commit fun _ => ⟨fun _ => rfl, by change _ ≤ boot.epoch.toNat; omega⟩
    dsimp only
    split
    · exact h1
    have h2 : ((s.commit (.boot boot) fun _ d => d.noteEpoch boot).1.fenceRestartAuthority boot.epoch
        incarnation).1.Aged n := LineageStore.fenceAttempts_aged h1
    revert h2
    generalize (s.commit (.boot boot) fun _ d => d.noteEpoch boot).1.fenceRestartAuthority boot.epoch
      incarnation = w
    intro h2
    obtain ⟨s', r⟩ := w
    cases r <;> exact h2

/-- A boot that ends well leaves the epoch of the boot. -/
theorem bootStore_current {s s' : LineageStore} {incarnation : Incarnation} {build : Engine.Build}
    {epoch : Epoch} (h : Engine.bootStore s incarnation build = (s', .ok epoch)) (hs : s.Current) :
    s'.Aged epoch.toNat ∧ s.state.epoch.toNat < epoch.toNat := by
  unfold Engine.bootStore at h
  cases hb : Engine.nextBoot s.state incarnation build with
  | error e =>
    rw [hb] at h
    cases h
  | ok boot =>
    rw [hb] at h
    dsimp only at h
    have hlt := StrongUint.next_toNat (nextBoot_epoch hb).1
    have h1 : (s.commit (.boot boot) fun _ d => d.noteEpoch boot).1.Aged s.state.epoch.toNat :=
      (hs.aged (Nat.le_refl _)).commit fun _ =>
        ⟨fun _ => rfl, by change _ ≤ boot.epoch.toNat; omega⟩
    split at h
    · cases h
    rename_i hok
    rw [Bool.not_eq_true', Bool.not_eq_false] at hok
    obtain ⟨-, hf, seq, -, -, hstate, -⟩ := commit_ok hok
    have hepoch : (s.commit (.boot boot) fun _ d => d.noteEpoch boot).1.state.epoch = boot.epoch := by
      rw [hstate]
      rfl
    have h2 : (s.commit (.boot boot) fun _ d => d.noteEpoch boot).1.Aged boot.epoch.toNat :=
      (h1.current hf).1.aged (by rw [hepoch])
    have h3 : ((s.commit (.boot boot) fun _ d => d.noteEpoch boot).1.fenceRestartAuthority boot.epoch
        incarnation).1.Aged boot.epoch.toNat := LineageStore.fenceAttempts_aged h2
    split at h
    · cases h
    · rename_i s₂ k hw
      cases h
      rw [hw] at h3
      exact ⟨h3, by omega⟩

/-- An open of any directory that succeeds: the store is in step with its epoch. -/
theorem Boot.open_current {b : Boot} {m : Medium} {e : Engine} (h : (b.open m).2 = .ok e) :
    e.store.Aged e.epoch.toNat ∧ ∀ n, m.directory.Aged n → n < e.epoch.toNat := by
  unfold Boot.open Engine.openEngine at h
  iterate 4
    split at h
    · cases h
  cases ho : LineageStore.openStore b.options.store (b.medium m) with
  | mk m' opened =>
    rw [ho] at h
    cases opened with
    | error st => cases h
    | ok s =>
      dsimp only at h
      cases hb : Engine.bootStore s b.incarnation b.build with
      | mk s' booted =>
        rw [hb] at h
        cases booted with
        | error st => cases h
        | ok epoch =>
          cases h
          have hs : (LineageStore.openStore b.options.store (b.medium m)).2 = .ok s := by rw [ho]
          obtain ⟨haged, hlt⟩ := bootStore_current hb (LineageStore.openStore_current hs).2.2
          refine ⟨haged, fun n hn => ?_⟩
          have hn : (b.medium m).directory.Aged n := hn
          exact Nat.lt_of_le_of_lt ((LineageStore.openStore_aged hn).2 s hs) hlt

/-- An open that fails leaves an aged directory aged, at whichever of its commits it failed. -/
theorem Boot.open_failed {b : Boot} {m m' : Medium} {st : Status} {n : Nat}
    (h : b.open m = (m', .error st)) (hm : m.directory.Aged n) : m'.directory.Aged n := by
  unfold Boot.open Engine.openEngine at h
  iterate 4
    split at h
    · cases h
      exact hm
  have hm : (b.medium m).directory.Aged n := hm
  have hopen := LineageStore.openStore_aged (o := b.options.store) hm
  have hcurrent := @LineageStore.openStore_current b.options.store (b.medium m)
  revert h hopen hcurrent
  generalize LineageStore.openStore b.options.store (b.medium m) = opened
  obtain ⟨m₁, r⟩ := opened
  intro h hopen hcurrent
  cases r with
  | error e =>
    cases h
    exact hopen.1
  | ok s =>
    dsimp only at h
    have hs := (hcurrent rfl).2.2.aged (hopen.2 s rfl)
    have hb := bootStore_aged hs b.incarnation b.build
    revert h hb
    generalize Engine.bootStore s b.incarnation b.build = booted
    obtain ⟨s', r⟩ := booted
    intro h hb
    cases r <;> cases h
    exact hb.directory

/-! ## Runs -/

/-- A system whose directory tells this epoch at least. -/
def System.Aged (n : Nat) : System → Prop
  | .down m => m.directory.Aged n
  | .up e => e.store.Aged n

theorem System.step_aged {n : Nat} {s : System} (h : s.Aged n) (a : Action) : (s.step a).Aged n := by
  cases s with
  | down m =>
    cases a with
    | start b =>
      cases hopen : (b.open m).2 with
      | error st =>
        rw [System.step_refused hopen]
        exact Boot.open_failed (Prod.ext rfl hopen) h
      | ok e =>
        rw [System.step_started hopen]
        obtain ⟨haged, hlt⟩ := Boot.open_current hopen
        have hn := hlt n h
        exact ⟨haged.directory.mono (Nat.le_of_lt hn), fun hf =>
          ⟨(haged.current hf).1, Nat.le_trans (Nat.le_of_lt hn) (haged.current hf).2⟩⟩
    | perform | kill => exact h
  | up e =>
    cases a with
    | perform op => exact perform_aged h op
    | kill => exact h.directory
    | start => exact h

theorem System.foldl_aged {n : Nat} {s : System} (h : s.Aged n) (actions : List Action) :
    (actions.foldl System.step s).Aged n := by
  induction actions generalizing s with
  | nil => exact h
  | cons a actions ih => exact ih (System.step_aged h a)

/-- An open of any directory, whatever happened to it before: the epoch is above the epoch of every
earlier open of it, and what the open leaves is as it should be exactly if the attempts in flight
have different keys and the new boot finds no authority of its own. -/
theorem open_restarts_iff {m₀ m : Medium} {actions : List Action}
    (hrun : actions.foldl System.step (.down m₀) = .down m) {b : Boot} {e : Engine}
    (he : (b.open m).2 = .ok e) :
    ∃ s, (LineageStore.openStore b.options.store (b.medium m)).2 = .ok s ∧
      ((Restarts s.state e ∧ ∀ before b' after m' e', actions = before ++ .start b' :: after →
          before.foldl System.step (.down m₀) = .down m' → (b'.open m').2 = .ok e' →
          e'.epoch.toNat < e.epoch.toNat) ↔
        s.state.Restartable b.incarnation) := by
  obtain ⟨s, hs, hr⟩ := openEngine_restarts_iff he
  refine ⟨s, hs, ?_⟩
  rw [hr, and_iff_left]
  intro before b' after m' e' hactions hbefore he'
  have hup := System.step_started he'
  have haged : (System.up e').Aged e'.epoch.toNat := (Boot.open_current he').1
  have hlast := System.foldl_aged haged after
  rw [← hup, ← hbefore, ← List.foldl_cons (l := after) (f := System.step), ← List.foldl_append,
    ← hactions, hrun] at hlast
  exact (Boot.open_current he).2 _ hlast

namespace Sample

/-- An attempt in flight that holds authority, for one of two generations of the primary link. -/
def inFlight (generation : LinkGeneration) : AttemptRecord where
  subject := primary
  subjectGeneration := generation
  attemptSeq := ⟨1⟩
  phase := .authorized
  replacement := alternate
  replacementGeneration := ⟨1⟩
  createSeq := ⟨1⟩
  updateSeq := ⟨2⟩

/-- The state of a snapshot that holds such an attempt for both generations. -/
def doubled : DurableState where
  fabric := name 102
  policy := { generation := ⟨1⟩ }
  topology := topology ⟨1⟩ ⟨2⟩
  epoch := ⟨1⟩
  coordinator := incarnation 1
  lastSeq := ⟨4⟩
  attempts := [inFlight ⟨1⟩, inFlight ⟨2⟩]

theorem doubled_encodable : doubled.Encodable where
  fabric := by decide
  links := by decide
  entries := by simp [doubled]
  attempts := by decide
  fences := by decide
  idempotency := by decide
  declared := by decide

/-- The directory with this snapshot and without a journal. -/
def doubledMedium : Medium where
  directory := { snapshot := some (frameSnapshot (doubled.encode {}).buffer) }

theorem doubled_loads (o : StoreOptions) (ho : LineageStore.Restorable o doubled) :
    LineageStore.loadSnapshot o doubledMedium.directory.snapshot = .ok doubled := by
  have hrepresents : Represents doubledMedium.directory
      { snapshot := some doubled, base := doubled.lastSeq } :=
    { snapshot := fun d hd => by
        cases hd
        exact ⟨_, DurableState.serialise_ok doubled_encodable.toSound, rfl⟩
      noSnapshot := fun h => by cases h
      numbered := trivial
      base_le := Nat.le_refl _
      journal := .inr ⟨rfl, rfl, fun file h => by cases h⟩ }
  rcases LineageStore.loadSnapshot_represents (o := o) hrepresents fun d hd => by
    cases hd
    exact doubled_encodable.toSound with ⟨-, hno⟩ | ⟨hl, -⟩
  · exact absurd (fun d hd => by cases hd; exact ho) hno
  · exact hl

/-- The store that opens this directory. -/
def doubledStore (b : Boot) : LineageStore where
  options := b.options.store
  state := doubled
  writer := { lastSeq := doubled.lastSeq }
  medium :=
    { directory :=
        { doubledMedium.directory with journal := some (buildJournalHeader doubled.lastSeq) }
      history := [.opened b.options.store] }

theorem doubled_opens {b : Boot} (hb : b.appendFaults = [] ∧ b.checkpointFaults = [])
    (hp : b.options.policy.validate.isOk = true) (ht : b.options.topology.validate.isOk = true)
    (ho : LineageStore.Restorable b.options.store doubled) :
    LineageStore.openStore b.options.store (b.medium doubledMedium) =
      ((doubledStore b).medium, .ok (doubledStore b)) := by
  have hm : b.medium doubledMedium = doubledMedium := by
    rw [Boot.medium, hb.1, hb.2]
    rfl
  rw [hm, LineageStore.openStore_replayed hp ht (doubled_loads _ ho) rfl, LineageStore.openReplayed]
  dsimp only
  rw [if_pos rfl, if_pos rfl, show (LineageStore.unstaged doubledMedium).nextFault = none from rfl,
    LineageStore.openFile_created]
  rfl

end Sample

/-- Two attempts in flight of one link and one sequence, under two generations: the boot writes both
interruptions over the first of them, and the second one stays authorized. -/
theorem authority_outlives_restart : ¬ ∀ (m : Medium) (b : Boot) (e : Engine),
    (b.open m).2 = .ok e → ∃ s, (LineageStore.openStore b.options.store (b.medium m)).2 = .ok s ∧
      Restarts s.state e := by
  intro hall
  let b : Boot := { options := Sample.options {} {}, incarnation := Sample.incarnation 2 }
  have hstore := @Sample.doubled_opens b ⟨rfl, rfl⟩ (by decide) (by decide) (by decide +kernel)
  have hboot : (Engine.bootStore (Sample.doubledStore b) b.incarnation b.build).2.isOk = true ∧
      ((Engine.bootStore (Sample.doubledStore b) b.incarnation b.build).1.state.attempts.any
        fun r => r.phase = .authorized) = true := by
    decide +kernel
  cases hb : Engine.bootStore (Sample.doubledStore b) b.incarnation b.build with
  | mk s' r =>
  rw [hb] at hboot
  cases r with
  | error st => cases hboot.1
  | ok epoch =>
    have hopen := Boot.open_of_store (by decide) (by decide) (by decide) (by decide) hstore hb
    obtain ⟨s, -, hr⟩ := hall _ b _ (congrArg Prod.snd hopen)
    obtain ⟨q, hq, hphase⟩ := List.any_eq_true.mp hboot.2
    have hterminal := hr.terminal q hq
    rw [AttemptRecord.isTerminal, of_decide_eq_true hphase] at hterminal
    cases hterminal

/-- A process grants a failover and is killed, and the next one interrupts the attempt. -/
theorem open_restarts_iff_sample : ∃ (m : Medium) (b : Boot) (e : Engine),
    (b.open m).2 = .ok e ∧ (∃ r ∈ e.state.attempts, r.phase = .interrupted) ∧
      e.state.fences ≠ [] ∧
      ∃ s, (LineageStore.openStore b.options.store (b.medium m)).2 = .ok s ∧ Restarts s.state e ∧
        ∃ (b' : Boot) (e' : Engine), (b'.open {}).2 = .ok e' ∧ e'.epoch.toNat < e.epoch.toNat := by
  let b' : Boot := { options := Sample.options {} {}, incarnation := Sample.incarnation 1 }
  let b : Boot := { options := Sample.options {} {}, incarnation := Sample.incarnation 2 }
  let actions : List Action :=
    Sample.booted {} {} ++ [.perform (.requestFailover (Sample.request ⟨1⟩))]
  obtain ⟨e₀, he₀, hp⟩ := @System.of_serves (System.run actions)
    (fun e₀ => (e₀.reboot b).any fun e => (e.state.attempts.any fun r => r.phase = .interrupted) &&
      !e.state.fences.isEmpty) (by decide +kernel)
  obtain ⟨e, hr, hp⟩ := (Option.any_eq_true _ _).mp hp
  rw [Bool.and_eq_true, Bool.not_eq_true', List.isEmpty_eq_false_iff] at hp
  obtain ⟨hany, hfences⟩ := hp
  obtain ⟨r, hr', hphase⟩ := List.any_eq_true.mp hany
  have hok₀ := @System.run_ok False actions False.elim
  rw [he₀] at hok₀
  have he : (b.open e₀.store.medium).2 = .ok e := congrArg Prod.snd (Engine.open_reboot hok₀ hr)
  have hrun : (actions ++ [Action.kill]).foldl System.step (.down {}) = .down e₀.store.medium := by
    rw [List.foldl_append, ← System.run, he₀]
    rfl
  have hm : MediumOk False (b.medium e₀.store.medium) :=
    ⟨.stopped hok₀.trace, hok₀.store.represents⟩
  obtain ⟨s, hs, hiff⟩ := open_restarts_iff hrun he
  obtain ⟨hrestarts, hearlier⟩ := hiff.mpr (openEngine_restartable hm he hs)
  have hfirst : (b'.open {}).2.isOk = true := by decide +kernel
  cases he' : (b'.open {}).2 with
  | error st =>
    rw [he'] at hfirst
    cases hfirst
  | ok e' =>
    exact ⟨_, b, e, he, ⟨r, hr', of_decide_eq_true hphase⟩, hfences, s, hs, hrestarts, b', e', he',
      hearlier [] b' _ {} e' rfl rfl he'⟩

end LinkFailover
