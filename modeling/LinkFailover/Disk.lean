import LinkFailover.Store

/-!
# What a directory holds

A disk is the typed content of a directory: the state in its snapshot, the base of its journal
and the records behind it. The history of a medium determines its disk. Every operation of the
store keeps the bytes of the directory in step with it (`StoreOk`), and opening a directory is
opening its disk.

* `commit_outcome`: what a commit does to the state and to the history.
* `StoreOk.commit`, `StoreOk.checkpoint`: the bytes stay in step.
-/

namespace LinkFailover

open Codec

/-! ## Disks -/

structure Disk where
  snapshot : Option DurableState := none
  base : LineageSeq := .zero
  records : List (LineageSeq × Payload) := []

namespace Disk

def step (k : Disk) : Event → Disk
  | .committed seq p _ _ _ => { k with records := k.records ++ [(seq, p)] }
  | .checkpointed d true => { snapshot := some d, base := d.lastSeq }
  | .checkpointed d false => { k with snapshot := some d }
  | .opened _ | .replayed .. => k

def ofHistory (history : List Event) : Disk := history.foldl step {}

/-- The watermark of the snapshot. -/
def covered (k : Disk) : LineageSeq := (k.snapshot.map (·.lastSeq)).getD .zero

def views (k : Disk) : List JournalRecord := k.records.map fun r => r.2.record r.1

/-- The sequence behind a list of records. -/
def lastOf : LineageSeq → List (LineageSeq × Payload) → LineageSeq
  | base, [] => base
  | _, (seq, _) :: rest => lastOf seq rest

/-- Every record carries the successor of the sequence before it. -/
def Numbered : LineageSeq → List (LineageSeq × Payload) → Prop
  | _, [] => True
  | base, (seq, _) :: rest => base.next = some seq ∧ Numbered seq rest

def last (k : Disk) : LineageSeq := lastOf k.base k.records

theorem ofHistory_append (h : List Event) (e : Event) :
    ofHistory (h ++ [e]) = (ofHistory h).step e := by
  simp [ofHistory]

theorem lastOf_append (base seq : LineageSeq) (p : Payload)
    (rs : List (LineageSeq × Payload)) : lastOf base (rs ++ [(seq, p)]) = seq := by
  induction rs generalizing base with
  | nil => rfl
  | cons r rs ih => exact ih r.1

theorem numbered_append {base seq : LineageSeq} {p : Payload}
    {rs : List (LineageSeq × Payload)} (h : Numbered base rs)
    (hn : (lastOf base rs).next = some seq) : Numbered base (rs ++ [(seq, p)]) := by
  induction rs generalizing base with
  | nil => exact ⟨hn, trivial⟩
  | cons r rs ih => exact ⟨h.1, ih h.2 hn⟩

theorem base_le_lastOf {base : LineageSeq} {rs : List (LineageSeq × Payload)}
    (h : Numbered base rs) : base.toNat ≤ (lastOf base rs).toNat := by
  induction rs generalizing base with
  | nil => exact Nat.le_refl _
  | cons r rs ih =>
    have h1 := StrongUint.next_toNat h.1
    have h2 := ih h.2
    rw [lastOf]
    omega

end Disk

/-- The bytes of a directory stand for a disk. A journal that was never finished stands for
one without records. -/
structure Represents (dir : Directory) (k : Disk) : Prop where
  snapshot : ∀ d, k.snapshot = some d →
    ∃ bytes, d.serialise = .ok bytes ∧ dir.snapshot = some (frameSnapshot bytes)
  noSnapshot : k.snapshot = none → dir.snapshot = none
  numbered : Disk.Numbered k.base k.records
  base_le : k.base.toNat ≤ k.covered.toNat
  journal : (∃ file tail, dir.journal = some file ∧ JournalShape file k.base k.views tail) ∨
    k.records = [] ∧ k.base = k.covered ∧
      ∀ file, dir.journal = some file → file.length < kJournalHeaderSize

/-- An empty directory stands for an empty disk. -/
theorem represents_empty : Represents {} {} where
  snapshot := by simp
  noSnapshot := fun _ => rfl
  numbered := trivial
  base_le := Nat.le_refl _
  journal := .inr ⟨rfl, rfl, by simp⟩

/-! ## Appends -/

theorem failure_isOk {o : Outcome} {c : ReasonCode} {detail : Bytes} (h : o ≠ .ok) :
    (Status.failure o c detail).isOk = false := by
  change (o == .ok) = false
  simpa using h

/-- An append writes the whole record and reports success, or it reports a failure and leaves
any part of the record behind. -/
theorem append_outcome (w : JournalWriter) (file : Bytes) (fault : Fault) (r : JournalRecord) :
    (w.append file fault r = ({ w with lastSeq := r.seq }, file ++ frame r, Status.success) ∧
      r.Fits) ∨
    ∃ w' n st, w.append file fault r = (w', file ++ (frame r).take n, st) ∧ st.isOk = false ∧
      (0 < n → r.Fits) := by
  have hnone : file = file ++ (frame r).take 0 := by simp
  by_cases h1 : w.failed = true
  · refine .inr ⟨w, 0, (Status.failure .ioError .stickyDecodeFailure
      (text "journal writer has already failed")), ?_,
      failure_isOk (by decide), by simp⟩
    rw [JournalWriter.append.eq_def, if_pos h1, ← hnone]
  by_cases h2 : r.payload.length > kMaxRecordPayload
  · refine .inr ⟨w, 0, (Status.failure .limitExceeded .limitExceeded
      (text "record payload exceeds the supported bound")), ?_,
      failure_isOk (by decide), by simp⟩
    rw [JournalWriter.append.eq_def, if_neg h1, if_pos h2, ← hnone]
  by_cases h3 : ¬ w.lastSeq < r.seq
  · refine .inr ⟨{ w with failed := true }, 0, (Status.failure .conflict .sequenceRegression
      (text "record sequence does not advance the lineage")), ?_,
      failure_isOk (by decide), by simp⟩
    rw [JournalWriter.append.eq_def, if_neg h1, if_neg h2, if_pos h3, ← hnone]
  have hfits : r.Fits := Nat.le_of_not_lt h2
  cases fault with
  | none =>
    refine .inl ⟨?_, hfits⟩
    rw [JournalWriter.append, if_neg h1, if_neg h2, if_neg h3]
  | some n =>
    refine .inr ⟨{ w with failed := true }, n, JournalWriter.appendFailure r n, ?_,
      failure_isOk (by decide), fun _ => hfits⟩
    rw [JournalWriter.append, if_neg h1, if_neg h2, if_neg h3]

/-- A writer in step with its journal appends the next record unless the medium fails. -/
theorem append_next {w : JournalWriter} (hw : w.failed = false) (file : Bytes)
    {r : JournalRecord} (hfits : r.Fits) (hseq : w.lastSeq < r.seq) :
    w.append file none r = ({ w with lastSeq := r.seq }, file ++ frame r, Status.success) := by
  rw [JournalWriter.append, if_neg (by simp [hw]), if_neg (Nat.not_lt_of_le hfits),
    if_neg (not_not.mpr hseq)]

theorem frame_pos (r : JournalRecord) : 0 < (frame r).length := by
  rw [frame_length, kRecordHeaderSize]
  omega

namespace LineageStore

def disk (s : LineageStore) : Disk := Disk.ofHistory s.medium.history

/-- A store that has not failed is in step with its journal. -/
structure Synced (s : LineageStore) : Prop where
  writer : s.writer.failed = false
  writerSeq : s.writer.lastSeq = s.state.lastSeq
  last : s.state.lastSeq = s.disk.last
  base : s.disk.base = s.disk.covered
  journal : s.medium.directory.journal =
    some (buildJournalHeader s.disk.base ++ s.disk.views.flatMap frame)
  fits : ∀ r ∈ s.disk.views, r.Fits

structure StoreOk (s : LineageStore) : Prop where
  represents : Represents s.medium.directory s.disk
  synced : s.failed = false → s.Synced

/-! ## Commits -/

/-- How a commit ends: refused without a trace, lost to the caller after the record was
written, or done. -/
inductive CommitOutcome (s : LineageStore) (p : Payload)
    (apply : LineageSeq → DurableState → DurableState) : LineageStore → Status → Prop
  | refused {s' : LineageStore} {st : Status} (ok : st.isOk = false) (failed : s'.failed = true)
      (state : s'.state = s.state) (options : s'.options = s.options)
      (history : s'.medium.history = s.medium.history) : CommitOutcome s p apply s' st
  | lost {s' : LineageStore} {st : Status} {seq : LineageSeq} (ok : st.isOk = false)
      (before : s.failed = false) (failed : s'.failed = true)
      (next : s.state.lastSeq.next = some seq) (fits : (p.record seq).Fits)
      (state : s'.state = s.state) (options : s'.options = s.options)
      (history : s'.medium.history =
        s.medium.history ++ [.committed seq p s.state s.state false]) :
      CommitOutcome s p apply s' st
  | done {s' : LineageStore} {seq : LineageSeq} (before : s.failed = false)
      (failed : s'.failed = false) (next : s.state.lastSeq.next = some seq)
      (fits : (p.record seq).Fits)
      (state : s'.state = applied apply seq s.state) (options : s'.options = s.options)
      (history : s'.medium.history =
        s.medium.history ++ [.committed seq p s.state s'.state true]) :
      CommitOutcome s p apply s' Status.success

/-- A refused commit without the directory, as a shape to start from. -/
theorem commit_outcome (s : LineageStore) (p : Payload)
    (apply : LineageSeq → DurableState → DurableState) :
    CommitOutcome s p apply (s.commit p apply).1 (s.commit p apply).2 := by
  unfold commit
  by_cases hf : s.failed = true
  · rw [if_pos hf]
    exact .refused (failure_isOk (by decide)) hf rfl rfl rfl
  rw [if_neg hf]
  have hf' : s.failed = false := by simpa using hf
  cases hn : s.state.lastSeq.next with
  | none => exact .refused (failure_isOk (by decide)) rfl rfl rfl rfl
  | some next =>
    dsimp only
    rcases append_outcome s.writer (s.medium.directory.journal.getD []) s.medium.nextFault
      (p.record next) with ⟨ha, hfits⟩ | ⟨w, n, st, ha, hst, hfits⟩
    · rw [ha]
      exact .done hf' hf' hn hfits rfl rfl rfl
    · rw [ha]
      dsimp only
      rw [hst, Bool.not_false, if_pos rfl]
      by_cases hl : (s.medium.directory.journal.getD [] ++ (frame (p.record next)).take n).length =
          (s.medium.directory.journal.getD [] ++ frame (p.record next)).length
      · rw [if_pos hl]
        have hn0 : 0 < n := by
          have := frame_pos (p.record next)
          simp only [List.length_append, List.length_take] at hl
          omega
        exact .lost hst hf' rfl hn (hfits hn0) rfl rfl rfl
      · rw [if_neg hl]
        exact .refused hst rfl rfl rfl (List.append_nil _)

/-! ## The bytes stay in step -/

theorem views_committed (k : Disk) (seq : LineageSeq) (p : Payload) (b a : DurableState)
    (ack : Bool) : (k.step (.committed seq p b a ack)).views = k.views ++ [p.record seq] := by
  simp [Disk.step, Disk.views]

/-- A whole record behind a journal in step. -/
theorem journalShape_append {base : LineageSeq} {views : List JournalRecord} {r : JournalRecord}
    (hv : ∀ v ∈ views, v.Fits) (hr : r.Fits) :
    JournalShape (buildJournalHeader base ++ views.flatMap frame ++ frame r) base (views ++ [r])
      [] where
  bytes := by simp
  fits v hm := by
    rcases List.mem_append.mp hm with h | h
    · exact hv v h
    · rw [List.mem_singleton.mp h]
      exact hr
  torn := .inl rfl

/-- A part of a record behind a journal in step. -/
theorem journalShape_torn {base : LineageSeq} {views : List JournalRecord} {r : JournalRecord}
    (hv : ∀ v ∈ views, v.Fits) {n : Nat} (hr : 0 < n → r.Fits) (hn : n < (frame r).length) :
    JournalShape (buildJournalHeader base ++ views.flatMap frame ++ (frame r).take n) base views
      ((frame r).take n) where
  bytes := by simp
  fits := hv
  torn := by
    rcases Nat.eq_zero_or_pos n with rfl | h0
    · exact .inl rfl
    · exact .inr ⟨r, hr h0, n, h0, hn, rfl⟩

/-- The disk behind a record, when its journal holds the record. -/
theorem represents_committed {dir : Directory} {k : Disk} {seq : LineageSeq} {p : Payload}
    (b a : DurableState) (ack : Bool) (h : Represents dir k) (hn : k.last.next = some seq)
    {file : Bytes} (hj : JournalShape file k.base (k.views ++ [p.record seq]) []) :
    Represents { dir with journal := some file } (k.step (.committed seq p b a ack)) where
  snapshot := h.snapshot
  noSnapshot := h.noSnapshot
  numbered := Disk.numbered_append h.numbered hn
  base_le := h.base_le
  journal := .inl ⟨file, [], rfl, by rw [views_committed]; exact hj⟩

section Equations

variable {s : LineageStore} {p : Payload} {apply : LineageSeq → DurableState → DurableState}
  {next : LineageSeq} {w : JournalWriter} {file : Bytes} {st : Status}

/-- The medium behind an append. -/
def appended (s : LineageStore) (file : Bytes) (events : List Event) : Medium :=
  ({ s.medium.popFault with
      directory := { s.medium.directory with journal := some file } } : Medium).log events

theorem commit_done (hf : s.failed = false) (hn : s.state.lastSeq.next = some next)
    (ha : s.writer.append (s.medium.directory.journal.getD []) s.medium.nextFault
      (p.record next) = (w, file, Status.success)) :
    (s.commit p apply).1 =
      { s with
        state := applied apply next s.state
        writer := w
        recordsSinceSnapshot := s.recordsSinceSnapshot + 1
        medium := s.appended file
          [.committed next p s.state (applied apply next s.state) true] } := by
  rw [commit, if_neg (by simp [hf]), hn]
  dsimp only
  rw [ha]
  rfl

theorem commit_failed (hf : s.failed = false) (hn : s.state.lastSeq.next = some next)
    (ha : s.writer.append (s.medium.directory.journal.getD []) s.medium.nextFault
      (p.record next) = (w, file, st)) (hst : st.isOk = false) :
    (s.commit p apply).1 =
      { s with
        failed := true
        writer := w
        medium := s.appended file
          (if file.length = (s.medium.directory.journal.getD [] ++
              frame (p.record next)).length then
            [.committed next p s.state s.state false] else []) } := by
  rw [commit, if_neg (by simp [hf]), hn]
  dsimp only
  rw [ha]
  dsimp only
  rw [hst]
  rfl

end Equations

theorem StoreOk.commit {s : LineageStore} (h : StoreOk s) (p : Payload)
    (apply : LineageSeq → DurableState → DurableState) : StoreOk (s.commit p apply).1 := by
  by_cases hf : s.failed = true
  · rw [LineageStore.commit, if_pos hf]
    exact h
  have hf' : s.failed = false := by simpa using hf
  have hs := h.synced hf'
  cases hn : s.state.lastSeq.next with
  | none =>
    rw [LineageStore.commit, if_neg hf, hn]
    exact ⟨h.represents, fun hc => absurd hc (by simp)⟩
  | some next =>
    have hlast : s.disk.last.next = some next := by rw [← hs.last, hn]
    rcases append_outcome s.writer (s.medium.directory.journal.getD []) s.medium.nextFault
      (p.record next) with ⟨ha, hfits⟩ | ⟨w, n, st, ha, hst, hfits⟩
    · rw [commit_done hf' hn ha, hs.journal, Option.getD_some]
      have hj := @journalShape_append s.disk.base _ _ hs.fits hfits
      have hd := Disk.ofHistory_append s.medium.history
        (.committed next p s.state (applied apply next s.state) true)
      refine ⟨?_, fun _ => ⟨hs.writer, rfl, ?_, ?_, ?_, ?_⟩⟩
      · change Represents _ (Disk.ofHistory (s.medium.history ++ [_]))
        rw [hd]
        exact represents_committed _ _ _ h.represents hlast hj
      · change next = (Disk.ofHistory (s.medium.history ++ [_])).last
        rw [hd]
        exact (Disk.lastOf_append _ _ _ _).symm
      · change (Disk.ofHistory (s.medium.history ++ [_])).base =
          (Disk.ofHistory (s.medium.history ++ [_])).covered
        rw [hd]
        exact hs.base
      · change some _ = some (buildJournalHeader (Disk.ofHistory (s.medium.history ++ [_])).base ++
          (Disk.ofHistory (s.medium.history ++ [_])).views.flatMap frame)
        rw [hd, views_committed]
        simp [Disk.step, disk]
      · change ∀ r ∈ (Disk.ofHistory (s.medium.history ++ [_])).views, r.Fits
        rw [hd, views_committed]
        exact hj.fits
    · rw [commit_failed hf' hn ha hst, hs.journal, Option.getD_some]
      refine ⟨?_, fun hc => absurd hc (by simp)⟩
      by_cases hl : (buildJournalHeader s.disk.base ++ s.disk.views.flatMap frame ++
          (frame (p.record next)).take n).length =
          (buildJournalHeader s.disk.base ++ s.disk.views.flatMap frame ++
            frame (p.record next)).length
      · -- the whole record reached the file before the failure
        have hlen : (frame (p.record next)).length ≤ n := by
          simp only [List.length_append, List.length_take] at hl
          omega
        have hn0 : 0 < n := Nat.lt_of_lt_of_le (frame_pos _) hlen
        rw [if_pos hl, List.take_of_length_le hlen]
        change Represents _ (Disk.ofHistory (s.medium.history ++ [_]))
        rw [Disk.ofHistory_append]
        exact represents_committed _ _ _ h.represents hlast
          (journalShape_append hs.fits (hfits hn0))
      · have hlt : n < (frame (p.record next)).length := by
          by_contra hge
          rw [List.take_of_length_le (Nat.le_of_not_lt hge)] at hl
          exact hl rfl
        rw [if_neg hl]
        change Represents _ (Disk.ofHistory (s.medium.history ++ []))
        rw [List.append_nil]
        exact
          { h.represents with
            journal := .inl ⟨_, _, rfl, journalShape_torn hs.fits hfits hlt⟩ }

/-! ## Checkpoints -/

theorem not_below_base (b : LineageSeq) : ¬ (b.value ≠ 0 ∧ b.value < b.value) :=
  fun h => absurd h.2 (UInt64.lt_irrefl _)

theorem openFile_created (file : Option Bytes) (b : LineageSeq) :
    JournalWriter.openFile file none b b true =
      (some (buildJournalHeader b), .ok { lastSeq := b }) := by
  rw [JournalWriter.openFile.eq_def, if_neg (not_below_base b), if_pos rfl]

/-- Opening a journal in step gives a writer behind its last record. -/
theorem openFile_existing {base last : LineageSeq} (hl : base.toNat ≤ last.toNat) (rest : Bytes)
    (fault : Fault) :
    JournalWriter.openFile (some (buildJournalHeader base ++ rest)) fault base last false =
      (some (buildJournalHeader base ++ rest), .ok { lastSeq := last }) := by
  have hlen : ¬ (buildJournalHeader base ++ rest).length < kJournalHeaderSize := by
    rw [List.length_append, buildJournalHeader_length]
    omega
  have hlt : ¬ (base.value ≠ 0 ∧ last.value < base.value) := fun h =>
    absurd (UInt64.lt_iff_toNat_lt.mp h.2) (Nat.not_lt_of_le hl)
  rw [JournalWriter.openFile.eq_def, if_neg hlt, if_neg (by decide)]
  dsimp only
  rw [if_neg hlen, parseJournalHeader_build]
  dsimp only
  rw [if_neg (not_not.mpr rfl)]

/-- How a checkpoint ends: without a trace, with a new snapshot and a failed store, or with a
new journal to which the checkpoint record is committed. -/
inductive CheckpointOutcome (s : LineageStore) : LineageStore → Prop
  | unchanged {s' : LineageStore} (state : s'.state = s.state) (options : s'.options = s.options)
      (failed : s'.failed = s.failed) (history : s'.medium.history = s.medium.history) :
      CheckpointOutcome s s'
  | broken {s' : LineageStore} (rotated : Bool) (before : s.failed = false)
      (failed : s'.failed = true) (state : s'.state = s.state) (options : s'.options = s.options)
      (history : s'.medium.history = s.medium.history ++ [.checkpointed s.state rotated]) :
      CheckpointOutcome s s'
  | rotated {s₁ : LineageStore} (c : CheckpointPayload) (before : s.failed = false)
      (failed : s₁.failed = false) (state : s₁.state = s.state) (options : s₁.options = s.options)
      (history : s₁.medium.history = s.medium.history ++ [.checkpointed s.state true]) :
      CheckpointOutcome s (s₁.commit (.checkpoint c) fun _ d => d).1

/-- The store between the rotation of a checkpoint and its record. -/
def rotated (s : LineageStore) (framed : Bytes) : LineageStore :=
  { ({ s with medium := s.medium.popCheckpointFault } : LineageStore).rotate framed
      (some (buildJournalHeader s.state.lastSeq)) with
    writer := { lastSeq := s.state.lastSeq }
    recordsSinceSnapshot := 0 }

theorem staged_none (covers : LineageSeq) :
    staged none covers = some (buildJournalHeader covers) := by
  rw [staged, openFile_created]

/-- A checkpoint on a medium that does not fail. -/
theorem checkpoint_none {s : LineageStore} {payload : Bytes} (hf : s.failed = false)
    (hs : s.state.serialise = .ok payload) (hfault : s.medium.nextCheckpointFault = none) :
    ∃ c, s.checkpoint.1 = ((s.rotated (frameSnapshot payload)).commit (.checkpoint c)
      fun _ d => d).1 := by
  have hopen := openFile_existing (Nat.le_refl s.state.lastSeq.toNat) [] none
  rw [List.append_nil] at hopen
  rw [checkpoint, if_neg (by simp [hf]), hs]
  dsimp only
  rw [hfault]
  dsimp only
  rw [staged_none, recordCheckpoint]
  dsimp only [rotate, withDirectory, Medium.log]
  rw [hopen]
  exact ⟨_, rfl⟩

theorem checkpoint_outcome (s : LineageStore) : CheckpointOutcome s s.checkpoint.1 := by
  by_cases hf : s.failed = true
  · rw [checkpoint, if_pos hf]
    exact .unchanged rfl rfl rfl rfl
  have hf' : s.failed = false := by simpa using hf
  cases hs : s.state.serialise with
  | error e =>
    rw [checkpoint, if_neg hf, hs]
    exact .unchanged rfl rfl rfl rfl
  | ok payload =>
    cases hc : s.medium.nextCheckpointFault with
    | none =>
      obtain ⟨c, hc⟩ := checkpoint_none hf' hs hc
      rw [hc]
      exact .rotated c hf' hf' rfl rfl rfl
    | some f =>
      unfold checkpoint
      rw [if_neg hf, hs]
      dsimp only
      rw [hc]
      cases f with
      | snapshot => exact .unchanged rfl rfl rfl rfl
      | staging n => exact .broken false hf' rfl rfl rfl rfl
      | rename => exact .broken false hf' rfl rfl rfl rfl
      | reopen => exact .broken true hf' rfl rfl rfl rfl

/-- A directory behind a new snapshot, before the journal is replaced. -/
theorem represents_replaced {dir : Directory} {k : Disk} {d : DurableState} {bytes : Bytes}
    {staging : Option Bytes} (h : Represents dir k) (hd : d.serialise = .ok bytes)
    (hb : k.base.toNat ≤ d.lastSeq.toNat) {file tail : Bytes} (hf : dir.journal = some file)
    (hj : JournalShape file k.base k.views tail) :
    Represents { dir with snapshot := some (frameSnapshot bytes), staging := staging }
      (k.step (.checkpointed d false)) where
  snapshot d' hd' := by
    cases hd'
    exact ⟨bytes, hd, rfl⟩
  noSnapshot hn := by cases hn
  numbered := h.numbered
  base_le := hb
  journal := .inl ⟨file, tail, hf, hj⟩

/-- A directory behind a new snapshot and a new journal. -/
theorem represents_rotated (k : Disk) {d : DurableState} {bytes : Bytes}
    (hd : d.serialise = .ok bytes) :
    Represents
      { snapshot := some (frameSnapshot bytes)
        journal := some (buildJournalHeader d.lastSeq)
        staging := none }
      (k.step (.checkpointed d true)) where
  snapshot d' hd' := by
    cases hd'
    exact ⟨bytes, hd, rfl⟩
  noSnapshot hn := by cases hn
  numbered := trivial
  base_le := Nat.le_refl _
  journal := .inl ⟨_, [], rfl, ⟨by simp [Disk.views, Disk.step], by simp [Disk.views, Disk.step],
    .inl rfl⟩⟩

theorem StoreOk.rotated {s : LineageStore} {payload : Bytes}
    (hs : s.state.serialise = .ok payload) : StoreOk (s.rotated (frameSnapshot payload)) := by
  have hd : (s.rotated (frameSnapshot payload)).disk = s.disk.step (.checkpointed s.state true) :=
    Disk.ofHistory_append _ _
  refine ⟨?_, fun _ => ⟨rfl, rfl, ?_, ?_, ?_, ?_⟩⟩
  · rw [hd]
    exact represents_rotated s.disk hs
  · rw [hd]
    rfl
  · rw [hd]
    rfl
  · rw [hd]
    change some _ = some (buildJournalHeader s.state.lastSeq ++ [])
    rw [List.append_nil]
  · rw [hd]
    simp [Disk.views, Disk.step]

theorem StoreOk.replaced {s : LineageStore} (h : StoreOk s) (hf : s.failed = false)
    {payload : Bytes} (hs : s.state.serialise = .ok payload) (staging : Option Bytes) :
    Represents
      { s.medium.directory with snapshot := some (frameSnapshot payload), staging := staging }
      (s.disk.step (.checkpointed s.state false)) := by
  have hy := h.synced hf
  refine represents_replaced h.represents hs ?_ hy.journal
    ⟨(List.append_nil _).symm ▸ rfl, hy.fits, .inl rfl⟩
  rw [hy.last]
  exact Disk.base_le_lastOf h.represents.numbered

theorem StoreOk.checkpoint {s : LineageStore} (h : StoreOk s) : StoreOk s.checkpoint.1 := by
  by_cases hf : s.failed = true
  · rw [LineageStore.checkpoint, if_pos hf]
    exact h
  have hf' : s.failed = false := by simpa using hf
  cases hs : s.state.serialise with
  | error e =>
    rw [LineageStore.checkpoint, if_neg hf, hs]
    exact h
  | ok payload =>
    cases hc : s.medium.nextCheckpointFault with
    | none =>
      obtain ⟨c, hc⟩ := checkpoint_none hf' hs hc
      rw [hc]
      exact (StoreOk.rotated hs).commit _ _
    | some f =>
      have hd : ∀ rotated, Disk.ofHistory (s.medium.history ++ [.checkpointed s.state rotated]) =
          s.disk.step (.checkpointed s.state rotated) := fun _ => Disk.ofHistory_append _ _
      rw [LineageStore.checkpoint, if_neg hf, hs]
      dsimp only
      rw [hc]
      cases f with
      | snapshot => exact ⟨h.represents, fun hx => ⟨(h.synced hf').writer, (h.synced hf').writerSeq,
          (h.synced hf').last, (h.synced hf').base, (h.synced hf').journal, (h.synced hf').fits⟩⟩
      | staging n =>
        refine ⟨?_, fun hx => absurd hx (by simp [markFailed])⟩
        change Represents _ (Disk.ofHistory (s.medium.history ++ [.checkpointed s.state false]))
        rw [hd]
        exact h.replaced hf' hs _
      | rename =>
        refine ⟨?_, fun hx => absurd hx (by simp [markFailed])⟩
        change Represents _ (Disk.ofHistory (s.medium.history ++ [.checkpointed s.state false]))
        rw [hd]
        exact h.replaced hf' hs _
      | reopen =>
        refine ⟨?_, fun hx => absurd hx (by simp [markFailed])⟩
        change Represents
          { snapshot := some (frameSnapshot payload)
            journal := staged none s.state.lastSeq
            staging := none } (Disk.ofHistory (s.medium.history ++ [.checkpointed s.state true]))
        rw [hd, staged_none]
        exact represents_rotated s.disk hs

end LineageStore

end LinkFailover
