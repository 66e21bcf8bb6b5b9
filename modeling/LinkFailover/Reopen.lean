import LinkFailover.Disk

/-!
# Opening a directory

Opening a directory that stands for a disk is opening the disk: the state of the snapshot, with
the records of the journal applied to it one after the other. Nothing of this looks at bytes any
more.

* `openStore_represents`: an open fails and changes nothing that counts, or it succeeds with the
  state of the disk.
* `openStore_accepts`: when it succeeds.
* `openStore_ok`: what it takes to succeed.
-/

namespace LinkFailover

open Codec

/-! ## Opening a disk -/

namespace Disk

def start (k : Disk) (o : StoreOptions) : DurableState :=
  k.snapshot.getD { fabric := o.fabric, policy := o.policy, topology := o.topology }

/-- Applies one record and notes it in the history. -/
def replayRecord (o : StoreOptions) (acc : DurableState × List Event)
    (r : LineageSeq × Payload) : Result (DurableState × List Event) := do
  let d ← acc.1.applyRecord o (r.2.record r.1)
  return (d, acc.2 ++ LineageStore.replayEvents (r.2.record r.1) acc.1 d)

def replayRecords (o : StoreOptions) (rs : List (LineageSeq × Payload))
    (acc : DurableState × List Event) : Result (DurableState × List Event) :=
  rs.foldlM (replayRecord o) acc

def opened (k : Disk) (o : StoreOptions) : Result (DurableState × List Event) :=
  replayRecords o k.records (k.start o, [])

theorem start_lastSeq (k : Disk) (o : StoreOptions) : (k.start o).lastSeq = k.covered := by
  cases hk : k.snapshot <;> simp [start, covered, hk]

end Disk

namespace LineageStore

variable {σ : Type}

/-- Above the watermark the scan of a numbered journal is the replay of its records. -/
theorem scanAll_replay {o : StoreOptions} {covered base : LineageSeq}
    {rs : List (LineageSeq × Payload)} (hc : covered.toNat ≤ base.toNat)
    (hn : Disk.Numbered base rs) {s : Scan (DurableState × List Event)} (hs : s.lastSeq = base) :
    ∃ finish : DurableState × List Event → Scan (DurableState × List Event),
      (∀ acc, (finish acc).state = acc ∧ (finish acc).lastSeq = Disk.lastOf base rs) ∧
      scanAll (replayHook o covered) (rs.map fun r => r.2.record r.1) s =
        (Disk.replayRecords o rs s.state).map finish := by
  induction rs generalizing base s with
  | nil => exact ⟨fun acc => { s with state := acc }, fun _ => ⟨rfl, hs⟩, rfl⟩
  | cons r rs ih =>
    have hnext := StrongUint.next_toNat hn.1
    have hlt : s.lastSeq < r.1 := by
      rw [hs, StrongUint.lt_iff]
      omega
    have hskip : ¬ r.1 ≤ covered := by
      rw [StrongUint.le_iff]
      omega
    have hhook : replayHook o covered s.state (r.2.record r.1) =
        Disk.replayRecord o s.state r := if_neg hskip
    have hscan : scanRecord (replayHook o covered) s (r.2.record r.1) =
        (Disk.replayRecord o s.state r).map fun state =>
          { s with
            state := state
            lastSeq := r.1
            records := s.records + 1
            offset := s.offset + kRecordHeaderSize + r.2.bytes.length } := by
      change (if s.lastSeq < r.1 then _ else _) = _
      rw [if_pos hlt, hhook]
      cases Disk.replayRecord o s.state r <;> rfl
    rw [List.map_cons, scanAll, List.foldlM_cons, hscan, Disk.replayRecords, List.foldlM_cons]
    cases hr : Disk.replayRecord o s.state r with
    | error e => exact ⟨fun acc => { s with state := acc, lastSeq := Disk.lastOf base (r :: rs) },
        fun _ => ⟨rfl, rfl⟩, rfl⟩
    | ok acc => exact ih (by omega) hn.2 rfl

/-! ## Loading the snapshot -/

/-- What the loader asks of the state in a snapshot. -/
structure Restorable (o : StoreOptions) (d : DurableState) : Prop where
  size : (frameSnapshot (d.encode {}).buffer).length ≤ kMaxSnapshotBytes
  declared : d.Declared
  fabric : d.fabric = o.fabric
  policy : d.policy.validate.isOk = true
  topology : d.topology.validate.isOk = true

theorem loadSnapshot_represents {o : StoreOptions} {dir : Directory} {k : Disk}
    (h : Represents dir k) (hs : ∀ d, k.snapshot = some d → d.Sound) :
    (∃ e, loadSnapshot o dir.snapshot = .error e) ∧
        (¬ ∀ d, k.snapshot = some d → Restorable o d) ∨
      loadSnapshot o dir.snapshot = .ok (k.start o) ∧
        ∀ d, k.snapshot = some d → Restorable o d := by
  cases hk : k.snapshot with
  | none =>
    rw [h.noSnapshot hk]
    exact .inr ⟨by simp [loadSnapshot, Disk.start, hk], by simp⟩
  | some d =>
    obtain ⟨bytes, hb, hd⟩ := h.snapshot d hk
    have hser := DurableState.serialise_ok (hs d hk)
    rw [hb] at hser
    cases hser
    rw [hd, loadSnapshot]
    by_cases hl : (frameSnapshot (d.encode {}).buffer).length > kMaxSnapshotBytes
    · rw [if_pos hl]
      exact .inl ⟨⟨_, rfl⟩, fun hr => Nat.not_lt_of_le (hr d rfl).size hl⟩
    have hle : (d.encode {}).buffer.length ≤ kMaxSnapshotBytes := by
      rw [frameSnapshot_length] at hl
      omega
    rw [if_neg hl, unframeSnapshot_frame hle, ok_bind]
    by_cases hdeclared : d.Declared
    swap
    · obtain ⟨e, he⟩ := DurableState.deserialise_undeclared (hs d hk) ((hs d hk).counted hle) hdeclared
      rw [he]
      exact .inl ⟨⟨_, rfl⟩, fun hr => hdeclared (hr d rfl).declared⟩
    rw [DurableState.deserialise_serialise ((hs d hk).encodable hdeclared hle), ok_bind]
    split
    · rename_i hne
      exact .inl ⟨⟨_, rfl⟩, fun hr => hne (hr d rfl).fabric⟩
    rename_i hfabric
    split
    · rename_i hp
      exact .inl ⟨⟨_, rfl⟩, fun hr => by simp [(hr d rfl).policy] at hp⟩
    rename_i hpolicy
    split
    · rename_i ht
      exact .inl ⟨⟨_, rfl⟩, fun hr => by simp [(hr d rfl).topology] at ht⟩
    rename_i htopology
    refine .inr ⟨by simp [Disk.start, hk]; rfl, fun x hx => ?_⟩
    cases hx
    exact ⟨Nat.le_of_not_lt hl, hdeclared, not_not.mp hfabric, by simpa using hpolicy,
      by simpa using htopology⟩

/-! ## Replaying the journal -/

theorem scanAll_lastSeq {hook : σ → JournalRecord → Result σ} {records : List JournalRecord}
    {s s' : Scan σ} (h : scanAll hook records s = .ok s') :
    s.lastSeq.toNat ≤ s'.lastSeq.toNat := by
  induction records generalizing s with
  | nil =>
    cases h
    exact Nat.le_refl _
  | cons r records ih =>
    rw [scanAll, List.foldlM_cons] at h
    cases hr : scanRecord hook s r with
    | error e => rw [hr] at h; cases h
    | ok t =>
      rw [hr] at h
      have ht : s.lastSeq.toNat < t.lastSeq.toNat := by
        unfold scanRecord at hr
        split at hr
        · rename_i hlt
          cases hh : hook s.state r with
          | error e => rw [hh] at hr; cases hr
          | ok state =>
            rw [hh] at hr
            cases hr
            exact StrongUint.lt_iff.mp hlt
        · cases hr
      exact Nat.le_trans (Nat.le_of_lt ht) (ih h)

theorem replayJournal_shape {o : StoreOptions} {start : DurableState} {file tail : Bytes}
    {base : LineageSeq} {records : List JournalRecord}
    (h : JournalShape file base records tail) (hsize : file.length ≤ kMaxJournalBytes)
    (hr : tail = [] ∨ o.repairTornTail = true) :
    replayJournal o start (some file) =
      (scanAll (replayHook o start.lastSeq) records { state := (start, []), lastSeq := base }).map
        fun s =>
          { state := s.state.1
            events := s.state.2
            base := maxSeq base start.lastSeq
            last := maxSeq s.lastSeq start.lastSeq
            create := false
            file := some (buildJournalHeader base ++ records.flatMap frame) } := by
  rw [replayJournal.eq_def]
  dsimp only
  rw [replay_frames h hsize hr]
  cases scanAll (replayHook o start.lastSeq) records { state := (start, []), lastSeq := base } <;>
    rfl

theorem maxSeq_self (a : LineageSeq) : maxSeq a a = a := by
  rw [maxSeq]
  split <;> rfl

theorem maxSeq_toNat (a b : LineageSeq) : (maxSeq a b).toNat = max a.toNat b.toNat := by
  rw [maxSeq]
  split
  · rename_i h
    have := StrongUint.lt_iff.mp h
    omega
  · rename_i h
    rw [StrongUint.lt_iff] at h
    omega

theorem maxSeq_of_le {a b : LineageSeq} (h : b.toNat ≤ a.toNat) : maxSeq a b = a := by
  rw [← StrongUint.toNat_inj, maxSeq_toNat, Nat.max_eq_left h]

/-! ## Opening a directory -/

/-- An open, once the snapshot is loaded and the journal is replayed. -/
theorem openStore_replayed {o : StoreOptions} {m : Medium} {start : DurableState} {r : Replayed}
    (hp : o.policy.validate.isOk = true) (ht : o.topology.validate.isOk = true)
    (hl : loadSnapshot o m.directory.snapshot = .ok start)
    (hr : replayJournal o start m.directory.journal = .ok r) :
    openStore o m = openReplayed o (unstaged m) r := by
  rw [openStore, if_neg (by simp [hp]), if_neg (by simp [ht]), hl]
  dsimp only
  rw [hr]

/-- The store that an open of a disk gives. -/
def reopened (o : StoreOptions) (k : Disk) (d : DurableState) (m : Medium) : LineageStore where
  options := o
  state := { d with lastSeq := k.last }
  writer := { lastSeq := k.last }
  medium := m

/-- When an open succeeds: the options pass their checks, the files are within their bounds, a
torn tail may be repaired or there is none, the journal begins where the snapshot ends and every
record behind it is accepted. -/
structure Accepts (o : StoreOptions) (m : Medium) (k : Disk) : Prop where
  policy : o.policy.validate.isOk = true
  topology : o.topology.validate.isOk = true
  restorable : ∀ d, k.snapshot = some d → Restorable o d
  base : k.base = k.covered
  size : ∀ file, m.directory.journal = some file → file.length ≤ kMaxJournalBytes
  repair : o.repairTornTail = true ∨
    m.directory.journal = some (buildJournalHeader k.base ++ k.views.flatMap frame)
  fault : m.nextFault = none
  replay : ∃ acc, k.opened o = .ok acc

/-- An open is refused and leaves the disk and the history as they are, or it opens the disk. -/
inductive OpenOutcome (o : StoreOptions) (m : Medium) (k : Disk) :
    Medium × Result LineageStore → Prop
  | refused {m' : Medium} (e : Status) (unfit : ¬ Accepts o m k) (history : m'.history = m.history)
      (represents : Represents m'.directory k) : OpenOutcome o m k (m', .error e)
  | opened {m' : Medium} {d : DurableState} {events : List Event}
      (policy : o.policy.validate.isOk = true) (topology : o.topology.validate.isOk = true)
      (restorable : ∀ d, k.snapshot = some d → Restorable o d)
      (size : ∀ file, m.directory.journal = some file → file.length ≤ kMaxJournalBytes)
      (replay : k.opened o = .ok (d, events)) (base : k.base = k.covered)
      (history : m'.history = m.history ++ .opened o :: events)
      (represents : Represents m'.directory k)
      (journal : m'.directory.journal =
        some (buildJournalHeader k.base ++ k.views.flatMap frame))
      (fits : ∀ r ∈ k.views, r.Fits) : OpenOutcome o m k (m', .ok (reopened o k d m'))

theorem represents_unstaged {m : Medium} {k : Disk} (h : Represents m.directory k) :
    Represents (unstaged m).directory k :=
  { h with }

/-- A journal of the right shape in a directory that stands for a disk. -/
theorem represents_journal {dir : Directory} {k : Disk} (h : Represents dir k) {file tail : Bytes}
    (hj : JournalShape file k.base k.views tail) :
    Represents { dir with journal := some file } k :=
  { h with journal := .inl ⟨file, tail, rfl, hj⟩ }

/-- A journal without its torn tail. -/
theorem journalShape_repaired {file tail : Bytes} {base : LineageSeq}
    {records : List JournalRecord} (h : JournalShape file base records tail) :
    JournalShape (buildJournalHeader base ++ records.flatMap frame) base records [] :=
  ⟨by rw [List.append_nil], h.fits, .inl rfl⟩

theorem openFile_mismatch {base base' last : LineageSeq} (hl : base'.toNat ≤ last.toNat)
    (hne : base ≠ base') (rest : Bytes) (fault : Fault) :
    ∃ e, JournalWriter.openFile (some (buildJournalHeader base ++ rest)) fault base' last false =
      (some (buildJournalHeader base ++ rest), .error e) := by
  have hlen : ¬ (buildJournalHeader base ++ rest).length < kJournalHeaderSize := by
    rw [List.length_append, buildJournalHeader_length]
    omega
  have hlt : ¬ (base'.value ≠ 0 ∧ last.value < base'.value) := fun h =>
    absurd (UInt64.lt_iff_toNat_lt.mp h.2) (Nat.not_lt_of_le hl)
  rw [JournalWriter.openFile.eq_def, if_neg hlt, if_neg (by decide)]
  dsimp only
  rw [if_neg hlen, parseJournalHeader_build]
  dsimp only
  rw [if_pos hne]
  exact ⟨_, rfl⟩

/-- The medium behind an open that has found its journal. -/
def reread (o : StoreOptions) (k : Disk) (events : List Event) (m : Medium) : Medium :=
  { m with
    directory :=
      { m.directory with
        journal := some (buildJournalHeader k.base ++ k.views.flatMap frame)
        staging := none }
    history := m.history ++ .opened o :: events }

section Shapes

variable {o : StoreOptions} {m : Medium} {k : Disk} {file tail : Bytes}

/-- The replay of a journal with its header, in terms of its records. -/
theorem replayJournal_disk (h : Represents m.directory k)
    (hj : JournalShape file k.base k.views tail) (hsize : file.length ≤ kMaxJournalBytes)
    (htail : tail = [] ∨ o.repairTornTail = true) (hb : k.base = k.covered) :
    replayJournal o (k.start o) (some file) = (k.opened o).map fun acc =>
      { state := acc.1
        events := acc.2
        base := k.base
        last := k.last
        create := false
        file := some (buildJournalHeader k.base ++ k.views.flatMap frame) } := by
  have hle : (k.start o).lastSeq.toNat ≤ k.base.toNat := by
    rw [Disk.start_lastSeq, ← hb]
  obtain ⟨finish, hfin, hscan⟩ := scanAll_replay (o := o) hle h.numbered
    (s := { state := (k.start o, []), lastSeq := k.base }) rfl
  rw [replayJournal_shape hj hsize htail, Disk.views, hscan]
  change ((k.opened o).map finish).map _ = _
  cases hk : k.opened o with
  | error e => rfl
  | ok acc =>
    have hlast : (finish acc).lastSeq = k.last := (hfin acc).2
    have hbase : k.base.toNat ≤ k.last.toNat := Disk.base_le_lastOf h.numbered
    rw [Disk.start_lastSeq, ← hb] at *
    change Except.ok (Replayed.mk (finish acc).state.1 (finish acc).state.2
      (maxSeq k.base k.base) (maxSeq (finish acc).lastSeq k.base) false _) = _
    rw [(hfin acc).1, hlast, maxSeq_self, maxSeq_of_le hbase]
    rfl

/-- An open of a directory whose journal has its header, and whose records are accepted. -/
theorem openStore_shape (h : Represents m.directory k) (hp : o.policy.validate.isOk = true)
    (ht : o.topology.validate.isOk = true)
    (hl : loadSnapshot o m.directory.snapshot = .ok (k.start o))
    (hf : m.directory.journal = some file) (hj : JournalShape file k.base k.views tail)
    (hsize : file.length ≤ kMaxJournalBytes) (htail : tail = [] ∨ o.repairTornTail = true)
    (hb : k.base = k.covered) {acc : DurableState × List Event} (hk : k.opened o = .ok acc) :
    openStore o m = (reread o k acc.2 m, .ok (reopened o k acc.1 (reread o k acc.2 m))) := by
  have hrep := replayJournal_disk h hj hsize htail hb
  rw [hk, ← hf] at hrep
  rw [openStore_replayed hp ht hl hrep, openReplayed]
  dsimp only
  have hle : k.base.toNat ≤ k.last.toNat := Disk.base_le_lastOf h.numbered
  rw [openFile_existing hle]
  rfl

/-- An open of a directory whose journal has its header. -/
theorem openOutcome_shape (h : Represents m.directory k) (hp : o.policy.validate.isOk = true)
    (ht : o.topology.validate.isOk = true)
    (hl : loadSnapshot o m.directory.snapshot = .ok (k.start o))
    (hd : ∀ d, k.snapshot = some d → Restorable o d)
    (hf : m.directory.journal = some file) (hj : JournalShape file k.base k.views tail)
    (hsize : file.length ≤ kMaxJournalBytes) (htail : tail = [] ∨ o.repairTornTail = true) :
    OpenOutcome o m k (openStore o m) := by
  have hsizes : ∀ file, m.directory.journal = some file → file.length ≤ kMaxJournalBytes := by
    intro f hfile
    rw [hf] at hfile
    cases hfile
    exact hsize
  have hrefused : ∀ {e : Status}, replayJournal o (k.start o) (some file) = .error e →
      openStore o m = (unstaged m, .error e) := by
    intro e he
    rw [openStore, if_neg (by simp [hp]), if_neg (by simp [ht]), hl]
    dsimp only
    rw [hf, he]
  have hrepaired := represents_journal (represents_unstaged h) (journalShape_repaired hj)
  by_cases hb : k.base = k.covered
  · cases hk : k.opened o with
    | error e =>
      rw [hrefused (by rw [replayJournal_disk h hj hsize htail hb, hk]; rfl)]
      refine .refused e (fun ha => ?_) rfl (represents_unstaged h)
      obtain ⟨acc, hacc⟩ := ha.replay
      rw [hk] at hacc
      cases hacc
    | ok acc =>
      rw [openStore_shape h hp ht hl hf hj hsize htail hb hk]
      exact .opened hp ht hd hsizes hk hb rfl hrepaired rfl hj.fits
  · have hrep := @replayJournal_shape o (k.start o) _ _ _ _ hj hsize htail
    cases hs : scanAll (replayHook o (k.start o).lastSeq) k.views
        { state := (k.start o, []), lastSeq := k.base } with
    | error e =>
      rw [hrefused (by rw [hrep, hs]; rfl)]
      exact .refused e (fun ha => hb ha.base) rfl (represents_unstaged h)
    | ok s =>
      rw [hs, ← hf] at hrep
      have hbase : k.base.toNat ≤ s.lastSeq.toNat := scanAll_lastSeq hs
      rw [openStore_replayed hp ht hl hrep, openReplayed]
      dsimp only
      rw [Disk.start_lastSeq]
      have hne : k.base ≠ maxSeq k.base k.covered := by
        intro hc
        have := congrArg StrongUint.toNat hc
        rw [maxSeq_toNat] at this
        have hle := h.base_le
        exact hb (StrongUint.toNat_inj.mp (by omega))
      obtain ⟨e, he⟩ := @openFile_mismatch _ _ (maxSeq s.lastSeq k.covered) (by
        rw [maxSeq_toNat, maxSeq_toNat]
        omega) hne (k.views.flatMap frame) none
      simp only [Bool.false_eq_true, if_false]
      rw [he]
      exact .refused e (fun ha => hb ha.base) rfl hrepaired

end Shapes

/-- A fresh journal for a disk without records. -/
theorem journalShape_header {k : Disk} (hr : k.records = []) :
    JournalShape (buildJournalHeader k.base) k.base k.views [] :=
  ⟨by simp [Disk.views, hr], by simp [Disk.views, hr], .inl rfl⟩

/-- An open that creates the journal. -/
theorem openReplayed_create {o : StoreOptions} {m : Medium} {k : Disk}
    (h : Represents m.directory k) (hp : o.policy.validate.isOk = true)
    (ht : o.topology.validate.isOk = true) (hd : ∀ d, k.snapshot = some d → Restorable o d)
    (hsizes : ∀ file, m.directory.journal = some file → file.length ≤ kMaxJournalBytes)
    (hr : k.records = []) (hb : k.base = k.covered) (file : Option Bytes) :
    OpenOutcome o m k (openReplayed o (unstaged m)
      { state := k.start o
        events := []
        base := k.base
        last := k.base
        create := true
        file := file }) := by
  have hlast : k.last = k.base := by rw [Disk.last, hr, Disk.lastOf]
  have hopened : k.opened o = .ok (k.start o, []) := by rw [Disk.opened, hr]; rfl
  have hj := journalShape_header hr
  rw [openReplayed]
  simp only [if_true]
  cases hf : (unstaged m).nextFault with
  | none =>
    rw [openFile_created]
    have hout := @OpenOutcome.opened o m _
      (({ (unstaged m).popFault with
        directory := { (unstaged m).directory with
          journal := some (buildJournalHeader k.base) } } : Medium).log [.opened o]) _ _
      hp ht hd hsizes hopened hb rfl (represents_journal (represents_unstaged h) hj)
      (by simp [Disk.views, hr]; rfl) hj.fits
    rwa [reopened, hlast] at hout
  | some n =>
    have hopen : JournalWriter.openFile file (some n) k.base k.base true =
        (some ((buildJournalHeader k.base).take n),
          fail .ioError .internalError "cannot write journal header") := by
      rw [JournalWriter.openFile.eq_def, if_neg (not_below_base _), if_pos rfl]
    rw [hopen]
    refine .refused _ (fun ha => absurd (hf.symm.trans ha.fault) (by simp)) rfl ?_
    by_cases hn : n < kJournalHeaderSize
    · refine { represents_unstaged h with journal := .inr ⟨hr, hb, fun f hf => ?_⟩ }
      cases hf
      rw [List.length_take]
      omega
    · rw [List.take_of_length_le (by rw [buildJournalHeader_length]; omega)]
      exact represents_journal (represents_unstaged h) hj

/-- An open of a directory whose journal was never finished. -/
theorem openOutcome_unfinished {o : StoreOptions} {m : Medium} {k : Disk}
    (h : Represents m.directory k) (hp : o.policy.validate.isOk = true)
    (ht : o.topology.validate.isOk = true)
    (hl : loadSnapshot o m.directory.snapshot = .ok (k.start o))
    (hd : ∀ d, k.snapshot = some d → Restorable o d) (hr : k.records = [])
    (hb : k.base = k.covered)
    (hshort : ∀ file, m.directory.journal = some file → file.length < kJournalHeaderSize) :
    OpenOutcome o m k (openStore o m) := by
  have hsizes : ∀ file, m.directory.journal = some file → file.length ≤ kMaxJournalBytes := by
    intro file hf
    have hlt := hshort file hf
    rw [kJournalHeaderSize] at hlt
    rw [kMaxJournalBytes]
    omega
  cases hf : m.directory.journal with
  | none =>
    have hrep : replayJournal o (k.start o) m.directory.journal =
        .ok ⟨k.start o, [], k.base, k.base, true, none⟩ := by
      rw [hf, hb, ← Disk.start_lastSeq k o]
      rfl
    rw [openStore_replayed hp ht hl hrep]
    exact openReplayed_create h hp ht hd hsizes hr hb none
  | some file =>
    have hlt := hshort file hf
    have hsize : ¬ file.length > kMaxJournalBytes := Nat.not_lt_of_le (hsizes file hf)
    cases hrt : o.repairTornTail with
    | false =>
      have hrep : ∃ e, replayJournal o (k.start o) m.directory.journal = .error e := by
        rw [hf, replayJournal.eq_def]
        dsimp only
        rw [replay, if_neg hsize, if_pos hlt, hrt]
        exact ⟨_, rfl⟩
      obtain ⟨e, he⟩ := hrep
      rw [openStore, if_neg (by simp [hp]), if_neg (by simp [ht]), hl]
      dsimp only
      rw [he]
      refine .refused e (fun ha => ?_) rfl (represents_unstaged h)
      rcases ha.repair with hr | hwhole
      · rw [hr] at hrt
        cases hrt
      · rw [hf] at hwhole
        cases hwhole
        rw [List.length_append, buildJournalHeader_length] at hlt
        omega
    | true =>
      have hmax : maxSeq .zero (k.start o).lastSeq = k.base := by
        rw [← StrongUint.toNat_inj, maxSeq_toNat, Disk.start_lastSeq, ← hb]
        exact Nat.max_eq_right (Nat.zero_le _)
      have hrep : replayJournal o (k.start o) m.directory.journal =
          .ok ⟨k.start o, [], k.base, k.base, true, some []⟩ := by
        rw [hf, replayJournal.eq_def]
        dsimp only
        rw [replay, if_neg hsize, if_pos hlt, hrt]
        simp only [Bool.not_true, Bool.false_eq_true, if_false, ok_bind]
        rw [hmax]
        rfl
      rw [openStore_replayed hp ht hl hrep]
      exact openReplayed_create h hp ht hd hsizes hr hb (some [])

/-- Opening a directory is opening its disk. -/
theorem openStore_represents {o : StoreOptions} {m : Medium} {k : Disk}
    (h : Represents m.directory k) (hs : ∀ d, k.snapshot = some d → d.Sound) :
    OpenOutcome o m k (openStore o m) := by
  by_cases hp : o.policy.validate.isOk = true
  swap
  · rw [openStore, if_pos (by simpa using hp)]
    exact .refused _ (fun ha => hp ha.policy) rfl h
  by_cases ht : o.topology.validate.isOk = true
  swap
  · rw [openStore, if_neg (by simp [hp]), if_pos (by simpa using ht)]
    exact .refused _ (fun ha => ht ha.topology) rfl h
  rcases loadSnapshot_represents (o := o) h hs with ⟨⟨e, hl⟩, hno⟩ | ⟨hl, hd⟩
  · rw [openStore, if_neg (by simp [hp]), if_neg (by simp [ht]), hl]
    exact .refused e (fun ha => hno ha.restorable) rfl (represents_unstaged h)
  rcases h.journal with ⟨file, tail, hf, hj⟩ | ⟨hr, hb, hshort⟩
  swap
  · exact openOutcome_unfinished h hp ht hl hd hr hb hshort
  by_cases hgood : file.length ≤ kMaxJournalBytes ∧ (tail = [] ∨ o.repairTornTail = true)
  · exact openOutcome_shape h hp ht hl hd hf hj hgood.1 hgood.2
  · -- an oversized journal, or a torn one that may not be repaired
    have hrep : ∃ e, replayJournal o (k.start o) m.directory.journal = .error e := by
      rw [hf, replayJournal.eq_def]
      dsimp only
      by_cases hsize : file.length ≤ kMaxJournalBytes
      · have htail : tail ≠ [] := fun hc => hgood ⟨hsize, .inl hc⟩
        have hrt : o.repairTornTail = false := by
          cases hrt : o.repairTornTail with
          | false => rfl
          | true => exact absurd ⟨hsize, .inr hrt⟩ hgood
        obtain ⟨e, he⟩ := @replay_torn _ (replayHook o (k.start o).lastSeq) _ _ _ _ hj hsize htail
          (k.start o, [])
        rw [hrt, he]
        exact ⟨e, rfl⟩
      · rw [replay, if_pos (Nat.lt_of_not_le hsize)]
        exact ⟨_, rfl⟩
    obtain ⟨e, he⟩ := hrep
    rw [openStore, if_neg (by simp [hp]), if_neg (by simp [ht]), hl]
    dsimp only
    rw [he]
    refine .refused e (fun ha => hgood ⟨ha.size file hf, ha.repair.symm.imp (fun hwhole => ?_) id⟩)
      rfl (represents_unstaged h)
    rw [hf, hj.bytes, Option.some_inj, ← List.append_assoc] at hwhole
    exact List.append_right_eq_self.mp hwhole

/-- When a disk is accepted, its directory opens to it. -/
theorem openStore_accepts {o : StoreOptions} {m : Medium} {k : Disk}
    (h : Represents m.directory k) (hs : ∀ d, k.snapshot = some d → d.Sound)
    (ha : Accepts o m k) : ∃ m' d events, k.opened o = .ok (d, events) ∧
      openStore o m = (m', .ok (reopened o k d m')) := by
  have hout := openStore_represents (o := o) h hs
  revert hout
  generalize openStore o m = result
  intro hout
  cases hout with
  | refused e unfit => exact absurd ha unfit
  | opened _ _ _ _ replay => exact ⟨_, _, _, replay, rfl⟩

/-- What it takes to open. -/
theorem openStore_ok {o : StoreOptions} {m : Medium} {k : Disk}
    (h : Represents m.directory k) (hs : ∀ d, k.snapshot = some d → d.Sound) {m' : Medium}
    {s : LineageStore} (hok : openStore o m = (m', .ok s)) :
    (∀ d, k.snapshot = some d → Restorable o d) ∧ k.base = k.covered ∧
      (∀ file, m.directory.journal = some file → file.length ≤ kMaxJournalBytes) ∧
      ∃ acc, k.opened o = .ok acc := by
  have hout := openStore_represents (o := o) h hs
  rw [hok] at hout
  cases hout with
  | opened _ _ restorable size replay base => exact ⟨restorable, base, size, _, replay⟩

end LineageStore

end LinkFailover
