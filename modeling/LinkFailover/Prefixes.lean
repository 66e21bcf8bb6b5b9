import LinkFailover.Store

/-!
# Replay of a cut journal

A journal that a writer produced, cut at an arbitrary byte. The reader is stated here with
all that it leaves behind, also when it fails: its result, what the hook made of the records
it was handed, and the file.

* `outcome_reader`: `replay` is the result of the reader.
* `Wrote`: the files that writers produce, over several openings.
* `shape_take`: what a cut leaves is whole records and possibly the beginning of one more.
* `prefix_recovery`: replay delivers exactly the records that lie completely in the prefix.
-/

namespace LinkFailover

open Codec

variable {σ : Type}

/-! ## The reader and its effects -/

/-- What a replay leaves behind. -/
structure Delivery (σ : Type) where
  result : Result JournalOpenResult
  state : σ
  file : Bytes

/-- The value of a replay as it is seen by a caller that discards the rest on failure. -/
def Delivery.outcome (d : Delivery σ) : Result (JournalOpenResult × σ × Bytes) :=
  d.result.map fun o => (o, d.state, d.file)

/-- The scan loop. The hook may change its state also when it refuses a record. -/
def deliver (onRecord : σ → JournalRecord → σ × Result Unit) :
    Nat → Bytes → Scan σ → Scan σ × Result Unit
  | 0, _, s => (s, .ok ())
  | n + 1, data, s =>
    match readHead data with
    | .error e => (s, .error e)
    | .ok .done => (s, .ok ())
    | .ok .torn => ({ s with torn := true }, .ok ())
    | .ok (.record r rest) =>
      if s.lastSeq < r.seq then
        match onRecord s.state r with
        | (state, .error e) => ({ s with state := state }, .error e)
        | (state, .ok ()) =>
          deliver onRecord n rest { s with
            state := state
            lastSeq := r.seq
            records := s.records + 1
            offset := s.offset + kRecordHeaderSize + r.payload.length }
      else
        (s, failWith .corrupt .sequenceRegression "record sequence does not advance the lineage"
          .corruptRecord (decimal r.seq.toNat))

def JournalReader.replay (onRecord : σ → JournalRecord → σ × Result Unit) (data : Bytes)
    (repairTornTail : Bool) (state : σ) : Delivery σ :=
  if data.length > kMaxJournalBytes then
    ⟨failWith .limitExceeded .limitExceeded "file exceeds the configured maximum"
      .invalidArgument (decimal data.length), state, data⟩
  else if data.length < kJournalHeaderSize then
    if !repairTornTail then
      ⟨fail .corrupt .corruptRecord "journal header is incomplete", state, data⟩
    else
      ⟨.ok { tornTailRecovered := true
             truncatedToEmpty := true
             bytesDiscarded := data.length }, state, []⟩
  else
    match parseJournalHeader data with
    | .error e => ⟨.error e, state, data⟩
    | .ok base =>
      match deliver onRecord data.length (data.drop kJournalHeaderSize)
        { state := state, lastSeq := base } with
      | (s, .error e) => ⟨.error e, s.state, data⟩
      | (s, .ok ()) =>
        if s.torn && !repairTornTail then
          ⟨failWith .corrupt .tornTailRecovered "journal ends in a torn record" .truncatedFrame
            (decimal (data.length - s.offset)), s.state, data⟩
        else
          ⟨.ok (.ofScan data.length base s), s.state,
            if s.torn then data.take s.offset else data⟩

/-- A hook that leaves its state alone when it refuses a record. -/
def quietly (hook : σ → JournalRecord → Result σ) (s : σ) (r : JournalRecord) : σ × Result Unit :=
  match hook s r with
  | .ok s' => (s', .ok ())
  | .error e => (s, .error e)

/-- A hook that accepts every record. -/
def accepting (f : σ → JournalRecord → σ) (s : σ) (r : JournalRecord) : σ × Result Unit :=
  (f s r, .ok ())

theorem quietly_accepting (f : σ → JournalRecord → σ) :
    quietly (fun s r => .ok (f s r)) = accepting f := rfl

theorem deliver_quietly (hook : σ → JournalRecord → Result σ) (n : Nat) (data : Bytes)
    (s : Scan σ) :
    scan hook n data s =
      (deliver (quietly hook) n data s).2.map fun _ => (deliver (quietly hook) n data s).1 := by
  induction n generalizing data s with
  | zero => rfl
  | succ n ih =>
    rw [scan, deliver]
    cases readHead data with
    | error e => rfl
    | ok head =>
      cases head with
      | done => rfl
      | torn => rfl
      | record r rest =>
        change (scanRecord hook s r >>= fun s => scan hook n rest s) = _
        simp only [scanRecord, quietly]
        by_cases hseq : s.lastSeq < r.seq
        · rw [if_pos hseq, if_pos hseq]
          cases hook s.state r with
          | error e => rfl
          | ok state => exact ih rest _
        · rw [if_neg hseq, if_neg hseq]
          rfl

/-- The replay of a file is what its reader reports. -/
theorem outcome_reader (hook : σ → JournalRecord → Result σ) (data : Bytes) (repair : Bool)
    (state : σ) :
    replay (some data) repair hook state =
      (JournalReader.replay (quietly hook) data repair state).outcome := by
  unfold replay JournalReader.replay
  by_cases hmax : data.length > kMaxJournalBytes
  · simp only [if_pos hmax]
    rfl
  · simp only [if_neg hmax]
    by_cases hshort : data.length < kJournalHeaderSize
    · simp only [if_pos hshort]
      cases repair <;> rfl
    · simp only [if_neg hshort]
      cases parseJournalHeader data with
      | error e => rfl
      | ok base =>
        rw [ok_bind, deliver_quietly]
        dsimp only
        generalize deliver (quietly hook) data.length (data.drop kJournalHeaderSize) _ = d
        obtain ⟨s, result⟩ := d
        cases result with
        | error e => rfl
        | ok u =>
          change (if (s.torn && !repair) = true then _ else _) = _
          simp only
          split <;> rfl

/-- A replay that succeeds is known by what `replay` returns. -/
theorem reader_of_replay {hook : σ → JournalRecord → Result σ} {data : Bytes} {repair : Bool}
    {state state' : σ} {o : JournalOpenResult} {file : Bytes}
    (h : replay (some data) repair hook state = .ok (o, state', file)) :
    JournalReader.replay (quietly hook) data repair state = ⟨.ok o, state', file⟩ := by
  rw [outcome_reader] at h
  generalize JournalReader.replay (quietly hook) data repair state = d at h ⊢
  obtain ⟨result, s, f⟩ := d
  cases result with
  | error e => cases h
  | ok o' => cases h; rfl

theorem reader_of_error {hook : σ → JournalRecord → Result σ} {data : Bytes} {repair : Bool}
    {state : σ} (h : ∃ e, replay (some data) repair hook state = .error e) :
    ∃ e, (JournalReader.replay (quietly hook) data repair state).result = .error e := by
  obtain ⟨e, h⟩ := h
  rw [outcome_reader] at h
  generalize JournalReader.replay (quietly hook) data repair state = d at h ⊢
  obtain ⟨result, s, f⟩ := d
  cases result with
  | error e' => exact ⟨e', rfl⟩
  | ok o => cases h

/-- A replay that fails, and every replay without repair, leaves the file as it was. -/
theorem reader_file (onRecord : σ → JournalRecord → σ × Result Unit) (data : Bytes)
    (repair : Bool) (state : σ)
    (h : repair = false ∨ ∃ e, (JournalReader.replay onRecord data repair state).result = .error e) :
    (JournalReader.replay onRecord data repair state).file = data := by
  unfold JournalReader.replay at h ⊢
  split
  · rfl
  · rename_i hmax
    split
    · rename_i hshort
      rw [if_neg hmax, if_pos hshort] at h
      cases repair with
      | false => rfl
      | true =>
        rcases h with h | ⟨e, h⟩
        · cases h
        · cases h
    · rename_i hshort
      rw [if_neg hmax, if_neg hshort] at h
      cases hp : parseJournalHeader data with
      | error e => rfl
      | ok base =>
        simp only [hp] at h ⊢
        generalize deliver onRecord data.length (data.drop kJournalHeaderSize) _ = d at h ⊢
        obtain ⟨s, result⟩ := d
        cases result with
        | error e => rfl
        | ok u =>
          simp only at h ⊢
          split
          · rfl
          · rename_i ht
            rw [if_neg ht] at h
            rcases h with rfl | ⟨e, h⟩
            · have : s.torn = false := by simpa using ht
              simp [this]
            · cases h

/-! ## Files that writers produce -/

/-- A writer created the journal with this base; it, and writers that opened the file after
it, reported the appends of these records as done. A refused append leaves no bytes. -/
inductive Wrote (base : LineageSeq) : JournalWriter → Bytes → List JournalRecord → Prop
  | created {old : Option Bytes} {last : LineageSeq} {bytes : Bytes} {w : JournalWriter}
      (h : JournalWriter.openFile old none base last true = (some bytes, .ok w)) :
      Wrote base w bytes []
  | appended {w w' : JournalWriter} {bytes bytes' : Bytes} {rs : List JournalRecord}
      {r : JournalRecord} {status : Status} (before : Wrote base w bytes rs)
      (h : w.append bytes none r = (w', bytes', status)) (ok : status.isOk = true) :
      Wrote base w' bytes' (rs ++ [r])
  | refused {w w' : JournalWriter} {bytes bytes' : Bytes} {rs : List JournalRecord}
      {r : JournalRecord} {status : Status} (before : Wrote base w bytes rs)
      (h : w.append bytes none r = (w', bytes', status)) (failed : status.isOk = false) :
      Wrote base w' bytes' rs
  | reopened {w w' : JournalWriter} {bytes bytes' : Bytes} {rs : List JournalRecord}
      (before : Wrote base w bytes rs)
      (h : JournalWriter.openFile (some bytes) none base w.lastSeq false = (some bytes', .ok w')) :
      Wrote base w' bytes' rs

/-- What a writer's file holds. -/
structure WrittenFile (base : LineageSeq) (last : LineageSeq) (file : Bytes)
    (records : List JournalRecord) : Prop where
  bytes : file = buildJournalHeader base ++ records.flatMap frame
  fits : ∀ r ∈ records, r.Fits
  rising : (records.map (·.seq.toNat)).Pairwise (· < ·)
  above : ∀ r ∈ records, base.toNat < r.seq.toNat
  last : last = (records.map (·.seq)).getLast?.getD base

theorem WrittenFile.le_last {base last : LineageSeq} {file : Bytes} {records : List JournalRecord}
    (h : WrittenFile base last file records) :
    base.toNat ≤ last.toNat ∧ ∀ r ∈ records, r.seq.toNat ≤ last.toNat := by
  rcases List.eq_nil_or_concat records with hnil | ⟨rs, r, hcat⟩
  · have hl := h.last
    rw [hnil] at hl ⊢
    exact ⟨by rw [hl]; exact Nat.le_refl _, fun r hr => absurd hr (List.not_mem_nil)⟩
  · rw [List.concat_eq_append] at hcat
    have hl : last = r.seq := by
      rw [h.last, hcat, List.map_append, List.map_singleton, List.getLast?_concat]
      rfl
    have hrise := h.rising
    rw [hcat, List.map_append, List.pairwise_append] at hrise
    rw [hl]
    refine ⟨Nat.le_of_lt (h.above r (by rw [hcat]; simp)), fun q hq => ?_⟩
    rw [hcat, List.mem_append] at hq
    rcases hq with hq | hq
    · exact Nat.le_of_lt (hrise.2.2 _ (List.mem_map_of_mem hq) _ (by simp))
    · rw [List.mem_singleton.mp hq]

theorem WrittenFile.concat {base last : LineageSeq} {file : Bytes} {records : List JournalRecord}
    (h : WrittenFile base last file records) {r : JournalRecord} (hfits : r.Fits)
    (hseq : last < r.seq) : WrittenFile base r.seq (file ++ frame r) (records ++ [r]) := by
  have hlt : last.toNat < r.seq.toNat := hseq
  obtain ⟨hbase, hle⟩ := h.le_last
  refine ⟨?_, ?_, ?_, ?_, ?_⟩
  · rw [h.bytes, List.flatMap_append, List.flatMap_singleton, List.append_assoc]
  · intro q hq
    rcases List.mem_append.mp hq with hq | hq
    · exact h.fits q hq
    · rw [List.mem_singleton.mp hq]
      exact hfits
  · rw [List.map_append, List.pairwise_append]
    refine ⟨h.rising, List.pairwise_singleton _ _, ?_⟩
    intro a ha b hb
    obtain ⟨q, hq, rfl⟩ := List.mem_map.mp ha
    obtain ⟨q', hq', rfl⟩ := List.mem_map.mp hb
    rw [List.mem_singleton.mp hq']
    exact Nat.lt_of_le_of_lt (hle q hq) hlt
  · intro q hq
    rcases List.mem_append.mp hq with hq | hq
    · exact h.above q hq
    · rw [List.mem_singleton.mp hq]
      omega
  · rw [List.map_append, List.map_singleton, List.getLast?_concat]
    rfl

theorem Wrote.written {base : LineageSeq} {w : JournalWriter} {file : Bytes}
    {records : List JournalRecord} (h : Wrote base w file records) :
    WrittenFile base w.lastSeq file records := by
  induction h with
  | @created old last bytes w h =>
    unfold JournalWriter.openFile at h
    split at h
    · cases h
    · cases h
      exact ⟨by simp, by simp, .nil, by simp, rfl⟩
  | @appended w w' bytes bytes' rs r status before h ok ih =>
    unfold JournalWriter.append at h
    split at h
    · cases h; cases ok
    · split at h
      · cases h; cases ok
      · rename_i hfits
        split at h
        · cases h; cases ok
        · rename_i hseq
          cases h
          exact ih.concat (Nat.not_lt.mp hfits) (not_not.mp hseq)
  | @refused w w' bytes bytes' rs r status before h failed ih =>
    unfold JournalWriter.append at h
    split at h
    · cases h; exact ih
    · split at h
      · cases h; exact ih
      · split at h
        · cases h; exact ih
        · cases h; cases failed
  | @reopened w w' bytes bytes' rs before h ih =>
    unfold JournalWriter.openFile at h
    split at h
    · cases h
    · simp only [Bool.false_eq_true, if_false] at h
      split at h
      · cases h
      · split at h
        · cases h
        · split at h
          · cases h
          · cases h; exact ih

/-! ## Where a cut falls -/

/-- The size of the records of a journal before the `k`-th. -/
def framesEnd (records : List JournalRecord) (k : Nat) : Nat :=
  ((records.take k).flatMap frame).length

@[simp] theorem framesEnd_zero (records : List JournalRecord) : framesEnd records 0 = 0 := rfl

@[simp] theorem framesEnd_cons (r : JournalRecord) (records : List JournalRecord) (k : Nat) :
    framesEnd (r :: records) (k + 1) = (frame r).length + framesEnd records k := by
  simp [framesEnd]

/-- The beginning of a record that is not whole. -/
def Partial (tail : Bytes) : Prop :=
  ∃ r : JournalRecord, r.Fits ∧ ∃ n, 0 < n ∧ n < (frame r).length ∧ tail = (frame r).take n

/-- The first `m` bytes of written records: the records that end within them, and then
nothing exactly when the cut is the end of a record. -/
theorem frames_take {records : List JournalRecord} (hfits : ∀ r ∈ records, r.Fits) {m : Nat}
    (hm : m ≤ (records.flatMap frame).length) :
    ∃ k ≤ records.length, ∃ tail,
      (records.flatMap frame).take m = (records.take k).flatMap frame ++ tail ∧
      (tail = [] ∨ Partial tail) ∧
      (∀ i < records.length, framesEnd records (i + 1) ≤ m ↔ i < k) ∧
      (tail = [] ↔ ∃ j ≤ records.length, m = framesEnd records j) := by
  induction records generalizing m with
  | nil =>
    have h0 : m = 0 := Nat.le_zero.mp hm
    exact ⟨0, Nat.le_refl 0, [], by simp, .inl rfl, by simp, by simp [h0]⟩
  | cons r records ih =>
    have hr := hfits r List.mem_cons_self
    rw [List.flatMap_cons] at hm ⊢
    rw [List.length_append] at hm
    by_cases hlt : m < (frame r).length
    · have htake : (frame r ++ records.flatMap frame).take m = (frame r).take m :=
        List.take_append_of_le_length (Nat.le_of_lt hlt)
      have hend : ∀ i, ¬ framesEnd (r :: records) (i + 1) ≤ m := by
        intro i
        rw [framesEnd_cons]
        omega
      refine ⟨0, Nat.zero_le _, (frame r).take m, htake, ?_, ?_, ?_⟩
      · rcases Nat.eq_zero_or_pos m with rfl | hpos
        · exact .inl List.take_zero
        · exact .inr ⟨r, hr, m, hpos, hlt, rfl⟩
      · intro i hi
        exact ⟨fun h => absurd h (hend i), fun h => absurd h (Nat.not_lt_zero i)⟩
      · constructor
        · intro h
          have hlen := congrArg List.length h
          rw [List.length_take, List.length_nil] at hlen
          exact ⟨0, Nat.zero_le _, by rw [framesEnd_zero]; omega⟩
        · rintro ⟨j, -, hj⟩
          cases j with
          | zero => rw [hj, framesEnd_zero, List.take_zero]
          | succ j => exact absurd (Nat.le_of_eq hj.symm) (hend j)
    · obtain ⟨k, hk, tail, htake, htail, hends, hcut⟩ :=
        ih (fun q hq => hfits q (List.mem_cons_of_mem _ hq)) (m := m - (frame r).length) (by omega)
      refine ⟨k + 1, by simpa using hk, tail, ?_, htail, ?_, ?_⟩
      · rw [List.take_append, List.take_of_length_le (by omega), htake, List.take_succ_cons,
          List.flatMap_cons, List.append_assoc]
      · intro i hi
        rw [framesEnd_cons]
        cases i with
        | zero =>
          rw [framesEnd_zero]
          omega
        | succ i =>
          have := hends i (by simpa using hi)
          omega
      · rw [hcut]
        constructor
        · rintro ⟨j, hj, he⟩
          exact ⟨j + 1, by simpa using hj, by rw [framesEnd_cons]; omega⟩
        · rintro ⟨j, hj, he⟩
          cases j with
          | zero =>
            have := frame_length r
            rw [framesEnd_zero] at he
            rw [kRecordHeaderSize] at this
            omega
          | succ j =>
            rw [framesEnd_cons] at he
            exact ⟨j, by simpa using hj, by omega⟩

/-- A cut behind the header of a written journal. -/
theorem shape_take {base last : LineageSeq} {file : Bytes} {records : List JournalRecord}
    (h : WrittenFile base last file records) {n : Nat} (hlow : kJournalHeaderSize ≤ n)
    (hn : n ≤ file.length) :
    ∃ k ≤ records.length, ∃ tail, JournalShape (file.take n) base (records.take k) tail ∧
      (∀ i < records.length, kJournalHeaderSize + framesEnd records (i + 1) ≤ n ↔ i < k) ∧
      (tail = [] ↔ ∃ j ≤ records.length, n = kJournalHeaderSize + framesEnd records j) := by
  have hlen := congrArg List.length h.bytes
  rw [List.length_append, buildJournalHeader_length] at hlen
  obtain ⟨k, hk, tail, htake, htail, hends, hcut⟩ :=
    frames_take h.fits (m := n - kJournalHeaderSize) (by omega)
  refine ⟨k, hk, tail, ⟨?_, fun r hr => h.fits r (List.mem_of_mem_take hr), htail⟩, ?_, ?_⟩
  · rw [h.bytes, List.take_append, buildJournalHeader_length, htake,
      List.take_of_length_le (by rw [buildJournalHeader_length]; exact hlow)]
  · intro i hi
    have := hends i hi
    omega
  · rw [hcut]
    constructor <;> rintro ⟨j, hj, he⟩ <;> exact ⟨j, hj, by omega⟩

/-! ## Replay of rising records -/

/-- An accepting hook is handed rising records one after the other. -/
theorem scanAll_rising (f : σ → JournalRecord → σ) {records : List JournalRecord} {s : Scan σ}
    (hrise : (records.map (·.seq.toNat)).Pairwise (· < ·))
    (habove : ∀ r ∈ records, s.lastSeq.toNat < r.seq.toNat) :
    ∃ s', scanAll (fun s r => .ok (f s r)) records s = .ok s' ∧
      s'.state = records.foldl f s.state ∧ s'.records = s.records + records.length ∧
      s'.lastSeq = (records.map (·.seq)).getLast?.getD s.lastSeq := by
  induction records generalizing s with
  | nil => exact ⟨s, rfl, rfl, rfl, rfl⟩
  | cons r records ih =>
    rw [List.map_cons, List.pairwise_cons] at hrise
    have hstep : scanRecord (fun s r => .ok (f s r)) s r = .ok { s with
        state := f s.state r
        lastSeq := r.seq
        records := s.records + 1
        offset := s.offset + kRecordHeaderSize + r.payload.length } := by
      have hlt : s.lastSeq < r.seq := habove r List.mem_cons_self
      rw [scanRecord, if_pos hlt]
      rfl
    obtain ⟨s', hs, hstate, hcount, hlast⟩ := ih (s := { s with
        state := f s.state r
        lastSeq := r.seq
        records := s.records + 1
        offset := s.offset + kRecordHeaderSize + r.payload.length }) hrise.2
      (fun q hq => hrise.1 _ (List.mem_map_of_mem hq))
    refine ⟨s', ?_, ?_, ?_, ?_⟩
    · rw [scanAll, List.foldlM_cons, hstep]
      exact hs
    · rw [hstate, List.foldl_cons]
    · rw [hcount, List.length_cons]
      change s.records + 1 + records.length = _
      omega
    · rw [hlast, List.map_cons]
      cases hmap : records.map (·.seq) with
      | nil => rfl
      | cons q qs => rfl

/-- The replay of a journal that ends in whole records or in the beginning of one more. -/
theorem replay_rising (f : σ → JournalRecord → σ) {base : LineageSeq} {file : Bytes}
    {records : List JournalRecord} {tail : Bytes} (h : JournalShape file base records tail)
    (hrise : (records.map (·.seq.toNat)).Pairwise (· < ·))
    (habove : ∀ r ∈ records, base.toNat < r.seq.toNat) (hsize : file.length ≤ kMaxJournalBytes)
    {repair : Bool} (hr : tail = [] ∨ repair = true) (state : σ) :
    JournalReader.replay (accepting f) file repair state =
      ⟨.ok { base := base
             lastSeq := (records.map (·.seq)).getLast?.getD base
             tornTailRecovered := !tail.isEmpty
             recordsReplayed := records.length
             bytesDiscarded := tail.length },
        records.foldl f state, buildJournalHeader base ++ records.flatMap frame⟩ := by
  obtain ⟨s, hs, hstate, hcount, hlast⟩ :=
    scanAll_rising f (s := { state := state, lastSeq := base }) hrise habove
  have hrep := @replay_frames _ (fun s r => .ok (f s r)) _ _ _ _ h hsize _ hr state
  have hoff := scanAll_offset hs
  rw [hs] at hrep
  rw [← quietly_accepting, reader_of_replay hrep, hstate]
  have hlen := congrArg List.length h.bytes
  rw [List.length_append, List.length_append, buildJournalHeader_length] at hlen
  have hbytes : (if (!tail.isEmpty) = true then file.length - s.offset else 0) = tail.length := by
    cases tail with
    | nil => rfl
    | cons b bs =>
      have : s.offset = kJournalHeaderSize + (records.flatMap frame).length := hoff
      simp only [List.isEmpty_cons, Bool.not_false, if_true]
      omega
  simp only [JournalOpenResult.ofScan, hbytes, hlast, hcount, Nat.zero_add]

/-! ## Recovery of every prefix -/

/-- A written journal cut behind its header. With repair, replay hands the hook exactly the
records that lie completely in the prefix and cuts the file behind the last of them, and a
second replay finds the same records and no torn tail. Without repair, replay succeeds exactly
when the cut is the end of a record, and never changes the file. A journal cut within its header
is refused, or emptied under repair. -/
theorem prefix_recovery {base : LineageSeq} {w : JournalWriter} {file : Bytes}
    {records : List JournalRecord} (hw : Wrote base w file records)
    (hsize : file.length ≤ kMaxJournalBytes) (f : σ → JournalRecord → σ) (state : σ) {n : Nat}
    (hn : n ≤ file.length) :
    (kJournalHeaderSize ≤ n → ∃ k ≤ records.length,
      (∀ i < records.length, kJournalHeaderSize + framesEnd records (i + 1) ≤ n ↔ i < k) ∧
      (∃ o, JournalReader.replay (accepting f) (file.take n) true state =
          ⟨.ok o, (records.take k).foldl f state,
            file.take (kJournalHeaderSize + framesEnd records k)⟩ ∧
        o.base = base ∧ o.recordsReplayed = k) ∧
      (∀ repair, ∃ o, JournalReader.replay (accepting f)
          (file.take (kJournalHeaderSize + framesEnd records k)) repair state =
          ⟨.ok o, (records.take k).foldl f state,
            file.take (kJournalHeaderSize + framesEnd records k)⟩ ∧
        o.tornTailRecovered = false ∧ o.recordsReplayed = k) ∧
      ((∃ o, (JournalReader.replay (accepting f) (file.take n) false state).result = .ok o) ↔
        ∃ j ≤ records.length, n = kJournalHeaderSize + framesEnd records j) ∧
      (JournalReader.replay (accepting f) (file.take n) false state).file = file.take n) ∧
    (n < kJournalHeaderSize →
      (∃ e, JournalReader.replay (accepting f) (file.take n) false state =
        ⟨.error e, state, file.take n⟩) ∧
      (∃ o, JournalReader.replay (accepting f) (file.take n) true state = ⟨.ok o, state, []⟩ ∧
        o.truncatedToEmpty = true ∧ o.recordsReplayed = 0)) := by
  have hwritten := hw.written
  have htake : (file.take n).length = n := by
    rw [List.length_take]
    omega
  constructor
  · intro hlow
    obtain ⟨k, hk, tail, hshape, hends, hcut⟩ := shape_take hwritten hlow hn
    have hrise : ((records.take k).map (·.seq.toNat)).Pairwise (· < ·) :=
      hwritten.rising.sublist ((List.take_sublist k records).map _)
    have habove : ∀ r ∈ records.take k, base.toNat < r.seq.toNat :=
      fun r hr => hwritten.above r (List.mem_of_mem_take hr)
    have hcount : (records.take k).length = k := by
      rw [List.length_take]
      omega
    have hwhole : buildJournalHeader base ++ (records.take k).flatMap frame =
        file.take (kJournalHeaderSize + framesEnd records k) := by
      have hsplit : file = buildJournalHeader base ++ (records.take k).flatMap frame ++
          (records.drop k).flatMap frame := by
        rw [List.append_assoc, ← List.flatMap_append, List.take_append_drop, hwritten.bytes]
      conv_rhs => rw [hsplit]
      rw [List.take_left']
      rw [List.length_append, buildJournalHeader_length, framesEnd]
    have hsize' : (file.take n).length ≤ kMaxJournalBytes := by omega
    refine ⟨k, hk, hends, ?_, ?_, ?_, reader_file _ _ _ _ (.inl rfl)⟩
    · rw [replay_rising f hshape hrise habove hsize' (.inr rfl), hwhole]
      exact ⟨_, rfl, rfl, hcount⟩
    · intro repair
      have hclean : JournalShape (file.take (kJournalHeaderSize + framesEnd records k)) base
          (records.take k) [] := ⟨by rw [← hwhole, List.append_nil], hshape.fits, .inl rfl⟩
      have hlen : (file.take (kJournalHeaderSize + framesEnd records k)).length ≤
          kMaxJournalBytes := by
        rw [List.length_take]
        omega
      rw [replay_rising f hclean hrise habove hlen (.inl rfl), hwhole]
      exact ⟨_, rfl, rfl, hcount⟩
    · rw [← hcut]
      constructor
      · rintro ⟨o, ho⟩
        by_contra htorn
        obtain ⟨e, he⟩ := reader_of_error (@replay_torn _ (fun s r => .ok (f s r)) _ _ _ _ hshape
          hsize' htorn state)
        rw [quietly_accepting, ho] at he
        cases he
      · intro htail
        rw [replay_rising f hshape hrise habove hsize' (.inl htail)]
        exact ⟨_, rfl⟩
  · intro hshort
    have hmax : ¬ (file.take n).length > kMaxJournalBytes := by omega
    have hlt : (file.take n).length < kJournalHeaderSize := by
      rw [htake]
      exact hshort
    simp only [JournalReader.replay, if_neg hmax, if_pos hlt]
    exact ⟨⟨_, rfl⟩, ⟨_, rfl, rfl, rfl⟩⟩

namespace Sample

/-- A shutdown record with a payload of three bytes. -/
def goodbye : JournalRecord where
  type := .shutdown
  seq := ⟨1⟩
  payload := [1, 2, 3]

/-- A shutdown record behind it, with a payload of two bytes. -/
def adieu : JournalRecord where
  type := .shutdown
  seq := ⟨2⟩
  payload := [4, 5]

/-- A journal of two records. -/
def farewell : Bytes := buildJournalHeader .zero ++ frame goodbye ++ frame adieu

theorem wrote_goodbye :
    Wrote .zero { lastSeq := ⟨1⟩ } (buildJournalHeader .zero ++ frame goodbye) [goodbye] := by
  refine @Wrote.appended _ { lastSeq := .zero } _ _ _ [] goodbye _
    (@Wrote.created _ none .zero _ _ rfl) ?_ (rfl : Status.success.isOk = true)
  rfl

theorem wrote_farewell : Wrote .zero { lastSeq := ⟨2⟩ } farewell [goodbye, adieu] := by
  refine @Wrote.appended _ { lastSeq := ⟨1⟩ } _ _ _ [goodbye] adieu _ wrote_goodbye ?_
    (rfl : Status.success.isOk = true)
  rfl

theorem farewell_length : farewell.length = 101 := by
  rw [farewell, List.length_append, List.length_append, buildJournalHeader_length, frame_length,
    frame_length]
  rfl

end Sample

/-- A journal of two records, cut in the middle of the second one, loses that record and keeps the
first. -/
theorem prefix_recovery_sample :
    ∃ o, JournalReader.replay (accepting fun seen r => seen ++ [r])
      (Sample.farewell.take 80) true [] = ⟨.ok o, [Sample.goodbye], Sample.farewell.take 67⟩ := by
  have hend : ∀ n, framesEnd [Sample.goodbye, Sample.adieu] (n + 1) =
      35 + framesEnd [Sample.adieu] n := by
    intro n
    rw [framesEnd_cons, frame_length]
    rfl
  obtain ⟨k, hk, hends, ⟨o, ho, -⟩, -⟩ :=
    (prefix_recovery Sample.wrote_farewell (by rw [Sample.farewell_length]; decide)
      (fun seen r => seen ++ [r]) [] (n := 80) (by rw [Sample.farewell_length]; decide)).1
      (by decide)
  have h0 : 0 < k := (hends 0 (by decide)).mp (by rw [hend, framesEnd_zero]; decide)
  have h1 : ¬ 1 < k := by
    intro hlt
    have hwhole := (hends 1 (by decide)).mpr hlt
    rw [hend, framesEnd_cons, framesEnd_zero, frame_length] at hwhole
    exact absurd hwhole (by decide)
  obtain rfl : k = 1 := by omega
  rw [hend, framesEnd_zero] at ho
  exact ⟨o, ho⟩

end LinkFailover
