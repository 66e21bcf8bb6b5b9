import LinkFailover.Prefixes

/-!
# A journal with one byte changed

The checksums of a journal tell every change within one byte: a step of CRC-32C can be
undone, because the top bytes of its table are a permutation. The checksum of a record
header is verified before its length is used, so a changed length is never taken for the
length of a torn record.

* `crc32c_set`: a change of one byte changes the checksum.
* `readHead_set`: no record with a changed byte is read, whatever stands behind it.
* `corruption_refused`: replay of a journal with one byte changed fails, and leaves the file.
-/

namespace LinkFailover

open Codec

/-! ## One step of CRC-32C -/

def crc32cNext (crc : UInt32) (b : UInt8) : UInt32 :=
  crcTable.getD ((crc ^^^ b.toUInt32) &&& 0xFF).toNat 0 ^^^ (crc >>> 8)

theorem crc32cExtend_eq (seed : UInt32) (data : Bytes) :
    crc32cExtend seed data = ~~~ data.foldl crc32cNext (~~~seed) := rfl

/-- The top bytes of the table are all different. -/
theorem crcTable_top : (crcTable.map fun e : UInt32 => e >>> 24).Nodup := by decide +kernel

theorem crcTable_length : crcTable.length = 256 := by
  rw [crcTable, List.length_map, List.length_range]

theorem crcTable_inj {i j : Nat} (hi : i < 256) (hj : j < 256)
    (h : crcTable.getD i 0 >>> 24 = crcTable.getD j 0 >>> 24) : i = j := by
  have hli : i < crcTable.length := by rw [crcTable_length]; exact hi
  have hlj : j < crcTable.length := by rw [crcTable_length]; exact hj
  rw [List.getD_eq_getElem?_getD, List.getD_eq_getElem?_getD, List.getElem?_eq_getElem hli,
    List.getElem?_eq_getElem hlj] at h
  have hentry := List.inj_on_of_nodup_map crcTable_top (List.getElem_mem hli)
    (List.getElem_mem hlj) h
  exact (List.getElem_inj (List.Nodup.of_map _ crcTable_top)).mp hentry

theorem low_lt (x : UInt32) : (x &&& 0xFF).toNat < 256 := by
  rw [UInt32.toNat_and]
  exact Nat.lt_of_le_of_lt Nat.and_le_right (by decide)

theorem low_eq (x : UInt32) : (x &&& 0xFF).toNat = x.toNat % 256 := by
  rw [UInt32.toNat_and]
  exact Nat.and_two_pow_sub_one_eq_mod x.toNat 8

theorem low_xor (x y : UInt32) : (x ^^^ y) &&& 0xFF = (x &&& 0xFF) ^^^ (y &&& 0xFF) := by
  apply UInt32.toNat_inj.mp
  rw [UInt32.toNat_and, UInt32.toNat_xor, UInt32.toNat_xor, UInt32.toNat_and, UInt32.toNat_and]
  exact Nat.and_xor_distrib_right

theorem shift_toNat (x : UInt32) : (x >>> 8).toNat = x.toNat / 256 := by
  rw [UInt32.toNat_shiftRight]
  exact Nat.shiftRight_eq_div_pow _ _

theorem top_shift (x y : UInt32) : (x ^^^ (y >>> 8)) >>> 24 = x >>> 24 := by
  apply UInt32.toNat_inj.mp
  rw [UInt32.toNat_shiftRight, UInt32.toNat_shiftRight, UInt32.toNat_xor, shift_toNat]
  have h24 : (24 : UInt32).toNat % 32 = 24 := rfl
  have hy : y.toNat / 256 / 2 ^ 24 = 0 := by
    have := y.toNat_lt
    omega
  rw [h24, Nat.shiftRight_xor_distrib, Nat.shiftRight_eq_div_pow (y.toNat / 256), hy, Nat.xor_zero]

/-- Equal results come from the same table entry and the same upper bytes. -/
theorem crc32cNext_inj {c c' : UInt32} {b b' : UInt8} (h : crc32cNext c b = crc32cNext c' b') :
    (c ^^^ b.toUInt32) &&& 0xFF = (c' ^^^ b'.toUInt32) &&& 0xFF ∧ c >>> 8 = c' >>> 8 := by
  have htop := congrArg (fun e : UInt32 => e >>> 24) h
  simp only [crc32cNext, top_shift] at htop
  have hidx := UInt32.toNat_inj.mp (crcTable_inj (low_lt _) (low_lt _) htop)
  refine ⟨hidx, ?_⟩
  unfold crc32cNext at h
  rw [hidx] at h
  exact UInt32.xor_right_inj _ |>.mp h

theorem crc32cNext_left {c c' : UInt32} {b : UInt8} (h : crc32cNext c b = crc32cNext c' b) :
    c = c' := by
  obtain ⟨hlow, hhigh⟩ := crc32cNext_inj h
  rw [low_xor, low_xor] at hlow
  have hlow' := congrArg UInt32.toNat (UInt32.xor_left_inj _ |>.mp hlow)
  have hhigh' := congrArg UInt32.toNat hhigh
  rw [low_eq, low_eq] at hlow'
  rw [shift_toNat, shift_toNat] at hhigh'
  apply UInt32.toNat_inj.mp
  omega

theorem crc32cNext_right {c : UInt32} {b b' : UInt8} (h : crc32cNext c b = crc32cNext c b') :
    b = b' := by
  obtain ⟨hlow, -⟩ := crc32cNext_inj h
  rw [low_xor, low_xor] at hlow
  have hlow' := congrArg UInt32.toNat (UInt32.xor_right_inj _ |>.mp hlow)
  rw [low_eq, low_eq, UInt8.toNat_toUInt32, UInt8.toNat_toUInt32] at hlow'
  have hb := b.toNat_lt
  have hb' := b'.toNat_lt
  apply UInt8.toNat_inj.mp
  omega

/-! ## Checksums of changed bytes -/

theorem foldl_crc32cNext_inj {data : Bytes} {c c' : UInt32}
    (h : data.foldl crc32cNext c = data.foldl crc32cNext c') : c = c' := by
  induction data generalizing c c' with
  | nil => exact h
  | cons b data ih => exact crc32cNext_left (ih h)

theorem set_split {data : Bytes} {i : Nat} (hi : i < data.length) (b : UInt8) :
    data = data.take i ++ data[i] :: data.drop (i + 1) ∧
      data.set i b = data.take i ++ b :: data.drop (i + 1) := by
  rw [List.set_eq_take_append_cons_drop, if_pos hi, List.getElem_cons_drop,
    List.take_append_drop]
  exact ⟨rfl, rfl⟩

/-- A change of one byte to a different value changes the checksum. -/
theorem crc32c_set {data : Bytes} {i : Nat} (hi : i < data.length) {b : UInt8}
    (hb : data[i] ≠ b) : crc32c (data.set i b) ≠ crc32c data := by
  intro h
  obtain ⟨hdata, hset⟩ := set_split hi b
  rw [hset] at h
  conv_rhs at h => rw [hdata]
  unfold crc32c at h
  rw [crc32cExtend_eq, crc32cExtend_eq] at h
  have hfold := UInt32.not_inj.mp h
  rw [List.foldl_append, List.foldl_append, List.foldl_cons, List.foldl_cons] at hfold
  exact hb (crc32cNext_right (foldl_crc32cNext_inj hfold)).symm

/-! ## Sealed headers -/

/-- The checksum that a header of 32 bytes carries at its end. -/
def storedCrc (data : Bytes) : UInt32 := UInt32.ofNat (leValue ((data.drop 28).take 4))

/-- The checksum at the end of a header is that of the bytes before it. -/
def Sealed (data : Bytes) : Prop := crc32c (data.take 28) = storedCrc data

/-- What the checksum of a header is read from. -/
theorem storedCrc_of_reads {α : Type} {p : Parser α} (hp : p.Leaves 28) {data : Bytes} {a : α}
    {crc : UInt32} {rest : Bytes}
    (h : (do let x ← p; let crc ← Parser.u32; return (x, crc) : Parser (α × UInt32)) data =
      some ((a, crc), rest)) : crc = storedCrc data := by
  obtain ⟨⟨x, mid⟩, h1, h2⟩ := Option.bind_eq_some_iff.mp h
  obtain ⟨-, rfl⟩ := hp data x mid h1
  obtain ⟨⟨c, mid'⟩, h3, h4⟩ := Option.bind_eq_some_iff.mp h2
  have hc : c = storedCrc data := by
    obtain ⟨⟨bs, mid''⟩, h5, h6⟩ := Option.bind_eq_some_iff.mp h3
    unfold Parser.take at h5
    split at h5
    · cases h5
      cases h6
      rfl
    · cases h5
  rw [← hc]
  cases h4
  rfl

theorem RawJournalHeader.decode_leaves : RawJournalHeader.decode.Leaves 28 := by
  refine Parser.Leaves.bind (m := 24) .u32 fun _ => ?_
  refine Parser.Leaves.bind (m := 22) .u16 fun _ => ?_
  refine Parser.Leaves.bind (m := 20) .u16 fun _ => ?_
  refine Parser.Leaves.bind (m := 12) .u64 fun _ => ?_
  refine Parser.Leaves.bind (m := 4) .u64 fun _ => ?_
  exact Parser.Leaves.bind (m := 0) .u32 fun _ => .pure _

theorem RawRecordHeader.decode_leaves : RawRecordHeader.decode.Leaves 28 := by
  refine Parser.Leaves.bind (m := 24) .u32 fun _ => ?_
  refine Parser.Leaves.bind (m := 22) .u16 fun _ => ?_
  refine Parser.Leaves.bind (m := 20) .u16 fun _ => ?_
  refine Parser.Leaves.bind (m := 16) .u32 fun _ => ?_
  refine Parser.Leaves.bind (m := 8) .u64 fun _ => ?_
  refine Parser.Leaves.bind (m := 4) .u32 fun _ => ?_
  exact Parser.Leaves.bind (m := 0) .u32 fun _ => .pure _

/-- Only a sealed journal header is accepted. -/
theorem parseJournalHeader_sealed {data : Bytes} {base : LineageSeq}
    (h : parseJournalHeader data = .ok base) : Sealed data := by
  unfold parseJournalHeader at h
  split at h
  · cases h
  · rename_i raw crc rest hread
    split at h
    · cases h
    · split at h
      · cases h
      · rename_i hcrc
        rw [Sealed, not_not.mp hcrc]
        exact storedCrc_of_reads RawJournalHeader.decode_leaves hread

/-- Only a sealed record header is accepted, whatever length it declares. -/
theorem parseRecordHeader_sealed {data : Bytes} {x : RecordType × RawRecordHeader}
    (h : parseRecordHeader data = .ok x) : Sealed data := by
  unfold parseRecordHeader at h
  split at h
  · cases h
  · rename_i raw crc rest hread
    split at h
    · cases h
    · split at h
      · cases h
      · rename_i hcrc
        rw [Sealed, not_not.mp hcrc]
        exact storedCrc_of_reads RawRecordHeader.decode_leaves hread

/-- A change of one byte breaks the seal of a header. -/
theorem not_sealed_set {head : Bytes} (hlen : head.length = 28) (rest : Bytes) {i : Nat}
    (hi : i < 32) {b : UInt8} (hb : (sealHeader head ++ rest)[i]? ≠ some b) :
    ¬ Sealed ((sealHeader head ++ rest).set i b) := by
  intro hsealed
  have hdrop : (sealHeader head ++ rest).drop 28 = leBytes 4 (crc32c head).toNat ++ rest := by
    rw [sealHeader, List.append_assoc, List.drop_left' hlen]
  have htake := take_sealed hlen rest
  have hget : ∀ j : Nat, (sealHeader head ++ rest)[28 + j]? =
      (leBytes 4 (crc32c head).toNat ++ rest)[j]? := by
    intro j
    rw [← hdrop, List.getElem?_drop]
  unfold Sealed storedCrc at hsealed
  by_cases hlow : i < 28
  · rw [List.take_set, htake, List.drop_set_of_lt hlow, hdrop,
      List.take_left' (leBytes_length 4 _), leValue_leBytes] at hsealed
    have hcrc : UInt32.ofNat ((crc32c head).toNat % 256 ^ 4) = crc32c head := by
      have := (crc32c head).toNat_lt
      rw [Nat.mod_eq_of_lt (by omega), UInt32.ofNat_toNat]
    rw [hcrc] at hsealed
    have hih : i < head.length := by omega
    refine crc32c_set hih (fun he => hb ?_) hsealed
    rw [← he, sealHeader, List.append_assoc, List.getElem?_append_left hih,
      List.getElem?_eq_getElem hih]
  · obtain ⟨j, rfl⟩ : ∃ j, i = 28 + j := ⟨i - 28, by omega⟩
    have hj : j < 4 := by omega
    rw [List.take_set_of_le (by omega), htake, List.drop_set, if_neg (by omega), hdrop,
      Nat.add_sub_cancel_left, List.take_set, List.take_left' (leBytes_length 4 _)] at hsealed
    have hlen4 : ((leBytes 4 (crc32c head).toNat).set j b).length = 4 := by
      rw [List.length_set, leBytes_length]
    have hval : leValue ((leBytes 4 (crc32c head).toNat).set j b) < 2 ^ 32 := by
      have hlt := leValue_lt ((leBytes 4 (crc32c head).toNat).set j b)
      rw [hlen4] at hlt
      exact hlt
    have hnat := congrArg UInt32.toNat hsealed
    rw [UInt32.toNat_ofNat', Nat.mod_eq_of_lt hval] at hnat
    have hsame := leBytes_leValue ((leBytes 4 (crc32c head).toNat).set j b)
    rw [hlen4, ← hnat] at hsame
    refine hb ?_
    rw [hget, List.getElem?_append_left (by rw [leBytes_length]; exact hj), hsame,
      List.getElem?_set_self (by rw [leBytes_length]; exact hj)]

/-! ## Records with a changed byte -/

theorem parseJournalHeader_set {base : LineageSeq} (rest : Bytes) {i : Nat}
    (hi : i < kJournalHeaderSize) {b : UInt8} (hb : (buildJournalHeader base ++ rest)[i]? ≠ some b) :
    ∃ e, parseJournalHeader ((buildJournalHeader base ++ rest).set i b) = .error e := by
  cases hp : parseJournalHeader ((buildJournalHeader base ++ rest).set i b) with
  | error e => exact ⟨e, rfl⟩
  | ok found =>
    exact absurd (parseJournalHeader_sealed hp)
      (not_sealed_set (journalHead_length _) rest hi hb)

theorem readHead_of_error {data : Bytes} {e : Status} (hl : kRecordHeaderSize ≤ data.length)
    (hp : parseRecordHeader data = .error e) : readHead data = .error e := by
  have hne : data.isEmpty = false := by
    cases data with
    | nil => exact absurd hl (by decide)
    | cons b bs => rfl
  simp only [readHead, hne, Nat.not_lt_of_le hl, hp, Bool.false_eq_true, if_false]
  rfl

/-- A record with a changed byte is refused, and not taken for a torn one. -/
theorem readHead_set {r : JournalRecord} (h : r.Fits) {i : Nat} (hi : i < (frame r).length)
    {b : UInt8} (hb : (frame r)[i] ≠ b) (rest : Bytes) :
    ∃ e, readHead ((frame r).set i b ++ rest) = .error e := by
  have hlen := frame_length r
  have hlong : kRecordHeaderSize ≤ ((frame r).set i b ++ rest).length := by
    rw [List.length_append, List.length_set]
    omega
  by_cases hlow : i < kRecordHeaderSize
  · have hset : (frame r).set i b ++ rest =
        (buildRecordHeader r ++ (r.payload ++ rest)).set i b := by
      rw [← List.append_assoc, ← frame, List.set_append_left _ _ hi]
    have hget : (buildRecordHeader r ++ (r.payload ++ rest))[i]? ≠ some b := by
      rw [← List.append_assoc, ← frame, List.getElem?_append_left hi, List.getElem?_eq_getElem hi]
      exact fun he => hb (Option.some.inj he)
    rw [hset] at hlong ⊢
    cases hp : parseRecordHeader ((buildRecordHeader r ++ (r.payload ++ rest)).set i b) with
    | error e => exact ⟨e, readHead_of_error hlong hp⟩
    | ok x =>
      exact absurd (parseRecordHeader_sealed hp)
        (not_sealed_set (recordHead_length _) (r.payload ++ rest) hlow hget)
  · obtain ⟨j, rfl⟩ : ∃ j, i = kRecordHeaderSize + j := ⟨i - kRecordHeaderSize, by omega⟩
    have hj : j < r.payload.length := by omega
    have hset : (frame r).set (kRecordHeaderSize + j) b =
        buildRecordHeader r ++ r.payload.set j b := by
      rw [frame, List.set_append, if_neg (by rw [buildRecordHeader_length]; omega),
        buildRecordHeader_length, Nat.add_sub_cancel_left]
    have hget : r.payload[j] ≠ b := by
      intro he
      refine hb ?_
      rw [← he]
      simp only [frame]
      rw [List.getElem_append_right (by rw [buildRecordHeader_length]; omega)]
      simp [buildRecordHeader_length]
    rw [hset, List.append_assoc] at hlong ⊢
    have hsize : (rawHeader r).length.toNat = r.payload.length := h.toNat_length
    have hcrc : crc32c (r.payload.set j b) ≠ (rawHeader r).payloadCrc := crc32c_set hj hget
    have hlen' : (r.payload.set j b).length = r.payload.length := List.length_set
    have hge : ¬ (r.payload.set j b ++ rest).length < r.payload.length := by
      rw [List.length_append, hlen']
      omega
    rw [readHead_of_parse hlong (parseRecordHeader_build h _),
      List.drop_left' (buildRecordHeader_length r), readPayload, hsize, if_neg hge,
      List.take_left' hlen', if_pos hcrc]
    exact ⟨_, rfl⟩

/-- A change in the records of a journal is a change in one of them. -/
theorem frames_set {records : List JournalRecord} {i : Nat}
    (hi : i < (records.flatMap frame).length) (b : UInt8) :
    ∃ before r after j, ∃ hj : j < (frame r).length, records = before ++ r :: after ∧
      (records.flatMap frame)[i] = (frame r)[j] ∧
      (records.flatMap frame).set i b =
        before.flatMap frame ++ ((frame r).set j b ++ after.flatMap frame) := by
  induction records generalizing i with
  | nil => exact absurd hi (Nat.not_lt_zero i)
  | cons r records ih =>
    simp only [List.flatMap_cons] at hi ⊢
    by_cases hlt : i < (frame r).length
    · refine ⟨[], r, records, i, hlt, rfl, List.getElem_append_left hlt, ?_⟩
      rw [List.set_append_left _ _ hlt]
      rfl
    · rw [List.length_append] at hi
      obtain ⟨before, q, after, j, hj, hrec, hget, hset⟩ :=
        ih (i := i - (frame r).length) (by omega)
      refine ⟨r :: before, q, after, j, hj, by rw [hrec]; rfl, ?_, ?_⟩
      · rw [List.getElem_append_right (Nat.not_lt.mp hlt), hget]
      · rw [List.set_append, if_neg hlt, hset, List.flatMap_cons, List.append_assoc]

/-- A scan that meets unreadable bytes behind whole records fails; what the hook was handed
before are some of these records, from the first on. -/
theorem deliver_broken {σ : Type} (onRecord : σ → JournalRecord → σ × Result Unit)
    {records : List JournalRecord} (hfits : ∀ r ∈ records, r.Fits) {tail : Bytes} {e : Status}
    (htail : readHead tail = .error e) {n : Nat} (hn : records.length < n) (s : Scan σ) :
    (∃ e', (deliver onRecord n (records.flatMap frame ++ tail) s).2 = .error e') ∧
      ∃ handed, handed <+: records ∧
        (deliver onRecord n (records.flatMap frame ++ tail) s).1.state =
          handed.foldl (fun s r => (onRecord s r).1) s.state := by
  induction records generalizing n s with
  | nil =>
    obtain ⟨n, rfl⟩ : ∃ m, n = m + 1 := ⟨n - 1, by rw [List.length_nil] at hn; omega⟩
    rw [List.flatMap_nil, List.nil_append, deliver, htail]
    exact ⟨⟨e, rfl⟩, [], List.prefix_rfl, rfl⟩
  | cons r records ih =>
    obtain ⟨n, rfl⟩ : ∃ m, n = m + 1 := ⟨n - 1, by omega⟩
    rw [List.length_cons] at hn
    rw [List.flatMap_cons, List.append_assoc, deliver,
      readHead_frame (hfits r List.mem_cons_self)]
    dsimp only
    by_cases hseq : s.lastSeq < r.seq
    · rw [if_pos hseq]
      cases hh : onRecord s.state r with
      | mk state answer =>
        have hstate : (onRecord s.state r).1 = state := by rw [hh]
        cases answer with
        | error e' =>
          refine ⟨⟨e', rfl⟩, [r], ⟨records, rfl⟩, ?_⟩
          rw [List.foldl_cons, hstate]
          rfl
        | ok u =>
          obtain ⟨herr, handed, hpre, hfold⟩ :=
            ih (fun q hq => hfits q (List.mem_cons_of_mem _ hq)) (Nat.lt_of_succ_lt_succ hn) { s with
              state := state
              lastSeq := r.seq
              records := s.records + 1
              offset := s.offset + kRecordHeaderSize + r.payload.length }
          refine ⟨herr, r :: handed, List.prefix_cons_inj r |>.mpr hpre, ?_⟩
          rw [List.foldl_cons, hstate]
          exact hfold
    · rw [if_neg hseq]
      exact ⟨⟨_, rfl⟩, [], List.nil_prefix, rfl⟩

theorem frames_count (records : List JournalRecord) :
    records.length ≤ (records.flatMap frame).length := by
  induction records with
  | nil => exact Nat.zero_le _
  | cons r records ih =>
    have hlen := frame_length r
    rw [kRecordHeaderSize] at hlen
    rw [List.flatMap_cons, List.length_append, List.length_cons]
    omega

/-! ## Journals with a changed byte -/

/-- An intact journal with one byte changed to a different value. Every replay of it fails
and leaves the file as it is; the records handed to the hook before it fails are records of
the journal as it was, in order from the first on. -/
theorem corruption_refused {σ : Type} {base : LineageSeq} {file : Bytes}
    {records : List JournalRecord} (hfile : JournalShape file base records [])
    (onRecord : σ → JournalRecord → σ × Result Unit) (state : σ) {i : Nat} (hi : i < file.length)
    {b : UInt8} (hb : file[i] ≠ b) (repair : Bool) :
    (∃ e, (JournalReader.replay onRecord (file.set i b) repair state).result = .error e) ∧
      (JournalReader.replay onRecord (file.set i b) repair state).file = file.set i b ∧
      ∃ handed, handed <+: records ∧
        (JournalReader.replay onRecord (file.set i b) repair state).state =
          handed.foldl (fun s r => (onRecord s r).1) state := by
  suffices h : (∃ e, (JournalReader.replay onRecord (file.set i b) repair state).result =
      .error e) ∧ ∃ handed, handed <+: records ∧
        (JournalReader.replay onRecord (file.set i b) repair state).state =
          handed.foldl (fun s r => (onRecord s r).1) state from
    ⟨h.1, reader_file _ _ _ _ (.inr h.1), h.2⟩
  have hbytes : file = buildJournalHeader base ++ records.flatMap frame := by
    rw [hfile.bytes, List.append_nil]
  have hget : file[i]? ≠ some b := by
    rw [List.getElem?_eq_getElem hi]
    exact fun he => hb (Option.some.inj he)
  have hlen : (file.set i b).length = kJournalHeaderSize + (records.flatMap frame).length := by
    rw [List.length_set, hbytes, List.length_append, buildJournalHeader_length]
  have hnone : ∃ handed, handed <+: records ∧
      state = handed.foldl (fun s r => (onRecord s r).1) state := ⟨[], List.nil_prefix, rfl⟩
  unfold JournalReader.replay
  by_cases hmax : (file.set i b).length > kMaxJournalBytes
  · rw [if_pos hmax]
    exact ⟨⟨_, rfl⟩, hnone⟩
  · rw [if_neg hmax, if_neg (by omega)]
    by_cases hlow : i < kJournalHeaderSize
    · rw [hbytes] at hget
      obtain ⟨e, he⟩ := parseJournalHeader_set (records.flatMap frame) hlow hget
      rw [hbytes, he]
      exact ⟨⟨e, rfl⟩, hnone⟩
    · have hpos : i - kJournalHeaderSize < (records.flatMap frame).length := by
        have : file.length = kJournalHeaderSize + (records.flatMap frame).length := by
          rw [hbytes, List.length_append, buildJournalHeader_length]
        omega
      obtain ⟨before, r, after, j, hj, hrec, hsame, hset⟩ := frames_set hpos b
      have hfile' : file.set i b = buildJournalHeader base ++
          (before.flatMap frame ++ ((frame r).set j b ++ after.flatMap frame)) := by
        rw [hbytes, List.set_append, if_neg (by rw [buildJournalHeader_length]; exact hlow),
          buildJournalHeader_length, hset]
      have hchanged : (frame r)[j] ≠ b := by
        rw [← hsame]
        intro he
        refine hget ?_
        rw [hbytes, List.getElem?_append_right (by rw [buildJournalHeader_length]; omega),
          buildJournalHeader_length, List.getElem?_eq_getElem hpos, he]
      have hr : r.Fits := hfile.fits r (by rw [hrec]; simp)
      obtain ⟨e, he⟩ := readHead_set hr hj hchanged (after.flatMap frame)
      have hcount : before.length < (file.set i b).length := by
        have h1 := frames_count before
        have h2 := congrArg List.length hfile'
        rw [List.length_append, List.length_append, buildJournalHeader_length] at h2
        rw [kJournalHeaderSize] at h2
        omega
      obtain ⟨⟨e', herr⟩, handed, hpre, hfold⟩ := deliver_broken onRecord
        (fun q hq => hfile.fits q (by rw [hrec]; exact List.mem_append_left _ hq)) he hcount
        { state := state, lastSeq := base }
      have hparse : parseJournalHeader (file.set i b) = .ok base := by
        rw [hfile', parseJournalHeader_build]
      have hdrop : (file.set i b).drop kJournalHeaderSize =
          before.flatMap frame ++ ((frame r).set j b ++ after.flatMap frame) := by
        rw [hfile', List.drop_left' (buildJournalHeader_length base)]
      rw [hparse, hdrop]
      dsimp only
      generalize deliver onRecord (file.set i b).length _ _ = d at herr hfold ⊢
      obtain ⟨s, answer⟩ := d
      cases herr
      exact ⟨⟨e', rfl⟩, handed, hpre.trans ⟨r :: after, hrec.symm⟩, hfold⟩

/-- The length of a record changed to a larger one: not a torn tail. -/
theorem corruption_refused_sample :
    ∃ e, (JournalReader.replay (accepting fun seen r => seen ++ [r])
      ((buildJournalHeader .zero ++ frame Sample.goodbye).set 40 200) true []).result =
      .error e := by
  have hbytes := Sample.wrote_goodbye.written
  have hlen : (buildJournalHeader .zero ++ frame Sample.goodbye).length = 67 := by
    rw [List.length_append, buildJournalHeader_length, frame_length]
    rfl
  have hget : (buildJournalHeader .zero ++ frame Sample.goodbye)[40]? = some 3 := by
    rw [List.getElem?_append_right (by rw [buildJournalHeader_length]; decide),
      buildJournalHeader_length, frame, List.getElem?_append_left (by
        rw [buildRecordHeader_length]; decide), buildRecordHeader, sealHeader,
      List.getElem?_append_left (by rw [recordHead_length]; decide)]
    rfl
  have hshape : JournalShape (buildJournalHeader .zero ++ frame Sample.goodbye) .zero
      [Sample.goodbye] [] := ⟨by simp, hbytes.fits, .inl rfl⟩
  have hi : 40 < (buildJournalHeader .zero ++ frame Sample.goodbye).length := by
    rw [hlen]
    decide
  have hb : (buildJournalHeader .zero ++ frame Sample.goodbye)[40] ≠ 200 := by
    rw [List.getElem?_eq_getElem hi] at hget
    rw [Option.some.inj hget]
    decide
  exact (corruption_refused hshape (accepting fun seen r => seen ++ [r]) [] hi hb true).1

end LinkFailover
