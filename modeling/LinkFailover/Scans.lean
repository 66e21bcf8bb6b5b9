import LinkFailover.Journal
import LinkFailover.Spellings
import LinkFailover.Lib.Rejections

/-!
# What a replay has read

The headers of a journal have one spelling, so a replay that ends well has read the bytes of a
writer, whoever put them there: a header and whole records, with at most a torn tail behind them,
which is cut off. Nothing is assumed of the file.

* `readHead_record`: a record that is read stands at the front of its input.
* `scan_ok`: a scan that ends well has handed whole records to the hook.
* `replay_ok`: the same for a replay, with the file that it leaves.
-/

namespace LinkFailover

open Codec

variable {σ : Type}

/-! ## Headers -/

theorem RawJournalHeader.spells : Spells decode
    (.fields [.bytes 4, .bytes 2, .bytes 2, .bytes 8, .bytes 8, .bytes 4] .empty) encode := by
  refine .of_fields ?_
  refine .cons .u32 fun magic => ?_
  refine .cons .u16 fun version => ?_
  refine .cons .u16 fun flags => ?_
  refine .cons .u64 fun base => ?_
  refine .cons .u64 fun reserved => ?_
  refine .cons .u32 fun reserved' => ?_
  exact .pure ⟨rfl, rfl, rfl, rfl, rfl, rfl, trivial⟩

theorem RawRecordHeader.spells : Spells decode
    (.fields [.bytes 4, .bytes 2, .bytes 2, .bytes 4, .bytes 8, .bytes 4, .bytes 4] .empty)
    encode := by
  refine .of_fields ?_
  refine .cons .u32 fun magic => ?_
  refine .cons .u16 fun version => ?_
  refine .cons .u16 fun type => ?_
  refine .cons .u32 fun length => ?_
  refine .cons .u64 fun seq => ?_
  refine .cons .u32 fun payloadCrc => ?_
  refine .cons .u32 fun reserved => ?_
  exact .pure ⟨rfl, rfl, rfl, rfl, rfl, rfl, rfl, trivial⟩

/-- A header that is read together with its checksum, and whose checksum is right, is the sealed
header of its fields. -/
theorem sealed_canonical {α : Type} {p : Parser α} {l : Layout} {enc : α → Writer → Writer}
    (h : Spells p l enc) (hl : l.Plain) {data rest : Bytes} {a : α} {crc : UInt32}
    (hread : (do let x ← p; let crc ← Parser.u32; return (x, crc) : Parser (α × UInt32)) data =
      some ((a, crc), rest))
    (hlen : (Writer.run (enc a)).length = 28) (hcrc : crc32c (data.take 28) = crc) :
    data = sealHeader (Writer.run (enc a)) ++ rest := by
  obtain ⟨x, mid, hx, hread⟩ := bind_eq_some hread
  obtain ⟨c, tail, hc, hread⟩ := bind_eq_some hread
  cases hread
  have hdata := h.canonical hl hx
  have hmid := Spells.u32_eq_some hc
  have htake : data.take 28 = Writer.run (enc a) := by
    rw [hdata, List.take_left' hlen]
  rw [hdata, hmid, sealHeader, ← htake, hcrc, List.append_assoc]

theorem parseJournalHeader_ok {data : Bytes} {base : LineageSeq}
    (h : parseJournalHeader data = .ok base) : ∃ rest, data = buildJournalHeader base ++ rest := by
  unfold parseJournalHeader at h
  split at h
  · cases h
  rename_i raw crc rest hread
  split at h
  · cases h
  rename_i hmagic
  split at h
  · cases h
  rename_i hcrc
  split at h
  · cases h
  rename_i hversion
  split at h
  · cases h
  rename_i hflags
  split at h
  · cases h
  rename_i hreserved
  cases h
  refine ⟨rest, ?_⟩
  have hraw : raw = { base := raw.base } := by
    obtain ⟨magic, version, flags, b, reserved, reserved'⟩ := raw
    simp only [ne_eq, not_or, not_not] at hmagic hversion hflags hreserved
    obtain ⟨rfl, rfl⟩ := hreserved
    cases hmagic
    cases hversion
    cases hflags
    rfl
  rw [sealed_canonical RawJournalHeader.spells (by simp [Layout.fields, Layout.Plain]) hread (journalHead_length _)
    (not_not.mp hcrc), buildJournalHeader]
  exact congrArg (fun h : RawJournalHeader => sealHeader (Writer.run h.encode) ++ rest) hraw

theorem parseRecordHeader_ok {data : Bytes} {type : RecordType} {raw : RawRecordHeader}
    (h : parseRecordHeader data = .ok (type, raw)) :
    (∃ rest, data = sealHeader (Writer.run raw.encode) ++ rest) ∧
      raw.length.toNat ≤ kMaxRecordPayload ∧
      raw = { type := WireEnum.code type, length := raw.length, seq := raw.seq,
              payloadCrc := raw.payloadCrc } := by
  unfold parseRecordHeader at h
  split at h
  · cases h
  rename_i found crc rest hread
  split at h
  · cases h
  rename_i hmagic
  split at h
  · cases h
  rename_i hcrc
  split at h
  · cases h
  rename_i hversion
  split at h
  · cases h
  rename_i type' htype
  split at h
  · cases h
  rename_i hlength
  split at h
  · cases h
  rename_i hreserved
  cases h
  refine ⟨⟨rest, sealed_canonical RawRecordHeader.spells (by simp [Layout.fields, Layout.Plain]) hread
    (recordHead_length _) (not_not.mp hcrc)⟩, Nat.le_of_not_lt hlength, ?_⟩
  obtain ⟨magic, version, code, length, seq, payloadCrc, reserved⟩ := raw
  cases not_not.mp hmagic
  cases not_not.mp hversion
  cases not_not.mp hreserved
  cases ofCode?_spelled htype
  rfl

/-! ## Records -/

/-- A record that is read is what stands there, and the writer would have accepted it. -/
theorem readHead_record {data rest : Bytes} {r : JournalRecord}
    (h : readHead data = .ok (.record r rest)) : data = frame r ++ rest ∧ r.Fits := by
  unfold readHead at h
  split at h
  · cases h
  split at h
  · cases h
  cases hp : parseRecordHeader data with
  | error e =>
    rw [hp] at h
    cases h
  | ok x =>
    obtain ⟨type, raw⟩ := x
    rw [hp] at h
    change readPayload type raw (data.drop kRecordHeaderSize) = _ at h
    obtain ⟨⟨tail, hdata⟩, hlength, hraw⟩ := parseRecordHeader_ok hp
    have hdrop : data.drop kRecordHeaderSize = tail := by
      rw [hdata]
      exact List.drop_left' (sealHeader_length (recordHead_length _))
    rw [hdrop] at h
    unfold readPayload at h
    split at h
    · cases h
    rename_i hle
    split at h
    · cases h
    rename_i hcrc
    cases h
    have htake : (tail.take raw.length.toNat).length = raw.length.toNat := by
      rw [List.length_take]
      omega
    refine ⟨?_, by rw [JournalRecord.Fits, htake]; exact hlength⟩
    have hheader : rawHeader ⟨type, ⟨raw.seq⟩, tail.take raw.length.toNat⟩ = raw := by
      rw [hraw]
      refine RawRecordHeader.mk.injEq .. |>.mpr ⟨rfl, rfl, rfl, ?_, rfl, not_not.mp hcrc, rfl⟩
      rw [htake]
      exact UInt32.toNat_inj.mp (by rw [UInt32.toNat_ofNat', Nat.mod_eq_of_lt raw.length.toNat_lt])
    rw [hdata, frame, buildRecordHeader, hheader, List.append_assoc, List.take_append_drop]

theorem readHead_done {data : Bytes} (h : readHead data = .ok .done) : data = [] := by
  unfold readHead at h
  split at h
  · rename_i hempty
    exact List.isEmpty_iff.mp hempty
  split at h
  · cases h
  cases hp : parseRecordHeader data with
  | error e =>
    rw [hp] at h
    cases h
  | ok x =>
    obtain ⟨type, raw⟩ := x
    rw [hp] at h
    change readPayload type raw (data.drop kRecordHeaderSize) = _ at h
    unfold readPayload at h
    split at h
    · cases h
    split at h
    · cases h
    · cases h

theorem scanRecord_torn {hook : σ → JournalRecord → Result σ} {r : JournalRecord} {s s' : Scan σ}
    (h : scanRecord hook s r = .ok s') : s'.torn = s.torn := by
  unfold scanRecord at h
  split at h
  · cases hh : hook s.state r with
    | error e =>
      rw [hh] at h
      cases h
    | ok state =>
      rw [hh] at h
      cases h
      rfl
  · cases h

/-- A scan that ends well has handed whole records to the hook, and all of the input but for a torn
tail. -/
theorem scan_ok {hook : σ → JournalRecord → Result σ} {n : Nat} {data : Bytes} {s s' : Scan σ}
    (h : scan hook n data s = .ok s') (hn : data.length ≤ n) (hs : s.torn = false) :
    ∃ records tail t, data = records.flatMap frame ++ tail ∧ (∀ r ∈ records, r.Fits) ∧
      scanAll hook records s = .ok t ∧ s' = { t with torn := s'.torn } ∧
      (s'.torn = false → tail = []) := by
  induction n generalizing data s with
  | zero =>
    cases h
    have hempty : data = [] := List.length_eq_zero_iff.mp (Nat.le_zero.mp hn)
    exact ⟨[], [], _, by rw [hempty]; rfl, by simp, rfl, rfl, fun _ => rfl⟩
  | succ n ih =>
    rw [scan] at h
    cases hd : readHead data with
    | error e =>
      rw [hd] at h
      cases h
    | ok head =>
      rw [hd] at h
      cases head with
      | done =>
        cases h
        exact ⟨[], [], _, by rw [readHead_done hd]; rfl, by simp, rfl, rfl, fun _ => rfl⟩
      | torn =>
        cases h
        exact ⟨[], data, _, rfl, by simp, rfl, rfl, fun ht => by cases ht⟩
      | record r rest =>
        obtain ⟨hdata, hfits⟩ := readHead_record hd
        change (scanRecord hook s r >>= fun s => scan hook n rest s) = _ at h
        cases hr : scanRecord hook s r with
        | error e =>
          rw [hr] at h
          cases h
        | ok t =>
          rw [hr] at h
          have hrest : rest.length ≤ n := by
            have hlen := congrArg List.length hdata
            rw [List.length_append, frame_length, kRecordHeaderSize] at hlen
            omega
          obtain ⟨records, tail, u, hsplit, hall, hscan, hu, htail⟩ :=
            ih h hrest ((scanRecord_torn hr).trans hs)
          refine ⟨r :: records, tail, u, ?_, ?_, ?_, hu, htail⟩
          · rw [hdata, hsplit, List.flatMap_cons, List.append_assoc]
          · intro q hq
            rcases List.mem_cons.mp hq with rfl | hq
            · exact hfits
            · exact hall q hq
          · rw [scanAll, List.foldlM_cons, hr]
            exact hscan

/-! ## Files -/

/-- How a replay can end well: the file is too short for a header and is taken for an empty one, or
it holds a header and whole records, on which the hook was folded. -/
inductive ReplayOutcome (hook : σ → JournalRecord → Result σ) (file : Bytes) (state : σ) :
    JournalOpenResult × σ × Bytes → Prop
  | emptied {result : JournalOpenResult} (short : file.length < kJournalHeaderSize)
      (emptied : result.truncatedToEmpty = true) : ReplayOutcome hook file state (result, state, [])
  | read {result : JournalOpenResult} {base : LineageSeq} {records : List JournalRecord}
      {tail : Bytes} {t : Scan σ}
      (bytes : file = buildJournalHeader base ++ (records.flatMap frame ++ tail))
      (fits : ∀ r ∈ records, r.Fits)
      (scanned : scanAll hook records { state := state, lastSeq := base } = .ok t)
      (base_eq : result.base = base) (last : result.lastSeq = t.lastSeq)
      (kept : result.truncatedToEmpty = false) :
      ReplayOutcome hook file state
        (result, t.state, buildJournalHeader base ++ records.flatMap frame)

/-- What a replay that ends well has read, whatever the file. -/
theorem replay_ok {hook : σ → JournalRecord → Result σ} {file : Bytes} {repair : Bool} {state : σ}
    {x : JournalOpenResult × σ × Bytes} (h : replay (some file) repair hook state = .ok x) :
    ReplayOutcome hook file state x := by
  unfold replay at h
  dsimp only at h
  split at h
  · cases h
  split at h
  · rename_i hshort
    split at h
    · cases h
    · cases h
      exact .emptied hshort rfl
  cases hp : parseJournalHeader file with
  | error e =>
    rw [hp] at h
    cases h
  | ok base =>
    obtain ⟨body, hfile⟩ := parseJournalHeader_ok hp
    have hdrop : file.drop kJournalHeaderSize = body := by
      rw [hfile, List.drop_left' (buildJournalHeader_length base)]
    rw [hp] at h
    change (scan hook file.length (file.drop kJournalHeaderSize) _ >>= _) = _ at h
    rw [hdrop] at h
    cases hs : scan hook file.length body { state := state, lastSeq := base } with
    | error e =>
      rw [hs] at h
      cases h
    | ok s =>
      rw [hs] at h
      change (if (s.torn && !repair) = true then _ else _) = _ at h
      split at h
      · cases h
      cases h
      have hbody : body.length ≤ file.length := by
        rw [hfile, List.length_append]
        omega
      obtain ⟨records, tail, t, hsplit, hfits, hscan, hst, htail⟩ := scan_ok hs hbody rfl
      have hleft : (if s.torn = true then file.take s.offset else file) =
          buildJournalHeader base ++ records.flatMap frame := by
        rw [hfile, hsplit]
        split
        · have hoff : s.offset = (buildJournalHeader base ++ records.flatMap frame).length := by
            rw [hst, List.length_append, buildJournalHeader_length]
            exact scanAll_offset hscan
          rw [hoff, ← List.append_assoc, List.take_left]
        · rename_i htorn
          rw [htail (by simpa using htorn), List.append_nil]
      have hstate : s.state = t.state := by rw [hst]
      have hlast : s.lastSeq = t.lastSeq := by rw [hst]
      rw [hleft, hstate]
      exact .read (by rw [hfile, hsplit]) hfits hscan rfl hlast rfl

end LinkFailover
