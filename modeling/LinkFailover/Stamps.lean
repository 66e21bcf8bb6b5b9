import LinkFailover.Commits
import LinkFailover.Reboots

/-!
# Lineage stamps

A retained attempt carries the position of the record that created it and of the last one that was
written for it. Neither is known before the record is encoded, so an operation stamps its copy of
the record behind the commit, and the payload has the stamps of before. Two places miss that: a
grant makes its second record from a copy that was never stamped, and a replay takes the stamps of
the payload.

* `Stamped`: the stamps of a record agree with the lineage.
* `Trace.stamped`: every other write of a process leaves them right.
* `stamps_kept`: in which runs they are right.
-/

namespace LinkFailover

open Codec

/-! ## Stamps -/

/-- What a record of the lineage does to the stamps of an attempt. -/
def restamp (i : Identity) (stamps : LineageSeq × LineageSeq) (x : Entry) :
    LineageSeq × LineageSeq :=
  match x.2 with
  | .attempt w r =>
    if r.identity = i then (if w = .create then x.1 else stamps.1, x.1) else stamps
  | _ => stamps

/-- The positions at which an attempt was created and last written. -/
def stamps (entries : List Entry) (i : Identity) : LineageSeq × LineageSeq :=
  entries.foldl (restamp i) (.zero, .zero)

theorem stamps_append (entries : List Entry) (x : Entry) (i : Identity) :
    stamps (entries ++ [x]) i = restamp i (stamps entries i) x := by
  rw [stamps, List.foldl_append]
  rfl

/-- Records that are not about the attempt. -/
theorem stamps_other {entries more : List Entry} {i : Identity}
    (h : ∀ x ∈ more, ∀ w r, x.2 = .attempt w r → r.identity ≠ i) :
    stamps (entries ++ more) i = stamps entries i := by
  induction more using List.reverseRecOn with
  | nil => rw [List.append_nil]
  | append_singleton more x ih =>
    rw [← List.append_assoc, stamps_append,
      ih fun y hy => h y (List.mem_append_left _ hy), restamp]
    split
    · rename_i w r hx
      rw [if_neg (h x (List.mem_append_right _ List.mem_cons_self) w r hx)]
    · rfl

theorem stamps_written (entries : List Entry) (seq : LineageSeq) (w : AttemptWrite)
    (r : AttemptRecord) : stamps (entries ++ [(seq, .attempt w r)]) r.identity =
      (if w = .create then seq else (stamps entries r.identity).1, seq) := by
  rw [stamps_append]
  exact if_pos rfl

/-- The stamps of a record are those of the lineage, in order. -/
structure AttemptRecord.Stamped (entries : List Entry) (last : LineageSeq) (r : AttemptRecord) :
    Prop where
  create : r.createSeq = (stamps entries r.identity).1
  update : r.updateSeq = (stamps entries r.identity).2
  positive : 0 < r.createSeq.toNat
  ordered : r.createSeq.toNat ≤ r.updateSeq.toNat
  committed : r.updateSeq.toNat ≤ last.toNat

/-- The stamps of a state agree with the lineage up to its last position. -/
def DurableState.Stamped (history : List Event) (d : DurableState) : Prop :=
  ∀ r ∈ d.attempts, r.Stamped ((lineage history).take d.lastSeq.toNat) d.lastSeq

section Writes

variable {entries more : List Entry} {last seq : LineageSeq} {w : AttemptWrite}
  {r r' q x : AttemptRecord} {table table' : List AttemptRecord}

/-- A lineage that goes on without records of the attempt. -/
theorem AttemptRecord.Stamped.extend (h : q.Stamped entries last) (hl : last.toNat ≤ seq.toNat)
    (hm : ∀ x ∈ more, ∀ w r, x.2 = .attempt w r → r.identity ≠ q.identity) :
    q.Stamped (entries ++ more) seq where
  create := by
    rw [stamps_other hm]
    exact h.create
  update := by
    rw [stamps_other hm]
    exact h.update
  positive := h.positive
  ordered := h.ordered
  committed := h.committed.trans hl

/-- A record that is created and stamped. -/
theorem stamped_created (hi : r'.identity = r.identity) (hc : r'.createSeq = seq)
    (hu : r'.updateSeq = seq) (hpos : 0 < seq.toNat) :
    r'.Stamped (entries ++ [(seq, .attempt .create r)]) seq where
  create := by rw [hi, stamps_written, if_pos rfl, hc]
  update := by rw [hi, stamps_written, hu]
  positive := by rwa [hc]
  ordered := by rw [hc, hu]
  committed := by rw [hu]

/-- A later record of an attempt, which keeps the first stamp and gets the second. -/
theorem stamped_updated (hi : r'.identity = r.identity) (hw : w ≠ .create)
    (hc : r'.createSeq = (stamps entries r.identity).1) (hpos : 0 < r'.createSeq.toNat)
    (hle : r'.createSeq.toNat ≤ seq.toNat) (hu : r'.updateSeq = seq) :
    r'.Stamped (entries ++ [(seq, .attempt w r)]) seq where
  create := by rw [hi, stamps_written, if_neg hw, hc]
  update := by rw [hi, stamps_written, hu]
  positive := hpos
  ordered := by rwa [hu]
  committed := by rw [hu]

/-- The write of a record, behind which the table holds it stamped, and of the others none under
its identity. -/
theorem stamped_write (h : ∀ q ∈ table, q.Stamped entries last) (hl : last.toNat ≤ seq.toNat)
    (hm : ∀ x ∈ table', x = r' ∨ x ∈ table ∧ x.identity ≠ r.identity)
    (hn : r'.Stamped (entries ++ [(seq, .attempt w r)]) seq) :
    ∀ x ∈ table', x.Stamped (entries ++ [(seq, .attempt w r)]) seq := by
  intro x hx
  rcases hm x hx with rfl | ⟨hx, hne⟩
  · exact hn
  · refine (h x hx).extend hl fun y hy w' r' hy' => ?_
    rw [List.mem_singleton.mp hy] at hy'
    cases hy'
    exact hne.symm

theorem stamped_upserted (hk : (table.map AttemptRecord.key).Nodup)
    (h : ∀ q ∈ table, q.Stamped entries last) (hl : last.toNat ≤ seq.toNat)
    (hi : r'.identity = r.identity) (hn : r'.Stamped (entries ++ [(seq, .attempt w r)]) seq) :
    ∀ x ∈ upsertAttempt r' table, x.Stamped (entries ++ [(seq, .attempt w r)]) seq := by
  refine stamped_write h hl (fun x hx => ?_) hn
  rcases (BoundedTable.mem_upsert_iff hk).mp hx with rfl | ⟨hx, hne⟩
  · exact .inl rfl
  · exact .inr ⟨hx, fun hc => hne (key_of_identity (hc.trans hi.symm))⟩

theorem stamped_noted {o : StoreOptions} (hk : (table.map AttemptRecord.key).Nodup)
    (h : ∀ q ∈ table, q.Stamped entries last) (hl : last.toNat ≤ seq.toNat)
    (hi : r'.identity = r.identity) (hn : r'.Stamped (entries ++ [(seq, .attempt w r)]) seq) :
    ∀ x ∈ evictAttempts o (upsertAttempt r' table),
      x.Stamped (entries ++ [(seq, .attempt w r)]) seq :=
  fun x hx => stamped_upserted hk h hl hi hn x (BoundedTable.mem_of_mem_evict hx)

end Writes

/-! ## Guarded writes -/

/-- A list of attempts that are to be aborted was taken with the stamps of the lineage. -/
def Job.Stamped (entries : List Entry) : Job → Prop
  | .fencing todo => ∀ q ∈ todo, q.createSeq = (stamps entries q.identity).1 ∧
      0 < q.createSeq.toNat ∧ q.createSeq.toNat ≤ entries.length
  | .owing _ j => j.Stamped entries
  | _ => True

theorem stamps_fst {entries : List Entry} {x : Entry} (h : ∀ r, x.2 ≠ .attempt .create r)
    (i : Identity) : (stamps (entries ++ [x]) i).1 = (stamps entries i).1 := by
  rw [stamps_append, restamp]
  split
  · rename_i w r hx
    split
    · exact if_neg fun hw => h r (by rw [hx, hw])
    · rfl
  · rfl

/-- The record of a new attempt alone moves a first stamp. -/
theorem Job.Stamped.append {entries : List Entry} {j : Job} {x : Entry} (hj : j.Stamped entries)
    (h : ∀ r, x.2 ≠ .attempt .create r) : j.Stamped (entries ++ [x]) := by
  induction j with
  | fencing todo =>
    intro q hq
    obtain ⟨hc, hpos, hle⟩ := hj q hq
    refine ⟨hc.trans (stamps_fst h _).symm, hpos, hle.trans ?_⟩
    rw [List.length_append]
    exact Nat.le_add_right _ _
  | owing r j ih => exact ih hj
  | fresh | booted | serving | granting => trivial

theorem writeOf_ne_create (phase : AttemptPhase) : writeOf phase ≠ .create := by
  cases phase <;> exact fun h => by cases h

/-- A write that keeps the stamps: every one but the second of a grant. -/
def Payload.keepsStamps : Payload → Bool
  | .attempt .update r => decide (r.phase ≠ .authorized)
  | _ => true

section Guards

variable {wire : Prop} {entries : List Entry} {o : StoreOptions} {d : DurableState} {j j' : Job}
  {p : Payload} {apply : LineageSeq → DurableState → DurableState} {seq : LineageSeq}

/-- A write that leaves the attempts alone. -/
theorem stamped_aside (h : ∀ r ∈ d.attempts, r.Stamped entries d.lastSeq)
    (hl : d.lastSeq.toNat ≤ seq.toNat) (hp : ∀ w r, p ≠ .attempt w r) :
    ∀ r ∈ d.attempts, r.Stamped (entries ++ [(seq, p)]) seq := by
  intro r hr
  refine (h r hr).extend hl fun x hx w r' hx' => ?_
  rw [List.mem_singleton.mp hx] at hx'
  exact absurd hx' (hp w r')

/-- A list that is taken from the table. -/
theorem stamped_todo (h : ∀ r ∈ d.attempts, r.Stamped entries d.lastSeq)
    (hlast : d.lastSeq.toNat = entries.length) : (Job.fencing d.attempts).Stamped entries := by
  intro q hq
  have hs := h q hq
  exact ⟨hs.create, hs.positive, hlast ▸ hs.ordered.trans hs.committed⟩

/-- One case for each kind of write. -/
theorem Writes.stamped (w : Writes wire entries o d j p apply j')
    (hseq : seq.toNat = entries.length + 1) (hlast : d.lastSeq.toNat = entries.length)
    (hk : (d.attempts.map AttemptRecord.key).Nodup) (hkeeps : p.keepsStamps = true)
    (h : ∀ r ∈ d.attempts, r.Stamped entries d.lastSeq) (hj : j.Stamped entries) :
    (∀ r ∈ (apply seq d).attempts, r.Stamped (entries ++ [(seq, p)]) seq) ∧
      j'.Stamped (entries ++ [(seq, p)]) := by
  have hl : d.lastSeq.toNat ≤ seq.toNat := by omega
  have hpos : 0 < seq.toNat := by omega
  have hnew : ∀ {r r' : AttemptRecord}, r'.identity = r.identity → r'.createSeq = seq →
      r'.updateSeq = seq → ∀ x ∈ (d.noteAttempt o r').attempts,
        x.Stamped (entries ++ [(seq, .attempt .create r)]) seq := fun hi hc hu =>
    stamped_noted hk h hl hi (stamped_created hi hc hu hpos)
  have hupdated : ∀ {q r r' : AttemptRecord} {v : AttemptWrite},
      q.createSeq = (stamps entries q.identity).1 → 0 < q.createSeq.toNat →
      q.createSeq.toNat ≤ entries.length → r.identity = q.identity →
      r.createSeq = q.createSeq → v ≠ .create →
      r'.identity = r.identity → r'.createSeq = r.createSeq → r'.updateSeq = seq →
      r'.Stamped (entries ++ [(seq, .attempt v r)]) seq := by
    intro q r r' v hq hqpos hqle hi hc hv hi' hc' hu
    refine stamped_updated hi' hv ?_ ?_ ?_ hu
    · rw [hc', hc, hq, hi]
    · rwa [hc', hc]
    · rw [hc', hc]
      omega
  have hcontinued : ∀ {q r : AttemptRecord} {v : AttemptWrite}, q ∈ d.attempts →
      Continues d q v r → ∀ x ∈ (d.noteAttempt o (Engine.updatedAt r seq)).attempts,
        x.Stamped (entries ++ [(seq, .attempt v r)]) seq := by
    intro q r v hq hc
    have hs := h q hq
    exact stamped_noted hk h hl rfl (hupdated hs.create hs.positive
      (hlast ▸ hs.ordered.trans hs.committed) hc.identity hc.createSeq
      (hc.write ▸ writeOf_ne_create _) rfl rfl rfl)
  cases w with
  | boot => exact ⟨stamped_aside h hl (by simp), trivial⟩
  | @interrupt r hr ht =>
    have hs := h r hr
    have hstamped : ({ LineageStore.interrupt r with updateSeq := seq } : AttemptRecord).Stamped
        (entries ++ [(seq, .attempt .update (LineageStore.interrupt r))]) seq :=
      hupdated hs.create hs.positive (hlast ▸ hs.ordered.trans hs.committed) rfl rfl
        (by simp) rfl rfl rfl
    exact ⟨stamped_upserted hk h hl rfl hstamped, trivial⟩
  | fence => exact ⟨stamped_aside h hl (by simp), Job.Stamped.append hj (by simp)⟩
  | record => exact ⟨hnew rfl rfl rfl, trivial⟩
  | grant => exact ⟨hnew rfl rfl rfl, trivial⟩
  | authorize a => cases hkeeps
  | carry hq hc => exact ⟨hcontinued hq hc, trivial⟩
  | rollback hq hc => exact ⟨hcontinued hq hc, trivial⟩
  | abort hq known holds hp hc =>
    obtain ⟨hcreate, hqpos, hqle⟩ := hj _ hq
    exact ⟨stamped_noted hk h hl rfl (hupdated hcreate hqpos hqle hc.identity hc.createSeq
      (by simp) rfl rfl rfl), Job.Stamped.append hj (by simp)⟩
  | policy | topology =>
    refine ⟨stamped_aside h hl (by simp), ?_⟩
    exact Job.Stamped.append (stamped_todo h hlast) (by simp)
  | decision | idempotency | checkpoint | shutdown =>
    exact ⟨stamped_aside h hl (by simp), trivial⟩

end Guards

/-! ## Traces -/

/-- An event that leaves the stamps as they should be: no commit of a grant's second record, and no
replay of an attempt. -/
def Event.keepsStamps : Event → Bool
  | .committed _ p _ _ true => p.keepsStamps
  | .replayed _ (.attempt _ _) _ _ => false
  | _ => true

section Traces

variable {wire : Prop} {history history' : List Event} {phase : Phase} {o : StoreOptions}
  {d : DurableState} {j : Job}

/-- Later records do not matter to the stamps of a state. -/
theorem DurableState.Stamped.later (h : d.Stamped history)
    (hle : d.lastSeq.toNat ≤ (lineage history).length) (hp : history <+: history') :
    d.Stamped history' := by
  obtain ⟨events, rfl⟩ := hp
  intro r hr
  rw [lineage_append, List.take_append_of_le_length hle]
  exact h r hr

/-- At the end of the lineage the stamps are those of all of it. -/
theorem stamped_live (hlast : d.lastSeq.toNat = (lineage history).length) :
    d.Stamped history ↔ ∀ r ∈ d.attempts, r.Stamped (lineage history) d.lastSeq := by
  rw [DurableState.Stamped, hlast, List.take_length]

/-- The state in the snapshot has its stamps from the lineage up to there. -/
def SnapshotStamped (history : List Event) : Prop :=
  ∀ d, (Disk.ofHistory history).snapshot = some d →
    d.Stamped history ∧ d.lastSeq.toNat ≤ (lineage history).length

theorem SnapshotStamped.later (h : SnapshotStamped history) {events : List Event}
    (hs : (Disk.ofHistory (history ++ events)).snapshot = (Disk.ofHistory history).snapshot) :
    SnapshotStamped (history ++ events) := by
  intro d hd
  rw [hs] at hd
  obtain ⟨hstamped, hle⟩ := h d hd
  refine ⟨hstamped.later hle (List.prefix_append _ _), hle.trans ?_⟩
  rw [lineage_append, List.length_append]
  exact Nat.le_add_right _ _

theorem applyRecord_attempts {seq : LineageSeq} {p : Payload} {d' : DurableState}
    (hp : ∀ w r, p ≠ .attempt w r) (h : d.applyRecord o (p.record seq) = .ok d') :
    d'.attempts = d.attempts := by
  cases p with
  | attempt w r => exact absurd rfl (hp w r)
  | fence f =>
    rw [DurableState.applyRecord_fence] at h
    split at h
    · cases h
    · cases h
      rfl
  | checkpoint | shutdown =>
    cases h
    rfl
  | boot | policy | topology | decision | idempotency =>
    dsimp only [DurableState.applyRecord, Payload.record, Payload.type] at h
    split at h
    · cases h
    · cases h
      rfl

/-- A replay that logs no attempt reads none, and leaves the table alone. -/
theorem replayRecords_attempts {rs : List Entry} {acc acc' : DurableState × List Event}
    (h : Disk.replayRecords o rs acc = .ok acc')
    (hk : ∀ e ∈ acc'.2, e.keepsStamps = true) :
    acc'.1.attempts = acc.1.attempts ∧ ∀ x ∈ rs, ∀ w r, x.2 ≠ .attempt w r := by
  induction rs using List.reverseRecOn generalizing acc' with
  | nil =>
    cases h
    exact ⟨rfl, by simp⟩
  | append_singleton rs x ih =>
    rw [replayRecords_append] at h
    cases hr : Disk.replayRecords o rs acc with
    | error e => rw [hr] at h; cases h
    | ok mid =>
      rw [hr, ok_bind] at h
      obtain ⟨happly, hevents⟩ := replayRecord_eq_ok h
      rw [hevents] at hk
      obtain ⟨hsame, hnone⟩ := ih hr fun e he => hk e (List.mem_append_left _ he)
      have hx : ∀ w r, x.2 ≠ .attempt w r := by
        intro w r hx
        have hlogged : (Payload.attempt w r).Logged := trivial
        have hdecodes : (Payload.attempt w r).Decodes := trivial
        rw [hx] at happly hk
        rw [replayEvents_logged hlogged hdecodes (DurableState.applyRecord_declared happly)] at hk
        have := hk _ (List.mem_append_right _ List.mem_cons_self)
        cases this
      refine ⟨(applyRecord_attempts hx happly).trans hsame, fun y hy => ?_⟩
      rcases List.mem_append.mp hy with hy | hy
      · exact hnone y hy
      · rw [List.mem_singleton.mp hy]
        exact hx

/-- The stamps of the state and of the snapshot, by induction on the trace. -/
theorem Trace.stamped (h : Trace wire history phase)
    (hk : ∀ e ∈ history, e.keepsStamps = true) :
    SnapshotStamped history ∧ ∀ o d j, phase = .live o d j →
      d.Stamped history ∧ j.Stamped (lineage history) := by
  induction h with
  | empty => exact ⟨by rintro d ⟨⟩, by simp⟩
  | @opened history o d events h valid base replay ih =>
    obtain ⟨hsnapshot, -⟩ := ih fun e he => hk e (List.mem_append_left _ he)
    have hdisk := ofHistory_opened replay
    have hl := lineage_opened replay
    refine ⟨hsnapshot.later (by rw [hdisk]), ?_⟩
    rintro o' d' j' ⟨⟩
    refine ⟨?_, trivial⟩
    obtain ⟨hsame, hnone⟩ := replayRecords_attempts replay fun e he =>
      hk e (List.mem_append_right _ (List.mem_cons_of_mem _ he))
    obtain ⟨before, hsuffix, hbase⟩ := h.numbered.1.suffix
    have hlast := h.numbered.1.last
    refine (stamped_live (by rw [hl]; exact hlast)).mpr fun r hr => ?_
    rw [hl, hsuffix]
    change r ∈ d.attempts at hr
    rw [hsame] at hr
    cases hs : (Disk.ofHistory history).snapshot with
    | none =>
      rw [Disk.start, hs] at hr
      cases hr
    | some d₀ =>
      obtain ⟨hstamped, -⟩ := hsnapshot d₀ hs
      have hcovered : before.length = d₀.lastSeq.toNat := by
        rw [hbase, base, Disk.covered, hs]
        rfl
      rw [Disk.start, hs] at hr
      have hr := hstamped r hr
      rw [hsuffix, ← hcovered, List.take_left] at hr
      refine hr.extend ?_ fun x hx w r' hx' => absurd hx' (hnone x hx w r')
      change _ ≤ (Disk.ofHistory history).last.toNat
      rw [hlast, hsuffix, List.length_append, hcovered]
      exact Nat.le_add_right _ _
  | @committed history o d j j' p apply seq h w next ih =>
    obtain ⟨hsnapshot, hlive⟩ := ih fun e he => hk e (List.mem_append_left _ he)
    obtain ⟨hstamped, hj⟩ := hlive _ _ _ rfl
    have hlast : d.lastSeq.toNat = (lineage history).length := by
      rw [h.numbered.2 _ _ _ rfl]
      exact h.numbered.1.last
    have hseq : seq.toNat = (lineage history).length + 1 := by
      rw [StrongUint.next_toNat next, hlast]
    have hkeeps : p.keepsStamps = true := hk _ (List.mem_append_right _ List.mem_cons_self)
    obtain ⟨hnew, hj'⟩ := w.stamped hseq hlast h.stateOk.keys hkeeps
      ((stamped_live hlast).mp hstamped) hj
    refine ⟨hsnapshot.later (by rw [Disk.ofHistory_append]; rfl), ?_⟩
    rintro o' d' j'' ⟨⟩
    rw [lineage_append, lineage_committed]
    refine ⟨?_, hj'⟩
    refine (stamped_live ?_).mpr ?_
    · rw [lineage_append, lineage_committed, List.length_append]
      exact hseq
    · rw [lineage_append, lineage_committed]
      exact hnew
  | lost h w next ih =>
    obtain ⟨hsnapshot, -⟩ := ih fun e he => hk e (List.mem_append_left _ he)
    exact ⟨hsnapshot.later (by rw [Disk.ofHistory_append]; rfl), by simp⟩
  | booted h _ ih | fenced h _ ih =>
    refine ⟨(ih hk).1, ?_⟩
    rintro o d j ⟨⟩
    exact ⟨((ih hk).2 _ _ _ rfl).1, trivial⟩
  | stopped h ih => exact ⟨(ih hk).1, by simp⟩
  | @rotated history o d h ih | @replaced history o d h ih =>
    obtain ⟨hsnapshot, hlive⟩ := ih fun e he => hk e (List.mem_append_left _ he)
    obtain ⟨hstamped, -⟩ := hlive _ _ _ rfl
    have hlast : d.lastSeq.toNat = (lineage history).length := by
      rw [h.numbered.2 _ _ _ rfl]
      exact h.numbered.1.last
    have hkept := fun b => hstamped.later hlast.le (List.prefix_append history [.checkpointed d b])
    refine ⟨?_, ?_⟩
    · intro d' hd
      rw [Disk.ofHistory_append] at hd
      cases hd
      refine ⟨hkept _, hlast.le.trans ?_⟩
      rw [lineage_append, List.length_append]
      exact Nat.le_add_right _ _
    · rintro o' d' j' hp
      cases hp <;> exact ⟨hkept _, trivial⟩

end Traces

/-! ## Runs -/

/-- The state of a store is one that a process came to at the end of its trace. After a failure the
history may have gone on without it. -/
def LineageStore.Lived (wire : Prop) (s : LineageStore) : Prop :=
  ∃ history o j, history <+: s.medium.history ∧ Trace wire history (.live o s.state j)

section Lives

variable {wire : Prop}

theorem commit_stays {s : LineageStore} {p : Payload}
    {apply : LineageSeq → DurableState → DurableState}
    (hf : (s.commit p apply).1.failed = true) : (s.commit p apply).1.state = s.state := by
  cases hok : (s.commit p apply).2.isOk with
  | false => exact (commit_not_ok hok).2.1
  | true =>
    rw [(commit_ok hok).2.1] at hf
    cases hf

/-- A step that ends in a failure leaves the state alone. -/
theorem Step.stays {x y : LineageStore × Job} (h : Step wire x y) (hf : y.1.failed = true) :
    y.1.state = x.1.state := by
  cases h with
  | write => exact commit_stays hf
  | checkpoint s =>
    have ho := s.checkpoint_outcome
    revert ho hf
    dsimp only
    generalize s.checkpoint.1 = s'
    intro hf ho
    cases ho with
    | unchanged state | broken _ _ _ state => exact state
    | rotated c _ _ state => exact (commit_stays hf).trans state
  | booted | fenced | failed => rfl

theorem lived_of_trace {s : LineageStore} {j : Job} (hf : s.failed = false)
    (ht : Trace wire s.medium.history (s.phase j)) : s.Lived wire := by
  rw [LineageStore.phase_live hf] at ht
  exact ⟨_, _, _, List.prefix_rfl, ht⟩

theorem Step.lived {x y : LineageStore × Job} (h : Step wire x y)
    (ht : Trace wire x.1.medium.history (x.1.phase x.2)) (hl : x.1.Lived wire) :
    y.1.Lived wire := by
  cases hf : y.1.failed with
  | false => exact lived_of_trace hf (h.trace ht)
  | true =>
    obtain ⟨history, o, j, hp, hlive⟩ := hl
    rw [← h.stays hf] at hlive
    exact ⟨history, o, j, hp.trans h.history, hlive⟩

theorem Path.lived {x y : LineageStore × Job} (h : Path wire x y)
    (ht : Trace wire x.1.medium.history (x.1.phase x.2)) (hl : x.1.Lived wire) :
    y.1.Lived wire := by
  induction h with
  | refl => exact hl
  | tail hpath hstep ih => exact hstep.lived (Path.trace hpath ht) ih

end Lives

/-- What an engine that is not closed has in memory is what its process came to, also behind a
failure. -/
theorem System.run_lived {actions : List Action} {e : Engine} (h : run actions = .up e)
    (hopen : e.closed = false) : e.store.Lived False := by
  induction actions using List.reverseRecOn generalizing e with
  | nil => cases h
  | append_singleton actions a ih =>
    have hok := @run_ok False actions False.elim
    rw [run_append] at h
    cases hrun : run actions with
    | down m =>
      rw [hrun] at h hok
      cases a with
      | start b =>
        have hm : MediumOk False (b.medium m) := ⟨hok.trace, hok.represents⟩
        have ho := (@openEngine_outcome False b.options b.incarnation b.build _ hm).2
        rw [step, Boot.open] at h
        revert h ho
        generalize Engine.openEngine b.options b.incarnation b.build (b.medium m) = result
        obtain ⟨m', r⟩ := result
        intro h ho
        cases r with
        | error _ => cases h
        | ok e' =>
          cases h
          obtain ⟨hok', hf, -⟩ := ho e rfl
          exact lived_of_trace hf hok'.trace
      | perform | kill => cases h
    | up e' =>
      rw [hrun] at h hok
      have hok : EngineOk False e' := hok
      cases a with
      | perform op =>
        cases h
        obtain ⟨s, hpath, ⟨hs, hclosed⟩ | ⟨-, -, -, hclosed⟩⟩ :=
          perform_path hok op False.elim
        · rw [hs]
          exact Path.lived hpath hok.trace (ih hrun (hclosed.symm.trans hopen))
        · rw [hclosed] at hopen
          cases hopen
      | start =>
        cases h
        exact ih hrun hopen
      | kill => cases h

/-- Every retained attempt carries the positions of its first and of its last record. -/
def Engine.Stamped (e : Engine) : Prop := e.state.Stamped e.store.medium.history

/-- The stamps are right in every state of a run in which no grant gets to its second record and no
start replays an attempt. -/
theorem stamps_kept {actions : List Action} {e : Engine} (he : System.run actions = .up e)
    (hk : ∀ x ∈ e.store.medium.history, x.keepsStamps = true) : e.Stamped := by
  cases hopen : e.closed with
  | true =>
    have hshut : e.state = {} := (Reachable.ok ⟨actions, he⟩).shut hopen
    rw [Engine.Stamped, hshut]
    intro r hr
    cases hr
  | false =>
    obtain ⟨history, o, j, hp, hlive⟩ := System.run_lived he hopen
    obtain ⟨hstamped, -⟩ := (hlive.stamped fun x hx => hk x (hp.subset hx)).2 _ _ _ rfl
    refine hstamped.later ?_ hp
    rw [hlive.numbered.2 _ _ _ rfl]
    exact hlive.numbered.1.last.le

/-- A failover is granted, and its attempt is retained as if no record had created it. -/
theorem grant_unstamped : ¬∀ actions e, System.run actions = .up e → e.Stamped := by
  intro hall
  obtain ⟨e, he, hp⟩ := @System.of_serves
    (System.run (Sample.booted {} {} ++ [.perform (.requestFailover (Sample.request ⟨1⟩))]))
    (fun e : Engine => e.state.attempts.any fun r => decide (r.createSeq = .zero))
    (by decide +kernel)
  obtain ⟨r, hr, hzero⟩ := List.any_eq_true.mp hp
  have hpos := (hall _ e he r hr).positive
  rw [of_decide_eq_true hzero] at hpos
  cases hpos

/-- A failover that no alternate could be found for, in a process and in the next one, behind a
checkpoint. -/
theorem stamps_kept_sample : ∃ actions e, System.run actions = .up e ∧ e.Stamped ∧
    e.state.attempts ≠ [] ∧ e.epoch = ⟨2⟩ := by
  obtain ⟨e, he, hp⟩ := @System.of_reboot
    [.start { options := Sample.options {} {}, incarnation := Sample.incarnation 1 },
      .perform (Sample.down ⟨1⟩ ⟨1⟩ 1),
      .perform (.requestFailover (Sample.request ⟨1⟩)),
      .perform .checkpoint] [] Sample.again
    (fun e : Engine => e.store.medium.history.all Event.keepsStamps &&
      (!e.state.attempts.isEmpty && decide (e.epoch = ⟨2⟩))) (by decide +kernel)
  simp only [Bool.and_eq_true, List.all_eq_true, Bool.not_eq_true', decide_eq_true_eq] at hp
  exact ⟨_, e, he, stamps_kept he hp.1, List.isEmpty_eq_false_iff.mp hp.2.1, hp.2.2⟩

end LinkFailover
