import LinkFailover.Lineage

/-!
# Laws of the lineage

What a law says of a lineage and of the state behind it is preserved by every guarded write and
by every replay, whatever the limits of the process that replays. A law may depend on a rule for
the writes of the attempt table; then it holds of the traces whose table writes obey the rule.

* `Effect`: what a record does to a state, live or replayed.
* `LineageLaw.holds`: a law holds of every trace whose table writes obey its rule.
-/

namespace LinkFailover

open Codec

/-! ## What a record does -/

/-- A record takes the place of the one with its key, and the table is evicted or not. -/
def Upserted (r : AttemptRecord) (before after : List AttemptRecord) : Prop :=
  (∃ o, after = evictAttempts o (upsertAttempt r before)) ∨ after = upsertAttempt r before

section Upserted

variable {r q : AttemptRecord} {before after : List AttemptRecord}

theorem Upserted.nodup (h : Upserted r before after) (hn : (before.map AttemptRecord.key).Nodup) :
    (after.map AttemptRecord.key).Nodup := by
  rcases h with ⟨o, rfl⟩ | rfl
  · exact BoundedTable.evict_nodup (BoundedTable.upsert_nodup hn)
  · exact BoundedTable.upsert_nodup hn

theorem Upserted.of_mem (h : Upserted r before after)
    (hn : (before.map AttemptRecord.key).Nodup) (hq : q ∈ after) :
    q = r ∨ q ∈ before ∧ q.key ≠ r.key := by
  rcases h with ⟨o, rfl⟩ | rfl
  · exact (BoundedTable.mem_upsert_iff hn).mp (BoundedTable.mem_of_mem_evict hq)
  · exact (BoundedTable.mem_upsert_iff hn).mp hq

theorem Upserted.mem (h : Upserted r before after) (hq : q ∈ after) : q = r ∨ q ∈ before := by
  rcases h with ⟨o, rfl⟩ | rfl
  · exact BoundedTable.mem_of_mem_upsert (BoundedTable.mem_of_mem_evict hq)
  · exact BoundedTable.mem_of_mem_upsert hq

theorem Upserted.mem_self (h : Upserted r before after) (ht : r.isTerminal = false) :
    r ∈ after := by
  rcases h with ⟨o, rfl⟩ | rfl
  · exact BoundedTable.mem_evict_of_not_done BoundedTable.mem_upsert_self ht
  · exact BoundedTable.mem_upsert_self

end Upserted

/-- What a record does to a state, up to the count of records and the last position. -/
inductive Effect (seq : LineageSeq) (d : DurableState) : Payload → DurableState → Prop
  | boot (p : BootPayload) : Effect seq d (.boot p) (d.noteEpoch p)
  | policy (p : FailoverPolicy) : Effect seq d (.policy p) { d with policy := p }
  | topology (t : TopologySnapshot) : Effect seq d (.topology t) { d with topology := t }
  | attempt {w : AttemptWrite} {r r' : AttemptRecord} {table : List AttemptRecord}
      (upserted : Upserted r' d.attempts table) (same : r'.unstamped = r.unstamped)
      (created : r'.createSeq = seq ∨ r'.createSeq = r.createSeq) :
      Effect seq d (.attempt w r) { d with attempts := table }
  | fence (o : StoreOptions) (f : FenceRecord) :
      Effect seq d (.fence f) (d.noteFence o { f with seq := seq })
  | idempotency (o : StoreOptions) (e : IdempotencyEntry) :
      Effect seq d (.idempotency e) (d.noteIdempotency o e)
  | decision (c : FailoverDecision) : Effect seq d (.decision c) d
  | checkpoint (c : CheckpointPayload) : Effect seq d (.checkpoint c) d
  | shutdown (s : ShutdownPayload) : Effect seq d (.shutdown s) d

theorem Writes.effect {wire : Prop} {entries : List Entry} {o : StoreOptions} {d : DurableState}
    {j j' : Job} {p : Payload} {apply : LineageSeq → DurableState → DurableState}
    (w : Writes wire entries o d j p apply j') (seq : LineageSeq) :
    Effect seq d p (apply seq d) := by
  cases w with
  | boot => exact .boot _
  | interrupt => exact .attempt (.inr rfl) rfl (.inr rfl)
  | @fence _ _ f => exact .fence o f
  | record | grant => exact .attempt (.inl ⟨o, rfl⟩) rfl (.inl rfl)
  | authorize | carry | rollback | abort => exact .attempt (.inl ⟨o, rfl⟩) rfl (.inr rfl)
  | policy => exact .policy _
  | topology => exact .topology _
  | decision => exact .decision _
  | idempotency => exact .idempotency o _
  | checkpoint => exact .checkpoint _
  | shutdown => exact .shutdown _

theorem Writes.decodes {wire : Prop} {entries : List Entry} {o : StoreOptions} {d : DurableState}
    {j j' : Job} {p : Payload} {apply : LineageSeq → DurableState → DurableState}
    (w : Writes wire entries o d j p apply j') : p.Decodes := by
  cases w with
  | topology h => exact TopologySnapshot.length_of_validate h
  | idempotency h => exact h
  | _ => trivial

theorem applyRecord_effect {o : StoreOptions} {d d' : DurableState} {seq : LineageSeq}
    {p : Payload} (hp : p.Decodes) (h : d.applyRecord o (p.record seq) = .ok d') :
    Effect seq d p d' := by
  cases p with
  | boot p =>
    rw [DurableState.applyRecord_boot] at h
    cases h
    exact .boot p
  | policy p =>
    rw [DurableState.applyRecord_policy (DurableState.applyRecord_declared h)] at h
    cases h
    exact .policy p
  | topology t =>
    rw [DurableState.applyRecord_topology hp] at h
    cases h
    exact .topology t
  | attempt w r =>
    rw [DurableState.applyRecord_attempt w (DurableState.applyRecord_declared h)] at h
    cases hc : DurableState.checkAttempt w.type seq r with
    | error e => rw [hc] at h; cases h
    | ok _ =>
      rw [hc] at h
      cases h
      exact .attempt (.inl ⟨o, rfl⟩) rfl (.inr rfl)
  | fence f =>
    rw [DurableState.applyRecord_fence] at h
    split at h
    · cases h
    · rename_i hs
      cases h
      have := @Effect.fence seq d o f
      rwa [← not_not.mp hs] at this ⊢
  | decision c =>
    unfold DurableState.applyRecord at h
    simp only [Payload.record, Payload.type] at h
    split at h
    · cases h
    · cases h
      exact .decision c
  | idempotency e =>
    rw [DurableState.applyRecord_idempotency hp] at h
    cases h
    exact .idempotency o e
  | checkpoint c =>
    cases h
    exact .checkpoint c
  | shutdown s =>
    cases h
    exact .shutdown s

/-! ## Laws -/

/-- A rule for what the writes of the attempt table and of the idempotency index do, live or
replayed. -/
abbrev TableRule := Payload → DurableState → DurableState → Prop

/-- A write of a table obeys a rule. A record whose commit was reported as failed has not
written the table. -/
def Event.Obeys (rule : TableRule) : Event → Prop
  | .committed _ p before after true => rule p before after
  | .replayed _ p before after => rule p before after
  | _ => True

/-- What it takes for a law to hold of every trace. `State` relates the lineage and the state
behind it, live or replayed, `Legit` is what the guards say about a record in terms of the
lineage before it, and `Live` is what holds only in a process that can write. -/
structure LineageLaw (wire : Prop) (rule : TableRule) (State : List Entry → DurableState → Prop)
    (Legit : List Entry → Entry → Prop)
    (Live : List Entry → StoreOptions → DurableState → Job → Prop) : Prop where
  start : ∀ {o : StoreOptions}, o.Valid →
    State [] { fabric := o.fabric, policy := o.policy, topology := o.topology }
  positions : ∀ {entries d}, State entries d →
    ∀ seq n, State entries { d with lastSeq := seq, recordCount := n }
  effect : ∀ {entries d seq p d'}, State entries d → Legit entries (seq, p) →
    seq.toNat = entries.length + 1 → Effect seq d p d' →
    (p.Logged → rule p d d') → State (entries ++ [(seq, p)]) d'
  opened : ∀ {entries o d}, State entries d → Live entries o d .fresh
  guard : ∀ {history o d j p apply j' seq}, Trace wire history (.live o d j) →
    State (lineage history) d → Live (lineage history) o d j →
    Writes wire (lineage history) o d j p apply j' → d.lastSeq.next = some seq →
    Legit (lineage history) (seq, p)
  live : ∀ {history o d j p apply j' seq}, Trace wire history (.live o d j) →
    State (lineage history) d → Live (lineage history) o d j →
    Writes wire (lineage history) o d j p apply j' → d.lastSeq.next = some seq →
    rule p d (LineageStore.applied apply seq d) →
    Live (lineage history ++ [(seq, p)]) o (LineageStore.applied apply seq d) j'
  booted : ∀ {entries o d}, State entries d → Live entries o d .booted →
    (∀ q ∈ d.attempts, q.isTerminal = true) → Live entries o d .serving
  fenced : ∀ {entries o d todo}, State entries d → Live entries o d (.fencing todo) →
    (∀ q ∈ d.attempts, attemptPhaseHoldsAuthority q.phase = false) → Live entries o d .serving
  local_rule : ∀ {p d d' seq n}, rule p d { d' with lastSeq := seq, recordCount := n } →
    rule p d d'

/-- What a law says of a history and of the process behind it. -/
structure Lawful (State : List Entry → DurableState → Prop) (Legit : List Entry → Entry → Prop)
    (Live : List Entry → StoreOptions → DurableState → Job → Prop) (history : List Event)
    (phase : Phase) : Prop where
  entries : ∀ before x after, lineage history = before ++ x :: after →
    Legit before x ∧ x.2.Decodes
  disk : (Disk.ofHistory history).base = (Disk.ofHistory history).covered →
    ∀ before, lineage history = before ++ (Disk.ofHistory history).records →
    ∀ o : StoreOptions, o.Valid → State before ((Disk.ofHistory history).start o)
  live : ∀ o d j, phase = .live o d j →
    State (lineage history) d ∧ Live (lineage history) o d j

section Laws

variable {wire : Prop} {rule : TableRule} {State : List Entry → DurableState → Prop}
  {Legit : List Entry → Entry → Prop}
  {Live : List Entry → StoreOptions → DurableState → Job → Prop}

/-- A replay preserves a law record by record. -/
theorem LineageLaw.replay (law : LineageLaw wire rule State Legit Live) {o : StoreOptions}
    {before rs : List Entry} {acc acc' : DurableState × List Event} (hs : State before acc.1)
    (hrs : ∀ A x B, rs = A ++ x :: B →
      Legit (before ++ A) x ∧ x.2.Decodes ∧ x.1.toNat = (before ++ A).length + 1)
    (h : Disk.replayRecords o rs acc = .ok acc') (hrule : ∀ e ∈ acc'.2, e.Obeys rule) :
    State (before ++ rs) acc'.1 := by
  induction rs using List.reverseRecOn generalizing acc' with
  | nil =>
    cases h
    rwa [List.append_nil]
  | append_singleton rs r ih =>
    rw [replayRecords_append] at h
    cases hr : Disk.replayRecords o rs acc with
    | error e => rw [hr] at h; cases h
    | ok mid =>
      rw [hr, ok_bind] at h
      obtain ⟨happly, hevents⟩ := replayRecord_eq_ok h
      rw [hevents] at hrule
      have hmid := ih (fun A x B he => hrs A x (B ++ [r]) (by rw [he]; simp)) hr
        fun e he => hrule e (List.mem_append_left _ he)
      obtain ⟨hlegit, hdecodes, hseq⟩ := hrs rs r [] rfl
      rw [← List.append_assoc]
      refine law.effect hmid hlegit hseq (applyRecord_effect hdecodes happly) ?_
      intro hlogged
      rw [replayEvents_logged hlogged hdecodes (DurableState.applyRecord_declared happly)] at hrule
      exact hrule _ (List.mem_append_right _ (List.mem_singleton_self _))

/-- One more record in the lineage. -/
theorem entries_append {p : List Entry → Entry → Prop} {entries : List Entry} {r : Entry}
    (h : ∀ before x after, entries = before ++ x :: after → p before x) (hr : p entries r) :
    ∀ before x after, entries ++ [r] = before ++ x :: after → p before x := by
  intro A x B he
  rcases List.eq_nil_or_concat B with rfl | ⟨B', y, rfl⟩
  · obtain ⟨rfl, hx⟩ := List.append_inj' he rfl
    cases hx
    exact hr
  · rw [List.concat_eq_append, ← List.cons_append, ← List.append_assoc] at he
    exact h A x B' (List.append_inj' he rfl).1

/-- A law holds of every trace whose table writes obey its rule. -/
theorem LineageLaw.holds (law : LineageLaw wire rule State Legit Live) {history : List Event}
    {phase : Phase} (h : Trace wire history phase) (hrule : ∀ e ∈ history, e.Obeys rule) :
    Lawful State Legit Live history phase := by
  induction h with
  | empty =>
    refine ⟨by simp [lineage], fun _ before hb o ho => ?_, by simp⟩
    obtain rfl : before = [] := (List.append_eq_nil_iff.mp hb.symm).1
    exact law.start ho
  | @opened history o d events h valid base replay ih =>
    have hl := ih fun e he => hrule e (List.mem_append_left _ he)
    obtain ⟨⟨before, hsuffix, -⟩, hpos⟩ := h.numbered.1
    have hstate : State (lineage history) d := by
      rw [hsuffix]
      refine law.replay (hl.disk base before hsuffix o valid) ?_ replay fun e he => hrule e ?_
      · intro A x B he
        rw [he, ← List.append_assoc] at hsuffix
        obtain ⟨h1, h2⟩ := hl.entries _ x B hsuffix
        exact ⟨h1, h2, hpos _ x B hsuffix⟩
      · exact List.mem_append_right _ (List.mem_cons_of_mem _ he)
    rw [← lineage_opened replay] at hstate
    refine ⟨?_, ?_, ?_⟩
    · rw [lineage_opened replay]
      exact hl.entries
    · rw [lineage_opened replay, ofHistory_opened replay]
      exact hl.disk
    · rintro o' d' j' ⟨⟩
      have hd := law.positions hstate (Disk.ofHistory history).last d.recordCount
      exact ⟨hd, law.opened hd⟩
  | @committed history o d j j' p apply seq h w next ih =>
    have hl := ih fun e he => hrule e (List.mem_append_left _ he)
    obtain ⟨hstate, hlive⟩ := hl.live _ _ _ rfl
    have hn := h.numbered
    have hseq : seq.toNat = (lineage history).length + 1 := by
      rw [StrongUint.next_toNat next, hn.2 _ _ _ rfl, hn.1.last]
    have hlegit := law.guard h hstate hlive w next
    have hr : rule p d (LineageStore.applied apply seq d) :=
      hrule _ (List.mem_append_right _ (List.mem_singleton_self _))
    refine ⟨?_, ?_, ?_⟩
    · rw [lineage_append, lineage_committed]
      exact entries_append hl.entries ⟨hlegit, w.decodes⟩
    · intro hb before hbefore
      rw [Disk.ofHistory_append] at hb ⊢
      rw [Disk.ofHistory_append, lineage_append, lineage_committed] at hbefore
      refine hl.disk hb before ?_
      change _ = before ++ ((Disk.ofHistory history).records ++ [(seq, p)]) at hbefore
      rw [← List.append_assoc] at hbefore
      exact (List.append_inj' hbefore rfl).1
    · rintro o' d' j'' ⟨⟩
      rw [lineage_append, lineage_committed]
      exact ⟨law.positions (law.effect hstate hlegit hseq (w.effect seq)
          fun _ => law.local_rule hr) _ _,
        law.live h hstate hlive w next hr⟩
  | @lost history o d j j' p apply seq h w next ih =>
    have hl := ih fun e he => hrule e (List.mem_append_left _ he)
    obtain ⟨hstate, hlive⟩ := hl.live _ _ _ rfl
    refine ⟨?_, ?_, by simp⟩
    · rw [lineage_append, lineage_committed]
      exact entries_append hl.entries ⟨law.guard h hstate hlive w next, w.decodes⟩
    · intro hb before hbefore
      rw [Disk.ofHistory_append] at hb ⊢
      rw [Disk.ofHistory_append, lineage_append, lineage_committed] at hbefore
      refine hl.disk hb before ?_
      change _ = before ++ ((Disk.ofHistory history).records ++ [(seq, p)]) at hbefore
      rw [← List.append_assoc] at hbefore
      exact (List.append_inj' hbefore rfl).1
  | booted h terminal ih =>
    have hl := ih hrule
    refine ⟨hl.entries, hl.disk, ?_⟩
    rintro o d j ⟨⟩
    obtain ⟨hstate, hlive⟩ := hl.live _ _ _ rfl
    exact ⟨hstate, law.booted hstate hlive terminal⟩
  | fenced h done ih =>
    have hl := ih hrule
    refine ⟨hl.entries, hl.disk, ?_⟩
    rintro o d j ⟨⟩
    obtain ⟨hstate, hlive⟩ := hl.live _ _ _ rfl
    exact ⟨hstate, law.fenced hstate hlive done⟩
  | @rotated history o d h ih =>
    have hl := ih fun e he => hrule e (List.mem_append_left _ he)
    obtain ⟨hstate, hlive⟩ := hl.live _ _ _ rfl
    refine ⟨?_, ?_, ?_⟩
    · rw [lineage_append, lineage_checkpointed, List.append_nil]
      exact hl.entries
    · intro _ before hbefore _ _
      rw [Disk.ofHistory_append, lineage_append, lineage_checkpointed, List.append_nil] at hbefore
      rw [Disk.ofHistory_append]
      change State before d
      rw [← show lineage history = before from hbefore.trans (List.append_nil _)]
      exact hstate
    · rintro o' d' j' ⟨⟩
      rw [lineage_append, lineage_checkpointed, List.append_nil]
      exact ⟨hstate, hlive⟩
  | @replaced history o d h ih =>
    have hl := ih fun e he => hrule e (List.mem_append_left _ he)
    obtain ⟨hstate, hlive⟩ := hl.live _ _ _ rfl
    refine ⟨?_, ?_, by simp⟩
    · rw [lineage_append, lineage_checkpointed, List.append_nil]
      exact hl.entries
    · intro hb before hbefore _ _
      rw [Disk.ofHistory_append] at hb
      rw [Disk.ofHistory_append, lineage_append, lineage_checkpointed, List.append_nil] at hbefore
      rw [Disk.ofHistory_append]
      change State before d
      -- the old journal counts only when the snapshot stands where the journal begins
      obtain ⟨⟨before', hs', hb'⟩, -⟩ := h.numbered.1
      have hlast := h.numbered.1.last
      have hbase : (Disk.ofHistory history).base = d.lastSeq := hb
      have hlen : before'.length = (lineage history).length := by
        rw [hb', hbase, h.numbered.2 _ _ _ rfl, hlast]
      have hnil : (Disk.ofHistory history).records = [] := by
        rw [hs', List.length_append] at hlen
        exact List.length_eq_zero_iff.mp (by omega)
      change _ = before ++ (Disk.ofHistory history).records at hbefore
      rw [hnil, List.append_nil] at hbefore
      rw [← hbefore]
      exact hstate
  | stopped h ih =>
    have hl := ih hrule
    exact ⟨hl.entries, hl.disk, by simp⟩

end Laws

end LinkFailover
