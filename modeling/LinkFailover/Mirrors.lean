import LinkFailover.Chronicle
import LinkFailover.Readback
import LinkFailover.Reboots
import LinkFailover.Restart

/-!
# Replay and live execution

A replay and the live engine change the state by two sets of functions. They agree on every record
but one: when a boot interrupts an attempt in flight, the live table does not evict, and the replay
of that record does.

* `refold`: the replay of the records of a disk, with every fence at its own position.
* `Mirrors`: a replayed state and a live one, up to the stamps of the attempts written since the
  snapshot.
* `Trace.mirrored`: the replay leads to the state of the process.
* `replay_equals_live`: in which runs that holds, also when the last write failed.
-/

namespace LinkFailover

open Codec

/-! ## Refolding -/

/-- A payload at its position. Only a fence carries one. -/
def Payload.placed (seq : LineageSeq) : Payload → Payload
  | .fence f => .fence { f with seq := seq }
  | p => p

/-- The replay of one record, the check on the position of a fence set aside. -/
def refoldRecord (o : StoreOptions) (d : DurableState) (x : Entry) : Result DurableState :=
  d.applyRecord o ((x.2.placed x.1).record x.1)

def refold (o : StoreOptions) (rs : List Entry) (d : DurableState) : Result DurableState :=
  rs.foldlM (refoldRecord o) d

theorem refold_append (o : StoreOptions) (rs : List Entry) (x : Entry) (d : DurableState) :
    refold o (rs ++ [x]) d = (refold o rs d >>= fun d => refoldRecord o d x) := by
  rw [refold, List.foldlM_append]
  simp only [List.foldlM_cons, List.foldlM_nil, bind_pure]
  rfl

/-- What a replay accepts, it accepts with every fence at its position. -/
theorem applyRecord_placed {o : StoreOptions} {d d' : DurableState} {seq : LineageSeq}
    {p : Payload} (h : d.applyRecord o (p.record seq) = .ok d') :
    refoldRecord o d (seq, p) = .ok d' := by
  cases p with
  | fence f =>
    have hf := h
    rw [DurableState.applyRecord_fence] at hf
    split at hf
    · cases hf
    · rename_i hs
      obtain rfl := not_not.mp hs
      exact h
  | _ => exact h

theorem replayRecords_refold {o : StoreOptions} {rs : List Entry}
    {acc acc' : DurableState × List Event} (h : Disk.replayRecords o rs acc = .ok acc') :
    refold o rs acc.1 = .ok acc'.1 := by
  induction rs generalizing acc with
  | nil =>
    cases h
    rfl
  | cons r rs ih =>
    rw [Disk.replayRecords, List.foldlM_cons] at h
    cases hr : Disk.replayRecord o acc r with
    | error e => rw [hr] at h; cases h
    | ok mid =>
      rw [hr] at h
      obtain ⟨ha, -⟩ := replayRecord_eq_ok hr
      rw [refold, List.foldlM_cons, applyRecord_placed ha]
      exact ih h

/-! ## Mirrors -/

/-- A replayed record and the live one: the same but for the stamps, and those differ only when
the attempt was written behind the snapshot. -/
structure Alike (c : LineageSeq) (q' q : AttemptRecord) : Prop where
  unstamped : q'.unstamped = q.unstamped
  covered : q.updateSeq.toNat ≤ c.toNat → q' = q

/-- A replayed state and the live one, behind a snapshot up to a position. -/
structure Mirrors (c : LineageSeq) (d' d : DurableState) : Prop where
  fabric : d'.fabric = d.fabric
  policy : d'.policy = d.policy
  topology : d'.topology = d.topology
  epoch : d'.epoch = d.epoch
  coordinator : d'.coordinator = d.coordinator
  bootCount : d'.bootCount = d.bootCount
  epochAdvances : d'.epochAdvances = d.epochAdvances
  attempts : List.Forall₂ (Alike c) d'.attempts d.attempts
  fences : d'.fences = d.fences
  idempotency : d'.idempotency = d.idempotency

variable {c : LineageSeq} {o : StoreOptions} {d d' : DurableState} {seq : LineageSeq}

theorem Alike.refl (c : LineageSeq) (q : AttemptRecord) : Alike c q q := ⟨rfl, fun _ => rfl⟩

theorem Mirrors.refl (c : LineageSeq) (d : DurableState) : Mirrors c d d :=
  ⟨rfl, rfl, rfl, rfl, rfl, rfl, rfl, List.forall₂_same.mpr fun q _ => .refl c q, rfl, rfl⟩

theorem Alike.key {q' q : AttemptRecord} (h : Alike c q' q) : q.key = q'.key :=
  (key_of_unstamped h.unstamped).symm

theorem Alike.isTerminal {q' q : AttemptRecord} (h : Alike c q' q) :
    q.isTerminal = q'.isTerminal :=
  congrArg attemptPhaseIsTerminal (phase_of_unstamped h.unstamped).symm

theorem attemptLess_alike {a b a' b' : AttemptRecord} (ha : Alike c a a') (hb : Alike c b b') :
    attemptLess a' b' = attemptLess a b := by
  have hsa : a'.subject = a.subject := congrArg Prod.fst ha.key
  have hsb : b'.subject = b.subject := congrArg Prod.fst hb.key
  have hqa : a'.attemptSeq = a.attemptSeq := congrArg Prod.snd ha.key
  have hqb : b'.attemptSeq = b.attemptSeq := congrArg Prod.snd hb.key
  rw [attemptLess, attemptLess, hsa, hsb, hqa, hqb]

/-- A record that is written behind the snapshot. -/
theorem Alike.written {r r' : AttemptRecord} (h : r'.unstamped = r.unstamped)
    (hr : c.toNat < r.updateSeq.toNat) : Alike c r' r :=
  ⟨h, fun hle => by omega⟩

/-- The same write on both sides. -/
theorem Mirrors.noteAttempt (h : Mirrors c d' d) {r r' : AttemptRecord} (hr : Alike c r' r) :
    Mirrors c (d'.noteAttempt o r') (d.noteAttempt o r) :=
  { h with
    attempts := BoundedTable.forall₂_evict (fun _ _ _ _ ha hb => attemptLess_alike ha hb)
      (fun _ _ h => h.isTerminal)
      (BoundedTable.forall₂_upsert (fun _ _ h => h.key) h.attempts hr) }

/-- A write that evicts mirrors one that does not, as long as the table is within its limit. -/
theorem Mirrors.upsertAttempt (h : Mirrors c d' d) {q r r' : AttemptRecord} (hr : Alike c r' r)
    (hq : q ∈ d.attempts) (hk : q.key = r.key) (hl : d.attempts.length ≤ o.maxAttempts) :
    Mirrors c (d'.noteAttempt o r')
      { d with attempts := LinkFailover.upsertAttempt r d.attempts } := by
  have hup := BoundedTable.forall₂_upsert (fun _ _ h => h.key) h.attempts hr
  refine { h with attempts := ?_ }
  have hlen : (LinkFailover.upsertAttempt r' d'.attempts).length ≤ o.maxAttempts := by
    rw [show (LinkFailover.upsertAttempt r' d'.attempts).length = _ from hup.length_eq,
      BoundedTable.length_upsert_of_mem hq hk]
    exact hl
  change List.Forall₂ _ (evictAttempts o (LinkFailover.upsertAttempt r' d'.attempts)) _
  rw [evictAttempts, BoundedTable.evict_of_le hlen]
  exact hup

/-! ## Writes -/

/-- A boot interrupts an attempt in flight only when the table is within its limit. -/
def restartFits : WriteCondition := fun o p d =>
  match p with
  | .attempt _ r =>
    decide (r.phase ≠ .interrupted) ||
      d.attempts.all (fun q => decide (q.key ≠ r.key) || q.isTerminal) ||
      decide (d.attempts.length ≤ o.maxAttempts)
  | _ => true

/-- The replay of a record that was just written mirrors the write. -/
theorem Writes.mirrors {entries : List Entry} {j j' : Job} {p : Payload}
    {apply : LineageSeq → DurableState → DurableState} (w : Writes True entries o d j p apply j')
    (hx : EntryOk True entries (seq, p)) (hd : p.Declared) (hm : Mirrors c d' d)
    (hlt : c.toNat < seq.toNat) (hc : restartFits o p d = true) :
    ∃ d'', refoldRecord o d' (seq, p) = .ok d'' ∧
      Mirrors c d'' (LineageStore.applied apply seq d) := by
  have hattempt : ∀ {t : AttemptWrite} {r : AttemptRecord}, AttemptOk entries seq t r →
      WireEnum.Declared r.revalidation →
      refoldRecord o d' (seq, .attempt t r) = .ok (d'.noteAttempt o r) := fun ha hr => by
    refine (DurableState.applyRecord_attempt _ hr).trans ?_
    rw [ha.check]
    rfl
  cases w with
  | @boot _ _ b => exact ⟨_, DurableState.applyRecord_boot b, { hm with
      epoch := rfl, coordinator := rfl, bootCount := rfl, epochAdvances := rfl }⟩
  | @interrupt r hr ht =>
    refine ⟨_, hattempt hx hd, ?_⟩
    have hl : d.attempts.length ≤ o.maxAttempts := by
      rw [restartFits] at hc
      simp only [Bool.or_eq_true, decide_eq_true_eq] at hc
      rcases hc with (hne | hall) | hl
      · exact absurd rfl hne
      · have := List.all_eq_true.mp hall r hr
        rw [ht, Bool.or_false, decide_eq_true_eq] at this
        exact absurd rfl this
      · exact hl
    have hi : Alike c (LineageStore.interrupt r)
        { LineageStore.interrupt r with updateSeq := seq } := .written rfl hlt
    exact { hm.upsertAttempt (o := o) hi hr rfl hl with }
  | @fence _ _ f =>
    have happly : refoldRecord o d' (seq, .fence f) =
        .ok (d'.noteFence o { f with seq := seq }) := by
      change DurableState.applyRecord o d' _ = _
      exact (DurableState.applyRecord_fence _).trans (if_neg (not_not.mpr rfl))
    refine ⟨_, happly, { hm with fences := ?_ }⟩
    change evictFences o (d'.fences ++ _) = evictFences o (d.fences ++ _)
    rw [hm.fences]
  | @record r | @grant r =>
    have hr : Alike c r (Engine.createdAt r seq) := .written rfl hlt
    exact ⟨_, hattempt hx hd, { hm.noteAttempt (o := o) hr with }⟩
  | authorize a =>
    have hr : Alike c { a with phase := .authorized }
        (Engine.updatedAt { a with phase := .authorized } seq) := .written rfl hlt
    exact ⟨_, hattempt hx hd, { hm.noteAttempt (o := o) hr with }⟩
  | @carry _ r | @rollback _ r | @abort _ r =>
    have hr : Alike c r (Engine.updatedAt r seq) := .written rfl hlt
    exact ⟨_, hattempt hx hd, { hm.noteAttempt (o := o) hr with }⟩
  | @policy p => exact ⟨_, DurableState.applyRecord_policy hd, { hm with policy := rfl }⟩
  | @topology t ht =>
    exact ⟨_, DurableState.applyRecord_topology (TopologySnapshot.length_of_validate ht),
      { hm with topology := rfl }⟩
  | decision => exact ⟨_, DurableState.applyRecord_decision (hx trivial), { hm with }⟩
  | @idempotency e he =>
    refine ⟨_, DurableState.applyRecord_idempotency he, { hm with idempotency := ?_ }⟩
    change evictIdempotency o (d'.idempotency ++ _) = evictIdempotency o (d.idempotency ++ _)
    rw [hm.idempotency]
  | checkpoint => exact ⟨_, DurableState.applyRecord_checkpoint _, { hm with }⟩
  | shutdown => exact ⟨_, DurableState.applyRecord_shutdown _, { hm with }⟩

/-! ## Traces -/

/-- The replay of a disk leads to the state of the process that has it open. -/
def Mirrored (history : List Event) (o : StoreOptions) (d : DurableState) : Prop :=
  ∃ d', refold o (Disk.ofHistory history).records ((Disk.ofHistory history).start o) = .ok d' ∧
    Mirrors (Disk.ofHistory history).covered d' d

theorem writesMeet_committed {wire : Prop} {c : WriteCondition} {history : List Event} {j : Job}
    {p : Payload} {after : DurableState} (h : Trace wire history (.live o d j))
    (hc : writesMeet c none (history ++ [.committed seq p d after true]) = true) :
    writesMeet c none history = true ∧ c o p d = true := by
  rw [writesMeet_append, Bool.and_eq_true, h.options_live rfl] at hc
  exact ⟨hc.1, by simpa [writesMeet, Event.meets, Event.write?] using hc.2⟩

/-- The journal of a process that can write begins where the snapshot ends. -/
theorem Trace.live_base {wire : Prop} {history : List Event} {phase : Phase}
    (h : Trace wire history phase) {o : StoreOptions} {d : DurableState} {j : Job}
    (hp : phase = .live o d j) :
    (Disk.ofHistory history).base = (Disk.ofHistory history).covered := by
  induction h generalizing d j with
  | empty | lost | replaced | stopped => cases hp
  | opened h valid base replay =>
    rw [ofHistory_opened replay]
    exact base
  | committed h w next ih =>
    rw [Disk.ofHistory_append]
    exact ih (by cases hp; rfl)
  | booted _ _ ih | fenced _ _ ih =>
    cases hp
    exact ih rfl
  | rotated h ih => rw [Disk.ofHistory_append]; rfl

/-- The next record is behind the snapshot. -/
theorem Trace.covered_lt {wire : Prop} {history : List Event} {o : StoreOptions}
    {d : DurableState} {j : Job} (h : Trace wire history (.live o d j)) {seq : LineageSeq}
    (next : d.lastSeq.next = some seq) :
    (Disk.ofHistory history).covered.toNat < seq.toNat := by
  have hn := h.numbered
  obtain ⟨before, hl, hb⟩ := hn.1.suffix
  have hlast : (Disk.ofHistory history).last.toNat = (lineage history).length := hn.1.last
  have hle : before.length ≤ (lineage history).length := by
    rw [hl, List.length_append]
    omega
  rw [← h.live_base rfl, ← hb, StrongUint.next_toNat next, hn.2 _ _ _ rfl]
  omega

theorem Trace.mirrored {history : List Event} {phase : Phase} (h : Trace True history phase)
    (hc : writesMeet restartFits none history = true) {o : StoreOptions} {d : DurableState}
    {j : Job} (hp : phase = .live o d j) : Mirrored history o d := by
  induction h generalizing d j with
  | empty | lost | replaced | stopped => cases hp
  | @opened history o' d' events h valid base replay ih =>
    cases hp
    rw [Mirrored, ofHistory_opened replay]
    exact ⟨d', replayRecords_refold replay, { Mirrors.refl _ d' with }⟩
  | @committed history o' d₀ j₀ j' p apply seq h w next ih =>
    cases hp
    obtain ⟨hold, hfit⟩ := writesMeet_committed h hc
    obtain ⟨d', hd', hm⟩ := ih hold rfl
    have hseq : seq.toNat = (lineage history).length + 1 := by
      rw [StrongUint.next_toNat next, h.numbered.2 _ _ _ rfl, h.numbered.1.last]
    obtain ⟨hstate, hjob⟩ := h.declared.live _ _ _ rfl
    obtain ⟨d'', hd'', hm'⟩ := w.mirrors (w.entryOk h.stateOk h.liveOk hseq)
      (w.declared trivial (hstate trivial) (hjob trivial)).1 hm (h.covered_lt next) hfit
    refine ⟨d'', ?_, ?_⟩
    · rw [Disk.ofHistory_append]
      change refold o ((Disk.ofHistory history).records ++ [(seq, p)]) _ = _
      rw [refold_append]
      change (refold o _ ((Disk.ofHistory history).start o) >>= _) = _
      rw [hd']
      exact hd''
    · rw [Disk.ofHistory_append]
      exact hm'
  | booted _ _ ih | fenced _ _ ih =>
    cases hp
    exact ih hc rfl
  | @rotated history o' d₀ h ih =>
    cases hp
    rw [Mirrored, Disk.ofHistory_append]
    exact ⟨_, rfl, .refl _ _⟩

/-! ## Runs -/

/-- Two states are the same but for positions and the stamps of the attempts. -/
structure SameState (d' d : DurableState) : Prop where
  attempts : d'.attempts.map AttemptRecord.unstamped = d.attempts.map AttemptRecord.unstamped
  fences : d'.fences = d.fences
  idempotency : d'.idempotency = d.idempotency
  fabric : d'.fabric = d.fabric
  policy : d'.policy = d.policy
  topology : d'.topology = d.topology
  epoch : d'.epoch = d.epoch
  coordinator : d'.coordinator = d.coordinator

theorem map_unstamped {c : LineageSeq} {xs ys : List AttemptRecord}
    (h : List.Forall₂ (Alike c) xs ys) :
    xs.map AttemptRecord.unstamped = ys.map AttemptRecord.unstamped := by
  induction h with
  | nil => rfl
  | cons hq _ ih => rw [List.map_cons, List.map_cons, hq.unstamped, ih]

theorem Mirrors.sameState {c : LineageSeq} {d' d : DurableState} (h : Mirrors c d' d) :
    SameState d' d where
  attempts := map_unstamped h.attempts
  fences := h.fences
  idempotency := h.idempotency
  fabric := h.fabric
  policy := h.policy
  topology := h.topology
  epoch := h.epoch
  coordinator := h.coordinator

/-! ## Stores that have failed -/

/-- An event that ended well. A process makes no further event behind another one. -/
def Event.finished : Event → Bool
  | .committed _ _ _ _ false | .checkpointed _ false => false
  | _ => true

/-- The history of a process up to its last event that ended well. -/
def finished (history : List Event) : List Event :=
  if history.getLast?.all Event.finished then history else history.dropLast

theorem finished_of_all {history : List Event} (h : history.getLast?.all Event.finished = true) :
    finished history = history := if_pos h

theorem finished_concat {history : List Event} {x : Event} (h : x.finished = false) :
    finished (history ++ [x]) = history := by
  rw [finished, List.getLast?_concat, Option.all_some, h, if_neg Bool.false_ne_true,
    List.dropLast_concat]

theorem Trace.live_finished {wire : Prop} {history : List Event} {phase : Phase}
    (h : Trace wire history phase) {o : StoreOptions} {d : DurableState} {j : Job}
    (hp : phase = .live o d j) : finished history = history := by
  refine finished_of_all ?_
  induction h generalizing d j with
  | empty | lost | replaced | stopped => cases hp
  | @opened history o' d' events h valid base replay =>
    rcases List.eq_nil_or_concat events with rfl | ⟨events, x, rfl⟩
    · rw [List.getLast?_concat]
      rfl
    · have hx : x.Silent := opened_silent replay x (by simp)
      rw [List.concat_eq_append, ← List.cons_append, ← List.append_assoc, List.getLast?_concat]
      cases x <;> first | rfl | cases hx
  | committed | rotated =>
    rw [List.getLast?_concat]
    rfl
  | booted _ _ ih | fenced _ _ ih =>
    cases hp
    exact ih rfl

/-- The state of a store is the one that its process had come to when the last event ended well,
also behind a failure. -/
def LineageStore.Settled (wire : Prop) (s : LineageStore) : Prop :=
  ∃ j, Trace wire (finished s.medium.history) (.live s.options s.state j)

variable {wire : Prop} {s : LineageStore}

theorem LineageStore.Settled.of_live {j : Job} (hf : s.failed = false)
    (h : Trace wire s.medium.history (s.phase j)) : s.Settled wire := by
  rw [LineageStore.phase_live hf] at h
  refine ⟨j, ?_⟩
  rw [h.live_finished rfl]
  exact h

theorem commit_settled {j j' : Job} {p : Payload} {apply : LineageSeq → DurableState → DurableState}
    (hs : s.Settled wire) (h : Trace wire s.medium.history (s.phase j))
    (w : s.failed = false →
      Writes wire (lineage s.medium.history) s.options s.state j p apply j') :
    (s.commit p apply).1.Settled wire := by
  have hnew := h.write w
  have ho := s.commit_outcome p apply
  revert ho hnew
  generalize (s.commit p apply).1 = s'
  generalize (s.commit p apply).2 = st
  intro hnew ho
  cases ho with
  | refused ok failed state options history =>
    obtain ⟨j, ht⟩ := hs
    exact ⟨j, by rw [history, options, state]; exact ht⟩
  | lost ok before failed next fits state options history =>
    rw [LineageStore.phase_live before] at h
    refine ⟨j, ?_⟩
    rw [history, finished_concat rfl, options, state]
    exact h
  | done before failed => exact .of_live failed hnew

theorem checkpoint_settled (hs : s.Settled wire)
    (h : Trace wire s.medium.history (s.phase .serving)) : s.checkpoint.1.Settled wire := by
  have ho := s.checkpoint_outcome
  revert ho
  generalize s.checkpoint.1 = s'
  intro ho
  cases ho with
  | unchanged state options failed history =>
    obtain ⟨j, ht⟩ := hs
    exact ⟨j, by rw [history, options, state]; exact ht⟩
  | broken rotated before failed state options history =>
    rw [LineageStore.phase_live before] at h
    refine ⟨.serving, ?_⟩
    rw [history, options, state]
    cases rotated with
    | true =>
      have ht := Trace.rotated h
      rw [ht.live_finished rfl]
      exact ht
    | false =>
      rw [finished_concat rfl]
      exact h
  | @rotated s₁ c before failed state options history =>
    rw [LineageStore.phase_live before] at h
    have ht : Trace wire s₁.medium.history (s₁.phase .serving) := by
      rw [LineageStore.phase_live failed, history, state, options]
      exact .rotated h
    exact commit_settled (.of_live failed ht) ht fun _ => .checkpoint c

theorem Path.settled {x y : LineageStore × Job} (h : Path wire x y) (hs : x.1.Settled wire)
    (ht : Trace wire x.1.medium.history (x.1.phase x.2)) : y.1.Settled wire := by
  induction h with
  | refl => exact hs
  | @tail y z hpath hstep ih =>
    have hy := Path.trace hpath ht
    cases hstep with
    | write w => exact commit_settled ih hy w
    | checkpoint => exact checkpoint_settled ih hy
    | booted | fenced | failed => exact ih

theorem perform_settled {e : Engine} (h : EngineOk wire e) {op : Operation}
    (hd : wire → e.Declares op) (hs : e.closed = false → e.store.Settled wire)
    (hopen : (e.perform op).1.closed = false) : (e.perform op).1.store.Settled wire := by
  obtain ⟨s, hpath, ⟨hstore, hclosed⟩ | ⟨-, -, -, hclosed⟩⟩ := perform_path h _ hd
  · rw [hstore]
    exact hpath.settled (hs (hclosed.symm.trans hopen)) h.trace
  · rw [hclosed] at hopen
    cases hopen

/-- Until it is closed, a process shows the state that it had come to. -/
theorem System.run_settled {actions : List Action} (hw : wire → Ranged actions) {e : Engine}
    (h : run actions = .up e) (hopen : e.closed = false) : e.store.Settled wire := by
  induction actions using List.reverseRecOn generalizing e with
  | nil => cases h
  | append_singleton actions a ih =>
    have hw' : wire → Ranged actions := fun hx => (hw hx).initial (List.prefix_append _ _)
    have hdeclares := fun hx => (hw hx).declared actions
    have hok := @run_ok_of_ranged wire actions hw'
    rw [run_append] at h
    revert h hok ih hdeclares
    generalize run actions = s
    intro ih h hdeclares hok
    cases s with
    | down m =>
      cases a with
      | start b =>
        have hm : MediumOk wire (b.medium m) := ⟨hok.trace, hok.represents⟩
        have ho := (@openEngine_outcome wire b.options b.incarnation b.build _ hm).2
        rw [step, Boot.open] at h
        revert h ho
        generalize Engine.openEngine b.options b.incarnation b.build (b.medium m) = result
        obtain ⟨m', r⟩ := result
        intro h ho
        cases r with
        | error _ => cases h
        | ok e' =>
          cases h
          obtain ⟨hok', hf, -⟩ := ho e rfl
          exact .of_live hf hok'.trace
      | perform | kill => cases h
    | up e₀ =>
      cases a with
      | perform op =>
        cases h
        exact perform_settled hok (fun hx => hdeclares hx op e₀ List.prefix_rfl rfl) (ih hw' rfl)
          hopen
      | kill => cases h
      | start =>
        cases h
        exact ih hw' rfl hopen

/-- The replay of the records behind the last snapshot gives the state that the process holds until
it is closed, in every run whose boots interrupt attempts only within the limit of the table and
whose engines retain, install and take nothing that a decoder would refuse: neither a report of a
replacement with too high a confidence or an undeclared state, nor a policy with an undeclared rule,
nor an undeclared verdict. -/
theorem replay_equals_live {actions : List Action} (hw : Ranged actions) {e : Engine}
    (h : System.run actions = .up e) (hopen : e.closed = false)
    (hc : writesMeet restartFits none e.store.medium.history = true) :
    ∃ d, refold e.store.options (Disk.ofHistory (finished e.store.medium.history)).records
        ((Disk.ofHistory (finished e.store.medium.history)).start e.store.options) = .ok d ∧
      SameState d e.state := by
  obtain ⟨j, ht⟩ := System.run_settled (fun _ : True => hw) h hopen
  have hc' : writesMeet restartFits none (finished e.store.medium.history) = true := by
    have hbegins : finished e.store.medium.history <+: e.store.medium.history := by
      unfold finished
      split
      · exact List.prefix_rfl
      · exact List.dropLast_prefix _
    obtain ⟨rest, hrest⟩ := hbegins
    rw [← hrest, writesMeet_append, Bool.and_eq_true] at hc
    exact hc.1
  obtain ⟨d, hd, hm⟩ := ht.mirrored hc' rfl
  exact ⟨d, hd, hm.sameState⟩

/-- A fabric whose primary link is down is asked for a replacement. -/
def Sample.askedUnder (limits : EngineLimits) : List Action :=
  booted {} limits ++ [.perform (.requestFailover (request ⟨1⟩))]

/-- The fabric is booted again. -/
def Sample.rebooted (limits : EngineLimits) : List Action :=
  askedUnder limits ++ [.kill, .start { options := options {} limits, incarnation := incarnation 2 }]

theorem Sample.rebooted_decoded (limits : EngineLimits) : Decoded (Sample.rebooted limits) := by
  intro op hm
  simp only [rebooted, askedUnder, booted, down, usable, List.cons_append, List.nil_append,
    List.mem_cons, Action.perform.injEq, List.not_mem_nil, or_false, reduceCtorEq,
    false_or] at hm
  rcases hm with rfl | rfl | rfl
  · exact ⟨by decide, UInt32.le_refl kMaxConfidence⟩
  · exact ⟨by decide, UInt32.le_refl kMaxConfidence⟩
  · trivial

/-- No attempt may be retained, but one is in flight when the process ends. The next boot keeps it,
although it is terminal then, and the replay of its record evicts it. -/
theorem Sample.rebooted_overfull : ∃ e,
    System.run (Sample.rebooted { maxAttempts := 0 }) = .up e ∧
    (refold e.store.options (Disk.ofHistory (finished e.store.medium.history)).records
        ((Disk.ofHistory (finished e.store.medium.history)).start e.store.options)).toOption.all
      (fun d => decide (d.attempts.length ≠ e.state.attempts.length)) = true ∧
    e.store.options.maxAttempts < e.state.attempts.length ∧
    (∀ q ∈ e.state.attempts, q.isTerminal = true) ∧ e.closed = false := by
  obtain ⟨e, he, hp⟩ := @System.of_reboot (Sample.askedUnder { maxAttempts := 0 }) []
    { options := Sample.options {} { maxAttempts := 0 }, incarnation := Sample.incarnation 2 }
    (fun e : Engine => !e.closed && ((refold e.store.options (Disk.ofHistory (finished e.store.medium.history)).records
          ((Disk.ofHistory (finished e.store.medium.history)).start e.store.options)).toOption.all
        (fun d => decide (d.attempts.length ≠ e.state.attempts.length)) &&
      (decide (e.store.options.maxAttempts < e.state.attempts.length) &&
        e.state.attempts.all (·.isTerminal))))
    (by decide +kernel)
  obtain ⟨hopen, hp⟩ := Bool.and_eq_true_iff.mp hp
  obtain ⟨hreplay, hrest⟩ := Bool.and_eq_true_iff.mp hp
  obtain ⟨hlength, hterminal⟩ := Bool.and_eq_true_iff.mp hrest
  exact ⟨e, he, hreplay, of_decide_eq_true hlength, List.all_eq_true.mp hterminal,
    by simpa using hopen⟩

theorem interrupted_not_replayed : ¬ ∀ actions e, Decoded actions → System.run actions = .up e →
    e.closed = false →
    ∃ d, refold e.store.options (Disk.ofHistory (finished e.store.medium.history)).records
        ((Disk.ofHistory (finished e.store.medium.history)).start e.store.options) = .ok d ∧
      SameState d e.state := by
  intro hall
  obtain ⟨e, he, hp, -, -, hopen⟩ := Sample.rebooted_overfull
  obtain ⟨d, hd, hsame⟩ := hall _ e (Sample.rebooted_decoded _) he hopen
  rw [hd] at hp
  simp only [Except.toOption, Option.all_some, decide_eq_true_eq] at hp
  have hl := congrArg List.length hsame.attempts
  rw [List.length_map, List.length_map] at hl
  exact hp hl

/-- The boot that interrupts the attempt under the default limits. -/
theorem replay_equals_live_sample : ∃ e, Reachable e ∧ e.state.attempts ≠ [] ∧
    ∃ d, refold e.store.options (Disk.ofHistory (finished e.store.medium.history)).records
        ((Disk.ofHistory (finished e.store.medium.history)).start e.store.options) = .ok d ∧
      SameState d e.state := by
  obtain ⟨e, he, hp⟩ := @System.of_reboot (Sample.askedUnder {}) []
    { options := Sample.options {} {}, incarnation := Sample.incarnation 2 } (fun e : Engine => writesMeet restartFits none e.store.medium.history && !e.state.attempts.isEmpty &&
      !e.closed) (by decide +kernel)
  simp only [Bool.and_eq_true, Bool.not_eq_true', List.isEmpty_eq_false_iff] at hp
  obtain ⟨⟨hfits, hne⟩, hopen⟩ := hp
  exact ⟨e, ⟨_, he⟩, hne,
    replay_equals_live (Sample.rebooted_decoded _).ranged he hopen hfits⟩

end LinkFailover
