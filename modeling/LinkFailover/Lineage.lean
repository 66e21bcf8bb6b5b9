import LinkFailover.Operations
import LinkFailover.Reopen
import Mathlib.Data.List.Induction

/-!
# The lineage of a directory

The lineage is the list of all records that ever reached the journal, over all boots. A trace is
a history that the engine can leave behind: processes open the directory, boot, write, replace
the snapshot and end at any point. The guards of the writes say all that the operations check
before they write, so that a law of the lineage is proved write by write and never operation by
operation.

* `Writes`: the guarded writes, by the job at hand.
* `Trace`: the histories.
* `Trace.numbered`: every record carries its position in the lineage.
-/

namespace LinkFailover

open Codec

/-! ## Lineages -/

abbrev Entry := LineageSeq × Payload

def Event.entry? : Event → Option Entry
  | .committed seq p _ _ _ => some (seq, p)
  | _ => none

def lineage (history : List Event) : List Entry := history.filterMap Event.entry?

@[simp] theorem lineage_append (h g : List Event) : lineage (h ++ g) = lineage h ++ lineage g :=
  List.filterMap_append

@[simp] theorem lineage_committed (seq : LineageSeq) (p : Payload) (b a : DurableState)
    (ack : Bool) : lineage [.committed seq p b a ack] = [(seq, p)] := rfl

@[simp] theorem lineage_checkpointed (d : DurableState) (rotated : Bool) :
    lineage [.checkpointed d rotated] = [] := rfl

/-- The identity of an attempt in the whole lineage. -/
abbrev Identity := LinkKey × LinkGeneration × AttemptSeq

/-- The last record of an attempt. -/
def lastWrite (entries : List Entry) (i : Identity) : Option AttemptRecord :=
  entries.foldl
    (fun last entry =>
      match entry.2 with
      | .attempt _ r => if r.identity = i then some r else last
      | _ => last)
    none

/-- The last record of an attempt is this one, up to the positions it is stamped with. -/
def Known (entries : List Entry) (q : AttemptRecord) : Prop :=
  ∃ r, lastWrite entries q.identity = some r ∧ r.unstamped = q.unstamped

/-- The epoch of the last boot. -/
def lastEpoch (entries : List Entry) : Epoch :=
  entries.foldl
    (fun last entry =>
      match entry.2 with
      | .boot p => p.epoch
      | _ => last)
    .zero

theorem lastWrite_append (entries : List Entry) (seq : LineageSeq) (p : Payload) (i : Identity) :
    lastWrite (entries ++ [(seq, p)]) i =
      match p with
      | .attempt _ r => if r.identity = i then some r else lastWrite entries i
      | _ => lastWrite entries i := by
  rw [lastWrite, List.foldl_append]
  rfl

theorem lastEpoch_append (entries : List Entry) (seq : LineageSeq) (p : Payload) :
    lastEpoch (entries ++ [(seq, p)]) =
      match p with
      | .boot p => p.epoch
      | _ => lastEpoch entries := by
  rw [lastEpoch, List.foldl_append]
  rfl

theorem lastWrite_attempt (entries : List Entry) (seq : LineageSeq) (w : AttemptWrite)
    (r : AttemptRecord) : lastWrite (entries ++ [(seq, .attempt w r)]) r.identity = some r := by
  rw [lastWrite_append]
  exact if_pos rfl

theorem lastWrite_other (entries : List Entry) (seq : LineageSeq) (w : AttemptWrite)
    {r : AttemptRecord} {i : Identity} (h : r.identity ≠ i) :
    lastWrite (entries ++ [(seq, .attempt w r)]) i = lastWrite entries i := by
  rw [lastWrite_append]
  exact if_neg h

theorem identity_of_unstamped {q r : AttemptRecord} (h : r.unstamped = q.unstamped) :
    r.identity = q.identity :=
  show r.unstamped.identity = q.unstamped.identity from congrArg AttemptRecord.identity h

theorem phase_of_unstamped {q r : AttemptRecord} (h : r.unstamped = q.unstamped) :
    r.phase = q.phase :=
  show r.unstamped.phase = q.unstamped.phase from congrArg AttemptRecord.phase h

theorem authority_of_unstamped {q r : AttemptRecord} (h : r.unstamped = q.unstamped) :
    r.authority = q.authority :=
  show r.unstamped.authority = q.unstamped.authority from congrArg AttemptRecord.authority h

theorem key_of_unstamped {q r : AttemptRecord} (h : r.unstamped = q.unstamped) :
    r.key = q.key :=
  show r.unstamped.key = q.unstamped.key from congrArg AttemptRecord.key h

/-- Of one identity, of one key. -/
theorem key_of_identity {q r : AttemptRecord} (h : r.identity = q.identity) : r.key = q.key :=
  congrArg (fun i : Identity => (i.1, i.2.2)) h

theorem Known.here (entries : List Entry) (seq : LineageSeq) (w : AttemptWrite)
    (r : AttemptRecord) : Known (entries ++ [(seq, .attempt w r)]) r :=
  ⟨r, lastWrite_attempt .., rfl⟩

/-- A record stays known until its attempt is written again. -/
theorem Known.append {entries : List Entry} {q : AttemptRecord} (h : Known entries q)
    (seq : LineageSeq) {p : Payload}
    (hne : ∀ w r, p = .attempt w r → r.identity ≠ q.identity) :
    Known (entries ++ [(seq, p)]) q := by
  obtain ⟨r, hr, hu⟩ := h
  refine ⟨r, ?_, hu⟩
  rw [lastWrite_append]
  split
  · rename_i w x
    rw [if_neg (hne w x rfl), hr]
  · exact hr

/-! ## Guards -/

/-- How the phase of an attempt moves within one boot, after its grant. -/
def phaseMoves : AttemptPhase → AttemptPhase → Bool
  | .authorized, .acknowledged | .authorized, .committed => true
  | .acknowledged, .verified | .acknowledged, .indeterminate => true
  | .verified, .committed => true
  | .interrupted, .aborted | .interrupted, .committed | .interrupted, .interrupted => true
  | old, .aborted | old, .rolledBack => attemptPhaseHoldsAuthority old
  | _, _ => false

/-- Under which type a record in its phase is written. -/
def writeOf : AttemptPhase → AttemptWrite
  | .committed => .completion
  | .rolledBack => .rollback
  | _ => .update

/-- The replacement of an attempt is a link or it is absent. -/
def ReplacementNormal (replacement : LinkKey) (generation : LinkGeneration) : Prop :=
  replacement.empty = false ∨ replacement = {} ∧ generation = .zero

/-- An authority is bound to the boot and to the definitions of a state. -/
structure AuthorityVector.Binds (a : AuthorityVector) (d : DurableState) : Prop where
  epoch : a.epoch = d.epoch
  coordinator : a.coordinator = d.coordinator
  policyGeneration : a.policyGeneration = d.policy.generation
  policyDigest : a.policyDigest = d.policy.digest
  topologyGeneration : a.topologyGeneration = d.topology.generation
  topologyDigest : a.topologyDigest = d.topology.digest

/-- A new attempt, as a request creates it. -/
structure Creates (d : DurableState) (r : AttemptRecord) : Prop where
  budget : d.countAttempts r.subject r.subjectGeneration <
    d.policy.maxAttemptsPerGeneration.toNat
  seq : r.attemptSeq = ⟨UInt64.ofNat (d.countAttempts r.subject r.subjectGeneration + 1)⟩
  id : r.attemptId =
    computeAttemptId r.subject.fabric r.subject r.subjectGeneration r.attemptSeq
  createSeq : r.createSeq = .zero
  subject : r.subject.empty = false
  replacement : ReplacementNormal r.replacement r.replacementGeneration
  active : d.activeAuthority r.subject r.subjectGeneration = none
  latest : ∀ q, d.latestAttempt r.subject r.subjectGeneration = some q →
    q.phase ≠ .interrupted
  revalidated : r.revalidated = false
  revalidation : r.revalidation = .unknown
  key : d.findIdempotency r.idempotencyKey = none

/-- A later record of an attempt, as the operations make it from the one before. -/
structure Continues (d : DurableState) (q : AttemptRecord) (w : AttemptWrite)
    (r : AttemptRecord) : Prop where
  identity : r.identity = q.identity
  id : r.attemptId = q.attemptId
  idempotencyKey : r.idempotencyKey = q.idempotencyKey
  createSeq : r.createSeq = q.createSeq
  replacement : r.replacement = q.replacement
  replacementGeneration : r.replacementGeneration = q.replacementGeneration
  phase : phaseMoves q.phase r.phase = true
  direct : q.phase = .authorized → r.phase = .committed → d.policy.requireVerifiedEffect = false
  write : w = writeOf r.phase
  authority : r.authority = q.authority ∨
    q.phase = .interrupted ∧ r.phase = .committed ∧ r.authority.Binds d
  settles : q.phase = .interrupted → r.phase ≠ .interrupted →
    r.revalidated = true ∧ r.revalidation.Conclusive
  verdict : q.phase ≠ .interrupted → r.revalidation = q.revalidation

/-- A fence names an attempt. -/
structure FenceRecord.Names (f : FenceRecord) (r : AttemptRecord) : Prop where
  subject : f.subject = r.subject
  subjectGeneration : f.subjectGeneration = r.subjectGeneration
  attemptSeq : f.attemptSeq = r.attemptSeq

/-- What a process is doing with the directory it opened. A grant is two writes, a new
definition aborts the attempts of a list that was taken before, and whoever takes an authority
away owes a fence for it. -/
inductive Job where
  | fresh
  | booted
  | serving
  | granting (a : AttemptRecord)
  | fencing (todo : List AttemptRecord)
  | owing (r : AttemptRecord) (next : Job)

/-- The guarded writes, what each applies to the state, and the job behind it. `wire` stands for
reports, policies and verdicts that came through a decoder. -/
inductive Writes (wire : Prop) (entries : List Entry) (o : StoreOptions) (d : DurableState) :
    Job → Payload → (LineageSeq → DurableState → DurableState) → Job → Prop
  | boot {incarnation : Incarnation} {build : Engine.Build} {p : BootPayload}
      (h : Engine.nextBoot d incarnation build = .ok p) :
      Writes wire entries o d .fresh (.boot p) (fun _ d => d.noteEpoch p) .booted
  | interrupt {r : AttemptRecord} (h : r ∈ d.attempts) (ht : r.isTerminal = false) :
      Writes wire entries o d .booted (.attempt .update (LineageStore.interrupt r))
        (fun seq d => { d with
          attempts := upsertAttempt { LineageStore.interrupt r with updateSeq := seq } d.attempts })
        (.owing (LineageStore.interrupt r) .booted)
  | fence {r : AttemptRecord} {j : Job} {f : FenceRecord} (h : f.Names r)
      (unplaced : f.seq = .zero) :
      Writes wire entries o d (.owing r j) (.fence f)
        (fun seq d => d.noteFence o { f with seq := seq }) j
  | record {r : AttemptRecord} (h : Creates d r)
      (hp : r.phase = .refused ∨ r.phase = .indeterminate) (ha : r.authority = {}) :
      Writes wire entries o d .serving (.attempt .create r)
        (fun seq d => d.noteAttempt o (Engine.createdAt r seq)) .serving
  | grant {a : AttemptRecord} (h : Creates d a) (hp : a.phase = .evaluated)
      (hb : a.authority.Binds d) :
      Writes wire entries o d .serving (.attempt .create a)
        (fun seq d => d.noteAttempt o (Engine.createdAt a seq)) (.granting a)
  | authorize (a : AttemptRecord) :
      Writes wire entries o d (.granting a) (.attempt .update { a with phase := .authorized })
        (fun seq d => d.noteAttempt o (Engine.updatedAt { a with phase := .authorized } seq))
        .serving
  | carry {q r : AttemptRecord} {w : AttemptWrite} (hq : q ∈ d.attempts)
      (h : Continues d q w r) (hp : r.phase ≠ .rolledBack)
      (ha : r.phase = .aborted → attemptPhaseHoldsAuthority q.phase = true →
        r.lastReason = some .backendRejected)
      (hv : wire → q.phase = .interrupted → WireEnum.Declared r.revalidation) :
      Writes wire entries o d .serving (.attempt w r)
        (fun seq d => d.noteAttempt o (Engine.updatedAt r seq)) .serving
  | rollback {q r : AttemptRecord} (hq : q ∈ d.attempts) (h : Continues d q .rollback r)
      (hp : r.phase = .rolledBack) :
      Writes wire entries o d .serving (.attempt .rollback r)
        (fun seq d => d.noteAttempt o (Engine.updatedAt r seq)) (.owing r .serving)
  | abort {q r : AttemptRecord} {todo : List AttemptRecord} (hq : q ∈ todo)
      (known : Known entries q) (holds : attemptPhaseHoldsAuthority q.phase = true)
      (hp : r.phase = .aborted) (h : Continues d q .update r) :
      Writes wire entries o d (.fencing todo) (.attempt .update r)
        (fun seq d => d.noteAttempt o (Engine.updatedAt r seq)) (.owing r (.fencing todo))
  | policy {p : FailoverPolicy} (h : p.validate.isOk = true)
      (declared : wire → WireEnum.Declared p.agreement) :
      Writes wire entries o d .serving (.policy p) (fun _ d => { d with policy := p })
        (.fencing d.attempts)
  | topology {t : TopologySnapshot} (h : t.validate.isOk = true) :
      Writes wire entries o d .serving (.topology t) (fun _ d => { d with topology := t })
        (.fencing d.attempts)
  | decision {c : FailoverDecision} (h : wire → c.Encodable) :
      Writes wire entries o d .serving (.decision c) (fun _ d => d) .serving
  | idempotency {e : IdempotencyEntry} (h : e.Encodable) :
      Writes wire entries o d .serving (.idempotency e) (fun _ d => d.noteIdempotency o e)
        .serving
  | checkpoint (c : CheckpointPayload) :
      Writes wire entries o d .serving (.checkpoint c) (fun _ d => d) .serving
  | shutdown (p : ShutdownPayload) :
      Writes wire entries o d .serving (.shutdown p) (fun _ d => d) .serving

/-! ## Traces -/

/-- The definitions of the options are the ones that an engine accepts. -/
structure StoreOptions.Valid (o : StoreOptions) : Prop where
  fabric : o.fabric.empty = false
  policy : o.policy.validate.isOk = true
  topology : o.topology.validate.isOk = true

/-- Nobody has the directory open, or a process has it open that can still write. -/
inductive Phase where
  | down
  | live (o : StoreOptions) (d : DurableState) (j : Job)

inductive Trace (wire : Prop) : List Event → Phase → Prop
  | empty : Trace wire [] .down
  | opened {history : List Event} {o : StoreOptions} {d : DurableState} {events : List Event}
      (h : Trace wire history .down) (valid : o.Valid)
      (base : (Disk.ofHistory history).base = (Disk.ofHistory history).covered)
      (replay : (Disk.ofHistory history).opened o = .ok (d, events)) :
      Trace wire (history ++ .opened o :: events)
        (.live o { d with lastSeq := (Disk.ofHistory history).last } .fresh)
  | committed {history : List Event} {o : StoreOptions} {d : DurableState} {j j' : Job}
      {p : Payload} {apply : LineageSeq → DurableState → DurableState} {seq : LineageSeq}
      (h : Trace wire history (.live o d j)) (w : Writes wire (lineage history) o d j p apply j')
      (next : d.lastSeq.next = some seq) :
      Trace wire
        (history ++ [.committed seq p d (LineageStore.applied apply seq d) true])
        (.live o (LineageStore.applied apply seq d) j')
  | lost {history : List Event} {o : StoreOptions} {d : DurableState} {j j' : Job}
      {p : Payload} {apply : LineageSeq → DurableState → DurableState} {seq : LineageSeq}
      (h : Trace wire history (.live o d j)) (w : Writes wire (lineage history) o d j p apply j')
      (next : d.lastSeq.next = some seq) :
      Trace wire (history ++ [.committed seq p d d false]) .down
  | booted {history : List Event} {o : StoreOptions} {d : DurableState}
      (h : Trace wire history (.live o d .booted))
      (terminal : ∀ q ∈ d.attempts, q.isTerminal = true) :
      Trace wire history (.live o d .serving)
  | fenced {history : List Event} {o : StoreOptions} {d : DurableState}
      {todo : List AttemptRecord} (h : Trace wire history (.live o d (.fencing todo)))
      (done : ∀ q ∈ d.attempts, attemptPhaseHoldsAuthority q.phase = false) :
      Trace wire history (.live o d .serving)
  | rotated {history : List Event} {o : StoreOptions} {d : DurableState}
      (h : Trace wire history (.live o d .serving)) :
      Trace wire (history ++ [.checkpointed d true]) (.live o d .serving)
  | replaced {history : List Event} {o : StoreOptions} {d : DurableState}
      (h : Trace wire history (.live o d .serving)) :
      Trace wire (history ++ [.checkpointed d false]) .down
  | stopped {history : List Event} {phase : Phase} (h : Trace wire history phase) :
      Trace wire history .down

theorem Writes.plain {wire : Prop} {entries : List Entry} {o : StoreOptions} {d : DurableState}
    {j j' : Job} {p : Payload} {apply : LineageSeq → DurableState → DurableState}
    (w : Writes wire entries o d j p apply j') : Writes False entries o d j p apply j' := by
  cases w with
  | boot h => exact .boot h
  | interrupt h ht => exact .interrupt h ht
  | fence h hz => exact .fence h hz
  | record h hp ha => exact .record h hp ha
  | grant h hp hb => exact .grant h hp hb
  | authorize a => exact .authorize a
  | carry hq h hp ha => exact .carry hq h hp ha False.elim
  | rollback hq h hp => exact .rollback hq h hp
  | abort hq hk hh hp h => exact .abort hq hk hh hp h
  | policy h => exact .policy h False.elim
  | topology h => exact .topology h
  | decision => exact .decision False.elim
  | idempotency h => exact .idempotency h
  | checkpoint c => exact .checkpoint c
  | shutdown s => exact .shutdown s

/-- A trace is one whatever came in. -/
theorem Trace.plain {wire : Prop} {history : List Event} {phase : Phase}
    (h : Trace wire history phase) : Trace False history phase := by
  induction h with
  | empty => exact .empty
  | opened _ hv hb hr ih => exact .opened ih hv hb hr
  | committed _ w hn ih => exact .committed ih w.plain hn
  | lost _ w hn ih => exact .lost ih w.plain hn
  | booted _ ht ih => exact .booted ih ht
  | fenced _ hd ih => exact .fenced ih hd
  | rotated _ ih => exact .rotated ih
  | replaced _ ih => exact .replaced ih
  | stopped _ ih => exact .stopped ih

/-! ## Positions -/

theorem replayRecords_append (o : StoreOptions) (rs : List Entry) (r : Entry)
    (acc : DurableState × List Event) :
    Disk.replayRecords o (rs ++ [r]) acc =
      (Disk.replayRecords o rs acc >>= fun acc => Disk.replayRecord o acc r) := by
  rw [Disk.replayRecords, List.foldlM_append]
  simp only [List.foldlM_cons, List.foldlM_nil, bind_pure]
  rfl

/-- What the decoder of a payload asks of it, where it asks more than that it was written and
declared. -/
def Payload.Decodes : Payload → Prop
  | .topology t => t.links.length ≤ kMaxTopologyLinks
  | .idempotency e => e.Encodable
  | _ => True

/-- Whether the replay of a payload is logged. -/
def Payload.Logged : Payload → Prop
  | .attempt _ _ | .idempotency _ => True
  | _ => False

/-- The replay of one record logs its attempt or its idempotency entry. -/
theorem replayEvents_logged {seq : LineageSeq} {p : Payload} (h : p.Logged) (hd : p.Decodes)
    (hdeclared : p.Declared) (before after : DurableState) :
    LineageStore.replayEvents (p.record seq) before after = [.replayed seq p before after] := by
  cases p with
  | attempt w r =>
    have hr : AttemptRecord.decode.whole ((Payload.attempt w r).record seq).payload = some r :=
      (r.roundTrip hdeclared).whole
    cases w <;> (rw [LineageStore.replayEvents, hr]; rfl)
  | idempotency e =>
    have he : IdempotencyEntry.decode.whole ((Payload.idempotency e).record seq).payload =
        some e := (IdempotencyEntry.roundTrip hd).whole
    rw [LineageStore.replayEvents, he]
    rfl
  | _ => cases h

/-- Events that say nothing new about the directory. -/
def Event.Silent : Event → Prop
  | .replayed .. => True
  | _ => False

theorem replayEvents_silent (view : JournalRecord) (before after : DurableState) :
    ∀ e ∈ LineageStore.replayEvents view before after, e.Silent := by
  unfold LineageStore.replayEvents
  split
  · simp [Event.Silent]
  · split <;> simp [Event.Silent]

theorem lineage_silent {events : List Event} (h : ∀ e ∈ events, e.Silent) : lineage events = [] := by
  refine List.filterMap_eq_nil_iff.mpr fun e he => ?_
  have := h e he
  cases e <;> first | rfl | cases this

theorem ofHistory_silent {events : List Event} (h : ∀ e ∈ events, e.Silent)
    (history : List Event) : Disk.ofHistory (history ++ events) = Disk.ofHistory history := by
  induction events generalizing history with
  | nil => rw [List.append_nil]
  | cons e events ih =>
    have he := h e List.mem_cons_self
    rw [← List.singleton_append, ← List.append_assoc,
      ih fun x hx => h x (List.mem_cons_of_mem _ hx), Disk.ofHistory_append]
    cases e <;> first | rfl | cases he

theorem replayRecord_eq_ok {o : StoreOptions} {acc acc' : DurableState × List Event} {r : Entry}
    (h : Disk.replayRecord o acc r = .ok acc') :
    acc.1.applyRecord o (r.2.record r.1) = .ok acc'.1 ∧
      acc'.2 = acc.2 ++ LineageStore.replayEvents (r.2.record r.1) acc.1 acc'.1 := by
  unfold Disk.replayRecord at h
  cases hd : acc.1.applyRecord o (r.2.record r.1) with
  | error e => rw [hd] at h; cases h
  | ok d =>
    rw [hd] at h
    cases h
    exact ⟨rfl, rfl⟩

/-- A replay logs nothing but its own writes. -/
theorem replayRecords_silent {o : StoreOptions} {rs : List Entry}
    {acc acc' : DurableState × List Event} (h : Disk.replayRecords o rs acc = .ok acc')
    (hs : ∀ e ∈ acc.2, e.Silent) : ∀ e ∈ acc'.2, e.Silent := by
  induction rs using List.reverseRecOn generalizing acc' with
  | nil =>
    cases h
    exact hs
  | append_singleton rs r ih =>
    rw [replayRecords_append] at h
    cases hr : Disk.replayRecords o rs acc with
    | error e => rw [hr] at h; cases h
    | ok mid =>
      rw [hr, ok_bind] at h
      obtain ⟨-, he⟩ := replayRecord_eq_ok h
      rw [he]
      intro e hm
      rcases List.mem_append.mp hm with hm | hm
      · exact ih hr e hm
      · exact replayEvents_silent _ _ _ e hm

/-- Where the disk stands in the lineage: the records behind its base, one after the other. -/
structure Numbered (history : List Event) : Prop where
  suffix : ∃ before, lineage history = before ++ (Disk.ofHistory history).records ∧
    before.length = (Disk.ofHistory history).base.toNat
  position : ∀ before x after, lineage history = before ++ x :: after →
    x.1.toNat = before.length + 1

theorem lastOf_numbered {before : List Entry} {base : LineageSeq} {rs : List Entry}
    (hb : before.length = base.toNat)
    (h : ∀ A x B, before ++ rs = A ++ x :: B → x.1.toNat = A.length + 1) :
    (Disk.lastOf base rs).toNat = (before ++ rs).length := by
  induction rs generalizing before base with
  | nil => simp [Disk.lastOf, hb]
  | cons r rs ih =>
    have hr := h before r rs rfl
    have := @ih (before ++ [r]) r.1 (by simp [hr]) (by simpa using h)
    simpa [Disk.lastOf] using this

theorem Numbered.last {history : List Event} (h : Numbered history) :
    (Disk.ofHistory history).last.toNat = (lineage history).length := by
  obtain ⟨before, hl, hb⟩ := h.suffix
  rw [hl]
  exact lastOf_numbered hb (hl ▸ h.position)

/-- One more record, at the next position. -/
theorem Numbered.committed {history : List Event} (h : Numbered history) {seq : LineageSeq}
    (next : (Disk.ofHistory history).last.next = some seq) (p : Payload) (b a : DurableState)
    (ack : Bool) : Numbered (history ++ [.committed seq p b a ack]) where
  suffix := by
    obtain ⟨before, hl, hb⟩ := h.suffix
    refine ⟨before, ?_, ?_⟩
    · rw [lineage_append, lineage_committed, Disk.ofHistory_append, hl, List.append_assoc]
      rfl
    · rw [Disk.ofHistory_append]
      exact hb
  position := by
    intro A x B he
    rw [lineage_append, lineage_committed] at he
    rcases List.eq_nil_or_concat B with rfl | ⟨B', y, rfl⟩
    · obtain ⟨rfl, hx⟩ := List.append_inj' he rfl
      cases hx
      rw [StrongUint.next_toNat next, h.last]
    · rw [List.concat_eq_append, ← List.cons_append, ← List.append_assoc] at he
      obtain ⟨hl, -⟩ := List.append_inj' he rfl
      exact h.position A x B' hl

/-- A new journal behind the lineage. -/
theorem Numbered.rotated {history : List Event} (h : Numbered history) {d : DurableState}
    (hd : d.lastSeq = (Disk.ofHistory history).last) :
    Numbered (history ++ [.checkpointed d true]) where
  suffix := by
    refine ⟨lineage history, ?_, ?_⟩
    · rw [lineage_append, lineage_checkpointed, Disk.ofHistory_append]
      rfl
    · rw [Disk.ofHistory_append, ← h.last, ← hd]
      rfl
  position := by
    rw [lineage_append, lineage_checkpointed, List.append_nil]
    exact h.position

/-- Events that leave the lineage and the journal as they are. -/
theorem Numbered.silent {history events : List Event} (h : Numbered history)
    (hl : lineage events = [])
    (hr : (Disk.ofHistory (history ++ events)).records = (Disk.ofHistory history).records)
    (hb : (Disk.ofHistory (history ++ events)).base = (Disk.ofHistory history).base) :
    Numbered (history ++ events) where
  suffix := by
    rw [lineage_append, hl, List.append_nil, hr, hb]
    exact h.suffix
  position := by
    rw [lineage_append, hl, List.append_nil]
    exact h.position

theorem opened_silent {k : Disk} {o : StoreOptions} {events : List Event} {d : DurableState}
    (h : k.opened o = .ok (d, events)) : ∀ e ∈ events, e.Silent :=
  replayRecords_silent h (by simp)

theorem ofHistory_opened {o : StoreOptions} {history events : List Event} {d : DurableState}
    (h : (Disk.ofHistory history).opened o = .ok (d, events)) :
    Disk.ofHistory (history ++ .opened o :: events) = Disk.ofHistory history := by
  have hs := ofHistory_silent (opened_silent h) (history ++ [.opened o])
  rw [List.append_assoc, Disk.ofHistory_append] at hs
  exact hs

theorem lineage_opened {o : StoreOptions} {history events : List Event} {d : DurableState}
    (h : (Disk.ofHistory history).opened o = .ok (d, events)) :
    lineage (history ++ .opened o :: events) = lineage history := by
  have hl : lineage (.opened o :: events) = lineage events := rfl
  rw [lineage_append, hl, lineage_silent (opened_silent h), List.append_nil]

/-- A process that can write stands behind the last record of the lineage. -/
theorem Trace.numbered {wire : Prop} {history : List Event} {phase : Phase}
    (h : Trace wire history phase) :
    Numbered history ∧
      ∀ o d j, phase = .live o d j → d.lastSeq = (Disk.ofHistory history).last := by
  induction h with
  | empty => exact ⟨⟨⟨[], rfl, rfl⟩, by simp [lineage]⟩, by simp⟩
  | opened h _ _ replay ih =>
    have hd := ofHistory_opened replay
    refine ⟨ih.1.silent ?_ (by rw [hd]) (by rw [hd]), ?_⟩
    · have hl := lineage_silent (opened_silent replay)
      exact hl
    · rintro o d j ⟨⟩
      rw [hd]
  | committed h w next ih =>
    obtain ⟨hn, hl⟩ := ih
    refine ⟨hn.committed (hl _ _ _ rfl ▸ next) .., ?_⟩
    rintro o d j ⟨⟩
    rw [Disk.ofHistory_append]
    exact (Disk.lastOf_append _ _ _ _).symm
  | lost h w next ih =>
    obtain ⟨hn, hl⟩ := ih
    exact ⟨hn.committed (hl _ _ _ rfl ▸ next) .., by simp⟩
  | booted h _ ih | fenced h _ ih =>
    obtain ⟨hn, hl⟩ := ih
    refine ⟨hn, ?_⟩
    rintro o d j ⟨⟩
    exact hl _ _ _ rfl
  | rotated h ih =>
    obtain ⟨hn, hl⟩ := ih
    refine ⟨hn.rotated (hl _ _ _ rfl), ?_⟩
    rintro o d j ⟨⟩
    rw [Disk.ofHistory_append]
    rfl
  | replaced h ih =>
    refine ⟨ih.1.silent rfl ?_ ?_, by simp⟩ <;> rw [Disk.ofHistory_append] <;> rfl
  | stopped h ih => exact ⟨ih.1, by simp⟩

end LinkFailover
