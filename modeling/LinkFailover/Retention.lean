import LinkFailover.Invariants

/-!
# What is retained

The law of the lineage that needs no rule: a table holds one record for each key, a retained
attempt is known to the lineage, no authority is ahead of the last boot, and every record of the
lineage is one that a replay accepts, but for a fence, which carries no position.

* `Trace.retained`: the law holds of every trace.
* `Trace.stateOk`, `Trace.liveOk`: what it says of the state of a process.
* `Trace.declared`: where nothing undeclared comes in, nothing undeclared is written.
-/

namespace LinkFailover

open Codec

/-! ## The law -/

structure StateOk (entries : List Entry) (d : DurableState) : Prop where
  fabric : d.fabric.empty = false
  policy : d.policy.validate.isOk = true
  topology : d.topology.validate.isOk = true
  keys : (d.attempts.map AttemptRecord.key).Nodup
  known : ∀ q ∈ d.attempts, Known entries q
  createSeq : ∀ q ∈ d.attempts, q.createSeq.toNat ≤ entries.length
  subjects : ∀ q ∈ d.attempts, q.subject.empty = false
  replacements : ∀ q ∈ d.attempts, ReplacementNormal q.replacement q.replacementGeneration
  epochs : ∀ q ∈ d.attempts, q.authority.epoch.toNat ≤ (lastEpoch entries).toNat
  epoch : d.epoch = lastEpoch entries
  fences : ∀ f ∈ d.fences, f.seq.toNat ≤ entries.length
  idempotency : ∀ e ∈ d.idempotency, e.Encodable

theorem StateOk.sound {entries : List Entry} {d : DurableState} (h : StateOk entries d) :
    d.Sound :=
  ⟨h.fabric, TopologySnapshot.length_of_validate h.topology, h.idempotency⟩

/-- A record of an attempt that a replay accepts at its position. -/
structure AttemptOk (entries : List Entry) (seq : LineageSeq) (w : AttemptWrite)
    (r : AttemptRecord) : Prop where
  check : DurableState.checkAttempt w.type seq r = .ok ()
  createSeq : r.createSeq.toNat ≤ entries.length
  subject : r.subject.empty = false
  replacement : ReplacementNormal r.replacement r.replacementGeneration
  epoch : r.authority.epoch.toNat ≤ (lastEpoch entries).toNat

/-- What a replay asks of a record, and what the next records rely on. -/
def EntryOk (wire : Prop) (entries : List Entry) (x : Entry) : Prop :=
  match x.2 with
  | .boot p => (lastEpoch entries).next = some p.epoch
  | .policy p => p.validate.isOk = true
  | .topology t => t.validate.isOk = true
  | .attempt w r => AttemptOk entries x.1 w r
  | .decision c => wire → c.Encodable
  | .idempotency e => e.Encodable
  | .fence f => f.seq = .zero
  | .checkpoint _ | .shutdown _ => True

/-- What a process knows of an attempt that it is going to write. -/
structure Written (entries : List Entry) (q : AttemptRecord) : Prop where
  createSeq : q.createSeq.toNat ≤ entries.length
  subject : q.subject.empty = false
  replacement : ReplacementNormal q.replacement q.replacementGeneration
  epoch : q.authority.epoch.toNat ≤ (lastEpoch entries).toNat

/-- What holds of the attempts in flight, by the job at hand. -/
def LiveOk (entries : List Entry) (d : DurableState) : Job → Prop
  | .fresh | .booted => True
  | .serving => ∀ q ∈ d.attempts, q.isTerminal = false → q.authority.Binds d ∧ q.phase ≠ .evaluated
  | .granting a =>
    (∀ q ∈ d.attempts, q.isTerminal = false →
      q.authority.Binds d ∧ (q.phase = .evaluated → q.key = a.key)) ∧
      Known entries a ∧ Written entries a ∧ a.phase = .evaluated ∧ a.authority.Binds d ∧
        d.activeAuthority a.subject a.subjectGeneration = none
  | .fencing todo =>
    (∀ q ∈ d.attempts, q.isTerminal = false → q.phase ≠ .evaluated ∧
      q.authority.epoch = d.epoch ∧ q.authority.coordinator = d.coordinator) ∧
      ∀ q ∈ todo, Written entries q
  | .owing _ j => LiveOk entries d j

/-! ## Steps -/

theorem checkAttempt_ok {w : AttemptWrite} {seq : LineageSeq} {r : AttemptRecord}
    (hc : w = .create → r.phase = .evaluated ∨ r.phase = .refused ∨ r.phase = .indeterminate)
    (hd : w = .completion → r.phase = .committed) (hr : w = .rollback → r.phase = .rolledBack)
    (hs : r.createSeq.toNat ≤ seq.toNat) :
    DurableState.checkAttempt w.type seq r = .ok () := by
  have hs' : ¬ ¬ r.createSeq ≤ seq := not_not.mpr (StrongUint.le_iff.mpr hs)
  unfold DurableState.checkAttempt
  rw [if_neg, if_neg, if_neg, if_neg hs']
  · rintro ⟨hw, hp⟩
    exact hp (hr (by cases w <;> first | rfl | cases hw))
  · rintro ⟨hw, hp⟩
    exact hp (hd (by cases w <;> first | rfl | cases hw))
  · rintro ⟨hw, h1, h2, h3⟩
    rcases hc (by cases w <;> first | rfl | cases hw) with h | h | h
    · exact h1 h
    · exact h2 h
    · exact h3 h

theorem nextBoot_epoch {d : DurableState} {incarnation : Incarnation} {build : Engine.Build}
    {p : BootPayload} (h : Engine.nextBoot d incarnation build = .ok p) :
    d.epoch.next = some p.epoch ∧ p.coordinator = incarnation := by
  unfold Engine.nextBoot at h
  cases he : d.epoch.next with
  | none => rw [he] at h; cases h
  | some epoch =>
    rw [he] at h
    dsimp only at h
    split at h
    · cases h
      exact ⟨rfl, rfl⟩
    · cases h

theorem AuthorityVector.Binds.congr {a : AuthorityVector} {d d' : DurableState} (h : a.Binds d)
    (he : d'.epoch = d.epoch) (hc : d'.coordinator = d.coordinator) (hp : d'.policy = d.policy)
    (ht : d'.topology = d.topology) : a.Binds d' where
  epoch := by rw [he, h.epoch]
  coordinator := by rw [hc, h.coordinator]
  policyGeneration := by rw [hp, h.policyGeneration]
  policyDigest := by rw [hp, h.policyDigest]
  topologyGeneration := by rw [ht, h.topologyGeneration]
  topologyDigest := by rw [ht, h.topologyDigest]

section Steps

variable {wire : Prop} {entries : List Entry} {o : StoreOptions} {d : DurableState} {j j' : Job}
  {p : Payload} {apply : LineageSeq → DurableState → DurableState} {seq : LineageSeq}

theorem lastEpoch_of_not_boot (h : ∀ b, p ≠ .boot b) :
    lastEpoch (entries ++ [(seq, p)]) = lastEpoch entries := by
  rw [lastEpoch_append]
  cases p with
  | boot b => exact absurd rfl (h b)
  | _ => rfl

theorem StateOk.written (h : StateOk entries d) {q : AttemptRecord} (hq : q ∈ d.attempts) :
    Written entries q :=
  ⟨h.createSeq q hq, h.subjects q hq, h.replacements q hq, h.epochs q hq⟩

theorem Written.append {q : AttemptRecord} (h : Written entries q) (hp : ∀ b, p ≠ .boot b) :
    Written (entries ++ [(seq, p)]) q where
  createSeq := by
    rw [List.length_append, List.length_singleton]
    exact Nat.le_succ_of_le h.createSeq
  subject := h.subject
  replacement := h.replacement
  epoch := by
    rw [lastEpoch_of_not_boot hp]
    exact h.epoch

/-- The parts of a state that a record of another kind leaves alone. -/
theorem StateOk.keep (h : StateOk entries d) (hp : ∀ b, p ≠ .boot b)
    (ha : ∀ w r, p ≠ .attempt w r) {d' : DurableState} (hattempts : d'.attempts = d.attempts)
    (hfabric : d'.fabric = d.fabric) (hepoch : d'.epoch = d.epoch)
    (hpolicy : d'.policy.validate.isOk = true) (htopology : d'.topology.validate.isOk = true)
    (hfences : ∀ f ∈ d'.fences, f.seq.toNat ≤ entries.length + 1)
    (hidempotency : ∀ e ∈ d'.idempotency, e.Encodable) :
    StateOk (entries ++ [(seq, p)]) d' where
  fabric := hfabric ▸ h.fabric
  policy := hpolicy
  topology := htopology
  keys := hattempts ▸ h.keys
  known q hq := (h.known q (hattempts ▸ hq)).append seq fun w r he => absurd he (ha w r)
  createSeq q hq := ((h.written (hattempts ▸ hq)).append hp).createSeq
  subjects q hq := h.subjects q (hattempts ▸ hq)
  replacements q hq := h.replacements q (hattempts ▸ hq)
  epochs q hq := ((h.written (hattempts ▸ hq)).append hp).epoch
  epoch := by rw [hepoch, lastEpoch_of_not_boot hp, h.epoch]
  fences f hf := by
    rw [List.length_append, List.length_singleton]
    exact hfences f hf
  idempotency := hidempotency

theorem mem_evictFences {o : StoreOptions} {f : FenceRecord} {fences : List FenceRecord}
    (h : f ∈ evictFences o fences) : f ∈ fences := by
  unfold evictFences at h
  split at h
  · exact h
  · exact BoundedTable.mem_sortBy.mp (List.mem_of_mem_drop h)

theorem mem_evictIdempotency {o : StoreOptions} {e : IdempotencyEntry}
    {es : List IdempotencyEntry} (h : e ∈ evictIdempotency o es) : e ∈ es := by
  unfold evictIdempotency at h
  split at h
  · exact h
  · exact List.mem_of_mem_drop h

theorem StateOk.effect (h : StateOk entries d) (hx : EntryOk wire entries (seq, p))
    (hseq : seq.toNat = entries.length + 1) {d' : DurableState} (he : Effect seq d p d') :
    StateOk (entries ++ [(seq, p)]) d' := by
  have hfences : ∀ f ∈ d.fences, f.seq.toNat ≤ entries.length + 1 := fun f hf =>
    Nat.le_succ_of_le (h.fences f hf)
  cases he with
  | boot b =>
    have hnext : (lastEpoch entries).next = some b.epoch := hx
    have hlt := StrongUint.next_toNat hnext
    refine
      { h with
        known := fun q hq => (h.known q hq).append seq (by simp)
        createSeq := fun q hq => ?_
        epochs := fun q hq => ?_
        epoch := by rw [lastEpoch_append]; rfl
        fences := fun f hf => ?_ }
    · rw [List.length_append, List.length_singleton]
      exact Nat.le_succ_of_le (h.createSeq q hq)
    · have := h.epochs q hq
      rw [lastEpoch_append]
      dsimp only
      omega
    · rw [List.length_append, List.length_singleton]
      exact hfences f hf
  | policy p =>
    exact h.keep (by simp) (by simp) rfl rfl rfl hx h.topology hfences h.idempotency
  | topology t =>
    exact h.keep (by simp) (by simp) rfl rfl rfl h.policy hx hfences h.idempotency
  | @attempt w r r' table upserted same created =>
    have hr : AttemptOk entries seq w r := hx
    have hnb : ∀ b, Payload.attempt w r ≠ .boot b := by simp
    have hboot := @lastEpoch_of_not_boot entries _ seq hnb
    have hcases : ∀ q ∈ table, q = r' ∨ q ∈ d.attempts ∧ q.key ≠ r'.key := fun q hq =>
      upserted.of_mem h.keys hq
    have hsub : r'.subject = r.subject := show r'.unstamped.subject = r.unstamped.subject by rw [same]
    have hrep : r'.replacement = r.replacement :=
      show r'.unstamped.replacement = r.unstamped.replacement by rw [same]
    have hgen : r'.replacementGeneration = r.replacementGeneration :=
      show r'.unstamped.replacementGeneration = r.unstamped.replacementGeneration by rw [same]
    refine
      { h with
        keys := upserted.nodup h.keys
        known := fun q hq => ?_
        createSeq := fun q hq => ?_
        subjects := fun q hq => ?_
        replacements := fun q hq => ?_
        epochs := fun q hq => ?_
        epoch := by rw [hboot, ← h.epoch]
        fences := fun f hf => by
          rw [List.length_append, List.length_singleton]
          exact hfences f hf } <;> rcases hcases q hq with rfl | ⟨hq, hne⟩
    · exact ⟨r, by rw [identity_of_unstamped same, lastWrite_attempt], same.symm⟩
    · refine (h.known q hq).append seq fun w' x hx' hid => hne ?_
      cases hx'
      rw [key_of_unstamped same, key_of_identity hid]
    · rw [List.length_append, List.length_singleton]
      rcases created with hc | hc
      · rw [hc, hseq]
      · rw [hc]
        exact Nat.le_succ_of_le hr.createSeq
    · exact ((h.written hq).append hnb).createSeq
    · rw [hsub]
      exact hr.subject
    · exact h.subjects q hq
    · rw [hrep, hgen]
      exact hr.replacement
    · exact h.replacements q hq
    · rw [hboot, authority_of_unstamped same]
      exact hr.epoch
    · exact ((h.written hq).append hnb).epoch
  | fence o f =>
    refine h.keep (by simp) (by simp) rfl rfl rfl h.policy h.topology (fun x hx' => ?_)
      h.idempotency
    rcases List.mem_append.mp (mem_evictFences hx') with hm | hm
    · exact hfences x hm
    · rw [List.mem_singleton.mp hm]
      exact hseq.le
  | idempotency o e =>
    refine h.keep (by simp) (by simp) rfl rfl rfl h.policy h.topology hfences fun x hx' => ?_
    rcases List.mem_append.mp (mem_evictIdempotency hx') with hm | hm
    · exact h.idempotency x hm
    · rw [List.mem_singleton.mp hm]
      exact hx
  | decision | checkpoint | shutdown =>
    exact h.keep (by simp) (by simp) rfl rfl rfl h.policy h.topology hfences h.idempotency

/-- A later record of a written attempt is accepted. -/
theorem Written.attemptOk {q r : AttemptRecord} {w : AttemptWrite} (h : Written entries q)
    (hc : Continues d q w r) (he : d.epoch = lastEpoch entries)
    (hseq : seq.toNat = entries.length + 1) : AttemptOk entries seq w r where
  check := by
    refine checkAttempt_ok ?_ ?_ ?_ ?_
    · intro hw
      have := hc.write
      rw [hw] at this
      cases hp : r.phase <;> rw [hp] at this <;> cases this
    · intro hw
      have := hc.write
      rw [hw] at this
      cases hp : r.phase <;> rw [hp] at this <;> first | rfl | cases this
    · intro hw
      have := hc.write
      rw [hw] at this
      cases hp : r.phase <;> rw [hp] at this <;> first | rfl | cases this
    · have := h.createSeq
      rw [hc.createSeq]
      omega
  createSeq := by
    rw [hc.createSeq]
    exact h.createSeq
  subject := by
    rw [show r.subject = q.subject from congrArg Prod.fst hc.identity]
    exact h.subject
  replacement := by
    rw [hc.replacement, hc.replacementGeneration]
    exact h.replacement
  epoch := by
    rcases hc.authority with ha | ⟨-, -, ha⟩
    · rw [ha]
      exact h.epoch
    · rw [ha.epoch, he]

/-- Every guarded write is one that a replay accepts. -/
theorem Writes.entryOk (w : Writes wire entries o d j p apply j') (h : StateOk entries d)
    (hl : LiveOk entries d j) (hseq : seq.toNat = entries.length + 1) :
    EntryOk wire entries (seq, p) := by
  cases w with
  | boot hb =>
    have := (nextBoot_epoch hb).1
    rwa [h.epoch] at this
  | @interrupt r hr ht =>
    have hw := h.written hr
    refine ⟨checkAttempt_ok (by simp) (by simp) (by simp) ?_, hw.createSeq, hw.subject,
      hw.replacement, hw.epoch⟩
    have := hw.createSeq
    change r.createSeq.toNat ≤ seq.toNat
    omega
  | record hc hp ha =>
    refine ⟨checkAttempt_ok (fun _ => .inr hp) (by simp) (by simp) ?_, ?_, hc.subject,
      hc.replacement, ?_⟩
    · rw [hc.createSeq]
      exact Nat.zero_le _
    · rw [hc.createSeq]
      exact Nat.zero_le _
    · rw [ha]
      exact Nat.zero_le _
  | grant hc hp hb =>
    refine ⟨checkAttempt_ok (fun _ => .inl hp) (by simp) (by simp) ?_, ?_, hc.subject,
      hc.replacement, ?_⟩
    · rw [hc.createSeq]
      exact Nat.zero_le _
    · rw [hc.createSeq]
      exact Nat.zero_le _
    · rw [hb.epoch, h.epoch]
  | authorize a =>
    obtain ⟨-, -, hw, -⟩ := hl
    refine ⟨checkAttempt_ok (by simp) (by simp) (by simp) ?_, hw.createSeq, hw.subject,
      hw.replacement, hw.epoch⟩
    have := hw.createSeq
    change a.createSeq.toNat ≤ seq.toNat
    omega
  | carry hq hc | rollback hq hc => exact (h.written hq).attemptOk hc h.epoch hseq
  | abort hq _ _ _ hc => exact (hl.2 _ hq).attemptOk hc h.epoch hseq
  | policy hv | topology hv => exact hv
  | decision hd => exact hd
  | idempotency he => exact he
  | fence _ hz => exact hz
  | checkpoint | shutdown => trivial

/-- What is in flight does not change with a record of another kind. -/
theorem LiveOk.keep (h : LiveOk entries d j) {d' : DurableState}
    (hp : ∀ b, p ≠ .boot b) (ha : ∀ w r, p ≠ .attempt w r)
    (hattempts : d'.attempts = d.attempts) (hepoch : d'.epoch = d.epoch)
    (hcoordinator : d'.coordinator = d.coordinator) (hpolicy : d'.policy = d.policy)
    (htopology : d'.topology = d.topology) : LiveOk (entries ++ [(seq, p)]) d' j := by
  have hbinds : ∀ a : AuthorityVector, a.Binds d → a.Binds d' := fun a hb =>
    hb.congr hepoch hcoordinator hpolicy htopology
  induction j with
  | fresh | booted => trivial
  | serving =>
    intro q hq ht
    obtain ⟨hb, he⟩ := h q (hattempts ▸ hq) ht
    exact ⟨hbinds _ hb, he⟩
  | granting a =>
    obtain ⟨hq, hk, hw, hphase, hb, hactive⟩ := h
    refine ⟨fun q hm ht => ?_, hk.append seq fun w r he => absurd he (ha w r), hw.append hp,
      hphase, hbinds _ hb, ?_⟩
    · obtain ⟨hb, he⟩ := hq q (hattempts ▸ hm) ht
      exact ⟨hbinds _ hb, he⟩
    · rw [DurableState.activeAuthority_none] at hactive ⊢
      intro q hm hs hg
      have := hactive q (hattempts ▸ hm) hs hg
      rwa [DurableState.isActive, hepoch, hcoordinator]
  | fencing todo =>
    refine ⟨fun q hm ht => ?_, fun q hm => (h.2 q hm).append hp⟩
    rw [hepoch, hcoordinator]
    exact h.1 q (hattempts ▸ hm) ht
  | owing _ j ih => exact ih h

/-- What a phase that moves has been before. -/
theorem phaseMoves_live {old new : AttemptPhase} (h : phaseMoves old new = true)
    (ht : attemptPhaseIsTerminal new = false) :
    attemptPhaseIsTerminal old = false ∧ new ≠ .evaluated := by
  cases old <;> cases new <;>
    first | (cases h; done) | (cases ht; done) | exact ⟨rfl, by simp⟩

theorem Writes.liveOk (w : Writes wire entries o d j p apply j') (h : StateOk entries d)
    (hl : LiveOk entries d j) :
    LiveOk (entries ++ [(seq, p)]) (LineageStore.applied apply seq d) j' := by
  have htable : ∀ {r q : AttemptRecord}, q ∈ (d.noteAttempt o r).attempts →
      q = r ∨ q ∈ d.attempts ∧ q.key ≠ r.key := fun hq =>
    Upserted.of_mem (.inl ⟨o, rfl⟩) h.keys hq
  have hbinds : ∀ {a : AuthorityVector} {table : List AttemptRecord}, a.Binds d → a.Binds
      { d with attempts := table, lastSeq := seq, recordCount := d.recordCount + 1 } := fun hb =>
    hb.congr rfl rfl rfl rfl
  cases w with
  | boot | interrupt => trivial
  | fence => exact LiveOk.keep (j := j') hl (by simp) (by simp) rfl rfl rfl rfl rfl
  | record hc hp ha =>
    intro q hq ht
    rcases htable hq with rfl | ⟨hq, -⟩
    · rcases hp with hp | hp <;> simp [AttemptRecord.isTerminal, Engine.createdAt, hp,
        attemptPhaseIsTerminal] at ht
    · obtain ⟨hb, he⟩ := hl q hq ht
      exact ⟨hbinds hb, he⟩
  | @grant a hc hp hb =>
    refine ⟨fun q hq ht => ?_, .here _ _ _ _, ⟨?_, hc.subject, hc.replacement, ?_⟩, hp, hbinds hb, ?_⟩
    · rcases htable hq with rfl | ⟨hq, -⟩
      · exact ⟨hbinds hb, fun _ => rfl⟩
      · obtain ⟨hb, he⟩ := hl q hq ht
        exact ⟨hbinds hb, fun hc => absurd hc he⟩
    · rw [hc.createSeq]
      exact Nat.zero_le _
    · rw [lastEpoch_of_not_boot (by simp), hb.epoch, h.epoch]
    · rw [DurableState.activeAuthority_none]
      intro q hq hs hg
      rcases htable hq with rfl | ⟨hq, -⟩
      · simp [DurableState.isActive, Engine.createdAt, hp, attemptPhaseHoldsAuthority]
      · exact DurableState.activeAuthority_none.mp hc.active q hq hs hg
  | authorize a =>
    obtain ⟨hq, hk, hw, hphase, hb, -⟩ := hl
    intro q hm ht
    rcases htable hm with rfl | ⟨hm, hne⟩
    · exact ⟨hbinds hb, by simp [Engine.updatedAt]⟩
    · obtain ⟨hb, he⟩ := hq q hm ht
      exact ⟨hbinds hb, fun hp => hne (he hp)⟩
  | @carry q r _ hq hc _ _ =>
    intro x hx ht
    rcases htable hx with rfl | ⟨hx, -⟩
    · obtain ⟨hold, hne⟩ := phaseMoves_live hc.phase ht
      refine ⟨?_, hne⟩
      rcases hc.authority with ha | ⟨-, -, ha⟩
      · change r.authority.Binds _
        rw [ha]
        exact hbinds (hl q hq hold).1
      · exact hbinds ha
    · obtain ⟨hb, he⟩ := hl x hx ht
      exact ⟨hbinds hb, he⟩
  | @rollback q r hq hc hp =>
    intro x hx ht
    rcases htable hx with rfl | ⟨hx, -⟩
    · simp [AttemptRecord.isTerminal, Engine.updatedAt, hp, attemptPhaseIsTerminal] at ht
    · obtain ⟨hb, he⟩ := hl x hx ht
      exact ⟨hbinds hb, he⟩
  | @abort q r todo hq _ _ hp hc =>
    refine ⟨fun x hx ht => ?_, fun x hx => (hl.2 x hx).append (by simp)⟩
    rcases htable hx with rfl | ⟨hx, -⟩
    · simp [AttemptRecord.isTerminal, Engine.updatedAt, hp, attemptPhaseIsTerminal] at ht
    · exact hl.1 x hx ht
  | policy hv | topology hv =>
    refine ⟨fun q hq ht => ?_, fun q hq => (h.written hq).append (by simp)⟩
    obtain ⟨hb, he⟩ := hl q hq ht
    exact ⟨he, hb.epoch, hb.coordinator⟩
  | decision | idempotency | checkpoint | shutdown =>
    exact LiveOk.keep (j := .serving) hl (by simp) (by simp) rfl rfl rfl rfl rfl

end Steps

/-! ## The law holds -/

theorem retentionLaw (wire : Prop) :
    LineageLaw wire (fun _ _ _ => True) StateOk (EntryOk wire)
      fun entries _ d j => LiveOk entries d j where
  start ho :=
    { fabric := ho.fabric
      policy := ho.policy
      topology := ho.topology
      keys := List.nodup_nil
      known := by simp
      createSeq := by simp
      subjects := by simp
      replacements := by simp
      epochs := by simp
      epoch := rfl
      fences := by simp
      idempotency := by simp }
  positions h _ _ := { h with }
  effect h hx hseq he _ := h.effect hx hseq he
  opened _ := trivial
  guard ht h hl w next := by
    refine w.entryOk h hl ?_
    rw [StrongUint.next_toNat next, ht.numbered.2 _ _ _ rfl, ht.numbered.1.last]
  live _ h hl w _ _ := w.liveOk h hl
  booted _ _ hterminal := by
    intro q hq ht
    rw [hterminal q hq] at ht
    cases ht
  fenced _ hl hnone := by
    intro q hq ht
    exact absurd (evaluated_of_not_terminal ht (hnone q hq)) (hl.1 q hq ht).1
  local_rule _ := trivial

variable {wire : Prop} {history : List Event} {phase : Phase}

theorem Trace.retained (h : Trace wire history phase) :
    Lawful StateOk (EntryOk wire) (fun entries _ d j => LiveOk entries d j) history phase :=
  (retentionLaw wire).holds h fun e _ => by
    unfold Event.Obeys
    split <;> trivial

theorem Trace.stateOk {o : StoreOptions} {d : DurableState} {j : Job}
    (h : Trace wire history (.live o d j)) : StateOk (lineage history) d :=
  (h.retained.live _ _ _ rfl).1

theorem Trace.liveOk {o : StoreOptions} {d : DurableState} {j : Job}
    (h : Trace wire history (.live o d j)) : LiveOk (lineage history) d j :=
  (h.retained.live _ _ _ rfl).2

/-! ## Declared values -/

/-- The attempts that a process is about to write hold declared verdicts. -/
def JobDeclared : Job → Prop
  | .granting a => WireEnum.Declared a.revalidation
  | .fencing todo => ∀ q ∈ todo, WireEnum.Declared q.revalidation
  | .owing _ j => JobDeclared j
  | .fresh | .booted | .serving => True

/-- Policies and verdicts that came through a decoder leave declared values in the lineage. -/
theorem Writes.declared {entries : List Entry} {o : StoreOptions} {d : DurableState} {j j' : Job}
    {p : Payload} {apply : LineageSeq → DurableState → DurableState}
    (w : Writes wire entries o d j p apply j') (hw : wire)
    (h : ∀ q ∈ d.attempts, WireEnum.Declared q.revalidation) (hj : JobDeclared j) :
    p.Declared ∧ JobDeclared j' := by
  have hholds : ∀ {a : AttemptPhase}, attemptPhaseHoldsAuthority a = true → a ≠ .interrupted := by
    rintro a ha rfl
    cases ha
  cases w with
  | @interrupt r hr => exact ⟨(h r hr : WireEnum.Declared r.revalidation), trivial⟩
  | fence => exact ⟨trivial, hj⟩
  | @record r hc =>
    have hr : WireEnum.Declared r.revalidation := by rw [hc.revalidation]; decide
    exact ⟨hr, trivial⟩
  | @grant a hc =>
    have ha : WireEnum.Declared a.revalidation := by rw [hc.revalidation]; decide
    exact ⟨ha, ha⟩
  | authorize a => exact ⟨hj, trivial⟩
  | @carry q r _ hq hc _ _ hv =>
    refine ⟨?_, trivial⟩
    by_cases hi : q.phase = .interrupted
    · exact hv hw hi
    · exact show WireEnum.Declared r.revalidation by rw [hc.verdict hi]; exact h q hq
  | @rollback q r hq hc hp =>
    have hi : q.phase ≠ .interrupted := by
      intro hi
      have := hc.phase
      rw [hi, hp] at this
      cases this
    exact ⟨show WireEnum.Declared r.revalidation by rw [hc.verdict hi]; exact h q hq, trivial⟩
  | @abort q r _ hq _ holds _ hc =>
    have hr : WireEnum.Declared r.revalidation := by
      rw [hc.verdict (hholds holds)]
      exact hj q hq
    exact ⟨hr, hj⟩
  | policy _ hd => exact ⟨hd hw, h⟩
  | topology => exact ⟨trivial, h⟩
  | boot | decision | idempotency | checkpoint | shutdown => exact ⟨trivial, trivial⟩

theorem declaredLaw (wire : Prop) :
    LineageLaw wire (fun _ _ _ => True)
      (fun _ d => wire → ∀ q ∈ d.attempts, WireEnum.Declared q.revalidation)
      (fun _ x => wire → x.2.Declared) fun _ _ _ j => wire → JobDeclared j where
  start _ _ q hq := absurd hq List.not_mem_nil
  positions h _ _ := h
  effect h hx _ he _ hw q hq := by
    cases he with
    | attempt upserted same =>
      rcases upserted.mem hq with rfl | hq
      · have hv := congrArg AttemptRecord.revalidation same
        exact show WireEnum.Declared q.revalidation from hv.symm ▸ hx hw
      · exact h hw q hq
    | _ => exact h hw q hq
  opened _ _ := trivial
  guard _ h hl w _ hw := (w.declared hw (h hw) (hl hw)).1
  live _ h hl w _ _ hw := (w.declared hw (h hw) (hl hw)).2
  booted _ _ _ _ := trivial
  fenced _ _ _ _ := trivial
  local_rule _ := trivial

theorem Trace.declared (h : Trace wire history phase) :
    Lawful (fun _ d => wire → ∀ q ∈ d.attempts, WireEnum.Declared q.revalidation)
      (fun _ x => wire → x.2.Declared) (fun _ _ _ j => wire → JobDeclared j) history phase :=
  (declaredLaw wire).holds h fun e _ => by
    unfold Event.Obeys
    split <;> trivial

theorem Trace.snapshot_declared (h : Trace wire history phase) (hw : wire) {d : DurableState}
    (hd : (Disk.ofHistory history).snapshot = some d) :
    ∀ q ∈ d.attempts, WireEnum.Declared q.revalidation := by
  induction h with
  | empty => cases hd
  | opened h _ _ replay ih =>
    rw [ofHistory_opened replay] at hd
    exact ih hd
  | committed h w next ih | lost h w next ih =>
    rw [Disk.ofHistory_append] at hd
    exact ih hd
  | booted h _ ih | fenced h _ ih | stopped h ih => exact ih hd
  | rotated h ih | replaced h ih =>
    rw [Disk.ofHistory_append] at hd
    cases hd
    exact (h.declared.live _ _ _ rfl).1 hw

end LinkFailover
