import LinkFailover.Amendments

/-!
# Appends that go through

The payloads that the engine writes are far below the bound of a record, so that an append fails
only when the medium does, or when the positions of the lineage are used up.

* `AttemptRecord.fits`, `FenceRecord.fits`, `IdempotencyEntry.small`: the sizes.
* `LineageStore.Roomy.commit`: a store with room ahead goes on to have it.
-/

namespace LinkFailover

open Codec

/-! ## Sizes -/

theorem nameAtMost {Tag : Type} (n : StrongName Tag) : Writer.AtMost (Writer.name n) 68 :=
  .blob n.length_le

theorem uintAtMost {Tag : Type} (v : StrongUint Tag UInt64) : Writer.AtMost (Writer.uint v) 8 :=
  .u64 v.value

theorem reasonAtMost (r : Reason) : Writer.AtMost (Reason.encode r) 166 :=
  .cons (.u16 _) (.cons (.blob r.bounded) .nil)

theorem IdempotencyEntry.atMost (x : IdempotencyEntry) :
    Writer.AtMost x.encode (390 + x.reasons.length * 166) := by
  have h : Writer.AtMost x.encode
      (2 + (32 + (32 + (2 + (2 + (2 + (68 + (68 + (8 + ((1 + 144) + (8 + (8 + (4 +
        (x.reasons.length * 166 + 0)))))))))))))) :=
    .cons (.u16 _) <| .cons (.fixed _) <| .cons (.fixed _) <| .cons (.u16 _) <| .cons (.u16 _) <|
      .cons (.u16 _) <| .cons (nameAtMost _) <| .cons (nameAtMost _) <| .cons (uintAtMost _) <|
      .cons (.option _ fun f => .cons (nameAtMost _) <| .cons (nameAtMost _) <|
        .cons (uintAtMost _) .nil) <|
      .cons (uintAtMost _) <| .cons (uintAtMost _) <| .cons (.u32 _) <|
      .cons (.each _ reasonAtMost) .nil
  exact h.mono (by omega)

/-- An entry with few reasons is below the bound of its decoder, and of a record. -/
theorem IdempotencyEntry.small {x : IdempotencyEntry} (h : x.reasons.length ≤ 2) :
    (Writer.run x.encode).length ≤ kMaxIdempotencyDecisionBytes := by
  have := x.atMost.run
  rw [kMaxIdempotencyDecisionBytes]
  omega

theorem AuthorityVector.atMost (v : AuthorityVector) : Writer.AtMost v.encode 690 := by
  have h : Writer.AtMost v.encode
      (2 + (68 + (68 + (68 + (8 + (68 + (68 + (8 + (8 + (32 + (8 + (32 + (8 + (16 + (68 + (16 +
        (8 + (16 + (8 + (32 + 0)))))))))))))))))))) :=
    .cons (.u16 _) <| .cons (nameAtMost _) <| .cons (nameAtMost _) <| .cons (nameAtMost _) <|
      .cons (uintAtMost _) <| .cons (nameAtMost _) <| .cons (nameAtMost _) <|
      .cons (uintAtMost _) <| .cons (uintAtMost _) <| .cons (.fixed _) <| .cons (uintAtMost _) <|
      .cons (.fixed _) <| .cons (uintAtMost _) <| .cons (.fixed _) <| .cons (nameAtMost _) <|
      .cons (.fixed _) <| .cons (uintAtMost _) <| .cons (.fixed _) <| .cons (uintAtMost _) <|
      .cons (.fixed _) .nil
  exact h.mono (by decide)

theorem AttemptRecord.atMost (r : AttemptRecord) : Writer.AtMost r.encode 4000 := by
  have hreasons : Writer.AtMost (Writer.each Reason.encode r.reasons.entries) (16 * 166) :=
    (Writer.AtMost.each _ reasonAtMost).mono (Nat.mul_le_mul_right _ r.reasons.bounded)
  have h : Writer.AtMost r.encode
      (2 + (68 + (68 + (8 + (8 + (32 + (32 + (2 + (68 + (68 + (8 + (690 + (32 + (8 + (8 + (16 +
        (8 + (8 + ((1 + 32) + (16 + (1 + (2 + (4 + (16 * 166 + 0)))))))))))))))))))))))) :=
    .cons (.u16 _) <| .cons (nameAtMost _) <| .cons (nameAtMost _) <| .cons (uintAtMost _) <|
      .cons (uintAtMost _) <| .cons (.fixed _) <| .cons (.fixed _) <| .cons (.u16 _) <|
      .cons (nameAtMost _) <| .cons (nameAtMost _) <| .cons (uintAtMost _) <|
      .cons r.authority.atMost <| .cons (.fixed _) <| .cons (.u64 _) <| .cons (uintAtMost _) <|
      .cons (.fixed _) <| .cons (uintAtMost _) <| .cons (uintAtMost _) <|
      .cons (.option _ fun d => .fixed d) <| .cons (.fixed _) <| .cons (.bool8 _) <|
      .cons (.u16 _) <| .cons (.u32 _) <| .cons hreasons .nil
  exact h.mono (by decide)

theorem AttemptRecord.fits (w : AttemptWrite) (r : AttemptRecord) (seq : LineageSeq) :
    ((Payload.attempt w r).record seq).Fits :=
  Nat.le_trans r.atMost.run (by decide)

theorem FenceRecord.fits (f : FenceRecord) (seq : LineageSeq) :
    ((Payload.fence f).record seq).Fits := by
  have h : Writer.AtMost f.encode
      (2 + (2 + (68 + (68 + (8 + (8 + (8 + (16 + (8 + ((4 + 512) + 0)))))))))) :=
    .cons (.u16 _) <| .cons (.u16 _) <| .cons (nameAtMost _) <| .cons (nameAtMost _) <|
      .cons (uintAtMost _) <| .cons (uintAtMost _) <| .cons (uintAtMost _) <| .cons (.fixed _) <|
      .cons (uintAtMost _) <| .cons (.blob f.detail.property) .nil
  exact Nat.le_trans h.run (by decide)

theorem BootPayload.fits (p : BootPayload) (seq : LineageSeq) :
    ((Payload.boot p).record seq).Fits := by
  have h : Writer.AtMost p.encode (2 + (8 + (16 + (8 + (8 + ((4 + 64) + ((4 + 64) + 0))))))) :=
    .cons (.u16 _) <| .cons (uintAtMost _) <| .cons (.fixed _) <| .cons (.u64 _) <|
      .cons (.u64 _) <| .cons (.blob p.toolchain.property) <|
      .cons (.blob p.architecture.property) .nil
  exact Nat.le_trans h.run (by decide)

theorem CheckpointPayload.fits (p : CheckpointPayload) (seq : LineageSeq) :
    ((Payload.checkpoint p).record seq).Fits := by
  have h : Writer.AtMost p.encode (2 + (8 + (8 + (8 + 0)))) :=
    .cons (.u16 _) <| .cons (uintAtMost _) <| .cons (.u64 _) <| .cons (.u64 _) .nil
  exact Nat.le_trans h.run (by decide)

theorem CandidateAssessment.atMost (a : CandidateAssessment) : Writer.AtMost a.encode 465 := by
  have h : Writer.AtMost a.encode
      (68 + (68 + (8 + (2 + (2 + ((4 + 256) + (2 + (4 + (2 + (8 + (4 + (4 + (1 +
        (32 + 0)))))))))))))) :=
    .cons (nameAtMost _) <| .cons (nameAtMost _) <| .cons (uintAtMost _) <| .cons (.u16 _) <|
      .cons (.u16 _) <| .cons (.capped _ _) <| .cons (.u16 _) <| .cons (.u32 _) <|
      .cons (.u16 _) <| .cons (.u64 _) <| .cons (.u32 _) <| .cons (.u32 _) <|
      .cons (.bool8 _) <| .cons (.fixed _) .nil
  exact h.mono (by decide)

theorem FailoverDecision.atMost (d : FailoverDecision) :
    Writer.AtMost d.encode (1201 + d.reasons.length * 166 + d.candidates.length * 465) := by
  have hreasons : Writer.AtMost (encodeReasons d.reasons) (4 + (d.reasons.length * 166 + 0)) :=
    .cons (.u32 _) <| .cons (.each _ reasonAtMost) .nil
  have h : Writer.AtMost d.encode
      (2 + (32 + (2 + (2 + (2 + (68 + (68 + (68 + (8 + ((1 + 144) + (8 + (32 + (8 + (16 + (690 +
        (32 + (8 + (1 + (1 + ((4 + (d.reasons.length * 166 + 0)) +
        (4 + (d.candidates.length * 465 + 0)))))))))))))))))))))) :=
    .cons (.u16 _) <| .cons (.fixed _) <| .cons (.u16 _) <| .cons (.u16 _) <| .cons (.u16 _) <|
      .cons (nameAtMost _) <| .cons (nameAtMost _) <| .cons (nameAtMost _) <|
      .cons (uintAtMost _) <|
      .cons (.option _ fun f => .cons (nameAtMost _) <| .cons (nameAtMost _) <|
        .cons (uintAtMost _) .nil) <|
      .cons (uintAtMost _) <| .cons (.fixed _) <| .cons (uintAtMost _) <| .cons (.fixed _) <|
      .cons d.authority.atMost <| .cons (.fixed _) <| .cons (uintAtMost _) <| .cons (.bool8 _) <|
      .cons (.bool8 _) <| .cons hreasons <| .cons (.u32 _) <|
      .cons (.each _ CandidateAssessment.atMost) .nil
  exact h.mono (by omega)

/-- A decision within the bounds of its lists. -/
theorem FailoverDecision.fits {d : FailoverDecision} (hr : d.reasons.length ≤ kMaxDecisionReasons)
    (hc : d.candidates.length ≤ kMaxDecisionCandidates) (seq : LineageSeq) :
    ((Payload.decision d).record seq).Fits := by
  have h : (Writer.run d.encode).length ≤ _ := d.atMost.run
  change (Writer.run d.encode).length ≤ kMaxRecordPayload
  rw [kMaxDecisionReasons, kMaxReasons] at hr
  rw [kMaxDecisionCandidates] at hc
  rw [kMaxRecordPayload]
  omega

theorem FailoverPolicy.fits (p : FailoverPolicy) (seq : LineageSeq) :
    ((Payload.policy p).record seq).Fits := by
  have h : Writer.AtMost p.encode
      (2 + (8 + (4 + (4 + (8 + (4 + (1 + (1 + (1 + (1 + (2 + (4 + (4 + (4 + (1 +
        (1 + 0)))))))))))))))) :=
    .cons (.u16 _) <| .cons (uintAtMost _) <| .cons (.u32 _) <| .cons (.u32 _) <|
      .cons (.u64 _) <| .cons (.u32 _) <| .cons (.bool8 _) <| .cons (.bool8 _) <|
      .cons (.bool8 _) <| .cons (.bool8 _) <| .cons (.u16 _) <| .cons (.u32 _) <|
      .cons (.u32 _) <| .cons (.u32 _) <| .cons (.bool8 _) <| .cons (.bool8 _) .nil
  exact Nat.le_trans h.run (by decide)

theorem LinkDefinition.atMost (d : LinkDefinition) : Writer.AtMost d.encode 148 := by
  have h : Writer.AtMost d.encode (68 + (68 + (8 + (4 + 0)))) :=
    .cons (nameAtMost _) <| .cons (nameAtMost _) <| .cons (uintAtMost _) <| .cons (.u32 _) .nil
  exact h

theorem TopologySnapshot.fits {t : TopologySnapshot} (hl : t.links.length ≤ kMaxTopologyLinks)
    (seq : LineageSeq) : ((Payload.topology t).record seq).Fits := by
  have h : Writer.AtMost t.encode (2 + (8 + (4 + (t.links.length * 148 + 0)))) :=
    .cons (.u16 _) <| .cons (uintAtMost _) <| .cons (.u32 _) <|
      .cons (.each _ LinkDefinition.atMost) .nil
  have hrun := h.run
  change (Writer.run t.encode).length ≤ kMaxRecordPayload
  rw [kMaxTopologyLinks] at hl
  rw [kMaxRecordPayload]
  omega

theorem ShutdownPayload.fits (p : ShutdownPayload) (seq : LineageSeq) :
    ((Payload.shutdown p).record seq).Fits := by
  have h : Writer.AtMost p.encode (2 + (8 + (16 + (8 + 0)))) :=
    .cons (.u16 _) <| .cons (uintAtMost _) <| .cons (.fixed _) <| .cons (uintAtMost _) .nil
  exact Nat.le_trans h.run (by decide)

/-! ## Room ahead -/

theorem StrongUint.next_isSome {Tag : Type} {a : StrongUint Tag UInt64}
    (h : a.toNat + 1 < 2 ^ 64) : ∃ b, a.next = some b := by
  unfold StrongUint.next checkedAddU64
  rw [if_neg]
  · exact ⟨_, rfl⟩
  · rw [gt_iff_lt, UInt64.lt_iff_toNat_lt]
    have hm : (0xFFFFFFFFFFFFFFFF - 1 : UInt64).toNat = 2 ^ 64 - 2 := rfl
    have : a.value.toNat + 1 < 2 ^ 64 := h
    omega

/-- A store on a medium that does not fail, with positions left for so many records. -/
structure LineageStore.Roomy (s : LineageStore) (n : Nat) : Prop where
  ok : s.StoreOk
  running : s.failed = false
  faults : s.medium.appendFaults = []
  room : s.state.lastSeq.toNat + n < 2 ^ 64

section Room

variable {s : LineageStore} {n : Nat} {p : Payload}
  {apply : LineageSeq → DurableState → DurableState}

theorem LineageStore.Roomy.mono {m : Nat} (h : s.Roomy n) (hm : m ≤ n) : s.Roomy m :=
  { h with room := by have := h.room; omega }

theorem commit_appendFaults (h : s.medium.appendFaults = []) :
    (s.commit p apply).1.medium.appendFaults = [] := by
  unfold LineageStore.commit
  split
  · exact h
  cases s.state.lastSeq.next with
  | none => exact h
  | some next =>
    dsimp only
    generalize s.writer.append (s.medium.directory.journal.getD []) s.medium.nextFault
      (p.record next) = result
    obtain ⟨w, file, st⟩ := result
    dsimp only
    split <;> (change s.medium.appendFaults.tail = []; rw [h]; rfl)

theorem commit_checkpointFaults :
    (s.commit p apply).1.medium.checkpointFaults = s.medium.checkpointFaults := by
  unfold LineageStore.commit
  split
  · rfl
  cases s.state.lastSeq.next with
  | none => rfl
  | some next =>
    dsimp only
    generalize s.writer.append (s.medium.directory.journal.getD []) s.medium.nextFault
      (p.record next) = result
    obtain ⟨w, file, st⟩ := result
    dsimp only
    split <;> rfl

/-- A small record is accepted, and takes one of the positions left. -/
theorem LineageStore.Roomy.commit (h : s.Roomy (n + 1)) (hp : ∀ seq, (p.record seq).Fits)
    (apply : LineageSeq → DurableState → DurableState) :
    (s.commit p apply).2.isOk = true ∧ (s.commit p apply).1.Roomy n ∧
      ∃ seq, seq.toNat = s.state.lastSeq.toNat + 1 ∧
        (s.commit p apply).1.state = LineageStore.applied apply seq s.state ∧
        (s.commit p apply).1.options = s.options := by
  have hroom := h.room
  obtain ⟨next, hnext⟩ := @StrongUint.next_isSome _ s.state.lastSeq (by omega)
  have hok : (s.commit p apply).2.isOk = true := by
    rw [commit_isOk_iff h.ok, LineageStore.accepts, h.running, Medium.nextFault, h.faults, hnext]
    simpa using hp next
  obtain ⟨-, hf, seq, hseq, -, hstate, hopt, -⟩ := commit_ok hok
  have hone := StrongUint.next_toNat hseq
  refine ⟨hok, ⟨h.ok.commit _ _, hf, commit_appendFaults h.faults, ?_⟩, seq, hone, hstate, hopt⟩
  rw [hstate]
  change seq.toNat + n < 2 ^ 64
  omega

end Room

/-- The engine of an open that goes through. -/
theorem openEngine_new {o : EngineOptions} {incarnation : Incarnation} {build : Engine.Build}
    {m : Medium} {e : Engine} (h : (Engine.openEngine o incarnation build m).2 = .ok e) :
    ∃ s, (LineageStore.openStore o.store m).2 = .ok s ∧ ∃ epoch,
      (Engine.bootStore s incarnation build).2 = .ok epoch ∧
      e = { options := o
            store := (Engine.bootStore s incarnation build).1
            incarnation := incarnation
            epoch := epoch } := by
  unfold Engine.openEngine at h
  split at h
  · cases h
  split at h
  · cases h
  split at h
  · cases h
  split at h
  · cases h
  revert h
  generalize LineageStore.openStore o.store m = opened
  obtain ⟨m', r⟩ := opened
  cases r with
  | error _ => exact fun h => by cases h
  | ok s =>
    dsimp only
    generalize hb : Engine.bootStore s incarnation build = booted
    obtain ⟨s', r⟩ := booted
    cases r with
    | error _ => exact fun h => by cases h
    | ok epoch =>
      rintro ⟨⟩
      exact ⟨s, rfl, epoch, by rw [hb], by rw [hb]⟩

end LinkFailover
