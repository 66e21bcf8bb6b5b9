import LinkFailover.Acceptance
import LinkFailover.Commits
import LinkFailover.Readback

/-!
# Payloads that poison nothing

What the engine commits stays in the lineage for good, so that a payload which cannot be written
or read back does harm to every later boot. The engine takes its arguments as they come, but some
fields are checked by the decoders alone. The confidence and the state of a replacement report go
into the assessment of a candidate, and an assessment with a confidence above the bound or with an
undeclared state is not read back. Neither is a policy with an undeclared rule or an attempt with an
undeclared verdict, which the engine installs and records as they come.

* `Payload.harmless`: the payloads that the bounds of their decoders hold for.
* `Commits.failed`: of harmless payloads no store fails.
* `lineage_unpoisoned`: a run whose engines take only values that the decoders take commits nothing
  else.
-/

namespace LinkFailover

open Codec

/-! ## Payloads -/

/-- The fields of a payload. -/
def Payload.encode : Payload → Writer → Writer
  | boot p => p.encode
  | policy p => p.encode
  | topology t => t.encode
  | attempt _ r => r.encode
  | decision d => d.encode
  | fence f => f.encode
  | idempotency e => e.encode
  | checkpoint c => c.encode
  | shutdown s => s.encode

theorem Payload.bytes_eq (p : Payload) : p.bytes = Writer.run p.encode := by
  cases p <;> rfl

/-- Whether the decoder of a record type takes these bytes. A checkpoint and a shutdown are not
looked at. -/
def RecordType.takes (type : RecordType) (bs : Bytes) : Bool :=
  match type with
  | .boot => (BootPayload.decode.whole bs).isSome
  | .policyCommit => (FailoverPolicy.decode.whole bs).isSome
  | .topologyCommit => (TopologySnapshot.decode.whole bs).isSome
  | .attemptCreate | .attemptUpdate | .completion | .rollback =>
    (AttemptRecord.decode.whole bs).isSome
  | .fence => (FenceRecord.decode.whole bs).isSome
  | .decisionCommit => (FailoverDecision.decode.whole bs).isSome
  | .idempotencyIndex => (IdempotencyEntry.decode.whole bs).isSome
  | .checkpoint | .shutdown => true

/-- A payload that is written without a failure, is within the bound of a record, and is taken by
its decoder. -/
structure Payload.Harmless (p : Payload) : Prop where
  written : (p.encode {}).ok = true
  fits : p.bytes.length ≤ kMaxRecordPayload
  taken : p.type.takes p.bytes = true

namespace Payload

/-- A payload with a decoder that gives something back. -/
theorem Harmless.of_roundTrip {α : Type} {p : Payload} {decode : Parser α} {a : α}
    (h : RoundTrip p.encode decode a) (hf : p.bytes.length ≤ kMaxRecordPayload)
    (ht : p.type.takes p.bytes = (decode.whole p.bytes).isSome) : p.Harmless := by
  refine ⟨h.appends.ok, hf, ?_⟩
  rw [ht, p.bytes_eq, h.whole]
  rfl

/-- What a decoder asks of a payload is all that there is to ask. -/
theorem harmless {p : Payload} (hd : p.Decodes) (hdeclared : p.Declared)
    (hc : ∀ c, p = .decision c → c.Encodable) : p.Harmless := by
  cases p with
  | boot p => exact .of_roundTrip p.roundTrip (p.fits .zero) rfl
  | policy p => exact .of_roundTrip (p.roundTrip hdeclared) (p.fits .zero) rfl
  | topology t => exact .of_roundTrip (t.roundTrip hd) (TopologySnapshot.fits hd .zero) rfl
  | attempt w r =>
    refine .of_roundTrip (r.roundTrip hdeclared) (r.fits w .zero) ?_
    cases w <;> rfl
  | decision c =>
    have hc := hc c rfl
    exact .of_roundTrip (FailoverDecision.roundTrip hc)
      (FailoverDecision.fits hc.reasons hc.candidates .zero) rfl
  | fence f => exact .of_roundTrip f.roundTrip (f.fits .zero) rfl
  | idempotency e =>
    exact .of_roundTrip (IdempotencyEntry.roundTrip hd) (Nat.le_trans hd.size (by decide)) rfl
  | checkpoint c => exact ⟨rfl, c.fits .zero, rfl⟩
  | shutdown s => exact ⟨rfl, s.fits .zero, rfl⟩

end Payload

theorem Writes.harmless {entries : List Entry} {o : StoreOptions} {d : DurableState} {j j' : Job}
    {p : Payload} {apply : Applies} (w : Writes True entries o d j p apply j')
    (hd : p.Declared) : p.Harmless := by
  refine Payload.harmless w.decodes hd ?_
  rintro c rfl
  cases w with
  | decision h => exact h trivial

/-! ## Stores -/

/-- A medium whose writes are not going to fail. -/
structure Medium.Steady (m : Medium) : Prop where
  appends : ∀ f ∈ m.appendFaults, f = none
  checkpoints : ∀ f ∈ m.checkpointFaults, f = none

theorem join_head {α : Type} {fs : List (Option α)} (h : ∀ f ∈ fs, f = none) :
    fs.head?.join = none := by
  cases fs with
  | nil => rfl
  | cons f fs => exact h f List.mem_cons_self

section Stores

variable {K : Payload → Applies → Prop} {s s' : LineageStore} {p : Payload} {apply : Applies}

/-- A commit takes at most one fault off its script. -/
theorem commit_appends_suffix :
    (s.commit p apply).1.medium.appendFaults <:+ s.medium.appendFaults := by
  unfold LineageStore.commit
  split
  · exact List.suffix_rfl
  cases s.state.lastSeq.next with
  | none => exact List.suffix_rfl
  | some next =>
    dsimp only
    generalize s.writer.append (s.medium.directory.journal.getD []) s.medium.nextFault
      (p.record next) = result
    obtain ⟨w, file, st⟩ := result
    dsimp only
    split <;> exact List.tail_suffix _

theorem Medium.Steady.commit (h : s.medium.Steady) : (s.commit p apply).1.medium.Steady where
  appends f hf := h.appends f (commit_appends_suffix.subset hf)
  checkpoints := by
    rw [commit_checkpointFaults]
    exact h.checkpoints

/-- A checkpoint whose writes do not fail leaves the store alone or commits its record. -/
theorem checkpoint_steady (h : s.medium.Steady) : s.checkpoint.1 = s ∨
    s.failed = false ∧ ∃ payload c, s.state.serialise = .ok payload ∧
      s.checkpoint.1 = ((LineageStore.rotated s (frameSnapshot payload)).commit (.checkpoint c)
        fun _ d => d).1 := by
  by_cases hf : s.failed = true
  · exact .inl (checkpoint_of_failed hf)
  have hf : s.failed = false := by simpa using hf
  cases hs : s.state.serialise with
  | error e =>
    rw [LineageStore.checkpoint, if_neg (by simp [hf]), hs]
    exact .inl rfl
  | ok payload =>
    obtain ⟨c, hc⟩ := LineageStore.checkpoint_none hf hs (join_head h.checkpoints)
    exact .inr ⟨hf, payload, c, rfl, hc⟩

theorem Medium.Steady.rotated (h : s.medium.Steady) (framed : Bytes) :
    (LineageStore.rotated s framed).medium.Steady :=
  ⟨h.appends, fun f hf => h.checkpoints f (List.mem_of_mem_tail hf)⟩

theorem Medium.Steady.checkpoint (h : s.medium.Steady) : s.checkpoint.1.medium.Steady := by
  rcases checkpoint_steady h with hc | ⟨-, payload, c, -, hc⟩
  · rw [hc]
    exact h
  · rw [hc]
    exact (h.rotated _).commit

/-- A harmless payload is refused by a running store only when no position is left. -/
theorem Payload.Harmless.failed (hp : p.Harmless) (hs : s.StoreOk) (hm : s.medium.Steady)
    (hf : s.failed = false) (h : (s.commit p apply).1.failed = true) :
    (s.commit p apply).1.state.lastSeq.next = none := by
  cases hok : (s.commit p apply).2.isOk with
  | true =>
    obtain ⟨-, hrunning, -⟩ := commit_ok hok
    rw [hrunning] at h
    cases h
  | false =>
    rw [(commit_not_ok hok).2.1]
    cases hn : s.state.lastSeq.next with
    | none => rfl
    | some seq =>
      have haccepts : s.accepts p = true := by
        have hfits : (p.record seq).Fits := hp.fits
        rw [LineageStore.accepts, hf, Medium.nextFault, join_head hm.appends, hn]
        simpa using hfits
      rw [(commit_isOk_iff hs).mpr haccepts] at hok
      cases hok

theorem Commits.storeOk (h : Commits K s s') (hs : s.StoreOk) : s'.StoreOk := by
  induction h with
  | refl => exact hs
  | commit => exact hs.commit _ _
  | checkpoint => exact hs.checkpoint
  | trans _ _ ih ih' => exact ih' (ih hs)

theorem Commits.steady (h : Commits K s s') (hm : s.medium.Steady) : s'.medium.Steady := by
  induction h with
  | refl => exact hm
  | commit => exact hm.commit
  | checkpoint => exact hm.checkpoint
  | trans _ _ ih ih' => exact ih' (ih hm)

theorem Commits.of_failed (h : Commits K s s') (hf : s.failed = true) : s' = s := by
  induction h with
  | refl => rfl
  | commit => exact commit_of_failed hf
  | checkpoint => exact checkpoint_of_failed hf
  | trans _ _ ih ih' =>
    have he := ih hf
    rw [ih' (by rw [he, hf]), he]

/-- On a medium that does not fail, harmless payloads make a store fail only when no position is
left. -/
theorem Commits.failed (h : Commits (fun p _ => p.Harmless) s s') (hs : s.StoreOk)
    (hm : s.medium.Steady) (hf : s.failed = false) (hf' : s'.failed = true) :
    s'.state.lastSeq.next = none := by
  induction h with
  | refl =>
    rw [hf] at hf'
    cases hf'
  | commit hp => exact hp.failed hs hm hf hf'
  | checkpoint s =>
    rcases checkpoint_steady hm with hc | ⟨-, payload, c, hser, hc⟩
    · rw [hc, hf] at hf'
      cases hf'
    · rw [hc] at hf' ⊢
      exact (Payload.harmless (p := .checkpoint c) trivial trivial fun _ h => by cases h).failed
        (.rotated hser) (hm.rotated _) hf hf'
  | @trans s s₁ s₂ h₁ h₂ ih ih' =>
    cases hmid : s₁.failed with
    | true =>
      rw [h₂.of_failed hmid]
      exact ih hs hm hf hmid
    | false => exact ih' (h₁.storeOk hs) (h₁.steady hm) hmid hf'

/-- On the way of a store that was fed through the decoders every payload is harmless. -/
theorem Step.commits {x y : LineageStore × Job} (h : Step True x y)
    (ht : Trace True x.1.medium.history (x.1.phase x.2)) :
    Commits (fun p _ => p.Harmless) x.1 y.1 := by
  cases h with
  | @write s j j' p apply w =>
    cases hf : s.failed with
    | true => exact .of_eq (commit_of_failed hf)
    | false =>
      obtain ⟨hstate, hjob⟩ := ht.declared.live _ _ _ (LineageStore.phase_live hf)
      exact .commit ((w hf).harmless ((w hf).declared trivial (hstate trivial) (hjob trivial)).1)
  | checkpoint s => exact .checkpoint s
  | booted | fenced | failed => exact .refl _

theorem Path.commits {x y : LineageStore × Job} (h : Path True x y)
    (ht : Trace True x.1.medium.history (x.1.phase x.2)) :
    Commits (fun p _ => p.Harmless) x.1 y.1 := by
  induction h with
  | refl => exact .refl _
  | tail hpath hs ih => exact ih.trans (hs.commits (Path.trace hpath ht))

end Stores

/-! ## Runs -/

/-- A directory and a process that no content of a request does harm to. -/
structure System.Unpoisoned (s : System) : Prop where
  /-- What an operation hands to a commit is harmless. A close lets go of the store behind it. -/
  handed : ∀ e, s = .up e → ∀ op, e.Declares op →
    ∃ s, Commits (fun p _ => p.Harmless) e.store s ∧
      ((e.perform op).1.store = s ∨ op = .close ∧ (e.perform op).1.store = s.close)
  /-- A running store on a medium that does not fail goes on, as long as there is a position. -/
  running : ∀ e, s = .up e → ∀ op, e.Declares op → op ≠ .close → e.store.failed = false →
    e.store.medium.Steady → (e.perform op).1.store.failed = true →
    (e.perform op).1.state.lastSeq.next = none
  /-- A later replay takes what stands in the journal, whatever it says; it is the fences that it
  refuses, all of them alike. -/
  replayed : ∀ x ∈ lineage s.history, x.2.Harmless ∧
    ∀ o (d : DurableState), (∃ d', d.applyRecord o (x.2.record x.1) = .ok d') ↔ x.2.isFence = false

theorem EngineOk.commits {e : Engine} (h : EngineOk True e) {op : Operation}
    (hd : e.Declares op) : ∃ s, Commits (fun p _ => p.Harmless) e.store s ∧
      ((e.perform op).1.store = s ∨ op = .close ∧ (e.perform op).1.store = s.close) := by
  obtain ⟨s, hpath, ⟨hs, -⟩ | ⟨hop, -, hs, -⟩⟩ := perform_path h _ fun _ => hd
  · exact ⟨s, hpath.commits h.trace, .inl hs⟩
  · exact ⟨s, hpath.commits h.trace, .inr ⟨hop, hs⟩⟩

/-- What stands in the journal is harmless, and the replay asks for nothing but its kind. -/
theorem Trace.harmless {history : List Event} {phase : Phase} (h : Trace True history phase)
    {x : Entry} (hx : x ∈ lineage history) : x.2.Harmless ∧
      ∀ o (d : DurableState), (∃ d', d.applyRecord o (x.2.record x.1) = .ok d') ↔
        x.2.isFence = false := by
  obtain ⟨A, B, hAB⟩ := List.append_of_mem hx
  obtain ⟨hok, hd⟩ := h.retained.entries A x B hAB
  have hpos := h.numbered.1.position A x B hAB
  have hdeclared := (h.declared.entries A x B hAB).1 trivial
  refine ⟨Payload.harmless hd hdeclared ?_, applyRecord_accepts hok hd hdeclared (by omega)⟩
  intro c hc
  obtain ⟨seq, p⟩ := x
  cases hc
  exact hok trivial

/-- A run does no harm to itself or to a later boot, as long as its engines retain no report with a
confidence above the bound or with an undeclared state, install no policy with an undeclared rule
and take no undeclared verdict. -/
theorem lineage_unpoisoned {actions : List Action} (h : Ranged actions) :
    (System.run actions).Unpoisoned := by
  have hok := @System.run_ok_of_ranged True actions fun _ => h
  have hup : ∀ {e}, System.run actions = .up e → EngineOk True e := by
    intro e he
    rw [he] at hok
    exact hok
  refine ⟨fun e he op => (hup he).commits, fun e he op hd hop hf hm hf' => ?_, fun x hx => ?_⟩
  · obtain ⟨s, hc, hs | ⟨hclose, -⟩⟩ := (hup he).commits hd
    · rw [Engine.state, hs]
      exact hc.failed (hup he).store hm hf (hs ▸ hf')
    · exact absurd hclose hop
  · exact hok.mediumOk.trace.harmless hx

namespace Sample

/-- A process grants a failover. -/
def confident : List Action := booted {} {} ++ [.perform (.requestFailover (request ⟨1⟩))]

/-- The alternate link, more than certain to be up. -/
def overconfident : ReplacementReport where
  candidate := alternate
  linkGeneration := ⟨1⟩
  topologyGeneration := ⟨1⟩
  state := .up
  confidence := ⟨1001⟩
  capacityUnits := 10
  adjacencyAuthorized := true
  stamp := stamp 1

/-- A process grants the same failover on that report. -/
def poisoned : List Action :=
  [.start { options := options {} {}, incarnation := incarnation 1 },
    .perform (down ⟨1⟩ ⟨1⟩ 1), .perform (.publishReplacement overconfident),
    .perform (.requestFailover (request ⟨1⟩))]

theorem confident_decoded : Decoded confident := by
  intro op hm
  simp only [confident, booted, List.cons_append, List.nil_append, List.mem_cons,
    reduceCtorEq, Action.perform.injEq, List.not_mem_nil, or_false, false_or] at hm
  rcases hm with rfl | rfl | rfl <;> decide

end Sample

theorem lineage_unpoisoned_sample : (System.run Sample.confident).Unpoisoned :=
  lineage_unpoisoned Sample.confident_decoded.ranged

/-- The decision that grants a failover on an assessment above the bound stands in the journal, and
its decoder does not take it. -/
theorem overconfidence_poisons : ¬ ∀ actions, (System.run actions).Unpoisoned := by
  intro hall
  have h : ((lineage (System.run Sample.poisoned).history).all fun x =>
      x.2.type.takes x.2.bytes) = false := by decide +kernel
  obtain ⟨x, hx, ht⟩ := List.all_eq_false.mp h
  exact ht ((hall Sample.poisoned).replayed x hx).1.taken

end LinkFailover
