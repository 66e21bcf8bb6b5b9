import LinkFailover.Conduct

/-!
# The beginning of a boot

A process that opens a directory continues its trace: the store stands for the disk, the boot
record takes the next epoch, and the walk over the attempts in flight leaves none of them. A boot
that fails at any point leaves a trace that the next one continues.

* `openEngine_outcome`: what an open leaves behind, however it ends.
-/

namespace LinkFailover

open Codec

variable {wire : Prop} {history : List Event} {phase : Phase}

/-- A state that was put into a snapshot was the state of a process. -/
theorem Trace.snapshot (h : Trace wire history phase) {d : DurableState}
    (hd : (Disk.ofHistory history).snapshot = some d) : ∃ entries, StateOk entries d := by
  induction h with
  | empty => cases hd
  | opened h _ _ replay ih =>
    rw [ofHistory_opened replay] at hd
    exact ih hd
  | committed h w next ih | lost h w next ih =>
    rw [Disk.ofHistory_append] at hd
    exact ih hd
  | booted h _ ih | fenced h _ ih | stopped h ih => exact ih hd
  | rotated h ih | replaced h ih =>
    rw [Disk.ofHistory_append] at hd
    cases hd
    exact ⟨_, h.stateOk⟩

/-- A medium that no process has open. -/
structure MediumOk (wire : Prop) (m : Medium) : Prop where
  trace : Trace wire m.history .down
  represents : Represents m.directory (Disk.ofHistory m.history)

theorem MediumOk.sound {m : Medium} (h : MediumOk wire m) {d : DurableState}
    (hd : (Disk.ofHistory m.history).snapshot = some d) : d.Sound := by
  obtain ⟨entries, hs⟩ := h.trace.snapshot hd
  exact hs.sound

/-- A process that ends leaves its medium behind. -/
theorem mediumOk_stopped {s : LineageStore} {j : Job}
    (ht : Trace wire s.medium.history (s.phase j)) (hs : s.StoreOk) : MediumOk wire s.medium :=
  ⟨.stopped ht, hs.represents⟩

/-! ## The store -/

/-- What an open of the store leaves behind. -/
theorem openStore_outcome {o : StoreOptions} {m : Medium} (h : MediumOk wire m) (ho : o.Valid) :
    (∃ m' e, LineageStore.openStore o m = (m', .error e) ∧ MediumOk wire m' ∧
        m'.history = m.history) ∨
      ∃ s d events, LineageStore.openStore o m = (s.medium, .ok s) ∧
        (Disk.ofHistory m.history).opened o = .ok (d, events) ∧
        s = LineageStore.reopened o (Disk.ofHistory m.history) d s.medium ∧
        s.medium.history = m.history ++ .opened o :: events ∧
        Trace wire s.medium.history (.live s.options s.state .fresh) ∧ s.StoreOk := by
  have hout := LineageStore.openStore_represents (o := o) h.represents fun d hd => h.sound hd
  revert hout
  generalize LineageStore.openStore o m = result
  intro hout
  cases hout with
  | @refused m' e _ hhistory hrep =>
    exact .inl ⟨m', e, rfl, ⟨hhistory ▸ h.trace, hhistory ▸ hrep⟩, hhistory⟩
  | @opened m' d events _ _ _ _ replay base hhistory hrep journal fits =>
    have hdisk : Disk.ofHistory m'.history = Disk.ofHistory m.history := by
      rw [hhistory, ofHistory_opened replay]
    refine .inr ⟨LineageStore.reopened o (Disk.ofHistory m.history) d m', d, events, rfl, replay,
      rfl, hhistory, ?_, ?_, fun _ => ?_⟩
    · change Trace wire m'.history _
      rw [hhistory]
      exact .opened h.trace ho base replay
    · change Represents m'.directory (Disk.ofHistory m'.history)
      rwa [hdisk]
    · refine ⟨rfl, rfl, ?_, ?_, ?_, ?_⟩ <;>
        simp only [LineageStore.disk, LineageStore.reopened, hdisk]
      · exact base
      · exact journal
      · exact fits

/-! ## The attempts in flight -/

/-- What is left to interrupt: records of the table, each of a key of its own, and every attempt
in flight. -/
structure Uninterrupted (d : DurableState) (rs : List AttemptRecord) : Prop where
  keys : (rs.map AttemptRecord.key).Nodup
  mem : ∀ q ∈ rs, q ∈ d.attempts
  rest : ∀ q ∈ d.attempts, q.isTerminal = false → q ∈ rs

theorem Uninterrupted.skip {d : DurableState} {r : AttemptRecord} {rs : List AttemptRecord}
    (h : Uninterrupted d (r :: rs)) (hr : r.isTerminal = true) : Uninterrupted d rs where
  keys := (List.nodup_cons.mp h.keys).2
  mem q hq := h.mem q (List.mem_cons_of_mem _ hq)
  rest q hq ht := by
    rcases List.mem_cons.mp (h.rest q hq ht) with rfl | hm
    · rw [hr] at ht
      cases ht
    · exact hm

theorem Uninterrupted.interrupt {d d' : DurableState} {r : AttemptRecord}
    {rs : List AttemptRecord} {seq : LineageSeq} (h : Uninterrupted d (r :: rs))
    (hk : (d.attempts.map AttemptRecord.key).Nodup)
    (hd : d'.attempts =
      upsertAttempt { LineageStore.interrupt r with updateSeq := seq } d.attempts) :
    Uninterrupted d' rs where
  keys := (List.nodup_cons.mp h.keys).2
  mem q hq := by
    rw [hd]
    refine BoundedTable.mem_upsert_of_ne (h.mem q (List.mem_cons_of_mem _ hq)) fun hc => ?_
    have hkey : q.key = r.key := hc
    exact (List.nodup_cons.mp h.keys).1 (hkey ▸ List.mem_map_of_mem hq)
  rest q hq ht := by
    rw [hd] at hq
    rcases (BoundedTable.mem_upsert_iff hk).mp hq with rfl | ⟨hm, hne⟩
    · cases ht
    · rcases List.mem_cons.mp (h.rest q hm ht) with rfl | hx
      · exact absurd rfl hne
      · exact hx

namespace LineageStore

/-- The two writes of the walk. -/
def writeInterrupt (s : LineageStore) (r : AttemptRecord) : LineageStore × Status :=
  s.commit (.attempt .update (interrupt r)) fun seq d =>
    { d with attempts := upsertAttempt { interrupt r with updateSeq := seq } d.attempts }

def writeRestartFence (s : LineageStore) (epoch : Epoch) (coordinator : Incarnation)
    (r : AttemptRecord) : LineageStore × Status :=
  s.commit (.fence (restartFence epoch coordinator r)) fun seq d =>
    d.noteFence s.options { restartFence epoch coordinator r with seq := seq }

theorem fenceAttempts_cons {epoch : Epoch} {coordinator : Incarnation} {r : AttemptRecord}
    {rs : List AttemptRecord} {s : LineageStore} (h : r.isTerminal = false) :
    fenceAttempts epoch coordinator (r :: rs) s =
      if !(s.writeInterrupt r).2.isOk then
        ((s.writeInterrupt r).1, .error (s.writeInterrupt r).2)
      else if !((s.writeInterrupt r).1.writeRestartFence epoch coordinator r).2.isOk then
        (((s.writeInterrupt r).1.writeRestartFence epoch coordinator r).1,
          .error ((s.writeInterrupt r).1.writeRestartFence epoch coordinator r).2)
      else
        ((fenceAttempts epoch coordinator rs
            ((s.writeInterrupt r).1.writeRestartFence epoch coordinator r).1).1,
          (fenceAttempts epoch coordinator rs
            ((s.writeInterrupt r).1.writeRestartFence epoch coordinator r).1).2.map (· + 1)) := by
  rw [fenceAttempts, if_neg (by simp [h])]
  rfl

end LineageStore

section Walk

variable {epoch : Epoch} {coordinator : Incarnation} {r : AttemptRecord}
  {rs : List AttemptRecord} {s : LineageStore}

theorem writeInterrupt_step (hr : r.isTerminal = false)
    (hm : s.failed = false → r ∈ s.state.attempts) :
    Step wire (s, .booted) ((s.writeInterrupt r).1, .owing (LineageStore.interrupt r) .booted) :=
  .write fun hf => .interrupt (hm hf) hr

theorem writeRestartFence_step :
    Step wire (s, .owing (LineageStore.interrupt r) .booted)
      ((s.writeRestartFence epoch coordinator r).1, .booted) :=
  .write fun _ => .fence ⟨rfl, rfl, rfl⟩ rfl

theorem fenceAttempts_path (ht : Trace wire s.medium.history (s.phase .booted))
    (hu : s.failed = false → Uninterrupted s.state rs) :
    Path wire (s, .booted) ((LineageStore.fenceAttempts epoch coordinator rs s).1, .serving) := by
  induction rs generalizing s with
  | nil =>
    refine .single (.booted fun hf q hq => ?_)
    by_contra hterm
    exact List.not_mem_nil ((hu hf).rest q hq (by simpa using hterm))
  | cons r rs ih =>
    by_cases hr : r.isTerminal = true
    · rw [LineageStore.fenceAttempts, if_pos hr]
      exact ih ht fun hf => (hu hf).skip hr
    have hr' : r.isTerminal = false := by simpa using hr
    rw [LineageStore.fenceAttempts_cons hr']
    have h1 : Step wire (s, .booted) _ :=
      writeInterrupt_step hr' fun hf => (hu hf).mem r List.mem_cons_self
    cases hok : (s.writeInterrupt r).2.isOk with
    | false => exact (Relation.ReflTransGen.single h1).tail (.failed (commit_not_ok hok).1)
    | true =>
      obtain ⟨hf, -, seq, -, -, hstate, -⟩ := commit_ok hok
      have hk : (s.state.attempts.map AttemptRecord.key).Nodup := by
        rw [LineageStore.phase_live hf] at ht
        exact ht.stateOk.keys
      have hu1 : Uninterrupted (s.writeInterrupt r).1.state rs :=
        (hu hf).interrupt hk (congrArg DurableState.attempts hstate)
      have ht1 := h1.trace ht
      have h2 : Step wire ((s.writeInterrupt r).1, .owing (LineageStore.interrupt r) .booted) _ :=
        @writeRestartFence_step wire epoch coordinator r _
      rw [if_neg (by simp)]
      cases hok2 : ((s.writeInterrupt r).1.writeRestartFence epoch coordinator r).2.isOk with
      | false =>
        exact ((Relation.ReflTransGen.single h1).tail h2).tail (.failed (commit_not_ok hok2).1)
      | true =>
        obtain ⟨-, -, seq2, -, -, hstate2, -⟩ := commit_ok hok2
        rw [if_neg (by simp)]
        refine ((Relation.ReflTransGen.single h1).tail h2).trans (ih (h2.trace ht1) fun _ => ?_)
        have hattempts : ((s.writeInterrupt r).1.writeRestartFence epoch coordinator
            r).1.state.attempts = (s.writeInterrupt r).1.state.attempts :=
          (congrArg DurableState.attempts hstate2).trans rfl
        exact ⟨hu1.keys, fun q hq => by rw [hattempts]; exact hu1.mem q hq,
          fun q hq => hu1.rest q (by rwa [hattempts] at hq)⟩

/-- A commit that keeps the epoch. -/
theorem commit_keeps {p : Payload} {apply : LineageSeq → DurableState → DurableState}
    (h : ∀ seq d, (apply seq d).epoch = d.epoch ∧ (apply seq d).coordinator = d.coordinator) :
    (s.commit p apply).1.state.epoch = s.state.epoch ∧
      (s.commit p apply).1.state.coordinator = s.state.coordinator := by
  cases hok : (s.commit p apply).2.isOk with
  | false =>
    rw [(commit_not_ok hok).2.1]
    exact ⟨rfl, rfl⟩
  | true =>
    obtain ⟨-, -, seq, -, -, hstate, -⟩ := commit_ok hok
    rw [hstate]
    exact h seq _

/-- A walk keeps the epoch, and when it ends well the store has not failed. -/
theorem fenceAttempts_epoch :
    (LineageStore.fenceAttempts epoch coordinator rs s).1.state.epoch = s.state.epoch ∧
      (LineageStore.fenceAttempts epoch coordinator rs s).1.state.coordinator =
        s.state.coordinator ∧
      ∀ n, (LineageStore.fenceAttempts epoch coordinator rs s).2 = .ok n → s.failed = false →
        (LineageStore.fenceAttempts epoch coordinator rs s).1.failed = false := by
  induction rs generalizing s with
  | nil => exact ⟨rfl, rfl, fun _ _ hf => hf⟩
  | cons r rs ih =>
    by_cases hr : r.isTerminal = true
    · rw [LineageStore.fenceAttempts, if_pos hr]
      exact ih
    rw [LineageStore.fenceAttempts_cons (by simpa using hr)]
    have h1 : (s.writeInterrupt r).1.state.epoch = s.state.epoch ∧
        (s.writeInterrupt r).1.state.coordinator = s.state.coordinator :=
      commit_keeps fun _ _ => ⟨rfl, rfl⟩
    split
    · exact ⟨h1.1, h1.2, by simp⟩
    revert h1
    generalize (s.writeInterrupt r).1 = s₁
    intro h1
    have h2 : (s₁.writeRestartFence epoch coordinator r).1.state.epoch = s₁.state.epoch ∧
        (s₁.writeRestartFence epoch coordinator r).1.state.coordinator = s₁.state.coordinator :=
      commit_keeps fun _ _ => ⟨rfl, rfl⟩
    split
    · exact ⟨h2.1.trans h1.1, h2.2.trans h1.2, by simp⟩
    · rename_i hok
      rw [Bool.not_eq_true', Bool.not_eq_false] at hok
      have hnf := (commit_ok hok).2.1
      obtain ⟨he, hc, hn⟩ := @ih (s₁.writeRestartFence epoch coordinator r).1
      refine ⟨he.trans (h2.1.trans h1.1), hc.trans (h2.2.trans h1.2), fun n hres _ => ?_⟩
      cases hw : (LineageStore.fenceAttempts epoch coordinator rs
          (s₁.writeRestartFence epoch coordinator r).1).2 with
      | error e =>
        rw [hw] at hres
        cases hres
      | ok k => exact hn k hw hnf

end Walk

/-! ## The boot -/

/-- A boot is a path: it fails, or it leaves a store that serves under the next epoch. -/
theorem bootStore_path {s : LineageStore} {incarnation : Incarnation} {build : Engine.Build}
    (ht : Trace wire s.medium.history (s.phase .fresh)) :
    (∃ e, Engine.bootStore s incarnation build = (s, .error e)) ∨
      Path wire (s, .fresh) ((Engine.bootStore s incarnation build).1, .serving) ∧
        ∀ epoch, (Engine.bootStore s incarnation build).2 = .ok epoch →
          (Engine.bootStore s incarnation build).1.failed = false ∧
          (Engine.bootStore s incarnation build).1.state.epoch = epoch ∧
          (Engine.bootStore s incarnation build).1.state.coordinator = incarnation := by
  unfold Engine.bootStore
  cases hb : Engine.nextBoot s.state incarnation build with
  | error e => exact .inl ⟨e, rfl⟩
  | ok boot =>
    dsimp only
    refine .inr ?_
    have h1 : Step wire (s, .fresh) ((s.commit (.boot boot) fun _ d => d.noteEpoch boot).1,
        .booted) := .write fun _ => .boot hb
    cases hok : (s.commit (.boot boot) fun _ d => d.noteEpoch boot).2.isOk with
    | false =>
      refine ⟨(Relation.ReflTransGen.single h1).tail (.failed (commit_not_ok hok).1), fun _ h => ?_⟩
      cases h
    | true =>
      obtain ⟨-, hnf, seq, -, -, hstate, -⟩ := commit_ok hok
      have ht1 := h1.trace ht
      rw [if_neg (by simp)]
      have hepoch : (s.commit (.boot boot) fun _ d => d.noteEpoch boot).1.state.epoch =
          boot.epoch := by rw [hstate]; rfl
      have hcoordinator : (s.commit (.boot boot) fun _ d =>
          d.noteEpoch boot).1.state.coordinator = boot.coordinator := by rw [hstate]; rfl
      revert h1 ht1 hnf hepoch hcoordinator
      generalize (s.commit (.boot boot) fun _ d => d.noteEpoch boot).1 = s₁
      intro h1 hnf ht1 hepoch hcoordinator
      have hpath : Path wire (s₁, .booted)
          ((s₁.fenceRestartAuthority boot.epoch incarnation).1, .serving) := by
        refine fenceAttempts_path ht1 fun hf => ?_
        rw [LineageStore.phase_live hf] at ht1
        exact ⟨ht1.stateOk.keys, fun _ hq => hq, fun _ hq _ => hq⟩
      obtain ⟨he, hc, hn⟩ := @fenceAttempts_epoch boot.epoch incarnation s₁.state.attempts s₁
      have hend := (Relation.ReflTransGen.single h1).trans hpath
      revert hend he hc hn
      rw [LineageStore.fenceRestartAuthority]
      generalize LineageStore.fenceAttempts boot.epoch incarnation s₁.state.attempts s₁ = w
      obtain ⟨s₂, r⟩ := w
      intro he hc hn hend
      cases r with
      | error e =>
        refine ⟨hend, fun _ h => ?_⟩
        cases h
      | ok n =>
        refine ⟨hend, fun epoch h => ?_⟩
        cases h
        exact ⟨hn n rfl hnf, he.trans hepoch,
          hc.trans (hcoordinator.trans (nextBoot_epoch hb).2)⟩

/-- How an open begins: it is refused and adds nothing to the history, or a store stands open
and boots. -/
theorem openEngine_cases {o : EngineOptions} {incarnation : Incarnation} {build : Engine.Build}
    {m : Medium} (h : MediumOk wire m) :
    (∃ m' e, Engine.openEngine o incarnation build m = (m', .error e) ∧ MediumOk wire m' ∧
        m'.history = m.history) ∨
      ∃ s d events, LineageStore.openStore o.store m = (s.medium, .ok s) ∧
        (Disk.ofHistory m.history).opened o.store = .ok (d, events) ∧
        s = LineageStore.reopened o.store (Disk.ofHistory m.history) d s.medium ∧
        s.medium.history = m.history ++ .opened o.store :: events ∧
        Trace wire s.medium.history (.live s.options s.state .fresh) ∧ s.StoreOk ∧
        o.store.Valid ∧
        Engine.openEngine o incarnation build m =
          match Engine.bootStore s incarnation build with
          | (s, .error e) => (s.medium, .error e)
          | (s, .ok epoch) =>
            (s.medium, .ok { options := o, store := s, incarnation := incarnation, epoch := epoch }) := by
  unfold Engine.openEngine
  split
  · exact .inl ⟨m, _, rfl, h, rfl⟩
  rename_i hp
  split
  · exact .inl ⟨m, _, rfl, h, rfl⟩
  rename_i ht
  split
  · exact .inl ⟨m, _, rfl, h, rfl⟩
  rename_i hfabric
  split
  · exact .inl ⟨m, _, rfl, h, rfl⟩
  rw [Bool.not_eq_true', Bool.not_eq_false] at hp ht
  have ho : o.store.Valid := ⟨Bool.eq_false_iff.mpr hfabric, hp, ht⟩
  rcases openStore_outcome h ho with
    ⟨m', e, hopen, hm, hh⟩ | ⟨s, d, events, hopen, hd, hs, hh, hlive, hok⟩
  · rw [hopen]
    exact .inl ⟨m', e, rfl, hm, hh⟩
  · exact .inr ⟨s, d, events, hopen, hd, hs, hh, hlive, hok, ho, hopen ▸ rfl⟩

/-- What an open leaves behind, however it ends. -/
theorem openEngine_outcome {o : EngineOptions} {incarnation : Incarnation} {build : Engine.Build}
    {m : Medium} (h : MediumOk wire m) :
    MediumOk wire (Engine.openEngine o incarnation build m).1 ∧
      ∀ e, (Engine.openEngine o incarnation build m).2 = .ok e →
        EngineOk wire e ∧ e.store.failed = false ∧
          e.store.medium = (Engine.openEngine o incarnation build m).1 := by
  rcases @openEngine_cases _ o incarnation build _ h with
    ⟨m', e, hopen, hm, -⟩ | ⟨s, d, events, -, -, hs, -, hlive, hok, hvalid, hopen⟩
  · rw [hopen]
    exact ⟨hm, by simp⟩
  rw [hopen]
  have hf : s.failed = false := by rw [hs]; rfl
  have ho : s.options = o.store := by rw [hs]; rfl
  have htrace : Trace wire s.medium.history (s.phase .fresh) := by
    rw [LineageStore.phase_live hf]
    exact hlive
  rcases @bootStore_path wire s incarnation build htrace with ⟨e, he⟩ | ⟨hpath, hepoch⟩
  · rw [he]
    exact ⟨mediumOk_stopped htrace hok, by simp⟩
  · have ht' := hpath.trace htrace
    have hok' := hpath.storeOk hok
    have hopt := hpath.options
    revert hepoch ht' hok' hopt
    generalize Engine.bootStore s incarnation build = w
    obtain ⟨s', r⟩ := w
    intro hepoch ht' hok' hopt
    cases r with
    | error e => exact ⟨mediumOk_stopped ht' hok', by simp⟩
    | ok epoch =>
      refine ⟨mediumOk_stopped ht' hok', fun e he => ?_⟩
      cases he
      obtain ⟨hnf, h1, h2⟩ := hepoch epoch rfl
      refine ⟨?_, hnf, rfl⟩
      exact
        { trace := ht'
          store := hok'
          options := hopt.trans ho
          fabric := hvalid.fabric
          closed := fun hc => Bool.noConfusion hc
          shut := fun hc => Bool.noConfusion hc
          epoch := fun _ => h1.symm
          coordinator := fun _ => h2.symm
          evidence := by simp [SortedMap.empty]
          failures := by
            rintro l p x ⟨b, hb, -⟩
            cases hb
          replacements := by
            rintro l p x ⟨b, hb, -⟩
            cases hb
          stops := fun hc => by
            change s'.failed = true at hc
            rw [hnf] at hc
            cases hc
          keyed := by
            rw [LineageStore.phase_live hnf] at ht'
            exact ht'.stateOk.keys }

/-- An open only adds to the history. -/
theorem openEngine_history {o : EngineOptions} {incarnation : Incarnation}
    {build : Engine.Build} {m : Medium} (h : MediumOk wire m) :
    m.history <+: (Engine.openEngine o incarnation build m).1.history := by
  rcases @openEngine_cases _ o incarnation build _ h with
    ⟨m', e, hopen, -, hh⟩ | ⟨s, d, events, -, -, hs, hh, hlive, -, -, hopen⟩
  · rw [hopen]
    exact hh ▸ List.prefix_rfl
  have hf : s.failed = false := by rw [hs]; rfl
  have htrace : Trace wire s.medium.history (s.phase .fresh) := by
    rw [LineageStore.phase_live hf]
    exact hlive
  have hbegins : m.history <+: s.medium.history := by
    rw [hh]
    exact List.prefix_append _ _
  rw [hopen]
  rcases @bootStore_path wire s incarnation build htrace with ⟨e, he⟩ | ⟨hpath, -⟩
  · rw [he]
    exact hbegins
  · refine hbegins.trans (hpath.history.trans ?_)
    generalize Engine.bootStore s incarnation build = w
    obtain ⟨s', r⟩ := w
    cases r <;> exact List.prefix_rfl

end LinkFailover
