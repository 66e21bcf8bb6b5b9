import LinkFailover.Retention

/-!
# Steps of a store

The steps by which a process moves the store it has open, with the job at hand. A store that has
failed moves no more, so the guards are asked only of one that has not. Whatever a process does
is a path of steps, and a path extends the trace of the directory.

* `Step.trace`: a step extends a trace.
* `Path.of_failed`: nothing moves after a failure.
-/

namespace LinkFailover

open Codec

/-- The phase of a directory whose process has this store. -/
def LineageStore.phase (s : LineageStore) (j : Job) : Phase :=
  if s.failed then .down else .live s.options s.state j

inductive Step (wire : Prop) : LineageStore × Job → LineageStore × Job → Prop
  | write {s : LineageStore} {j j' : Job} {p : Payload}
      {apply : LineageSeq → DurableState → DurableState}
      (h : s.failed = false →
        Writes wire (lineage s.medium.history) s.options s.state j p apply j') :
      Step wire (s, j) ((s.commit p apply).1, j')
  | checkpoint (s : LineageStore) : Step wire (s, .serving) (s.checkpoint.1, .serving)
  | booted {s : LineageStore}
      (h : s.failed = false → ∀ q ∈ s.state.attempts, q.isTerminal = true) :
      Step wire (s, .booted) (s, .serving)
  | fenced {s : LineageStore} {todo : List AttemptRecord}
      (h : s.failed = false →
        ∀ q ∈ s.state.attempts, attemptPhaseHoldsAuthority q.phase = false) :
      Step wire (s, .fencing todo) (s, .serving)
  | failed {s : LineageStore} {j : Job} (h : s.failed = true) : Step wire (s, j) (s, .serving)

abbrev Path (wire : Prop) : LineageStore × Job → LineageStore × Job → Prop :=
  Relation.ReflTransGen (Step wire)

variable {wire : Prop} {s s' : LineageStore} {j j' : Job} {p : Payload}
  {apply : LineageSeq → DurableState → DurableState}

theorem LineageStore.phase_live (h : s.failed = false) :
    s.phase j = .live s.options s.state j := by
  rw [LineageStore.phase, h]
  rfl

theorem LineageStore.phase_down (h : s.failed = true) : s.phase j = .down := by
  rw [LineageStore.phase, if_pos h]

/-! ## Commits -/

theorem commit_ok (h : (s.commit p apply).2.isOk = true) :
    s.failed = false ∧ (s.commit p apply).1.failed = false ∧ ∃ seq,
      s.state.lastSeq.next = some seq ∧ (p.record seq).Fits ∧
      (s.commit p apply).1.state = LineageStore.applied apply seq s.state ∧
      (s.commit p apply).1.options = s.options ∧
      (s.commit p apply).1.medium.history = s.medium.history ++
        [.committed seq p s.state (s.commit p apply).1.state true] := by
  have ho := s.commit_outcome p apply
  revert ho h
  generalize (s.commit p apply).1 = s'
  generalize (s.commit p apply).2 = st
  intro h ho
  cases ho with
  | refused ok => rw [ok] at h; cases h
  | lost ok => rw [ok] at h; cases h
  | done before failed next fits state options history =>
    exact ⟨before, failed, _, next, fits, state, options, history⟩

theorem commit_not_ok (h : (s.commit p apply).2.isOk = false) :
    (s.commit p apply).1.failed = true ∧ (s.commit p apply).1.state = s.state ∧
      (s.commit p apply).1.options = s.options := by
  have ho := s.commit_outcome p apply
  revert ho h
  generalize (s.commit p apply).1 = s'
  generalize (s.commit p apply).2 = st
  intro h ho
  cases ho with
  | refused ok failed state options => exact ⟨failed, state, options⟩
  | lost ok _ failed _ _ state options => exact ⟨failed, state, options⟩
  | done => cases h

theorem commit_options : (s.commit p apply).1.options = s.options := by
  have ho := s.commit_outcome p apply
  revert ho
  generalize (s.commit p apply).1 = s'
  generalize (s.commit p apply).2 = st
  intro ho
  cases ho with
  | refused _ _ _ options | lost _ _ _ _ _ _ options | done _ _ _ _ _ options => exact options

theorem commit_of_failed (h : s.failed = true) : (s.commit p apply).1 = s := by
  rw [LineageStore.commit, if_pos h]

theorem checkpoint_of_failed (h : s.failed = true) : s.checkpoint.1 = s := by
  rw [LineageStore.checkpoint, if_pos h]

/-! ## A step extends a trace -/

theorem Trace.write (h : Trace wire s.medium.history (s.phase j))
    (w : s.failed = false →
      Writes wire (lineage s.medium.history) s.options s.state j p apply j') :
    Trace wire (s.commit p apply).1.medium.history ((s.commit p apply).1.phase j') := by
  have ho := s.commit_outcome p apply
  revert ho
  generalize (s.commit p apply).1 = s'
  generalize (s.commit p apply).2 = st
  intro ho
  cases ho with
  | refused ok failed state options history =>
    rw [LineageStore.phase_down failed, history]
    exact .stopped h
  | lost ok before failed next fits state options history =>
    rw [LineageStore.phase_live before] at h
    rw [LineageStore.phase_down failed, history]
    exact .lost h (w before) next
  | done before failed next fits state options history =>
    rw [LineageStore.phase_live before] at h
    rw [LineageStore.phase_live failed, history, options, state]
    exact .committed h (w before) next

theorem Trace.checkpoint (h : Trace wire s.medium.history (s.phase .serving)) :
    Trace wire s.checkpoint.1.medium.history (s.checkpoint.1.phase .serving) := by
  have ho := s.checkpoint_outcome
  revert ho
  generalize s.checkpoint.1 = s'
  intro ho
  cases ho with
  | unchanged state options failed history =>
    rwa [LineageStore.phase, state, options, failed, history]
  | broken rotated before failed state options history =>
    rw [LineageStore.phase_live before] at h
    rw [LineageStore.phase_down failed, history]
    cases rotated with
    | true => exact .stopped (.rotated h)
    | false => exact .replaced h
  | rotated c before failed state options history =>
    rw [LineageStore.phase_live before] at h
    refine Trace.write (j := .serving) ?_ fun _ => .checkpoint c
    rw [LineageStore.phase_live failed, history, state, options]
    exact .rotated h

theorem Step.trace {x y : LineageStore × Job} (h : Step wire x y)
    (ht : Trace wire x.1.medium.history (x.1.phase x.2)) :
    Trace wire y.1.medium.history (y.1.phase y.2) := by
  cases h with
  | write w => exact ht.write w
  | checkpoint => exact ht.checkpoint
  | @booted s hterminal =>
    by_cases hf : s.failed = true
    · rw [LineageStore.phase_down hf] at ht ⊢
      exact ht
    · have hf' : s.failed = false := by simpa using hf
      rw [LineageStore.phase_live hf'] at ht ⊢
      exact .booted ht (hterminal hf')
  | @fenced s todo hnone =>
    by_cases hf : s.failed = true
    · rw [LineageStore.phase_down hf] at ht ⊢
      exact ht
    · have hf' : s.failed = false := by simpa using hf
      rw [LineageStore.phase_live hf'] at ht ⊢
      exact .fenced ht (hnone hf')
  | failed hf =>
    rw [LineageStore.phase_down hf] at ht ⊢
    exact ht

theorem Path.trace {x y : LineageStore × Job} (h : Path wire x y)
    (ht : Trace wire x.1.medium.history (x.1.phase x.2)) :
    Trace wire y.1.medium.history (y.1.phase y.2) := by
  induction h with
  | refl => exact ht
  | tail _ hs ih => exact hs.trace ih

/-! ## What a path keeps -/

theorem Step.of_failed {x y : LineageStore × Job} (h : Step wire x y) (hf : x.1.failed = true) :
    y.1 = x.1 := by
  cases h with
  | write => exact commit_of_failed hf
  | checkpoint => exact checkpoint_of_failed hf
  | booted | fenced | failed => rfl

theorem Path.of_failed {x y : LineageStore × Job} (h : Path wire x y) (hf : x.1.failed = true) :
    y.1 = x.1 := by
  induction h with
  | refl => rfl
  | tail _ hs ih => rw [hs.of_failed (by rw [ih, hf]), ih]

theorem checkpoint_options (s : LineageStore) : s.checkpoint.1.options = s.options := by
  have ho := s.checkpoint_outcome
  revert ho
  generalize s.checkpoint.1 = s'
  intro ho
  cases ho with
  | unchanged _ options | broken _ _ _ _ options => exact options
  | rotated c _ _ _ options => rw [commit_options, options]

theorem Step.options {x y : LineageStore × Job} (h : Step wire x y) :
    y.1.options = x.1.options := by
  cases h with
  | write => exact commit_options
  | checkpoint => exact checkpoint_options _
  | booted | fenced | failed => rfl

theorem Path.options {x y : LineageStore × Job} (h : Path wire x y) :
    y.1.options = x.1.options := by
  induction h with
  | refl => rfl
  | tail _ hs ih => rw [hs.options, ih]

theorem Step.storeOk {x y : LineageStore × Job} (h : Step wire x y) (hs : x.1.StoreOk) :
    y.1.StoreOk := by
  cases h with
  | write => exact hs.commit _ _
  | checkpoint => exact hs.checkpoint
  | booted | fenced | failed => exact hs

theorem Path.storeOk {x y : LineageStore × Job} (h : Path wire x y) (hs : x.1.StoreOk) :
    y.1.StoreOk := by
  induction h with
  | refl => exact hs
  | tail _ hstep ih => exact hstep.storeOk ih

theorem commit_history : s.medium.history <+: (s.commit p apply).1.medium.history := by
  have ho := s.commit_outcome p apply
  revert ho
  generalize (s.commit p apply).1 = s'
  generalize (s.commit p apply).2 = st
  intro ho
  cases ho with
  | refused _ _ _ _ history => exact history ▸ List.prefix_rfl
  | lost _ _ _ _ _ _ _ history | done _ _ _ _ _ _ history =>
    rw [history]
    exact List.prefix_append _ _

/-- A step only adds to the history. -/
theorem Step.history {x y : LineageStore × Job} (h : Step wire x y) :
    x.1.medium.history <+: y.1.medium.history := by
  cases h with
  | write => exact commit_history
  | checkpoint s =>
    have ho := s.checkpoint_outcome
    revert ho
    dsimp only
    generalize s.checkpoint.1 = s'
    intro ho
    cases ho with
    | unchanged _ _ _ history => exact history ▸ List.prefix_rfl
    | broken _ _ _ _ _ history =>
      rw [history]
      exact List.prefix_append _ _
    | rotated c _ _ _ _ history =>
      refine List.IsPrefix.trans ?_ commit_history
      rw [history]
      exact List.prefix_append _ _
  | booted | fenced | failed => exact List.prefix_rfl

theorem Path.history {x y : LineageStore × Job} (h : Path wire x y) :
    x.1.medium.history <+: y.1.medium.history := by
  induction h with
  | refl => exact List.prefix_rfl
  | tail _ hs ih => exact ih.trans hs.history

/-- One record for each key, also behind a failure. -/
def LineageStore.Keyed (s : LineageStore) : Prop := (s.state.attempts.map AttemptRecord.key).Nodup

theorem Effect.keyed {seq : LineageSeq} {d d' : DurableState} (h : Effect seq d p d')
    (hn : (d.attempts.map AttemptRecord.key).Nodup) :
    (d'.attempts.map AttemptRecord.key).Nodup := by
  cases h with
  | attempt upserted => exact upserted.nodup hn
  | _ => exact hn

theorem commit_keyed (w : s.failed = false →
      Writes wire (lineage s.medium.history) s.options s.state j p apply j') (h : s.Keyed) :
    (s.commit p apply).1.Keyed := by
  cases hok : (s.commit p apply).2.isOk with
  | false => rw [LineageStore.Keyed, (commit_not_ok hok).2.1]; exact h
  | true =>
    obtain ⟨hf, -, seq, -, -, hstate, -⟩ := commit_ok hok
    rw [LineageStore.Keyed, hstate]
    exact ((w hf).effect seq).keyed h

theorem checkpoint_keyed (h : s.Keyed) : s.checkpoint.1.Keyed := by
  have ho := s.checkpoint_outcome
  revert ho
  generalize s.checkpoint.1 = s'
  intro ho
  cases ho with
  | unchanged state | broken _ _ _ state => rw [LineageStore.Keyed, state]; exact h
  | @rotated s₁ c _ _ state =>
    exact @commit_keyed True s₁ .serving _ _ _ (fun _ => .checkpoint c)
      (by rw [LineageStore.Keyed, state]; exact h)

theorem Step.keyed {x y : LineageStore × Job} (h : Step wire x y) (hk : x.1.Keyed) :
    y.1.Keyed := by
  cases h with
  | write w => exact commit_keyed w hk
  | checkpoint => exact checkpoint_keyed hk
  | booted | fenced | failed => exact hk

theorem Path.keyed {x y : LineageStore × Job} (h : Path wire x y) (hk : x.1.Keyed) :
    y.1.Keyed := by
  induction h with
  | refl => exact hk
  | tail _ hs ih => exact hs.keyed ih

/-- Whether the boot is over. -/
def Job.Serves : Job → Prop
  | .fresh | .booted => False
  | .owing _ j => j.Serves
  | _ => True

theorem Writes.serves {entries : List Entry} {o : StoreOptions} {d : DurableState}
    (w : Writes wire entries o d j p apply j') (h : j.Serves) :
    j'.Serves ∧ ∀ seq, (apply seq d).epoch = d.epoch ∧
      (apply seq d).coordinator = d.coordinator := by
  cases w with
  | boot | interrupt => cases h
  | fence => exact ⟨h, fun _ => ⟨rfl, rfl⟩⟩
  | _ => exact ⟨trivial, fun _ => ⟨rfl, rfl⟩⟩

theorem commit_epoch (w : s.failed = false →
      Writes wire (lineage s.medium.history) s.options s.state j p apply j') (h : j.Serves) :
    (s.commit p apply).1.state.epoch = s.state.epoch ∧
      (s.commit p apply).1.state.coordinator = s.state.coordinator := by
  cases hok : (s.commit p apply).2.isOk with
  | false => rw [(commit_not_ok hok).2.1]; exact ⟨rfl, rfl⟩
  | true =>
    obtain ⟨hf, -, seq, -, -, hstate, -⟩ := commit_ok hok
    rw [hstate]
    exact ((w hf).serves h).2 seq

theorem checkpoint_state (s : LineageStore) : s.checkpoint.1.state.epoch = s.state.epoch ∧
    s.checkpoint.1.state.coordinator = s.state.coordinator := by
  have ho := s.checkpoint_outcome
  revert ho
  generalize s.checkpoint.1 = s'
  intro ho
  cases ho with
  | unchanged state | broken _ _ _ state => rw [state]; exact ⟨rfl, rfl⟩
  | @rotated s₁ c _ _ state =>
    have := @commit_epoch True s₁ .serving _ _ _ (fun _ => .checkpoint c) trivial
    rwa [state] at this

/-- Once the boot is over the epoch stays. -/
theorem Step.epoch {x y : LineageStore × Job} (h : Step wire x y) (hj : x.2.Serves)
    (hf : x.1.failed = false) : (y.1.failed = false → y.2.Serves) ∧
      y.1.state.epoch = x.1.state.epoch ∧ y.1.state.coordinator = x.1.state.coordinator := by
  cases h with
  | write w => exact ⟨fun _ => ((w hf).serves hj).1, commit_epoch w hj⟩
  | checkpoint => exact ⟨fun _ => trivial, checkpoint_state _⟩
  | booted | fenced | failed => exact ⟨fun _ => trivial, rfl, rfl⟩

theorem Path.epoch {x y : LineageStore × Job} (h : Path wire x y) (hj : x.2.Serves) :
    (y.1.failed = false → y.2.Serves) ∧ y.1.state.epoch = x.1.state.epoch ∧
      y.1.state.coordinator = x.1.state.coordinator := by
  induction h with
  | refl => exact ⟨fun _ => hj, rfl, rfl⟩
  | @tail y z _ hs ih =>
    obtain ⟨hy, he, hc⟩ := ih
    by_cases hf : y.1.failed = true
    · rw [hs.of_failed hf]
      exact ⟨fun h => absurd hf (by simp [h]), he, hc⟩
    · have hf' : y.1.failed = false := by simpa using hf
      obtain ⟨h1, h2, h3⟩ := hs.epoch (hy hf') hf'
      exact ⟨h1, h2.trans he, h3.trans hc⟩

end LinkFailover
