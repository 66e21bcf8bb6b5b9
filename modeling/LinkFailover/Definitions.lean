import LinkFailover.Acceptance
import LinkFailover.Commits
import LinkFailover.Reboots

/-!
# Which definitions are in force

A policy or a topology can stand in the options of an open, in the journal or in a snapshot. The
options count until one of the two others holds a definition, and from then on they never count
again.

* `Facet`: a part of the state that has records of its own.
* `lastWritten`: what a history has written of it last.
* `definitions_durable`: the definitions of a process whose store has not failed.
* `definitions_survive`: the definitions of a process that has just come up.
* `generations_rise`: every definition of a lineage is of a later generation than the ones before.
-/

namespace LinkFailover

/-! ## Parts of the state -/

/-- A part of the state that has records of its own, and stands in the options at first. -/
structure Facet (α : Type) where
  get : DurableState → α
  option : StoreOptions → α
  written : Payload → Option α

/-- The records of a part say what becomes of it, and the options what it is at first. -/
structure Facet.Lawful {α : Type} (f : Facet α) : Prop where
  effect : ∀ {seq : LineageSeq} {d : DurableState} {p : Payload} {d' : DurableState},
    Effect seq d p d' → f.get d' = (f.written p).getD (f.get d)
  counted : ∀ (d : DurableState) (seq : LineageSeq) (n : UInt64),
    f.get { d with lastSeq := seq, recordCount := n } = f.get d
  first : ∀ o : StoreOptions, f.get
    { fabric := o.fabric, policy := o.policy, topology := o.topology } = f.option o

def policyFacet : Facet FailoverPolicy where
  get d := d.policy
  option o := o.policy
  written
    | .policy p => some p
    | _ => none

def topologyFacet : Facet TopologySnapshot where
  get d := d.topology
  option o := o.topology
  written
    | .topology t => some t
    | _ => none

def fabricFacet : Facet FabricName where
  get d := d.fabric
  option o := o.fabric
  written _ := none

theorem policyFacet_lawful : policyFacet.Lawful where
  effect h := by cases h <;> rfl
  counted _ _ _ := rfl
  first _ := rfl

theorem topologyFacet_lawful : topologyFacet.Lawful where
  effect h := by cases h <;> rfl
  counted _ _ _ := rfl
  first _ := rfl

theorem fabricFacet_lawful : fabricFacet.Lawful where
  effect h := by cases h <;> rfl
  counted _ _ _ := rfl
  first _ := rfl

/-! ## What is written -/

variable {α : Type} {f : Facet α}

/-- What an event writes of a part: its record, or a snapshot of the whole state. -/
def Event.writes (f : Facet α) : Event → Option α
  | .committed _ p _ _ _ => f.written p
  | .checkpointed d _ => some (f.get d)
  | _ => none

/-- What a history has written of a part last. -/
def lastWritten (f : Facet α) (history : List Event) : Option α :=
  history.foldl (fun last event => (event.writes f).or last) none

theorem lastWritten_append (history : List Event) (event : Event) :
    lastWritten f (history ++ [event]) = (event.writes f).or (lastWritten f history) := by
  rw [lastWritten, List.foldl_append]
  rfl

/-- Events that write nothing of a part. -/
theorem lastWritten_quiet {history events : List Event}
    (h : ∀ event ∈ events, event.writes f = none) :
    lastWritten f (history ++ events) = lastWritten f history := by
  induction events generalizing history with
  | nil => rw [List.append_nil]
  | cons event events ih =>
    rw [← List.singleton_append, ← List.append_assoc,
      ih fun x hx => h x (List.mem_cons_of_mem _ hx), lastWritten_append,
      h event List.mem_cons_self, Option.none_or]

/-- What the records of a disk make of a part, behind its snapshot. -/
def Disk.writes (f : Facet α) (k : Disk) : Option α :=
  k.records.foldl (fun last x => (f.written x.2).or last) (k.snapshot.map f.get)

theorem getD_or (a b : Option α) (x : α) : (a.or b).getD x = a.getD (b.getD x) := by
  cases a <;> rfl

/-- A replay makes of a part what its records say. -/
theorem replayRecords_get (hf : f.Lawful) {o : StoreOptions} {rs : List Entry}
    {acc acc' : DurableState × List Event} {last : Option α} {x : α}
    (h : Disk.replayRecords o rs acc = .ok acc') (hd : ∀ r ∈ rs, r.2.Decodes)
    (hx : f.get acc.1 = last.getD x) :
    f.get acc'.1 = (rs.foldl (fun last r => (f.written r.2).or last) last).getD x := by
  induction rs generalizing acc last with
  | nil =>
    cases h
    exact hx
  | cons r rs ih =>
    rw [Disk.replayRecords, List.foldlM_cons] at h
    cases hr : Disk.replayRecord o acc r with
    | error e => rw [hr] at h; cases h
    | ok mid =>
      rw [hr, ok_bind] at h
      have heffect := applyRecord_effect (hd r List.mem_cons_self) (replayRecord_eq_ok hr).1
      refine ih h (fun y hy => hd y (List.mem_cons_of_mem _ hy)) ?_
      rw [hf.effect heffect, getD_or, hx]

theorem start_get (hf : f.Lawful) (k : Disk) (o : StoreOptions) :
    f.get (k.start o) = (k.snapshot.map f.get).getD (f.option o) := by
  rw [Disk.start]
  cases k.snapshot with
  | none => exact hf.first o
  | some d => rfl

/-- What an open makes of a part. -/
theorem opened_get (hf : f.Lawful) {k : Disk} {o : StoreOptions} {d : DurableState}
    {events : List Event} (h : k.opened o = .ok (d, events))
    (hd : ∀ r ∈ k.records, r.2.Decodes) : f.get d = (k.writes f).getD (f.option o) :=
  replayRecords_get hf h hd (start_get hf k o)

/-! ## Runs of a directory -/

/-- What is known of a part: the disk stands for what was written of it, and so does the process
that has the directory open. -/
structure Standing (f : Facet α) (history : List Event) (phase : Phase) : Prop where
  disk : (Disk.ofHistory history).base = (Disk.ofHistory history).covered →
    (Disk.ofHistory history).writes f = lastWritten f history
  live : ∀ o d j, phase = .live o d j → f.get d = (lastWritten f history).getD (f.option o)

theorem writes_committed {k : Disk} {seq : LineageSeq} {p : Payload} {b a : DurableState}
    {ack : Bool} : (k.step (.committed seq p b a ack)).writes f =
      (f.written p).or (k.writes f) := by
  rw [Disk.writes, Disk.step, List.foldl_append]
  rfl

theorem Standing.commits {history : List Event} {phase : Phase} (h : Standing f history phase)
    {seq : LineageSeq} {p : Payload} {b a : DurableState} {ack : Bool} {phase' : Phase}
    (hlive : ∀ o d j, phase' = .live o d j → f.get d =
      ((f.written p).or (lastWritten f history)).getD (f.option o)) :
    Standing f (history ++ [.committed seq p b a ack]) phase' where
  disk hb := by
    rw [Disk.ofHistory_append] at hb ⊢
    rw [writes_committed, lastWritten_append, h.disk hb]
    rfl
  live o d j hphase := by
    rw [lastWritten_append]
    exact hlive o d j hphase

/-- A record leads to the part that it writes. -/
theorem Standing.applied (hf : f.Lawful) {wire : Prop} {entries : List Entry} {o : StoreOptions}
    {d : DurableState} {j j' : Job} {p : Payload}
    {apply : LineageSeq → DurableState → DurableState} {seq : LineageSeq} {last : Option α}
    (w : Writes wire entries o d j p apply j') (h : f.get d = last.getD (f.option o)) :
    f.get (LineageStore.applied apply seq d) =
      ((f.written p).or last).getD (f.option o) := by
  rw [LineageStore.applied, hf.counted, hf.effect (w.effect seq), getD_or, h]

theorem Trace.standing (hf : f.Lawful) {wire : Prop} {history : List Event} {phase : Phase}
    (h : Trace wire history phase) : Standing f history phase := by
  induction h with
  | empty => exact ⟨fun _ => rfl, by simp⟩
  | @opened history o d events h _ base replay ih =>
    have hquiet : ∀ event ∈ (.opened o :: events : List Event), event.writes f = none := by
      intro event hm
      rcases List.mem_cons.mp hm with rfl | hm
      · rfl
      · have hs := opened_silent replay event hm
        cases event <;> first | rfl | cases hs
    have hdisk := ofHistory_opened replay
    refine ⟨fun hb => ?_, ?_⟩
    · rw [hdisk] at hb ⊢
      rw [lastWritten_quiet hquiet]
      exact ih.disk hb
    · rintro _ _ _ ⟨⟩
      rw [lastWritten_quiet hquiet, ← ih.disk base]
      have hget := opened_get hf replay fun r hr => ?_
      · have hsame := hf.counted d (Disk.ofHistory history).last d.recordCount
        exact hsame.trans hget
      · obtain ⟨before, hl, -⟩ := h.numbered.1.suffix
        obtain ⟨A, B, hAB⟩ := List.append_of_mem hr
        exact (h.retained.entries (before ++ A) r B (by rw [hl, hAB, List.append_assoc])).2
  | committed h w next ih =>
    refine ih.commits ?_
    rintro _ _ _ ⟨⟩
    exact Standing.applied hf w (ih.live _ _ _ rfl)
  | lost h w next ih => exact ih.commits fun _ _ _ hphase => by cases hphase
  | booted h _ ih | fenced h _ ih =>
    refine ⟨ih.disk, ?_⟩
    rintro _ _ _ ⟨⟩
    exact ih.live _ _ _ rfl
  | stopped h ih => exact ⟨ih.disk, fun _ _ _ hphase => by cases hphase⟩
  | @rotated history o d h ih =>
    refine ⟨fun _ => ?_, ?_⟩
    · rw [Disk.ofHistory_append, lastWritten_append]
      rfl
    · rintro _ _ _ ⟨⟩
      rw [lastWritten_append]
      rfl
  | @replaced history o d h ih =>
    refine ⟨fun hb => ?_, fun _ _ _ hphase => by cases hphase⟩
    rw [Disk.ofHistory_append] at hb ⊢
    -- the journal has no record above the snapshot
    have hlast := h.numbered.2 _ _ _ rfl
    have hempty : (Disk.ofHistory history).records = [] := by
      obtain ⟨before, hl, hbase⟩ := h.numbered.1.suffix
      have hall := h.numbered.1.last
      have hcovered : (Disk.ofHistory history).base = d.lastSeq := hb
      rw [← hlast, ← hcovered, ← hbase, hl, List.length_append] at hall
      exact List.length_eq_zero_iff.mp (by omega)
    rw [lastWritten_append, Disk.writes, Disk.step, hempty]
    rfl

/-! ## Boots write no definition -/

/-- A boot is a walk of commits of its kinds. -/
theorem fenceAttempts_of_commits {R : LineageStore → LineageStore → Prop} (hrefl : ∀ s, R s s)
    (htrans : ∀ {s s' s''}, R s s' → R s' s'' → R s s'')
    (hcommit : ∀ (s : LineageStore) (p : Payload) (apply : Applies), p.OfBoot →
      R s (s.commit p apply).1) {epoch : Epoch} {coordinator : Incarnation}
    {rs : List AttemptRecord} {s : LineageStore} :
    R s (LineageStore.fenceAttempts epoch coordinator rs s).1 := by
  induction rs generalizing s with
  | nil => exact hrefl s
  | cons r rs ih =>
    by_cases hr : r.isTerminal = true
    · rw [LineageStore.fenceAttempts, if_pos hr]
      exact ih
    rw [LineageStore.fenceAttempts_cons (by simpa using hr)]
    have h1 : R s (s.writeInterrupt r).1 := hcommit _ _ _ rfl
    split
    · exact h1
    have h2 : R (s.writeInterrupt r).1
        ((s.writeInterrupt r).1.writeRestartFence epoch coordinator r).1 := hcommit _ _ _ trivial
    split
    · exact htrans h1 h2
    · exact htrans (htrans h1 h2) ih

theorem bootStore_of_commits {R : LineageStore → LineageStore → Prop} (hrefl : ∀ s, R s s)
    (htrans : ∀ {s s' s''}, R s s' → R s' s'' → R s s'')
    (hcommit : ∀ (s : LineageStore) (p : Payload) (apply : Applies), p.OfBoot →
      R s (s.commit p apply).1) {s : LineageStore} {incarnation : Incarnation}
    {build : Engine.Build} : R s (Engine.bootStore s incarnation build).1 := by
  unfold Engine.bootStore
  cases Engine.nextBoot s.state incarnation build with
  | error e => exact hrefl s
  | ok boot =>
    dsimp only
    have h1 : R s (s.commit (.boot boot) fun _ d => d.noteEpoch boot).1 := hcommit _ _ _ trivial
    split
    · exact h1
    have h2 := @fenceAttempts_of_commits R hrefl htrans hcommit boot.epoch incarnation
      (s.commit (.boot boot) fun _ d => d.noteEpoch boot).1.state.attempts
      (s.commit (.boot boot) fun _ d => d.noteEpoch boot).1
    rw [LineageStore.fenceRestartAuthority]
    revert h2
    generalize LineageStore.fenceAttempts boot.epoch incarnation
      (s.commit (.boot boot) fun _ d => d.noteEpoch boot).1.state.attempts
      (s.commit (.boot boot) fun _ d => d.noteEpoch boot).1 = w
    obtain ⟨s', r⟩ := w
    intro h2
    cases r <;> exact htrans h1 h2

/-- A commit of a record that writes nothing of a part. -/
theorem commit_lastWritten {s : LineageStore} {p : Payload} {apply : Applies}
    (hp : f.written p = none) :
    lastWritten f (s.commit p apply).1.medium.history = lastWritten f s.medium.history := by
  have ho := s.commit_outcome p apply
  revert ho
  generalize (s.commit p apply).1 = s'
  generalize (s.commit p apply).2 = st
  intro ho
  cases ho with
  | refused _ _ _ _ history => rw [history]
  | lost _ _ _ _ _ _ _ history | done _ _ _ _ _ _ history =>
    rw [history, lastWritten_append]
    exact (congrArg (Option.or · _) hp).trans (Option.none_or)

/-- An open leaves the definitions of the directory as they are. -/
theorem open_lastWritten (hf : ∀ p : Payload, p.OfBoot → f.written p = none) {b : Boot}
    {m : Medium} (hm : MediumOk False m) :
    lastWritten f (b.open m).1.history = lastWritten f m.history := by
  have hok : MediumOk False (b.medium m) := ⟨hm.trace, hm.represents⟩
  unfold Boot.open
  rcases @openEngine_cases _ b.options b.incarnation b.build _ hok with
    ⟨m', e, hopen, -, hh⟩ | ⟨s, d, events, -, replay, -, hh, -, -, -, hopen⟩
  · rw [hopen, hh]
    rfl
  have hs : lastWritten f s.medium.history = lastWritten f m.history := by
    rw [hh]
    refine lastWritten_quiet fun event hmem => ?_
    rcases List.mem_cons.mp hmem with rfl | hmem
    · rfl
    · have hsilent := opened_silent replay event hmem
      cases event <;> first | rfl | cases hsilent
  have hboot := @bootStore_of_commits
    (fun s s' : LineageStore =>
      lastWritten f s'.medium.history = lastWritten f s.medium.history)
    (fun _ => rfl) (fun h h' => h'.trans h) (fun _ _ _ hp => commit_lastWritten (hf _ hp))
    s b.incarnation b.build
  rw [hopen]
  revert hboot
  generalize Engine.bootStore s b.incarnation b.build = w
  intro hboot
  obtain ⟨s', r⟩ := w
  cases r <;> exact hboot.trans hs

/-! ## Processes -/

theorem Engine.standing (hf : f.Lawful) {e : Engine} (h : EngineOk False e)
    (hrunning : e.store.failed = false) :
    f.get e.state = (lastWritten f e.store.medium.history).getD (f.option e.options.store) := by
  have hget := (Trace.standing hf (Engine.ok_trace h hrunning)).live _ _ _ rfl
  rwa [h.options] at hget

/-- The definitions of a process are those that were written last, and the options stand in for
what was never written. -/
theorem definitions_durable {actions : List Action} {e : Engine} (he : System.run actions = .up e)
    (hf : e.store.failed = false) :
    e.state.policy =
      (lastWritten policyFacet e.store.medium.history).getD e.options.policy ∧
    e.state.topology =
      (lastWritten topologyFacet e.store.medium.history).getD e.options.topology ∧
    e.state.fabric =
      (lastWritten fabricFacet e.store.medium.history).getD e.options.fabric :=
  have h := Reachable.ok ⟨actions, he⟩
  ⟨Engine.standing policyFacet_lawful h hf, Engine.standing topologyFacet_lawful h hf,
    Engine.standing fabricFacet_lawful h hf⟩

/-- What a process that was killed leaves is opened by the next one. -/
theorem reopened_after {actions : List Action} {e' : Engine} {b : Boot}
    (he' : System.run (actions ++ [.kill, .start b]) = .up e') :
    ∃ m, m.history = (System.run actions).history ∧ MediumOk False m ∧ (b.open m).2 = .ok e' := by
  have hrun : System.run (actions ++ [.kill]) = .down (System.run actions).medium := by
    rw [System.run_append]
    cases System.run actions <;> rfl
  have hm := @System.run_ok False (actions ++ [.kill]) False.elim
  rw [hrun] at hm
  refine ⟨_, rfl, hm, ?_⟩
  rw [show actions ++ [.kill, .start b] = actions ++ [.kill] ++ [.start b] by simp,
    System.run_append, hrun, System.step] at he'
  revert he'
  generalize b.open (System.run actions).medium = w
  obtain ⟨m', r⟩ := w
  cases r with
  | error _ => exact fun he' => by cases he'
  | ok e'' => exact fun he' => by cases he'; rfl

/-- A part that no boot writes, in a process that has just come up. -/
theorem booted_get (hl : f.Lawful) (hf : ∀ p : Payload, p.OfBoot → f.written p = none)
    {actions : List Action} {e' : Engine} {b : Boot}
    (he' : System.run (actions ++ [.kill, .start b]) = .up e') :
    f.get e'.state =
      (lastWritten f (System.run actions).history).getD (f.option b.options.store) := by
  obtain ⟨m, hhistory, hm, hopen⟩ := reopened_after he'
  have hok : MediumOk False (b.medium m) := ⟨hm.trace, hm.represents⟩
  have hlast := open_lastWritten hf hm (b := b)
  obtain ⟨hengine, hrunning, hmedium⟩ :=
    (@openEngine_outcome False b.options b.incarnation b.build _ hok).2 e' hopen
  obtain ⟨s, -, epoch, -, hfields⟩ := openEngine_new hopen
  have hoptions : e'.options = b.options := by rw [hfields]
  rw [Engine.standing hl hengine hrunning, hmedium, hoptions, ← hhistory, ← hlast]
  rfl

/-- A fabric that was written is the one that the options of an open must name. -/
theorem open_fabric {b : Boot} {m : Medium} (hm : MediumOk False m) {e : Engine}
    (he : (b.open m).2 = .ok e) {x : FabricName} (hx : lastWritten fabricFacet m.history = some x) :
    b.options.fabric = x := by
  have hok : MediumOk False (b.medium m) := ⟨hm.trace, hm.represents⟩
  unfold Boot.open at he
  rcases @openEngine_cases _ b.options b.incarnation b.build _ hok with
    ⟨m', e, hopen, -, -⟩ | ⟨s, d, events, hstore, -, -, -, -, -, -, -⟩
  · rw [hopen] at he
    cases he
  obtain ⟨hrestorable, hbase, -, -⟩ :=
    LineageStore.openStore_ok hok.represents (fun d hd => hok.sound hd) hstore
  have hdisk := (Trace.standing fabricFacet_lawful hm.trace).disk hbase
  have hquiet : ∀ (rs : List Entry) (last : Option FabricName),
      rs.foldl (fun last r => (fabricFacet.written r.2).or last) last = last := by
    intro rs last
    induction rs with
    | nil => rfl
    | cons r rs ih => exact ih
  rw [hx, Disk.writes, hquiet] at hdisk
  obtain ⟨d, hd, rfl⟩ := Option.map_eq_some_iff.mp hdisk
  exact (hrestorable d hd).fabric.symm

/-- A process that follows a run takes over the policy and the topology that the history of the
run wrote last, by a record or in a snapshot, and what was never written comes from its own
options. It comes up only under the fabric of its options, and where a snapshot names a fabric it is
that one. Nothing is assumed of the process before: it may have failed, or be down already. -/
theorem definitions_survive {actions : List Action} {e : Engine} {b : Boot}
    (he : System.run (actions ++ [.kill, .start b]) = .up e) :
    e.state.policy =
      (lastWritten policyFacet (System.run actions).history).getD b.options.policy ∧
    e.state.topology =
      (lastWritten topologyFacet (System.run actions).history).getD b.options.topology ∧
    e.state.fabric = b.options.fabric ∧
    ∀ x, lastWritten fabricFacet (System.run actions).history = some x → b.options.fabric = x := by
  obtain ⟨m, hhistory, hm, hopen⟩ := reopened_after he
  have hnamed : ∀ x, lastWritten fabricFacet (System.run actions).history = some x →
      b.options.fabric = x := by
    intro x hx
    rw [← hhistory] at hx
    exact open_fabric hm hopen hx
  refine ⟨?_, ?_, ?_, hnamed⟩
  · exact booted_get policyFacet_lawful (fun p hp => by cases p <;> first | rfl | cases hp) he
  · exact booted_get topologyFacet_lawful (fun p hp => by cases p <;> first | rfl | cases hp) he
  · have h : e.state.fabric = (lastWritten fabricFacet (System.run actions).history).getD
        b.options.fabric := booted_get fabricFacet_lawful (fun _ _ => rfl) he
    rw [h]
    cases hlast : lastWritten fabricFacet (System.run actions).history with
    | none => rfl
    | some x => exact (hnamed x hlast).symm

/-- A process that has set a policy of its own. -/
def Sample.redefined : List Action :=
  [.start { options := Sample.options {} {}, incarnation := Sample.incarnation 1 },
    .perform (.setPolicy { generation := ⟨2⟩, maxAttemptsPerGeneration := 7 })]

/-- The next process is given the first policy again, and the one that was set stays in force. The
topology was never written and comes from its options. -/
theorem definitions_survive_sample : ∃ (b : Boot) (e e' : Engine),
    System.run Sample.redefined = .up e ∧
    System.run (Sample.redefined ++ [.kill, .start b]) = .up e' ∧
    b.options.policy.generation < e.state.policy.generation ∧ e'.state.policy = e.state.policy ∧
    e'.state.topology = b.options.topology := by
  let b : Boot := { options := Sample.options {} {}, incarnation := Sample.incarnation 2 }
  have h1 : (System.run Sample.redefined).serves (fun e => !e.store.failed &&
      (lastWritten policyFacet e.store.medium.history).isSome &&
      (lastWritten topologyFacet e.store.medium.history).isNone &&
      decide (b.options.policy.generation < e.state.policy.generation)) = true := by
    decide +kernel
  have h2 : (System.run Sample.redefined).serves (fun e => (e.reboot b).any fun e' =>
      ([].foldl System.step (.up e')).serves fun _ => true) = true := by
    decide +kernel
  obtain ⟨e, he, hp⟩ := System.of_serves h1
  obtain ⟨e', he', -⟩ := System.of_reboot h2
  simp only [Bool.and_eq_true, Bool.not_eq_true', decide_eq_true_eq] at hp
  obtain ⟨⟨⟨hf, hsome⟩, hnone⟩, hlt⟩ := hp
  obtain ⟨hpolicy, htopology, -⟩ := definitions_survive he'
  rw [he] at hpolicy htopology
  refine ⟨b, e, e', he, he', hlt, ?_, ?_⟩
  · obtain ⟨x, hx⟩ := Option.isSome_iff_exists.mp hsome
    rw [hpolicy, (definitions_durable he hf).1]
    change (lastWritten policyFacet e.store.medium.history).getD _ = _
    rw [hx]
    rfl
  · rw [htopology]
    change (lastWritten topologyFacet e.store.medium.history).getD _ = _
    rw [Option.isNone_iff_eq_none.mp hnone]
    rfl

/-! ## Generations -/

/-- The records of a part in a lineage. -/
def Facet.records (f : Facet α) (entries : List Entry) : List α :=
  entries.filterMap fun x => f.written x.2

/-- A record of a part is behind what it replaces. -/
def Event.Rises (f : Facet α) (rank : α → Nat) : Event → Prop
  | .committed _ p before _ _ => ∀ x, f.written p = some x → rank (f.get before) < rank x
  | _ => True

/-- The records of a lineage rise, and what was written last is at least the last one of them. -/
structure Rising (f : Facet α) (rank : α → Nat) (history : List Event) : Prop where
  rise : (f.records (lineage history)).Pairwise fun x y => rank x < rank y
  last : ∀ x ∈ f.records (lineage history), ∃ y, lastWritten f history = some y ∧ rank x ≤ rank y

variable {rank : α → Nat}

theorem records_append (entries : List Entry) (seq : LineageSeq) (p : Payload) :
    f.records (entries ++ [(seq, p)]) = f.records entries ++ (f.written p).toList := by
  rw [Facet.records, Facet.records, List.filterMap_append]
  cases hp : f.written p with
  | none => simp [hp]
  | some x => simp [hp]

theorem Rising.quiet {history events : List Event} (h : Rising f rank history)
    (hl : lineage (history ++ events) = lineage history)
    (hw : lastWritten f (history ++ events) = lastWritten f history) :
    Rising f rank (history ++ events) :=
  ⟨hl ▸ h.rise, by rw [hl, hw]; exact h.last⟩

/-- A record behind a state that stands for the history. -/
theorem Rising.commits {history : List Event} (h : Rising f rank history) {o : StoreOptions}
    {d a : DurableState} {seq : LineageSeq} {p : Payload} {ack : Bool}
    (hd : f.get d = (lastWritten f history).getD (f.option o))
    (hr : Event.Rises f rank (.committed seq p d a ack)) :
    Rising f rank (history ++ [.committed seq p d a ack]) := by
  have hbelow : ∀ x ∈ f.records (lineage history), rank x ≤ rank (f.get d) := by
    intro x hx
    obtain ⟨y, hy, hle⟩ := h.last x hx
    rwa [hd, hy]
  have hl : f.records (lineage (history ++ [.committed seq p d a ack])) =
      f.records (lineage history) ++ (f.written p).toList := by
    rw [lineage_append, lineage_committed, records_append]
  have hw : lastWritten f (history ++ [.committed seq p d a ack]) =
      (f.written p).or (lastWritten f history) := lastWritten_append _ _
  cases hp : f.written p with
  | none =>
    rw [hp, Option.toList_none, List.append_nil] at hl
    rw [hp, Option.none_or] at hw
    exact ⟨hl ▸ h.rise, by rw [hl, hw]; exact h.last⟩
  | some x =>
    rw [hp, Option.toList_some] at hl
    rw [hp, Option.some_or] at hw
    have hlt := hr x hp
    refine ⟨?_, fun y hy => ⟨x, hw, ?_⟩⟩
    · rw [hl, List.pairwise_append]
      refine ⟨h.rise, List.pairwise_singleton .., fun y hy z hz => ?_⟩
      rw [List.mem_singleton.mp hz]
      exact Nat.lt_of_le_of_lt (hbelow y hy) hlt
    · rw [hl, List.mem_append, List.mem_singleton] at hy
      rcases hy with hy | rfl
      · exact Nat.le_of_lt (Nat.lt_of_le_of_lt (hbelow y hy) hlt)
      · exact Nat.le_refl _

/-- A snapshot of a state that stands for the history. -/
theorem Rising.checkpointed {history : List Event} (h : Rising f rank history) {o : StoreOptions}
    {d : DurableState} (hd : f.get d = (lastWritten f history).getD (f.option o)) (b : Bool) :
    Rising f rank (history ++ [.checkpointed d b]) := by
  have hl : lineage (history ++ [.checkpointed d b]) = lineage history := by
    rw [lineage_append, lineage_checkpointed, List.append_nil]
  refine ⟨hl ▸ h.rise, fun x hx => ⟨f.get d, lastWritten_append _ _, ?_⟩⟩
  obtain ⟨y, hy, hle⟩ := h.last x (hl ▸ hx)
  rwa [hd, hy]

/-- Where every record is behind what it replaces, the records of a trace rise. -/
theorem Trace.rising (hf : f.Lawful) {wire : Prop} {history : List Event} {phase : Phase}
    (h : Trace wire history phase) (hr : ∀ event ∈ history, event.Rises f rank) :
    Rising f rank history := by
  induction h with
  | empty => exact ⟨.nil, by simp [Facet.records, lineage]⟩
  | @opened history o d events h _ _ replay ih =>
    refine (ih fun event hm => hr event (List.mem_append_left _ hm)).quiet
      (lineage_opened replay) (lastWritten_quiet fun event hm => ?_)
    rcases List.mem_cons.mp hm with rfl | hm
    · rfl
    · have hs := opened_silent replay event hm
      cases event <;> first | rfl | cases hs
  | committed h _ _ ih | lost h _ _ ih =>
    exact (ih fun event hm => hr event (List.mem_append_left _ hm)).commits
      ((h.standing hf).live _ _ _ rfl) (hr _ (List.mem_append_right _ List.mem_cons_self))
  | booted _ _ ih | fenced _ _ ih | stopped _ ih => exact ih hr
  | rotated h ih | replaced h ih =>
    exact (ih fun event hm => hr event (List.mem_append_left _ hm)).checkpointed
      ((h.standing hf).live _ _ _ rfl) _

/-! ## The records of an operation -/

/-- The events that commits of a kind bring to the history, and those of checkpoints. -/
theorem Commits.events {K : Payload → Applies → Prop} {s s' : LineageStore}
    (h : Commits K s s') : ∃ events, s'.medium.history = s.medium.history ++ events ∧
      ∀ seq p b a ack, Event.committed seq p b a ack ∈ events →
        (∃ c, p = .checkpoint c) ∨ ∃ apply, K p apply := by
  have hcommit : ∀ (s : LineageStore) (p : Payload) (apply : Applies), ∃ events,
      (s.commit p apply).1.medium.history = s.medium.history ++ events ∧
        ∀ seq p' b a ack, Event.committed seq p' b a ack ∈ events → p' = p := by
    intro s p apply
    have ho := s.commit_outcome p apply
    revert ho
    generalize (s.commit p apply).1 = s'
    generalize (s.commit p apply).2 = st
    intro ho
    cases ho with
    | refused _ _ _ _ history => exact ⟨[], by rw [history, List.append_nil], by simp⟩
    | lost _ _ _ _ _ _ _ history | done _ _ _ _ _ _ history =>
      refine ⟨_, history, fun _ _ _ _ _ hm => ?_⟩
      cases List.mem_singleton.mp hm
      rfl
  induction h with
  | refl => exact ⟨[], by rw [List.append_nil], by simp⟩
  | @commit s p apply h =>
    obtain ⟨events, he, hp⟩ := hcommit s p apply
    exact ⟨events, he, fun seq p' b a ack hm =>
      .inr ⟨apply, by rw [hp seq p' b a ack hm]; exact h⟩⟩
  | checkpoint s =>
    have ho := s.checkpoint_outcome
    revert ho
    generalize s.checkpoint.1 = s'
    intro ho
    cases ho with
    | unchanged _ _ _ history => exact ⟨[], by rw [history, List.append_nil], by simp⟩
    | broken _ _ _ _ _ history => exact ⟨_, history, by simp⟩
    | @rotated s₁ c _ _ _ _ history =>
      obtain ⟨events, he, hp⟩ := hcommit s₁ (.checkpoint c) fun _ d => d
      refine ⟨.checkpointed s.state true :: events, ?_, fun seq p b a ack hm => ?_⟩
      · rw [he, history, List.append_assoc]
        rfl
      · rcases List.mem_cons.mp hm with hc | hm
        · cases hc
        · exact .inl ⟨c, hp _ _ _ _ _ hm⟩
  | trans _ _ ih ih' =>
    obtain ⟨events, he, hp⟩ := ih
    obtain ⟨events', he', hp'⟩ := ih'
    refine ⟨events ++ events', by rw [he', he, List.append_assoc], fun seq p b a ack hm => ?_⟩
    exact (List.mem_append.mp hm).elim (hp seq p b a ack) (hp' seq p b a ack)

/-- A part whose records come from nowhere but its own operation. -/
structure Facet.Apart (f : Facet α) : Prop where
  attempt : ∀ w r, f.written (.attempt w r) = none
  fence : ∀ x, f.written (.fence x) = none
  decision : ∀ c, f.written (.decision c) = none
  shutdown : ∀ p, f.written (.shutdown p) = none
  checkpoint : ∀ c, f.written (.checkpoint c) = none

/-- Commits that write nothing of a part. -/
theorem Commits.rises (ha : f.Apart) {K : Payload → Applies → Prop} {s s' : LineageStore}
    (h : Commits K s s') (hk : ∀ p apply, K p apply → f.written p = none)
    (hs : ∀ event ∈ s.medium.history, event.Rises f rank) :
    ∀ event ∈ s'.medium.history, event.Rises f rank := by
  obtain ⟨events, he, hp⟩ := h.events
  rw [he]
  intro event hm
  rcases List.mem_append.mp hm with hm | hm
  · exact hs event hm
  cases event with
  | committed seq p b a ack =>
    intro x hx
    have hnone : f.written p = none := by
      rcases hp seq p b a ack hm with ⟨c, rfl⟩ | ⟨apply, h⟩
      · exact ha.checkpoint c
      · exact hk p apply h
    rw [hnone] at hx
    cases hx
  | _ => trivial

/-- A commit whose record is behind what it replaces. -/
theorem commit_rises {s : LineageStore} {p : Payload} {apply : Applies}
    (hp : ∀ x, f.written p = some x → rank (f.get s.state) < rank x)
    (hs : ∀ event ∈ s.medium.history, event.Rises f rank) :
    ∀ event ∈ (s.commit p apply).1.medium.history, event.Rises f rank := by
  have ho := s.commit_outcome p apply
  revert ho
  generalize (s.commit p apply).1 = s'
  generalize (s.commit p apply).2 = st
  intro ho
  cases ho with
  | refused _ _ _ _ history => rwa [history]
  | lost _ _ _ _ _ _ _ history | done _ _ _ _ _ _ history =>
    rw [history]
    intro event hm
    rcases List.mem_append.mp hm with hm | hm
    · exact hs event hm
    · rw [List.mem_singleton.mp hm]
      exact hp

/-- A new definition is behind the one in force, and nothing else that the operation writes is a
definition. -/
theorem setDefinition_rises (ha : f.Apart) {Tag : Type} {new current : StrongUint Tag UInt64}
    {sameContent : Bool} {code : ReasonCode} {regresses conflicts : String}
    {commit : Engine → LineageStore × Status} {cause : Engine.FenceCause} {e : Engine}
    {p : Payload}
    {apply : Applies} (hc : (commit e).1 = (e.store.commit p apply).1)
    (hp : current.toNat < new.toNat →
      ∀ x, f.written p = some x → rank (f.get e.state) < rank x)
    (hs : ∀ event ∈ e.store.medium.history, event.Rises f rank) :
    ∀ event ∈ (e.setDefinition new current sameContent code regresses conflicts commit
      cause).1.store.medium.history, event.Rises f rank := by
  unfold Engine.setDefinition
  split
  · exact hs
  split
  · split <;> exact hs
  rename_i h1 h2
  have hlt : current.toNat < new.toNat := by
    rw [StrongUint.lt_iff] at h1
    rw [← StrongUint.toNat_inj] at h2
    omega
  have hfirst : ∀ event ∈ (commit e).1.medium.history, event.Rises f rank := by
    rw [hc]
    exact commit_rises (hp hlt) hs
  dsimp only
  split
  · exact hfirst
  · have hk := @Engine.fenceAuthorities_commits (fun p _ => f.written p = none)
      (e.withWrite (commit e)) cause (e.withWrite (commit e)).state.attempts
      ⟨fun w r _ _ _ => ha.attempt w r, fun x _ => ha.fence x, ha.decision, ha.shutdown⟩
    exact hk.rises ha (fun _ _ h => h) hfirst

def epochFacet : Facet Epoch where
  get d := d.epoch
  option _ := .zero
  written
    | .boot p => some p.epoch
    | _ => none

theorem epochFacet_lawful : epochFacet.Lawful where
  effect h := by cases h <;> rfl
  counted _ _ _ := rfl
  first _ := rfl

theorem policyFacet_apart : policyFacet.Apart :=
  ⟨fun _ _ => rfl, fun _ => rfl, fun _ => rfl, fun _ => rfl, fun _ => rfl⟩

theorem topologyFacet_apart : topologyFacet.Apart :=
  ⟨fun _ _ => rfl, fun _ => rfl, fun _ => rfl, fun _ => rfl, fun _ => rfl⟩

theorem setPolicy_rises {e : Engine} {policy : FailoverPolicy}
    (hs : ∀ event ∈ e.store.medium.history,
      event.Rises policyFacet fun p => p.generation.toNat) :
    ∀ event ∈ (e.setPolicy policy).1.store.medium.history,
      event.Rises policyFacet fun p => p.generation.toNat := by
  unfold Engine.setPolicy
  split
  · exact hs
  split
  · exact hs
  refine setDefinition_rises policyFacet_apart (p := .policy policy) rfl ?_ hs
  rintro hlt _ ⟨⟩
  exact hlt

theorem setTopology_rises {e : Engine} {topology : TopologySnapshot}
    (hs : ∀ event ∈ e.store.medium.history,
      event.Rises topologyFacet fun t => t.generation.toNat) :
    ∀ event ∈ (e.setTopology topology).1.store.medium.history,
      event.Rises topologyFacet fun t => t.generation.toNat := by
  unfold Engine.setTopology
  dsimp only
  split
  · exact hs
  split
  · exact hs
  refine setDefinition_rises topologyFacet_apart (p := .topology topology.canonicalise) rfl ?_ hs
  rintro hlt _ ⟨⟩
  exact hlt

/-- An operation that writes nothing of a part. -/
theorem perform_rises (ha : f.Apart) {e : Engine} {op : Operation}
    (hk : ∀ p apply, e.Makes op p apply → f.written p = none)
    (hs : ∀ event ∈ e.store.medium.history, event.Rises f g) :
    ∀ event ∈ (e.perform op).1.store.medium.history, event.Rises f g := by
  obtain ⟨s, hc, h | h⟩ := e.perform_stores op
  · rw [h]
    exact hc.rises ha hk hs
  · rw [h]
    exact hc.rises ha hk hs

theorem perform_rises_policy {e : Engine} {op : Operation}
    (hs : ∀ event ∈ e.store.medium.history,
      event.Rises policyFacet fun p => p.generation.toNat) :
    ∀ event ∈ (e.perform op).1.store.medium.history,
      event.Rises policyFacet fun p => p.generation.toNat := by
  cases op with
  | setPolicy policy => exact setPolicy_rises hs
  | _ =>
    refine perform_rises policyFacet_apart (fun p apply hm => ?_) hs
    cases hm with
    | policy h => cases h
    | _ => rfl

theorem perform_rises_topology {e : Engine} {op : Operation}
    (hs : ∀ event ∈ e.store.medium.history,
      event.Rises topologyFacet fun t => t.generation.toNat) :
    ∀ event ∈ (e.perform op).1.store.medium.history,
      event.Rises topologyFacet fun t => t.generation.toNat := by
  cases op with
  | setTopology topology => exact setTopology_rises hs
  | _ =>
    refine perform_rises topologyFacet_apart (fun p apply hm => ?_) hs
    cases hm with
    | topology h => cases h
    | _ => rfl

/-- A boot writes no record of a part that has none of its kinds. -/
theorem open_rises (hf : ∀ p : Payload, p.OfBoot → f.written p = none) {b : Boot} {m : Medium}
    (hm : MediumOk False m) (hs : ∀ event ∈ m.history, event.Rises f rank) :
    ∀ event ∈ (b.open m).1.history, event.Rises f rank := by
  have hok : MediumOk False (b.medium m) := ⟨hm.trace, hm.represents⟩
  unfold Boot.open
  rcases @openEngine_cases _ b.options b.incarnation b.build _ hok with
    ⟨m', e, hopen, -, hh⟩ | ⟨s, d, events, -, replay, -, hh, -, -, -, hopen⟩
  · rw [hopen, hh]
    exact hs
  have hstore : ∀ event ∈ s.medium.history, event.Rises f rank := by
    rw [hh]
    intro event hmem
    rcases List.mem_append.mp hmem with hmem | hmem
    · exact hs event hmem
    rcases List.mem_cons.mp hmem with rfl | hmem
    · trivial
    · have hsilent := opened_silent replay event hmem
      cases event <;> trivial
  have hboot := @bootStore_of_commits
    (fun s s' : LineageStore => (∀ event ∈ s.medium.history, event.Rises f rank) →
      ∀ event ∈ s'.medium.history, event.Rises f rank)
    (fun _ h => h) (fun h h' hs => h' (h hs))
    (fun _ _ _ hp => commit_rises fun x hx => by rw [hf _ hp] at hx; cases hx)
    s b.incarnation b.build hstore
  rw [hopen]
  revert hboot
  generalize Engine.bootStore s b.incarnation b.build = w
  intro hboot
  obtain ⟨s', r⟩ := w
  cases r <;> exact hboot

theorem System.run_rises (hf : ∀ p : Payload, p.OfBoot → f.written p = none)
    (hperform : ∀ (e : Engine) (op : Operation),
      (∀ event ∈ e.store.medium.history, event.Rises f rank) →
        ∀ event ∈ (e.perform op).1.store.medium.history, event.Rises f rank)
    (actions : List Action) : ∀ event ∈ (run actions).history, event.Rises f rank := by
  induction actions using List.reverseRecOn with
  | nil => exact fun event hm => by cases hm
  | append_singleton actions a ih =>
    have hok := @run_ok False actions False.elim
    rw [run_append]
    revert ih hok
    generalize run actions = s
    intro ih hok
    cases s with
    | down m =>
      cases a with
      | start b =>
        have hboot := open_rises hf hok ih (b := b)
        have ho := (@openEngine_outcome False b.options b.incarnation b.build (b.medium m)
          ⟨hok.trace, hok.represents⟩).2
        rw [step]
        unfold Boot.open at hboot ⊢
        revert hboot ho
        generalize Engine.openEngine b.options b.incarnation b.build (b.medium m) = w
        obtain ⟨m', r⟩ := w
        intro hboot ho
        cases r with
        | error _ => exact hboot
        | ok e =>
          obtain ⟨-, -, hmedium⟩ := ho e rfl
          change ∀ event ∈ e.store.medium.history, event.Rises f rank
          rw [hmedium]
          exact hboot
      | perform | kill => exact ih
    | up e =>
      cases a with
      | perform op => exact hperform e op ih
      | start | kill => exact ih

/-- Every boot takes a later epoch than the one in force. -/
theorem Trace.epochs_rise {wire : Prop} {history : List Event} {phase : Phase}
    (h : Trace wire history phase) :
    ∀ event ∈ history, event.Rises epochFacet StrongUint.toNat := by
  have hwrite : ∀ {entries : List Entry} {o : StoreOptions} {d a : DurableState} {j j' : Job}
      {p : Payload} {apply : Applies} {seq : LineageSeq} {ack : Bool},
      Writes wire entries o d j p apply j' →
      Event.Rises epochFacet StrongUint.toNat (.committed seq p d a ack) := by
    intro entries o d a j j' p apply seq ack w
    cases w with
    | boot hb =>
      rintro x ⟨⟩
      have := StrongUint.next_toNat (nextBoot_epoch hb).1
      change d.epoch.toNat < _
      omega
    | _ => exact fun x hx => by cases hx
  induction h with
  | empty => exact fun event hm => by cases hm
  | opened h _ _ replay ih =>
    intro event hm
    rcases List.mem_append.mp hm with hm | hm
    · exact ih event hm
    rcases List.mem_cons.mp hm with rfl | hm
    · trivial
    · have hs := opened_silent replay event hm
      cases event <;> trivial
  | committed h w _ ih | lost h w _ ih =>
    intro event hm
    rcases List.mem_append.mp hm with hm | hm
    · exact ih event hm
    · rw [List.mem_singleton.mp hm]
      exact hwrite w
  | booted _ _ ih | fenced _ _ ih | stopped _ ih => exact ih
  | rotated h ih | replaced h ih =>
    intro event hm
    rcases List.mem_append.mp hm with hm | hm
    · exact ih event hm
    · rw [List.mem_singleton.mp hm]
      trivial

/-- In every run the policies, the topologies and the epochs of the lineage rise: each record is of
a later generation than all the ones before it, over any number of boots and failures. -/
theorem generations_rise (actions : List Action) :
    ((policyFacet.records (lineage (System.run actions).history)).Pairwise fun p q =>
      p.generation < q.generation) ∧
    ((topologyFacet.records (lineage (System.run actions).history)).Pairwise fun t u =>
      t.generation < u.generation) ∧
    (epochFacet.records (lineage (System.run actions).history)).Pairwise fun a b => a < b := by
  obtain ⟨phase, h⟩ := @System.run_trace False actions False.elim
  have hpolicies : Rising policyFacet (fun p => p.generation.toNat) _ :=
    h.rising policyFacet_lawful (System.run_rises
      (fun p hp => by cases p <;> first | rfl | cases hp) (fun _ _ => perform_rises_policy) actions)
  have htopologies : Rising topologyFacet (fun t => t.generation.toNat) _ :=
    h.rising topologyFacet_lawful (System.run_rises
      (fun p hp => by cases p <;> first | rfl | cases hp) (fun _ _ => perform_rises_topology)
      actions)
  have hepochs : Rising epochFacet StrongUint.toNat _ :=
    h.rising epochFacet_lawful h.epochs_rise
  exact ⟨hpolicies.rise.imp StrongUint.lt_iff.mpr, htopologies.rise.imp StrongUint.lt_iff.mpr,
    hepochs.rise.imp StrongUint.lt_iff.mpr⟩

end LinkFailover
