import LinkFailover.Worker

/-!
# Effects and the lineage

The effect of an attempt is outside of the coordinator, and nothing makes the two change together.
A worker may die between its effect and the report of it, and its report may be carried out without
an answer. What holds is an order: no effect is without a grant in front of it, and no attempt
counts as applied before its effect is there.

* `Fleet.Goes`: everything that a step of a worker can do.
* `Fleet.Authorized`, `Fleet.Sound`: what every step of a fleet keeps.
* `effects_authorized`: every effect record is about an attempt that was granted.
* `effects_precede`: every attempt that counts as applied has its effect record.
-/

namespace LinkFailover

open Codec

/-! ## What a worker does -/

/-- The reports of a worker, and where it goes on behind the answer. -/
inductive Worker.Reports (w : Worker) (files : Effects) : WorkerReport → Stage → Prop
  | refusal {d : ApplyDirective} {todo : List ApplyDirective}
      (hs : w.stage = .directed (d :: todo)) :
      Reports w files (.application (w.application d false)) (.directed todo)
  | application {d : ApplyDirective} {path : Bytes} {todo : List ApplyDirective}
      (hs : w.stage = .applied d path todo) :
      Reports w files (.application (w.application d true))
        (if w.options.verify then .acknowledged d path todo else .directed todo)
  | verification {d : ApplyDirective} {path : Bytes} {todo : List ApplyDirective}
      (hs : w.stage = .acknowledged d path todo) :
      Reports w files (.verification (w.verification d (readEffect files path))) (.directed todo)

namespace Fleet

/-- A file of the effect directory is written. -/
def put (f : Fleet) (w : Worker) (d : ApplyDirective) (content : Bytes) : Fleet :=
  { f with files := f.files.write (effectPath w.options.effectDir d) content }

/-- What a step of a worker makes of the fleet. -/
inductive Goes (f : Fleet) (w : Worker) : Fleet → Prop
  | stays : Goes f w f
  | ends (code : ExitCode) : Goes f w (f.enter w (.ended code))
  | again : Goes f w (f.enter w .claiming)
  | claims {e : Engine} (hs : f.system = .up e) :
      Goes f w (f.enter { w with round := w.round + 1 } (.directed (e.pendingDirectives 8)))
  | applies {d : ApplyDirective} {todo : List ApplyDirective}
      (hs : w.stage = .directed (d :: todo)) :
      Goes f w ((f.put w d (effectText d w.options.worker)).enter w
        (.applied d (effectPath w.options.effectDir d) todo))
  | breaks {d : ApplyDirective} {todo : List ApplyDirective} (hs : w.stage = .directed (d :: todo))
      (n : Nat) :
      Goes f w ((f.put w d ((effectText d w.options.worker).take n)).enter w (.ended .transport))
  | reports {e : Engine} {r : WorkerReport} {next stage : Stage} (hs : f.system = .up e)
      (hr : w.Reports f.files r next) (hn : stage = next ∨ stage = .ended .transport) :
      Goes f w ({ f with system := .up (e.perform r.operation).1 }.enter w stage)

variable {f : Fleet} {w : Worker}

theorem coordinator_some {e : Engine} (h : f.coordinator w = some e) :
    f.system = .up e ∧ e.epoch = w.epoch ∧ e.incarnation = w.coordinator := by
  unfold coordinator at h
  split at h
  · rename_i hs
    split at h
    · rename_i hc
      cases h
      exact ⟨hs, hc⟩
    · cases h
  · cases h

theorem report_goes {r : WorkerReport} {fate : Fate} {next : Stage}
    (hr : w.Reports f.files r next) : Goes f w (f.report w r fate next) := by
  unfold report
  cases hc : f.coordinator w with
  | none => exact .ends _
  | some e =>
    have hs := (coordinator_some hc).1
    dsimp only
    cases fate.call with
    | unasked => exact .ends _
    | unheard => exact .reports hs hr (.inr rfl)
    | answered =>
      refine .reports hs hr ?_
      split
      · exact .inl rfl
      · exact .inr rfl

theorem claim_goes (fate : Fate) : Goes f w (f.claim w fate) := by
  unfold claim
  cases hc : f.coordinator w with
  | none => exact .ends _
  | some e =>
    have hs := (coordinator_some hc).1
    dsimp only
    by_cases ha : fate.call = .answered
    · rw [if_pos ha]
      exact .claims hs
    · rw [if_neg ha]
      exact .ends _

theorem apply_goes {d : ApplyDirective} {todo : List ApplyDirective} (fate : Fate)
    (hs : w.stage = .directed (d :: todo)) : Goes f w (f.apply w d todo fate) := by
  unfold apply
  cases fate.write with
  | whole => exact .applies hs
  | unopened => exact .ends _
  | short n => exact .breaks hs n

/-- Everything that a step of a worker can do. -/
theorem work_goes (fate : Fate) : Goes f w (f.work w fate) := by
  unfold work
  split
  · exact claim_goes fate
  · split
    · exact .ends _
    · exact .again
  · rename_i hs
    split
    · exact report_goes (.refusal hs)
    · exact apply_goes fate hs
  · rename_i hs
    exact report_goes (.application hs)
  · rename_i hs
    exact report_goes (.verification hs)
  · exact .stays

/-! ## Runs -/

/-- What a step of a fleet does to its coordinator. -/
theorem step_system (f : Fleet) (a : FleetAction) : (f.step a).system = f.system ∨
    ∃ x, (f.step a).system = f.system.step x ∧ ∀ b, x = .start b → a = .system (.start b) := by
  cases a with
  | system a => exact .inr ⟨a, rfl, fun b hb => by rw [hb]⟩
  | connect o i =>
    refine .inl ?_
    rw [step]
    split <;> rfl
  | crash => exact .inl rfl
  | work fate =>
    cases hw : f.worker with
    | none =>
      rw [step, hw]
      exact .inl rfl
    | some w =>
      rw [step, hw]
      have hgoes := @work_goes f w fate
      revert hgoes
      dsimp only
      generalize f.work w fate = f'
      intro hgoes
      cases hgoes with
      | stays | ends | again | claims | applies | breaks => exact .inl rfl
      | @reports e r next stage hup hr hn =>
        refine .inr ⟨.perform r.operation, ?_, fun b hb => by cases hb⟩
        rw [hup]
        rfl

/-- The coordinator of a fleet runs through the actions of the others and the reports of the
workers. -/
theorem run_system (actions : List FleetAction) : ∃ as : List Action,
    (run actions).system = System.run as ∧
      ∀ b, Action.start b ∈ as → FleetAction.system (.start b) ∈ actions := by
  induction actions using List.reverseRecOn with
  | nil => exact ⟨[], rfl, fun b hb => absurd hb List.not_mem_nil⟩
  | append_singleton actions a ih =>
    obtain ⟨as, hs, hb⟩ := ih
    have hold : ∀ b, Action.start b ∈ as → FleetAction.system (.start b) ∈ actions ++ [a] :=
      fun b h => List.mem_append_left _ (hb b h)
    rw [run_append]
    rcases (run actions).step_system a with he | ⟨x, he, hx⟩
    · exact ⟨as, he.trans hs, hold⟩
    · refine ⟨as ++ [x], ?_, fun b h => ?_⟩
      · rw [he, hs, System.run_append]
      · rcases List.mem_append.mp h with h | h
        · exact hold b h
        · rw [← hx b (List.mem_singleton.mp h).symm]
          exact List.mem_append_right _ List.mem_cons_self

theorem run_ok (actions : List FleetAction) : (run actions).system.Ok False := by
  obtain ⟨as, hs, -⟩ := run_system actions
  rw [hs]
  exact System.run_ok False.elim

/-- The history of a fleet continues the history of its beginning. -/
theorem step_begins {f : Fleet} (h : f.system.Ok False) (a : FleetAction) :
    f.system.history <+: (f.step a).system.history := by
  rcases f.step_system a with he | ⟨x, he, -⟩
  · exact ⟨[], by rw [he, List.append_nil]⟩
  · rw [he]
    exact System.step_history h x

end Fleet

/-! ## Effects behind grants -/

/-- The directive whose effect a worker has written, with its record. -/
def Stage.held : Stage → Option (ApplyDirective × Bytes)
  | .applied d path _ | .acknowledged d path _ => some (d, path)
  | .claiming | .directed _ | .ended _ => none

/-- The directives that a worker has still to look at. -/
def Stage.todo : Stage → List ApplyDirective
  | .directed todo | .applied _ _ todo | .acknowledged _ _ todo => todo
  | .claiming | .ended _ => []

/-- The directives that a worker has at hand. -/
def Stage.directives (s : Stage) : List ApplyDirective := (s.held.map Prod.fst).toList ++ s.todo

namespace Fleet

/-- Every directive at hand and every effect record is about an attempt that was granted. -/
structure Authorized (f : Fleet) : Prop where
  worker : ∀ w, f.worker = some w →
    ∀ d ∈ w.stage.directives, GrantsDirective (lineage f.system.history) d
  files : ∀ path content, f.files.read path = some content → ∃ directory d worker,
    path = effectPath directory d ∧ content <+: effectText d worker ∧
      GrantsDirective (lineage f.system.history) d

section Authority

variable {f : Fleet} {w : Worker}

/-- A file is written. -/
theorem Authorized.put (h : f.Authorized) (hw : f.worker = some w) {d : ApplyDirective}
    (hd : d ∈ w.stage.directives) {content : Bytes}
    (hc : content <+: effectText d w.options.worker) : (f.put w d content).Authorized := by
  refine ⟨h.worker, fun path content' hr => ?_⟩
  by_cases hp : path = effectPath w.options.effectDir d
  · subst hp
    change (f.files.write _ content).read _ = _ at hr
    rw [Effects.read_write] at hr
    cases hr
    exact ⟨w.options.effectDir, d, w.options.worker, rfl, hc, h.worker w hw d hd⟩
  · change (f.files.write _ content).read _ = _ at hr
    rw [Effects.read_write_of_ne hp] at hr
    exact h.files path content' hr

/-- A worker enters a stage. -/
theorem Authorized.enter (h : f.Authorized) {stage : Stage}
    (hs : ∀ d ∈ stage.directives, GrantsDirective (lineage f.system.history) d) :
    (f.enter w stage).Authorized where
  worker w' hw' := by
    cases hw'
    exact hs
  files := h.files

/-- The lineage goes on. -/
theorem Authorized.moved (h : f.Authorized) {system : System}
    (hp : f.system.history <+: system.history) : { f with system := system }.Authorized where
  worker w hw d hd := (h.worker w hw d hd).mono (lineage_begins hp)
  files path content hr := by
    obtain ⟨directory, d, worker, hpath, hc, hg⟩ := h.files path content hr
    exact ⟨directory, d, worker, hpath, hc, hg.mono (lineage_begins hp)⟩

theorem Authorized.goes (h : f.Authorized) (hw : f.worker = some w) {as : List Action}
    (hs : f.system = System.run as) {f' : Fleet} (hg : f.Goes w f') : f'.Authorized := by
  have hdirectives := h.worker w hw
  cases hg with
  | stays => exact h
  | ends code => exact h.enter fun d hd => absurd hd List.not_mem_nil
  | again => exact h.enter fun d hd => absurd hd List.not_mem_nil
  | @claims e hup =>
    refine h.enter fun d hd => ?_
    have hgranted := @pending_granted as e d 8 (hs ▸ hup) hd
    rw [hup]
    exact hgranted
  | @applies d todo hstage =>
    rw [hstage] at hdirectives
    exact (h.put hw (by rw [hstage]; exact List.mem_cons_self) List.prefix_rfl).enter hdirectives
  | @breaks d todo hstage n =>
    exact (h.put hw (by rw [hstage]; exact List.mem_cons_self) (List.take_prefix n _)).enter
      fun d hd => absurd hd List.not_mem_nil
  | @reports e r next stage hup hr hn =>
    have hok : EngineOk False e := by
      have hok := @System.run_ok False as False.elim
      rw [← hs, hup] at hok
      exact hok
    have hbegins : f.system.history <+: (System.up (e.perform r.operation).1).history := by
      rw [hup]
      exact @System.step_history False (.up e) hok (.perform r.operation)
    refine (h.moved hbegins).enter fun d hd => ?_
    refine (hdirectives d ?_).mono (lineage_begins hbegins)
    rcases hn with rfl | rfl
    · cases hr with
      | refusal hstage =>
        rw [hstage]
        exact List.mem_cons_of_mem _ hd
      | application hstage =>
        rw [hstage]
        split at hd
        · exact hd
        · exact List.mem_cons_of_mem _ hd
      | verification hstage =>
        rw [hstage]
        exact List.mem_cons_of_mem _ hd
    · exact absurd hd List.not_mem_nil

theorem run_authorized (actions : List FleetAction) : (run actions).Authorized := by
  induction actions using List.reverseRecOn with
  | nil => exact ⟨fun w hw => (by cases hw), fun path content hr => (by cases hr)⟩
  | append_singleton actions a ih =>
    obtain ⟨as, hs, -⟩ := run_system actions
    have hok := run_ok actions
    rw [run_append]
    revert ih hs hok
    generalize run actions = f
    intro ih hs hok
    cases a with
    | system x => exact ih.moved (System.step_history hok x)
    | connect o i =>
      rw [step]
      split
      · exact ih
      · refine ⟨fun w hw d hd => ?_, ih.files⟩
        cases hw
        exact absurd hd List.not_mem_nil
    | crash => exact ⟨fun w hw => (by cases hw), ih.files⟩
    | work fate =>
      cases hw : f.worker with
      | none =>
        rw [step, hw]
        exact ih
      | some w =>
        rw [step, hw]
        exact ih.goes hw hs (work_goes fate)

end Authority

end Fleet

/-- Whatever workers, boots, crashes and other callers do: an effect record is about an attempt
that the lineage has granted, it carries the name of its directive, and as much of its text as was
written. -/
theorem effects_authorized (actions : List FleetAction) {path content : Bytes}
    (h : (Fleet.run actions).files.read path = some content) :
    ∃ directory d worker, path = effectPath directory d ∧ content <+: effectText d worker ∧
      GrantsDirective (lineage (Fleet.run actions).system.history) d :=
  (Fleet.run_authorized actions).files path content h

/-! ## Effects in front of acknowledgements -/

/-- What a worker in a directory has at hand is of this fabric, about different attempts, not
applied where it is still to do, and written where it is done. -/
structure Worker.Sound (w : Worker) (fabric : FabricName) (directory : Bytes) (files : Effects)
    (entries : List Entry) : Prop where
  effectDir : w.options.effectDir = directory
  fabric : ∀ d ∈ w.stage.directives, d.subject.fabric = fabric
  nodup : (w.stage.directives.map ApplyDirective.identity).Nodup
  todo : ∀ d ∈ w.stage.todo, ¬ CountsApplied entries d.identity
  held : ∀ d path, w.stage.held = some (d, path) →
    path = effectPath directory d ∧ files.read path = some (effectText d w.options.worker)

/-- An attempt has its effect record. -/
def Effects.Shows (files : Effects) (fabric : FabricName) (directory : Bytes) (i : Identity) :
    Prop :=
  ∃ d worker, d.identity = i ∧ d.subject.fabric = fabric ∧
    files.read (effectPath directory d) = some (effectText d worker)

namespace Fleet

structure Sound (f : Fleet) (fabric : FabricName) (directory : Bytes) : Prop where
  applied : ∀ i, CountsApplied (lineage f.system.history) i → f.files.Shows fabric directory i
  worker : ∀ w, f.worker = some w →
    w.Sound fabric directory f.files (lineage f.system.history)

section Order

variable {f : Fleet} {w : Worker} {fabric : FabricName} {directory : Bytes}
  {entries entries' : List Entry} {files : Effects}

/-- A worker with nothing at hand. -/
theorem idle_sound (hd : w.options.effectDir = directory) (hs : w.stage.directives = []) :
    w.Sound fabric directory files entries where
  effectDir := hd
  fabric d hm := by
    rw [hs] at hm
    cases hm
  nodup := by
    rw [hs]
    exact List.nodup_nil
  todo d hm := by
    have hall : d ∈ w.stage.directives := List.mem_append_right _ hm
    rw [hs] at hall
    cases hall
  held d path hm := by
    have hall : d ∈ w.stage.directives := List.mem_append_left _ (by
      rw [hm]
      exact List.mem_cons_self)
    rw [hs] at hall
    cases hall

/-- Nothing that is still to do gets applied. -/
theorem sound_moved (h : w.Sound fabric directory files entries)
    (hq : ∀ d ∈ w.stage.todo, CountsApplied entries' d.identity →
      CountsApplied entries d.identity) : w.Sound fabric directory files entries' :=
  ⟨h.effectDir, h.fabric, h.nodup, fun d hd ha => h.todo d hd (hq d hd ha), h.held⟩

/-- A worker goes on among what it has at hand. -/
theorem sound_next (h : w.Sound fabric directory files entries) {stage : Stage}
    (hs : stage.directives.Sublist w.stage.directives) (ht : ∀ d ∈ stage.todo, d ∈ w.stage.todo)
    (hh : ∀ x, stage.held = some x → w.stage.held = some x) :
    ({ w with stage := stage } : Worker).Sound fabric directory files entries where
  effectDir := h.effectDir
  fabric d hd := h.fabric d (hs.subset hd)
  nodup := (hs.map _).nodup h.nodup
  todo d hd := h.todo d (ht d hd)
  held d path hd := h.held d path (hh _ hd)

/-- The record of another attempt is left alone. -/
theorem Shows.write {i : Identity} {d : ApplyDirective} {content : Bytes}
    (h : files.Shows fabric directory i) (hf : d.subject.fabric = fabric)
    (hne : d.identity ≠ i) :
    (files.write (effectPath directory d) content).Shows fabric directory i := by
  obtain ⟨d', worker, hid, hf', hr⟩ := h
  refine ⟨d', worker, hid, hf', ?_⟩
  rw [Effects.read_write_of_ne, hr]
  intro hp
  exact hne ((effectPath_inj (hf'.trans hf.symm) hp).symm.trans hid)

/-- A worker in another stage. -/
theorem Sound.enter (h : f.Sound fabric directory) {stage : Stage}
    (hw : ({ w with stage := stage } : Worker).Sound fabric directory f.files
      (lineage f.system.history)) : (f.enter w stage).Sound fabric directory where
  applied := h.applied
  worker w' hw' := by
    cases hw'
    exact hw

/-- The effect of an attempt that does not count as applied. -/
theorem Sound.put (h : f.Sound fabric directory) (hw : f.worker = some w) {d : ApplyDirective}
    {todo : List ApplyDirective} (hs : w.stage = .directed (d :: todo)) (content : Bytes)
    {stage : Stage}
    (hsound : ({ w with stage := stage } : Worker).Sound fabric directory
      (f.files.write (effectPath directory d) content) (lineage f.system.history)) :
    ((f.put w d content).enter w stage).Sound fabric directory := by
  have hworker := h.worker w hw
  have hd : d ∈ w.stage.directives := by
    rw [hs]
    exact List.mem_cons_self
  have hfabric := hworker.fabric d hd
  refine ⟨fun i hi => ?_, fun w' hw' => ?_⟩
  · change (f.files.write (effectPath w.options.effectDir d) content).Shows _ _ _
    rw [hworker.effectDir]
    refine Shows.write (h.applied i hi) hfabric ?_
    rintro rfl
    exact hworker.todo d (by rw [hs]; exact List.mem_cons_self) hi
  · cases hw'
    change Worker.Sound _ _ _ (f.files.write (effectPath w.options.effectDir d) content) _
    rw [hworker.effectDir]
    exact hsound

/-- What a report leaves applied. -/
theorem report_applied {e : Engine} (hok : EngineOk False e) {r : WorkerReport} {next : Stage}
    (hr : w.Reports files r next) {i : Identity}
    (ha : CountsApplied (lineage (e.perform r.operation).1.store.medium.history) i) :
    CountsApplied (lineage e.store.medium.history) i ∨
      ∃ d path todo, w.stage = .applied d path todo ∧ i = d.identity := by
  rcases perform_applied hok ha with ha | hv
  · exact .inl ha
  cases hr with
  | refusal hs => cases hv.1
  | @application d path todo hs => exact .inr ⟨d, path, todo, hs, hv.2⟩
  | verification hs => cases hv

/-- A report of a worker. -/
theorem Sound.report (h : f.Sound fabric directory) (hw : f.worker = some w) {e : Engine}
    (hok : EngineOk False e) (hup : f.system = .up e) {r : WorkerReport} {next stage : Stage}
    (hr : w.Reports f.files r next) (hn : stage = next ∨ stage = .ended .transport) :
    ({ f with system := .up (e.perform r.operation).1 }.enter w stage).Sound fabric directory := by
  have hworker := h.worker w hw
  have happlied := h.applied
  rw [hup] at hworker happlied
  have htodo : ∀ d ∈ w.stage.todo,
      CountsApplied (lineage (e.perform r.operation).1.store.medium.history) d.identity →
        CountsApplied (lineage e.store.medium.history) d.identity := by
    intro d hd ha
    rcases report_applied hok hr ha with ha | ⟨d', path, todo, hs, hid⟩
    · exact ha
    · have hnodup := hworker.nodup
      rw [hs] at hd hnodup
      exact absurd (hid ▸ List.mem_map_of_mem hd) (List.nodup_cons.mp hnodup).1
  have hmoved := sound_moved hworker htodo
  refine ⟨fun i ha => ?_, fun w' hw' => ?_⟩
  · rcases report_applied hok hr ha with ha | ⟨d, path, todo, hs, rfl⟩
    · exact happlied i ha
    · obtain ⟨hpath, hread⟩ := hworker.held d path (by rw [hs]; rfl)
      refine ⟨d, w.options.worker, rfl, hworker.fabric d ?_, hpath ▸ hread⟩
      rw [hs]
      exact List.mem_cons_self
  · cases hw'
    rcases hn with rfl | rfl
    · cases hr with
      | refusal hs =>
        refine sound_next hmoved ?_ ?_ (fun x hx => by cases hx) <;> rw [hs]
        · exact List.sublist_cons_self _ _
        · exact fun d hd => List.mem_cons_of_mem _ hd
      | application hs =>
        refine sound_next hmoved ?_ ?_ ?_ <;> rw [hs] <;> split
        · exact List.Sublist.refl _
        · exact List.sublist_cons_self _ _
        · exact fun d hd => hd
        · exact fun d hd => hd
        · exact fun x hx => hx
        · exact fun x hx => by cases hx
      | verification hs =>
        refine sound_next hmoved ?_ ?_ (fun x hx => by cases hx) <;> rw [hs]
        · exact List.sublist_cons_self _ _
        · exact fun d hd => hd
    · exact idle_sound hworker.effectDir rfl

/-- A step of a worker. -/
theorem Sound.goes (h : f.Sound fabric directory) (hw : f.worker = some w) {as : List Action}
    (hs : f.system = System.run as)
    (hboots : ∀ b, Action.start b ∈ as → b.options.fabric = fabric)
    (hl : ∀ x ∈ f.system.history, x.lost = false) {f' : Fleet} (hg : f.Goes w f') :
    f'.Sound fabric directory := by
  have hworker := h.worker w hw
  have hok := @System.run_ok False as False.elim
  rw [← hs] at hok
  cases hg with
  | stays => exact h
  | ends code => exact h.enter (idle_sound hworker.effectDir rfl)
  | again => exact h.enter (idle_sound hworker.effectDir rfl)
  | @claims e hup =>
    have hrun : System.run as = .up e := hs ▸ hup
    rw [hup] at hok hl
    refine Sound.enter h ⟨hworker.effectDir, fun d hd => pending_fabric hrun hboots hd,
      pending_nodup (EngineOk.keyed hok), fun d hd => ?_, fun d path hd => by cases hd⟩
    rw [hup]
    exact pending_unapplied hrun hl hd
  | @applies d todo hstage =>
    refine h.put hw hstage _ ?_
    have hdir := hworker.effectDir
    have hfabric := hworker.fabric
    have hnodup := hworker.nodup
    have htodo := hworker.todo
    rw [hstage] at hfabric hnodup htodo
    refine ⟨hdir, hfabric, hnodup, fun d' hd' => htodo d' (List.mem_cons_of_mem _ hd'), ?_⟩
    rintro d' path ⟨⟩
    rw [hdir]
    exact ⟨rfl, Effects.read_write⟩
  | @breaks d todo hstage n => exact h.put hw hstage _ (idle_sound hworker.effectDir rfl)
  | @reports e r next stage hup hr hn =>
    rw [hup] at hok
    exact h.report hw hok hup hr hn

/-- A step of the coordinator in which nobody vouches for an effect. -/
theorem Sound.moved (h : f.Sound fabric directory) (hok : f.system.Ok False) {a : Action}
    (hq : ∀ op, a = .perform op → ∀ i, ¬ op.Vouches i) :
    { f with system := f.system.step a }.Sound fabric directory := by
  have hquiet : ∀ {i}, CountsApplied (lineage (f.system.step a).history) i →
      CountsApplied (lineage f.system.history) i := by
    intro i ha
    rcases step_applied hok a ha with ha | ⟨op, rfl, hv⟩
    · exact ha
    · exact absurd hv (hq op rfl i)
  exact ⟨fun i ha => h.applied i (hquiet ha),
    fun w hw => sound_moved (h.worker w hw) fun d _ => hquiet⟩

end Order

/-- The circumstances of a fleet in which effects and lineage keep their order: its boots serve one
fabric, its workers write into one directory, and nobody else vouches for an effect. -/
structure Orderly (actions : List FleetAction) (fabric : FabricName) (directory : Bytes) :
    Prop where
  boots : ∀ b, FleetAction.system (.start b) ∈ actions → b.options.fabric = fabric
  workers : ∀ o i, FleetAction.connect o i ∈ actions → o.effectDir = directory
  others : ∀ op, FleetAction.system (.perform op) ∈ actions → ∀ i, ¬ op.Vouches i

theorem run_sound {actions : List FleetAction} {fabric : FabricName} {directory : Bytes}
    (h : Orderly actions fabric directory)
    (hl : ∀ x ∈ (run actions).system.history, x.lost = false) :
    (run actions).Sound fabric directory := by
  induction actions using List.reverseRecOn with
  | nil => exact ⟨fun i ⟨r, hr, _⟩ => (by cases hr), fun w hw => (by cases hw)⟩
  | append_singleton actions a ih =>
    have hbefore : Orderly actions fabric directory :=
      ⟨fun b hb => h.boots b (List.mem_append_left _ hb),
        fun o i ho => h.workers o i (List.mem_append_left _ ho),
        fun op hop => h.others op (List.mem_append_left _ hop)⟩
    have hlast : a ∈ actions ++ [a] := List.mem_append_right _ List.mem_cons_self
    obtain ⟨as, hs, hb⟩ := run_system actions
    have hboots : ∀ b, Action.start b ∈ as → b.options.fabric = fabric :=
      fun b hm => hbefore.boots b (hb b hm)
    have hok := run_ok actions
    rw [run_append] at hl ⊢
    have hl' : ∀ x ∈ (run actions).system.history, x.lost = false :=
      fun x hx => hl x ((step_begins hok a).subset hx)
    have ih := ih hbefore hl'
    revert ih hs hok hl'
    generalize run actions = f
    intro hs hok hl' ih
    cases a with
    | system x =>
      refine ih.moved hok fun op hop => ?_
      subst hop
      exact h.others op hlast
    | connect o i =>
      rw [step]
      split
      · exact ih
      · refine ⟨ih.applied, fun w hw => ?_⟩
        cases hw
        exact idle_sound (h.workers o i hlast) rfl
    | crash => exact ⟨ih.applied, fun w hw => (by cases hw)⟩
    | work fate =>
      cases hw : f.worker with
      | none =>
        rw [step, hw]
        exact ih
      | some w =>
        rw [step, hw]
        exact ih.goes hw hs hboots hl' (work_goes fate)

end Fleet

/-- A whole effect record is read back. -/
theorem readEffect_of_text {files : Effects} {path worker : Bytes} {d : ApplyDirective}
    (h : files.read path = some (effectText d worker)) : readEffect files path = true := by
  have hne : effectText d worker ≠ [] :=
    List.append_ne_nil_of_right_ne_nil _ (List.cons_ne_nil 10 [])
  rw [readEffect, h]
  change (!(effectText d worker).isEmpty) = true
  rw [List.isEmpty_eq_false_iff.mpr hne]
  rfl

/-- An attempt that counts as applied has its effect record, whole, whatever crashes between the
effect and its report. A worker that verifies an effect finds it. -/
theorem effects_precede {actions : List FleetAction} {fabric : FabricName} {directory : Bytes}
    (h : Fleet.Orderly actions fabric directory)
    (hl : ∀ x ∈ (Fleet.run actions).system.history, x.lost = false) :
    (∀ i, CountsApplied (lineage (Fleet.run actions).system.history) i →
      (Fleet.run actions).files.Shows fabric directory i) ∧
    ∀ w d path todo, (Fleet.run actions).worker = some w → w.stage = .acknowledged d path todo →
      readEffect (Fleet.run actions).files path = true := by
  have hsound := Fleet.run_sound h hl
  refine ⟨hsound.applied, fun w d path todo hw hs => ?_⟩
  obtain ⟨-, hr⟩ := (hsound.worker w hw).held d path (by rw [hs]; rfl)
  exact readEffect_of_text hr

/-- A retained attempt that was applied counts as applied. -/
theorem Fleet.table_applied {actions : List FleetAction} {e : Engine} {q : AttemptRecord}
    (he : (Fleet.run actions).system = .up e) (hf : e.store.failed = false)
    (hq : q ∈ e.state.attempts) (hp : phaseApplied q.phase = true) :
    CountsApplied (lineage (Fleet.run actions).system.history) q.identity := by
  have hok := Fleet.run_ok actions
  rw [he] at hok ⊢
  obtain ⟨r, hr, hu⟩ := (Engine.ok_state hok hf).known q hq
  exact ⟨r, hr, (phase_of_unstamped hu) ▸ hp⟩

/-- A grant, and a worker that never hears of the answer to its acknowledgement. -/
def Sample.workedOff : List FleetAction :=
  (Sample.booted {} {} ++ [Action.perform (.requestFailover (Sample.request ⟨1⟩))]).map .system ++
    [.connect { effectDir := [] } (Sample.incarnation 2), .work {}, .work {},
      .work { call := .unheard }]

theorem effects_authorized_sample : ∃ path content,
    (Fleet.run Sample.workedOff).files.read path = some content ∧
      ∃ directory d worker, path = effectPath directory d ∧ content <+: effectText d worker ∧
        GrantsDirective (lineage (Fleet.run Sample.workedOff).system.history) d := by
  have hne : (Fleet.run Sample.workedOff).files ≠ [] := by
    rw [← List.isEmpty_eq_false_iff]
    decide +kernel
  obtain ⟨file, files, hfiles⟩ := List.exists_cons_of_ne_nil hne
  have hread : (Fleet.run Sample.workedOff).files.read file.1 = some file.2 := by
    rw [hfiles, Effects.read, List.lookup_cons_self]
  exact ⟨file.1, file.2, hread, effects_authorized Sample.workedOff hread⟩

/-- The attempt is acknowledged although the worker was lost, and its effect is there. -/
theorem effects_precede_sample : ∃ i,
    CountsApplied (lineage (Fleet.run Sample.workedOff).system.history) i ∧
      (Fleet.run Sample.workedOff).files.Shows (Sample.name 102) [] i := by
  obtain ⟨e, he, hp⟩ := @System.of_serves (Fleet.run Sample.workedOff).system
    (fun e => !e.store.failed && (e.state.attempts.any fun q => phaseApplied q.phase) &&
      e.store.medium.history.all fun x => !x.lost) (by decide +kernel)
  simp only [Bool.and_eq_true, Bool.not_eq_true', List.any_eq_true, List.all_eq_true] at hp
  obtain ⟨⟨hf, q, hq, hphase⟩, hlost⟩ := hp
  have happlied := Fleet.table_applied he hf hq hphase
  have hlost' : ∀ x ∈ (Fleet.run Sample.workedOff).system.history, x.lost = false := by
    rw [he]
    exact hlost
  refine ⟨q.identity, happlied, (effects_precede ?_ hlost').1 _ happlied⟩
  refine ⟨fun b hb => ?_, fun o i ho => ?_, fun op hop => ?_⟩
  · simp only [Sample.workedOff, Sample.booted, List.cons_append, List.nil_append, List.map_cons,
      List.map_nil, List.mem_cons, reduceCtorEq, FleetAction.system.injEq, Action.start.injEq,
      List.not_mem_nil, or_false] at hb
    rw [hb]
    rfl
  · simp only [Sample.workedOff, Sample.booted, List.cons_append, List.nil_append, List.map_cons,
      List.map_nil, List.mem_cons, reduceCtorEq, FleetAction.connect.injEq, List.not_mem_nil,
      or_false, false_or] at ho
    rw [ho.1]
  · simp only [Sample.workedOff, Sample.booted, List.cons_append, List.nil_append, List.map_cons,
      List.map_nil, List.mem_cons, reduceCtorEq, FleetAction.system.injEq, Action.perform.injEq,
      List.not_mem_nil, or_false, false_or] at hop
    rcases hop with rfl | rfl | rfl <;> exact fun i hv => hv

end LinkFailover
