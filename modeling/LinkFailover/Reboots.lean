import LinkFailover.System

/-!
# Reboots

A process that is killed between two commits leaves a journal without a tail. What the next process
makes of it does not depend on the bytes: it replays the records of the disk, and boots on the
state that they give.

* `Engine.reboot`: the next process, computed from the disk.
* `Engine.open_reboot`, `System.run_reboot`: it is the process that opens the directory.
* `System.passes`: a check of every operation that is carried out on the way.
-/

namespace LinkFailover

open Codec

instance (d : DurableState) : Decidable d.Declared :=
  decidable_of_iff
    (WireEnum.Declared d.policy.agreement ∧ ∀ r ∈ d.attempts, WireEnum.Declared r.revalidation)
    ⟨fun h => ⟨h.1, h.2⟩, fun h => ⟨h.policy, h.attempts⟩⟩

namespace LineageStore

instance (o : StoreOptions) (d : DurableState) : Decidable (Restorable o d) :=
  decidable_of_iff
    ((frameSnapshot (d.encode {}).buffer).length ≤ kMaxSnapshotBytes ∧ d.Declared ∧
      d.fabric = o.fabric ∧ d.policy.validate.isOk = true ∧ d.topology.validate.isOk = true)
    ⟨fun ⟨h1, h2, h3, h4, h5⟩ => ⟨h1, h2, h3, h4, h5⟩,
      fun h => ⟨h.size, h.declared, h.fabric, h.policy, h.topology⟩⟩

/-- What a loader asks of a directory that was left between two commits. -/
structure Reopens (o : EngineOptions) (s : LineageStore) : Prop where
  failed : s.failed = false
  policy : o.policy.validate.isOk = true
  topology : o.topology.validate.isOk = true
  fabric : o.fabric.empty = false
  generation : o.topology.generation.isZero = false
  snapshot : ∀ d ∈ s.disk.snapshot, Restorable o.store d
  size : (buildJournalHeader s.disk.base ++ s.disk.views.flatMap frame).length ≤ kMaxJournalBytes

instance (o : EngineOptions) (s : LineageStore) : Decidable (Reopens o s) :=
  decidable_of_iff
    (s.failed = false ∧ o.policy.validate.isOk = true ∧ o.topology.validate.isOk = true ∧
      o.fabric.empty = false ∧ o.topology.generation.isZero = false ∧
      (∀ d ∈ s.disk.snapshot, Restorable o.store d) ∧
      (buildJournalHeader s.disk.base ++ s.disk.views.flatMap frame).length ≤ kMaxJournalBytes)
    ⟨fun ⟨h1, h2, h3, h4, h5, h6, h7⟩ => ⟨h1, h2, h3, h4, h5, h6, h7⟩, fun h =>
      ⟨h.failed, h.policy, h.topology, h.fabric, h.generation, h.snapshot, h.size⟩⟩

/-- The store that the next process opens, before it boots. -/
def reopen (s : LineageStore) (b : Boot) : Result LineageStore :=
  (s.disk.opened b.options.store).map fun acc =>
    reopened b.options.store s.disk acc.1
      (reread b.options.store s.disk acc.2 (b.medium s.medium))

theorem openStore_reopen {s s' : LineageStore} (hs : s.StoreOk)
    (hsound : ∀ d, s.disk.snapshot = some d → d.Sound) {b : Boot} (h : s.Reopens b.options)
    (hr : s.reopen b = .ok s') :
    openStore b.options.store (b.medium s.medium) = (s'.medium, .ok s') := by
  have hsync := hs.synced h.failed
  have hrepresents : Represents (b.medium s.medium).directory s.disk := hs.represents
  have hload : loadSnapshot b.options.store s.medium.directory.snapshot =
      .ok (s.disk.start b.options.store) := by
    rcases loadSnapshot_represents (o := b.options.store) hs.represents hsound with
      ⟨-, hno⟩ | ⟨hl, -⟩
    · exact absurd h.snapshot hno
    · exact hl
  unfold reopen at hr
  cases hk : s.disk.opened b.options.store with
  | error e =>
    rw [hk] at hr
    cases hr
  | ok acc =>
    rw [hk] at hr
    cases hr
    exact openStore_shape hrepresents h.policy h.topology hload hsync.journal
      ⟨by rw [List.append_nil], hsync.fits, .inl rfl⟩ h.size (.inl rfl) hsync.base hk

end LineageStore

/-- An open whose store is known. -/
theorem Boot.open_of_store {b : Boot} {m m' : Medium} {s s' : LineageStore} {epoch : Epoch}
    (hp : b.options.policy.validate.isOk = true) (ht : b.options.topology.validate.isOk = true)
    (hf : b.options.fabric.empty = false) (hg : b.options.topology.generation.isZero = false)
    (hopen : LineageStore.openStore b.options.store (b.medium m) = (m', .ok s))
    (hb : Engine.bootStore s b.incarnation b.build = (s', .ok epoch)) :
    b.open m = (s'.medium, .ok
      { options := b.options, store := s', incarnation := b.incarnation, epoch := epoch }) := by
  unfold Boot.open Engine.openEngine
  rw [if_neg (by simp [hp]), if_neg (by simp [ht]), if_neg (by simp [hf]), if_neg (by simp [hg]),
    hopen]
  dsimp only
  rw [hb]

namespace Engine

/-- The process that is started behind this one, when this one is killed as it stands. -/
def reboot (e : Engine) (b : Boot) : Option Engine :=
  if e.store.Reopens b.options then
    match e.store.reopen b with
    | .error _ => none
    | .ok s =>
      match bootStore s b.incarnation b.build with
      | (_, .error _) => none
      | (s, .ok epoch) =>
        some { options := b.options, store := s, incarnation := b.incarnation, epoch := epoch }
  else none

theorem open_reboot {wire : Prop} {e e' : Engine} (h : EngineOk wire e) {b : Boot}
    (hr : e.reboot b = some e') : b.open e.store.medium = (e'.store.medium, .ok e') := by
  unfold reboot at hr
  split at hr
  swap
  · cases hr
  rename_i hopens
  split at hr
  · cases hr
  rename_i s hs
  have hm : MediumOk wire e.store.medium := mediumOk_stopped h.trace h.store
  have hopen := LineageStore.openStore_reopen h.store (fun d => hm.sound) hopens hs
  split at hr
  · cases hr
  · rename_i hb
    cases hr
    exact Boot.open_of_store hopens.policy hopens.topology hopens.fabric hopens.generation hopen hb

end Engine

/-- A process that is killed as it stands, and the one that is started behind it. -/
theorem System.run_reboot {actions : List Action} {e e' : Engine} (he : run actions = .up e)
    {b : Boot} (hr : e.reboot b = some e') :
    run (actions ++ [.kill, .start b]) = .up e' := by
  have hok := @run_ok False actions False.elim
  rw [he] at hok
  rw [run, List.foldl_append, ← run, he]
  exact step_started (congrArg Prod.snd (Engine.open_reboot hok hr))

/-- A run that goes on behind such a restart. -/
theorem System.run_behind {actions more : List Action} {e e' : Engine}
    (he : run actions = .up e) {b : Boot} (hr : e.reboot b = some e') :
    run (actions ++ .kill :: .start b :: more) = more.foldl step (up e') := by
  rw [run, show actions ++ .kill :: .start b :: more = actions ++ [.kill, .start b] ++ more by simp,
    List.foldl_append, ← run, run_reboot he hr]

/-- What holds of the engine of a run that goes on behind such a restart. -/
theorem System.of_reboot {actions more : List Action} {b : Boot} {p : Engine → Bool}
    (h : ((run actions).serves fun e => (e.reboot b).any fun e' =>
      (more.foldl step (up e')).serves p) = true) :
    ∃ e, run (actions ++ .kill :: .start b :: more) = .up e ∧ p e = true := by
  obtain ⟨e, he, hp⟩ := of_serves h
  obtain ⟨e', hr, hp⟩ := (Option.any_eq_true _ _).mp hp
  obtain ⟨e'', he'', hp⟩ := of_serves hp
  exact ⟨e'', (run_behind he hr).trans he'', hp⟩

/-! ## Checks of the operations of a run -/

/-- Whether an action passes a check, when it is an operation that is carried out. -/
def System.admits (check : Engine → Operation → Bool) : System → Action → Bool
  | up e, .perform op => check e op
  | _, _ => true

/-- Whether every operation that is carried out from a state on passes a check. -/
def System.passes (check : Engine → Operation → Bool) : List Action → System → Bool
  | [], _ => true
  | a :: actions, s => s.admits check a && passes check actions (s.step a)

theorem System.passes_append {check : Engine → Operation → Bool} {xs ys : List Action}
    {s : System} : passes check (xs ++ ys) s =
      (passes check xs s && passes check ys (xs.foldl step s)) := by
  induction xs generalizing s with
  | nil => rfl
  | cons a xs ih => rw [List.cons_append, passes, passes, ih, Bool.and_assoc, List.foldl_cons]

theorem Performs.passes {check : Engine → Operation → Bool} {actions : List Action} {e : Engine}
    {op : Operation} (hp : Performs actions e op)
    (h : System.passes check actions (.down {}) = true) : check e op = true := by
  obtain ⟨before, after, rfl, hrun⟩ := hp
  have hbefore : before.foldl System.step (.down {}) = .up e := hrun
  rw [System.passes_append, hbefore, Bool.and_eq_true, System.passes, Bool.and_eq_true] at h
  exact h.2.1

/-- A run that passes the check up to a restart, and behind it. -/
theorem System.passes_reboot {check : Engine → Operation → Bool} {actions more : List Action}
    {e e' : Engine} {b : Boot} (he : run actions = .up e) (hr : e.reboot b = some e')
    (h : passes check actions (down {}) = true) (h' : passes check more (up e') = true) :
    passes check (actions ++ .kill :: .start b :: more) (down {}) = true := by
  have hrun : (actions ++ [Action.kill, .start b]).foldl step (down {}) = .up e' :=
    run_reboot he hr
  rw [show actions ++ .kill :: .start b :: more = actions ++ [.kill, .start b] ++ more by simp,
    passes_append, hrun, h', Bool.and_true, passes_append, h, Bool.true_and]
  have hbefore : actions.foldl step (down {}) = .up e := he
  rw [hbefore]
  rfl

end LinkFailover
