import LinkFailover.Restart

/-!
# Losses of authority and their fences

Whoever takes the authority of an attempt away, a restart, a new definition or a rollback, writes
the attempt first and its fence second. A process that dies between the two leaves a terminal
attempt behind, which no later boot looks at again.

* `loses`: whether a record takes authority away.
* `losses_fenced`: in which runs every loss is fenced.
-/

namespace LinkFailover

open Codec

/-! ## Losses -/

/-- Whether a record takes authority away: the last record of its attempt holds authority, and
this one interrupts the attempt, rolls it back or aborts it as fenced. -/
def loses (entries : List Entry) (r : AttemptRecord) : Bool :=
  match lastWrite entries r.identity with
  | none => false
  | some q =>
    attemptPhaseHoldsAuthority q.phase &&
      (decide (r.phase = .interrupted) || decide (r.phase = .rolledBack) ||
        decide (r.phase = .aborted ∧ r.lastReason = some .fenced))

/-- Whether a lineage ends with a loss, and so without the fence for it. -/
def endsInLoss (entries : List Entry) : Bool :=
  match entries.getLast? with
  | some (_, .attempt _ r) => loses entries.dropLast r
  | _ => false

/-- Whether no process was started on a directory whose lineage ends with a loss. -/
def cleanStarts : List Entry → List Event → Bool
  | _, [] => true
  | entries, .opened _ :: events => !endsInLoss entries && cleanStarts entries events
  | entries, e :: events => cleanStarts (entries ++ lineage [e]) events

/-- A fence of the lineage names an attempt. -/
def Fenced (entries : List Entry) (r : AttemptRecord) : Prop :=
  ∃ seq f, (seq, Payload.fence f) ∈ entries ∧ f.Names r

theorem cleanStarts_cons (entries : List Entry) (e : Event) (events : List Event) :
    cleanStarts entries (e :: events) = true →
      cleanStarts (entries ++ lineage [e]) events = true := by
  cases e with
  | opened o =>
    intro h
    rw [cleanStarts, Bool.and_eq_true] at h
    rw [show lineage [.opened o] = [] from rfl, List.append_nil]
    exact h.2
  | committed | replayed | checkpointed => exact id

theorem cleanStarts_append {entries : List Entry} {h g : List Event}
    (hc : cleanStarts entries (h ++ g) = true) :
    cleanStarts entries h = true ∧ cleanStarts (entries ++ lineage h) g = true := by
  induction h generalizing entries with
  | nil => exact ⟨rfl, by rwa [show lineage [] = [] from rfl, List.append_nil]⟩
  | cons e h ih =>
    obtain ⟨h1, h2⟩ := ih (cleanStarts_cons _ _ _ hc)
    refine ⟨?_, ?_⟩
    · cases e with
      | opened o =>
        rw [List.cons_append, cleanStarts, Bool.and_eq_true] at hc
        rw [show lineage [.opened o] = [] from rfl, List.append_nil] at h1
        rw [cleanStarts, hc.1, h1]
        rfl
      | committed | replayed | checkpointed => exact h1
    · rwa [List.append_assoc, ← lineage_append] at h2

/-! ## One write -/

/-- Every loss is fenced further on, but for one that is the very last record and is still
owed. -/
def Settles (entries : List Entry) (owed : AttemptRecord → Prop) : Prop :=
  ∀ before seq w r after, entries = before ++ (seq, .attempt w r) :: after →
    loses before r = true → Fenced after r ∨ after = [] ∧ owed r

/-- What is owed in a phase. Nobody is there to tell when the directory is closed. -/
def Phase.owed : Phase → AttemptRecord → Prop
  | .down, _ => True
  | .live _ _ (.owing r _), r' => r = r'
  | .live _ _ _, _ => False

variable {wire : Prop} {entries : List Entry} {owed owed' : AttemptRecord → Prop}

/-- What is owed is paid by the next record. -/
theorem Settles.append (h : Settles entries owed) {seq : LineageSeq} {p : Payload}
    (pays : ∀ r, owed r → ∃ f, p = .fence f ∧ f.Names r)
    (owes : ∀ w r, p = .attempt w r → loses entries r = true → owed' r) :
    Settles (entries ++ [(seq, p)]) owed' := by
  intro before seq' w r after he hl
  rcases List.eq_nil_or_concat after with rfl | ⟨after', y, rfl⟩
  · obtain ⟨rfl, hx⟩ := List.append_inj' he rfl
    cases hx
    exact .inr ⟨rfl, owes w r rfl hl⟩
  · rw [List.concat_eq_append, ← List.cons_append, ← List.append_assoc] at he
    obtain ⟨hinit, hy⟩ := List.append_inj' he rfl
    cases hy
    rw [List.concat_eq_append]
    refine .inl ?_
    rcases h before seq' w r after' hinit hl with ⟨s, f, hf, hn⟩ | ⟨-, ho⟩
    · exact ⟨s, f, List.mem_append_left _ hf, hn⟩
    · obtain ⟨f, rfl, hn⟩ := pays r ho
      exact ⟨seq, f, List.mem_append_right _ (List.mem_singleton_self _), hn⟩

/-- A loss, read back. -/
theorem loses_some {r q : AttemptRecord} (h : loses entries r = true)
    (hq : lastWrite entries r.identity = some q) :
    attemptPhaseHoldsAuthority q.phase = true ∧ (r.phase = .interrupted ∨ r.phase = .rolledBack ∨
      r.phase = .aborted ∧ r.lastReason = some .fenced) := by
  unfold loses at h
  rw [hq] at h
  simp only [Bool.and_eq_true, Bool.or_eq_true, decide_eq_true_eq, or_assoc] at h
  exact h

theorem loses_phase {r : AttemptRecord} (h : loses entries r = true) :
    r.phase = .interrupted ∨ r.phase = .rolledBack ∨ r.phase = .aborted := by
  unfold loses at h
  split at h
  · cases h
  · simp only [Bool.and_eq_true, Bool.or_eq_true, decide_eq_true_eq, or_assoc] at h
    exact h.2.imp id (.imp id And.left)

/-- A guarded write that takes authority away owes a fence for it. -/
theorem Writes.owes {o : StoreOptions} {d : DurableState} {j j' : Job} {p : Payload}
    {apply : LineageSeq → DurableState → DurableState} (w : Writes wire entries o d j p apply j')
    (hs : StateOk entries d) {t : AttemptWrite} {r : AttemptRecord} (hp : p = .attempt t r)
    (hl : loses entries r = true) (o' : StoreOptions) (d' : DurableState) :
    (Phase.live o' d' j').owed r := by
  have hphase := loses_phase hl
  cases w with
  | interrupt | rollback | abort =>
    cases hp
    rfl
  | record _ hr =>
    cases hp
    rcases hr with hr | hr <;> simp [hr] at hphase
  | grant _ hr =>
    cases hp
    simp [hr] at hphase
  | authorize a =>
    cases hp
    simp at hphase
  | @carry q _ _ hq hc hne ha =>
    cases hp
    obtain ⟨x, hx, hu⟩ := hs.known q hq
    rw [← hc.identity] at hx
    obtain ⟨hholds, hlost⟩ := loses_some hl hx
    rw [phase_of_unstamped hu] at hholds
    have hm := hc.phase
    rcases hlost with hr | hr | ⟨hr, hfenced⟩
    · rw [hr] at hm
      revert hm hholds
      cases q.phase <;> simp [phaseMoves, attemptPhaseHoldsAuthority]
    · exact absurd hr hne
    · rw [ha hr hholds] at hfenced
      cases hfenced
  | _ => cases hp

/-- Only the fence that is owed is written next. -/
theorem Writes.pays {o : StoreOptions} {d : DurableState} {j j' : Job} {p : Payload}
    {apply : LineageSeq → DurableState → DurableState} (w : Writes wire entries o d j p apply j')
    {r : AttemptRecord} (h : (Phase.live o d j).owed r) : ∃ f, p = .fence f ∧ f.Names r := by
  cases w with
  | fence hn =>
    cases h
    exact ⟨_, rfl, hn⟩
  | _ => cases h

/-! ## Traces -/

theorem endsInLoss_concat {before : List Entry} {seq : LineageSeq} {w : AttemptWrite}
    {r : AttemptRecord} (h : loses before r = true) :
    endsInLoss (before ++ [(seq, .attempt w r)]) = true := by
  rw [endsInLoss, List.getLast?_concat]
  dsimp only
  rwa [List.dropLast_concat]

theorem Trace.settles {history : List Event} {phase : Phase} (h : Trace wire history phase)
    (hc : cleanStarts [] history = true) : Settles (lineage history) phase.owed := by
  have hbegins : ∀ {h g : List Event}, cleanStarts [] (h ++ g) = true →
      cleanStarts [] h = true := fun hc => (cleanStarts_append hc).1
  have hquiet : ∀ {entries : List Entry} {owed owed' : AttemptRecord → Prop},
      Settles entries owed → (∀ r, owed r → owed' r) → Settles entries owed' :=
    fun hs ho before seq w r after he hl => (hs before seq w r after he hl).imp id
      (.imp id (ho r))
  induction h with
  | empty => exact fun before _ _ _ _ he => by simp [lineage] at he
  | @opened history o d events h valid base replay ih =>
    rw [lineage_opened replay]
    have hs := ih (hbegins hc)
    have hclean := (cleanStarts_append hc).2
    rw [List.nil_append, cleanStarts, Bool.and_eq_true, Bool.not_eq_true'] at hclean
    intro before seq w r after he hl
    refine .inl ((hs before seq w r after he hl).resolve_right ?_)
    rintro ⟨rfl, -⟩
    rw [he, endsInLoss_concat hl] at hclean
    cases hclean.1
  | committed h w next ih =>
    rw [lineage_append, lineage_committed]
    exact (ih (hbegins hc)).append (fun r hr => w.pays hr)
      fun _ _ hp hl => w.owes h.stateOk hp hl _ _
  | lost h w next ih =>
    rw [lineage_append, lineage_committed]
    exact (ih (hbegins hc)).append (fun r hr => w.pays hr) fun _ _ _ _ => trivial
  | booted h _ ih | fenced h _ ih => exact ih hc
  | rotated h ih =>
    rw [lineage_append, lineage_checkpointed, List.append_nil]
    exact ih (hbegins hc)
  | replaced h ih =>
    rw [lineage_append, lineage_checkpointed, List.append_nil]
    exact hquiet (ih (hbegins hc)) fun _ _ => trivial
  | stopped h ih => exact hquiet (ih hc) fun _ _ => trivial

/-! ## Runs -/

/-- Every attempt that lost its authority has a fence further on in the lineage. -/
def LossesFenced (entries : List Entry) : Prop :=
  ∀ before seq w r after, entries = before ++ (seq, .attempt w r) :: after →
    loses before r = true → Fenced after r

/-- In a process whose store has not failed, as it stands right after its boot, every attempt
that lost its authority has a fence in the lineage, provided that no process before it was started
on a lineage that ends with a loss. -/
theorem losses_fenced {actions : List Action} {e : Engine} (h : System.run actions = .up e)
    (hf : e.store.failed = false) (hc : cleanStarts [] e.store.medium.history = true) :
    LossesFenced (lineage e.store.medium.history) := by
  intro before seq w r after he hl
  have hok := Reachable.ok ⟨actions, h⟩
  refine ((Engine.ok_trace hok hf).settles hc before seq w r after he hl).resolve_right ?_
  rintro ⟨-, ho⟩
  cases ho

/-- Whether a lineage has a loss at a place, and no fence behind it. -/
def unfencedAt (n : Nat) (entries : List Entry) : Bool :=
  match entries.drop n with
  | (_, .attempt _ r) :: after =>
    loses (entries.take n) r && after.all fun | (_, .fence _) => false | _ => true
  | _ => false

theorem not_lossesFenced {n : Nat} {entries : List Entry} (h : unfencedAt n entries = true) :
    ¬ LossesFenced entries := by
  intro hl
  unfold unfencedAt at h
  split at h
  · rename_i seq w r after hdrop
    rw [Bool.and_eq_true] at h
    have he : entries = entries.take n ++ (seq, .attempt w r) :: after := by
      rw [← hdrop, List.take_append_drop]
    obtain ⟨s, f, hf, -⟩ := hl _ seq w r after he h.1
    cases List.all_eq_true.mp h.2 _ hf
  · cases h

/-- The process dies between the rollback of an attempt and the fence for it. The next boot goes
through, and writes no fence. -/
theorem loss_unfenced : ¬ ∀ actions e, System.run actions = .up e → e.store.failed = false →
    LossesFenced (lineage e.store.medium.history) := by
  intro hall
  obtain ⟨e, he, hp⟩ := @System.of_serves
    (System.run
      [.start { options := Sample.options {} {}, incarnation := Sample.incarnation 1,
                appendFaults := [none, none, none, none, none, none, some 0] },
        .perform (Sample.down ⟨1⟩ ⟨1⟩ 1), .perform (Sample.usable ⟨1⟩ 1),
        .perform (.requestFailover (Sample.request ⟨1⟩)),
        .perform (.requestRollback
          { subject := Sample.primary, subjectGeneration := ⟨1⟩, attemptSeq := ⟨1⟩ }),
        .kill,
        .start { options := Sample.options {} {}, incarnation := Sample.incarnation 2 }])
    (fun e => !e.store.failed && unfencedAt 4 (lineage e.store.medium.history))
    (by decide +kernel)
  rw [Bool.and_eq_true, Bool.not_eq_true'] at hp
  exact not_lossesFenced hp.2 (hall _ e he hp.1)

/-- A rollback whose fence is written. -/
theorem losses_fenced_sample : ∃ e, Reachable e ∧ LossesFenced (lineage e.store.medium.history) ∧
    e.state.fences ≠ [] := by
  obtain ⟨e, he, hp⟩ := @System.of_serves
    (System.run (Sample.booted {} {} ++ [.perform (.requestFailover (Sample.request ⟨1⟩)),
      .perform (.requestRollback
        { subject := Sample.primary, subjectGeneration := ⟨1⟩, attemptSeq := ⟨1⟩ })]))
    (fun e => !e.store.failed && cleanStarts [] e.store.medium.history && !e.state.fences.isEmpty)
    (by decide +kernel)
  simp only [Bool.and_eq_true, Bool.not_eq_true'] at hp
  refine ⟨e, ⟨_, he⟩, losses_fenced he hp.1.1 hp.1.2, fun hn => ?_⟩
  rw [hn] at hp
  cases hp.2

end LinkFailover
