import LinkFailover.Chronicle
import LinkFailover.System

/-!
# The attempts beside the one that is written

A write of an attempt replaces the record under its subject and its sequence. Sequences start at
one for every generation of a link, so the record that is replaced may be that of another attempt.

* `Spares`: a write leaves the other attempts alone, except for those that eviction drops.
* `attempts_spared_iff`: which writes do, in every run.
* `generation_overwritten`: a run with a write that does not.
-/

namespace LinkFailover

open Codec

/-! ## Writes of a table -/

/-- The attempt is terminal and in a table over its limit. -/
structure Evictable (o : StoreOptions) (table : List AttemptRecord) (q : AttemptRecord) : Prop where
  member : q ∈ table
  terminal : q.isTerminal = true
  above : o.maxAttempts < table.length

/-- Behind the write of `r` every attempt of another identity is there unchanged, unless it was
evicted from the written table. -/
def Spares (o : StoreOptions) (r : AttemptRecord) (before after : List AttemptRecord) : Prop :=
  ∀ q ∈ before, q.identity ≠ r.identity →
    q ∈ after ∨ Evictable o (upsertAttempt r before) q

/-- No attempt of another generation has the subject and the sequence of `r`. -/
def Alone (r : AttemptRecord) (table : List AttemptRecord) : Prop :=
  ∀ q ∈ table, q.key = r.key → q.identity = r.identity

variable {o : StoreOptions} {r r' q : AttemptRecord} {before after : List AttemptRecord}

theorem mem_upsertAttempt (hn : (before.map AttemptRecord.key).Nodup) :
    q ∈ upsertAttempt r before ↔ q = r ∨ q ∈ before ∧ q.key ≠ r.key :=
  BoundedTable.mem_upsert_iff hn

theorem length_upsertAttempt (h : r'.key = r.key) :
    (upsertAttempt r' before).length = (upsertAttempt r before).length := by
  have hl := congrArg List.length (@BoundedTable.upsert_keys _ _ _ AttemptRecord.key r' before)
  rw [h, ← BoundedTable.upsert_keys, List.length_map, List.length_map] at hl
  exact hl

/-- What is written into a table, before or behind eviction. -/
theorem spares_iff (hn : (before.map AttemptRecord.key).Nodup) (hs : r'.unstamped = r.unstamped)
    (ha : after = evictAttempts o (upsertAttempt r' before) ∨ after = upsertAttempt r' before) :
    Spares o r before after ↔ Alone r before := by
  have hkey : r'.key = r.key := key_of_unstamped hs
  have hid : r'.identity = r.identity := identity_of_unstamped hs
  have hsub : ∀ q ∈ after, q ∈ upsertAttempt r' before := by
    intro q hq
    rcases ha with rfl | rfl
    · exact BoundedTable.mem_of_mem_evict hq
    · exact hq
  constructor
  · intro h q hq hk
    by_contra hne
    rcases h q hq hne with hafter | hevicted
    · rcases (mem_upsertAttempt hn).mp (hsub q hafter) with rfl | ⟨-, hother⟩
      · exact hne hid
      · exact hother (hk.trans hkey.symm)
    · rcases (mem_upsertAttempt hn).mp hevicted.member with rfl | ⟨-, hother⟩
      · exact hne rfl
      · exact hother hk
  · intro h q hq hne
    have hother : q.key ≠ r.key := fun hk => hne (h q hq hk)
    have hwritten : q ∈ upsertAttempt r' before :=
      (mem_upsertAttempt hn).mpr (.inr ⟨hq, by rwa [hkey]⟩)
    rcases ha with rfl | rfl
    · by_cases hover : o.maxAttempts < (upsertAttempt r' before).length
      · cases ht : q.isTerminal with
        | true =>
          exact .inr ⟨(mem_upsertAttempt hn).mpr (.inr ⟨hq, hother⟩), ht,
            by rwa [length_upsertAttempt hkey] at hover⟩
        | false => exact .inl (BoundedTable.mem_evict_of_not_done hwritten ht)
      · rw [evictAttempts, BoundedTable.evict_of_le (Nat.le_of_not_lt hover)]
        exact .inl hwritten
    · exact .inl hwritten

/-! ## Writes of a run -/

/-- What a guarded write of an attempt makes of the table. -/
theorem Writes.table {wire : Prop} {entries : List Entry} {d : DurableState} {j j' : Job}
    {w : AttemptWrite} {apply : LineageSeq → DurableState → DurableState}
    (h : Writes wire entries o d j (.attempt w r) apply j') (seq : LineageSeq) :
    ∃ r' : AttemptRecord, r'.unstamped = r.unstamped ∧
      ((apply seq d).attempts = evictAttempts o (upsertAttempt r' d.attempts) ∨
        (apply seq d).attempts = upsertAttempt r' d.attempts) := by
  cases h with
  | interrupt =>
    refine ⟨_, ?_, .inr rfl⟩
    rfl
  | record | grant | authorize | carry | rollback | abort =>
    refine ⟨_, ?_, .inl rfl⟩
    rfl

/-- The writes of attempts that spare the others are those of attempts alone under their key. -/
def SparesIffAlone : ProcessRule := fun o p d d' =>
  ∀ w r, p = .attempt w r → (Spares o r d.attempts d'.attempts ↔ Alone r d.attempts)

theorem Trace.spares {wire : Prop} {history : List Event} {phase : Phase}
    (h : Trace wire history phase) : Follows SparesIffAlone none history := by
  refine h.follows (fun ht hw w r hp => ?_) fun hs ha _ _ w r hp => ?_
  · subst hp
    obtain ⟨r', hsame, hafter⟩ := hw.table _
    exact spares_iff ht.stateOk.keys hsame hafter
  · subst hp
    rename_i _ o d seq d' _ _
    rw [DurableState.applyRecord_attempt _ (DurableState.applyRecord_declared ha)] at ha
    cases hcheck : DurableState.checkAttempt w.type seq r with
    | error status =>
      rw [hcheck] at ha
      cases ha
    | ok _ =>
      rw [hcheck] at ha
      cases ha
      exact spares_iff hs.keys rfl (.inl rfl)

theorem System.run_spares (actions : List Action) :
    Follows SparesIffAlone none (System.run actions).history := by
  have hok := @System.run_ok False actions False.elim
  cases hrun : System.run actions with
  | down m =>
    rw [hrun] at hok
    exact hok.trace.spares
  | up e =>
    rw [hrun] at hok
    exact hok.trace.spares

/-- In every run, a write of an attempt spares the attempts of other identities exactly when none
of them has its subject and its sequence under another generation. -/
theorem attempts_spared_iff (actions : List Action) :
    Follows SparesIffAlone none (System.run actions).history :=
  System.run_spares actions

/-- Whether every write of an attempt is alone under its key. -/
def aloneWrite : WriteCondition := fun _ p d =>
  match p with
  | .attempt _ r => d.attempts.all fun q => decide (q.key = r.key → q.identity = r.identity)
  | _ => true

/-- What spares every attempt is alone under its key. -/
theorem meets_of_spares {o : Option StoreOptions} {history : List Event}
    (h : Follows SparesIffAlone o history)
    (hs : Follows (fun o p d d' => ∀ w r, p = .attempt w r → Spares o r d.attempts d'.attempts) o
      history) : writesMeet aloneWrite o history = true := by
  induction history generalizing o with
  | nil => rfl
  | cons x history ih =>
    obtain ⟨hx, h⟩ := h
    obtain ⟨hsx, hs⟩ := hs
    have hwrite : ∀ {p d d'}, (∃ o', o = some o' ∧ SparesIffAlone o' p d d') →
        (∃ o', o = some o' ∧ ∀ w r, p = .attempt w r → Spares o' r d.attempts d'.attempts) →
        x.write? = some (p, d) → x.meets aloneWrite o = true := by
      rintro p d d' ⟨o', rfl, hiff⟩ ⟨o'', ho, hspares⟩ hw
      cases ho
      simp only [Event.meets, hw]
      cases p with
      | attempt w r =>
        have halone := (hiff w r rfl).mp (hspares w r rfl)
        exact List.all_eq_true.mpr fun q hq => decide_eq_true (halone q hq)
      | _ => rfl
    rw [writesMeet, Bool.and_eq_true]
    refine ⟨?_, ih h hs⟩
    cases x with
    | committed seq p d d' acknowledged =>
      cases acknowledged with
      | true => exact hwrite hx hsx rfl
      | false => cases o <;> rfl
    | replayed => exact hwrite hx hsx rfl
    | opened | checkpointed => cases o <;> rfl

theorem System.run_alone {actions : List Action}
    (h : Follows (fun o p d d' => ∀ w r, p = .attempt w r → Spares o r d.attempts d'.attempts) none
      (System.run actions).history) :
    writesMeet aloneWrite none (System.run actions).history = true :=
  meets_of_spares (System.run_spares actions) h

/-- The primary link fails over in two generations. -/
def Sample.renumbered : List Action :=
  booted {} {} ++
    [.perform (.requestFailover (request ⟨1⟩)), .perform (.setTopology (topology ⟨2⟩ ⟨2⟩)),
      .perform (down ⟨2⟩ ⟨2⟩ 2), .perform (usable ⟨2⟩ 2), .perform (.requestFailover (request ⟨2⟩))]

/-- The attempt of the second generation takes the place of the attempt of the first. -/
theorem generation_overwritten : ¬ ∀ actions, Follows (fun o p d d' => ∀ w r, p = .attempt w r →
    Spares o r d.attempts d'.attempts) none (System.run actions).history := by
  intro hall
  have hmeets : ∀ actions, writesMeet aloneWrite none (System.run actions).history = true :=
    fun actions => System.run_alone (hall actions)
  have hfalse : writesMeet aloneWrite none (System.run Sample.renumbered).history = false := by
    decide +kernel
  exact Bool.false_ne_true (hfalse.symm.trans (hmeets _))

end LinkFailover
