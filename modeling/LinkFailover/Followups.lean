import LinkFailover.Amendments

/-!
# Follow-ups of an attempt

A report, a rollback or a revalidation names an attempt by subject, generation and sequence, but
the table is searched without the generation. An application report compares the generation of
what it found. The three others do not, so they change an attempt of another generation whenever
that one sits under the subject and the sequence.

* `followUp_bound_iff`: when an operation keeps to the attempt it names.
-/

namespace LinkFailover

open Codec

/-! ## What an operation names and what it changes -/

/-- The attempt that an operation names. -/
def Operation.names : Operation → Option Identity
  | .recordApplication report =>
    some (report.subject, report.subjectGeneration, report.attemptSeq)
  | .recordVerification report =>
    some (report.subject, report.subjectGeneration, report.attemptSeq)
  | .requestRollback req => some (req.subject, req.subjectGeneration, req.attemptSeq)
  | .resolveInterrupted req => some (req.subject, req.subjectGeneration, req.attemptSeq)
  | _ => none

/-- The amendments that an operation committed. -/
def Engine.amended (e : Engine) (op : Operation) : List Amendment :=
  LinkFailover.amendments
    ((e.perform op).1.store.medium.history.drop e.store.medium.history.length)

/-- An operation changes no attempt but this one. -/
structure Engine.ChangesOnly (e : Engine) (op : Operation) (i : Identity) : Prop where
  commits : ∀ x ∈ e.amended op, x.2.identity = i
  keeps : ∀ q ∈ e.state.attempts, q.identity ≠ i →
    ∀ x ∈ (e.perform op).1.state.attempts, x.identity = q.identity → x = q

/-- Whether an operation comes to write an attempt: it has an amendment to make, and the store
accepts it. -/
def Engine.writes (e : Engine) (op : Operation) : Bool :=
  match e.amendments op with
  | [] => false
  | x :: _ => e.store.accepts (.attempt x.1 x.2)

/-! ## Tables behind amendments -/

theorem mem_noted {o : StoreOptions} {stamped before : List AttemptRecord} {x : AttemptRecord}
    (h : x ∈ stamped.foldl (noted o) before) : x ∈ stamped ∨ x ∈ before := by
  induction stamped generalizing before with
  | nil => exact .inr h
  | cons r rs ih =>
    rcases ih h with hx | hx
    · exact .inl (List.mem_cons_of_mem _ hx)
    · rcases BoundedTable.mem_of_mem_upsert (BoundedTable.mem_of_mem_evict hx) with rfl | hx
      · exact .inl List.mem_cons_self
      · exact .inr hx

/-- A record behind amendments is one of them, up to its stamps, or it was there before. -/
theorem Noted.mem {o : StoreOptions} {ws : List Amendment} {before after : List AttemptRecord}
    {x : AttemptRecord} (h : Noted o ws before after) (hx : x ∈ after) :
    (∃ w ∈ ws, w.2.unstamped = x.unstamped) ∨ x ∈ before := by
  obtain ⟨stamped, hs, rfl⟩ := h
  rcases mem_noted hx with hx | hx
  · have hm : x.unstamped ∈ ws.map (·.2.unstamped) := hs ▸ List.mem_map_of_mem hx
    obtain ⟨w, hw, he⟩ := List.mem_map.mp hm
    exact .inl ⟨w, hw, he⟩
  · exact .inr hx

namespace Engine

variable {e : Engine} {op : Operation} {i : Identity}

/-- What an operation committed, out of what it was going to. -/
theorem amended_begins (hop : op ≠ .close) :
    e.amended op <+: e.amendments op ∧
      Noted e.store.options (e.amended op) e.state.attempts (e.perform op).1.state.attempts := by
  obtain ⟨done, hp, hd⟩ := @perform_amends e op hop
  obtain ⟨events, hh, hw⟩ := hd.events
  have he : e.amended op = done := by
    rw [amended, hh, List.drop_left, hw]
  rw [he]
  exact ⟨hp, hd.table⟩

/-! ## Follow-ups -/

theorem ne_close_of_names (hi : op.names = some i) : op ≠ .close := by
  rintro rfl
  cases hi

theorem followUp_first (hi : op.names = some i) :
    AmendsFirst e.store (e.amendments op) (e.perform op).1.store := by
  cases op with
  | recordApplication report => exact recordApplication_amends report
  | recordVerification report => exact recordVerification_amends report
  | requestRollback req => exact requestRollback_amends req
  | resolveInterrupted req => exact resolveInterrupted_amends req
  | _ => cases hi

theorem amended_ne_nil (h : e.store.StoreOk)
    (hf : AmendsFirst e.store (e.amendments op) (e.perform op).1.store) :
    e.amended op ≠ [] ↔ e.writes op = true := by
  obtain ⟨done, hp, hd, hf⟩ := hf
  obtain ⟨events, hh, hw⟩ := hd.events
  have he : e.amended op = done := by
    rw [amended, hh, List.drop_left, hw]
  rw [he, writes]
  cases ha : e.amendments op with
  | nil =>
    rw [ha, List.prefix_nil] at hp
    rw [hp]
    simp
  | cons x rest => exact hf x rest ha h

theorem revalidatedAttempt_identity (found : AttemptRecord) (verdict : RevalidationVerdict) :
    (e.revalidatedAttempt found verdict).identity = found.identity := by
  cases verdict <;> rfl

theorem applyAttempt_identity (found : AttemptRecord) (report : ApplicationReport) :
    (e.applyAttempt found report).1.identity = found.identity := by
  unfold applyAttempt
  dsimp only
  split
  · rfl
  · rfl

/-- A follow-up amends the record that it finds, and no other. -/
theorem amendments_identity (hi : op.names = some i) {x : Amendment} (hx : x ∈ e.amendments op) :
    ∃ found, e.target op = some found ∧ x.2.identity = found.identity := by
  have helim : ∀ {f : AttemptRecord → List Amendment}, x ∈ (e.target op).elim [] f →
      ∃ found, e.target op = some found ∧ x ∈ f found := by
    intro f h
    cases ht : e.target op with
    | none => rw [ht] at h; cases h
    | some found => exact ⟨found, rfl, by rwa [ht] at h⟩
  cases op with
  | recordApplication report =>
    obtain ⟨found, ht, hf⟩ := helim hx
    refine ⟨found, ht, ?_⟩
    unfold applicationAmendments at hf
    split at hf
    · cases hf
    · rw [List.mem_singleton.mp hf]
      exact applyAttempt_identity found report
  | recordVerification report =>
    obtain ⟨found, ht, hf⟩ := helim hx
    refine ⟨found, ht, ?_⟩
    unfold verificationAmendments at hf
    split at hf
    · cases hf
    split at hf
    · rw [List.mem_singleton.mp hf]
      rfl
    · rcases List.mem_cons.mp hf with rfl | hf
      · rfl
      · rw [List.mem_singleton.mp hf]
        rfl
  | requestRollback req =>
    obtain ⟨found, ht, hf⟩ := helim hx
    refine ⟨found, ht, ?_⟩
    unfold rollbackAmendments at hf
    split at hf
    · cases hf
    · rw [List.mem_singleton.mp hf]
      rfl
  | resolveInterrupted req =>
    obtain ⟨found, ht, hf⟩ := helim hx
    refine ⟨found, ht, ?_⟩
    unfold revalidationAmendments at hf
    split at hf
    · cases hf
    · rw [List.mem_singleton.mp hf]
      exact revalidatedAttempt_identity found req.verdict
  | _ => cases hi

/-- The record that a follow-up finds has the subject and the sequence it names. -/
theorem target_names (hi : op.names = some i) {found : AttemptRecord}
    (h : e.target op = some found) :
    found ∈ e.state.attempts ∧ found.subject = i.1 ∧ found.attemptSeq = i.2.2 := by
  cases op with
  | recordApplication report | recordVerification report =>
    cases hi
    dsimp only [target] at h
    split at h
    · cases h
    · exact DurableState.findAttempt_some h
  | requestRollback req | resolveInterrupted req =>
    cases hi
    dsimp only [target] at h
    split at h
    · cases h
    · exact DurableState.findAttempt_some h
  | _ => cases hi

theorem target_identity (hi : op.names = some i) {found : AttemptRecord}
    (h : e.target op = some found) :
    found.identity = i ↔ found.subjectGeneration = i.2.1 := by
  obtain ⟨-, hs, hq⟩ := target_names hi h
  constructor
  · rintro rfl
    rfl
  · intro hg
    rw [AttemptRecord.identity, hs, hg, hq]

/-- Whoever commits only records of one attempt leaves the others as they were. -/
theorem ChangesOnly.of_commits (h : e.store.Keyed) (hi : op.names = some i)
    (hc : ∀ x ∈ e.amended op, x.2.identity = i) : e.ChangesOnly op i where
  commits := hc
  keeps q hq hne x hx hxq := by
    rcases (amended_begins (ne_close_of_names hi)).2.mem hx with ⟨w, hw, hu⟩ | hx
    · rw [← hxq, ← identity_of_unstamped hu, hc w hw] at hne
      exact absurd rfl hne
    · exact BoundedTable.eq_of_key_eq h hx hq (key_of_identity hxq)

end Engine

/-- An operation keeps to the attempt that it names exactly if what it finds under the subject
and the sequence is of the generation it names, or it does not come to write. -/
theorem followUp_bound_iff {e : Engine} (h : Reachable e) {op : Operation} {i : Identity}
    (hi : op.names = some i) :
    e.ChangesOnly op i ↔ ∀ found, e.target op = some found → e.writes op = true →
      found.subjectGeneration = i.2.1 := by
  constructor
  · intro hc found ht hw
    obtain ⟨x, hx⟩ := List.exists_mem_of_ne_nil _ ((Engine.amended_ne_nil h.ok.store (Engine.followUp_first hi)).mpr hw)
    obtain ⟨found', ht', hid⟩ :=
      Engine.amendments_identity hi ((Engine.amended_begins (Engine.ne_close_of_names hi)).1.subset hx)
    rw [ht] at ht'
    cases ht'
    rw [← Engine.target_identity hi ht, ← hid]
    exact hc.commits x hx
  · intro hc
    refine .of_commits h.ok.keyed hi fun x hx => ?_
    obtain ⟨found, ht, hid⟩ :=
      Engine.amendments_identity hi ((Engine.amended_begins (Engine.ne_close_of_names hi)).1.subset hx)
    have hw := (Engine.amended_ne_nil h.ok.store (Engine.followUp_first hi)).mp (List.ne_nil_of_mem hx)
    rw [hid, Engine.target_identity hi ht]
    exact hc found ht hw

/-- A rollback that names another generation revokes the attempt all the same. -/
theorem requestRollback_other_generation : ∃ e, Reachable e ∧
    ¬ e.ChangesOnly (.requestRollback
      { subject := Sample.primary, subjectGeneration := ⟨9⟩, attemptSeq := ⟨1⟩ })
      (Sample.primary, ⟨9⟩, ⟨1⟩) := by
  obtain ⟨e, he, hp⟩ := @System.of_serves
    (System.run (Sample.booted {} {} ++ [.perform (.requestFailover (Sample.request ⟨1⟩))]))
    (fun e => (e.amended (.requestRollback
      { subject := Sample.primary, subjectGeneration := ⟨9⟩, attemptSeq := ⟨1⟩ })).any
      fun x => decide (x.2.identity ≠ (Sample.primary, ⟨9⟩, ⟨1⟩))) (by decide +kernel)
  obtain ⟨x, hx, hne⟩ := List.any_eq_true.mp hp
  exact ⟨e, ⟨_, he⟩, fun h => of_decide_eq_true hne (h.commits x hx)⟩

/-- A rollback of the attempt that was granted is bound to it. -/
theorem followUp_bound_sample : ∃ e, Reachable e ∧
    e.ChangesOnly (.requestRollback
      { subject := Sample.primary, subjectGeneration := ⟨1⟩, attemptSeq := ⟨1⟩ })
      (Sample.primary, ⟨1⟩, ⟨1⟩) := by
  obtain ⟨e, he, hp⟩ := @System.of_serves
    (System.run (Sample.booted {} {} ++ [.perform (.requestFailover (Sample.request ⟨1⟩))]))
    (fun e : Engine => (e.target (.requestRollback
        { subject := Sample.primary, subjectGeneration := ⟨1⟩, attemptSeq := ⟨1⟩ })).any
      fun found : AttemptRecord => decide (found.subjectGeneration = ⟨1⟩)) (by decide +kernel)
  refine ⟨e, ⟨_, he⟩, (followUp_bound_iff ⟨_, he⟩ rfl).mpr fun found ht _ => ?_⟩
  rw [ht] at hp
  exact of_decide_eq_true hp

end LinkFailover
