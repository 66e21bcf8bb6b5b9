import LinkFailover.System

/-!
# After a failure to write

A store whose commit has failed accepts nothing more, and the engine above it answers nothing
that looks like a new durable decision. Some operations look at the flag of the engine, some run
into the next commit, and a publication is refused before it reaches the evidence.

* `perform_of_failed`: one operation.
* `performAll_of_failed`: any number of them.
-/

namespace LinkFailover

open Codec

/-- A decision that claims to be new and durable. -/
def FailoverDecision.Fresh (d : FailoverDecision) : Prop :=
  d.durable = true ∧ d.idempotentReplay = false

/-- No decision in the answer claims to be new and durable. -/
def Answer.Stale : Answer → Prop
  | .decision (.ok d) => ¬ d.Fresh
  | _ => True

namespace Engine

variable {e : Engine}

theorem commit_failed_status (hf : e.store.failed = true) {p : Payload}
    {apply : LineageSeq → DurableState → DurableState} :
    (e.store.commit p apply).2.isOk = false := by
  cases hok : (e.store.commit p apply).2.isOk with
  | false => rfl
  | true =>
    rw [(commit_ok hok).1] at hf
    cases hf

/-- No operation that writes goes on in a failed store. -/
theorem afterWrite_of_failed (hf : e.store.failed = true) {p : Payload}
    {apply : LineageSeq → DurableState → DurableState} {detail : String}
    {k : Engine → Engine × Result FailoverDecision} :
    ∃ s, (e.afterWrite (e.store.commit p apply) detail k).2 = .error s := by
  unfold afterWrite
  rw [if_pos (by rw [commit_failed_status hf]; rfl)]
  exact ⟨_, rfl⟩

theorem settleUndurable_stale (d : FailoverDecision) :
    Answer.Stale (.decision (e.settleUndurable d).2) := by
  rintro ⟨h, -⟩
  cases h

theorem stale_of_error {r : Result FailoverDecision} (h : ∃ s, r = .error s) :
    Answer.Stale (.decision r) := by
  obtain ⟨s, rfl⟩ := h
  trivial

theorem unavailable_of_failed (hs : e.Stops) (hf : e.store.failed = true) :
    ∃ s, e.unavailable = some s := by
  unfold unavailable
  rcases hs hf with h | h
  · rw [h]
    cases e.closed with
    | true => exact ⟨_, rfl⟩
    | false => exact ⟨_, rfl⟩
  · rw [h]
    exact ⟨_, rfl⟩

/-- A rollback in a failed store writes nothing. -/
theorem requestRollback_stale (hf : e.store.failed = true) (req : RollbackRequest) :
    Answer.Stale (.decision (e.requestRollback req).2) := by
  refine requestRollback_cases (P := fun out => Answer.Stale (.decision out.2)) (fun _ => trivial)
    (fun _ _ _ => ?_) (fun _ _ _ => trivial) fun found _ _ _ => ?_
  · rintro ⟨-, h⟩
    cases h
  · exact rollbackFound_cases (P := fun out => Answer.Stale (.decision out.2))
      (fun _ _ => settleUndurable_stale _) (fun _ _ _ => settleUndurable_stale _)
      (fun _ _ _ => settleUndurable_stale _)
      fun _ _ => stale_of_error (@afterWrite_of_failed e.advance hf _ _ _ _)

/-- Neither does a revalidation. -/
theorem resolveInterrupted_stale (hf : e.store.failed = true) (req : RevalidationRequest) :
    Answer.Stale (.decision (e.resolveInterrupted req).2) := by
  refine resolveInterrupted_cases (P := fun out => Answer.Stale (.decision out.2))
    (fun _ => trivial) (fun _ _ _ _ => trivial) (fun _ _ _ _ => trivial) fun found _ _ _ _ => ?_
  exact resolveFound_cases (P := fun out => Answer.Stale (.decision out.2))
    (fun _ => settleUndurable_stale _) (fun _ _ _ => settleUndurable_stale _)
    fun _ _ _ => stale_of_error (@afterWrite_of_failed e.advance hf _ _ _ _)

theorem perform_stale (hs : e.Stops) (hf : e.store.failed = true) (op : Operation) :
    (e.perform op).2.Stale := by
  obtain ⟨s, hu⟩ := unavailable_of_failed hs hf
  cases op with
  | requestFailover req =>
    refine stale_of_error ⟨s, ?_⟩
    change (e.requestFailover req).2 = .error s
    rw [requestFailover, hu]
  | recordApplication report =>
    refine stale_of_error ⟨s, ?_⟩
    change (e.recordApplication report).2 = .error s
    rw [recordApplication, hu]
  | recordVerification report =>
    refine stale_of_error ⟨s, ?_⟩
    change (e.recordVerification report).2 = .error s
    rw [recordVerification, hu]
  | requestRollback req => exact requestRollback_stale hf req
  | resolveInterrupted req => exact resolveInterrupted_stale hf req
  | _ => trivial

/-- A publication is refused before it reaches the evidence. -/
theorem publish_of_failed {Report : Type} (hs : e.Stops) (hf : e.store.failed = true)
    (k : ReportKind Report) (report : Report) : (e.publish k report).1 = e := by
  obtain ⟨s, hu⟩ := unavailable_of_failed hs hf
  have hadmit : e.admitReport k report = some s := by
    unfold admitReport
    rw [hu]
  rw [publish, hadmit]

end Engine

/-- One operation after the failure changes neither the store nor the evidence. A close lets go of
the store, and its directory stays as it was. -/
theorem perform_of_failed {e : Engine} (h : EngineOk False e) (hf : e.store.failed = true)
    (op : Operation) :
    ((e.perform op).1.store = e.store ∨ op = .close ∧ (e.perform op).1.store = e.store.close) ∧
      Keeps e (e.perform op).1 ∧ (e.perform op).2.Stale := by
  have hstale := Engine.perform_stale h.stops hf op
  rcases perform_leads h op False.elim with hl | ⟨report, rfl⟩ | ⟨report, rfl⟩ | rfl
  · exact ⟨.inl (hl.path.of_failed hf), hl.keeps, hstale⟩
  · have he : (e.perform (.publishFailure report)).1 = e :=
      Engine.publish_of_failed h.stops hf _ _
    rw [he]
    exact ⟨.inl rfl, .refl e, hstale⟩
  · have he : (e.perform (.publishReplacement report)).1 = e :=
      Engine.publish_of_failed h.stops hf _ _
    rw [he]
    exact ⟨.inl rfl, .refl e, hstale⟩
  · obtain ⟨s, hpath, hs⟩ := @Engine.close_path False e
    have hsame : s = e.store := hpath.of_failed hf
    rw [hsame] at hs
    exact ⟨hs.imp And.left fun hs => ⟨rfl, hs.1⟩, Engine.close_keeps, hstale⟩

/-- Whatever is done after the failure, the directory stays as it was. -/
theorem perform_of_failed_medium {e : Engine} (h : EngineOk False e) (hf : e.store.failed = true)
    (op : Operation) : (e.perform op).1.store.medium = e.store.medium := by
  rcases (perform_of_failed h hf op).1 with hs | ⟨-, hs⟩
  · rw [hs]
  · rw [hs]
    rfl

/-- Once a commit of a boot has failed, no later operation adds to the journal, changes the
evidence or answers with a new durable decision, whatever operations came in between. As long as
the engine is not closed among them, the durable state stays as it was, too: the attempts, the
fences, the idempotency index, the policy and the topology. A close gives the store up. -/
theorem performAll_of_failed {e : Engine} (h : Reachable e) (hf : e.store.failed = true)
    (ops : List Operation) :
    (.close ∉ ops → (e.performAll ops).store = e.store) ∧
      (e.performAll ops).store.medium = e.store.medium ∧ Keeps e (e.performAll ops) ∧
      ∀ op, ((e.performAll ops).perform op).2.Stale := by
  induction ops generalizing e with
  | nil => exact ⟨fun _ => rfl, rfl, .refl e, Engine.perform_stale h.ok.stops hf⟩
  | cons op ops ih =>
    obtain ⟨hstore, hkeeps, -⟩ := perform_of_failed h.ok hf op
    have hfailed : (e.perform op).1.store.failed = true := by
      rcases hstore with hs | ⟨-, hs⟩
      · rw [hs]
        exact hf
      · rw [hs]
        rfl
    obtain ⟨h1, h2, h3, h4⟩ := ih (h.perform op) hfailed
    refine ⟨fun hclose => ?_, h2.trans (perform_of_failed_medium h.ok hf op), hkeeps.trans h3, h4⟩
    obtain ⟨hop, hops⟩ := not_or.mp (mt List.mem_cons.mpr hclose)
    refine (h1 hops).trans (hstore.resolve_right ?_)
    rintro ⟨rfl, -⟩
    exact hop rfl

/-- A process whose first attempt cannot be written: no list of operations without a close changes
what it shows, and none at all changes its directory. -/
theorem performAll_of_failed_sample : ∃ e, Reachable e ∧ e.store.failed = true ∧
    ∀ ops, (.close ∉ ops → (e.performAll ops).store = e.store) ∧
      (e.performAll ops).store.medium = e.store.medium := by
  obtain ⟨e, he, hp⟩ := @System.of_serves
    (System.run
      [.start { options := Sample.options {} {}, incarnation := Sample.incarnation 1,
                appendFaults := [none, none, some 0] },
        .perform (Sample.down ⟨1⟩ ⟨1⟩ 1), .perform (Sample.usable ⟨1⟩ 1),
        .perform (.requestFailover (Sample.request ⟨1⟩))])
    (fun e => e.store.failed) (by decide +kernel)
  refine ⟨e, ⟨_, he⟩, hp, fun ops => ?_⟩
  have hall := performAll_of_failed ⟨_, he⟩ hp ops
  exact ⟨hall.1, hall.2.1⟩

end LinkFailover
