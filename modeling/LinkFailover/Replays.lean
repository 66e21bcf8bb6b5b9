import LinkFailover.Commits

/-!
# Answers from the index

An entry of the idempotency index restates the decision of the request that stored it, however
many boots ago. The lookup compares the key and nothing else, so the answer belongs to another
request whenever a key was used for two of them.

* `System.run_indexed`: every entry of the index stands in the lineage.
* `replay_belongs`: what an answer from the index restates.
-/

namespace LinkFailover

open Codec

/-! ## The index -/

/-- Every entry of the index stands in the lineage. -/
def Indexed (entries : List Entry) (d : DurableState) : Prop :=
  ∀ x ∈ d.idempotency, ∃ seq, (seq, Payload.idempotency x) ∈ entries

theorem Indexed.append {entries : List Entry} {d : DurableState} (h : Indexed entries d)
    (new : List Entry) : Indexed (entries ++ new) d := fun x hx => by
  obtain ⟨seq, hm⟩ := h x hx
  exact ⟨seq, List.mem_append_left _ hm⟩

theorem Indexed.effect {entries : List Entry} {d d' : DurableState} {seq : LineageSeq}
    {p : Payload} (h : Indexed entries d) (he : Effect seq d p d') :
    Indexed (entries ++ [(seq, p)]) d' := by
  cases he with
  | idempotency o e =>
    intro x hx
    rcases List.mem_append.mp (mem_evictIdempotency hx) with hx | hx
    · exact h.append _ x hx
    · rw [List.mem_singleton.mp hx]
      exact ⟨seq, List.mem_append_right _ List.mem_cons_self⟩
  | _ => exact h.append _

theorem indexLaw (wire : Prop) :
    LineageLaw wire (fun _ _ _ => True) Indexed (fun _ _ => True) fun _ _ _ _ => True where
  start _ := fun x hx => by cases hx
  positions h _ _ := h
  effect h _ _ he _ := h.effect he
  opened _ := trivial
  guard _ _ _ _ _ := trivial
  live _ _ _ _ _ _ := trivial
  booted _ _ _ := trivial
  fenced _ _ _ := trivial
  local_rule _ := trivial

theorem Trace.indexed {wire : Prop} {history : List Event} {o : StoreOptions} {d : DurableState}
    {j : Job} (h : Trace wire history (.live o d j)) : Indexed (lineage history) d :=
  (((indexLaw wire).holds h fun e _ => by unfold Event.Obeys; split <;> trivial).live _ _ _ rfl).1

section Paths

variable {wire : Prop} {s : LineageStore} {j j' : Job} {p : Payload}
  {apply : LineageSeq → DurableState → DurableState}

theorem commit_indexed (w : s.failed = false →
      Writes wire (lineage s.medium.history) s.options s.state j p apply j')
    (h : Indexed (lineage s.medium.history) s.state) :
    Indexed (lineage (s.commit p apply).1.medium.history) (s.commit p apply).1.state := by
  cases hok : (s.commit p apply).2.isOk with
  | false =>
    rw [(commit_not_ok hok).2.1]
    obtain ⟨t, ht⟩ := lineage_begins (@commit_history s p apply)
    rw [← ht]
    exact h.append t
  | true =>
    obtain ⟨hf, -, seq, -, -, hstate, -, hhistory⟩ := commit_ok hok
    rw [hhistory, hstate, lineage_append, lineage_committed]
    have hi := h.effect ((w hf).effect seq)
    exact hi

theorem checkpoint_indexed (h : Indexed (lineage s.medium.history) s.state) :
    Indexed (lineage s.checkpoint.1.medium.history) s.checkpoint.1.state := by
  have ho := s.checkpoint_outcome
  revert ho
  generalize s.checkpoint.1 = s'
  intro ho
  cases ho with
  | unchanged state _ _ history => rwa [history, state]
  | broken _ _ _ state _ history =>
    rw [history, state, lineage_append, lineage_checkpointed, List.append_nil]
    exact h
  | @rotated s₁ c _ _ state _ history =>
    refine @commit_indexed True s₁ .serving _ _ _ (fun _ => .checkpoint c) ?_
    rw [history, state, lineage_append, lineage_checkpointed, List.append_nil]
    exact h

theorem Step.indexed {x y : LineageStore × Job} (h : Step wire x y)
    (hi : Indexed (lineage x.1.medium.history) x.1.state) :
    Indexed (lineage y.1.medium.history) y.1.state := by
  cases h with
  | write w => exact commit_indexed w hi
  | checkpoint => exact checkpoint_indexed hi
  | booted | fenced | failed => exact hi

theorem Path.indexed {x y : LineageStore × Job} (h : Path wire x y)
    (hi : Indexed (lineage x.1.medium.history) x.1.state) :
    Indexed (lineage y.1.medium.history) y.1.state := by
  induction h with
  | refl => exact hi
  | tail _ hs ih => exact hs.indexed ih

end Paths

theorem EngineOk.indexed_perform {wire : Prop} {e : Engine} (h : EngineOk wire e)
    (hi : Indexed (lineage e.store.medium.history) e.state) (op : Operation) :
    Indexed (lineage (e.perform op).1.store.medium.history) (e.perform op).1.state := by
  obtain ⟨s, hpath, ⟨hs, -⟩ | ⟨-, -, hs, -⟩⟩ := perform_path h.plain op False.elim
  · rw [Engine.state, hs]
    exact Path.indexed hpath hi
  · rw [Engine.state, hs]
    intro x hx
    cases hx

/-- Every entry of the index of a process stands in the lineage, also behind a failure. -/
theorem System.run_indexed {actions : List Action} {e : Engine} (h : run actions = .up e) :
    Indexed (lineage e.store.medium.history) e.state := by
  induction actions using List.reverseRecOn generalizing e with
  | nil => cases h
  | append_singleton actions a ih =>
    have hok := @run_ok False actions False.elim
    rw [run_append] at h
    cases hrun : run actions with
    | down m =>
      rw [hrun] at h hok
      cases a with
      | start b =>
        have hm : MediumOk False (b.medium m) := ⟨hok.trace, hok.represents⟩
        have ho := (@openEngine_outcome False b.options b.incarnation b.build _ hm).2
        rw [step, Boot.open] at h
        revert h ho
        generalize Engine.openEngine b.options b.incarnation b.build (b.medium m) = result
        obtain ⟨m', r⟩ := result
        intro h ho
        cases r with
        | error _ => cases h
        | ok e' =>
          cases h
          obtain ⟨hok', hf, -⟩ := ho e rfl
          exact (Engine.ok_trace hok' hf).indexed
      | perform | kill => cases h
    | up e' =>
      rw [hrun] at h hok
      cases a with
      | perform op =>
        cases h
        exact EngineOk.indexed_perform hok (ih hrun) op
      | start =>
        cases h
        exact ih hrun
      | kill => cases h

/-- Every entry of the index of a process was stored by an operation of the run. -/
theorem System.run_stored {actions : List Action} {e : Engine} (h : run actions = .up e)
    {x : IdempotencyEntry} (hx : x ∈ e.state.idempotency) :
    ∃ e₀ op₀, Performs actions e₀ op₀ ∧ e₀.Stores op₀ x := by
  obtain ⟨seq, hm⟩ := run_indexed h x hx
  have hhistory : (run actions).history = e.store.medium.history := by
    rw [h]
    rfl
  rw [← hhistory] at hm
  rcases run_lineage hm with ⟨c, hc⟩ | hb | ⟨e₀, op₀, hp, apply, hs⟩
  · cases hc
  · cases hb
  · cases hs with
    | idempotency hs => exact ⟨e₀, op₀, hp, hs⟩

/-! ## Answers -/

/-- Two requests ask for the same: the same operation, of the same attempt or for the same
generation of a link. -/
def Operation.SameRequest : Operation → Operation → Prop
  | .requestFailover r, .requestFailover r' =>
    r.subject = r'.subject ∧ r.subjectGeneration = r'.subjectGeneration
  | .requestRollback r, .requestRollback r' =>
    r.subject = r'.subject ∧ r.subjectGeneration = r'.subjectGeneration ∧
      r.attemptSeq = r'.attemptSeq
  | _, _ => False

/-- A request passes the gates in front of the index and finds an entry there. -/
def Engine.AnswersFrom (e : Engine) (op : Operation) (x : IdempotencyEntry) : Prop :=
  match op with
  | .requestFailover req => e.unavailable = none ∧ e.advance.checkRequest req = none ∧
      e.state.findIdempotency req.idempotencyKey = some x
  | .requestRollback req => e.closed = false ∧ e.state.findIdempotency req.idempotencyKey = some x
  | _ => False

/-- A decision restates another one. -/
structure FailoverDecision.Restates (d d₀ : FailoverDecision) : Prop where
  kind : d.kind = d₀.kind
  outcome : d.outcome = d₀.outcome
  subject : d.subject = d₀.subject
  subjectGeneration : d.subjectGeneration = d₀.subjectGeneration
  attemptSeq : d.attemptSeq = d₀.attemptSeq
  hasReplacement : d.hasReplacement = d₀.hasReplacement
  replacement : d.replacement = d₀.replacement
  replacementGeneration : d.replacementGeneration = d₀.replacementGeneration
  decisionId : d.decisionId = d₀.decisionId
  replay : d.idempotentReplay = true

namespace Engine

variable {e : Engine} {op : Operation} {x : IdempotencyEntry}

theorem AnswersFrom.answer (h : e.AnswersFrom op x) :
    (e.perform op).2 = .decision (.ok (e.advance.replayDecision x)) ∧
      op.key = some x.key ∧ x ∈ e.state.idempotency := by
  cases op with
  | requestFailover req =>
    obtain ⟨hu, hc, hx⟩ := h
    obtain ⟨hm, hk⟩ := DurableState.findIdempotency_some hx
    refine ⟨?_, congrArg some hk.symm, hm⟩
    change Answer.decision (e.requestFailover req).2 = _
    rw [requestFailover, hu]
    dsimp only
    rw [planFailover, hc, advance_state, hx]
    rfl
  | requestRollback req =>
    obtain ⟨hc, hx⟩ := h
    obtain ⟨hm, hk⟩ := DurableState.findIdempotency_some hx
    refine ⟨?_, congrArg some hk.symm, hm⟩
    change Answer.decision (e.requestRollback req).2 = _
    rw [requestRollback, if_neg (by simp [hc])]
    dsimp only
    rw [advance_state, hx]
  | _ => cases h

end Engine

/-- An answer from the index restates the decision of an earlier request of the run, and that
request asked for the same if every earlier one did that carried the key and found no entry. -/
theorem replay_belongs {actions : List Action} {e : Engine} (h : System.run actions = .up e)
    {op : Operation} {x : IdempotencyEntry} (hx : e.AnswersFrom op x)
    (hkeys : ∀ e₀ op₀ key, Performs actions e₀ op₀ → op₀.key = some key → op.key = some key →
      e₀.state.findIdempotency key = none → op₀.SameRequest op) :
    ∃ e₀ op₀ d₀ d, Performs actions e₀ op₀ ∧ e₀.Stores op₀ x ∧
      (e₀.perform op₀).2 = .decision (.ok d₀) ∧ op₀.SameRequest op ∧
      (e.perform op).2 = .decision (.ok d) ∧ d.Restates d₀ := by
  obtain ⟨hanswer, hkey, hm⟩ := hx.answer
  obtain ⟨e₀, op₀, hp, hs⟩ := System.run_stored h hm
  obtain ⟨hk, hz, hnone, d₀, hd, hdur, he⟩ := hs
  refine ⟨e₀, op₀, d₀, _, hp, ⟨hk, hz, hnone, d₀, hd, hdur, he⟩, hd,
    hkeys e₀ op₀ x.key hp hk hkey hnone, hanswer, ?_⟩
  rw [he]
  exact ⟨rfl, rfl, rfl, rfl, rfl, rfl, rfl, rfl, rfl, rfl⟩

/-! ## One key for two requests -/

/-- A process that has granted the request under its key. -/
def Sample.granted : List Action := booted {} {} ++ [.perform (.requestFailover (keyed ⟨1⟩))]

/-- The only request of that process is the one that was granted. -/
theorem Sample.granted_request {e : Engine} {op : Operation} {k : Digest}
    (h : Performs Sample.granted e op) (hk : op.key = some k) :
    op = .requestFailover (Sample.keyed ⟨1⟩) := by
  have hm := h.mem
  simp only [Sample.granted, Sample.booted, List.cons_append, List.nil_append, List.mem_cons,
    Action.perform.injEq, List.not_mem_nil, or_false, reduceCtorEq, false_or] at hm
  rcases hm with rfl | rfl | rfl
  · cases hk
  · cases hk
  · rfl

/-- A rollback under the key of a grant, of another attempt of another link, is answered with
that grant. -/
theorem requestRollback_foreign_key : ∃ (e : Engine) (op : Operation) (x : IdempotencyEntry),
    System.run Sample.granted = .up e ∧
    e.AnswersFrom op x ∧
    ¬ ∃ e₀ op₀, Performs Sample.granted e₀ op₀ ∧ e₀.Stores op₀ x ∧ op₀.SameRequest op := by
  obtain ⟨e, he, hp⟩ := @System.of_serves (System.run Sample.granted)
    (fun e => !e.closed && (e.state.findIdempotency Sample.key).isSome) (by decide +kernel)
  simp only [Bool.and_eq_true, Bool.not_eq_true'] at hp
  obtain ⟨hc, hs⟩ := hp
  obtain ⟨x, hx⟩ := Option.isSome_iff_exists.mp hs
  let req : RollbackRequest :=
    { subject := Sample.alternate
      subjectGeneration := ⟨5⟩
      attemptSeq := ⟨9⟩
      idempotencyKey := Sample.key }
  refine ⟨e, .requestRollback req, x, he, ⟨hc, hx⟩, ?_⟩
  rintro ⟨e₀, op₀, hp, hstores, hsame⟩
  rw [Sample.granted_request hp hstores.1] at hsame
  exact hsame

/-- The same request again is answered with its own grant. -/
theorem replay_belongs_sample : ∃ (e₀ : Engine) (op₀ : Operation) (d₀ : FailoverDecision)
    (e : Engine) (d : FailoverDecision), Performs Sample.granted e₀ op₀ ∧
    (e₀.perform op₀).2 = .decision (.ok d₀) ∧
    (e.perform (.requestFailover (Sample.keyed ⟨1⟩))).2 = .decision (.ok d) ∧ d.Restates d₀ := by
  obtain ⟨e, he, hp⟩ := @System.of_serves (System.run Sample.granted)
    (fun e => e.unavailable.isNone && ((e.advance.checkRequest (Sample.keyed ⟨1⟩)).isNone &&
      (e.state.findIdempotency Sample.key).isSome)) (by decide +kernel)
  simp only [Bool.and_eq_true, Option.isNone_iff_eq_none] at hp
  obtain ⟨hu, hc, hs⟩ := hp
  obtain ⟨x, hx⟩ := Option.isSome_iff_exists.mp hs
  obtain ⟨e₀, op₀, d₀, d, hp, -, hd₀, -, hd, hr⟩ :=
    @replay_belongs Sample.granted e he (.requestFailover (Sample.keyed ⟨1⟩)) x ⟨hu, hc, hx⟩
      fun e₀ op₀ k hp hk _ _ => by
        rw [Sample.granted_request hp hk]
        exact ⟨rfl, rfl⟩
  exact ⟨e₀, op₀, d₀, e, d, hp, hd₀, hd, hr⟩

end LinkFailover
