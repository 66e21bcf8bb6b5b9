import LinkFailover.Accounting
import LinkFailover.Directives
import LinkFailover.Ladder
import LinkFailover.Mirrors

/-!
# Attempts that count as applied

The lineage takes an attempt for applied from the moment that somebody vouches for its effect: an
application report that accepts it, or a revalidation that finds it applied. Everything else only
carries the assertion on.

* `CountsApplied`: the last record of an attempt says that it was applied.
* `step_applied`: nothing but a voucher brings an attempt there.
* `pending_granted`, `pending_unapplied`: what directives are handed out of.
-/

namespace LinkFailover

open Codec

/-! ## Attempts that count as applied -/

def phaseApplied : AttemptPhase → Bool
  | .acknowledged | .verified | .committed => true
  | _ => false

/-- The last record of an attempt says that it was applied. -/
def CountsApplied (entries : List Entry) (i : Identity) : Prop :=
  ∃ r, lastWrite entries i = some r ∧ phaseApplied r.phase = true

/-- Whoever performs the operation answers for the effect of the attempt. -/
def Operation.Vouches : Operation → Identity → Prop
  | .recordApplication report, i => report.accepted = true ∧
      i = (report.subject, report.subjectGeneration, report.attemptSeq)
  | .resolveInterrupted req, _ => req.verdict = .applied
  | _, _ => False

section Lineages

variable {entries new : List Entry} {i : Identity} {e : Engine} {op : Operation}
  {w : AttemptWrite} {r : AttemptRecord}

theorem countsApplied_append (h : CountsApplied (entries ++ new) i) :
    CountsApplied entries i ∨ ∃ seq w r, (seq, Payload.attempt w r) ∈ new ∧ r.identity = i ∧
      phaseApplied r.phase = true := by
  induction new using List.reverseRecOn with
  | nil =>
    rw [List.append_nil] at h
    exact .inl h
  | append_singleton new x ih =>
    obtain ⟨seq, p⟩ := x
    have hold : CountsApplied (entries ++ new) i → CountsApplied entries i ∨ ∃ seq' w r,
        (seq', Payload.attempt w r) ∈ new ++ [(seq, p)] ∧ r.identity = i ∧
          phaseApplied r.phase = true := fun h =>
      (ih h).imp id fun ⟨seq', w, r, hm, hr⟩ => ⟨seq', w, r, List.mem_append_left _ hm, hr⟩
    obtain ⟨r, hr, hp⟩ := h
    rw [← List.append_assoc, lastWrite_append] at hr
    cases p with
    | attempt w q =>
      dsimp only at hr
      split at hr
      · rename_i hi
        cases hr
        exact .inr ⟨seq, w, _, List.mem_append_right _ List.mem_cons_self, hi, hp⟩
      · exact hold ⟨r, hr, hp⟩
    | _ => exact hold ⟨r, hr, hp⟩

/-- A request writes of no attempt that it was applied. -/
theorem request_unapplied (h : EngineOk False e) (hf : e.store.failed = false)
    {req : FailoverRequest} (hm : (w, r) ∈ e.amendments (.requestFailover req)) :
    phaseApplied r.phase = false := by
  cases ha : e.amendments (.requestFailover req) with
  | nil =>
    rw [ha] at hm
    cases hm
  | cons x rest =>
    rw [ha] at hm
    obtain ⟨-, -, ⟨hx, rfl⟩ | ⟨⟨hx, -⟩, rfl⟩⟩ := Engine.failover_amendments h hf ha
    · have heq := List.mem_singleton.mp hm
      rw [← heq] at hx
      rcases hx with hx | hx <;> rw [hx] <;> rfl
    · rcases List.mem_cons.mp hm with hm | hm
      · rw [← hm] at hx
        rw [hx]
        rfl
      · cases List.mem_singleton.mp hm
        rfl

/-- An attempt is applied because it was acknowledged, or because somebody vouches for it. -/
theorem followUp_applied {i : Identity} (hi : op.names = some i) (hm : (w, r) ∈ e.amendments op)
    (hp : phaseApplied r.phase = true) :
    (∃ found ∈ e.state.attempts, r.identity = found.identity ∧ found.phase = .acknowledged) ∨
      op.Vouches r.identity := by
  obtain ⟨found, ht, hid⟩ := Engine.amendments_identity hi hm
  obtain ⟨hfound, hsubject, hseq⟩ := Engine.target_names hi ht
  cases op with
  | recordApplication report =>
    cases hi
    dsimp only [Engine.amendments] at hm
    rw [ht] at hm
    change (w, r) ∈ e.advance.applicationAmendments found report at hm
    unfold Engine.applicationAmendments at hm
    split at hm
    · cases hm
    rename_i hguard
    simp only [not_or, not_not] at hguard
    refine .inr ⟨?_, ?_⟩
    · obtain ⟨-, rfl⟩ := Prod.mk.inj (List.mem_singleton.mp hm)
      cases ha : report.accepted with
      | true => rfl
      | false =>
        rw [Engine.applyAttempt, ha] at hp
        cases hp
    · rw [hid, AttemptRecord.identity, hsubject, hseq, hguard.1]
  | recordVerification report =>
    dsimp only [Engine.amendments] at hm
    rw [ht] at hm
    change (w, r) ∈ Engine.verificationAmendments found report at hm
    unfold Engine.verificationAmendments at hm
    split at hm
    · cases hm
    rename_i hguard
    simp only [not_or, not_not] at hguard
    exact .inl ⟨found, hfound, hid, hguard.2⟩
  | requestRollback req =>
    dsimp only [Engine.amendments] at hm
    rw [ht] at hm
    change (w, r) ∈ e.advance.rollbackAmendments found req at hm
    unfold Engine.rollbackAmendments at hm
    split at hm
    · cases hm
    · obtain ⟨-, rfl⟩ := Prod.mk.inj (List.mem_singleton.mp hm)
      cases hp
  | resolveInterrupted req =>
    dsimp only [Engine.amendments] at hm
    rw [ht] at hm
    change (w, r) ∈ e.advance.revalidationAmendments found req at hm
    unfold Engine.revalidationAmendments at hm
    split at hm
    · cases hm
    obtain ⟨-, rfl⟩ := Prod.mk.inj (List.mem_singleton.mp hm)
    refine .inr ?_
    cases hv : req.verdict with
    | applied => exact hv
    | notApplied | unknown | undeclared =>
      rw [hv] at hp
      cases hp
  | _ => cases hi

/-- No new definition leaves an attempt applied. -/
theorem fencing_unapplied {cause : Engine.FenceCause} {rs : List AttemptRecord}
    (hm : (w, r) ∈ Engine.fencingAmendments cause rs) : phaseApplied r.phase = false := by
  obtain ⟨q, -, he⟩ := List.mem_map.mp hm
  obtain ⟨-, rfl⟩ := Prod.mk.inj he
  rfl

theorem amendments_applied (h : EngineOk False e) (hf : e.store.failed = false)
    (hm : (w, r) ∈ e.amendments op) (hp : phaseApplied r.phase = true) :
    (∃ found ∈ e.state.attempts, r.identity = found.identity ∧ found.phase = .acknowledged) ∨
      op.Vouches r.identity := by
  have hfencing : ∀ {cause : Engine.FenceCause},
      (w, r) ∈ Engine.fencingAmendments cause e.state.attempts → False := fun hm => by
    rw [fencing_unapplied hm] at hp
    cases hp
  cases hn : op.names with
  | some i => exact followUp_applied hn hm hp
  | none =>
    cases op with
    | requestFailover req =>
      rw [request_unapplied h hf hm] at hp
      cases hp
    | setPolicy policy =>
      dsimp only [Engine.amendments] at hm
      split at hm
      · cases hm
      unfold Engine.definitionAmendments at hm
      split at hm
      · cases hm
      · exact (hfencing hm).elim
    | setTopology topology =>
      dsimp only [Engine.amendments] at hm
      split at hm
      · cases hm
      unfold Engine.definitionAmendments at hm
      split at hm
      · cases hm
      · exact (hfencing hm).elim
    | recordApplication | recordVerification | requestRollback | resolveInterrupted => cases hn
    | _ => cases hm

/-- An operation leaves no other attempt applied than the one that it vouches for. -/
theorem perform_applied (h : EngineOk False e)
    (ha : CountsApplied (lineage (e.perform op).1.store.medium.history) i) :
    CountsApplied (lineage e.store.medium.history) i ∨ op.Vouches i := by
  by_cases hf : e.store.failed = true
  · rw [perform_of_failed_medium h hf op] at ha
    exact .inl ha
  have hf : e.store.failed = false := by simpa using hf
  obtain ⟨new, hl, hmade⟩ := e.perform_lineage op
  rw [hl] at ha
  rcases countsApplied_append ha with ha | ⟨seq, w, r, hm, rfl, hp⟩
  · exact .inl ha
  rcases hmade _ hm with ⟨c, hc⟩ | ⟨apply, hmakes⟩
  · cases hc
  cases hmakes with
  | attempt hm =>
    rcases amendments_applied h hf hm hp with ⟨found, hfound, hid, hphase⟩ | hv
    · obtain ⟨x, hx, hu⟩ := (Engine.ok_state h hf).known found hfound
      refine .inl ⟨x, by rw [hid, hx], ?_⟩
      rw [phase_of_unstamped hu, hphase]
      rfl
    · exact .inr hv

/-- A boot leaves no attempt applied. -/
theorem open_applied {b : Boot} {m : Medium} (hm : MediumOk False m)
    (ha : CountsApplied (lineage (b.open m).1.history) i) :
    CountsApplied (lineage m.history) i := by
  have hm : MediumOk False (b.medium m) := ⟨hm.trace, hm.represents⟩
  obtain ⟨entries, rs, hl, -, hp⟩ :=
    @openEngine_commits False b.options b.incarnation b.build _ hm
  rw [Boot.open, hl] at ha
  rcases countsApplied_append ha with ha | ⟨seq, w, r, hmem, -, hphase⟩
  · exact ha
  rcases hp _ hmem with ⟨c, hc⟩ | hb
  · cases hc
  · cases hb
    cases hphase

theorem start_history {b : Boot} {m : Medium} (hm : MediumOk False m) :
    ((System.down m).step (.start b)).history = (b.open m).1.history := by
  have hm : MediumOk False (b.medium m) := ⟨hm.trace, hm.represents⟩
  have ho := (@openEngine_outcome False b.options b.incarnation b.build _ hm).2
  rw [System.step, Boot.open]
  revert ho
  generalize Engine.openEngine b.options b.incarnation b.build (b.medium m) = result
  obtain ⟨m', result⟩ := result
  intro ho
  cases result with
  | error _ => rfl
  | ok e =>
    have hmedium : e.store.medium = m' := (ho e rfl).2.2
    rw [← hmedium]
    rfl

/-- A step leaves no other attempt applied than the one that its operation vouches for. -/
theorem step_applied {s : System} (h : s.Ok False) (a : Action)
    (ha : CountsApplied (lineage (s.step a).history) i) :
    CountsApplied (lineage s.history) i ∨ ∃ op, a = .perform op ∧ op.Vouches i := by
  cases s with
  | down m =>
    cases a with
    | start b =>
      rw [start_history h] at ha
      exact .inl (open_applied h ha)
    | perform | kill => exact .inl ha
  | up e =>
    cases a with
    | perform op => exact (perform_applied h ha).imp id fun hv => ⟨op, rfl, hv⟩
    | start | kill => exact .inl ha

end Lineages

/-! ## Directives and their attempts -/

/-- The attempt that a directive is about. -/
def ApplyDirective.identity (d : ApplyDirective) : Identity :=
  (d.subject, d.subjectGeneration, d.attemptSeq)

/-- Where the table of attempts keeps the attempt. -/
def ApplyDirective.key (d : ApplyDirective) : LinkKey × AttemptSeq := (d.subject, d.attemptSeq)

/-- What a directive takes over from the record of its attempt. -/
structure ApplyDirective.Of (d : ApplyDirective) (r : AttemptRecord) : Prop where
  subject : d.subject = r.subject
  subjectGeneration : d.subjectGeneration = r.subjectGeneration
  replacement : d.replacement = r.replacement
  replacementGeneration : d.replacementGeneration = r.replacementGeneration
  attemptSeq : d.attemptSeq = r.attemptSeq
  attemptId : d.attemptId = r.attemptId
  authority : d.authority = r.authority

/-- The lineage has a grant of the attempt that a directive is about. -/
def GrantsDirective (entries : List Entry) (d : ApplyDirective) : Prop :=
  ∃ seq w r, (seq, Payload.attempt w r) ∈ entries ∧ r.phase = .authorized ∧ d.Of r

section Directives

variable {actions : List Action} {e : Engine} {d : ApplyDirective} {n : Nat}

theorem GrantsDirective.mono {entries entries' : List Entry}
    (h : GrantsDirective entries d) (hp : entries <+: entries') : GrantsDirective entries' d := by
  obtain ⟨seq, w, r, hm, hr⟩ := h
  exact ⟨seq, w, r, hp.subset hm, hr⟩

theorem finished_begins (history : List Event) : finished history <+: history := by
  unfold finished
  split
  · exact List.prefix_rfl
  · exact List.dropLast_prefix history

/-- The event that a failure leaves behind is no record, unless its commit is lost. -/
theorem lineage_finished {history : List Event} (hl : ∀ x ∈ history, x.lost = false) :
    lineage (finished history) = lineage history := by
  rcases List.eq_nil_or_concat history with rfl | ⟨before, x, rfl⟩
  · rfl
  rw [List.concat_eq_append] at hl ⊢
  cases hx : x.finished with
  | true =>
    rw [finished_of_all]
    rw [List.getLast?_concat]
    exact hx
  | false =>
    rw [finished_concat hx, lineage_append]
    have hlost := hl x (List.mem_append_right _ List.mem_cons_self)
    cases x with
    | committed seq p before after ack =>
      cases ack with
      | true => cases hx
      | false => cases hlost
    | _ => exact (List.append_nil _).symm

theorem pendingDirectives_mem (hd : d ∈ e.pendingDirectives n) :
    ∃ q ∈ e.state.attempts, q.phase = .authorized ∧ d = e.directiveOf q :=
  Engine.Hands.attempt (.inl ⟨n, hd⟩)

/-- The record that a directive was made from is the last one of its attempt, as far as the
process got. -/
theorem pending_last (hrun : System.run actions = .up e) (hd : d ∈ e.pendingDirectives n) :
    ∃ r, lastWrite (lineage (finished e.store.medium.history)) d.identity = some r ∧
      r.phase = .authorized ∧ d.Of r := by
  obtain ⟨q, hq, hp, rfl⟩ := pendingDirectives_mem hd
  have hopen := Engine.ok_open_of_attempt (Reachable.ok ⟨actions, hrun⟩) hq
  obtain ⟨j, ht⟩ := @System.run_settled False actions False.elim e hrun hopen
  obtain ⟨r, hr, hu⟩ := ht.stateOk.known q hq
  refine ⟨r, hr, (phase_of_unstamped hu).trans hp, ?_⟩
  have hid := identity_of_unstamped hu
  exact ⟨congrArg Prod.fst hid.symm, congrArg (fun i : Identity => i.2.1) hid.symm,
    (congrArg AttemptRecord.replacement hu).symm,
    (congrArg AttemptRecord.replacementGeneration hu).symm,
    congrArg (fun i : Identity => i.2.2) hid.symm, (congrArg AttemptRecord.attemptId hu).symm,
    (authority_of_unstamped hu).symm⟩

/-- A directive is handed out behind the grant of its attempt. -/
theorem pending_granted (hrun : System.run actions = .up e) (hd : d ∈ e.pendingDirectives n) :
    GrantsDirective (lineage e.store.medium.history) d := by
  obtain ⟨r, hr, hp, hof⟩ := pending_last hrun hd
  obtain ⟨seq, w, hm⟩ := lastWrite_mem hr
  exact ⟨seq, w, r, (lineage_begins (finished_begins _)).subset hm, hp, hof⟩

/-- No directive is handed out of an attempt that counts as applied. -/
theorem pending_unapplied (hrun : System.run actions = .up e)
    (hl : ∀ x ∈ e.store.medium.history, x.lost = false) (hd : d ∈ e.pendingDirectives n) :
    ¬ CountsApplied (lineage e.store.medium.history) d.identity := by
  rintro ⟨r, hr, hp⟩
  obtain ⟨r', hr', hp', -⟩ := pending_last hrun hd
  rw [lineage_finished hl, hr] at hr'
  cases hr'
  rw [hp'] at hp
  cases hp

/-- The directives of a claim are about different attempts, and the table tells them apart. -/
theorem pending_keys (h : e.store.Keyed) :
    ((e.pendingDirectives n).map ApplyDirective.key).Nodup := by
  unfold Engine.pendingDirectives
  split
  · exact List.nodup_nil
  rw [List.map_map]
  have hkeys : ((e.state.attempts.filter Engine.isPending).map AttemptRecord.key).Nodup :=
    (List.filter_sublist.map AttemptRecord.key).nodup h
  exact ((List.take_sublist _ _).map _).nodup
    ((BoundedTable.sortBy_perm.map AttemptRecord.key).nodup_iff.mpr hkeys)

theorem pending_nodup (h : e.store.Keyed) :
    ((e.pendingDirectives n).map ApplyDirective.identity).Nodup := by
  refine List.Nodup.of_map (fun i : Identity => (i.1, i.2.2)) ?_
  rw [List.map_map]
  exact pending_keys h

theorem perform_options (h : EngineOk False e) (op : Operation) :
    (e.perform op).1.options = e.options :=
  (perform_process h op).1

/-- A process has the options of one of the boots. -/
theorem System.run_options (hrun : run actions = .up e) :
    ∃ b, Action.start b ∈ actions ∧ e.options = b.options := by
  induction actions using List.reverseRecOn generalizing e with
  | nil => cases hrun
  | append_singleton actions a ih =>
    have hold : ∀ {e'}, run actions = .up e' →
        ∃ b, Action.start b ∈ actions ++ [a] ∧ e'.options = b.options := fun h => by
      obtain ⟨b, hb, ho⟩ := ih h
      exact ⟨b, List.mem_append_left _ hb, ho⟩
    have hok := @run_ok False actions False.elim
    rw [run_append] at hrun
    revert hrun hold hok
    generalize run actions = s
    intro hrun hold hok
    cases s with
    | down m =>
      cases a with
      | start b =>
        rw [step, Boot.open] at hrun
        have hnew := @openEngine_new b.options b.incarnation b.build (b.medium m)
        revert hnew hrun
        generalize Engine.openEngine b.options b.incarnation b.build (b.medium m) = result
        obtain ⟨m', result⟩ := result
        intro hrun hnew
        cases result with
        | error _ => cases hrun
        | ok e' =>
          cases hrun
          obtain ⟨s, -, epoch, -, hfields⟩ := hnew rfl
          exact ⟨b, List.mem_append_right _ List.mem_cons_self, by rw [hfields]⟩
      | perform | kill => cases hrun
    | up e' =>
      cases a with
      | perform op =>
        cases hrun
        rw [perform_options hok]
        exact hold rfl
      | start =>
        cases hrun
        exact hold rfl
      | kill => cases hrun

/-- An attempt that was granted is about a link of the fabric of one of the boots. -/
theorem Granted.fabric {i : Identity} (h : Granted actions i) :
    ∃ b, Action.start b ∈ actions ∧ i.1.fabric = b.options.fabric := by
  obtain ⟨e, op, w, r, seq, ⟨before, after, rfl, hrun⟩, hm, -, rfl, ⟨req, rfl⟩, hp⟩ := h
  obtain ⟨b, hb, ho⟩ := System.run_options hrun
  refine ⟨b, List.mem_append_left _ hb, ?_⟩
  have hok := System.run_engineOk hrun
  dsimp only [Engine.amendments] at hm
  split at hm
  · cases hm
  rename_i hu
  have hf := Engine.not_failed_of_available hok (by simpa using hu)
  have hplan := @Engine.planFailover_ok False e.advance req
    (Engine.ready (hok.leads Engine.advance_leads) hf)
  cases hpf : e.advance.planFailover req with
  | fail | replay | settle =>
    rw [hpf] at hm
    cases hm
  | record d a =>
    rw [hpf] at hm hplan
    obtain ⟨-, rfl⟩ := Prod.mk.inj (List.mem_singleton.mp hm)
    rcases hplan.2.2.1 with hx | hx <;> rw [hx] at hp <;> cases hp
  | grant d a =>
    obtain ⟨link, c, hgates, hgrant⟩ := Engine.planFailover_grant hpf
    rw [hpf] at hm
    have hsubject : r.subject = req.subject := by
      injection hgrant with _ ha
      rcases List.mem_cons.mp hm with hm | hm
      · obtain ⟨-, rfl⟩ := Prod.mk.inj hm
        rw [ha]
        rfl
      · obtain ⟨-, rfl⟩ := Prod.mk.inj (List.mem_singleton.mp hm)
        rw [ha]
        rfl
    rw [← ho]
    change r.subject.fabric = e.options.fabric
    rw [hsubject]
    exact hgates.checked.fabric

/-- A directive is about a link of the fabric that all boots serve. -/
theorem pending_fabric (hrun : System.run actions = .up e) {fabric : FabricName}
    (hboots : ∀ b, Action.start b ∈ actions → b.options.fabric = fabric)
    (hd : d ∈ e.pendingDirectives n) : d.subject.fabric = fabric := by
  obtain ⟨seq, w, r, hm, hp, hof⟩ := pending_granted hrun hd
  have hl : (seq, Payload.attempt w r) ∈ lineage (System.run actions).history := by
    rw [hrun]
    exact hm
  obtain ⟨b, hb, hfabric⟩ := ((System.run_earned hl).granted (.inl hp)).fabric
  rw [hof.subject]
  exact hfabric.trans (hboots b hb)

end Directives

end LinkFailover
