import LinkFailover.Acceptance
import LinkFailover.Chronicle
import LinkFailover.Directives
import LinkFailover.Reboots
import LinkFailover.Replays

/-!
# One key, one grant

A request under a key that was granted is answered from the idempotency index. The entry is the
fourth record of a grant, behind the authority itself, and the index drops its oldest entries.
When a failed append or a crash comes between the two, or the entry has been dropped, the same key
is granted again.

* `LineageStore.landsAt`: whether an append that is still ahead will come to the journal.
* `key_granted_once`: in which runs a key is granted at most once.
-/

namespace LinkFailover

open Codec

/-! ## Appends that reach the journal -/

namespace LineageStore

/-- Whether the medium takes an append after `n` others. -/
def takesAt (s : LineageStore) (n : Nat) : Bool :=
  !s.failed && s.medium.appendFaults[n]?.join.isNone && (s.position n).isSome

/-- Whether a fault leaves the whole of a record in the journal. -/
def whole (r : JournalRecord) : Fault → Bool
  | none => true
  | some n => (frame r).length ≤ n

/-- Whether the record of an append comes to the journal after `n` others, also when its commit
is reported as failed. -/
def landsAt (s : LineageStore) (n : Nat) (p : Payload) : Bool :=
  !s.failed &&
    match s.position n with
    | none => false
    | some seq => decide (p.record seq).Fits && whole (p.record seq) s.medium.appendFaults[n]?.join

/-- A record that is small is accepted by a medium that takes it. -/
theorem acceptsAt_of_takes {s : LineageStore} {n : Nat} {p : Payload} (h : s.takesAt n = true)
    (hp : ∀ seq, (p.record seq).Fits) : s.acceptsAt n p = true := by
  unfold takesAt at h
  unfold acceptsAt
  simp only [Bool.and_eq_true] at h
  rw [h.1.1, h.1.2]
  obtain ⟨seq, hseq⟩ := Option.isSome_iff_exists.mp h.2
  rw [hseq]
  simpa using hp seq

end LineageStore

section Appends

variable {s : LineageStore} {p q : Payload} {apply : Applies}

/-- An append that left the whole of a record in the file. -/
theorem append_whole {w : JournalWriter} {file : Bytes} {fault : Fault} {r : JournalRecord}
    (h : (w.append file fault r).2.1.length = (file ++ frame r).length) :
    r.Fits ∧ LineageStore.whole r fault = true := by
  have hpos := frame_pos r
  have hshort : file.length ≠ (file ++ frame r).length := by
    rw [List.length_append]
    omega
  unfold JournalWriter.append at h
  split at h
  · exact absurd h hshort
  split at h
  · exact absurd h hshort
  rename_i hfits
  split at h
  · exact absurd h hshort
  refine ⟨Nat.le_of_not_lt hfits, ?_⟩
  cases fault with
  | none => rfl
  | some n =>
    dsimp only at h
    rw [List.length_append, List.length_append, List.length_take] at h
    rw [LineageStore.whole, decide_eq_true_eq]
    omega

/-- A commit leaves the lineage as it is, or its record lands behind it. -/
theorem commit_lineage :
    lineage (s.commit p apply).1.medium.history = lineage s.medium.history ∨
      s.landsAt 0 p = true ∧ ∃ seq, lineage (s.commit p apply).1.medium.history =
        lineage s.medium.history ++ [(seq, p)] := by
  unfold LineageStore.commit
  by_cases hf : s.failed = true
  · rw [if_pos hf]
    exact .inl rfl
  rw [if_neg hf]
  cases hn : s.state.lastSeq.next with
  | none => exact .inl rfl
  | some next =>
    dsimp only
    have hwhole := @append_whole s.writer (s.medium.directory.journal.getD []) s.medium.nextFault
      (p.record next)
    have hlands : (p.record next).Fits ∧
        LineageStore.whole (p.record next) s.medium.nextFault = true → s.landsAt 0 p = true := by
      rintro ⟨hfits, hw⟩
      rw [Medium.nextFault, List.head?_eq_getElem?] at hw
      rw [LineageStore.landsAt, LineageStore.position, hn]
      dsimp only
      rw [hw]
      simpa using ⟨by simpa using hf, hfits⟩
    revert hwhole
    have hok := append_outcome s.writer (s.medium.directory.journal.getD []) s.medium.nextFault
      (p.record next)
    revert hok
    generalize s.writer.append (s.medium.directory.journal.getD []) s.medium.nextFault
      (p.record next) = result
    obtain ⟨w, file, st⟩ := result
    intro hok hwhole
    dsimp only
    rcases hok with ⟨he, hfits⟩ | ⟨w', n, st', he, hst, -⟩
    · cases he
      refine .inr ⟨hlands (hwhole rfl), next, ?_⟩
      exact lineage_append _ _
    · cases he
      rw [hst, Bool.not_false, if_pos rfl]
      split
      · rename_i hl
        exact .inr ⟨hlands (hwhole hl), next, lineage_append _ _⟩
      · exact .inl (by simp [Medium.log, Medium.popFault])

theorem commit_takesAt (h : (s.commit p apply).2.isOk = true) (n : Nat) :
    (s.commit p apply).1.takesAt n = s.takesAt (n + 1) := by
  obtain ⟨hf, hf', -⟩ := commit_ok h
  rw [LineageStore.takesAt, LineageStore.takesAt, commit_position h, commit_faults h, hf, hf',
    List.getElem?_tail]

theorem commit_landsAt (h : (s.commit p apply).2.isOk = true) (n : Nat) :
    (s.commit p apply).1.landsAt n q = s.landsAt (n + 1) q := by
  obtain ⟨hf, hf', -⟩ := commit_ok h
  rw [LineageStore.landsAt, LineageStore.landsAt, commit_position h, commit_faults h, hf, hf',
    List.getElem?_tail]

end Appends

/-! ## Grants in the lineage -/

/-- Whether a record is the authority of an attempt under a key. -/
def Payload.authorizes (k : Digest) : Payload → Bool
  | .attempt _ r => decide (r.phase = .authorized) && decide (r.idempotencyKey = k)
  | _ => false

/-- The attempt that a record is about. -/
def Payload.identity? : Payload → Option Identity
  | .attempt _ r => some r.identity
  | _ => none

/-- The attempts that were granted authority under a key. -/
def authorizations (entries : List Entry) (k : Digest) : List Entry :=
  entries.filter fun x => x.2.authorizes k

/-- The lineage has the entry of a grant under a key. -/
def KeyStored (entries : List Entry) (k : Digest) : Prop :=
  ∃ seq x, (seq, Payload.idempotency x) ∈ entries ∧ x.kind = .grant ∧ x.key = k

theorem authorizations_append (h g : List Entry) (k : Digest) :
    authorizations (h ++ g) k = authorizations h k ++ authorizations g k :=
  List.filter_append ..

theorem KeyStored.append_left {h : List Entry} {k : Digest} (hs : KeyStored h k)
    (g : List Entry) : KeyStored (h ++ g) k := by
  obtain ⟨seq, x, hx, hk⟩ := hs
  exact ⟨seq, x, List.mem_append_left _ hx, hk⟩

theorem KeyStored.append_right {g : List Entry} {k : Digest} (hs : KeyStored g k)
    (h : List Entry) : KeyStored (h ++ g) k := by
  obtain ⟨seq, x, hx, hk⟩ := hs
  exact ⟨seq, x, List.mem_append_right _ hx, hk⟩

/-! ## Entries that are kept -/

/-- A write of the index drops no entry of a grant. -/
def grantsKept : WriteCondition := fun o p d =>
  match p with
  | .idempotency x =>
    ((d.idempotency ++ [x]).take ((d.idempotency ++ [x]).length - o.maxIdempotency)).all
      fun y => decide (y.kind ≠ .grant)
  | _ => true

/-- The rule that the condition gives. -/
def KeepsGrants : TableRule := fun p d d' =>
  ∀ x, p = .idempotency x → ∀ y ∈ d.idempotency ++ [x], y.kind = .grant → y ∈ d'.idempotency

theorem noteIdempotency_keeps {o : StoreOptions} {d : DurableState} {x : IdempotencyEntry}
    (h : grantsKept o (.idempotency x) d = true) :
    ∀ y ∈ d.idempotency ++ [x], y.kind = .grant → y ∈ (d.noteIdempotency o x).idempotency := by
  intro y hy hk
  change y ∈ evictIdempotency o (d.idempotency ++ [x])
  unfold evictIdempotency
  split
  · exact hy
  · rw [← List.take_append_drop ((d.idempotency ++ [x]).length - o.maxIdempotency)
      (d.idempotency ++ [x]), List.mem_append] at hy
    refine hy.resolve_left fun hy => ?_
    exact of_decide_eq_true (List.all_eq_true.mp h y hy) hk

theorem keepsGrants {wire : Prop} {history : List Event} {phase : Phase}
    (h : Trace wire history phase) (hc : writesMeet grantsKept none history = true) :
    ∀ e ∈ history, e.Obeys KeepsGrants := by
  refine h.obeys (fun _ w hc x hx => ?_) (fun ha hd _ hc x hx => ?_) hc
  · subst hx
    cases w with
    | idempotency => exact noteIdempotency_keeps hc
  · subst hx
    rw [DurableState.applyRecord_idempotency hd] at ha
    cases ha
    exact noteIdempotency_keeps hc

/-- Every entry of a grant that stands in the lineage is in the index. -/
def GrantsIndexed (entries : List Entry) (d : DurableState) : Prop :=
  ∀ seq x, (seq, Payload.idempotency x) ∈ entries → x.kind = .grant → x ∈ d.idempotency

theorem grantsIndexedLaw (wire : Prop) :
    LineageLaw wire KeepsGrants GrantsIndexed (fun _ _ => True) fun _ _ _ _ => True where
  start _ := fun _ _ hx => by cases hx
  positions h _ _ := h
  effect {entries d seq p d'} h _ _ he hr := by
    intro seq' x hx hk
    rcases List.mem_append.mp hx with hm | hm
    · have hold := h seq' x hm hk
      cases he with
      | idempotency o e => exact hr trivial e rfl x (List.mem_append_left _ hold) hk
      | _ => exact hold
    · cases List.mem_singleton.mp hm
      exact hr trivial x rfl x (List.mem_append_right _ (List.mem_singleton_self _)) hk
  opened _ := trivial
  guard _ _ _ _ _ := trivial
  live _ _ _ _ _ _ := trivial
  booted _ _ _ := trivial
  fenced _ _ _ := trivial
  local_rule h := h

theorem Trace.grantsIndexed {wire : Prop} {history : List Event} {o : StoreOptions}
    {d : DurableState} {j : Job} (h : Trace wire history (.live o d j))
    (hc : writesMeet grantsKept none history = true) : GrantsIndexed (lineage history) d :=
  (((grantsIndexedLaw wire).holds h (keepsGrants h hc)).live _ _ _ rfl).1

theorem GrantsIndexed.found {entries : List Entry} {d : DurableState} (h : GrantsIndexed entries d)
    {k : Digest} (hz : k.isZero = false) (hk : KeyStored entries k) :
    d.findIdempotency k ≠ none := by
  obtain ⟨seq, x, hx, hkind, rfl⟩ := hk
  intro hn
  rw [DurableState.findIdempotency, if_neg (by simp [hz]), List.find?_eq_none] at hn
  exact hn x (h seq x hx hkind) (by simp)

/-! ## What an operation grants -/

namespace Engine

/-- A request that is granted under a key goes through: once its authority comes to the journal,
the appends behind it are accepted up to the entry of the index. -/
def RecordsKey (e : Engine) (op : Operation) : Prop :=
  ∀ req d a, op = .requestFailover req → req.idempotencyKey.isZero = false →
    e.unavailable = none → e.advance.planFailover req = .grant d a →
    e.store.acceptsAt 0 (.attempt .create a) = true →
    e.store.landsAt 1 (.attempt .update { a with phase := .authorized }) = true →
    e.store.acceptsAt 1 (.attempt .update { a with phase := .authorized }) = true ∧
      e.store.acceptsAt 2 (.decision d) = true ∧ e.store.takesAt 3 = true

/-- What an operation adds to the grants under a key: nothing, or one grant and its entry. -/
def GrantsOnce (e : Engine) (k : Digest) (e' : Engine) : Prop :=
  ∃ new, lineage e'.store.medium.history = lineage e.store.medium.history ++ new ∧
    (authorizations new k = [] ∨ e.state.findIdempotency k = none ∧
      (authorizations new k).length ≤ 1 ∧ KeyStored new k)

variable {e : Engine} {k : Digest}

/-- An operation that is not going to authorize anything under a key. -/
theorem grantsOnce_quiet {op : Operation}
    (h : ∀ x ∈ e.amendments op, (Payload.attempt x.1 x.2).authorizes k = false) :
    e.GrantsOnce k (e.perform op).1 := by
  obtain ⟨new, hl, hp⟩ := e.perform_lineage op
  refine ⟨new, hl, .inl (List.filter_eq_nil_iff.mpr fun x hx => ?_)⟩
  rw [Bool.not_eq_true]
  obtain ⟨seq, p⟩ := x
  rcases hp _ hx with ⟨c, rfl⟩ | ⟨apply, hm⟩
  · rfl
  · cases hm with
    | attempt hm => exact h _ hm
    | _ => rfl

/-- Whatever is not a request authorizes nothing. -/
theorem amendments_authorizes {op : Operation} (hr : ∀ req, op ≠ .requestFailover req)
    {x : Amendment} (hx : x ∈ e.amendments op) :
    (Payload.attempt x.1 x.2).authorizes k = false := by
  have hne : x.2.phase ≠ .authorized := by
    intro hp
    obtain ⟨found, -, -, ⟨hi, -⟩ | hl⟩ := amendments_phase hr hx
    · rw [hp] at hi
      cases hi
    · rw [lifecycle_created (.inr (.inl hp))] at hl
      cases hl
  simp [Payload.authorizes, hne]

/-- The lineage behind a commit that was accepted. -/
theorem commit_ok_lineage {s : LineageStore} {p : Payload} {apply : Applies}
    (h : (s.commit p apply).2.isOk = true) : ∃ seq,
      lineage (s.commit p apply).1.medium.history = lineage s.medium.history ++ [(seq, p)] := by
  obtain ⟨-, -, seq, -, -, -, -, hh⟩ := commit_ok h
  exact ⟨seq, by rw [hh, lineage_append, lineage_committed]⟩

theorem checkpoints_authorize {new : List Entry}
    (h : ∀ x ∈ new, (∃ c, x.2 = .checkpoint c) ∨ ∃ _ : Applies, False) :
    authorizations new k = [] := by
  refine List.filter_eq_nil_iff.mpr fun x hx => ?_
  rcases h x hx with ⟨c, hc⟩ | ⟨-, hf⟩
  · rw [hc]
    exact Bool.false_ne_true
  · exact hf.elim

/-- The decision of a grant and its entry, when both are accepted. -/
theorem settleDurable_stored {d : FailoverDecision} {key : Digest} (hs : e.store.StoreOk)
    (hz : key.isZero = false) (hd : d.kind = .grant) (hr : d.reasons.length ≤ 2)
    (h0 : e.store.acceptsAt 0 (.decision d) = true) (h1 : e.store.takesAt 1 = true) :
    ∃ new, lineage (e.settleDurable d key).1.store.medium.history =
        lineage e.store.medium.history ++ new ∧
      authorizations new k = [] ∧ KeyStored new key := by
  have hok : (e.store.commit (.decision d) fun _ s => s).2.isOk = true := by
    rw [commit_isOk_iff hs, ← LineageStore.acceptsAt_zero, h0]
  obtain ⟨seq₁, hl₁⟩ := commit_ok_lineage hok
  rw [← commit_takesAt hok] at h1
  -- the decision as it is recorded, and the engine behind it
  obtain ⟨d', hd', hkind, hreasons, hdurable⟩ : ∃ d', (e.commitDecision d).2 = d' ∧
      d'.kind = d.kind ∧ d'.reasons = d.reasons ∧ d'.durable = true := by
    refine ⟨_, rfl, ?_⟩
    rw [commitDecision, if_neg (by simp [hok])]
    exact ⟨rfl, rfl, rfl⟩
  have hsmall := IdempotencyEntry.small (x := idempotencyEntry d' key) (by
    change d'.reasons.length ≤ 2
    rwa [hreasons])
  obtain ⟨e₁, he₁, hstore⟩ : ∃ e₁, (e.commitDecision d).1 = e₁ ∧
      e₁.store = (e.store.commit (.decision d) fun _ s => s).1 :=
    ⟨_, rfl, by rw [commitDecision_store]; rfl⟩
  have hok₂ : (e₁.store.commit (.idempotency (idempotencyEntry d' key)) fun _ s =>
      s.noteIdempotency e₁.store.options (idempotencyEntry d' key)).2.isOk = true := by
    rw [hstore, commit_isOk_iff (hs.commit _ _), ← LineageStore.acceptsAt_zero]
    refine LineageStore.acceptsAt_of_takes h1 fun seq => Nat.le_trans hsmall ?_
    decide
  obtain ⟨seq₂, hl₂⟩ := commit_ok_lineage hok₂
  obtain ⟨new, hl₃, hnew⟩ := (@maybeCheckpoint_commits (fun _ _ => False)
    (e₁.commitIdempotency d' key)).lineage
  have hentry : (e₁.commitIdempotency d' key).store =
      (e₁.store.commit (.idempotency (idempotencyEntry d' key)) fun _ s =>
        s.noteIdempotency e₁.store.options (idempotencyEntry d' key)).1 := by
    unfold commitIdempotency
    rw [if_neg (by simp [hz, hdurable])]
    dsimp only
    rw [if_neg (Nat.not_lt_of_le hsmall)]
    rfl
  refine ⟨(seq₁, .decision d) :: (seq₂, .idempotency (idempotencyEntry d' key)) :: new, ?_, ?_, ?_⟩
  · change lineage (((e.commitDecision d).1.commitIdempotency (e.commitDecision d).2
      key).maybeCheckpoint).store.medium.history = _
    rw [hd', he₁, hl₃, hentry, hl₂, hstore, hl₁]
    simp
  · change authorizations new k = []
    exact checkpoints_authorize hnew
  · exact ⟨seq₂, _, List.mem_cons_of_mem _ List.mem_cons_self, hkind.trans hd, rfl⟩

/-- A grant under a key that goes through adds itself and its entry. -/
theorem execute_grantsOnce {req : FailoverRequest} {d : FailoverDecision} {a : AttemptRecord}
    (hs : e.store.StoreOk) (hn : e.state.findIdempotency req.idempotencyKey = none)
    (hz : req.idempotencyKey.isZero = false) (hd : d.kind = .grant) (hr : d.reasons.length ≤ 2)
    (hp : a.phase = .evaluated)
    (hrec : e.store.acceptsAt 0 (.attempt .create a) = true →
      e.store.landsAt 1 (.attempt .update { a with phase := .authorized }) = true →
      e.store.acceptsAt 1 (.attempt .update { a with phase := .authorized }) = true ∧
        e.store.acceptsAt 2 (.decision d) = true ∧ e.store.takesAt 3 = true) :
    e.GrantsOnce req.idempotencyKey (e.execute req (.grant d a)).1 := by
  have hcreate : (Payload.attempt .create a).authorizes req.idempotencyKey = false := by
    simp [Payload.authorizes, hp]
  rw [execute]
  cases hok : (e.createAttempt a).2.isOk with
  | false =>
    rw [afterWrite_false hok]
    rcases @commit_lineage e.store (.attempt .create a) fun seq d =>
      d.noteAttempt e.store.options (createdAt a seq) with hl | ⟨-, seq, hl⟩
    · exact ⟨[], by rw [List.append_nil]; exact hl, .inl rfl⟩
    · refine ⟨_, hl, .inl ?_⟩
      rw [authorizations, List.filter_cons_of_neg (by simp [hcreate]), List.filter_nil]
  | true =>
    rw [afterWrite_true hok]
    obtain ⟨seq, hl⟩ := commit_ok_lineage hok
    have h0 := (createAttempt_accepted hs).mp hok
    have hs₁ : (e.createAttempt a).1.StoreOk := hs.commit _ _
    rcases @commit_lineage (e.createAttempt a).1 (.attempt .update { a with phase := .authorized })
      fun seq d => d.noteAttempt (e.createAttempt a).1.options
        (updatedAt { a with phase := .authorized } seq) with hl₁ | ⟨hlands, seq₁, hl₁⟩
    · -- nothing of the authority came to the journal
      have hok₁ : ((e.withWrite (e.createAttempt a)).updateAttempt .update
          { a with phase := .authorized }).2.isOk = false := by
        by_contra hok₁
        obtain ⟨seq₁, hl₂⟩ := commit_ok_lineage (Bool.not_eq_false _ ▸ hok₁)
        have hlen := congrArg List.length (hl₂.symm.trans hl₁)
        simp at hlen
      rw [afterWrite_false hok₁]
      refine ⟨[(seq, .attempt .create a)], hl₁.trans hl, .inl ?_⟩
      rw [authorizations, List.filter_cons_of_neg (by simp [hcreate]), List.filter_nil]
    · have hlands' : e.store.landsAt 1 (.attempt .update { a with phase := .authorized }) =
          true := by
        rw [← commit_landsAt hok]
        exact hlands
      obtain ⟨h1, h2, h3⟩ := hrec h0 hlands'
      have hok₁ := (authorizeAttempt_accepted hs hok).mpr h1
      rw [afterWrite_true hok₁]
      have h2' : ((e.withWrite (e.createAttempt a)).updateAttempt .update
          { a with phase := .authorized }).1.acceptsAt 0 (.decision d) = true :=
        ((commit_acceptsAt hok₁ 0).trans (commit_acceptsAt hok 1)).trans h2
      have h3' : ((e.withWrite (e.createAttempt a)).updateAttempt .update
          { a with phase := .authorized }).1.takesAt 1 = true :=
        ((commit_takesAt hok₁ 1).trans (commit_takesAt hok 2)).trans h3
      obtain ⟨new, hl₂, hnone, hstored⟩ := @settleDurable_stored
        ((e.withWrite (e.createAttempt a)).withWrite ((e.withWrite (e.createAttempt a)).updateAttempt
          .update { a with phase := .authorized })) req.idempotencyKey d req.idempotencyKey
          (hs₁.commit _ _) hz hd hr h2' h3'
      refine ⟨(seq, .attempt .create a) :: (seq₁, .attempt .update
        { a with phase := .authorized }) :: new, ?_, .inr ⟨hn, ?_, ?_⟩⟩
      · rw [hl₂]
        change lineage ((e.withWrite (e.createAttempt a)).updateAttempt .update
          { a with phase := .authorized }).1.medium.history ++ new = _
        rw [show lineage ((e.withWrite (e.createAttempt a)).updateAttempt .update
          { a with phase := .authorized }).1.medium.history = _ from hl₁, createAttempt,
          writeAttempt, hl]
        simp
      · rw [authorizations, List.filter_cons_of_neg (by simp [hcreate])]
        change (authorizations ([_] ++ new) req.idempotencyKey).length ≤ 1
        rw [authorizations_append, hnone, List.append_nil]
        exact List.length_filter_le ..
      · exact hstored.append_right [_, _]

/-- What an operation that meets the condition grants under a key. -/
theorem perform_grantsOnce {wire : Prop} (h : EngineOk wire e) {op : Operation}
    (hz : k.isZero = false) (hrec : e.RecordsKey op) : e.GrantsOnce k (e.perform op).1 := by
  by_cases hr : ∃ req, op = .requestFailover req
  swap
  · exact grantsOnce_quiet fun x hx => amendments_authorizes (fun req he => hr ⟨req, he⟩) hx
  obtain ⟨req, rfl⟩ := hr
  cases hu : e.unavailable with
  | some s =>
    refine grantsOnce_quiet fun x hx => ?_
    rw [amendments, hu] at hx
    cases hx
  | none =>
    have hf := not_failed_of_available h hu
    obtain ⟨hreq, ham⟩ := @requestFailover_available e req hu
    have hplan := @planFailover_ok wire e.advance req (ready (h.leads advance_leads) hf)
    cases hp : e.advance.planFailover req with
    | grant d a =>
      obtain ⟨link, c, -, hgrant⟩ := planFailover_grant hp
      obtain ⟨hd, ha⟩ := FailoverPlan.grant.inj hgrant
      have hkey : a.idempotencyKey = req.idempotencyKey := by rw [ha]; rfl
      by_cases hk : req.idempotencyKey = k
      swap
      · refine grantsOnce_quiet fun x hx => ?_
        rw [ham, hp] at hx
        have hx : x.2.idempotencyKey = req.idempotencyKey := by
          rcases List.mem_cons.mp hx with rfl | hx
          · exact hkey
          · rw [List.mem_singleton.mp hx]
            exact hkey
        simp [Payload.authorizes, hx, hk]
      subst hk
      have hperform : (e.perform (.requestFailover req)).1 =
          (e.advance.execute req (.grant d a)).1 := by
        rw [← hp, ← hreq]
        rfl
      rw [hperform]
      refine @execute_grantsOnce e.advance req d a h.store ?_ hz
        (congrArg FailoverDecision.kind hd) (by rw [hd]; exact Nat.le_refl 2) (by rw [ha]; rfl) (hrec req d a rfl hz hu hp)
      exact @planFailover_key e.advance req (by simp [hp]) (by simp [hp])
    | record d r =>
      rw [hp] at ham hplan
      refine grantsOnce_quiet fun x hx => ?_
      rw [ham] at hx
      rw [List.mem_singleton.mp hx]
      obtain ⟨-, -, hphase | hphase, -⟩ := hplan <;> simp [Payload.authorizes, hphase]
    | _ =>
      rw [hp] at ham
      refine grantsOnce_quiet fun x hx => ?_
      rw [ham] at hx
      cases hx

end Engine

/-! ## Runs -/

/-- A boot grants nothing. -/
theorem openEngine_authorizes {wire : Prop} {o : EngineOptions} {incarnation : Incarnation}
    {build : Engine.Build} {m : Medium} (h : MediumOk wire m) (k : Digest) :
    ∃ new, lineage (Engine.openEngine o incarnation build m).1.history =
      lineage m.history ++ new ∧ authorizations new k = [] := by
  obtain ⟨new, rs, hl, -, hp⟩ := @openEngine_commits wire o incarnation build m h
  refine ⟨new, hl, List.filter_eq_nil_iff.mpr fun x hx => ?_⟩
  rw [Bool.not_eq_true]
  obtain ⟨seq, p⟩ := x
  rcases hp _ hx with ⟨c, rfl⟩ | hboot
  · rfl
  · cases p with
    | attempt w r =>
      have hr : r.phase = .interrupted := hboot.ofBoot
      simp [Payload.authorizes, hr]
    | _ => rfl

theorem writesMeet_begins {c : WriteCondition} {h g : List Event} (hp : h <+: g)
    (hc : writesMeet c none g = true) : writesMeet c none h = true := by
  obtain ⟨t, rfl⟩ := hp
  rw [writesMeet_append, Bool.and_eq_true] at hc
  exact hc.1

/-- A key is granted at most once, and its entry stands in the lineage. -/
theorem System.run_grants {actions : List Action}
    (hop : ∀ e op, Performs actions e op → e.RecordsKey op)
    (hkeep : writesMeet grantsKept none (run actions).history = true) {k : Digest}
    (hz : k.isZero = false) :
    (authorizations (lineage (run actions).history) k).length ≤ 1 ∧
      (authorizations (lineage (run actions).history) k = [] ∨
        KeyStored (lineage (run actions).history) k) := by
  induction actions using List.reverseRecOn with
  | nil => exact ⟨Nat.zero_le _, .inl rfl⟩
  | append_singleton actions a ih =>
    have hok := @run_ok False actions False.elim
    have hbegins := step_history hok a
    rw [run_append] at hkeep ⊢
    have hkeep' := writesMeet_begins hbegins hkeep
    have ih := ih (fun e op hp => hop e op (hp.append a)) hkeep'
    -- an action that grants nothing
    have hquiet : ∀ new, lineage ((run actions).step a).history =
        lineage (run actions).history ++ new → authorizations new k = [] →
        (authorizations (lineage ((run actions).step a).history) k).length ≤ 1 ∧
          (authorizations (lineage ((run actions).step a).history) k = [] ∨
            KeyStored (lineage ((run actions).step a).history) k) := by
      intro new hl hnew
      rw [hl, authorizations_append, hnew, List.append_nil]
      exact ⟨ih.1, ih.2.imp id fun h => h.append_left new⟩
    cases hrun : run actions with
    | down m =>
      rw [hrun] at hok hquiet
      cases a with
      | start b =>
        have hm : MediumOk False (b.medium m) := ⟨hok.trace, hok.represents⟩
        obtain ⟨new, hl, hnew⟩ := @openEngine_authorizes False b.options b.incarnation b.build _ hm k
        have ho := (@openEngine_outcome False b.options b.incarnation b.build _ hm).2
        refine hquiet new ?_ hnew
        rw [step, Boot.open]
        revert hl ho
        generalize Engine.openEngine b.options b.incarnation b.build (b.medium m) = result
        obtain ⟨m', r⟩ := result
        intro hl ho
        cases r with
        | error _ => exact hl
        | ok e =>
          have hmedium : e.store.medium = m' := (ho e rfl).2.2
          change lineage e.store.medium.history = _
          rw [hmedium]
          exact hl
      | perform | kill => exact hquiet [] (List.append_nil _).symm rfl
    | up e =>
      rw [hrun] at hok hquiet hkeep' ih
      cases a with
      | start | kill => exact hquiet [] (List.append_nil _).symm rfl
      | perform op =>
        obtain ⟨new, hl, hnew⟩ := @Engine.perform_grantsOnce e k False hok op hz
          (hop e op ⟨actions, [], rfl, hrun⟩)
        rcases hnew with hnew | ⟨hnone, hone, hstored⟩
        · exact hquiet new hl hnew
        change (authorizations (lineage (e.perform op).1.store.medium.history) k).length ≤ 1 ∧
          (_ ∨ KeyStored (lineage (e.perform op).1.store.medium.history) k)
        rw [hl]
        refine ⟨?_, .inr (hstored.append_right _)⟩
        by_cases hf : e.store.failed = true
        · -- nothing is added behind a failure
          have hsame : lineage e.store.medium.history ++ new = lineage e.store.medium.history := by
            rw [← hl, perform_of_failed_medium hok hf op]
          rw [hsame]
          exact ih.1
        have hf : e.store.failed = false := by simpa using hf
        -- the index has no entry of the key, and so the lineage has none
        have hold : authorizations (lineage e.store.medium.history) k = [] := by
          refine ih.2.resolve_right fun hs => ?_
          exact (Trace.grantsIndexed (Engine.ok_trace hok hf) hkeep').found hz hs hnone
        rw [authorizations_append, hold, List.nil_append]
        exact hone

/-- A key that is not zero is granted at most once in every run whose keyed grants go through to
their entry and whose index drops no entry of a grant. -/
theorem key_granted_once {actions : List Action}
    (hop : ∀ e op, Performs actions e op → e.RecordsKey op)
    (hkeep : writesMeet grantsKept none (System.run actions).history = true) {k : Digest}
    (hz : k.isZero = false) :
    (authorizations (lineage (System.run actions).history) k).length ≤ 1 :=
  (System.run_grants hop hkeep hz).1

/-- With an index that keeps nothing the key of a grant is granted again, to another attempt, as
soon as the first one is rolled back. -/
theorem key_granted_twice : ∃ actions, Sample.key.isZero = false ∧
    ¬ ∀ x ∈ authorizations (lineage (System.run actions).history) Sample.key,
      ∀ y ∈ authorizations (lineage (System.run actions).history) Sample.key,
        x.2.identity? = y.2.identity? := by
  let request : Action := .perform (.requestFailover (Sample.keyed ⟨1⟩))
  let rollback : Action := .perform (.requestRollback
    { subject := Sample.primary, subjectGeneration := ⟨1⟩, attemptSeq := ⟨1⟩ })
  let actions := Sample.booted {} { maxIdempotency := 0 } ++ [request, rollback, request]
  have h : (authorizations (lineage (System.run actions).history) Sample.key).map
      (·.2.identity?) = [some (Sample.primary, ⟨1⟩, ⟨1⟩), some (Sample.primary, ⟨1⟩, ⟨2⟩)] := by
    decide +kernel
  refine ⟨actions, by decide, fun hsame => ?_⟩
  obtain ⟨x, hx, hx'⟩ := List.mem_map.mp (h.symm ▸ List.mem_cons_self)
  obtain ⟨y, hy, hy'⟩ := List.mem_map.mp
    (h.symm ▸ List.mem_cons_of_mem _ (List.mem_singleton_self _))
  have := hx'.symm.trans ((hsame x hx y hy).trans hy')
  revert this
  decide

/-- Whether the appends of a grant are accepted up to the entry of the index. -/
def Sample.recordsKey (e : Engine) : Operation → Bool
  | .requestFailover req =>
    match e.advance.planFailover req with
    | .grant d a =>
      e.store.acceptsAt 1 (.attempt .update { a with phase := .authorized }) &&
        (e.store.acceptsAt 2 (.decision d) && e.store.takesAt 3)
    | _ => true
  | _ => true

theorem Sample.records_key {e : Engine} {op : Operation} (h : recordsKey e op = true) :
    e.RecordsKey op := by
  rintro req d a rfl - - hplan - -
  rw [recordsKey, hplan] at h
  simpa using h

/-- The next process learns of the failure again, and is asked again under the same key. -/
def Sample.askedAgain : List Action :=
  [.perform (down ⟨1⟩ ⟨1⟩ 2), .perform (usable ⟨1⟩ 2), .perform (.requestFailover (keyed ⟨1⟩))]

/-- A key is used twice, in front of a restart and behind it. It is granted once, and the second
answer is a decision as well. -/
theorem key_granted_once_sample : ∃ (actions : List Action) (e : Engine), Reachable e ∧
    (e.requestFailover (Sample.keyed ⟨1⟩)).2.toOption.any (fun d => d.idempotentReplay) = true ∧
    actions = Sample.granted ++ .kill :: .start Sample.again :: Sample.askedAgain ∧
    System.run actions = .up e ∧
    (authorizations (lineage e.store.medium.history) Sample.key).length = 1 := by
  have hfirst : System.passes Sample.recordsKey Sample.granted (.down {}) = true := by
    decide +kernel
  obtain ⟨e, he, hp⟩ := @System.of_serves (System.run Sample.granted) (fun e : Engine =>
    (e.reboot Sample.again).any fun next =>
      System.passes Sample.recordsKey Sample.askedAgain (.up next) &&
        (Sample.askedAgain.foldl System.step (.up next)).serves fun e =>
          writesMeet grantsKept none e.store.medium.history &&
          ((authorizations (lineage e.store.medium.history) Sample.key).any (fun _ => true) &&
          (e.requestFailover (Sample.keyed ⟨1⟩)).2.toOption.any fun d => d.idempotentReplay))
    (by decide +kernel)
  obtain ⟨next, hnext, hp⟩ := (Option.any_eq_true _ _).mp hp
  rw [Bool.and_eq_true] at hp
  obtain ⟨hbehind, hp⟩ := hp
  obtain ⟨e', he', hp⟩ := System.of_serves hp
  simp only [Bool.and_eq_true] at hp
  obtain ⟨hkeep, hgranted, hreplay⟩ := hp
  have hpasses := System.passes_reboot he hnext hfirst hbehind
  have hrun := (System.run_behind he hnext).trans he'
  have honce := key_granted_once (k := Sample.key)
    (fun _ _ hperf => Sample.records_key (hperf.passes hpasses)) (by rw [hrun]; exact hkeep)
    (by decide)
  rw [hrun] at honce
  refine ⟨_, e', ⟨_, hrun⟩, hreplay, rfl, hrun, Nat.le_antisymm honce ?_⟩
  obtain ⟨x, hx, -⟩ := List.any_eq_true.mp hgranted
  exact List.length_pos_of_mem hx

end LinkFailover
