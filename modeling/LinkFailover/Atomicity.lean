import LinkFailover.Lifecycles
import LinkFailover.GrantSoundness
import LinkFailover.FailStop

/-!
# All or nothing

A grant is four appends: the attempt, its authorization, the decision and the idempotency entry.
When the first or the second fails the caller gets an error and nobody holds authority. When the
third fails the caller gets a decision that claims no authority, but the attempt has it.

* `LineageStore.acceptsAt`: whether an append that is still ahead will be accepted.
* `grant_atomic_iff`: which requests are all or nothing.
-/

namespace LinkFailover

open Codec

/-! ## Appends ahead -/

namespace LineageStore

/-- The position of an append, after `n` others. -/
def position (s : LineageStore) : Nat → Option LineageSeq
  | 0 => s.state.lastSeq.next
  | n + 1 => (s.position n).bind StrongUint.next

/-- Whether the append of a payload will be accepted after `n` others that are. -/
def acceptsAt (s : LineageStore) (n : Nat) (p : Payload) : Bool :=
  !s.failed && s.medium.appendFaults[n]?.join.isNone &&
    match s.position n with
    | none => false
    | some seq => decide (p.record seq).Fits

theorem acceptsAt_zero (s : LineageStore) (p : Payload) : s.acceptsAt 0 p = s.accepts p := by
  rw [acceptsAt, accepts, Medium.nextFault, List.head?_eq_getElem?]
  rfl

end LineageStore

section Ahead

variable {s : LineageStore} {p q : Payload} {apply : LineageSeq → DurableState → DurableState}

theorem commit_faults (h : (s.commit p apply).2.isOk = true) :
    (s.commit p apply).1.medium.appendFaults = s.medium.appendFaults.tail := by
  revert h
  unfold LineageStore.commit
  split
  · exact fun h => by cases h
  cases s.state.lastSeq.next with
  | none => exact fun h => by cases h
  | some next =>
    dsimp only
    generalize s.writer.append (s.medium.directory.journal.getD []) s.medium.nextFault
      (p.record next) = result
    obtain ⟨w, file, st⟩ := result
    dsimp only
    split <;> exact fun _ => rfl

theorem commit_position (h : (s.commit p apply).2.isOk = true) (n : Nat) :
    (s.commit p apply).1.position n = s.position (n + 1) := by
  obtain ⟨-, -, seq, hnext, -, hstate, -⟩ := commit_ok h
  induction n with
  | zero =>
    rw [LineageStore.position, hstate, LineageStore.position, LineageStore.position, hnext]
    rfl
  | succ n ih =>
    rw [LineageStore.position, ih]
    rfl

/-- An append that was accepted brings those ahead one nearer. -/
theorem commit_acceptsAt (h : (s.commit p apply).2.isOk = true) (n : Nat) :
    (s.commit p apply).1.acceptsAt n q = s.acceptsAt (n + 1) q := by
  obtain ⟨hf, hf', -⟩ := commit_ok h
  rw [LineageStore.acceptsAt, LineageStore.acceptsAt, commit_position h, commit_faults h, hf, hf',
    List.getElem?_tail]

end Ahead

/-! ## What a request leaves -/

namespace Engine

/-- A request leaves an attempt of its own that is authorized, and hands it to the applier. -/
def Authorizes (e : Engine) (req : FailoverRequest) : Prop :=
  ∃ r, (AttemptWrite.create, r) ∈ e.amended (.requestFailover req) ∧
    ∃ x ∈ (e.requestFailover req).1.state.attempts, x.identity = r.identity ∧
      x.phase = .authorized ∧ ((e.requestFailover req).1.takeDirective x.subject
        x.subjectGeneration x.attemptSeq).isSome = true

/-- A request is answered by a grant of its own, marked durable and with its decision id. -/
def AnswersGrant (e : Engine) (req : FailoverRequest) : Prop :=
  ∃ d, (e.requestFailover req).2 = .ok d ∧ d.kind = .grant ∧ d.idempotentReplay = false ∧
    d.durable = true ∧ d.decisionId.isZero = false

/-- The decision that is recorded after two other appends can be, and gets an id. -/
def DecisionStands (e : Engine) (d : FailoverDecision) : Prop :=
  e.store.acceptsAt 2 (.decision d) = true ∧ ∃ seq, e.store.position 2 = some seq ∧
    ({ d with lineageSeq := seq, durable := true } : FailoverDecision).computeId.isZero = false

variable {e : Engine} {req : FailoverRequest} {d : FailoverDecision} {a : AttemptRecord}

/-! ## The flag that closes -/

theorem commitIdempotency_closed {key : Digest} :
    (e.commitIdempotency d key).closed = e.closed := by
  unfold commitIdempotency
  split
  · rfl
  dsimp only
  split <;> rfl

theorem maybeCheckpoint_closed : e.maybeCheckpoint.closed = e.closed := by
  unfold maybeCheckpoint
  split
  · rfl
  split
  · rfl
  split
  · rfl
  split <;> rfl

theorem settleDurable_closed {key : Digest} : (e.settleDurable d key).1.closed = e.closed := by
  change ((e.commitDecision d).1.commitIdempotency _ key).maybeCheckpoint.closed = _
  rw [maybeCheckpoint_closed, commitIdempotency_closed, commitDecision_store]
  rfl

theorem closed_of_available (h : e.unavailable = none) : e.closed = false := by
  unfold unavailable at h
  split at h
  · cases h
  · rename_i hc
    simpa using hc

/-! ## The three ways a grant ends -/

theorem findAttempt_of_mem {d : DurableState} {q : AttemptRecord}
    (hn : (d.attempts.map AttemptRecord.key).Nodup) (hq : q ∈ d.attempts) :
    d.findAttempt q.subject q.attemptSeq = some q := by
  cases h : d.findAttempt q.subject q.attemptSeq with
  | none =>
    have := List.find?_eq_none.mp h q hq
    simp at this
  | some x =>
    obtain ⟨hx, hs, ha⟩ := DurableState.findAttempt_some h
    refine congrArg some (BoundedTable.eq_of_key_eq hn hx hq ?_)
    rw [AttemptRecord.key, AttemptRecord.key, hs, ha]

/-- A record that was authorized and has a replacement is handed to the applier. -/
theorem takeDirective_authorized {q : AttemptRecord} (hc : e.closed = false) (hk : e.store.Keyed)
    (hq : q ∈ e.state.attempts) (hp : q.phase = .authorized) (hr : q.replacement.empty = false) :
    (e.takeDirective q.subject q.subjectGeneration q.attemptSeq).isSome = true := by
  have hfound : e.state.findAttempt q.subject q.attemptSeq = some q := findAttempt_of_mem hk hq
  unfold takeDirective
  rw [if_neg (by simp [hc]), hfound]
  dsimp only
  rw [if_neg]
  · rfl
  · rintro (h | h)
    · exact h rfl
    · rw [isPending, hp, hr] at h
      cases h

theorem afterWrite_true {written : LineageStore × Status} {detail : String}
    {k : Engine → Engine × Result FailoverDecision} (h : written.2.isOk = true) :
    e.afterWrite written detail k = k (e.withWrite written) := by
  rw [afterWrite, h]
  rfl

theorem afterWrite_false {written : LineageStore × Status} {detail : String}
    {k : Engine → Engine × Result FailoverDecision} (h : written.2.isOk = false) :
    e.afterWrite written detail k =
      (e.withWrite written, fail written.2.outcome .internalError detail) := by
  rw [afterWrite, h]
  rfl

/-- The write of one attempt that worked, and the table behind it. -/
theorem writeAttempt_noted {w : AttemptWrite} {r : AttemptRecord}
    {stamp : AttemptRecord → LineageSeq → AttemptRecord}
    (hs : ∀ seq, (stamp r seq).unstamped = r.unstamped)
    (h : (e.writeAttempt w r stamp).2.isOk = true) :
    ∃ r', r'.unstamped = r.unstamped ∧ (e.writeAttempt w r stamp).1.options = e.store.options ∧
      (e.writeAttempt w r stamp).1.state.attempts =
        noted e.store.options e.state.attempts r' := by
  obtain ⟨-, -, seq, -, -, hstate, hopt, -⟩ := commit_ok h
  refine ⟨stamp r seq, hs seq, hopt, ?_⟩
  have := congrArg DurableState.attempts hstate
  exact this

theorem createAttempt_accepted (h : e.store.StoreOk) :
    (e.createAttempt a).2.isOk = true ↔ e.store.acceptsAt 0 (.attempt .create a) = true := by
  rw [LineageStore.acceptsAt_zero]
  exact commit_isOk_iff h

/-- The second append of a grant, behind the first. -/
theorem authorizeAttempt_accepted (h : e.store.StoreOk) {r : AttemptRecord}
    (hok : (e.createAttempt a).2.isOk = true) :
    ((e.withWrite (e.createAttempt a)).updateAttempt .update r).2.isOk = true ↔
      e.store.acceptsAt 1 (.attempt .update r) = true := by
  have hs : (e.createAttempt a).1.StoreOk := h.commit _ _
  rw [← commit_acceptsAt hok, LineageStore.acceptsAt_zero]
  exact commit_isOk_iff hs

/-- A record of the table under the identity of a new one that was written is the new one. -/
theorem phase_of_noted {o : StoreOptions} {table : List AttemptRecord} {r x : AttemptRecord}
    (hn : (table.map AttemptRecord.key).Nodup) (hx : x ∈ noted o table r)
    (hid : x.identity = r.identity) : x.phase = r.phase := by
  rcases (BoundedTable.mem_upsert_iff hn).mp (BoundedTable.mem_of_mem_evict hx) with rfl | ⟨-, hne⟩
  · rfl
  · exact absurd (key_of_identity hid) hne

/-- Without its first two records a grant is an error, and nobody is authorized. -/
theorem execute_grant_refused {wire : Prop} (h : EngineOk wire e) (hf : e.store.failed = false)
    (hc : Creates e.state a) (hp : a.phase = .evaluated)
    (hn : ¬ (e.store.acceptsAt 0 (.attempt .create a) = true ∧
      e.store.acceptsAt 1 (.attempt .update { a with phase := .authorized }) = true)) :
    (∃ st, (e.execute req (.grant d a)).2 = .error st) ∧
      ∀ x ∈ (e.execute req (.grant d a)).1.state.attempts, x.identity = a.identity →
        x.phase ≠ .authorized := by
  rw [execute]
  cases hok : (e.createAttempt a).2.isOk with
  | false =>
    rw [afterWrite_false hok]
    refine ⟨⟨_, rfl⟩, fun x hx hid hx' => ?_⟩
    have hstate : (e.createAttempt a).1.state = e.state := (commit_not_ok hok).2.1
    have hx : x ∈ (e.createAttempt a).1.state.attempts := hx
    rw [hstate] at hx
    have ht := creates_terminal h hf hc hx hid
    rw [AttemptRecord.isTerminal, hx'] at ht
    cases ht
  | true =>
    rw [afterWrite_true hok]
    have hok2 : ((e.withWrite (e.createAttempt a)).updateAttempt .update
        { a with phase := .authorized }).2.isOk = false := by
      rw [← Bool.not_eq_true, authorizeAttempt_accepted h.store hok]
      exact fun h2 => hn ⟨(createAttempt_accepted h.store).mp hok, h2⟩
    rw [afterWrite_false hok2]
    refine ⟨⟨_, rfl⟩, fun x hx hid hx' => ?_⟩
    have hx : x ∈ ((e.withWrite (e.createAttempt a)).updateAttempt .update
        { a with phase := .authorized }).1.state.attempts := hx
    have hstate : ((e.withWrite (e.createAttempt a)).updateAttempt .update
        { a with phase := .authorized }).1.state = (e.createAttempt a).1.state :=
      (commit_not_ok hok2).2.1
    obtain ⟨r, hr, -, htable⟩ := @writeAttempt_noted e .create a createdAt (fun _ => rfl) hok
    rw [hstate] at hx
    change x ∈ (e.createAttempt a).1.state.attempts at hx
    rw [createAttempt, htable] at hx
    have := phase_of_noted h.keyed hx (hid.trans (identity_of_unstamped hr).symm)
    rw [hx', phase_of_unstamped hr, hp] at this
    cases this

/-- A decision is durable and has its id exactly if it was recorded under one. -/
theorem settleDurable_answer (h : e.store.StoreOk) (d : FailoverDecision) (key : Digest) :
    ∃ d', (e.settleDurable d key).2 = .ok d' ∧ Recorded d d' ∧
      (d'.durable = true ∧ d'.decisionId.isZero = false ↔
        e.store.acceptsAt 0 (.decision d) = true ∧ ∃ seq, e.store.position 0 = some seq ∧
          ({ d with lineageSeq := seq, durable := true } : FailoverDecision).computeId.isZero =
            false) := by
  refine ⟨_, rfl, commitDecision_recorded d, ?_⟩
  rw [LineageStore.acceptsAt_zero, ← @commit_isOk_iff _ h _ fun _ s => s, commitDecision]
  cases hok : (e.store.commit (.decision d) fun _ s => s).2.isOk with
  | false => exact iff_of_false (fun hd => by cases hd.1) fun hd => by cases hd.1
  | true =>
    obtain ⟨-, -, seq, hnext, -, hstate, -⟩ := commit_ok hok
    have hlast : (e.store.commit (.decision d) fun _ s => s).1.state.lastSeq = seq := by
      rw [hstate]
      rfl
    dsimp only
    rw [if_neg (by simp), hlast]
    constructor
    · exact fun hd => ⟨rfl, seq, hnext, hd.2⟩
    · rintro ⟨-, seq', hseq, hd⟩
      obtain rfl : seq = seq' := by
        change e.store.state.lastSeq.next = some seq' at hseq
        rw [hnext] at hseq
        exact Option.some.inj hseq
      exact ⟨rfl, hd⟩

theorem settleDurable_attempts {key : Digest} :
    (e.settleDurable d key).1.state.attempts = e.state.attempts := by
  obtain ⟨stamped, hs, ht⟩ := (@settleDurable_amends e d key).table
  obtain rfl : stamped = [] := by simpa using hs
  exact ht

/-- With them its attempt is authorized, and the decision is durable if it was recorded. -/
theorem execute_grant_written (h : e.store.StoreOk)
    (h0 : e.store.acceptsAt 0 (.attempt .create a) = true)
    (h1 : e.store.acceptsAt 1 (.attempt .update { a with phase := .authorized }) = true) :
    (∃ x ∈ (e.execute req (.grant d a)).1.state.attempts, x.identity = a.identity ∧
        x.phase = .authorized ∧ x.replacement = a.replacement) ∧
      (e.execute req (.grant d a)).1.closed = e.closed ∧
      ∃ d', (e.execute req (.grant d a)).2 = .ok d' ∧ Recorded d d' ∧
        (d'.durable = true ∧ d'.decisionId.isZero = false ↔ e.DecisionStands d) := by
  have hok := (createAttempt_accepted h).mpr h0
  have hok1 := (authorizeAttempt_accepted h hok).mpr h1
  rw [execute, afterWrite_true hok, afterWrite_true hok1]
  have hs1 : (e.createAttempt a).1.StoreOk := h.commit _ _
  obtain ⟨r, hr, -, htable⟩ := @writeAttempt_noted (e.withWrite (e.createAttempt a)) .update
    { a with phase := .authorized } updatedAt (fun _ => rfl) hok1
  obtain ⟨d', hd, hrec, hiff⟩ := @settleDurable_answer
    ((e.withWrite (e.createAttempt a)).withWrite
      ((e.withWrite (e.createAttempt a)).updateAttempt .update { a with phase := .authorized }))
    (hs1.commit _ _) d req.idempotencyKey
  refine ⟨⟨r, ?_, (identity_of_unstamped hr).trans rfl, phase_of_unstamped hr, ?_⟩, settleDurable_closed, d',
    hd, hrec, hiff.trans ?_⟩
  · rw [settleDurable_attempts]
    change r ∈ ((e.withWrite (e.createAttempt a)).updateAttempt .update
      { a with phase := .authorized }).1.state.attempts
    rw [updateAttempt, htable]
    refine mem_noted_self ?_
    rw [AttemptRecord.isTerminal, phase_of_unstamped hr]
    rfl
  · exact show r.unstamped.replacement = _ by rw [hr]; rfl
  · have hat : ((e.withWrite (e.createAttempt a)).updateAttempt .update
        { a with phase := .authorized }).1.acceptsAt 0 (.decision d) =
          e.store.acceptsAt 2 (.decision d) :=
      (commit_acceptsAt hok1 0).trans (commit_acceptsAt hok 1)
    have hposition : ((e.withWrite (e.createAttempt a)).updateAttempt .update
        { a with phase := .authorized }).1.position 0 = e.store.position 2 :=
      (commit_position hok1 0).trans (commit_position hok 1)
    rw [DecisionStands, ← hat, ← hposition]
    rfl

end Engine

/-! ## All or nothing -/

namespace Engine

variable {wire : Prop} {e : Engine} {req : FailoverRequest}

theorem requestFailover_available (h : e.unavailable = none) :
    e.requestFailover req = e.advance.execute req (e.advance.planFailover req) ∧
      e.amendments (.requestFailover req) = (e.advance.planFailover req).amendments := by
  rw [requestFailover, amendments, h]
  exact ⟨rfl, rfl⟩

theorem not_failed_of_available (h : EngineOk wire e) (hu : e.unavailable = none) :
    e.store.failed = false := by
  by_contra hf
  obtain ⟨s, hs⟩ := unavailable_of_failed h.stops (by simpa using hf)
  rw [hu] at hs
  cases hs

/-- A record that ends where it begins is not authorized. -/
theorem not_authorizes_of_record (h : EngineOk wire e) (hu : e.unavailable = none)
    (hg : ∀ d a, e.advance.planFailover req ≠ .grant d a) : ¬ e.Authorizes req := by
  rintro ⟨r, hm, x, hx, hid, hp, -⟩
  obtain ⟨hbegins, stamped, hs, htable⟩ := @amended_begins e (.requestFailover req) (by simp)
  have hok : EngineOk wire e.advance := h.leads advance_leads
  have hf := not_failed_of_available h hu
  have hplan := @planFailover_ok wire e.advance req (ready hok hf)
  rw [(requestFailover_available hu).2] at hbegins
  revert hg hbegins hplan
  cases e.advance.planFailover req with
  | grant d a => exact fun hg _ _ => absurd rfl (hg d a)
  | record d r' =>
    intro _ hbegins hplan
    obtain ⟨-, -, hphase, -⟩ := hplan
    obtain rfl : r = r' := by
      cases List.mem_singleton.mp (hbegins.subset hm)
      rfl
    have hone : e.amended (.requestFailover req) = [(.create, r)] :=
      hbegins.eq_of_length (Nat.le_antisymm hbegins.length_le (List.length_pos_of_mem hm))
    rw [hone] at hs
    obtain ⟨r', rfl, hr'⟩ := List.map_eq_singleton_iff.mp hs
    have hx : x ∈ (e.perform (.requestFailover req)).1.state.attempts := hx
    rw [htable] at hx
    have := phase_of_noted h.keyed hx (hid.trans (identity_of_unstamped hr').symm)
    rw [hp, phase_of_unstamped hr'] at this
    rcases hphase with hphase | hphase <;> rw [hphase] at this <;> cases this
  | fail | replay | settle =>
    intro _ hbegins _
    have hnil := List.prefix_nil.mp hbegins
    rw [hnil] at hm
    cases hm

/-- A grant whose attempt can be authorized is all or nothing exactly if its decision can be
recorded. -/
theorem grant_atomic_of_plan (h : EngineOk wire e) (hu : e.unavailable = none)
    (hk : (e.requestFailover req).1.store.Keyed) {d : FailoverDecision} {a : AttemptRecord}
    (hg : e.advance.planFailover req = .grant d a)
    (h0 : e.store.acceptsAt 0 (.attempt .create a) = true)
    (h1 : e.store.acceptsAt 1 (.attempt .update { a with phase := .authorized }) = true) :
    e.Authorizes req ∧ (e.AnswersGrant req ↔ e.DecisionStands d) := by
  have hok : EngineOk wire e.advance := h.leads advance_leads
  have hf := not_failed_of_available h hu
  have hplan := @planFailover_ok wire e.advance req (ready hok hf)
  obtain ⟨hr, ha⟩ := @requestFailover_available e req hu
  obtain ⟨⟨x, hx, hid, hp, hrep⟩, hclosed, d', hd, hrec, hiff⟩ :=
    @execute_grant_written e.advance req d a hok.store h0 h1
  rw [hg] at hr ha hplan
  rw [← hr] at hx hclosed hd
  obtain ⟨link, c, -, hgrant⟩ := planFailover_grant hg
  have hkind : d.kind = .grant ∧ d.idempotentReplay = false ∧ d.hasReplacement = true ∧
      a.replacement = d.replacement := by
    cases hgrant
    exact ⟨rfl, rfl, rfl, rfl⟩
  obtain ⟨hkind, hreplay, hhas, hareplacement⟩ := hkind
  have hempty : x.replacement.empty = false := by
    rw [hrep, hareplacement]
    exact hplan.1.replacement hhas
  have hwrites : e.writes (.requestFailover req) = true := by
    rw [writes, ha]
    change e.store.accepts (.attempt .create a) = true
    rwa [← LineageStore.acceptsAt_zero]
  have hcreate : (AttemptWrite.create, a) ∈ e.amended (.requestFailover req) := by
    have hne := (amended_ne_nil h.store (requestFailover_amends (e := e) req)).mpr hwrites
    have hbegins := (@amended_begins e (.requestFailover req) (by simp)).1
    obtain ⟨y, done, hy⟩ := List.exists_cons_of_ne_nil hne
    rw [ha, hy] at hbegins
    obtain ⟨rfl, -⟩ := List.cons_prefix_cons.mp hbegins
    rw [hy]
    exact List.mem_cons_self
  refine ⟨⟨a, hcreate, x, hx, hid, hp, takeDirective_authorized ?_ hk hx hp hempty⟩, ?_⟩
  · rw [hclosed]
    exact closed_of_available hu
  · rw [AnswersGrant, hd]
    constructor
    · rintro ⟨d₁, hd₁, -, -, hdur, hne⟩
      cases hd₁
      exact hiff.mp ⟨hdur, hne⟩
    · intro hs
      obtain ⟨hdur, hne⟩ := hiff.mpr hs
      obtain ⟨_, _, _, _, rfl⟩ := hrec
      exact ⟨_, rfl, hkind, hreplay, hdur, hne⟩

/-- A grant whose attempt cannot be authorized is nothing. -/
theorem grant_nothing (h : EngineOk wire e) (hu : e.unavailable = none) {d : FailoverDecision}
    {a : AttemptRecord} (hg : e.advance.planFailover req = .grant d a)
    (hn : ¬ (e.store.acceptsAt 0 (.attempt .create a) = true ∧
      e.store.acceptsAt 1 (.attempt .update { a with phase := .authorized }) = true)) :
    ¬ e.Authorizes req ∧ ¬ e.AnswersGrant req := by
  have hok : EngineOk wire e.advance := h.leads advance_leads
  have hf := not_failed_of_available h hu
  have hplan := @planFailover_ok wire e.advance req (ready hok hf)
  obtain ⟨hr, ha⟩ := @requestFailover_available e req hu
  rw [hg] at hr ha hplan
  obtain ⟨⟨st, hst⟩, hnone⟩ :=
    @execute_grant_refused e.advance req d a wire hok hf hplan.2.1 hplan.2.2.1 hn
  rw [← hr] at hst hnone
  constructor
  · rintro ⟨r, hm, x, hx, hid, hp, -⟩
    have hm := (@amended_begins e (.requestFailover req) (by simp)).1.subset hm
    rw [ha] at hm
    obtain rfl : r = a := by
      rcases List.mem_cons.mp hm with h | h
      · cases h
        rfl
      · cases List.mem_singleton.mp h
    exact hnone x hx hid hp
  · rintro ⟨d', hd, -⟩
    rw [hst] at hd
    cases hd

end Engine

/-- A request is all or nothing exactly if the decision of its grant can be recorded, under an
id, whenever its attempt can be authorized. -/
theorem grant_atomic_iff {e : Engine} (h : Reachable e) (req : FailoverRequest) :
    (e.Authorizes req ↔ e.AnswersGrant req) ↔
      ∀ d a, e.unavailable = none → e.advance.planFailover req = .grant d a →
        e.store.acceptsAt 0 (.attempt .create a) = true →
        e.store.acceptsAt 1 (.attempt .update { a with phase := .authorized }) = true →
        e.DecisionStands d := by
  have hok := h.ok
  have hk : (e.requestFailover req).1.store.Keyed := (h.perform (.requestFailover req)).ok.keyed
  cases hu : e.unavailable with
  | some s =>
    have hr : e.requestFailover req = (e, .error s) := by
      rw [Engine.requestFailover, hu]
    have ha : e.amended (.requestFailover req) = [] := by
      refine List.prefix_nil.mp ?_
      have := (@Engine.amended_begins e (.requestFailover req) (by simp)).1
      rwa [Engine.amendments, hu, Option.isSome_some, if_pos rfl] at this
    refine iff_of_true (iff_of_false ?_ ?_) fun _ _ hc => by cases hc
    · rintro ⟨r, hm, -⟩
      rw [ha] at hm
      cases hm
    · rintro ⟨d, hd, -⟩
      rw [hr] at hd
      cases hd
  | none =>
    by_cases hg : ∃ d a, e.advance.planFailover req = .grant d a
    · obtain ⟨d, a, hg⟩ := hg
      by_cases hacc : e.store.acceptsAt 0 (.attempt .create a) = true ∧
          e.store.acceptsAt 1 (.attempt .update { a with phase := .authorized }) = true
      · obtain ⟨hauth, hiff⟩ := Engine.grant_atomic_of_plan hok hu hk hg hacc.1 hacc.2
        rw [iff_true_left hauth, hiff]
        constructor
        · rintro hs d' a' - hg' - -
          rw [hg] at hg'
          cases hg'
          exact hs
        · exact fun hs => hs d a rfl hg hacc.1 hacc.2
      · obtain ⟨h1, h2⟩ := Engine.grant_nothing hok hu hg hacc
        refine iff_of_true (iff_of_false h1 h2) fun d' a' _ hg' h0' h1' => ?_
        rw [hg] at hg'
        cases hg'
        exact absurd ⟨h0', h1'⟩ hacc
    · have hne : ∀ d a, e.advance.planFailover req ≠ .grant d a := fun d a hd => hg ⟨d, a, hd⟩
      refine iff_of_true (iff_of_false (Engine.not_authorizes_of_record hok hu hne) ?_)
        fun d a _ hd => absurd hd (hne d a)
      rintro ⟨d, hd, hk, hi, -⟩
      rw [(Engine.requestFailover_available hu).1] at hd
      obtain ⟨d', a, hd', -⟩ := Engine.execute_granted Engine.planFailover_ungranted hd hk hi
      exact hne d' a hd'

/-- The decision of a grant cannot be written: the caller is told that it is not durable, and the
attempt is handed to the applier all the same. -/
theorem grant_not_atomic : ∃ e, Reachable e ∧
    ¬ (e.Authorizes (Sample.request ⟨1⟩) ↔ e.AnswersGrant (Sample.request ⟨1⟩)) := by
  obtain ⟨e, he, hp⟩ := @System.of_serves
    (System.run
      [.start { options := Sample.options {} {}, incarnation := Sample.incarnation 1,
                appendFaults := [none, none, none, none, some 0] },
        .perform (Sample.down ⟨1⟩ ⟨1⟩ 1), .perform (Sample.usable ⟨1⟩ 1)])
    (fun e : Engine =>
      (e.amended (.requestFailover (Sample.request ⟨1⟩))).any (fun y =>
        decide (y.1 = .create) && (e.requestFailover (Sample.request ⟨1⟩)).1.state.attempts.any
          fun x => decide (x.identity = y.2.identity) && (decide (x.phase = .authorized) &&
            ((e.requestFailover (Sample.request ⟨1⟩)).1.takeDirective x.subject
              x.subjectGeneration x.attemptSeq).isSome)) &&
        ((e.requestFailover (Sample.request ⟨1⟩)).2.toOption.any
          fun d : FailoverDecision => !d.durable))
    (by decide +kernel)
  simp only [Bool.and_eq_true] at hp
  obtain ⟨hleft, hright⟩ := hp
  obtain ⟨⟨w, r⟩, hy, hx⟩ := List.any_eq_true.mp hleft
  simp only [Bool.and_eq_true, decide_eq_true_eq, List.any_eq_true] at hx
  obtain ⟨rfl, x, hx, hid, hphase, htake⟩ := hx
  refine ⟨e, ⟨_, he⟩, fun hiff => ?_⟩
  obtain ⟨d, hd, -, -, hdurable, -⟩ := hiff.mp ⟨r, hy, x, hx, hid, hphase, htake⟩
  rw [hd] at hright
  change (!d.durable) = true at hright
  rw [hdurable] at hright
  cases hright

/-- Whether the four appends of a grant are accepted, and its decision gets an id. -/
def Sample.goesThrough (e : Engine) (d : FailoverDecision) (a : AttemptRecord) : Bool :=
  e.store.acceptsAt 0 (.attempt .create a) &&
    e.store.acceptsAt 1 (.attempt .update { a with phase := .authorized }) &&
    e.store.acceptsAt 2 (.decision d) &&
    (e.store.position 2).any (fun seq =>
      !({ d with lineageSeq := seq, durable := true } : FailoverDecision).computeId.isZero) &&
    (e.requestFailover (Sample.keyed ⟨1⟩)).1.state.idempotency.any fun x => decide (x.key = key)

/-- Whether a request is granted so, and the applier has the directive of the attempt. -/
def Sample.directs (e : Engine) : Bool :=
  match e.advance.planFailover (keyed ⟨1⟩) with
  | .grant d a =>
    goesThrough e d a && (e.amended (.requestFailover (keyed ⟨1⟩))).any (fun y =>
      decide (y.1 = .create) && (e.requestFailover (keyed ⟨1⟩)).1.state.attempts.any
        fun x => decide (x.identity = y.2.identity) && (decide (x.phase = .authorized) &&
          ((e.requestFailover (keyed ⟨1⟩)).1.takeDirective x.subject
            x.subjectGeneration x.attemptSeq).isSome))
  | _ => false

/-- A grant goes through to the entry of its key: the applier has its directive and the caller its
decision. -/
theorem grant_atomic_sample : ∃ e, Reachable e ∧ e.Authorizes (Sample.keyed ⟨1⟩) ∧
    e.AnswersGrant (Sample.keyed ⟨1⟩) ∧
    ((e.requestFailover (Sample.keyed ⟨1⟩)).1.state.idempotency.any fun x =>
      decide (x.key = Sample.key)) = true := by
  obtain ⟨e, he, hp⟩ := @System.of_serves (System.run (Sample.booted {} {})) Sample.directs
    (by decide +kernel)
  unfold Sample.directs at hp
  split at hp
  swap
  · cases hp
  rename_i d a hplan
  simp only [Sample.goesThrough, Bool.and_eq_true] at hp
  obtain ⟨⟨⟨⟨⟨h0, h1⟩, h2⟩, hid⟩, hentry⟩, hauthorized⟩ := hp
  obtain ⟨seq, hseq, hid⟩ := (Option.any_eq_true _ _).mp hid
  obtain ⟨⟨w, r⟩, hy, hx⟩ := List.any_eq_true.mp hauthorized
  simp only [Bool.and_eq_true, decide_eq_true_eq, List.any_eq_true] at hx
  obtain ⟨rfl, x, hx, hidentity, hphase, htake⟩ := hx
  have hauthorizes : e.Authorizes (Sample.keyed ⟨1⟩) := ⟨r, hy, x, hx, hidentity, hphase, htake⟩
  have hatomic := (grant_atomic_iff ⟨_, he⟩ (Sample.keyed ⟨1⟩)).mpr fun d' a' _ hg _ _ => by
    rw [hplan] at hg
    cases hg
    exact ⟨h2, seq, hseq, by simpa using hid⟩
  exact ⟨e, ⟨_, he⟩, hauthorizes, hatomic.mp hauthorizes, hentry⟩

end LinkFailover
