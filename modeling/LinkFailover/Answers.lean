import Mathlib.Algebra.Order.BigOperators.Group.List
import Mathlib.Algebra.Order.Ring.Nat
import LinkFailover.AnswerSizes
import LinkFailover.Atomicity
import LinkFailover.Checkpoints
import LinkFailover.Selections
import LinkFailover.Sessions

/-!
# Answers that fit a frame

A request is carried out before its answer is put into a frame, and an answer that is too large for
the frame ends the session.

* `Server.answers_iff`: which requests are answered.
* `Hoard`: a process that is granted a link again and again, each time refused at length.
* `inspection_unanswered`: its attempts do not fit.
-/

namespace LinkFailover

open Codec

/-! ## What is sent -/

namespace Connection

variable {c : Connection} {type : MessageType} {status : Status} {body : Bytes}

/-- A response is sent if its frame is within the limit. -/
theorem sendResponse_sent :
    (∃ frame, (c.sendResponse type status body kDefaultFramePayload true).1.sent =
      c.sent ++ [frame]) ↔
      (Writer.run (encodeResponseEnvelope type.code status)).length + body.length ≤ 262144 := by
  unfold Connection.sendResponse Connection.send encodeFrame
  rw [List.length_append, show (clampPayload kDefaultFramePayload).toNat = 262144 from rfl]
  by_cases h : (Writer.run (encodeResponseEnvelope type.code status)).length + body.length ≤ 262144
  · rw [if_neg (Nat.not_lt_of_le h), if_neg (by decide)]
    exact iff_of_true ⟨_, rfl⟩ h
  · rw [if_pos (Nat.lt_of_not_le h)]
    refine iff_of_false ?_ h
    rintro ⟨frame, hframe⟩
    change c.sent = c.sent ++ [frame] at hframe
    exact List.cons_ne_nil frame [] (List.self_eq_append_right.mp hframe)

end Connection

namespace Server

variable {s : Server} {i : Nat} {c c' : Connection} {f : Frame} {v : SessionEnvelope}

/-- What a connection has sent behind an answer. -/
theorem answer_sent (h : s.connections[i]? = some c') (status : Status) (body : Bytes)
    (stopAfter takes : Bool) :
    ((s.answer i c f v status body stopAfter takes).connections[i]?).map Connection.sent =
      some ({ c with session := { c.session with lastSeq := v.seq }, dispatching := none }
        |>.sendResponse f.header.type status body s.options.maxFramePayload takes).1.sent := by
  have hi : i < s.connections.length := (List.getElem?_eq_some_iff.mp h).1
  unfold answer
  dsimp only
  split
  · rw [update, List.getElem?_set_self hi]
    rfl
  · split
    · rw [update, List.getElem?_map, List.getElem?_set_self hi]
      rfl
    · rw [update, List.getElem?_set_self hi]
      rfl

theorem dispatch_sent (h : s.connections[i]? = some c) (hd : c.dispatching = some (f, v)) :
    ((s.dispatch i true).connections[i]?).map Connection.sent =
      some ({ c with session := { c.session with lastSeq := v.seq }, dispatching := none }
        |>.sendResponse f.header.type (s.engine.respond f).status (s.engine.respond f).body
          s.options.maxFramePayload true).1.sent := by
  unfold dispatch Engine.respond
  rw [h]
  dsimp only
  rw [hd]
  dsimp only
  cases f.request with
  | error status => exact answer_sent h status [] false true
  | ok request =>
    exact answer_sent (s := { s with engine := (s.engine.serve request).engine }) h _ _ _ _

end Server

deriving instance DecidableEq for EngineLimits, EngineOptions

/-! ## A process whose history does not fit -/

namespace Hoard

/-- A name that is as long as a name can be. -/
def long {Tag : Type} (c : UInt8) : StrongName Tag :=
  if h : isValidName (List.replicate 64 c) = true then ⟨List.replicate 64 c, .inr h⟩ else .none

def subject : LinkKey := ⟨long 102, long 97⟩

def alternate : LinkKey := ⟨long 102, long 98⟩

/-- Two links, and as many attempts for a generation as a policy can allow. -/
def options : EngineOptions where
  fabric := long 102
  policy := { generation := ⟨1⟩, maxAttemptsPerGeneration := 1024 }
  topology := { generation := ⟨1⟩, links := [⟨subject, ⟨1⟩, 10⟩, ⟨alternate, ⟨1⟩, 10⟩] }
  enableSnapshot := false

def boot : Boot := { options := options, incarnation := Sample.incarnation 1 }

/-- The first link is down and the second one up. -/
def front : List Action :=
  [.start boot,
    .perform (.publishFailure
      { subject := subject
        linkGeneration := ⟨1⟩
        topologyGeneration := ⟨1⟩
        state := .down
        confidence := ⟨1000⟩
        stamp := Sample.stamp 1 }),
    .perform (.publishReplacement
      { candidate := alternate
        linkGeneration := ⟨1⟩
        topologyGeneration := ⟨1⟩
        state := .up
        confidence := ⟨1000⟩
        capacityUnits := 10
        adjacencyAuthorized := true
        stamp := Sample.stamp 1 })]

def request : FailoverRequest where
  subject := subject
  subjectGeneration := ⟨1⟩
  candidates := [⟨alternate, .zero⟩]

/-- The applier refuses the attempt of this number and says why, at length. -/
def refusal (n : Nat) : ApplicationReport where
  subject := subject
  subjectGeneration := ⟨1⟩
  attemptSeq := ⟨UInt64.ofNat n⟩
  attemptId := computeAttemptId options.fabric subject ⟨1⟩ ⟨UInt64.ofNat n⟩
  applierIncarnation := Sample.incarnation 9
  accepted := false
  detail := List.replicate 160 97

/-! ### What the process knows of the links -/

/-- The two observations, each the only one of its link, of a publisher that is still there. -/
def knows (e : Engine) : Bool :=
  match e.failureBucket subject, (e.replacementEvidence.find? alternate).map (·.entries) with
  | [(p, x)], some [(q, y)] =>
    e.publisherCurrent p x.report.stamp && e.publisherCurrent q y.report.stamp &&
      decide (x.report.linkGeneration = ⟨1⟩ ∧ x.report.topologyGeneration = ⟨1⟩ ∧
        x.report.state = .down ∧ x.report.confidence = ⟨1000⟩ ∧
        x.receiptCoordinator = e.incarnation ∧ x.receiptTick = 1) &&
      decide (y.report.linkGeneration = ⟨1⟩ ∧ y.report.topologyGeneration = ⟨1⟩ ∧
        y.report.state = .up ∧ y.report.confidence = ⟨1000⟩ ∧ y.report.capacityUnits = 10 ∧
        y.report.adjacencyAuthorized = true ∧ y.receiptCoordinator = e.incarnation ∧
        y.receiptTick = 2)
  | _, _ => false

variable {e : Engine}

/-- A receipt of this process stays current for a while. -/
theorem current_receipt {tick now maxAge : UInt64} (ht : tick.toNat ≤ now.toNat)
    (ha : now.toNat ≤ tick.toNat + maxAge.toNat) {c : Incarnation} :
    ∃ age, classifyReceipt c tick c now maxAge = (.current, age) := by
  have hage : ¬ now - tick > maxAge := by
    rw [gt_iff_lt, UInt64.lt_iff_toNat_lt,
      UInt64.toNat_sub_of_le _ _ (UInt64.le_iff_toNat_le.mpr ht)]
    omega
  refine ⟨now - tick, ?_⟩
  unfold classifyReceipt
  rw [if_neg (not_not.mpr rfl), if_neg (UInt64.not_lt.mpr (UInt64.le_iff_toNat_le.mpr ht))]
  dsimp only
  rw [if_neg hage]

theorem established (hk : knows e = true) (hp : e.state.policy = options.policy)
    (ht : e.state.topology = options.topology) (h1 : 2 ≤ e.tick.toNat) (h2 : e.tick.toNat ≤ 4000) :
    (e.evaluateFailure subject ⟨1⟩).established = true := by
  unfold knows at hk
  split at hk
  · rename_i p x q y hb hr
    simp only [Bool.and_eq_true, decide_eq_true_eq] at hk
    obtain ⟨⟨⟨hx, -⟩, hlink, htop, hstate, hconf, hcoord, htick⟩, -⟩ := hk
    obtain ⟨age, hage⟩ := @current_receipt x.receiptTick e.tick e.state.policy.evidenceMaxAgeTicks
      (by rw [htick]; exact Nat.le_trans (by decide) h1)
      (by rw [htick, hp]; exact Nat.le_trans h2 (by decide)) e.incarnation
    have hfinding : e.failureFinding ⟨1⟩ p x = .qualified true age := by
      unfold Engine.failureFinding
      rw [hx, ht, Engine.classifyRetained, hcoord, hage, hlink, htop, hstate, hconf, hp]
      rfl
    unfold Engine.evaluateFailure Engine.failureTally
    rw [hb, hp]
    simp only [List.foldl_cons, List.foldl_nil, hfinding]
    rfl
  · cases hk

/-- What the process resolves the second link to. -/
theorem resolved (hk : knows e = true) (hp : e.state.policy = options.policy)
    (ht : e.state.topology = options.topology) (h1 : 2 ≤ e.tick.toNat) (h2 : e.tick.toNat ≤ 4000)
    (link : LinkDefinition) (hl : link = ⟨subject, ⟨1⟩, 10⟩) :
    Qualifies (e.selectionInput request link) (e.resolveCandidate ⟨alternate, .zero⟩) := by
  unfold knows at hk
  split at hk
  · rename_i p x q y hb hr
    simp only [Bool.and_eq_true, decide_eq_true_eq] at hk
    obtain ⟨⟨⟨-, hy⟩, -⟩, hlink, htop, hstate, hconf, hcap, hadj, hcoord, htick⟩ := hk
    obtain ⟨b, hfind, hentries⟩ := Option.map_eq_some_iff.mp hr
    obtain ⟨age, hage⟩ := @current_receipt y.receiptTick e.tick e.state.policy.evidenceMaxAgeTicks
      (by rw [htick]; exact h1) (by rw [htick, hp]; exact Nat.le_trans h2 (by decide)) e.incarnation
    have hfound : e.state.topology.find alternate = some ⟨alternate, ⟨1⟩, 10⟩ := by
      rw [ht]
      decide
    have hbinds : e.bindsReplacement ⟨alternate, ⟨1⟩, 10⟩ (q, y) = true := by
      rw [Engine.bindsReplacement, hy, hlink, htop, ht]
      rfl
    have hclass : e.classifyRetained y = (.current, age) := by
      rw [Engine.classifyRetained, hcoord, hage]
    have hresolve : e.resolveCandidate ⟨alternate, .zero⟩ =
        { candidate := alternate
          linkGeneration := ⟨1⟩
          generationAsserted := false
          generationMatched := true
          evidencePresent := true
          report := y.report
          evidenceDigest := y.digest
          freshness := .current
          ageTicks := age
          conflicted := false } := by
      unfold Engine.resolveCandidate
      rw [hfound, hfind]
      dsimp only
      rw [hentries, List.filter_cons_of_pos hbinds, List.filter_nil, List.foldl_cons,
        List.foldl_nil, Engine.betterReplacement]
      dsimp only
      rw [hclass, show e.contradicted [(q, y)] (q, y) = false by simp [Engine.contradicted]]
      rfl
    rw [hresolve]
    refine ⟨show alternate ≠ subject by decide, rfl, rfl, by simp, rfl, ?_, .inl hstate, ?_,
      fun _ => hadj⟩
    · change e.state.policy.minReplacementConfidence.value ≤ y.report.confidence.value
      rw [hp, hconf]
      decide
    · change (e.selectionInput request link).minReplacementCapacity ≤ y.report.capacityUnits
      rw [Engine.selectionInput, hp, hl, hcap]
      exact UInt32.le_refl 10
  · cases hk

/-- A request that asks for the only alternate is granted, as long as no attempt holds authority. -/
theorem plan (hk : knows e = true) (ho : e.options = options)
    (hp : e.state.policy = options.policy) (ht : e.state.topology = options.topology)
    (h1 : 2 ≤ e.tick.toNat) (h2 : e.tick.toNat ≤ 4000)
    (ha : ∀ r ∈ e.state.attempts, r.phase = .aborted) (hn : e.attemptCount request < 1024) :
    ∃ d a, e.planFailover request = .grant d a := by
  have hcheck : e.checkRequest request = none := by
    unfold Engine.checkRequest
    rw [ho, hp]
    rfl
  have hlink : e.state.topology.find request.subject = some ⟨subject, ⟨1⟩, 10⟩ := by
    rw [ht]
    decide
  have hactive : e.state.activeAuthority request.subject request.subjectGeneration = none :=
    DurableState.activeAuthority_none.mpr fun q hq _ _ => by
      rw [DurableState.isActive, ha q hq]
      rfl
  have hbudget : e.withinBudget request = true := by
    rw [Engine.withinBudget, hp]
    exact decide_eq_true hn
  have hcandidates : (e.selectionInput request ⟨subject, ⟨1⟩, 10⟩).candidates =
      [e.resolveCandidate ⟨alternate, .zero⟩] := rfl
  have hq := resolved hk hp ht h1 h2 _ rfl
  have hvalid := @selectReplacement_valid (e.selectionInput request ⟨subject, ⟨1⟩, 10⟩)
    (by rw [hcandidates]; exact ⟨by simp, by simp⟩)
  have hselected : (selectReplacement (e.selectionInput request ⟨subject, ⟨1⟩, 10⟩)).status =
      .selected := by
    have hmem : assess (e.selectionInput request ⟨subject, ⟨1⟩, 10⟩)
        (e.resolveCandidate ⟨alternate, .zero⟩) ∈
        (selectReplacement (e.selectionInput request ⟨subject, ⟨1⟩, 10⟩)).assessments :=
      (mem_selected rfl).mpr ⟨_, by rw [hcandidates]; exact List.mem_cons_self, rfl⟩
    have hv := judge_eligible_iff.mpr hq
    rcases @selectReplacement_status (e.selectionInput request ⟨subject, ⟨1⟩, 10⟩)
      (by rw [hcandidates]; simp) with ⟨hs, -⟩ | ⟨-, hall⟩ | ⟨-, hnone, -⟩
    · exact hs
    · exact absurd (hv.symm.trans (hall _ hmem)) (by decide)
    · exact absurd hv (hnone _ hmem)
  obtain ⟨i, chosen, hi, hget, -⟩ := selectReplacement_index hselected
  have hchosen : Engine.chosenAssessment (e.selectionInput request ⟨subject, ⟨1⟩, 10⟩)
      (selectReplacement (e.selectionInput request ⟨subject, ⟨1⟩, 10⟩)) = some chosen := by
    obtain ⟨r, hr, hassess⟩ := (mem_selected rfl).mp (List.mem_of_getElem? hget)
    unfold Engine.chosenAssessment
    rw [hi, Option.bind_some, hget]
    dsimp only
    rw [if_pos (List.any_eq_true.mpr ⟨r, hr, by rw [← hassess]; simp [assess]⟩)]
  obtain ⟨next, hnext⟩ : ∃ next, checkedAddU64 (UInt64.ofNat (e.attemptCount request)) 1 =
      some next := by
    rw [checkedAddU64, if_neg]
    · exact ⟨_, rfl⟩
    · rw [gt_iff_lt, UInt64.lt_iff_toNat_lt, UInt64.toNat_ofNat']
      change ¬ 18446744073709551614 < _
      omega
  have hgrant : ∀ d, ∃ d' a, e.planEvidence request d ⟨subject, ⟨1⟩, 10⟩ = .grant d' a := by
    intro d
    have hestablished := established hk hp ht h1 h2
    unfold Engine.planEvidence
    dsimp only
    rw [show (e.evaluateFailure request.subject request.subjectGeneration).established = true from
      hestablished, if_neg (by simp)]
    unfold Engine.planSelection
    dsimp only
    rw [hvalid, if_neg (by simp), if_neg (not_not.mpr hselected)]
    unfold Engine.planSelected
    rw [hbudget, if_neg (by simp), hchosen]
    dsimp only
    rw [hnext]
    exact ⟨_, _, rfl⟩
  unfold Engine.planFailover
  rw [hcheck, show e.state.findIdempotency request.idempotencyKey = none from rfl]
  dsimp only
  unfold Engine.planSubject
  rw [hlink]
  dsimp only
  rw [if_neg (show ¬ (⟨1⟩ : LinkGeneration) ≠ request.subjectGeneration from not_not.mpr rfl)]
  unfold Engine.planExpectation
  dsimp only
  rw [if_neg (by simp [request, compareAuthority, mismatchOf]), hp, if_neg (by decide)]
  unfold Engine.planAuthority
  rw [hactive]
  dsimp only
  unfold Engine.planRevalidation
  cases hlatest : e.state.latestAttempt request.subject request.subjectGeneration with
  | none => exact hgrant _
  | some latest =>
    dsimp only
    rw [ha latest (DurableState.latestAttempt_some hlatest).1, if_neg (by decide)]
    exact hgrant _

/-- The attempt of this number as a grant creates it. -/
structure Granted (n : Nat) (a : AttemptRecord) : Prop where
  subject : a.subject = subject
  generation : a.subjectGeneration = ⟨1⟩
  seq : a.attemptSeq = ⟨UInt64.ofNat n⟩
  id : a.attemptId = (refusal n).attemptId
  reasons : a.reasons = Engine.grantReasons
  size : 1100 ≤ a.size

theorem granted {d : FailoverDecision} {a : AttemptRecord} (ho : e.options = options)
    (h : e.planFailover request = .grant d a) :
    Granted (e.attemptCount request + 1) a ∧ d.reasons.length ≤ kMaxDecisionReasons ∧
      d.candidates.length ≤ kMaxDecisionCandidates := by
  obtain ⟨link, c, hgates, hgrant⟩ := Engine.planFailover_grant h
  obtain ⟨hd, ha⟩ := FailoverPlan.grant.inj hgrant
  obtain rfl : c = ⟨alternate, .zero⟩ := List.mem_singleton.mp hgates.selects.candidate
  have hreplacement : a.replacement = alternate := by
    rw [ha]
    exact Engine.resolveCandidate_candidate _
  refine ⟨⟨by rw [ha]; rfl, by rw [ha]; rfl, by rw [ha]; rfl, ?_, by rw [ha]; rfl, ?_⟩, ?_, ?_⟩
  · rw [ha]
    change computeAttemptId e.options.fabric _ _ _ = _
    rw [ho]
    rfl
  · have hsubject : a.subject = subject := by rw [ha]; rfl
    have hfabric : a.authority.fabric = options.fabric := by
      rw [ha]
      exact congrArg EngineOptions.fabric ho
    have hs : a.authority.subject = subject := by rw [ha]; rfl
    have hr : a.authority.replacement = alternate := by
      rw [ha]
      exact Engine.resolveCandidate_candidate _
    have hreasons : a.reasons = Engine.grantReasons := by rw [ha]; rfl
    have hlong : options.fabric.value.length = 64 ∧ subject.fabric.value.length = 64 ∧
        subject.link.value.length = 64 ∧ alternate.fabric.value.length = 64 ∧
        alternate.link.value.length = 64 ∧
        (Engine.grantReasons.entries.map Reason.size).sum = 109 := by decide
    obtain ⟨h1, h2, h3, h4, h5, h6⟩ := hlong
    rw [AttemptRecord.size, AuthorityVector.size, hsubject, hreplacement, hfabric, hs, hr, hreasons,
      h1, h2, h3, h4, h5, h6]
    omega
  · rw [hd]
    exact Nat.le_of_ble_eq_true rfl
  · rw [hd]
    change (selectReplacement (e.selectionInput request link)).assessments.length ≤ _
    rw [length_assessments]
    exact Nat.le_of_ble_eq_true rfl

/-! ### What the store keeps -/

/-- A store that has gone on, with this table of attempts. -/
structure Follows (s s' : LineageStore) (attempts : List AttemptRecord) : Prop where
  state : ∃ seq count, s'.state =
    { s.state with attempts := attempts, lastSeq := seq, recordCount := count }
  options : s'.options = s.options

variable {s s' s'' : LineageStore} {xs ys : List AttemptRecord} {n : Nat}

theorem Follows.trans (h : Follows s s' xs) (h' : Follows s' s'' ys) : Follows s s'' ys where
  state := by
    obtain ⟨seq, count, hstate⟩ := h.state
    obtain ⟨seq', count', hstate'⟩ := h'.state
    exact ⟨seq', count', by rw [hstate', hstate]⟩
  options := h'.options.trans h.options

theorem Follows.attempts (h : Follows s s' xs) : s'.state.attempts = xs := by
  obtain ⟨seq, count, hstate⟩ := h.state
  rw [hstate]

/-- An attempt is written at the end of the table, over one of its key or behind the others. -/
theorem follows_attempt (h : s.Roomy (n + 1)) (w : AttemptWrite) (r : AttemptRecord)
    {stamp : AttemptRecord → LineageSeq → AttemptRecord} (hkey : ∀ seq, (stamp r seq).key = r.key)
    (hxs : s.state.attempts = xs ++ ys) (hfresh : ∀ q ∈ xs, q.key ≠ r.key)
    (hys : ys = [] ∨ ∃ q, ys = [q] ∧ q.key = r.key) (hroom : xs.length < s.options.maxAttempts) :
    let written := s.commit (.attempt w r) fun seq d => d.noteAttempt s.options (stamp r seq)
    written.2.isOk = true ∧ written.1.Roomy n ∧
      ∃ seq, Follows s written.1 (xs ++ [stamp r seq]) := by
  obtain ⟨hok, hroom', seq, -, hstate, hopt⟩ := h.commit (AttemptRecord.fits w r)
    fun seq d => d.noteAttempt s.options (stamp r seq)
  refine ⟨hok, hroom', seq, ⟨⟨seq, s.state.recordCount + 1, hstate.trans ?_⟩, hopt⟩⟩
  have htable : evictAttempts s.options (upsertAttempt (stamp r seq) s.state.attempts) =
      xs ++ [stamp r seq] := by
    have hupsert : upsertAttempt (stamp r seq) s.state.attempts = xs ++ [stamp r seq] := by
      have hne : ∀ q ∈ xs, q.key ≠ (stamp r seq).key := fun q hq => by
        rw [hkey]
        exact hfresh q hq
      rw [upsertAttempt, hxs, BoundedTable.upsert_append hne]
      rcases hys with rfl | ⟨q, rfl, hq⟩
      · rfl
      · rw [BoundedTable.upsert, if_pos (by rw [hkey, hq])]
    rw [hupsert]
    exact BoundedTable.evict_of_le (by rw [List.length_append]; exact hroom)
  rw [LineageStore.applied, DurableState.noteAttempt, htable]

theorem follows_decision (h : s.Roomy (n + 1)) {d : FailoverDecision}
    (hr : d.reasons.length ≤ kMaxDecisionReasons)
    (hc : d.candidates.length ≤ kMaxDecisionCandidates) :
    let written := s.commit (.decision d) fun _ s => s
    written.2.isOk = true ∧ written.1.Roomy n ∧ Follows s written.1 s.state.attempts := by
  obtain ⟨hok, hroom, seq, -, hstate, hopt⟩ := h.commit (FailoverDecision.fits hr hc) fun _ s => s
  exact ⟨hok, hroom, ⟨seq, _, hstate⟩, hopt⟩

/-- A decision is written, and nothing else comes of it without a key and without checkpoints. -/
theorem decided (h : e.store.Roomy (n + 1)) {d : FailoverDecision}
    (hr : d.reasons.length ≤ kMaxDecisionReasons)
    (hc : d.candidates.length ≤ kMaxDecisionCandidates)
    (hsnap : e.options.enableSnapshot = false) :
    ∃ s decisions, (e.settleDurable d request.idempotencyKey).1 =
        { e with store := s, decisions := decisions } ∧
      (e.answerAndCheckpoint d).1 = { e with store := s, decisions := decisions } ∧
      s.Roomy n ∧ Follows e.store s e.state.attempts := by
  obtain ⟨hok, hroom, hf⟩ := follows_decision h hr hc
  have he : (e.commitDecision d).1 =
      { e with store := (e.store.commit (.decision d) fun _ s => s).1 } := by
    rw [Engine.commitDecision_store, Pile.withWrite_ok hok]
  have hno : ∀ e' : Engine, e'.options = e.options → e'.maybeCheckpoint = e' := by
    intro e' ho
    rw [Engine.maybeCheckpoint, if_pos (by simp [ho, hsnap])]
  refine ⟨_, (e.rememberDecision (e.commitDecision d).2).decisions, ?_, ?_, hroom, hf⟩
  · unfold Engine.settleDurable Engine.commitIdempotency
    dsimp only
    rw [if_pos (by rfl), hno _ (by rw [he]), he]
    rfl
  · unfold Engine.answerAndCheckpoint
    dsimp only
    rw [hno _ (by rw [he]), he]
    rfl

/-! ### One round -/

/-- The request is granted. -/
theorem grant (hk : knows e = true) (ho : e.options = options)
    (hp : e.state.policy = options.policy) (ht : e.state.topology = options.topology)
    (h1 : 2 ≤ e.advance.tick.toNat) (h2 : e.advance.tick.toNat ≤ 4000)
    (ha : ∀ r ∈ e.state.attempts, r.phase = .aborted) (hn : e.attemptCount request < 1024)
    (hu : e.unavailable = none) (hroom : e.store.Roomy (n + 3))
    (hs : e.store.options = options.store) (hlength : e.state.attempts.length < 4096)
    (hfresh : ∀ r ∈ e.state.attempts,
      r.key ≠ (subject, ⟨UInt64.ofNat (e.attemptCount request + 1)⟩)) :
    ∃ a s decisions, (e.requestFailover request).1 =
        { e.advance with store := s, decisions := decisions } ∧ s.Roomy n ∧
      Granted (e.attemptCount request + 1) a ∧ a.phase = .authorized ∧
      Follows e.store s (e.state.attempts ++ [a]) := by
  obtain ⟨d, a, hplan⟩ := @plan e.advance hk ho hp ht h1 h2 ha hn
  obtain ⟨hg, hr, hc⟩ := @granted e.advance d a ho hplan
  have hne : ∀ q ∈ e.state.attempts, q.key ≠ a.key := by
    rw [AttemptRecord.key, hg.subject, hg.seq]
    exact hfresh
  have hmax : e.state.attempts.length < e.store.options.maxAttempts := by
    rw [hs]
    exact hlength
  obtain ⟨hok₁, hroom₁, seq₁, hf₁⟩ := @follows_attempt e.store e.state.attempts [] (n + 2) hroom
    .create a Engine.createdAt (fun _ => rfl) (List.append_nil _).symm hne (.inl rfl) hmax
  change (e.advance.createAttempt a).2.isOk = true at hok₁
  change (e.advance.createAttempt a).1.Roomy (n + 2) at hroom₁
  change Follows e.store (e.advance.createAttempt a).1 _ at hf₁
  have hexec : e.requestFailover request = e.advance.execute request (.grant d a) := by
    rw [Engine.requestFailover, hu, ← hplan]
  rw [hexec, Engine.execute, Engine.afterWrite_true hok₁, Pile.withWrite_ok hok₁]
  revert hroom₁ hf₁
  generalize (e.advance.createAttempt a).1 = s₁
  intro hroom₁ hf₁
  obtain ⟨hok₂, hroom₂, seq₂, hf₂⟩ := @follows_attempt s₁ e.state.attempts
    [Engine.createdAt a seq₁] (n + 1) hroom₁ .update { a with phase := .authorized }
    Engine.updatedAt (fun _ => rfl) hf₁.attempts hne (.inr ⟨_, rfl, rfl⟩)
    (by rw [hf₁.options]; exact hmax)
  obtain ⟨e₁, he₁⟩ : ∃ e₁ : Engine, e₁ = { e.advance with store := s₁ } := ⟨_, rfl⟩
  have hs₁ : e₁.store = s₁ := by rw [he₁]
  rw [← hs₁] at hok₂ hroom₂ hf₂
  change (e₁.updateAttempt .update { a with phase := .authorized }).2.isOk = true at hok₂
  change (e₁.updateAttempt .update { a with phase := .authorized }).1.Roomy (n + 1) at hroom₂
  change Follows _ (e₁.updateAttempt .update { a with phase := .authorized }).1 _ at hf₂
  rw [← he₁, Engine.afterWrite_true hok₂, Pile.withWrite_ok hok₂]
  revert hroom₂ hf₂
  generalize (e₁.updateAttempt .update { a with phase := .authorized }).1 = s₂
  intro hroom₂ hf₂
  obtain ⟨s₃, decisions, hdecided, -, hroom₃, hf₃⟩ :=
    @decided { e₁ with store := s₂ } n hroom₂ d hr hc (by rw [he₁]; exact congrArg _ ho)
  refine ⟨Engine.updatedAt { a with phase := .authorized } seq₂, s₃, decisions, ?_, hroom₃,
    ⟨hg.subject, hg.generation, hg.seq, hg.id, hg.reasons, hg.size⟩, rfl, ?_⟩
  · rw [hdecided, he₁]
  · rw [hs₁] at hf₂
    have hf := (hf₁.trans hf₂).trans hf₃
    rwa [show ({ e₁ with store := s₂ } : Engine).state.attempts = _ from hf₂.attempts] at hf

/-- The attempt is refused by its applier, and the reason is kept with it. -/
theorem refuse {m : Nat} {a : AttemptRecord} (ho : e.options = options) (hu : e.unavailable = none)
    (hroom : e.store.Roomy (n + 2)) (hs : e.store.options = options.store)
    (hxs : e.state.attempts = xs ++ [a]) (hlength : xs.length < 4096)
    (hfresh : ∀ q ∈ xs, q.key ≠ (subject, ⟨UInt64.ofNat m⟩)) (hg : Granted m a)
    (ha : a.phase = .authorized) :
    ∃ q s decisions, (e.recordApplication (refusal m)).1 =
        { e.advance with store := s, decisions := decisions } ∧ s.Roomy n ∧
      q.subject = subject ∧ q.subjectGeneration = ⟨1⟩ ∧ q.attemptSeq = ⟨UInt64.ofNat m⟩ ∧
      q.phase = .aborted ∧ 1100 ≤ q.size ∧ Follows e.store s (xs ++ [q]) := by
  have hne : ∀ q ∈ xs, q.key ≠ a.key := by
    rw [AttemptRecord.key, hg.subject, hg.seq]
    exact hfresh
  have hfound : e.advance.state.findAttempt (refusal m).subject (refusal m).attemptSeq =
      some a := by
    change (e.state.attempts.find? _) = _
    rw [hxs, List.find?_append, List.find?_eq_none.mpr, Option.none_or,
      List.find?_cons_of_pos (by rw [hg.subject, hg.seq]; simp [refusal])]
    intro q hq hsame
    rw [Bool.and_eq_true, decide_eq_true_eq, decide_eq_true_eq] at hsame
    exact hfresh q hq (by rw [AttemptRecord.key, hsame.1, hsame.2]; rfl)
  obtain ⟨aborted, hab⟩ : ∃ r, r = Engine.movedTo a .aborted .backendRejected (refusal m).detail :=
    ⟨_, rfl⟩
  obtain ⟨d, hd, hdr, hdc⟩ : ∃ d, e.advance.applyAttempt a (refusal m) = (aborted, d) ∧
      d.reasons.length ≤ kMaxDecisionReasons ∧ d.candidates.length ≤ kMaxDecisionCandidates := by
    rw [hab]
    exact ⟨_, rfl, Nat.le_of_ble_eq_true rfl, Nat.le_of_ble_eq_true rfl⟩
  have hexec : e.recordApplication (refusal m) =
      e.advance.afterWrite (e.advance.updateAttempt .update aborted)
        "the application report could not be recorded" fun e' => e'.answerAndCheckpoint d := by
    rw [Engine.recordApplication, hu]
    dsimp only
    rw [hfound]
    dsimp only
    have hgeneration : a.subjectGeneration = (refusal m).subjectGeneration := hg.generation
    have happlier : (refusal m).applierIncarnation.isZero = false := rfl
    rw [Engine.recordFound, if_neg (not_not.mpr hgeneration), if_neg (not_not.mpr hg.id), happlier,
      if_neg Bool.false_ne_true, ha]
    dsimp only [Engine.applicationConflict]
    rw [hd, hab]
    rfl
  obtain ⟨hok, hroom', seq, hf⟩ := @follows_attempt e.store xs [a] (n + 1) hroom .update aborted
    Engine.updatedAt (fun _ => rfl) hxs (by rw [hab]; exact hne) (.inr ⟨a, rfl, by rw [hab]; rfl⟩)
    (by rw [hs]; exact hlength)
  change (e.advance.updateAttempt .update aborted).2.isOk = true at hok
  change (e.advance.updateAttempt .update aborted).1.Roomy (n + 1) at hroom'
  change Follows e.store (e.advance.updateAttempt .update aborted).1 _ at hf
  rw [hexec, Engine.afterWrite_true hok, Pile.withWrite_ok hok]
  revert hroom' hf
  generalize (e.advance.updateAttempt .update aborted).1 = s₁
  intro hroom' hf
  obtain ⟨s₂, decisions, -, hdecided, hroom₂, hf₂⟩ :=
    @decided { e.advance with store := s₁ } n hroom' d hdr hdc
      (congrArg EngineOptions.enableSnapshot ho)
  refine ⟨Engine.updatedAt aborted seq, s₂, decisions, hdecided, hroom₂, ?_, ?_, ?_, ?_, ?_, ?_⟩
  · rw [hab]
    exact hg.subject
  · rw [hab]
    exact hg.generation
  · rw [hab]
    exact hg.seq
  · rw [hab]
    rfl
  · have hbefore : (a.reasons.entries.map Reason.size).sum = 109 := by
      rw [hg.reasons]
      decide
    have hafter : 109 ≤ ((a.reasons.push (Reason.of .backendRejected
        (List.replicate 160 97))).entries.map Reason.size).sum := by
      have hpush : ∀ r, (Engine.grantReasons.push r).entries = Engine.grantReasons.entries ++ [r] :=
        fun _ => rfl
      rw [hg.reasons] at hbefore ⊢
      rw [hpush, List.map_append, List.sum_append, hbefore]
      exact Nat.le_add_right 109 _
    have hsize := hg.size
    rw [AttemptRecord.size] at hsize ⊢
    rw [hab]
    change _ ≤ 212 + a.subject.fabric.value.length + a.subject.link.value.length +
      a.replacement.fabric.value.length + a.replacement.link.value.length + a.authority.size +
      (a.predecessor.map fun _ => 32).getD 0 + ((a.reasons.push (Reason.of .backendRejected
        (List.replicate 160 97))).entries.map Reason.size).sum
    omega
  · have hf' := hf.trans hf₂
    rwa [show ({ e.advance with store := s₁ } : Engine).state.attempts = _ from hf.attempts] at hf'

/-- A process behind `n` such attempts. -/
structure Hoarded (n : Nat) (e : Engine) : Prop where
  reachable : Reachable e
  available : e.unavailable = none
  options : e.options = Hoard.options
  policy : e.state.policy = Hoard.options.policy
  topology : e.state.topology = Hoard.options.topology
  knows : Hoard.knows e = true
  tick : e.tick.toNat = 2 * n + 2
  roomy : e.store.Roomy (5 * (1000 - n))
  length : e.state.attempts.length = n
  attempts : ∀ r ∈ e.state.attempts, r.subject = subject ∧ r.subjectGeneration = ⟨1⟩ ∧
    r.attemptSeq.toNat ≤ n ∧ r.phase = .aborted ∧ 1100 ≤ r.size

theorem Hoarded.next (h : Hoarded n e) (hn : n < 1000) :
    Hoarded (n + 1) ((e.requestFailover request).1.recordApplication (refusal (n + 1))).1 := by
  have hcount : e.attemptCount request = n := by
    rw [Engine.attemptCount, DurableState.countAttempts, List.countP_eq_length.mpr, h.length]
    intro r hr
    exact DurableState.concerns_iff.mpr ⟨(h.attempts r hr).1, (h.attempts r hr).2.1⟩
  have htick : ∀ e : Engine, e.tick.toNat < 10000 →
      e.advance.tick.toNat = e.tick.toNat + 1 := by
    intro e he
    rw [show e.advance.tick = e.tick + 1 from rfl, UInt64.toNat_add]
    exact Nat.mod_eq_of_lt (show e.tick.toNat + 1 < 2 ^ 64 by omega)
  have hseq : (⟨UInt64.ofNat (n + 1)⟩ : AttemptSeq).toNat = n + 1 := by
    change (UInt64.ofNat (n + 1)).toNat = n + 1
    rw [UInt64.toNat_ofNat', Nat.mod_eq_of_lt (by omega)]
  have hfresh : ∀ r ∈ e.state.attempts, r.key ≠ (subject, ⟨UInt64.ofNat (n + 1)⟩) := by
    intro r hr hkey
    have hle := (h.attempts r hr).2.2.1
    rw [show r.attemptSeq = _ from congrArg Prod.snd hkey, hseq] at hle
    omega
  have hs : e.store.options = Hoard.options.store := by rw [h.reachable.ok.options, h.options]
  have ht := h.tick
  have h0 := htick e (by omega)
  obtain ⟨a, s, decisions, he, hroom, hg, hp, hf⟩ := @grant e (5 * (1000 - (n + 1)) + 2) h.knows
    h.options h.policy h.topology (by omega) (by omega) (fun r hr => (h.attempts r hr).2.2.2.1)
    (by omega) h.available (h.roomy.mono (by omega)) hs (by rw [h.length]; omega)
    (by rw [hcount]; exact hfresh)
  have hreach := h.reachable.perform (.requestFailover request)
  change Reachable (e.requestFailover request).1 at hreach
  rw [he] at hreach ⊢
  rw [hcount] at hg
  obtain ⟨e₁, he₁⟩ : ∃ e₁ : Engine, e₁ = { e.advance with store := s, decisions := decisions } :=
    ⟨_, rfl⟩
  rw [← he₁] at hreach ⊢
  have hs₁ : e₁.store = s := by rw [he₁]
  have ho₁ : e₁.options = Hoard.options := by rw [he₁]; exact h.options
  rw [← hs₁] at hroom hf
  have hu₁ : e₁.unavailable = none := by
    rw [he₁]
    exact h.available
  have ht₁ : e₁.tick = e.advance.tick := by rw [he₁]
  obtain ⟨q, s', decisions', he', hroom', hq, hqg, hqs, hqp, hqz, hf'⟩ := @refuse e₁
    e.state.attempts (5 * (1000 - (n + 1))) (n + 1) a ho₁ hu₁ hroom
    (by rw [hf.options]; exact hs) hf.attempts (by rw [h.length]; omega) hfresh hg hp
  have hreach' := hreach.perform (.recordApplication (refusal (n + 1)))
  change Reachable (e₁.recordApplication (refusal (n + 1))).1 at hreach'
  rw [he'] at hreach' ⊢
  have hfollows := hf.trans hf'
  obtain ⟨seq, count, hstate⟩ := hfollows.state
  have ht' : ({ e₁.advance with store := s', decisions := decisions' } : Engine).tick.toNat =
      2 * (n + 1) + 2 := by
    change e₁.advance.tick.toNat = _
    rw [htick e₁ (by rw [ht₁]; omega), ht₁, h0, ht]
    omega
  have hlist : ({ e₁.advance with store := s', decisions := decisions' } : Engine).state.attempts =
      e.state.attempts ++ [q] := hfollows.attempts
  exact
    { reachable := hreach'
      available := hu₁
      options := ho₁
      policy := by
        change s'.state.policy = _
        rw [hstate]
        exact h.policy
      topology := by
        change s'.state.topology = _
        rw [hstate]
        exact h.topology
      knows := by
        rw [he₁]
        exact h.knows
      tick := ht'
      roomy := hroom'
      length := by rw [hlist, List.length_append, h.length, List.length_singleton]
      attempts := by
        intro r hr
        rw [hlist] at hr
        rcases List.mem_append.mp hr with hr | hr
        · obtain ⟨h1, h2, h3, h4⟩ := h.attempts r hr
          exact ⟨h1, h2, Nat.le_succ_of_le h3, h4⟩
        · rw [List.mem_singleton.mp hr]
          exact ⟨hq, hqg, by rw [hqs, hseq], hqp, hqz⟩ }

theorem hoarded (n : Nat) (hn : n ≤ 1000) : ∃ e, Hoarded n e := by
  induction n with
  | zero =>
    obtain ⟨e, he, hp⟩ := @System.of_serves (System.run front)
      (fun e : Engine => e.unavailable.isNone && decide (e.options = options) &&
        decide (e.state.policy = options.policy) && decide (e.state.topology = options.topology) &&
        knows e && decide (e.tick = 2) && e.state.attempts.isEmpty && !e.store.failed &&
        e.store.medium.appendFaults.isEmpty && decide (e.state.lastSeq = ⟨1⟩)) (by decide +kernel)
    simp only [Bool.and_eq_true, Bool.not_eq_true', decide_eq_true_eq, List.isEmpty_iff,
      Option.isNone_iff_eq_none] at hp
    obtain ⟨⟨⟨⟨⟨⟨⟨⟨⟨hu, ho⟩, hpol⟩, htop⟩, hk⟩, htick⟩, hatt⟩, hf⟩, hfaults⟩, hseq⟩ := hp
    have hreach : Reachable e := ⟨_, he⟩
    exact ⟨e,
      { reachable := hreach
        available := hu
        options := ho
        policy := hpol
        topology := htop
        knows := hk
        tick := by rw [htick]; rfl
        roomy :=
          { ok := hreach.ok.store
            running := hf
            faults := hfaults
            room := by
              rw [show e.store.state.lastSeq = ⟨1⟩ from hseq]
              exact Nat.lt_of_sub_pos (by decide) }
        length := by rw [hatt, List.length_nil]
        attempts := fun r hr => by
          rw [hatt] at hr
          cases hr }⟩
  | succ n ih =>
    obtain ⟨e, h⟩ := ih (Nat.le_of_succ_le hn)
    exact ⟨_, h.next hn⟩

/-- A session that asks for this many attempts and fences. -/
def asks (limit : UInt32) (e : Engine) : Frame :=
  Frame.of .inspect (Writer.run (Sample.envelope e.epoch).encode ++
    Writer.run (Writer.fields [.u16 kWireProtocolVersion, .u32 limit]))

def connection (limit : UInt32) (e : Engine) : Connection where
  session := Sample.opened e.epoch
  decoder := { maxPayload := kDefaultFramePayload }
  dispatching := some (asks limit e, Sample.envelope e.epoch)

def server (limit : UInt32) (e : Engine) : Server where
  options := {}
  engine := e
  connections := [connection limit e]

theorem asks_request : (asks 256 e).request = .ok (.inspect 256) := by
  rw [asks, Frame.of_request]
  rfl

theorem asks_admitted (limit : UInt32) :
    (connection limit e).session.judge e.epoch (asks limit e) =
      .admitted (Sample.envelope e.epoch) :=
  SessionState.judge_admitted.mpr
    ⟨rfl, Frame.of_envelope (by decide) _ _, rfl, rfl, rfl,
      (by decide : (.zero : SessionSeq) < ⟨1⟩)⟩

end Hoard

/-! ## Which requests are answered -/

/-- Every request that a session admits is answered, unless it asks for an inspection whose
attempts and fences take more than a frame together. -/
theorem Server.answers_iff {s : Server} {i : Nat} {c : Connection} {f : Frame}
    {v : SessionEnvelope} (h : Reachable s.engine)
    (hm : s.options.maxFramePayload = kDefaultFramePayload) (hc : s.connections[i]? = some c)
    (hd : c.dispatching = some (f, v)) :
    (∃ frame, ((s.dispatch i true).connections[i]?).map Connection.sent =
        some (c.sent ++ [frame])) ↔
      ∀ limit, f.request = .ok (.inspect limit) → s.engine.inspectionSize limit ≤ 262144 := by
  rw [← respond_iff h f, dispatch_sent hc hd, hm]
  simp only [Option.some.injEq]
  exact Connection.sendResponse_sent

/-- A process that has granted a failover and revoked it with a new policy retains an attempt and
a fence, and answers an inspection of both. -/
theorem inspection_answered : ∃ e : Engine, Reachable e ∧ e.state.attempts.length = 1 ∧
    e.state.fences.length = 1 ∧ ∃ frame,
      (((Hoard.server 256 e).dispatch 0 true).connections[0]?).map Connection.sent =
        some ([] ++ [frame]) := by
  obtain ⟨e, he, hp⟩ := @System.of_serves
    (System.run (Sample.grantedOnce ++ [.perform (.setPolicy { generation := ⟨2⟩ })]))
    (fun e : Engine => decide (e.state.attempts.length = 1 ∧ e.state.fences.length = 1 ∧
      e.inspectionSize 256 ≤ 262144)) (by decide +kernel)
  obtain ⟨hattempts, hfences, hsize⟩ := of_decide_eq_true hp
  refine ⟨e, ⟨_, he⟩, hattempts, hfences, (@Server.answers_iff (Hoard.server 256 e) 0
    (Hoard.connection 256 e) (Hoard.asks 256 e) (Sample.envelope e.epoch) ⟨_, he⟩ rfl rfl rfl).mpr ?_⟩
  intro limit hlimit
  cases Hoard.asks_request.symm.trans hlimit
  exact hsize

/-- A history of 256 attempts that were refused at length takes more than a frame, although an
inspection may ask for it. -/
theorem inspection_unanswered : ¬ ∀ (s : Server) (i : Nat) (c : Connection) (f : Frame)
    (v : SessionEnvelope), Reachable s.engine →
    s.options.maxFramePayload = kDefaultFramePayload → s.connections[i]? = some c →
    c.session.judge s.engine.epoch f = .admitted v → c.dispatching = some (f, v) →
    ∃ frame, ((s.dispatch i true).connections[i]?).map Connection.sent =
      some (c.sent ++ [frame]) := by
  intro hall
  obtain ⟨e, h⟩ := Hoard.hoarded 256 (by decide)
  obtain ⟨frame, hframe⟩ := hall (Hoard.server 256 e) 0 (Hoard.connection 256 e) (Hoard.asks 256 e)
    (Sample.envelope e.epoch) h.reachable rfl rfl (Hoard.asks_admitted 256) rfl
  rw [@Server.dispatch_sent (Hoard.server 256 e) 0 (Hoard.connection 256 e) _ _ rfl rfl] at hframe
  have hfit := (respond_iff (e := e) h.reachable (Hoard.asks 256 e)).mp
    (Connection.sendResponse_sent.mp ⟨frame, Option.some.inj hframe⟩) 256 Hoard.asks_request
  have hsorted : (BoundedTable.sortBy recentAttemptLess e.state.attempts).Perm e.state.attempts :=
    BoundedTable.sortBy_perm
  have hlength := hsorted.length_eq.trans h.length
  rw [Engine.inspectionSize, List.take_of_length_le hlength.le] at hfit
  have hsum : 256 * 1100 ≤
      ((BoundedTable.sortBy recentAttemptLess e.state.attempts).map AttemptRecord.size).sum := by
    have hle := List.card_nsmul_le_sum
      ((BoundedTable.sortBy recentAttemptLess e.state.attempts).map AttemptRecord.size) 1100
      (by
        intro n hn
        obtain ⟨r, hr, rfl⟩ := List.mem_map.mp hn
        exact (h.attempts r (hsorted.mem_iff.mp hr)).2.2.2.2)
    rw [List.length_map, hlength] at hle
    exact hle
  omega

end LinkFailover
