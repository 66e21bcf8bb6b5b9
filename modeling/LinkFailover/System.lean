import LinkFailover.Booting

/-!
# Runs

A run is a list of actions on one directory that begins empty: a process is started, it performs
operations, it is killed. The start of a process also settles how its medium behaves, so a run may
break off in the middle of an append, between two commits or in a checkpoint.

* `System.run_ok`: the trace and the bytes of a directory stay in step in every run.
* `Reachable.ok`: what holds of an engine that a run leads to.
-/

namespace LinkFailover

open Codec

/-! ## Operations -/

inductive Operation where
  | publishFailure (report : FailureReport)
  | publishReplacement (report : ReplacementReport)
  | requestFailover (req : FailoverRequest)
  | recordApplication (report : ApplicationReport)
  | recordVerification (report : VerificationReport)
  | requestRollback (req : RollbackRequest)
  | resolveInterrupted (req : RevalidationRequest)
  | setPolicy (policy : FailoverPolicy)
  | setTopology (topology : TopologySnapshot)
  | checkpoint
  | close

inductive Answer where
  | status (s : Status)
  | decision (r : Result FailoverDecision)

def Engine.perform (e : Engine) : Operation → Engine × Answer
  | .publishFailure report => (e.publishFailureReport report).map id .status
  | .publishReplacement report => (e.publishReplacementReport report).map id .status
  | .requestFailover req => (e.requestFailover req).map id .decision
  | .recordApplication report => (e.recordApplication report).map id .decision
  | .recordVerification report => (e.recordVerification report).map id .decision
  | .requestRollback req => (e.requestRollback req).map id .decision
  | .resolveInterrupted req => (e.resolveInterrupted req).map id .decision
  | .setPolicy policy => (e.setPolicy policy).map id .status
  | .setTopology topology => (e.setTopology topology).map id .status
  | .checkpoint => e.checkpoint.map id .status
  | .close => e.close.map id .status

def Engine.performAll (e : Engine) (ops : List Operation) : Engine :=
  ops.foldl (fun e op => (e.perform op).1) e

/-- What a decoder has let through: a report within the bound of its confidence and with a declared
state, a policy with a declared rule, a revalidation with a declared verdict. -/
def Operation.Decoded : Operation → Prop
  | .publishFailure report => Plausible report.state report.confidence
  | .publishReplacement report => Plausible report.state report.confidence
  | .setPolicy policy => WireEnum.Declared policy.agreement
  | .resolveInterrupted req => WireEnum.Declared req.verdict
  | _ => True

/-! ## Systems -/

/-- How a process is started, and how its writes will end. -/
structure Boot where
  options : EngineOptions
  incarnation : Incarnation
  build : Engine.Build := {}
  appendFaults : List Fault := []
  checkpointFaults : List (Option CheckpointFault) := []

inductive Action where
  | start (b : Boot)
  | perform (op : Operation)
  | kill

/-- A directory, with the process that has it open. -/
inductive System where
  | down (m : Medium)
  | up (e : Engine)

/-- The medium under the scripts of a boot. -/
def Boot.medium (b : Boot) (m : Medium) : Medium :=
  { m with appendFaults := b.appendFaults, checkpointFaults := b.checkpointFaults }

def Boot.open (b : Boot) (m : Medium) : Medium × Result Engine :=
  Engine.openEngine b.options b.incarnation b.build (b.medium m)

namespace System

def medium : System → Medium
  | down m => m
  | up e => e.store.medium

def history (s : System) : List Event := s.medium.history

def step : System → Action → System
  | down m, .start b =>
    match b.open m with
    | (m, .error _) => down m
    | (_, .ok e) => up e
  | up e, .perform op => up (e.perform op).1
  | up e, .kill => down e.store.medium
  | s, _ => s

/-- A start whose open succeeds. -/
theorem step_started {m : Medium} {b : Boot} {e : Engine} (h : (b.open m).2 = .ok e) :
    step (down m) (.start b) = up e := by
  rw [step]
  revert h
  generalize b.open m = opened
  obtain ⟨m', r⟩ := opened
  intro h
  cases h
  rfl

/-- A start whose open fails leaves the directory as the open left it. -/
theorem step_refused {m : Medium} {b : Boot} {st : Status} (h : (b.open m).2 = .error st) :
    step (down m) (.start b) = down (b.open m).1 := by
  rw [step]
  revert h
  generalize b.open m = opened
  obtain ⟨m', r⟩ := opened
  intro h
  cases h
  rfl

def run (actions : List Action) : System := actions.foldl step (down {})

theorem run_append (actions : List Action) (a : Action) :
    run (actions ++ [a]) = (run actions).step a := by
  rw [run, List.foldl_append]
  rfl

end System

/-- Every operation of a run is one that a decoder has let through. -/
def Decoded (actions : List Action) : Prop :=
  ∀ op, Action.perform op ∈ actions → op.Decoded

/-- The rule of a policy that an engine installs and the verdict that it puts on an attempt are
declared. An operation that the checks of the engine turn away installs and puts nothing; neither
does one on a store that has failed. -/
def Engine.Declares (e : Engine) : Operation → Prop
  | .setPolicy policy => e.store.failed = false → policy.validate.isOk = true →
    e.state.policy.generation < policy.generation → WireEnum.Declared policy.agreement
  | .resolveInterrupted req => e.store.failed = false → req.observerIncarnation.isZero = false →
    req.observerEpoch = e.epoch →
    ∀ found, e.state.findAttempt req.subject req.attemptSeq = some found →
      found.phase = .interrupted → found.revalidated = false → WireEnum.Declared req.verdict
  | _ => True

theorem Operation.Decoded.declares {op : Operation} (h : op.Decoded) (e : Engine) :
    e.Declares op := by
  cases op with
  | setPolicy => exact fun _ _ _ => h
  | resolveInterrupted => exact fun _ _ _ _ _ _ _ => h
  | _ => trivial

/-- Every replacement report that the engine retains has a declared state and a confidence within
its bound. -/
def Engine.Ranged (e : Engine) : Prop :=
  ∀ b ∈ e.replacementEvidence.entries, ∀ r ∈ b.2.entries,
    Plausible r.2.report.state r.2.report.confidence

/-- No engine on the way of a run retains a report, installs a policy or takes a verdict whose values
a decoder would refuse. -/
structure Ranged (actions : List Action) : Prop where
  declared : ∀ before op e, before ++ [.perform op] <+: actions → System.run before = .up e →
    e.Declares op
  retained : ∀ before, before <+: actions → ∀ e, System.run before = .up e → e.Ranged

theorem Ranged.initial {actions before : List Action} (h : Ranged actions)
    (hb : before <+: actions) : Ranged before where
  declared front op e hp := h.declared front op e (hp.trans hb)
  retained front hp := h.retained front (hp.trans hb)

/-- An operation of a run, with the engine that performs it. -/
def Performs (actions : List Action) (e : Engine) (op : Operation) : Prop :=
  ∃ before after, actions = before ++ .perform op :: after ∧ System.run before = .up e

theorem Performs.append {actions : List Action} {e : Engine} {op : Operation}
    (h : Performs actions e op) (a : Action) : Performs (actions ++ [a]) e op := by
  obtain ⟨before, after, rfl, hrun⟩ := h
  exact ⟨before, after ++ [a], by simp, hrun⟩

theorem Performs.mem {actions : List Action} {e : Engine} {op : Operation}
    (h : Performs actions e op) : Action.perform op ∈ actions := by
  obtain ⟨before, after, rfl, -⟩ := h
  exact List.mem_append_right _ List.mem_cons_self

/-- An engine that a run leads to. -/
def Reachable (e : Engine) : Prop := ∃ actions, System.run actions = .up e

namespace System

/-- Whether a process is up, with an engine of this kind. -/
def serves (s : System) (p : Engine → Bool) : Bool :=
  match s with
  | down _ => false
  | up e => p e

theorem of_serves {s : System} {p : Engine → Bool} (h : s.serves p = true) :
    ∃ e, s = up e ∧ p e = true := by
  cases s with
  | down m => cases h
  | up e => exact ⟨e, rfl, h⟩

end System

/-- A request that is granted, and not from the idempotency index. -/
def Engine.Grants (e : Engine) (req : FailoverRequest) : Prop :=
  ∃ d, (e.requestFailover req).2 = .ok d ∧ d.kind = .grant ∧ d.idempotentReplay = false

def Engine.grants (e : Engine) (req : FailoverRequest) : Bool :=
  match (e.requestFailover req).2 with
  | .error _ => false
  | .ok d => decide (d.kind = .grant) && !d.idempotentReplay

theorem Engine.grants_iff {e : Engine} {req : FailoverRequest} :
    e.grants req = true ↔ e.Grants req := by
  unfold grants Grants
  split
  · rename_i h
    simp [h]
  · rename_i d h
    simp [h]

/-! ## A small fabric

Two links and one publisher that reports the first as down and the second as up. -/

namespace Sample

def name {Tag : Type} (c : UInt8) : StrongName Tag :=
  if h : isValidName [c] = true then ⟨[c], .inr h⟩ else .none

def primary : LinkKey := ⟨name 102, name 97⟩

def alternate : LinkKey := ⟨name 102, name 98⟩

def incarnation (n : UInt8) : Incarnation := ⟨List.replicate 16 n, rfl⟩

/-- The fabric in its `t`-th topology, with the primary link in its `g`-th generation. -/
def topology (t : TopologyGeneration) (g : LinkGeneration) : TopologySnapshot where
  generation := t
  links := [⟨primary, g, 10⟩, ⟨alternate, ⟨1⟩, 10⟩]

def options (policy : FailoverPolicy) (limits : EngineLimits) : EngineOptions where
  fabric := name 102
  policy := { policy with generation := ⟨1⟩ }
  topology := topology ⟨1⟩ ⟨1⟩
  limits := limits

def stamp (n : UInt64) : EvidenceStamp where
  publisher := name 112
  publisherIncarnation := incarnation 7
  observationSeq := ⟨n⟩

def down (t : TopologyGeneration) (g : LinkGeneration) (n : UInt64) : Operation :=
  .publishFailure
    { subject := primary
      linkGeneration := g
      topologyGeneration := t
      state := .down
      confidence := ⟨1000⟩
      stamp := stamp n }

def usable (t : TopologyGeneration) (n : UInt64) : Operation :=
  .publishReplacement
    { candidate := alternate
      linkGeneration := ⟨1⟩
      topologyGeneration := t
      state := .up
      confidence := ⟨1000⟩
      capacityUnits := 10
      adjacencyAuthorized := true
      stamp := stamp n }

def request (g : LinkGeneration) : FailoverRequest where
  subject := primary
  subjectGeneration := g
  candidates := [⟨alternate, .zero⟩]

def key : Digest := ⟨List.replicate 32 1, rfl⟩

/-- A request for the primary link, under a key. -/
def keyed (g : LinkGeneration) : FailoverRequest := { request g with idempotencyKey := key }

/-- A process that knows that the primary link is down and the alternate up. -/
def booted (policy : FailoverPolicy) (limits : EngineLimits) : List Action :=
  [.start { options := options policy limits, incarnation := incarnation 1 },
    .perform (down ⟨1⟩ ⟨1⟩ 1), .perform (usable ⟨1⟩ 1)]

/-- A process that has granted a failover. -/
def grantedOnce : List Action :=
  booted {} {} ++ [.perform (.requestFailover (request ⟨1⟩))]

/-- The answer of an applier to an attempt. -/
def applied (r : AttemptRecord) (accepted : Bool) : ApplicationReport where
  subject := r.subject
  subjectGeneration := r.subjectGeneration
  attemptSeq := r.attemptSeq
  attemptId := r.attemptId
  applierIncarnation := incarnation 8
  accepted := accepted

/-- The process that is started behind another one. -/
def again : Boot := { options := options {} {}, incarnation := incarnation 2 }

end Sample

/-! ## Invariants of runs -/

def System.Ok (wire : Prop) : System → Prop
  | down m => MediumOk wire m
  | up e => EngineOk wire e

section Performing

variable {wire : Prop} {e : Engine}

/-- A publication leaves the store alone. -/
theorem EngineOk.published {e' : Engine} (h : EngineOk wire e) (hm : Unmoved e e')
    (hf : ∀ {l p x}, EvidenceTable.Has e'.failureEvidence l p x →
      x.report.subject = l ∧ x.report.stamp.publisher = p)
    (hr : ∀ {l p x}, EvidenceTable.Has e'.replacementEvidence l p x →
      (x.report.candidate = l ∧ x.report.stamp.publisher = p) ∧
        (wire → Plausible x.report.state x.report.confidence)) : EngineOk wire e' where
  trace := by rw [hm.store]; exact h.trace
  store := by rw [hm.store]; exact h.store
  options := by rw [hm.store, hm.options]; exact h.options
  fabric := by rw [hm.options]; exact h.fabric
  closed := by rw [hm.closed, hm.store]; exact h.closed
  shut := by rw [Engine.state, hm.closed, hm.store]; exact h.shut
  epoch := by rw [hm.closed, hm.epoch, Engine.state, hm.store]; exact h.epoch
  coordinator := by rw [hm.closed, hm.incarnation, Engine.state, hm.store]; exact h.coordinator
  evidence hw b hb r hx := (hr ⟨b, hb, rfl, hx⟩).2 hw
  failures := hf
  replacements hx := (hr hx).1
  stops := by rw [Engine.Stops, hm.store, hm.storeFailed, hm.closed]; exact h.stops
  keyed := by rw [hm.store]; exact h.keyed

theorem EngineOk.retained (h : EngineOk wire e) {l : LinkKey} {p : PublisherName}
    {x : RetainedReplacementEvidence} (hx : EvidenceTable.Has e.replacementEvidence l p x) :
    (x.report.candidate = l ∧ x.report.stamp.publisher = p) ∧
      (wire → Plausible x.report.state x.report.confidence) := by
  refine ⟨h.replacements hx, fun hw => ?_⟩
  obtain ⟨b, hb, -, hm⟩ := hx
  exact h.evidence hw b hb _ hm

theorem EngineOk.publishFailure (h : EngineOk wire e) (report : FailureReport) :
    EngineOk wire (e.publishFailureReport report).1 := by
  obtain ⟨hm, hf, hr⟩ := e.publishFailureReport_adds report
  refine h.published hm (fun hx => ?_) fun hx => h.retained (hr hx)
  rcases hf.has hx with hold | ⟨rfl, rfl, hnew⟩
  · exact h.failures hold
  · rw [hnew]
    exact ⟨rfl, rfl⟩

theorem EngineOk.publishReplacement (h : EngineOk wire e) (report : ReplacementReport)
    (hw : wire → Plausible report.state report.confidence) :
    EngineOk wire (e.publishReplacementReport report).1 := by
  obtain ⟨hm, hr, hf⟩ := e.publishReplacementReport_adds report
  refine h.published hm (fun hx => h.failures (hf hx)) fun hx => ?_
  rcases hr.has hx with hold | ⟨rfl, rfl, hnew⟩
  · exact h.retained hold
  · rw [hnew]
    exact ⟨⟨rfl, rfl⟩, hw⟩

/-- Every operation but a publication and the close is a path. -/
theorem perform_leads (h : EngineOk wire e) (op : Operation) (hw : wire → e.Declares op) :
    Leads wire e .serving (e.perform op).1 .serving ∨
      (∃ report, op = .publishFailure report) ∨ (∃ report, op = .publishReplacement report) ∨
        op = .close := by
  cases op with
  | publishFailure report => exact .inr (.inl ⟨report, rfl⟩)
  | publishReplacement report => exact .inr (.inr (.inl ⟨report, rfl⟩))
  | requestFailover req => exact .inl (Engine.requestFailover_leads h req)
  | recordApplication report => exact .inl (Engine.recordApplication_leads report)
  | recordVerification report => exact .inl (Engine.recordVerification_leads report)
  | requestRollback req => exact .inl (Engine.requestRollback_leads h req)
  | resolveInterrupted req => exact .inl (Engine.resolveInterrupted_leads h hw)
  | setPolicy policy => exact .inl (Engine.setPolicy_leads h hw)
  | setTopology topology => exact .inl (Engine.setTopology_leads h topology)
  | checkpoint => exact .inl Engine.checkpoint_leads
  | close => exact .inr (.inr (.inr rfl))

/-- Every operation but a publication keeps what is not in the store, also the close. -/
theorem perform_keeps (h : EngineOk wire e) (op : Operation) :
    Keeps e (e.perform op).1 ∨
      (∃ report, op = .publishFailure report) ∨ ∃ report, op = .publishReplacement report := by
  rcases perform_leads h.plain op False.elim with hl | hf | hr | rfl
  · exact .inl hl.keeps
  · exact .inr (.inl hf)
  · exact .inr (.inr hr)
  · exact .inl Engine.close_keeps

/-- No operation changes what a process was started with. -/
theorem perform_process (h : EngineOk wire e) (op : Operation) :
    (e.perform op).1.options = e.options ∧ (e.perform op).1.incarnation = e.incarnation ∧
      (e.perform op).1.epoch = e.epoch := by
  rcases perform_keeps h op with hk | ⟨report, rfl⟩ | ⟨report, rfl⟩
  · exact ⟨hk.options, hk.incarnation, hk.epoch⟩
  · obtain ⟨hm, -⟩ := e.publishFailureReport_adds report
    exact ⟨hm.options, hm.incarnation, hm.epoch⟩
  · obtain ⟨hm, -⟩ := e.publishReplacementReport_adds report
    exact ⟨hm.options, hm.incarnation, hm.epoch⟩

/-- What an operation does to the store is a path, and the first close lets go of the store behind
it. A publication stays where it is. -/
theorem perform_path (h : EngineOk wire e) (op : Operation) (hw : wire → e.Declares op) :
    ∃ s, Path wire (e.store, .serving) (s, .serving) ∧
      ((e.perform op).1.store = s ∧ (e.perform op).1.closed = e.closed ∨
        op = .close ∧ e.closed = false ∧ (e.perform op).1.store = s.close ∧
          (e.perform op).1.closed = true) := by
  rcases perform_leads h op hw with hl | ⟨report, rfl⟩ | ⟨report, rfl⟩ | rfl
  · exact ⟨_, hl.path, .inl ⟨rfl, hl.closed⟩⟩
  · obtain ⟨hm, -⟩ := e.publishFailureReport_adds report
    exact ⟨_, .refl, .inl ⟨hm.store, hm.closed⟩⟩
  · obtain ⟨hm, -⟩ := e.publishReplacementReport_adds report
    exact ⟨_, .refl, .inl ⟨hm.store, hm.closed⟩⟩
  · obtain ⟨s, hpath, hs | ⟨hs, hclosed, hopen⟩⟩ := @Engine.close_path wire e
    · exact ⟨s, hpath, .inl hs⟩
    · exact ⟨s, hpath, .inr ⟨rfl, hopen, hs, hclosed⟩⟩

theorem EngineOk.perform (h : EngineOk wire e) (op : Operation) (hw : wire → op.Decoded) :
    EngineOk wire (e.perform op).1 := by
  rcases perform_leads h op fun hx => (hw hx).declares e with
    hl | ⟨report, rfl⟩ | ⟨report, rfl⟩ | rfl
  · exact h.leads hl
  · exact h.publishFailure report
  · exact h.publishReplacement report hw
  · exact Engine.close_ok h

/-- What no decoder has seen is no matter as long as nothing of it is installed or retained. -/
theorem EngineOk.performRanged (h : EngineOk wire e) {op : Operation}
    (hd : wire → e.Declares op) (hr : wire → (e.perform op).1.Ranged) :
    EngineOk wire (e.perform op).1 := by
  rcases perform_leads h op hd with hl | ⟨report, rfl⟩ | ⟨report, rfl⟩ | rfl
  · exact h.leads hl
  · exact h.publishFailure report
  · have hplain := h.plain.publishReplacement report False.elim
    have htrace : Trace wire (e.publishReplacementReport report).1.store.medium.history
        ((e.publishReplacementReport report).1.store.phase .serving) := by
      rw [(e.publishReplacementReport_adds report).1.store]
      exact h.trace
    exact { hplain with trace := htrace, evidence := hr }
  · exact Engine.close_ok h

end Performing

namespace System

variable {wire : Prop}

theorem step_ok {s : System} (h : s.Ok wire) (a : Action)
    (hw : wire → ∀ op, a = .perform op → op.Decoded) : (s.step a).Ok wire := by
  cases s with
  | down m =>
    cases a with
    | start b =>
      have hm : MediumOk wire (b.medium m) := ⟨h.trace, h.represents⟩
      obtain ⟨h1, h2⟩ :=
        @openEngine_outcome wire b.options b.incarnation b.build _ hm
      rw [step, Boot.open]
      revert h1 h2
      generalize Engine.openEngine b.options b.incarnation b.build (b.medium m) = result
      obtain ⟨m', r⟩ := result
      intro h1 h2
      cases r with
      | error _ => exact h1
      | ok e => exact (h2 e rfl).1
    | perform | kill => exact h
  | up e =>
    cases a with
    | start => exact h
    | perform op => exact EngineOk.perform h op fun hx => hw hx op rfl
    | kill => exact mediumOk_stopped h.trace h.store

/-- The trace and the bytes of a directory stay in step in every run. -/
theorem run_ok {actions : List Action} (hw : wire → Decoded actions) : (run actions).Ok wire := by
  induction actions using List.reverseRecOn with
  | nil => exact ⟨.empty, represents_empty⟩
  | append_singleton actions a ih =>
    rw [run_append]
    refine step_ok (ih fun hx op hm => hw hx op (List.mem_append_left _ hm)) a ?_
    rintro hx op rfl
    exact hw hx op (List.mem_append_right _ List.mem_cons_self)

theorem run_ok_of_ranged {actions : List Action} (hw : wire → Ranged actions) :
    (run actions).Ok wire := by
  induction actions using List.reverseRecOn with
  | nil => exact ⟨.empty, represents_empty⟩
  | append_singleton actions a ih =>
    have hok := ih fun hx => (hw hx).initial (List.prefix_append _ _)
    rw [run_append]
    cases a with
    | start | kill => exact step_ok hok _ fun _ _ hop => by cases hop
    | perform op =>
      cases hs : run actions with
      | down m =>
        rw [hs] at hok
        exact hok
      | up e =>
        rw [hs] at hok
        refine EngineOk.performRanged hok (fun hx => ?_) fun hx => ?_
        · exact (hw hx).declared actions op e List.prefix_rfl hs
        · exact (hw hx).retained _ List.prefix_rfl _ (by rw [run_append, hs]; rfl)

/-- A step only adds to the history. -/
theorem step_history {s : System} (h : s.Ok wire) (a : Action) :
    s.history <+: (s.step a).history := by
  cases s with
  | down m =>
    cases a with
    | start b =>
      have hm : MediumOk wire (b.medium m) := ⟨h.trace, h.represents⟩
      have hh := @openEngine_history wire b.options b.incarnation b.build _ hm
      have ho := (@openEngine_outcome wire b.options b.incarnation b.build _ hm).2
      rw [step, Boot.open]
      revert hh ho
      generalize Engine.openEngine b.options b.incarnation b.build (b.medium m) = result
      obtain ⟨m', r⟩ := result
      intro hh ho
      cases r with
      | error _ => exact hh
      | ok e =>
        obtain ⟨-, -, hmedium⟩ := ho e rfl
        change m.history <+: e.store.medium.history
        rw [hmedium]
        exact hh
    | perform | kill => exact List.prefix_rfl
  | up e =>
    cases a with
    | perform op =>
      have hok : EngineOk wire e := h
      change e.store.medium.history <+: (e.perform op).1.store.medium.history
      obtain ⟨s, hpath, ⟨hs, -⟩ | ⟨-, -, hs, -⟩⟩ :=
        perform_path hok.plain op False.elim
      · rw [hs]
        exact hpath.history
      · rw [hs]
        exact hpath.history
    | start | kill => exact List.prefix_rfl

/-- The history of a run is a trace. -/
theorem run_trace {actions : List Action} (hw : wire → Decoded actions) :
    ∃ phase, Trace wire (run actions).history phase := by
  have h := run_ok hw
  revert h
  generalize run actions = s
  intro h
  cases s with
  | down m => exact ⟨_, h.trace⟩
  | up e => exact ⟨_, EngineOk.trace h⟩

end System

/-- What holds of an engine that a run leads to, whatever reports it was given. -/
theorem Reachable.ok {e : Engine} (h : Reachable e) : EngineOk False e := by
  obtain ⟨actions, ha⟩ := h
  have := @System.run_ok False actions False.elim
  rwa [ha] at this

/-- What came through the decoders is within its bounds wherever it is retained. -/
theorem Decoded.ranged {actions : List Action} (h : Decoded actions) : Ranged actions where
  declared before op e hp _ := by
    refine (h op (hp.subset ?_)).declares e
    exact List.mem_append_right _ List.mem_cons_self
  retained := by
    rintro before ⟨after, rfl⟩ e he
    have hok := @System.run_ok True before fun _ op hm => h op (List.mem_append_left _ hm)
    rw [he] at hok
    exact EngineOk.evidence hok trivial

theorem Reachable.perform {e : Engine} (h : Reachable e) (op : Operation) :
    Reachable (e.perform op).1 := by
  obtain ⟨actions, ha⟩ := h
  exact ⟨actions ++ [.perform op], by rw [System.run_append, ha]; rfl⟩

end LinkFailover
