import LinkFailover.Operations
import LinkFailover.Lib.Widths

/-!
# Without the publishers' clocks

Every report carries a reading of its publisher's clock. The engine stores it with the report and
hashes it into the digest of the evidence, which is copied into assessments, authority vectors,
attempts and decisions. `timeless` takes the readings and these digests out again, from each kind of
value that holds them. What the engine makes of a state is, without them, what it makes of the state
without them.

* `length_timeless`: records are equally long without them.
* `planFailover_timeless`: so are the plans of requests.
-/

namespace LinkFailover

open Codec

/-! ## Values without clocks -/

def EvidenceStamp.timeless (s : EvidenceStamp) : EvidenceStamp := { s with wallClockMs := 0 }

def FailureReport.timeless (r : FailureReport) : FailureReport :=
  { r with stamp := r.stamp.timeless }

def ReplacementReport.timeless (r : ReplacementReport) : ReplacementReport :=
  { r with stamp := r.stamp.timeless }

/-- A retained report without its digest. -/
def Retained.timeless {Report : Type} (f : Report → Report) (x : Retained Report) :
    Retained Report :=
  { x with report := f x.report, digest := .zero 32 }

def EvidenceTable.timeless {Report : Type} (f : Report → Report) (t : EvidenceTable Report) :
    EvidenceTable Report :=
  SortedMap.map (SortedMap.map (Retained.timeless f)) t

def AuthorityVector.timeless (v : AuthorityVector) : AuthorityVector :=
  { v with evidenceDigest := .zero 32 }

def CandidateAssessment.timeless (a : CandidateAssessment) : CandidateAssessment :=
  { a with evidenceDigest := .zero 32 }

def AttemptRecord.timeless (r : AttemptRecord) : AttemptRecord :=
  { r with authority := r.authority.timeless, evidenceDigest := .zero 32 }

def FailoverDecision.timeless (d : FailoverDecision) : FailoverDecision :=
  { d with
    authority := d.authority.timeless
    evidenceDigest := .zero 32
    candidates := d.candidates.map CandidateAssessment.timeless }

def Payload.timeless : Payload → Payload
  | .attempt w r => .attempt w r.timeless
  | .decision d => .decision d.timeless
  | p => p

def DurableState.timeless (d : DurableState) : DurableState :=
  { d with attempts := d.attempts.map AttemptRecord.timeless }

def Event.timeless : Event → Event
  | .opened o => .opened o
  | .replayed seq p before after => .replayed seq p.timeless before.timeless after.timeless
  | .committed seq p before after acknowledged =>
    .committed seq p.timeless before.timeless after.timeless acknowledged
  | .checkpointed d rotated => .checkpointed d.timeless rotated

/-! ## Encodings -/

theorem AuthorityVector.even_timeless (v : AuthorityVector) :
    Writer.Even v.timeless.encode v.encode := by
  refine .cons (.self (.u16 _)) ?_
  refine .cons (.self (.name _)) ?_
  refine .cons (.self (.name _)) ?_
  refine .cons (.self (.name _)) ?_
  refine .cons (.self (.uint _)) ?_
  refine .cons (.self (.name _)) ?_
  refine .cons (.self (.name _)) ?_
  refine .cons (.self (.uint _)) ?_
  refine .cons (.self (.uint _)) ?_
  refine .cons (.self (.fixed _)) ?_
  refine .cons (.self (.uint _)) ?_
  refine .cons (.self (.fixed _)) ?_
  refine .cons (.self (.uint _)) ?_
  refine .cons (.self (.fixed _)) ?_
  refine .cons (.self (.name _)) ?_
  refine .cons (.self (.fixed _)) ?_
  refine .cons (.self (.uint _)) ?_
  refine .cons (.self (.fixed _)) ?_
  refine .cons (.self (.uint _)) ?_
  exact .cons (.fixed _ _) .nil

theorem AttemptRecord.even_timeless (r : AttemptRecord) :
    Writer.Even r.timeless.encode r.encode := by
  refine .cons (.self (.u16 _)) ?_
  refine .cons (.self (.name _)) ?_
  refine .cons (.self (.name _)) ?_
  refine .cons (.self (.uint _)) ?_
  refine .cons (.self (.uint _)) ?_
  refine .cons (.self (.fixed _)) ?_
  refine .cons (.self (.fixed _)) ?_
  refine .cons (.self (.u16 _)) ?_
  refine .cons (.self (.name _)) ?_
  refine .cons (.self (.name _)) ?_
  refine .cons (.self (.uint _)) ?_
  refine .cons r.authority.even_timeless ?_
  refine .cons (.fixed _ _) ?_
  refine .cons (.self (.u64 _)) ?_
  refine .cons (.self (.uint _)) ?_
  refine .cons (.self (.fixed _)) ?_
  refine .cons (.self (.uint _)) ?_
  refine .cons (.self (.uint _)) ?_
  refine .cons (.self (.option _ .fixed)) ?_
  refine .cons (.self (.fixed _)) ?_
  refine .cons (.self (.bool8 _)) ?_
  refine .cons (.self (.u16 _)) ?_
  refine .cons (.self (.u32 _)) ?_
  exact .cons (.self (.each _ fun x _ => x.roundTrip)) .nil

theorem CandidateAssessment.even_timeless (a : CandidateAssessment) :
    Writer.Even a.timeless.encode a.encode := by
  refine .cons (.self (.name _)) ?_
  refine .cons (.self (.name _)) ?_
  refine .cons (.self (.uint _)) ?_
  refine .cons (.self (.u16 _)) ?_
  refine .cons (.self (.u16 _)) ?_
  refine .cons (.blob _ _) ?_
  refine .cons (.self (.u16 _)) ?_
  refine .cons (.self (.u32 _)) ?_
  refine .cons (.self (.u16 _)) ?_
  refine .cons (.self (.u64 _)) ?_
  refine .cons (.self (.u32 _)) ?_
  refine .cons (.self (.u32 _)) ?_
  refine .cons (.self (.bool8 _)) ?_
  exact .cons (.fixed _ _) .nil

theorem FailoverDecision.even_timeless (d : FailoverDecision) :
    Writer.Even d.timeless.encode d.encode := by
  have hcount : d.timeless.candidates.length = d.candidates.length := List.length_map _
  unfold FailoverDecision.encode
  rw [hcount]
  refine .cons (.self (.u16 _)) ?_
  refine .cons (.self (.fixed _)) ?_
  refine .cons (.self (.u16 _)) ?_
  refine .cons (.self (.u16 _)) ?_
  refine .cons (.self (.u16 _)) ?_
  refine .cons (.self (.name _)) ?_
  refine .cons (.self (.name _)) ?_
  refine .cons (.self (.name _)) ?_
  refine .cons (.self (.uint _)) ?_
  refine .cons (.self (.optionMap _ _ ReplacementField.roundTrip)) ?_
  refine .cons (.self (.uint _)) ?_
  refine .cons (.self (.fixed _)) ?_
  refine .cons (.self (.uint _)) ?_
  refine .cons (.self (.fixed _)) ?_
  refine .cons d.authority.even_timeless ?_
  refine .cons (.fixed _ _) ?_
  refine .cons (.self (.uint _)) ?_
  refine .cons (.self (.bool8 _)) ?_
  refine .cons (.self (.bool8 _)) ?_
  refine .cons (.cons (.self (.u32 _)) (.cons (.self (.each _ fun x _ => x.roundTrip)) .nil)) ?_
  refine .cons (.self (.u32 _)) ?_
  exact .cons (.each _ CandidateAssessment.even_timeless _) .nil

theorem Payload.length_timeless (p : Payload) : p.timeless.bytes.length = p.bytes.length := by
  cases p with
  | attempt w r => exact r.even_timeless.length_run
  | decision d => exact d.even_timeless.length_run
  | _ => rfl

theorem encodeSnapshotEntry_even (e : IdempotencyEntry) :
    Writer.Even (DurableState.encodeSnapshotEntry e) (DurableState.encodeSnapshotEntry e) := by
  refine .cons (.self (.u16 _)) ?_
  exact .cons (.blob _ _) .nil

theorem DurableState.even_timeless (d : DurableState) :
    Writer.Even d.timeless.encode d.encode := by
  have hcounters : d.timeless.counters = d.counters := by
    unfold DurableState.counters DurableState.timeless
    rw [List.length_map]
  have hlinks : Writer.Even d.topology.encode d.topology.encode := by
    refine .cons (.self (.u16 _)) ?_
    refine .cons (.self (.uint _)) ?_
    refine .cons (.self (.u32 _)) ?_
    exact .cons (.self (.each _ fun x _ => x.roundTrip)) .nil
  have hentries := Writer.Even.each id encodeSnapshotEntry_even d.idempotency
  rw [List.map_id] at hentries
  unfold DurableState.encode
  rw [hcounters]
  have hpolicy : Writer.Even d.policy.encode d.policy.encode := .of_appends d.policy.appends
  refine .cons (.cons (.self (.u16 _)) (.cons (.self (.name _)) (.cons hpolicy .nil))) ?_
  refine .cons hlinks ?_
  refine .cons (.self d.counters.roundTrip) ?_
  refine .cons (.each _ AttemptRecord.even_timeless _) ?_
  refine .cons (.self (.each _ fun x _ => x.roundTrip)) ?_
  exact .cons hentries .nil

/-- The snapshot of a state is refused, or it is as long as the one of the state without
clocks. -/
theorem DurableState.serialise_timeless (d : DurableState) :
    d.timeless.serialise.map List.length = d.serialise.map List.length := by
  have hlevel := d.even_timeless {} {} ⟨rfl, rfl⟩
  unfold DurableState.serialise
  rw [hlevel.ok]
  change (if d.idempotency.any _ then _ else _ : Result Bytes).map _ = _
  split
  · rfl
  split
  · rfl
  · exact congrArg Except.ok hlevel.length

/-! ## Tables -/

namespace DurableState

variable {d : DurableState} {subject : LinkKey} {generation : LinkGeneration}

theorem noteAttempt_timeless (o : StoreOptions) (r : AttemptRecord) (d : DurableState) :
    (d.noteAttempt o r).timeless = d.timeless.noteAttempt o r.timeless := by
  have hu : (upsertAttempt r d.attempts).map AttemptRecord.timeless =
      upsertAttempt r.timeless (d.attempts.map AttemptRecord.timeless) :=
    BoundedTable.map_upsert _ fun _ => rfl
  have he : (evictAttempts o (upsertAttempt r d.attempts)).map AttemptRecord.timeless =
      evictAttempts o ((upsertAttempt r d.attempts).map AttemptRecord.timeless) :=
    BoundedTable.map_evict _ (fun _ _ => rfl) fun _ => rfl
  unfold DurableState.noteAttempt DurableState.timeless
  rw [he, hu]

theorem findAttempt_timeless (d : DurableState) (subject : LinkKey) (seq : AttemptSeq) :
    d.timeless.findAttempt subject seq = (d.findAttempt subject seq).map AttemptRecord.timeless := by
  unfold findAttempt DurableState.timeless
  rw [List.find?_map]
  rfl

theorem countAttempts_timeless :
    d.timeless.countAttempts subject generation = d.countAttempts subject generation := by
  unfold countAttempts DurableState.timeless
  rw [List.countP_map]
  rfl

theorem foldl_later_timeless (xs : List AttemptRecord) (found : Option AttemptRecord) :
    (xs.map AttemptRecord.timeless).foldl laterAttempt (found.map AttemptRecord.timeless) =
      (xs.foldl laterAttempt found).map AttemptRecord.timeless := by
  induction xs generalizing found with
  | nil => rfl
  | cons x xs ih =>
    rw [List.map_cons, List.foldl_cons, List.foldl_cons, ← ih]
    congr 1
    cases found with
    | none => rfl
    | some f =>
      change (if f.attemptSeq < x.attemptSeq then _ else _) = _
      unfold laterAttempt
      dsimp only
      split <;> rfl

theorem latestAttempt_timeless : d.timeless.latestAttempt subject generation =
    (d.latestAttempt subject generation).map AttemptRecord.timeless := by
  unfold latestAttempt DurableState.timeless
  rw [List.filter_map]
  exact foldl_later_timeless _ none

theorem activeAuthority_timeless : d.timeless.activeAuthority subject generation =
    (d.activeAuthority subject generation).map AttemptRecord.timeless := by
  unfold activeAuthority DurableState.timeless
  rw [List.filter_map]
  exact foldl_later_timeless _ none

end DurableState

/-! ## Selection -/

def ResolvedCandidate.timeless (r : ResolvedCandidate) : ResolvedCandidate :=
  { r with report := r.report.timeless, evidenceDigest := .zero 32 }

def SelectionInput.timeless (input : SelectionInput) : SelectionInput :=
  { input with candidates := input.candidates.map ResolvedCandidate.timeless }

def SelectionOutcome.timeless (outcome : SelectionOutcome) : SelectionOutcome :=
  { outcome with assessments := outcome.assessments.map CandidateAssessment.timeless }

theorem bestIndex_timeless (xs : List CandidateAssessment) :
    bestIndex (xs.map CandidateAssessment.timeless) = bestIndex xs := by
  have h : ∀ (xs : List CandidateAssessment) (n : Nat) (best : Option (Nat × ObjectiveKey)),
      ((xs.map CandidateAssessment.timeless).zipIdx n).foldl betterIndex best =
        (xs.zipIdx n).foldl betterIndex best := by
    intro xs
    induction xs with
    | nil => exact fun _ _ => rfl
    | cons x xs ih =>
      intro n best
      rw [List.map_cons, List.zipIdx_cons, List.zipIdx_cons, List.foldl_cons, List.foldl_cons, ih]
      rfl
  unfold bestIndex
  rw [h]

theorem selectReplacement_timeless (input : SelectionInput) :
    selectReplacement input.timeless = (selectReplacement input).timeless := by
  have hsort : (BoundedTable.sortBy CandidateAssessment.less
      (input.candidates.map (assess input))).map CandidateAssessment.timeless =
        BoundedTable.sortBy CandidateAssessment.less
          (input.timeless.candidates.map (assess input.timeless)) := by
    have hmap : (BoundedTable.sortBy CandidateAssessment.less
        (input.candidates.map (assess input))).map CandidateAssessment.timeless =
          BoundedTable.sortBy CandidateAssessment.less
            ((input.candidates.map (assess input)).map CandidateAssessment.timeless) :=
      BoundedTable.map_sortBy _ fun _ _ => rfl
    rw [hmap, SelectionInput.timeless, List.map_map, List.map_map]
    rfl
  have hempty : input.timeless.candidates.isEmpty = input.candidates.isEmpty := by
    rw [SelectionInput.timeless, List.isEmpty_map]
  unfold selectReplacement
  rw [hempty]
  split
  · rfl
  dsimp only
  rw [← hsort]
  generalize BoundedTable.sortBy CandidateAssessment.less (input.candidates.map (assess input)) = xs
  have hcount : ∀ p : Verdict → Bool, (xs.map CandidateAssessment.timeless).countP (p ·.verdict) =
      xs.countP (p ·.verdict) := by
    intro p
    rw [List.countP_map]
    rfl
  rw [hcount fun v => v = .eligible, hcount fun v => v = .disproven, hcount Verdict.undecided,
    bestIndex_timeless]
  split
  · split <;> rfl
  · split <;> rfl

theorem any_timeless (input : SelectionInput) {p : ResolvedCandidate → Bool}
    (h : ∀ r, p (ResolvedCandidate.timeless r) = p r) :
    input.timeless.candidates.any p = input.candidates.any p := by
  rw [SelectionInput.timeless, List.any_map]
  congr 1
  exact funext h

theorem validateAssessment_timeless (input : SelectionInput) (a : CandidateAssessment) :
    validateAssessment input.timeless a.timeless = validateAssessment input a := by
  unfold validateAssessment
  rw [any_timeless input fun _ => rfl]
  rfl

theorem selected_timeless (outcome : SelectionOutcome) :
    (outcome.timeless.selectedIndex.bind fun i => outcome.timeless.assessments[i]?) =
      (outcome.selectedIndex.bind fun i => outcome.assessments[i]?).map
        CandidateAssessment.timeless := by
  cases hi : outcome.selectedIndex with
  | none => simp only [SelectionOutcome.timeless, hi, Option.bind_none, Option.map_none]
  | some i => simp only [SelectionOutcome.timeless, hi, Option.bind_some, List.getElem?_map]

theorem validateSelected_timeless (input : SelectionInput) (outcome : SelectionOutcome) :
    validateSelected input.timeless outcome.timeless = validateSelected input outcome := by
  unfold validateSelected
  rw [selected_timeless]
  cases (outcome.selectedIndex.bind fun i => outcome.assessments[i]?) with
  | none => rfl
  | some chosen =>
    dsimp only [Option.map_some]
    rw [SelectionOutcome.timeless, List.any_map]
    rfl

theorem validateSelection_timeless (input : SelectionInput) (outcome : SelectionOutcome) :
    validateSelection input.timeless outcome.timeless = validateSelection input outcome := by
  have hlength : outcome.timeless.assessments.length = outcome.assessments.length :=
    List.length_map _
  have hlength' : input.timeless.candidates.length = input.candidates.length := List.length_map _
  have hlinks : input.timeless.candidates.map (·.candidate) = input.candidates.map (·.candidate) := by
    rw [SelectionInput.timeless, List.map_map]
    rfl
  have hfind : (outcome.timeless.assessments.find? fun a =>
      !(validateAssessment input.timeless a).isOk) =
        (outcome.assessments.find? fun a => !(validateAssessment input a).isOk).map
          CandidateAssessment.timeless := by
    rw [SelectionOutcome.timeless, List.find?_map]
    congr 2
    funext a
    rw [Function.comp_apply, validateAssessment_timeless]
  have hstatus : validateStatus input.timeless outcome.timeless = validateStatus input outcome := by
    unfold validateStatus
    rw [validateSelected_timeless, SelectionInput.timeless, List.isEmpty_map]
    rfl
  unfold validateSelection
  rw [hlength, hlength', hlinks, hfind, hstatus]
  split
  · rfl
  split
  · rfl
  cases (outcome.assessments.find? fun a => !(validateAssessment input a).isOk) with
  | none => rfl
  | some a => exact validateAssessment_timeless input a

/-! ## Engines -/

/-- The store without its medium and without clocks. -/
def LineageStore.timeless (s : LineageStore) : LineageStore :=
  { s with state := s.state.timeless, medium := {} }

namespace Engine

/-- The engine without its medium and without clocks. -/
def timeless (e : Engine) : Engine :=
  { e with
    store := e.store.timeless
    decisions := e.decisions.map FailoverDecision.timeless
    failureEvidence := e.failureEvidence.timeless FailureReport.timeless
    replacementEvidence := e.replacementEvidence.timeless ReplacementReport.timeless }

end Engine

def FailureVerdict.timeless (v : FailureVerdict) : FailureVerdict :=
  { v with evidenceDigest := .zero 32 }

/-- A tally whose best observation is without clocks. -/
def FailureTally.timeless (t : FailureTally) : FailureTally :=
  { t with best := t.best.map fun b => (b.1.timeless FailureReport.timeless, b.2) }

theorem FailureTally.add_timeless (t : FailureTally) (p : PublisherName)
    (x : RetainedFailureEvidence) (f : FailureFinding) :
    t.timeless.add p (x.timeless FailureReport.timeless) f = (t.add p x f).timeless := by
  cases f with
  | qualified failed age =>
    cases failed with
    | false => rfl
    | true =>
      cases hb : t.best with
      | none => simp only [FailureTally.add, FailureTally.timeless, hb, Option.map_none, Option.map_some]
      | some b =>
        obtain ⟨best, bestAge⟩ := b
        have hp : preferred (·.stamp) (·.confidence) p (x.timeless FailureReport.timeless) age
            (best.timeless FailureReport.timeless) bestAge =
              preferred (·.stamp) (·.confidence) p x age best bestAge := rfl
        simp only [FailureTally.add, FailureTally.timeless, hb, Option.map_some]
        rw [hp]
        split <;> rfl
  | _ => rfl

theorem FailureTally.verdict_timeless (t : FailureTally) (rule : AgreementRule) :
    t.timeless.verdict rule = (t.verdict rule).timeless := by
  have hqualified : t.timeless.qualified = t.qualified := rfl
  unfold FailureTally.verdict
  rw [hqualified]
  by_cases hq : t.qualified = 0
  · rw [if_pos hq, if_pos hq]
    rfl
  rw [if_neg hq, if_neg hq]
  have hagrees : t.timeless.agrees rule = t.agrees rule := rfl
  have hconflicts : t.timeless.conflicts rule = t.conflicts rule := rfl
  rw [hagrees, hconflicts]
  cases ha : t.agrees rule with
  | false =>
    dsimp only
    split <;> rfl
  | true =>
    cases hb : t.best with
    | none =>
      simp only [FailureTally.timeless, hb, Option.map_none]
      split <;> rfl
    | some b =>
      simp only [FailureTally.timeless, hb, Option.map_some]
      rfl

namespace Engine

variable {e : Engine} {req : FailoverRequest} {d : FailoverDecision}

theorem failureBucket_timeless (subject : LinkKey) : e.timeless.failureBucket subject =
    (e.failureBucket subject).map fun x => (x.1, x.2.timeless FailureReport.timeless) := by
  unfold failureBucket
  change ((SortedMap.find? (SortedMap.map _ e.failureEvidence) subject).map _).getD [] = _
  rw [SortedMap.find?_map]
  cases SortedMap.find? e.failureEvidence subject <;> rfl

theorem evaluateFailure_timeless (subject : LinkKey) (generation : LinkGeneration) :
    e.timeless.evaluateFailure subject generation =
      (e.evaluateFailure subject generation).timeless := by
  have hfold : ∀ (xs : List (PublisherName × RetainedFailureEvidence)) (t : FailureTally),
      (xs.map fun x => (x.1, x.2.timeless FailureReport.timeless)).foldl
          (fun t x => t.add x.1 x.2 (e.timeless.failureFinding generation x.1 x.2)) t.timeless =
        (xs.foldl (fun t x => t.add x.1 x.2 (e.failureFinding generation x.1 x.2)) t).timeless := by
    intro xs
    induction xs with
    | nil => exact fun _ => rfl
    | cons x xs ih =>
      intro t
      rw [List.map_cons, List.foldl_cons, List.foldl_cons, ← ih, ← FailureTally.add_timeless]
      rfl
  have htally : e.timeless.failureTally subject generation =
      (e.failureTally subject generation).timeless := by
    unfold failureTally
    rw [failureBucket_timeless]
    exact hfold _ {}
  unfold evaluateFailure
  rw [failureBucket_timeless, List.isEmpty_map, htally]
  split
  · rfl
  · exact FailureTally.verdict_timeless _ _

/-! ## Candidates -/

/-- An observation of a candidate without clocks. -/
def unclocked (x : PublisherName × RetainedReplacementEvidence) :
    PublisherName × RetainedReplacementEvidence :=
  (x.1, x.2.timeless ReplacementReport.timeless)

theorem betterReplacement_timeless (best : Option (PublisherName × RetainedReplacementEvidence))
    (x : PublisherName × RetainedReplacementEvidence) :
    e.timeless.betterReplacement (best.map unclocked) (unclocked x) =
      (e.betterReplacement best x).map unclocked := by
  cases best with
  | none => rfl
  | some b =>
    change (if e.qualifiesReplacement x.2 &&
      preferred (·.stamp) (·.confidence) x.1 x.2 (e.classifyRetained x.2).2 b.2
        (e.classifyRetained b.2).2 then _ else _) = _
    unfold betterReplacement
    dsimp only
    split <;> rfl

theorem foldl_better_timeless (xs : List (PublisherName × RetainedReplacementEvidence))
    (best : Option (PublisherName × RetainedReplacementEvidence)) :
    (xs.map unclocked).foldl e.timeless.betterReplacement (best.map unclocked) =
      (xs.foldl e.betterReplacement best).map unclocked := by
  induction xs generalizing best with
  | nil => rfl
  | cons x xs ih =>
    rw [List.map_cons, List.foldl_cons, List.foldl_cons, ← ih, betterReplacement_timeless]

theorem resolveCandidate_timeless (c : ReplacementCandidate) :
    e.timeless.resolveCandidate c = (e.resolveCandidate c).timeless := by
  unfold resolveCandidate
  have hdefined : e.timeless.state.topology.find c.candidate =
      e.state.topology.find c.candidate := rfl
  rw [hdefined]
  cases e.state.topology.find c.candidate with
  | none => rfl
  | some definition =>
    have hfind : e.timeless.replacementEvidence.find? c.candidate =
        (e.replacementEvidence.find? c.candidate).map
          (SortedMap.map (Retained.timeless ReplacementReport.timeless)) := SortedMap.find?_map
    dsimp only
    rw [hfind]
    cases e.replacementEvidence.find? c.candidate with
    | none => rfl
    | some bucket =>
      have hbound : (SortedMap.map (Retained.timeless ReplacementReport.timeless)
          bucket).entries.filter (e.timeless.bindsReplacement definition) =
            (bucket.entries.filter (e.bindsReplacement definition)).map unclocked := by
        change (bucket.entries.map unclocked).filter _ = _
        rw [List.filter_map]
        rfl
      dsimp only [Option.map_some]
      rw [hbound]
      generalize bucket.entries.filter (e.bindsReplacement definition) = bound
      have hbest := @foldl_better_timeless e bound none
      rw [Option.map_none] at hbest
      rw [hbest]
      cases bound.foldl e.betterReplacement none with
      | none => rfl
      | some best =>
        have hcontradicted : e.timeless.contradicted (bound.map unclocked) (unclocked best) =
            e.contradicted bound best := by
          unfold contradicted
          rw [List.any_map]
          rfl
        dsimp only [Option.map_some]
        rw [hcontradicted]
        rfl

theorem selectionInput_timeless (link : LinkDefinition) :
    e.timeless.selectionInput req link = (e.selectionInput req link).timeless := by
  have hmap : req.candidates.map e.timeless.resolveCandidate =
      (req.candidates.map e.resolveCandidate).map ResolvedCandidate.timeless := by
    rw [List.map_map]
    exact List.map_congr_left fun c _ => resolveCandidate_timeless c
  have hsort : (BoundedTable.sortBy (fun a b : ResolvedCandidate => a.candidate.less b.candidate)
      (req.candidates.map e.resolveCandidate)).map ResolvedCandidate.timeless =
        BoundedTable.sortBy (fun a b : ResolvedCandidate => a.candidate.less b.candidate)
          ((req.candidates.map e.resolveCandidate).map ResolvedCandidate.timeless) :=
    BoundedTable.map_sortBy _ fun _ _ => rfl
  unfold selectionInput SelectionInput.timeless
  rw [hmap, hsort]
  rfl

end Engine

/-! ## Plans -/

def FailoverPlan.timeless : FailoverPlan → FailoverPlan
  | .fail s => .fail s
  | .replay d => .replay d.timeless
  | .settle d durable => .settle d.timeless durable
  | .record d r => .record d.timeless r.timeless
  | .grant d a => .grant d.timeless a.timeless

namespace Engine

variable {e : Engine} {req : FailoverRequest} {d : FailoverDecision}

theorem attemptCount_timeless : e.timeless.attemptCount req = e.attemptCount req :=
  DurableState.countAttempts_timeless

theorem withinBudget_timeless : e.timeless.withinBudget req = e.withinBudget req := by
  unfold withinBudget
  rw [attemptCount_timeless]
  rfl

theorem nextAttemptSeq_timeless : e.timeless.nextAttemptSeq req = e.nextAttemptSeq req := by
  unfold nextAttemptSeq
  rw [attemptCount_timeless]

theorem nextAttemptId_timeless : e.timeless.nextAttemptId req = e.nextAttemptId req := by
  unfold nextAttemptId
  rw [nextAttemptSeq_timeless]
  rfl

theorem closeAttempt_timeless {evidence : Digest} {reasons : ReasonLog} :
    e.timeless.closeAttempt req d.timeless (.zero 32) reasons =
      (e.closeAttempt req d evidence reasons).timeless := by
  unfold closeAttempt closedAttempt
  rw [withinBudget_timeless, nextAttemptSeq_timeless, nextAttemptId_timeless]
  split <;> rfl

theorem planUnestablished_timeless {v : FailureVerdict} :
    e.timeless.planUnestablished req d.timeless v.timeless =
      (e.planUnestablished req d v).timeless := by
  unfold planUnestablished
  rw [← closeAttempt_timeless, nextAttemptSeq_timeless, nextAttemptId_timeless,
    withinBudget_timeless]
  rfl

theorem planUnselected_timeless {status : SelectionStatus} :
    e.timeless.planUnselected req d.timeless status = (e.planUnselected req d status).timeless := by
  unfold planUnselected
  rw [← closeAttempt_timeless, nextAttemptSeq_timeless, nextAttemptId_timeless]
  rfl

theorem predecessor_timeless : e.timeless.predecessor req = e.predecessor req := by
  have hlatest : e.timeless.state.latestAttempt req.subject req.subjectGeneration =
      (e.state.latestAttempt req.subject req.subjectGeneration).map AttemptRecord.timeless :=
    DurableState.latestAttempt_timeless
  unfold predecessor
  rw [hlatest]
  cases e.state.latestAttempt req.subject req.subjectGeneration <;> rfl

theorem planGrant_timeless {v : FailureVerdict} {chosen : CandidateAssessment} {seq : AttemptSeq} :
    e.timeless.planGrant req d.timeless v.timeless chosen.timeless seq =
      (e.planGrant req d v chosen seq).timeless := by
  unfold planGrant grantedAttempt
  rw [predecessor_timeless]
  rfl

theorem chosenAssessment_timeless (input : SelectionInput) (outcome : SelectionOutcome) :
    chosenAssessment input.timeless outcome.timeless =
      (chosenAssessment input outcome).map CandidateAssessment.timeless := by
  unfold chosenAssessment
  rw [selected_timeless]
  cases (outcome.selectedIndex.bind fun i => outcome.assessments[i]?) with
  | none => rfl
  | some chosen =>
    dsimp only [Option.map_some]
    rw [any_timeless input fun _ => rfl]
    change (if (input.candidates.any fun c => decide (c.candidate = chosen.candidate) &&
      decide (c.linkGeneration = chosen.linkGeneration)) then _ else _) = _
    split <;> rfl

theorem planSelected_timeless {v : FailureVerdict} {input : SelectionInput}
    {outcome : SelectionOutcome} :
    e.timeless.planSelected req d.timeless v.timeless input.timeless outcome.timeless =
      (e.planSelected req d v input outcome).timeless := by
  unfold planSelected
  rw [withinBudget_timeless, chosenAssessment_timeless, attemptCount_timeless]
  split
  · rfl
  cases chosenAssessment input outcome with
  | none => rfl
  | some chosen =>
    dsimp only [Option.map_some]
    cases checkedAddU64 (UInt64.ofNat (e.attemptCount req)) 1 with
    | none => rfl
    | some next => exact planGrant_timeless

theorem planSelection_timeless {v : FailureVerdict} {link : LinkDefinition} :
    e.timeless.planSelection req d.timeless v.timeless link =
      (e.planSelection req d v link).timeless := by
  unfold planSelection
  dsimp only
  rw [selectionInput_timeless, selectReplacement_timeless, validateSelection_timeless]
  split
  · rfl
  have hstatus : (selectReplacement (e.selectionInput req link)).timeless.status =
      (selectReplacement (e.selectionInput req link)).status := rfl
  rw [hstatus]
  split
  · rw [← planUnselected_timeless]
    rfl
  · rw [← planSelected_timeless]
    rfl

theorem planEvidence_timeless {link : LinkDefinition} :
    e.timeless.planEvidence req d.timeless link = (e.planEvidence req d link).timeless := by
  unfold planEvidence
  dsimp only
  rw [evaluateFailure_timeless]
  have hestablished : (e.evaluateFailure req.subject req.subjectGeneration).timeless.established =
      (e.evaluateFailure req.subject req.subjectGeneration).established := rfl
  rw [hestablished]
  split
  · exact planUnestablished_timeless
  · exact planSelection_timeless

theorem planRevalidation_timeless {link : LinkDefinition} :
    e.timeless.planRevalidation req d.timeless link = (e.planRevalidation req d link).timeless := by
  have hlatest : e.timeless.state.latestAttempt req.subject req.subjectGeneration =
      (e.state.latestAttempt req.subject req.subjectGeneration).map AttemptRecord.timeless :=
    DurableState.latestAttempt_timeless
  unfold planRevalidation
  rw [hlatest]
  cases e.state.latestAttempt req.subject req.subjectGeneration with
  | none => exact planEvidence_timeless
  | some latest =>
    change (if latest.phase = .interrupted then _ else _) = _
    dsimp only
    split
    · change FailoverPlan.settle (if latest.revalidated then _ else _) true = _
      split <;> rfl
    · exact planEvidence_timeless

theorem planAuthority_timeless {link : LinkDefinition} :
    e.timeless.planAuthority req d.timeless link = (e.planAuthority req d link).timeless := by
  have hactive : e.timeless.state.activeAuthority req.subject req.subjectGeneration =
      (e.state.activeAuthority req.subject req.subjectGeneration).map AttemptRecord.timeless :=
    DurableState.activeAuthority_timeless
  unfold planAuthority
  rw [hactive]
  cases e.state.activeAuthority req.subject req.subjectGeneration with
  | none => exact planRevalidation_timeless
  | some active => rfl

theorem planExpectation_timeless {link : LinkDefinition} :
    e.timeless.planExpectation req d.timeless link = (e.planExpectation req d link).timeless := by
  have hcompare : compareAuthority req.expected d.timeless.authority =
      compareAuthority req.expected d.authority := rfl
  unfold planExpectation
  dsimp only
  rw [hcompare]
  change _ = (if (!(compareAuthority req.expected d.authority).isEmpty) = true then _
    else if (!e.state.policy.failoverEnabled) = true then _ else _ : FailoverPlan).timeless
  change (if (!(compareAuthority req.expected d.authority).isEmpty) = true then _
    else if (!e.state.policy.failoverEnabled) = true then _ else _ : FailoverPlan) = _
  split
  · rfl
  split
  · rfl
  · exact planAuthority_timeless

/-- The plan of a request is, without clocks, the plan from the state without clocks. -/
theorem planFailover_timeless : e.timeless.planFailover req = (e.planFailover req).timeless := by
  unfold planFailover
  have hcheck : e.timeless.checkRequest req = e.checkRequest req := rfl
  rw [hcheck]
  cases e.checkRequest req with
  | some s => rfl
  | none =>
    dsimp only
    have hkey : e.timeless.state.findIdempotency req.idempotencyKey =
        e.state.findIdempotency req.idempotencyKey := rfl
    rw [hkey]
    cases e.state.findIdempotency req.idempotencyKey with
    | some entry => rfl
    | none =>
      dsimp only
      unfold planSubject
      have hsubject : e.timeless.state.topology.find req.subject =
          e.state.topology.find req.subject := rfl
      rw [hsubject]
      cases e.state.topology.find req.subject with
      | none => rfl
      | some link =>
        dsimp only
        split
        · rfl
        · exact @planExpectation_timeless e req
            { e.baseDecision req.subject req.subjectGeneration with
              authority := e.currentAuthority req.subject req.subjectGeneration } link

end Engine

end LinkFailover
