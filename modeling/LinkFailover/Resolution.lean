import LinkFailover.CandidateOrder
import LinkFailover.GrantSoundness

/-!
# The evidence on a candidate

The engine resolves a candidate to one observation of it, and marks it as conflicted when another
one contradicts it. It should be the best of the observations that qualify. The search begins with
the first observation that is bound to the link and the topology, though, qualified or not, and
an observation that is out of date gives way only to a qualified one that outranks it.

* `foldl_betterReplacement`: what the search finds.
* `Engine.Unhidden`: the first observation is none that hides the qualified ones.
* `resolveCandidate_best_iff`: this is when the best of them is found, and when nothing else that
  is retained has an influence.
-/

namespace LinkFailover

open Codec

/-- An observation of a link that may replace another one, with its publisher. -/
abbrev Observation := PublisherName × RetainedReplacementEvidence

namespace Engine

variable {e e' : Engine} {l : LinkDefinition} {x y f : Observation} {xs : List Observation}

/-! ## The rank of observations -/

def ageOf (e : Engine) (x : Observation) : UInt64 := (e.classifyRetained x.2).2

/-- The more confident of two observations ranks higher, then the younger one, then the one of the
smaller publisher. -/
def outranks (e : Engine) : Observation → Observation → Bool :=
  Orders.lex (fun x y => decide (y.2.report.confidence.value < x.2.report.confidence.value))
    (Orders.lex (fun x y => decide (e.ageOf x < e.ageOf y)) fun x y => nameLess x.1 y.1)

theorem outranks_orders (e : Engine) : Orders e.outranks fun x =>
    (x.2.report.confidence.value, (e.ageOf x, x.1)) :=
  ranksAbove_orders ReplacementReport.confidence e.ageOf

/-- The comparison of the search, for an observation that is kept under its publisher. -/
theorem preferred_eq_outranks (hy : y.2.report.stamp.publisher = y.1) :
    preferred (·.stamp) (·.confidence) x.1 x.2 (e.classifyRetained x.2).2 y.2
      (e.classifyRetained y.2).2 = e.outranks x y :=
  preferred_eq_ranksAbove ReplacementReport.confidence e.ageOf hy

/-! ## What the search finds -/

/-- Every observation is kept under the publisher that its stamp names. -/
def Attributed (xs : List Observation) : Prop := ∀ x ∈ xs, x.2.report.stamp.publisher = x.1

/-- From an observation on, the search looks for the highest ranked one among it and the qualified
ones. -/
theorem foldl_betterReplacement (h : Attributed (f :: xs)) :
    xs.foldl e.betterReplacement (some f) =
      some ((xs.filter fun x => e.qualifiesReplacement x.2).foldl (Orders.earlier e.outranks) f) := by
  induction xs generalizing f with
  | nil => rfl
  | cons x xs ih =>
    have hf := h f List.mem_cons_self
    have hrest : ∀ {g}, g ∈ f :: x :: xs → Attributed (g :: xs) := by
      intro g hg y hy
      rcases List.mem_cons.mp hy with rfl | hy
      · exact h y hg
      · exact h y (List.mem_cons_of_mem _ (List.mem_cons_of_mem _ hy))
    have hround : e.betterReplacement (some f) x =
        some (if e.qualifiesReplacement x.2 && e.outranks x f then x else f) := by
      unfold betterReplacement
      dsimp only
      rw [preferred_eq_outranks hf]
      split <;> rfl
    rw [List.foldl_cons, hround]
    cases hq : e.qualifiesReplacement x.2 with
    | false =>
      rw [List.filter_cons_of_neg (by simp [hq])]
      exact ih (hrest List.mem_cons_self)
    | true =>
      rw [List.filter_cons_of_pos (by simp [hq]), List.foldl_cons, ← ih]
      · rfl
      · unfold Orders.earlier
        split
        · exact hrest (List.mem_cons_of_mem _ List.mem_cons_self)
        · exact hrest List.mem_cons_self

/-- The observations of a link that are bound to its definition and to the topology, in the order of
their publishers. -/
def boundReplacements (e : Engine) (l : LinkDefinition) : List Observation :=
  match e.replacementEvidence.find? l.link with
  | none => []
  | some bucket => bucket.entries.filter (e.bindsReplacement l)

/-- A candidate that nothing is known about but its definition. -/
def unobserved (c : ReplacementCandidate) (l : LinkDefinition) : ResolvedCandidate where
  candidate := c.candidate
  linkGeneration := l.generation
  generationAsserted := !c.expectedGeneration.isZero
  generationMatched := !!c.expectedGeneration.isZero || c.expectedGeneration = l.generation

/-- A candidate that is judged by an observation. -/
def observed (e : Engine) (c : ReplacementCandidate) (l : LinkDefinition) (x : Observation) :
    ResolvedCandidate :=
  { unobserved c l with
    evidencePresent := true
    report := x.2.report
    evidenceDigest := x.2.digest
    freshness := (e.classifyRetained x.2).1
    ageTicks := e.ageOf x
    conflicted := e.contradicted (e.boundReplacements l) x }

variable {c : ReplacementCandidate}

theorem resolveCandidate_eq (hl : e.state.topology.find c.candidate = some l) :
    e.resolveCandidate c =
      match (e.boundReplacements l).foldl e.betterReplacement none with
      | none => unobserved c l
      | some x => e.observed c l x := by
  have hlink : l.link = c.candidate := (TopologySnapshot.find_link hl).2
  unfold resolveCandidate observed boundReplacements
  rw [hl, hlink]
  dsimp only
  cases e.replacementEvidence.find? c.candidate with
  | none => rfl
  | some bucket =>
    dsimp only
    cases (bucket.entries.filter (e.bindsReplacement l)).foldl e.betterReplacement none <;> rfl

theorem mem_boundReplacements : x ∈ e.boundReplacements l ↔
    EvidenceTable.Has e.replacementEvidence l.link x.1 x.2 ∧ e.bindsReplacement l x = true := by
  unfold boundReplacements
  constructor
  · intro hx
    split at hx
    · cases hx
    · rename_i bucket hb
      obtain ⟨hm, hbinds⟩ := List.mem_filter.mp hx
      exact ⟨EvidenceTable.has_of_find hb hm, hbinds⟩
  · rintro ⟨⟨b, hb, hl, hm⟩, hbinds⟩
    have hfind := SortedMap.find?_of_mem hb
    rw [hl] at hfind
    rw [hfind]
    exact List.mem_filter.mpr ⟨hm, hbinds⟩

theorem boundReplacements_nodup : ((e.boundReplacements l).map Prod.fst).Nodup := by
  unfold boundReplacements
  split
  · exact List.nodup_nil
  · rename_i bucket _
    exact (List.filter_sublist.map Prod.fst).nodup bucket.nodup

theorem boundReplacements_attributed {wire : Prop} (h : EngineOk wire e) :
    Attributed (e.boundReplacements l) := fun _ hx =>
  (h.replacements (mem_boundReplacements.mp hx).1).2

/-! ## The best qualified observation -/

/-- An observation of a link that is retained and qualifies. -/
def Qualified (e : Engine) (l : LinkDefinition) (x : Observation) : Prop :=
  EvidenceTable.Has e.replacementEvidence l.link x.1 x.2 ∧ QualifiedReplacement e l x.1 x.2

/-- A qualified observation that no other one outranks. -/
structure BestObservation (e : Engine) (l : LinkDefinition) (x : Observation) : Prop where
  qualified : e.Qualified l x
  best : ∀ y, e.Qualified l y → e.outranks y x = false

/-- A candidate is judged by the best qualified observation of its link, as conflicted exactly when
two qualified ones report different states. -/
structure ResolvesBest (e : Engine) (l : LinkDefinition) (r : ResolvedCandidate) : Prop where
  present : r.evidencePresent = true
  current : r.freshness = .current
  report : ∃ x, e.BestObservation l x ∧ r.report = x.2.report ∧ r.evidenceDigest = x.2.digest ∧
    r.ageTicks = e.tick - x.2.receiptTick
  conflicted : r.conflicted = true ↔ ∃ x y, e.Qualified l x ∧ e.Qualified l y ∧
    x.2.report.state ≠ y.2.report.state

/-- The first of the bound observations qualifies, or a qualified one outranks it, or there is no
qualified one. -/
def Unhidden (e : Engine) (l : LinkDefinition) : Prop :=
  ∀ f, (e.boundReplacements l).head? = some f → e.qualifiesReplacement f.2 = true ∨
    (∃ x ∈ e.boundReplacements l, e.qualifiesReplacement x.2 = true ∧ e.outranks x f = true) ∨
    ∀ x ∈ e.boundReplacements l, e.qualifiesReplacement x.2 = false

variable {wire : Prop}

theorem qualified_iff (h : EngineOk wire e) : e.Qualified l x ↔
    x ∈ e.boundReplacements l ∧ e.qualifiesReplacement x.2 = true := by
  rw [mem_boundReplacements, Qualified]
  constructor
  · rintro ⟨hx, hq⟩
    obtain ⟨hbinds, hqualifies⟩ := (qualifiedReplacement_iff h hx).mpr hq
    exact ⟨⟨hx, hbinds⟩, hqualifies⟩
  · rintro ⟨⟨hx, hbinds⟩, hqualifies⟩
    exact ⟨hx, (qualifiedReplacement_iff h hx).mp ⟨hbinds, hqualifies⟩⟩

/-- A qualified observation has been received within the window, and has its age. -/
theorem classifyRetained_of_qualifies (h : e.qualifiesReplacement x.2 = true) :
    (e.classifyRetained x.2).1 = .current ∧ e.ageOf x = e.tick - x.2.receiptTick := by
  rw [qualifiesReplacement, Bool.and_eq_true, decide_eq_true_eq] at h
  obtain ⟨hc, ht, -⟩ := classifyReceipt_current h.1
  refine ⟨h.1, ?_⟩
  unfold ageOf classifyRetained classifyReceipt
  rw [if_neg (not_not.mpr hc), if_neg (UInt64.not_lt.mpr ht)]

theorem BestObservation.unique (h : EngineOk wire e) (hx : e.BestObservation l x)
    {y : Observation} (hy : e.BestObservation l y) : x = y := by
  have hkey := e.outranks_orders.total (hy.best x hx.qualified) (hx.best y hy.qualified)
  have hname : x.1 = y.1 := congrArg (fun k => k.2.2) hkey
  exact List.inj_on_of_nodup_map boundReplacements_nodup ((qualified_iff h).mp hx.qualified).1
    ((qualified_iff h).mp hy.qualified).1 hname

/-- Two qualified observations differ exactly when one of them differs from a given one. -/
theorem contradicted_iff (h : EngineOk wire e) (hx : e.Qualified l x) :
    e.contradicted (e.boundReplacements l) x = true ↔ ∃ y z, e.Qualified l y ∧ e.Qualified l z ∧
      y.2.report.state ≠ z.2.report.state := by
  have hother : e.contradicted (e.boundReplacements l) x = true ↔
      ∃ y, e.Qualified l y ∧ y.2.report.state ≠ x.2.report.state := by
    unfold contradicted
    rw [List.any_eq_true]
    constructor
    · rintro ⟨y, hy, hc⟩
      simp only [Bool.and_eq_true, decide_eq_true_eq] at hc
      exact ⟨y, (qualified_iff h).mpr ⟨hy, hc.1.2⟩, hc.2⟩
    · rintro ⟨y, hy, hne⟩
      obtain ⟨hmem, hq⟩ := (qualified_iff h).mp hy
      have hname : y.1 ≠ x.1 := fun he => hne (by
        rw [List.inj_on_of_nodup_map boundReplacements_nodup hmem ((qualified_iff h).mp hx).1 he])
      refine ⟨y, hmem, ?_⟩
      simp only [Bool.and_eq_true, decide_eq_true_eq]
      exact ⟨⟨hname, hq⟩, hne⟩
  rw [hother]
  constructor
  · rintro ⟨y, hy, hne⟩
    exact ⟨y, x, hy, hx, hne⟩
  · rintro ⟨y, z, hy, hz, hne⟩
    by_cases hyx : y.2.report.state = x.2.report.state
    · exact ⟨z, hz, fun hzx => hne (hyx.trans hzx.symm)⟩
    · exact ⟨y, hy, hyx⟩

/-- The candidate is resolved to the highest ranked observation among the first bound one and the
qualified ones. -/
theorem resolveCandidate_first (h : EngineOk wire e)
    (hl : e.state.topology.find c.candidate = some l)
    (hf : (e.boundReplacements l).head? = some f) :
    ∃ x, e.resolveCandidate c = e.observed c l x ∧ Orders.First e.outranks
      (f :: (e.boundReplacements l).tail.filter fun x => e.qualifiesReplacement x.2) x := by
  have hcons : e.boundReplacements l = f :: (e.boundReplacements l).tail :=
    (List.cons_head?_tail hf).symm
  refine ⟨_, ?_, e.outranks_orders.search_first f _⟩
  have hattributed := boundReplacements_attributed (l := l) h
  rw [hcons] at hattributed
  rw [resolveCandidate_eq hl]
  generalize e.boundReplacements l = bound at hcons hattributed
  rw [hcons, List.foldl_cons]
  change (match List.foldl e.betterReplacement (some f) bound.tail with
    | none => unobserved c l | some x => e.observed c l x) = _
  rw [foldl_betterReplacement hattributed]
  rfl

theorem boundReplacements_cons (hf : (e.boundReplacements l).head? = some f) :
    x ∈ e.boundReplacements l ↔ x = f ∨ x ∈ (e.boundReplacements l).tail := by
  conv_lhs => rw [← List.cons_head?_tail hf]
  exact List.mem_cons

/-- The search ends with a qualified observation exactly when the first bound one does not hide
those. -/
theorem qualifies_first_iff (hf : (e.boundReplacements l).head? = some f)
    (hx : Orders.First e.outranks
      (f :: (e.boundReplacements l).tail.filter fun x => e.qualifiesReplacement x.2) x)
    (hq : ∃ y ∈ e.boundReplacements l, e.qualifiesReplacement y.2 = true) :
    e.qualifiesReplacement x.2 = true ↔ e.Unhidden l := by
  obtain ⟨hmem, hnone⟩ := hx
  have hfound : x = f ∨ x ∈ e.boundReplacements l ∧ e.qualifiesReplacement x.2 = true := by
    rcases List.mem_cons.mp hmem with rfl | hm
    · exact .inl rfl
    · obtain ⟨hm, hqualifies⟩ := List.mem_filter.mp hm
      exact .inr ⟨(boundReplacements_cons hf).mpr (.inr hm), hqualifies⟩
  constructor
  · intro hqx f' hf'
    rw [hf] at hf'
    cases hf'
    by_cases hqf : e.qualifiesReplacement f.2 = true
    · exact .inl hqf
    rcases hfound with rfl | ⟨hm, -⟩
    · exact absurd hqx hqf
    -- the first observation is of another publisher, and does not outrank the one that is found
    refine .inr (.inl ⟨x, hm, hqx, ?_⟩)
    by_contra hlower
    have hkey := e.outranks_orders.total (hnone f List.mem_cons_self)
      (Bool.eq_false_iff.mpr hlower)
    have hname : f.1 = x.1 := congrArg (fun k => k.2.2) hkey
    have hsame := List.inj_on_of_nodup_map boundReplacements_nodup
      ((boundReplacements_cons hf).mpr (.inl rfl)) hm hname
    exact hqf (hsame ▸ hqx)
  · intro hu
    rcases hfound with rfl | ⟨-, hqx⟩
    · rcases hu x hf with hqf | ⟨y, hy, hqy, hhigher⟩ | hunqualified
      · exact hqf
      · rcases (boundReplacements_cons hf).mp hy with rfl | hy
        · exact hqy
        · have hlower := hnone y (List.mem_cons_of_mem _ (List.mem_filter.mpr ⟨hy, hqy⟩))
          rw [hlower] at hhigher
          cases hhigher
      · obtain ⟨y, hy, hqy⟩ := hq
        rw [hunqualified y hy] at hqy
        cases hqy
    · exact hqx

theorem best_of_first (h : EngineOk wire e) (hf : (e.boundReplacements l).head? = some f)
    (hx : Orders.First e.outranks
      (f :: (e.boundReplacements l).tail.filter fun x => e.qualifiesReplacement x.2) x)
    (hq : e.qualifiesReplacement x.2 = true) : e.BestObservation l x := by
  obtain ⟨hmem, hnone⟩ := hx
  refine ⟨(qualified_iff h).mpr ⟨(boundReplacements_cons hf).mpr ?_, hq⟩, fun y hy => ?_⟩
  · rcases List.mem_cons.mp hmem with rfl | hm
    · exact .inl rfl
    · exact .inr (List.mem_filter.mp hm).1
  · obtain ⟨hy, hqy⟩ := (qualified_iff h).mp hy
    rcases (boundReplacements_cons hf).mp hy with rfl | hy
    · exact hnone y List.mem_cons_self
    · exact hnone y (List.mem_cons_of_mem _ (List.mem_filter.mpr ⟨hy, hqy⟩))

theorem resolvesBest_observed (h : EngineOk wire e) (hx : e.BestObservation l x) :
    e.ResolvesBest l (e.observed c l x) := by
  obtain ⟨hcurrent, hage⟩ := classifyRetained_of_qualifies ((qualified_iff h).mp hx.qualified).2
  exact ⟨rfl, hcurrent, ⟨x, hx, rfl, rfl, hage⟩, contradicted_iff h hx.qualified⟩

/-- The best qualified observation is found, or the first bound one hides it. -/
theorem resolvesBest_iff (h : EngineOk wire e) (hl : e.state.topology.find c.candidate = some l)
    (hq : ∃ x, e.Qualified l x) : e.ResolvesBest l (e.resolveCandidate c) ↔ e.Unhidden l := by
  have hbound : ∃ y ∈ e.boundReplacements l, e.qualifiesReplacement y.2 = true := by
    obtain ⟨y, hy⟩ := hq
    exact ⟨y, (qualified_iff h).mp hy⟩
  obtain ⟨f, hf⟩ : ∃ f, (e.boundReplacements l).head? = some f := by
    obtain ⟨y, hy, -⟩ := hbound
    exact ⟨_, List.head?_eq_some_head (List.ne_nil_of_mem hy)⟩
  obtain ⟨x, hr, hx⟩ := resolveCandidate_first h hl hf
  rw [hr, ← qualifies_first_iff hf hx hbound]
  constructor
  · intro hbest
    obtain ⟨y, hy, hreport, -⟩ := hbest.report
    have hqy := ((qualified_iff h).mp hy.qualified).2
    have hsame : x.2.report = y.2.report := hreport
    unfold qualifiesReplacement at hqy ⊢
    rw [Bool.and_eq_true, decide_eq_true_eq, decide_eq_true_eq] at hqy ⊢
    exact ⟨hbest.current, hsame ▸ hqy.2⟩
  · exact fun hqx => resolvesBest_observed h (best_of_first h hf hx hqx)

/-! ## The verdict on a candidate -/

/-- The verdict of the selector on a candidate of a request. -/
def verdict (e : Engine) (req : FailoverRequest) (subject : LinkDefinition)
    (c : ReplacementCandidate) : Verdict :=
  (assess (e.selectionInput req subject) (e.resolveCandidate c)).verdict

/-- An observation that does not qualify leaves its candidate undecided. -/
theorem judge_undecided {input : SelectionInput} {r : ResolvedCandidate}
    (hs : r.candidate ≠ input.subject)
    (h : r.evidencePresent = false ∨ r.freshness ≠ .current ∨
      r.report.confidence.value < input.policy.minReplacementConfidence.value) :
    (judge input r).1 = .indeterminate := by
  have hfires : ∃ g ∈ (gates input r).take 8, g.1 = true := by
    simp only [gates, List.take_succ_cons, List.take_zero, List.exists_mem_cons_iff,
      List.not_mem_nil, false_and, exists_false, or_false, decide_eq_true_eq, Bool.not_eq_true']
    rcases h with h | h | h
    · exact .inr (.inr (.inl h))
    · cases hf : r.freshness with
      | current => exact absurd hf h
      | expired => exact .inr (.inr (.inr (.inr (.inr (.inl rfl)))))
      | priorIncarnation => exact .inr (.inr (.inr (.inr (.inl rfl))))
      | future => exact .inr (.inr (.inr (.inr (.inr (.inr (.inl rfl))))))
    · exact .inr (.inr (.inr (.inr (.inr (.inr (.inr h))))))
  have hundecided : ∀ g ∈ (gates input r).take 8, g.1 = true → g.2.1 = .indeterminate := by
    simp only [gates, List.take_succ_cons, List.take_zero, List.forall_mem_cons,
      List.not_mem_nil, false_implies, implies_true, and_true, decide_eq_true_eq]
    exact fun he => absurd he hs
  obtain ⟨g, hg⟩ := Option.isSome_iff_exists.mp (List.find?_isSome.mpr hfires)
  have hfind : (gates input r).find? (·.1) = some g := by
    rw [← List.take_append_drop 8 (gates input r), List.find?_append, hg]
    rfl
  unfold judge
  rw [hfind]
  exact hundecided g (List.mem_of_find?_eq_some hg) (List.find?_some hg)

/-- The verdict looks at the subject, the policy and the capacity only. -/
theorem verdict_congr {req : FailoverRequest} {subject : LinkDefinition}
    (hp : e'.state.policy = e.state.policy)
    (hr : e'.resolveCandidate c = e.resolveCandidate c) :
    e'.verdict req subject c = e.verdict req subject c := by
  have hgates : gates (e'.selectionInput req subject) (e.resolveCandidate c) =
      gates (e.selectionInput req subject) (e.resolveCandidate c) := by
    unfold gates selectionInput
    dsimp only
    rw [hp]
  unfold verdict assess judge
  dsimp only
  rw [hr, hgates]

/-- Without a qualified observation a candidate is undecided, whatever else is retained. -/
theorem verdict_unqualified (h : EngineOk wire e) (hl : e.state.topology.find c.candidate = some l)
    (hq : ¬∃ x, e.Qualified l x) (req : FailoverRequest) (subject : LinkDefinition) :
    e.verdict req subject c = if c.candidate = req.subject then .disproven else .indeterminate := by
  have hcandidate := resolveCandidate_candidate (e := e) c
  by_cases hs : c.candidate = req.subject
  · have hfind : (gates (e.selectionInput req subject) (e.resolveCandidate c)).find? (·.1) =
        some (true, .disproven, .replacementIsSubject, "a link cannot replace itself") := by
      have hsame : decide ((e.resolveCandidate c).candidate =
          (e.selectionInput req subject).subject) = true :=
        decide_eq_true (hcandidate.trans hs)
      unfold gates
      rw [hsame]
      rfl
    rw [if_pos hs]
    unfold verdict assess judge
    dsimp only
    rw [hfind]
  rw [if_neg hs]
  refine judge_undecided (fun he => hs (hcandidate.symm.trans he)) ?_
  cases hf : (e.boundReplacements l).head? with
  | none =>
    rw [resolveCandidate_eq hl, List.head?_eq_none_iff.mp hf]
    exact .inl rfl
  | some f =>
    have hunqualified : ∀ x ∈ e.boundReplacements l, ¬e.qualifiesReplacement x.2 = true :=
      fun x hx hqx => hq ⟨x, (qualified_iff h).mpr ⟨hx, hqx⟩⟩
    obtain ⟨x, hr, hmem, -⟩ := resolveCandidate_first h hl hf
    have hx : x ∈ e.boundReplacements l := by
      refine (boundReplacements_cons hf).mpr ?_
      rcases List.mem_cons.mp hmem with rfl | hm
      · exact .inl rfl
      · exact .inr (List.mem_filter.mp hm).1
    have hlow := hunqualified x hx
    unfold qualifiesReplacement at hlow
    rw [Bool.and_eq_true, decide_eq_true_eq, decide_eq_true_eq, not_and_or, ge_iff_le,
      UInt32.not_le] at hlow
    rw [hr]
    exact .inr hlow

/-! ## Everything else that is retained -/

/-- Two engines retain the same qualified observations of a link, at one time and under one policy
and topology. They may differ in any other observation. -/
structure SameQualified (e e' : Engine) (l : LinkDefinition) : Prop where
  policy : e'.state.policy = e.state.policy
  topology : e'.state.topology = e.state.topology
  tick : e'.tick = e.tick
  incarnation : e'.incarnation = e.incarnation
  qualified : ∀ x, e'.Qualified l x ↔ e.Qualified l x

theorem SameQualified.classify (hs : SameQualified e e' l) (x : RetainedReplacementEvidence) :
    e'.classifyRetained x = e.classifyRetained x := by
  unfold classifyRetained
  rw [hs.policy, hs.tick, hs.incarnation]

theorem SameQualified.best (hs : SameQualified e e' l) (hx : e'.BestObservation l x) :
    e.BestObservation l x := by
  refine ⟨(hs.qualified x).mp hx.qualified, fun y hy => ?_⟩
  have hage : e'.ageOf = e.ageOf := funext fun x => congrArg Prod.snd (hs.classify x.2)
  have hlower := hx.best y ((hs.qualified y).mpr hy)
  unfold outranks at hlower
  rwa [hage] at hlower

theorem SameQualified.observed (hs : SameQualified e e' l) (h : EngineOk wire e)
    (h' : EngineOk wire e') (hx : e.Qualified l x) : e'.observed c l x = e.observed c l x := by
  have hconflict : e'.contradicted (e'.boundReplacements l) x =
      e.contradicted (e.boundReplacements l) x := by
    rw [Bool.eq_iff_iff, contradicted_iff h hx, contradicted_iff h' ((hs.qualified x).mpr hx)]
    simp only [hs.qualified]
  unfold Engine.observed ageOf
  rw [hs.classify, hconflict]

/-- What is resolved under the best observation is the same, then. -/
theorem SameQualified.resolved (hs : SameQualified e e' l) (h : EngineOk wire e)
    (h' : EngineOk wire e') (hl : e.state.topology.find c.candidate = some l)
    (hq : ∃ x, e.Qualified l x) (hu : e.Unhidden l) (hu' : e'.Unhidden l) :
    e'.resolveCandidate c = e.resolveCandidate c := by
  have hfound : ∀ {e : Engine}, EngineOk wire e → e.state.topology.find c.candidate = some l →
      (∃ x, e.Qualified l x) → e.Unhidden l →
      ∃ x, e.resolveCandidate c = e.observed c l x ∧ e.BestObservation l x := by
    intro e h hl ⟨y, hy⟩ hu
    have hy := (qualified_iff h).mp hy
    have hf := List.head?_eq_some_head (List.ne_nil_of_mem hy.1)
    obtain ⟨x, hr, hx⟩ := resolveCandidate_first h hl hf
    exact ⟨x, hr, best_of_first h hf hx ((qualifies_first_iff hf hx ⟨y, hy⟩).mpr hu)⟩
  obtain ⟨x, hr, hx⟩ := hfound h hl hq hu
  obtain ⟨x', hr', hx'⟩ := hfound h' (hs.topology ▸ hl)
    (hq.imp fun x hx => (hs.qualified x).mpr hx) hu'
  have hsame : x' = x := (hs.best hx').unique h hx
  rw [hr, hr', hsame]
  exact hs.observed h h' hx.qualified

/-- A candidate is judged by its best qualified observation, and by nothing else, exactly when no
unqualified observation hides the qualified ones, before and after other observations come or go. -/
theorem resolveCandidate_best_iff (h : Reachable e) (h' : Reachable e')
    (hl : e.state.topology.find c.candidate = some l) (hs : SameQualified e e' l) :
    ((∃ x, e.Qualified l x) → e.ResolvesBest l (e.resolveCandidate c)) ∧
      ((∃ x, e'.Qualified l x) → e'.ResolvesBest l (e'.resolveCandidate c)) ∧
      (∀ req subject, e'.verdict req subject c = e.verdict req subject c) ↔
    e.Unhidden l ∧ e'.Unhidden l := by
  have hl' : e'.state.topology.find c.candidate = some l := hs.topology ▸ hl
  have hvacuous : ∀ {e : Engine}, EngineOk False e → (¬∃ x, e.Qualified l x) → e.Unhidden l := by
    intro e h hq f hf
    refine .inr (.inr fun x hx => ?_)
    by_contra hqx
    exact hq ⟨x, (qualified_iff h).mpr ⟨hx, Bool.eq_true_of_not_eq_false hqx⟩⟩
  constructor
  · rintro ⟨hbest, hbest', -⟩
    constructor
    · by_cases hq : ∃ x, e.Qualified l x
      · exact (resolvesBest_iff h.ok hl hq).mp (hbest hq)
      · exact hvacuous h.ok hq
    · by_cases hq : ∃ x, e'.Qualified l x
      · exact (resolvesBest_iff h'.ok hl' hq).mp (hbest' hq)
      · exact hvacuous h'.ok hq
  · rintro ⟨hu, hu'⟩
    refine ⟨fun hq => (resolvesBest_iff h.ok hl hq).mpr hu,
      fun hq => (resolvesBest_iff h'.ok hl' hq).mpr hu', fun req subject => ?_⟩
    by_cases hq : ∃ x, e.Qualified l x
    · exact verdict_congr hs.policy (hs.resolved h.ok h'.ok hl hq hu hu')
    · have hq' : ¬∃ x, e'.Qualified l x := fun ⟨x, hx⟩ => hq ⟨x, (hs.qualified x).mp hx⟩
      rw [verdict_unqualified h.ok hl hq, verdict_unqualified h'.ok hl' hq']

/-! ## Evaluation -/

instance : Decidable (e.Unhidden l) :=
  match hf : (e.boundReplacements l).head? with
  | none => .isTrue fun f hf' => absurd (hf.symm.trans hf') (by simp)
  | some f =>
    decidable_of_iff (e.qualifiesReplacement f.2 = true ∨
      (∃ x ∈ e.boundReplacements l, e.qualifiesReplacement x.2 = true ∧ e.outranks x f = true) ∨
      ∀ x ∈ e.boundReplacements l, e.qualifiesReplacement x.2 = false)
      ⟨fun h f' hf' => by cases hf.symm.trans hf'; exact h, fun h => h f hf⟩

/-- The qualified observations in the order of their publishers. -/
def qualifiedReplacements (e : Engine) (l : LinkDefinition) : List Observation :=
  (e.boundReplacements l).filter fun x => e.qualifiesReplacement x.2

/-- A test for two engines that retain the same qualified observations. -/
def sameQualified (e e' : Engine) (l : LinkDefinition) : Bool :=
  decide (e'.state.policy = e.state.policy) && decide (e'.state.topology = e.state.topology) &&
    decide (e'.tick = e.tick) && decide (e'.incarnation = e.incarnation) &&
    decide (e'.qualifiedReplacements l = e.qualifiedReplacements l)

theorem mem_qualifiedReplacements (h : EngineOk wire e) :
    x ∈ e.qualifiedReplacements l ↔ e.Qualified l x := by
  rw [qualified_iff h, qualifiedReplacements, List.mem_filter]

theorem sameQualified_of_true (h : EngineOk wire e) (h' : EngineOk wire e')
    (hs : e.sameQualified e' l = true) : SameQualified e e' l := by
  simp only [sameQualified, Bool.and_eq_true, decide_eq_true_eq] at hs
  obtain ⟨⟨⟨⟨hp, ht⟩, hk⟩, hi⟩, hq⟩ := hs
  refine ⟨hp, ht, hk, hi, fun x => ?_⟩
  rw [← mem_qualifiedReplacements h, ← mem_qualifiedReplacements h', hq]

end Engine

/-! ## An observation that is out of date and hides a qualified one -/

namespace Sample

/-- A publisher finds the alternate link usable. -/
def supports (publisher : PublisherName) (confidence : UInt32) (n : UInt64) : Operation :=
  .publishReplacement
    { candidate := alternate
      linkGeneration := ⟨1⟩
      topologyGeneration := ⟨1⟩
      state := .up
      confidence := ⟨confidence⟩
      capacityUnits := 10
      adjacencyAuthorized := true
      stamp := { stamp n with publisher := publisher } }

/-- A confident publisher falls silent, another one goes on. -/
def silenced : List Action :=
  [.start { options := options { evidenceMaxAgeTicks := 1 } {}, incarnation := incarnation 1 },
    .perform (supports (name 97) 1000 1), .perform (supports (name 112) 900 1),
    .perform (supports (name 112) 900 2)]

/-- One publisher supports the alternate link, and another one speaks before it. -/
def preceded (op : Operation) : List Action :=
  [.start { options := options {} {}, incarnation := incarnation 1 }, .perform op,
    .perform (supports (name 112) 1000 1)]

def alternateDefinition : LinkDefinition := ⟨alternate, ⟨1⟩, 10⟩

end Sample

/-- The selector is handed the expired observation of the silent publisher, though the other one has
a qualified observation. -/
theorem expired_hides_qualified :
    ∃ e : Engine, System.run Sample.silenced = .up e ∧
      e.state.topology.find Sample.alternate = some Sample.alternateDefinition ∧
      (∃ x, e.Qualified Sample.alternateDefinition x) ∧
      ¬e.ResolvesBest Sample.alternateDefinition
        (e.resolveCandidate ⟨Sample.alternate, .zero⟩) := by
  obtain ⟨e, he, hp⟩ := @System.of_serves (System.run Sample.silenced)
    (fun e : Engine =>
      decide (e.state.topology.find Sample.alternate = some Sample.alternateDefinition) &&
        !(e.qualifiedReplacements Sample.alternateDefinition).isEmpty &&
        decide ((e.resolveCandidate ⟨Sample.alternate, .zero⟩).freshness = .expired))
    (by decide +kernel)
  simp only [Bool.and_eq_true, decide_eq_true_eq, Bool.not_eq_true', List.isEmpty_eq_false_iff]
    at hp
  obtain ⟨⟨hl, hq⟩, hexpired⟩ := hp
  obtain ⟨x, hx⟩ := List.exists_mem_of_ne_nil _ hq
  have hok : EngineOk False e := Reachable.ok ⟨_, he⟩
  refine ⟨e, he, hl, ⟨x, (Engine.mem_qualifiedReplacements hok).mp hx⟩, fun hbest => ?_⟩
  have hcurrent := hbest.current
  rw [hexpired] at hcurrent
  cases hcurrent

/-- An observation of low confidence changes nothing, though its publisher comes first. -/
theorem resolveCandidate_best_sample :
    ∃ e e' : Engine, System.run (Sample.preceded (Sample.down ⟨1⟩ ⟨1⟩ 1)) = .up e ∧
      System.run (Sample.preceded (Sample.supports (Sample.name 97) 500 1)) = .up e' ∧
      (e.boundReplacements Sample.alternateDefinition).length = 1 ∧
      (e'.boundReplacements Sample.alternateDefinition).length = 2 ∧
      ∀ req subject, e'.verdict req subject ⟨Sample.alternate, .zero⟩ =
        e.verdict req subject ⟨Sample.alternate, .zero⟩ := by
  obtain ⟨e, he, hp⟩ := @System.of_serves
    (System.run (Sample.preceded (Sample.down ⟨1⟩ ⟨1⟩ 1)))
    (fun e : Engine =>
      (System.run (Sample.preceded (Sample.supports (Sample.name 97) 500 1))).serves
        fun e' : Engine =>
          decide (e.state.topology.find Sample.alternate = some Sample.alternateDefinition) &&
            decide ((e.boundReplacements Sample.alternateDefinition).length = 1) &&
            decide ((e'.boundReplacements Sample.alternateDefinition).length = 2) &&
            e.sameQualified e' Sample.alternateDefinition &&
            decide (e.Unhidden Sample.alternateDefinition) &&
            decide (e'.Unhidden Sample.alternateDefinition))
    (by decide +kernel)
  obtain ⟨e', he', hp⟩ := System.of_serves hp
  simp only [Bool.and_eq_true, decide_eq_true_eq] at hp
  obtain ⟨⟨⟨⟨⟨hl, h1⟩, h2⟩, hs⟩, hu⟩, hu'⟩ := hp
  have hr : Reachable e := ⟨_, he⟩
  have hr' : Reachable e' := ⟨_, he'⟩
  have hiff := @Engine.resolveCandidate_best_iff e e' Sample.alternateDefinition
    ⟨Sample.alternate, .zero⟩ hr hr' hl (Engine.sameQualified_of_true hr.ok hr'.ok hs)
  exact ⟨e, e', he, he', h1, h2, (hiff.mpr ⟨hu, hu'⟩).2.2⟩

end LinkFailover
