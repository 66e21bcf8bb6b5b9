import LinkFailover.Lib.Orders
import LinkFailover.System

/-!
# The order of the candidates

A caller lists the candidates of a request in some order. The engine sorts what it resolved for
them, and the selector sorts its assessments again. The links of a request that passes the
structural checks are different, so both sorts forget the order of the caller.

* `selectionInput_perm`: what the engine hands to the selector does not depend on that order.
* `requestFailover_perm`: so nothing that the engine answers or writes does.
-/

namespace LinkFailover

open Codec

/-! ## The orders of names and links -/

theorem nameLess_orders {Tag : Type} :
    Orders (nameLess : StrongName Tag → StrongName Tag → Bool) fun n => n where
  asymm h := (Orders.of_linear StrongName.value).asymm h
  trans h h' := (Orders.of_linear StrongName.value).trans h h'
  total h h' := StrongName.ext ((Orders.of_linear StrongName.value).total h h')

theorem LinkKey.less_orders : Orders LinkKey.less fun k => k := by
  have h := (nameLess_orders.comap LinkKey.fabric).lexicographic (nameLess_orders.comap LinkKey.link)
  have heq : LinkKey.less = Orders.lex (fun a b => nameLess a.fabric b.fabric)
      fun a b => nameLess a.link b.link := by
    funext a b
    unfold LinkKey.less Orders.lex nameLess
    by_cases hab : a.fabric < b.fabric
    · simp [hab]
    · by_cases hba : b.fabric < a.fabric
      · simp [hab, hba]
      · simp [hab, hba]
  rw [heq]
  refine ⟨h.asymm, h.trans, fun hab hba => ?_⟩
  obtain ⟨hfabric, hlink⟩ := Prod.mk.inj (h.total hab hba)
  exact show LinkKey.mk _ _ = LinkKey.mk _ _ by rw [hfabric, hlink]

/-! ## The rank of observations -/

section Ranks

variable {Report : Type} (confidence : Report → Confidence)
  (age : PublisherName × Retained Report → UInt64)

/-- The more confident of two observations ranks higher, then the younger one, then the one of the
smaller publisher. -/
def ranksAbove : PublisherName × Retained Report → PublisherName × Retained Report → Bool :=
  Orders.lex
    (fun x y => decide ((confidence y.2.report).value < (confidence x.2.report).value))
    (Orders.lex (fun x y => decide (age x < age y)) fun x y => nameLess x.1 y.1)

theorem ranksAbove_orders : Orders (ranksAbove confidence age) fun x =>
    ((confidence x.2.report).value, (age x, x.1)) :=
  (Orders.of_linear fun x : PublisherName × Retained Report =>
    (confidence x.2.report).value).flip.lexicographic
      ((Orders.of_linear age).lexicographic (nameLess_orders.comap Prod.fst))

/-- The comparison of a search, for an observation that is kept under its publisher. -/
theorem preferred_eq_ranksAbove {stamp : Report → EvidenceStamp}
    {x y : PublisherName × Retained Report} (hy : (stamp y.2.report).publisher = y.1) :
    preferred stamp confidence x.1 x.2 (age x) y.2 (age y) = ranksAbove confidence age x y := by
  have hage : (decide (age x < age y) || decide (age x = age y) && nameLess x.1 y.1) =
      Orders.lex (fun x y => decide (age x < age y)) (fun x y => nameLess x.1 y.1) x y :=
    Orders.lt_or_eq_and _ _ _
  have hconfidence : (confidence x.2.report).value = (confidence y.2.report).value ↔
      (confidence y.2.report).value = (confidence x.2.report).value := eq_comm
  unfold preferred
  rw [hy, beq_eq_decide, beq_eq_decide, decide_eq_decide.mpr hconfidence]
  change (decide ((confidence y.2.report).value < (confidence x.2.report).value) || _ &&
    (decide (age x < age y) || _ && nameLess x.1 y.1)) = _
  rw [Orders.lt_or_eq_and]
  exact congrArg (fun t => decide ((confidence y.2.report).value < (confidence x.2.report).value) ||
    !decide ((confidence x.2.report).value < (confidence y.2.report).value) && t) hage

end Ranks

/-! ## Requests -/

namespace Engine

variable {e : Engine} {req : FailoverRequest} {cs : List ReplacementCandidate}

theorem checkCandidates_of_distinct {fabric : FabricName} {subject : LinkKey}
    {seen : List LinkKey} {cs : List ReplacementCandidate}
    (h : ∀ c ∈ cs, c.candidate.fabric = fabric ∧ c.candidate ≠ subject ∧ c.candidate ∉ seen)
    (hn : (cs.map (·.candidate)).Nodup) : checkCandidates fabric subject seen cs = none := by
  induction cs generalizing seen with
  | nil => rfl
  | cons c cs ih =>
    obtain ⟨hfabric, hother, hseen⟩ := h c List.mem_cons_self
    obtain ⟨hfirst, hrest⟩ := List.nodup_cons.mp hn
    rw [checkCandidates, if_neg (not_not.mpr hfabric), if_neg hother, if_neg hseen]
    refine ih (fun x hx => ?_) hrest
    obtain ⟨h1, h2, h3⟩ := h x (List.mem_cons_of_mem _ hx)
    refine ⟨h1, h2, fun hm => ?_⟩
    rcases List.mem_cons.mp hm with heq | hm
    · exact hfirst (List.mem_map.mpr ⟨x, hx, heq⟩)
    · exact h3 hm

/-- A request that passes the structural checks passes them with its candidates in any order. -/
theorem checkRequest_perm (hp : cs.Perm req.candidates) (h : e.checkRequest req = none) :
    e.checkRequest { req with candidates := cs } = none := by
  have hnone : checkCandidates e.options.fabric req.subject [] cs = none := by
    have hc := checkRequest_none h
    refine checkCandidates_of_distinct (fun c hm => ?_)
      ((hp.map (·.candidate)).nodup_iff.mpr hc.nodup)
    have hm := hp.mem_iff.mp hm
    exact ⟨hc.fabrics c hm, hc.others c hm, List.not_mem_nil⟩
  unfold checkRequest at h ⊢
  dsimp only
  rw [hp.length_eq]
  split at h
  · cases h
  rename_i hfabric
  rw [if_neg hfabric]
  split at h
  · cases h
  rename_i hlink
  rw [if_neg hlink]
  split at h
  · cases h
  rename_i hgeneration
  rw [if_neg hgeneration]
  split at h
  · cases h
  rename_i hlength
  rw [if_neg hlength]
  exact hnone

theorem selectionInput_perm (hp : cs.Perm req.candidates) (h : e.checkRequest req = none)
    (link : LinkDefinition) :
    e.selectionInput { req with candidates := cs } link = e.selectionInput req link := by
  have hkeys : ((cs.map e.resolveCandidate).map (·.candidate)).Nodup := by
    have hlinks : (cs.map e.resolveCandidate).map (·.candidate) = cs.map (·.candidate) := by
      rw [List.map_map]
      exact List.map_congr_left fun c _ => resolveCandidate_candidate c
    rw [hlinks]
    exact (hp.map (·.candidate)).nodup_iff.mpr (checkRequest_none h).nodup
  have hsort := (LinkKey.less_orders.comap ResolvedCandidate.candidate).sort_eq
    (hp.map e.resolveCandidate) hkeys
  unfold selectionInput
  dsimp only
  rw [hsort]

theorem planFailover_perm (hp : cs.Perm req.candidates) (h : e.checkRequest req = none) :
    e.planFailover { req with candidates := cs } = e.planFailover req := by
  have hselection : ∀ d v link, e.planSelection { req with candidates := cs } d v link =
      e.planSelection req d v link := by
    intro d v link
    unfold planSelection
    rw [selectionInput_perm hp h]
    rfl
  have hevidence : ∀ d link, e.planEvidence { req with candidates := cs } d link =
      e.planEvidence req d link := by
    intro d link
    unfold planEvidence
    dsimp only
    rw [hselection]
    rfl
  have hrevalidation : ∀ d link, e.planRevalidation { req with candidates := cs } d link =
      e.planRevalidation req d link := by
    intro d link
    unfold planRevalidation
    dsimp only
    rw [hevidence]
  have hauthority : ∀ d link, e.planAuthority { req with candidates := cs } d link =
      e.planAuthority req d link := by
    intro d link
    unfold planAuthority
    dsimp only
    rw [hrevalidation]
  have hexpectation : ∀ d link, e.planExpectation { req with candidates := cs } d link =
      e.planExpectation req d link := by
    intro d link
    unfold planExpectation
    dsimp only
    rw [hauthority]
  unfold planFailover
  rw [checkRequest_perm hp h, h]
  dsimp only
  unfold planSubject
  dsimp only
  simp only [hexpectation]

/-- The order in which a caller lists its candidates changes neither the decision nor anything
that the engine writes or keeps. -/
theorem requestFailover_perm (e : Engine) (req : FailoverRequest)
    (cs : List ReplacementCandidate) (hp : cs.Perm req.candidates)
    (h : e.checkRequest req = none) :
    e.requestFailover { req with candidates := cs } = e.requestFailover req := by
  unfold requestFailover
  split
  · rfl
  · rw [@planFailover_perm e.advance req cs hp h]
    rfl

end Engine

/-- A failover to the alternate link or to one that the topology does not know. -/
def Sample.choice : FailoverRequest :=
  { request ⟨1⟩ with candidates := [⟨alternate, .zero⟩, ⟨⟨name 102, name 122⟩, .zero⟩] }

/-- The unknown link may as well be named first. -/
theorem requestFailover_perm_sample :
    ∃ e : Engine, System.run (Sample.booted {} {}) = .up e ∧ e.Grants Sample.choice ∧
      e.requestFailover
          { Sample.choice with candidates := Sample.choice.candidates.reverse } =
        e.requestFailover Sample.choice := by
  obtain ⟨e, he, hp⟩ := @System.of_serves (System.run (Sample.booted {} {}))
    (fun e : Engine => e.grants Sample.choice && (e.checkRequest Sample.choice).isNone)
    (by decide +kernel)
  obtain ⟨hgrants, hchecked⟩ := (Bool.and_eq_true _ _).mp hp
  exact ⟨e, he, Engine.grants_iff.mp hgrants,
    e.requestFailover_perm Sample.choice Sample.choice.candidates.reverse
      (List.reverse_perm _) (Option.isNone_iff_eq_none.mp hchecked)⟩

end LinkFailover
