import LinkFailover.Publications

/-!
# The evidence of a boot

What an engine holds of its publishers is told by the reports that it accepted and by the
incarnations that it registered, in their order. The tables hold the last report of each kind that a
publisher made about a link since its last incarnation, and the counter holds their number.

* `EvidenceEvent`: what a publication adds to the log of a boot.
* `Filed`, `Registered`, `EntriesCounted`: what the log says about the tables, the registry and the
  counter.
* `watch`: a run, with the log and the ticks of the boot that is up.
-/

namespace LinkFailover

open Codec

/-! ## The log of a boot -/

/-- A report of either kind. -/
inductive Published where
  | failure (report : FailureReport)
  | replacement (report : ReplacementReport)

namespace Published

def link : Published → LinkKey
  | failure r => r.subject
  | replacement r => r.candidate

def stamp : Published → EvidenceStamp
  | failure r => r.stamp
  | replacement r => r.stamp

def failure? : Published → Option FailureReport
  | failure r => some r
  | replacement _ => none

def replacement? : Published → Option ReplacementReport
  | failure _ => none
  | replacement r => some r

end Published

inductive EvidenceEvent where
  | incarnation (publisher : PublisherName) (incarnation : Incarnation) (epoch : Epoch)
  | accepted (o : Published)

/-- What a publisher said since its last incarnation, the newest first. -/
def saidBy (p : PublisherName) : List EvidenceEvent → List Published
  | [] => []
  | .incarnation q _ _ :: events => if q = p then [] else saidBy p events
  | .accepted o :: events => if o.stamp.publisher = p then o :: saidBy p events else saidBy p events

def saidAbout (l : LinkKey) (p : PublisherName) (events : List EvidenceEvent) : List Published :=
  (saidBy p events).filter fun o => o.link = l

/-- The incarnations of a publisher with their epochs, the newest first. -/
def incarnationsOf (p : PublisherName) : List EvidenceEvent → List (Incarnation × Epoch)
  | [] => []
  | .incarnation q i n :: events =>
    if q = p then (i, n) :: incarnationsOf p events else incarnationsOf p events
  | .accepted _ :: events => incarnationsOf p events

namespace Engine

/-- The event of a publisher that is registered under another incarnation than before. -/
def reincarnation (e e' : Engine) (p : PublisherName) : List EvidenceEvent :=
  match e'.publishers.find? p with
  | none => []
  | some s =>
    if (e.publishers.find? p).map (·.incarnation) = some s.incarnation then []
    else [.incarnation p s.incarnation s.epoch]

/-- What a publication adds to the log, seen from the registry and from the answer. -/
def published (e : Engine) (result : Engine × Status) (o : Published) : List EvidenceEvent :=
  (if result.2.isOk then [.accepted o] else []) ++ e.reincarnation result.1 o.stamp.publisher

def evidenceEvents (e : Engine) : Operation → List EvidenceEvent
  | .publishFailure report => e.published (e.publishFailureReport report) (.failure report)
  | .publishReplacement report =>
    e.published (e.publishReplacementReport report) (.replacement report)
  | _ => []

end Engine

/-- A system with the log of the boot that is up, the newest event first, and with the ticks that
its clock has made. -/
structure Watch where
  system : System
  events : List EvidenceEvent := []
  ticks : Nat := 0

def Watch.step (w : Watch) (a : Action) : Watch :=
  match w.system, a with
  | .up e, .perform op =>
    { system := .up (e.perform op).1
      events := e.evidenceEvents op ++ w.events
      ticks := w.ticks + ((e.perform op).1.tick - e.tick).toNat }
  | .up e, .kill => { system := .down e.store.medium }
  | s@(.up _), .start _ => { system := s, events := w.events, ticks := w.ticks }
  | s, a => { system := s.step a }

def watch (actions : List Action) : Watch := actions.foldl Watch.step { system := .down {} }

theorem watch_append (actions : List Action) (a : Action) :
    watch (actions ++ [a]) = (watch actions).step a := by
  rw [watch, List.foldl_append]
  rfl

theorem Watch.step_system (w : Watch) (a : Action) : (w.step a).system = w.system.step a := by
  unfold Watch.step
  cases hs : w.system with
  | down m => rfl
  | up e => cases a <;> rfl

theorem watch_system (actions : List Action) : (watch actions).system = System.run actions := by
  induction actions using List.reverseRecOn with
  | nil => rfl
  | append_singleton actions a ih => rw [watch_append, Watch.step_system, ih, System.run_append]

/-! ## What the log says -/

/-- The registry and the sequences of an engine, as its log tells them. -/
structure Registered (e : Engine) (events : List EvidenceEvent) : Prop where
  registry : ∀ p, (e.publishers.find? p).map (fun s => (s.incarnation, s.epoch)) =
    (incarnationsOf p events).head?
  epochs : ∀ p, (incarnationsOf p events).Pairwise fun newer older => older.2 < newer.2
  attributed : ∀ p, ∀ o ∈ saidBy p events, ∃ s, e.publishers.find? p = some s ∧
    s.incarnation = o.stamp.publisherIncarnation
  sequences : ∀ l p, e.lastObservationSeq.get l p =
    (saidAbout l p events).head?.map (·.stamp.observationSeq)
  rising : ∀ l p, (saidAbout l p events).Pairwise fun newer older =>
    older.stamp.observationSeq < newer.stamp.observationSeq
  room : e.publishers.size ≤ e.options.limits.maxTrackedPublishers

/-- A table holds the last report of its kind. -/
def Filed {Report : Type} (report? : Published → Option Report) (t : EvidenceTable Report)
    (events : List EvidenceEvent) : Prop :=
  ∀ l p, (t.get l p).map (·.report) = (saidAbout l p events).findSome? report?

/-- The counter counts the entries of both tables. -/
structure EntriesCounted (e : Engine) : Prop where
  entries : e.evidenceEntries = e.failureEvidence.total + e.replacementEvidence.total
  room : e.evidenceEntries ≤ e.options.limits.maxEvidenceEntries

/-- Nothing arrived after now. -/
def Arrived {Report : Type} (t : EvidenceTable Report) (now : UInt64) : Prop :=
  ∀ l p x, t.get l p = some x → x.receiptTick ≤ now

structure Evident (e : Engine) (events : List EvidenceEvent) : Prop where
  registered : Registered e events
  failures : Filed Published.failure? e.failureEvidence events
  replacements : Filed Published.replacement? e.replacementEvidence events
  counted : EntriesCounted e

/-! ## New events -/

section Events

variable {p q : PublisherName} {l : LinkKey} {o : Published} {i : Incarnation} {n : Epoch}
  {events : List EvidenceEvent} {Report : Type} {report? : Published → Option Report}
  {t : EvidenceTable Report}

theorem saidAbout_incarnation : saidAbout l p (.incarnation q i n :: events) =
    if q = p then [] else saidAbout l p events := by
  unfold saidAbout
  rw [saidBy]
  split <;> rfl

theorem saidAbout_accepted : saidAbout l p (.accepted o :: events) =
    if o.link = l ∧ o.stamp.publisher = p then o :: saidAbout l p events
    else saidAbout l p events := by
  unfold saidAbout
  rw [saidBy]
  by_cases hp : o.stamp.publisher = p
  · rw [if_pos hp, List.filter_cons]
    simp only [hp, and_true, decide_eq_true_eq]
  · rw [if_neg hp, if_neg fun h => hp h.2]

theorem filed_empty : Filed report? (.empty : EvidenceTable Report) [] := fun _ _ => rfl

/-- A publisher that is registered for the first time has said nothing. -/
theorem Filed.incarnation (h : Filed report? t events) (hnone : ∀ l, t.get l p = none) :
    Filed report? t (.incarnation p i n :: events) := by
  intro l q
  rw [saidAbout_incarnation]
  split
  · rename_i hq
    rw [← hq, hnone l]
    rfl
  · exact h l q

/-- What a publisher said before its new incarnation is dropped. -/
theorem Filed.retire (h : Filed report? t events) :
    Filed report? (t.dropInner p) (.incarnation p i n :: events) := by
  intro l q
  rw [SortedMap.get_dropInner, saidAbout_incarnation]
  by_cases hq : q = p
  · rw [if_pos hq, if_pos hq.symm]
    rfl
  · rw [if_neg hq, if_neg fun h => hq h.symm]
    exact h l q

/-- A report of the other kind. -/
theorem Filed.other (h : Filed report? t events) (ho : report? o = none) :
    Filed report? t (.accepted o :: events) := by
  intro l p
  rw [saidAbout_accepted]
  split
  · rw [List.findSome?_cons, ho]
    exact h l p
  · exact h l p

theorem Filed.accept {x : Retained Report} (h : Filed report? t events)
    (ho : report? o = some x.report) :
    Filed report? (t.insert LinkKey.less o.link
      ((t.bucket o.link).insert nameLess o.stamp.publisher x)) (.accepted o :: events) := by
  intro l p
  rw [SortedMap.get_insert, saidAbout_accepted]
  by_cases hlp : l = o.link ∧ p = o.stamp.publisher
  · rw [if_pos hlp, if_pos ⟨hlp.1.symm, hlp.2.symm⟩, List.findSome?_cons, ho]
    rfl
  · rw [if_neg hlp, if_neg fun h => hlp ⟨h.1.symm, h.2.symm⟩]
    exact h l p

theorem Filed.rebucket (h : Filed report? t events) (l : LinkKey) :
    Filed report? (t.insert LinkKey.less l (t.bucket l)) events := by
  intro l' p
  rw [SortedMap.get_rebucket]
  exact h l' p

end Events

/-! ## Admissions -/

section Admissions

variable {e e₁ : Engine} {stamp : EvidenceStamp} {events : List EvidenceEvent} {p : PublisherName}

theorem Registered.unknown (h : Registered e events) (hp : e.publishers.find? p = none) :
    incarnationsOf p events = [] := by
  have hhead := h.registry p
  rw [hp] at hhead
  exact List.head?_eq_none_iff.mp hhead.symm

/-- Whoever is not registered has said nothing. -/
theorem Registered.silent (h : Registered e events) (hp : e.publishers.find? p = none)
    (l : LinkKey) : saidAbout l p events = [] := by
  have hsaid : saidBy p events = [] := by
    refine List.eq_nil_iff_forall_not_mem.mpr fun o ho => ?_
    obtain ⟨s, hs, -⟩ := h.attributed p o ho
    rw [hp] at hs
    cases hs
  rw [saidAbout, hsaid]
  rfl

/-- A new incarnation of a publisher, under a later epoch than the ones before, with nothing said
before it. -/
theorem Registered.reincarnated (h : Registered e events) {s : PublisherState}
    (hpublishers : ∀ q, e₁.publishers.find? q = if q = p then some s else e.publishers.find? q)
    (hsequences : ∀ l q, e₁.lastObservationSeq.get l q =
      if q = p then none else e.lastObservationSeq.get l q)
    (hepoch : ∀ x ∈ incarnationsOf p events, x.2 < s.epoch)
    (hroom : e₁.publishers.size ≤ e₁.options.limits.maxTrackedPublishers) :
    Registered e₁ (.incarnation p s.incarnation s.epoch :: events) where
  registry q := by
    rw [hpublishers, incarnationsOf]
    by_cases hq : q = p
    · rw [if_pos hq, if_pos hq.symm]
      rfl
    · rw [if_neg hq, if_neg fun h => hq h.symm]
      exact h.registry q
  epochs q := by
    rw [incarnationsOf]
    split
    · rename_i hq
      rw [← hq]
      exact List.pairwise_cons.mpr ⟨hepoch, h.epochs p⟩
    · exact h.epochs q
  attributed q o ho := by
    rw [saidBy] at ho
    by_cases hq : p = q
    · rw [if_pos hq] at ho
      cases ho
    · rw [if_neg hq] at ho
      rw [hpublishers, if_neg fun h => hq h.symm]
      exact h.attributed q o ho
  sequences l q := by
    rw [hsequences, saidAbout_incarnation]
    by_cases hq : q = p
    · rw [if_pos hq, if_pos hq.symm]
      rfl
    · rw [if_neg hq, if_neg fun h => hq h.symm]
      exact h.sequences l q
  rising l q := by
    rw [saidAbout_incarnation]
    split
    · exact .nil
    · exact h.rising l q
  room := hroom

theorem Registered.register (h : Registered e events)
    (hnew : e.publishers.find? stamp.publisher = none)
    (hroom : e.publishers.size < e.options.limits.maxTrackedPublishers) :
    Registered (e.registered stamp)
      (.incarnation stamp.publisher stamp.publisherIncarnation stamp.publisherEpoch :: events) := by
  refine h.reincarnated (e.find?_putPublisher _ · _) (fun l q => ?_) (fun x hx => ?_) ?_
  · change e.lastObservationSeq.get l q = _
    split
    · rename_i hq
      rw [hq, h.sequences, h.silent hnew]
      rfl
    · rfl
  · rw [h.unknown hnew] at hx
    cases hx
  · have hsize := @SortedMap.size_insert _ _ _ nameLess e.publishers stamp.publisher
      { incarnation := stamp.publisherIncarnation
        epoch := stamp.publisherEpoch
        firstSeenTick := e.tick }
    rw [SortedMap.contains, hnew] at hsize
    exact Nat.le_trans (Nat.le_of_eq hsize) hroom

theorem Registered.restart (h : Registered e events) {s : PublisherState}
    (hs : e.publishers.find? stamp.publisher = some s) (hlater : s.epoch < stamp.publisherEpoch) :
    Registered (e.restarted stamp s)
      (.incarnation stamp.publisher stamp.publisherIncarnation stamp.publisherEpoch :: events) := by
  have hpublishers : ∀ q, (e.restarted stamp s).publishers.find? q = if q = stamp.publisher then
      some { s with incarnation := stamp.publisherIncarnation, epoch := stamp.publisherEpoch }
      else e.publishers.find? q := (e.find?_putPublisher _ · _)
  refine h.reincarnated hpublishers
    (SortedMap.get_dropInner e.lastObservationSeq · stamp.publisher ·) (fun x hx => ?_) ?_
  · have hhead := h.registry stamp.publisher
    have hepochs := h.epochs stamp.publisher
    rw [hs] at hhead
    cases hi : incarnationsOf stamp.publisher events with
    | nil =>
      rw [hi] at hx
      cases hx
    | cons y ys =>
      rw [hi] at hhead hx hepochs
      cases hhead
      rcases List.mem_cons.mp hx with rfl | hy
      · exact hlater
      · have hold := (List.pairwise_cons.mp hepochs).1 x hy
        rw [StrongUint.lt_iff] at hold hlater ⊢
        exact Nat.lt_trans hold hlater
  · have hcontains : e.publishers.contains stamp.publisher = true := by
      rw [SortedMap.contains, hs, Option.isSome_some]
    have hsize := @SortedMap.size_insert _ _ _ nameLess e.publishers stamp.publisher
      { s with incarnation := stamp.publisherIncarnation, epoch := stamp.publisherEpoch }
    rw [hcontains, if_pos rfl] at hsize
    exact Nat.le_trans (Nat.le_of_eq (Nat.add_right_cancel hsize)) h.room

/-- A retirement takes the entries of the publisher off the counter. -/
theorem EntriesCounted.restart (h : EntriesCounted e) (s : PublisherState) : EntriesCounted (e.restarted stamp s) := by
  have hf : (e.failureEvidence.dropInner stamp.publisher).total +
      e.failureEvidence.entries.countP (fun b => b.2.contains stamp.publisher) =
        e.failureEvidence.total := SortedMap.total_dropInner _ _
  have hr : (e.replacementEvidence.dropInner stamp.publisher).total +
      e.replacementEvidence.entries.countP (fun b => b.2.contains stamp.publisher) =
        e.replacementEvidence.total := SortedMap.total_dropInner _ _
  have hentries := h.entries
  have hroom := h.room
  have hcounter : (e.restarted stamp s).evidenceEntries = e.evidenceEntries -
      e.failureEvidence.entries.countP (fun b => b.2.contains stamp.publisher) -
      e.replacementEvidence.entries.countP fun b => b.2.contains stamp.publisher := rfl
  have hfailures : (e.restarted stamp s).failureEvidence =
      e.failureEvidence.dropInner stamp.publisher := rfl
  have hreplacements : (e.restarted stamp s).replacementEvidence =
      e.replacementEvidence.dropInner stamp.publisher := rfl
  have hoptions : (e.restarted stamp s).options = e.options := rfl
  constructor
  · rw [hcounter, hfailures, hreplacements]
    omega
  · rw [hcounter, hoptions]
    omega

theorem Filed.unregistered {Report : Type} {report? : Published → Option Report}
    {t : EvidenceTable Report} (h : Filed report? t events) (hr : Registered e events)
    (hp : e.publishers.find? p = none) (l : LinkKey) : t.get l p = none := by
  have hl := h l p
  rw [hr.silent hp] at hl
  exact Option.map_eq_none_iff.mp hl

/-- An admission logs the incarnation that it registers, if any. -/
theorem Evident.admitted (h : Evident e events) (hadmits : Engine.Admits e stamp e₁) :
    Evident e₁ (e.reincarnation e₁ stamp.publisher ++ events) := by
  cases hadmits with
  | known hknown =>
    obtain ⟨s, hs, -⟩ := hknown
    have hnone : e.reincarnation e stamp.publisher = [] := by
      rw [Engine.reincarnation, hs]
      exact if_pos rfl
    rw [hnone]
    exact h
  | registered hnew hroom =>
    have hevent : e.reincarnation (e.registered stamp) stamp.publisher =
        [.incarnation stamp.publisher stamp.publisherIncarnation stamp.publisherEpoch] := by
      rw [Engine.reincarnation, Engine.registered, Engine.find?_putPublisher, if_pos rfl, hnew]
      rfl
    rw [hevent]
    exact ⟨h.registered.register hnew hroom,
      h.failures.incarnation (h.failures.unregistered h.registered hnew),
      h.replacements.incarnation (h.replacements.unregistered h.registered hnew),
      ⟨h.counted.entries, h.counted.room⟩⟩
  | @restarted s hs hother hlater =>
    have hfind : (e.restarted stamp s).publishers.find? stamp.publisher =
        some { s with incarnation := stamp.publisherIncarnation, epoch := stamp.publisherEpoch } :=
      (e.find?_putPublisher _ _ _).trans (if_pos rfl)
    have hevent : e.reincarnation (e.restarted stamp s) stamp.publisher =
        [.incarnation stamp.publisher stamp.publisherIncarnation stamp.publisherEpoch] := by
      rw [Engine.reincarnation, hfind, hs]
      exact if_neg fun heq => hother (Option.some.inj heq)
    rw [hevent]
    exact ⟨h.registered.restart hs hlater, h.failures.retire, h.replacements.retire,
      h.counted.restart s⟩

end Admissions

/-! ## Retentions -/

section Retentions

variable {Report : Type} {k : Engine.ReportKind Report} {report : Report} {e e' : Engine} {ok : Bool}
  {o : Published} {events : List EvidenceEvent}

theorem Registered.accept (h : Registered e events) (hk : Engine.OwnTable k)
    (hlink : o.link = k.link report) (hstamp : o.stamp = k.stamp report)
    (hknows : e.Knows (k.stamp report))
    (hadvances : e.sequenceReplayed (k.link report) (k.stamp report) = false) :
    Registered (e.accepting k report) (.accepted o :: events) where
  registry p := (Engine.accepting_publishers hk hknows p).trans (h.registry p)
  epochs := h.epochs
  attributed p x hx := by
    have hsome : ∀ s, e.publishers.find? p = some s →
        ∃ s', (e.accepting k report).publishers.find? p = some s' ∧
          s'.incarnation = s.incarnation := by
      intro s hs
      have hsame := Engine.accepting_publishers hk hknows p
      rw [hs] at hsame
      obtain ⟨s', hs', heq⟩ := Option.map_eq_some_iff.mp hsame
      exact ⟨s', hs', congrArg Prod.fst heq⟩
    have hbefore : ∃ s, e.publishers.find? p = some s ∧
        s.incarnation = x.stamp.publisherIncarnation := by
      rw [saidBy] at hx
      split at hx
      · rename_i hp
        rcases List.mem_cons.mp hx with rfl | hx
        · rw [← hp, hstamp]
          exact hknows
        · exact h.attributed p x hx
      · exact h.attributed p x hx
    obtain ⟨s, hs, hi⟩ := hbefore
    obtain ⟨s', hs', hi'⟩ := hsome s hs
    exact ⟨s', hs', hi'.trans hi⟩
  sequences l p := by
    rw [Engine.accepting_sequences hk, SortedMap.get_insert, saidAbout_accepted, hlink, hstamp]
    by_cases hlp : l = k.link report ∧ p = (k.stamp report).publisher
    · rw [if_pos hlp, if_pos ⟨hlp.1.symm, hlp.2.symm⟩, List.head?_cons, Option.map_some, hstamp]
    · rw [if_neg hlp, if_neg fun h => hlp ⟨h.1.symm, h.2.symm⟩]
      exact h.sequences l p
  rising l p := by
    rw [saidAbout_accepted]
    split
    · rename_i hlp
      obtain ⟨rfl, rfl⟩ := hlp
      have hrising := h.rising o.link o.stamp.publisher
      have hlast := h.sequences o.link o.stamp.publisher
      refine List.pairwise_cons.mpr ⟨fun x hx => ?_, hrising⟩
      have hnewer : ∀ last, e.lastObservationSeq.get o.link o.stamp.publisher = some last →
          last < o.stamp.observationSeq := by
        intro last hl
        by_contra hle
        rw [hlink, hstamp] at hl
        rw [hstamp, StrongUint.lt_iff] at hle
        have hreplayed := Engine.sequenceReplayed_iff.mpr
          ⟨last, hl, StrongUint.le_iff.mpr (Nat.not_lt.mp hle)⟩
        rw [hadvances] at hreplayed
        cases hreplayed
      cases hsaid : saidAbout o.link o.stamp.publisher events with
      | nil =>
        rw [hsaid] at hx
        cases hx
      | cons y ys =>
        rw [hsaid] at hx hlast hrising
        have hy := hnewer _ hlast
        rcases List.mem_cons.mp hx with rfl | hys
        · exact hy
        · have hold := (List.pairwise_cons.mp hrising).1 x hys
          rw [StrongUint.lt_iff] at hold hy ⊢
          exact Nat.lt_trans hold hy
    · exact h.rising l p
  room := by
    rw [Engine.accepting_size hk hknows, Engine.accepting_options hk]
    exact h.room

/-- A table with one more entry, unless the publisher had one in it. -/
theorem total_accept {t : EvidenceTable Report} (l : LinkKey) (p : PublisherName)
    (x : Retained Report) : (t.insert LinkKey.less l ((t.bucket l).insert nameLess p x)).total +
      (if (t.bucket l).contains p then 1 else 0) = t.total + 1 := by
  have htotal := @SortedMap.total_insert _ _ _ _ LinkKey.less t l ((t.bucket l).insert nameLess p x)
  have hsize := @SortedMap.size_insert _ _ _ nameLess (t.bucket l) p x
  omega

theorem total_rebucket {t : EvidenceTable Report} (l : LinkKey) :
    (t.insert LinkKey.less l (t.bucket l)).total = t.total :=
  Nat.add_right_cancel (SortedMap.total_insert t l (t.bucket l))

/-- The counter goes up with the number of entries. -/
theorem EntriesCounted.accept {entries total rest max : Nat} {contained : Bool} {total' : Nat}
    (hentries : entries = total + rest) (hroom : entries ≤ max)
    (hfits : ¬ (contained = false ∧ max ≤ entries))
    (htotal : total' + (if contained then 1 else 0) = total + 1) :
    (if contained then entries else entries + 1) = total' + rest ∧
      (if contained then entries else entries + 1) ≤ max := by
  cases contained with
  | false =>
    simp only [Bool.false_eq_true, if_false, true_and] at hfits htotal ⊢
    omega
  | true =>
    simp only [if_true] at htotal ⊢
    omega

/-- A retention logs the report that it accepts. -/
theorem Evident.retainFailure {report : FailureReport} (h : Evident e events)
    (hknows : e.Knows report.stamp)
    (hretains : Engine.Retains e Engine.failureReports report e' ok) :
    Evident e' ((if ok then [.accepted (.failure report)] else []) ++ events) := by
  cases hretains with
  | replayed => exact h
  | full =>
    refine ⟨⟨h.registered.registry, h.registered.epochs, h.registered.attributed,
      h.registered.sequences, h.registered.rising, h.registered.room⟩, h.failures.rebucket _,
      h.replacements, ?_, h.counted.room⟩
    rw [Engine.bucketed]
    exact h.counted.entries.trans (congrArg (· + _) (total_rebucket _).symm)
  | accepted hadvances hroom =>
    have haccept := EntriesCounted.accept h.counted.entries h.counted.room hroom
      (total_accept report.subject report.stamp.publisher (e.retain report report.digest))
    exact ⟨h.registered.accept Engine.failureReports_ownTable rfl rfl hknows hadvances,
      h.failures.accept (o := .failure report) rfl, h.replacements.other rfl, haccept.1, haccept.2⟩

theorem Evident.retainReplacement {report : ReplacementReport} (h : Evident e events)
    (hknows : e.Knows report.stamp)
    (hretains : Engine.Retains e Engine.replacementReports report e' ok) :
    Evident e' ((if ok then [.accepted (.replacement report)] else []) ++ events) := by
  cases hretains with
  | replayed => exact h
  | full =>
    refine ⟨⟨h.registered.registry, h.registered.epochs, h.registered.attributed,
      h.registered.sequences, h.registered.rising, h.registered.room⟩, h.failures,
      h.replacements.rebucket _, ?_, h.counted.room⟩
    rw [Engine.bucketed]
    exact h.counted.entries.trans (congrArg (_ + ·) (total_rebucket _).symm)
  | accepted hadvances hroom =>
    have haccept := EntriesCounted.accept ((h.counted.entries).trans (Nat.add_comm _ _)) h.counted.room
      hroom (total_accept report.candidate report.stamp.publisher (e.retain report report.digest))
    exact ⟨h.registered.accept Engine.replacementReports_ownTable rfl rfl hknows hadvances,
      h.failures.other rfl, h.replacements.accept (o := .replacement report) rfl, haccept.1.trans (Nat.add_comm _ _),
      haccept.2⟩

end Retentions

/-! ## Arrivals -/

section Arrivals

variable {Report : Type} {t : EvidenceTable Report} {now later : UInt64}

theorem Arrived.mono (h : Arrived t now) (hle : now ≤ later) : Arrived t later :=
  fun l p x hx => UInt64.le_trans (h l p x hx) hle

theorem Arrived.retire (h : Arrived t now) (p : PublisherName) : Arrived (t.dropInner p) now := by
  intro l q x hx
  rw [SortedMap.get_dropInner] at hx
  split at hx
  · cases hx
  · exact h l q x hx

theorem Arrived.rebucket (h : Arrived t now) (l : LinkKey) :
    Arrived (t.insert LinkKey.less l (t.bucket l)) now := by
  intro l' p x hx
  rw [SortedMap.get_rebucket] at hx
  exact h l' p x hx

theorem Arrived.accept (h : Arrived t now) (l : LinkKey) (p : PublisherName)
    {y : Retained Report} (hy : y.receiptTick ≤ now) :
    Arrived (t.insert LinkKey.less l ((t.bucket l).insert nameLess p y)) now := by
  intro l' q x hx
  rw [SortedMap.get_insert] at hx
  split at hx
  · cases hx
    exact hy
  · exact h l' q x hx

end Arrivals

/-- Nothing that is retained arrived after now. -/
structure Timely (e : Engine) : Prop where
  failures : Arrived e.failureEvidence e.tick
  replacements : Arrived e.replacementEvidence e.tick

section Publications

variable {e e₁ e' : Engine} {ok : Bool} {events : List EvidenceEvent}

theorem Timely.admitted {stamp : EvidenceStamp} (h : Timely e) (hadmits : Engine.Admits e stamp e₁) :
    Timely e₁ := by
  cases hadmits with
  | known => exact h
  | registered => exact ⟨h.failures, h.replacements⟩
  | restarted => exact ⟨h.failures.retire _, h.replacements.retire _⟩

theorem Timely.retainFailure {report : FailureReport} (h : Timely e)
    (hretains : Engine.Retains e Engine.failureReports report e' ok) : Timely e' := by
  cases hretains with
  | replayed => exact h
  | full => exact ⟨h.failures.rebucket _, h.replacements⟩
  | accepted => exact ⟨h.failures.accept _ _ UInt64.le_rfl, h.replacements⟩

theorem Timely.retainReplacement {report : ReplacementReport} (h : Timely e)
    (hretains : Engine.Retains e Engine.replacementReports report e' ok) : Timely e' := by
  cases hretains with
  | replayed => exact h
  | full => exact ⟨h.failures, h.replacements.rebucket _⟩
  | accepted => exact ⟨h.failures, h.replacements.accept _ _ UInt64.le_rfl⟩

theorem Engine.Retains.tick {Report : Type} {k : Engine.ReportKind Report} {report : Report}
    (hk : Engine.OwnTable k) (h : Engine.Retains e k report e' ok) : e'.tick = e.tick := by
  cases h with
  | replayed => rfl
  | full => exact hk.tick _ _
  | accepted => exact Engine.accepting_tick hk

/-- A publication makes one tick, or refuses the report at once. -/
theorem Engine.Publishes.tick {Report : Type} {k : Engine.ReportKind Report} {report : Report}
    (hk : Engine.OwnTable k) (h : Engine.Publishes e k report e' ok) :
    e' = e ∨ e'.tick = e.advance.tick := by
  cases h with
  | malformed => exact .inl rfl
  | unregistered => exact .inr rfl
  | admitted _ _ hadmits hretains => exact .inr ((hretains.tick hk).trans hadmits.tick)

theorem Timely.advance (h : Timely e) (hle : e.tick ≤ e.advance.tick) : Timely e.advance :=
  ⟨h.failures.mono hle, h.replacements.mono hle⟩

theorem Timely.publishFailure {report : FailureReport} (h : Timely e)
    (hpublishes : Engine.Publishes e Engine.failureReports report e' ok) (hle : e.tick ≤ e'.tick) :
    Timely e' := by
  have htick := hpublishes.tick Engine.failureReports_ownTable
  cases hpublishes with
  | malformed => exact h
  | unregistered => exact h.advance hle
  | admitted _ _ hadmits hretains =>
    rcases htick with rfl | htick
    · exact h
    · rw [htick] at hle
      exact ((h.advance hle).admitted hadmits).retainFailure hretains

theorem Timely.publishReplacement {report : ReplacementReport} (h : Timely e)
    (hpublishes : Engine.Publishes e Engine.replacementReports report e' ok)
    (hle : e.tick ≤ e'.tick) : Timely e' := by
  have htick := hpublishes.tick Engine.replacementReports_ownTable
  cases hpublishes with
  | malformed => exact h
  | unregistered => exact h.advance hle
  | admitted _ _ hadmits hretains =>
    rcases htick with rfl | htick
    · exact h
    · rw [htick] at hle
      exact ((h.advance hle).admitted hadmits).retainReplacement hretains

/-! ## Publications -/

theorem reincarnation_self (e : Engine) (p : PublisherName) : e.reincarnation e p = [] := by
  unfold Engine.reincarnation
  cases e.publishers.find? p with
  | none => rfl
  | some s => exact if_pos rfl

theorem reincarnation_congr {p : PublisherName}
    (h : (e'.publishers.find? p).map (fun s => (s.incarnation, s.epoch)) =
      (e₁.publishers.find? p).map fun s => (s.incarnation, s.epoch)) :
    e.reincarnation e' p = e.reincarnation e₁ p := by
  unfold Engine.reincarnation
  cases he' : e'.publishers.find? p with
  | none =>
    rw [he'] at h
    rw [Option.map_eq_none_iff.mp h.symm]
  | some s =>
    rw [he'] at h
    obtain ⟨s₁, hs₁, heq⟩ := Option.map_eq_some_iff.mp h.symm
    cases Prod.mk.inj heq with
    | intro hi hn =>
      rw [hs₁]
      dsimp only
      rw [hi, hn]

theorem Engine.Retains.registry {Report : Type} {k : Engine.ReportKind Report} {report : Report}
    (hk : Engine.OwnTable k) (hknows : e.Knows (k.stamp report))
    (h : Engine.Retains e k report e' ok) (p : PublisherName) :
    (e'.publishers.find? p).map (fun s => (s.incarnation, s.epoch)) =
      (e.publishers.find? p).map fun s => (s.incarnation, s.epoch) := by
  cases h with
  | replayed => rfl
  | full => rw [Engine.bucketed, hk.publishers]
  | accepted => exact Engine.accepting_publishers hk hknows p

theorem Evident.advance (h : Evident e events) : Evident e.advance events :=
  ⟨⟨h.registered.registry, h.registered.epochs, h.registered.attributed, h.registered.sequences,
    h.registered.rising, h.registered.room⟩, h.failures, h.replacements,
    ⟨h.counted.entries, h.counted.room⟩⟩

/-- A publication logs what it registers and what it accepts. -/
theorem Evident.published {Report : Type} {k : Engine.ReportKind Report} {report : Report}
    {o : Published} (h : Evident e events) (hk : Engine.OwnTable k)
    (hstamp : o.stamp = k.stamp report) (hpublishes : Engine.Publishes e k report e' ok)
    (hretain : ∀ {e₁ events}, Evident e₁ events → e₁.Knows (k.stamp report) →
      Engine.Retains e₁ k report e' ok →
        Evident e' ((if ok then [.accepted o] else []) ++ events)) :
    Evident e' ((if ok then [.accepted o] else []) ++ e.reincarnation e' o.stamp.publisher ++
      events) := by
  cases hpublishes with
  | malformed =>
    rw [reincarnation_self]
    exact h
  | unregistered =>
    rw [show e.reincarnation e.advance _ = [] from reincarnation_self e _]
    exact h.advance
  | admitted _ _ hadmits hretains =>
    have hregistry := hretains.registry hk hadmits.knows o.stamp.publisher
    rw [reincarnation_congr hregistry, List.append_assoc, hstamp]
    exact hretain (h.advance.admitted hadmits) hadmits.knows hretains

theorem Evident.publishFailure (h : Evident e events) (report : FailureReport) :
    Evident (e.publishFailureReport report).1
      (e.published (e.publishFailureReport report) (.failure report) ++ events) :=
  h.published Engine.failureReports_ownTable rfl (e.publish_inversion _ report) .retainFailure

theorem Evident.publishReplacement (h : Evident e events) (report : ReplacementReport) :
    Evident (e.publishReplacementReport report).1
      (e.published (e.publishReplacementReport report) (.replacement report) ++ events) :=
  h.published Engine.replacementReports_ownTable rfl (e.publish_inversion _ report)
    .retainReplacement

/-! ## Runs -/

theorem Evident.keeps (h : Evident e events) (hk : Keeps e e') : Evident e' events := by
  obtain ⟨hr, hf, hs, hc⟩ := h
  refine ⟨⟨?_, hr.epochs, ?_, ?_, hr.rising, ?_⟩, ?_, ?_, ?_, ?_⟩
  · rw [hk.publishers]
    exact hr.registry
  · rw [hk.publishers]
    exact hr.attributed
  · rw [hk.lastObservationSeq]
    exact hr.sequences
  · rw [hk.publishers, hk.options]
    exact hr.room
  · rw [hk.failureEvidence]
    exact hf
  · rw [hk.replacementEvidence]
    exact hs
  · rw [hk.evidenceEntries, hk.failureEvidence, hk.replacementEvidence]
    exact hc.entries
  · rw [hk.evidenceEntries, hk.options]
    exact hc.room

theorem Timely.keeps (h : Timely e) (hk : Keeps e e') (hle : e.tick ≤ e'.tick) : Timely e' := by
  constructor
  · rw [hk.failureEvidence]
    exact h.failures.mono hle
  · rw [hk.replacementEvidence]
    exact h.replacements.mono hle

theorem Evident.perform {wire : Prop} (hok : EngineOk wire e) (h : Evident e events)
    (op : Operation) : Evident (e.perform op).1 (e.evidenceEvents op ++ events) := by
  cases op with
  | publishFailure report => exact h.publishFailure report
  | publishReplacement report => exact h.publishReplacement report
  | _ =>
    rcases perform_keeps hok _ with hk | ⟨_, hop⟩ | ⟨_, hop⟩
    · exact h.keeps hk
    · cases hop
    · cases hop

theorem Timely.perform {wire : Prop} (hok : EngineOk wire e) (h : Timely e) (op : Operation)
    (hle : e.tick ≤ (e.perform op).1.tick) : Timely (e.perform op).1 := by
  rcases perform_keeps hok op with hk | ⟨report, rfl⟩ | ⟨report, rfl⟩
  · exact h.keeps hk hle
  · exact h.publishFailure (e.publish_inversion Engine.failureReports report) hle
  · exact h.publishReplacement (e.publish_inversion Engine.replacementReports report) hle

end Publications

/-- A process begins with empty tables, and its clock at zero. -/
theorem Boot.open_blank {b : Boot} {m m' : Medium} {e : Engine} (h : b.open m = (m', .ok e)) :
    ∃ s epoch, e = { options := b.options, store := s, incarnation := b.incarnation, epoch } := by
  unfold Boot.open Engine.openEngine at h
  split at h
  · cases h
  split at h
  · cases h
  split at h
  · cases h
  split at h
  · cases h
  split at h
  · cases h
  split at h
  · cases h
  · rename_i s epoch hboot
    cases h
    exact ⟨s, epoch, rfl⟩

theorem evident_blank (o : EngineOptions) (s : LineageStore) (i : Incarnation) (n : Epoch) :
    Evident { options := o, store := s, incarnation := i, epoch := n } [] where
  registered :=
    ⟨fun _ => rfl, fun _ => .nil, fun _ _ ho => (List.not_mem_nil ho).elim, fun _ _ => rfl,
      fun _ _ => .nil, Nat.zero_le _⟩
  failures := filed_empty
  replacements := filed_empty
  counted := ⟨rfl, Nat.zero_le _⟩

/-- What the log and the ticks of a boot say about its engine. -/
structure Watch.Ok (w : Watch) (e : Engine) : Prop where
  evident : Evident e w.events
  tick : e.tick.toNat = w.ticks % 2 ^ 64
  timely : w.ticks < 2 ^ 64 → Timely e

theorem Watch.Ok.perform {wire : Prop} {w : Watch} {e : Engine} (hok : EngineOk wire e)
    (hs : w.system = .up e) (h : w.Ok e) (op : Operation) :
    (w.step (.perform op)).Ok (e.perform op).1 := by
  have hstep : w.step (.perform op) =
      { system := .up (e.perform op).1
        events := e.evidenceEvents op ++ w.events
        ticks := w.ticks + ((e.perform op).1.tick - e.tick).toNat } := by
    unfold Watch.step
    rw [hs]
  have hsum : (e.perform op).1.tick = e.tick + ((e.perform op).1.tick - e.tick) := by
    rw [UInt64.add_comm, UInt64.sub_add_cancel]
  have htick : (e.perform op).1.tick.toNat =
      (w.ticks + ((e.perform op).1.tick - e.tick).toNat) % 2 ^ 64 := by
    conv => lhs; rw [hsum]
    rw [UInt64.toNat_add, h.tick, Nat.mod_add_mod]
  rw [hstep]
  refine ⟨h.evident.perform hok op, htick, fun hlt => ?_⟩
  dsimp only at hlt
  have hle : e.tick ≤ (e.perform op).1.tick := by
    rw [UInt64.le_iff_toNat_le, htick, h.tick, Nat.mod_eq_of_lt hlt,
      Nat.mod_eq_of_lt (by omega)]
    exact Nat.le_add_right _ _
  exact (h.timely (by omega)).perform hok op hle

theorem watch_ok {actions : List Action} {e : Engine} (h : System.run actions = .up e) :
    (watch actions).Ok e := by
  induction actions using List.reverseRecOn generalizing e with
  | nil => cases h
  | append_singleton actions a ih =>
    have hok : (System.run actions).Ok False := System.run_ok False.elim
    rw [watch_append]
    rw [System.run_append] at h
    cases hs : System.run actions with
    | down m =>
      rw [hs] at h
      have hw : (watch actions).system = .down m := (watch_system actions).trans hs
      have hstep : (watch actions).step a = { system := (System.down m).step a } := by
        unfold Watch.step
        rw [hw]
      cases a with
      | start b =>
        rw [System.step] at h
        split at h
        · cases h
        · rename_i m' e' hopen
          cases h
          obtain ⟨s, epoch, rfl⟩ := Boot.open_blank hopen
          rw [hstep]
          refine ⟨evident_blank _ _ _ _, rfl, fun _ => ⟨?_, ?_⟩⟩
          · intro l p x hx
            cases hx
          · intro l p x hx
            cases hx
      | perform | kill => cases h
    | up e₀ =>
      rw [hs] at h hok
      have hw : (watch actions).system = .up e₀ := (watch_system actions).trans hs
      cases a with
      | start b =>
        cases h
        have hstep : (watch actions).step (.start b) = watch actions := by
          unfold Watch.step
          rw [hw]
          cases hwatch : watch actions
          rw [hwatch] at hw
          exact congrArg (fun s => Watch.mk s _ _) hw.symm
        rw [hstep]
        exact ih hs
      | perform op =>
        cases h
        exact (ih hs).perform hok hw op
      | kill => cases h

/-! ## The evidence of a run -/

theorem EvidenceTable.has_iff {Report : Type} {t : EvidenceTable Report} {l : LinkKey}
    {p : PublisherName} {x : Retained Report} :
    EvidenceTable.Has t l p x ↔ t.get l p = some x := by
  unfold SortedMap.get SortedMap.bucket
  constructor
  · rintro ⟨b, hb, rfl, hx⟩
    rw [SortedMap.find?_of_mem hb]
    exact SortedMap.find?_of_mem hx
  · intro h
    exact EvidenceTable.has_bucket (SortedMap.mem_of_find? h)

/-- What the tables of a boot hold, against the log of the boot. -/
structure Consistent (e : Engine) (events : List EvidenceEvent) : Prop where
  counted : e.evidenceEntries = e.failureEvidence.total + e.replacementEvidence.total
  entries : e.evidenceEntries ≤ e.options.limits.maxEvidenceEntries
  publishers : e.publishers.size ≤ e.options.limits.maxTrackedPublishers
  failureCurrent : ∀ l p x, EvidenceTable.Has e.failureEvidence l p x →
    e.publisherCurrent p x.report.stamp = true
  replacementCurrent : ∀ l p x, EvidenceTable.Has e.replacementEvidence l p x →
    e.publisherCurrent p x.report.stamp = true
  rising : ∀ l p, (saidAbout l p events).Pairwise fun newer older =>
    older.stamp.observationSeq < newer.stamp.observationSeq
  lastFailure : ∀ l p, (e.failureEvidence.get l p).map (·.report) =
    (saidAbout l p events).findSome? Published.failure?
  lastReplacement : ∀ l p, (e.replacementEvidence.get l p).map (·.report) =
    (saidAbout l p events).findSome? Published.replacement?
  epochs : ∀ p, (incarnationsOf p events).Pairwise fun newer older => older.2 < newer.2

theorem Evident.current {e : Engine} {events : List EvidenceEvent} (h : Evident e events)
    {l : LinkKey} {p : PublisherName} {o : Published} (ho : o ∈ saidAbout l p events) :
    e.publisherCurrent p o.stamp = true := by
  obtain ⟨s, hs, hi⟩ := h.registered.attributed p o (List.mem_filter.mp ho).1
  rw [Engine.publisherCurrent, hs]
  exact decide_eq_true hi

theorem Evident.consistent {e : Engine} {events : List EvidenceEvent} (h : Evident e events) :
    Consistent e events where
  counted := h.counted.entries
  entries := h.counted.room
  publishers := h.registered.room
  failureCurrent l p x hx := by
    have hlast := h.failures l p
    rw [EvidenceTable.has_iff.mp hx] at hlast
    obtain ⟨o, ho, hreport⟩ := List.exists_of_findSome?_eq_some hlast.symm
    cases o with
    | failure r =>
      cases hreport
      exact h.current ho
    | replacement r => cases hreport
  replacementCurrent l p x hx := by
    have hlast := h.replacements l p
    rw [EvidenceTable.has_iff.mp hx] at hlast
    obtain ⟨o, ho, hreport⟩ := List.exists_of_findSome?_eq_some hlast.symm
    cases o with
    | failure r => cases hreport
    | replacement r =>
      cases hreport
      exact h.current ho
  rising := h.registered.rising
  lastFailure := h.failures
  lastReplacement := h.replacements
  epochs := h.registered.epochs

/-- In every run the counter counts what the tables hold, the tables hold what the log says last,
and nothing arrived after now as long as the clock has not wrapped. -/
theorem evidence_consistent (actions : List Action) {e : Engine}
    (h : System.run actions = .up e) :
    Consistent e (watch actions).events ∧
      ((watch actions).ticks < 2 ^ 64 →
        (∀ l p x, EvidenceTable.Has e.failureEvidence l p x → x.receiptTick ≤ e.tick) ∧
          ∀ l p x, EvidenceTable.Has e.replacementEvidence l p x → x.receiptTick ≤ e.tick) := by
  have hwatch := watch_ok h
  refine ⟨hwatch.evident.consistent, fun hticks => ⟨fun l p x hx => ?_, fun l p x hx => ?_⟩⟩
  · exact (hwatch.timely hticks).failures l p x (EvidenceTable.has_iff.mp hx)
  · exact (hwatch.timely hticks).replacements l p x (EvidenceTable.has_iff.mp hx)

/-! ## A clock that wraps -/

namespace Engine

variable {e : Engine} {report : FailureReport}

/-- The publisher of a well formed report is known, and the sequence of the report does not
advance. -/
def replays (e : Engine) (report : FailureReport) : Bool :=
  (e.admitReport failureReports report).isNone && e.publisherCurrent report.stamp.publisher
    report.stamp && e.sequenceReplayed report.subject report.stamp

/-- A replay costs a tick. -/
theorem publish_replayed (h : e.replays report = true) :
    (e.publishFailureReport report).1 = e.advance := by
  obtain ⟨hformed, hreplayed⟩ := Bool.and_eq_true_iff.mp h
  obtain ⟨hformed, hcurrent⟩ := Bool.and_eq_true_iff.mp hformed
  have hknows : e.Knows report.stamp := by
    unfold publisherCurrent at hcurrent
    split at hcurrent
    · cases hcurrent
    · rename_i s hs
      exact ⟨s, hs, of_decide_eq_true hcurrent⟩
  have hpublishes := e.publish_inversion failureReports report
  unfold publishFailureReport
  revert hpublishes
  generalize e.publish failureReports report = result
  obtain ⟨e', status⟩ := result
  dsimp only
  generalize status.isOk = ok
  intro hpublishes
  cases hpublishes with
  | malformed hm =>
    rw [hm] at hformed
    cases hformed
  | unregistered => rfl
  | admitted _ _ hadmits hretains =>
    obtain rfl := hadmits.of_knows hknows
    cases hretains with
    | replayed => rfl
    | full hadvances => exact absurd hreplayed (Bool.eq_false_iff.mp hadvances)
    | accepted hadvances => exact absurd hreplayed (Bool.eq_false_iff.mp hadvances)

def laterBy (e : Engine) (n : Nat) : Engine := { e with tick := e.tick + UInt64.ofNat n }

end Engine

theorem run_replays {actions : List Action} {e : Engine} {report : FailureReport}
    (h : System.run actions = .up e) (hr : e.replays report = true) (n : Nat) :
    System.run (actions ++ List.replicate n (.perform (.publishFailure report))) =
      .up (e.laterBy n) := by
  induction n with
  | zero =>
    rw [List.replicate_zero, List.append_nil, h]
    exact congrArg System.up (congrArg (fun t => { e with tick := t }) (UInt64.add_zero _).symm)
  | succ n ih =>
    rw [List.replicate_succ', ← List.append_assoc, System.run_append, ih]
    change System.up ((e.laterBy n).publishFailureReport report).1 = _
    rw [Engine.publish_replayed (e := e.laterBy n) hr]
    refine congrArg System.up (congrArg (fun t => { e with tick := t }) ?_)
    rw [UInt64.ofNat_add, ← UInt64.add_assoc]
    rfl

/-- The report of the sample. -/
def Sample.downReport : FailureReport where
  subject := primary
  linkGeneration := ⟨1⟩
  topologyGeneration := ⟨1⟩
  state := .down
  confidence := ⟨1000⟩
  stamp := stamp 1

theorem receipt_after_now : ¬ ∀ (actions : List Action) (e : Engine), System.run actions = .up e →
    ∀ l p x, EvidenceTable.Has e.failureEvidence l p x → x.receiptTick ≤ e.tick := by
  intro hall
  obtain ⟨e, he, hp⟩ := @System.of_serves (System.run (Sample.booted {} {}))
    (fun e => e.replays Sample.downReport && e.tick == 2 &&
      (e.failureEvidence.get Sample.primary (Sample.name 112)).any fun x => x.receiptTick == 1)
    (by decide +kernel)
  simp only [Bool.and_eq_true, beq_iff_eq] at hp
  obtain ⟨⟨hr, htick⟩, hx⟩ := hp
  obtain ⟨x, hget, hone⟩ := (Option.any_eq_true _ _).mp hx
  obtain ⟨n, hn⟩ : ∃ n, n + 2 = 2 ^ 64 := ⟨2 ^ 64 - 2, rfl⟩
  have hle := hall _ _ (run_replays he hr n) Sample.primary (Sample.name 112) x
    (EvidenceTable.has_iff.mpr hget)
  have hnow : (e.laterBy n).tick.toNat = 0 := by
    change (e.tick + UInt64.ofNat n).toNat = 0
    have htwo : (2 : UInt64).toNat = 2 := rfl
    rw [htick, UInt64.toNat_add, UInt64.toNat_ofNat', htwo]
    omega
  have hreceipt : x.receiptTick.toNat = 1 := by
    rw [eq_of_beq hone]
    rfl
  rw [UInt64.le_iff_toNat_le, hnow, hreceipt] at hle
  omega

theorem evidence_consistent_sample : ∃ e, System.run (Sample.booted {} {}) = .up e ∧
    Consistent e (watch (Sample.booted {} {})).events ∧ e.evidenceEntries = 2 := by
  obtain ⟨e, he, hp⟩ := @System.of_serves (System.run (Sample.booted {} {}))
    (fun e => e.evidenceEntries == 2) (by decide +kernel)
  exact ⟨e, he, (evidence_consistent _ he).1, eq_of_beq hp⟩

end LinkFailover
