import LinkFailover.Memories
import LinkFailover.Mirrors

/-!
# Bounds on what is retained

Fences and idempotency entries leave their tables in the order in which they were written, so a
table always holds the newest ones. How many there are is another matter: a write keeps its table
within the limit of the process, but a snapshot is loaded as it is, and the boot rewrites the
attempts that it interrupts without an eviction. The bounds hold throughout a boot that recovers a
state within them.

* `Trace.keeps`: the tables hold the newest of what the lineage holds.
* `Bounded`: the bounds of the tables.
* `Boot.open_bounded_iff`: a process begins within the bounds exactly when it recovers a state
  within them.
* `retention_bounds_iff`: what the processes of a run retain.
-/

namespace LinkFailover

open Codec

/-! ## What was written -/

/-- The fences of a lineage, at their positions. -/
def fencesOf (entries : List Entry) : List FenceRecord :=
  entries.filterMap fun x =>
    match x.2 with
    | .fence f => some { f with seq := x.1 }
    | _ => none

def idempotencyOf (entries : List Entry) : List IdempotencyEntry :=
  entries.filterMap fun x =>
    match x.2 with
    | .idempotency e => some e
    | _ => none

theorem fencesOf_append (entries entries' : List Entry) :
    fencesOf (entries ++ entries') = fencesOf entries ++ fencesOf entries' :=
  List.filterMap_append ..

theorem idempotencyOf_append (entries entries' : List Entry) :
    idempotencyOf (entries ++ entries') = idempotencyOf entries ++ idempotencyOf entries' :=
  List.filterMap_append ..

/-- Both tables hold the newest of what was written, and no fewer than two numbers. -/
structure KeepsNewest (lf li : Nat) (entries : List Entry) (d : DurableState) : Prop where
  fences : Kept lf (fencesOf entries) d.fences
  idempotency : Kept li (idempotencyOf entries) d.idempotency
  rising : (fencesOf entries).Pairwise fun f g => f.seq.toNat < g.seq.toNat
  placed : ∀ f ∈ fencesOf entries, f.seq.toNat ≤ entries.length

/-- What a record does to the two tables, under the options of the process. -/
structure Files (o : StoreOptions) (seq : LineageSeq) (d : DurableState) (p : Payload)
    (d' : DurableState) : Prop where
  fences : d'.fences =
    match p with
    | .fence f => evictFences o (d.fences ++ [{ f with seq := seq }])
    | _ => d.fences
  idempotency : d'.idempotency =
    match p with
    | .idempotency e => evictIdempotency o (d.idempotency ++ [e])
    | _ => d.idempotency

section Filing

variable {wire : Prop} {entries : List Entry} {o : StoreOptions} {d d' : DurableState}
  {seq : LineageSeq} {p : Payload} {lf li : Nat}

theorem Writes.files {j j' : Job} {apply : LineageSeq → DurableState → DurableState}
    (w : Writes wire entries o d j p apply j') (seq : LineageSeq) :
    Files o seq d p (apply seq d) := by
  cases w <;> exact ⟨rfl, rfl⟩

theorem applyRecord_files (hp : p.Decodes) (h : d.applyRecord o (p.record seq) = .ok d') :
    Files o seq d p d' := by
  cases p with
  | boot p =>
    rw [DurableState.applyRecord_boot] at h
    cases h
    exact ⟨rfl, rfl⟩
  | policy p =>
    rw [DurableState.applyRecord_policy (DurableState.applyRecord_declared h)] at h
    cases h
    exact ⟨rfl, rfl⟩
  | topology t =>
    rw [DurableState.applyRecord_topology hp] at h
    cases h
    exact ⟨rfl, rfl⟩
  | attempt w r =>
    rw [DurableState.applyRecord_attempt _ (DurableState.applyRecord_declared h)] at h
    cases hc : DurableState.checkAttempt w.type seq r with
    | error e => rw [hc] at h; cases h
    | ok _ =>
      rw [hc] at h
      cases h
      exact ⟨rfl, rfl⟩
  | fence f =>
    rw [DurableState.applyRecord_fence] at h
    split at h
    · cases h
    · rename_i hs
      cases h
      rw [← not_not.mp hs]
      exact ⟨rfl, rfl⟩
  | decision c =>
    unfold DurableState.applyRecord at h
    simp only [Payload.record, Payload.type] at h
    split at h
    · cases h
    · cases h
      exact ⟨rfl, rfl⟩
  | idempotency e =>
    rw [DurableState.applyRecord_idempotency hp] at h
    cases h
    exact ⟨rfl, rfl⟩
  | checkpoint | shutdown =>
    cases h
    exact ⟨rfl, rfl⟩

theorem evictIdempotency_eq (o : StoreOptions) (es : List IdempotencyEntry) :
    evictIdempotency o es = newest o.maxIdempotency es := by
  unfold evictIdempotency
  split
  · rename_i h
    exact (newest_of_le h).symm
  · rfl

/-- Fences stand in the order of their positions, so their sort changes nothing. -/
theorem evictFences_eq {o : StoreOptions} {fences : List FenceRecord}
    (h : fences.Pairwise fun f g => f.seq.toNat < g.seq.toNat) :
    evictFences o fences = newest o.maxFences fences := by
  unfold evictFences
  split
  · rename_i hle
    exact (newest_of_le hle).symm
  · have hsorted : BoundedTable.sortBy FenceRecord.less fences = fences := by
      refine List.Pairwise.insertionSort_eq (h.imp fun {f g} hlt => ?_)
      change decide (g.seq < f.seq) = false
      rw [decide_eq_false_iff_not, StrongUint.lt_iff]
      omega
    rw [hsorted]
    rfl

/-- A record of another kind. -/
theorem KeepsNewest.quiet (h : KeepsNewest lf li entries d) (hf : fencesOf [(seq, p)] = [])
    (hi : idempotencyOf [(seq, p)] = []) (hfences : d'.fences = d.fences)
    (hidempotency : d'.idempotency = d.idempotency) :
    KeepsNewest lf li (entries ++ [(seq, p)]) d' := by
  constructor
  · rw [fencesOf_append, hf, List.append_nil, hfences]
    exact h.fences
  · rw [idempotencyOf_append, hi, List.append_nil, hidempotency]
    exact h.idempotency
  · rw [fencesOf_append, hf, List.append_nil]
    exact h.rising
  · rw [fencesOf_append, hf, List.append_nil, List.length_append]
    exact fun x hx => Nat.le_succ_of_le (h.placed x hx)

theorem KeepsNewest.file (h : KeepsNewest lf li entries d) (hf : lf ≤ o.maxFences)
    (hi : li ≤ o.maxIdempotency) (hseq : seq.toNat = entries.length + 1)
    (hfiles : Files o seq d p d') : KeepsNewest lf li (entries ++ [(seq, p)]) d' := by
  cases p with
  | fence f =>
    have hnew : fencesOf (entries ++ [(seq, .fence f)]) =
        fencesOf entries ++ [{ f with seq := seq }] := fencesOf_append ..
    have hsame : idempotencyOf (entries ++ [(seq, .fence f)]) = idempotencyOf entries :=
      (idempotencyOf_append ..).trans (List.append_nil _)
    have hrising : (fencesOf entries ++ [{ f with seq := seq }]).Pairwise
        fun (f g : FenceRecord) => f.seq.toNat < g.seq.toNat := by
      refine List.pairwise_append.mpr ⟨h.rising, List.pairwise_singleton _ _, fun x hx y hy => ?_⟩
      rw [List.mem_singleton.mp hy]
      exact Nat.lt_of_le_of_lt (h.placed x hx) (Nat.lt_of_succ_le hseq.ge)
    have hfences : d'.fences = newest o.maxFences (d.fences ++ [{ f with seq := seq }]) :=
      hfiles.fences.trans
        (evictFences_eq (hrising.sublist (suffix_append_right h.fences.suffix _).sublist))
    refine ⟨?_, ?_, ?_, ?_⟩
    · rw [hnew, hfences]
      exact h.fences.append hf _
    · rw [hsame, show d'.idempotency = d.idempotency from hfiles.idempotency]
      exact h.idempotency
    · rw [hnew]
      exact hrising
    · rw [hnew, List.length_append]
      intro x hx
      rcases List.mem_append.mp hx with hx | hx
      · exact Nat.le_succ_of_le (h.placed x hx)
      · rw [List.mem_singleton.mp hx]
        exact hseq.le
  | idempotency e =>
    have hnew : idempotencyOf (entries ++ [(seq, .idempotency e)]) =
        idempotencyOf entries ++ [e] := idempotencyOf_append ..
    have hsame : fencesOf (entries ++ [(seq, .idempotency e)]) = fencesOf entries :=
      (fencesOf_append ..).trans (List.append_nil _)
    have hidempotency : d'.idempotency = newest o.maxIdempotency (d.idempotency ++ [e]) :=
      hfiles.idempotency.trans (evictIdempotency_eq o _)
    refine ⟨?_, ?_, ?_, ?_⟩
    · rw [hsame, show d'.fences = d.fences from hfiles.fences]
      exact h.fences
    · rw [hnew, hidempotency]
      exact h.idempotency.append hi _
    · rw [hsame]
      exact h.rising
    · rw [hsame, List.length_append]
      exact fun x hx => Nat.le_succ_of_le (h.placed x hx)
  | _ => exact h.quiet rfl rfl hfiles.fences hfiles.idempotency

end Filing

/-! ## Traces -/

section Traces

variable {wire : Prop} {history : List Event} {phase : Phase} {lf li : Nat}

theorem keepsNewest_start (lf li : Nat) {d : DurableState} (hf : d.fences = [])
    (hi : d.idempotency = []) : KeepsNewest lf li [] d := by
  refine ⟨?_, ?_, .nil, fun _ hx => (List.not_mem_nil hx).elim⟩
  · rw [hf]
    exact .nil
  · rw [hi]
    exact .nil

theorem KeepsNewest.congr {entries : List Entry} {d d' : DurableState}
    (h : KeepsNewest lf li entries d) (hf : d'.fences = d.fences)
    (hi : d'.idempotency = d.idempotency) : KeepsNewest lf li entries d' := by
  refine ⟨?_, ?_, h.rising, h.placed⟩
  · rw [hf]
    exact h.fences
  · rw [hi]
    exact h.idempotency

/-- A replay files record by record. -/
theorem replayRecords_file {o : StoreOptions} {before rs : List Entry}
    {acc acc' : DurableState × List Event} (hf : lf ≤ o.maxFences) (hi : li ≤ o.maxIdempotency)
    (hs : KeepsNewest lf li before acc.1)
    (hrs : ∀ A x B, rs = A ++ x :: B → x.2.Decodes ∧ x.1.toNat = (before ++ A).length + 1)
    (h : Disk.replayRecords o rs acc = .ok acc') :
    KeepsNewest lf li (before ++ rs) acc'.1 := by
  induction rs using List.reverseRecOn generalizing acc' with
  | nil =>
    cases h
    rwa [List.append_nil]
  | append_singleton rs r ih =>
    rw [replayRecords_append] at h
    cases hr : Disk.replayRecords o rs acc with
    | error e => rw [hr] at h; cases h
    | ok mid =>
      rw [hr, ok_bind] at h
      obtain ⟨happly, -⟩ := replayRecord_eq_ok h
      have hmid := ih (fun A x B he => hrs A x (B ++ [r]) (by rw [he]; simp)) hr
      obtain ⟨hdecodes, hseq⟩ := hrs rs r [] rfl
      rw [← List.append_assoc]
      exact hmid.file hf hi hseq (applyRecord_files hdecodes happly)

/-- The options of a process stand in its history. -/
theorem opened_of_optionsOf {o : StoreOptions} (h : optionsOf none history = some o) :
    .opened o ∈ history := by
  induction history using List.reverseRecOn with
  | nil => cases h
  | append_singleton history x ih =>
    rw [optionsOf_append] at h
    cases x with
    | opened o' =>
      cases h
      exact List.mem_append_right _ (List.mem_singleton_self _)
    | _ => exact List.mem_append_left _ (ih h)

/-- No process of a history had lower limits. -/
def LimitsFrom (lf li : Nat) (history : List Event) : Prop :=
  ∀ o, .opened o ∈ history → lf ≤ o.maxFences ∧ li ≤ o.maxIdempotency

theorem LimitsFrom.left {h g : List Event} (hl : LimitsFrom lf li (h ++ g)) :
    LimitsFrom lf li h := fun o ho => hl o (List.mem_append_left _ ho)

/-- The tables of a process, and those that the next one would find on the disk, hold the newest
of what was written, and no fewer than the lowest limits. -/
theorem Trace.keeps (h : Trace wire history phase) (hl : LimitsFrom lf li history) :
    ((Disk.ofHistory history).base = (Disk.ofHistory history).covered → ∀ before,
      lineage history = before ++ (Disk.ofHistory history).records → ∀ o : StoreOptions,
        KeepsNewest lf li before ((Disk.ofHistory history).start o)) ∧
      ∀ o d j, phase = .live o d j → KeepsNewest lf li (lineage history) d := by
  induction h with
  | empty =>
    refine ⟨fun _ before hb o => ?_, by simp⟩
    obtain rfl : before = [] := (List.append_eq_nil_iff.mp hb.symm).1
    exact keepsNewest_start lf li rfl rfl
  | @opened history o d events h valid base replay ih =>
    obtain ⟨hdisk, -⟩ := ih hl.left
    obtain ⟨⟨before, hsuffix, -⟩, hpos⟩ := h.numbered.1
    obtain ⟨hf, hi⟩ := hl o (List.mem_append_right _ List.mem_cons_self)
    have hstate : KeepsNewest lf li (lineage history) d := by
      rw [hsuffix]
      refine replayRecords_file hf hi (hdisk base before hsuffix o) ?_ replay
      intro A x B he
      rw [he, ← List.append_assoc] at hsuffix
      exact ⟨(h.retained.entries _ x B hsuffix).2, hpos _ x B hsuffix⟩
    rw [← lineage_opened replay] at hstate
    refine ⟨?_, ?_⟩
    · rw [lineage_opened replay, ofHistory_opened replay]
      exact hdisk
    · rintro o' d' j' ⟨⟩
      exact hstate.congr rfl rfl
  | @committed history o d j j' p apply seq h w next ih =>
    obtain ⟨hdisk, hlive⟩ := ih hl.left
    have hn := h.numbered
    have hseq : seq.toNat = (lineage history).length + 1 := by
      rw [StrongUint.next_toNat next, hn.2 _ _ _ rfl, hn.1.last]
    obtain ⟨hf, hi⟩ := hl.left o (opened_of_optionsOf (h.options_live rfl))
    refine ⟨fun hb before hbefore => ?_, ?_⟩
    · rw [Disk.ofHistory_append] at hb ⊢
      rw [Disk.ofHistory_append, lineage_append, lineage_committed] at hbefore
      refine hdisk hb before ?_
      change _ = before ++ ((Disk.ofHistory history).records ++ [(seq, p)]) at hbefore
      rw [← List.append_assoc] at hbefore
      exact (List.append_inj' hbefore rfl).1
    · rintro o' d' j'' ⟨⟩
      rw [lineage_append, lineage_committed]
      exact ((hlive _ _ _ rfl).file hf hi hseq (w.files seq)).congr rfl rfl
  | @lost history o d j j' p apply seq h w next ih =>
    obtain ⟨hdisk, -⟩ := ih hl.left
    refine ⟨fun hb before hbefore => ?_, by simp⟩
    rw [Disk.ofHistory_append] at hb ⊢
    rw [Disk.ofHistory_append, lineage_append, lineage_committed] at hbefore
    refine hdisk hb before ?_
    change _ = before ++ ((Disk.ofHistory history).records ++ [(seq, p)]) at hbefore
    rw [← List.append_assoc] at hbefore
    exact (List.append_inj' hbefore rfl).1
  | booted h _ ih | fenced h _ ih =>
    obtain ⟨hdisk, hlive⟩ := ih hl
    refine ⟨hdisk, ?_⟩
    rintro o d j ⟨⟩
    exact hlive _ _ _ rfl
  | @rotated history o d h ih =>
    obtain ⟨-, hlive⟩ := ih hl.left
    have hstate := hlive _ _ _ rfl
    refine ⟨fun _ before hbefore _ => ?_, ?_⟩
    · rw [Disk.ofHistory_append, lineage_append, lineage_checkpointed, List.append_nil] at hbefore
      rw [Disk.ofHistory_append]
      change KeepsNewest lf li before d
      rw [← show lineage history = before from hbefore.trans (List.append_nil _)]
      exact hstate
    · rintro o' d' j' ⟨⟩
      rw [lineage_append, lineage_checkpointed, List.append_nil]
      exact hstate
  | @replaced history o d h ih =>
    obtain ⟨-, hlive⟩ := ih hl.left
    refine ⟨fun hb before hbefore _ => ?_, by simp⟩
    rw [Disk.ofHistory_append] at hb
    rw [Disk.ofHistory_append, lineage_append, lineage_checkpointed, List.append_nil] at hbefore
    rw [Disk.ofHistory_append]
    change KeepsNewest lf li before d
    -- the old journal counts only when the snapshot stands where the journal begins
    obtain ⟨⟨before', hs', hb'⟩, -⟩ := h.numbered.1
    have hlast := h.numbered.1.last
    have hbase : (Disk.ofHistory history).base = d.lastSeq := hb
    have hlen : before'.length = (lineage history).length := by
      rw [hb', hbase, h.numbered.2 _ _ _ rfl, hlast]
    have hnil : (Disk.ofHistory history).records = [] := by
      rw [hs', List.length_append] at hlen
      exact List.length_eq_zero_iff.mp (by omega)
    change _ = before ++ (Disk.ofHistory history).records at hbefore
    rw [hnil, List.append_nil] at hbefore
    rw [← hbefore]
    exact hlive _ _ _ rfl
  | stopped h ih => exact ⟨(ih hl).1, by simp⟩

end Traces

/-! ## Bounds -/

/-- The tables are within the limits of the process. Attempts that are not terminal may stand above
the limit, with no others beside them. -/
structure Bounded (o : StoreOptions) (d : DurableState) : Prop where
  fences : d.fences.length ≤ o.maxFences
  idempotency : d.idempotency.length ≤ o.maxIdempotency
  attempts : d.attempts.length ≤ o.maxAttempts ∨
    o.maxAttempts < (d.attempts.filter fun q => !q.isTerminal).length ∧
      ∀ q ∈ d.attempts, q.isTerminal = false

theorem length_evictFences (o : StoreOptions) (fences : List FenceRecord) :
    (evictFences o fences).length ≤ o.maxFences := by
  unfold evictFences
  split
  · assumption
  · rw [List.length_drop, BoundedTable.sortBy_perm.length_eq]
    omega

theorem length_evictIdempotency (o : StoreOptions) (es : List IdempotencyEntry) :
    (evictIdempotency o es).length ≤ o.maxIdempotency := by
  rw [evictIdempotency_eq, length_newest]
  exact Nat.min_le_left _ _

theorem bounded_evictAttempts (o : StoreOptions) (attempts : List AttemptRecord) :
    (evictAttempts o attempts).length ≤ o.maxAttempts ∨
      o.maxAttempts < ((evictAttempts o attempts).filter fun q => !q.isTerminal).length ∧
        ∀ q ∈ evictAttempts o attempts, q.isTerminal = false := by
  rcases Nat.lt_or_ge o.maxAttempts (evictAttempts o attempts).length with hlt | hle
  · have hnone : ∀ q ∈ evictAttempts o attempts, q.isTerminal = false :=
      BoundedTable.evict_bound.resolve_left (Nat.not_le.mpr hlt)
    refine .inr ⟨?_, hnone⟩
    rw [List.filter_eq_self.mpr fun q hq => by rw [hnone q hq]; rfl]
    exact hlt
  · exact .inl hle

section Steps

variable {wire : Prop} {entries : List Entry} {o : StoreOptions} {d : DurableState} {j j' : Job}
  {p : Payload} {apply : LineageSeq → DurableState → DurableState} {s : LineageStore}

/-- Once the boot is over, every write keeps its table within the limit. -/
theorem Writes.bounded (w : Writes wire entries o d j p apply j') (hj : j.Serves)
    (h : Bounded o d) (seq : LineageSeq) : Bounded o (apply seq d) := by
  cases w with
  | boot | interrupt => cases hj
  | fence => exact ⟨length_evictFences o _, h.idempotency, h.attempts⟩
  | idempotency => exact ⟨h.fences, length_evictIdempotency o _, h.attempts⟩
  | record | grant | authorize | carry | rollback | abort =>
    exact ⟨h.fences, h.idempotency, bounded_evictAttempts o _⟩
  | policy | topology | decision | checkpoint | shutdown =>
    exact ⟨h.fences, h.idempotency, h.attempts⟩

theorem commit_bounded (w : s.failed = false →
      Writes wire (lineage s.medium.history) s.options s.state j p apply j') (hj : j.Serves)
    (h : Bounded s.options s.state) :
    Bounded (s.commit p apply).1.options (s.commit p apply).1.state := by
  rw [commit_options]
  cases hok : (s.commit p apply).2.isOk with
  | false =>
    rw [(commit_not_ok hok).2.1]
    exact h
  | true =>
    obtain ⟨hf, -, seq, -, -, hstate, -⟩ := commit_ok hok
    rw [hstate]
    have hb := (w hf).bounded hj h seq
    exact ⟨hb.fences, hb.idempotency, hb.attempts⟩

theorem checkpoint_bounded (h : Bounded s.options s.state) :
    Bounded s.checkpoint.1.options s.checkpoint.1.state := by
  have ho := s.checkpoint_outcome
  revert ho
  generalize s.checkpoint.1 = s'
  intro ho
  cases ho with
  | unchanged state options | broken _ _ _ state options =>
    rw [state, options]
    exact h
  | @rotated s₁ c _ _ state options =>
    have hb : Bounded s₁.options s₁.state := by
      rw [state, options]
      exact h
    exact @commit_bounded True .serving _ _ _ s₁ (fun _ => .checkpoint c) trivial hb

theorem Step.bounded {x y : LineageStore × Job} (h : Step wire x y)
    (hj : x.1.failed = false → x.2.Serves) (hb : Bounded x.1.options x.1.state) :
    Bounded y.1.options y.1.state := by
  by_cases hf : x.1.failed = true
  · rw [h.of_failed hf]
    exact hb
  · have hserves := hj (Bool.eq_false_iff.mpr hf)
    cases h with
    | write w => exact commit_bounded w hserves hb
    | checkpoint => exact checkpoint_bounded hb
    | booted | fenced | failed => exact hb

theorem Path.bounded {x y : LineageStore × Job} (h : Path wire x y) (hj : x.2.Serves)
    (hb : Bounded x.1.options x.1.state) : Bounded y.1.options y.1.state := by
  induction h with
  | refl => exact hb
  | tail hpath hstep ih => exact hstep.bounded (Path.epoch hpath hj).1 ih

end Steps

/-! ## Beginnings -/

section Beginnings

variable {s s' : LineageStore} {incarnation : Incarnation} {epoch : Epoch}
  {coordinator : Incarnation} {rs : List AttemptRecord}

theorem commit_idempotency {p : Payload} {apply : LineageSeq → DurableState → DurableState}
    (h : ∀ seq d, (apply seq d).idempotency = d.idempotency) :
    (s.commit p apply).1.state.idempotency = s.state.idempotency := by
  cases hok : (s.commit p apply).2.isOk with
  | false => rw [(commit_not_ok hok).2.1]
  | true =>
    obtain ⟨-, -, seq, -, -, hstate, -⟩ := commit_ok hok
    rw [hstate]
    exact h seq s.state

theorem fenceAttempts_idempotency :
    (LineageStore.fenceAttempts epoch coordinator rs s).1.state.idempotency =
      s.state.idempotency := by
  induction rs generalizing s with
  | nil => rfl
  | cons r rs ih =>
    by_cases hr : r.isTerminal = true
    · rw [LineageStore.fenceAttempts, if_pos hr]
      exact ih
    rw [LineageStore.fenceAttempts_cons (Bool.eq_false_iff.mpr hr)]
    have h₁ : (s.writeInterrupt r).1.state.idempotency = s.state.idempotency :=
      commit_idempotency fun _ _ => rfl
    have h₂ : ((s.writeInterrupt r).1.writeRestartFence epoch coordinator r).1.state.idempotency =
        s.state.idempotency := by
      refine (commit_idempotency fun _ _ => ?_).trans h₁
      rfl
    split
    · exact h₁
    · split
      · exact h₂
      · exact ih.trans h₂

/-- A recovered state within the limits of the process. Fences do not count when there is an attempt
to interrupt, because its fence makes the boot evict. -/
structure Recovers (o : StoreOptions) (d : DurableState) : Prop where
  attempts : d.attempts.length ≤ o.maxAttempts
  idempotency : d.idempotency.length ≤ o.maxIdempotency
  fences : d.fences.length ≤ o.maxFences ∨ ∃ q ∈ d.attempts, q.isTerminal = false

theorem length_fencedBehind {o : StoreOptions} {fences new : List FenceRecord} (h : new ≠ []) :
    (fencedBehind o fences new).length ≤ o.maxFences := by
  induction new generalizing fences with
  | nil => exact absurd rfl h
  | cons f new ih =>
    cases new with
    | nil => exact length_evictFences o _
    | cons g new => exact ih (List.cons_ne_nil g new)

/-- A boot leaves its tables within the limits exactly if it began so. -/
theorem bootStore_bounded_iff {build : Engine.Build} (hn : s.Keyed)
    (h : Engine.bootStore s incarnation build = (s', .ok epoch)) :
    Bounded s.options s'.state ↔ Recovers s.options s.state := by
  unfold Engine.bootStore at h
  cases hb : Engine.nextBoot s.state incarnation build with
  | error e =>
    rw [hb] at h
    cases h
  | ok boot =>
    rw [hb] at h
    dsimp only at h
    split at h
    · cases h
    rename_i hok
    rw [Bool.not_eq_true', Bool.not_eq_false] at hok
    obtain ⟨-, -, seq, -, -, hstate, hopt, -⟩ := commit_ok hok
    revert h hstate hopt
    generalize (s.commit (.boot boot) fun _ d => d.noteEpoch boot).1 = s₁
    intro h hstate hopt
    have hattempts : s₁.state.attempts = s.state.attempts := by
      rw [hstate]
      rfl
    have hfences : s₁.state.fences = s.state.fences := by
      rw [hstate]
      rfl
    have hidempotency : s₁.state.idempotency = s.state.idempotency := by
      rw [hstate]
      rfl
    split at h
    · cases h
    · rename_i s₂ n hw
      cases h
      have hsame : s'.state.idempotency = s.state.idempotency := by
        rw [← hidempotency, ← @fenceAttempts_idempotency s₁ boot.epoch incarnation s₁.state.attempts]
        rw [show LineageStore.fenceAttempts boot.epoch incarnation s₁.state.attempts s₁ = (s', .ok n)
          from hw]
      have hwalk := fenceAttempts_walk hw
      obtain ⟨new, hnew, hfenced, -⟩ := hwalk.fences
      have hkeyed : s₁.Keyed := by
        rw [LineageStore.Keyed, hattempts]
        exact hn
      obtain ⟨qs, hq, hqs⟩ := hwalk.table (fun r _ hshadow => hshadow.not_nodup hkeyed) [] rfl
      rw [hattempts] at hqs hfenced
      rw [hopt, hfences] at hnew
      have hlength : s'.state.attempts.length = s.state.attempts.length := by
        rw [hq, List.nil_append, hqs.length_eq]
      have hterminal : ∀ q ∈ s'.state.attempts, q.isTerminal = true := fun q hq' => by
        rw [hq] at hq'
        obtain ⟨r, -, hr⟩ := forall₂_right hqs hq'
        exact hr.terminal
      constructor
      · intro hbounded
        refine ⟨?_, hsame ▸ hbounded.idempotency, ?_⟩
        · rcases hbounded.attempts with hle | ⟨hlt, hnone⟩
          · exact hlength ▸ hle
          · rw [List.filter_eq_nil_iff.mpr fun q hq => by simp [hterminal q hq]] at hlt
            exact absurd hlt (Nat.not_lt_zero _)
        · by_cases hall : ∃ q ∈ s.state.attempts, q.isTerminal = false
          · exact .inr hall
          refine .inl ?_
          have hnil : (s.state.attempts.filter fun r => !r.isTerminal) = [] :=
            List.filter_eq_nil_iff.mpr fun q hq hnot =>
              hall ⟨q, hq, by simpa using hnot⟩
          rw [hnil, List.forall₂_nil_left_iff] at hfenced
          rw [hfenced] at hnew
          exact (congrArg List.length hnew).ge.trans hbounded.fences
      · intro hr
        refine ⟨?_, hsame ▸ hr.idempotency, .inl (hlength ▸ hr.attempts)⟩
        rw [hnew]
        by_cases hempty : new = []
        · subst hempty
          rcases hr.fences with hle | ⟨q, hq, hnot⟩
          · exact hle
          · have hmem : q ∈ s.state.attempts.filter fun r => !r.isTerminal :=
              List.mem_filter.mpr ⟨hq, by simp [hnot]⟩
            rw [List.forall₂_nil_right_iff.mp hfenced] at hmem
            cases hmem
        · exact length_fencedBehind hempty

end Beginnings

/-- Whatever a boot finds on a directory is within its limits. -/
def Boot.RecoversWithin (b : Boot) (m : Medium) : Prop :=
  ∀ m' s, LineageStore.openStore b.options.store (b.medium m) = (m', .ok s) →
    Recovers b.options.store s.state

theorem Boot.open_bounded_iff {wire : Prop} {b : Boot} {m m' : Medium} {e : Engine}
    (hm : MediumOk wire (b.medium m)) (h : b.open m = (m', .ok e)) :
    Bounded e.store.options e.state ↔ b.RecoversWithin m := by
  rcases @openEngine_cases wire b.options b.incarnation b.build _ hm with
    ⟨m'', x, hopen, -⟩ | ⟨s, d, events, hstore, -, hs, -, hlive, -, -, hopen⟩
  · rw [Boot.open, hopen] at h
    cases h
  rw [Boot.open, hopen] at h
  have hoptions : s.options = b.options.store := by
    rw [hs]
    rfl
  have hwithin : b.RecoversWithin m ↔ Recovers s.options s.state := by
    rw [hoptions]
    constructor
    · exact fun hw => hw _ s hstore
    · intro hr m₁ s₁ hs₁
      rw [hstore] at hs₁
      cases hs₁
      exact hr
  have hok : e.store.options = b.options.store := by
    have hout := (@openEngine_outcome wire b.options b.incarnation b.build _ hm).2 e
      (by rw [hopen]; exact congrArg Prod.snd h)
    obtain ⟨s', epoch, rfl⟩ := Boot.open_blank (b := b) (m := m) (hopen.trans h)
    exact hout.1.options
  cases hboot : Engine.bootStore s b.incarnation b.build with
  | mk s' r =>
    rw [hboot] at h
    cases r with
    | error x => cases h
    | ok epoch =>
      cases h
      rw [hwithin, hok, ← hoptions]
      exact bootStore_bounded_iff hlive.stateOk.keys hboot

/-! ## Runs -/

/-- Every process of a run that comes up recovers a state within its limits. -/
def StartsWithin (actions : List Action) : Prop :=
  ∀ before b after, actions = before ++ .start b :: after →
    ∀ m m' e, System.run before = .down m → b.open m = (m', .ok e) → b.RecoversWithin m

/-- Everything that is retained is the newest of what was written or decided, in order, and the
tables of the lineage hold no fewer than the lowest limits that were ever in force. An engine that
was closed retains its decisions only. -/
structure RetainsNewest (made : List FailoverDecision) (e : Engine) : Prop where
  tables : e.closed = false → ∀ lf li, LimitsFrom lf li (finished e.store.medium.history) →
    Kept lf (fencesOf (lineage (finished e.store.medium.history))) e.state.fences ∧
      Kept li (idempotencyOf (lineage (finished e.store.medium.history))) e.state.idempotency
  decisions : e.decisions = newest e.options.limits.maxRetainedDecisions made

theorem run_retainsNewest {actions : List Action} {e : Engine} (h : System.run actions = .up e) :
    RetainsNewest (minutes actions).made e := by
  refine ⟨fun hopen lf li hl => ?_, decisions_newest h⟩
  obtain ⟨j, ht⟩ := @System.run_settled False actions False.elim e h hopen
  have hkeeps := (ht.keeps hl).2 _ _ _ rfl
  exact ⟨hkeeps.fences, hkeeps.idempotency⟩

theorem Bounded.perform {wire : Prop} {e : Engine} (hok : EngineOk wire e)
    (h : Bounded e.store.options e.state) (op : Operation) :
    Bounded (e.perform op).1.store.options (e.perform op).1.state := by
  obtain ⟨s, hpath, ⟨hs, -⟩ | ⟨-, -, hs, -⟩⟩ := perform_path hok.plain op False.elim
  · rw [Engine.state, hs]
    exact hpath.bounded trivial h
  · rw [Engine.state, hs]
    exact ⟨Nat.zero_le _, Nat.zero_le _, .inl (Nat.zero_le _)⟩

theorem StartsWithin.of_append {before after : List Action}
    (h : StartsWithin (before ++ after)) : StartsWithin before :=
  fun before' b after' hsplit =>
    h before' b (after' ++ after) (by rw [hsplit, List.append_assoc, List.cons_append])

theorem run_bounded {actions : List Action} (hw : StartsWithin actions) {e : Engine}
    (h : System.run actions = .up e) : Bounded e.store.options e.state := by
  induction actions using List.reverseRecOn generalizing e with
  | nil => cases h
  | append_singleton actions a ih =>
    have hok : (System.run actions).Ok False := System.run_ok False.elim
    rw [System.run_append] at h
    cases hs : System.run actions with
    | down m =>
      rw [hs] at h hok
      cases a with
      | start b =>
        have hm : MediumOk False (b.medium m) := ⟨hok.trace, hok.represents⟩
        rw [System.step] at h
        split at h
        · cases h
        · rename_i m' e' hopen
          cases h
          exact (Boot.open_bounded_iff hm hopen).mpr (hw actions b [] rfl m m' e hs hopen)
      | perform | kill => cases h
    | up e₀ =>
      rw [hs] at h hok
      cases a with
      | start b =>
        cases h
        exact ih hw.of_append hs
      | perform op =>
        cases h
        exact (ih hw.of_append hs).perform hok op
      | kill => cases h

/-- The processes of a run always retain the newest, and they stay within the bounds exactly if
each of them recovers a state within them. -/
theorem retention_bounds_iff (actions : List Action) :
    (∀ before after e, actions = before ++ after → System.run before = .up e →
      RetainsNewest (minutes before).made e ∧ Bounded e.store.options e.state) ↔
    StartsWithin actions := by
  constructor
  · rintro hall before b after rfl m m' e hdown hopen
    have hok : (System.run before).Ok False := System.run_ok False.elim
    rw [hdown] at hok
    have hm : MediumOk False (b.medium m) := ⟨hok.trace, hok.represents⟩
    have hup : System.run (before ++ [.start b]) = .up e := by
      rw [System.run_append, hdown, System.step, hopen]
    exact (Boot.open_bounded_iff hm hopen).mp
      (hall (before ++ [.start b]) after e (by simp) hup).2
  · rintro hw before after e rfl h
    exact ⟨run_retainsNewest h, run_bounded hw.of_append h⟩

/-- An attempt that a boot interrupts is retained above the limit, although it is terminal. -/
theorem attempts_not_bounded : ∃ e, Reachable e ∧
    e.store.options.maxAttempts < e.state.attempts.length ∧
    ∀ q ∈ e.state.attempts, q.isTerminal = true := by
  obtain ⟨e, he, -, hlength, hterminal, -⟩ := Sample.rebooted_overfull
  exact ⟨e, ⟨_, he⟩, hlength, hterminal⟩

end LinkFailover
