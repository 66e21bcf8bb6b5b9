import LinkFailover.System

/-!
# What a restart leaves

The walk of a boot over the attempts in flight, in full: each of them is interrupted where it
stands in the table, and a fence is written for it. Nothing holds authority afterwards, because
the epoch is a new one. The walk writes through the table, which takes the first attempt of a
subject and a sequence for the one that is meant. A snapshot may hold a second one, under another
generation; the walk does not reach it, and it stays in flight.

* `fenceAttempts_walk`: the table and the fences behind the walk.
* `mem_evictFences_or`: which fences the limit leaves.
* `openEngine_restarts_iff`: a boot of any directory, compared with the state that it replayed.
* `openEngine_restart`: a boot of a directory that a run has left.
-/

namespace LinkFailover

open Codec

/-! ## The table -/

/-- An attempt before and after a boot. -/
def Restarted (r q : AttemptRecord) : Prop :=
  if r.isTerminal then q = r
  else ∃ seq, q = { LineageStore.interrupt r with updateSeq := seq }

/-- A fence that was written for an attempt in flight. -/
structure FencedBy (epoch : Epoch) (coordinator : Incarnation) (r : AttemptRecord)
    (f : FenceRecord) : Prop extends f.Names r where
  kind : f.kind = .preRestartAuthority
  epoch : f.epoch = epoch
  coordinator : f.coordinator = coordinator

/-- An attempt that stands behind another one of its subject and sequence in a table. -/
abbrev Shadowed (r : AttemptRecord) (rs : List AttemptRecord) : Prop :=
  BoundedTable.Shadowed AttemptRecord.key r rs

/-- The fences behind a list of new ones. -/
def fencedBehind (o : StoreOptions) (fences new : List FenceRecord) : List FenceRecord :=
  new.foldl (fun fences f => evictFences o (fences ++ [f])) fences

/-- Every new fence stands behind the position given and behind the one before it. -/
def Ascending : LineageSeq → List FenceRecord → Prop
  | _, [] => True
  | seq, f :: fs => seq.toNat < f.seq.toNat ∧ Ascending f.seq fs

theorem Ascending.mono {seq seq' : LineageSeq} {fs : List FenceRecord} (h : Ascending seq' fs)
    (hle : seq.toNat ≤ seq'.toNat) : Ascending seq fs := by
  cases fs with
  | nil => trivial
  | cons f fs => exact ⟨Nat.lt_of_le_of_lt hle h.1, h.2⟩

/-- What a walk makes of the attempts that were left to do. No attempt that stands behind another
one of its key is reached; without such attempts all of them are. -/
structure Walked (epoch : Epoch) (coordinator : Incarnation) (rs : List AttemptRecord)
    (s s' : LineageStore) : Prop where
  table : (∀ r, r.isTerminal = false → ¬ Shadowed r s.state.attempts) →
    ∀ done, s.state.attempts = done ++ rs →
      ∃ qs, s'.state.attempts = done ++ qs ∧ List.Forall₂ Restarted rs qs
  shadowed : ∀ r, Shadowed r s.state.attempts → Shadowed r s'.state.attempts
  fences : ∃ new, s'.state.fences = fencedBehind s.options s.state.fences new ∧
    List.Forall₂ (FencedBy epoch coordinator) (rs.filter fun r => !r.isTerminal) new ∧
    Ascending s.state.lastSeq new ∧ ∀ f ∈ new, f.seq.toNat ≤ s'.state.lastSeq.toNat
  grows : s.state.lastSeq.toNat ≤ s'.state.lastSeq.toNat
  epoch : s'.state.epoch = s.state.epoch
  coordinator : s'.state.coordinator = s.state.coordinator
  options : s'.options = s.options

theorem fenceAttempts_walk {epoch : Epoch} {coordinator : Incarnation} {rs : List AttemptRecord}
    {s s' : LineageStore} {n : Nat}
    (h : LineageStore.fenceAttempts epoch coordinator rs s = (s', .ok n)) :
    Walked epoch coordinator rs s s' := by
  induction rs generalizing s n with
  | nil =>
    cases h
    exact ⟨fun _ done hs => ⟨[], hs, .nil⟩, fun _ => id,
      ⟨[], rfl, .nil, trivial, fun f hf => absurd hf List.not_mem_nil⟩, Nat.le_refl _, rfl, rfl,
      rfl⟩
  | cons r rs ih =>
    by_cases hr : r.isTerminal = true
    · rw [LineageStore.fenceAttempts, if_pos hr] at h
      have hw := ih h
      obtain ⟨new, hnew, hfenced, hasc⟩ := hw.fences
      refine ⟨fun hsingle done hs => ?_, hw.shadowed, ⟨new, hnew, ?_, hasc⟩, hw.grows, hw.epoch,
        hw.coordinator, hw.options⟩
      · obtain ⟨qs, hq, hf⟩ := hw.table hsingle (done ++ [r]) (by rw [hs, List.append_assoc]; rfl)
        refine ⟨r :: qs, by rw [hq, List.append_assoc]; rfl, .cons ?_ hf⟩
        rw [Restarted, if_pos hr]
      · rwa [List.filter_cons_of_neg (by simp [hr])]
    have hr' : r.isTerminal = false := by simpa using hr
    rw [LineageStore.fenceAttempts_cons hr'] at h
    split at h
    · cases h
    rename_i hok
    rw [Bool.not_eq_true', Bool.not_eq_false] at hok
    split at h
    · cases h
    rename_i hok2
    rw [Bool.not_eq_true', Bool.not_eq_false] at hok2
    obtain ⟨-, -, seq, hnext, -, hstate, hopt, -⟩ := commit_ok hok
    obtain ⟨-, -, seq2, hnext2, -, hstate2, hopt2, -⟩ := commit_ok hok2
    change (s.writeInterrupt r).1.state = _ at hstate
    change (s.writeInterrupt r).1.options = _ at hopt
    change ((s.writeInterrupt r).1.writeRestartFence epoch coordinator r).1.state = _ at hstate2
    change ((s.writeInterrupt r).1.writeRestartFence epoch coordinator r).1.options = _ at hopt2
    revert h hstate hopt hnext2 hstate2 hopt2
    generalize (s.writeInterrupt r).1 = s₁
    generalize (s₁.writeRestartFence epoch coordinator r).1 = s₂
    intro h hnext2 hstate hopt hstate2 hopt2
    let x : AttemptRecord := { LineageStore.interrupt r with updateSeq := seq }
    have hattempts : s₂.state.attempts = upsertAttempt x s.state.attempts := by
      rw [hstate2]
      change s₁.state.attempts = _
      rw [hstate]
      rfl
    have hseq1 : s₁.state.lastSeq = seq := by rw [hstate]; rfl
    have hseq2 : s₂.state.lastSeq = seq2 := by rw [hstate2]; rfl
    have hf2 : s₂.state.fences = evictFences s.options (s.state.fences ++
        [{ LineageStore.restartFence epoch coordinator r with seq := seq2 }]) := by
      rw [hstate2]
      change evictFences s₁.options (s₁.state.fences ++ _) = _
      rw [hopt, hstate]
      rfl
    have hlt1 := StrongUint.next_toNat hnext
    have hlt2 := StrongUint.next_toNat hnext2
    rw [hseq1] at hlt2
    cases hw : LineageStore.fenceAttempts epoch coordinator rs s₂ with
    | mk s₃ res =>
      rw [hw] at h
      cases res with
      | error e => cases h
      | ok k =>
        obtain ⟨rfl, -⟩ := Prod.mk.inj h
        obtain ⟨htable, hshadowed, ⟨new, hnew, hfenced, hasc, hbound⟩, hgrows, hepoch,
          hcoordinator, hoptions⟩ := ih hw
        rw [hseq2] at hgrows hasc
        have hboot : s₂.state.epoch = s.state.epoch ∧
            s₂.state.coordinator = s.state.coordinator := by
          rw [hstate2]
          change s₁.state.epoch = _ ∧ s₁.state.coordinator = _
          rw [hstate]
          exact ⟨rfl, rfl⟩
        refine ⟨fun hsingle done hs => ?_, fun q hq => ?_,
          ⟨{ LineageStore.restartFence epoch coordinator r with seq := seq2 } :: new, ?_, ?_, ?_,
            ?_⟩, by omega, hepoch.trans hboot.1, hcoordinator.trans hboot.2,
          hoptions.trans (hopt2.trans hopt)⟩
        · -- the attempt is the first of its key, and so it is the one that is written
          have hfirst : ∀ q ∈ done, q.key ≠ x.key := fun q hq hk =>
            hsingle r hr' (hs ▸ BoundedTable.shadowed_append hq hk List.mem_cons_self)
          have hmiddle : s₂.state.attempts = (done ++ [x]) ++ rs := by
            rw [hattempts, hs, upsertAttempt, BoundedTable.upsert_append hfirst,
              BoundedTable.upsert,
              if_pos (show r.key = x.key from rfl), List.append_assoc]
            rfl
          have hsingle₂ : ∀ q, q.isTerminal = false → ¬ Shadowed q s₂.state.attempts :=
            fun q hq hshadow => by
              rw [hattempts] at hshadow
              refine hsingle q hq (BoundedTable.Shadowed.of_upsert hshadow ?_)
              rintro rfl
              cases hq
          obtain ⟨qs, hq, hf⟩ := htable hsingle₂ _ hmiddle
          refine ⟨x :: qs, by rw [hq, List.append_assoc]; rfl, .cons ?_ hf⟩
          rw [Restarted, if_neg hr]
          exact ⟨seq, rfl⟩
        · exact hshadowed q (hattempts ▸ BoundedTable.Shadowed.upsert hq)
        · rw [hnew, hf2, hopt2, hopt]
          rfl
        · rw [List.filter_cons_of_pos (by simp [hr'])]
          exact .cons ⟨⟨rfl, rfl, rfl⟩, rfl, rfl, rfl⟩ hfenced
        · refine ⟨?_, hasc⟩
          change s.state.lastSeq.toNat < seq2.toNat
          omega
        · intro f hf
          rcases List.mem_cons.mp hf with rfl | hf
          · exact hgrows
          · exact hbound f hf

/-! ## The fences -/

/-- A fence is retained, or the limit is reached and no older fence is retained either. -/
def RetainedFence (o : StoreOptions) (fences : List FenceRecord) (f : FenceRecord) : Prop :=
  f ∈ fences ∨ fences.length = o.maxFences ∧ ∀ g ∈ fences, f.seq.toNat ≤ g.seq.toNat

theorem mem_evictFences_or {o : StoreOptions} {fences : List FenceRecord} {f : FenceRecord}
    (hf : f ∈ fences) : RetainedFence o (evictFences o fences) f := by
  unfold evictFences
  split
  · exact .inl hf
  rename_i hlen
  have hperm : (BoundedTable.sortBy FenceRecord.less fences).Perm fences :=
    BoundedTable.sortBy_perm
  by_cases hm : f ∈ (BoundedTable.sortBy FenceRecord.less fences).drop
      (fences.length - o.maxFences)
  · exact .inl hm
  refine .inr ⟨?_, fun g hg => ?_⟩
  · rw [List.length_drop, hperm.length_eq]
    omega
  · have hsorted : (BoundedTable.sortBy FenceRecord.less fences).Pairwise
        fun a b => a.seq.toNat ≤ b.seq.toNat :=
      BoundedTable.pairwise_sortBy fun a b => by
        rw [FenceRecord.less, decide_eq_true_eq, StrongUint.lt_iff]
    rw [← List.take_append_drop (fences.length - o.maxFences)
      (BoundedTable.sortBy FenceRecord.less fences), List.pairwise_append] at hsorted
    have hft : f ∈ (BoundedTable.sortBy FenceRecord.less fences).take
        (fences.length - o.maxFences) := by
      have := hperm.mem_iff.mpr hf
      rw [← List.take_append_drop (fences.length - o.maxFences)
        (BoundedTable.sortBy FenceRecord.less fences), List.mem_append] at this
      exact this.resolve_right hm
    exact hsorted.2.2 f hft g hg

/-- A newer fence does not take the place of an older one below the limit. -/
theorem RetainedFence.append {o : StoreOptions} {fences : List FenceRecord} {f f' : FenceRecord}
    (h : RetainedFence o fences f) (hlt : f.seq.toNat ≤ f'.seq.toNat) :
    RetainedFence o (evictFences o (fences ++ [f'])) f := by
  rcases h with hm | ⟨hlen, hold⟩
  · exact mem_evictFences_or (List.mem_append_left _ hm)
  · refine .inr ⟨?_, fun g hg => ?_⟩
    · unfold evictFences
      rw [if_neg (by simp [hlen]), List.length_drop, BoundedTable.sortBy_perm.length_eq,
        List.length_append, hlen]
      simp
    · rcases List.mem_append.mp (mem_evictFences hg) with hg | hg
      · exact hold g hg
      · rw [List.mem_singleton.mp hg]
        exact hlt

theorem fencedBehind_retained {o : StoreOptions} {new fences : List FenceRecord}
    {seq : LineageSeq} (h : Ascending seq new) :
    (∀ f, f.seq.toNat ≤ seq.toNat → RetainedFence o fences f →
        RetainedFence o (fencedBehind o fences new) f) ∧
      ∀ f ∈ new, RetainedFence o (fencedBehind o fences new) f := by
  induction new generalizing fences seq with
  | nil => exact ⟨fun f _ hf => hf, by simp⟩
  | cons x new ih =>
    obtain ⟨hold, hnew⟩ := @ih (evictFences o (fences ++ [x])) x.seq h.2
    have hx := h.1
    refine ⟨fun f hle hf => hold f (by omega) (hf.append (by omega)), fun f hf => ?_⟩
    rcases List.mem_cons.mp hf with rfl | hf
    · exact hold f (Nat.le_refl _) (mem_evictFences_or (by simp))
    · exact hnew f hf

/-- Whatever is retained was there before or is one of the new fences. -/
theorem fencedBehind_subset {o : StoreOptions} {fences new : List FenceRecord} {g : FenceRecord}
    (h : g ∈ fencedBehind o fences new) : g ∈ fences ∨ g ∈ new := by
  induction new generalizing fences with
  | nil => exact .inl h
  | cons x new ih =>
    rcases ih h with hg | hg
    · rcases List.mem_append.mp (mem_evictFences hg) with hg | hg
      · exact .inl hg
      · exact .inr (List.mem_singleton.mp hg ▸ List.mem_cons_self)
    · exact .inr (List.mem_cons_of_mem _ hg)

/-! ## The boot -/

/-- A boot that ends well: the boot record, and the walk behind it. -/
theorem bootStore_walk {s s' : LineageStore} {incarnation : Incarnation} {build : Engine.Build}
    {epoch : Epoch} (h : Engine.bootStore s incarnation build = (s', .ok epoch)) :
    s.state.epoch.next = some epoch ∧ ∃ s₁ : LineageStore,
      s₁.state.attempts = s.state.attempts ∧ s₁.state.fences = s.state.fences ∧
      s.state.lastSeq.toNat < s₁.state.lastSeq.toNat ∧ s₁.options = s.options ∧
      s₁.state.epoch = epoch ∧ s₁.state.coordinator = incarnation ∧
      Walked epoch incarnation s.state.attempts s₁ s' := by
  unfold Engine.bootStore at h
  cases hb : Engine.nextBoot s.state incarnation build with
  | error e =>
    rw [hb] at h
    cases h
  | ok boot =>
    rw [hb] at h
    dsimp only at h
    split at h
    · cases h
    rename_i hok
    rw [Bool.not_eq_true', Bool.not_eq_false] at hok
    obtain ⟨-, -, seq, hnext, -, hstate, hopt, -⟩ := commit_ok hok
    revert h hstate hopt
    generalize (s.commit (.boot boot) fun _ d => d.noteEpoch boot).1 = s₁
    intro h hstate hopt
    have ht : s₁.state.attempts = s.state.attempts := by rw [hstate]; rfl
    have hlt : s.state.lastSeq.toNat < s₁.state.lastSeq.toNat := by
      rw [hstate]
      change _ < seq.toNat
      have := StrongUint.next_toNat hnext
      omega
    split at h
    · cases h
    · rename_i s₂ n hw
      cases h
      refine ⟨(nextBoot_epoch hb).1, s₁, ht, by rw [hstate]; rfl, hlt, hopt, by rw [hstate]; rfl,
        ?_, ?_⟩
      · rw [hstate]
        exact (nextBoot_epoch hb).2
      · rw [← ht]
        exact fenceAttempts_walk hw

/-- The fences that a restart has written, one for each attempt that was in flight, in the order of
the attempts and behind all records before it. Each of them is retained, or the limit is reached
by fences that are not older. Apart from them there are the fences that were there before. -/
def FencesWritten (d : DurableState) (e : Engine) (new : List FenceRecord) : Prop :=
  List.Forall₂ (FencedBy e.epoch e.incarnation) (d.attempts.filter fun r => !r.isTerminal) new ∧
    Ascending d.lastSeq new ∧ (∀ f ∈ new, f.seq.toNat ≤ e.state.lastSeq.toNat) ∧
    (∀ f ∈ new, RetainedFence e.store.options e.state.fences f) ∧
    ∀ g ∈ e.state.fences, g ∈ d.fences ∨ g ∈ new

/-- An engine that has just come up, compared with the state that its store replayed. -/
structure Restarts (d : DurableState) (e : Engine) : Prop where
  attempts : List.Forall₂ Restarted d.attempts e.state.attempts
  terminal : ∀ q ∈ e.state.attempts, q.isTerminal = true
  kept : ∀ r ∈ d.attempts, r.isTerminal = true → r ∈ e.state.attempts
  interrupted : ∀ r ∈ d.attempts, r.isTerminal = false → ∃ q ∈ e.state.attempts,
    q.phase = .interrupted ∧ q.identity = r.identity ∧ q.attemptId = r.attemptId ∧
      q.authority = r.authority ∧ q.lastReason = some (interruptionReason r.phase)
  fenced : ∃ new, FencesWritten d e new
  active : ∀ subject generation, e.state.activeAuthority subject generation = none
  directives : ∀ n, e.pendingDirectives n = []
  epoch : d.epoch.toNat < e.epoch.toNat

/-- What a state has to be like so that a boot under an incarnation leaves nothing in flight and no
authority: no attempt in flight stands behind another one of its subject and sequence, and no
finished attempt holds the authority of the new boot in advance. -/
structure DurableState.Restartable (d : DurableState) (coordinator : Incarnation) : Prop where
  single : ∀ r, r.isTerminal = false → ¬ Shadowed r d.attempts
  foreign : ∀ r ∈ d.attempts, r.isTerminal = true → attemptPhaseHoldsAuthority r.phase = true →
    ¬ (d.epoch.next = some r.authority.epoch ∧ r.authority.coordinator = coordinator)

theorem Restarted.terminal {r q : AttemptRecord} (h : Restarted r q) : q.isTerminal = true := by
  unfold Restarted at h
  split at h
  · rename_i hr
    rw [h, hr]
  · obtain ⟨seq, rfl⟩ := h
    rfl

theorem forall₂_left {α β : Type} {R : α → β → Prop} {xs : List α} {ys : List β}
    (h : List.Forall₂ R xs ys) {x : α} (hx : x ∈ xs) : ∃ y ∈ ys, R x y := by
  induction h with
  | nil => cases hx
  | cons hr _ ih =>
    rcases List.mem_cons.mp hx with rfl | hx
    · exact ⟨_, List.mem_cons_self, hr⟩
    · obtain ⟨y, hy, hxy⟩ := ih hx
      exact ⟨y, List.mem_cons_of_mem _ hy, hxy⟩

theorem forall₂_right {α β : Type} {R : α → β → Prop} {xs : List α} {ys : List β}
    (h : List.Forall₂ R xs ys) {y : β} (hy : y ∈ ys) : ∃ x ∈ xs, R x y := by
  obtain ⟨x, hx, hr⟩ := forall₂_left h.flip hy
  exact ⟨x, hx, hr⟩

/-- What a boot knows about its store: the state that was replayed, and the boot record and the walk
behind it. -/
structure Booted (d : DurableState) (e : Engine) : Prop where
  next : d.epoch.next = some e.epoch
  epoch : e.state.epoch = e.epoch
  coordinator : e.state.coordinator = e.incarnation
  walked : ∃ s₁ : LineageStore, s₁.state.attempts = d.attempts ∧ s₁.state.fences = d.fences ∧
    d.lastSeq.toNat < s₁.state.lastSeq.toNat ∧ s₁.options = e.store.options ∧
    Walked e.epoch e.incarnation d.attempts s₁ e.store

section Boots

variable {d : DurableState} {e : Engine}

/-- The fences behind a boot do not depend on the table. -/
theorem Booted.fences (h : Booted d e) : ∃ new, FencesWritten d e new := by
  obtain ⟨s₁, -, hf, hlt, hopt, hw⟩ := h.walked
  obtain ⟨new, hnew, hfenced, hasc, hbound⟩ := hw.fences
  have hfences : e.state.fences = fencedBehind e.store.options d.fences new := by
    rw [← hf, ← hopt]
    exact hnew
  refine ⟨new, hfenced, hasc.mono (Nat.le_of_lt hlt), hbound, fun f hm => ?_, fun g hg => ?_⟩
  · rw [hfences]
    exact (fencedBehind_retained hasc).2 f hm
  · exact fencedBehind_subset (hfences ▸ hg)

theorem Booted.restarts (h : Booted d e) (hd : d.Restartable e.incarnation) :
    Restarts d e := by
  have hlt := StrongUint.next_toNat h.next
  obtain ⟨s₁, ht, -, -, -, hw⟩ := h.walked
  obtain ⟨qs, hq, hf⟩ := hw.table (by rw [ht]; exact hd.single) [] ht
  have hqs : e.state.attempts = qs := hq
  rw [← hqs] at hf
  have hterminal : ∀ q ∈ e.state.attempts, q.isTerminal = true := fun q hq => by
    obtain ⟨r, -, hr⟩ := forall₂_right hf hq
    exact hr.terminal
  refine
    { attempts := hf
      terminal := hterminal
      kept := fun r hr ht => ?_
      interrupted := fun r hr ht => ?_
      fenced := h.fences
      active := fun subject generation => ?_
      directives := fun n => ?_
      epoch := by omega }
  · obtain ⟨q, hq, hrq⟩ := forall₂_left hf hr
    rw [Restarted, if_pos ht] at hrq
    rwa [hrq] at hq
  · obtain ⟨q, hq, hrq⟩ := forall₂_left hf hr
    rw [Restarted, if_neg (by simp [ht])] at hrq
    obtain ⟨seq, rfl⟩ := hrq
    refine ⟨_, hq, rfl, rfl, rfl, rfl, ?_⟩
    simp only [AttemptRecord.lastReason, LineageStore.interrupt, ReasonLog.getLast?_push]
    rfl
  · rw [DurableState.activeAuthority_none]
    intro q hq _ _
    obtain ⟨r, hr, hrq⟩ := forall₂_right hf hq
    unfold Restarted at hrq
    split at hrq
    · rename_i hterm
      rw [hrq, ← Bool.not_eq_true, DurableState.isActive_iff, h.epoch, h.coordinator]
      rintro ⟨hholds, hepoch, hcoordinator⟩
      exact hd.foreign r hr hterm hholds ⟨by rw [h.next, hepoch], hcoordinator⟩
    · obtain ⟨seq, rfl⟩ := hrq
      rfl
  · unfold Engine.pendingDirectives
    split
    · rfl
    have hnone : e.state.attempts.filter Engine.isPending = [] := by
      rw [List.filter_eq_nil_iff]
      intro q hq hp
      have ht := hterminal q hq
      simp only [Engine.isPending, Bool.and_eq_true, decide_eq_true_eq] at hp
      rw [AttemptRecord.isTerminal, hp.1] at ht
      cases ht
    rw [hnone, BoundedTable.sortBy, List.insertionSort_nil, List.take_nil, List.map_nil]

/-- What a boot leaves is as it should be exactly if the walk reaches every attempt in flight and
the boot inherits no authority. -/
theorem Booted.restarts_iff (h : Booted d e) :
    Restarts d e ↔ d.Restartable e.incarnation := by
  refine ⟨fun hr => ⟨fun r ht hshadow => ?_, fun r hm ht hholds hactive => ?_⟩, h.restarts⟩
  · obtain ⟨s₁, hattempts, -, -, -, hw⟩ := h.walked
    have hleft : Shadowed r e.state.attempts := hw.shadowed r (by rw [hattempts]; exact hshadow)
    rw [hr.terminal r hleft.mem] at ht
    cases ht
  · have hnone := DurableState.activeAuthority_none.mp (hr.active r.subject r.subjectGeneration) r
      (hr.kept r hm ht) rfl rfl
    rw [← Bool.not_eq_true, DurableState.isActive_iff, h.epoch, h.coordinator] at hnone
    rw [h.next, Option.some_inj] at hactive
    exact hnone ⟨hholds, hactive.1.symm, hactive.2⟩

end Boots

/-- A boot of any directory: what it leaves, compared with the state that the store replayed. -/
theorem openEngine_booted {o : EngineOptions} {incarnation : Incarnation} {build : Engine.Build}
    {m : Medium} {e : Engine} (he : (Engine.openEngine o incarnation build m).2 = .ok e) :
    ∃ s, (LineageStore.openStore o.store m).2 = .ok s ∧ Booted s.state e ∧
      e.incarnation = incarnation := by
  unfold Engine.openEngine at he
  iterate 4
    split at he
    · cases he
  cases hs : LineageStore.openStore o.store m with
  | mk m' opened =>
    rw [hs] at he
    cases opened with
    | error st => cases he
    | ok s =>
      dsimp only at he
      cases hb : Engine.bootStore s incarnation build with
      | mk s' booted =>
        rw [hb] at he
        cases booted with
        | error st => cases he
        | ok epoch =>
          cases he
          obtain ⟨hnext, s₁, ht, hf, hlt, hopt, hepoch, hcoordinator, hw⟩ := bootStore_walk hb
          exact ⟨s, rfl, ⟨hnext, hw.epoch.trans hepoch, hw.coordinator.trans hcoordinator,
            s₁, ht, hf, hlt, hw.options.symm, hw⟩, rfl⟩

theorem openEngine_restarts_iff {o : EngineOptions} {incarnation : Incarnation}
    {build : Engine.Build} {m : Medium} {e : Engine}
    (he : (Engine.openEngine o incarnation build m).2 = .ok e) :
    ∃ s, (LineageStore.openStore o.store m).2 = .ok s ∧
      (Restarts s.state e ↔ s.state.Restartable incarnation) := by
  obtain ⟨s, hs, hb, hincarnation⟩ := openEngine_booted he
  refine ⟨s, hs, ?_⟩
  rw [← hincarnation]
  exact hb.restarts_iff

/-- The attempts of a directory that a run has left have different keys, and their authority is of
an earlier boot. -/
theorem StateOk.restartable {entries : List Entry} {d : DurableState} (h : StateOk entries d)
    (coordinator : Incarnation) : d.Restartable coordinator where
  single _ _ hshadow := hshadow.not_nodup h.keys
  foreign r hr _ _ hactive := by
    have hold := h.epochs r hr
    have hnext := StrongUint.next_toNat hactive.1
    rw [← h.epoch] at hold
    omega

/-- So is the state that an open of such a directory replays. -/
theorem openEngine_restartable {wire : Prop} {o : EngineOptions} {incarnation : Incarnation}
    {build : Engine.Build} {m : Medium} (h : MediumOk wire m) {e : Engine}
    (he : (Engine.openEngine o incarnation build m).2 = .ok e) {s : LineageStore}
    (hs : (LineageStore.openStore o.store m).2 = .ok s) : s.state.Restartable incarnation := by
  rcases @openEngine_cases _ o incarnation build _ h with
    ⟨m', e, hopen, -, -⟩ | ⟨s', d, events, hstore, hd, hs', hh, hlive, -, -, -⟩
  · rw [hopen] at he
    cases he
  rw [hstore] at hs
  cases hs
  exact hlive.stateOk.restartable _

/-- What an engine that has come up makes of the state that its store replayed, when a run has left
the directory. -/
theorem openEngine_restart {wire : Prop} {o : EngineOptions} {incarnation : Incarnation}
    {build : Engine.Build} {m : Medium} (h : MediumOk wire m) {e : Engine}
    (he : (Engine.openEngine o incarnation build m).2 = .ok e) :
    ∃ s, (LineageStore.openStore o.store m).2 = .ok s ∧ s.Keyed ∧
      s.state.epoch = lastEpoch (lineage m.history) ∧ Restarts s.state e := by
  obtain ⟨s, hs, hb, -⟩ := openEngine_booted he
  rcases @openEngine_cases _ o incarnation build _ h with
    ⟨m', e, hopen, -, -⟩ | ⟨s', d, events, hstore, hd, hs', hh, hlive, -, -, -⟩
  · rw [hopen] at he
    cases he
  rw [hstore] at hs
  cases hs
  have hstate := hlive.stateOk
  have hlt := StrongUint.next_toNat hb.next
  refine ⟨s, by rw [hstore], hstate.keys, ?_, hb.restarts (hstate.restartable _)⟩
  rw [hstate.epoch, hh, lineage_opened hd]

/-! ## Histories -/

theorem lineage_begins {h g : List Event} (hp : h <+: g) : lineage h <+: lineage g := by
  obtain ⟨t, rfl⟩ := hp
  rw [lineage_append]
  exact List.prefix_append _ _

/-- The history of a run continues the history of its beginning. -/
theorem System.run_history (before after : List Action) :
    (run before).history <+: (run (before ++ after)).history := by
  induction after using List.reverseRecOn with
  | nil => exact ⟨[], by rw [List.append_nil, List.append_nil]⟩
  | append_singleton after a ih =>
    rw [← List.append_assoc, run_append]
    exact ih.trans (step_history (@run_ok False _ False.elim) a)

end LinkFailover
