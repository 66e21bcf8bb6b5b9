import LinkFailover.Atomicity
import LinkFailover.GrantSoundness
import LinkFailover.Numbers
import LinkFailover.Reboots

/-!
# Attempts that await a verdict

An attempt that was in flight when a process ended is interrupted by the next boot, and a request is
refused while the latest attempt of its generation is interrupted. The gate looks at the table, so
it holds as long as the table keeps the open attempts and the latest of a generation is the open
one.

* `Pending`: an attempt that was in flight when a process ended and has no verdict yet.
* `keepsMarked`: whether a write keeps the attempts that must not get lost.
* `pendingLaw`: under that condition a pending attempt is interrupted, retained and the latest.
* `pending_refused`: no failover of its generation is granted then.
* `revalidation_gate`: over such a run a generation is granted after a restart only behind a verdict
  on each attempt that the restart caught in flight.
* `gate_forgotten`: a table that evicts an interrupted attempt lets its generation be granted.
-/

namespace LinkFailover

open Codec

/-! ## Open attempts -/

/-- In flight, or interrupted. -/
def phaseOpen (phase : AttemptPhase) : Bool :=
  !attemptPhaseIsTerminal phase || decide (phase = .interrupted)

def AttemptRecord.isOpen (r : AttemptRecord) : Bool := phaseOpen r.phase

/-- Whether a record carries a verdict, applied or not applied. -/
def AttemptRecord.settles (r : AttemptRecord) : Bool :=
  r.revalidated && decide r.revalidation.Conclusive

/-- The last record of an attempt leaves it open. -/
def IsOpen (entries : List Entry) (i : Identity) : Prop :=
  ∃ r, lastWrite entries i = some r ∧ r.isOpen = true

/-- An attempt was in flight in front of a boot, and no record behind it carries a verdict. -/
def Pending (entries : List Entry) (i : Identity) : Prop :=
  ∃ before seq b after, entries = before ++ (seq, .boot b) :: after ∧
    (∃ r, lastWrite before i = some r ∧ r.isTerminal = false) ∧
    ∀ seq w r, (seq, Payload.attempt w r) ∈ after → r.identity = i → r.settles = false

/-- The record at a position boots, and an attempt was in flight in front of it and got no verdict
behind it. -/
def pendingSince (entries : List Entry) (i : Identity) (n : Nat) : Bool :=
  match entries.drop n with
  | (_, .boot _) :: after =>
    (lastWrite (entries.take n) i).any (fun r => !r.isTerminal) &&
      after.all fun x =>
        match x.2 with
        | .attempt _ r => decide (r.identity ≠ i) || !r.settles
        | _ => true
  | _ => false

theorem pendingSince_iff {entries : List Entry} {i : Identity} {n : Nat} :
    pendingSince entries i n = true ↔ ∃ before seq b after,
      entries = before ++ (seq, .boot b) :: after ∧ before.length = n ∧
        (∃ r, lastWrite before i = some r ∧ r.isTerminal = false) ∧
        ∀ seq w r, (seq, Payload.attempt w r) ∈ after → r.identity = i → r.settles = false := by
  constructor
  · intro h
    unfold pendingSince at h
    split at h
    · rename_i seq b after hdrop
      rw [Bool.and_eq_true, Option.any_eq_true, List.all_eq_true] at h
      obtain ⟨⟨r, hr, ht⟩, hafter⟩ := h
      have hlt : n < entries.length := by
        by_contra hge
        rw [List.drop_eq_nil_of_le (Nat.le_of_not_lt hge)] at hdrop
        cases hdrop
      refine ⟨entries.take n, seq, b, after, ?_, ?_, ⟨r, hr, by simpa using ht⟩,
        fun seq w r hm hi => ?_⟩
      · rw [← hdrop, List.take_append_drop]
      · rw [List.length_take]
        omega
      · simpa [hi] using hafter _ hm
    · cases h
  · rintro ⟨before, seq, b, after, rfl, rfl, ⟨r, hr, ht⟩, hafter⟩
    rw [pendingSince, List.drop_left, List.take_left]
    dsimp only
    rw [Bool.and_eq_true, Option.any_eq_true, List.all_eq_true]
    refine ⟨⟨r, hr, by simp [ht]⟩, ?_⟩
    rintro ⟨seq, p⟩ hm
    cases p with
    | attempt w r =>
      by_cases hi : r.identity = i
      · simp [hafter seq w r hm hi]
      · simp [hi]
    | _ => rfl

instance (entries : List Entry) (i : Identity) : Decidable (Pending entries i) :=
  decidable_of_iff (∃ n < entries.length, pendingSince entries i n = true) <| by
    constructor
    · rintro ⟨n, -, h⟩
      obtain ⟨before, seq, b, after, he, -, hlast, hafter⟩ := pendingSince_iff.mp h
      exact ⟨before, seq, b, after, he, hlast, hafter⟩
    · rintro ⟨before, seq, b, after, he, hlast, hafter⟩
      refine ⟨before.length, by rw [he, List.length_append, List.length_cons]; omega, ?_⟩
      exact pendingSince_iff.mpr ⟨before, seq, b, after, he, rfl, hlast, hafter⟩

/-- All pending attempts are interrupted. -/
def PendingInterrupted (entries : List Entry) : Prop :=
  ∀ i, Pending entries i → ∃ r, lastWrite entries i = some r ∧ r.phase = .interrupted

section Lineages

variable {entries : List Entry} {seq : LineageSeq} {p : Payload} {w : AttemptWrite}
  {q r : AttemptRecord} {i : Identity}

theorem isOpen_of_not_terminal (h : r.isTerminal = false) : r.isOpen = true := by
  rw [AttemptRecord.isOpen, phaseOpen, show attemptPhaseIsTerminal r.phase = false from h]
  rfl

theorem isOpen_of_interrupted (h : r.phase = .interrupted) : r.isOpen = true := by
  rw [AttemptRecord.isOpen, h]
  rfl

/-- An open attempt that is terminal is interrupted. -/
theorem interrupted_of_isOpen (h : r.isOpen = true) (ht : r.isTerminal = true) :
    r.phase = .interrupted := by
  rw [AttemptRecord.isOpen, phaseOpen, show attemptPhaseIsTerminal r.phase = true from ht] at h
  simpa using h

/-- No attempt is opened again. -/
theorem phaseOpen_of_moves {old new : AttemptPhase} (h : phaseMoves old new = true)
    (ho : phaseOpen new = true) : phaseOpen old = true := by
  cases old <;> cases new <;> revert h ho <;> decide

theorem Known.isOpen (h : Known entries q) (ho : q.isOpen = true) : IsOpen entries q.identity := by
  obtain ⟨r, hr, hu⟩ := h
  refine ⟨r, hr, ?_⟩
  rwa [AttemptRecord.isOpen, phase_of_unstamped hu]

/-- A retained attempt is in the phase of its last record. -/
theorem Known.phase (h : Known entries q) (hr : lastWrite entries q.identity = some r) :
    q.phase = r.phase := by
  obtain ⟨r', hr', hu⟩ := h
  rw [hr] at hr'
  cases hr'
  exact (phase_of_unstamped hu).symm

theorem isOpen_append_other (h : r.identity ≠ i) :
    IsOpen (entries ++ [(seq, .attempt w r)]) i ↔ IsOpen entries i := by
  rw [IsOpen, IsOpen, lastWrite_other _ _ _ h]

theorem isOpen_append_self :
    IsOpen (entries ++ [(seq, .attempt w r)]) r.identity ↔ r.isOpen = true := by
  rw [IsOpen, lastWrite_attempt]
  exact ⟨fun ⟨_, h, ho⟩ => Option.some.inj h ▸ ho, fun h => ⟨r, rfl, h⟩⟩

theorem lastWrite_of_not_attempt (h : ∀ w r, p ≠ .attempt w r) :
    lastWrite (entries ++ [(seq, p)]) i = lastWrite entries i := by
  rw [lastWrite_append]
  cases p with
  | attempt w r => exact absurd rfl (h w r)
  | _ => rfl

/-- An attempt is pending behind a record because it was in front of it, or because the record
boots. -/
theorem pending_append (h : Pending (entries ++ [(seq, p)]) i) :
    Pending entries i ∧ (∀ w r, p = .attempt w r → r.identity = i → r.settles = false) ∨
      (∃ b, p = .boot b) ∧ ∃ r, lastWrite entries i = some r ∧ r.isTerminal = false := by
  obtain ⟨before, seq', b, after, he, hlast, hafter⟩ := h
  rcases List.eq_nil_or_concat after with rfl | ⟨after', x, rfl⟩
  · obtain ⟨rfl, hx⟩ := List.append_inj' he rfl
    cases hx
    exact .inr ⟨⟨b, rfl⟩, hlast⟩
  · rw [List.concat_eq_append, ← List.cons_append, ← List.append_assoc] at he
    obtain ⟨rfl, hx⟩ := List.append_inj' he rfl
    cases hx
    refine .inl ⟨⟨before, seq', b, after', rfl, hlast, fun seq w r hm => ?_⟩, ?_⟩
    · exact hafter seq w r (by rw [List.concat_eq_append]; exact List.mem_append_left _ hm)
    · rintro w r rfl hid
      exact hafter seq w r (by simp) hid

/-- What leaves the pending attempts interrupted. -/
theorem PendingInterrupted.append (h : PendingInterrupted entries) (hb : ∀ b, p ≠ .boot b)
    (ha : ∀ w r, p = .attempt w r → Pending entries r.identity →
      r.phase = .interrupted ∨ r.settles = true) :
    PendingInterrupted (entries ++ [(seq, p)]) := by
  intro i hi
  rcases pending_append hi with ⟨hold, hsettles⟩ | ⟨⟨b, rfl⟩, -⟩
  · obtain ⟨r₀, hlast, hphase⟩ := h i hold
    rw [lastWrite_append]
    split
    · rename_i w r
      by_cases hid : r.identity = i
      · subst hid
        rw [if_pos rfl]
        rcases ha w r rfl hold with hr | hr
        · exact ⟨r, rfl, hr⟩
        · rw [hsettles w r rfl rfl] at hr
          cases hr
      · rw [if_neg hid]
        exact ⟨r₀, hlast, hphase⟩
    · exact ⟨r₀, hlast, hphase⟩
  · exact absurd rfl (hb b)

end Lineages

/-! ## Writes that keep marked attempts -/

/-- Which of the retained attempts must not get lost. -/
abbrev Mark := DurableState → AttemptRecord → Bool

def openMark : Mark := fun _ q => q.isOpen

/-- A write takes no marked attempt out of the table, neither under its key nor by eviction, and
creates no attempt with a number below one of its generation. -/
def keepsMarked (mark : Mark) (p : Payload) (d d' : DurableState) : Bool :=
  match p with
  | .attempt w r =>
    (decide (w ≠ .create) || d.attempts.all fun q =>
      !DurableState.concerns r.subject r.subjectGeneration q ||
        decide (q.attemptSeq.toNat ≤ r.attemptSeq.toNat)) &&
    (d.attempts.all fun q => !mark d q || decide (q.identity = r.identity) ||
      d'.attempts.any fun q' => decide (q'.identity = q.identity)) &&
    (!mark d r || d'.attempts.any fun q => decide (q.identity = r.identity))
  | _ => true

/-- A write of a process, or of the replay at an open, that keeps the marked attempts. -/
def Event.keeps (mark : Mark) : Event → Bool
  | .committed _ p before after true => keepsMarked mark p before after
  | .replayed _ p before after => keepsMarked mark p before after
  | _ => true

def KeepsMark (mark : Mark) : TableRule := fun p d d' => keepsMarked mark p d d' = true

theorem obeys_of_keeps {mark : Mark} {history : List Event}
    (h : history.all (Event.keeps mark) = true) : ∀ e ∈ history, e.Obeys (KeepsMark mark) := by
  intro e he
  have hkeeps := List.all_eq_true.mp h e he
  cases e with
  | committed seq p before after written =>
    cases written with
    | true => exact hkeeps
    | false => trivial
  | replayed seq p before after => exact hkeeps
  | _ => trivial

/-- What the condition gives of a record that is written. -/
structure Marked (mark : Mark) (w : AttemptWrite) (r : AttemptRecord) (d : DurableState)
    (after : List AttemptRecord) : Prop where
  number : w = .create → ∀ q ∈ d.attempts,
    DurableState.concerns r.subject r.subjectGeneration q = true →
      q.attemptSeq.toNat ≤ r.attemptSeq.toNat
  others : ∀ q ∈ d.attempts, mark d q = true → q.identity ≠ r.identity →
    ∃ q' ∈ after, q'.identity = q.identity
  self : mark d r = true → ∃ q ∈ after, q.identity = r.identity

theorem marked_of {mark : Mark} {w : AttemptWrite} {r : AttemptRecord} {d d' : DurableState}
    (h : keepsMarked mark (.attempt w r) d d' = true) : Marked mark w r d d'.attempts := by
  simp only [keepsMarked, Bool.and_eq_true, Bool.or_eq_true, List.all_eq_true, List.any_eq_true,
    decide_eq_true_eq, Bool.not_eq_true'] at h
  obtain ⟨⟨hnumber, hothers⟩, hself⟩ := h
  refine ⟨fun hw q hq hc => ?_, fun q hq hm hne => ?_, fun hm => ?_⟩
  · refine (hnumber.resolve_left (absurd hw) q hq).resolve_left fun hno => ?_
    rw [hc] at hno
    cases hno
  · refine (hothers q hq).resolve_left ?_
    rintro (hno | hsame)
    · rw [hm] at hno
      cases hno
    · exact hne hsame
  · refine hself.resolve_left fun hno => ?_
    rw [hm] at hno
    cases hno

/-! ## The law of the open attempts -/

/-- Every open attempt is retained and the latest of its generation, and every pending attempt is
open. -/
structure OpenOk (entries : List Entry) (d : DurableState) : Prop where
  keys : (d.attempts.map AttemptRecord.key).Nodup
  known : ∀ q ∈ d.attempts, Known entries q
  retained : ∀ i, IsOpen entries i → ∃ q ∈ d.attempts, q.identity = i
  latest : ∀ i, IsOpen entries i → ∀ q ∈ d.attempts,
    DurableState.concerns i.1 i.2.1 q = true → q.attemptSeq.toNat ≤ i.2.2.toNat
  pending : ∀ i, Pending entries i → IsOpen entries i

/-- What a record of an attempt says of the open ones. -/
structure OpenWrite (entries : List Entry) (w : AttemptWrite) (r : AttemptRecord) : Prop where
  alone : w = .create → ∀ i, IsOpen entries i →
    DurableState.concerns i.1 i.2.1 r = false
  opened : w ≠ .create → r.isOpen = true → IsOpen entries r.identity
  below : ∀ i, IsOpen entries i → r.identity ≠ i →
    DurableState.concerns i.1 i.2.1 r = true → r.attemptSeq.toNat ≤ i.2.2.toNat
  pending : Pending entries r.identity → r.isOpen = true ∨ r.settles = true

/-- An attempt that is not later than any other one of its generation that is open. -/
def Below (entries : List Entry) (q : AttemptRecord) : Prop :=
  ∀ i, IsOpen entries i → q.identity ≠ i →
    DurableState.concerns i.1 i.2.1 q = true → q.attemptSeq.toNat ≤ i.2.2.toNat

def LiveOpen (entries : List Entry) : Job → Prop
  | .fresh | .booted => True
  | .serving | .granting _ => PendingInterrupted entries
  | .fencing todo => PendingInterrupted entries ∧ ∀ q ∈ todo, Below entries q
  | .owing _ j => LiveOpen entries j

section Steps

variable {wire : Prop} {entries : List Entry} {o : StoreOptions} {d d' : DurableState} {j j' : Job}
  {p : Payload} {apply : LineageSeq → DurableState → DurableState} {seq : LineageSeq}
  {w : AttemptWrite} {q r r' : AttemptRecord} {table : List AttemptRecord}

theorem OpenOk.other (h : OpenOk entries d) (hp : ∀ w r, p ≠ .attempt w r)
    (ha : d'.attempts = d.attempts) : OpenOk (entries ++ [(seq, p)]) d' where
  keys := ha ▸ h.keys
  known q hq := (h.known q (ha ▸ hq)).append seq fun w r he => absurd he (hp w r)
  retained i hi := by
    rw [IsOpen, lastWrite_of_not_attempt hp] at hi
    rw [ha]
    exact h.retained i hi
  latest i hi := by
    rw [IsOpen, lastWrite_of_not_attempt hp] at hi
    rw [ha]
    exact h.latest i hi
  pending i hi := by
    rw [IsOpen, lastWrite_of_not_attempt hp]
    rcases pending_append hi with ⟨hold, -⟩ | ⟨-, r, hr, ht⟩
    · exact h.pending i hold
    · exact ⟨r, hr, isOpen_of_not_terminal ht⟩

theorem OpenOk.attempt (h : OpenOk entries d) (hw : OpenWrite entries w r)
    (hup : Upserted r' d.attempts table) (hs : r'.unstamped = r.unstamped)
    (hk : Marked openMark w r d table) :
    OpenOk (entries ++ [(seq, .attempt w r)]) { d with attempts := table } := by
  have hid : r'.identity = r.identity := identity_of_unstamped hs
  have hcases : ∀ q ∈ table, q = r' ∨ q ∈ d.attempts ∧ q.key ≠ r'.key := fun q hq =>
    hup.of_mem h.keys hq
  refine ⟨hup.nodup h.keys, fun q hq => ?_, fun i hi => ?_, fun i hi q hq hc => ?_, fun i hi => ?_⟩
  · rcases hcases q hq with rfl | ⟨hq, hne⟩
    · exact ⟨r, by rw [hid, lastWrite_attempt], hs.symm⟩
    · refine (h.known q hq).append seq fun w' x hx hsame => hne ?_
      cases hx
      rw [key_of_unstamped hs, key_of_identity hsame]
  · by_cases hsame : r.identity = i
    · subst hsame
      exact hk.self (isOpen_append_self.mp hi)
    · rw [isOpen_append_other hsame] at hi
      obtain ⟨q, hq, rfl⟩ := h.retained i hi
      obtain ⟨r₀, hlast, hopen⟩ := hi
      refine hk.others q hq ?_ fun hc => hsame hc.symm
      rwa [openMark, AttemptRecord.isOpen, (h.known q hq).phase hlast]
  · by_cases hsame : r.identity = i
    · subst hsame
      rcases hcases q hq with rfl | ⟨hq, -⟩
      · exact (congrArg (fun i : Identity => i.2.2.toNat) hid).le
      · by_cases hcreate : w = .create
        · exact hk.number hcreate q hq hc
        · exact h.latest _ (hw.opened hcreate (isOpen_append_self.mp hi)) q hq hc
    · rw [isOpen_append_other hsame] at hi
      rcases hcases q hq with rfl | ⟨hq, -⟩
      · rw [concerns_of_identity hid] at hc
        rw [show q.attemptSeq = r.attemptSeq from congrArg (·.2.2) hid]
        exact hw.below i hi hsame hc
      · exact h.latest i hi q hq hc
  · rcases pending_append hi with ⟨hold, hsettles⟩ | ⟨⟨b, hb⟩, -⟩
    · by_cases hsame : r.identity = i
      · subst hsame
        rw [isOpen_append_self]
        refine (hw.pending hold).resolve_right fun hc => ?_
        rw [hsettles w r rfl rfl] at hc
        cases hc
      · rw [isOpen_append_other hsame]
        exact h.pending i hold
    · cases hb

/-- No attempt of the generation of a new attempt is open. -/
theorem OpenOk.closed (h : OpenOk entries d)
    (hl : ∀ q ∈ d.attempts, q.isTerminal = false → q.authority.Binds d ∧ q.phase ≠ .evaluated)
    (hc : Creates d r) {i : Identity} (hi : IsOpen entries i) :
    DurableState.concerns i.1 i.2.1 r = false := by
  by_contra hcon
  rw [Bool.not_eq_false] at hcon
  obtain ⟨hs, hg⟩ := DurableState.concerns_iff.mp hcon
  obtain ⟨q, hq, rfl⟩ := h.retained i hi
  change r.subject = q.subject at hs
  change r.subjectGeneration = q.subjectGeneration at hg
  have hopen : q.isOpen = true := by
    obtain ⟨r₀, hlast, hopen⟩ := hi
    rwa [AttemptRecord.isOpen, (h.known q hq).phase hlast]
  cases ht : q.isTerminal with
  | false =>
    -- it holds authority of this boot
    obtain ⟨hbinds, hphase⟩ := hl q hq ht
    have hidle := DurableState.activeAuthority_none.mp hc.active q hq hs.symm hg.symm
    have hholds : attemptPhaseHoldsAuthority q.phase = true := by
      by_contra hh
      exact hphase (evaluated_of_not_terminal ht (by simpa using hh))
    rw [DurableState.isActive_iff.mpr ⟨hholds, hbinds.epoch, hbinds.coordinator⟩] at hidle
    cases hidle
  | true =>
    obtain ⟨x, hx⟩ := DurableState.latestAttempt_isSome hq hs.symm hg.symm
    obtain ⟨hxm, hxs, hxg, hlater⟩ := DurableState.latestAttempt_some hx
    have hle := hlater q hq hs.symm hg.symm
    have hge := h.latest _ hi x hxm
      (DurableState.concerns_iff.mpr ⟨hxs.trans hs, hxg.trans hg⟩)
    have hseq : x.attemptSeq = q.attemptSeq := StrongUint.toNat_inj.mp (Nat.le_antisymm hge hle)
    obtain rfl : x = q := BoundedTable.eq_of_key_eq h.keys hxm hq
      (by rw [AttemptRecord.key, AttemptRecord.key, hseq, hxs.trans hs])
    exact hc.latest x hx (interrupted_of_isOpen hopen ht)

theorem OpenOk.not_pending (h : OpenOk entries d)
    (hl : ∀ q ∈ d.attempts, q.isTerminal = false → q.authority.Binds d ∧ q.phase ≠ .evaluated)
    (hc : Creates d r) : ¬ Pending entries r.identity := by
  intro hpending
  have hclosed := h.closed hl hc (h.pending _ hpending)
  have hself : DurableState.concerns r.identity.1 r.identity.2.1 r = true :=
    DurableState.concerns_iff.mpr ⟨rfl, rfl⟩
  rw [hself] at hclosed
  cases hclosed

theorem OpenOk.below (h : OpenOk entries d) (hq : q ∈ d.attempts) : Below entries q :=
  fun i hi _ hc => h.latest i hi q hq hc

/-- A later record of an attempt that is known. -/
theorem OpenWrite.continues (hk : Known entries q) (hb : Below entries q)
    (hp : PendingInterrupted entries) (hc : Continues d q w r) : OpenWrite entries w r where
  alone hw := absurd (hc.write.symm.trans hw) (writeOf_ne_create _)
  opened _ hr := by
    rw [hc.identity]
    exact hk.isOpen (phaseOpen_of_moves hc.phase hr)
  below i hi hne hcon := by
    rw [hc.identity] at hne
    rw [concerns_of_identity hc.identity] at hcon
    rw [show r.attemptSeq = q.attemptSeq from congrArg (·.2.2) hc.identity]
    exact hb i hi hne hcon
  pending hpending := by
    rw [hc.identity] at hpending
    obtain ⟨r₀, hlast, hphase⟩ := hp _ hpending
    by_cases hr : r.phase = .interrupted
    · exact .inl (isOpen_of_interrupted hr)
    · obtain ⟨hrev, hne⟩ := hc.settles ((hk.phase hlast).trans hphase) hr
      refine .inr ?_
      rw [AttemptRecord.settles, hrev]
      exact decide_eq_true hne

/-- A later record of an interrupted attempt leaves it interrupted or settles it. -/
theorem PendingInterrupted.continues (hp : PendingInterrupted entries) (hk : Known entries q)
    (hc : Continues d q w r) : PendingInterrupted (entries ++ [(seq, .attempt w r)]) := by
  refine hp.append (fun _ => Payload.noConfusion) ?_
  rintro _ _ ⟨⟩ hpending
  rw [hc.identity] at hpending
  obtain ⟨r₀, hlast, hphase⟩ := hp _ hpending
  by_cases hr : r.phase = .interrupted
  · exact .inl hr
  · obtain ⟨hrev, hne⟩ := hc.settles ((hk.phase hlast).trans hphase) hr
    refine .inr ?_
    rw [AttemptRecord.settles, hrev]
    exact decide_eq_true hne

/-- A new attempt, in a generation in which none is open. -/
theorem OpenWrite.creates (h : OpenOk entries d)
    (hl : ∀ q ∈ d.attempts, q.isTerminal = false → q.authority.Binds d ∧ q.phase ≠ .evaluated)
    (hc : Creates d r) : OpenWrite entries .create r where
  alone _ _ hi := h.closed hl hc hi
  opened hw := absurd rfl hw
  below i hi _ hcon := by
    rw [h.closed hl hc hi] at hcon
    cases hcon
  pending hpending := absurd hpending (h.not_pending hl hc)

/-- The guards of a write give what it says of the open attempts. -/
theorem Writes.openWrite (hw : Writes wire entries o d j p apply j') (hs : StateOk entries d)
    (hl : LiveOk entries d j) (h : OpenOk entries d) (ho : LiveOpen entries j) :
    ∀ w r, p = .attempt w r → OpenWrite entries w r := by
  cases hw with
  | @interrupt r hr ht =>
    rintro _ _ ⟨⟩
    have hk := hs.known _ hr
    exact
      { alone := fun hw => by cases hw
        opened := fun _ _ => hk.isOpen (isOpen_of_not_terminal ht)
        below := fun i hi hne hcon => h.below hr i hi hne hcon
        pending := fun _ => .inl (isOpen_of_interrupted rfl) }
  | record hc | grant hc =>
    rintro _ _ ⟨⟩
    exact .creates h hl hc
  | authorize a =>
    rintro _ _ ⟨⟩
    obtain ⟨-, hk, -, hphase, -⟩ := hl
    have hopen : IsOpen entries a.identity :=
      hk.isOpen (isOpen_of_not_terminal (by rw [AttemptRecord.isTerminal, hphase]; rfl))
    obtain ⟨q, hq, hid⟩ := h.retained _ hopen
    exact
      { alone := fun hw => by cases hw
        opened := fun _ _ => hopen
        below := fun i hi hne hcon => by
          have hle := h.latest i hi q hq (by rwa [concerns_of_identity hid])
          rwa [show q.attemptSeq = a.attemptSeq from congrArg (·.2.2) hid] at hle
        pending := fun _ => .inl rfl }
  | carry hq hc =>
    rintro _ _ ⟨⟩
    exact .continues (hs.known _ hq) (h.below hq) ho hc
  | rollback hq hc =>
    rintro _ _ ⟨⟩
    exact .continues (hs.known _ hq) (h.below hq) ho hc
  | abort hq known _ _ hc =>
    rintro _ _ ⟨⟩
    exact .continues known (ho.2 _ hq) ho.1 hc
  | _ => exact fun _ _ => Payload.noConfusion

theorem Below.append (h : Below entries q) (hi : ∀ i, IsOpen (entries ++ [(seq, p)]) i →
    IsOpen entries i) : Below (entries ++ [(seq, p)]) q :=
  fun i hopen hne hcon => h i (hi i hopen) hne hcon

theorem isOpen_of_append_other (hp : ∀ w r, p ≠ .attempt w r) (i : Identity)
    (h : IsOpen (entries ++ [(seq, p)]) i) : IsOpen entries i := by
  rwa [IsOpen, lastWrite_of_not_attempt hp] at h

/-- A record that is neither a boot nor of an attempt. -/
theorem LiveOpen.other (h : LiveOpen entries j) (hb : ∀ b, p ≠ .boot b)
    (hp : ∀ w r, p ≠ .attempt w r) : LiveOpen (entries ++ [(seq, p)]) j := by
  have hpending : PendingInterrupted entries → PendingInterrupted (entries ++ [(seq, p)]) :=
    fun h => h.append hb fun w r he => absurd he (hp w r)
  induction j with
  | fresh | booted => trivial
  | serving | granting a => exact hpending h
  | fencing todo =>
    exact ⟨hpending h.1, fun q hq => (h.2 q hq).append (isOpen_of_append_other hp)⟩
  | owing r j ih => exact ih h

/-- What a write leaves of what the job relies on. -/
theorem Writes.liveOpen (hw : Writes wire entries o d j p apply j') (hs : StateOk entries d)
    (hl : LiveOk entries d j) (h : OpenOk entries d) (ho : LiveOpen entries j) :
    LiveOpen (entries ++ [(seq, p)]) j' := by
  have hcreate : ∀ {r}, Creates d r →
      (∀ q ∈ d.attempts, q.isTerminal = false → q.authority.Binds d ∧ q.phase ≠ .evaluated) →
      PendingInterrupted entries →
      PendingInterrupted (entries ++ [(seq, .attempt .create r)]) := by
    intro r hc hl ho
    refine ho.append (fun _ => Payload.noConfusion) ?_
    rintro _ _ ⟨⟩ hpending
    exact absurd hpending (h.not_pending hl hc)
  cases hw with
  | boot | interrupt => trivial
  | fence => exact ho.other (fun _ => Payload.noConfusion) fun _ _ => Payload.noConfusion
  | record hc | grant hc => exact hcreate hc hl ho
  | authorize a =>
    refine PendingInterrupted.append ho (fun _ => Payload.noConfusion) ?_
    rintro _ _ ⟨⟩ hpending
    obtain ⟨r₀, hlast, hphase⟩ := ho _ hpending
    obtain ⟨-, hk, -, hevaluated, -⟩ := hl
    have hsame := (hk.phase hlast).trans hphase
    rw [hevaluated] at hsame
    cases hsame
  | carry hq hc => exact PendingInterrupted.continues ho (hs.known _ hq) hc
  | rollback hq hc => exact PendingInterrupted.continues ho (hs.known _ hq) hc
  | @abort q r todo hq known _ hphase hc =>
    refine ⟨ho.1.continues known hc, fun x hx => (ho.2 x hx).append fun i hi => ?_⟩
    by_cases hsame : r.identity = i
    · subst hsame
      have hopen := isOpen_append_self.mp hi
      rw [AttemptRecord.isOpen, hphase] at hopen
      cases hopen
    · exact (isOpen_append_other hsame).mp hi
  | policy | topology =>
    exact ⟨PendingInterrupted.append ho (fun _ => Payload.noConfusion)
      fun _ _ he => Payload.noConfusion he, fun q hq => (h.below hq).append
        (isOpen_of_append_other fun _ _ => Payload.noConfusion)⟩
  | decision | idempotency | checkpoint | shutdown =>
    exact LiveOpen.other ho (fun _ => Payload.noConfusion) fun _ _ => Payload.noConfusion

end Steps

/-- In a run that keeps the open attempts, each of them is retained and the latest of its
generation, and in a process that serves the pending ones are interrupted. -/
theorem pendingLaw (wire : Prop) : LineageLaw wire (KeepsMark openMark) OpenOk
    (fun entries x => ∀ w r, x.2 = .attempt w r → OpenWrite entries w r)
    fun entries _ _ j => LiveOpen entries j where
  start _ := by
    refine ⟨.nil, by simp, ?_, ?_, ?_⟩
    · rintro i ⟨r, hr, -⟩
      cases hr
    · rintro i ⟨r, hr, -⟩
      cases hr
    · rintro i ⟨before, seq, b, after, he, -⟩
      cases before <;> cases he
  positions h _ _ := ⟨h.keys, h.known, h.retained, h.latest, h.pending⟩
  effect h hl _ he hr := by
    cases he with
    | attempt hup hs _ => exact h.attempt (hl _ _ rfl) hup hs (marked_of (hr trivial))
    | _ => exact h.other (fun _ _ => Payload.noConfusion) rfl
  opened _ := trivial
  guard ht h ho hw _ := hw.openWrite ht.stateOk ht.liveOk h ho
  live ht h ho hw _ _ := hw.liveOpen ht.stateOk ht.liveOk h ho
  booted h _ hterminal := by
    intro i hi
    obtain ⟨r, hlast, hopen⟩ := h.pending i hi
    obtain ⟨q, hq, rfl⟩ := h.retained i ⟨r, hlast, hopen⟩
    refine ⟨r, hlast, interrupted_of_isOpen hopen ?_⟩
    rw [AttemptRecord.isTerminal, ← (h.known q hq).phase hlast]
    exact hterminal q hq
  fenced _ ho _ := ho.1
  local_rule h := h

/-! ## The gate -/

/-- A request that is granted creates an attempt of its generation, in a store that has not
failed. -/
theorem Engine.Grants.creates {e : Engine} (hok : EngineOk False e) {req : FailoverRequest}
    (h : e.Grants req) : e.store.failed = false ∧ ∃ a, Creates e.state a ∧
      DurableState.concerns req.subject req.subjectGeneration a = true := by
  obtain ⟨d, hd, hg, hi⟩ := h
  have hadvance : EngineOk False e.advance := hok.leads Engine.advance_leads
  unfold Engine.requestFailover at hd
  split at hd
  · cases hd
  rename_i hu
  have hf := Engine.not_failed_of_available hok hu
  obtain ⟨d', a, hplan, -⟩ := Engine.execute_granted Engine.planFailover_ungranted hd hg hi
  have hplanned := @Engine.planFailover_ok False e.advance req (Engine.ready hadvance hf)
  rw [hplan] at hplanned
  obtain ⟨-, hcreates, -, -⟩ := hplanned
  refine ⟨hf, a, hcreates, ?_⟩
  obtain ⟨link, c, -, hgrant⟩ := Engine.planFailover_grant hplan
  rw [(FailoverPlan.grant.inj hgrant).2]
  exact DurableState.concerns_iff.mpr ⟨rfl, rfl⟩

/-- What the law of the open attempts says of a process that can write. -/
theorem Engine.openOk {e : Engine} (hok : EngineOk False e) (hf : e.store.failed = false)
    (hk : e.store.medium.history.all (Event.keeps openMark) = true) :
    OpenOk (lineage e.store.medium.history) e.state ∧
      PendingInterrupted (lineage e.store.medium.history) :=
  ((pendingLaw False).holds (ok_trace hok hf) (obeys_of_keeps hk)).live _ _ _ rfl

theorem Engine.Grants.not_pending {e : Engine} (hok : EngineOk False e) {req : FailoverRequest}
    (h : e.Grants req) (hk : e.store.medium.history.all (Event.keeps openMark) = true)
    (s : AttemptSeq) :
    ¬ Pending (lineage e.store.medium.history) (req.subject, req.subjectGeneration, s) := by
  obtain ⟨hf, a, hcreates, hconcerns⟩ := h.creates hok
  obtain ⟨hopen, -⟩ := openOk hok hf hk
  intro hpending
  have hclosed := hopen.closed (ok_trace hok hf).liveOk hcreates (hopen.pending _ hpending)
  rw [hconcerns] at hclosed
  cases hclosed

/-- A pending attempt of a process is interrupted and the latest of its generation. -/
theorem OpenOk.latest_pending {entries : List Entry} {d : DurableState} (h : OpenOk entries d)
    (hp : PendingInterrupted entries) {i : Identity} (hi : Pending entries i) :
    ∃ q, d.findAttempt i.1 i.2.2 = some q ∧ d.latestAttempt i.1 i.2.1 = some q ∧
      q.identity = i ∧ q.phase = .interrupted := by
  obtain ⟨q, hq, rfl⟩ := h.retained i (h.pending i hi)
  have hunique : ∀ x ∈ d.attempts, x.subject = q.subject → x.attemptSeq = q.attemptSeq → x = q :=
    fun x hx hs hn => BoundedTable.eq_of_key_eq h.keys hx hq
      (by rw [AttemptRecord.key, AttemptRecord.key, hs, hn])
  obtain ⟨r, hlast, hphase⟩ := hp _ hi
  refine ⟨q, ?_, ?_, rfl, ((h.known q hq).phase hlast).trans hphase⟩
  · obtain ⟨x, hx⟩ : ∃ x, d.findAttempt q.subject q.attemptSeq = some x :=
      Option.isSome_iff_exists.mp (List.find?_isSome.mpr ⟨q, hq, by simp⟩)
    obtain ⟨hxm, hxs, hxn⟩ := DurableState.findAttempt_some hx
    rw [hunique x hxm hxs hxn] at hx
    exact hx
  · obtain ⟨x, hx⟩ := DurableState.latestAttempt_isSome hq rfl rfl
    obtain ⟨hxm, hxs, hxg, hlater⟩ := DurableState.latestAttempt_some hx
    have hle := hlater q hq rfl rfl
    have hge := h.latest _ (h.pending _ hi) x hxm (DurableState.concerns_iff.mpr ⟨hxs, hxg⟩)
    rw [hunique x hxm hxs (StrongUint.toNat_inj.mp (Nat.le_antisymm hge hle))] at hx
    exact hx

/-- In a run whose writes keep the open attempts, and number no new attempt below a retained one of
its generation:

* while the store has not failed, every pending attempt is interrupted, the latest of its
  generation, and found by a revalidation that names it;
* no request is granted for a generation of which an attempt is pending. -/
theorem pending_refused {actions : List Action} {e : Engine} (he : System.run actions = .up e)
    (hk : e.store.medium.history.all (Event.keeps openMark) = true) :
    (e.store.failed = false → ∀ i, Pending (lineage e.store.medium.history) i →
      ∃ q, e.state.findAttempt i.1 i.2.2 = some q ∧ e.state.latestAttempt i.1 i.2.1 = some q ∧
        q.identity = i ∧ q.phase = .interrupted) ∧
    ∀ req d, (e.requestFailover req).2 = .ok d → d.kind = .grant → d.idempotentReplay = false →
      ∀ s, ¬ Pending (lineage e.store.medium.history) (req.subject, req.subjectGeneration, s) := by
  have hok : EngineOk False e := Reachable.ok ⟨actions, he⟩
  refine ⟨fun hf i hi => ?_, fun req d hd hg hi => ?_⟩
  · obtain ⟨hopen, hinterrupted⟩ := Engine.openOk hok hf hk
    exact hopen.latest_pending hinterrupted hi
  · exact Engine.Grants.not_pending hok ⟨d, hd, hg, hi⟩ hk

/-- The next process learns of a new generation of the primary link, which is down too. -/
def Sample.renewed : List Action :=
  [.perform (.setTopology (topology ⟨2⟩ ⟨2⟩)), .perform (down ⟨2⟩ ⟨2⟩ 1),
    .perform (usable ⟨2⟩ 1)]

/-- The attempt of a killed process is pending, and it is there to be revalidated. For its
generation nothing is granted, but for the next generation of the link a request is. -/
theorem pending_refused_sample : ∃ e, Reachable e ∧
    Pending (lineage e.store.medium.history) (Sample.primary, ⟨1⟩, ⟨1⟩) ∧
    (∃ q, e.state.findAttempt Sample.primary ⟨1⟩ = some q ∧ q.phase = .interrupted) ∧
    e.grants (Sample.request ⟨1⟩) = false ∧ e.grants (Sample.request ⟨2⟩) = true ∧
    ∀ s, ¬ Pending (lineage e.store.medium.history) (Sample.primary, ⟨2⟩, s) := by
  obtain ⟨e, he, hp⟩ := @System.of_reboot Sample.grantedOnce Sample.renewed Sample.again
    (fun e : Engine => !e.store.failed &&
      decide (Pending (lineage e.store.medium.history) (Sample.primary, ⟨1⟩, ⟨1⟩)) &&
      e.store.medium.history.all (Event.keeps openMark) && e.grants (Sample.request ⟨2⟩))
    (by decide +kernel)
  simp only [Bool.and_eq_true, Bool.not_eq_true', decide_eq_true_eq] at hp
  obtain ⟨⟨⟨hf, hpending⟩, hkeeps⟩, hgrants⟩ := hp
  obtain ⟨hthere, hnone⟩ := pending_refused he hkeeps
  obtain ⟨q, hfound, -, -, hphase⟩ := hthere hf _ hpending
  refine ⟨e, ⟨_, he⟩, hpending, ⟨q, hfound, hphase⟩, ?_, hgrants, fun s => ?_⟩
  · rw [← Bool.not_eq_true]
    intro hg
    obtain ⟨d, hd, hg, hi⟩ := Engine.grants_iff.mp hg
    exact hnone _ d hd hg hi ⟨1⟩ hpending
  · obtain ⟨d, hd, hg, hi⟩ := Engine.grants_iff.mp hgrants
    exact hnone _ d hd hg hi s

/-! ## Runs -/

/-- Whatever came before: no request of the run is granted for a generation of which an attempt was
in flight when a boot ended and has no verdict, applied or not applied, since. -/
def RevalidationGate (actions : List Action) : Prop :=
  ∀ e req, Performs actions e (.requestFailover req) → e.Grants req →
    ∀ s, ¬ Pending (lineage e.store.medium.history) (req.subject, req.subjectGeneration, s)

/-- The gate is shut in every run whose writes keep the open attempts, and number no new attempt below
a retained one of its generation. -/
theorem revalidation_gate {actions : List Action}
    (hk : (System.run actions).history.all (Event.keeps openMark) = true) :
    RevalidationGate actions := by
  rintro e req ⟨before, after, rfl, hrun⟩ hgrants
  have hbegins := System.run_history before (.perform (.requestFailover req) :: after)
  rw [hrun] at hbegins
  obtain ⟨more, hmore⟩ := hbegins
  rw [← hmore, List.all_append, Bool.and_eq_true] at hk
  exact hgrants.not_pending (Reachable.ok ⟨before, hrun⟩) hk.1

/-- The fabric with a table that keeps no attempt that is over. -/
def Sample.forgetful (n : UInt8) : Boot where
  options := options {} { maxAttempts := 0 }
  incarnation := incarnation n

/-- An attempt that a restart interrupted is over, and a table that keeps none of these forgets it at
the next attempt for another link. Then its generation is granted, without any verdict. -/
theorem gate_forgotten : ¬ ∀ actions, RevalidationGate actions := by
  intro hall
  let granted := Sample.booted {} { maxAttempts := 0 } ++
    [.perform (.requestFailover (Sample.request ⟨1⟩))]
  let behind : List Action :=
    [.perform (.requestFailover { subject := Sample.alternate, subjectGeneration := ⟨1⟩ }),
      .perform (Sample.down ⟨1⟩ ⟨1⟩ 1), .perform (Sample.usable ⟨1⟩ 1)]
  obtain ⟨e, he, hp⟩ := @System.of_reboot granted behind (Sample.forgetful 2) (fun e : Engine =>
    decide (Pending (lineage e.store.medium.history) (Sample.primary, ⟨1⟩, ⟨1⟩)) &&
      e.grants (Sample.request ⟨1⟩)) (by decide +kernel)
  rw [Bool.and_eq_true, decide_eq_true_eq] at hp
  exact hall _ e (Sample.request ⟨1⟩) ⟨_, [], rfl, he⟩ (Engine.grants_iff.mp hp.2) ⟨1⟩ hp.1

/-- The process behind a restart is asked for the generation whose attempt was interrupted, and
refuses it. -/
theorem revalidation_gate_sample : ∃ (e : Engine) (actions : List Action),
    Performs actions e (.requestFailover (Sample.request ⟨1⟩)) ∧
    Pending (lineage e.store.medium.history) (Sample.primary, ⟨1⟩, ⟨1⟩) ∧
    ¬ e.Grants (Sample.request ⟨1⟩) := by
  obtain ⟨e, he, hp⟩ := @System.of_reboot Sample.grantedOnce
    [.perform (Sample.down ⟨1⟩ ⟨1⟩ 1), .perform (Sample.usable ⟨1⟩ 1)] Sample.again
    (fun e : Engine =>
      decide (Pending (lineage e.store.medium.history) (Sample.primary, ⟨1⟩, ⟨1⟩)) &&
        (e.perform (.requestFailover (Sample.request ⟨1⟩))).1.store.medium.history.all
          (Event.keeps openMark)) (by decide +kernel)
  rw [Bool.and_eq_true, decide_eq_true_eq] at hp
  obtain ⟨hpending, hk⟩ := hp
  let actions := Sample.grantedOnce ++ .kill :: .start Sample.again ::
    [.perform (Sample.down ⟨1⟩ ⟨1⟩ 1), .perform (Sample.usable ⟨1⟩ 1)]
  have hrun : System.run (actions ++ [.perform (.requestFailover (Sample.request ⟨1⟩))]) =
      .up (e.perform (.requestFailover (Sample.request ⟨1⟩))).1 := by
    rw [System.run_append, he]
    rfl
  have hperforms : Performs (actions ++ [.perform (.requestFailover (Sample.request ⟨1⟩))]) e
      (.requestFailover (Sample.request ⟨1⟩)) := ⟨actions, [], rfl, he⟩
  refine ⟨e, _, hperforms, hpending, fun hgrants => ?_⟩
  exact revalidation_gate (by rw [hrun]; exact hk) e _ hperforms hgrants ⟨1⟩ hpending

end LinkFailover
