import LinkFailover.Lib.TableCounts
import LinkFailover.Identities
import LinkFailover.Neighbours
import LinkFailover.Stamps

/-!
# Numbers of attempts

The number of a new attempt is one more than the attempts of its generation that are retained. As
long as no write makes the table forget an attempt these are all that were ever created.

* `forgetsNone`: whether a write keeps every attempt.
* `numberingLaw`: what every record says of its number then.
* `attempts_issued_once`: the attempts of a lineage are numbered in their order.
* `attempt_reissued`: a table that is too small issues a number twice.
-/

namespace LinkFailover

open Codec

/-! ## Conditions -/

/-- A write of an attempt is alone under its key, and evicts nothing. -/
def forgetsNone : WriteCondition := fun o p d =>
  aloneWrite o p d &&
    match p with
    | .attempt _ r =>
      decide ((upsertAttempt r d.attempts).length ≤ o.maxAttempts) ||
        !(upsertAttempt r d.attempts).any AttemptRecord.isTerminal
    | _ => true

/-- What the condition gives: no attempt goes. -/
def KeepsAttempts : TableRule := fun p d d' =>
  ∀ w r, p = .attempt w r →
    Alone r d.attempts ∧ d'.attempts.length = (upsertAttempt r d.attempts).length

theorem keepsAttempts_of {o : StoreOptions} {w : AttemptWrite} {r r' : AttemptRecord}
    {d : DurableState} {after : List AttemptRecord}
    (hn : (d.attempts.map AttemptRecord.key).Nodup)
    (h : forgetsNone o (.attempt w r) d = true) (hs : r'.unstamped = r.unstamped)
    (ha : after = evictAttempts o (upsertAttempt r' d.attempts) ∨
      after = upsertAttempt r' d.attempts) :
    Alone r d.attempts ∧ after.length = (upsertAttempt r d.attempts).length := by
  rw [forgetsNone, Bool.and_eq_true] at h
  obtain ⟨halone, hroom⟩ := h
  have hlength : (upsertAttempt r' d.attempts).length = (upsertAttempt r d.attempts).length :=
    length_upsertAttempt (key_of_unstamped hs)
  refine ⟨fun q hq => of_decide_eq_true (List.all_eq_true.mp halone q hq), ?_⟩
  rcases ha with rfl | rfl
  · rw [Bool.or_eq_true, decide_eq_true_eq, Bool.not_eq_true', List.any_eq_false] at hroom
    rcases hroom with hroom | hroom
    · rw [evictAttempts, BoundedTable.evict_of_le (hlength.trans_le hroom), hlength]
    · rw [← hlength, evictAttempts]
      refine BoundedTable.length_evict_of_not_done fun x hx => ?_
      rcases (mem_upsertAttempt hn).mp hx with rfl | ⟨hold, hne⟩
      · rw [AttemptRecord.isTerminal, ← phase_of_unstamped hs.symm]
        exact Bool.eq_false_iff.mpr (hroom r BoundedTable.mem_upsert_self)
      · rw [key_of_unstamped hs] at hne
        exact Bool.eq_false_iff.mpr (hroom x (BoundedTable.mem_upsert_of_ne hold hne))
  · exact hlength

theorem Trace.keepsAttempts {wire : Prop} {history : List Event} {phase : Phase}
    (h : Trace wire history phase) (hc : writesMeet forgetsNone none history = true) :
    ∀ e ∈ history, e.Obeys KeepsAttempts := by
  refine (@Trace.follows history wire phase
    (fun o p d d' => forgetsNone o p d = true → KeepsAttempts p d d') ?_ ?_ h).obeys hc
  · rintro history o d j j' p apply seq ht hw hmeets w r rfl
    obtain ⟨r', hsame, hafter⟩ := hw.table (o := o) seq
    exact keepsAttempts_of ht.stateOk.keys hmeets hsame hafter
  · rintro entries o d p seq d' hs ha - - hmeets w r rfl
    rw [DurableState.applyRecord_attempt _ (DurableState.applyRecord_declared ha)] at ha
    cases hcheck : DurableState.checkAttempt w.type seq r with
    | error status =>
      rw [hcheck] at ha
      cases ha
    | ok _ =>
      rw [hcheck] at ha
      cases ha
      exact keepsAttempts_of hs.keys hmeets rfl (.inl rfl)

/-! ## The attempts of a lineage -/

/-- Whether a record creates an attempt of this generation of a link. -/
def Payload.creates (s : LinkKey) (g : LinkGeneration) : Payload → Bool
  | .attempt .create r => DurableState.concerns s g r
  | _ => false

/-- How many attempts a lineage has for a generation of a link. -/
def created (entries : List Entry) (s : LinkKey) (g : LinkGeneration) : Nat :=
  entries.countP fun x => x.2.creates s g

theorem created_append (entries : List Entry) (seq : LineageSeq) (p : Payload) (s : LinkKey)
    (g : LinkGeneration) :
    created (entries ++ [(seq, p)]) s g = created entries s g + if p.creates s g then 1 else 0 := by
  rw [created, List.countP_append, List.countP_cons, List.countP_nil, Nat.zero_add]
  rfl

/-- A table with all attempts of a lineage. -/
structure KeptAll (entries : List Entry) (table : List AttemptRecord) : Prop where
  keys : (table.map AttemptRecord.key).Nodup
  count : ∀ s g, table.countP (DurableState.concerns s g) = created entries s g
  bound : ∀ q ∈ table, q.attemptSeq.toNat ≤ created entries q.subject q.subjectGeneration
  written : ∀ i, lastWrite entries i ≠ none → ∃ q ∈ table, q.identity = i

theorem KeptAll.perm {entries : List Entry} {table table' : List AttemptRecord}
    (h : KeptAll entries table) (hp : table'.Perm table) : KeptAll entries table' where
  keys := (hp.map AttemptRecord.key).nodup_iff.mpr h.keys
  count s g := (hp.countP_eq _).trans (h.count s g)
  bound q hq := h.bound q (hp.mem_iff.mp hq)
  written i hi := by
    obtain ⟨q, hq, he⟩ := h.written i hi
    exact ⟨q, hp.mem_iff.mpr hq, he⟩

/-- What a record of an attempt says of its number. -/
def NumberedAs (entries : List Entry) (x : Entry) : Prop :=
  ∀ w r, x.2 = .attempt w r →
    if w = .create then
      r.attemptSeq.toNat = created entries r.subject r.subjectGeneration + 1 ∧
        r.attemptId = computeAttemptId r.subject.fabric r.subject r.subjectGeneration r.attemptSeq
    else lastWrite entries r.identity ≠ none

theorem concerns_of_identity {q r : AttemptRecord} (h : q.identity = r.identity) (s : LinkKey)
    (g : LinkGeneration) : DurableState.concerns s g q = DurableState.concerns s g r := by
  rw [DurableState.concerns, DurableState.concerns,
    show q.subject = r.subject from congrArg (·.1) h,
    show q.subjectGeneration = r.subjectGeneration from congrArg (·.2.1) h]

/-- The bound of a number, by the identity of its attempt. -/
def InRange (entries : List Entry) (i : Identity) : Prop :=
  i.2.2.toNat ≤ created entries i.1 i.2.1

section Effects

variable {entries : List Entry} {seq : LineageSeq} {w : AttemptWrite} {p : Payload}
  {r r' : AttemptRecord} {table : List AttemptRecord} {i : Identity}

theorem InRange.append (h : InRange entries i) : InRange (entries ++ [(seq, p)]) i := by
  unfold InRange at h ⊢
  rw [created_append]
  omega

/-- A new attempt is written behind the others. -/
theorem KeptAll.create (h : KeptAll entries table) (hs : r'.unstamped = r.unstamped)
    (ha : Alone r table)
    (hnum : r.attemptSeq.toNat = created entries r.subject r.subjectGeneration + 1) :
    KeptAll (entries ++ [(seq, .attempt .create r)]) (upsertAttempt r' table) := by
  have hid : r'.identity = r.identity := identity_of_unstamped hs
  have hfresh : ∀ q ∈ table, q.key ≠ r'.key := by
    intro q hq hk
    have hsame := ha q hq (hk.trans (key_of_unstamped hs))
    have hb : InRange entries q.identity := h.bound q hq
    rw [hsame] at hb
    change r.attemptSeq.toNat ≤ created entries r.subject r.subjectGeneration at hb
    omega
  have hmem : ∀ {q}, q ∈ upsertAttempt r' table ↔ q ∈ table ∨ q = r' := by
    intro q
    rw [upsertAttempt, BoundedTable.upsert_fresh hfresh, List.mem_append, List.mem_singleton]
  have hcreated : ∀ s g, created (entries ++ [(seq, .attempt .create r)]) s g =
      created entries s g + if DurableState.concerns s g r then 1 else 0 :=
    fun s g => created_append ..
  refine ⟨BoundedTable.upsert_nodup h.keys, fun s g => ?_, fun q hq => ?_, fun i hi => ?_⟩
  · rw [upsertAttempt, BoundedTable.upsert_fresh hfresh, List.countP_append, h.count, hcreated,
      List.countP_cons, List.countP_nil, Nat.zero_add, concerns_of_identity hid]
  · change InRange _ q.identity
    rcases hmem.mp hq with hold | rfl
    · exact InRange.append (h.bound q hold)
    · rw [hid]
      change r.attemptSeq.toNat ≤ created _ r.subject r.subjectGeneration
      rw [hcreated, if_pos (DurableState.concerns_iff.mpr ⟨rfl, rfl⟩), hnum]
  · by_cases hr : r.identity = i
    · exact ⟨r', hmem.mpr (.inr rfl), hid.trans hr⟩
    · rw [lastWrite_other _ _ _ hr] at hi
      obtain ⟨q, hq, he⟩ := h.written i hi
      exact ⟨q, hmem.mpr (.inl hq), he⟩

/-- A later record takes the place of the one before. -/
theorem KeptAll.update (h : KeptAll entries table) (hs : r'.unstamped = r.unstamped)
    (ha : Alone r table) (hw : w ≠ .create) (hknown : lastWrite entries r.identity ≠ none) :
    KeptAll (entries ++ [(seq, .attempt w r)]) (upsertAttempt r' table) := by
  have hid : r'.identity = r.identity := identity_of_unstamped hs
  have hsame : ∀ q ∈ table, q.key = r'.key → q.identity = r'.identity :=
    fun q hq hk => (ha q hq (hk.trans (key_of_unstamped hs))).trans hid.symm
  obtain ⟨old, hold, hident⟩ := h.written _ hknown
  have hcreated : ∀ s g, created (entries ++ [(seq, .attempt w r)]) s g = created entries s g := by
    intro s g
    rw [created_append]
    cases w with
    | create => exact absurd rfl hw
    | _ => rfl
  refine ⟨BoundedTable.upsert_nodup h.keys, fun s g => ?_, fun q hq => ?_, fun i hi => ?_⟩
  · rw [hcreated, ← h.count]
    exact BoundedTable.countP_upsert
      (fun q hq hk => concerns_of_identity (hsame q hq hk) s g)
      ⟨old, hold, key_of_identity (hident.trans hid.symm)⟩
  · change InRange _ q.identity
    rcases (mem_upsertAttempt h.keys).mp hq with rfl | ⟨hq, -⟩
    · rw [hid, ← hident]
      exact InRange.append (h.bound old hold)
    · exact InRange.append (h.bound q hq)
  · by_cases hr : r.identity = i
    · exact ⟨r', BoundedTable.mem_upsert_self, hid.trans hr⟩
    · rw [lastWrite_other _ _ _ hr] at hi
      obtain ⟨q, hq, he⟩ := h.written i hi
      refine ⟨q, BoundedTable.mem_upsert_of_ne hq fun hk => hr ?_, he⟩
      exact hid.symm.trans ((hsame q hq hk).symm.trans he)

/-- A record that is not of an attempt. -/
theorem KeptAll.other (h : KeptAll entries table) (hp : ∀ w r, p ≠ .attempt w r) :
    KeptAll (entries ++ [(seq, p)]) table := by
  have hcreated : ∀ s g, created (entries ++ [(seq, p)]) s g = created entries s g := by
    intro s g
    rw [created_append]
    cases p with
    | attempt w r => exact absurd rfl (hp w r)
    | _ => rfl
  refine ⟨h.keys, fun s g => (h.count s g).trans (hcreated s g).symm, fun q hq => ?_,
    fun i hi => ?_⟩
  · rw [hcreated]
    exact h.bound q hq
  · refine h.written i ?_
    rw [lastWrite_append] at hi
    cases p with
    | attempt w r => exact absurd rfl (hp w r)
    | _ => exact hi

end Effects

/-- A new attempt gets the next number of its generation. -/
theorem Creates.number {entries : List Entry} {d : DurableState} {r : AttemptRecord}
    (h : Creates d r) (hk : KeptAll entries d.attempts) :
    r.attemptSeq.toNat = created entries r.subject r.subjectGeneration + 1 := by
  have hbudget := h.budget
  have hmax : d.policy.maxAttemptsPerGeneration.toNat < 2 ^ 32 := UInt32.toNat_lt _
  rw [← hk.count, h.seq]
  change (UInt64.ofNat _).toNat = d.countAttempts r.subject r.subjectGeneration + 1
  rw [UInt64.toNat_ofNat', Nat.mod_eq_of_lt (by omega)]

theorem Known.written {entries : List Entry} {q : AttemptRecord} (h : Known entries q) :
    lastWrite entries q.identity ≠ none := by
  obtain ⟨r, hr, -⟩ := h
  rw [hr]
  exact Option.some_ne_none r

/-- The guards of a write give its number. -/
theorem Writes.numbered {wire : Prop} {entries : List Entry} {o : StoreOptions} {d : DurableState}
    {j j' : Job} {p : Payload} {apply : LineageSeq → DurableState → DurableState} {seq : LineageSeq}
    (h : Writes wire entries o d j p apply j') (hs : StateOk entries d) (hl : LiveOk entries d j)
    (hk : KeptAll entries d.attempts) : NumberedAs entries (seq, p) := by
  have hlater : ∀ {w r}, w ≠ AttemptWrite.create → lastWrite entries r.identity ≠ none →
      NumberedAs entries (seq, .attempt w r) := by
    rintro w r hw hknown _ _ ⟨⟩
    rw [if_neg hw]
    exact hknown
  cases h with
  | interrupt hr =>
    refine hlater (by decide) ?_
    exact (hs.known _ hr).written
  | record hc | grant hc =>
    rintro _ _ ⟨⟩
    rw [if_pos rfl]
    exact ⟨hc.number hk, hc.id⟩
  | authorize a =>
    refine hlater (by decide) ?_
    exact hl.2.1.written
  | carry hq hc =>
    refine hlater (fun hw => writeOf_ne_create _ (hc.write.symm.trans hw)) ?_
    rw [hc.identity]
    exact (hs.known _ hq).written
  | rollback hq hc =>
    refine hlater (by decide) ?_
    rw [hc.identity]
    exact (hs.known _ hq).written
  | abort _ known _ _ hc =>
    refine hlater (by decide) ?_
    rw [hc.identity]
    exact known.written
  | _ => exact fun _ _ => Payload.noConfusion

/-- In a run that forgets no attempt, the attempts of a generation are numbered from one. -/
theorem numberingLaw (wire : Prop) :
    LineageLaw wire KeepsAttempts (fun entries d => KeptAll entries d.attempts) NumberedAs
      fun _ _ _ _ => True where
  start _ := ⟨.nil, fun _ _ => rfl, by simp, fun i hi => absurd rfl hi⟩
  positions h _ _ := h
  effect {entries d seq p d'} h hl _ he hr := by
    cases he with
    | @attempt w r r' table hup hs _ =>
      obtain ⟨halone, hlength⟩ := hr trivial w r rfl
      rw [← length_upsertAttempt (key_of_unstamped hs)] at hlength
      have hperm : table.Perm (upsertAttempt r' d.attempts) := by
        rcases hup with ⟨o, rfl⟩ | rfl
        · exact BoundedTable.evict_perm hlength
        · exact .refl _
      refine KeptAll.perm ?_ hperm
      have hnum := hl w r rfl
      by_cases hw : w = .create
      · subst hw
        rw [if_pos rfl] at hnum
        exact h.create hs halone hnum.1
      · rw [if_neg hw] at hnum
        exact h.update hs halone hw hnum
    | _ => exact h.other (fun _ _ => Payload.noConfusion)
  opened _ := trivial
  guard ht hk _ hw next := hw.numbered ht.stateOk ht.liveOk hk
  live _ _ _ _ _ _ := trivial
  booted _ _ _ := trivial
  fenced _ _ _ := trivial
  local_rule h := h

/-! ## Issued attempts -/

/-- The attempts that a lineage creates, in order. -/
def issues (entries : List Entry) : List AttemptRecord :=
  entries.filterMap fun x =>
    match x.2 with
    | .attempt .create r => some r
    | _ => none

/-- What the id of an attempt is taken from. -/
def AttemptRecord.issued (r : AttemptRecord) : AttemptIdentity :=
  ⟨r.subject.fabric, r.subject, r.subjectGeneration, r.attemptSeq⟩

/-- The attempts of each generation of a link are numbered in their order, no two attempts have an
identity or an id in common, and no number is above the budget that was in force. -/
structure IssuedOnce (history : List Event) : Prop where
  numbers : ∀ s g, ((issues (lineage history)).filter (DurableState.concerns s g)).map
    (fun r => r.attemptSeq.toNat) = List.range' 1 (created (lineage history) s g)
  identities : ((issues (lineage history)).map AttemptRecord.identity).Nodup
  ids : ((issues (lineage history)).map AttemptRecord.attemptId).Nodup
  budget : ∀ seq r d d' acknowledged,
    .committed seq (.attempt .create r) d d' acknowledged ∈ history →
      r.attemptSeq.toNat ≤ d.policy.maxAttemptsPerGeneration.toNat

/-- SHA-256 tells the preimages of the issued ids apart. -/
def Collisionless (entries : List Entry) : Prop :=
  ∀ r ∈ issues entries, ∀ r' ∈ issues entries,
    sha256 r.issued.preimage = sha256 r'.issued.preimage → r.issued.preimage = r'.issued.preimage

theorem issues_append (entries : List Entry) (x : Entry) :
    issues (entries ++ [x]) = issues entries ++ issues [x] :=
  List.filterMap_append

/-- A record that issues an attempt, or none. -/
theorem issues_singleton (x : Entry) :
    (∃ r, x.2 = .attempt .create r ∧ issues [x] = [r]) ∨
      issues [x] = [] ∧ ∀ s g, x.2.creates s g = false := by
  obtain ⟨seq, p⟩ := x
  cases p with
  | attempt w r =>
    cases w with
    | create => exact .inl ⟨r, rfl, rfl⟩
    | _ => exact .inr ⟨rfl, fun _ _ => rfl⟩
  | _ => exact .inr ⟨rfl, fun _ _ => rfl⟩

/-- The numbers of a generation are those from one, in order. -/
theorem issues_numbered {entries : List Entry}
    (h : ∀ A x B, entries = A ++ x :: B → NumberedAs A x) (s : LinkKey) (g : LinkGeneration) :
    ((issues entries).filter (DurableState.concerns s g)).map (fun r => r.attemptSeq.toNat) =
      List.range' 1 (created entries s g) := by
  induction entries using List.reverseRecOn with
  | nil => rfl
  | append_singleton entries x ih =>
    have ih := ih fun A y B he => h A y (B ++ [x]) (by rw [he]; simp)
    rw [issues_append, List.filter_append, List.map_append, ih, created_append]
    rcases issues_singleton x with ⟨r, hr, hx⟩ | ⟨hx, hnone⟩
    · have hnum := h entries x [] rfl _ _ hr
      rw [if_pos rfl] at hnum
      rw [hx, hr]
      change _ = List.range' 1 (_ + if DurableState.concerns s g r = true then 1 else 0)
      by_cases hc : DurableState.concerns s g r = true
      · obtain ⟨rfl, rfl⟩ := DurableState.concerns_iff.mp hc
        rw [List.filter_cons_of_pos hc, if_pos hc, List.range'_concat, List.filter_nil,
          List.map_singleton, hnum.1, Nat.one_mul, Nat.add_comm]
      · rw [List.filter_cons_of_neg hc, if_neg hc]
        simp
    · rw [hx, hnone, if_neg Bool.false_ne_true]
      simp

/-- Attempts with one identity have one number in one generation. -/
theorem identities_nodup {rs : List AttemptRecord}
    (h : ∀ s g, ((rs.filter (DurableState.concerns s g)).map
      (fun r => r.attemptSeq.toNat)).Nodup) : (rs.map AttemptRecord.identity).Nodup := by
  induction rs with
  | nil => exact .nil
  | cons r rs ih =>
    refine List.nodup_cons.mpr ⟨fun hm => ?_, ih fun s g => ?_⟩
    · obtain ⟨q, hq, hid⟩ := List.mem_map.mp hm
      have hc : DurableState.concerns r.subject r.subjectGeneration r = true :=
        DurableState.concerns_iff.mpr ⟨rfl, rfl⟩
      have hnodup := h r.subject r.subjectGeneration
      rw [List.filter_cons_of_pos hc, List.map_cons, List.nodup_cons] at hnodup
      refine hnodup.1 (List.mem_map.mpr ⟨q, List.mem_filter.mpr ⟨hq, ?_⟩, ?_⟩)
      · rw [concerns_of_identity hid, hc]
      · rw [show q.attemptSeq = r.attemptSeq from congrArg (·.2.2) hid]
    · exact (((List.sublist_cons_self r rs).filter _).map _).nodup (h s g)

/-- The id of an issued attempt is the digest of its identity. -/
theorem issues_id {entries : List Entry} (h : ∀ A x B, entries = A ++ x :: B → NumberedAs A x)
    {r : AttemptRecord} (hr : r ∈ issues entries) : r.attemptId = sha256 r.issued.preimage := by
  obtain ⟨x, hx, hm⟩ := List.mem_filterMap.mp hr
  obtain ⟨A, B, rfl⟩ := List.append_of_mem hx
  obtain ⟨seq, p⟩ := x
  cases p with
  | attempt w q =>
    cases w with
    | create =>
      cases hm
      have hnum := h A _ B rfl .create r rfl
      rw [if_pos rfl] at hnum
      rw [hnum.2]
      exact computeAttemptId_eq r.issued
    | _ => cases hm
  | _ => cases hm

theorem ids_nodup {entries : List Entry} (h : ∀ A x B, entries = A ++ x :: B → NumberedAs A x)
    (hc : Collisionless entries) (hn : ((issues entries).map AttemptRecord.identity).Nodup) :
    ((issues entries).map AttemptRecord.attemptId).Nodup := by
  refine hn.of_map.map_on fun r hr q hq he => ?_
  refine List.inj_on_of_nodup_map hn hr hq ?_
  rw [issues_id h hr, issues_id h hq] at he
  have hissued := AttemptIdentity.preimage_injective (hc r hr q hq he)
  exact congrArg (fun i : AttemptIdentity => (i.subject, i.generation, i.seq)) hissued

/-- Every record in the journal was written under its guards, in the state that its event names. -/
theorem Trace.guarded {wire : Prop} {history : List Event} {phase : Phase}
    (h : Trace wire history phase) {seq : LineageSeq} {p : Payload} {d d' : DurableState}
    {acknowledged : Bool} (hm : .committed seq p d d' acknowledged ∈ history) :
    ∃ A o j j' apply, A <+: history ∧ Trace wire A (.live o d j) ∧
      Writes wire (lineage A) o d j p apply j' := by
  induction h with
  | empty => cases hm
  | @opened history o d₀ events h valid base replay ih =>
    rcases List.mem_append.mp hm with hm | hm
    · obtain ⟨A, o, j, j', apply, hA, ht, hw⟩ := ih hm
      exact ⟨A, o, j, j', apply, hA.trans (List.prefix_append _ _), ht, hw⟩
    · rcases List.mem_cons.mp hm with hm | hm
      · cases hm
      · cases opened_silent replay _ hm
  | committed h w _ ih | lost h w _ ih =>
    rcases List.mem_append.mp hm with hm | hm
    · obtain ⟨A, o, j, j', apply, hA, ht, hw⟩ := ih hm
      exact ⟨A, o, j, j', apply, hA.trans (List.prefix_append _ _), ht, hw⟩
    · cases List.mem_singleton.mp hm
      exact ⟨_, _, _, _, _, List.prefix_append _ _, h, w⟩
  | booted _ _ ih | fenced _ _ ih | stopped _ ih => exact ih hm
  | rotated h ih | replaced h ih =>
    rcases List.mem_append.mp hm with hm | hm
    · obtain ⟨A, o, j, j', apply, hA, ht, hw⟩ := ih hm
      exact ⟨A, o, j, j', apply, hA.trans (List.prefix_append _ _), ht, hw⟩
    · cases List.mem_singleton.mp hm

/-- An attempt is within the budget that was in force. -/
theorem Creates.within {d : DurableState} {r : AttemptRecord} (h : Creates d r) :
    r.attemptSeq.toNat ≤ d.policy.maxAttemptsPerGeneration.toNat := by
  have hbudget := h.budget
  rw [h.seq]
  change (UInt64.ofNat _).toNat ≤ _
  rw [UInt64.toNat_ofNat']
  exact (Nat.mod_le _ _).trans hbudget

theorem Trace.budget {wire : Prop} {history : List Event} {phase : Phase}
    (h : Trace wire history phase) {seq : LineageSeq} {r : AttemptRecord} {d d' : DurableState}
    {acknowledged : Bool}
    (hm : .committed seq (.attempt .create r) d d' acknowledged ∈ history) :
    r.attemptSeq.toNat ≤ d.policy.maxAttemptsPerGeneration.toNat := by
  obtain ⟨A, o, j, j', apply, -, -, hw⟩ := h.guarded hm
  generalize hp : Payload.attempt .create r = p at hw
  cases hw with
  | record hc | grant hc =>
    cases hp
    exact hc.within
  | carry _ hc =>
    cases hp
    exact absurd hc.write.symm (writeOf_ne_create _)
  | _ => cases hp

theorem Trace.issuedOnce {wire : Prop} {history : List Event} {phase : Phase}
    (h : Trace wire history phase) (hk : writesMeet forgetsNone none history = true)
    (hc : Collisionless (lineage history)) : IssuedOnce history := by
  have hnum : ∀ A x B, lineage history = A ++ x :: B → NumberedAs A x :=
    fun A x B he => (((numberingLaw wire).holds h (h.keepsAttempts hk)).entries A x B he).1
  have hnumbers := issues_numbered hnum
  have hids := identities_nodup fun s g => by
    rw [hnumbers]
    exact List.nodup_range'
  exact ⟨hnumbers, hids, ids_nodup hnum hc hids, fun _ _ _ _ _ => h.budget⟩

/-- In every run that forgets no attempt, the attempts are numbered in their order, are never issued
twice and stay within their budget. -/
theorem attempts_issued_once {actions : List Action}
    (hk : writesMeet forgetsNone none (System.run actions).history = true)
    (hc : Collisionless (lineage (System.run actions).history)) :
    IssuedOnce (System.run actions).history := by
  have hok := @System.run_ok False actions False.elim
  cases hrun : System.run actions with
  | down m =>
    rw [hrun] at hok hk hc
    exact hok.trace.issuedOnce hk hc
  | up e =>
    rw [hrun] at hok hk hc
    exact hok.trace.issuedOnce hk hc

/-- A process that is asked for a failover again and again, and never hears of a failure. -/
def Sample.refused (limits : EngineLimits) (n : Nat) : List Action :=
  .start { options := options {} limits, incarnation := incarnation 1 } ::
    List.replicate n (.perform (.requestFailover (request ⟨1⟩)))

/-- A table for one attempt: the second attempt pushes the first one out, and the third takes the
number of the second. -/
theorem attempt_reissued : ¬ ∀ actions, IssuedOnce (System.run actions).history := by
  intro hall
  have hids : ∀ actions,
      ((issues (lineage (System.run actions).history)).map AttemptRecord.identity).Nodup :=
    fun actions => (hall actions).identities
  have hissued : (issues (lineage (System.run
      (Sample.refused { maxAttempts := 1 } 3)).history)).map AttemptRecord.identity =
      [(Sample.primary, ⟨1⟩, ⟨1⟩), (Sample.primary, ⟨1⟩, ⟨2⟩), (Sample.primary, ⟨1⟩, ⟨2⟩)] := by
    decide +kernel
  have hnodup := hids (Sample.refused { maxAttempts := 1 } 3)
  rw [hissued] at hnodup
  revert hnodup
  decide

/-- Two attempts of one generation, in a table with room for both. -/
theorem attempts_issued_sample : ∃ actions, IssuedOnce (System.run actions).history ∧
    (issues (lineage (System.run actions).history)).length = 2 := by
  refine ⟨Sample.refused {} 2, attempts_issued_once (by decide +kernel) ?_, by decide +kernel⟩
  have htwo : ((issues (lineage (System.run (Sample.refused {} 2)).history)).all fun r =>
      (issues (lineage (System.run (Sample.refused {} 2)).history)).all fun q =>
        decide (r.identity = q.identity) ||
          decide (sha256 r.issued.preimage ≠ sha256 q.issued.preimage)) = true := by
    decide +kernel
  intro r hr q hq he
  have hpair := List.all_eq_true.mp (List.all_eq_true.mp htwo r hr) q hq
  rw [Bool.or_eq_true, decide_eq_true_eq, decide_eq_true_eq] at hpair
  have hid := hpair.resolve_right fun hne => hne he
  rw [show r.issued = q.issued from
    congrArg (fun i : Identity => (⟨i.1.fabric, i.1, i.2.1, i.2.2⟩ : AttemptIdentity)) hid]

end LinkFailover
