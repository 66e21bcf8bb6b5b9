import LinkFailover.Retention

/-!
# The table writes of a history

Every write of the attempt table and of the idempotency index in a history, live or replayed,
with the options of the process that makes it and the state that it finds. A condition on these
is what the laws of later modules ask of a run, and gives the rule that a law needs.

* `writesMeet`: whether all table writes of a history meet a condition.
* `Trace.follows`: what every guarded write and every replay obeys, all table writes obey.
* `Trace.obeys`: the writes that meet a condition obey a rule.
-/

namespace LinkFailover

open Codec

/-! ## Conditions on writes -/

/-- The record that an event writes to a table, and the state that it finds. A commit that was
reported as failed has written no table. -/
def Event.write? : Event → Option (Payload × DurableState)
  | .committed _ p before _ true => some (p, before)
  | .replayed _ p before _ => some (p, before)
  | _ => none

abbrev WriteCondition := StoreOptions → Payload → DurableState → Bool

def Event.meets (c : WriteCondition) (o : Option StoreOptions) (e : Event) : Bool :=
  match o, e.write? with
  | some o, some (p, d) => c o p d
  | _, _ => true

/-- The options of the process behind an event. -/
def Event.options (e : Event) (o : Option StoreOptions) : Option StoreOptions :=
  match e with
  | .opened o => some o
  | _ => o

/-- The options of the last process of a history. -/
def optionsOf (o : Option StoreOptions) (history : List Event) : Option StoreOptions :=
  history.foldl (fun o e => e.options o) o

/-- Whether every table write meets a condition on the options of its process, on its record and
on the state before it. -/
def writesMeet (c : WriteCondition) : Option StoreOptions → List Event → Bool
  | _, [] => true
  | o, e :: events => e.meets c o && writesMeet c (e.options o) events

variable {c : WriteCondition} {o : StoreOptions} {history : List Event}

theorem optionsOf_append (o : Option StoreOptions) (h g : List Event) :
    optionsOf o (h ++ g) = optionsOf (optionsOf o h) g :=
  List.foldl_append

theorem writesMeet_append (o : Option StoreOptions) (h g : List Event) :
    writesMeet c o (h ++ g) = (writesMeet c o h && writesMeet c (optionsOf o h) g) := by
  induction h generalizing o with
  | nil => rfl
  | cons e h ih =>
    rw [List.cons_append, writesMeet, writesMeet, ih, Bool.and_assoc]
    rfl

theorem optionsOf_silent {o : Option StoreOptions} {events : List Event}
    (h : ∀ e ∈ events, e.Silent) : optionsOf o events = o := by
  induction events generalizing o with
  | nil => rfl
  | cons e events ih =>
    have he : e.options o = o := by
      have := h e List.mem_cons_self
      cases e <;> first | rfl | cases this
    rw [optionsOf, List.foldl_cons, he]
    exact ih fun x hx => h x (List.mem_cons_of_mem _ hx)

/-! ## Traces -/

variable {wire : Prop} {phase : Phase}

/-- The options of a process are those that it opened the directory with. -/
theorem Trace.options_live (h : Trace wire history phase) {d : DurableState} {j : Job}
    (hp : phase = .live o d j) : optionsOf none history = some o := by
  induction h generalizing d j with
  | empty | lost | replaced | stopped => cases hp
  | @opened history o' d' events h valid base replay =>
    cases hp
    rw [optionsOf_append]
    exact optionsOf_silent (opened_silent replay)
  | committed h w next ih | rotated h ih =>
    cases hp
    rw [optionsOf_append, ih rfl]
    rfl
  | booted h _ ih | fenced h _ ih =>
    cases hp
    exact ih rfl

/-- The replay of a record that writes no table logs nothing. -/
theorem replayEvents_quiet {seq : LineageSeq} {p : Payload} (h : ¬ p.Logged)
    (before after : DurableState) :
    LineageStore.replayEvents (p.record seq) before after = [] := by
  cases p with
  | attempt | idempotency => exact absurd trivial h
  | _ => rfl

/-- A rule for the writes of a table, by the options of the process. -/
abbrev ProcessRule := StoreOptions → TableRule

/-- Whether every table write obeys the rule of the process that makes it. -/
def Follows (rule : ProcessRule) : Option StoreOptions → List Event → Prop
  | _, [] => True
  | o, e :: events =>
    (e.Obeys fun p d d' => ∃ o', o = some o' ∧ rule o' p d d') ∧ Follows rule (e.options o) events

theorem follows_append {rule : ProcessRule} {o : Option StoreOptions} {h g : List Event} :
    Follows rule o (h ++ g) ↔ Follows rule o h ∧ Follows rule (optionsOf o h) g := by
  induction h generalizing o with
  | nil => exact ⟨fun hg => ⟨trivial, hg⟩, And.right⟩
  | cons e h ih =>
    rw [List.cons_append, Follows, Follows, ih, and_assoc]
    rfl

theorem follows_concat {rule : ProcessRule} {o : Option StoreOptions} {h : List Event} {e : Event}
    (hh : Follows rule o h)
    (he : e.Obeys fun p d d' => ∃ o', optionsOf o h = some o' ∧ rule o' p d d') :
    Follows rule o (h ++ [e]) :=
  follows_append.mpr ⟨hh, he, trivial⟩

/-- The rule that a condition on the write gives, when the write meets it. -/
theorem Follows.obeys {rule : TableRule} {o : Option StoreOptions} {history : List Event}
    (h : Follows (fun o p d d' => c o p d = true → rule p d d') o history)
    (hc : writesMeet c o history = true) : ∀ e ∈ history, e.Obeys rule := by
  induction history generalizing o with
  | nil => simp
  | cons e events ih =>
    obtain ⟨he, hevents⟩ := h
    rw [writesMeet, Bool.and_eq_true] at hc
    have hwrite : ∀ {p d d'}, (∃ o', o = some o' ∧ (c o' p d = true → rule p d d')) →
        e.write? = some (p, d) → rule p d d' := by
      rintro p d d' ⟨o', rfl, hrule⟩ hw
      refine hrule ?_
      simpa only [Event.meets, hw] using hc.1
    intro x hx
    rcases List.mem_cons.mp hx with rfl | hx
    · cases x with
      | committed seq p d d' acknowledged =>
        cases acknowledged with
        | true => exact hwrite he rfl
        | false => trivial
      | replayed => exact hwrite he rfl
      | opened | checkpointed => trivial
    · exact ih hevents hc.2 x hx

/-- A rule for replayed writes. -/
theorem replayRecords_follow {rule : ProcessRule} {before rs : List Entry}
    {acc acc' : DurableState × List Event}
    (hreplay : ∀ {entries d p seq d'}, StateOk entries d →
      d.applyRecord o (Payload.record p seq) = .ok d' → p.Decodes → p.Logged → rule o p d d')
    (hs : StateOk before acc.1)
    (hrs : ∀ A x B, rs = A ++ x :: B →
      EntryOk wire (before ++ A) x ∧ x.2.Decodes ∧ x.1.toNat = (before ++ A).length + 1)
    (h : Disk.replayRecords o rs acc = .ok acc') (hacc : acc.2 = []) :
    Follows rule (some o) acc'.2 := by
  induction rs using List.reverseRecOn generalizing acc' with
  | nil =>
    cases h
    rw [hacc]
    trivial
  | append_singleton rs r ih =>
    rw [replayRecords_append] at h
    cases hr : Disk.replayRecords o rs acc with
    | error e => rw [hr] at h; cases h
    | ok mid =>
      rw [hr, ok_bind] at h
      obtain ⟨happly, hevents⟩ := replayRecord_eq_ok h
      have hold : ∀ A x B, rs = A ++ x :: B →
          EntryOk wire (before ++ A) x ∧ x.2.Decodes ∧ x.1.toNat = (before ++ A).length + 1 :=
        fun A x B he => hrs A x (B ++ [r]) (by rw [he]; simp)
      have hmid := ih hold hr
      have hstate := (retentionLaw wire).replay hs hold hr fun e _ => by
        cases e with
        | committed _ _ _ _ acknowledged => cases acknowledged <;> trivial
        | _ => trivial
      have hd := (hrs rs r [] rfl).2.1
      rw [hevents]
      by_cases hl : r.2.Logged
      · rw [replayEvents_logged hl hd (DurableState.applyRecord_declared happly)]
        refine follows_concat hmid ⟨o, ?_, hreplay hstate happly hd hl⟩
        exact optionsOf_silent (replayRecords_silent hr (by simp [hacc]))
      · rw [replayEvents_quiet hl, List.append_nil]
        exact hmid

/-- Every table write obeys a rule that every guarded write and every replay of a record obeys. -/
theorem Trace.follows {rule : ProcessRule}
    (hlive : ∀ {history o d j j' p apply seq}, Trace wire history (.live o d j) →
      Writes wire (lineage history) o d j p apply j' →
      rule o p d (LineageStore.applied apply seq d))
    (hreplay : ∀ {entries o d p seq d'}, StateOk entries d →
      d.applyRecord o (Payload.record p seq) = .ok d' → p.Decodes → p.Logged → rule o p d d')
    (h : Trace wire history phase) : Follows rule none history := by
  induction h with
  | empty => trivial
  | @opened history o d events h valid base replay ih =>
    obtain ⟨⟨before, hsuffix, -⟩, hpos⟩ := h.numbered.1
    refine follows_append.mpr ⟨ih, trivial, ?_⟩
    refine @replayRecords_follow o wire rule _ _ _ _ hreplay
      (h.retained.disk base before hsuffix o valid) ?_ replay rfl
    intro A x B he
    rw [he, ← List.append_assoc] at hsuffix
    obtain ⟨h1, h2⟩ := h.retained.entries _ x B hsuffix
    exact ⟨h1, h2, hpos _ x B hsuffix⟩
  | committed h w next ih => exact follows_concat ih ⟨_, h.options_live rfl, hlive h w⟩
  | lost h w next ih => exact follows_concat ih trivial
  | booted _ _ ih | fenced _ _ ih | stopped _ ih => exact ih
  | rotated h ih | replaced h ih => exact follows_concat ih trivial

/-- The writes that meet a condition obey a rule, when the condition gives the rule of every
guarded write and of every replay. -/
theorem Trace.obeys {rule : TableRule}
    (hlive : ∀ {history o d j j' p apply seq}, Trace wire history (.live o d j) →
      Writes wire (lineage history) o d j p apply j' → c o p d = true →
      rule p d (LineageStore.applied apply seq d))
    (hreplay : ∀ {o d p seq d'}, d.applyRecord o (Payload.record p seq) = .ok d' → p.Decodes →
      p.Logged → c o p d = true → rule p d d')
    (h : Trace wire history phase) (hc : writesMeet c none history = true) :
    ∀ e ∈ history, e.Obeys rule :=
  (@Trace.follows history wire phase (fun o p d d' => c o p d = true → rule p d d')
    (fun ht w => hlive ht w) (fun _ ha hd hl => hreplay ha hd hl) h).obeys hc

end LinkFailover
