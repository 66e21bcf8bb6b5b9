import LinkFailover.Lib.Layouts

/-!
# What parsers reject

A layout without flags has one spelling, so what is read there takes up just the bytes that its
encoding takes. And an encoding is rejected as soon as one of its fields is.

* `Layout.Plain`: no part of the layout is a flag.
* `Refuses`: a parser that takes nothing where a writer wrote, whatever follows.
* `Yields`: a parser that reads what a writer wrote, or refuses it, by one check on the way.
* `Ensures`: what is known of every value that a parser yields.
-/

namespace Codec

namespace Layout

/-- No part is a flag. -/
def Plain : Layout → Prop
  | empty | bytes _ | text => True
  | flag | optional _ => False
  | times _ item => item.Plain
  | counted rest => ∀ n, (rest n).Plain
  | seq first second => first.Plain ∧ second.Plain

theorem Plain.walk_many {l : Layout} (h : ∀ {bs fs rest}, l.walk bs = some (fs, rest) → fs = [])
    {n : Nat} {bs rest : Bytes} {xs : List Bytes}
    (hw : Parser.many l.walk n bs = some (xs, rest)) : xs.flatten = [] := by
  induction n generalizing bs xs with
  | zero =>
    cases hw
    rfl
  | succ n ih =>
    obtain ⟨fs, mid, hfs, hw⟩ := bind_eq_some hw
    obtain ⟨ys, mid, hys, hw⟩ := bind_eq_some hw
    cases hw
    rw [List.flatten_cons, h hfs, ih hys]
    rfl

theorem Plain.walk {l : Layout} (h : l.Plain) {bs fs rest : Bytes}
    (hw : l.walk bs = some (fs, rest)) : fs = [] := by
  induction l generalizing bs fs rest with
  | empty =>
    cases hw
    rfl
  | bytes n =>
    obtain ⟨_, _, -, hw⟩ := bind_eq_some hw
    cases hw
    rfl
  | text =>
    obtain ⟨_, _, -, hw⟩ := bind_eq_some hw
    obtain ⟨_, _, -, hw⟩ := bind_eq_some hw
    cases hw
    rfl
  | flag => exact h.elim
  | optional inner => exact h.elim
  | times n item ih =>
    obtain ⟨xs, _, hxs, hw⟩ := bind_eq_some hw
    cases hw
    exact Plain.walk_many (fun hw => ih h hw) hxs
  | counted rest ih =>
    obtain ⟨n, _, -, hw⟩ := bind_eq_some hw
    exact ih n.toNat (h _) hw
  | seq first second ih ih' =>
    obtain ⟨xs, _, hxs, hw⟩ := bind_eq_some hw
    obtain ⟨ys, _, hys, hw⟩ := bind_eq_some hw
    cases hw
    rw [ih h.1 hxs, ih' h.2 hys]
    rfl

theorem Plain.flags {l : Layout} (h : l.Plain) (bs : Bytes) : l.flags bs = [] := by
  unfold Layout.flags
  cases hw : l.walk bs with
  | none => rfl
  | some x => exact h.walk hw

end Layout

/-- Where no part is a flag, what is accepted is the encoding of its value. -/
theorem Spells.canonical {α : Type} {p : Parser α} {l : Layout} {enc : α → Writer → Writer}
    {bs rest : Bytes} {a : α} (h : Spells p l enc) (hl : l.Plain) (ha : p bs = some (a, rest)) :
    bs = Writer.run (enc a) ++ rest := by
  refine (h.canonical_iff ha).mpr fun b hb => ?_
  rw [hl.flags] at hb
  cases hb

/-! ## Refusals -/

/-- Of what `f` writes, `p` takes nothing. -/
def Refuses {α : Type} (f : Writer → Writer) (p : Parser α) : Prop :=
  Writer.Appends f ∧ ∀ rest, p (Writer.run f ++ rest) = none

namespace Refuses

variable {α β : Type} {f : Writer → Writer} {fs : List (Writer → Writer)} {p : Parser α}
  {k : α → Parser β} {a : α}

theorem whole (h : Refuses f p) : p.whole (Writer.run f) = none := by
  have hnone := h.2 []
  rw [List.append_nil] at hnone
  rw [Parser.whole, hnone]

/-- A field behind one that is read back. -/
theorem cons (hf : RoundTrip f p a) (h : Refuses (Writer.fields fs) (k a)) :
    Refuses (Writer.fields (f :: fs)) (p >>= k) := by
  refine ⟨hf.appends.cons h.1, fun rest => ?_⟩
  rw [hf.appends.run_cons h.1, List.append_assoc]
  change (p _).bind _ = none
  rw [hf.reads]
  exact h.2 rest

/-- The field that is refused. -/
theorem here (h : Refuses f p) (hfs : Writer.Appends (Writer.fields fs)) :
    Refuses (Writer.fields (f :: fs)) (p >>= k) := by
  refine ⟨h.1.cons hfs, fun rest => ?_⟩
  rw [h.1.run_cons hfs, List.append_assoc]
  change (p _).bind _ = none
  rw [h.2]
  rfl

theorem require {c : Bool} {k : Unit → Parser β} (hf : Writer.Appends f) (hc : c = false) :
    Refuses f (Parser.require c >>= k) := by
  refine ⟨hf, fun rest => ?_⟩
  subst hc
  rfl

theorem past {c : Bool} {k : Unit → Parser β} (hc : c = true) (h : Refuses f (k ())) :
    Refuses f (Parser.require c >>= k) := by
  refine ⟨h.1, fun rest => ?_⟩
  subst hc
  exact h.2 rest

theorem lift {o : Option α} (ho : o = some a) (h : Refuses f (k a)) :
    Refuses f (Parser.lift o >>= k) := by
  refine ⟨h.1, fun rest => ?_⟩
  subst ho
  exact h.2 rest

/-- A list is refused at the first of its elements that is. -/
theorem each {enc : α → Writer → Writer} {xs : List α}
    (h : ∀ x ∈ xs, RoundTrip (enc x) p x ∨ Refuses (enc x) p) (hx : ∃ x ∈ xs, Refuses (enc x) p) :
    Refuses (Writer.each enc xs) (Parser.many p xs.length) := by
  induction xs with
  | nil =>
    obtain ⟨x, hmem, -⟩ := hx
    cases hmem
  | cons x xs ih =>
    have htail := fun y hy => h y (List.mem_cons_of_mem _ hy)
    have happends : Writer.Appends (Writer.fields [Writer.each enc xs]) :=
      (Writer.Appends.each fun y hy => (htail y hy).elim (·.appends) (·.1)).1
    change Refuses (Writer.fields [enc x, Writer.each enc xs]) _
    rcases h x List.mem_cons_self with hread | hrefused
    · obtain ⟨y, hy, hbad⟩ := hx
      rcases List.mem_cons.mp hy with rfl | hy
      · exact here hbad happends
      · exact cons hread (here (ih htail ⟨y, hy, hbad⟩) .nil)
    · exact here hrefused happends

end Refuses

/-! ## Checked fields -/

/-- Of what `f` writes, `p` takes the value in `o`, and nothing when there is none. -/
def Yields {α : Type} (f : Writer → Writer) (p : Parser α) (o : Option α) : Prop :=
  Writer.Appends f ∧ ∀ rest, p (Writer.run f ++ rest) = o.map (·, rest)

namespace Yields

variable {α β : Type} {f : Writer → Writer} {fs : List (Writer → Writer)} {p : Parser α}
  {k : α → Parser β} {a : α} {b : β} {o : Option β}

theorem roundTrip (h : Yields f p (some a)) : RoundTrip f p a := ⟨_, h.1, h.2⟩

theorem refuses (h : Yields f p none) : Refuses f p := h

theorem cons (hf : RoundTrip f p a) (h : Yields (Writer.fields fs) (k a) o) :
    Yields (Writer.fields (f :: fs)) (p >>= k) o := by
  refine ⟨hf.appends.cons h.1, fun rest => ?_⟩
  rw [hf.appends.run_cons h.1, List.append_assoc]
  change (p _).bind _ = _
  rw [hf.reads]
  exact h.2 rest

theorem past {c : Bool} {k : Unit → Parser β} (hc : c = true) (h : Yields f (k ()) o) :
    Yields f (Parser.require c >>= k) o := by
  refine ⟨h.1, fun rest => ?_⟩
  subst hc
  exact h.2 rest

theorem lift {c : Option α} (hc : c = some a) (h : Yields f (k a) o) :
    Yields f (Parser.lift c >>= k) o := by
  refine ⟨h.1, fun rest => ?_⟩
  subst hc
  exact h.2 rest

/-- The check that decides: everything behind it is read. -/
theorem decide {c : Option α} {g : α → β} (hf : Writer.Appends f)
    (h : ∀ a, RoundTrip f (k a) (g a)) : Yields f (Parser.lift c >>= k) (c.map g) := by
  refine ⟨hf, fun rest => ?_⟩
  cases c with
  | none => rfl
  | some a => exact (h a).reads rest

end Yields

/-! ## Values -/

/-- Every value that `p` yields is of this kind. -/
def Ensures {α : Type} (p : Parser α) (Q : α → Prop) : Prop :=
  ∀ bs a rest, p bs = some (a, rest) → Q a

namespace Ensures

variable {α β : Type} {p : Parser α} {Q : β → Prop}

theorem pure {b : β} (h : Q b) : Ensures (pure b) Q := by
  intro bs a rest hp
  cases hp
  exact h

theorem bind {k : α → Parser β} (h : ∀ a, Ensures (k a) Q) : Ensures (p >>= k) Q := by
  intro bs b rest hp
  obtain ⟨a, mid, -, hk⟩ := bind_eq_some hp
  exact h a mid b rest hk

theorem require {c : Bool} {k : Unit → Parser β} (h : c = true → Ensures (k ()) Q) :
    Ensures (Parser.require c >>= k) Q := by
  intro bs b rest hp
  obtain ⟨_, mid, hc, hk⟩ := bind_eq_some hp
  unfold Parser.require at hc
  split at hc
  · rename_i hc'
    exact h hc' mid b rest hk
  · cases hc

theorem lift {a : Option α} {k : α → Parser β} (h : ∀ x, a = some x → Ensures (k x) Q) :
    Ensures (Parser.lift a >>= k) Q := by
  intro bs b rest hp
  obtain ⟨x, mid, hx, hk⟩ := bind_eq_some hp
  unfold Parser.lift at hx
  obtain ⟨y, hy, hpair⟩ := Option.map_eq_some_iff.mp hx
  cases hpair
  exact h x hy bs b rest hk

theorem whole {p : Parser β} (h : Ensures p Q) {bs : Bytes} {b : β} (hp : p.whole bs = some b) :
    Q b := by
  unfold Parser.whole at hp
  split at hp
  · rename_i hread
    cases hp
    exact h bs _ [] hread
  · cases hp

end Ensures

end Codec
