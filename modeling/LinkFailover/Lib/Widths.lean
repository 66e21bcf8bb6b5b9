import LinkFailover.Lib.Codec

/-!
# Encoders of one width

Two encoders are even when they write equally many bytes and give up at the same time, whatever
was written before. The lemmas build such facts field by field, in the order in which the fields
are written.
-/

namespace Codec

/-- Two writers stand at the same place: both have given up or neither, and they have written
equally many bytes. -/
structure Writer.Level (w w' : Writer) : Prop where
  ok : w.ok = w'.ok
  length : w.buffer.length = w'.buffer.length

/-- Two encoders write equally long. -/
def Writer.Even (f g : Writer → Writer) : Prop := ∀ w w', w.Level w' → (f w).Level (g w')

namespace Writer.Even

variable {α : Type} {f g : Writer → Writer} {fs gs : List (Writer → Writer)}

theorem append {a b : Bytes} (h : a.length = b.length) :
    Writer.Even (fun w => w.append a) fun w => w.append b := by
  intro w w' hw
  dsimp only
  unfold Writer.append
  rw [← hw.ok]
  split
  · refine ⟨rfl, ?_⟩
    rw [List.length_append, List.length_append, hw.length, h]
  · exact hw

theorem of_appends (h : Writer.Appends f) : Writer.Even f f := by
  intro w w' hw
  rw [h w, h w']
  exact append rfl w w' hw

/-- An encoder whose output is read back is as long as it is. -/
theorem self {β : Type} {p : Parser β} {b : β} (h : RoundTrip f p b) : Writer.Even f f :=
  of_appends h.appends

theorem fixed {n : Nat} (v v' : FixedBytes n) :
    Writer.Even (Writer.fixed v) (Writer.fixed v') :=
  append (v.size.trans v'.size.symm)

/-- A field above its bound ends both writers. -/
theorem blob (v : Bytes) (maxLen : Nat) :
    Writer.Even (fun w => w.blob v maxLen) fun w => w.blob v maxLen := by
  intro w w' hw
  dsimp only
  unfold Writer.blob
  rw [← hw.ok]
  split
  · split
    · exact ⟨rfl, hw.length⟩
    · exact append rfl _ _ (append rfl _ _ hw)
  · exact hw

theorem nil : Writer.Even (Writer.fields []) (Writer.fields []) := fun _ _ hw => hw

theorem cons (h : Writer.Even f g) (hs : Writer.Even (Writer.fields fs) (Writer.fields gs)) :
    Writer.Even (Writer.fields (f :: fs)) (Writer.fields (g :: gs)) :=
  fun w w' hw => hs _ _ (h w w' hw)

theorem each {enc : α → Writer → Writer} (c : α → α) (h : ∀ x, Writer.Even (enc (c x)) (enc x))
    (xs : List α) : Writer.Even (Writer.each enc (xs.map c)) (Writer.each enc xs) := by
  induction xs with
  | nil => exact nil
  | cons x xs ih => exact fun w w' hw => ih _ _ (h x w w' hw)

theorem length_run (h : Writer.Even f g) : (Writer.run f).length = (Writer.run g).length :=
  (h {} {} ⟨rfl, rfl⟩).length

end Writer.Even

end Codec
