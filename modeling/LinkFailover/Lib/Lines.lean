import Mathlib.Algebra.Ring.Nat
import Mathlib.Data.List.DropRight
import Mathlib.Tactic.Common

/-!
# A loop over the lines of a text

An index goes from one separator to the next and steps past the end of the text behind the last
line. The loop is given a number of rounds; one more than there are lines is enough, and then it
has gone over the text split at its separators, line by line.

* `scan_eq`: what the loop does with the rest of a text.
* `terminates`: two rounds more than there are elements are enough for every text.
* `splitOn_lines`: a text of lines that each end in a separator.
-/

namespace Lines

variable {α σ : Type} [BEq α] [LawfulBEq α] {sep : α} {text : List α} {body : σ → List α → Option σ}

/-- Where the separator stands at or behind a position, or the length of the text. -/
def find (sep : α) (text : List α) (start : Nat) : Nat := start + (text.drop start).findIdx (· == sep)

/-- The loop. It is left when the index is past the end, or when a line is refused; it is cut off
when there are no more rounds. -/
def scan (sep : α) (text : List α) (body : σ → List α → Option σ) :
    Nat → Nat → σ → Option (Option σ)
  | 0, _, _ => none
  | rounds + 1, start, s =>
    if start ≤ text.length then
      let stop := find sep text start
      match body s ((text.drop start).take (stop - start)) with
      | none => some none
      | some s => scan sep text body rounds (stop + 1) s
    else some (some s)

omit [LawfulBEq α] in
theorem scan_past {rounds start : Nat} (h : text.length < start) (s : σ) :
    scan sep text body (rounds + 1) start s = some (some s) :=
  if_neg (Nat.not_le_of_lt h)

/-! ## One round -/

/-- A rest with a separator in it has a line in front of the first one. -/
theorem split_first {rest : List α} (h : sep ∈ rest) :
    rest = rest.take (rest.findIdx (· == sep)) ++
        sep :: rest.drop (rest.findIdx (· == sep) + 1) ∧
      sep ∉ rest.take (rest.findIdx (· == sep)) := by
  have hlt : rest.findIdx (· == sep) < rest.length :=
    List.findIdx_lt_length_of_exists ⟨sep, h, beq_self_eq_true sep⟩
  have hat : rest[rest.findIdx (· == sep)] = sep := eq_of_beq (List.findIdx_getElem (w := hlt))
  constructor
  · conv_lhs => rw [← List.take_append_drop (rest.findIdx (· == sep)) rest]
    rw [List.drop_eq_getElem_cons hlt, hat]
  · intro hmem
    obtain ⟨i, hi, hget⟩ := List.mem_take_iff_getElem.mp hmem
    have hnot := List.not_of_lt_findIdx (Nat.lt_of_lt_of_le hi (Nat.min_le_left ..))
    rw [hget] at hnot
    exact absurd (beq_self_eq_true sep) (Bool.eq_false_iff.mp hnot)

theorem findIdx_of_not_mem {rest : List α} (h : sep ∉ rest) :
    rest.findIdx (· == sep) = rest.length :=
  List.findIdx_eq_length_of_false fun _ hx =>
    beq_eq_false_iff_ne.mpr fun heq => h (heq ▸ hx)

/-- By induction on the rounds: a round takes the first line of the rest, and the next one begins
behind its separator. -/
theorem scan_eq {rounds start : Nat} (hstart : start ≤ text.length)
    (hrounds : ((text.drop start).splitOn sep).length < rounds) (s : σ) :
    scan sep text body rounds start s = some (((text.drop start).splitOn sep).foldlM body s) := by
  induction rounds generalizing start s with
  | zero => exact absurd hrounds (Nat.not_lt_zero _)
  | succ rounds ih =>
    rw [scan, if_pos hstart]
    dsimp only [find]
    rw [Nat.add_sub_cancel_left]
    by_cases hmem : sep ∈ text.drop start
    · obtain ⟨hsplit, hline⟩ := split_first hmem
      have hnext : text.drop (start + (text.drop start).findIdx (· == sep) + 1) =
          (text.drop start).drop ((text.drop start).findIdx (· == sep) + 1) := by
        rw [List.drop_drop, Nat.add_assoc]
      have hlines : (text.drop start).splitOn sep =
          (text.drop start).take ((text.drop start).findIdx (· == sep)) ::
            (text.drop (start + (text.drop start).findIdx (· == sep) + 1)).splitOn sep := by
        rw [hnext, ← List.splitOn_append_cons_self_of_not_mem hline, ← hsplit]
      have hlt : (text.drop start).findIdx (· == sep) < (text.drop start).length :=
        List.findIdx_lt_length_of_exists ⟨sep, hmem, beq_self_eq_true sep⟩
      rw [List.length_drop] at hlt
      rw [hlines, List.length_cons] at hrounds
      rw [hlines, List.foldlM_cons]
      cases hbody : body s ((text.drop start).take ((text.drop start).findIdx (· == sep))) with
      | none => rfl
      | some s' => exact ih (by omega) (by omega) s'
    · -- the last line: the next round finds the index past the end
      have hall := findIdx_of_not_mem hmem
      have hlines := List.splitOn_eq_singleton hmem
      rw [hlines, List.length_singleton] at hrounds
      obtain ⟨rounds, rfl⟩ : ∃ n, rounds = n + 1 := ⟨rounds - 1, by omega⟩
      rw [hall, List.take_length, hlines, List.foldlM_cons]
      cases body s (text.drop start) with
      | none => rfl
      | some s' =>
        refine scan_past ?_ s'
        rw [List.length_drop]
        omega

/-! ## All rounds -/

omit [LawfulBEq α] in
theorem splitOn_length_le (rest : List α) : (rest.splitOn sep).length ≤ rest.length + 1 := by
  induction rest with
  | nil => rfl
  | cons x rest ih =>
    rw [List.splitOn_cons_eq_if_modifyHead]
    split
    · exact Nat.succ_le_succ ih
    · rw [List.length_modifyHead]
      exact Nat.le_succ_of_le ih

/-- The loop goes over the lines of the text, and it comes to its end on every text. -/
theorem terminates {rounds : Nat} (h : text.length + 2 ≤ rounds) (s : σ) :
    scan sep text body rounds 0 s = some ((text.splitOn sep).foldlM body s) := by
  refine scan_eq (Nat.zero_le _) ?_ s
  have hle : (text.splitOn sep).length ≤ text.length + 1 := splitOn_length_le text
  rw [List.drop_zero]
  omega

/-- A text of lines that each end in a separator has an empty line behind the last of them. -/
theorem splitOn_lines {lines : List (List α)} (h : ∀ l ∈ lines, sep ∉ l) :
    (lines.flatMap fun l => l ++ [sep]).splitOn sep = lines ++ [[]] := by
  induction lines with
  | nil => rfl
  | cons l lines ih =>
    rw [List.flatMap_cons, List.append_assoc, List.singleton_append,
      List.splitOn_append_cons_self_of_not_mem (h l List.mem_cons_self),
      ih fun l hl => h l (List.mem_cons_of_mem _ hl), List.cons_append]

/-! ## Blanks -/

/-- A text without blanks on both sides. -/
def trim (blank : α → Bool) (text : List α) : List α := (text.dropWhile blank).rdropWhile blank

omit [BEq α] [LawfulBEq α] in
theorem trim_of_none {blank : α → Bool} {text : List α} (h : ∀ x ∈ text, blank x = false) :
    trim blank text = text := by
  have hleft : text.dropWhile blank = text := by
    cases text with
    | nil => rfl
    | cons x text => exact List.dropWhile_cons_of_neg (by rw [h x List.mem_cons_self]; decide)
  rw [trim, hleft, List.rdropWhile_eq_self_iff]
  intro hne
  rw [h _ (List.getLast_mem hne)]
  decide

end Lines
