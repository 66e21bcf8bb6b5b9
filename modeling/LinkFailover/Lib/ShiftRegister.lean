import Mathlib.Algebra.Ring.Nat
import Mathlib.Tactic.Common

/-!
# Linear shift registers

A register that is shifted to the right and fed back through a polynomial is linear. So several
steps at once are a shift and one look into a table: the bits that are shifted out decide what is
fed back, and nothing else does.

* `steps_xor`: the steps are linear.
* `steps_split`: what the low bits feed back, and the rest that is shifted.
-/

namespace ShiftRegister

variable {w : Nat} (poly : BitVec w)

/-- The bit that falls out decides whether the polynomial is fed back. -/
def step (x : BitVec w) : BitVec w :=
  if x.getLsbD 0 then (x >>> 1) ^^^ poly else x >>> 1

def steps (n : Nat) (x : BitVec w) : BitVec w := Nat.repeat (step poly) n x

theorem steps_succ (n : Nat) (x : BitVec w) :
    steps poly (n + 1) x = step poly (steps poly n x) := rfl

/-! ## Linearity -/

theorem step_xor (x y : BitVec w) :
    step poly (x ^^^ y) = step poly x ^^^ step poly y := by
  unfold step
  rw [BitVec.getLsbD_xor, BitVec.ushiftRight_xor_distrib]
  generalize x >>> 1 = a
  generalize y >>> 1 = b
  cases x.getLsbD 0 <;> cases y.getLsbD 0
  · rfl
  · exact BitVec.xor_assoc a b poly
  · change (a ^^^ b) ^^^ poly = (a ^^^ poly) ^^^ b
    rw [BitVec.xor_assoc, BitVec.xor_assoc, BitVec.xor_comm b]
  · change a ^^^ b = (a ^^^ poly) ^^^ (b ^^^ poly)
    rw [BitVec.xor_comm b, ← BitVec.xor_assoc, BitVec.xor_assoc a, BitVec.xor_self,
      BitVec.xor_zero]

theorem steps_xor (n : Nat) (x y : BitVec w) :
    steps poly n (x ^^^ y) = steps poly n x ^^^ steps poly n y := by
  induction n with
  | zero => rfl
  | succ n ih => rw [steps_succ, steps_succ, steps_succ, ih, step_xor]

/-! ## Low and high bits -/

/-- As long as no bit falls out, there is nothing but the shift. -/
theorem steps_of_low {n : Nat} {x : BitVec w} (h : ∀ i < n, x.getLsbD i = false) :
    steps poly n x = x >>> n := by
  induction n with
  | zero => rfl
  | succ n ih =>
    have hn : (x >>> n).getLsbD 0 = false := by
      rw [BitVec.getLsbD_ushiftRight]
      exact h n (Nat.lt_succ_self n)
    rw [steps_succ, ih fun i hi => h i (Nat.lt_succ_of_lt hi), step, hn,
      if_neg Bool.false_ne_true, BitVec.shiftRight_add]

/-- The mask of the lowest bits. -/
def mask (w n : Nat) : BitVec w := BitVec.ofNat w (2 ^ n - 1)

theorem getLsbD_mask {n i : Nat} (hi : i < w) : (mask w n).getLsbD i = decide (i < n) := by
  rw [mask, BitVec.getLsbD_ofNat, Nat.testBit_two_pow_sub_one, decide_eq_true hi, Bool.true_and]

theorem low_xor_high (n : Nat) (x : BitVec w) :
    (x &&& mask w n) ^^^ (x &&& ~~~mask w n) = x := by
  refine BitVec.eq_of_getLsbD_eq fun i hi => ?_
  rw [BitVec.getLsbD_xor, BitVec.getLsbD_and, BitVec.getLsbD_and, BitVec.getLsbD_not,
    decide_eq_true hi]
  cases x.getLsbD i <;> cases (mask w n).getLsbD i <;> rfl

theorem high_ushiftRight (n : Nat) (x : BitVec w) : (x &&& ~~~mask w n) >>> n = x >>> n := by
  refine BitVec.eq_of_getLsbD_eq fun i hi => ?_
  rw [BitVec.getLsbD_ushiftRight, BitVec.getLsbD_ushiftRight, BitVec.getLsbD_and,
    BitVec.getLsbD_not]
  by_cases hw : n + i < w
  · rw [getLsbD_mask hw, decide_eq_true hw, decide_eq_false (by omega)]
    cases x.getLsbD (n + i) <;> rfl
  · rw [BitVec.getLsbD_of_ge x _ (Nat.le_of_not_lt hw)]
    rfl

/-- What the low bits feed back in as many steps, and the rest that is shifted. -/
theorem steps_split (n : Nat) (x : BitVec w) :
    steps poly n x = steps poly n (x &&& mask w n) ^^^ (x >>> n) := by
  have hhigh : steps poly n (x &&& ~~~mask w n) = x >>> n := by
    rw [steps_of_low, high_ushiftRight]
    intro i hi
    rw [BitVec.getLsbD_and, BitVec.getLsbD_not]
    by_cases hw : i < w
    · rw [getLsbD_mask hw, decide_eq_true hw, decide_eq_true hi, Bool.not_true, Bool.and_false,
        Bool.and_false]
    · rw [BitVec.getLsbD_of_ge x _ (Nat.le_of_not_lt hw), Bool.false_and]
  conv_lhs => rw [← low_xor_high n x]
  rw [steps_xor, hhigh]

end ShiftRegister
