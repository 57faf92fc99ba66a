import Mathlib.Data.List.Basic

/-! Division of bit vectors by a generator polynomial over the two-element field,
and the systematic code words that leave no remainder. -/
namespace CyclicCode
open BitVec

variable {w : Nat} (generator : BitVec w) (degree : Nat)

/-- Subtracts the generator under the bit of `value` at `bit`, when that bit is set. -/
def step (value : BitVec w) (bit : Nat) : BitVec w :=
  if value.getLsbD bit then value ^^^ (generator <<< (bit - degree)) else value

/-- The remainder of a value whose top bit is below `degree + n`. -/
def remainder : Nat → BitVec w → BitVec w
  | 0, value => value
  | n + 1, value => remainder n (step generator degree value (degree + n))

/-- All bits from `n` on are clear. -/
def Below (n : Nat) (value : BitVec w) : Prop := ∀ i, n ≤ i → value.getLsbD i = false

/-- The generator's leading term is `x ^ degree`. -/
structure Leading : Prop where
  top : generator.getLsbD degree = true
  below : Below (degree + 1) generator

variable {generator degree}

theorem step_xor (x y : BitVec w) (bit : Nat) : step generator degree (x ^^^ y) bit =
      step generator degree x bit ^^^ step generator degree y bit := by
  have cancel (a b g : BitVec w) : a ^^^ g ^^^ (b ^^^ g) = a ^^^ b := by
    rw [BitVec.xor_assoc a, ← BitVec.xor_assoc g b g, BitVec.xor_comm g b, BitVec.xor_assoc b,
      BitVec.xor_self, xor_zero]
  simp only [step, getLsbD_xor]
  cases x.getLsbD bit with
  | true =>
    cases y.getLsbD bit with
    | true => simp [cancel]
    | false => simp [BitVec.xor_assoc, BitVec.xor_comm y]
  | false =>
    cases y.getLsbD bit with
    | true => simp [BitVec.xor_assoc]
    | false => simp

theorem remainder_xor (n : Nat) (x y : BitVec w) : remainder generator degree n (x ^^^ y) =
      remainder generator degree n x ^^^ remainder generator degree n y := by
  induction n generalizing x y with
  | zero => rfl
  | succ n ih => rw [remainder, step_xor, ih, remainder, remainder]

variable {value : BitVec w}

theorem remainder_of_below (n : Nat) (h : Below degree value) : remainder generator degree n value = value := by
  induction n with
  | zero => rfl
  | succ n ih =>
    have clear := h (degree + n) (Nat.le_add_right _ _)
    rw [remainder, step, if_neg (by simp [clear]), ih]

theorem Leading.step_below (h : Leading generator degree) {n : Nat} (hvalue : Below (degree + n + 1) value) :
    Below (degree + n) (step generator degree value (degree + n)) := by
  intro i hi
  unfold step
  by_cases top : value.getLsbD (degree + n) = true
  · rw [if_pos top, getLsbD_xor, getLsbD_shiftLeft]
    by_cases same : i = degree + n
    · subst same
      have inside : degree + n < w := by
        by_contra outside
        rw [getLsbD_of_ge value _ (by omega)] at top
        exact Bool.false_ne_true top
      have aligned : degree + n - (degree + n - degree) = degree := by omega
      rw [top, aligned, h.top]
      simp [inside]
    · have hg := h.below (i - n) (by omega)
      have hv := hvalue i (by omega)
      simp [hv, hg]
  · rw [if_neg top]
    by_cases same : i = degree + n
    · subst same
      simpa using top
    · exact hvalue i (by omega)

theorem Leading.remainder_below (h : Leading generator degree) {n : Nat} (hvalue : Below (degree + n) value) :
    Below degree (remainder generator degree n value) := by
  induction n generalizing value with
  | zero => exact hvalue
  | succ n ih => exact ih (h.step_below hvalue)

theorem Leading.remainder_systematic (h : Leading generator degree) {n : Nat} (hvalue : Below (degree + n) value) :
    remainder generator degree n (value ^^^ remainder generator degree n value) = 0 := by
  rw [remainder_xor, remainder_of_below n (h.remainder_below hvalue), BitVec.xor_self]
  rfl

end CyclicCode
