import Mathlib.Logic.Function.Iterate
import Mathlib.Data.List.GetD

/-! A shift register with feedback that takes a string of bits, most significant end first:
the register is linear in its bits, and no short burst of them leaves it clear. -/
namespace ShiftRegister
open List

variable {w : Nat} (generator : BitVec w)

def shift (register : BitVec w) : BitVec w :=
  if register.msb = true then (register <<< 1) ^^^ generator else register <<< 1

def top (w : Nat) (bit : Bool) : BitVec w := if bit = true then BitVec.twoPow w (w - 1) else 0

def feed (register : BitVec w) (bit : Bool) : BitVec w := shift generator (register ^^^ top w bit)

def run (register : BitVec w) (bits : List Bool) : BitVec w := bits.foldl (feed generator) register

def place (w : Nat) : List Bool → BitVec w
  | [] => 0
  | bit :: bits => top w bit ^^^ place w bits >>> 1

variable {generator}

variable (register : BitVec w)

@[simp] theorem run_nil : run generator register [] = register := rfl

@[simp] theorem run_cons (bit : Bool) (bits : List Bool) :
    run generator register (bit :: bits) = run generator (feed generator register bit) bits := rfl

theorem run_append (bits more : List Bool) :
    run generator register (bits ++ more) = run generator (run generator register bits) more :=
  foldl_append

theorem xor_swap (a b c d : BitVec w) : (a ^^^ b) ^^^ (c ^^^ d) = (a ^^^ c) ^^^ (b ^^^ d) := by
  rw [BitVec.xor_assoc, ← BitVec.xor_assoc b, BitVec.xor_comm b c, BitVec.xor_assoc c, ← BitVec.xor_assoc]

theorem getLsbD_clear (i : Nat) : (0 : BitVec w).getLsbD i = false := BitVec.getLsbD_zero

@[simp] theorem shift_zero : shift generator 0 = 0 := by
  simp [shift]

theorem shift_xor (x y : BitVec w) : shift generator (x ^^^ y) = shift generator x ^^^ shift generator y := by
  unfold shift
  rw [BitVec.msb_xor, BitVec.shiftLeft_xor_distrib]
  cases x.msb with
  | true =>
    cases y.msb with
    | true => simp [xor_swap (x <<< 1) generator]
    | false => simp [BitVec.xor_assoc, BitVec.xor_comm generator]
  | false =>
    cases y.msb with
    | true => simp [BitVec.xor_assoc]
    | false => simp

@[simp] theorem top_false : top w false = 0 := rfl

theorem top_xor (a b : Bool) : top w (a ^^ b) = top w a ^^^ top w b := by
  cases a <;> cases b <;> simp [top]

theorem run_xor (x y : BitVec w) (bits errors : List Bool) (same : bits.length = errors.length) :
    run generator (x ^^^ y) (List.zipWith (· ^^ ·) bits errors) =
      run generator x bits ^^^ run generator y errors := by
  induction bits generalizing x y errors with
  | nil =>
    obtain rfl := length_eq_zero_iff.mp same.symm
    rfl
  | cons bit bits ih =>
    cases errors with
    | nil => exact nomatch same
    | cons error errors =>
      have fed : feed generator (x ^^^ y) (bit ^^ error) =
          feed generator x bit ^^^ feed generator y error := by
        rw [feed, top_xor, xor_swap, shift_xor]
        rfl
      rw [zipWith_cons_cons, run_cons, fed, ih _ _ _ (Nat.succ.inj same)]
      rfl

theorem run_clear {bits : List Bool} (clear : ∀ bit ∈ bits, bit = false) :
    run generator register bits = (shift generator)^[bits.length] register := by
  induction bits generalizing register with
  | nil => rfl
  | cons bit bits ih =>
    have off : feed generator register bit = shift generator register := by
      rw [feed, clear bit mem_cons_self, top_false]
      congr 1
      exact BitVec.xor_zero
    rw [run_cons, off, ih _ fun bit there => clear bit (mem_cons_of_mem _ there)]
    rfl

theorem iterate_zero (n : Nat) : (shift generator)^[n] 0 = 0 :=
  Function.iterate_fixed shift_zero n

theorem getLsbD_top {bit : Bool} {i : Nat} (inside : i < w) : (top w bit).getLsbD i = (bit && decide (i = w - 1)) := by
  cases bit with
  | false => simp [top]
  | true =>
    rw [top, if_pos rfl, BitVec.getLsbD_twoPow, Bool.true_and, decide_eq_true (by omega), Bool.true_and]
    exact decide_eq_decide.mpr eq_comm

theorem getLsbD_place (bits : List Bool) {i : Nat} (inside : i < w) :
    (place w bits).getLsbD (w - 1 - i) = bits.getD i false := by
  induction bits generalizing i with
  | nil => simp [place]
  | cons bit bits ih =>
    rw [place, BitVec.getLsbD_xor, getLsbD_top (by omega), BitVec.getLsbD_ushiftRight]
    cases i with
    | zero =>
      have past : (place w bits).getLsbD (1 + (w - 1 - 0)) = false := BitVec.getLsbD_of_ge _ _ (by omega)
      rw [past]
      simp
    | succ i =>
      have back : 1 + (w - 1 - (i + 1)) = w - 1 - i := by omega
      have below : ¬(w - 1 - (i + 1) = w - 1) := by omega
      rw [back, ih (by omega), getD_cons_succ]
      simp [below]

theorem place_append (bits more : List Bool) :
    place w (bits ++ more) = place w bits ^^^ place w more >>> bits.length := by
  induction bits with
  | nil => rw [place, nil_append, length_nil, BitVec.ushiftRight_zero]; exact BitVec.zero_xor.symm
  | cons bit bits ih =>
    rw [cons_append, place, ih, BitVec.ushiftRight_xor_distrib, ← BitVec.xor_assoc, ← BitVec.shiftRight_add]
    rfl

theorem run_place {bits : List Bool} (fits : bits.length ≤ w) :
    run generator register bits = (shift generator)^[bits.length] (register ^^^ place w bits) := by
  induction bits generalizing register with
  | nil => exact BitVec.xor_zero.symm
  | cons bit bits ih =>
    have fits : bits.length < w := fits
    -- the bits behind the first one stay clear of the feedback while they move up
    have up : shift generator (place w bits >>> 1) = place w bits := by
      have low : (place w bits >>> 1).msb = false := by
        rw [BitVec.msb_eq_getLsbD_last, BitVec.getLsbD_ushiftRight]
        exact BitVec.getLsbD_of_ge _ _ (by omega)
      rw [shift, low, if_neg Bool.false_ne_true]
      apply BitVec.eq_of_getLsbD_eq
      intro i inside
      rw [BitVec.getLsbD_shiftLeft, BitVec.getLsbD_ushiftRight]
      cases i with
      | zero =>
        have last := getLsbD_place (w := w) bits (i := w - 1) (by omega)
        rw [Nat.sub_self, getD_eq_default _ _ (by omega)] at last
        simp [last]
      | succ i => simp [inside, Nat.add_comm 1 i]
    calc run generator register (bit :: bits)
        = (shift generator)^[bits.length] (feed generator register bit ^^^ place w bits) := by
          rw [run_cons, ih _ (Nat.le_of_lt fits)]
      _ = (shift generator)^[bits.length] (shift generator (register ^^^ place w (bit :: bits))) := by
          rw [place, ← BitVec.xor_assoc, shift_xor (register ^^^ top w bit), up]
          rfl
      _ = (shift generator)^[(bit :: bits).length] (register ^^^ place w (bit :: bits)) := rfl

theorem shift_ne_zero (odd : generator.getLsbD 0 = true) {register : BitVec w} (set : register ≠ 0) :
    shift generator register ≠ 0 := by
  intro gone
  have wide : 0 < w := by
    by_contra none
    rw [BitVec.getLsbD_of_ge _ _ (by omega)] at odd
    exact Bool.false_ne_true odd
  have bits (i : Nat) : (shift generator register).getLsbD i = false := by
    rw [gone]
    exact getLsbD_clear i
  have low : register.msb = false := by
    by_contra high
    have lowest := bits 0
    rw [shift, if_pos (Bool.not_eq_false _ ▸ high), BitVec.getLsbD_xor, odd, BitVec.getLsbD_shiftLeft] at lowest
    simp at lowest
  refine set (BitVec.eq_of_getLsbD_eq fun i inside => ?_)
  rw [getLsbD_clear]
  by_cases last : i = w - 1
  · rw [last, ← BitVec.msb_eq_getLsbD_last]
    exact low
  · have above := bits (i + 1)
    rw [shift, low, if_neg Bool.false_ne_true, BitVec.getLsbD_shiftLeft] at above
    simpa [show i + 1 < w by omega] using above

theorem iterate_ne_zero (odd : generator.getLsbD 0 = true) {register : BitVec w} (set : register ≠ 0)
    (n : Nat) : (shift generator)^[n] register ≠ 0 := by
  induction n generalizing register with
  | zero => exact set
  | succ n ih => exact ih (shift_ne_zero odd set)

def Burst (w start : Nat) (bits : List Bool) : Prop :=
  ∀ i, bits.getD i false = true → start ≤ i ∧ i < start + w

theorem run_burst (odd : generator.getLsbD 0 = true) {bits : List Bool} {start : Nat}
    (burst : Burst w start bits) {i : Nat} (set : bits.getD i false = true) : run generator 0 bits ≠ 0 := by
  have clear (j : Nat) (out : j < start ∨ start + w ≤ j) : bits.getD j false = false := by
    by_contra on
    have := burst j (Bool.not_eq_false _ ▸ on)
    omega
  have before : ∀ bit ∈ bits.take start, bit = false := by
    intro bit there
    obtain ⟨j, inside, rfl⟩ := mem_take_iff_getElem.mp there
    have off := clear j (.inl (by omega))
    rwa [getD_eq_getElem _ _ (by omega)] at off
  have behind : ∀ bit ∈ (bits.drop start).drop w, bit = false := by
    intro bit there
    rw [drop_drop] at there
    obtain ⟨j, inside, rfl⟩ := mem_drop_iff_getElem.mp there
    have off := clear (start + w + j) (.inr (by omega))
    rwa [getD_eq_getElem _ _ (by omega)] at off
  have window : place w ((bits.drop start).take w) ≠ 0 := by
    intro none
    obtain ⟨first, last⟩ := burst i set
    have on := getLsbD_place (w := w) ((bits.drop start).take w) (i := i - start) (by omega)
    rw [none, getLsbD_clear, getD_eq_getElem?_getD, getElem?_take_of_lt (by omega),
      getElem?_drop, Nat.add_sub_cancel' first, ← getD_eq_getElem?_getD, set] at on
    exact Bool.false_ne_true on
  have parts : bits = bits.take start ++ ((bits.drop start).take w ++ (bits.drop start).drop w) := by
    rw [take_append_drop, take_append_drop]
  rw [parts, run_append, run_append, run_clear _ before, iterate_zero, run_clear _ behind,
    run_place _ (length_take_le _ _)]
  have zero : (0 : BitVec w) ^^^ place w ((bits.drop start).take w) = place w ((bits.drop start).take w) :=
    BitVec.zero_xor
  rw [zero]
  exact iterate_ne_zero odd (iterate_ne_zero odd window _) _

end ShiftRegister
