import Mathlib.Data.Nat.Sqrt
import Mathlib.Logic.Function.Iterate
import Mathlib.Tactic.Ring
import Mathlib.Tactic.Linarith
import SolarOs.Esp

/-! The square root, digit by digit, and the level meter over it. -/
namespace SolarOs.Dsp

/-- The three variables of `dsp_isqrt_u64`. -/
structure Root where
  value : UInt64
  result : UInt64
  bit : UInt64

namespace Root

def step (s : Root) : Root :=
  if s.result + s.bit ≤ s.value then
    { value := s.value - (s.result + s.bit), result := (s.result >>> 1) + s.bit, bit := s.bit >>> 2 }
  else { s with result := s.result >>> 1, bit := s.bit >>> 2 }

theorem bit_step (s : Root) : s.step.bit = s.bit >>> 2 := by
  unfold step
  split <;> rfl

theorem toNat_shift (bit : UInt64) : (bit >>> 2).toNat = bit.toNat / 4 := by
  rw [UInt64.toNat_shiftRight, Nat.shiftRight_eq_div_pow]
  rfl

theorem shift_lt {bit : UInt64} (some : bit ≠ 0) : (bit >>> 2).toNat < bit.toNat := by
  rw [toNat_shift]
  exact Nat.div_lt_self (Nat.pos_of_ne_zero fun none => some (UInt64.toNat_inj.mp none)) (by decide)

def run (s : Root) : Root := if s.bit = 0 then s else s.step.run
termination_by s.bit.toNat
decreasing_by
  rename_i some
  rw [bit_step]
  exact shift_lt some

end Root

/-- The first loop of `dsp_isqrt_u64`. -/
def firstBit (value bit : UInt64) : UInt64 := if value < bit then firstBit value (bit >>> 2) else bit
termination_by bit.toNat
decreasing_by
  rename_i above
  exact Root.shift_lt fun none => by
    rw [none] at above
    exact absurd above (Nat.not_lt_zero _)

def Root.start (value : UInt64) : Root := ⟨value, 0, firstBit value ((1 : UInt64) <<< 62)⟩

def isqrtU64 (value : UInt64) : UInt64 := (Root.start value).run.result

/-- What the loop keeps with `k` digits to come: the root so far is scaled by the weight of the
last digit, the value is what its square leaves, and the digits to come can make up for it. -/
structure Root.Holds (value k : Nat) (s : Root) (root : Nat) : Prop where
  bit : s.bit.toNat = 4 ^ k / 4
  result : s.result.toNat = root * 2 ^ k
  rest : s.value.toNat + root * root = value
  reach : value < (root + 2 ^ k) * (root + 2 ^ k)
  bound : root + 2 ^ k ≤ 2 ^ 32

namespace Root

def Exact (s : Root) : Prop :=
  s.result.toNat + s.bit.toNat < 2 ^ 64 ∧ (s.result >>> 1).toNat + s.bit.toNat < 2 ^ 64

variable {value k root : Nat} {s : Root}

theorem four_pow (k : Nat) : 4 ^ k = 2 ^ k * 2 ^ k := Nat.mul_pow 2 2 k

theorem Holds.fits (h : Holds value (k + 1) s root) : s.result.toNat + s.bit.toNat < 2 ^ 64 := by
  have digit : 0 < 2 ^ k := Nat.two_pow_pos k
  have bound := h.bound
  rw [h.result, h.bit, Nat.pow_succ 4, Nat.mul_div_cancel _ (by decide), four_pow]
  rw [Nat.pow_succ] at bound ⊢
  calc root * (2 ^ k * 2) + 2 ^ k * 2 ^ k < (root + 2 ^ k * 2) * (2 ^ k * 2) := by nlinarith
    _ ≤ 2 ^ 32 * 2 ^ 32 := Nat.mul_le_mul bound (by omega)

theorem Holds.step (h : Holds value (k + 1) s root) :
    Holds value k s.step root ∨ Holds value k s.step (root + 2 ^ k) := by
  have fits := h.fits
  have digit : 0 < 2 ^ k := Nat.two_pow_pos k
  have bit : s.bit.toNat = 2 ^ k * 2 ^ k := by
    rw [h.bit, Nat.pow_succ, Nat.mul_div_cancel _ (by decide), four_pow]
  have half : s.result.toNat / 2 = root * 2 ^ k := by
    rw [h.result, Nat.pow_succ, ← Nat.mul_assoc, Nat.mul_div_cancel _ (by decide)]
  have shifted : (s.result >>> 1).toNat = root * 2 ^ k := by
    rw [UInt64.toNat_shiftRight, Nat.shiftRight_eq_div_pow]
    exact half
  have sum : (s.result + s.bit).toNat = root * (2 ^ k * 2) + 2 ^ k * 2 ^ k := by
    rw [UInt64.toNat_add, Nat.mod_eq_of_lt fits, h.result, bit, Nat.pow_succ]
  have next : s.step.bit.toNat = 4 ^ k / 4 := by
    rw [bit_step, toNat_shift, bit, ← four_pow]
  have rest := h.rest
  have reach := h.reach
  have bound := h.bound
  rw [Nat.pow_succ] at reach bound
  by_cases le : s.result + s.bit ≤ s.value
  · have room : root * (2 ^ k * 2) + 2 ^ k * 2 ^ k ≤ s.value.toNat := by
      rw [← sum]
      exact le
    right
    refine ⟨next, ?_, ?_, ?_, ?_⟩
    · rw [Root.step, if_pos le]
      show ((s.result >>> 1) + s.bit).toNat = _
      rw [UInt64.toNat_add, shifted, bit, Nat.add_mul, Nat.mod_eq_of_lt]
      omega
    · rw [Root.step, if_pos le]
      show (s.value - (s.result + s.bit)).toNat + _ = _
      rw [UInt64.toNat_sub_of_le _ _ le, sum, ← rest]
      have square : (root + 2 ^ k) * (root + 2 ^ k) = root * (2 ^ k * 2) + 2 ^ k * 2 ^ k + root * root := by ring
      omega
    · rwa [add_assoc, ← Nat.mul_two]
    · omega
  · have short : s.value.toNat < root * (2 ^ k * 2) + 2 ^ k * 2 ^ k := by
      rw [← sum]
      exact Nat.lt_of_not_le le
    left
    refine ⟨next, ?_, ?_, ?_, ?_⟩
    · rw [Root.step, if_neg le]
      exact shifted
    · rw [Root.step, if_neg le]
      exact rest
    · rw [← rest]
      calc s.value.toNat + root * root
          < root * (2 ^ k * 2) + 2 ^ k * 2 ^ k + root * root := Nat.add_lt_add_right short _
        _ = (root + 2 ^ k) * (root + 2 ^ k) := by ring
    · omega

theorem Holds.bit_ne (h : Holds value (k + 1) s root) : s.bit ≠ 0 := by
  intro none
  have bit := h.bit
  rw [none, Nat.pow_succ, Nat.mul_div_cancel _ (by decide)] at bit
  exact Nat.pos_iff_ne_zero.mp (Nat.pow_pos (by decide)) bit.symm

theorem Holds.exact (h : Holds value (k + 1) s root) : s.Exact := by
  refine ⟨h.fits, lt_of_le_of_lt (Nat.add_le_add_right ?_ _) h.fits⟩
  rw [UInt64.toNat_shiftRight, Nat.shiftRight_eq_div_pow]
  exact Nat.div_le_self _ _

/-- The loop takes `k` rounds and leaves the root. -/
theorem Holds.run (h : Holds value k s root) : s.run = Root.step^[k] s ∧ (Root.step^[k] s).bit = 0 ∧
      (∀ n < k, (Root.step^[n] s).bit ≠ 0 ∧ (Root.step^[n] s).Exact) ∧ s.run.result.toNat = Nat.sqrt value := by
  induction k generalizing s root with
  | zero =>
    have done : s.bit = 0 := UInt64.toNat_inj.mp h.bit
    have last : s.run = s := by rw [Root.run, if_pos done]
    refine ⟨last, done, fun n none => absurd none (Nat.not_lt_zero n), ?_⟩
    rw [last, h.result, Nat.pow_zero, mul_one]
    exact Nat.eq_sqrt.mpr ⟨Nat.le.intro ((add_comm _ _).trans h.rest), h.reach⟩
  | succ k ih =>
    have again : s.run = s.step.run := by rw [Root.run, if_neg h.bit_ne]
    have later : ∃ root, Holds value k s.step root := h.step.elim (⟨_, ·⟩) (⟨_, ·⟩)
    obtain ⟨_, kept⟩ := later
    obtain ⟨ends, done, before, sqrt⟩ := ih kept
    refine ⟨again.trans ends, done, fun n le => ?_, again ▸ sqrt⟩
    cases n with
    | zero => exact ⟨h.bit_ne, h.exact⟩
    | succ n => exact before n (Nat.lt_of_succ_lt_succ le)

end Root

theorem firstBit_eq {value bit : UInt64} {j : Nat} (weight : bit.toNat = 4 ^ j / 4) (lt : value.toNat < 4 ^ j) :
    ∃ k ≤ j, (firstBit value bit).toNat = 4 ^ k / 4 ∧ value.toNat < 4 ^ k := by
  induction j generalizing bit with
  | zero =>
    have stays : ¬value < bit := fun above => by
      have positive : value.toNat < bit.toNat := above
      rw [weight] at positive
      exact Nat.not_lt_zero _ positive
    exact ⟨0, Nat.le_refl 0, by rw [firstBit, if_neg stays, weight], lt⟩
  | succ j ih =>
    by_cases above : value < bit
    · have smaller : value.toNat < bit.toNat := above
      rw [weight, Nat.pow_succ, Nat.mul_div_cancel _ (by decide)] at smaller
      obtain ⟨k, le, eq, reach⟩ := @ih (bit >>> 2)
        (by rw [Root.toNat_shift, weight, Nat.pow_succ, Nat.mul_div_cancel _ (by decide)]) smaller
      exact ⟨k, Nat.le_succ_of_le le, by rw [firstBit, if_pos above, eq], reach⟩
    · exact ⟨j + 1, le_rfl, by rw [firstBit, if_neg above, weight], lt⟩

theorem Root.holds_start (value : UInt64) : ∃ k, Root.Holds value.toNat k (.start value) 0 := by
  obtain ⟨k, le, eq, reach⟩ := @firstBit_eq value ((1 : UInt64) <<< 62) 32 rfl value.toNat_lt
  refine ⟨k, eq, (Nat.zero_mul _).symm, rfl, ?_, ?_⟩
  · rwa [zero_add, ← Root.four_pow]
  · rw [zero_add]
    exact Nat.pow_le_pow_right (by decide) le

theorem isqrtU64_toNat (value : UInt64) : (isqrtU64 value).toNat = Nat.sqrt value.toNat :=
  have ⟨_, holds⟩ := Root.holds_start value
  holds.run.2.2.2

def magnitude (sample : Int16) : UInt32 :=
  UInt32.ofNat (if sample.toInt < 0 then -sample.toInt else sample.toInt).toNat

/-- The accumulators of `solar_os_dsp_level_s16`. -/
structure Meter where
  peak : UInt32
  sumSquares : UInt64

def Meter.feed (m : Meter) (sample : Int16) : Meter where
  peak := if m.peak < magnitude sample then magnitude sample else m.peak
  sumSquares := m.sumSquares + UInt64.ofNat (sample.toInt * sample.toInt).toNat

structure Level where
  peak : UInt32
  rms : UInt32

def levelS16 (src : List Int16) : Except EspErr Level :=
  if src = [] then .error .invalidArg
  else
    let m := src.foldl Meter.feed ⟨0, 0⟩
    .ok { peak := m.peak, rms := (isqrtU64 (UInt64.ofNat (m.sumSquares.toNat / src.length))).toUInt32 }

theorem isGreatest_sqrt (value : Nat) : IsGreatest {r : Nat | r * r ≤ value} (Nat.sqrt value) :=
  ⟨Nat.sqrt_le value, fun _ le => Nat.le_sqrt.mpr le⟩

def squares (src : List Int16) : Nat := (src.map fun sample => sample.toInt.natAbs * sample.toInt.natAbs).sum

theorem magnitude_toNat (sample : Int16) : (magnitude sample).toNat = sample.toInt.natAbs := by
  have low := sample.le_toInt
  have high := sample.toInt_lt
  rw [magnitude, UInt32.toNat_ofNat', Nat.mod_eq_of_lt]
  · split <;> omega
  · split <;> omega

theorem foldl_feed (src : List Int16) (m : Meter) : (m.sumSquares.toNat + squares src < 2 ^ 64 →
      (src.foldl Meter.feed m).sumSquares.toNat = m.sumSquares.toNat + squares src) ∧
    m.peak ≤ (src.foldl Meter.feed m).peak ∧
    ∀ sample ∈ src, sample.toInt.natAbs ≤ (src.foldl Meter.feed m).peak.toNat := by
  induction src generalizing m with
  | nil => exact ⟨fun _ => rfl, Nat.le_refl _, fun _ => nofun⟩
  | cons sample src ih =>
    obtain ⟨sums, rises, above⟩ := ih (m.feed sample)
    have first : m.peak ≤ (m.feed sample).peak ∧ magnitude sample ≤ (m.feed sample).peak := by
      show m.peak ≤ ite _ _ _ ∧ magnitude sample ≤ ite _ _ _
      split
      · rename_i higher
        exact ⟨Nat.le_of_lt higher, Nat.le_refl _⟩
      · rename_i lower
        exact ⟨Nat.le_refl _, Nat.le_of_not_lt lower⟩
    refine ⟨fun fits => ?_, Nat.le_trans first.1 rises, ?_⟩
    · have split : squares (sample :: src) = sample.toInt.natAbs * sample.toInt.natAbs + squares src := rfl
      have square : (sample.toInt * sample.toInt).toNat = sample.toInt.natAbs * sample.toInt.natAbs := by
        rw [← Int.natAbs_mul_self, Int.toNat_natCast]
      have fed : (m.feed sample).sumSquares.toNat =
          m.sumSquares.toNat + sample.toInt.natAbs * sample.toInt.natAbs := by
        show (m.sumSquares + _).toNat = _
        rw [UInt64.toNat_add, UInt64.toNat_ofNat', square, Nat.add_mod_mod, Nat.mod_eq_of_lt (by omega)]
      rw [List.foldl_cons, sums (by omega), fed, split, add_assoc]
    · intro x member
      rcases List.mem_cons.mp member with rfl | later
      · rw [← magnitude_toNat]
        exact le_trans first.2 rises
      · exact above x later

theorem squares_le {src : List Int16} {peak : Nat} (h : ∀ sample ∈ src, sample.toInt.natAbs ≤ peak) :
    squares src ≤ src.length * (peak * peak) := by
  induction src with
  | nil => exact Nat.zero_le _
  | cons sample src ih =>
    have here := h sample List.mem_cons_self
    have rest := ih fun x member => h x (List.mem_cons_of_mem _ member)
    calc squares (sample :: src) = sample.toInt.natAbs * sample.toInt.natAbs + squares src := rfl
      _ ≤ peak * peak + src.length * (peak * peak) := Nat.add_le_add (Nat.mul_le_mul here here) rest
      _ = (sample :: src).length * (peak * peak) := by rw [List.length_cons]; ring

/-- The root is exact for every value, and so is the level of every block whose squares fit. -/
theorem isqrtU64_exact : (∀ value, ∃ rounds, isqrtU64 value = (Root.step^[rounds] (.start value)).result ∧
      (Root.step^[rounds] (.start value)).bit = 0 ∧
      (∀ n < rounds, (Root.step^[n] (.start value)).bit ≠ 0 ∧ (Root.step^[n] (.start value)).Exact) ∧
      IsGreatest {r : Nat | r * r ≤ value.toNat} (isqrtU64 value).toNat) ∧
    ∀ src, src ≠ [] → squares src < 2 ^ 64 → ∃ level, levelS16 src = .ok level ∧
      IsGreatest {r : Nat | r * r ≤ squares src / src.length} level.rms.toNat ∧ level.rms ≤ level.peak := by
  refine ⟨fun value => ?_, fun src some fits => ?_⟩
  · obtain ⟨k, holds⟩ := Root.holds_start value
    obtain ⟨ends, done, before, sqrt⟩ := holds.run
    refine ⟨k, congrArg Root.result ends, done, before, ?_⟩
    rw [isqrtU64, sqrt]
    exact isGreatest_sqrt _
  · have length : 0 < src.length := List.length_pos_iff.mpr some
    obtain ⟨sums, -, above⟩ := foldl_feed src ⟨0, 0⟩
    have sum : (src.foldl Meter.feed ⟨0, 0⟩).sumSquares.toNat = squares src :=
      (sums (by rwa [UInt64.toNat_zero, zero_add])).trans (zero_add _)
    have mean : (UInt64.ofNat ((src.foldl Meter.feed ⟨0, 0⟩).sumSquares.toNat / src.length)).toNat =
        squares src / src.length := by
      rw [UInt64.toNat_ofNat', sum, Nat.mod_eq_of_lt (lt_of_le_of_lt (Nat.div_le_self _ _) fits)]
    have small : Nat.sqrt (squares src / src.length) ≤ (src.foldl Meter.feed ⟨0, 0⟩).peak.toNat := by
      rw [← Nat.sqrt_eq (src.foldl Meter.feed ⟨0, 0⟩).peak.toNat]
      exact Nat.sqrt_le_sqrt (Nat.div_le_of_le_mul (squares_le above))
    have rms : (isqrtU64 (UInt64.ofNat ((src.foldl Meter.feed ⟨0, 0⟩).sumSquares.toNat /
        src.length))).toUInt32.toNat = Nat.sqrt (squares src / src.length) := by
      rw [UInt64.toNat_toUInt32, isqrtU64_toNat, mean, Nat.mod_eq_of_lt]
      exact lt_of_le_of_lt small (UInt32.toNat_lt _)
    refine ⟨_, if_neg some, ?_, ?_⟩
    · rw [rms]
      exact isGreatest_sqrt _
    · exact rms.trans_le small

/-- A block of two samples. -/
theorem isqrtU64_exact_pair : ∃ level, levelS16 [3, -4] = .ok level ∧
    IsGreatest {r : Nat | r * r ≤ squares [3, -4] / 2} level.rms.toNat ∧ level.rms ≤ level.peak :=
  isqrtU64_exact.2 [3, -4] (by decide) (by decide)

end SolarOs.Dsp
