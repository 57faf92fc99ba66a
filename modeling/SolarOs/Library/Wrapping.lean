import Mathlib.Algebra.Group.Nat.Defs
import Mathlib.Tactic.TypeStar

/-! A free-running 32-bit millisecond clock that wraps, compared by the sign of
a difference, seen from the unbounded time it counts. -/
namespace WrapClock

def reading (time : Nat) : UInt32 := UInt32.ofNat time

/-- The sign test `(int32_t)(now - deadline) >= 0`. -/
def reached (now deadline : UInt32) : Bool := (now - deadline).toNat < 2 ^ 31

theorem reading_add (a b : Nat) : reading a + reading b = reading (a + b) := by
  apply UInt32.toNat_inj.mp
  simp [reading]

theorem reading_sub_toNat {earlier later : Nat} (h : earlier ≤ later) :
    (reading later - reading earlier).toNat = (later - earlier) % 2 ^ 32 := by
  simp only [reading, UInt32.toNat_sub, UInt32.toNat_ofNat']
  omega

theorem reached_of_le {deadline now : Nat} (h : deadline ≤ now) (hnear : now - deadline < 2 ^ 31) :
    reached (reading now) (reading deadline) = true := by
  rw [reached, reading_sub_toNat h]
  simp only [decide_eq_true_eq]
  omega

theorem reached_of_lt {deadline now : Nat} (h : now < deadline) (hnear : deadline - now ≤ 2 ^ 31) :
    reached (reading now) (reading deadline) = false := by
  simp only [reached, reading, UInt32.toNat_sub, UInt32.toNat_ofNat', decide_eq_false_iff_not]
  omega

end WrapClock

namespace Generation

def next (generation : UInt32) : UInt32 := if generation + 1 ≠ 0 then generation + 1 else 1

def period : Nat := 2 ^ 32 - 1

def after (renewals : Nat) : UInt32 :=
  if renewals = 0 then 0 else UInt32.ofNat ((renewals - 1) % period + 1)

theorem after_toNat {renewals : Nat} (some : 0 < renewals) : (after renewals).toNat = (renewals - 1) % period + 1 := by
  have bound := Nat.mod_lt (renewals - 1) (by decide : 0 < period)
  unfold period at bound
  rw [after, if_neg (by omega), UInt32.toNat_ofNat', Nat.mod_eq_of_lt]
  unfold period
  omega

theorem next_after (renewals : Nat) : next (after renewals) = after (renewals + 1) := by
  apply UInt32.toNat_inj.mp
  rw [after_toNat (Nat.succ_pos renewals), Nat.succ_sub_one]
  have sum : (after renewals + 1).toNat = ((after renewals).toNat + 1) % 2 ^ 32 := UInt32.toNat_add ..
  have zero : after renewals + 1 = 0 ↔ ((after renewals).toNat + 1) % 2 ^ 32 = 0 := by
    rw [← UInt32.toNat_inj, sum]
    exact Iff.rfl
  rw [next]
  rcases Nat.eq_zero_or_pos renewals with rfl | some
  · rw [if_pos (by decide)]
    decide
  · have now := after_toNat some
    unfold period at *
    by_cases wraps : after renewals + 1 = 0
    · rw [if_neg fun room => room wraps]
      rw [zero, now] at wraps
      rw [show (1 : UInt32).toNat = 1 from rfl]
      omega
    · rw [if_pos wraps, sum, now]
      rw [zero, now] at wraps
      omega

theorem eq_of_after {earlier later : Nat} (some : 0 < earlier) (le : earlier ≤ later)
    (near : later < earlier + period) (same : after earlier = after later) : earlier = later := by
  have eq := congrArg UInt32.toNat same
  rw [after_toNat some, after_toNat (by omega)] at eq
  unfold period at *
  omega

theorem after_period {renewals : Nat} (some : 0 < renewals) : after (renewals + period) = after renewals := by
  apply UInt32.toNat_inj.mp
  rw [after_toNat some, after_toNat (by omega), show renewals + period - 1 = renewals - 1 + period by omega,
    Nat.add_mod_right]

end Generation
