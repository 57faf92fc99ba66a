import Mathlib.Algebra.Order.Field.Rat
import Mathlib.Algebra.Order.Ring.Abs
import Mathlib.Tactic.FieldSimp
import Mathlib.Tactic.Linarith
import Mathlib.Tactic.Ring
import SolarOs.Sketch.Canvas

/-! Drawing a line: the loop keeps an error term and no counter. An invariant between the
error and the steps taken on either axis gives its end and the points it visits. -/
namespace SolarOs.Sketch
open Option

/-- The values of a C `int`. -/
def FitsInt (v : Int) : Prop := -2147483648 ≤ v ∧ v ≤ 2147483647

instance (v : Int) : Decidable (FitsInt v) := inferInstanceAs (Decidable (_ ∧ _))

abbrev CInt := {v : Int // FitsInt v}

/-- A value computed in an `int`; nothing when it does not fit. -/
def int (v : Int) : Option Int := if FitsInt v then some v else none

namespace Canvas

/-- The offsets from `-radius` to `radius`. -/
def brushOffsets (radius : Nat) : List Int :=
  (List.range (2 * radius + 1)).map fun i : Nat => (i : Int) - (radius : Int)

def brushRadius (weight : UInt8) : Nat := if weight > 1 then weight.toNat / 2 else 0

def brush (c : Canvas) (x y : Int) (color pattern weight : UInt8) : Canvas :=
  let radius := brushRadius weight
  (brushOffsets radius).foldl (fun c (dy : Int) => (brushOffsets radius).foldl (fun c (dx : Int) =>
    if radius = 0 ∨ dx * dx + dy * dy ≤ radius * radius + 1 then
      c.set (x + dx) (y + dy) color pattern
    else c) c) c

end Canvas

structure Course where
  x1 : Int
  y1 : Int
  dx : Int
  dy : Int
  sx : Int
  sy : Int

structure Pen where
  x : Int
  y : Int
  error : Int

def lineStart (x0 y0 x1 y1 : Int) : Option (Course × Pen) := do
  let dx ← int (if x1 ≥ x0 then x1 - x0 else x0 - x1)
  let dy ← int (if y1 ≥ y0 then y0 - y1 else y1 - y0)
  let error ← int (dx + dy)
  some (⟨x1, y1, dx, dy, if x0 < x1 then 1 else -1, if y0 < y1 then 1 else -1⟩, ⟨x0, y0, error⟩)

def stepX (c : Course) (twice : Int) (p : Pen) : Option Pen :=
  if twice ≥ c.dy then do
    let error ← int (p.error + c.dy)
    let x ← int (p.x + c.sx)
    some ⟨x, p.y, error⟩
  else some p

def stepY (c : Course) (twice : Int) (p : Pen) : Option Pen :=
  if twice ≤ c.dx then do
    let error ← int (p.error + c.dx)
    let y ← int (p.y + c.sy)
    some ⟨p.x, y, error⟩
  else some p

def lineStep (c : Course) (p : Pen) : Option Pen := do
  let twice ← int (p.error * 2)
  let p ← stepX c twice p
  stepY c twice p

inductive Rounds (α : Type) where
  | ended (result : α)
  | overflow
  | unfinished

variable {α : Type}

/-- The loop of the line; `visit` is what it does at a point. -/
def lineLoop (visit : α → Int → Int → α) (c : Course) : Nat → Pen → α → Rounds α
  | 0, _, _ => .unfinished
  | fuel + 1, p, a =>
    if p.x = c.x1 ∧ p.y = c.y1 then .ended (visit a p.x p.y)
    else
      (lineStep c p).elim .overflow fun p' => lineLoop visit c fuel p' (visit a p.x p.y)

def lineWith (visit : α → Int → Int → α) (x0 y0 x1 y1 : CInt) (fuel : Nat) (a : α) : Rounds α :=
  (lineStart x0 y0 x1 y1).elim .overflow fun start => lineLoop visit start.1 fuel start.2 a

/-- `solar_os_sketch_canvas_line`, cut off after `fuel` rounds. -/
def Canvas.line (c : Canvas) (x0 y0 x1 y1 : CInt) (color pattern weight : UInt8) (fuel : Nat) :
    Rounds Canvas :=
  lineWith (fun c x y => c.brush x y color pattern weight) x0 y0 x1 y1 fuel c

theorem int_of_fits {v : Int} (h : FitsInt v) : int v = some v := if_pos h

def direction (start stop : Int) : Int := if start < stop then 1 else -1

theorem direction_mul (start stop : Int) : direction start stop * |stop - start| = stop - start := by
  unfold direction
  split
  · rw [abs_of_pos (by omega), one_mul]
  · rw [abs_of_nonpos (by omega)]
    ring

theorem fits_between {start stop a : Int} (hstart : FitsInt start) (hstop : FitsInt stop)
    (ha : 0 ≤ a) (le : a ≤ |stop - start|) : FitsInt (start + direction start stop * a) := by
  unfold FitsInt at *
  unfold direction
  split
  · rw [abs_of_pos (by omega)] at le
    omega
  · rw [abs_of_nonpos (by omega)] at le
    omega

/-- The pen after `k` steps of a line whose axes have the lengths `w` and `h`: it has taken `a`
steps on the one axis and `b` on the other. -/
structure Taken (w h k a b : Int) : Prop where
  a_nonneg : 0 ≤ a
  a_le : a ≤ w
  b_nonneg : 0 ≤ b
  b_le : b ≤ h
  wide : h ≤ w → a = k
  high : w ≤ h → b = k
  above : 2 * (b * w - a * h) ≤ max w h
  below : -max w h ≤ 2 * (b * w - a * h)

section
variable {w h k a b : Int}

theorem Taken.swap (t : Taken w h k a b) : Taken h w k b a where
  a_nonneg := t.b_nonneg
  a_le := t.b_le
  b_nonneg := t.a_nonneg
  b_le := t.a_le
  wide := t.high
  high := t.wide
  above := by have := t.below; rw [max_comm]; omega
  below := by have := t.above; rw [max_comm]; omega

theorem Taken.start {w h : Int} (hw : 0 ≤ w) (hh : 0 ≤ h) : Taken w h 0 0 0 where
  a_nonneg := le_refl 0
  a_le := hw
  b_nonneg := le_refl 0
  b_le := hh
  wide := fun _ => rfl
  high := fun _ => rfl
  above := by simpa using .inl hw
  below := by simpa using .inl hw

section
variable (t : Taken w h k a b)
include t

theorem Taken.end_of_wide (le : h ≤ w) (all : w ≤ a) : a = w ∧ b = h := by
  have ha : a = w := le_antisymm t.a_le all
  subst ha
  refine ⟨rfl, ?_⟩
  have above := t.above
  have below := t.below
  rw [max_eq_left le] at above below
  have gap : b * a - a * h = a * (b - h) := by ring
  have hb := t.b_le
  by_contra other
  have short : b - h ≤ -1 := by omega
  have : a * (b - h) ≤ a * -1 := Int.mul_le_mul_of_nonneg_left short t.a_nonneg
  have := t.b_nonneg
  omega

/-- On the longer axis every round steps; on the other one the error decides. -/
theorem Taken.step_wide (le : h ≤ w) (more : a < w) : -h ≤ 2 * (w - h + (b * w - a * h)) ∧
      (2 * (w - h + (b * w - a * h)) ≤ w → Taken w h (k + 1) (a + 1) (b + 1)) ∧
      (w < 2 * (w - h + (b * w - a * h)) → Taken w h (k + 1) (a + 1) b) := by
  have above := t.above
  have below := t.below
  rw [max_eq_left le] at above below
  have ha := t.a_nonneg
  have hb := t.b_nonneg
  have hle := t.b_le
  have hk := t.wide le
  have nextA : (a + 1) * h = a * h + h := by ring
  have nextB : (b + 1) * w = b * w + w := by ring
  refine ⟨by omega, ?_, ?_⟩
  · intro near
    have room : b + 1 ≤ h := by
      by_contra full
      have hb : b = h := by omega
      subst hb
      have gap : b * w - a * b = b * (w - a) := by ring
      have : b * 1 ≤ b * (w - a) := Int.mul_le_mul_of_nonneg_left (by omega) hb
      omega
    constructor
    · omega
    · omega
    · omega
    · exact room
    · intro _
      omega
    · intro square
      have := t.high square
      omega
    · rw [max_eq_left le, nextA, nextB]
      omega
    · rw [max_eq_left le, nextA, nextB]
      omega
  · intro far
    constructor
    · omega
    · omega
    · exact hb
    · exact hle
    · intro _
      omega
    · intro square
      have same := t.high square
      have := le_antisymm square le
      subst this
      subst same
      rw [hk] at far above
      omega
    · rw [max_eq_left le, nextA]
      omega
    · rw [max_eq_left le, nextA]
      omega

theorem Taken.at_end : k = max w h ↔ a = w ∧ b = h := by
  rcases le_total h w with le | le
  · have hk := t.wide le
    rw [max_eq_left le]
    constructor
    · intro all
      exact t.end_of_wide le (by omega)
    · rintro ⟨ha, -⟩
      omega
  · have hk := t.high le
    rw [max_eq_right le]
    constructor
    · intro all
      exact (t.swap.end_of_wide le (by omega)).symm
    · rintro ⟨-, hb⟩
      omega

theorem Taken.step (more : k < max w h) : ∃ i j, (i = 1 ∧ -h ≤ 2 * (w - h + (b * w - a * h)) ∨
        i = 0 ∧ 2 * (w - h + (b * w - a * h)) < -h) ∧
      (j = 1 ∧ 2 * (w - h + (b * w - a * h)) ≤ w ∨
        j = 0 ∧ w < 2 * (w - h + (b * w - a * h))) ∧ Taken w h (k + 1) (a + i) (b + j) := by
  rcases le_total h w with le | le
  · have hk := t.wide le
    rw [max_eq_left le] at more
    obtain ⟨first, both, one⟩ := t.step_wide le (by omega)
    by_cases near : 2 * (w - h + (b * w - a * h)) ≤ w
    · exact ⟨1, 1, .inl ⟨rfl, first⟩, .inl ⟨rfl, near⟩, both near⟩
    · exact ⟨1, 0, .inl ⟨rfl, first⟩, .inr ⟨rfl, by omega⟩, by simpa using one (by omega)⟩
  · have hk := t.high le
    rw [max_eq_right le] at more
    obtain ⟨first, both, one⟩ := t.swap.step_wide le (by omega)
    by_cases near : 2 * (h - w + (a * h - b * w)) ≤ h
    · exact ⟨1, 1, .inl ⟨rfl, by omega⟩, .inl ⟨rfl, by omega⟩, (both near).swap⟩
    · exact ⟨0, 1, .inr ⟨rfl, by omega⟩, .inl ⟨rfl, by omega⟩, by simpa using (one (by omega)).swap⟩

end

end

/-- The pen after `k` rounds. -/
structure Reaches (x0 y0 x1 y1 k a b : Int) (p : Pen) : Prop where
  taken : Taken |x1 - x0| |y1 - y0| k a b
  x : p.x = x0 + direction x0 x1 * a
  y : p.y = y0 + direction y0 y1 * b
  error : p.error = |x1 - x0| - |y1 - y0| + (b * |x1 - x0| - a * |y1 - y0|)

/-- What `lineStart` computes. -/
def course (x0 y0 x1 y1 : Int) : Course :=
  ⟨x1, y1, |x1 - x0|, -|y1 - y0|, direction x0 x1, direction y0 y1⟩

theorem stepX_eq {c : Course} {p : Pen} {twice i : Int}
    (hi : i = 1 ∧ c.dy ≤ twice ∨ i = 0 ∧ twice < c.dy) (he : FitsInt (p.error + c.dy * i))
    (hx : FitsInt (p.x + c.sx * i)) : stepX c twice p = some ⟨p.x + c.sx * i, p.y, p.error + c.dy * i⟩ := by
  rcases hi with ⟨rfl, near⟩ | ⟨rfl, far⟩
  · simp only [mul_one] at *
    simp [stepX, near, int_of_fits he, int_of_fits hx]
  · simp [stepX, far]

theorem stepY_eq {c : Course} {p : Pen} {twice j : Int}
    (hj : j = 1 ∧ twice ≤ c.dx ∨ j = 0 ∧ c.dx < twice) (he : FitsInt (p.error + c.dx * j))
    (hy : FitsInt (p.y + c.sy * j)) : stepY c twice p = some ⟨p.x, p.y + c.sy * j, p.error + c.dx * j⟩ := by
  rcases hj with ⟨rfl, near⟩ | ⟨rfl, far⟩
  · simp only [mul_one] at *
    simp [stepY, near, int_of_fits he, int_of_fits hy]
  · simp [stepY, far]

section Run

variable {x0 y0 x1 y1 : CInt} {k a b : Int} {p : Pen}

theorem Reaches.step (hx : |x1.val - x0.val| < 536870912) (hy : |y1.val - y0.val| < 536870912)
    (r : Reaches x0 y0 x1 y1 k a b p) (more : k < max |x1.val - x0.val| |y1.val - y0.val|) :
    ∃ a' b' p', lineStep (course x0 y0 x1 y1) p = some p' ∧
      Reaches x0 y0 x1 y1 (k + 1) a' b' p' := by
  obtain ⟨i, j, hi, hj, taken⟩ := r.taken.step more
  have above := r.taken.above
  have below := r.taken.below
  have herror := r.error
  have hw := abs_nonneg (x1.val - x0.val)
  have hh := abs_nonneg (y1.val - y0.val)
  have nextX : p.x + direction x0 x1 * i = x0 + direction x0 x1 * (a + i) := by
    rw [r.x]
    ring
  have nextY : p.y + direction y0 y1 * j = y0 + direction y0 y1 * (b + j) := by
    rw [r.y]
    ring
  have fitsX := fits_between x0.property x1.property taken.a_nonneg taken.a_le
  have fitsY := fits_between y0.property y1.property taken.b_nonneg taken.b_le
  have fits2 : FitsInt (p.error * 2) := by
    unfold FitsInt
    omega
  have fitsI : FitsInt (p.error + -|y1.val - y0.val| * i) := by
    unfold FitsInt
    rcases hi with ⟨rfl, -⟩ | ⟨rfl, -⟩ <;> omega
  have fitsJ : FitsInt (p.error + -|y1.val - y0.val| * i + |x1.val - x0.val| * j) := by
    unfold FitsInt
    rcases hi with ⟨rfl, -⟩ | ⟨rfl, -⟩ <;> rcases hj with ⟨rfl, -⟩ | ⟨rfl, -⟩ <;> omega
  refine ⟨a + i, b + j, ⟨p.x + direction x0 x1 * i, p.y + direction y0 y1 * j,
    p.error + -|y1.val - y0.val| * i + |x1.val - x0.val| * j⟩, ?_, taken, nextX, nextY, ?_⟩
  · have first : stepX (course x0 y0 x1 y1) (p.error * 2) p = _ :=
      stepX_eq (i := i) (by simp only [course]; omega) fitsI
        (by simp only [course]; rw [nextX]; exact fitsX)
    have second : stepY (course x0 y0 x1 y1) (p.error * 2)
        ⟨p.x + direction x0 x1 * i, p.y, p.error + -|y1.val - y0.val| * i⟩ = _ :=
      stepY_eq (j := j) (by simp only [course]; omega) fitsJ
        (by simp only [course]; rw [nextY]; exact fitsY)
    rw [lineStep, int_of_fits fits2, bind_eq_bind, bind_some, first]
    exact second
  · rw [herror]
    ring

theorem Reaches.at_end (r : Reaches x0 y0 x1 y1 k a b p) :
    k = max |x1.val - x0.val| |y1.val - y0.val| ↔ p.x = x1 ∧ p.y = y1 := by
  have unit (start stop n : Int) (hn : 0 ≤ n) :
      n = |stop - start| ↔ start + direction start stop * n = stop := by
    have := direction_mul start stop
    unfold direction at *
    split at this
    · rw [if_pos ‹_›]
      omega
    · rw [if_neg ‹_›]
      omega
  rw [r.taken.at_end, r.x, r.y, ← unit _ _ _ r.taken.a_nonneg, ← unit _ _ _ r.taken.b_nonneg]

/-- The rounds from the `k`th one on. -/
theorem Reaches.run (hx : |x1.val - x0.val| < 536870912) (hy : |y1.val - y0.val| < 536870912)
    (n : Nat) (r : Reaches x0 y0 x1 y1 k a b p) (left : k + n = max |x1.val - x0.val| |y1.val - y0.val|) :
    ∃ points : List (Int × Int), points.length = n + 1 ∧ points.head? = some (p.x, p.y) ∧
      (∀ (i : Nat) (q : Int × Int), points[i]? = some q →
        ∃ a b error, Reaches x0 y0 x1 y1 (k + i) a b ⟨q.1, q.2, error⟩) ∧
      ∀ (α : Type) (visit : α → Int → Int → α) (fuel : Nat) (acc : α),
        lineLoop visit (course x0 y0 x1 y1) fuel p acc =
          if n < fuel then .ended (points.foldl (fun acc q => visit acc q.1 q.2) acc)
          else .unfinished := by
  induction n generalizing k a b p with
  | zero =>
    have ends := r.at_end.mp (by simpa using left)
    refine ⟨[(p.x, p.y)], rfl, rfl, ?_, ?_⟩
    · intro i q hq
      obtain ⟨rfl, rfl⟩ : i = 0 ∧ (p.x, p.y) = q := by
        cases i with
        | zero => simpa using hq
        | succ i => simp at hq
      exact ⟨a, b, p.error, by simpa using r⟩
    · intro α visit fuel acc
      cases fuel with
      | zero => rfl
      | succ fuel => simp [lineLoop, course, ends]
  | succ n ih =>
    have more : k < max |x1.val - x0.val| |y1.val - y0.val| := by omega
    have inside : ¬ (p.x = x1 ∧ p.y = y1) := by
      intro ends
      have := r.at_end.mpr ends
      omega
    obtain ⟨a', b', p', hstep, r'⟩ := r.step hx hy more
    obtain ⟨points, hlength, -, hpoints, hrun⟩ := ih r' (by push_cast at left; omega)
    refine ⟨(p.x, p.y) :: points, by rw [List.length_cons, hlength], rfl, ?_, ?_⟩
    · intro i q hq
      cases i with
      | zero =>
        obtain rfl : (p.x, p.y) = q := by simpa using hq
        exact ⟨a, b, p.error, by simpa using r⟩
      | succ i =>
        obtain ⟨a, b, error, later⟩ := hpoints i q (by simpa using hq)
        refine ⟨a, b, error, ?_⟩
        rw [Nat.cast_succ, add_comm (i : Int), ← add_assoc]
        exact later
    · intro α visit fuel acc
      cases fuel with
      | zero => rfl
      | succ fuel =>
        have test : ¬ (p.x = (course x0 y0 x1 y1).x1 ∧ p.y = (course x0 y0 x1 y1).y1) := inside
        rw [lineLoop, if_neg test, hstep, elim_some, hrun, List.foldl_cons]
        simp only [Nat.add_lt_add_iff_right]

end Run

theorem direction_eq_sign {start stop : Int} (apart : start ≠ stop) : direction start stop = (stop - start).sign := by
  unfold direction
  split
  · rw [Int.sign_eq_one_of_pos (by omega)]
  · rw [Int.sign_eq_neg_one_of_neg (by omega)]

theorem near_ideal {start stop k b m : Int} (hm : 0 ≤ m) (le : |stop - start| ≤ m) (hb : 0 ≤ b ∧ b ≤ |stop - start|)
    (above : 2 * (b * m - k * |stop - start|) ≤ m) (below : -m ≤ 2 * (b * m - k * |stop - start|)) :
    |((start + direction start stop * b : Int) : ℚ) - (start + k * (stop - start) / m)| ≤ 1 / 2 := by
  have turn : ((stop : ℚ) - start) = direction start stop * |stop - start| := by
    exact_mod_cast (direction_mul start stop).symm
  have unit : |(direction start stop : ℚ)| = 1 := by
    unfold direction
    split <;> simp
  rcases hm.eq_or_lt with zero | pos
  · obtain rfl : b = 0 := by omega
    subst zero
    simp
  · have pos' : (0 : ℚ) < m := by exact_mod_cast pos
    have above' : 2 * ((b : ℚ) * m - k * |stop - start|) ≤ m := by exact_mod_cast above
    have below' : -(m : ℚ) ≤ 2 * (b * m - k * |stop - start|) := by exact_mod_cast below
    have split : ((start + direction start stop * b : Int) : ℚ) - (start + k * (stop - start) / m) =
        direction start stop * ((b * m - k * |stop - start|) / m) := by
      rw [turn]
      push_cast
      field_simp
      ring
    rw [split, abs_mul, unit, one_mul, abs_le]
    constructor
    · rw [le_div_iff₀ pos']
      linarith
    · rw [div_le_iff₀ pos']
      linarith

theorem Reaches.near {x0 y0 x1 y1 : Int} {k : Nat} {a b : Int} {p : Pen} (r : Reaches x0 y0 x1 y1 k a b p) :
    |(p.x : ℚ) - (x0 + k * (x1 - x0) / max |(x1 : ℚ) - x0| |(y1 : ℚ) - y0|)| ≤ 1 / 2 ∧
      |(p.y : ℚ) - (y0 + k * (y1 - y0) / max |(x1 : ℚ) - x0| |(y1 : ℚ) - y0|)| ≤ 1 / 2 := by
  obtain ⟨ha, la, hb, lb, wide, high, above, below⟩ := r.taken
  have longer : max |(x1 : ℚ) - x0| |(y1 : ℚ) - y0| = ((max |x1 - x0| |y1 - y0| : Int) : ℚ) := by
    push_cast
    rfl
  have long : 0 ≤ max |x1 - x0| |y1 - y0| := le_max_of_le_left (abs_nonneg _)
  rw [longer, r.x, r.y]
  rcases le_total |y1 - y0| |x1 - x0| with le | le
  · have hk := wide le
    subst hk
    rw [max_eq_left le] at *
    exact ⟨near_ideal long le_rfl ⟨ha, la⟩ (by omega) (by omega),
      near_ideal long le ⟨hb, lb⟩ above below⟩
  · have hk := high le
    subst hk
    rw [max_eq_right le] at *
    exact ⟨near_ideal long le ⟨ha, la⟩ (by omega) (by omega),
      near_ideal long le_rfl ⟨hb, lb⟩ (by omega) (by omega)⟩

theorem Reaches.advance {x0 y0 x1 y1 k a b a' b' : Int} {p p' : Pen}
    (r : Reaches x0 y0 x1 y1 k a b p) (r' : Reaches x0 y0 x1 y1 (k + 1) a' b' p') :
    (|y1 - y0| ≤ |x1 - x0| → p'.x - p.x = (x1 - x0).sign) ∧
      (|x1 - x0| ≤ |y1 - y0| → p'.y - p.y = (y1 - y0).sign) := by
  have ha := r.taken.a_nonneg
  have hb := r.taken.b_nonneg
  have ha' := r'.taken.a_le
  have hb' := r'.taken.b_le
  have apart {start stop : Int} (h : 0 < |stop - start|) : start ≠ stop := by
    rintro rfl
    simp at h
  constructor
  · intro le
    have hk := r.taken.wide le
    have hk' := r'.taken.wide le
    rw [r.x, r'.x, hk, hk', ← direction_eq_sign (apart (by omega))]
    ring
  · intro le
    have hk := r.taken.high le
    have hk' := r'.taken.high le
    rw [r.y, r'.y, hk, hk', ← direction_eq_sign (apart (by omega))]
    ring

theorem direction_between {start stop a : Int} (ha : 0 ≤ a) (le : a ≤ |stop - start|) :
    min start stop ≤ start + direction start stop * a ∧
      start + direction start stop * a ≤ max start stop := by
  unfold direction
  split
  · rw [abs_of_pos (by omega)] at le
    omega
  · rw [abs_of_nonpos (by omega)] at le
    omega

theorem Reaches.between {x0 y0 x1 y1 k a b : Int} {p : Pen} (r : Reaches x0 y0 x1 y1 k a b p) :
    (min x0 x1 ≤ p.x ∧ p.x ≤ max x0 x1) ∧ min y0 y1 ≤ p.y ∧ p.y ≤ max y0 y1 := by
  rw [r.x, r.y]
  exact ⟨direction_between r.taken.a_nonneg r.taken.a_le, direction_between r.taken.b_nonneg r.taken.b_le⟩

end SolarOs.Sketch
