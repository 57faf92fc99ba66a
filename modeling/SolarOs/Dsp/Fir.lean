import Mathlib.Algebra.BigOperators.Group.Finset.Basic
import Mathlib.Algebra.Order.BigOperators.Group.Finset
import Mathlib.Algebra.BigOperators.Ring.Finset
import Mathlib.Logic.Function.Basic
import Mathlib.Tactic.Ring
import SolarOs.Esp

/-! The FIR filter and the decimator, from the ring of their last samples to the buffers of a call. -/
namespace SolarOs.Dsp
open Function List

def maxTaps : Nat := 1024

def saturateS16 (value : Int) : Int16 :=
  if value > 32767 then 32767 else if value < -32768 then -32768 else Int16.ofInt value

/-- Floor division by way of division that truncates. -/
def floorDivPow2 (value : Int) (shift : Nat) : Int :=
  let divisor := 2 ^ shift
  if value ≥ 0 then value.tdiv divisor else -((-value + divisor - 1).tdiv divisor)

structure Fir where
  coefficients : List Int16
  history : Nat → Int16
  position : Nat
  taps_le : coefficients.length ≤ maxTaps
  position_lt : position < coefficients.length

namespace Fir

def taps (f : Fir) : Nat := f.coefficients.length

/-- The accumulator and the position after some taps. -/
def accumulate (f : Fir) (taps : Nat) : Int × Nat :=
  (List.range taps).foldl (fun (accumulator, position) tap =>
    (accumulator + (f.coefficients.getD tap 0).toInt * (f.history position).toInt,
      if position = 0 then f.taps - 1 else position - 1)) (0, f.position)

def write (fir : Fir) (input : Int16) : Fir := { fir with history := update fir.history fir.position input }

def advance (fir : Fir) : Fir where
  __ := fir
  position := if fir.position + 1 = fir.taps then 0 else fir.position + 1
  position_lt := by
    have := fir.position_lt
    unfold taps
    split <;> omega

def sample (fir : Fir) (input : Int16) : Fir × Int16 :=
  let fir := fir.write input
  (fir.advance, saturateS16 (floorDivPow2 (fir.accumulate fir.taps).1 15))

/-- One round of the loop: every filtered sample is put out. -/
def feed (fir : Fir) (input : Int16) : Fir × Option Int16 := (fir.sample input).map id some

def reset (fir : Fir) : Fir :=
  { fir with history := fun _ => 0, position := 0, position_lt := Nat.zero_lt_of_lt fir.position_lt }

end Fir

structure Decimator where
  fir : Fir
  factor : Nat
  phase : Nat
  phase_lt : phase < factor

namespace Decimator

/-- One round of the loop: a filtered sample is put out in phase 0. -/
def feed (d : Decimator) (input : Int16) : Decimator × Option Int16 :=
  let (fir, filtered) := d.fir.sample input
  ({ d with
      fir
      phase := if d.phase + 1 = d.factor then 0 else d.phase + 1
      phase_lt := by
        have := d.phase_lt
        split <;> omega },
    if d.phase = 0 then some filtered else none)

def reset (d : Decimator) : Decimator :=
  { d with fir := d.fir.reset, phase := 0, phase_lt := Nat.zero_lt_of_lt d.phase_lt }

end Decimator

/-- The samples at their byte addresses. -/
abbrev Samples := Nat → Int16

/-- A call: the memory it meets and its arguments; address 0 is NULL. -/
structure Call where
  samples : Samples
  dst : Nat
  dstCapacity : Nat
  src : Nat
  count : Nat

/-- What a call returns and leaves. -/
structure Done (σ : Type) where
  err : EspErr
  state : σ
  samples : Samples
  produced : Nat

section
variable {σ : Type} (feed : σ → Int16 → σ × Option Int16)

/-- One round of the loop of both calls: an output goes behind the outputs before it. -/
def round (call : Call) (t : Done σ) (i : Nat) : Done σ :=
  let (state, output) := feed t.state (t.samples (call.src + 2 * i))
  match output with
  | none => { t with state }
  | some y => { t with state, samples := update t.samples (call.dst + 2 * t.produced) y, produced := t.produced + 1 }

def loop (call : Call) (s : σ) (count : Nat) : Done σ :=
  (List.range count).foldl (round feed call) ⟨.ok, s, call.samples, 0⟩

end

variable (sizeMax : Nat)

/-- The sum of products for the newest sample, the samples from the newest one on. -/
def convolved (coefficients recent : List Int16) (taps : Nat) : Int :=
  ∑ k ∈ Finset.range taps, (coefficients.getD k 0).toInt * (recent.getD k 0).toInt

def filtered (coefficients recent : List Int16) : Int16 :=
  saturateS16 (floorDivPow2 (convolved coefficients recent coefficients.length) 15)

namespace Fir

variable {f : Fir} {recent : List Int16}

/-- The slot of the sample that is `k` behind the one at a position. -/
def slot (taps position k : Nat) : Nat := if k ≤ position then position - k else position + taps - k

/-- The history holds the samples there were, from the newest one on, and zeroes before them. -/
def Holds (f : Fir) (recent : List Int16) : Prop :=
  ∀ k < f.taps, f.history (slot f.taps f.position (k + 1)) = recent.getD k 0

theorem accumulate_eq (holds : ∀ k < f.taps, f.history (slot f.taps f.position k) = recent.getD k 0) {taps : Nat}
    (le : taps ≤ f.taps) : f.accumulate taps = (convolved f.coefficients recent taps, slot f.taps f.position taps) := by
  induction taps with
  | zero => rfl
  | succ taps ih =>
    have before := ih (Nat.le_of_succ_le le)
    unfold accumulate at before ⊢
    rw [range_succ, foldl_append, before]
    refine Prod.ext ?_ ?_
    · show _ + _ * (f.history (slot f.taps f.position taps)).toInt = _
      rw [holds taps le]
      exact (Finset.sum_range_succ _ taps).symm
    · show (if slot f.taps f.position taps = 0 then f.taps - 1 else slot f.taps f.position taps - 1) =
        slot f.taps f.position (taps + 1)
      have := f.position_lt
      unfold slot Fir.taps at *
      split <;> split <;> split <;> omega

theorem Holds.sample (h : f.Holds recent) (x : Int16) :
    (f.sample x).1.Holds (x :: recent) ∧ (f.sample x).2 = filtered f.coefficients (x :: recent) := by
  have room := f.position_lt
  -- the sample is at the position, and the ones before it are where they were
  have written : ∀ k < f.taps, update f.history f.position x (slot f.taps f.position k) = (x :: recent).getD k 0 := by
    intro k le
    cases k with
    | zero => exact update_self ..
    | succ k =>
      rw [update_of_ne, h k (Nat.lt_of_succ_lt le)]
      · rfl
      · unfold slot Fir.taps at *
        split <;> omega
  refine ⟨fun k le => ?_, ?_⟩
  · have moved : slot f.taps (if f.position + 1 = f.taps then 0 else f.position + 1) (k + 1) =
        slot f.taps f.position k := by
      have le : k < f.taps := le
      unfold slot Fir.taps at *
      split <;> split <;> split <;> omega
    rw [← written k le]
    exact congrArg _ moved
  · exact congrArg (fun sum : Int × Nat => saturateS16 (floorDivPow2 sum.1 15))
      (@accumulate_eq (f.write x) _ written _ (le_rfl))

end Fir

section
variable {σ : Type} {feed : σ → Int16 → σ × Option Int16}

/-- What a state becomes when it is fed samples, and what it puts out. -/
def fed (feed : σ → Int16 → σ × Option Int16) (s : σ) (xs : List Int16) : σ × List Int16 :=
  xs.foldl (fun t x => ((feed t.1 x).1, t.2 ++ (feed t.1 x).2.toList)) (s, [])

def Call.inputs (call : Call) (count : Nat) : List Int16 :=
  (List.range count).map fun i => call.samples (call.src + 2 * i)

def Done.outputs (t : Done σ) (dst : Nat) : List Int16 :=
  (List.range t.produced).map fun i => t.samples (dst + 2 * i)

/-- The outputs do not reach the inputs that are still to be read. -/
def Call.Apart (call : Call) (outputs : Nat) : Prop :=
  call.dst = call.src ∨ ∀ i < call.count, ∀ j < outputs, call.src + 2 * i ≠ call.dst + 2 * j

/-- The samples that calls take in and put out; a call that is refused does neither. -/
def run (process : σ → Call → Done σ) : σ → List Call → σ × List Int16 × List Int16
  | s, [] => (s, [], [])
  | s, call :: calls =>
    let t := process s call
    let (s, xs, ys) := run process t.state calls
    if t.err = .ok then (s, call.inputs call.count ++ xs, t.outputs call.dst ++ ys) else (s, xs, ys)

end

namespace Decimator

/-- A decimator that has been fed samples, from one whose filter holds `recent`. -/
structure Tracks (base : Decimator) (recent : List Int16) (d : Decimator) (past : List Int16) : Prop where
  holds : d.fir.Holds (past.reverse ++ recent)
  coefficients : d.fir.coefficients = base.fir.coefficients
  factor : d.factor = base.factor
  phase : d.phase = (base.phase + past.length) % base.factor

theorem Tracks.feed {base d : Decimator} {recent past : List Int16} (h : Tracks base recent d past) (x : Int16) :
    Tracks base recent (d.feed x).1 (past ++ [x]) ∧
      (d.feed x).2 = if base.factor ∣ base.phase + past.length then
        some (filtered base.fir.coefficients ((past ++ [x]).reverse ++ recent)) else none := by
  obtain ⟨held, value⟩ := h.holds.sample x
  rw [reverse_append, reverse_singleton]
  refine ⟨⟨?_, h.coefficients, h.factor, ?_⟩, ?_⟩
  · rw [reverse_append, reverse_singleton]
    exact held
  · show (if d.phase + 1 = d.factor then 0 else d.phase + 1) = _
    have lt := Nat.mod_lt (base.phase + past.length) (Nat.zero_lt_of_lt base.phase_lt)
    rw [h.phase, h.factor, length_append, length_singleton, ← add_assoc, ← Nat.mod_add_mod (base.phase + past.length)]
    split
    · rename_i last
      rw [last, Nat.mod_self]
    · exact (Nat.mod_eq_of_lt (by omega)).symm
  · show (if d.phase = 0 then some (d.fir.sample x).2 else none) = _
    rw [value, h.phase, h.coefficients]
    simp only [Nat.dvd_iff_mod_eq_zero]
    rfl

end Decimator

/-- What output number `n` should be: the sum over the taps, with zeroes before the first sample,
without its last 15 bits, and brought into the range of a sample. -/
def output (coefficients xs : List Int16) (n : Nat) : Int :=
  max (-32768) (min 32767 ((∑ k ∈ Finset.range coefficients.length,
    (coefficients.getD k 0).toInt * if k ≤ n then (xs.getD (n - k) 0).toInt else 0) / 2 ^ 15))

end SolarOs.Dsp
