import Mathlib.Data.List.GetD
import SolarOs.Esp

/-! The canvas of the drawing program: two bits a pixel, four pixels a byte, row after row.
What is read after a pixel was set. -/
namespace SolarOs.Sketch

def canvasBytes (width height : UInt16) : Nat := (width.toNat * height.toNat + 3) / 4

/-- `solar_os_sketch_canvas_t` with the bytes its pixels point to. -/
structure Canvas where
  width : UInt16
  height : UInt16
  pixels : List UInt8
  size_pixels : pixels.length = canvasBytes width height

def pixelShift (pixel : Nat) : UInt8 := UInt8.ofNat (pixel % 4 * 2)

def putBits (byte color : UInt8) (pixel : Nat) : UInt8 :=
  (byte &&& ~~~(3 <<< pixelShift pixel)) ||| ((color &&& 3) <<< pixelShift pixel)

def patternAccepts (pattern : UInt8) (x y : Int) : Bool :=
  if pattern &&& 3 = 1 then (x + y) % 2 = 0
  else if pattern &&& 3 = 2 then x % 4 = 0 && y % 4 = 0
  else if pattern &&& 3 = 3 then (x + y) % 4 = 0
  else true

namespace Canvas

def contains (c : Canvas) (x y : Int) : Bool :=
  0 ≤ x && 0 ≤ y && x < c.width.toNat && y < c.height.toNat

def pixel (c : Canvas) (x y : Int) : Nat := y.toNat * c.width.toNat + x.toNat

def get (c : Canvas) (x y : Int) : UInt8 :=
  if c.contains x y then
    (c.pixels.getD (c.pixel x y / 4) 0 >>> pixelShift (c.pixel x y)) &&& 3
  else 0

def set (c : Canvas) (x y : Int) (color pattern : UInt8) : Canvas :=
  if c.contains x y && patternAccepts pattern x y then
    { c with
      pixels := c.pixels.set (c.pixel x y / 4)
        (putBits (c.pixels.getD (c.pixel x y / 4) 0) color (c.pixel x y))
      size_pixels := by rw [List.length_set, c.size_pixels] }
  else c

variable {c : Canvas}

theorem contains_iff {x y : Int} :
    c.contains x y = true ↔ (0 ≤ x ∧ x < c.width.toNat) ∧ 0 ≤ y ∧ y < c.height.toNat := by
  simp only [contains, Bool.and_eq_true, decide_eq_true_eq]
  constructor
  · rintro ⟨⟨⟨hx, hy⟩, wx⟩, wy⟩
    exact ⟨⟨hx, wx⟩, hy, wy⟩
  · rintro ⟨⟨hx, wx⟩, hy, wy⟩
    exact ⟨⟨⟨hx, hy⟩, wx⟩, wy⟩

@[simp] theorem contains_natCast {x y : Nat} : c.contains x y = true ↔ x < c.width.toNat ∧ y < c.height.toNat := by
  rw [contains_iff]
  omega

theorem pixel_inj {x y x' y' : Int} (h : c.contains x y = true) (h' : c.contains x' y' = true)
    (same : c.pixel x y = c.pixel x' y') : x = x' ∧ y = y' := by
  obtain ⟨⟨hx, wx⟩, hy, wy⟩ := contains_iff.mp h
  obtain ⟨⟨hx', wx'⟩, hy', wy'⟩ := contains_iff.mp h'
  have inside : x.toNat < c.width.toNat := by omega
  have inside' : x'.toNat < c.width.toNat := by omega
  have row : y.toNat = y'.toNat := by
    have := congrArg (· / c.width.toNat) same
    simpa only [pixel, Nat.mul_comm _ c.width.toNat, Nat.mul_add_div (Nat.zero_lt_of_lt inside),
      Nat.div_eq_of_lt inside, Nat.div_eq_of_lt inside', Nat.add_zero] using this
  have column : x.toNat = x'.toNat := by
    simpa only [pixel, row, Nat.add_left_cancel_iff] using same
  omega

theorem pixel_lt {x y : Int} (h : c.contains x y = true) : c.pixel x y < c.width.toNat * c.height.toNat := by
  obtain ⟨⟨hx, wx⟩, hy, wy⟩ := contains_iff.mp h
  have row : (y.toNat + 1) * c.width.toNat ≤ c.height.toNat * c.width.toNat := Nat.mul_le_mul_right _ (by omega)
  rw [Nat.add_mul, Nat.mul_comm c.height.toNat] at row
  unfold pixel
  omega

theorem byte_lt {x y : Int} (h : c.contains x y = true) : c.pixel x y / 4 < c.pixels.length := by
  have := pixel_lt h
  rw [c.size_pixels, canvasBytes]
  omega

@[simp] theorem width_set (c : Canvas) (x y : Int) (color pattern : UInt8) :
    (c.set x y color pattern).width = c.width := by
  unfold set
  split <;> rfl

@[simp] theorem height_set (c : Canvas) (x y : Int) (color pattern : UInt8) :
    (c.set x y color pattern).height = c.height := by
  unfold set
  split <;> rfl

theorem pixels_set {x y : Int} {color pattern : UInt8}
    (drawn : c.contains x y = true ∧ patternAccepts pattern x y = true) :
    (c.set x y color pattern).pixels = c.pixels.set (c.pixel x y / 4)
      (putBits (c.pixels.getD (c.pixel x y / 4) 0) color (c.pixel x y)) := by
  rw [set, if_pos (by simpa using drawn)]

@[simp] theorem contains_set (c : Canvas) (x y x' y' : Int) (color pattern : UInt8) :
    (c.set x y color pattern).contains x' y' = c.contains x' y' := by
  simp only [contains, width_set, height_set]

@[simp] theorem pixel_set (c : Canvas) (x y x' y' : Int) (color pattern : UInt8) :
    (c.set x y color pattern).pixel x' y' = c.pixel x' y' := by
  simp only [pixel, width_set]

end Canvas

theorem or_and_distrib (a b c : UInt8) : (a ||| b) &&& c = a &&& c ||| b &&& c :=
  UInt8.toBitVec_inj.1 BitVec.and_or_distrib_right

theorem bits_putBits (byte color : UInt8) (pixel pixel' : Nat) :
    (putBits byte color pixel >>> pixelShift pixel') &&& 3 =
      if pixel % 4 = pixel' % 4 then color &&& 3 else (byte >>> pixelShift pixel') &&& 3 := by
  have kept : ∀ i j : Fin 4, ~~~(3 <<< UInt8.ofNat (i * 2)) >>> UInt8.ofNat (j * 2) &&& 3 =
      if i.val = j.val then 0 else (3 : UInt8) := by decide
  have placed : ∀ color i j : Fin 4, UInt8.ofNat color <<< UInt8.ofNat (i * 2) >>> UInt8.ofNat (j * 2) &&& 3 =
      if i.val = j.val then UInt8.ofNat color else 0 := by decide
  have small : (color &&& 3).toNat < 4 := Nat.lt_succ_of_le (by simpa using Nat.and_le_right)
  have lane (k : Nat) : k % 4 < 4 := Nat.mod_lt _ (by decide)
  have kept := kept ⟨pixel % 4, lane _⟩ ⟨pixel' % 4, lane _⟩
  have placed := placed ⟨(color &&& 3).toNat, small⟩ ⟨pixel % 4, lane _⟩ ⟨pixel' % 4, lane _⟩
  simp only [UInt8.ofNat_toNat] at placed
  rw [putBits, pixelShift, pixelShift, UInt8.shiftRight_or, UInt8.shiftRight_and, or_and_distrib, placed,
    UInt8.and_assoc, kept]
  split <;> simp

namespace Canvas

theorem get_set (c : Canvas) (x y x' y' : Int) (color pattern : UInt8) : (c.set x y color pattern).get x' y' =
      if (c.contains x y = true ∧ patternAccepts pattern x y = true) ∧ x = x' ∧ y = y' then
        color &&& 3
      else c.get x' y' := by
  by_cases drawn : c.contains x y = true ∧ patternAccepts pattern x y = true
  · by_cases inside : c.contains x' y' = true
    · simp only [get, contains_set, pixel_set, inside, if_true, drawn, true_and]
      rw [pixels_set drawn]
      by_cases byte : c.pixel x y / 4 = c.pixel x' y' / 4
      · rw [byte, List.getD_eq_getElem _ _ (by rw [List.length_set]; exact byte_lt inside),
          List.getElem_set_self, bits_putBits]
        by_cases same : x = x' ∧ y = y'
        · rw [if_pos (by rw [same.1, same.2]), if_pos same]
        · rw [if_neg, if_neg same]
          intro lanes
          exact same (pixel_inj drawn.1 inside (by omega))
      · rw [List.getD_eq_getElem?_getD, List.getElem?_set_ne byte, ← List.getD_eq_getElem?_getD, if_neg]
        rintro ⟨rfl, rfl⟩
        exact byte rfl
    · have apart : ¬ (x = x' ∧ y = y') := by
        rintro ⟨rfl, rfl⟩
        exact inside drawn.1
      simp [get, inside, apart]
  · rw [set, if_neg (by simpa using drawn), if_neg (fun h => drawn h.1)]

end Canvas

end SolarOs.Sketch
