import Mathlib.Data.List.Basic
import Mathlib.Algebra.Group.Nat.Defs

/-! Byte memory: stores of byte strings and of little-endian words, and which loads
they leave alone. -/
namespace ByteMemory
open List

structure Memory where
  byte : Nat → UInt8

instance : CoeFun Memory fun _ => Nat → UInt8 := ⟨Memory.byte⟩

section
variable (m : Memory)

/-- The `n` bytes from address `a` on. -/
def load (a n : Nat) : List UInt8 := (List.range n).map fun i => m (a + i)

def store (a : Nat) (bytes : List UInt8) : Memory where
  byte := fun i => if a ≤ i ∧ i - a < bytes.length then bytes.getD (i - a) 0 else m i

/-- The four bytes of a word below `2 ^ 32`, the low one first. -/
def littleEndian32 (value : Nat) : List UInt8 :=
  [UInt8.ofNat value, UInt8.ofNat (value / 256), UInt8.ofNat (value / 65536),
    UInt8.ofNat (value / 16777216)]

def load32 (a : Nat) : Nat :=
  (m a).toNat + 256 * (m (a + 1)).toNat + 65536 * (m (a + 2)).toNat + 16777216 * (m (a + 3)).toNat

def store32 (a value : Nat) : Memory := store m a (littleEndian32 value)

/-- `memset`. -/
def fill (a : Nat) (byte : UInt8) (n : Nat) : Memory := store m a (List.replicate n byte)

/-- `memcpy`. -/
def copy (target source n : Nat) : Memory := store m target (load m source n)

end

variable {m m' : Memory} {a b i n value : Nat} {bytes : List UInt8}

@[simp] theorem load_length (m : Memory) (a n : Nat) : (load m a n).length = n := by simp [load]

theorem getElem?_load (h : i < n) : (load m a n)[i]? = some (m (a + i)) := by
  simp [load, h]

theorem store_outside (m : Memory) (bytes : List UInt8) (h : i < a ∨ a + bytes.length ≤ i) :
    store m a bytes i = m i := by
  have hnot : ¬ (a ≤ i ∧ i - a < bytes.length) := by omega
  exact if_neg hnot

theorem store_inside (m : Memory) (a : Nat) (h : i < bytes.length) : store m a bytes (a + i) = bytes[i] := by
  have hin : a ≤ a + i ∧ a + i - a < bytes.length := by omega
  refine (if_pos hin).trans ?_
  rw [Nat.add_sub_cancel_left]
  simp [h]

theorem load_store (m : Memory) (a : Nat) (bytes : List UInt8) : load (store m a bytes) a bytes.length = bytes := by
  apply ext_getElem
  · simp
  · intro i _ hi
    simp only [load, getElem_map, getElem_range]
    exact store_inside m a hi

theorem load_congr (h : ∀ i < n, m' (a + i) = m (a + i)) : load m' a n = load m a n := by
  apply map_congr_left
  intro i hi
  exact h i (mem_range.mp hi)

section
variable (m : Memory)

theorem load_add (a n k : Nat) : load m a (n + k) = load m a n ++ load m (a + n) k := by
  simp [load, range_add, add_assoc]

theorem load_take (a : Nat) {k n : Nat} (h : k ≤ n) : (load m a n).take k = load m a k := by
  obtain ⟨r, rfl⟩ := Nat.exists_eq_add_of_le h
  rw [load_add, take_left' (load_length m a k)]

theorem load_drop (a : Nat) {k n : Nat} (h : k ≤ n) : (load m a n).drop k = load m (a + k) (n - k) := by
  obtain ⟨r, rfl⟩ := Nat.exists_eq_add_of_le h
  rw [load_add, drop_left' (load_length m a k), Nat.add_sub_cancel_left]

theorem load_store_of_disjoint (bytes : List UInt8)
    (h : b + n ≤ a ∨ a + bytes.length ≤ b) : load (store m a bytes) b n = load m b n :=
  load_congr fun _ _ => store_outside m bytes (by omega)

theorem copy_outside (a b : Nat) (h : i < a ∨ a + n ≤ i) : copy m a b n i = m i :=
  store_outside m _ (by rwa [load_length])

theorem copy_inside (a b : Nat) (h : i < n) : copy m a b n (a + i) = m (b + i) := by
  have hi : i < (load m b n).length := by rwa [load_length]
  rw [copy, store_inside m a hi]
  exact Option.some.inj ((getElem?_eq_getElem hi).symm.trans (getElem?_load h))

theorem fill_outside (a : Nat) (byte : UInt8) (h : i < a ∨ a + n ≤ i) : fill m a byte n i = m i :=
  store_outside m _ (by rwa [length_replicate])

theorem fill_inside (a : Nat) (byte : UInt8) (h : i < n) : fill m a byte n (a + i) = byte := by
  have hi : i < (List.replicate n byte).length := by rwa [length_replicate]
  rw [fill, store_inside m a hi, getElem_replicate]

theorem load32_lt (a : Nat) : load32 m a < 2 ^ 32 := by
  have h0 := (m a).toNat_lt
  have h1 := (m (a + 1)).toNat_lt
  have h2 := (m (a + 2)).toNat_lt
  have h3 := (m (a + 3)).toNat_lt
  unfold load32
  omega

end

theorem load32_congr (h : ∀ i, a ≤ i → i < a + 4 → m' i = m i) : load32 m' a = load32 m a := by
  unfold load32
  rw [h a (by omega) (by omega), h (a + 1) (by omega) (by omega), h (a + 2) (by omega) (by omega),
    h (a + 3) (by omega) (by omega)]

theorem load32_store32 (m : Memory) (a value : Nat) : load32 (store32 m a value) a = value % 2 ^ 32 := by
  have h0 : store32 m a value a = UInt8.ofNat value := store_inside m a (i := 0) (by simp [littleEndian32])
  have h1 : store32 m a value (a + 1) = UInt8.ofNat (value / 256) :=
    store_inside m a (i := 1) (by simp [littleEndian32])
  have h2 : store32 m a value (a + 2) = UInt8.ofNat (value / 65536) :=
    store_inside m a (i := 2) (by simp [littleEndian32])
  have h3 : store32 m a value (a + 3) = UInt8.ofNat (value / 16777216) :=
    store_inside m a (i := 3) (by simp [littleEndian32])
  rw [load32, h0, h1, h2, h3]
  simp only [UInt8.toNat_ofNat']
  omega

theorem store32_outside (m : Memory) (value : Nat) (h : i < a ∨ a + 4 ≤ i) : store32 m a value i = m i :=
  store_outside m _ h

theorem load32_store32_of_disjoint (m : Memory) (value : Nat) (h : b + 4 ≤ a ∨ a + 4 ≤ b) :
    load32 (store32 m a value) b = load32 m b :=
  load32_congr fun _ _ _ => store32_outside m value (by omega)

end ByteMemory

namespace FileBytes
open ByteMemory List

def resized (bytes : List UInt8) (n : Nat) : List UInt8 := bytes.take n ++ List.replicate (n - bytes.length) 0

/-- At most `n` bytes from an offset on. -/
def readAt (bytes : List UInt8) (offset n : Nat) : List UInt8 := (bytes.drop offset).take n

def writeAt (bytes : List UInt8) (offset : Nat) (data : List UInt8) : List UInt8 :=
  let room := if bytes.length < offset + data.length then resized bytes (offset + data.length) else bytes
  room.take offset ++ data ++ room.drop (offset + data.length)

variable {m m' : Memory} {a b k n offset : Nat} {bytes data : List UInt8}

@[simp] theorem length_resized (bytes : List UInt8) (n : Nat) : (resized bytes n).length = n := by
  unfold resized
  rw [length_append, length_take, length_replicate]
  omega

theorem load_resized (h : ∀ i < n, m' (b + i) = if i < k then m (a + i) else 0) :
    load m' b n = resized (load m a k) n := by
  apply ext_getElem?
  intro i
  unfold resized
  rw [load_length]
  by_cases inside : i < n
  · rw [getElem?_load inside, h i inside]
    by_cases old : i < k
    · rw [if_pos old, getElem?_append_left (by rw [length_take, load_length]; omega),
        getElem?_take_of_lt inside, getElem?_load old]
    · rw [if_neg old, getElem?_append_right (by rw [length_take, load_length]; omega),
        getElem?_replicate_of_lt (by rw [length_take, load_length]; omega)]
  · rw [getElem?_eq_none (by rw [load_length]; omega), getElem?_eq_none]
    rw [length_append, length_take, load_length, length_replicate]
    omega

theorem load_store_within (m : Memory) (a : Nat) (fits : offset + data.length ≤ n) :
    load (store m (a + offset) data) a n =
      (load m a n).take offset ++ data ++ (load m a n).drop (offset + data.length) := by
  obtain ⟨rest, rfl⟩ := Nat.exists_eq_add_of_le fits
  rw [load_add, load_add, add_assoc offset, load_take m a (Nat.le_add_right _ _), ← add_assoc offset,
    load_drop m a (Nat.le_add_right _ _), Nat.add_sub_cancel_left, load_store,
    load_store_of_disjoint m data (.inl (Nat.le_refl _)), load_store_of_disjoint m data (.inr (by omega))]

theorem load_readAt (m : Memory) (a : Nat) (inside : offset ≤ n) :
    load m (a + offset) (min k (n - offset)) = readAt (load m a n) offset k := by
  unfold readAt
  rw [load_drop m a inside, ← load_take m (a + offset) (Nat.min_le_right k _), take_eq_take_iff, load_length]
  omega

end FileBytes
