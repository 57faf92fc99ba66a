import Mathlib.Data.Nat.Bitwise

/-! Big-endian bytes of fixed-width words: writing and then reading a word gives
it back, and so does reading and then writing its bytes. -/
namespace ByteOrder

def bigEndian16 (value : UInt16) : List UInt8 :=
  [(value >>> 8).toUInt8, value.toUInt8]

def bigEndian32 (value : UInt32) : List UInt8 :=
  [(value >>> 24).toUInt8, (value >>> 16).toUInt8, (value >>> 8).toUInt8, value.toUInt8]

/-- The low `count` bytes of a value, the low one first. -/
def littleEndian (count value : Nat) : List UInt8 :=
  (List.range count).map fun i => UInt8.ofNat (value / 256 ^ i)

def fromLittleEndian (bytes : List UInt8) : Nat := bytes.foldr (fun byte value => byte.toNat + 256 * value) 0

def fromBigEndian16 (b0 b1 : UInt8) : UInt16 :=
  (b0.toUInt16 <<< 8) ||| b1.toUInt16

variable (b0 b1 b2 b3 : UInt8)

def fromBigEndian32 : UInt32 :=
  (b0.toUInt32 <<< 24) ||| (b1.toUInt32 <<< 16) ||| (b2.toUInt32 <<< 8) ||| b3.toUInt32

variable (value : UInt32)

def littleEndian32 : List UInt8 :=
  [value.toUInt8, (value >>> 8).toUInt8, (value >>> 16).toUInt8, (value >>> 24).toUInt8]

def fromLittleEndian32 : UInt32 :=
  b0.toUInt32 ||| (b1.toUInt32 <<< 8) ||| (b2.toUInt32 <<< 16) ||| (b3.toUInt32 <<< 24)

theorem fromLittleEndian_write (count value : Nat) :
    fromLittleEndian (littleEndian count value) = value % 256 ^ count := by
  induction count generalizing value with
  | zero => exact (Nat.mod_one value).symm
  | succ count ih =>
    have rest : littleEndian (count + 1) value = UInt8.ofNat value :: littleEndian count (value / 256) := by
      unfold littleEndian
      rw [List.range_succ_eq_map, List.map_cons, List.map_map, Nat.pow_zero, Nat.div_one]
      refine congrArg _ (List.map_congr_left fun i _ => ?_)
      rw [Function.comp_apply, Nat.div_div_eq_div_mul, Nat.pow_succ']
    rw [rest, Nat.pow_succ', Nat.mod_mul, ← ih]
    rfl

@[simp] theorem bigEndian16_length (value : UInt16) : (bigEndian16 value).length = 2 := rfl

@[simp] theorem bigEndian32_length : (bigEndian32 value).length = 4 := rfl

theorem shiftLeft_or_of_lt {high low i : Nat} (h : low < 2 ^ i) : high <<< i ||| low = high * 2 ^ i + low := by
  rw [← Nat.shiftLeft_add_eq_or_of_lt h, Nat.shiftLeft_eq]

theorem fromBigEndian16_toNat (b0 b1 : UInt8) : (fromBigEndian16 b0 b1).toNat = b0.toNat * 256 + b1.toNat := by
  have h0 := b0.toNat_lt
  have h1 := b1.toNat_lt
  simp only [fromBigEndian16, UInt16.toNat_or, UInt16.toNat_shiftLeft, UInt8.toNat_toUInt16]
  rw [Nat.mod_eq_of_lt (by simp [Nat.shiftLeft_eq]; omega)]
  exact shiftLeft_or_of_lt (i := 8) h1

theorem fromBigEndian32_toNat : (fromBigEndian32 b0 b1 b2 b3).toNat =
      b0.toNat * 16777216 + b1.toNat * 65536 + b2.toNat * 256 + b3.toNat := by
  have h0 := b0.toNat_lt
  have h1 := b1.toNat_lt
  have h2 := b2.toNat_lt
  have h3 := b3.toNat_lt
  have e0 : (b0.toUInt32 <<< 24).toNat = (b0.toNat <<< 8) <<< 16 := by
    simp only [UInt32.toNat_shiftLeft, UInt8.toNat_toUInt32, ← Nat.shiftLeft_add]
    exact Nat.mod_eq_of_lt (by simp [Nat.shiftLeft_eq]; omega)
  have e1 : (b1.toUInt32 <<< 16).toNat = b1.toNat <<< 16 := by
    simp only [UInt32.toNat_shiftLeft, UInt8.toNat_toUInt32]
    exact Nat.mod_eq_of_lt (by simp [Nat.shiftLeft_eq]; omega)
  have e2 : (b2.toUInt32 <<< 8).toNat = b2.toNat <<< 8 := by
    simp only [UInt32.toNat_shiftLeft, UInt8.toNat_toUInt32]
    exact Nat.mod_eq_of_lt (by simp [Nat.shiftLeft_eq]; omega)
  have low : (b2.toNat <<< 8 ||| b3.toNat) = b2.toNat * 256 + b3.toNat := shiftLeft_or_of_lt (i := 8) h3
  have high : (b0.toNat <<< 8 ||| b1.toNat) = b0.toNat * 256 + b1.toNat := shiftLeft_or_of_lt (i := 8) h1
  calc (fromBigEndian32 b0 b1 b2 b3).toNat
      = (b0.toNat <<< 8 ||| b1.toNat) <<< 16 ||| (b2.toNat <<< 8 ||| b3.toNat) := by
        simp only [fromBigEndian32, UInt32.toNat_or, e0, e1, e2, UInt8.toNat_toUInt32,
          Nat.shiftLeft_or_distrib, Nat.or_assoc]
    _ = (b0.toNat * 256 + b1.toNat) * 2 ^ 16 + (b2.toNat * 256 + b3.toNat) := by
        rw [high, low, shiftLeft_or_of_lt (by omega)]
    _ = _ := by omega

@[simp] theorem fromBigEndian16_write (value : UInt16) :
    fromBigEndian16 (value >>> 8).toUInt8 value.toUInt8 = value := by
  have h := value.toNat_lt
  apply UInt16.toNat_inj.mp
  rw [fromBigEndian16_toNat]
  simp only [UInt16.toNat_toUInt8, UInt16.toNat_shiftRight]
  change value.toNat >>> 8 % 256 * 256 + value.toNat % 256 = _
  rw [Nat.shiftRight_eq_div_pow]
  omega

@[simp] theorem fromBigEndian32_write :
    fromBigEndian32 (value >>> 24).toUInt8 (value >>> 16).toUInt8 (value >>> 8).toUInt8
      value.toUInt8 = value := by
  have h := value.toNat_lt
  apply UInt32.toNat_inj.mp
  rw [fromBigEndian32_toNat]
  simp only [UInt32.toNat_toUInt8, UInt32.toNat_shiftRight]
  change value.toNat >>> 24 % 256 * 16777216 + value.toNat >>> 16 % 256 * 65536 +
    value.toNat >>> 8 % 256 * 256 + value.toNat % 256 = _
  simp only [Nat.shiftRight_eq_div_pow]
  omega

@[simp] theorem bigEndian16_read (b0 b1 : UInt8) :
    bigEndian16 (fromBigEndian16 b0 b1) = [b0, b1] := by
  have h0 := b0.toNat_lt
  have h1 := b1.toNat_lt
  simp only [bigEndian16, List.cons.injEq, and_true]
  constructor <;> apply UInt8.toNat_inj.mp <;>
    simp only [UInt16.toNat_toUInt8, UInt16.toNat_shiftRight, fromBigEndian16_toNat]
  · change (b0.toNat * 256 + b1.toNat) >>> 8 % 256 = _
    rw [Nat.shiftRight_eq_div_pow]
    omega
  · omega

@[simp] theorem bigEndian32_read :
    bigEndian32 (fromBigEndian32 b0 b1 b2 b3) = [b0, b1, b2, b3] := by
  have h0 := b0.toNat_lt
  have h1 := b1.toNat_lt
  have h2 := b2.toNat_lt
  have h3 := b3.toNat_lt
  simp only [bigEndian32, List.cons.injEq, and_true]
  refine ⟨?_, ?_, ?_, ?_⟩ <;> apply UInt8.toNat_inj.mp <;>
    simp only [UInt32.toNat_toUInt8, UInt32.toNat_shiftRight, fromBigEndian32_toNat]
  · change (_ : Nat) >>> 24 % 256 = _
    rw [Nat.shiftRight_eq_div_pow]
    omega
  · change (_ : Nat) >>> 16 % 256 = _
    rw [Nat.shiftRight_eq_div_pow]
    omega
  · change (_ : Nat) >>> 8 % 256 = _
    rw [Nat.shiftRight_eq_div_pow]
    omega
  · omega

theorem fromLittleEndian32_eq : fromLittleEndian32 b0 b1 b2 b3 = fromBigEndian32 b3 b2 b1 b0 := by
  rw [fromLittleEndian32, fromBigEndian32, UInt32.or_comm, UInt32.or_comm _ (b2.toUInt32 <<< 16),
    UInt32.or_comm b0.toUInt32, UInt32.or_assoc, UInt32.or_assoc]

@[simp] theorem fromLittleEndian32_write :
    fromLittleEndian32 value.toUInt8 (value >>> 8).toUInt8 (value >>> 16).toUInt8
      (value >>> 24).toUInt8 = value := by
  rw [fromLittleEndian32_eq, fromBigEndian32_write]

end ByteOrder
