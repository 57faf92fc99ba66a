import Mathlib.Data.List.Basic
import SolarOs.Library.CyclicCode

/-! POCSAG code words: 21 data bits, a BCH(31,21) check and an even parity bit. -/
namespace SolarOs.Pocsag
open CyclicCode BitVec

/-- `uint32_t`. -/
abbrev Word := BitVec 32

def idleCodeword : Word := 0x7A89C197
def syncCodeword : Word := 0x7CD215D8
def bchGenerator : Word := 0x769

section
variable (value : Word)

def bchStep (bit : Nat) : Word :=
  if value &&& (1#32 <<< bit) ≠ 0#32 then value ^^^ (bchGenerator <<< (bit - 10)) else value

/-- `for (int bit = 30; bit >= 10; bit--)`. -/
def bchRemainder : Word :=
  (List.range 21).foldl (fun value i => bchStep value (30 - i)) value

/-- `__builtin_popcount(word) & 1`. -/
def oddParity (word : Word) : Bool := word.cpop.toNat % 2 = 1

def codewordValid (word : Word) : Bool :=
  if oddParity word then false
  else bchRemainder (word >>> 1) &&& 0x3FF#32 = 0#32

def encodeCodeword (data : Word) : Word :=
  let value := bchRemainder (data >>> 1)
  let word := data ||| ((value &&& 0x3FF#32) <<< 1)
  if oddParity word then word ||| 1#32 else word

/-- Tries the received word, then every single and double bit flip in the code's order. -/
def correctCodeword (received : Word) : Option (Word × Nat) :=
  if codewordValid received then some (received, 0)
  else
    (List.range 32).findSome? fun first =>
      let oneBit := received ^^^ (1#32 <<< first)
      if codewordValid oneBit then some (oneBit, 1)
      else
        (List.range' (first + 1) (31 - first)).findSome? fun second =>
          let twoBits := oneBit ^^^ (1#32 <<< second)
          if codewordValid twoBits then some (twoBits, 2) else none

def DataWord (data : Word) : Prop := ∀ i, i < 11 → data.getLsbD i = false

theorem bit_test {bit : Nat} (h : bit < 32) : value &&& (1#32 <<< bit) ≠ 0#32 ↔ value.getLsbD bit = true := by
  have single : 1#32 <<< bit = BitVec.twoPow 32 bit := (twoPow_eq 32 bit).symm
  rw [single, and_twoPow]
  cases hb : value.getLsbD bit with
  | false => simp
  | true =>
    have nonzero : BitVec.twoPow 32 bit ≠ 0#32 := by
      intro zero
      have read := congrArg (fun word : Word => word.getLsbD bit) zero
      simp [h] at read
    simpa using nonzero

theorem bchStep_eq {bit : Nat} (h : bit < 32) : bchStep value bit = step bchGenerator 10 value bit := by
  simp only [bchStep, step, bit_test value h]

theorem bchRemainder_eq : bchRemainder value = remainder bchGenerator 10 21 value := by
  have tail (n : Nat) (hn : n ≤ 21) (value : Word) :
      (List.range' (21 - n) n).foldl (fun value i => bchStep value (30 - i)) value =
        remainder bchGenerator 10 n value := by
    induction n generalizing value with
    | zero => rfl
    | succ n ih =>
      have next : 21 - (n + 1) + 1 = 21 - n := by omega
      have bit : 30 - (21 - (n + 1)) = 10 + n := by omega
      rw [List.range'_succ, List.foldl_cons, next, bit, bchStep_eq value (by omega), remainder]
      exact ih (by omega) _
  have whole := tail 21 (Nat.le_refl _) value
  rwa [show 21 - 21 = 0 from rfl, ← List.range_eq_range'] at whole

end

theorem bchGenerator_leading : Leading bchGenerator 10 where
  top := by decide
  below := by
    intro i hi
    by_cases inside : i < 32
    · have all : ∀ i, i < 32 → 11 ≤ i → bchGenerator.getLsbD i = false := by decide
      exact all i inside hi
    · exact getLsbD_of_ge _ _ (by omega)

theorem shiftRight_below (word : Word) : Below 31 (word >>> 1) := by
  intro i hi
  rw [getLsbD_ushiftRight]
  exact getLsbD_of_ge _ _ (by omega)

theorem bchRemainder_below (word : Word) : Below 10 (bchRemainder (word >>> 1)) := by
  rw [bchRemainder_eq]
  exact bchGenerator_leading.remainder_below (n := 21) (shiftRight_below word)

theorem bchRemainder_and (word : Word) : bchRemainder (word >>> 1) &&& 0x3FF#32 = bchRemainder (word >>> 1) := by
  apply eq_of_getLsbD_eq
  intro i hi
  rw [getLsbD_and]
  by_cases low : i < 10
  · have mask : ∀ i, i < 10 → (0x3FF#32).getLsbD i = true := by decide
    rw [mask i low, Bool.and_true]
  · rw [bchRemainder_below word i (by omega), Bool.false_and]

def checkedWord (data : Word) : Word := data ||| (bchRemainder (data >>> 1) <<< 1)

theorem encodeCodeword_eq (data : Word) : encodeCodeword data =
      if oddParity (checkedWord data) then checkedWord data ||| 1#32 else checkedWord data := by
  rw [encodeCodeword, bchRemainder_and]
  rfl

variable {data : Word}

theorem checkedWord_bit_zero (h : DataWord data) : (checkedWord data).getLsbD 0 = false := by
  rw [checkedWord, getLsbD_or, h 0 (by decide), getLsbD_shiftLeft]
  rfl

theorem checkedWord_bit_high (data : Word) {i : Nat} (hi : 11 ≤ i) : (checkedWord data).getLsbD i = data.getLsbD i := by
  have clear := bchRemainder_below data (i - 1) (by omega)
  simp [checkedWord, getLsbD_or, getLsbD_shiftLeft, clear]

theorem or_one_bit (word : Word) {i : Nat} (hi : i ≠ 0) : (word ||| 1#32).getLsbD i = word.getLsbD i := by
  rw [getLsbD_or]
  simp [getLsbD_one, hi]

theorem encodeCodeword_bit (data : Word) {i : Nat} (hi : 11 ≤ i) :
    (encodeCodeword data).getLsbD i = data.getLsbD i := by
  rw [encodeCodeword_eq]
  split
  · rw [or_one_bit _ (by omega), checkedWord_bit_high data hi]
  · exact checkedWord_bit_high data hi

theorem encodeCodeword_shift (data : Word) {n : Nat} (hn : 11 ≤ n) : encodeCodeword data >>> n = data >>> n := by
  apply eq_of_getLsbD_eq
  intro i _
  rw [getLsbD_ushiftRight, getLsbD_ushiftRight, encodeCodeword_bit data (by omega)]

theorem cpopNatRec_or_one {word : Word} (h : word.getLsbD 0 = false) (n acc : Nat) :
    (word ||| 1#32).cpopNatRec (n + 1) acc = word.cpopNatRec (n + 1) acc + 1 := by
  induction n generalizing acc with
  | zero =>
    have set : (word ||| 1#32).getLsbD 0 = true := by simp
    simp only [cpopNatRec_succ, cpopNatRec_zero_self, set, h, Bool.toNat_true, Bool.toNat_false, Nat.add_zero]
  | succ n ih =>
    rw [cpopNatRec_succ, cpopNatRec_succ, or_one_bit _ (Nat.succ_ne_zero n)]
    exact ih _

theorem oddParity_or_one {word : Word} (h : word.getLsbD 0 = false) : oddParity (word ||| 1#32) = !oddParity word := by
  have count : (word ||| 1#32).cpop.toNat = word.cpop.toNat + 1 := by
    rw [toNat_cpop, toNat_cpop]
    exact cpopNatRec_or_one h 31 0
  simp only [oddParity, count]
  generalize word.cpop.toNat = set
  by_cases odd : set % 2 = 1
  · have even : (set + 1) % 2 ≠ 1 := by omega
    simp [odd, even]
  · have even : (set + 1) % 2 = 1 := by omega
    simp [odd, even]

theorem encodeCodeword_even (h : DataWord data) : oddParity (encodeCodeword data) = false := by
  rw [encodeCodeword_eq]
  split
  · next odd => rw [oddParity_or_one (checkedWord_bit_zero h), odd, Bool.not_true]
  · next even => simpa using even

theorem encodeCodeword_shift_one (h : DataWord data) :
    encodeCodeword data >>> 1 = (data >>> 1) ^^^ bchRemainder (data >>> 1) := by
  have same : encodeCodeword data >>> 1 = checkedWord data >>> 1 := by
    apply eq_of_getLsbD_eq
    intro i _
    rw [encodeCodeword_eq, getLsbD_ushiftRight, getLsbD_ushiftRight]
    split
    · exact or_one_bit _ (by omega)
    · rfl
  rw [same]
  apply eq_of_getLsbD_eq
  intro i hi
  rw [checkedWord, getLsbD_ushiftRight, getLsbD_or, getLsbD_shiftLeft, getLsbD_xor, getLsbD_ushiftRight]
  have back : 1 + i - 1 = i := by omega
  have far : ¬ 1 + i < 1 := by omega
  rw [back]
  by_cases low : i < 10
  · rw [h (1 + i) (by omega)]
    have inside : 1 + i < 32 := by omega
    simp [far, inside]
  · have clear := bchRemainder_below data i (by omega)
    rw [clear, Bool.and_false, Bool.or_false, Bool.xor_false]

theorem encodeCodeword_valid (h : DataWord data) : codewordValid (encodeCodeword data) = true := by
  have clean := bchGenerator_leading.remainder_systematic (n := 21) (shiftRight_below data)
  rw [← bchRemainder_eq, ← bchRemainder_eq, ← encodeCodeword_shift_one h] at clean
  simp only [codewordValid, encodeCodeword_even h, clean]
  decide

theorem correctCodeword_encode (h : DataWord data) :
    correctCodeword (encodeCodeword data) = some (encodeCodeword data, 0) := by
  rw [correctCodeword, encodeCodeword_valid h, if_pos rfl]

def idleData : Word := 0x7A89C000

theorem idleCodeword_eq : encodeCodeword idleData = idleCodeword := by decide +kernel

theorem encodeCodeword_idle (h : DataWord data) : encodeCodeword data = idleCodeword ↔ data = idleData := by
  constructor
  · intro same
    apply eq_of_getLsbD_eq
    intro i hi
    by_cases low : i < 11
    · have clear : ∀ i, i < 11 → idleData.getLsbD i = false := by decide
      rw [h i low, clear i low]
    · rw [← encodeCodeword_bit data (by omega), same, ← idleCodeword_eq,
        encodeCodeword_bit _ (by omega)]
  · rintro rfl
    exact idleCodeword_eq

end SolarOs.Pocsag
