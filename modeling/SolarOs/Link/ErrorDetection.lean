import SolarOs.Library.ShiftRegister
import SolarOs.Link.Frame

/-! The CRC of a Link frame finds every error that spans no more than its own width. -/
namespace SolarOs.Link
open ByteOrder ShiftRegister List BitVec

/-- The polynomial of `link_crc16` below its leading term. -/
def crcGenerator : BitVec 16 := 0x1021

def byteBits (byte : UInt8) : List Bool := (List.range 8).map byte.toBitVec.getMsbD

def frameBits (frame : List UInt8) : List Bool := frame.flatMap byteBits

/-- The frame as it arrives when the line turns over the bits that `error` has set. -/
def corrupt (frame error : List UInt8) : List UInt8 := List.zipWith (· ^^^ ·) frame error

theorem crc_high (crc : UInt16) : crc &&& 0x8000 ≠ 0 ↔ crc.toBitVec.msb = true := by
  have masked : (crc &&& 0x8000).toBitVec = if crc.toBitVec.msb = true then BitVec.twoPow 16 15 else 0 := by
    rw [msb_eq_getLsbD_last]
    exact and_twoPow crc.toBitVec 15
  rw [ne_eq, ← UInt16.toBitVec_inj, masked]
  by_cases high : crc.toBitVec.msb = true
  · rw [if_pos high]
    exact ⟨fun _ => high, fun _ => by decide⟩
  · rw [if_neg high]
    exact ⟨fun set => absurd rfl set, fun set => absurd set high⟩

theorem linkCrc16Bit_shift (crc : UInt16) : (linkCrc16Bit crc).toBitVec = shift crcGenerator crc.toBitVec := by
  unfold linkCrc16Bit shift
  by_cases high : crc.toBitVec.msb = true
  · rw [if_pos ((crc_high crc).mpr high), if_pos high]
    rfl
  · rw [if_neg (mt (crc_high crc).mp high), if_neg high]
    rfl

theorem linkCrc16Bit_iterate (n : Nat) (crc : UInt16) :
    (linkCrc16Bit^[n] crc).toBitVec = (shift crcGenerator)^[n] crc.toBitVec := by
  induction n generalizing crc with
  | zero => rfl
  | succ n ih => rw [Function.iterate_succ_apply, ih, linkCrc16Bit_shift, ← Function.iterate_succ_apply]

theorem byteBits_length (byte : UInt8) : (byteBits byte).length = 8 := by
  rw [byteBits, length_map, length_range]

theorem byteBits_place (byte : UInt8) : place 16 (byteBits byte) = (byte.toUInt16 <<< 8).toBitVec := by
  have every : ∀ value < 256, place 16 (byteBits (UInt8.ofNat value)) =
      ((UInt8.ofNat value).toUInt16 <<< 8).toBitVec := by decide +kernel
  have here := every byte.toNat byte.toNat_lt
  rwa [UInt8.ofNat_toNat] at here

theorem linkCrc16Byte_run (crc : UInt16) (data : List UInt8) :
    (data.foldl linkCrc16Byte crc).toBitVec = run crcGenerator crc.toBitVec (frameBits data) := by
  induction data generalizing crc with
  | nil => rfl
  | cons byte data ih =>
    have one : (linkCrc16Byte crc byte).toBitVec = run crcGenerator crc.toBitVec (byteBits byte) := by
      rw [run_place _ (by rw [byteBits_length]; decide), byteBits_length, byteBits_place, linkCrc16Byte,
        linkCrc16Bit_iterate]
      rfl
    rw [foldl_cons, ih, one, ← run_append]
    rfl

theorem byteBits_xor (a b : UInt8) : byteBits (a ^^^ b) = List.zipWith (· ^^ ·) (byteBits a) (byteBits b) := by
  rw [byteBits, byteBits, byteBits, zipWith_map, zipWith_self]
  apply map_congr_left
  intro i _
  exact getMsbD_xor

theorem frameBits_corrupt (frame error : List UInt8) (same : error.length = frame.length) :
    frameBits (corrupt frame error) = List.zipWith (· ^^ ·) (frameBits frame) (frameBits error) := by
  induction frame generalizing error with
  | nil =>
    obtain rfl := length_eq_zero_iff.mp same
    rfl
  | cons byte frame ih =>
    cases error with
    | nil => exact nomatch same
    | cons mask error =>
      have rest := ih error (Nat.succ.inj same)
      unfold corrupt frameBits at *
      rw [zipWith_cons_cons, flatMap_cons, flatMap_cons, flatMap_cons, rest, byteBits_xor,
        zipWith_append (by rw [byteBits_length, byteBits_length])]

theorem frameBits_length (frame : List UInt8) : (frameBits frame).length = 8 * frame.length := by
  induction frame with
  | nil => rfl
  | cons byte frame ih =>
    rw [frameBits, flatMap_cons, length_append, byteBits_length, ← frameBits, ih, length_cons]
    omega

theorem bytes_apart (high low : UInt8) (i : Nat) :
    (high.toUInt16 <<< 8).toBitVec.getLsbD i = false ∨ low.toUInt16.toBitVec.getLsbD i = false := by
  by_cases upper : 8 ≤ i
  · right
    rw [UInt8.toBitVec_toUInt16, getLsbD_setWidth, getLsbD_of_ge low.toBitVec i upper, Bool.and_false]
  · left
    have every : ∀ value < 256, ∀ i < 8, ((UInt8.ofNat value).toUInt16 <<< 8).toBitVec.getLsbD i = false := by
      decide +kernel
    have here := every high.toNat high.toNat_lt i (Nat.lt_of_not_le upper)
    rwa [UInt8.ofNat_toNat] at here

theorem place_word (high low : UInt8) :
    place 16 (byteBits high ++ byteBits low) = (fromBigEndian16 high low).toBitVec := by
  have lower : (low.toUInt16 <<< 8).toBitVec >>> 8 = low.toUInt16.toBitVec := by
    have every : ∀ value < 256, ((UInt8.ofNat value).toUInt16 <<< 8).toBitVec >>> 8 =
        (UInt8.ofNat value).toUInt16.toBitVec := by decide +kernel
    have here := every low.toNat low.toNat_lt
    rwa [UInt8.ofNat_toNat] at here
  rw [place_append, byteBits_place, byteBits_place, byteBits_length, lower]
  apply eq_of_getLsbD_eq
  intro i _
  rw [getLsbD_xor, fromBigEndian16, UInt16.toBitVec_or, getLsbD_or]
  rcases bytes_apart high low i with off | off
  · rw [off, Bool.false_xor, Bool.false_or]
  · rw [off, Bool.xor_false, Bool.or_false]

theorem crc_passes_iff {frame : List UInt8} (long : crcSize ≤ frame.length) :
    linkReadU16 (frame.drop (frame.length - crcSize)) = linkCrc16 (frame.take (frame.length - crcSize)) ↔
      run crcGenerator 0xffff (frameBits frame) = 0 := by
  have two : (frame.drop (frame.length - crcSize)).length = 2 := by
    rw [length_drop, Nat.sub_sub_self long]
    rfl
  obtain ⟨high, low, field⟩ := length_eq_two.mp two
  have read : linkReadU16 [high, low] = fromBigEndian16 high low := rfl
  have split : frameBits frame = frameBits (frame.take (frame.length - crcSize)) ++ (byteBits high ++ byteBits low) := by
    conv_lhs => rw [← take_append_drop (frame.length - crcSize) frame, field]
    rw [frameBits, flatMap_append]
    simp [frameBits]
  have computed := linkCrc16Byte_run 0xffff (frame.take (frame.length - crcSize))
  have odd : crcGenerator.getLsbD 0 = true := by decide
  rw [field, read, split, run_append, run_place _ (by simp [byteBits_length]), place_word]
  have computed : run crcGenerator 0xffff (frameBits (frame.take (frame.length - crcSize))) =
      (linkCrc16 (frame.take (frame.length - crcSize))).toBitVec := computed.symm
  rw [computed]
  constructor
  · intro same
    rw [same]
    have gone : (linkCrc16 (frame.take (frame.length - crcSize))).toBitVec ^^^
        (linkCrc16 (frame.take (frame.length - crcSize))).toBitVec = 0 := BitVec.xor_self
    rw [gone, iterate_zero]
  · intro clear
    by_contra other
    refine iterate_ne_zero odd ?_ _ clear
    intro none
    exact other (UInt16.toBitVec_inj.mp (BitVec.xor_eq_zero_iff.mp none)).symm

/-- The bit of an error pattern at a position of the frame, counted in the order in which
the bits are sent. -/
def errorBit (error : List UInt8) (position : Nat) : Bool :=
  (error.getD (position / 8) 0).toBitVec.getMsbD (position % 8)

theorem frameBits_getD (error : List UInt8) (position : Nat) :
    (frameBits error).getD position false = errorBit error position := by
  unfold errorBit
  induction error generalizing position with
  | nil => simp [frameBits]
  | cons byte error ih =>
    rw [frameBits, flatMap_cons, ← frameBits]
    by_cases inside : position < 8
    · rw [getD_append _ _ _ _ (by rwa [byteBits_length]), Nat.div_eq_of_lt inside, Nat.mod_eq_of_lt inside,
        getD_cons_zero, byteBits, getD_eq_getElem _ _ (by simpa using inside), getElem_map,
        getElem_range]
    · rw [getD_append_right _ _ _ _ (by rw [byteBits_length]; omega), byteBits_length, ih]
      obtain ⟨behind, rfl⟩ := Nat.exists_eq_add_of_le (Nat.le_of_not_lt inside)
      rw [Nat.add_sub_cancel_left, Nat.add_div_left _ (by decide), getD_cons_succ, Nat.add_mod_left]

/-- A frame that was encoded and then hit by an error of at most 16 consecutive bits,
wherever it lies, is refused for its CRC. -/
theorem burst_refused {message : Message} {frame error : List UInt8} (encoded : encode message = .ok frame)
    (same : error.length = frame.length) {start : Nat}
    (burst : ∀ position, errorBit error position = true → start ≤ position ∧ position < start + 16)
    (hit : ∃ position, errorBit error position = true) : decode (corrupt frame error) = .error .invalidCrc := by
  obtain ⟨⟨-, -, short, -⟩, rfl⟩ := encode_eq_ok.mp encoded
  have length : (corrupt (rawFrame message) error).length = headerSize + message.payload.length + crcSize := by
    rw [corrupt, length_zipWith, same, Nat.min_self, rawFrame_length]
  have fits : ¬((corrupt (rawFrame message) error).length < headerSize + crcSize ∨
      frameMax < (corrupt (rawFrame message) error).length) := by
    rw [length]
    simp only [payloadMax, headerSize, crcSize, frameMax] at *
    omega
  have long (list : List UInt8) (n : list.length = headerSize + message.payload.length + crcSize) :
      crcSize ≤ list.length := by omega
  have intact : run crcGenerator 0xffff (frameBits (rawFrame message)) = 0 := by
    refine (crc_passes_iff (long _ (rawFrame_length message))).mp ?_
    have offset : (rawFrame message).length - crcSize = (frameBody message).length := by
      rw [rawFrame_length, frameBody_length, Nat.add_sub_cancel]
    rw [offset, rawFrame, drop_left, take_left]
    exact append_nil (linkWriteU16 _) ▸ linkReadU16_write (linkCrc16 (frameBody message)) []
  have hurt : run crcGenerator 0xffff (frameBits (corrupt (rawFrame message) error)) ≠ 0 := by
    obtain ⟨position, set⟩ := hit
    have lengths : (frameBits (rawFrame message)).length = (frameBits error).length := by
      rw [frameBits_length, frameBits_length, same]
    have apart := @run_xor 16 crcGenerator 0xffff 0 _ _ lengths
    have bursts : Burst 16 start (frameBits error) := by
      intro i on
      rw [frameBits_getD] at on
      exact burst i on
    have seed : (0xffff : BitVec 16) ^^^ 0 = 0xffff := xor_zero
    have left : (0 : BitVec 16) ^^^ run crcGenerator 0 (frameBits error) = run crcGenerator 0 (frameBits error) :=
      BitVec.zero_xor
    rw [seed, intact, left] at apart
    rw [frameBits_corrupt _ _ same, apart]
    exact run_burst (by decide) bursts ((frameBits_getD error position).trans set)
  unfold decode
  rw [if_neg fits, if_pos fun passes => hurt ((crc_passes_iff (long _ length)).mp passes)]

/-- Nine bits that straddle the last payload byte and the CRC field of the sample frame. -/
theorem burst_refused_sample :
    decode (corrupt (rawFrame sampleMessage) (List.replicate 13 0 ++ [0x01, 0xff, 0])) = .error .invalidCrc := by
  refine @burst_refused sampleMessage _ _ (encode_eq_ok.mpr ⟨by decide, rfl⟩) (by decide) 111 ?_ ⟨111, by decide⟩
  intro position set
  by_cases inside : position < 128
  · have every : ∀ i < 128, errorBit (List.replicate 13 0 ++ [0x01, 0xff, 0]) i = true → 111 ≤ i ∧ i < 111 + 16 := by
      decide
    exact every position inside set
  · rw [errorBit, getD_eq_default _ _ (by simp; omega)] at set
    simp at set

end SolarOs.Link
