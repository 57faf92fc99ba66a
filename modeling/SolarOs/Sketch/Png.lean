import Mathlib.Data.List.Induction
import SolarOs.Library.Png
import SolarOs.Sketch.Canvas

/-! The PNG exporter: checksums kept while the bytes are written, lengths announced before them,
the pixel data in stored deflate blocks. -/
namespace SolarOs.Sketch
open ByteOrder List

/-- A file opened for writing: what was written, the positions at which a write succeeds, and
its error indicator. -/
structure File where
  written : List UInt8
  accepts : Nat → Bool
  error : Bool

def writeByte (f : File) (value : UInt8) : Option File :=
  if f.accepts f.written.length then some { f with written := f.written ++ [value] } else none

/-- `fwrite` of all the bytes. -/
def fwrite (f : File) (bytes : List UInt8) : Option File := bytes.foldlM writeByte f

def crc32Bit (crc : UInt32) : UInt32 := (crc >>> 1) ^^^ (0xedb88320 &&& (0 - (crc &&& 1)))

def crc32Update (crc : UInt32) (byte : UInt8) : UInt32 := crc32Bit^[8] (crc ^^^ byte.toUInt32)

def writeBe32 (f : File) (value : UInt32) : Option File := do
  let f ← writeByte f (value >>> 24).toUInt8
  let f ← writeByte f (value >>> 16).toUInt8
  let f ← writeByte f (value >>> 8).toUInt8
  writeByte f value.toUInt8

def chunkBegin (f : File) (length : UInt32) (type : List UInt8) : Option (File × UInt32) := do
  let f ← writeBe32 f length
  let f ← fwrite f type
  some (f, type.foldl crc32Update 0xffffffff)

def chunkByte (s : File × UInt32) (byte : UInt8) : Option (File × UInt32) := do
  let f ← writeByte s.1 byte
  some (f, crc32Update s.2 byte)

def chunkEnd (s : File × UInt32) : Option File := writeBe32 s.1 (s.2 ^^^ 0xffffffff)

section
variable (c : Canvas)

def pngSample (rawOffset : Nat) : UInt8 :=
  let stride := (c.width.toNat + 3) / 4 + 1
  let column := rawOffset % stride
  if column = 0 then 0
  else
    let y := rawOffset / stride
    let value (pixel : Nat) : UInt8 :=
      let x := (column - 1) * 4 + pixel
      if x < c.width.toNat then c.get x y else 0
    (value 0 <<< 6) ||| (value 1 <<< 4) ||| (value 2 <<< 2) ||| value 3

def paletteRgb888 : List UInt32 := [0xffffff, 0xe53935, 0x1e63d5, 0x000000]

def ihdr : List UInt8 :=
  [0, 0, (c.width >>> 8).toUInt8, c.width.toUInt8, 0, 0, (c.height >>> 8).toUInt8, c.height.toUInt8,
    2, 3, 0, 0, 0]

def plte : List UInt8 :=
  paletteRgb888.flatMap fun (rgb : UInt32) => [(rgb >>> 16).toUInt8, (rgb >>> 8).toUInt8, rgb.toUInt8]

structure Idat where
  chunk : File × UInt32
  adlerA : UInt32
  adlerB : UInt32

/-- The inner loop. -/
def idatBytes (c : Canvas) : Nat → Nat → Idat → Option Idat
  | _, 0, s => some s
  | rawOffset, n + 1, s => do
    let byte := pngSample c rawOffset
    let chunk ← chunkByte s.chunk byte
    let a := (s.adlerA + byte.toUInt32) % 65521
    idatBytes c (rawOffset + 1) n ⟨chunk, a, (s.adlerB + a) % 65521⟩

def blockLength (remaining : Nat) : UInt16 :=
  UInt16.ofNat (if remaining > 65535 then 65535 else remaining)

theorem blockLength_toNat (remaining : Nat) : (blockLength remaining).toNat = min 65535 remaining := by
  rw [blockLength]
  split
  · rw [Nat.min_eq_left (by omega)]
    rfl
  · rw [Nat.min_eq_right (by omega)]
    exact UInt16.toNat_ofNat_of_lt' (Nat.lt_succ_of_le (by omega))

/-- The loop of the blocks. -/
def idatBlocks (c : Canvas) (rawLen rawOffset : Nat) (s : Idat) : Option Idat :=
  if _more : rawOffset < rawLen then do
    let remaining := rawLen - rawOffset
    let length := blockLength remaining
    let inverse := ~~~length
    let final : UInt8 := if remaining ≤ 65535 then 1 else 0
    let chunk ← [final, length.toUInt8, (length >>> 8).toUInt8, inverse.toUInt8,
      (inverse >>> 8).toUInt8].foldlM chunkByte s.chunk
    let s ← idatBytes c rawOffset length.toNat { s with chunk }
    idatBlocks c rawLen (rawOffset + length.toNat) s
  else some s
termination_by rawLen - rawOffset
decreasing_by
  rw [blockLength_toNat]
  omega

def rawLength : Nat := ((c.width.toNat + 3) / 4 + 1) * c.height.toNat

/-- Everything that is written; nothing when a write fails. -/
def writeChunks (f : File) : Option File := do
  let f ← fwrite f Png.signature
  let s ← chunkBegin f 13 Png.typeHeader
  let s ← (ihdr c).foldlM chunkByte s
  let f ← chunkEnd s
  let s ← chunkBegin f 12 Png.typePalette
  let s ← plte.foldlM chunkByte s
  let f ← chunkEnd s
  let rawLen := rawLength c
  let blocks := rawLen / 65535 + if rawLen % 65535 ≠ 0 then 1 else 0
  let idatLength := 2 + rawLen + blocks * 5 + 4
  if idatLength > 0xffffffff then none
  else
    let s ← chunkBegin f (UInt32.ofNat idatLength) Png.typeData
    let s ← chunkByte s 0x78
    let s ← chunkByte s 0x01
    let data ← idatBlocks c rawLen 0 ⟨s, 1, 0⟩
    let adler := (data.adlerB <<< 16) ||| data.adlerA
    let s ← [(adler >>> 24).toUInt8, (adler >>> 16).toUInt8, (adler >>> 8).toUInt8,
      adler.toUInt8].foldlM chunkByte data.chunk
    let f ← chunkEnd s
    let s ← chunkBegin f 0 Png.typeEnd
    chunkEnd s

def writePng (f : File) (c : Canvas) : Except EspErr File :=
  if c.width = 0 ∨ c.height = 0 then .error .invalidArg
  else
    match writeChunks c f with
    | none => .error .fail
    | some f => if f.error then .error .fail else .ok f

def Canvas.image : Png.Image where
  width := c.width.toUInt32
  height := c.height.toUInt32
  palette := [(0xff, 0xff, 0xff), (0xe5, 0x39, 0x35), (0x1e, 0x63, 0xd5), (0, 0, 0)]
  rows := (List.range c.height.toNat).map fun y : Nat =>
    (List.range c.width.toNat).map fun x : Nat => c.get x y

theorem fwrite_append (f : File) (a b : List UInt8) :
    fwrite f (a ++ b) = (fwrite f a).bind fun f => fwrite f b := foldlM_append

theorem writeBe32_eq (f : File) (value : UInt32) : writeBe32 f value = fwrite f (bigEndian32 value) := by
  simp [writeBe32, fwrite, bigEndian32]

variable (bytes : List UInt8)

theorem foldlM_chunkByte (s : File × UInt32) :
    bytes.foldlM chunkByte s = (fwrite s.1 bytes).map fun f => (f, bytes.foldl crc32Update s.2) := by
  induction bytes generalizing s with
  | nil => rfl
  | cons byte bytes ih =>
    simp only [fwrite, foldlM_cons, foldl_cons, chunkByte, Option.bind_eq_bind]
    cases writeByte s.1 byte with
    | none => rfl
    | some f => exact ih _

theorem reverse_xor {w : Nat} (x y : BitVec w) : (x ^^^ y).reverse = x.reverse ^^^ y.reverse := by
  apply BitVec.eq_of_getLsbD_eq
  intro i inside
  simp only [BitVec.getLsbD_reverse, BitVec.getLsbD_xor, BitVec.getMsbD_xor]

theorem reverse_ushiftRight {w : Nat} (x : BitVec w) (n : Nat) : (x >>> n).reverse = x.reverse <<< n := by
  apply BitVec.eq_of_getLsbD_eq
  intro i inside
  simp only [BitVec.getLsbD_reverse, BitVec.getMsbD_ushiftRight, BitVec.getLsbD_shiftLeft]
  simp [inside]

theorem crc32Bit_reverse (crc : UInt32) :
    (crc32Bit crc).toBitVec.reverse = ShiftRegister.shift 0x04C11DB7#32 crc.toBitVec.reverse := by
  have low : crc &&& 1 = if crc.toBitVec.getLsbD 0 = true then 1 else 0 := by
    apply UInt32.toBitVec_inj.mp
    have one : BitVec.twoPow 32 0 = 1#32 := by decide
    have bit := BitVec.and_twoPow crc.toBitVec 0
    rw [one] at bit
    rw [UInt32.toBitVec_and]
    refine bit.trans ?_
    split <;> rfl
  have first : (crc >>> 1).toBitVec.reverse = crc.toBitVec.reverse <<< 1 := reverse_ushiftRight _ 1
  have feedback : (0xedb88320 &&& (0 - (1 : UInt32))).toBitVec.reverse = 0x04C11DB7#32 := by
    decide +kernel
  have none : (0xedb88320 &&& (0 - (0 : UInt32))).toBitVec.reverse = 0#32 := by decide +kernel
  rw [crc32Bit, UInt32.toBitVec_xor, reverse_xor, first, low, ShiftRegister.shift, BitVec.msb_reverse]
  cases crc.toBitVec.getLsbD 0 with
  | true => rw [if_pos rfl, if_pos rfl, feedback]
  | false => rw [if_neg Bool.false_ne_true, if_neg Bool.false_ne_true, none, BitVec.xor_zero]

theorem place_bitsOf (byte : UInt8) : ShiftRegister.place 32 (Png.bitsOf byte) = byte.toUInt32.toBitVec.reverse := by
  apply BitVec.eq_of_getLsbD_eq
  intro j inside
  have bit := ShiftRegister.getLsbD_place (Png.bitsOf byte) (i := 31 - j) (w := 32) (by omega)
  have index : 32 - 1 - (31 - j) = j := by omega
  rw [index] at bit
  have low : byte.toUInt32.toBitVec.getMsbD j = byte.toBitVec.getLsbD (31 - j) := by
    rw [UInt8.toBitVec_toUInt32, BitVec.getMsbD_eq_getLsbD, BitVec.getLsbD_setWidth]
    rw [decide_eq_true inside, decide_eq_true (by omega), Bool.true_and, Bool.true_and]
  rw [bit, BitVec.getLsbD_reverse, low, Png.bitsOf]
  by_cases within : 31 - j < 8
  · rw [getD_eq_getElem _ _ (by simpa using within), getElem_map, getElem_range]
  · rw [getD_eq_default _ _ (by simpa using within), BitVec.getLsbD_of_ge _ _ (by omega)]

theorem crc32Update_reverse (crc : UInt32) : (bytes.foldl crc32Update crc).toBitVec.reverse =
      ShiftRegister.run 0x04C11DB7#32 crc.toBitVec.reverse (bytes.flatMap Png.bitsOf) := by
  have bits (n : Nat) (crc : UInt32) : (crc32Bit^[n] crc).toBitVec.reverse =
      (ShiftRegister.shift 0x04C11DB7#32)^[n] crc.toBitVec.reverse := by
    induction n generalizing crc with
    | zero => rfl
    | succ n ih =>
      rw [Function.iterate_succ_apply, ih, crc32Bit_reverse, ← Function.iterate_succ_apply]
  induction bytes generalizing crc with
  | nil => rfl
  | cons byte bytes ih =>
    have eight : (Png.bitsOf byte).length = 8 := by simp [Png.bitsOf]
    have one : (crc32Update crc byte).toBitVec.reverse =
        ShiftRegister.run 0x04C11DB7#32 crc.toBitVec.reverse (Png.bitsOf byte) := by
      rw [ShiftRegister.run_place _ (by rw [eight]; decide), eight, place_bitsOf, crc32Update, bits,
        UInt32.toBitVec_xor, reverse_xor]
    rw [foldl_cons, ih, one, flatMap_cons, ShiftRegister.run_append]

theorem crc32_eq : bytes.foldl crc32Update 0xffffffff ^^^ 0xffffffff = ⟨Png.crc32 bytes⟩ := by
  have ones : (0xffffffff : UInt32).toBitVec.reverse = BitVec.allOnes 32 := by decide +kernel
  have run := crc32Update_reverse bytes 0xffffffff
  rw [ones] at run
  apply UInt32.toBitVec_inj.mp
  have mask : (0xffffffff : UInt32).toBitVec = (BitVec.allOnes 32).reverse := by decide +kernel
  rw [Png.crc32, ← run, UInt32.toBitVec_xor, ← BitVec.xor_allOnes, reverse_xor, BitVec.reverse_reverse_eq, mask]

theorem writeChunk_eq (f : File) {length : UInt32} (chunk : Png.Chunk)
    (announced : length = UInt32.ofNat chunk.data.length) : (do
      let s ← chunkBegin f length chunk.type
      let s ← chunk.data.foldlM chunkByte s
      chunkEnd s) = fwrite f chunk.bytes := by
  subst announced
  simp only [chunkBegin, writeBe32_eq, foldlM_chunkByte, chunkEnd, Png.Chunk.bytes, fwrite_append,
    Option.bind_eq_bind, Option.bind_assoc, Option.bind_some, Option.bind_map, Function.comp_def,
    ← crc32_eq, foldl_append]

def adlerStep (s : UInt32 × UInt32) (byte : UInt8) : UInt32 × UInt32 :=
  ((s.1 + byte.toUInt32) % 65521, (s.2 + (s.1 + byte.toUInt32) % 65521) % 65521)

theorem adlerStep_foldl : (bytes.foldl adlerStep (1, 0)).1.toNat = Png.adlerSum bytes % 65521 ∧
      (bytes.foldl adlerStep (1, 0)).2.toNat = Png.adlerSums bytes % 65521 := by
  induction bytes using List.reverseRecOn with
  | nil => exact ⟨rfl, rfl⟩
  | append_singleton bytes byte ih =>
    obtain ⟨first, second⟩ := ih
    have small := byte.toNat_lt
    have next : ((bytes.foldl adlerStep (1, 0)).1 + byte.toUInt32).toNat =
        Png.adlerSum bytes % 65521 + byte.toNat := by
      rw [UInt32.toNat_add, first, UInt8.toNat_toUInt32]
      omega
    have sum : (((bytes.foldl adlerStep (1, 0)).1 + byte.toUInt32) % 65521).toNat =
        Png.adlerSum (bytes ++ [byte]) % 65521 := by
      rw [UInt32.toNat_mod, next, Png.adlerSum_append]
      exact Nat.mod_add_mod _ _ _
    rw [foldl_append, foldl_cons, foldl_nil]
    refine ⟨sum, ?_⟩
    rw [adlerStep, UInt32.toNat_mod, UInt32.toNat_add, second, sum, Png.adlerSums_append]
    change (_ % 2 ^ 32) % 65521 = _
    omega

theorem adlerWord_toNat : (((bytes.foldl adlerStep (1, 0)).2 <<< 16) ||| (bytes.foldl adlerStep (1, 0)).1).toNat =
      Png.adler32 bytes := by
  obtain ⟨first, second⟩ := adlerStep_foldl bytes
  rw [UInt32.toNat_or, UInt32.toNat_shiftLeft, first, second, Png.adler32]
  change (_ <<< 16) % 2 ^ 32 ||| _ = _
  rw [Nat.mod_eq_of_lt (by rw [Nat.shiftLeft_eq]; omega), shiftLeft_or_of_lt (by omega)]
  omega

def rawBytes (rawOffset n : Nat) : List UInt8 :=
  (List.range' rawOffset n).map (pngSample c)

theorem idatBytes_eq (n rawOffset : Nat) (s : Idat) :
    idatBytes c rawOffset n s = ((rawBytes c rawOffset n).foldlM chunkByte s.chunk).map fun chunk =>
      ⟨chunk, ((rawBytes c rawOffset n).foldl adlerStep (s.adlerA, s.adlerB)).1,
        ((rawBytes c rawOffset n).foldl adlerStep (s.adlerA, s.adlerB)).2⟩ := by
  induction n generalizing rawOffset s with
  | zero => rfl
  | succ n ih =>
    simp only [idatBytes, rawBytes, range'_succ, map_cons, foldlM_cons, foldl_cons, Option.bind_eq_bind]
    cases chunkByte s.chunk (pngSample c rawOffset) with
    | none => rfl
    | some chunk => exact ih _ _

@[simp] theorem rawBytes_length (rawOffset n : Nat) :
    (rawBytes c rawOffset n).length = n := by
  simp [rawBytes]

theorem rawBytes_take (rawOffset : Nat) {n m : Nat} (le : m ≤ n) :
    (rawBytes c rawOffset n).take m = rawBytes c rawOffset m := by
  rw [rawBytes, ← map_take, take_range'_of_length_ge le, rawBytes]

theorem rawBytes_drop (rawOffset n m : Nat) : (rawBytes c rawOffset n).drop m = rawBytes c (rawOffset + m) (n - m) := by
  rw [rawBytes, ← map_drop, drop_range', mul_one, rawBytes]

theorem idatBlock_eq (final : UInt8) (length : UInt16) (rawOffset : Nat) (s : Idat)
    (next : Idat → Option Idat) : ([final, length.toUInt8, (length >>> 8).toUInt8, (~~~length).toUInt8,
        (~~~length >>> 8).toUInt8].foldlM chunkByte s.chunk).bind (fun chunk =>
      (idatBytes c rawOffset length.toNat { s with chunk }).bind next) =
    ((Png.storedBlock final (rawBytes c rawOffset length.toNat)).foldlM chunkByte s.chunk).bind
      fun chunk => next
        ⟨chunk, ((rawBytes c rawOffset length.toNat).foldl adlerStep (s.adlerA, s.adlerB)).1,
          ((rawBytes c rawOffset length.toNat).foldl adlerStep (s.adlerA, s.adlerB)).2⟩ := by
  simp only [idatBytes_eq, Png.storedBlock, rawBytes_length, UInt16.ofNat_toNat, foldlM_append,
    Option.bind_eq_bind, Option.bind_assoc, Option.bind_map, Function.comp_def]

/-- The state after `block` was written for the uncompressed bytes `raw`. -/
def idatAfter (s : Idat) (raw block : List UInt8) : Option Idat :=
  (block.foldlM chunkByte s.chunk).map fun chunk =>
    ⟨chunk, (raw.foldl adlerStep (s.adlerA, s.adlerB)).1, (raw.foldl adlerStep (s.adlerA, s.adlerB)).2⟩

theorem idatAfter_append (s : Idat) (raw raw' block block' : List UInt8) : idatAfter s (raw ++ raw') (block ++ block') =
      (block.foldlM chunkByte s.chunk).bind fun chunk => idatAfter
        ⟨chunk, (raw.foldl adlerStep (s.adlerA, s.adlerB)).1,
          (raw.foldl adlerStep (s.adlerA, s.adlerB)).2⟩ raw' block' := by
  rw [idatAfter, foldlM_append, Option.bind_eq_bind, Option.map_bind, foldl_append]
  rfl

theorem rawBytes_split (rawOffset : Nat) {n m : Nat} (le : m ≤ n) :
    rawBytes c rawOffset n = rawBytes c rawOffset m ++ rawBytes c (rawOffset + m) (n - m) := by
  rw [← rawBytes_take c rawOffset le, ← rawBytes_drop, take_append_drop]

theorem storedBlocks_rawBytes (rawOffset : Nat) {n m : Nat} (hm : m = 65535)
    (more : ¬ n ≤ 65535) : Png.storedBlocks (rawBytes c rawOffset n) =
      Png.storedBlock 0 (rawBytes c rawOffset m) ++
        Png.storedBlocks (rawBytes c (rawOffset + m) (n - m)) := by
  rw [Png.storedBlocks, rawBytes_length, if_neg more, ← hm, rawBytes_take c _ (by omega), rawBytes_drop]

theorem idatBlocks_eq (n rawOffset : Nat) (pos : 0 < n) (s : Idat) : idatBlocks c (rawOffset + n) rawOffset s =
      idatAfter s (rawBytes c rawOffset n) (Png.storedBlocks (rawBytes c rawOffset n)) := by
  induction n using Nat.strong_induction_on generalizing rawOffset s with
  | _ n ih =>
    have length := blockLength_toNat n
    rw [idatBlocks, dif_pos (by omega), Nat.add_sub_cancel_left]
    simp only [Option.bind_eq_bind]
    rw [idatBlock_eq]
    generalize (blockLength n).toNat = m at length
    by_cases last : n ≤ 65535
    · obtain rfl : m = n := by omega
      rw [if_pos last, Png.storedBlocks, rawBytes_length, if_pos last, idatAfter, Option.map_eq_bind]
      congr 1
      funext chunk
      rw [idatBlocks, dif_neg (by omega)]
      rfl
    · have full : m = 65535 := by omega
      have end' : rawOffset + n = rawOffset + m + (n - m) := by omega
      rw [if_neg last, storedBlocks_rawBytes c rawOffset full last,
        rawBytes_split c rawOffset (by omega : m ≤ n), idatAfter_append]
      congr 1
      funext chunk
      rw [end']
      exact ih (n - m) (by omega) (rawOffset + m) (by omega) _

def zlibData : List UInt8 :=
  let raw := rawBytes c 0 (rawLength c)
  let sums := raw.foldl adlerStep (1, 0)
  ([0x78, 0x01] : List UInt8) ++ Png.storedBlocks raw ++ bigEndian32 ((sums.2 <<< 16) ||| sums.1)

def pngChunks : List Png.Chunk :=
  [⟨Png.typeHeader, ihdr c⟩, ⟨Png.typePalette, plte⟩, ⟨Png.typeData, zlibData c⟩]

def pngBytes : List UInt8 :=
  Png.signature ++ ((pngChunks c).flatMap Png.Chunk.bytes ++ Png.Chunk.bytes ⟨Png.typeEnd, []⟩)

end

section Export

variable {c : Canvas}

theorem rawLength_le : rawLength c ≤ 16385 * 65535 :=
  Nat.mul_le_mul (by have := c.width.toNat_lt; omega) (Nat.le_of_lt_succ c.height.toNat_lt)

theorem rawLength_pos (high : c.height ≠ 0) : 0 < rawLength c := by
  have hh := UInt16.toNat_inj.ne.mpr high
  exact Nat.mul_pos (by omega) (Nat.pos_of_ne_zero hh)

theorem zlibData_length (pos : 0 < rawLength c) : (zlibData c).length =
      2 + rawLength c + (rawLength c / 65535 + if rawLength c % 65535 ≠ 0 then 1 else 0) * 5 + 4 := by
  simp only [zlibData, length_append, length_cons, length_nil,
    Png.storedBlocks_length, rawBytes_length, bigEndian32_length]
  split <;> omega

theorem writeChunks_eq (high : c.height ≠ 0) (f : File) : writeChunks c f = fwrite f (pngBytes c) := by
  have pos := rawLength_pos high
  have bound := rawLength_le (c := c)
  have chunk (f : File) (length : UInt32) (chunk : Png.Chunk)
      (announced : length = UInt32.ofNat chunk.data.length) {β : Type} (k : File → Option β) :
      (chunkBegin f length chunk.type).bind (fun s => (chunk.data.foldlM chunkByte s).bind fun s =>
        (chunkEnd s).bind k) = (fwrite f chunk.bytes).bind k := by
    rw [← writeChunk_eq f chunk announced]
    simp only [Option.bind_eq_bind, Option.bind_assoc]
  have blocks := idatBlocks_eq c (rawLength c) 0 pos
  rw [zero_add] at blocks
  have fits : ¬ (zlibData c).length > 0xffffffff := by
    rw [zlibData_length pos]
    split <;> omega
  have data (s : File × UInt32) : (zlibData c).foldlM chunkByte s =
      (chunkByte s 0x78).bind fun s => (chunkByte s 0x01).bind fun s =>
        (idatBlocks c (rawLength c) 0 ⟨s, 1, 0⟩).bind fun data =>
          (bigEndian32 ((data.adlerB <<< 16) ||| data.adlerA)).foldlM chunkByte data.chunk := by
    simp only [zlibData, foldlM_append, foldlM_cons, foldlM_nil, blocks, idatAfter,
      Option.bind_eq_bind, Option.bind_assoc, Option.bind_map, Function.comp_def, Option.pure_def,
      Option.bind_some]
  have third (f : File) {β : Type} (k : File → Option β) :=
    chunk f (UInt32.ofNat (zlibData c).length) ⟨Png.typeData, zlibData c⟩ rfl k
  simp only [data, Option.bind_assoc] at third
  have last (f : File) : (chunkBegin f 0 Png.typeEnd).bind chunkEnd =
      fwrite f (Png.Chunk.bytes ⟨Png.typeEnd, []⟩) := writeChunk_eq f ⟨Png.typeEnd, []⟩ rfl
  have first (f : File) {β : Type} (k : File → Option β) := chunk f 13 ⟨Png.typeHeader, ihdr c⟩ rfl k
  have second (f : File) {β : Type} (k : File → Option β) := chunk f 12 ⟨Png.typePalette, plte⟩ rfl k
  simp only [writeChunks, Option.bind_eq_bind, first, second]
  rw [← zlibData_length pos]
  simp only [bigEndian32] at third
  simp only [if_neg fits, third, last, pngBytes, pngChunks, fwrite_append, flatMap_cons, flatMap_nil,
    append_nil, Option.bind_assoc]

def padded (c : Canvas) (y x : Nat) : UInt8 := if x < c.width.toNat then c.get x y else 0

theorem padded_lt (y x : Nat) : (padded c y x).toNat < 4 := by
  have low (v : UInt8) : (v &&& 3).toNat < 4 := by
    rw [UInt8.toNat_and]
    exact Nat.lt_succ_of_le Nat.and_le_right
  unfold padded Canvas.get
  split
  · split
    · exact low _
    · decide
  · decide

def packed (c : Canvas) (y j : Nat) : UInt8 :=
  (padded c y (j * 4) <<< 6) ||| (padded c y (j * 4 + 1) <<< 4) |||
    (padded c y (j * 4 + 2) <<< 2) ||| padded c y (j * 4 + 3)

theorem rawBytes_row (y : Nat) : rawBytes c (((c.width.toNat + 3) / 4 + 1) * y) ((c.width.toNat + 3) / 4 + 1) =
      0 :: (List.range ((c.width.toNat + 3) / 4)).map (packed c y) := by
  rw [rawBytes, range'_succ, map_cons, range'_eq_map_range, map_map]
  congr 1
  · rw [pngSample, if_pos (Nat.mul_mod_right _ _)]
  · apply map_congr_left
    intro j hj
    have inside := mem_range.mp hj
    have column : (((c.width.toNat + 3) / 4 + 1) * y + 1 + j) % ((c.width.toNat + 3) / 4 + 1) = j + 1 := by
      rw [add_assoc, Nat.mul_add_mod, Nat.mod_eq_of_lt (by omega), add_comm]
    have row : (((c.width.toNat + 3) / 4 + 1) * y + 1 + j) / ((c.width.toNat + 3) / 4 + 1) = y := by
      rw [add_assoc, Nat.mul_add_div (by omega), Nat.div_eq_of_lt (by omega), add_zero]
    rw [Function.comp_apply, pngSample, column, if_neg (by omega)]
    simp only [row, Nat.add_sub_cancel, add_zero]
    rfl

theorem readRows_rawBytes (n y : Nat) : Png.readRows c.width.toNat ((c.width.toNat + 3) / 4) n
        (rawBytes c (((c.width.toNat + 3) / 4 + 1) * y) (((c.width.toNat + 3) / 4 + 1) * n)) =
      some ((List.range' y n).map fun y : Nat =>
        (List.range c.width.toNat).map fun x : Nat => c.get x y) := by
  induction n generalizing y with
  | zero => rfl
  | succ n ih =>
    have first : (((List.range ((c.width.toNat + 3) / 4)).map (packed c y)).flatMap Png.samples).take
        c.width.toNat = (List.range c.width.toNat).map fun x : Nat => c.get x y := by
      simp only [flatMap_map, packed, Png.samples_pack (padded_lt _ _) (padded_lt _ _) (padded_lt _ _)
        (padded_lt _ _), Png.flatMap_four (padded c y)]
      rw [← map_take, take_range, Nat.min_eq_left (by omega)]
      apply map_congr_left
      intro x hx
      rw [padded, if_pos (mem_range.mp hx)]
    have next := ih (y + 1)
    rw [Nat.mul_succ] at next
    rw [Png.readRows, Png.takeExact, if_pos (by rw [rawBytes_length, Nat.mul_succ]; omega),
      rawBytes_take c _ (by rw [Nat.mul_succ]; omega), rawBytes_drop, rawBytes_row, Nat.mul_succ,
      Nat.add_sub_cancel]
    simp only [Option.bind_eq_bind, Option.bind_some, next, head?_cons, if_true, tail_cons,
      first, range'_succ, map_cons]

theorem inflateZlib_zlibData : Png.inflateZlib (zlibData c) = some (rawBytes c 0 (rawLength c)) := by
  have header : ¬ ((0x78 : UInt8) &&& 15 ≠ 8 ∨ (0x78 : UInt8) >>> 4 > 7 ∨
      ((0x78 : UInt8).toNat * 256 + (0x01 : UInt8).toNat) % 31 ≠ 0 ∨ (0x01 : UInt8) &&& 32 ≠ 0) := by
    decide
  have long := Png.storedBlocks_length (rawBytes c 0 (rawLength c))
  have word (value : UInt32) := Png.readWord_append value []
  simp only [append_nil] at word
  simp only [zlibData, cons_append, nil_append, Png.inflateZlib, if_neg header]
  rw [Png.inflateStored_blocks _ _ (by rw [length_append, long]; omega)]
  simp only [Option.bind_eq_bind, Option.bind_some, word, adlerWord_toNat, and_self, if_true]

theorem fromBigEndian32_small (value : UInt16) :
    fromBigEndian32 0 0 (value >>> 8).toUInt8 value.toUInt8 = value.toUInt32 := by
  have small := value.toNat_lt
  apply UInt32.toNat_inj.mp
  rw [fromBigEndian32_toNat, UInt16.toNat_toUInt32, UInt16.toNat_toUInt8, UInt16.toNat_toUInt8, UInt16.toNat_shiftRight]
  change 0 * _ + 0 * _ + value.toNat >>> 8 % 256 * 256 + value.toNat % 256 = _
  rw [Nat.shiftRight_eq_div_pow]
  omega

theorem image_pngChunks : Png.image (pngChunks c) = some c.image := by
  have rows := readRows_rawBytes (c := c) c.height.toNat 0
  rw [Nat.mul_zero] at rows
  have colors : Png.palette plte =
      some [(0xff, 0xff, 0xff), (0xe5, 0x39, 0x35), (0x1e, 0x63, 0xd5), (0, 0, 0)] := by decide
  have test : ¬ (Png.typeHeader ≠ Png.typeHeader ∨ Png.typePalette ≠ Png.typePalette ∨
      ([2, 3, 0, 0, 0] : List UInt8) ≠ [2, 3, 0, 0, 0] ∨
      [(⟨Png.typeData, zlibData c⟩ : Png.Chunk)].any fun chunk => chunk.type ≠ Png.typeData) := by
    simp
  simp only [pngChunks, Png.image, ihdr, Png.readWord, fromBigEndian32_small, Option.bind_eq_bind,
    Option.bind_some, if_neg test, colors, flatMap_cons, flatMap_nil, append_nil,
    inflateZlib_zlibData, UInt16.toNat_toUInt32, rawLength, rows, Canvas.image, range_eq_range']

theorem decode_pngBytes (high : c.height ≠ 0) : Png.decode (pngBytes c) = some c.image := by
  have pos := rawLength_pos high
  have bound := rawLength_le (c := c)
  have front (rest : List UInt8) : (Png.signature ++ rest).take 8 = Png.signature := rfl
  have behind (rest : List UInt8) : (Png.signature ++ rest).drop 8 = rest := rfl
  have four : ∀ chunk ∈ pngChunks c, chunk.type.length = 4 := by
    simp [pngChunks, Png.typeHeader, Png.typePalette, Png.typeData]
  have inner : ∀ chunk ∈ pngChunks c, chunk.type ≠ Png.typeEnd := by
    simp [pngChunks, Png.typeHeader, Png.typePalette, Png.typeData, Png.typeEnd]
  have short : ∀ chunk ∈ pngChunks c, chunk.data.length < 4294967296 := by
    intro chunk hchunk
    simp only [pngChunks, mem_cons, not_mem_nil, or_false] at hchunk
    rcases hchunk with rfl | rfl | rfl
    · change 13 < _
      omega
    · change 12 < _
      omega
    · change (zlibData c).length < _
      rw [zlibData_length pos]
      split <;> omega
  have fuel : (pngChunks c).length < (pngBytes c).length + 1 := by
    have eight : Png.signature.length = 8 := rfl
    have three : (pngChunks c).length = 3 := rfl
    rw [pngBytes, length_append, eight, three]
    omega
  have chunks := Png.readChunks_bytes four short inner fuel
  rw [pngBytes] at chunks
  rw [Png.decode, pngBytes, front, if_pos rfl, behind, chunks, Option.bind_some, image_pngChunks]

theorem fwrite_written {f f' : File} {bytes : List UInt8} (h : fwrite f bytes = some f') :
    f'.written = f.written ++ bytes := by
  induction bytes generalizing f with
  | nil =>
    cases h
    rw [append_nil]
  | cons byte bytes ih =>
    rw [fwrite, foldlM_cons, Option.bind_eq_bind, writeByte] at h
    split at h
    · rw [ih h, append_assoc, singleton_append]
    · cases h

theorem fwrite_accepted {f : File} (accepts : ∀ i, f.accepts i = true) (bytes : List UInt8) :
    fwrite f bytes = some { f with written := f.written ++ bytes } := by
  induction bytes generalizing f with
  | nil => rw [append_nil]; rfl
  | cons byte bytes ih =>
    rw [fwrite, foldlM_cons, Option.bind_eq_bind, writeByte, if_pos (accepts _), Option.bind_some]
    refine (ih ?_).trans ?_
    · exact accepts
    · rw [append_assoc, singleton_append]

/-- A canvas without pixels is refused. For any other canvas the bytes a successful export has
written are a PNG file that is read back as the pixels of the canvas, row by row, and an export
to a file that takes all of them succeeds. -/
theorem writePng_decodes (f : File) (c : Canvas) : (c.width = 0 ∨ c.height = 0 → writePng f c = .error .invalidArg) ∧
      (c.width ≠ 0 → c.height ≠ 0 → ∃ bytes, Png.decode bytes = some c.image ∧
        (∀ f', writePng f c = .ok f' → f'.written = f.written ++ bytes) ∧
        ((∀ i, f.accepts i = true) → f.error = false →
          writePng f c = .ok { f with written := f.written ++ bytes })) := by
  constructor
  · intro blank
    rw [writePng, if_pos blank]
  · intro wide high
    have some' : ¬ (c.width = 0 ∨ c.height = 0) := fun blank => blank.elim wide high
    refine ⟨pngBytes c, decode_pngBytes high, ?_, ?_⟩
    · intro f' done
      rw [writePng, if_neg some', writeChunks_eq high] at done
      cases written : fwrite f (pngBytes c) with
      | none =>
        rw [written] at done
        cases done
      | some g =>
        simp only [written] at done
        split at done
        · cases done
        · cases done
          exact fwrite_written written
    · intro accepts good
      simp only [writePng, if_neg some', writeChunks_eq high, fwrite_accepted accepts, good]
      rfl

end Export

end SolarOs.Sketch
