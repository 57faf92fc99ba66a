import SolarOs.Library.ByteOrder
import SolarOs.Library.ShiftRegister

/-! Reading PNG files: chunks with their CRC-32, a zlib stream of stored blocks with its
Adler-32, rows without a filter, and samples of two bits that index a palette. -/
namespace Png
open ByteOrder List

def bitsOf (byte : UInt8) : List Bool := (List.range 8).map byte.toBitVec.getLsbD

def crc32 (bytes : List UInt8) : BitVec 32 :=
  (~~~ShiftRegister.run 0x04C11DB7#32 (BitVec.allOnes 32) (bytes.flatMap bitsOf)).reverse

def adlerSum (bytes : List UInt8) : Nat := 1 + (bytes.map UInt8.toNat).sum

def adlerSums (bytes : List UInt8) : Nat :=
  ((List.range bytes.length).map fun i => adlerSum (bytes.take (i + 1))).sum

def adler32 (bytes : List UInt8) : Nat :=
  adlerSums bytes % 65521 * 65536 + adlerSum bytes % 65521

structure Chunk where
  type : List UInt8
  data : List UInt8

def takeExact (n : Nat) (bytes : List UInt8) : Option (List UInt8 × List UInt8) :=
  if n ≤ bytes.length then some (bytes.take n, bytes.drop n) else none

def readWord : List UInt8 → Option (UInt32 × List UInt8)
  | b0 :: b1 :: b2 :: b3 :: rest => some (fromBigEndian32 b0 b1 b2 b3, rest)
  | _ => none

def readChunk (bytes : List UInt8) : Option (Chunk × List UInt8) := do
  let (length, rest) ← readWord bytes
  let (type, rest) ← takeExact 4 rest
  let (data, rest) ← takeExact length.toNat rest
  let (crc, rest) ← readWord rest
  if crc.toBitVec = crc32 (type ++ data) then some (⟨type, data⟩, rest) else none

def typeEnd : List UInt8 := [0x49, 0x45, 0x4E, 0x44]

/-- The chunks up to the end chunk, after which the file ends. -/
def readChunks : Nat → List UInt8 → Option (List Chunk)
  | 0, _ => none
  | fuel + 1, bytes => do
    let (chunk, rest) ← readChunk bytes
    if chunk.type = typeEnd then
      if chunk.data = [] ∧ rest = [] then some [] else none
    else
      let chunks ← readChunks fuel rest
      some (chunk :: chunks)

/-- A deflate stream of stored blocks: what it holds, and what follows it. -/
def inflateStored : Nat → List UInt8 → Option (List UInt8 × List UInt8)
  | 0, _ => none
  | fuel + 1, bytes =>
    match bytes with
    | header :: l0 :: l1 :: n0 :: n1 :: rest =>
      if header &&& 6 ≠ 0 ∨ fromBigEndian16 n1 n0 ≠ ~~~fromBigEndian16 l1 l0 then none
      else do
        let (data, rest) ← takeExact (fromBigEndian16 l1 l0).toNat rest
        if header &&& 1 = 1 then some (data, rest)
        else do
          let (more, rest) ← inflateStored fuel rest
          some (data ++ more, rest)
    | _ => none

/-- A zlib stream without a dictionary; its checksum must fit and nothing may follow. -/
def inflateZlib : List UInt8 → Option (List UInt8)
  | cmf :: flg :: bytes =>
    if cmf &&& 15 ≠ 8 ∨ cmf >>> 4 > 7 ∨ (cmf.toNat * 256 + flg.toNat) % 31 ≠ 0 ∨ flg &&& 32 ≠ 0 then
      none
    else do
      let (data, rest) ← inflateStored (bytes.length + 1) bytes
      let (adler, rest) ← readWord rest
      if adler.toNat = adler32 data ∧ rest = [] then some data else none
  | _ => none

def samples (byte : UInt8) : List UInt8 :=
  [(byte >>> 6) &&& 3, (byte >>> 4) &&& 3, (byte >>> 2) &&& 3, byte &&& 3]

def readRows (width stride : Nat) : Nat → List UInt8 → Option (List (List UInt8))
  | 0, bytes => if bytes = [] then some [] else none
  | height + 1, bytes => do
    let (row, rest) ← takeExact (stride + 1) bytes
    let rows ← readRows width stride height rest
    if row.head? = some 0 then some ((row.tail.flatMap samples).take width :: rows) else none

def palette : List UInt8 → Option (List (UInt8 × UInt8 × UInt8))
  | [] => some []
  | r :: g :: b :: rest => (palette rest).map fun more => (r, g, b) :: more
  | _ => none

structure Image where
  width : UInt32
  height : UInt32
  palette : List (UInt8 × UInt8 × UInt8)
  rows : List (List UInt8)
  deriving DecidableEq

def signature : List UInt8 := [0x89, 0x50, 0x4E, 0x47, 0x0D, 0x0A, 0x1A, 0x0A]

def typeHeader : List UInt8 := [0x49, 0x48, 0x44, 0x52]

def typePalette : List UInt8 := [0x50, 0x4C, 0x54, 0x45]

def typeData : List UInt8 := [0x49, 0x44, 0x41, 0x54]

/-- The image of the chunks: a header for two bits a pixel and a palette, the palette, and data. -/
def image : List Chunk → Option Image
  | ⟨type, header⟩ :: ⟨type', colors⟩ :: chunks => do
    let (width, header) ← readWord header
    let (height, header) ← readWord header
    if type ≠ typeHeader ∨ type' ≠ typePalette ∨ header ≠ [2, 3, 0, 0, 0] ∨
        chunks.any (fun chunk => chunk.type ≠ typeData) then none
    else do
      let colors ← palette colors
      let raw ← inflateZlib (chunks.flatMap Chunk.data)
      let rows ← readRows width.toNat ((width.toNat + 3) / 4) height.toNat raw
      some ⟨width, height, colors, rows⟩
  | _ => none

def decode (bytes : List UInt8) : Option Image :=
  if bytes.take 8 = signature then
    (readChunks (bytes.length + 1) (bytes.drop 8)).bind image
  else none

theorem takeExact_append (a b : List UInt8) : takeExact a.length (a ++ b) = some (a, b) := by
  rw [takeExact, if_pos (by simp), take_left, drop_left]

theorem readWord_append (value : UInt32) (rest : List UInt8) :
    readWord (bigEndian32 value ++ rest) = some (value, rest) := by
  simp only [bigEndian32, cons_append, nil_append, readWord, fromBigEndian32_write]

def Chunk.bytes (chunk : Chunk) : List UInt8 :=
  bigEndian32 (UInt32.ofNat chunk.data.length) ++ chunk.type ++ chunk.data ++
    bigEndian32 ⟨crc32 (chunk.type ++ chunk.data)⟩

theorem readChunk_bytes {chunk : Chunk} (four : chunk.type.length = 4)
    (short : chunk.data.length < 4294967296) (rest : List UInt8) :
    readChunk (chunk.bytes ++ rest) = some (chunk, rest) := by
  have length : (UInt32.ofNat chunk.data.length).toNat = chunk.data.length := UInt32.toNat_ofNat_of_lt' short
  have type := takeExact_append chunk.type (chunk.data ++ (bigEndian32 ⟨crc32 (chunk.type ++ chunk.data)⟩ ++ rest))
  rw [four] at type
  simp only [readChunk, Chunk.bytes, append_assoc, readWord_append, Option.bind_eq_bind,
    Option.bind_some, type, length, takeExact_append, if_true]

theorem readChunks_bytes {chunks : List Chunk} (four : ∀ chunk ∈ chunks, chunk.type.length = 4)
    (short : ∀ chunk ∈ chunks, chunk.data.length < 4294967296)
    (inner : ∀ chunk ∈ chunks, chunk.type ≠ typeEnd) {fuel : Nat} (enough : chunks.length < fuel) :
    readChunks fuel (chunks.flatMap Chunk.bytes ++ Chunk.bytes ⟨typeEnd, []⟩) = some chunks := by
  induction chunks generalizing fuel with
  | nil =>
    obtain ⟨fuel, rfl⟩ := Nat.exists_eq_add_of_lt enough
    have last : readChunk (Chunk.bytes ⟨typeEnd, []⟩ ++ []) = some (⟨typeEnd, []⟩, []) :=
      readChunk_bytes rfl (by decide) []
    rw [append_nil] at last
    simp only [readChunks, flatMap_nil, nil_append, last, Option.bind_eq_bind, Option.bind_some, if_true, and_self]
  | cons chunk chunks ih =>
    obtain ⟨fuel, rfl⟩ := Nat.exists_eq_add_of_lt enough
    have here := mem_cons_self (a := chunk) (l := chunks)
    have rest {fuel : Nat} := @ih (fun c hc => four c (mem_cons_of_mem _ hc))
      (fun c hc => short c (mem_cons_of_mem _ hc))
      (fun c hc => inner c (mem_cons_of_mem _ hc)) fuel
    simp only [length_cons, readChunks, flatMap_cons, append_assoc,
      readChunk_bytes (four chunk here) (short chunk here), Option.bind_eq_bind, Option.bind_some,
      if_neg (inner chunk here)]
    rw [rest (by simp only [length_cons] at enough ⊢; omega)]
    rfl

def storedBlock (final : UInt8) (data : List UInt8) : List UInt8 :=
  let length := UInt16.ofNat data.length
  [final, length.toUInt8, (length >>> 8).toUInt8, (~~~length).toUInt8, (~~~length >>> 8).toUInt8] ++ data

theorem inflateStored_block {final : UInt8} (header : final &&& 6 = 0) {data : List UInt8}
    (fits : data.length ≤ 65535) (fuel : Nat) (rest : List UInt8) :
    inflateStored (fuel + 1) (storedBlock final data ++ rest) =
      if final &&& 1 = 1 then some (data, rest)
      else (inflateStored fuel rest).map fun more => (data ++ more.1, more.2) := by
  have length : (UInt16.ofNat data.length).toNat = data.length := UInt16.toNat_ofNat_of_lt' (Nat.lt_succ_of_le fits)
  simp only [storedBlock, cons_append, nil_append, inflateStored, fromBigEndian16_write,
    header, ne_eq, not_true_eq_false, or_self, if_false, length, takeExact_append,
    Option.bind_eq_bind, Option.bind_some]
  congr 1
  cases inflateStored fuel rest <;> rfl

def storedBlocks (data : List UInt8) : List UInt8 :=
  if data.length ≤ 65535 then storedBlock 1 data
  else storedBlock 0 (data.take 65535) ++ storedBlocks (data.drop 65535)
termination_by data.length
decreasing_by rw [length_drop]; omega

theorem inflateStored_blocks (data rest : List UInt8) {fuel : Nat} (enough : data.length < fuel) :
    inflateStored fuel (storedBlocks data ++ rest) = some (data, rest) := by
  induction data using storedBlocks.induct generalizing fuel with
  | case1 data last =>
    obtain ⟨fuel, rfl⟩ := Nat.exists_eq_add_of_lt enough
    rw [storedBlocks, if_pos last, inflateStored_block (by decide) last]
    rfl
  | case2 data more ih =>
    obtain ⟨fuel, rfl⟩ := Nat.exists_eq_add_of_lt enough
    have rest' := @ih (data.length + fuel) (by rw [length_drop]; omega)
    have full : (data.take 65535).length ≤ 65535 := by
      rw [length_take]
      omega
    rw [storedBlocks, if_neg more, append_assoc, inflateStored_block (by decide) full, rest']
    simp [take_append_drop]

theorem storedBlocks_length (data : List UInt8) :
    (storedBlocks data).length = data.length + 5 * ((data.length - 1) / 65535 + 1) := by
  induction data using storedBlocks.induct with
  | case1 data last =>
    rw [storedBlocks, if_pos last]
    simp only [storedBlock, length_append, length_cons, length_nil]
    omega
  | case2 data more ih =>
    rw [storedBlocks, if_neg more, length_append, ih]
    simp only [storedBlock, length_append, length_cons, length_nil, length_take, length_drop]
    omega

@[simp] theorem adlerSum_append (bytes : List UInt8) (byte : UInt8) :
    adlerSum (bytes ++ [byte]) = adlerSum bytes + byte.toNat := by
  simp [adlerSum, Nat.add_assoc]

@[simp] theorem adlerSums_append (bytes : List UInt8) (byte : UInt8) :
    adlerSums (bytes ++ [byte]) = adlerSums bytes + adlerSum (bytes ++ [byte]) := by
  have before : ∀ i ∈ List.range bytes.length,
      adlerSum ((bytes ++ [byte]).take (i + 1)) = adlerSum (bytes.take (i + 1)) := by
    intro i hi
    rw [take_append_of_le_length (mem_range.mp hi)]
  rw [adlerSums, length_append, length_singleton, range_succ, map_append,
    sum_append, map_congr_left before, adlerSums, map_singleton, sum_singleton,
    take_of_length_le (by simp)]

theorem samples_pack {a b c d : UInt8} (ha : a.toNat < 4) (hb : b.toNat < 4) (hc : c.toNat < 4)
    (hd : d.toNat < 4) : samples ((a <<< 6) ||| (b <<< 4) ||| (c <<< 2) ||| d) = [a, b, c, d] := by
  have table : ∀ a b c d : Fin 4, samples ((UInt8.ofNat a <<< 6) ||| (UInt8.ofNat b <<< 4) |||
      (UInt8.ofNat c <<< 2) ||| UInt8.ofNat d) =
      [UInt8.ofNat a, UInt8.ofNat b, UInt8.ofNat c, UInt8.ofNat d] := by decide
  simpa only [UInt8.ofNat_toNat] using table ⟨_, ha⟩ ⟨_, hb⟩ ⟨_, hc⟩ ⟨_, hd⟩

theorem flatMap_four {α : Type} (f : Nat → α) (n : Nat) :
    ((List.range n).flatMap fun j => [f (j * 4), f (j * 4 + 1), f (j * 4 + 2), f (j * 4 + 3)]) =
      (List.range (n * 4)).map f := by
  induction n with
  | zero => rfl
  | succ n ih =>
    have four : (n + 1) * 4 = n * 4 + 1 + 1 + 1 + 1 := by omega
    rw [range_succ, flatMap_append, ih, four]
    simp [range_succ]

end Png
