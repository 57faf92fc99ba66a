import SolarOs.Esp
import SolarOs.Library.Memory

/-! The arena allocator of a RAM filesystem mount: block headers embedded in the
arena's bytes, with 32-bit sizes and pointers. -/
namespace SolarOs.Ramfs
open ByteMemory

/-- The `errno` values the RAM filesystem sets. -/
inductive Errno where
  | EBADF
  | EBUSY
  | EEXIST
  | EFBIG
  | EINVAL
  | EISDIR
  | EMFILE
  | ENOENT
  | ENOMEM
  | ENOSPC
  | ENOTDIR
  | ENOTEMPTY
  deriving DecidableEq, Repr

def minQuotaBytes : Nat := 1024

def sizeMax : Nat := 2 ^ 32 - 1

/-- `RAMFS_ALIGNMENT`, the size of a pointer. -/
def alignment : Nat := 4

/-- `sizeof(ramfs_block_t)`: the size, the flag and its padding, the two links. -/
def blockHeaderBytes : Nat := 16

/-- The part of `ramfs_mount_t` the allocator uses. Pointers are addresses, 0 is `NULL`. -/
structure Heap where
  quotaBytes : Nat
  arenaBytes : Nat
  arena : Nat
  blocks : Nat
  memory : Memory

section Header
variable (m : Memory) (block : Nat)

def blockSize : Nat := load32 m block

def blockFree : Bool := m (block + 4) ≠ 0

def blockPrev : Nat := load32 m (block + 8)

def blockNext : Nat := load32 m (block + 12)

def setBlockSize (size : Nat) : Memory := store32 m block size

def setBlockFree (free : Bool) : Memory := store m (block + 4) [if free then 1 else 0]

def setBlockPrev (prev : Nat) : Memory := store32 m (block + 8) prev

def setBlockNext (next : Nat) : Memory := store32 m (block + 12) next

end Header

/-- The low bits are cleared by `& ~mask`. -/
def alignSize (size : Nat) : Option Nat :=
  let mask := alignment - 1
  if sizeMax - mask < size then none else some ((size + mask) - (size + mask) % alignment)

def blockPayload (block : Nat) : Nat := block + blockHeaderBytes

def payloadBlock (ptr : Nat) : Nat := ptr - blockHeaderBytes

variable (h : Heap)

def ptrInArena (ptr : Nat) : Bool :=
  h.arena ≠ 0 && ptr ≠ 0 && h.arena + blockHeaderBytes ≤ ptr && ptr < h.arena + h.arenaBytes

def splitBlock (m : Memory) (block size : Nat) : Memory :=
  if block = 0 ∨ blockSize m block ≤ size then
    m
  else
    let remaining := blockSize m block - size
    if remaining ≤ blockHeaderBytes + alignment then
      m
    else
      let next := blockPayload block + size
      let m := setBlockSize m next (remaining - blockHeaderBytes)
      let m := setBlockFree m next true
      let m := setBlockPrev m next block
      let m := setBlockNext m next (blockNext m block)
      let m := if blockNext m next ≠ 0 then setBlockPrev m (blockNext m next) next else m
      let m := setBlockSize m block size
      setBlockNext m block next

def mergeNext (m : Memory) (block : Nat) : Memory :=
  if block = 0 ∨ blockNext m block = 0 ∨ blockFree m (blockNext m block) = false then
    m
  else
    let next := blockNext m block
    let m := setBlockSize m block (blockSize m block + (blockHeaderBytes + blockSize m next))
    let m := setBlockNext m block (blockNext m next)
    if blockNext m block ≠ 0 then setBlockPrev m (blockNext m block) block else m

def coalesceBlock (m : Memory) (block : Nat) : Memory :=
  if block = 0 then
    m
  else
    let m := mergeNext m block
    if blockPrev m block ≠ 0 ∧ blockFree m (blockPrev m block) = true then
      mergeNext m (blockPrev m block)
    else
      m

/-- The loop of `ramfs_alloc` from `block` on, with at most `fuel` blocks left: the memory
and the payload, unless no block fits. -/
def allocLoop (aligned : Nat) : Nat → Memory → Nat → Option (Memory × Nat)
  | 0, _, _ => none
  | fuel + 1, m, block =>
    if block = 0 then
      none
    else if blockFree m block = false ∨ blockSize m block < aligned then
      allocLoop aligned fuel m (blockNext m block)
    else
      some (setBlockFree (splitBlock m block aligned) block false, blockPayload block)

/-- An arena holds fewer blocks than bytes, so `arenaBytes` steps are enough. -/
def alloc (size : Nat) : Heap × Except Errno Nat :=
  if size = 0 then
    (h, .error .EINVAL)
  else
    match alignSize size with
    | none => (h, .error .ENOSPC)
    | some aligned =>
      match allocLoop aligned h.arenaBytes h.memory h.blocks with
      | some (memory, ptr) => ({ h with memory }, .ok ptr)
      | none => (h, .error .ENOSPC)

def free (ptr : Nat) : Heap :=
  if ptr = 0 then
    h
  else if !ptrInArena h ptr then
    h
  else
    { h with memory := coalesceBlock (setBlockFree h.memory (payloadBlock ptr) true) (payloadBlock ptr) }

/-- The move at the end of `ramfs_realloc`. -/
def moveBlock (ptr oldSize newSize : Nat) : Heap × Except Errno Nat :=
  match alloc h newSize with
  | (h, .error errno) => (h, .error errno)
  | (h, .ok next) =>
    let copySize := min (min oldSize (blockSize h.memory (payloadBlock ptr))) newSize
    (free { h with memory := copy h.memory next ptr copySize } ptr, .ok next)

/-- `ramfs_realloc`; a new size of 0 frees and gives `NULL` without an error. -/
def realloc (ptr oldSize newSize : Nat) : Heap × Except Errno Nat :=
  if newSize = 0 then
    (free h ptr, .ok 0)
  else if ptr = 0 then
    alloc h newSize
  else
    match alignSize newSize, ptrInArena h ptr with
    | some aligned, true =>
      let block := payloadBlock ptr
      let next := blockNext h.memory block
      if aligned ≤ blockSize h.memory block then
        ({ h with memory := splitBlock h.memory block aligned }, .ok ptr)
      else if next ≠ 0 ∧ blockFree h.memory next = true ∧
          aligned ≤ (blockSize h.memory block + blockHeaderBytes + blockSize h.memory next) %
            (sizeMax + 1) then
        ({ h with memory := splitBlock (mergeNext h.memory block) block aligned }, .ok ptr)
      else
        moveBlock h ptr oldSize newSize
    | _, _ => (h, .error .EINVAL)

/-- The arena part of `solar_os_ramfs_mount`: one free block over the `quota` bytes that
`solar_os_memory_alloc` gave at `arena`, if it gave any. -/
def mountHeap (memory : Memory) (arena quota : Nat) : Except EspErr Heap :=
  if quota < minQuotaBytes ∨ quota ≤ blockHeaderBytes then
    .error .invalidSize
  else if arena = 0 then
    .error .noMem
  else
    let m := setBlockSize memory arena (quota - blockHeaderBytes)
    let m := setBlockFree m arena true
    let m := setBlockPrev m arena 0
    .ok {
      quotaBytes := quota - blockHeaderBytes
      arenaBytes := quota
      arena
      blocks := arena
      memory := setBlockNext m arena 0 }

end SolarOs.Ramfs
