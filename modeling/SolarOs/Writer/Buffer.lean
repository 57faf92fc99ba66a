import SolarOs.Esp
import SolarOs.Library.Memory
import SolarOs.Library.EditHistory

/-! The gap buffer behind the writer and its undo records. -/
namespace SolarOs.Writer
open ByteMemory

def initialBytes : Nat := 64 * 1024
def maxBytes : Nat := 256 * 1024
def undoMaxOps : Nat := 128
def undoMaxPayload : Nat := 64 * 1024

def objectMax : Nat := 2 ^ 31 - 1

/-- `solar_os_writer_undo_op_t`; the two lengths are those of the byte strings. -/
structure UndoOp where
  offset : Nat
  removed : List UInt8
  inserted : List UInt8
  cursorBefore : Nat
  cursorAfter : Nat
  deriving DecidableEq

/-- `solar_os_writer_buffer_t`. `undo` holds the first `undo_count` records of the
storage, which exists once `storage` is set. -/
structure Buffer where
  data : Option Memory
  capacity : Nat
  gapStart : Nat
  gapEnd : Nat
  storage : Bool
  undo : List UndoOp
  undoCursor : Nat
  undoPayload : Nat

/-- Which allocations of one call are granted, and what fresh text storage holds. -/
structure Grants where
  data : Bool
  removed : Bool
  inserted : Bool
  storage : Bool
  joined : Bool
  fresh : Memory

/-- `writer_alloc` returns memory. -/
def writerAlloc (size : Nat) (granted : Bool) : Bool := granted && decide (size ≤ objectMax)

def init : Buffer where
  data := none
  capacity := 0
  gapStart := 0
  gapEnd := 0
  storage := false
  undo := []
  undoCursor := 0
  undoPayload := 0

variable (b : Buffer)

def writerGapSize : Nat := b.gapEnd - b.gapStart

def length : Nat := if b.data.isSome then b.capacity - writerGapSize b else 0

def clearUndo : Buffer := { b with undo := [], undoCursor := 0, undoPayload := 0 }

/-- The doubling loop of `writer_reserve`. -/
def doubled (need : Nat) : Nat → Nat → Nat
  | 0, capacity => capacity
  | fuel + 1, capacity =>
    if capacity < need ∧ capacity < maxBytes then doubled need fuel (capacity * 2) else capacity

def writerReserve (need : Nat) (g : Grants) : Buffer × EspErr :=
  if maxBytes < need then (b, .invalidSize)
  else if b.data.isSome ∧ need ≤ b.capacity then (b, .ok)
  else
    let capacity := doubled need need (if 0 < b.capacity then b.capacity else initialBytes)
    let capacity := if maxBytes < capacity then maxBytes else capacity
    if capacity < need then (b, .invalidSize)
    else if writerAlloc capacity g.data = false then (b, .noMem)
    else
      match b.data with
      | none => ({ b with data := some g.fresh, gapEnd := capacity, capacity }, .ok)
      | some data =>
        let suffixLen := b.capacity - b.gapEnd
        let next := store g.fresh 0 (load data 0 b.gapStart)
        let next := store next (capacity - suffixLen) (load data b.gapEnd suffixLen)
        ({ b with data := some next, gapEnd := capacity - suffixLen, capacity }, .ok)

/-- `memcpy` or `memmove` into the text storage. -/
def mapData (f : Memory → Memory) : Buffer := { b with data := b.data.map f }

def set (text : List UInt8) (g : Grants) : Buffer × EspErr :=
  if maxBytes < text.length then (b, .invalidSize)
  else
    let b := { clearUndo b with data := none, capacity := 0, gapStart := 0, gapEnd := 0 }
    match writerReserve b text.length g with
    | (b, .ok) =>
      ({ mapData b (store · 0 text) with gapStart := text.length, gapEnd := b.capacity }, .ok)
    | (b, ret) => (b, ret)

/-- `solar_os_writer_buffer_copy` of a span that lies inside the text. -/
def copy (offset len : Nat) : List UInt8 :=
  let before := if offset < b.gapStart then min len (b.gapStart - offset) else 0
  match b.data with
  | none => []
  | some data => load data offset before ++
      load data (offset + before + writerGapSize b) (len - before)

def flatten (granted : Bool) : Except EspErr (List UInt8) :=
  if writerAlloc (length b + 1) granted = false then .error .noMem
  else .ok (copy b 0 (length b))

def writerMoveGap (offset : Nat) : Buffer :=
  if offset < b.gapStart then
    let move := b.gapStart - offset
    { mapData b (ByteMemory.copy · (b.gapEnd - move) offset move) with
      gapStart := b.gapStart - move, gapEnd := b.gapEnd - move }
  else if b.gapStart < offset then
    let move := offset - b.gapStart
    { mapData b (ByteMemory.copy · b.gapStart b.gapEnd move) with
      gapStart := b.gapStart + move, gapEnd := b.gapEnd + move }
  else b

def writerReplaceRaw (offset removeLen : Nat) (insert : List UInt8) (g : Grants) :
    Buffer × EspErr :=
  let len := length b
  if len < offset ∨ len - offset < removeLen then (b, .invalidArg)
  else
    match writerReserve b (len - removeLen + insert.length) g with
    | (b, .ok) =>
      let b := writerMoveGap b offset
      ({ mapData b (store · b.gapStart insert) with
        gapStart := b.gapStart + insert.length, gapEnd := b.gapEnd + removeLen }, .ok)
    | (b, ret) => (b, ret)

variable (op : UndoOp)

def UndoOp.payload : Nat := op.removed.length + op.inserted.length

def writerDropRedo : Buffer :=
  { b with
    undo := b.undo.take b.undoCursor
    undoPayload := (b.undo.drop b.undoCursor).foldl (fun payload op => payload - op.payload)
      b.undoPayload }

def writerEvictOldest : Buffer :=
  match b.undo with
  | [] => b
  | op :: rest =>
    { b with undo := rest, undoPayload := b.undoPayload - op.payload, undoCursor := b.undoCursor - 1 }

/-- A loop that evicts while the condition holds; `fuel` bounds the records. -/
def evictWhile (full : Buffer → Bool) : Nat → Buffer → Buffer
  | 0, b => b
  | fuel + 1, b =>
    if b.undo ≠ [] ∧ full b then evictWhile full fuel (writerEvictOldest b) else b

def joinUndo (added : Nat) : Buffer :=
  { b with undo := b.undo.set (b.undoCursor - 1) op, undoPayload := b.undoPayload + added }

def writerTryCoalesceInsert (offset : Nat) (insert : List UInt8) (cursorAfter : Nat) (g : Grants) :
    Option Buffer :=
  if b.undoCursor = 0 ∨ b.undoCursor ≠ b.undo.length ∨ insert.length = 0 then none
  else
    match b.undo[b.undoCursor - 1]? with
    | none => none
    | some op =>
      if op.removed.length ≠ 0 ∨ op.offset + op.inserted.length ≠ offset ∨
          undoMaxPayload < op.inserted.length + insert.length then none
      else if writerAlloc (op.inserted.length + insert.length) g.joined = false then none
      else some (joinUndo b { op with inserted := op.inserted ++ insert, cursorAfter } insert.length)

def writerTryCoalesceDelete (offset : Nat) (removed : List UInt8) (cursorAfter : Nat) (g : Grants) :
    Option Buffer :=
  if b.storage = false ∨ b.undoCursor = 0 ∨ b.undoCursor ≠ b.undo.length ∨ removed.length = 0 then
    none
  else
    match b.undo[b.undoCursor - 1]? with
    | none => none
    | some op =>
      if op.inserted.length ≠ 0 ∨ (op.offset ≠ offset ∧ offset + removed.length ≠ op.offset) ∨
          undoMaxPayload < op.removed.length + removed.length then none
      else if writerAlloc (op.removed.length + removed.length) g.joined = false then none
      else if op.offset = offset then
        some (joinUndo b { op with removed := op.removed ++ removed, cursorAfter } removed.length)
      else
        some (joinUndo b { op with offset, removed := removed ++ op.removed, cursorAfter }
          removed.length)

/-- A new record, after the oldest ones have made room for it. -/
def recordUndo : Buffer :=
  let b := evictWhile
    (fun b => undoMaxOps ≤ b.undo.length || undoMaxPayload < b.undoPayload + op.payload)
    b.undo.length b
  if op.payload ≤ undoMaxPayload then
    { b with
      undo := b.undo ++ [op]
      undoCursor := b.undo.length + 1
      undoPayload := b.undoPayload + op.payload }
  else b

/-- What `solar_os_writer_buffer_replace` does to the records once the text is replaced. -/
def noteReplace (g : Grants) : Buffer :=
  let b := writerDropRedo b
  if b.storage = false ∧ writerAlloc (undoMaxOps * 28) g.storage = false then b
  else
    let b := { b with storage := true }
    let joined :=
      if op.removed.length = 0 then
        writerTryCoalesceInsert b op.offset op.inserted op.cursorAfter g
      else none
    let joined := joined.or
      (if op.inserted.length = 0 then
        writerTryCoalesceDelete b op.offset op.removed op.cursorAfter g
      else none)
    let b := joined.getD (recordUndo b op)
    evictWhile (fun b => undoMaxPayload < b.undoPayload) b.undo.length b

def replace (offset removeLen : Nat) (insert : List UInt8) (cursorBefore cursorAfter : Nat)
    (g : Grants) : Buffer × EspErr :=
  let len := length b
  if len < offset ∨ len - offset < removeLen then (b, .invalidArg)
  else if removeLen = 0 ∧ insert.length = 0 then (b, .ok)
  else if 0 < removeLen ∧ writerAlloc removeLen g.removed = false then (b, .noMem)
  else if 0 < insert.length ∧ writerAlloc insert.length g.inserted = false then (b, .noMem)
  else
    let removed := copy b offset removeLen
    match writerReplaceRaw b offset removeLen insert g with
    | (b, .ok) =>
      (noteReplace b { offset, removed, inserted := insert, cursorBefore, cursorAfter } g, .ok)
    | (b, ret) => (b, ret)

/-- `solar_os_writer_buffer_undo`; the cursor when it returns true. -/
def undo (g : Grants) : Buffer × Option Nat :=
  if b.undoCursor = 0 then (b, none)
  else
    match b.undo[b.undoCursor - 1]? with
    | none => (b, none)
    | some op =>
      match writerReplaceRaw b op.offset op.inserted.length op.removed g with
      | (b, .ok) => ({ b with undoCursor := b.undoCursor - 1 }, some op.cursorBefore)
      | (b, _) => (b, none)

/-- `solar_os_writer_buffer_redo`; the cursor when it returns true. -/
def redo (g : Grants) : Buffer × Option Nat :=
  match b.undo[b.undoCursor]? with
  | none => (b, none)
  | some op =>
    match writerReplaceRaw b op.offset op.removed.length op.inserted g with
    | (b, .ok) => ({ b with undoCursor := b.undoCursor + 1 }, some op.cursorAfter)
    | (b, _) => (b, none)

end SolarOs.Writer
