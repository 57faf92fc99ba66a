import Mathlib.Logic.Function.Basic
import SolarOs.Library.LinkedList
import SolarOs.Ramfs.Arena

/-! The tree of a RAM filesystem mount: its nodes, their sibling chains, and the two
walks along a path. -/
namespace SolarOs.Ramfs
open ByteMemory

def nameMax : Nat := 255

/-- The characters `/` and `.`. -/
def slash : UInt8 := 47

def dot : UInt8 := 46

/-- A string for a buffer of `NAME_MAX + 1` bytes. -/
structure Name where
  bytes : List UInt8
  fits : bytes.length ≤ nameMax
  deriving DecidableEq

def Name.empty : Name := ⟨[], Nat.zero_le _⟩

/-- Where a node lies: in the mount itself, or in a block of the arena. -/
inductive Place where
  | root
  | block (ptr : Nat)
  deriving DecidableEq

/-- `ramfs_node_t`. The name is the string that `namePtr` points to, `data` points to the
bytes of a file, 0 is `NULL`. -/
structure Node where
  name : Name
  namePtr : Nat
  isDir : Bool
  parent : Option Place
  children : Option Place
  next : Option Place
  data : Nat
  size : Nat
  capacity : Nat

def Node.zero : Node := ⟨.empty, 0, false, none, none, none, 0, 0, 0⟩

/-- `sizeof(ramfs_node_t)`. -/
def nodeBytes : Nat := 40

def maxOpenFiles : Nat := 16

/-- An active `ramfs_file_t`. -/
structure RamfsFile where
  node : Place
  offset : Nat
  flags : Nat
  deriving DecidableEq

/-- `ramfs_mount_t`: the arena, the nodes that are allocated, the open files. -/
structure Mount where
  heap : Heap
  nodes : Place → Option Node
  fileCount : Nat
  dirCount : Nat
  files : Fin maxOpenFiles → Option RamfsFile

def Mount.fresh (heap : Heap) : Mount where
  heap
  nodes := fun place => if place = .root then some { Node.zero with isDir := true } else none
  fileCount := 0
  dirCount := 1
  files := fun _ => none

/-- What `solar_os_ramfs_mount` sets up over the `quota` bytes it was given at `arena`. -/
def mount (memory : Memory) (arena quota : Nat) : Except EspErr Mount :=
  (mountHeap memory arena quota).map .fresh

/-- `ramfs_next_segment` with a buffer of `NAME_MAX + 1` bytes: the segment and what is
left, nothing at the end of the path, and nothing when the segment does not fit either. -/
def nextSegment (cursor : List UInt8) : Option (Name × List UInt8) :=
  let p := cursor.dropWhile (· = slash)
  if p = [] then
    none
  else
    let segment := p.takeWhile (· ≠ slash)
    if h : segment.length ≤ nameMax then some (⟨segment, h⟩, p.dropWhile (· ≠ slash)) else none

theorem nextSegment_shorter {cursor rest : List UInt8} {segment : Name}
    (h : nextSegment cursor = some (segment, rest)) : rest.length < cursor.length := by
  unfold nextSegment at h
  generalize hp : cursor.dropWhile (· = slash) = p at h
  have shorter : p.length ≤ cursor.length := hp ▸ (List.dropWhile_suffix _).length_le
  cases p with
  | nil => simp at h
  | cons c p =>
    have plain : c ≠ slash := by
      have := List.head_dropWhile_not (l := cursor) (fun x => decide (x = slash)) (by rw [hp]; exact List.cons_ne_nil c p)
      simpa [hp] using this
    simp only [List.cons_ne_nil, if_false] at h
    split at h
    · cases h
      rw [List.dropWhile_cons_of_pos (by simpa using plain)]
      have := (List.dropWhile_suffix (l := p) (fun x => decide (x ≠ slash))).length_le
      rw [List.length_cons] at shorter
      omega
    · exact nomatch h

namespace Mount
variable (m : Mount)

def node (place : Place) : Node := (m.nodes place).getD .zero

def setNode (place : Place) (node : Node) : Mount :=
  { m with nodes := Function.update m.nodes place (some node) }

def next (place : Place) : Option Place := (m.node place).next

/-- Each node of a sibling chain is a block of the arena, so `arenaBytes` steps are enough. -/
def findChild (parent : Place) (name : Name) : Option Place :=
  LinkedList.find m.next (fun child => (m.node child).name = name) m.heap.arenaBytes (m.node parent).children

def childrenOf (parent : Place) : List Place :=
  LinkedList.toList m.next m.heap.arenaBytes (m.node parent).children

def linkFirst (place parent : Place) (node : Node) : Mount :=
  let m := m.setNode place { node with parent := some parent, next := (m.node parent).children }
  m.setNode parent { m.node parent with children := some place }

def insertNode (ptr namePtr : Nat) (parent : Place) (name : Name) (isDir : Bool) : Mount :=
  let m := m.linkFirst (.block ptr) parent { Node.zero with name, namePtr, isDir }
  if isDir then { m with dirCount := m.dirCount + 1 } else { m with fileCount := m.fileCount + 1 }

def allocNode (parent : Place) (name : Name) (isDir : Bool) : Mount × Except Errno Place :=
  match alloc m.heap nodeBytes with
  | (heap, .error errno) => ({ m with heap }, .error errno)
  | (heap, .ok ptr) =>
    match alloc heap (name.bytes.length + 1) with
    | (heap, .error errno) => ({ m with heap := free heap ptr }, .error errno)
    | (heap, .ok copy) => ({ m with heap }.insertNode ptr copy parent name isDir, .ok (.block ptr))

/-- The end of `ramfs_free_tree`, after the children. -/
def freeNode (place : Place) : Mount :=
  match place with
  | .root => m.setNode .root { m.node .root with children := none }
  | .block ptr =>
    let node := m.node place
    let m := if node.isDir then { m with dirCount := m.dirCount - 1 } else { m with fileCount := m.fileCount - 1 }
    { m with
      heap := free (free (free m.heap node.data) node.namePtr) ptr
      nodes := Function.update m.nodes place none }

mutual

/-- `ramfs_free_tree`, in a tree of at most `fuel` levels and siblings. -/
def freeTree : Nat → Mount → Place → Mount
  | 0, m, _ => m
  | fuel + 1, m, place => (freeChildren fuel m (m.node place).children).freeNode place

def freeChildren : Nat → Mount → Option Place → Mount
  | 0, m, _ => m
  | _ + 1, m, none => m
  | fuel + 1, m, some child => freeChildren fuel (freeTree fuel m child) (m.next child)

end

/-- What points to the node is made to point to the one after it. -/
def unlinkNode (place : Place) : Mount :=
  match (m.node place).parent with
  | none => m
  | some parent =>
    match LinkedList.before m.next place m.heap.arenaBytes none (m.node parent).children with
    | none => m
    | some previous =>
      let m := match previous with
        | none => m.setNode parent { m.node parent with children := m.next place }
        | some sibling => m.setNode sibling { m.node sibling with next := m.next place }
      m.setNode place { m.node place with next := none }

/-- The loop of `ramfs_find_node` from a node on. -/
def findNodeFrom (place : Place) (cursor : List UInt8) : Except Errno Place :=
  match _h : nextSegment cursor with
  | none => .ok place
  | some (segment, rest) =>
    if segment.bytes = [dot] then
      findNodeFrom place rest
    else if segment.bytes = [dot, dot] then
      findNodeFrom ((m.node place).parent.getD place) rest
    else if (m.node place).isDir = false then
      .error .ENOTDIR
    else
      match m.findChild place segment with
      | none => .error .ENOENT
      | some child => findNodeFrom child rest
termination_by cursor.length
decreasing_by all_goals exact nextSegment_shorter ‹_›

def findNode (path : List UInt8) : Except Errno Place :=
  if path = [] then .error .EINVAL else m.findNodeFrom .root path

/-- Whether anything but `.` is left of a path. -/
def hasNext (peek : List UInt8) : Bool :=
  match _h : nextSegment peek with
  | none => false
  | some (segment, rest) => if segment.bytes = [dot] then hasNext rest else true
termination_by peek.length
decreasing_by exact nextSegment_shorter ‹_›

/-- The loop of `ramfs_resolve_parent` from a node on, where `last` is the leaf so far. -/
def resolveFrom (place : Place) (last : Name) (cursor : List UInt8) : Except Errno (Place × Name) :=
  match _h : nextSegment cursor with
  | none => .ok (place, last)
  | some (segment, rest) =>
    if segment.bytes = [dot] then
      resolveFrom place last rest
    else if segment.bytes = [dot, dot] then
      resolveFrom ((m.node place).parent.getD place) .empty rest
    else if hasNext rest = false then
      .ok (place, segment)
    else
      match m.findChild place segment with
      | none => .error .ENOENT
      | some child => if (m.node child).isDir = false then .error .ENOTDIR else resolveFrom child last rest
termination_by cursor.length
decreasing_by all_goals exact nextSegment_shorter ‹_›

/-- The directory and the last name of a path. A leaf fits its buffer, whose size is that
of a segment at every call. -/
def resolveParent (path : List UInt8) : Except Errno (Place × Name) :=
  match m.resolveFrom .root .empty path with
  | .error errno => .error errno
  | .ok (place, last) =>
    if last = .empty then
      .error .EINVAL
    else if (m.node place).isDir = false then
      .error .ENOTDIR
    else
      .ok (place, last)

end Mount

def O_ACCMODE : Nat := 3

def O_RDONLY : Nat := 0

def O_WRONLY : Nat := 1

def O_APPEND : Nat := 0x8

def O_CREAT : Nat := 0x200

def O_TRUNC : Nat := 0x400

def O_EXCL : Nat := 0x800

def truncates (flags : Nat) : Bool := flags &&& O_TRUNC ≠ 0 ∧ flags &&& O_ACCMODE ≠ O_RDONLY

/-- How `lseek` counts. -/
inductive Whence where
  | set
  | cur
  | end_
  | other
  deriving DecidableEq

namespace Mount
variable (m : Mount)

def nodeIsOpen (place : Place) : Bool :=
  decide (∃ fd, ∃ file ∈ m.files fd, file.node = place)

def setFile (fd : Fin maxOpenFiles) (file : Option RamfsFile) : Mount :=
  { m with files := Function.update m.files fd file }

def freeFd : Option (Fin maxOpenFiles) := (List.finRange maxOpenFiles).find? fun fd => (m.files fd).isNone

def allocateFd (place : Place) (flags : Nat) : Mount × Except Errno (Fin maxOpenFiles) :=
  match m.freeFd with
  | none => (m, .error .EMFILE)
  | some fd =>
    let offset := if flags &&& O_APPEND ≠ 0 then (m.node place).size else 0
    (m.setFile fd (some { node := place, offset, flags }), .ok fd)

variable (fd : Int)

def getFile : Except Errno (Fin maxOpenFiles × RamfsFile) :=
  if h : 0 ≤ fd ∧ fd.toNat < maxOpenFiles then
    match m.files ⟨fd.toNat, h.2⟩ with
    | none => .error .EBADF
    | some file => .ok (⟨fd.toNat, h.2⟩, file)
  else
    .error .EBADF

/-- The bytes between the old capacity and the new one are cleared. -/
def resizeNode (place : Place) (size : Nat) : Mount × Except Errno Unit :=
  let node := m.node place
  if node.isDir then
    (m, .error .EISDIR)
  else if size = 0 then
    ({ m with heap := free m.heap node.data }.setNode place { node with data := 0, size := 0, capacity := 0 }, .ok ())
  else
    match realloc m.heap node.data node.capacity size with
    | (heap, .error errno) => ({ m with heap }, .error errno)
    | (heap, .ok data) =>
      let heap := if node.capacity < size then
          { heap with memory := fill heap.memory (data + node.capacity) 0 (size - node.capacity) }
        else heap
      ({ m with heap }.setNode place { node with data, capacity := size, size }, .ok ())

/-- `ramfs_vfs_open` once there is a node for the path. -/
def openNode (place : Place) (flags : Nat) : Mount × Except Errno (Fin maxOpenFiles) :=
  if (m.node place).isDir then
    (m, .error .EISDIR)
  else if truncates flags then
    match m.resizeNode place 0 with
    | (m, .error errno) => (m, .error errno)
    | (m, .ok ()) => m.allocateFd place flags
  else
    m.allocateFd place flags

variable (path : List UInt8)

/-- The file `ramfs_vfs_open` makes, and the directory `ramfs_vfs_mkdir` makes. -/
def createNode (isDir : Bool) : Mount × Except Errno Place :=
  match m.resolveParent path with
  | .error errno => (m, .error errno)
  | .ok (parent, leaf) =>
    if (m.findChild parent leaf).isSome then
      (m, .error .EEXIST)
    else
      m.allocNode parent leaf isDir

def vfsOpen (flags : Nat) : Mount × Except Errno (Fin maxOpenFiles) :=
  match m.findNode path with
  | .error errno =>
    if flags &&& O_CREAT = 0 then
      (m, .error errno)
    else
      match m.createNode path false with
      | (m, .error errno) => (m, .error errno)
      | (m, .ok place) => m.openNode place flags
  | .ok place =>
    if flags &&& O_CREAT ≠ 0 ∧ flags &&& O_EXCL ≠ 0 then
      (m, .error .EEXIST)
    else
      m.openNode place flags

def vfsClose : Mount × Except Errno Unit :=
  match m.getFile fd with
  | .error errno => (m, .error errno)
  | .ok (fd, _) => (m.setFile fd none, .ok ())

/-- At most `size` bytes from the offset on. -/
def vfsRead (size : Nat) : Mount × Except Errno (List UInt8) :=
  match m.getFile fd with
  | .error errno => (m, .error errno)
  | .ok (fd, file) =>
    let node := m.node file.node
    if file.flags &&& O_ACCMODE = O_WRONLY then
      (m, .error .EBADF)
    else if node.size ≤ file.offset then
      (m, .ok [])
    else
      let size := min size (node.size - file.offset)
      (m.setFile fd (some { file with offset := file.offset + size }),
        .ok (load m.heap.memory (node.data + file.offset) size))

def putBytes (fd : Fin maxOpenFiles) (file : RamfsFile) (bytes : List UInt8) : Mount :=
  let node := m.node file.node
  let stop := file.offset + bytes.length
  let m := { m with heap := { m.heap with memory := store m.heap.memory (node.data + file.offset) bytes } }
  let m := m.setFile fd (some { file with offset := stop })
  m.setNode file.node { node with size := max node.size stop }

/-- Where a write call puts its bytes: at the end with `O_APPEND`. -/
def atEnd (file : RamfsFile) : RamfsFile :=
  if file.flags &&& O_APPEND ≠ 0 then { file with offset := (m.node file.node).size } else file

def vfsWrite (bytes : List UInt8) : Mount × Except Errno Nat :=
  match m.getFile fd with
  | .error errno => (m, .error errno)
  | .ok (fd, file) =>
    if file.flags &&& O_ACCMODE = O_RDONLY then
      (m, .error .EBADF)
    else
      let file := m.atEnd file
      let m := m.setFile fd (some file)
      if sizeMax - file.offset < bytes.length then
        (m, .error .EFBIG)
      else
        let stop := file.offset + bytes.length
        if (m.node file.node).capacity < stop then
          match m.resizeNode file.node stop with
          | (m, .error errno) => (m, .error errno)
          | (m, .ok ()) => (m.putBytes fd file bytes, .ok bytes.length)
        else
          (m.putBytes fd file bytes, .ok bytes.length)

def vfsLseek (offset : Int) (mode : Whence) : Mount × Except Errno Nat :=
  match m.getFile fd with
  | .error errno => (m, .error errno)
  | .ok (fd, file) =>
    let base : Option Int := match mode with
      | .set => some 0
      | .cur => some file.offset
      | .end_ => some (m.node file.node).size
      | .other => none
    match base with
    | none => (m, .error .EINVAL)
    | some base =>
      if base + offset < 0 ∨ sizeMax < base + offset then
        (m, .error .EINVAL)
      else
        (m.setFile fd (some { file with offset := (base + offset).toNat }), .ok (base + offset).toNat)

def vfsTruncate (length : Int) : Mount × Except Errno Unit :=
  if length < 0 then
    (m, .error .EINVAL)
  else
    match m.findNode path with
    | .error errno => (m, .error errno)
    | .ok place => m.resizeNode place length.toNat

/-- An offset behind the new end is moved there. -/
def vfsFtruncate (length : Int) : Mount × Except Errno Unit :=
  if length < 0 then
    (m, .error .EINVAL)
  else
    match m.getFile fd with
    | .error errno => (m, .error errno)
    | .ok (fd, file) =>
      match m.resizeNode file.node length.toNat with
      | (m, .error errno) => (m, .error errno)
      | (m, .ok ()) =>
        if length.toNat < file.offset then
          (m.setFile fd (some { file with offset := length.toNat }), .ok ())
        else
          (m, .ok ())

def removeNode (place : Place) : Mount := freeTree (m.heap.arenaBytes + 1) (m.unlinkNode place) place

def vfsUnlink : Mount × Except Errno Unit :=
  match m.findNode path with
  | .error errno => (m, .error errno)
  | .ok place =>
    if (m.node place).isDir then
      (m, .error .EISDIR)
    else if m.nodeIsOpen place then
      (m, .error .EBUSY)
    else
      (m.removeNode place, .ok ())

def vfsMkdir : Mount × Except Errno Unit :=
  match m.createNode path true with
  | (m, .error errno) => (m, .error errno)
  | (m, .ok _) => (m, .ok ())

def vfsRmdir : Mount × Except Errno Unit :=
  match m.findNode path with
  | .error errno => (m, .error errno)
  | .ok place =>
    if place = .root then
      (m, .error .EINVAL)
    else if (m.node place).isDir = false then
      (m, .error .ENOTDIR)
    else if (m.node place).children.isSome then
      (m, .error .ENOTEMPTY)
    else
      (m.removeNode place, .ok ())

/-- The end of `ramfs_vfs_rename`, with the block of the new name. -/
def moveNode (place parent : Place) (leaf : Name) (newName : Nat) : Mount :=
  let oldName := (m.node place).namePtr
  let m := m.unlinkNode place
  let m := { m with heap := free m.heap oldName }
  m.linkFirst place parent { m.node place with name := leaf, namePtr := newName }

def vfsRename (src dst : List UInt8) : Mount × Except Errno Unit :=
  match m.findNode src with
  | .error errno => (m, .error errno)
  | .ok place =>
    if place = .root then
      (m, .error .EINVAL)
    else
      match m.resolveParent dst with
      | .error errno => (m, .error errno)
      | .ok (parent, leaf) =>
        if (m.findChild parent leaf).isSome then
          (m, .error .EEXIST)
        else
          match alloc m.heap (leaf.bytes.length + 1) with
          | (heap, .error errno) => ({ m with heap }, .error errno)
          | (heap, .ok newName) => ({ m with heap }.moveNode place parent leaf newName, .ok ())

end Mount
end SolarOs.Ramfs
