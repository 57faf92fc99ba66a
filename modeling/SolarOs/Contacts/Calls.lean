import SolarOs.Contacts.Model
import SolarOs.Library.Program

/-! The calls of the contacts as programs over the tables, the locks and the file they are
kept in. -/
namespace SolarOs.Contacts
open Program Function

/-- What a place of the file may hold after a power loss: the newest content first, `none`
where it cannot be read. -/
abbrev Cell (α : Type) := List (Option α)

/-- `contacts_store_header_t` of one that can be read. -/
structure Header where
  generation : Nat
  dataSlot : Fin 2
  dataCrc : Nat
  deriving DecidableEq

structure Disk where
  headers : Fin 2 → Cell Header
  data : Fin 2 → Cell StoreData

structure Image where
  headers : Fin 2 → Option Header
  data : Fin 2 → Option StoreData

def Disk.Leaves (disk : Disk) (image : Image) : Prop :=
  ∀ i, image.headers i ∈ disk.headers i ∧ image.data i ∈ disk.data i

def Disk.blank : Disk where
  headers := fun _ => [none]
  data := fun _ => [none]

def Image.settled (image : Image) : Disk where
  headers := fun i => [image.headers i]
  data := fun i => [image.data i]

def Cell.write {α : Type} (cell : Cell α) (a : α) : Cell α := some a :: none :: cell

def Cell.sync {α : Type} (cell : Cell α) : Cell α := cell.take 1

def generationNewer (first second : Nat) : Bool :=
  let difference := (first + 4294967296 - second) % 4294967296
  0 < difference && difference < 2147483648

/-- The readable headers, the newer one first. -/
def restoreOrder (image : Image) : List Header :=
  let valid := fun i => (image.headers i).filter fun h => h.generation ≠ 0
  match valid 0, valid 1 with
  | none, none => []
  | some a, none => [a]
  | none, some b => [b]
  | some a, some b => if generationNewer b.generation a.generation then [b, a] else [a, b]

variable (crc32 : StoreData → Nat)

def restoreFrom (image : Image) (h : Header) : Option (Header × StoreData) :=
  match image.data h.dataSlot with
  | some data => if h.dataCrc = crc32 data ∧ storeDataValid data then some (h, data) else none
  | none => none

/-- `contacts_restore` of a file that can be opened. -/
def restore (image : Image) : Option (Header × StoreData) :=
  (restoreOrder image).findSome? (restoreFrom crc32 image)

structure World where
  tables : State
  diskGeneration : Nat
  diskSlot : Fin 2
  storePath : Bool
  ioHeld : Bool
  /-- The file, if there is one. -/
  file : Option Disk
  /-- Whether this start has read what was stored, or there was nothing to read. -/
  knowsFile : Bool
  /-- The records that were made, in order. -/
  snapshots : List StoreData
  /-- The record of the last persist that returned ESP_OK. -/
  promised : Option Nat
  /-- What the last persist since the start returned. -/
  lastPersist : Option EspErr

structure Env where
  now : Nat
  done : Bool
  error : EspErr

inductive Place where
  | header (slot : Fin 2)
  | data (slot : Fin 2)

/-- What the section before a write hands on: the generation of the tables, the generation
and the slot on disk, and the record. -/
structure Snapshot where
  generation : Nat
  diskGeneration : Nat
  dataSlot : Fin 2
  data : StoreData

/-- The critical sections and the file operations. -/
inductive Op : Type → Type
  | apply (c : Call) : Op EspErr
  | takeIo : Op Unit
  | giveIo (error : EspErr) : Op Unit
  | hasPath : Op Bool
  | preparePath : Op EspErr
  | snapshot : Op Snapshot
  | openUpdate : Op Bool
  | openTruncate : Op Bool
  | writeData (slot : Fin 2) (data : StoreData) : Op Bool
  | writeHeader (slot : Fin 2) (header : Header) : Op Bool
  | syncFile (place : Place) : Op Bool
  | close : Op Bool
  | finish (error : EspErr) (snapshot : Snapshot) : Op Bool

/-- What a call returns. -/
def callResult (s : State) : Call → Nat → EspErr
  | .upsertDiscovered request, now =>
    match (upsertDiscovered s request now).2 with
    | .ok _ => .ok
    | .error error => error
  | .rename id displayName, now => (rename s id displayName now).2
  | .setTrust contactId endpointId trust, now => (setTrust s contactId endpointId trust now).2
  | .remove id, _ => (remove s id).2
  | .link targetId sourceId, now => (link s targetId sourceId now).2

/-- The section of `contacts_persist_current` before the write. -/
def World.takeSnapshot (w : World) : World × Snapshot :=
  let data := runtimeToDisk w.tables
  ({ w with snapshots := w.snapshots ++ [data] },
    { generation := w.tables.generation
      diskGeneration := nextGeneration w.diskGeneration
      dataSlot := w.diskSlot + 1
      data })

def World.onDisk (w : World) (f : Disk → Disk) : World := { w with file := w.file.map f }

def Disk.writeData (disk : Disk) (slot : Fin 2) (data : StoreData) : Disk :=
  { disk with data := update disk.data slot ((disk.data slot).write data) }

def Disk.writeHeader (disk : Disk) (slot : Fin 2) (header : Header) : Disk :=
  { disk with headers := update disk.headers slot ((disk.headers slot).write header) }

def Disk.sync (disk : Disk) : Place → Disk
  | .header slot =>
    { disk with headers := update disk.headers slot (disk.headers slot).sync }
  | .data slot => { disk with data := update disk.data slot (disk.data slot).sync }

/-- The section of `contacts_persist_current` after the write. -/
def World.finish (w : World) (error : EspErr) (snapshot : Snapshot) : World × Bool :=
  (if error = .ok then
      { w with diskGeneration := snapshot.diskGeneration, diskSlot := snapshot.dataSlot }
    else w,
    snapshot.generation = w.tables.generation)

def act {α : Type} : Op α → World → Env → World × α
  | .apply c, w, e => ({ w with tables := call w.tables c e.now }, callResult w.tables c e.now)
  | .takeIo, w, _ => ({ w with ioHeld := true }, ())
  | .giveIo error, w, _ =>
    ({ w with
        ioHeld := false
        lastPersist := some error
        promised := if error = .ok then some (w.snapshots.length - 1) else w.promised },
      ())
  | .hasPath, w, _ => (w, w.storePath)
  | .preparePath, w, e => ({ w with storePath := w.storePath || e.error == .ok }, e.error)
  | .snapshot, w, _ => w.takeSnapshot
  | .openUpdate, w, e => (w, e.done && w.file.isSome)
  | .openTruncate, w, e => (if e.done then { w with file := some .blank } else w, e.done)
  | .writeData slot data, w, e => (w.onDisk fun disk => disk.writeData slot data, e.done)
  | .writeHeader slot header, w, e => (w.onDisk fun disk => disk.writeHeader slot header, e.done)
  | .syncFile place, w, e => (if e.done then w.onDisk fun disk => disk.sync place else w, e.done)
  | .close, w, e => (w, e.done)
  | .finish error snapshot, w, _ => w.finish error snapshot

def enabled {α : Type} : Op α → World → Prop
  | .takeIo, w => w.ioHeld = false
  | _, _ => True

instance {α : Type} (op : Op α) (w : World) : Decidable (enabled op w) := by
  cases op <;> unfold enabled <;> infer_instance

section
variable (snapshot : Snapshot)

def writeRecord : Program Op EspErr := do
  if ← invoke (.writeData snapshot.dataSlot snapshot.data) then
    if ← invoke (.syncFile (.data snapshot.dataSlot)) then return .ok
  return .fail

def Snapshot.header : Header where
  generation := snapshot.diskGeneration
  dataSlot := snapshot.dataSlot
  dataCrc := crc32 snapshot.data

def writeHeader : Program Op EspErr := do
  let slot := Fin.ofNat 2 snapshot.diskGeneration
  if ← invoke (.writeHeader slot (snapshot.header crc32)) then
    if ← invoke (.syncFile (.header slot)) then return .ok
  return .fail

/-- `contacts_write_snapshot` once the file is open. -/
def writeOpened : Program Op EspErr := do
  let written ← writeRecord snapshot
  let error ← if written = .ok then writeHeader crc32 snapshot else pure written
  let closed ← invoke .close
  return if closed then error else .fail

def writeSnapshot : Program Op EspErr := do
  if ← invoke .openUpdate then writeOpened crc32 snapshot
  else
    if ← invoke .openTruncate then writeOpened crc32 snapshot
    else return .fail

end

/-- One attempt of `contacts_persist_current`: what it leads to, and whether to go on. -/
def persistAttempt : Program Op (EspErr × Bool) := do
  let snapshot ← invoke .snapshot
  let error ← writeSnapshot crc32 snapshot
  let current ← invoke (.finish error snapshot)
  return (error, error = .ok && !current)

/-- The attempts of `contacts_persist_current`. -/
def persistAttempts (crc32 : StoreData → Nat) : Nat → EspErr → Program Op EspErr
  | 0, error => return error
  | attempts + 1, _ => do
    let known ← invoke .hasPath
    let path ← if known then pure .ok else invoke .preparePath
    if path ≠ .ok then return path
    else
      let (error, again) ← persistAttempt crc32
      if again then persistAttempts crc32 attempts error else return error

def persistCurrent : Program Op EspErr := do
  invoke .takeIo
  let error ← persistAttempts crc32 3 .fail
  invoke (.giveIo error)
  return error

def body (c : Call) : Program Op EspErr := do
  let error ← invoke (.apply c)
  if error = .ok then do
    let _ ← persistCurrent crc32
    return .ok
  else return error

/-- The calls under way, over the tables and their file. -/
abbrev Calls := Pool Op World EspErr

/-- What a start finds: whether the storage is there and the file can be opened, and what of
the file the power loss has left. -/
structure Boot where
  mounted : Bool
  readable : Bool
  image : Option Image

/-- What `solar_os_contacts_init` restores. -/
def Boot.restored (b : Boot) : Option (Header × StoreData) :=
  if b.mounted ∧ b.readable then b.image.bind (restore crc32) else none

def Boot.holds (b : Boot) : Bool := (b.image.bind (restore crc32)).isSome

/-- `solar_os_contacts_init`, which stores the tables when it finds no file. -/
def init (b : Boot) (w : World) : Calls :=
  let w : World :=
    { w with
      tables := initial
      diskGeneration := 0
      diskSlot := 0
      storePath := b.mounted
      ioHeld := false
      file := b.image.map Image.settled
      knowsFile := (b.restored crc32).isSome || !b.holds crc32
      lastPersist := none }
  match b.restored crc32 with
  | some (h, data) =>
    { state :=
        { w with
          tables := diskToRuntime data, diskGeneration := h.generation, diskSlot := h.dataSlot }
      threads := [] }
  | none =>
    { state := w
      threads := if b.mounted ∧ b.image.isNone then [persistCurrent crc32] else [] }

/-- A device that has never been started. -/
def unused : Calls where
  state :=
    { tables := initial
      diskGeneration := 0
      diskSlot := 0
      storePath := false
      ioHeld := false
      file := none
      knowsFile := false
      snapshots := []
      promised := none
      lastPersist := none }
  threads := []

/-- What happens: a call gets its turn, or the power is lost and the device starts again. -/
inductive Moment where
  | turn (t : Turn Call Env)
  | reboot (b : Boot)

def pass (pool : Calls) : Moment → Calls
  | .turn t => Pool.turn act enabled (body crc32) pool t
  | .reboot b => init crc32 b pool.state

end SolarOs.Contacts
