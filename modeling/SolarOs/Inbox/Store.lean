import SolarOs.Inbox.Model
import SolarOs.Library.Program
import Mathlib.Logic.Function.Basic

/-! The store file of the inbox: the file operations, and the programs that write the
store, replace it and load it. -/
namespace SolarOs.Inbox
open Program Function

def storeHeaderCopies : Nat := 2
def headerBytes : Nat := 32
def recordBytes : Nat := 464
def recordsOffset : Nat := storeHeaderCopies * headerBytes
def storeMaxBytes : Nat := recordsOffset + capacity * recordBytes

/-- `inbox_store_header_t` with the right magic, version, capacity and checksum. -/
structure Header where
  generation : Nat
  head : Nat
  count : Nat
  nextId : Nat
  dropped : Nat
  deriving DecidableEq

/-- A store file. A place that does not read back with its checksum is `none`. -/
structure StoreFile where
  size : Nat
  headers : Nat → Option Header
  records : Nat → Option Slot

def StoreFile.empty : StoreFile where
  size := 0
  headers _ := none
  records _ := none

inductive Path where
  | store | temporary | backup
  deriving DecidableEq

/-- The files the inbox works on. -/
abbrev Disk := Path → Option StoreFile

inductive Landed where
  | old | torn | new
  deriving DecidableEq

/-- Whether an operation succeeds, and what it leaves if it does not. -/
structure Env where
  done : Bool
  landed : Landed
  prepared : EspErr

inductive Stat where
  | missing
  | failed
  | found (size : Nat)

/-- The file operations and the allocation that can fail. -/
inductive Op : Type → Type
  | preparePath : Op EspErr
  | siblingPaths : Op Bool
  | stat (path : Path) : Op Stat
  | create (path : Path) : Op Bool
  | openStore : Op Bool
  | readHeaders : Op (Option Header × Option Header)
  | readRecord (index : Nat) : Op (Option Slot)
  | writeHeader (path : Path) (copy : Nat) (header : Header) : Op Bool
  | writeRecord (path : Path) (index : Nat) (slot : Slot) : Op Bool
  | sync : Op Bool
  | close : Op Bool
  | remove (path : Path) : Op Bool
  | rename (source target : Path) : Op Bool
  | alloc : Op Bool

/-- What a write leaves where there was `old`. -/
def Landed.leave {α : Type} (landed : Landed) (old new : Option α) : Option α :=
  match landed with
  | .old => old
  | .torn => none
  | .new => new

def Landed.switch (landed : Landed) (old new : Disk) : Disk :=
  match landed with
  | .new => new
  | _ => old

def StoreFile.putHeader (file : StoreFile) (copy : Nat) (landed : Landed) (header : Header) : StoreFile :=
  { file with
    size := if landed = .old then file.size else max file.size ((copy + 1) * headerBytes)
    headers := update file.headers copy (landed.leave (file.headers copy) (some header)) }

def StoreFile.putRecord (file : StoreFile) (index : Nat) (landed : Landed) (slot : Slot) : StoreFile :=
  { file with
    size := if landed = .old then file.size else max file.size (recordsOffset + (index + 1) * recordBytes)
    records := update file.records index (landed.leave (file.records index) (some slot)) }

/-- What an operation leaves on the disk when it gets as far as `landed`. -/
def effect {α : Type} (op : Op α) (disk : Disk) (landed : Landed) : Disk :=
  match op with
  | .create path => landed.switch disk (update disk path (some .empty))
  | .writeHeader path copy header =>
    update disk path ((disk path).map fun file => file.putHeader copy landed header)
  | .writeRecord path index slot =>
    update disk path ((disk path).map fun file => file.putRecord index landed slot)
  | .remove path => landed.switch disk (update disk path none)
  | .rename source target =>
    landed.switch disk (update (update disk target (disk source)) source none)
  | _ => disk

/-- What an operation returns. -/
def reply {α : Type} (op : Op α) (disk : Disk) (e : Env) : α :=
  match op with
  | .stat path =>
    match disk path with
    | none => .missing
    | some file => if e.done then .found file.size else .failed
  | .readHeaders =>
    match disk .store with
    | none => (none, none)
    | some file =>
      if e.done ∧ recordsOffset ≤ file.size then (file.headers 0, file.headers 1) else (none, none)
  | .readRecord index =>
    match disk .store with
    | none => none
    | some file => if e.done then file.records index else none
  | .openStore => e.done && (disk .store).isSome
  | .preparePath => e.prepared
  | .siblingPaths | .create _ | .writeHeader _ _ _ | .writeRecord _ _ _ | .sync | .close
  | .remove _ | .rename _ _ | .alloc => e.done

def act {α : Type} (op : Op α) (disk : Disk) (e : Env) : Disk × α :=
  (effect op disk (if e.done then .new else e.landed), reply op disk e)

abbrev Prog (α : Type) := Program Op α

variable (s : State)

def makeHeader (generation : Nat) : Header where
  generation := generation
  head := s.ring.head
  count := s.ring.count
  nextId := s.nextId
  dropped := s.dropped

def headerValid (header : Header) : Bool :=
  header.head < capacity && header.count ≤ capacity && header.nextId ≠ 0

/-- `inbox_generation_newer`, a signed comparison of the difference. -/
def generationNewer (first second : Nat) : Bool :=
  let difference := (first + 2 ^ 32 - second) % 2 ^ 32
  0 < difference && difference < 2 ^ 31

def recordValid (slot : Slot) : Bool := slot.entry.id ≠ 0

/-- `ESP_OK` only if both steps went well. -/
def closing (ok : Bool) : Prog EspErr := do
  let closed ← invoke .close
  return if ok && closed then .ok else .fail

/-- The loop over the copies of a header. -/
def writeHeaders (path : Path) (header : Header) : List Nat → Prog Bool
  | [] => return true
  | copy :: copies => do
    if ← invoke (.writeHeader path copy header) then
      writeHeaders path header copies
    else
      return false

/-- `inbox_store_reset_locked`. -/
def storeReset : Prog (State × EspErr) := do
  if ← invoke (.create .store) then
    let generation := successor s.generation
    let ok ← writeHeaders .store (makeHeader s generation) (List.range storeHeaderCopies)
    let synced ← (do
      if ok then
        invoke .sync
      else
        return false)
    let err ← closing synced
    return if err = .ok then
      ({ s with generation, persistent := true, storageError := .ok }, .ok)
    else ({ s with storageError := err }, err)
  else
    return (s, .fail)

/-- `inbox_store_write_locked`. -/
def storeWrite (index : Nat) (updateHeader : Bool) : Prog (State × EspErr) := do
  if s.persistent = false ∨ capacity ≤ index then
    return (s, .invalidState)
  else if ← invoke .openStore then
    let written ← (do
      if ← invoke (.writeRecord .store index (s.ring.slots index)) then
        invoke .sync
      else
        return false)
    let generation := if written && updateHeader then successor s.generation else s.generation
    let ok ← (do
      if written && updateHeader then
        if ← invoke (.writeHeader .store (generation % storeHeaderCopies) (makeHeader s generation)) then
          invoke .sync
        else
          return false
      else
        return written)
    let err ← closing ok
    return if err = .ok then ({ s with generation, storageError := .ok }, .ok)
    else ({ s with storageError := err }, err)
  else
    return ({ s with storageError := .fail }, .fail)

/-- The records of entries `i`, `i + 1` and so on. -/
def writeRecords (path : Path) : List Nat → Prog Bool
  | [] => return true
  | i :: rest => do
    if ← invoke (.writeRecord path (s.ring.index i) (s.ring.entry i)) then
      writeRecords path rest
    else
      return false

/-- `solar_os_storage_replace_file` on the three paths of the store. -/
def replaceFile : Prog EspErr := do
  match ← invoke (.stat .temporary) with
  | .found _ =>
    let active ← invoke (.stat .store)
    let hadActive := match active with
      | .found _ => true
      | _ => false
    let stale ← invoke (.stat .backup)
    let cleared ← (do
      match stale with
      | .found _ => invoke (.remove .backup)
      | _ => return true)
    if cleared = false then
      return .fail
    else
      let moved ← (do
        if hadActive then
          invoke (.rename .store .backup)
        else
          return true)
      if moved = false then
        return .fail
      else if ← invoke (.rename .temporary .store) then
        if hadActive then
          let _ ← invoke (.remove .backup)
        return .ok
      else
        if hadActive then
          let _ ← invoke (.rename .backup .store)
        return .fail
  | _ => return .notFound

/-- `inbox_store_rewrite_locked`. -/
def storeRewrite : Prog (State × EspErr) := do
  if (← invoke .siblingPaths) = false then
    return ({ s with storageError := .invalidSize }, .invalidSize)
  else if (← invoke (.create .temporary)) = false then
    return ({ s with storageError := .fail }, .fail)
  else
    let generation := successor s.generation
    let headers ← writeHeaders .temporary (makeHeader s generation) (List.range storeHeaderCopies)
    let records ← (do
      if headers then
        writeRecords s .temporary (List.range s.ring.count)
      else
        return false)
    let synced ← (do
      if records then
        invoke .sync
      else
        return false)
    let err ← closing synced
    if err ≠ .ok then
      let _ ← invoke (.remove .temporary)
      return ({ s with storageError := err }, err)
    else
      let err ← replaceFile
      if err ≠ .ok then
        let _ ← invoke (.remove .temporary)
        return ({ s with storageError := err }, err)
      else
        return ({ s with generation, persistent := true, storageError := .ok }, .ok)

/-- A header that describes a ring. -/
abbrev ValidHeader := { header : Header // headerValid header = true }

def checked (copy : Option Header) : Option ValidHeader :=
  copy.bind fun header => if valid : headerValid header = true then some ⟨header, valid⟩ else none

def newestHeader (first second : Option Header) : Option ValidHeader :=
  match checked first, checked second with
  | none, second => second
  | first, none => first
  | some first, some second =>
    if generationNewer second.val.generation first.val.generation then some second else some first

/-- The loop over the records in `inbox_store_load_locked`; `none` once one is not valid. -/
def readRecords : List Nat → (Nat → Slot) → Nat → Prog (Option ((Nat → Slot) × Nat))
  | [], slots, unread => return some (slots, unread)
  | index :: rest, slots, unread => do
    match ← invoke (.readRecord index) with
    | none => return none
    | some slot =>
      if recordValid slot then
        readRecords rest (update slots index slot)
          (if slot.entry.unread then unread + 1 else unread)
      else
        return none

def coveredPlaces (header : Header) : List Nat :=
  (List.range header.count).map fun i =>
    ((header.head + capacity - header.count) % capacity + i) % capacity

/-- The ring that a header describes, with these slots. -/
def loadedRing (header : ValidHeader) (slots : Nat → Slot) : SlotRing Slot capacity where
  slots := slots
  head := header.val.head
  count := header.val.count
  head_lt := by
    have valid := header.property
    simp only [headerValid, Bool.and_eq_true, decide_eq_true_eq] at valid
    exact valid.1.1
  count_le := by
    have valid := header.property
    simp only [headerValid, Bool.and_eq_true, decide_eq_true_eq] at valid
    exact valid.1.2

/-- What `inbox_store_load_locked` does once it has read the headers. -/
def loadFrom (header : ValidHeader) : Prog (State × EspErr) := do
  match ← readRecords (coveredPlaces header.val) (fun _ => .blank) 0 with
  | some (slots, unread) =>
    let _ ← invoke .close
    return ({ s with
      ring := loadedRing header slots
      unread
      nextId := header.val.nextId
      dropped := header.val.dropped
      generation := header.val.generation
      persistent := true
      storageError := .ok }, .ok)
  | none =>
    let _ ← invoke .close
    storeReset (emptied s)

/-- `inbox_store_load_locked`. -/
def storeLoad : Prog (State × EspErr) := do
  let err ← invoke .preparePath
  if err ≠ .ok then
    return ({ s with persistent := false, storageError := err }, err)
  else
    match ← invoke (.stat .store) with
    | .missing => storeReset s
    | .failed => return ({ s with storageError := .fail }, .fail)
    | .found size =>
      if size < recordsOffset ∨ storeMaxBytes < size then
        storeReset s
      else if (← invoke .openStore) = false then
        return ({ s with storageError := .fail }, .fail)
      else
        let (first, second) ← invoke .readHeaders
        match newestHeader first second with
        | none =>
          let _ ← invoke .close
          storeReset s
        | some header => loadFrom s header

end SolarOs.Inbox

/-! The calls of the inbox. The lock is held from their first look at the ring to their
end, so each call takes the state and gives the state after it. -/
namespace SolarOs.Inbox
open Program Function

/-- `solar_os_inbox_init`, once per start. -/
def init : Prog State := do
  let (s, _) ← storeLoad initial
  return s

variable (s : State)

/-- `solar_os_inbox_publish`; the id of the entry, new or not. -/
def publish (message : Publish) (clocks : Clocks) : Prog (State × Except EspErr Nat) := do
  if publishValid message then
    match findDuplicate s (dedupeHash message) with
    | some id => return (s, .ok id)
    | none =>
      let inserted := insert s message clocks
      if inserted.persistent then
        let (written, err) ← storeWrite inserted s.ring.head true
        return if err = .ok then (written, .ok s.nextId)
        else ({ s with storageError := written.storageError }, .error err)
      else
        return (inserted, .ok s.nextId)
  else
    return (s, .error .invalidArg)

/-- What `solar_os_inbox_get` and `solar_os_inbox_mark_read` do to an entry whose flag
changes. -/
def changeUnread (i : Nat) (unread : Bool) : Prog (State × EspErr) := do
  let changed := setUnread s i unread
  if changed.persistent then
    let (written, err) ← storeWrite changed (s.ring.index i) false
    return if err = .ok then (written, .ok) else (setUnread written i !unread, err)
  else
    return (changed, .ok)

/-- `solar_os_inbox_get`; the entry as it was before it was marked. -/
def get (id : Nat) (markRead : Bool) : Prog (State × Except EspErr Entry) := do
  if id = 0 then
    return (s, .error .invalidArg)
  else
    match find s id with
    | none => return (s, .error .notFound)
    | some i =>
      let entry := (s.ring.entry i).entry
      if markRead && entry.unread then
        let (s, err) ← changeUnread s i false
        return (s, if err = .ok then .ok entry else .error err)
      else
        return (s, .ok entry)

def markRead (id : Nat) (read : Bool) : Prog (State × EspErr) := do
  if id = 0 then
    return (s, .invalidArg)
  else
    match find s id with
    | none => return (s, .notFound)
    | some i =>
      if (s.ring.entry i).entry.unread = read then
        changeUnread s i !read
      else
        return (s, .ok)

/-- `inbox_delete_matching`; the number of entries deleted. -/
def deleteMatching (selected : Entry → Bool) : Prog (State × Except EspErr Nat) := do
  if ← invoke .alloc then
    let compacted := compact s selected
    let removed := s.ring.count - compacted.ring.count
    if removed = 0 then
      return (s, .ok 0)
    else if compacted.persistent then
      let (written, err) ← storeRewrite compacted
      return if err = .ok then (written, .ok removed)
      else ({ s with storageError := written.storageError }, .error err)
    else
      return (compacted, .ok removed)
  else
    return (s, .error .noMem)

def deleteMany (ids : List Nat) : Prog (State × Except EspErr Nat) :=
  if ids = [] ∨ 0 ∈ ids then return (s, .error .invalidArg)
  else deleteMatching s fun entry => entry.id ∈ ids

def delete (id : Nat) : Prog (State × EspErr) := do
  if id = 0 then
    return (s, .invalidArg)
  else
    let (s, deleted) ← deleteMany s [id]
    return (s, match deleted with
      | .ok 0 => .notFound
      | .ok _ => .ok
      | .error err => err)

def deleteSources (sources : List CString) : Prog (State × Except EspErr Nat) :=
  if sources = [] ∨ (sources.any fun source => source.bytes = [] || sourceMax ≤ source.strlen) then
    return (s, .error .invalidArg)
  else deleteMatching s fun entry => entry.source ∈ sources

def clear : Prog (State × EspErr) := do
  let cleared := emptied s
  if cleared.persistent then
    let (written, err) ← storeReset cleared
    return (written, if err = .ok then .ok else written.storageError)
  else
    return (cleared, .ok)

end SolarOs.Inbox
