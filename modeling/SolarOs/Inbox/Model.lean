import SolarOs.Esp
import SolarOs.Library.CString
import SolarOs.Library.SlotRing

/-! The inbox in memory: a ring of entries and the counters beside it. -/
namespace SolarOs.Inbox

def capacity : Nat := 64
def sourceMax : Nat := 16
def topicMax : Nat := 24
def senderMax : Nat := 40
def titleMax : Nat := 64
def bodyMax : Nat := 256
def epochMinMs : Nat := 1577836800000

/-- `solar_os_inbox_publish_t`; NULL pointers are `none`. -/
structure Publish where
  source : Option CString
  topic : Option CString
  sender : Option CString
  title : Option CString
  body : Option CString
  dedupeKey : Option CString
  sourceId : Nat
  sourceContext : Nat
  timestampMs : Nat
  priority : Nat

structure Entry where
  id : Nat
  sourceId : Nat
  sourceContext : Nat
  timestampMs : Nat
  receivedMs : Nat
  priority : Nat
  unread : Bool
  truncated : Bool
  source : CString
  topic : CString
  sender : CString
  title : CString
  body : CString
  deriving DecidableEq

structure Slot where
  entry : Entry
  dedupeHash : Nat
  deriving DecidableEq

def Slot.blank : Slot where
  entry :=
    { id := 0
      sourceId := 0
      sourceContext := 0
      timestampMs := 0
      receivedMs := 0
      priority := 0
      unread := false
      truncated := false
      source := .empty
      topic := .empty
      sender := .empty
      title := .empty
      body := .empty }
  dedupeHash := 0

/-- The inbox after it has been set up; the ring is always allocated. -/
structure State where
  ring : SlotRing Slot capacity
  unread : Nat
  nextId : Nat
  dropped : Nat
  persistent : Bool
  generation : Nat
  storageError : EspErr

/-- The static variables before the store is loaded. -/
def initial : State where
  ring := .empty .blank (by decide)
  unread := 0
  nextId := 1
  dropped := 0
  persistent := false
  generation := 0
  storageError := .invalidState

structure Clocks where
  utcEpochMs : Option Nat
  uptimeMs : Nat

def priorityValid (priority : Nat) : Bool := priority ≤ 3

def absent (text : Option CString) : Bool :=
  match text with
  | none => true
  | some text => text.bytes = []

def publishValid (message : Publish) : Bool :=
  !absent message.source && priorityValid message.priority &&
    !(absent message.title && absent message.body)

/-- `inbox_copy_string`: what fits the field, and whether something was cut off. -/
def copyString (capacity : Nat) (source : Option CString) : CString × Bool :=
  let value := source.getD .empty
  (value.strlcpy capacity, capacity ≤ value.strlen)

def hashUpdate (hash : Nat) (text : Option CString) : Nat :=
  ((text.getD .empty).bytes ++ [0xFF]).foldl
    (fun hash (byte : UInt8) => ((hash ^^^ byte.toNat) * 1099511628211) % 2 ^ 64) hash

/-- `inbox_dedupe_hash`; 0 when the message has no identity. -/
def dedupeHash (message : Publish) : Nat :=
  if absent message.dedupeKey then 0
  else
    let hash := hashUpdate 1469598103934665603 message.source
    let hash := hashUpdate hash message.topic
    let hash := hashUpdate hash message.sender
    let hash := hashUpdate hash message.dedupeKey
    if hash ≠ 0 then hash else 1

/-- The entry that a message becomes. -/
def makeEntry (message : Publish) (clocks : Clocks) (id : Nat) : Entry :=
  let (source, sourceCut) := copyString sourceMax message.source
  let (topic, topicCut) := copyString topicMax message.topic
  let (sender, senderCut) := copyString senderMax message.sender
  let (title, titleCut) := copyString titleMax message.title
  let (body, bodyCut) := copyString bodyMax message.body
  { id
    sourceId := message.sourceId
    sourceContext := message.sourceContext
    timestampMs := clocks.utcEpochMs.getD
      (if epochMinMs ≤ message.timestampMs then message.timestampMs else 0)
    receivedMs := clocks.uptimeMs % 2 ^ 32
    priority := message.priority
    unread := true
    truncated := sourceCut || topicCut || senderCut || titleCut || bodyCut
    source
    topic
    sender
    title
    body }

def successor (value : Nat) : Nat := if value + 1 = 2 ^ 32 then 1 else value + 1

variable (s : State)

def findDuplicate (hash : Nat) : Option Nat :=
  if hash = 0 then none
  else (s.ring.find fun slot => slot.dedupeHash = hash).map fun i => (s.ring.entry i).entry.id

def headSlot : Slot := s.ring.slots s.ring.head

/-- What `solar_os_inbox_publish` does to the ring and its counters. -/
def insert (message : Publish) (clocks : Clocks) : State :=
  let full := s.ring.count = capacity
  { s with
    ring := s.ring.push
      { entry := makeEntry message clocks s.nextId, dedupeHash := dedupeHash message }
    unread := (if full ∧ (headSlot s).entry.unread then s.unread - 1 else s.unread) + 1
    nextId := successor s.nextId
    dropped := if full then (s.dropped + 1) % 2 ^ 32 else s.dropped }

/-- `inbox_find_locked`; the number of the slot, from the oldest on. -/
def find (id : Nat) : Option Nat :=
  if id = 0 then none else s.ring.find fun slot => slot.entry.id = id

def setUnread (i : Nat) (unread : Bool) : State :=
  { s with
    ring := s.ring.modify i fun slot => { slot with entry := { slot.entry with unread } }
    unread := if unread then s.unread + 1 else s.unread - 1 }

variable (selected : Entry → Bool)

def kept : List Slot := s.ring.toList.filter fun slot => !selected slot.entry

theorem kept_fits : (kept s selected).length ≤ capacity :=
  Nat.le_trans (List.length_filter_le _ _) (s.ring.length_toList ▸ s.ring.count_le)

/-- What `inbox_delete_matching` leaves, moved to the front of the ring. -/
def compact : State :=
  { s with
    ring := .ofList (kept s selected) .blank (kept_fits s selected) (by decide)
    unread := ((kept s selected).filter fun slot => slot.entry.unread).length }

/-- What `solar_os_inbox_clear` leaves. -/
def emptied : State :=
  { s with
    ring := .empty .blank (by decide)
    unread := 0
    nextId := 1
    dropped := 0 }

end SolarOs.Inbox
