import SolarOs.Messaging.Model

/-! The history file of the messaging service: what is written, what is read back, and
the state the service starts with. -/
namespace SolarOs.Messaging

def storeHeaderCopies : Nat := 2

/-- `messaging_store_header_t` with the right magic, version and checksum. -/
structure Header where
  capacity : Nat
  generation : Nat
  head : Nat
  count : Nat
  dropped : Nat
  nextMessageKey : Nat
  deriving DecidableEq

/-- `messaging_store_record_t` with the right checksum. -/
structure Record where
  message : Message
  conversationKey : CString
  conversationTitle : CString
  conversationKind : ConversationKind
  groupRef : Nat
  conversationSecurity : Nat
  deriving DecidableEq

/-- The history file. A place that does not read back as intact is `none`. -/
structure StoreFile where
  headers : Nat → Option Header
  records : Nat → Option Record

variable (s : State)

def makeHeader (generation : Nat) : Header where
  capacity := s.diskCapacity
  generation := generation
  head := s.diskHead
  count := s.diskCount
  dropped := s.droppedMessages
  nextMessageKey := s.nextMessageKey

def headerValid (header : Header) : Bool :=
  0 < header.capacity && header.capacity ≤ messageCapacity && header.head < header.capacity &&
    header.count ≤ header.capacity && header.nextMessageKey ≠ 0

/-- `messaging_generation_newer`, a signed comparison of the difference. -/
def generationNewer (first second : Nat) : Bool :=
  let difference := (first + 2 ^ 32 - second) % 2 ^ 32
  0 < difference && difference < 2 ^ 31

/-- The record of a deleted message. -/
def tombstone : Record where
  message := .blank
  conversationKey := .empty
  conversationTitle := .empty
  conversationKind := .direct
  groupRef := 0
  conversationSecurity := 0

def makeRecord (slot : Slot) : Record :=
  match (conversationIdIndex s slot.message.conversationId).bind (s.conversations[·]?) with
  | some conversation =>
    { message := slot.message
      conversationKey := conversation.providerKey.strlcpy providerKeyMax
      conversationTitle := conversation.title.strlcpy titleMax
      conversationKind := conversation.kind
      groupRef := conversation.groupRef
      conversationSecurity := conversation.securityFlags }
  | none => { tombstone with message := slot.message }

def recordValid (record : Record) : Bool :=
  record.message.key = 0 ||
    (messagingProviderValid record.message.provider && record.conversationKey.bytes ≠ [])

def nextGeneration : Nat := if s.diskGeneration + 1 = 2 ^ 32 then 1 else s.diskGeneration + 1

def clearDiskMapping (diskIndex : Nat) : State :=
  { s with
    messages := s.messages.modifyAll fun slot =>
      if slot.diskIndex = some diskIndex then { slot with diskIndex := none } else slot }

/-- What `messaging_store_write` takes along to the file. -/
structure PendingWrite where
  diskIndex : Nat
  record : Record
  header : Header
  deriving DecidableEq

/-- Its first section: the next place of the file is taken. -/
def beginWrite (key : Nat) : State × Option PendingWrite :=
  match findMessage s key with
  | none => (s, none)
  | some i =>
    if s.persistent = false ∨ s.diskCapacity = 0 then (s, none)
    else
      let diskIndex := s.diskHead
      let record := makeRecord s (s.messages.entry i)
      let s := { s with
        diskHead := (s.diskHead + 1) % s.diskCapacity
        diskCount := if s.diskCount < s.diskCapacity then s.diskCount + 1 else s.diskCount }
      (s, some { diskIndex, record, header := makeHeader s (nextGeneration s) })

/-- Its second section, after the file has been written or not. -/
def finishWrite (key : Nat) (pending : PendingWrite) (error : EspErr) : State :=
  if error = .ok then
    let found := findMessage s key
    let s := clearDiskMapping s pending.diskIndex
    let s :=
      match found with
      | some i =>
        { s with
          messages := s.messages.modify i fun slot =>
            { slot with diskIndex := some pending.diskIndex } }
      | none => s
    { s with diskGeneration := pending.header.generation, storageError := .ok }
  else { s with storageError := error }

/-- The first section of `messaging_store_update`. -/
def beginUpdate (key : Nat) : Option (Nat × Record) :=
  (findMessage s key).bind fun i =>
    let slot := s.messages.entry i
    match slot.diskIndex with
    | none => none
    | some diskIndex =>
      if s.persistent = false ∨ s.diskCapacity ≤ diskIndex then none
      else some (diskIndex, makeRecord s slot)

def finishUpdate (error : EspErr) : State := { s with storageError := error }

/-- The last section of `messaging_store_tombstone_many`. -/
def finishTombstones (diskIndexes : List (Option Nat)) (error : EspErr) : State :=
  let s :=
    if error = .ok then (diskIndexes.filterMap id).foldl clearDiskMapping s else s
  { s with storageError := error }

/-- `messaging_store_reset`: an empty store of the capacity the storage has room for. -/
def storeReset (capacity : Nat) (written : Bool) : State × EspErr :=
  let s := { s with diskCapacity := capacity }
  if capacity = 0 then ({ s with storageError := .noMem, persistent := false }, .noMem)
  else
    let s := { s with diskHead := 0, diskCount := 0 }
    if written then
      ({ s with diskGeneration := nextGeneration s, persistent := true, storageError := .ok }, .ok)
    else ({ s with persistent := false, storageError := .fail }, .fail)

/-- A message that init finds somewhere, put into the ring. -/
def restoreMessage (slot : Slot) : State :=
  let s := { s with
    messageUnread :=
      if s.messages.count = messageCapacity ∧ (nextSlot s).message.unread then s.messageUnread - 1
      else s.messageUnread }
  { s with
    messages := s.messages.push slot
    messageUnread := if slot.message.unread then s.messageUnread + 1 else s.messageUnread }

def recordUpsert (record : Record) : Upsert where
  provider := record.message.provider
  providerKey := record.conversationKey
  kind := record.conversationKind
  title := some record.conversationTitle
  contactId := record.message.contactId
  endpointId := record.message.endpointId
  groupRef := record.groupRef
  securityFlags := record.conversationSecurity

/-- `messaging_restore_record_locked`. -/
def restoreRecord (record : Record) (diskIndex : Nat) : State :=
  match upsertConversation s (recordUpsert record) false with
  | (s, 0) => s
  | (s, conversationId) =>
    let message := { record.message with conversationId }
    let s := restoreMessage s
      { message, diskIndex := some diskIndex, revision := s.generation }
    modifyConversation s (conversationIdIndex s conversationId) fun c =>
      { c with
        unreadCount := if message.unread then c.unreadCount + 1 else c.unreadCount
        lastMessageMs := max c.lastMessageMs message.timestampMs
        securityFlags := c.securityFlags ||| message.securityFlags }

/-- The loop of `messaging_store_load`; false once it meets a record that is not valid. -/
def loadRecords (file : StoreFile) : List Nat → State → State × Bool
  | [], s => (s, true)
  | diskIndex :: rest, s =>
    match file.records diskIndex with
    | none => (s, false)
    | some record =>
      if recordValid record = false then (s, false)
      else if record.message.key ≠ 0 then loadRecords file rest (restoreRecord s record diskIndex)
      else loadRecords file rest s

def newestHeader (file : StoreFile) : Option Header :=
  match (file.headers 0).filter headerValid, (file.headers 1).filter headerValid with
  | none, second => second
  | first, none => first
  | some first, some second =>
    if generationNewer second.generation first.generation then some second else some first

def coveredPlaces (header : Header) : List Nat :=
  (List.range header.count).map fun i =>
    ((header.head + header.capacity - header.count) % header.capacity + i) % header.capacity

/-- An inbox entry, as far as messages are restored from it. -/
structure InboxEntry where
  id : Nat
  sourceId : Nat
  source : List UInt8
  topic : CString
  sender : CString
  body : CString
  unread : Bool
  truncated : Bool
  receivedMs : Nat

def literal (s : String) : List UInt8 := s.toUTF8.data.toList

variable (entry : InboxEntry)

def inboxProvider : Option ProviderId :=
  if entry.source = literal "chat" ∨ entry.source = literal "messages" then some providerGateway
  else if entry.source = literal "meshcore" then some providerMeshcore
  else if entry.source = literal "link-chat" then some providerLink
  else none

def general : CString where
  bytes := [0x67, 0x65, 0x6E, 0x65, 0x72, 0x61, 0x6C]
  noNul := by decide

def inboxUpsert (provider : ProviderId) : Upsert :=
  let providerKey := if entry.topic.bytes ≠ [] then entry.topic else general
  { provider
    providerKey
    kind :=
      if provider = providerGateway then .room
      else if provider = providerLink ∧ providerKey.bytes.take 2 = literal "b:" then .broadcast
      else .direct
    title := some providerKey
    contactId := 0
    endpointId := 0
    groupRef := 0
    securityFlags := 0 }

/-- One entry of the loop in `messaging_restore_inbox`. -/
def restoreEntry : State :=
  match inboxProvider entry with
  | none => s
  | some provider =>
    if entry.sourceId = 0 ∨ (findMessage s entry.sourceId).isSome then s
    else
      match upsertConversation s (inboxUpsert entry provider) false with
      | (s, 0) => s
      | (s, conversationId) =>
        let s := restoreMessage s
          { message :=
              { Message.blank with
                key := entry.sourceId
                conversationId
                provider
                inboxId := entry.id
                unread := entry.unread
                truncated := entry.truncated
                receivedMs := entry.receivedMs
                sender := entry.sender.strlcpy senderMax
                body := entry.body.strlcpy bodyMax }
            diskIndex := none
            revision := s.generation }
        if entry.unread then
          modifyConversation s (conversationIdIndex s conversationId) fun c =>
            { c with unreadCount := c.unreadCount + 1 }
        else s

/-- `messaging_restore_inbox`; a snapshot has the newest entry first. -/
def restoreInbox (entries : List InboxEntry) : State :=
  noteGeneration (entries.reverse.foldl restoreEntry s)

/-- What `solar_os_messaging_init` meets: the history file, the capacity a fresh one
gets, whether a fresh one can be written, a snapshot of the inbox if there is one, and
which entries the inbox still has. -/
structure Boot where
  reachable : Bool
  file : Option StoreFile
  capacity : Nat
  capacity_le : capacity ≤ messageCapacity
  written : Bool
  inbox : Option (List InboxEntry)
  inbox_le : ∀ entries ∈ inbox, entries.length ≤ messageCapacity
  inInbox : Nat → Nat → Bool

def storeLoad (boot : Boot) : State × EspErr :=
  if boot.reachable = false then ({ s with storageError := .fail }, .fail)
  else
    match boot.file with
    | none => storeReset s boot.capacity boot.written
    | some file =>
      match newestHeader file with
      | none => storeReset s boot.capacity boot.written
      | some header =>
        let loaded := { s with
          diskCapacity := header.capacity
          diskHead := header.head
          diskCount := header.count
          diskGeneration := header.generation
          droppedMessages := header.dropped
          nextMessageKey := header.nextMessageKey }
        match loadRecords file (coveredPlaces header) loaded with
        | (s, true) => ({ s with persistent := true, storageError := .ok }, .ok)
        | (s, false) =>
          storeReset
            { s with
              messages := .empty .blank messageCapacity_pos
              messageUnread := 0
              conversations := []
              nextMessageKey := 1 } header.capacity boot.written

/-- `messaging_reconcile_inbox_projections`. -/
def reconcileInbox (inInbox : Nat → Nat → Bool) : State :=
  let stale (slot : Slot) : Bool :=
    slot.message.inboxId ≠ 0 && !inInbox slot.message.inboxId slot.message.key
  let some := (s.messages.toList.any stale)
  let s := { s with
    messages := s.messages.modifyAll fun slot =>
      if stale slot then
        { slot with
          message := { slot.message with inboxId := 0 }
          revision := (slot.revision + 1) % 2 ^ 32 }
      else slot }
  if some then noteGeneration s else s

def init (boot : Boot) : State :=
  let s :=
    match storeLoad initial boot with
    | (s, .ok) => s
    | (s, _) =>
      match boot.inbox with
      | some entries => restoreInbox s entries
      | none => s
  reconcileInbox s boot.inInbox

end SolarOs.Messaging
