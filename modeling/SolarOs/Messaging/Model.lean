import SolarOs.Esp
import SolarOs.Library.CString
import SolarOs.Library.SlotRing
import SolarOs.Library.ByteOrder

/-! The messaging service in memory: conversations, the message ring, the outbox and
what each critical section does to them. -/
namespace SolarOs.Messaging

def conversationCapacity : Nat := 32
def messageCapacity : Nat := 64
def outboxCapacity : Nat := 16
def eventCapacity : Nat := 80
def providerKeyMax : Nat := 64
def titleMax : Nat := 64
def senderMax : Nat := 40
def bodyMax : Nat := 4096
def errorMax : Nat := 96

theorem messageCapacity_pos : 0 < messageCapacity := by decide

/-- `solar_os_messaging_provider_id_t`, which callers may also get wrong. -/
abbrev ProviderId := Nat

def providerGateway : ProviderId := 1
def providerMeshcore : ProviderId := 2
def providerLink : ProviderId := 3

inductive Trust where
  | discovered | trusted | blocked
  deriving DecidableEq

inductive ConversationKind where
  | direct | group | room | broadcast
  deriving DecidableEq

inductive Direction where
  | inbound | outbound
  deriving DecidableEq

inductive Delivery where
  | received | queued | sending | sent | delivered | failed | cancelled
  deriving DecidableEq

inductive EventType where
  | provider | conversation | conversationRemoved | message | messageRemoved | messagesCleared
  | delivery | error
  deriving DecidableEq

structure Conversation where
  id : Nat
  provider : ProviderId
  kind : ConversationKind
  contactId : Nat
  endpointId : Nat
  groupRef : Nat
  unreadCount : Nat
  lastMessageMs : Nat
  securityFlags : Nat
  title : CString
  providerKey : CString
  deriving DecidableEq

structure Message where
  key : Nat
  providerMessageKey : Nat
  conversationId : Nat
  contactId : Nat
  endpointId : Nat
  timestampMs : Nat
  receivedMs : Nat
  provider : ProviderId
  direction : Direction
  delivery : Delivery
  securityFlags : Nat
  inboxId : Nat
  unread : Bool
  truncated : Bool
  sender : CString
  body : CString
  error : CString
  deriving DecidableEq

/-- `messaging_message_slot_t`; a disk index below 0 is `none`. -/
structure Slot where
  message : Message
  diskIndex : Option Nat
  revision : Nat
  deriving DecidableEq

structure Outbound where
  id : Nat
  messageKey : Nat
  conversationId : Nat
  provider : ProviderId
  attempts : Nat
  allowUntrusted : Bool
  providerKey : CString
  body : CString
  deriving DecidableEq

structure Event where
  id : Nat
  type : EventType
  provider : ProviderId
  conversationId : Nat
  messageKey : Nat
  delivery : Delivery
  error : EspErr
  deriving DecidableEq

structure Upsert where
  provider : ProviderId
  providerKey : CString
  kind : ConversationKind
  title : Option CString
  contactId : Nat
  endpointId : Nat
  groupRef : Nat
  securityFlags : Nat

structure Inbound where
  provider : ProviderId
  conversationKey : CString
  conversationKind : ConversationKind
  conversationTitle : Option CString
  contactId : Nat
  endpointId : Nat
  groupRef : Nat
  providerMessageKey : Nat
  timestampMs : Nat
  securityFlags : Nat
  sender : Option CString
  body : CString
  truncated : Bool

def Message.blank : Message where
  key := 0
  providerMessageKey := 0
  conversationId := 0
  contactId := 0
  endpointId := 0
  timestampMs := 0
  receivedMs := 0
  provider := 0
  direction := .inbound
  delivery := .received
  securityFlags := 0
  inboxId := 0
  unread := false
  truncated := false
  sender := .empty
  body := .empty
  error := .empty

def Slot.blank : Slot where
  message := .blank
  diskIndex := none
  revision := 0

def Outbound.blank : Outbound where
  id := 0
  messageKey := 0
  conversationId := 0
  provider := 0
  attempts := 0
  allowUntrusted := false
  providerKey := .empty
  body := .empty

def Event.blank : Event where
  id := 0
  type := .provider
  provider := 0
  conversationId := 0
  messageKey := 0
  delivery := .received
  error := .ok

/-- The part of `messaging_state_t` that the operations work on. -/
structure State where
  conversations : List Conversation
  messages : SlotRing Slot messageCapacity
  messageUnread : Nat
  outbox : SlotRing Outbound outboxCapacity
  events : SlotRing Event eventCapacity
  nextConversationId : Nat
  nextOutboxId : Nat
  nextEventId : Nat
  nextMessageKey : Nat
  generation : Nat
  droppedMessages : Nat
  droppedOutbox : Nat
  droppedEvents : Nat
  persistent : Bool
  diskCapacity : Nat
  diskHead : Nat
  diskCount : Nat
  diskGeneration : Nat
  storageError : EspErr

/-- The state `solar_os_messaging_init` builds before it loads a store. -/
def initial : State where
  conversations := []
  messages := .empty .blank (by decide)
  messageUnread := 0
  outbox := .empty .blank (by decide)
  events := .empty .blank (by decide)
  nextConversationId := 1
  nextOutboxId := 1
  nextEventId := 1
  nextMessageKey := 1
  generation := 1
  droppedMessages := 0
  droppedOutbox := 0
  droppedEvents := 0
  persistent := false
  diskCapacity := 0
  diskHead := 0
  diskCount := 0
  diskGeneration := 0
  storageError := .ok

/-- `messaging_next_u32` and `messaging_next_u64`: the value and the counter after it. -/
def messagingNext (bits next : Nat) : Nat × Nat :=
  if next = 0 then (1, 2 % 2 ^ bits) else (next, (next + 1) % 2 ^ bits)

variable (s : State)

def noteGeneration : State :=
  { s with generation := if s.generation + 1 = 2 ^ 32 then 1 else s.generation + 1 }

def messagingTextValid (text : CString) (capacity : Nat) (allowEmpty : Bool) : Bool :=
  !(!allowEmpty && text.strlen = 0 || capacity ≤ text.strlen) &&
    text.bytes.all fun c => !(c < 0x20 && c ≠ 0x0A && c ≠ 0x09) && c ≠ 0x7F

def messagingProviderValid (provider : ProviderId) : Bool :=
  providerGateway ≤ provider && provider ≤ providerLink

def conversationIndex (provider : ProviderId) (providerKey : CString) : Option Nat :=
  s.conversations.findIdx? fun c => c.provider = provider && c.providerKey = providerKey

def conversationIdIndex (conversationId : Nat) : Option Nat :=
  s.conversations.findIdx? fun c => c.id = conversationId

def publishEvent (type : EventType) (provider : ProviderId) (conversationId messageKey : Nat)
    (delivery : Delivery) (error : EspErr) : State :=
  let (id, next) := messagingNext 32 s.nextEventId
  { s with
    events := s.events.push { id, type, provider, conversationId, messageKey, delivery, error }
    nextEventId := next
    droppedEvents := if s.events.count < eventCapacity then s.droppedEvents else s.droppedEvents + 1 }

/-- What an upsert writes into a conversation, new or not. -/
def Upsert.apply (request : Upsert) (c : Conversation) : Conversation :=
  { c with
    provider := request.provider
    kind := request.kind
    contactId := request.contactId
    endpointId := request.endpointId
    groupRef := request.groupRef
    securityFlags := request.securityFlags
    providerKey := request.providerKey.strlcpy providerKeyMax
    title := (match request.title with
      | some title => if title.bytes ≠ [] then title else request.providerKey
      | none => request.providerKey).strlcpy titleMax }

def Conversation.blank (id : Nat) : Conversation where
  id := id
  provider := 0
  kind := .direct
  contactId := 0
  endpointId := 0
  groupRef := 0
  unreadCount := 0
  lastMessageMs := 0
  securityFlags := 0
  title := .empty
  providerKey := .empty

/-- `messaging_upsert_conversation_locked`; the id is 0 when there is no room. -/
def upsertConversation (request : Upsert) (event : Bool) : State × Nat :=
  let announce (s : State) (id : Nat) : State :=
    if event then publishEvent s .conversation request.provider id 0 .received .ok else s
  match conversationIndex s request.provider request.providerKey with
  | some index =>
    let id := (s.conversations[index]?.map Conversation.id).getD 0
    let s := { s with conversations := s.conversations.modify index request.apply }
    (announce (noteGeneration s) id, id)
  | none =>
    if conversationCapacity ≤ s.conversations.length then (s, 0)
    else
      let (id, next) := messagingNext 32 s.nextConversationId
      let s :=
        { s with
          conversations := s.conversations ++ [request.apply (.blank id)]
          nextConversationId := next }
      (announce (noteGeneration s) id, id)

/-- `messaging_find_message_locked`; the number of the slot, from the oldest on. -/
def findMessage (key : Nat) : Option Nat := s.messages.find fun slot => slot.message.key = key

def hashUpdate (hash : Nat) (data : List UInt8) : Nat :=
  (data ++ [0xFF]).foldl (fun hash (byte : UInt8) => ((hash ^^^ byte.toNat) * 1099511628211) % 2 ^ 64) hash

def orEmpty (text : Option CString) : CString := text.getD .empty

variable (request : Inbound)

def inboundKey : Nat :=
  let hash := hashUpdate 1469598103934665603 (ByteOrder.littleEndian 4 request.provider)
  let hash := hashUpdate hash request.conversationKey.bytes
  let hash :=
    if request.providerMessageKey ≠ 0 then
      hashUpdate hash (ByteOrder.littleEndian 8 request.providerMessageKey)
    else
      let hash := hashUpdate hash (ByteOrder.littleEndian 8 request.timestampMs)
      hashUpdate (hashUpdate hash (orEmpty request.sender).bytes) request.body.bytes
  if hash ≠ 0 then hash else 1

def modifyConversation (index : Option Nat) (f : Conversation → Conversation) : State :=
  match index with
  | some index => { s with conversations := s.conversations.modify index f }
  | none => s

def nextSlot : Slot := s.messages.slots s.messages.head

/-- What `solar_os_messaging_publish_inbound` does about the message it overwrites. -/
def evictForInbound : State :=
  if s.messages.count = messageCapacity then
    let old := (nextSlot s).message
    let s := { s with
      messageUnread := if old.unread then s.messageUnread - 1 else s.messageUnread }
    let s :=
      if old.unread then
        modifyConversation s (conversationIdIndex s old.conversationId) fun c =>
          { c with unreadCount := c.unreadCount - 1 }
      else s
    { s with droppedMessages := (s.droppedMessages + 1) % 2 ^ 32 }
  else s

/-- What `solar_os_messaging_send` does about it. -/
def evictForSend : State :=
  if s.messages.count = messageCapacity then
    { s with
      messageUnread := if (nextSlot s).message.unread then s.messageUnread - 1 else s.messageUnread
      droppedMessages := (s.droppedMessages + 1) % 2 ^ 32 }
  else s

inductive Insertion where
  | duplicate
  | full
  | inserted (conversationId revision : Nat)
  deriving DecidableEq

def inboundUpsert : Upsert where
  provider := request.provider
  providerKey := request.conversationKey
  kind := request.conversationKind
  title := request.conversationTitle
  contactId := request.contactId
  endpointId := request.endpointId
  groupRef := request.groupRef
  securityFlags := request.securityFlags

def inboundMessage (conversationId tick : Nat) : Message where
  key := inboundKey request
  providerMessageKey := request.providerMessageKey
  conversationId := conversationId
  contactId := request.contactId
  endpointId := request.endpointId
  timestampMs := request.timestampMs
  receivedMs := tick
  provider := request.provider
  direction := .inbound
  delivery := .received
  securityFlags := request.securityFlags
  inboxId := 0
  unread := true
  truncated := request.truncated
  sender := (orEmpty request.sender).strlcpy senderMax
  body := request.body.strlcpy bodyMax
  error := .empty

/-- The section of `solar_os_messaging_publish_inbound` that inserts the message. -/
def insertInbound (tick : Nat) : State × Insertion :=
  if (findMessage s (inboundKey request)).isSome then (s, .duplicate)
  else
    match upsertConversation s (inboundUpsert request) false with
    | (s, 0) => (s, .full)
    | (s, conversationId) =>
      let s := evictForInbound s
      let revision := (noteGeneration s).generation
      let s := { s with
        messages := s.messages.push
          { message := inboundMessage request conversationId tick, diskIndex := none, revision }
        messageUnread := s.messageUnread + 1 }
      let s := modifyConversation s (conversationIdIndex s conversationId) fun c =>
        { c with
          unreadCount := c.unreadCount + 1
          lastMessageMs := request.timestampMs
          securityFlags := c.securityFlags ||| request.securityFlags }
      (noteGeneration s, .inserted conversationId revision)

/-- The section of `messaging_publish_inbox_projection` that links the entry. -/
def linkProjection (key revision inboxId : Nat) (present : Bool) : State × Bool :=
  match findMessage s key with
  | none => (s, false)
  | some i =>
    let slot := s.messages.entry i
    if slot.revision = revision ∧ slot.message.unread ∧ present then
      ({ s with
        messages := s.messages.modify i fun slot =>
          { slot with
            message := { slot.message with inboxId }
            revision := (slot.revision + 1) % 2 ^ 32 } }, true)
    else (s, false)

variable (conversationId : Nat)

/-- The first section of `solar_os_messaging_send`: what it reads before it asks for
the endpoint. -/
def checkSend : State × Except EspErr Conversation :=
  match (conversationIdIndex s conversationId).bind (s.conversations[·]?) with
  | none => (s, .error .notFound)
  | some conversation =>
    if outboxCapacity ≤ s.outbox.count then
      ({ s with droppedOutbox := s.droppedOutbox + 1 }, .error .noMem)
    else (s, .ok conversation)

def outboundMessage (conversation : Conversation) (conversationId key : Nat) (body : CString)
    (tick : Nat) : Message where
  key := key
  providerMessageKey := 0
  conversationId := conversationId
  contactId := conversation.contactId
  endpointId := conversation.endpointId
  timestampMs := tick
  receivedMs := tick
  provider := conversation.provider
  direction := .outbound
  delivery := .queued
  securityFlags := conversation.securityFlags
  inboxId := 0
  unread := false
  truncated := false
  sender := .empty
  body := body.strlcpy bodyMax
  error := .empty

/-- The section of `solar_os_messaging_send` that queues the message. -/
def commitSend (body : CString) (allowUntrusted : Bool) (tick : Nat) :
    State × Except EspErr Nat :=
  match checkSend s conversationId with
  | (s, .error e) => (s, .error e)
  | (s, .ok conversation) =>
    let index := conversationIdIndex s conversationId
    let (key, nextKey) := messagingNext 64 s.nextMessageKey
    let s := evictForSend { s with nextMessageKey := nextKey }
    let (id, nextId) := messagingNext 32 s.nextOutboxId
    let revision := (noteGeneration s).generation
    let s := { s with
      messages := s.messages.push
        { message := outboundMessage conversation conversationId key body tick
          diskIndex := none
          revision }
      outbox := s.outbox.push
        { id
          messageKey := key
          conversationId
          provider := conversation.provider
          attempts := 0
          allowUntrusted
          providerKey := conversation.providerKey.strlcpy providerKeyMax
          body := body.strlcpy bodyMax }
      nextOutboxId := nextId }
    let s := modifyConversation (noteGeneration s) index fun c => { c with lastMessageMs := tick }
    (publishEvent s .message conversation.provider conversationId key .queued .ok, .ok key)

variable (provider : ProviderId)

/-- The first section of `solar_os_messaging_conversation_remove`. -/
def collectKeys (providerKey : CString) : Option (List Nat) :=
  ((conversationIndex s provider providerKey).bind (s.conversations[·]?)).map fun conversation =>
    (s.messages.toList.filter fun slot => slot.message.conversationId = conversation.id).map
      fun slot => slot.message.key

/-- Its last section. -/
def removeConversation (providerKey : CString) : State × EspErr :=
  match conversationIndex s provider providerKey with
  | none => (s, .notFound)
  | some index =>
    let id := (s.conversations[index]?.map Conversation.id).getD 0
    let s := noteGeneration { s with conversations := s.conversations.eraseIdx index }
    (publishEvent s .conversationRemoved provider id 0 .received .ok, .ok)

/-- `messaging_message_pending_locked`. -/
def messagePending (key : Nat) : Bool :=
  (s.outbox.find fun outbound => outbound.messageKey = key).isSome

/-- One message of the loop in `messaging_recompute_summaries_locked`. -/
def countMessage (slot : Slot) : State :=
  let message := slot.message
  let index := conversationIdIndex s message.conversationId
  let s :=
    if message.unread then
      modifyConversation { s with messageUnread := s.messageUnread + 1 } index fun c =>
        { c with unreadCount := c.unreadCount + 1 }
    else s
  modifyConversation s index fun c =>
    { c with lastMessageMs := max c.lastMessageMs message.timestampMs }

def recomputeSummaries : State :=
  s.messages.toList.foldl countMessage
    { s with
      messageUnread := 0
      conversations := s.conversations.map fun c => { c with unreadCount := 0, lastMessageMs := 0 } }

/-- The section of `solar_os_messaging_message_delete`; the disk index and the inbox id
of the message it removed. -/
def deleteMessage (key : Nat) : State × Except EspErr (Option Nat × Nat) :=
  if messagePending s key then (s, .error .invalidState)
  else
    match findMessage s key with
    | none => (s, .error .notFound)
    | some i =>
      let slot := s.messages.entry i
      let s := recomputeSummaries { s with messages := s.messages.remove i .blank }
      (publishEvent (noteGeneration s) .messageRemoved slot.message.provider
        slot.message.conversationId key .received .ok, .ok (slot.diskIndex, slot.message.inboxId))

/-- The section of `solar_os_messaging_clear`; provider 0 stands for all. -/
def clearMessages : State × Except EspErr (List (Option Nat)) :=
  if (s.outbox.find fun outbound => provider = 0 || outbound.provider = provider).isSome then
    (s, .error .invalidState)
  else
    let taken (slot : Slot) : Bool := provider = 0 || slot.message.provider = provider
    let kept := s.messages.toList.filter fun slot => !taken slot
    let removed := s.messages.toList.filter taken
    have fits : kept.length ≤ messageCapacity :=
      Nat.le_trans (List.length_filter_le _ _) (s.messages.length_toList ▸ s.messages.count_le)
    let s :=
      if removed ≠ [] then
        publishEvent (noteGeneration (recomputeSummaries
          { s with messages := .ofList kept .blank fits (by decide) }))
          .messagesCleared provider 0 0 .received .ok
      else s
    (s, .ok (removed.map Slot.diskIndex))

/-- The section of `solar_os_messaging_mark_read`; keys and inbox ids of what was unread. -/
def readMessages : State × Option (List (Nat × Nat)) :=
  match conversationIdIndex s conversationId with
  | none => (s, none)
  | some index =>
    let hit (slot : Slot) : Bool :=
      slot.message.conversationId = conversationId && slot.message.unread
    let read := s.messages.toList.filter hit
    let s := { s with
      messages := s.messages.modifyAll fun slot =>
        if hit slot then
          { slot with
            message := { slot.message with unread := false }
            revision := (slot.revision + 1) % 2 ^ 32 }
        else slot
      messageUnread := s.messageUnread - read.length }
    let s := modifyConversation s (some index) fun c => { c with unreadCount := 0 }
    (if read ≠ [] then noteGeneration s else s,
      some (read.map fun slot => (slot.message.key, slot.message.inboxId)))

/-- A delivery state and an error text for message number `i`. -/
def setDelivery (i : Nat) (delivery : Delivery) (error : Option CString) : State :=
  { s with
    messages := s.messages.modify i fun slot =>
      { slot with
        message := { slot.message with delivery, error := error.getD slot.message.error }
        revision := (slot.revision + 1) % 2 ^ 32 } }

/-- The section of `solar_os_messaging_cancel`. -/
def cancelOutbound (key : Nat) : State × EspErr :=
  match findMessage s key with
  | none => (s, .invalidState)
  | some i =>
    let message := (s.messages.entry i).message
    if message.direction ≠ .outbound ∨ (message.delivery ≠ .queued ∧ message.delivery ≠ .failed) then
      (s, .invalidState)
    else
      match s.outbox.find fun outbound => outbound.messageKey = key with
      | none => (s, .notFound)
      | some j =>
        let s := setDelivery { s with outbox := s.outbox.remove j .blank } i .cancelled none
        (publishEvent (noteGeneration s) .delivery message.provider message.conversationId key
          .cancelled .ok, .ok)

/-- The section of `solar_os_messaging_outbox_peek`. -/
def peekOutbox : Option Outbound :=
  (s.outbox.find fun outbound => outbound.provider = provider).map s.outbox.entry

/-- The section of `solar_os_messaging_outbox_update`; the key of the message. -/
def updateOutbox (requestId : Nat) (state : Delivery) (error : Option CString) :
    State × Except EspErr Nat :=
  match s.outbox.find fun outbound => outbound.id = requestId with
  | none => (s, .error .notFound)
  | some j =>
    let outbound := s.outbox.entry j
    let s :=
      if state = .queued then
        { s with outbox := s.outbox.modify j fun o => { o with attempts := (o.attempts + 1) % 2 ^ 8 } }
      else s
    match findMessage s outbound.messageKey with
    | none => (s, .error .notFound)
    | some i =>
      let message := (s.messages.entry i).message
      let s := setDelivery s i state (some ((orEmpty error).strlcpy errorMax))
      let s :=
        if state = .sent ∨ state = .delivered ∨ state = .failed then
          { s with outbox := s.outbox.remove j .blank }
        else s
      (publishEvent (noteGeneration s) .delivery message.provider message.conversationId
        outbound.messageKey state (if state = .failed then .fail else .ok),
        .ok outbound.messageKey)

end SolarOs.Messaging
