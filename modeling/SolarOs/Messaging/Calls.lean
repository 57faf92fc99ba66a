import SolarOs.Messaging.Store
import SolarOs.Library.Program

/-! The calls of the messaging service as programs over its critical sections, the
history file and the services it asks. -/
namespace SolarOs.Messaging

/-- The state together with the history file and the lock of the file. -/
structure World where
  state : State
  file : StoreFile
  ioHeld : Bool

inductive Landed where
  | old | torn | new
  deriving DecidableEq

structure Env where
  tick : Nat
  endpoint : Except EspErr Trust
  published : Except EspErr Nat
  present : Bool
  removed : EspErr
  memory : Bool
  done : Bool
  landed : Landed

/-- The critical sections, the file operations and the calls of other services. -/
inductive Op : Type → Type
  | upsert (request : Upsert) : Op Nat
  | collectKeys (provider : ProviderId) (providerKey : CString) : Op (Option (List Nat))
  | removeConversation (provider : ProviderId) (providerKey : CString) : Op EspErr
  | findMessage (key : Nat) : Op Bool
  | insertInbound (request : Inbound) : Op Insertion
  | linkProjection (key revision inboxId : Nat) (present : Bool) : Op Bool
  | announce (provider : ProviderId) (conversationId key : Nat) : Op Unit
  | checkSend (conversationId : Nat) : Op (Except EspErr Conversation)
  | commitSend (conversationId : Nat) (body : CString) (allowUntrusted : Bool) : Op (Except EspErr Nat)
  | deleteMessage (key : Nat) : Op (Except EspErr (Option Nat × Nat))
  | clearMessages (provider : ProviderId) : Op (Except EspErr (List (Option Nat)))
  | readMessages (conversationId : Nat) : Op (Option (List (Nat × Nat)))
  | cancelOutbound (key : Nat) : Op EspErr
  | peekOutbox (provider : ProviderId) : Op (Option Outbound)
  | updateOutbox (requestId : Nat) (state : Delivery) (error : Option CString) : Op (Except EspErr Nat)
  | isPersistent : Op Bool
  | beginWrite (key : Nat) : Op (Option PendingWrite)
  | finishWrite (key : Nat) (pending : PendingWrite) (error : EspErr) : Op Unit
  | beginUpdate (key : Nat) : Op (Option (Nat × Record))
  | finishUpdate (error : EspErr) : Op Unit
  | diskCapacity : Op Nat
  | finishTombstones (diskIndexes : List (Option Nat)) (error : EspErr) : Op Unit
  | takeIo : Op Unit
  | giveIo : Op Unit
  | openStore : Op Bool
  | writeRecord (diskIndex : Nat) (record : Record) : Op Bool
  | writeHeader (copy : Nat) (header : Header) : Op Bool
  | syncStore : Op Bool
  | closeStore : Op Bool
  | getEndpoint (endpointId : Nat) : Op (Except EspErr Trust)
  | inboxPublish (request : Inbound) (key : Nat) : Op (Except EspErr Nat)
  | inboxMatches (inboxId key : Nat) : Op Bool
  | inboxDelete (inboxId : Nat) : Op EspErr
  | inboxDeleteSources (provider : ProviderId) : Op EspErr
  | inboxMarkRead (inboxId : Nat) : Op Unit
  | calloc : Op Bool

/-- What a write leaves where there was `old`. -/
def Landed.leave {α : Type} (landed : Landed) (old new : Option α) : Option α :=
  match landed with
  | .old => old
  | .torn => none
  | .new => new

def World.section {α : Type} (w : World) (r : State × α) : World × α := ({ w with state := r.1 }, r.2)

def act {α : Type} : Op α → World → Env → World × α
  | .upsert request, w, _ => w.section (upsertConversation w.state request true)
  | .collectKeys provider providerKey, w, _ => (w, Messaging.collectKeys w.state provider providerKey)
  | .removeConversation provider providerKey, w, _ =>
    w.section (Messaging.removeConversation w.state provider providerKey)
  | .findMessage key, w, _ => (w, (Messaging.findMessage w.state key).isSome)
  | .insertInbound request, w, e => w.section (Messaging.insertInbound w.state request e.tick)
  | .linkProjection key revision inboxId present, w, _ =>
    w.section (Messaging.linkProjection w.state key revision inboxId present)
  | .announce provider conversationId key, w, _ =>
    ({ w with state := publishEvent w.state .message provider conversationId key .received .ok }, ())
  | .checkSend conversationId, w, _ => w.section (Messaging.checkSend w.state conversationId)
  | .commitSend conversationId body allowUntrusted, w, e =>
    w.section (Messaging.commitSend w.state conversationId body allowUntrusted e.tick)
  | .deleteMessage key, w, _ => w.section (Messaging.deleteMessage w.state key)
  | .clearMessages provider, w, _ => w.section (Messaging.clearMessages w.state provider)
  | .readMessages conversationId, w, _ => w.section (Messaging.readMessages w.state conversationId)
  | .cancelOutbound key, w, _ => w.section (Messaging.cancelOutbound w.state key)
  | .peekOutbox provider, w, _ => (w, Messaging.peekOutbox w.state provider)
  | .updateOutbox requestId state error, w, _ =>
    w.section (Messaging.updateOutbox w.state requestId state error)
  | .isPersistent, w, _ => (w, w.state.persistent)
  | .beginWrite key, w, _ => w.section (Messaging.beginWrite w.state key)
  | .finishWrite key pending error, w, _ =>
    ({ w with state := Messaging.finishWrite w.state key pending error }, ())
  | .beginUpdate key, w, _ => (w, Messaging.beginUpdate w.state key)
  | .finishUpdate error, w, _ => ({ w with state := Messaging.finishUpdate w.state error }, ())
  | .diskCapacity, w, _ => (w, w.state.diskCapacity)
  | .finishTombstones diskIndexes error, w, _ =>
    ({ w with state := Messaging.finishTombstones w.state diskIndexes error }, ())
  | .takeIo, w, _ => ({ w with ioHeld := true }, ())
  | .giveIo, w, _ => ({ w with ioHeld := false }, ())
  | .openStore, w, e => (w, e.done)
  | .writeRecord diskIndex record, w, e =>
    ({ w with
      file := { w.file with
        records := Function.update w.file.records diskIndex
          (if e.done then some record else e.landed.leave (w.file.records diskIndex) (some record)) } },
      e.done)
  | .writeHeader copy header, w, e =>
    ({ w with
      file := { w.file with
        headers := Function.update w.file.headers copy
          (if e.done then some header else e.landed.leave (w.file.headers copy) (some header)) } },
      e.done)
  | .syncStore, w, e => (w, e.done)
  | .closeStore, w, e => (w, e.done)
  | .getEndpoint _, w, e => (w, e.endpoint)
  | .inboxPublish _ _, w, e => (w, e.published)
  | .inboxMatches _ _, w, e => (w, e.present)
  | .inboxDelete _, w, e => (w, e.removed)
  | .inboxDeleteSources _, w, e => (w, e.removed)
  | .inboxMarkRead _, w, _ => (w, ())
  | .calloc, w, e => (w, e.memory)

def enabled {α : Type} : Op α → World → Bool
  | .takeIo, w => !w.ioHeld
  | _, _ => true

abbrev Prog (α : Type) := Program Op α

open Program

/-- `error` unless it is `ESP_OK`, then what closing the file gives. -/
def closing (error : EspErr) : Prog EspErr := do
  let closed ← invoke .closeStore
  return if error = .ok ∧ closed = false then .fail else error

def storeWrite (key : Nat) : Prog EspErr := do
  invoke .takeIo
  match ← invoke (.beginWrite key) with
  | none =>
    invoke .giveIo
    return .invalidState
  | some pending =>
    let error ← (do
      if ← invoke .openStore then
        let error ← (do
          if ← invoke (.writeRecord pending.diskIndex pending.record) then
            if ← invoke (.writeHeader (pending.header.generation % storeHeaderCopies) pending.header) then
              return .ok
            else
              return .fail
          else
            return .fail)
        closing error
      else
        return .fail)
    invoke (.finishWrite key pending error)
    invoke .giveIo
    return error

def storeUpdate (key : Nat) : Prog EspErr := do
  invoke .takeIo
  match ← invoke (.beginUpdate key) with
  | none =>
    invoke .giveIo
    return .invalidState
  | some (diskIndex, record) =>
    let error ← (do
      if ← invoke .openStore then
        closing (if ← invoke (.writeRecord diskIndex record) then .ok else .fail)
      else
        return .fail)
    invoke (.finishUpdate error)
    invoke .giveIo
    return error

/-- The loop of `messaging_store_tombstone_many` over the places to clear. -/
def writeTombstones : List (Option Nat) → Prog EspErr
  | [] => return .ok
  | none :: rest => writeTombstones rest
  | some diskIndex :: rest => do
    if (← invoke .diskCapacity) ≤ diskIndex then
      writeTombstones rest
    else if ← invoke (.writeRecord diskIndex tombstone) then
      writeTombstones rest
    else
      return .fail

def storeTombstoneMany (diskIndexes : List (Option Nat)) : Prog EspErr := do
  if diskIndexes = [] then
    return .ok
  else if (← invoke .isPersistent) = false then
    return .ok
  else
    invoke .takeIo
    let error ← (do
      if ← invoke .openStore then
        let error ← writeTombstones diskIndexes
        if error = .ok then
          closing (if ← invoke .syncStore then .ok else .fail)
        else
          closing error
      else
        return .fail)
    invoke (.finishTombstones diskIndexes error)
    invoke .giveIo
    return error

def upsertValid (request : Upsert) : Bool :=
  messagingProviderValid request.provider &&
    messagingTextValid request.providerKey providerKeyMax false &&
    request.title.all (messagingTextValid · titleMax true)

def conversationUpsert (request : Upsert) : Prog EspErr := do
  if upsertValid request then
    if (← invoke (.upsert request)) = 0 then
      return .noMem
    else
      return .ok
  else
    return .invalidArg

def messageDelete (key : Nat) : Prog EspErr := do
  if key = 0 then
    return .invalidArg
  else
    match ← invoke (.deleteMessage key) with
    | .error e => return e
    | .ok (diskIndex, inboxId) =>
      let storeError ← (do
        match diskIndex with
        | some index => storeTombstoneMany [some index]
        | none => return .ok)
      let inboxError ← (do
        if inboxId ≠ 0 then
          if ← invoke (.inboxMatches inboxId key) then
            let error ← invoke (.inboxDelete inboxId)
            return if error = .notFound then .ok else error
          else
            return .ok
        else
          return .ok)
      return if storeError ≠ .ok then storeError else inboxError

/-- The loop of `solar_os_messaging_conversation_remove`. -/
def deleteAll : List Nat → Prog EspErr
  | [] => return .ok
  | key :: rest => do
    let error ← messageDelete key
    if error = .ok then
      deleteAll rest
    else
      return error

def conversationRemove (provider : ProviderId) (providerKey : CString) : Prog EspErr := do
  if messagingProviderValid provider && messagingTextValid providerKey providerKeyMax false then
    match ← invoke (.collectKeys provider providerKey) with
    | none => return .notFound
    | some keys =>
      let error ← deleteAll keys
      if error = .ok then
        invoke (.removeConversation provider providerKey)
      else
        return error
  else
    return .invalidArg

section
variable (request : Inbound)

def inboundValid : Bool :=
  messagingProviderValid request.provider &&
    messagingTextValid request.conversationKey providerKeyMax false &&
    messagingTextValid request.body bodyMax true &&
    request.sender.all (messagingTextValid · senderMax true)

def publishInboxProjection (key revision : Nat) : Prog Unit := do
  match ← invoke (.inboxPublish request key) with
  | .error _ => return ()
  | .ok inboxId =>
    let present ← invoke (.inboxMatches inboxId key)
    if ← invoke (.linkProjection key revision inboxId present) then
      if ← invoke .isPersistent then
        let _ ← storeUpdate key
        return ()
      else
        return ()
    else
      let _ ← invoke (.inboxDelete inboxId)
      return ()

/-- `solar_os_messaging_publish_inbound` from the insertion on. -/
def insertAndAnnounce : Prog EspErr := do
  match ← invoke (.insertInbound request) with
  | .duplicate => return .ok
  | .full => return .noMem
  | .inserted conversationId revision =>
    let key := inboundKey request
    let error ← (do
      if ← invoke .isPersistent then
        storeWrite key
      else
        return .ok)
    if error = .ok then
      publishInboxProjection request key revision
      invoke (.announce request.provider conversationId key)
      return .ok
    else
      return error

def publishInbound : Prog EspErr := do
  if inboundValid request then
    -- without an endpoint the lookup and the insertion are one section
    if request.endpointId = 0 then
      insertAndAnnounce request
    else if ← invoke (.findMessage (inboundKey request)) then
      return .ok
    else
      match ← invoke (.getEndpoint request.endpointId) with
      | .error e => return e
      | .ok trust => if trust = .blocked then return .invalidState else insertAndAnnounce request
  else
    return .invalidArg

end

/-- What `solar_os_messaging_send` asks about the endpoint of a direct conversation. -/
def endpointAllows (conversation : Conversation) (allowUntrusted : Bool) : Prog EspErr := do
  if conversation.kind = .direct ∧ conversation.endpointId ≠ 0 then
    match ← invoke (.getEndpoint conversation.endpointId) with
    | .error e => return e
    | .ok trust =>
      if trust = .blocked ∨ (trust = .discovered ∧ allowUntrusted = false) then
        return .invalidState
      else
        return .ok
  else
    return .ok

def send (conversationId : Nat) (body : CString) (allowUntrusted : Bool) : Prog EspErr := do
  if conversationId ≠ 0 ∧ messagingTextValid body bodyMax false = true then
    match ← invoke (.checkSend conversationId) with
    | .error e => return e
    | .ok conversation =>
      let error ← endpointAllows conversation allowUntrusted
      if error = .ok then
        match ← invoke (.commitSend conversationId body allowUntrusted) with
        | .error e => return e
        | .ok key =>
          if ← invoke .isPersistent then
            storeWrite key
          else
            return .ok
      else
        return error
  else
    return .invalidArg

def clear (provider : ProviderId) : Prog EspErr := do
  if provider = 0 ∨ messagingProviderValid provider = true then
    if ← invoke .calloc then
      match ← invoke (.clearMessages provider) with
      | .error e => return e
      | .ok diskIndexes =>
        let storeError ← storeTombstoneMany diskIndexes
        let inboxError ← invoke (.inboxDeleteSources provider)
        return if storeError ≠ .ok then storeError else inboxError
    else
      return .noMem
  else
    return .invalidArg

/-- The loop of `solar_os_messaging_mark_read` over what was unread. -/
def noteRead : List (Nat × Nat) → Prog Unit
  | [] => return ()
  | (key, inboxId) :: rest => do
    if ← invoke .isPersistent then
      let _ ← storeUpdate key
    if inboxId ≠ 0 then
      if ← invoke (.inboxMatches inboxId key) then
        invoke (.inboxMarkRead inboxId)
    noteRead rest

def markRead (conversationId : Nat) : Prog EspErr := do
  if conversationId = 0 then
    return .invalidArg
  else
    match ← invoke (.readMessages conversationId) with
    | none => return .notFound
    | some read =>
      noteRead read
      return .ok

def cancel (key : Nat) : Prog EspErr := do
  if key = 0 then
    return .invalidArg
  else
    let error ← invoke (.cancelOutbound key)
    if error = .ok then
      if ← invoke .isPersistent then
        let _ ← storeUpdate key
    return error

def outboxPeek (provider : ProviderId) : Prog EspErr := do
  if messagingProviderValid provider then
    match ← invoke (.peekOutbox provider) with
    | some _ => return .ok
    | none => return .notFound
  else
    return .invalidArg

def outboxUpdate (requestId : Nat) (state : Delivery) (error : Option CString) : Prog EspErr := do
  if requestId = 0 ∨ state = .received ∨ state = .cancelled then
    return .invalidArg
  else
    match ← invoke (.updateOutbox requestId state error) with
    | .error e => return e
    | .ok key =>
      if ← invoke .isPersistent then
        let _ ← storeUpdate key
      return .ok

/-- The calls other services make. -/
inductive Call where
  | conversationUpsert (request : Upsert)
  | conversationRemove (provider : ProviderId) (providerKey : CString)
  | publishInbound (request : Inbound)
  | send (conversationId : Nat) (body : CString) (allowUntrusted : Bool)
  | messageDelete (key : Nat)
  | clear (provider : ProviderId)
  | markRead (conversationId : Nat)
  | cancel (key : Nat)
  | outboxPeek (provider : ProviderId)
  | outboxUpdate (requestId : Nat) (state : Delivery) (error : Option CString)

def Call.body : Call → Prog EspErr
  | .conversationUpsert request => Messaging.conversationUpsert request
  | .conversationRemove provider providerKey => Messaging.conversationRemove provider providerKey
  | .publishInbound request => Messaging.publishInbound request
  | .send conversationId body allowUntrusted => Messaging.send conversationId body allowUntrusted
  | .messageDelete key => Messaging.messageDelete key
  | .clear provider => Messaging.clear provider
  | .markRead conversationId => Messaging.markRead conversationId
  | .cancel key => Messaging.cancel key
  | .outboxPeek provider => Messaging.outboxPeek provider
  | .outboxUpdate requestId state error => Messaging.outboxUpdate requestId state error

def runCall (w : World) (c : Call × (Nat → Env)) : World := (finish act c.1.body w c.2).1

end SolarOs.Messaging
