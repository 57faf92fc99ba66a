import Mathlib.Logic.Function.Basic
import SolarOs.Library.CString
import SolarOs.Library.Wrapping
import SolarOs.Library.Program
import SolarOs.Link.Frame

/-! The link instances: slots under one mutex, the references of calls that are under way, and
the calls that create and destroy an instance, send, ingest and receive. -/
namespace SolarOs.Link
open Program

def nameMax : Nat := 20
def instanceMax : Nat := 3
def queueDepth : Nat := 4
def duplicateDepth : Nat := 12
def pendingDepth : Nat := 8

/-- `link_duplicate_t`; the payload is noted only. -/
structure LinkDuplicate where
  source : UInt32
  sequence : UInt16
  type : MessageType
  active : Bool
  payload : List UInt8
  deriving DecidableEq

structure LinkPending where
  destination : UInt32
  sequence : UInt16
  active : Bool
  deriving DecidableEq

/-- The counters of `solar_os_link_status_t`. -/
structure Status where
  txMessages : UInt32
  rxMessages : UInt32
  duplicates : UInt32
  crcErrors : UInt32
  acknowledgementsSent : UInt32
  acknowledgementsReceived : UInt32
  dropped : UInt32
  lastError : EspErr
  deriving DecidableEq

/-- What an acknowledgement goes by: the peer's id and the sequence number. -/
structure Key where
  peer : UInt32
  sequence : UInt16
  deriving DecidableEq

/-- What happened to a message that asks for an acknowledgement. -/
inductive Note where
  | sent (key : Key)
  | acknowledged (key : Key)
  deriving DecidableEq

/-- `link_instance_t`, its queues with what they hold. The last four are noted only: what was sent
and acknowledged, which sends are not in the pending table yet, which messages were put into the
receive queue, and which ones an acknowledgement was queued for. -/
structure LinkInstance where
  active : Bool
  closing : Bool
  generation : UInt32
  refs : Nat
  name : CString
  localId : UInt32
  frameMtu : Nat
  nextSequence : UInt16
  rxQueue : List Message
  txQueue : List (List UInt8)
  duplicates : List LinkDuplicate
  duplicateNext : Nat
  pending : List LinkPending
  pendingNext : Nat
  status : Status
  history : List Note
  unrecorded : List Key
  delivered : List Message
  answered : List Message

def LinkInstance.zero : LinkInstance where
  active := false
  closing := false
  generation := 0
  refs := 0
  name := .empty
  localId := 0
  frameMtu := 0
  nextSequence := 0
  rxQueue := []
  txQueue := []
  duplicates := List.replicate duplicateDepth ⟨0, 0, .other 0, false, []⟩
  duplicateNext := 0
  pending := List.replicate pendingDepth ⟨0, 0, false⟩
  pendingNext := 0
  status := ⟨0, 0, 0, 0, 0, 0, 0, .ok⟩
  history := []
  unrecorded := []
  delivered := []
  answered := []

/-- `link_ref_t`; the handles of the queues go with the generation. -/
structure LinkRef where
  index : Fin instanceMax
  generation : UInt32
  deriving DecidableEq

/-- The slots, and the number for the next generation; `expired` notes the slots whose destroy
gave up. -/
structure Links where
  slots : Fin instanceMax → LinkInstance
  linkGeneration : UInt32
  expired : List (Fin instanceMax)

def linkNameValid (name : CString) : Bool := name.bytes ≠ [] ∧ name.strnlen nameMax < nameMax

namespace Links

variable (s : Links)

def set (index : Fin instanceMax) (slot : LinkInstance) : Links := { s with slots := Function.update s.slots index slot }

def linkFind (name : CString) : Option (Fin instanceMax) :=
  (List.finRange instanceMax).find? fun i => (s.slots i).active && !(s.slots i).closing && (s.slots i).name = name

def firstFree : Option (Fin instanceMax) :=
  (List.finRange instanceMax).find? fun i => !(s.slots i).active && !(s.slots i).closing

/-- `link_ref_valid_locked`. -/
def refValid (ref : LinkRef) : Bool :=
  (s.slots ref.index).generation = ref.generation && 0 < (s.slots ref.index).refs

end Links

def LinkPending.answers (message : Message) (entry : LinkPending) : Bool :=
  entry.active && entry.destination = message.source && entry.sequence = message.sequence

def LinkDuplicate.matches (message : Message) (entry : LinkDuplicate) : Bool :=
  entry.active && entry.source = message.source && entry.sequence = message.sequence && entry.type = message.type

namespace LinkInstance

variable (slot : LinkInstance)

/-- `link_pending_alloc_locked` and the entry it is filled with. -/
def addPending (destination : UInt32) (sequence : UInt16) : LinkInstance :=
  match slot.pending.findIdx? fun entry => !entry.active with
  | some i => { slot with pending := slot.pending.set i ⟨destination, sequence, true⟩ }
  | none =>
    { slot with
      pending := slot.pending.set (slot.pendingNext % pendingDepth) ⟨destination, sequence, true⟩
      pendingNext := slot.pendingNext + 1 }

variable (message : Message)

/-- `link_ack_pending_locked`. -/
def ackPending : LinkInstance :=
  match slot.pending.findIdx? (LinkPending.answers message) with
  | some i =>
    { slot with
      pending := slot.pending.modify i fun entry => { entry with active := false }
      status := { slot.status with acknowledgementsReceived := slot.status.acknowledgementsReceived + 1 } }
  | none => slot

def isDuplicate : Bool := slot.duplicates.any (LinkDuplicate.matches message)

/-- `link_remember_locked`. -/
def remember : LinkInstance :=
  { slot with
    duplicates := slot.duplicates.set (slot.duplicateNext % duplicateDepth)
      ⟨message.source, message.sequence, message.type, true, message.payload⟩
    duplicateNext := slot.duplicateNext + 1 }

end LinkInstance

def Message.asks (message : Message) : Bool := message.flags &&& flagAckRequested ≠ 0

def Message.key (message : Message) : Key := ⟨message.destination, message.sequence⟩

/-- What `solar_os_link_ingest` finds when it looks at a message. -/
inductive Verdict where
  | invalid
  | elsewhere
  | acknowledged
  | received (duplicate sendAck : Bool)
  deriving DecidableEq

/-- The critical sections, the queue operations and the reads without the mutex. -/
inductive Op : Type → Type
  | create (name : CString) (localId : UInt32) (frameMtu : Nat) : Op EspErr
  | acquire (name : CString) : Op (Option LinkRef)
  | release (ref : LinkRef) : Op Unit
  | number (ref : LinkRef) (type : MessageType) (destination : UInt32) : Op (Option Message)
  | frameMtu (ref : LinkRef) : Op Nat
  | sendTx (ref : LinkRef) (message : Message) (frame : List UInt8) : Op Bool
  | recordSend (ref : LinkRef) (message : Message) (ret : EspErr) : Op Unit
  | receiveTx (ref : LinkRef) : Op (Option (List UInt8))
  | recordInvalid (ref : LinkRef) (ret : EspErr) : Op Unit
  | examine (ref : LinkRef) (message : Message) : Op Verdict
  | sendRx (ref : LinkRef) (message : Message) : Op Bool
  | receiveRx (ref : LinkRef) : Op (Option Message)
  | localId (ref : LinkRef) : Op UInt32
  | sendAck (ref : LinkRef) (message : Message) (frame : List UInt8) : Op Bool
  | recordIngest (ref : LinkRef) (message : Message) (ret ackRet : EspErr)
      (duplicate sendAck evicted : Bool) : Op Unit
  | close (name : CString) : Op (Option (Fin instanceMax))
  | refs (index : Fin instanceMax) : Op Nat
  | clear (index : Fin instanceMax) : Op Unit

def room {α : Type} (queue : List α) : Bool := queue.length < queueDepth

/-- The slot of a call that ends its examination of a message. -/
def LinkInstance.examine (slot : LinkInstance) (message : Message) : LinkInstance × Verdict :=
  if message.destination ≠ slot.localId ∧ message.destination ≠ broadcast then (slot, .elsewhere)
  else if message.type = .acknowledgement then
    let slot := slot.ackPending message
    ({ slot with
        status := { slot.status with lastError := .ok }
        history := slot.history ++ [.acknowledged ⟨message.source, message.sequence⟩] }, .acknowledged)
  else
    let duplicate := message.type ≠ .stream ∧ slot.isDuplicate message = true
    (if duplicate then { slot with status := { slot.status with duplicates := slot.status.duplicates + 1 } } else slot,
      .received duplicate (message.destination ≠ broadcast ∧ message.asks = true))

def LinkInstance.recordSend (slot : LinkInstance) (message : Message) (ret : EspErr) : LinkInstance :=
  let slot := { slot with status := { slot.status with lastError := ret } }
  if ret = .ok then
    let slot := { slot with status := { slot.status with txMessages := slot.status.txMessages + 1 } }
    if message.asks then
      { slot.addPending message.destination message.sequence with unrecorded := slot.unrecorded.erase message.key }
    else slot
  else { slot with status := { slot.status with dropped := slot.status.dropped + 1 } }

def LinkInstance.recordIngest (slot : LinkInstance) (message : Message) (ret ackRet : EspErr)
    (duplicate sendAck evicted : Bool) : LinkInstance :=
  if ret = .ok then
    let slot := if duplicate = false ∧ message.type ≠ .stream then slot.remember message else slot
    let status := slot.status
    let status :=
      if duplicate then status
      else
        { status with
          rxMessages := status.rxMessages + 1
          dropped := if evicted then status.dropped + 1 else status.dropped }
    let status :=
      if sendAck = true ∧ ackRet = .ok then { status with acknowledgementsSent := status.acknowledgementsSent + 1 }
      else if sendAck then { status with dropped := status.dropped + 1 }
      else status
    { slot with status := { status with lastError := ackRet } }
  else
    { slot with status := { slot.status with dropped := slot.status.dropped + 1, lastError := ret } }

/-- What an operation does; the environment says whether the queues of a new instance can be made. -/
def act {α : Type} : Op α → Links → Bool → Links × α
  | .create name localId frameMtu, s, made =>
    if made = false then (s, .noMem)
    else if (s.linkFind name).isSome then (s, .invalidState)
    else
      match s.firstFree with
      | none => (s, .noMem)
      | some i =>
        ({ s.set i { LinkInstance.zero with
            active := true
            generation := s.linkGeneration
            name := name.strlcpy nameMax
            localId
            frameMtu
            nextSequence := 1 } with linkGeneration := Generation.next s.linkGeneration }, .ok)
  | .acquire name, s, _ =>
    match s.linkFind name with
    | none => (s, none)
    | some i => (s.set i { s.slots i with refs := (s.slots i).refs + 1 }, some ⟨i, (s.slots i).generation⟩)
  | .release ref, s, _ =>
    if s.refValid ref then (s.set ref.index { s.slots ref.index with refs := (s.slots ref.index).refs - 1 }, ())
    else (s, ())
  | .number ref type destination, s, _ =>
    if s.refValid ref then
      let slot := s.slots ref.index
      (s.set ref.index { slot with nextSequence := if slot.nextSequence + 1 = 0 then 1 else slot.nextSequence + 1 },
        some
          { version := protocolVersion
            flags := if destination ≠ broadcast ∧ linkTypeRequestsAcknowledgement type = true then flagAckRequested else 0
            type
            sequence := slot.nextSequence
            source := slot.localId
            destination
            payload := [] })
    else (s, none)
  | .frameMtu ref, s, _ => (s, (s.slots ref.index).frameMtu)
  | .sendTx ref message frame, s, _ =>
    let slot := s.slots ref.index
    if slot.generation = ref.generation ∧ room slot.txQueue = true then
      (s.set ref.index { slot with
          txQueue := slot.txQueue ++ [frame]
          history := if message.asks then slot.history ++ [.sent message.key] else slot.history
          unrecorded := if message.asks then slot.unrecorded ++ [message.key] else slot.unrecorded }, true)
    else (s, false)
  | .recordSend ref message ret, s, _ =>
    (if s.refValid ref then s.set ref.index ((s.slots ref.index).recordSend message ret) else s, ())
  | .receiveTx ref, s, _ =>
    let slot := s.slots ref.index
    if slot.generation = ref.generation then
      match slot.txQueue with
      | [] => (s, none)
      | frame :: txQueue => (s.set ref.index { slot with txQueue }, some frame)
    else (s, none)
  | .recordInvalid ref ret, s, _ =>
    let slot := s.slots ref.index
    (if s.refValid ref then
      s.set ref.index { slot with status := { slot.status with
        lastError := ret
        crcErrors := if ret = .invalidCrc then slot.status.crcErrors + 1 else slot.status.crcErrors
        dropped := if ret = .invalidCrc then slot.status.dropped else slot.status.dropped + 1 } }
    else s, ())
  | .examine ref message, s, _ =>
    if s.refValid ref then
      let (slot, verdict) := (s.slots ref.index).examine message
      (s.set ref.index slot, verdict)
    else (s, .invalid)
  | .sendRx ref message, s, _ =>
    let slot := s.slots ref.index
    if slot.generation = ref.generation ∧ room slot.rxQueue = true then
      (s.set ref.index { slot with
          rxQueue := slot.rxQueue ++ [message], delivered := slot.delivered ++ [message] }, true)
    else (s, false)
  | .receiveRx ref, s, _ =>
    let slot := s.slots ref.index
    if slot.generation = ref.generation then
      match slot.rxQueue with
      | [] => (s, none)
      | message :: rxQueue => (s.set ref.index { slot with rxQueue }, some message)
    else (s, none)
  | .localId ref, s, _ => (s, (s.slots ref.index).localId)
  | .sendAck ref message frame, s, _ =>
    let slot := s.slots ref.index
    if slot.generation = ref.generation ∧ room slot.txQueue = true then
      (s.set ref.index { slot with
          txQueue := slot.txQueue ++ [frame], answered := slot.answered ++ [message] }, true)
    else (s, false)
  | .recordIngest ref message ret ackRet duplicate sendAck evicted, s, _ =>
    (if s.refValid ref then
      s.set ref.index ((s.slots ref.index).recordIngest message ret ackRet duplicate sendAck evicted)
    else s, ())
  | .close name, s, _ =>
    match s.linkFind name with
    | none => (s, none)
    | some i => (s.set i { s.slots i with active := false, closing := true }, some i)
  | .refs index, s, _ =>
    (if (s.slots index).refs = 0 then s else { s with expired := s.expired ++ [index] }, (s.slots index).refs)
  | .clear index, s, _ => (s.set index .zero, ())

def enabled {α : Type} (_ : Op α) (_ : Links) : Prop := True

instance {α : Type} (op : Op α) (s : Links) : Decidable (enabled op s) := .isTrue trivial

structure IngestResult where
  accepted : Bool
  duplicate : Bool
  acknowledgement : Bool
  message : Option Message

def IngestResult.zero : IngestResult := ⟨false, false, false, none⟩

inductive Reply where
  | code (err : EspErr)
  | sent (err : EspErr) (sequence : Option UInt16)
  | frame (reply : Except EspErr (List UInt8))
  | message (reply : Except EspErr Message)
  | ingested (err : EspErr) (result : IngestResult)

section
variable (name : CString)

def create (localId : UInt32) (frameMtu : Nat) : Program Op Reply := do
  if linkNameValid name = false ∨ localId = 0 ∨ localId = broadcast ∨ frameMtu < headerSize + crcSize ∨
      frameMax < frameMtu then
    return .code .invalidArg
  else
    let err ← invoke (.create name localId frameMtu)
    return .code err

/-- `solar_os_link_destroy`; the loop of looks at the references is the look that ends it. -/
def destroy : Program Op Reply := do
  if linkNameValid name then
    match ← invoke (.close name) with
    | none => return .code .notFound
    | some index =>
      let refs ← invoke (.refs index)
      if refs = 0 then
        invoke (.clear index)
        return .code .ok
      else return .code .timeout
  else return .code .invalidArg

def linkAcquire : Program Op (Except EspErr LinkRef) := do
  if linkNameValid name then
    match ← invoke (.acquire name) with
    | none => return .error .notFound
    | some ref => return .ok ref
  else return .error .invalidArg

variable (ref : LinkRef)

variable (message : Message)

/-- The encoding and the sending in `solar_os_link_send`. -/
def queueFrame : Program Op EspErr :=
  match encode message with
  | .error err => return err
  | .ok frame => do
    let frameMtu ← invoke (.frameMtu ref)
    if frameMtu < frame.length then return .invalidSize
    else
      let queued ← invoke (.sendTx ref message frame)
      return if queued then .ok else .noMem

def send (type : MessageType) (destination : UInt32) (payload : List UInt8) : Program Op Reply := do
  if (type ≠ .text ∧ type ≠ .binary ∧ type ≠ .stream) ∨ destination = 0 ∨ payloadMax < payload.length ∨
      (type = .stream ∧ destination = broadcast) then
    return .sent .invalidArg none
  else
    match ← linkAcquire name with
    | .error err => return .sent err none
    | .ok ref =>
      match ← invoke (.number ref type destination) with
      | none => do
        invoke (.release ref)
        return .sent .invalidState none
      | some header => do
        let ret ← queueFrame ref { header with payload }
        invoke (.recordSend ref { header with payload } ret)
        invoke (.release ref)
        return .sent ret (if ret = .ok then some header.sequence else none)

def takeTx : Program Op Reply := do
  match ← linkAcquire name with
  | .error err => return .frame (.error err)
  | .ok ref =>
    let frame ← invoke (.receiveTx ref)
    invoke (.release ref)
    return .frame (frame.elim (.error .timeout) .ok)

def linkQueueReceived : Program Op (EspErr × Bool) := do
  let queued ← invoke (.sendRx ref message)
  if queued then return (.ok, false)
  else
    let oldest ← invoke (.receiveRx ref)
    let queued ← invoke (.sendRx ref message)
    return (if queued then .ok else .noMem, oldest.isSome)

/-- The acknowledgement of a message. -/
def Message.ack (localId : UInt32) : Message where
  version := protocolVersion
  flags := 0
  type := .acknowledgement
  sequence := message.sequence
  source := localId
  destination := message.source
  payload := []

def linkQueueAck : Program Op EspErr := do
  let localId ← invoke (.localId ref)
  match encode (message.ack localId) with
  | .error err => return err
  | .ok frame =>
    let queued ← invoke (.sendAck ref message frame)
    return if queued then .ok else .noMem

/-- `solar_os_link_ingest` once the message is to be taken in. -/
def takeIn (duplicate sendAck : Bool) : Program Op Reply := do
  let (ret, evicted) ←
    if duplicate = false ∧ message.type ≠ .stream then linkQueueReceived ref message else pure (.ok, false)
  let ackRet ← if ret = .ok ∧ sendAck = true then linkQueueAck ref message else pure .ok
  invoke (.recordIngest ref message ret ackRet duplicate sendAck evicted)
  invoke (.release ref)
  return .ingested ret ⟨ret = .ok && !duplicate, duplicate, false, some message⟩

def ingest (frame : List UInt8) : Program Op Reply := do
  match ← linkAcquire name with
  | .error err => return .ingested err .zero
  | .ok ref =>
    match decode frame with
    | .error err => do
      invoke (.recordInvalid ref err)
      invoke (.release ref)
      return .ingested err .zero
    | .ok message =>
      match ← invoke (.examine ref message) with
      | .invalid => do
        invoke (.release ref)
        return .ingested .invalidState .zero
      | .elsewhere => do
        invoke (.release ref)
        return .ingested .notFound .zero
      | .acknowledged => do
        invoke (.release ref)
        return .ingested .ok ⟨false, false, true, some message⟩
      | .received duplicate sendAck => takeIn ref message duplicate sendAck

def receive : Program Op Reply := do
  match ← linkAcquire name with
  | .error err => return .message (.error err)
  | .ok ref =>
    let message ← invoke (.receiveRx ref)
    invoke (.release ref)
    return .message (message.elim (.error .timeout) .ok)

end

inductive Call where
  | create (name : CString) (localId : UInt32) (frameMtu : Nat)
  | destroy (name : CString)
  | send (name : CString) (type : MessageType) (destination : UInt32) (payload : List UInt8)
  | takeTx (name : CString)
  | ingest (name : CString) (frame : List UInt8)
  | receive (name : CString)

def body : Call → Program Op Reply
  | .create name localId frameMtu => create name localId frameMtu
  | .destroy name => destroy name
  | .send name type destination payload => send name type destination payload
  | .takeTx name => takeTx name
  | .ingest name frame => ingest name frame
  | .receive name => receive name

abbrev Calls := Pool Op Links Reply

abbrev LinkTurn := Program.Turn Call Bool

abbrev turn (calls : Calls) (t : LinkTurn) : Calls := Pool.turn act enabled body calls t

def started : Calls := ⟨⟨fun _ => .zero, 1, []⟩, []⟩

end SolarOs.Link
