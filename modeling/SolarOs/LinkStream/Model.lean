import SolarOs.Library.StopAndWait.Protocol
import SolarOs.Library.Wrapping
import SolarOs.Link.Frame

/-! The frames of a Link stream: the 16-byte header inside a STREAM message. -/
namespace SolarOs.LinkStream
open ByteOrder

def headerSize : Nat := 16
def magic0 : UInt8 := 0x53
def magic1 : UInt8 := 0x56
def version : UInt8 := 2

inductive Opcode where
  | OPEN
  | DATA
  | ACK
  | CLOSE
  deriving DecidableEq, Repr

def Opcode.toByte : Opcode → UInt8
  | .OPEN => 1
  | .DATA => 2
  | .ACK => 3
  | .CLOSE => 4

def Opcode.ofByte? (value : UInt8) : Option Opcode :=
  if value = 1 then some .OPEN
  else if value = 2 then some .DATA
  else if value = 3 then some .ACK
  else if value = 4 then some .CLOSE
  else none

@[simp] theorem Opcode.ofByte?_toByte (opcode : Opcode) : Opcode.ofByte? opcode.toByte = some opcode := by
  cases opcode <;> decide

/-- `link_stream_action_t` of a valid action; `data` holds the first `data_len` bytes. -/
structure Action where
  generation : UInt32
  opcode : Opcode
  peerId : UInt32
  session : UInt32
  sequence : UInt16
  acknowledgementSession : UInt32
  acknowledgementSequence : UInt16
  data : List UInt8
  deriving DecidableEq, Repr

/-- What `stream_decode` hands back. -/
structure Decoded where
  opcode : Opcode
  session : UInt32
  sequence : UInt16
  acknowledgementSession : UInt32
  acknowledgementSequence : UInt16
  data : List UInt8
  deriving DecidableEq, Repr

inductive DecodeIssue where
  | none
  | structural
  | magic
  | version
  | opcode
  | session
  | data
  | controlSequence
  | controlData
  | acknowledgement
  deriving DecidableEq, Repr

/-- A refused message: the error, the issue, and the outputs written before it. -/
structure DecodeFailure where
  error : EspErr
  issue : DecodeIssue
  opcode : UInt8
  sequence : UInt16
  dataLen : Nat
  deriving DecidableEq, Repr

def earlyFailure (issue : DecodeIssue) : DecodeFailure where
  error := .invalidArg
  issue
  opcode := 0
  sequence := 0
  dataLen := 0

def Decoded.failure (d : Decoded) (issue : DecodeIssue) : DecodeFailure where
  error := .invalidArg
  issue
  opcode := d.opcode.toByte
  sequence := d.sequence
  dataLen := d.data.length

/-- The outputs read from a payload whose opcode byte is in range. -/
def readHeader (opcode : Opcode) (payload : List UInt8) : Decoded where
  opcode
  session := Link.linkReadU32 (payload.drop 4)
  sequence := Link.linkReadU16 (payload.drop 8)
  acknowledgementSession := Link.linkReadU32 (payload.drop 10)
  acknowledgementSequence := Link.linkReadU16 (payload.drop 14)
  data := payload.drop headerSize

/-- The checks `stream_decode` makes on the fields it has read. -/
def checkFields (d : Decoded) : Except DecodeFailure Decoded :=
  if d.session = 0 then
    .error (d.failure .session)
  else if d.opcode = .DATA ∧ (d.sequence = 0 ∨ d.data.length = 0) then
    .error (d.failure .data)
  else if d.opcode ≠ .DATA ∧ d.sequence ≠ 0 then
    .error (d.failure .controlSequence)
  else if d.opcode ≠ .DATA ∧ d.data.length ≠ 0 then
    .error (d.failure .controlData)
  else if ¬ (d.acknowledgementSession = 0 ↔ d.acknowledgementSequence = 0) ∨
      (d.opcode = .ACK ∧ d.acknowledgementSession = 0) then
    .error (d.failure .acknowledgement)
  else
    .ok d

def streamDecode (message : Link.Message) : Except DecodeFailure Decoded :=
  if message.type ≠ .stream ∨ message.destination = Link.broadcast ∨
      message.payload.length < headerSize then
    .error (earlyFailure .structural)
  else if message.payload.getD 0 0 ≠ magic0 ∨ message.payload.getD 1 0 ≠ magic1 then
    .error (earlyFailure .magic)
  else if message.payload.getD 2 0 ≠ version then
    .error (earlyFailure .version)
  else
    match Opcode.ofByte? (message.payload.getD 3 0) with
    | none => .error (earlyFailure .opcode)
    | some opcode => checkFields (readHeader opcode message.payload)

/-- The payload `stream_send_action` builds. -/
def actionPayload (action : Action) : List UInt8 :=
  [magic0, magic1, version, action.opcode.toByte] ++ bigEndian32 action.session ++
    bigEndian16 action.sequence ++ bigEndian32 action.acknowledgementSession ++
    bigEndian16 action.acknowledgementSequence ++ action.data

/-- The message the link of `source` carries for an action. The link numbers it
itself; a stream does not look at that number. -/
def actionMessage (source : UInt32) (linkSequence : UInt16) (action : Action) : Link.Message where
  version := Link.protocolVersion
  flags := 0
  type := .stream
  sequence := linkSequence
  source
  destination := action.peerId
  payload := actionPayload action

def Action.fields (action : Action) : Decoded where
  opcode := action.opcode
  session := action.session
  sequence := action.sequence
  acknowledgementSession := action.acknowledgementSession
  acknowledgementSequence := action.acknowledgementSequence
  data := action.data

theorem readHeader_actionPayload (action : Action) :
    readHeader action.opcode (actionPayload action) = action.fields := by
  simp [readHeader, actionPayload, Action.fields, bigEndian32, bigEndian16, headerSize,
    Link.linkReadU32, Link.linkReadU16]

theorem streamDecode_actionMessage (source : UInt32) (linkSequence : UInt16) {action : Action}
    (hpeer : action.peerId ≠ Link.broadcast) :
    streamDecode (actionMessage source linkSequence action) = checkFields action.fields := by
  have hlength : ¬ (actionPayload action).length < headerSize := by
    simp only [actionPayload, headerSize, List.length_append, List.length_cons, List.length_nil,
      bigEndian32_length, bigEndian16_length]
    omega
  have hopcode : Opcode.ofByte? ((actionPayload action).getD 3 0) = some action.opcode := by
    simp [actionPayload]
  have h0 : (actionPayload action).getD 0 0 = magic0 := rfl
  have h1 : (actionPayload action).getD 1 0 = magic1 := rfl
  have h2 : (actionPayload action).getD 2 0 = version := rfl
  simp only [streamDecode, actionMessage, hpeer, hlength, h0, h1, h2, hopcode,
    readHeader_actionPayload, ne_eq, not_true_eq_false, or_self, if_false]

theorem checkFields_ok {d e : Decoded} (h : checkFields d = .ok e) : e = d ∧ d.session ≠ 0 := by
  unfold checkFields at h
  split_ifs at h with hsession
  exact ⟨(Except.ok.inj h).symm, hsession⟩

theorem fields_of_streamDecode {source : UInt32} {linkSequence : UInt16} {action : Action} {d : Decoded}
    (h : streamDecode (actionMessage source linkSequence action) = .ok d) : d = action.fields ∧ action.session ≠ 0 := by
  by_cases hpeer : action.peerId = Link.broadcast
  · simp [streamDecode, actionMessage, hpeer] at h
  · rw [streamDecode_actionMessage source linkSequence hpeer] at h
    obtain ⟨rfl, hsession⟩ := checkFields_ok h
    exact ⟨rfl, hsession⟩

end SolarOs.LinkStream

/-! One Link stream: its state and what its port, its link and its processing job
do to it. -/
namespace SolarOs.LinkStream
open WrapClock

def queueBytes : Nat := 2048
def windowSize : Nat := 1

/-- `solar_os_link_stream_config_t` without the port label. -/
structure Config where
  acknowledgementDelayMs : UInt32
  retryMs : UInt32
  retryJitterMs : UInt32
  openIntervalMs : UInt32
  peerTimeoutMs : UInt32
  deriving DecidableEq, Repr

def configDefault : Config where
  acknowledgementDelayMs := 40
  retryMs := 800
  retryJitterMs := 400
  openIntervalMs := 15000
  peerTimeoutMs := 45000

/-- `link_stream_tx_slot_t`; `data` holds the first `len` bytes. -/
structure TxSlot where
  sequence : UInt16
  data : List UInt8
  sent : Bool
  everSent : Bool
  lastSendMs : UInt32
  deriving DecidableEq, Repr

/-- The counters of `solar_os_link_stream_status_t`. -/
structure Counters where
  bytesReceived : UInt32 := 0
  bytesSent : UInt32 := 0
  framesReceived : UInt32 := 0
  framesSent : UInt32 := 0
  acknowledgementsReceived : UInt32 := 0
  acknowledgementsSent : UInt32 := 0
  retries : UInt32 := 0
  reconnects : UInt32 := 0
  dropped : UInt32 := 0
  decodeErrors : UInt32 := 0
  lastDecodeIssue : DecodeIssue := .none
  lastDecodeOpcode : UInt8 := 0
  lastDecodeSequence : UInt16 := 0
  lastDecodeDataLen : Nat := 0
  lastError : EspErr := .ok
  deriving DecidableEq, Repr

/-- A numbered slot: the session it belongs to, its number and its bytes. -/
abbrev SlotRecord := StopAndWait.Slot UInt32 UInt16 (List UInt8)

/-- An acknowledged slot, with the session its acknowledgement named. -/
structure Release where
  slot : SlotRecord
  acknowledgementSession : UInt32
  deriving DecidableEq, Repr

/-- History for the specification, in no source structure and read by no branch:
the slots numbered, the slots appended to `rx_queue`, the slots acknowledged. -/
structure History where
  numbered : List SlotRecord := []
  appended : List SlotRecord := []
  released : List Release := []
  deriving DecidableEq, Repr

/-- `link_stream_t`; `txWindow` holds the first `tx_window_count` slots. -/
structure Stream where
  active : Bool
  generation : UInt32
  peerId : UInt32
  config : Config
  dataMtu : Nat
  rxQueue : List UInt8
  txQueue : List UInt8
  portOpen : Bool
  localSession : UInt32
  remoteSession : UInt32
  hadRemoteSession : Bool
  remoteLastSeenMs : UInt32
  nextOpenMs : UInt32
  nextTxSequence : UInt16
  expectedRxSequence : UInt16
  receivedAny : Bool
  txWindow : List TxSlot
  acknowledgementPending : Bool
  acknowledgementSession : UInt32
  acknowledgementSequence : UInt16
  acknowledgementDueMs : UInt32
  closePending : Bool
  closeSession : UInt32
  counters : Counters
  history : History
  deriving DecidableEq, Repr

/-- The stream `solar_os_link_stream_create_configured` leaves in its slot. -/
def create (generation peerId : UInt32) (config : Config) (dataMtu : Nat) : Stream where
  active := true
  generation
  peerId
  config
  dataMtu
  rxQueue := []
  txQueue := []
  portOpen := false
  localSession := 0
  remoteSession := 0
  hadRemoteSession := false
  remoteLastSeenMs := 0
  nextOpenMs := 0
  nextTxSequence := 1
  expectedRxSequence := 1
  receivedAny := false
  txWindow := []
  acknowledgementPending := false
  acknowledgementSession := 0
  acknowledgementSequence := 0
  acknowledgementDueMs := 0
  closePending := false
  closeSession := 0
  counters := {}
  history := {}

def streamNextSequence (sequence : UInt16) : UInt16 :=
  if sequence + 1 ≠ 0 then sequence + 1 else 1

def streamPreviousSequence (sequence : UInt16) : UInt16 :=
  if sequence = 1 then 0xffff else sequence - 1

/-- The loop of `stream_sequence_is_recent` with `count` passes left. -/
def sequenceIsRecentLoop : Nat → UInt16 → UInt16 → Bool
  | 0, _, _ => false
  | count + 1, sequence, previous =>
    let previous := streamPreviousSequence previous
    sequence = previous || sequenceIsRecentLoop count sequence previous

def streamSequenceIsRecent (sequence expected : UInt16) : Bool :=
  sequenceIsRecentLoop windowSize sequence expected

section
variable (stream : Stream)

def streamRetryDelayMs (slot : TxSlot) : UInt32 :=
  let mixed := stream.localSession ^^^ (slot.sequence.toUInt32 * 2654435761)
  stream.config.retryMs + mixed % (stream.config.retryJitterMs + 1)

/-- The session made of one value of `esp_random`. -/
def streamNewSession (random : UInt32) : UInt32 := if random ≠ 0 then random else 1

def Stream.record (slot : TxSlot) : SlotRecord :=
  ⟨stream.localSession, slot.sequence, slot.data⟩

/-- Number the outstanding slots again from `sequence` on, none of them sent. -/
def renumber : UInt16 → List TxSlot → List TxSlot × UInt16
  | sequence, [] => ([], sequence)
  | sequence, slot :: slots =>
    let (slots, next) := renumber (streamNextSequence sequence) slots
    ({ slot with sequence, sent := false, everSent := false, lastSendMs := 0 } :: slots, next)

def streamResetLocal (preserveOutstanding : Bool) (random : UInt32) : Stream :=
  let session := streamNewSession random
  let (window, next) := renumber 1 (if preserveOutstanding then stream.txWindow else [])
  { stream with
    localSession := session
    nextTxSequence := next
    txWindow := window
    nextOpenMs := 0
    history := { stream.history with
      numbered := stream.history.numbered ++
        window.map fun slot => ⟨session, slot.sequence, slot.data⟩ } }

def streamConnected (nowMs : UInt32) : Bool :=
  stream.portOpen && stream.remoteSession ≠ 0 &&
    nowMs - stream.remoteLastSeenMs ≤ stream.config.peerTimeoutMs

def streamPortOpen (random : UInt32) : Stream × EspErr :=
  if !stream.active || stream.portOpen then
    (stream, .invalidState)
  else
    let stream := { stream with
      rxQueue := []
      txQueue := []
      portOpen := true
      remoteSession := 0
      hadRemoteSession := false
      remoteLastSeenMs := 0
      expectedRxSequence := 1
      receivedAny := false
      acknowledgementPending := false
      acknowledgementDueMs := 0
      closePending := false }
    let stream := streamResetLocal stream false random
    ({ stream with counters := { stream.counters with lastError := .ok } }, .ok)

def streamPortClose : Stream × EspErr :=
  if !stream.active || !stream.portOpen then
    (stream, .invalidState)
  else
    ({ stream with
      closePending := stream.localSession ≠ 0
      closeSession := stream.localSession
      portOpen := false
      remoteSession := 0
      acknowledgementPending := false
      acknowledgementDueMs := 0
      txWindow := []
      rxQueue := []
      txQueue := [] }, .ok)

/-- One byte of `stream_port_read`, whose loop runs outside the mutex. -/
def streamPortReadByte : Stream × Option UInt8 :=
  match stream.rxQueue with
  | [] => (stream, none)
  | byte :: rest => ({ stream with rxQueue := rest }, some byte)

/-- One byte of `stream_port_write`, whose loop runs outside the mutex. -/
def streamPortWriteByte (byte : UInt8) : Stream × Bool :=
  if stream.txQueue.length < queueBytes then
    ({ stream with txQueue := stream.txQueue ++ [byte] }, true)
  else
    (stream, false)

def acknowledgedCount (window : List TxSlot) (sequence : UInt16) : Nat :=
  match window.findIdx? fun slot => slot.sequence = sequence with
  | some i => i + 1
  | none => 0

def streamApplyAcknowledgement (acknowledgementSession : UInt32)
    (acknowledgementSequence : UInt16) : Stream :=
  if acknowledgementSession ≠ stream.localSession ∨ stream.txWindow.length = 0 then
    stream
  else
    let acknowledged := acknowledgedCount stream.txWindow acknowledgementSequence
    if acknowledged = 0 then
      stream
    else
      let gone := stream.txWindow.take acknowledged
      let bytes := (gone.map fun slot => slot.data.length).sum
      { stream with
        txWindow := stream.txWindow.drop acknowledged
        counters := { stream.counters with
          bytesSent := stream.counters.bytesSent + UInt32.ofNat bytes
          acknowledgementsReceived := stream.counters.acknowledgementsReceived + 1 }
        history := { stream.history with
          released := stream.history.released ++
            gone.map fun slot => ⟨stream.record slot, acknowledgementSession⟩ } }

def streamNoteDecodeError (failure : DecodeFailure) : Stream :=
  { stream with
    counters := { stream.counters with
      decodeErrors := stream.counters.decodeErrors + 1
      dropped := stream.counters.dropped + 1
      lastDecodeIssue := failure.issue
      lastDecodeOpcode := failure.opcode
      lastDecodeSequence := failure.sequence
      lastDecodeDataLen := failure.dataLen
      lastError := failure.error } }

def countDropped : Stream :=
  { stream with counters := { stream.counters with dropped := stream.counters.dropped + 1 } }

def setLastError (error : EspErr) : Stream :=
  { stream with counters := { stream.counters with lastError := error } }

def openDraws (session : UInt32) : Bool :=
  stream.remoteSession ≠ session && (stream.remoteSession ≠ 0 || stream.hadRemoteSession)

/-- Follow a new remote session from its first slot. -/
def adoptSession (session : UInt32) : Stream :=
  { stream with
    remoteSession := session
    expectedRxSequence := 1
    receivedAny := false
    acknowledgementPending := false
    acknowledgementDueMs := 0
    rxQueue := [] }

def noteRemoteSession : Stream :=
  if stream.hadRemoteSession then
    { stream with counters := { stream.counters with reconnects := stream.counters.reconnects + 1 } }
  else
    { stream with nextOpenMs := 0, hadRemoteSession := true }

/-- The OPEN part of `solar_os_link_stream_ingest` before the acknowledgement. -/
def ingestOpen (session : UInt32) (random : UInt32) : Stream :=
  if stream.remoteSession ≠ session then
    let adopted := adoptSession stream session
    noteRemoteSession
      (if stream.remoteSession ≠ 0 ∨ stream.hadRemoteSession then streamResetLocal adopted true random
      else adopted)
  else
    stream

section
variable (d : Decoded)

/-- Append the bytes of an in-order DATA frame. -/
def appendData : Stream :=
  { stream with
    rxQueue := stream.rxQueue ++ d.data
    expectedRxSequence := streamNextSequence stream.expectedRxSequence
    receivedAny := true
    counters := { stream.counters with
      bytesReceived := stream.counters.bytesReceived + UInt32.ofNat d.data.length
      framesReceived := stream.counters.framesReceived + 1 }
    history := { stream.history with
      appended := stream.history.appended ++ [⟨d.session, d.sequence, d.data⟩] } }

/-- Owe an acknowledgement of everything appended, unless nothing was. -/
def scheduleAcknowledgement (session nowMs : UInt32) : Stream :=
  if stream.expectedRxSequence = 1 ∧ stream.receivedAny = false then
    stream
  else
    { stream with
      acknowledgementPending := true
      acknowledgementSession := session
      acknowledgementSequence := streamPreviousSequence stream.expectedRxSequence
      acknowledgementDueMs := nowMs + stream.config.acknowledgementDelayMs }

def ingestData (nowMs : UInt32) : Stream × EspErr :=
  if stream.dataMtu < d.data.length then
    (setLastError (countDropped stream) .invalidSize, .invalidSize)
  else if d.sequence = stream.expectedRxSequence then
    if queueBytes - stream.rxQueue.length < d.data.length then
      (setLastError (countDropped stream) .noMem, .noMem)
    else
      (scheduleAcknowledgement (appendData stream d) d.session nowMs, .ok)
  else if streamSequenceIsRecent d.sequence stream.expectedRxSequence then
    (scheduleAcknowledgement stream d.session nowMs, .ok)
  else
    (scheduleAcknowledgement (countDropped stream) d.session nowMs, .ok)

def ingestClose : Stream :=
  { stream with
    remoteSession := 0
    remoteLastSeenMs := 0
    acknowledgementPending := false
    acknowledgementDueMs := 0
    rxQueue := []
    nextOpenMs := 0 }

/-- The opcode switch at the end of `solar_os_link_stream_ingest`. -/
def ingestSwitch (nowMs : UInt32) : Stream × EspErr :=
  match d.opcode with
  | .OPEN => (stream, .ok)
  | .DATA => ingestData stream d nowMs
  | .ACK => (stream, .ok)
  | .CLOSE => (ingestClose stream, .ok)

/-- `solar_os_link_stream_ingest` of a decoded frame at the stream it is for. -/
def ingestDecoded (nowMs random : UInt32) : Stream × EspErr :=
  if !stream.portOpen then
    (stream, .invalidState)
  else
    let stream := setLastError stream .ok
    if d.opcode ≠ .OPEN ∧ d.session ≠ stream.remoteSession then
      (setLastError (countDropped stream) .invalidState, .invalidState)
    else
      let stream := if d.opcode = .OPEN then ingestOpen stream d.session random else stream
      let stream := { stream with remoteLastSeenMs := nowMs }
      let stream := streamApplyAcknowledgement stream d.acknowledgementSession d.acknowledgementSequence
      ingestSwitch stream d nowMs

def decodedDraws : Bool :=
  stream.portOpen && d.opcode = .OPEN && openDraws stream d.session

end

/-- Whether a message from `source` is for this stream. -/
def findPeer (source : UInt32) : Bool := stream.active && stream.peerId = source

variable (message : Link.Message)

def ingestDraws : Bool :=
  match streamDecode message with
  | .error _ => false
  | .ok d => findPeer stream message.source && decodedDraws stream d

/-- `solar_os_link_stream_ingest` where one stream is configured on the link. -/
def ingest (nowMs random : UInt32) : Stream × EspErr :=
  match streamDecode message with
  | .error failure =>
    (if findPeer stream message.source then streamNoteDecodeError stream failure else stream,
      failure.error)
  | .ok d =>
    if findPeer stream message.source then ingestDecoded stream d nowMs random
    else (stream, .notFound)

def adopts (d : Decoded) : Bool :=
  stream.portOpen && d.opcode = .OPEN && stream.remoteSession ≠ d.session

def ingestAdopts : Option UInt32 :=
  match streamDecode message with
  | .error _ => none
  | .ok d => if findPeer stream message.source && adopts stream d then some d.session else none

/-- The peer timeout at the head of `stream_prepare_action_locked`. -/
def timedOut (nowMs : UInt32) : Bool :=
  stream.remoteSession ≠ 0 && stream.config.peerTimeoutMs < nowMs - stream.remoteLastSeenMs

def checkPeerTimeout (nowMs : UInt32) : Stream :=
  if timedOut stream nowMs then
    { stream with
      remoteSession := 0
      remoteLastSeenMs := 0
      nextOpenMs := 0
      acknowledgementPending := false
      acknowledgementDueMs := 0
      counters := { stream.counters with lastError := .timeout } }
  else
    stream

/-- The fields every action starts with: the stream and the acknowledgement owed. -/
def newAction (opcode : Opcode) (session : UInt32) : Action where
  generation := stream.generation
  opcode
  peerId := stream.peerId
  session
  sequence := 0
  acknowledgementSession := if stream.acknowledgementPending then stream.acknowledgementSession else 0
  acknowledgementSequence := if stream.acknowledgementPending then stream.acknowledgementSequence else 0
  data := []

end

/-- Fill up to `free` more slots of the window from `tx_queue`. -/
def fillWindow : Nat → Stream → Stream
  | 0, stream => stream
  | free + 1, stream =>
    let data := stream.txQueue.take stream.dataMtu
    if data.length = 0 then
      stream
    else
      fillWindow free { stream with
        txQueue := stream.txQueue.drop stream.dataMtu
        nextTxSequence := streamNextSequence stream.nextTxSequence
        txWindow := stream.txWindow ++
          [{ sequence := stream.nextTxSequence, data, sent := false, everSent := false, lastSendMs := 0 }]
        history := { stream.history with
          numbered := stream.history.numbered ++
            [⟨stream.localSession, stream.nextTxSequence, data⟩] } }

variable (stream : Stream)

/-- The slot to send: the first unsent one, else, when the retry delay of the oldest
has passed, the oldest, with every slot unsent again. -/
def selectSlot (nowMs : UInt32) : Stream × Option TxSlot :=
  match stream.txWindow.find? fun slot => !slot.sent with
  | some slot => (stream, some slot)
  | none =>
    match stream.txWindow with
    | [] => (stream, none)
    | oldest :: _ =>
      if streamRetryDelayMs stream oldest ≤ nowMs - oldest.lastSendMs then
        ({ stream with txWindow := stream.txWindow.map fun slot => { slot with sent := false } },
          some { oldest with sent := false })
      else
        (stream, none)

/-- The last part of `stream_prepare_action_locked`, on a connected stream. -/
def prepareData (nowMs : UInt32) : Stream × Option Action :=
  let stream := fillWindow (windowSize - stream.txWindow.length) stream
  match selectSlot stream nowMs with
  | (stream, some slot) =>
    (stream, some { newAction stream .DATA stream.localSession with
      sequence := slot.sequence
      data := slot.data })
  | (stream, none) =>
    if stream.acknowledgementPending && reached nowMs stream.acknowledgementDueMs then
      (stream, some (newAction stream .ACK stream.localSession))
    else
      (stream, none)

def streamPrepareAction (nowMs : UInt32) : Stream × Option Action :=
  let stream := checkPeerTimeout stream nowMs
  if stream.closePending then
    (stream, some (newAction stream .CLOSE stream.closeSession))
  else if !stream.portOpen then
    (stream, none)
  else if reached nowMs stream.nextOpenMs then
    (stream, some (newAction stream .OPEN stream.localSession))
  else if !streamConnected stream nowMs then
    (stream, none)
  else
    prepareData stream nowMs

/-- Mark the first slot with the transmitted number as sent. -/
def markSent : List TxSlot → UInt16 → UInt32 → List TxSlot
  | [], _, _ => []
  | slot :: slots, sequence, nowMs =>
    if slot.sequence ≠ sequence then
      slot :: markSent slots sequence nowMs
    else
      { slot with sent := true, everSent := true, lastSendMs := if nowMs ≠ 0 then nowMs else 1 } :: slots

def isRetry (window : List TxSlot) (sequence : UInt16) : Bool :=
  match window.find? fun slot => slot.sequence = sequence with
  | some slot => slot.everSent
  | none => false

/-- The acknowledgement part of the completion in `solar_os_link_stream_process`. -/
def completeAcknowledgement (action : Action) : Stream :=
  if action.acknowledgementSession ≠ 0 ∧ stream.acknowledgementPending ∧
      action.acknowledgementSession = stream.acknowledgementSession ∧
      action.acknowledgementSequence = stream.acknowledgementSequence then
    { stream with
      acknowledgementPending := false
      acknowledgementDueMs := 0
      counters := { stream.counters with
        acknowledgementsSent := stream.counters.acknowledgementsSent + 1 } }
  else
    stream

/-- The opcode switch of the completion. -/
def completeSwitch (action : Action) (nowMs : UInt32) : Stream :=
  match action.opcode with
  | .ACK => stream
  | .CLOSE => { stream with closePending := false }
  | .OPEN =>
    { stream with
      nextOpenMs := nowMs +
        (if streamConnected stream nowMs then stream.config.openIntervalMs else stream.config.retryMs) }
  | .DATA =>
    { stream with
      txWindow := markSent stream.txWindow action.sequence nowMs
      counters := { stream.counters with
        retries := stream.counters.retries + (if isRetry stream.txWindow action.sequence then 1 else 0)
        framesSent := stream.counters.framesSent + 1 } }

/-- What `solar_os_link_stream_process` does under the lock once an action was sent. -/
def processComplete (action : Action) (error : EspErr) (nowMs : UInt32) : Stream :=
  if stream.active && stream.generation = action.generation then
    let stream := setLastError stream error
    if error = .ok then completeSwitch (completeAcknowledgement stream action) action nowMs
    else stream
  else
    stream

def transportStopped : Stream :=
  if !stream.active then
    stream
  else
    { stream with
      remoteSession := 0
      remoteLastSeenMs := 0
      nextOpenMs := 0
      txWindow := stream.txWindow.map fun slot => { slot with sent := false, lastSendMs := 0 }
      acknowledgementPending := false
      acknowledgementDueMs := 0
      counters := { stream.counters with lastError := .invalidState } }

end SolarOs.LinkStream
