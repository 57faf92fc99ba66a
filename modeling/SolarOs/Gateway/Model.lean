import SolarOs.Library.Machine
import SolarOs.Messaging.Model

/-! The gateway synchronizer: the worker that submits commands and reads events, the
transport task that writes lines and reports what the server sends, and the queues
between them. The outbox and the channels also change from outside. -/
namespace SolarOs.Gateway
open Messaging (Outbound Delivery providerGateway)

def eventQueueLen : Nat := 12
def txQueueLen : Nat := 8
def channelCapacity : Nat := 32
def channelMax : Nat := 64
def textMax : Nat := 4096

/-- The event types other than `COMMAND_SENT`. -/
inductive Report where
  | connected
  | disconnected
  | error
  | channel
  | channelDeleted
  | joined
  | left
  | message
  | presence
  | raw
  deriving DecidableEq

inductive CommandType where
  | join
  | leave
  | deleteChannel
  | message
  deriving DecidableEq

structure Command where
  id : Nat
  type : CommandType
  channel : CString
  text : CString
  cursor : Nat
  deriving DecidableEq

/-- `chat_tx_item_t`: the command whose line is queued, and the outbox entry it is for. -/
structure TxItem where
  command : Command
  entry : Option Nat
  deriving DecidableEq

/-- An event on its way to the worker: the line of a command was written, or there is something
to report, on the account of the transport itself or because a line of the server says so. -/
inductive Event where
  | commandSent (item : TxItem)
  | report (type : Report) (line : Bool)
  deriving DecidableEq

structure Channel where
  name : CString
  desired : Bool
  deriving DecidableEq

/-- An entry of the messaging outbox; every entry ever made has a serial number of its own. -/
structure Entry where
  serial : Nat
  outbound : Outbound
  deriving DecidableEq

inductive Stage where
  | off
  | hello
  | serving
  | failed
  | leaving
  deriving DecidableEq

/-- The transport, with the event its task is about to queue. -/
structure Transport where
  running : Bool
  connected : Bool
  stopRequested : Bool
  stage : Stage
  pending : Option Event
  events : List Event
  tx : List TxItem
  deriving DecidableEq

/-- `gateway_sync_state_t`; `channels` holds the first `rejoin_count` ones. -/
structure Sync where
  rejoinPending : Bool
  transportBusy : Bool
  messagingInflight : Bool
  inflightId : Nat
  rejoinIndex : Nat
  channels : List Channel
  deriving DecidableEq

/-- What the worker did on a connection: a rejoin began, or a command was submitted. -/
inductive Note where
  | began (channels : List Channel)
  | submitted (item : TxItem)
  deriving DecidableEq

/-- A delivery state the worker gave an entry, and whether its line had been written on the
connection. -/
structure Mark where
  entry : Nat
  delivery : Delivery
  written : Bool
  deriving DecidableEq

/-- `checked` says that the worker found the transport connected and goes on to submit; what
follows `channels` is noted only, all but `marks` for the present connection. -/
structure World where
  transport : Transport
  sync : Sync
  checked : Bool
  outbox : List Entry
  nextSerial : Nat
  commands : List Command
  channels : List Channel
  welcomed : Bool
  written : List TxItem
  log : List Note
  marks : List Mark
  deriving DecidableEq

/-- What happens next: to the transport task, to the worker, or outside of both. -/
inductive Turn where
  | hello (sent : Bool)
  | write (sent : Bool)
  | line (type : Report)
  | readFails
  | hangUp
  | queue
  | drop
  | finish
  | read (backed : Bool)
  | check
  | submit (accepted : Bool) (cursor : Nat)
  | requestStop
  | connect (started : Bool)
  | enqueue (outbound : Outbound)
  | withdraw (entry : Nat)
  | command (commands : List Command)
  | channel (channels : List Channel)

namespace World

variable (w : World)

/-- The connection is made and the hello line is written, or the task gives up. -/
def hello (sent : Bool) : World :=
  if w.transport.stage ≠ .hello ∨ w.transport.pending.isSome = true then w
  else if sent = true ∧ w.transport.stopRequested = false then
    { w with transport := { w.transport with
        running := true, connected := true, stage := .serving, pending := some (.report .connected false) } }
  else
    { w with transport := { w.transport with
        running := false, connected := false, stage := .leaving
        pending := if w.transport.stopRequested then none else some (.report .error false) } }

/-- The task takes a line from its queue and writes it; when that fails it stops itself. -/
def write (sent : Bool) : World :=
  if w.transport.stage ≠ .serving ∨ w.transport.pending.isSome = true ∨ w.transport.stopRequested = true then w
  else
    match w.transport.tx with
    | [] => w
    | item :: tx =>
      if sent then
        { w with
          transport := { w.transport with tx, pending := some (.commandSent item) }
          written := w.written ++ [item] }
      else
        { w with transport := { w.transport with
            tx, connected := false, stopRequested := true, stage := .failed
            pending := some (.report .error false) } }

/-- `chat_handle_gateway_line`: a line of the server becomes an event. -/
def line (type : Report) : World :=
  if w.transport.stage ≠ .serving ∨ w.transport.pending.isSome = true then w
  else { w with transport := { w.transport with pending := some (.report type true) } }

def readFails : World :=
  if w.transport.stage ≠ .serving ∨ w.transport.pending.isSome = true then w
  else { w with transport := { w.transport with
      connected := false, stage := .failed, pending := some (.report .error false) } }

def hangUp : World :=
  if (w.transport.stage ≠ .serving ∧ w.transport.stage ≠ .failed) ∨ w.transport.pending.isSome = true then w
  else { w with transport := { w.transport with
      running := false, connected := false, stage := .leaving
      pending := if w.transport.stopRequested then none else some (.report .disconnected false) } }

/-- `chat_queue_event_owned`: the event is queued as soon as there is room. -/
def queue : World :=
  match w.transport.pending with
  | none => w
  | some event =>
    if w.transport.events.length < eventQueueLen then
      { w with transport := { w.transport with pending := none, events := w.transport.events ++ [event] } }
    else w

def drop : World :=
  if w.transport.stopRequested then { w with transport := { w.transport with pending := none } } else w

def finish : World :=
  if w.transport.stage = .leaving ∧ w.transport.pending = none then
    { w with transport := { w.transport with stage := .off } }
  else w

/-- The loop and the removal of `solar_os_messaging_outbox_update`; whether the message of the
entry is still in its ring is up to the rest of messaging. -/
def outboxUpdate (id : Nat) (delivery : Delivery) (backed : Bool) : World :=
  match w.outbox.find? fun entry => entry.outbound.id = id with
  | none => w
  | some entry =>
    let outbox :=
      if delivery = .queued then
        w.outbox.map fun e =>
          if e.serial = entry.serial then
            { e with outbound := { e.outbound with attempts := (e.outbound.attempts + 1) % 2 ^ 8 } }
          else e
      else w.outbox
    if backed = false then { w with outbox }
    else
      { w with
        outbox :=
          if delivery = .sent ∨ delivery = .delivered ∨ delivery = .failed then
            outbox.eraseP fun e => e.outbound.id = id
          else outbox
        marks := w.marks ++
          [⟨entry.serial, delivery, w.written.any fun item => item.entry = some entry.serial⟩] }

def beginRejoin : World :=
  { w with
    sync :=
      { rejoinPending := true
        transportBusy := false
        messagingInflight := false
        inflightId := 0
        rejoinIndex := 0
        channels := w.channels.take channelCapacity }
    log := w.log ++ [.began (w.channels.take channelCapacity)] }

/-- `solar_os_chat_outbox_ack`. -/
def chatAck (id : Nat) : World :=
  match w.commands with
  | [] => w
  | command :: commands => if id = 0 ∨ command.id ≠ id then w else { w with commands }

/-- What the worker makes of `COMMAND_SENT`. -/
def commandSent (commandId : Nat) (backed : Bool) : World :=
  let w := { w with sync := { w.sync with transportBusy := false } }
  if w.sync.rejoinPending then
    { w with sync := { w.sync with rejoinIndex := w.sync.rejoinIndex + 1 } }
  else if w.sync.messagingInflight = true ∧ w.sync.inflightId ≠ 0 ∧ commandId = w.sync.inflightId then
    let w := w.outboxUpdate w.sync.inflightId .sent backed
    { w with sync := { w.sync with inflightId := 0, messagingInflight := false } }
  else if w.sync.inflightId ≠ 0 ∧ commandId = w.sync.inflightId then
    let w := w.chatAck w.sync.inflightId
    { w with sync := { w.sync with inflightId := 0 } }
  else w

/-- What the worker makes of `DISCONNECTED`. -/
def disconnected (backed : Bool) : World :=
  let w := { w with sync := { w.sync with transportBusy := false } }
  let w :=
    if w.sync.messagingInflight = true ∧ w.sync.inflightId ≠ 0 then
      w.outboxUpdate w.sync.inflightId .queued backed
    else w
  { w with sync := { w.sync with inflightId := 0, messagingInflight := false, rejoinPending := false } }

/-- One round of `gateway_sync_drain_events`. -/
def read (backed : Bool) : World :=
  let w := { w with checked := false }
  match w.transport.events with
  | [] => w
  | event :: events =>
    let w := { w with transport := { w.transport with events } }
    match event with
    | .commandSent item => w.commandSent item.command.id backed
    | .report .connected line => { w.beginRejoin with welcomed := w.welcomed || !line }
    | .report .disconnected _ => w.disconnected backed
    | .report _ _ => w

def check : World := { w with checked := w.transport.running && w.transport.connected }

variable (accepted : Bool)

/-- `chat_queue_tx_line` once the transport was found connected. -/
def canQueue : Bool :=
  accepted && w.checked && decide (w.transport.tx.length < txQueueLen)

def pushTx (item : TxItem) : World :=
  { w with
    transport := { w.transport with tx := w.transport.tx ++ [item] }
    log := w.log ++ [.submitted item] }

def rejoinSkip (channels : List Channel) (index : Nat) : Nat :=
  index + ((channels.drop index).takeWhile fun c => !c.desired).length

def joinItem (channel : Channel) (cursor : Nat) : TxItem :=
  ⟨⟨0, .join, channel.name.strlcpy channelMax, .empty, cursor⟩, none⟩

/-- The command of `gateway_sync_submit_next` for an entry of the outbox. -/
def messageItem (entry : Entry) : TxItem :=
  ⟨⟨entry.outbound.id, .message, entry.outbound.providerKey.strlcpy channelMax,
    entry.outbound.body.strlcpy textMax, 0⟩, some entry.serial⟩

def peek : Option Entry := w.outbox.find? fun entry => entry.outbound.provider = providerGateway

/-- `gateway_sync_submit_next` past the rejoin. -/
def submitOutbox (cursor : Nat) : World :=
  match w.commands with
  | command :: _ =>
    let command := if command.type = .join then { command with cursor } else command
    if w.canQueue accepted then
      let w := w.pushTx ⟨command, none⟩
      { w with sync := { w.sync with
          inflightId := command.id, messagingInflight := false, transportBusy := true } }
    else w
  | [] =>
    match w.peek with
    | none => w
    | some entry =>
      if w.canQueue accepted then
        let w := w.pushTx (messageItem entry)
        { w with sync := { w.sync with
            inflightId := entry.outbound.id, messagingInflight := true, transportBusy := true } }
      else w

/-- `gateway_sync_submit_next`. Marking an entry as being sent changes nothing in the outbox. -/
def submitNext (cursor : Nat) : World :=
  if w.sync.transportBusy then w
  else if w.sync.rejoinPending then
    let index := rejoinSkip w.sync.channels w.sync.rejoinIndex
    let w := { w with sync := { w.sync with rejoinIndex := index } }
    match w.sync.channels[index]? with
    | some channel =>
      if w.canQueue accepted then
        let w := w.pushTx (joinItem channel cursor)
        { w with sync := { w.sync with transportBusy := true } }
      else w
    | none => submitOutbox { w with sync := { w.sync with rejoinPending := false } } accepted cursor
  else w.submitOutbox accepted cursor

def submit (cursor : Nat) : World :=
  { w.submitNext accepted cursor with checked := false }

def requestStop : World := { w with transport := { w.transport with stopRequested := true } }

/-- The ended task is reaped, and a new one is started. -/
def connect (started : Bool) : World :=
  if w.transport.stage ≠ .off then w
  else
    { w with
      transport :=
        { running := started
          connected := false
          stopRequested := if started then false else w.transport.stopRequested
          stage := if started then .hello else .off
          pending := none
          events := []
          tx := [] }
      checked := false
      welcomed := false
      written := []
      log := [] }

def enqueue (outbound : Outbound) : World :=
  { w with outbox := w.outbox ++ [⟨w.nextSerial, outbound⟩], nextSerial := w.nextSerial + 1 }

def withdraw (entry : Nat) : World := { w with outbox := w.outbox.filter fun e => e.serial ≠ entry }

def step (w : World) : Turn → World
  | .hello sent => w.hello sent
  | .write sent => w.write sent
  | .line type => w.line type
  | .readFails => w.readFails
  | .hangUp => w.hangUp
  | .queue => w.queue
  | .drop => w.drop
  | .finish => w.finish
  | .read backed => w.read backed
  | .check => w.check
  | .submit accepted cursor => w.submit accepted cursor
  | .requestStop => w.requestStop
  | .connect started => w.connect started
  | .enqueue outbound => w.enqueue outbound
  | .withdraw entry => w.withdraw entry
  | .command commands => { w with commands }
  | .channel channels => { w with channels }

end World

/-- When the job has started. -/
def initial : World where
  transport := ⟨false, false, false, .off, none, [], []⟩
  sync := ⟨false, false, false, 0, 0, []⟩
  checked := false
  outbox := []
  nextSerial := 0
  commands := []
  channels := []
  welcomed := false
  written := []
  log := []
  marks := []

end SolarOs.Gateway
