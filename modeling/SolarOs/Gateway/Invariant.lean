import SolarOs.Gateway.Model

/-! What a connection must keep: each entry is written once, its delivery states tell the
truth, one command is under way at a time, and channels are joined before messages. -/
namespace SolarOs.Gateway
open Messaging (Outbound Delivery providerGateway)

def Event.item : Event → Option TxItem
  | .commandSent item => some item
  | .report .. => none

def Transport.reports (t : Transport) : List Event := t.events ++ t.pending.toList

/-- The commands that were submitted and wait for their `COMMAND_SENT`. -/
def World.awaiting (w : World) : List TxItem := w.transport.reports.filterMap Event.item ++ w.transport.tx

def Note.message : Note → Bool
  | .submitted item => item.command.type = .message
  | .began _ => false

def Note.rejoin : Note → Bool
  | .began _ => true
  | .submitted _ => false

def Joined (log : List Note) (channel : Channel) : Prop :=
  ∃ item, .submitted item ∈ log ∧ item.command.type = .join ∧
    item.command.channel = channel.name.strlcpy channelMax

def Rejoined (log : List Note) : Prop :=
  ∃ earlier channels later, log = earlier ++ .began channels :: later ∧
    (∀ note ∈ later, note.rejoin = false) ∧ ∀ c ∈ channels, c.desired = true → Joined log c

structure AtMostOnce (w : World) : Prop where
  once : (w.written.filterMap (·.entry)).Nodup
  marked : ∀ mark ∈ w.marks,
    (mark.delivery = .sent → mark.written = true) ∧ (mark.delivery = .queued → mark.written = false)
  single : w.awaiting.length ≤ 1
  rejoined : ∀ before note after, w.log = before ++ note :: after → note.message = true →
    (∀ earlier ∈ before, earlier.message = false) → Rejoined before

/-- The command that `gateway_sync_submit_next` comes to. -/
def World.submission (w : World) (cursor : Nat) : Option TxItem :=
  if w.sync.transportBusy then none
  else
    let channel :=
      if w.sync.rejoinPending then w.sync.channels[World.rejoinSkip w.sync.channels w.sync.rejoinIndex]?
      else none
    match channel, w.commands with
    | some channel, _ => some (World.joinItem channel cursor)
    | none, command :: _ => some ⟨if command.type = .join then { command with cursor } else command, none⟩
    | none, [] => w.peek.map World.messageItem

/-- The worker reads `CONNECTED` while no command is under way, and a `DISCONNECTED` that the server
sent while it waits for nothing; the message of an entry whose line was written is still there; no
message is submitted before the `CONNECTED` of its connection was read; and the id of a new entry is
not in use. -/
def Calm (w : World) : Turn → Prop
  | .read backed =>
    match w.transport.events with
    | .commandSent _ :: _ => w.sync.rejoinPending = false → w.sync.messagingInflight = true → backed = true
    | .report .connected _ :: _ => w.awaiting = []
    | .report .disconnected true :: _ => w.sync.transportBusy = false ∧ w.sync.rejoinPending = false
    | _ => True
  | .submit accepted cursor => w.canQueue accepted = true → ∀ item, w.submission cursor = some item →
      item.command.type = .message → w.welcomed = true
  | .enqueue outbound => outbound.id ≠ 0 ∧ outbound.id ≠ w.sync.inflightId ∧
      ∀ entry ∈ w.outbox, entry.outbound.id ≠ outbound.id
  | _ => True

def ownDisconnect : Event := .report .disconnected false

/-- The lines that were written and whose `COMMAND_SENT` is on its way. -/
def Transport.sentItems (t : Transport) : List TxItem := t.reports.filterMap Event.item

namespace World

variable (w : World)

/-- The worker has been told everything, and the task serves no more. -/
structure Gone : Prop where
  stage : w.transport.stage = .leaving ∨ w.transport.stage = .off
  running : w.transport.running = false
  checked : w.checked = false
  rejoin : w.sync.rejoinPending = false
  reports : w.transport.reports = []

/-- The end of the connection is not reported, and nothing more is written. -/
structure Lost (t : Transport) : Prop where
  stop : t.stopRequested = true
  silent : ownDisconnect ∉ t.reports

structure Distinct : Prop where
  ids : (w.outbox.map (·.outbound.id)).Nodup
  serials : (w.outbox.map (·.serial)).Nodup
  known : ∀ e ∈ w.outbox, e.outbound.id ≠ 0 ∧ e.serial < w.nextSerial

structure Ordered (t : Transport) : Prop where
  shut : ownDisconnect ∈ t.reports → (t.stage = .leaving ∨ t.stage = .off) ∧ t.running = false
  last : ∀ before after, t.reports = before ++ ownDisconnect :: after → after = []

/-- One command is under way at a time, and the worker knows which. -/
structure Flight : Prop where
  single : w.awaiting.length ≤ 1
  idle : w.sync.transportBusy = false → w.awaiting = [] ∨ w.Gone
  busy : w.sync.messagingInflight = true → w.sync.transportBusy = true
  kind : ∀ item ∈ w.awaiting, w.Gone ∨ w.sync.messagingInflight = item.entry.isSome
  message : ∀ item ∈ w.awaiting, ∀ n, item.entry = some n → w.Gone ∨
    (w.sync.rejoinPending = false ∧ w.sync.inflightId = item.command.id ∧ item.command.id ≠ 0)
  entry : ∀ item ∈ w.awaiting, ∀ n, item.entry = some n → w.Gone ∨
    (n < w.nextSerial ∧ ∀ e ∈ w.outbox, e.outbound.id = item.command.id ↔ e.serial = n)
  joining : w.sync.rejoinPending = true → ∀ item ∈ w.awaiting,
    ∃ c cursor, w.sync.channels[w.sync.rejoinIndex]? = some c ∧ item = joinItem c cursor ∧
      .submitted item ∈ w.log

/-- What was written on the connection, and what the worker made of it. -/
structure Lines : Prop where
  sent : ∀ item ∈ w.transport.sentItems, item ∈ w.written
  known : ∀ item ∈ w.written, ∀ n, item.entry = some n → n < w.nextSerial
  acked : ∀ item ∈ w.written, ∀ e ∈ w.outbox, item.entry = some e.serial →
    item ∈ w.transport.sentItems ∨ Lost w.transport
  unwritten : ∀ item ∈ w.transport.tx, ∀ n, item.entry = some n → ∀ item' ∈ w.written,
    item'.entry = some n → w.transport.stopRequested = true
  once : (w.written.filterMap (·.entry)).Nodup
  marked : ∀ mark ∈ w.marks,
    (mark.delivery = .sent → mark.written = true) ∧ (mark.delivery = .queued → mark.written = false)

/-- How far the channels have been joined. -/
structure Joins : Prop where
  began : w.welcomed = true → ∃ earlier later, w.log = earlier ++ .began w.sync.channels :: later ∧
    ∀ note ∈ later, note.rejoin = false
  progress : w.welcomed = true → w.sync.rejoinPending = true → ∀ i < w.sync.rejoinIndex, ∀ c,
    w.sync.channels[i]? = some c → c.desired = true → Joined w.log c
  done : w.welcomed = true → w.sync.rejoinPending = false →
    w.Gone ∨ ∀ c ∈ w.sync.channels, c.desired = true → Joined w.log c
  unwelcome : w.welcomed = false → ∀ note ∈ w.log, note.message = false
  rejoined : ∀ before note after, w.log = before ++ note :: after → note.message = true →
    (∀ earlier ∈ before, earlier.message = false) → Rejoined before

structure Inv : Prop where
  distinct : w.Distinct
  ordered : Ordered w.transport
  flight : w.Flight
  lines : w.Lines
  joins : w.Joins

end World

theorem World.Inv.atMostOnce {w : World} (h : w.Inv) : AtMostOnce w :=
  ⟨h.lines.once, h.lines.marked, h.flight.single, h.joins.rejoined⟩

theorem awaiting_eq (w : World) : w.awaiting = w.transport.sentItems ++ w.transport.tx := rfl

variable {w : World} {t : Transport}

theorem World.Distinct.same {w' : World} (h : w.Distinct) (outbox : w'.outbox = w.outbox)
    (serial : w'.nextSerial = w.nextSerial) : w'.Distinct :=
  ⟨outbox ▸ h.ids, outbox ▸ h.serials, outbox ▸ serial ▸ h.known⟩

theorem World.Flight.of_empty (none : w.awaiting = [])
    (busy : w.sync.messagingInflight = true → w.sync.transportBusy = true) : w.Flight := by
  have nobody : ∀ item, item ∉ w.awaiting := fun item => none ▸ List.not_mem_nil
  exact ⟨by rw [none]; exact Nat.zero_le 1, fun _ => .inl none, busy, fun item there => absurd there (nobody item),
    fun item there => absurd there (nobody item), fun item there => absurd there (nobody item),
    fun _ item there => absurd there (nobody item)⟩

theorem World.Inv.transport (h : w.Inv) (ordered : World.Ordered t)
    (sent : t.sentItems.Sublist w.transport.sentItems) (tx : t.tx.Sublist w.transport.tx)
    (kept : ∀ item ∈ w.transport.sentItems, item ∈ t.sentItems ∨ World.Lost t)
    (lost : World.Lost w.transport → World.Lost t) (stop : w.transport.stopRequested = true → t.stopRequested = true)
    (gone : w.Gone → { w with transport := t }.Gone) : { w with transport := t }.Inv := by
  have fewer : { w with transport := t }.awaiting.Sublist w.awaiting := sent.append tx
  refine ⟨h.distinct.same rfl rfl, ordered, ?_, ?_, ?_⟩
  · constructor
    · exact Nat.le_trans fewer.length_le h.flight.single
    · intro free
      rcases h.flight.idle free with none | past
      · exact .inl (List.sublist_nil.mp (none ▸ fewer))
      · exact .inr (gone past)
    · exact h.flight.busy
    · exact fun item there => (h.flight.kind item (fewer.subset there)).imp_left gone
    · exact fun item there n entry => (h.flight.message item (fewer.subset there) n entry).imp_left gone
    · exact fun item there n entry => (h.flight.entry item (fewer.subset there) n entry).imp_left gone
    · exact fun rejoin item there => h.flight.joining rejoin item (fewer.subset there)
  · constructor
    · exact fun item there => h.lines.sent item (sent.subset there)
    · exact h.lines.known
    · intro item there e he entry
      rcases h.lines.acked item there e he entry with waiting | past
      · exact kept item waiting
      · exact .inr (lost past)
    · exact fun item there n entry item' there' entry' =>
        stop (h.lines.unwritten item (tx.subset there) n entry item' there' entry')
    · exact h.lines.once
    · exact h.lines.marked
  · exact ⟨h.joins.began, h.joins.progress, fun welcomed rejoin => (h.joins.done welcomed rejoin).imp_left gone,
      h.joins.unwelcome, h.joins.rejoined⟩

end SolarOs.Gateway
