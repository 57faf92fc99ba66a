import Mathlib.Data.List.Nodup
import SolarOs.Gateway.TransportTurns

/-! What the worker does, and what happens to the outbox from outside, keeps the invariant
as long as the worker reads and submits at calm moments. -/
namespace SolarOs.Gateway
open List
open Messaging (Outbound Delivery providerGateway)
open World

variable {w : World}

theorem connect_inv (h : w.Inv) (started : Bool) : (w.connect started).Inv := by
  unfold connect
  split
  · exact h
  refine ⟨h.distinct.same rfl rfl, ordered_of_silent not_mem_nil, .of_empty rfl h.flight.busy, ?_, ?_⟩
  · exact ⟨nofun, nofun, nofun, nofun, nodup_nil, h.lines.marked⟩
  · refine ⟨nofun, nofun, nofun, nofun, ?_⟩
    intro before note after split
    exact absurd split.symm (append_ne_nil_of_right_ne_nil before (cons_ne_nil note after))

theorem gone_inv (h : w.Inv) {commands : List Command} {channels : List Channel} {checked : Bool}
    (gone : w.Gone → { w with commands, channels, checked }.Gone) : { w with commands, channels, checked }.Inv :=
  ⟨h.distinct.same rfl rfl, h.ordered,
    ⟨h.flight.single, fun free => (h.flight.idle free).imp_right gone, h.flight.busy,
      fun item there => (h.flight.kind item there).imp_left gone,
      fun item there n entry => (h.flight.message item there n entry).imp_left gone,
      fun item there n entry => (h.flight.entry item there n entry).imp_left gone, h.flight.joining⟩,
    ⟨h.lines.sent, h.lines.known, h.lines.acked, h.lines.unwritten, h.lines.once, h.lines.marked⟩,
    ⟨h.joins.began, h.joins.progress, fun welcomed rejoin => (h.joins.done welcomed rejoin).imp_left gone,
      h.joins.unwelcome, h.joins.rejoined⟩⟩

theorem checked_inv (h : w.Inv) {checked : Bool} (looked : checked = true → w.transport.running = true) :
    { w with checked }.Inv := by
  refine gone_inv h fun gone => ⟨gone.stage, gone.running, ?_, gone.rejoin, gone.reports⟩
  cases checked with
  | false => rfl
  | true => exact nomatch (looked rfl).symm.trans gone.running

theorem enqueue_inv (h : w.Inv) {outbound : Outbound} (calm : Calm w (.enqueue outbound)) :
    (w.enqueue outbound).Inv := by
  obtain ⟨nonzero, idle, fresh⟩ := calm
  have new : ∀ e ∈ w.outbox, e.serial ≠ w.nextSerial := fun e he same =>
    Nat.lt_irrefl _ (same ▸ (h.distinct.known e he).2)
  have gone : w.Gone → (w.enqueue outbound).Gone := fun gone =>
    ⟨gone.stage, gone.running, gone.checked, gone.rejoin, gone.reports⟩
  refine ⟨⟨?_, ?_, ?_⟩, h.ordered, ?_, ?_, ?_⟩
  · show (List.map _ (w.outbox ++ [_])).Nodup
    rw [map_append, nodup_append]
    refine ⟨h.distinct.ids, nodup_singleton _, ?_⟩
    rintro id old id' new' rfl
    obtain ⟨e, he, same⟩ := mem_map.mp old
    exact fresh e he (same.trans (mem_singleton.mp new'))
  · show (List.map _ (w.outbox ++ [_])).Nodup
    rw [map_append, nodup_append]
    refine ⟨h.distinct.serials, nodup_singleton _, ?_⟩
    rintro serial old serial' new' rfl
    obtain ⟨e, he, same⟩ := mem_map.mp old
    exact new e he (same.trans (mem_singleton.mp new'))
  · intro e he
    rcases mem_append.mp he with old | last
    · exact ⟨(h.distinct.known e old).1, Nat.lt_succ_of_lt (h.distinct.known e old).2⟩
    · obtain rfl := mem_singleton.mp last
      exact ⟨nonzero, Nat.lt_succ_self _⟩
  · refine ⟨h.flight.single, fun free => (h.flight.idle free).imp_right gone, h.flight.busy,
      fun item there => (h.flight.kind item there).imp_left gone,
      fun item there n entry => (h.flight.message item there n entry).imp_left gone, ?_, h.flight.joining⟩
    intro item there n entry
    rcases h.flight.entry item there n entry with past | ⟨known, same⟩
    · exact .inl (gone past)
    rcases h.flight.message item there n entry with past | ⟨-, inflight, -⟩
    · exact .inl (gone past)
    refine .inr ⟨Nat.lt_succ_of_lt known, fun e he => ?_⟩
    rcases mem_append.mp he with old | last
    · exact same e old
    · obtain rfl := mem_singleton.mp last
      exact ⟨fun id => absurd (id.trans inflight.symm) idle, fun serial => absurd (serial ▸ known) (Nat.lt_irrefl _)⟩
  · refine ⟨h.lines.sent, fun item there n entry => Nat.lt_succ_of_lt (h.lines.known item there n entry), ?_,
      h.lines.unwritten, h.lines.once, h.lines.marked⟩
    intro item there e he entry
    rcases mem_append.mp he with old | last
    · exact h.lines.acked item there e old entry
    · obtain rfl := mem_singleton.mp last
      exact absurd (h.lines.known item there _ entry) (Nat.lt_irrefl _)
  · exact ⟨h.joins.began, h.joins.progress, fun welcomed rejoin => (h.joins.done welcomed rejoin).imp_left gone,
      h.joins.unwelcome, h.joins.rejoined⟩

theorem outbox_inv (h : w.Inv) {outbox : List Entry} {f : Entry → Entry}
    (same : ∀ e, (f e).serial = e.serial ∧ (f e).outbound.id = e.outbound.id)
    (fewer : outbox.Sublist (w.outbox.map f)) : { w with outbox }.Inv := by
  have gone : w.Gone → { w with outbox }.Gone := fun gone =>
    ⟨gone.stage, gone.running, gone.checked, gone.rejoin, gone.reports⟩
  have origin : ∀ e ∈ outbox, ∃ e' ∈ w.outbox, e.serial = e'.serial ∧ e.outbound.id = e'.outbound.id := by
    intro e he
    obtain ⟨e', he', rfl⟩ := mem_map.mp (fewer.subset he)
    exact ⟨e', he', same e'⟩
  refine ⟨⟨?_, ?_, ?_⟩, h.ordered, ?_, ?_, ?_⟩
  · refine (fewer.map _).nodup ?_
    rw [map_map, funext fun e => show ((fun e : Entry => e.outbound.id) ∘ f) e = e.outbound.id from (same e).2]
    exact h.distinct.ids
  · refine (fewer.map _).nodup ?_
    rw [map_map, funext fun e => show ((fun e : Entry => e.serial) ∘ f) e = e.serial from (same e).1]
    exact h.distinct.serials
  · intro e he
    obtain ⟨e', he', serial, id⟩ := origin e he
    rw [serial, id]
    exact h.distinct.known e' he'
  · refine ⟨h.flight.single, fun free => (h.flight.idle free).imp_right gone, h.flight.busy,
      fun item there => (h.flight.kind item there).imp_left gone,
      fun item there n entry => (h.flight.message item there n entry).imp_left gone, ?_, h.flight.joining⟩
    intro item there n entry
    rcases h.flight.entry item there n entry with past | ⟨known, here⟩
    · exact .inl (gone past)
    · refine .inr ⟨known, fun e he => ?_⟩
      obtain ⟨e', he', serial, id⟩ := origin e he
      rw [serial, id]
      exact here e' he'
  · refine ⟨h.lines.sent, h.lines.known, ?_, h.lines.unwritten, h.lines.once, h.lines.marked⟩
    intro item there e he entry
    obtain ⟨e', he', serial, -⟩ := origin e he
    exact h.lines.acked item there e' he' (serial ▸ entry)
  · exact ⟨h.joins.began, h.joins.progress, fun welcomed rejoin => (h.joins.done welcomed rejoin).imp_left gone,
      h.joins.unwelcome, h.joins.rejoined⟩

theorem withdraw_inv (h : w.Inv) (entry : Nat) : (w.withdraw entry).Inv :=
  outbox_inv (f := id) h (fun _ => ⟨rfl, rfl⟩) (by rw [map_id]; exact filter_sublist)

theorem aside_inv (h : w.Inv) (commands : List Command) (channels : List Channel) : { w with commands, channels }.Inv :=
  gone_inv h fun gone => ⟨gone.stage, gone.running, gone.checked, gone.rejoin, gone.reports⟩

end SolarOs.Gateway

namespace SolarOs.Gateway
open List
open Messaging (Outbound Delivery providerGateway)
open World

variable {w : World} {t : Transport} {event : Event} {events : List Event}

/-- What an update does to the outbox: it leaves everything that tells entries apart, marks at most
the entry with that id, and takes it out when it was sent. -/
theorem outboxUpdate_cases (h : w.Distinct) (id : Nat) (delivery : Delivery) (backed : Bool) :
    ∃ outbox marks, w.outboxUpdate id delivery backed = { w with outbox, marks } ∧
      (∃ f : Entry → Entry, (∀ e, (f e).serial = e.serial ∧ (f e).outbound.id = e.outbound.id) ∧
        outbox.Sublist (w.outbox.map f)) ∧
      (marks = w.marks ∨ ∃ e ∈ w.outbox, e.outbound.id = id ∧ marks = w.marks ++
        [⟨e.serial, delivery, w.written.any fun item => item.entry = some e.serial⟩]) ∧
      (delivery = .sent → backed = true → ∀ e ∈ outbox, e.outbound.id ≠ id) := by
  unfold outboxUpdate
  cases found : w.outbox.find? fun entry => entry.outbound.id = id with
  | none =>
    refine ⟨w.outbox, w.marks, rfl, ⟨fun e => e, fun _ => ⟨rfl, rfl⟩, by rw [map_id']⟩, .inl rfl, ?_⟩
    intro _ _ e he same
    exact find?_eq_none.mp found e he (by simpa using same)
  | some entry =>
    have member := mem_of_find?_eq_some found
    have named : entry.outbound.id = id := by simpa using find?_some found
    have tried : ∃ f : Entry → Entry, (∀ e, (f e).serial = e.serial ∧ (f e).outbound.id = e.outbound.id) ∧
        (if delivery = .queued then
          w.outbox.map fun e =>
            if e.serial = entry.serial then
              { e with outbound := { e.outbound with attempts := (e.outbound.attempts + 1) % 2 ^ 8 } }
            else e
        else w.outbox) = w.outbox.map f := by
      split
      · refine ⟨_, fun e => ?_, rfl⟩
        split <;> exact ⟨rfl, rfl⟩
      · exact ⟨fun e => e, fun _ => ⟨rfl, rfl⟩, (map_id' _).symm⟩
    obtain ⟨f, same, tried⟩ := tried
    dsimp only
    rw [tried]
    split
    · rename_i missing
      exact ⟨_, w.marks, rfl, ⟨f, same, List.Sublist.refl _⟩, .inl rfl, fun _ present => by simp [missing] at present⟩
    · refine ⟨_, _, rfl, ⟨f, same, ?_⟩, .inr ⟨entry, member, named, rfl⟩, ?_⟩
      · split
        · exact eraseP_sublist
        · exact List.Sublist.refl _
      · intro sent _ e he
        rw [if_pos (.inl sent)] at he
        have names : (w.outbox.map f).map (·.outbound.id) = w.outbox.map (·.outbound.id) := by
          rw [map_map]
          exact map_congr_left fun e _ => (same e).2
        obtain ⟨first, front, back, -, is, whole, erased⟩ := exists_of_eraseP
          (p := fun e : Entry => e.outbound.id = id) (mem_map.mpr ⟨entry, member, rfl⟩)
          (by simpa using (same entry).2.trans named)
        have distinct := names ▸ h.ids
        rw [whole, map_append, map_cons, nodup_append, nodup_cons] at distinct
        have is : first.outbound.id = id := by simpa using is
        rw [erased] at he
        intro clash
        rcases mem_append.mp he with front' | back'
        · exact distinct.2.2 _ (mem_map_of_mem front') _ mem_cons_self (clash.trans is.symm)
        · exact distinct.2.1.1 (mem_map.mpr ⟨e, back', clash.trans is.symm⟩)

theorem Joined.append {log : List Note} {channel : Channel} (h : Joined log channel) (more : List Note) :
    Joined (log ++ more) channel := by
  obtain ⟨item, there, type, name⟩ := h
  exact ⟨item, mem_append_left _ there, type, name⟩

theorem rejoined_snoc {log : List Note} {note : Note}
    (h : ∀ before note after, log = before ++ note :: after → note.message = true →
      (∀ earlier ∈ before, earlier.message = false) → Rejoined before)
    (new : note.message = true → Rejoined log) : ∀ before note' after, log ++ [note] = before ++ note' :: after →
      note'.message = true → (∀ earlier ∈ before, earlier.message = false) → Rejoined before := by
  intro before note' after split message first
  rcases eq_nil_or_concat after with rfl | ⟨front, final, rfl⟩
  · obtain ⟨rfl, last⟩ := append_inj' split rfl
    obtain rfl := singleton_inj.mp last
    exact new message
  · have parted : log ++ [note] = (before ++ note' :: front) ++ [final] := by simpa using split
    exact h before note' front (append_inj' parted rfl).1 message first

theorem World.Joins.congr {w' : World} (h : w.Joins) (welcomed : w'.welcomed = w.welcomed)
    (log : w'.log = w.log) (channels : w'.sync.channels = w.sync.channels)
    (pending : w'.sync.rejoinPending = w.sync.rejoinPending) (index : w'.sync.rejoinIndex = w.sync.rejoinIndex)
    (gone : w.Gone → w'.Gone) : w'.Joins := by
  refine ⟨?_, ?_, ?_, ?_, ?_⟩
  · rw [welcomed, log, channels]
    exact h.began
  · rw [welcomed, log, channels, pending, index]
    exact h.progress
  · rw [welcomed, log, channels, pending]
    exact fun welcomed rejoin => (h.done welcomed rejoin).imp_left gone
  · rw [welcomed, log]
    exact h.unwelcome
  · rw [log]
    exact h.rejoined

def Transport.pop (t : Transport) (events : List Event) : Transport := { t with events }

theorem reports_pop (queued : t.events = event :: events) : t.reports = event :: (t.pop events).reports := by
  rw [Transport.reports, queued]
  rfl

theorem ordered_pop (h : Ordered t) (queued : t.events = event :: events) : Ordered (t.pop events) := by
  have reports := reports_pop queued
  refine ⟨fun there => h.shut (reports ▸ mem_cons_of_mem _ there), fun before after split => ?_⟩
  exact h.last (event :: before) after (by rw [reports, split, cons_append])

theorem lost_pop (h : Lost t) (queued : t.events = event :: events) : Lost (t.pop events) :=
  ⟨h.stop, fun own => h.silent (reports_pop queued ▸ mem_cons_of_mem _ own)⟩

theorem alive_of_queued (queued : w.transport.events = event :: events) : ¬w.Gone := by
  intro gone
  have none := gone.reports
  rw [reports_pop queued] at none
  cases none

theorem popReport_inv (h : w.Inv) {type : Report} {line : Bool}
    (queued : w.transport.events = .report type line :: events) :
    { w with transport := w.transport.pop events }.Inv := by
  have sent : (w.transport.pop events).sentItems = w.transport.sentItems := by
    rw [Transport.sentItems, Transport.sentItems, reports_pop queued]
    rfl
  refine h.transport (ordered_pop h.ordered queued) ?_ (.refl _) ?_ (fun lost => lost_pop lost queued)
    id fun gone => absurd gone (alive_of_queued queued)
  · rw [sent]
  · exact fun item there => .inl (sent ▸ there)

theorem beginRejoin_inv (h : w.Inv) (none : w.awaiting = []) (line : Bool) :
    { w.beginRejoin with welcomed := w.welcomed || !line }.Inv := by
  refine ⟨h.distinct.same rfl rfl, h.ordered, .of_empty none nofun, ?_, ?_⟩
  · exact ⟨h.lines.sent, h.lines.known, h.lines.acked, h.lines.unwritten, h.lines.once, h.lines.marked⟩
  · refine ⟨fun _ => ⟨w.log, [], rfl, nofun⟩, ?_, nofun, ?_, ?_⟩
    · exact fun _ _ i less => absurd less (Nat.not_lt_zero i)
    · intro unwelcome note there
      rcases mem_append.mp there with old | new
      · exact h.joins.unwelcome (Bool.or_eq_false_iff.mp unwelcome).1 note old
      · obtain rfl := mem_singleton.mp new
        rfl
    · exact rejoined_snoc h.joins.rejoined nofun

theorem settle_inv (h : w.Inv) {sync : Sync} {outbox : List Entry} {marks : List Mark} {commands : List Command}
    (distinct : { w with outbox }.Distinct) (ordered : Ordered t) (sent : t.sentItems = []) (tx : t.tx = [])
    (idle : sync.messagingInflight = false)
    (clean : ∀ item ∈ w.written, ∀ e ∈ outbox, item.entry = some e.serial → Lost t) (marked : ∀ mark ∈ marks,
      (mark.delivery = .sent → mark.written = true) ∧ (mark.delivery = .queued → mark.written = false))
    (joins : { w with transport := t, sync, outbox, marks, commands }.Joins) :
    { w with transport := t, sync, outbox, marks, commands }.Inv := by
  have empty : ({ w with transport := t, sync, outbox, marks, commands } : World).awaiting = [] := by
    rw [awaiting_eq, sent, tx]
    rfl
  refine ⟨⟨distinct.ids, distinct.serials, distinct.known⟩, ordered,
    .of_empty empty fun inflight => (nomatch idle.symm.trans inflight), ?_, joins⟩
  · refine ⟨?_, h.lines.known, fun item there e he entry => .inr (clean item there e he entry), ?_, h.lines.once, marked⟩
    · exact fun item there => absurd (sent ▸ there) not_mem_nil
    · exact fun item there => absurd (tx ▸ there) not_mem_nil

variable {backed : Bool}

/-- The command that was under way is acted on when its `COMMAND_SENT` is read. -/
theorem popSent_inv {item : TxItem} (h : w.Inv) (queued : w.transport.events = .commandSent item :: events)
    (calm : w.sync.rejoinPending = false → w.sync.messagingInflight = true → backed = true) :
    (World.commandSent { w with transport := w.transport.pop events } item.command.id backed).Inv := by
  have alive := alive_of_queued queued
  have first : w.transport.sentItems = item :: (w.transport.pop events).sentItems := by
    rw [Transport.sentItems, reports_pop queued]
    rfl
  have here : item ∈ w.awaiting := by
    rw [awaiting_eq, first]
    exact mem_cons_self
  have alone : (w.transport.pop events).sentItems = [] ∧ (w.transport.pop events).tx = [] := by
    have one := h.flight.single
    rw [awaiting_eq, first, length_append, length_cons] at one
    exact ⟨eq_nil_of_length_eq_zero (by omega), eq_nil_of_length_eq_zero (show w.transport.tx.length = 0 by omega)⟩
  have ordered := ordered_pop h.ordered queued
  have acked : ∀ item' ∈ w.written, ∀ e ∈ w.outbox, item'.entry = some e.serial →
      item' = item ∨ Lost (w.transport.pop events) := by
    intro item' there e he entry
    rcases h.lines.acked item' there e he entry with waiting | past
    · rw [first, alone.1] at waiting
      exact .inl (mem_singleton.mp waiting)
    · exact .inr (lost_pop past queued)
  have written : item ∈ w.written := h.lines.sent item (first ▸ mem_cons_self)
  have kind := (h.flight.kind item here).resolve_left alive
  have settled : item.entry = none → ∀ item' ∈ w.written, ∀ e ∈ w.outbox, item'.entry = some e.serial →
      Lost (w.transport.pop events) := by
    intro none item' there e he entry
    rcases acked item' there e he entry with rfl | past
    · rw [none] at entry
      cases entry
    · exact past
  unfold commandSent
  by_cases rejoin : w.sync.rejoinPending = true
  · rw [if_pos rejoin]
    obtain ⟨c, cursor, channel, rfl, noted⟩ := h.flight.joining rejoin item here
    refine settle_inv h (h.distinct.same rfl rfl) ordered alone.1 alone.2 kind (settled rfl) h.lines.marked ?_
    refine ⟨h.joins.began, ?_, by simp [rejoin], h.joins.unwelcome, h.joins.rejoined⟩
    intro welcomed _ i less c' there desired
    rcases Nat.lt_succ_iff_lt_or_eq.mp less with before | rfl
    · exact h.joins.progress welcomed rejoin i before c' there desired
    · rw [show w.sync.channels[w.sync.rejoinIndex]? = some c' from there] at channel
      cases channel
      exact ⟨_, noted, rfl, rfl⟩
  · rw [if_neg rejoin]
    have rejoin := Bool.eq_false_iff.mpr rejoin
    by_cases message : w.sync.messagingInflight = true ∧ w.sync.inflightId ≠ 0 ∧ item.command.id = w.sync.inflightId
    · rw [if_pos message]
      obtain ⟨n, entry⟩ := Option.isSome_iff_exists.mp (kind.symm.trans message.1)
      obtain ⟨-, same⟩ := (h.flight.entry item here n entry).resolve_left alive
      obtain ⟨outbox, marks, updated, ⟨f, kept, fewer⟩, marked, out⟩ := outboxUpdate_cases
        (w := { w with
          transport := w.transport.pop events, sync := { w.sync with transportBusy := false } })
        (h.distinct.same rfl rfl) w.sync.inflightId .sent backed
      have origin : ∀ e ∈ outbox, ∃ e' ∈ w.outbox, e.serial = e'.serial ∧ e.outbound.id = e'.outbound.id := by
        intro e he
        obtain ⟨e', he', rfl⟩ := mem_map.mp (fewer.subset he)
        exact ⟨e', he', kept e'⟩
      rw [updated]
      refine settle_inv h ?_ ordered alone.1 alone.2 rfl ?_ ?_
        (h.joins.congr rfl rfl rfl rfl rfl fun gone => absurd gone alive)
      · have distinct := (outbox_inv h kept fewer).distinct
        exact ⟨distinct.ids, distinct.serials, distinct.known⟩
      · intro item' there e he entry'
        obtain ⟨e', he', serial, id⟩ := origin e he
        rcases acked item' there e' he' (serial ▸ entry') with rfl | past
        · have mine : e'.serial = n := by
            rw [entry, serial] at entry'
            exact (Option.some.inj entry').symm
          exact absurd (id.trans (((same e' he').mpr mine).trans message.2.2)) (out rfl (calm rejoin message.1) e he)
        · exact past
      · intro mark there
        rcases marked with unmarked | ⟨e, he, id, marked⟩
        · exact h.lines.marked mark (unmarked ▸ there)
        · rcases mem_append.mp (marked ▸ there) with old | new
          · exact h.lines.marked mark old
          · obtain rfl := mem_singleton.mp new
            have mine : e.serial = n := (same e he).mp (id.trans message.2.2.symm)
            refine ⟨fun _ => any_eq_true.mpr ⟨item, written, ?_⟩, by simp⟩
            simp [entry, mine]
    · rw [if_neg message]
      have none : item.entry = none := by
        cases entry : item.entry with
        | none => rfl
        | some n =>
          obtain ⟨-, inflight, nonzero⟩ := (h.flight.message item here n entry).resolve_left alive
          exact absurd ⟨by rw [kind, entry]; rfl, inflight ▸ nonzero, inflight.symm⟩ message
      have idle : w.sync.messagingInflight = false := by rw [kind, none]; rfl
      split
      · have acking : ∃ commands, World.chatAck { w with
            transport := w.transport.pop events, sync := { w.sync with transportBusy := false } }
            w.sync.inflightId = { w with
              transport := w.transport.pop events, sync := { w.sync with transportBusy := false }, commands } := by
          unfold chatAck
          split
          · exact ⟨w.commands, rfl⟩
          · split
            · exact ⟨w.commands, rfl⟩
            · exact ⟨_, rfl⟩
        obtain ⟨commands, acking⟩ := acking
        rw [acking]
        exact settle_inv h (h.distinct.same rfl rfl) ordered alone.1 alone.2 idle
          (settled none) h.lines.marked
          (h.joins.congr rfl rfl rfl rfl rfl fun gone => absurd gone alive)
      · exact settle_inv h (h.distinct.same rfl rfl) ordered alone.1 alone.2 idle
          (settled none) h.lines.marked
          (h.joins.congr rfl rfl rfl rfl rfl fun gone => absurd gone alive)

/-- At the end of the connection no line of an entry in the outbox was written. -/
theorem popEnd_inv (h : w.Inv) (looked : w.checked = false) (queued : w.transport.events = ownDisconnect :: events) :
    (World.disconnected { w with transport := w.transport.pop events } backed).Inv := by
  have reports := reports_pop queued
  have past : (w.transport.pop events).reports = [] := h.ordered.last [] _ reports
  have there : ownDisconnect ∈ w.transport.reports := reports ▸ mem_cons_self
  have shut := h.ordered.shut there
  have sent : w.transport.sentItems = [] := by
    rw [Transport.sentItems, reports, past]
    rfl
  have clean : ∀ item ∈ w.written, ∀ e ∈ w.outbox, item.entry ≠ some e.serial := by
    intro item written e he entry
    rcases h.lines.acked item written e he entry with waiting | lost
    · exact absurd (sent ▸ waiting) not_mem_nil
    · exact lost.silent there
  have updated : ∃ outbox marks, World.disconnected { w with transport := w.transport.pop events } backed =
      { w with
        transport := w.transport.pop events, outbox, marks
        sync := { w.sync with
          transportBusy := false, inflightId := 0, messagingInflight := false, rejoinPending := false } } ∧
      (∃ f : Entry → Entry, (∀ e, (f e).serial = e.serial ∧ (f e).outbound.id = e.outbound.id) ∧
        outbox.Sublist (w.outbox.map f)) ∧
      ∀ mark ∈ marks,
        (mark.delivery = .sent → mark.written = true) ∧ (mark.delivery = .queued → mark.written = false) := by
    unfold disconnected
    dsimp only
    split
    · obtain ⟨outbox, marks, updated, kept, marked, -⟩ := outboxUpdate_cases
        (w := { w with
          transport := w.transport.pop events, sync := { w.sync with transportBusy := false } })
        (h.distinct.same rfl rfl) w.sync.inflightId .queued backed
      rw [updated]
      refine ⟨outbox, marks, rfl, kept, fun mark here => ?_⟩
      rcases marked with unmarked | ⟨e, he, -, marked⟩
      · exact h.lines.marked mark (unmarked ▸ here)
      · rcases mem_append.mp (marked ▸ here) with old | new
        · exact h.lines.marked mark old
        · obtain rfl := mem_singleton.mp new
          refine ⟨by simp, fun _ => any_eq_false.mpr fun item written => ?_⟩
          simpa using clean item written e he
    · exact ⟨w.outbox, w.marks, rfl, ⟨fun e => e, fun _ => ⟨rfl, rfl⟩, by rw [map_id']⟩, h.lines.marked⟩
  obtain ⟨outbox, marks, updated, ⟨f, kept, fewer⟩, marked⟩ := updated
  have distinct := (outbox_inv h kept fewer).distinct
  rw [updated]
  generalize final : ({ w with
    transport := w.transport.pop events, outbox, marks
    sync := { w.sync with
      transportBusy := false, inflightId := 0, messagingInflight := false, rejoinPending := false } } : World) = w'
  have gone : w'.Gone := by
    rw [← final]
    exact ⟨shut.1, shut.2, looked, rfl, past⟩
  subst final
  refine ⟨⟨distinct.ids, distinct.serials, distinct.known⟩, ordered_pop h.ordered queued, ?_, ?_, ?_⟩
  · refine ⟨?_, fun _ => .inr gone, by simp, fun _ _ => .inl gone,
      fun _ _ _ _ => .inl gone, fun _ _ _ _ => .inl gone, by simp⟩
    have one := h.flight.single
    rw [awaiting_eq, sent] at one
    show (List.filterMap Event.item (w.transport.pop events).reports ++ w.transport.tx).length ≤ 1
    rw [past]
    exact one
  · have none : (w.transport.pop events).sentItems = [] := by
      rw [Transport.sentItems, past]
      rfl
    refine ⟨fun item told => ?_, h.lines.known, ?_, h.lines.unwritten, h.lines.once, marked⟩
    · have told : item ∈ (w.transport.pop events).sentItems := told
      exact absurd (none ▸ told) not_mem_nil
    intro item written e he entry
    obtain ⟨e', he', rfl⟩ := mem_map.mp (fewer.subset he)
    exact absurd (entry.trans (congrArg some (kept e').1)) (clean item written e' he')
  · exact ⟨h.joins.began, by simp, fun _ _ => .inl gone, h.joins.unwelcome,
      h.joins.rejoined⟩

theorem popRumour_inv (h : w.Inv) (queued : w.transport.events = .report .disconnected true :: events)
    (calm : w.sync.transportBusy = false ∧ w.sync.rejoinPending = false) :
    (World.disconnected { w with transport := w.transport.pop events } backed).Inv := by
  have idle : w.sync.messagingInflight = false := by
    by_contra inflight
    exact nomatch (h.flight.busy (Bool.not_eq_false _ ▸ inflight)).symm.trans calm.1
  have nothing : ¬(w.sync.messagingInflight = true ∧ w.sync.inflightId ≠ 0) := by
    rw [idle]
    exact fun busy => Bool.false_ne_true busy.1
  unfold disconnected
  dsimp only
  rw [if_neg nothing]
  have alive := alive_of_queued queued
  have none : w.awaiting = [] := (h.flight.idle calm.1).resolve_right alive
  have sent : w.transport.sentItems = [] := (append_eq_nil_iff.mp none).1
  have reports : (w.transport.pop events).sentItems = [] := by
    rw [← sent, Transport.sentItems, Transport.sentItems, reports_pop queued]
    rfl
  refine settle_inv h (h.distinct.same rfl rfl) (ordered_pop h.ordered queued) reports
    (append_eq_nil_iff.mp none).2 rfl ?_ h.lines.marked
    (h.joins.congr rfl rfl rfl calm.2.symm rfl fun gone => absurd gone alive)
  intro item there e he entry
  rcases h.lines.acked item there e he entry with waiting | lost
  · exact absurd (sent ▸ waiting) not_mem_nil
  · exact lost_pop lost queued

theorem read_inv (h : w.Inv) (calm : Calm w (.read backed)) : (w.read backed).Inv := by
  have h := @checked_inv w h false nofun
  unfold World.read
  dsimp only
  cases queued : w.transport.events with
  | nil => exact h
  | cons event events =>
    have queued' : ({ w with checked := false } : World).transport.events = event :: events := queued
    unfold Calm at calm
    rw [queued] at calm
    cases event with
    | commandSent item => exact popSent_inv h queued' calm
    | report type line =>
      have popped := popReport_inv h queued'
      cases type with
      | connected =>
        have none : w.awaiting = [] := calm
        have sent : (w.transport.pop events).sentItems = [] := by
          have sent := (append_eq_nil_iff.mp none).1
          rw [← sent, Transport.sentItems, reports_pop queued]
          rfl
        refine beginRejoin_inv popped ?_ line
        rw [awaiting_eq]
        exact append_eq_nil_iff.mpr ⟨sent, (append_eq_nil_iff.mp none).2⟩
      | disconnected =>
        cases line with
        | false => exact popEnd_inv h rfl queued'
        | true => exact popRumour_inv h queued' calm
      | _ => exact popped

end SolarOs.Gateway
