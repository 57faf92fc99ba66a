import SolarOs.Gateway.WorkerTurns

/-! What the worker submits: a channel to join, a command, or the oldest entry. -/
namespace SolarOs.Gateway
open List
open Messaging (Outbound Delivery providerGateway)
open World

variable {w : World} {accepted : Bool} {cursor : Nat}

theorem alive_of_canQueue (room : w.canQueue accepted = true) : ¬w.Gone := by
  intro gone
  unfold canQueue at room
  rw [gone.checked] at room
  simp at room

theorem rejoined_of_done (h : w.Joins) (welcomed : w.welcomed = true) (rejoin : w.sync.rejoinPending = false)
    (alive : ¬w.Gone) : Rejoined w.log := by
  obtain ⟨earlier, later, split, quiet⟩ := h.began welcomed
  exact ⟨earlier, w.sync.channels, later, split, quiet, (h.done welcomed rejoin).resolve_left alive⟩

theorem push_inv {item : TxItem} {sync : Sync} (h : w.Inv) (alive : ¬w.Gone) (none : w.awaiting = [])
    (channels : sync.channels = w.sync.channels) (pending : sync.rejoinPending = w.sync.rejoinPending)
    (index : sync.rejoinIndex = w.sync.rejoinIndex) (busy : sync.transportBusy = true)
    (kind : sync.messagingInflight = item.entry.isSome)
    (message : ∀ n, item.entry = some n → w.sync.rejoinPending = false ∧ sync.inflightId = item.command.id ∧
      ∃ e ∈ w.outbox, e.serial = n ∧ e.outbound.id = item.command.id)
    (joining : w.sync.rejoinPending = true → ∃ c cursor,
      w.sync.channels[w.sync.rejoinIndex]? = some c ∧ item = joinItem c cursor)
    (welcomed : item.command.type = .message → w.welcomed = true ∧ w.sync.rejoinPending = false) :
    { w.pushTx item with sync }.Inv := by
  obtain ⟨sentNone, txNone⟩ := append_eq_nil_iff.mp none
  have waiting : ({ w.pushTx item with sync } : World).awaiting = [item] := by
    show List.filterMap Event.item w.transport.reports ++ (w.transport.tx ++ [item]) = [item]
    rw [sentNone, txNone]
    rfl
  refine ⟨h.distinct.same rfl rfl, ⟨h.ordered.shut, h.ordered.last⟩, ?_, ?_, ?_⟩
  · constructor
    · rw [waiting]
      exact Nat.le_refl 1
    · exact fun free => nomatch free.symm.trans busy
    · exact fun _ => busy
    · rw [waiting]
      intro item' there
      obtain rfl := mem_singleton.mp there
      exact .inr kind
    · rw [waiting]
      intro item' there n entry
      obtain rfl := mem_singleton.mp there
      obtain ⟨rejoin, inflight, e, he, -, id⟩ := message n entry
      exact .inr ⟨pending.trans rejoin, inflight, id ▸ (h.distinct.known e he).1⟩
    · rw [waiting]
      intro item' there n entry
      obtain rfl := mem_singleton.mp there
      obtain ⟨-, -, e, he, rfl, id⟩ := message n entry
      refine .inr ⟨(h.distinct.known e he).2, fun e' he' => ?_⟩
      rw [← id]
      refine ⟨fun same => ?_, fun same => ?_⟩
      · rw [inj_on_of_nodup_map h.distinct.ids he' he same]
      · rw [inj_on_of_nodup_map h.distinct.serials he' he same]
    · rw [waiting]
      intro rejoin item' there
      obtain rfl := mem_singleton.mp there
      obtain ⟨c, cursor, channel, is⟩ := joining (pending.symm.trans rejoin)
      refine ⟨c, cursor, ?_, is, mem_append_right _ (mem_singleton_self _)⟩
      rw [channels, index]
      exact channel
  · refine ⟨h.lines.sent, h.lines.known, ?_, ?_, h.lines.once, h.lines.marked⟩
    · intro item' there e he entry
      rcases h.lines.acked item' there e he entry with waiting | lost
      · exact absurd (sentNone ▸ waiting : item' ∈ []) not_mem_nil
      · exact .inr ⟨lost.stop, lost.silent⟩
    · intro item' there n entry item'' there' entry'
      rw [show ({ w.pushTx item with sync } : World).transport.tx = [item] from by
        show w.transport.tx ++ [item] = [item]
        rw [txNone, nil_append]] at there
      obtain rfl := mem_singleton.mp there
      obtain ⟨-, -, e, he, rfl, -⟩ := message n entry
      rcases h.lines.acked item'' there' e he entry' with waiting | lost
      · exact absurd (sentNone ▸ waiting : item'' ∈ []) not_mem_nil
      · exact lost.stop
  · refine ⟨?_, ?_, ?_, ?_, rejoined_snoc h.joins.rejoined ?_⟩
    · intro welcome
      obtain ⟨earlier, later, split, quiet⟩ := h.joins.began welcome
      refine ⟨earlier, later ++ [.submitted item], ?_, ?_⟩
      · show w.log ++ [.submitted item] = _
        rw [split, channels, append_assoc, cons_append]
      · intro note there
        rcases mem_append.mp there with old | new
        · exact quiet note old
        · obtain rfl := mem_singleton.mp new
          rfl
    · intro welcome rejoin i less c channel desired
      have less : i < sync.rejoinIndex := less
      have channel : sync.channels[i]? = some c := channel
      rw [index] at less
      rw [channels] at channel
      exact (h.joins.progress welcome (pending.symm.trans rejoin) i less c channel desired).append _
    · intro welcome rejoin
      refine .inr fun c there desired => ?_
      have there : c ∈ sync.channels := there
      rw [channels] at there
      exact ((h.joins.done welcome (pending.symm.trans rejoin)).resolve_left alive c there desired).append _
    · intro unwelcome note there
      rcases mem_append.mp there with old | new
      · exact h.joins.unwelcome unwelcome note old
      · obtain rfl := mem_singleton.mp new
        refine Bool.eq_false_iff.mpr fun is => ?_
        have is : item.command.type = .message := by simpa [Note.message] using is
        exact nomatch (welcomed is).1.symm.trans unwelcome
    · intro is
      have is : item.command.type = .message := by simpa [Note.message] using is
      exact rejoined_of_done h.joins (welcomed is).1 (welcomed is).2 alive

theorem skipped {channels : List Channel} {start i : Nat} (past : start ≤ i) (less : i < rejoinSkip channels start)
    {c : Channel} (there : channels[i]? = some c) : c.desired = false := by
  obtain ⟨k, rfl⟩ := Nat.exists_eq_add_of_le past
  have short : k < ((channels.drop start).takeWhile fun c => !c.desired).length := by
    unfold rejoinSkip at less
    omega
  have same : ((channels.drop start).takeWhile fun c => !c.desired)[k] = c := by
    have at' := (List.takeWhile_prefix (l := channels.drop start) fun c => !c.desired).getElem short
    rw [at', getElem_drop]
    exact (List.getElem?_eq_some_iff.mp there).2
  have all := all_eq_true.mp all_takeWhile _ (same ▸ getElem_mem short)
  simpa using all

theorem skip_inv (h : w.Inv) (free : w.sync.transportBusy = false) (rejoin : w.sync.rejoinPending = true) :
    { w with sync := { w.sync with rejoinIndex := rejoinSkip w.sync.channels w.sync.rejoinIndex } }.Inv := by
  have alive : ¬w.Gone := fun gone => nomatch gone.rejoin.symm.trans rejoin
  have none : w.awaiting = [] := (h.flight.idle free).resolve_right alive
  refine ⟨h.distinct.same rfl rfl, h.ordered, .of_empty none h.flight.busy, ?_, ?_⟩
  · exact ⟨h.lines.sent, h.lines.known, h.lines.acked, h.lines.unwritten, h.lines.once, h.lines.marked⟩
  · refine ⟨h.joins.began, ?_, fun _ ended => (nomatch ended.symm.trans rejoin), h.joins.unwelcome, h.joins.rejoined⟩
    intro welcomed _ i less c there desired
    by_cases past : w.sync.rejoinIndex ≤ i
    · exact nomatch (skipped past less there).symm.trans desired
    · exact h.joins.progress welcomed rejoin i (Nat.lt_of_not_le past) c there desired

theorem rejoined_inv (h : w.Inv) (free : w.sync.transportBusy = false) (rejoin : w.sync.rejoinPending = true)
    (past : w.sync.channels[w.sync.rejoinIndex]? = none) :
    { w with sync := { w.sync with rejoinPending := false } }.Inv := by
  have alive : ¬w.Gone := fun gone => nomatch gone.rejoin.symm.trans rejoin
  have none : w.awaiting = [] := (h.flight.idle free).resolve_right alive
  refine ⟨h.distinct.same rfl rfl, h.ordered, .of_empty none h.flight.busy, ?_, ?_⟩
  · exact ⟨h.lines.sent, h.lines.known, h.lines.acked, h.lines.unwritten, h.lines.once, h.lines.marked⟩
  · refine ⟨h.joins.began, nofun, ?_, h.joins.unwelcome, h.joins.rejoined⟩
    intro welcomed _
    refine .inr fun c there desired => ?_
    obtain ⟨i, short, is⟩ := mem_iff_getElem.mp there
    have less : i < w.sync.rejoinIndex := Nat.lt_of_lt_of_le short (List.getElem?_eq_none_iff.mp past)
    exact h.joins.progress welcomed rejoin i less c (List.getElem?_eq_some_iff.mpr ⟨short, is⟩) desired

theorem submitOutbox_inv (h : w.Inv) (free : w.sync.transportBusy = false) (rejoin : w.sync.rejoinPending = false)
    (calm : w.canQueue accepted = true → ∀ item, w.submission cursor = some item →
      item.command.type = .message → w.welcomed = true) : (w.submitOutbox accepted cursor).Inv := by
  unfold submitOutbox
  unfold submission at calm
  rw [free, rejoin] at calm
  cases queued : w.commands with
  | cons command commands =>
    rw [queued] at calm
    dsimp only
    split
    · rename_i room
      have alive := alive_of_canQueue room
      exact push_inv h alive ((h.flight.idle free).resolve_right alive) rfl rfl rfl rfl rfl
        nofun (fun pending => (nomatch rejoin.symm.trans pending))
        fun message => ⟨calm room _ rfl message, rejoin⟩
    · exact h
  | nil =>
    rw [queued] at calm
    cases found : w.peek with
    | none => exact h
    | some entry =>
      rw [found] at calm
      dsimp only
      split
      · rename_i room
        have alive := alive_of_canQueue room
        refine push_inv h alive ((h.flight.idle free).resolve_right alive) rfl rfl rfl rfl rfl ?_
          (fun pending => (nomatch rejoin.symm.trans pending))
          fun message => ⟨calm room _ rfl message, rejoin⟩
        intro n entry'
        obtain rfl := Option.some.inj entry'
        exact ⟨rejoin, rfl, entry, mem_of_find?_eq_some found, rfl, rfl⟩
      · exact h

theorem submitNext_inv (h : w.Inv) (calm : Calm w (.submit accepted cursor)) : (w.submitNext accepted cursor).Inv := by
  unfold submitNext
  split
  · exact h
  rename_i busy
  have free : w.sync.transportBusy = false := Bool.eq_false_iff.mpr busy
  split
  · rename_i rejoin
    have skip := skip_inv h free rejoin
    have calm : w.canQueue accepted = true → ∀ item, w.submission cursor = some item →
      item.command.type = .message → w.welcomed = true := calm
    dsimp only
    cases next : w.sync.channels[rejoinSkip w.sync.channels w.sync.rejoinIndex]? with
    | none =>
      have same : ({ w with sync := { w.sync with
          rejoinPending := false
          rejoinIndex := rejoinSkip w.sync.channels w.sync.rejoinIndex } } : World).submission cursor =
          w.submission cursor := by
        simp [submission, next, free, rejoin, peek]
      exact submitOutbox_inv (rejoined_inv skip free rejoin next) free rfl
        fun room item is message => calm room item (same ▸ is) message
    | some channel =>
      dsimp only
      split
      · rename_i room
        have alive : ¬w.Gone := alive_of_canQueue room
        have alive' : ¬({ w with sync := { w.sync with
            rejoinIndex := rejoinSkip w.sync.channels w.sync.rejoinIndex } } : World).Gone := alive_of_canQueue room
        have idle : w.sync.messagingInflight = false := Bool.eq_false_iff.mpr fun inflight => busy (h.flight.busy inflight)
        exact push_inv skip alive' ((h.flight.idle free).resolve_right alive) rfl rfl rfl rfl idle
          nofun (fun _ => ⟨channel, cursor, next, rfl⟩) nofun
      · exact skip
  · rename_i rejoin
    exact submitOutbox_inv h free (Bool.eq_false_iff.mpr rejoin) calm

theorem submit_inv (h : w.Inv) (calm : Calm w (.submit accepted cursor)) : (w.submit accepted cursor).Inv :=
  checked_inv (submitNext_inv h calm) nofun

end SolarOs.Gateway

namespace SolarOs.Gateway
open List
open Messaging (Outbound Delivery providerGateway)
open World

variable {w : World}

theorem step_inv (h : w.Inv) (turn : Turn) (calm : Calm w turn) : (w.step turn).Inv := by
  cases turn with
  | hello sent => exact hello_inv h sent
  | write sent => exact write_inv h sent
  | line type => exact line_inv h type
  | readFails => exact readFails_inv h
  | hangUp => exact hangUp_inv h
  | queue => exact queue_inv h
  | drop => exact drop_inv h
  | finish => exact finish_inv h
  | read backed => exact read_inv h calm
  | check => exact checked_inv h fun looked => (Bool.and_eq_true_iff.mp looked).1
  | submit accepted cursor => exact submit_inv h calm
  | requestStop => exact requestStop_inv h
  | connect started => exact connect_inv h started
  | enqueue outbound => exact enqueue_inv h calm
  | withdraw entry => exact withdraw_inv h entry
  | command commands => exact aside_inv h commands w.channels
  | channel channels => exact aside_inv h w.commands channels

theorem initial_inv : initial.Inv := by
  have silent : ∀ {item : TxItem}, item ∉ ([] : List TxItem) := not_mem_nil
  refine ⟨⟨nodup_nil, nodup_nil, nofun⟩, ordered_of_silent not_mem_nil, ?_, ?_, ?_⟩
  · exact ⟨Nat.zero_le 1, fun _ => .inl rfl, nofun, fun _ there => absurd there silent,
      fun _ there => absurd there silent, fun _ there => absurd there silent, nofun⟩
  · exact ⟨fun _ there => absurd there silent, fun _ there => absurd there silent,
      fun _ there => absurd there silent, fun _ there => absurd there silent, nodup_nil, nofun⟩
  · refine ⟨nofun, nofun, nofun, nofun, ?_⟩
    intro before note after split
    exact absurd split.symm (append_ne_nil_of_right_ne_nil before (cons_ne_nil note after))

/-- Every run of calm turns keeps what is promised on a connection. -/
theorem calm_run (turns : List Turn) (calm : Machine.Admits World.step Calm initial turns) :
    AtMostOnce (Machine.run World.step initial turns) :=
  (Machine.run_induct (P := World.Inv) (fun _ turn h calm => step_inv h turn calm) initial_inv calm).atMostOnce

def sampleEntry : Outbound := { Outbound.blank with id := 7, provider := providerGateway }

def calmTurns : List Turn :=
  [.channel [⟨.ofBytes [111, 112, 115], true⟩], .enqueue sampleEntry, .connect true, .hello true, .queue, .read true, .check,
    .submit true 0, .write true, .queue, .read true, .check, .submit true 0, .write true, .queue, .read true]

theorem calm_run_sample : AtMostOnce (Machine.run World.step initial calmTurns) :=
  calm_run calmTurns ⟨trivial, ⟨by decide, by decide, nofun⟩, trivial, trivial, trivial,
    rfl, trivial, fun _ _ _ _ => rfl, trivial, trivial, fun _ _ => rfl, trivial,
    fun _ _ _ _ => rfl, trivial, trivial, fun _ _ => rfl, trivial⟩

/-- A line of the server says that it is connected, and the worker reads it after it submitted the
entry: the entry is submitted again. -/
def secondWelcome : List Turn :=
  [.enqueue sampleEntry, .connect true, .hello true, .queue, .read true, .check, .line .connected, .queue,
    .submit true 0, .write true, .queue, .read true, .read true, .check, .submit true 0, .write true]

theorem secondWelcome_repeats : ¬AtMostOnce (Machine.run World.step initial secondWelcome) := by
  intro promised
  exact absurd promised.once (by decide)

end SolarOs.Gateway
