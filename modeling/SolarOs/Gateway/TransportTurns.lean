import SolarOs.Gateway.Invariant

/-! What the transport task does keeps the invariant of the synchronizer. -/
namespace SolarOs.Gateway
open World List

variable {w : World} {t t' : Transport} {event : Event}

theorem World.Ordered.silent (h : Ordered t) (leaving : t.stage ≠ .leaving) (off : t.stage ≠ .off) :
    ownDisconnect ∉ t.reports :=
  fun there => (h.shut there).1.elim leaving off

theorem ordered_of_silent (h : ownDisconnect ∉ t.reports) : Ordered t := by
  constructor
  · exact fun there => absurd there h
  · intro before after split
    exact absurd (split ▸ mem_append_right before mem_cons_self) h

theorem ordered_of_last (silent : ownDisconnect ∉ t.reports) (reports : t'.reports = t.reports ++ [ownDisconnect])
    (shut : (t'.stage = .leaving ∨ t'.stage = .off) ∧ t'.running = false) : Ordered t' := by
  constructor
  · exact fun _ => shut
  · intro before after split
    rw [reports] at split
    rcases eq_nil_or_concat after with none | ⟨front, final, rfl⟩
    · exact none
    · exfalso
      apply silent
      have parted : t.reports ++ [ownDisconnect] = (before ++ ownDisconnect :: front) ++ [final] := by
        simpa using split
      rw [(append_inj' parted rfl).1]
      exact mem_append_right _ mem_cons_self

theorem silent_append (silent : ownDisconnect ∉ t.reports) (other : event ≠ ownDisconnect)
    (reports : t'.reports = t.reports ++ [event]) : ownDisconnect ∉ t'.reports := by
  rw [reports, mem_append, mem_singleton, not_or]
  exact ⟨silent, other.symm⟩

theorem sentItems_report {type : Report} {line : Bool}
    (reports : t'.reports = t.reports ++ [.report type line]) : t'.sentItems = t.sentItems := by
  rw [Transport.sentItems, reports, filterMap_append]
  exact append_nil _

theorem reports_of_idle (idle : t.pending.isSome = false) : t.reports = t.events := by
  rw [Transport.reports, Option.not_isSome_iff_eq_none.mp (Bool.eq_false_iff.mp idle)]
  exact append_nil _

theorem inv_same (h : w.Inv) (ordered : Ordered t) (reports : t.reports = w.transport.reports)
    (tx : t.tx.Sublist w.transport.tx) (stop : w.transport.stopRequested = true → t.stopRequested = true)
    (gone : w.Gone → { w with transport := t }.Gone) : { w with transport := t }.Inv := by
  have sent : t.sentItems = w.transport.sentItems := by rw [Transport.sentItems, reports, Transport.sentItems]
  refine h.transport ordered ?_ tx ?_ ?_ stop gone
  · rw [sent]
  · exact fun item there => .inl (sent ▸ there)
  · exact fun lost => ⟨stop lost.stop, reports ▸ lost.silent⟩

theorem inv_report (h : w.Inv) (type : Report) (line : Bool) (silent : ownDisconnect ∉ w.transport.reports)
    (other : .report type line ≠ ownDisconnect)
    (reports : t.reports = w.transport.reports ++ [.report type line]) (tx : t.tx.Sublist w.transport.tx)
    (stop : w.transport.stopRequested = true → t.stopRequested = true) (alive : ¬w.Gone) :
    { w with transport := t }.Inv := by
  have quiet := silent_append silent other reports
  refine h.transport (ordered_of_silent quiet) ?_ tx ?_ ?_ stop fun gone => absurd gone alive
  · rw [sentItems_report reports]
  · exact fun item there => .inl (sentItems_report reports ▸ there)
  · exact fun lost => ⟨stop lost.stop, quiet⟩

theorem alive_of_stage (leaving : w.transport.stage ≠ .leaving) (off : w.transport.stage ≠ .off) : ¬w.Gone :=
  fun gone => gone.stage.elim leaving off

theorem leave_inv (h : w.Inv) (idle : w.transport.pending.isSome = false) (silent : ownDisconnect ∉ w.transport.reports)
    (stop : w.transport.stopRequested = true) (alive : ¬w.Gone) : { w with transport := { w.transport with
      running := false, connected := false, stage := .leaving, pending := none } }.Inv := by
  have reports : { w.transport with
      running := false, connected := false, stage := .leaving, pending := none }.reports = w.transport.reports := by
    rw [reports_of_idle idle]
    exact append_nil _
  exact inv_same h (ordered_of_silent (reports ▸ silent)) reports (.refl _) (fun _ => stop)
    fun gone => absurd gone alive

theorem hello_inv (h : w.Inv) (sent : Bool) : (w.hello sent).Inv := by
  unfold hello
  split
  · exact h
  rename_i ready
  obtain ⟨stage, idle⟩ := not_or.mp ready
  have stage := not_not.mp stage
  have idle := Bool.eq_false_iff.mpr idle
  have silent := h.ordered.silent (by rw [stage]; decide) (by rw [stage]; decide)
  have alive : ¬w.Gone := alive_of_stage (by rw [stage]; decide) (by rw [stage]; decide)
  split
  · refine inv_report h .connected false silent (by decide) ?_ (.refl _) id alive
    rw [reports_of_idle idle]
    rfl
  · cases stop : w.transport.stopRequested with
    | true =>
      exact leave_inv h idle silent stop alive
    | false =>
      refine inv_report h .error false silent (by decide) ?_ (.refl _)
        (fun stopped => (nomatch stop.symm.trans stopped)) alive
      rw [reports_of_idle idle]
      rfl

theorem serving_of_guard (ready : ¬(w.transport.stage ≠ .serving ∨ w.transport.pending.isSome = true)) :
    w.transport.stage = .serving ∧ w.transport.pending.isSome = false :=
  ⟨not_not.mp (not_or.mp ready).1, Bool.eq_false_iff.mpr (not_or.mp ready).2⟩

section
variable (h : w.Inv)
include h

theorem line_inv (type : Report) : (w.line type).Inv := by
  unfold World.line
  split
  · exact h
  rename_i ready
  obtain ⟨stage, idle⟩ := serving_of_guard ready
  refine inv_report h type true (h.ordered.silent (by rw [stage]; decide) (by rw [stage]; decide))
    (by cases type <;> decide) ?_ (.refl _) id
    (alive_of_stage (by rw [stage]; decide) (by rw [stage]; decide))
  rw [reports_of_idle idle]
  rfl

theorem readFails_inv : w.readFails.Inv := by
  unfold readFails
  split
  · exact h
  rename_i ready
  obtain ⟨stage, idle⟩ := serving_of_guard ready
  refine inv_report h .error false (h.ordered.silent (by rw [stage]; decide) (by rw [stage]; decide))
    (by decide) ?_ (.refl _) id (alive_of_stage (by rw [stage]; decide) (by rw [stage]; decide))
  rw [reports_of_idle idle]
  rfl

theorem hangUp_inv : w.hangUp.Inv := by
  unfold hangUp
  split
  · exact h
  rename_i ready
  obtain ⟨stage, idle⟩ := not_or.mp ready
  have idle := Bool.eq_false_iff.mpr idle
  have atWork : w.transport.stage ≠ .leaving ∧ w.transport.stage ≠ .off := by
    constructor <;> exact fun same => stage (by rw [same]; decide)
  have silent := h.ordered.silent atWork.1 atWork.2
  have alive : ¬w.Gone := alive_of_stage atWork.1 atWork.2
  cases stop : w.transport.stopRequested with
  | true =>
    exact leave_inv h idle silent stop alive
  | false =>
    have reports : { w.transport with
        running := false, connected := false, stage := .leaving
        pending := some (.report .disconnected false) }.reports = w.transport.reports ++ [ownDisconnect] := by
      rw [reports_of_idle idle]
      rfl
    have sent := sentItems_report reports
    have reporting : ¬Lost w.transport := fun lost => nomatch stop.symm.trans lost.stop
    refine h.transport (ordered_of_last silent reports ⟨.inl rfl, rfl⟩) ?_ (.refl _) ?_
      (fun lost => absurd lost reporting) (fun stopped => (nomatch stop.symm.trans stopped))
      fun gone => absurd gone alive
    · rw [← sent]
      exact List.Sublist.refl _
    · exact fun item there => .inl (sent.symm ▸ there)

theorem queue_inv : w.queue.Inv := by
  unfold queue
  split
  · exact h
  · rename_i event pending
    split
    · have reports : { w.transport with pending := none, events := w.transport.events ++ [event] }.reports =
          w.transport.reports := by
        rw [Transport.reports, Transport.reports, pending]
        exact append_nil _
      refine inv_same h ⟨?_, ?_⟩ reports (.refl _) id ?_
      · exact fun there => h.ordered.shut (reports ▸ there)
      · exact fun before after split => h.ordered.last before after (reports.symm.trans split)
      · exact fun gone => ⟨gone.stage, gone.running, gone.checked, gone.rejoin, reports.trans gone.reports⟩
    · exact h

theorem drop_inv : w.drop.Inv := by
  unfold World.drop
  split
  · rename_i stop
    have reports : { w.transport with pending := none }.reports = w.transport.events := append_nil _
    have sub : w.transport.events.Sublist w.transport.reports := sublist_append_left _ _
    have sent : { w.transport with pending := none }.sentItems.Sublist w.transport.sentItems := by
      rw [Transport.sentItems, reports]
      exact sub.filterMap _
    refine h.transport ⟨?_, ?_⟩ sent (.refl _) ?_ ?_ id ?_
    · exact fun there => h.ordered.shut (sub.subset (reports ▸ there))
    · intro before after split
      have parted : w.transport.reports = before ++ ownDisconnect :: (after ++ w.transport.pending.toList) := by
        rw [Transport.reports, ← reports, split, append_assoc, cons_append]
      exact (append_eq_nil_iff.mp (h.ordered.last before _ parted)).1
    · intro item there
      rw [Transport.sentItems, reports]
      rw [Transport.sentItems, Transport.reports, filterMap_append] at there
      rcases mem_append.mp there with queued | pending
      · exact .inl queued
      · -- nothing is queued behind the end of the connection
        refine .inr ⟨stop, fun own => ?_⟩
        obtain ⟨before, after, split⟩ := append_of_mem (reports ▸ own)
        have parted : w.transport.reports = before ++ ownDisconnect :: (after ++ w.transport.pending.toList) := by
          rw [Transport.reports, split, append_assoc, cons_append]
        have none := (append_eq_nil_iff.mp (h.ordered.last before _ parted)).2
        rw [none] at pending
        exact not_mem_nil pending
    · exact fun lost => ⟨stop, fun own => lost.silent (sub.subset (reports ▸ own))⟩
    · intro gone
      have empty := append_eq_nil_iff.mp gone.reports
      exact ⟨gone.stage, gone.running, gone.checked, gone.rejoin, reports.trans empty.1⟩
  · exact h

theorem finish_inv : w.finish.Inv := by
  unfold finish
  split
  · refine inv_same h ⟨?_, ?_⟩ rfl (.refl _) id ?_
    · exact fun there => ⟨.inr rfl, (h.ordered.shut there).2⟩
    · exact h.ordered.last
    · exact fun gone => ⟨.inr rfl, gone.running, gone.checked, gone.rejoin, gone.reports⟩
  · exact h

theorem requestStop_inv : w.requestStop.Inv :=
  inv_same h ⟨h.ordered.shut, h.ordered.last⟩ rfl (.refl _) (fun _ => rfl)
    fun gone => ⟨gone.stage, gone.running, gone.checked, gone.rejoin, gone.reports⟩

theorem write_inv (sent : Bool) : (w.write sent).Inv := by
  unfold write
  split
  · exact h
  rename_i ready
  rw [not_or, not_or] at ready
  obtain ⟨stage, idle, going⟩ := ready
  have stage := not_not.mp stage
  have idle := Bool.eq_false_iff.mpr idle
  have silent := h.ordered.silent (by rw [stage]; decide) (by rw [stage]; decide)
  have alive : ¬w.Gone := alive_of_stage (by rw [stage]; decide) (by rw [stage]; decide)
  cases lines : w.transport.tx with
  | nil => exact h
  | cons item tx =>
    dsimp only
    cases sent with
    | false =>
      refine inv_report h .error false silent (by decide) ?_ (lines ▸ sublist_cons_self item tx)
        (fun _ => rfl) alive
      rw [reports_of_idle idle]
      rfl
    | true =>
      have reports : { w.transport with tx, pending := some (.commandSent item) }.reports =
          w.transport.reports ++ [.commandSent item] := by
        rw [reports_of_idle idle]
        rfl
      have sentItems : { w.transport with tx, pending := some (.commandSent item) }.sentItems =
          w.transport.sentItems ++ [item] := by
        rw [Transport.sentItems, reports, filterMap_append]
        rfl
      have same : ({ w with
          transport := { w.transport with tx, pending := some (.commandSent item) }
          written := w.written ++ [item] } : World).awaiting = w.awaiting := by
        rw [awaiting_eq, awaiting_eq, sentItems, lines, append_assoc, singleton_append]
      have here : item ∈ w.awaiting := mem_append_right _ (lines ▸ mem_cons_self)
      rw [if_pos rfl]
      refine ⟨h.distinct.same rfl rfl,
        ordered_of_silent (silent_append silent (by simp [ownDisconnect]) reports), ?_, ?_,
        ⟨h.joins.began, h.joins.progress, fun welcomed rejoin =>
          .inr ((h.joins.done welcomed rejoin).resolve_left alive), h.joins.unwelcome, h.joins.rejoined⟩⟩
      · constructor
        · rw [same]
          exact h.flight.single
        · intro free
          rw [same]
          exact .inl ((h.flight.idle free).resolve_right alive)
        · exact h.flight.busy
        · intro other there
          exact .inr ((h.flight.kind other (same ▸ there)).resolve_left alive)
        · intro other there n entry
          exact .inr ((h.flight.message other (same ▸ there) n entry).resolve_left alive)
        · intro other there n entry
          exact .inr ((h.flight.entry other (same ▸ there) n entry).resolve_left alive)
        · exact fun rejoin other there => h.flight.joining rejoin other (same ▸ there)
      · constructor
        · intro other there
          rcases mem_append.mp (sentItems ▸ there) with old | new
          · exact mem_append_left _ (h.lines.sent other old)
          · exact mem_append_right _ new
        · intro other there n entry
          rcases mem_append.mp there with old | new
          · exact h.lines.known other old n entry
          · obtain rfl := mem_singleton.mp new
            exact ((h.flight.entry other here n entry).resolve_left alive).1
        · intro other there e he entry
          rw [sentItems]
          rcases mem_append.mp there with old | new
          · rcases h.lines.acked other old e he entry with waiting | past
            · exact .inl (mem_append_left _ waiting)
            · exact absurd past.stop going
          · exact .inl (mem_append_right _ new)
        · intro other there n entry other' there' entry'
          have inTx : other ∈ w.transport.tx := lines ▸ mem_cons_of_mem item there
          rcases mem_append.mp there' with old | new
          · exact h.lines.unwritten other inTx n entry other' old entry'
          · -- two lines cannot wait at once
            have two := h.flight.single
            rw [awaiting_eq, lines, length_append, length_cons] at two
            have := length_pos_of_mem (show other ∈ tx from there)
            omega
        · rw [filterMap_append, nodup_append]
          refine ⟨h.lines.once, ?_, ?_⟩
          · cases entry : item.entry <;> simp [entry]
          · rintro n old m new rfl
            obtain ⟨other, there, entry⟩ := mem_filterMap.mp old
            have entry' : item.entry = some n := by simpa using new
            exact going (h.lines.unwritten item (lines ▸ mem_cons_self) n entry' other there entry)
        · exact h.lines.marked

end

end SolarOs.Gateway
