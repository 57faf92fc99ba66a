import SolarOs.LinkStream.Interleaving
import SolarOs.LinkStream.Sender

/-! What `solar_os_link_stream_process` discharges once its action was sent, when other
tasks changed the stream meanwhile. -/
namespace SolarOs.LinkStream
open List

/-- A stream and the action its processing job has under way, with the time it was
prepared at. -/
structure Task where
  stream : Stream
  underway : Option (Action × UInt32)
  deriving DecidableEq

inductive TaskEvent where
  | operation (op : Operation)
  | prepare (nowMs : UInt32)
  | complete (error : EspErr)
  deriving DecidableEq

def Task.step (t : Task) : TaskEvent → Task
  | .operation op => { t with stream := operate t.stream op }
  | .prepare nowMs =>
    match t.underway with
    | some _ => t
    | none =>
      let (stream, action) := streamPrepareAction t.stream nowMs
      { stream, underway := action.map fun action => (action, nowMs) }
  | .complete error =>
    match t.underway with
    | none => t
    | some (action, nowMs) => { stream := processComplete t.stream action error nowMs, underway := none }

def Task.run (stream : Stream) (events : List TaskEvent) : Task :=
  Machine.run Task.step { stream, underway := none } events

structure Stream.Ok (s : Stream) : Prop where
  closeClosed : s.closePending = true → s.portOpen = false
  windowOpen : s.txWindow ≠ [] → s.portOpen = true
  windowShort : s.txWindow.length ≤ 1

variable {s t : Stream} {drawn : Option UInt32}

theorem renumber_length (sequence : UInt16) (window : List TxSlot) :
    (renumber sequence window).1.length = window.length := by
  induction window generalizing sequence with
  | nil => rfl
  | cons slot slots ih => simp [renumber, ih]

theorem Stream.Ok.window_cases (h : s.Ok) : s.txWindow = [] ∨ ∃ slot, s.txWindow = [slot] ∧ s.portOpen = true := by
  have hshort := h.windowShort
  match hw : s.txWindow, hshort with
  | [], _ => exact .inl rfl
  | [slot], _ => exact .inr ⟨slot, rfl, h.windowOpen (by simp [hw])⟩

theorem Stream.Ok.changes (h : s.Ok) (hchange : Changes s drawn t) : t.Ok := by
  cases hchange with
  | quiet hsame hwindow _ =>
      have hlength : t.txWindow.length ≤ s.txWindow.length := by
        rcases hwindow with ⟨k, hk⟩ | hstopped
        · rw [hk, length_drop]
          exact Nat.sub_le ..
        · rw [hstopped, length_map]
      refine ⟨?_, ?_, hlength.trans h.windowShort⟩
      · rw [hsame.closePending, hsame.portOpen]
        exact h.closeClosed
      · intro hne
        rw [hsame.portOpen]
        refine h.windowOpen fun hnil => hne ?_
        rw [hnil] at hlength
        exact eq_nil_of_length_eq_zero (Nat.le_zero.mp hlength)
  | close _ hclosed _ _ _ hwindow _ =>
      exact ⟨fun _ => hclosed, fun hne => absurd hwindow hne, by simp [hwindow]⟩
  | reopen _ _ hopen _ hpending hwindow _ =>
      refine ⟨?_, fun _ => hopen, by simp [hwindow]⟩
      rw [hpending]
      exact nofun
  | renew _ hsopen hopen _ hpending hwindow _ =>
      obtain ⟨k, hk⟩ := hwindow
      refine ⟨?_, fun _ => hopen, ?_⟩
      · rw [hpending]
        intro hclose
        rw [h.closeClosed hclose] at hsopen
        cases hsopen
      · rw [hk, length_drop, renumber_length]
        exact (Nat.sub_le ..).trans h.windowShort

theorem fillWindow_length (free : Nat) (s : Stream) :
    (fillWindow free s).txWindow.length ≤ s.txWindow.length + free := by
  induction free generalizing s with
  | zero => exact Nat.le_refl _
  | succ free ih =>
      unfold fillWindow
      simp only
      split
      · omega
      · refine (ih _).trans ?_
        simp only [length_append, length_singleton]
        omega

theorem Stream.Ok.filled (h : t.Ok) (hopen : t.portOpen = true) : (filled t).Ok := by
  have hsame := sameSessions_fillWindow (windowSize - t.txWindow.length) t
  have hlength := fillWindow_length (windowSize - t.txWindow.length) t
  have hshort := h.windowShort
  refine ⟨?_, fun _ => hsame.portOpen.trans hopen, ?_⟩
  · intro hclose
    exact hsame.portOpen.trans (h.closeClosed (hsame.closePending ▸ hclose))
  · change (fillWindow _ t).txWindow.length ≤ 1
    unfold windowSize at hlength ⊢
    omega

theorem Stream.Ok.checkPeerTimeout (h : s.Ok) (nowMs : UInt32) : (checkPeerTimeout s nowMs).Ok := by
  unfold SolarOs.LinkStream.checkPeerTimeout
  split
  · exact ⟨h.closeClosed, h.windowOpen, h.windowShort⟩
  · exact h

theorem Stream.Ok.prepare (h : s.Ok) (nowMs : UInt32) : (streamPrepareAction s nowMs).1.Ok := by
  have htimeout := h.checkPeerTimeout nowMs
  generalize SolarOs.LinkStream.checkPeerTimeout s nowMs = t, streamPrepareAction s nowMs = result,
    streamPrepareAction_spec s nowMs = hspec at htimeout
  cases hspec with
  | nothing => exact htimeout
  | close _ => exact htimeout
  | reopen _ _ _ => exact htimeout
  | quiet hopen _ => exact htimeout.filled hopen
  | acknowledge hopen _ _ => exact htimeout.filled hopen
  | data hopen _ hselect =>
      have hfilled := htimeout.filled hopen
      cases hselect with
      | first _ _ => exact hfilled
      | again _ _ =>
          refine ⟨hfilled.closeClosed, fun hne => hfilled.windowOpen fun hnil => hne ?_, ?_⟩
          · simp [unsent, hnil]
          · simpa [unsent] using hfilled.windowShort

theorem processComplete_writes (s : Stream) (action : Action) (error : EspErr) (nowMs : UInt32)
    (hactive : s.active = true) (hgeneration : s.generation = action.generation) :
    (processComplete s action error nowMs).closePending =
        (if error = .ok ∧ action.opcode = .CLOSE then false else s.closePending) ∧
      (processComplete s action error nowMs).nextOpenMs =
        (if error = .ok ∧ action.opcode = .OPEN then
          nowMs + (if streamConnected s nowMs then s.config.openIntervalMs else s.config.retryMs)
        else s.nextOpenMs) ∧
      (processComplete s action error nowMs).txWindow =
        (if error = .ok ∧ action.opcode = .DATA then markSent s.txWindow action.sequence nowMs
        else s.txWindow) := by
  have hcond : (s.active && decide (s.generation = action.generation)) = true := by
    simp [hactive, hgeneration]
  unfold processComplete
  simp only [if_pos hcond]
  by_cases herror : error = .ok
  · simp only [herror, if_true, true_and]
    have hkept : (completeAcknowledgement (setLastError s .ok) action).closePending = s.closePending ∧
        (completeAcknowledgement (setLastError s .ok) action).nextOpenMs = s.nextOpenMs ∧
        (completeAcknowledgement (setLastError s .ok) action).txWindow = s.txWindow ∧
        (completeAcknowledgement (setLastError s .ok) action).config = s.config ∧
        streamConnected (completeAcknowledgement (setLastError s .ok) action) nowMs =
          streamConnected s nowMs := by
      unfold completeAcknowledgement
      split <;> exact ⟨rfl, rfl, rfl, rfl, rfl⟩
    obtain ⟨hclose, hnext, hwindow, hconfig, hconnected⟩ := hkept
    cases hopcode : action.opcode <;>
      simp [completeSwitch, hopcode, hclose, hnext, hwindow, hconfig, hconnected]
  · simp only [herror, if_false, false_and]
    exact ⟨rfl, rfl, rfl⟩

theorem processComplete_window_length (s : Stream) (action : Action) (error : EspErr) (nowMs : UInt32) :
    (processComplete s action error nowMs).txWindow.length = s.txWindow.length := by
  have hrecords := (sameSender_processComplete s action error nowMs).window
  simpa using congrArg List.length hrecords

theorem Stream.Ok.complete (h : s.Ok) (action : Action) (error : EspErr) (nowMs : UInt32) :
    (processComplete s action error nowMs).Ok := by
  obtain ⟨hopen, -, hpending, -⟩ := processComplete_sessions s action error nowMs
  have hlength := processComplete_window_length s action error nowMs
  refine ⟨fun hclose => hopen.trans (h.closeClosed (hpending hclose)), fun hne => ?_, ?_⟩
  · refine hopen.trans (h.windowOpen fun hnil => hne ?_)
    rw [hnil] at hlength
    exact eq_nil_of_length_eq_zero hlength
  · exact hlength.trans_le h.windowShort

structure Stream.Live (s : Stream) : Prop extends s.Ok where
  active : s.active = true

theorem Stream.Live.operate (h : s.Live) (op : Operation) : (operate s op).Live :=
  ⟨h.toOk.changes (operate_changes s op), (operate_identity s op).1.trans h.active⟩

theorem Stream.Live.prepare (h : s.Live) (nowMs : UInt32) : (streamPrepareAction s nowMs).1.Live :=
  ⟨h.toOk.prepare nowMs, (sameSessions_prepare s nowMs).active.trans h.active⟩

theorem processComplete_active (s : Stream) (action : Action) (error : EspErr) (nowMs : UInt32) :
    (processComplete s action error nowMs).active = s.active := by
  have hacknowledged : ∀ t : Stream, (completeAcknowledgement t action).active = t.active := by
    intro t
    unfold completeAcknowledgement
    split <;> rfl
  have hswitch : ∀ t : Stream, (completeSwitch t action nowMs).active = t.active := by
    intro t
    unfold completeSwitch
    split <;> rfl
  unfold processComplete
  simp only
  split_ifs
  · rw [hswitch, hacknowledged]
    rfl
  · rfl
  · rfl

theorem task_live (generation peerId : UInt32) (config : Config) (dataMtu : Nat)
    (events : List TaskEvent) : (Task.run (create generation peerId config dataMtu) events).stream.Live := by
  have hstep : ∀ (t : Task) (e : TaskEvent), t.stream.Live → (t.step e).stream.Live := by
    intro t e h
    cases e with
    | operation op => exact h.operate op
    | prepare nowMs =>
        cases hunderway : t.underway with
        | some action => simpa [Task.step, hunderway] using h
        | none =>
            simp only [Task.step, hunderway]
            exact h.prepare nowMs
    | complete error =>
        cases hunderway : t.underway with
        | none => simpa [Task.step, hunderway] using h
        | some pair =>
            simp only [Task.step, hunderway]
            exact ⟨h.toOk.complete _ _ _, (processComplete_active ..).trans h.active⟩
  have hstart : (create generation peerId config dataMtu).Live :=
    ⟨⟨nofun, fun hne => absurd rfl hne, Nat.zero_le 1⟩, rfl⟩
  induction events using List.reverseRecOn with
  | nil => exact hstart
  | append_singleton events e ih =>
      rw [Task.run, Machine.run_append]
      exact hstep _ e ih

/-- What a stream that was `first` when an action was prepared looks like after some
operations, the last session number they drew being `drawn`. -/
structure Since (first : Stream) (drawn : Option UInt32) (t : Stream) : Prop where
  ok : t.Ok
  kept : drawn = none → t.localSession = first.localSession
  closed : drawn = none → first.portOpen = false →
    t.portOpen = false ∧ t.closePending = first.closePending ∧ t.closeSession = first.closeSession
  renewed : ∀ session, drawn = some session → t.localSession = session ∧ t.nextOpenMs = 0 ∧
    session ≠ 0 ∧ (t.portOpen = false → t.closePending = true ∧ t.closeSession = session)
  window : t.txWindow = [] ∨ ∃ old slot, first.txWindow = [old] ∧ t.txWindow = [slot] ∧
    slot.data = old.data ∧ (drawn = none → slot.sequence = old.sequence) ∧
    (drawn ≠ none → slot.sequence = 1 ∧ slot.sent = false)

variable {first : Stream}

theorem Since.refl (h : first.Ok) : Since first none first where
  ok := h
  kept := fun _ => rfl
  closed := fun _ hclosed => ⟨hclosed, rfl, rfl⟩
  renewed := nofun
  window := by
    rcases h.window_cases with hnil | ⟨slot, hslot, -⟩
    · exact .inl hnil
    · exact .inr ⟨slot, slot, hslot, hslot, rfl, fun _ => rfl, fun hne => absurd rfl hne⟩

theorem drop_singleton (slot : TxSlot) (k : Nat) : [slot].drop k = [] ∨ [slot].drop k = [slot] := by
  cases k with
  | zero => exact .inr rfl
  | succ k => exact .inl (by simp)

theorem Since.changes {new : Option UInt32} (h : Since first drawn s)
    (hchange : Changes s new t) : Since first (new.or drawn) t := by
  have hok := h.ok.changes hchange
  cases hchange with
  | quiet hsame hwindow hnext =>
      rw [Option.none_or]
      refine ⟨hok, fun hnone => hsame.localSession.trans (h.kept hnone), fun hnone hclosed => ?_,
        fun session hdrawn => ?_, ?_⟩
      · obtain ⟨hopen, hpending, hsession⟩ := h.closed hnone hclosed
        exact ⟨hsame.portOpen.trans hopen, hsame.closePending.trans hpending, hsame.closeSession.trans hsession⟩
      · obtain ⟨hlocal, hzero, hne, hclose⟩ := h.renewed session hdrawn
        refine ⟨hsame.localSession.trans hlocal, ?_, hne, ?_⟩
        · rcases hnext with hsameNext | hnow
          · exact hsameNext.trans hzero
          · exact hnow
        · rw [hsame.portOpen, hsame.closePending, hsame.closeSession]
          exact hclose
      · rcases h.window with hnil | ⟨old, slot, hold, hslot, hdata, hnone, hsome⟩
        · refine .inl ?_
          rcases hwindow with ⟨k, hk⟩ | hstopped
          · rw [hk, hnil, drop_nil]
          · rw [hstopped, hnil, map_nil]
        · rcases hwindow with ⟨k, hk⟩ | hstopped
          · rw [hslot] at hk
            rcases drop_singleton slot k with hdrop | hdrop
            · exact .inl (hk.trans hdrop)
            · exact .inr ⟨old, slot, hold, hk.trans hdrop, hdata, hnone, hsome⟩
          · rw [hslot] at hstopped
            exact .inr ⟨old, stoppedSlot slot, hold, hstopped, hdata, hnone, fun hne => ⟨(hsome hne).1, rfl⟩⟩
  | close hopen hclosed hlocal hpending hsession hwindow hnext =>
      rw [Option.none_or]
      refine ⟨hok, fun hnone => hlocal.trans (h.kept hnone), fun hnone hfirst => ?_,
        fun session hdrawn => ?_, .inl hwindow⟩
      · rw [(h.closed hnone hfirst).1] at hopen
        cases hopen
      · obtain ⟨hold, hzero, hne, -⟩ := h.renewed session hdrawn
        refine ⟨hlocal.trans hold, hnext.trans hzero, hne, fun _ => ⟨?_, hsession.trans hold⟩⟩
        rw [hpending, hold]
        simpa using hne
  | reopen random hclosed hopen hlocal hpending hwindow hnext =>
      rw [Option.some_or]
      refine ⟨hok, nofun, nofun, fun session hdrawn => ?_, .inl hwindow⟩
      obtain rfl := Option.some.inj hdrawn
      refine ⟨hlocal, hnext, streamNewSession_ne_zero random, fun hnot => ?_⟩
      rw [hopen] at hnot
      cases hnot
  | renew random hsopen hopen hlocal hpending hwindow hnext =>
      rw [Option.some_or]
      refine ⟨hok, nofun, nofun, fun session hdrawn => ?_, ?_⟩
      · obtain rfl := Option.some.inj hdrawn
        refine ⟨hlocal, hnext, streamNewSession_ne_zero random, fun hnot => ?_⟩
        rw [hopen] at hnot
        cases hnot
      · obtain ⟨k, hk⟩ := hwindow
        rcases h.window with hnil | ⟨old, slot, hold, hslot, hdata, -, -⟩
        · refine .inl ?_
          rw [hk, hnil]
          exact drop_nil
        · rw [hslot] at hk
          rcases drop_singleton { slot with sequence := 1, sent := false, everSent := false, lastSendMs := 0 }
            k with hdrop | hdrop
          · exact .inl (hk.trans hdrop)
          · exact .inr ⟨old, _, hold, hk.trans hdrop, hdata, nofun, fun _ => ⟨rfl, rfl⟩⟩

theorem since_operations (h : first.Ok) (ops : List Operation) :
    Since first (lastDrawn first ops) (operations first ops) := by
  induction ops using List.reverseRecOn with
  | nil => exact .refl h
  | append_singleton ops op ih =>
      rw [lastDrawn_snoc, operations_snoc]
      exact ih.changes (operate_changes _ op)

/-- What a prepared action says about the stream it was prepared from. -/
def Carries (s : Stream) (action : Action) : Prop :=
  match action.opcode with
  | .OPEN => action.session = s.localSession
  | .DATA => action.session = s.localSession ∧
      ∃ slot, s.txWindow = [slot] ∧ action.sequence = slot.sequence ∧ action.data = slot.data
  | .ACK => True
  | .CLOSE => action.session = s.closeSession ∧ s.portOpen = false

theorem Stream.Ok.window_eq (h : s.Ok) {slot : TxSlot} (hslot : slot ∈ s.txWindow) : s.txWindow = [slot] := by
  rcases h.window_cases with hnil | ⟨only, honly, -⟩
  · rw [hnil] at hslot
    cases hslot
  · rw [honly, mem_singleton] at hslot
    rw [hslot, honly]

variable {action : Action} {nowMs : UInt32}

theorem prepare_carries (h : s.Ok) (haction : (streamPrepareAction s nowMs).2 = some action) :
    Carries (streamPrepareAction s nowMs).1 action ∧
      action.generation = (streamPrepareAction s nowMs).1.generation := by
  have htimeout := h.checkPeerTimeout nowMs
  have hok := h.prepare nowMs
  generalize SolarOs.LinkStream.checkPeerTimeout s nowMs = t, streamPrepareAction s nowMs = result,
    streamPrepareAction_spec s nowMs = hspec at htimeout hok haction
  cases hspec with
  | nothing => cases haction
  | close hclose =>
      obtain rfl := Option.some.inj haction
      exact ⟨⟨rfl, htimeout.closeClosed hclose⟩, rfl⟩
  | reopen _ _ _ =>
      obtain rfl := Option.some.inj haction
      exact ⟨rfl, rfl⟩
  | quiet _ _ => cases haction
  | acknowledge _ _ _ =>
      obtain rfl := Option.some.inj haction
      exact ⟨trivial, rfl⟩
  | @data u slot _ _ hselect =>
      obtain rfl := Option.some.inj haction
      have hslot : slot ∈ u.txWindow := by
        cases hselect with
        | first hmem _ => exact hmem
        | again hwindow _ => simp [unsent, hwindow]
      exact ⟨⟨rfl, slot, hok.window_eq hslot, rfl, rfl⟩, rfl⟩

/-- The completion of an action discharges only what the action sent. -/
structure Discharges (s : Stream) (action : Action) (error : EspErr) (nowMs : UInt32) : Prop where
  close : s.closePending = true → (processComplete s action error nowMs).closePending = false →
    action.opcode = .CLOSE ∧ s.closeSession = action.session
  nextOpen : (processComplete s action error nowMs).nextOpenMs ≠ s.nextOpenMs →
    action.opcode = .OPEN ∧ s.localSession = action.session
  window : ∀ (i : Nat) (slot : TxSlot), s.txWindow[i]? = some slot →
    (processComplete s action error nowMs).txWindow[i]? ≠ some slot →
    action.opcode = .DATA ∧ s.localSession = action.session ∧ slot.sequence = action.sequence ∧
      slot.data = action.data

/-- When a completion discharges only what was sent: the send failed, no session number
but the action's own was drawn last since the preparation, or the part of the stream the
opcode writes is not the one of another session. -/
def Undisturbed (s : Stream) (drawn : Option UInt32) (action : Action) (error : EspErr)
    (nowMs : UInt32) : Prop :=
  error ≠ .ok ∨ (∀ session, drawn = some session → session = action.session) ∨
    match action.opcode with
    | .OPEN =>
      nowMs + (if streamConnected s nowMs then s.config.openIntervalMs else s.config.retryMs) = 0
    | .DATA => s.txWindow = [] ∨ action.sequence ≠ 1
    | .ACK => True
    | .CLOSE => s.portOpen = true

theorem discharges_of_error {error : EspErr} (hactive : s.active = true)
    (hgeneration : s.generation = action.generation) (herror : error ≠ .ok) : Discharges s action error nowMs := by
  obtain ⟨hclose, hnext, hwindow⟩ := processComplete_writes s action error nowMs hactive hgeneration
  simp only [herror, false_and, if_false] at hclose hnext hwindow
  refine ⟨fun hpending hcleared => ?_, fun hne => absurd hnext hne, fun i slot hslot hne => ?_⟩
  · rw [hclose, hpending] at hcleared
    cases hcleared
  · rw [hwindow] at hne
    exact absurd hslot hne

section
variable (hactive : s.active = true)
include hactive

section
variable (hgeneration : s.generation = action.generation)
include hgeneration

theorem discharges_open_iff (hopcode : action.opcode = .OPEN) : Discharges s action .ok nowMs ↔
      (nowMs + (if streamConnected s nowMs then s.config.openIntervalMs else s.config.retryMs) ≠
        s.nextOpenMs → s.localSession = action.session) := by
  obtain ⟨hclose, hnext, hwindow⟩ := processComplete_writes s action .ok nowMs hactive hgeneration
  simp only [hopcode, true_and, if_true, reduceCtorEq, if_false] at hclose hnext hwindow
  constructor
  · intro h hne
    exact (h.nextOpen (hnext ▸ hne)).2
  · intro h
    refine ⟨fun hpending hcleared => ?_, fun hne => ⟨hopcode, h (hnext ▸ hne)⟩, fun i slot hslot hne => ?_⟩
    · rw [hclose, hpending] at hcleared
      cases hcleared
    · rw [hwindow] at hne
      exact absurd hslot hne

theorem discharges_close_iff (hopcode : action.opcode = .CLOSE) :
    Discharges s action .ok nowMs ↔ (s.closePending = true → s.closeSession = action.session) := by
  obtain ⟨hclose, hnext, hwindow⟩ := processComplete_writes s action .ok nowMs hactive hgeneration
  simp only [hopcode, true_and, if_true, reduceCtorEq, if_false] at hclose hnext hwindow
  constructor
  · exact fun h hpending => (h.close hpending hclose).2
  · intro h
    refine ⟨fun hpending _ => ⟨hopcode, h hpending⟩, fun hne => absurd hnext hne, fun i slot hslot hne => ?_⟩
    rw [hwindow] at hne
    exact absurd hslot hne

theorem discharges_ack (hopcode : action.opcode = .ACK) : Discharges s action .ok nowMs := by
  obtain ⟨hclose, hnext, hwindow⟩ := processComplete_writes s action .ok nowMs hactive hgeneration
  simp only [hopcode, true_and, reduceCtorEq, if_false] at hclose hnext hwindow
  refine ⟨fun hpending hcleared => ?_, fun hne => absurd hnext hne, fun i slot hslot hne => ?_⟩
  · rw [hclose, hpending] at hcleared
    cases hcleared
  · rw [hwindow] at hne
    exact absurd hslot hne

theorem discharges_data_iff (hopcode : action.opcode = .DATA) :
    Discharges s action .ok nowMs ↔ ∀ (i : Nat) (slot : TxSlot), s.txWindow[i]? = some slot →
      (markSent s.txWindow action.sequence nowMs)[i]? ≠ some slot →
      s.localSession = action.session ∧ slot.sequence = action.sequence ∧ slot.data = action.data := by
  obtain ⟨hclose, hnext, hwindow⟩ := processComplete_writes s action .ok nowMs hactive hgeneration
  simp only [hopcode, true_and, if_true, reduceCtorEq, if_false] at hclose hnext hwindow
  constructor
  · intro h i slot hslot hne
    exact (h.window i slot hslot (hwindow ▸ hne)).2
  · intro h
    refine ⟨fun hpending hcleared => ?_, fun hne => absurd hnext hne,
      fun i slot hslot hne => ⟨hopcode, h i slot hslot (hwindow ▸ hne)⟩⟩
    rw [hclose, hpending] at hcleared
    cases hcleared

end

end

theorem markSent_singleton_of_ne {slot : TxSlot} {sequence : UInt16} (nowMs : UInt32)
    (h : slot.sequence ≠ sequence) : markSent [slot] sequence nowMs = [slot] := by
  simp [markSent, h]

theorem discharges_iff_of_since {error : EspErr} (hcarries : Carries first action)
    (h : Since first drawn s) (hactive : s.active = true) (hgeneration : s.generation = action.generation) :
    Discharges s action error nowMs ↔ Undisturbed s drawn action error nowMs := by
  by_cases herror : error = .ok
  · subst herror
    unfold Undisturbed Carries at *
    simp only [ne_eq, not_true_eq_false, false_or]
    cases hopcode : action.opcode with
    | OPEN =>
        simp only [hopcode] at hcarries ⊢
        rw [discharges_open_iff hactive hgeneration hopcode]
        cases hdrawn : drawn with
        | none =>
            have hsame : s.localSession = action.session := (h.kept hdrawn).trans hcarries.symm
            exact ⟨fun _ => .inl nofun, fun _ _ => hsame⟩
        | some session =>
            obtain ⟨hlocal, hnext, -, -⟩ := h.renewed session hdrawn
            rw [hlocal, hnext]
            simp only [Option.some.injEq, forall_eq']
            exact ⟨fun himp => or_iff_not_imp_right.mpr himp, fun hor hne => hor.resolve_right hne⟩
    | CLOSE =>
        simp only [hopcode] at hcarries ⊢
        rw [discharges_close_iff hactive hgeneration hopcode]
        cases hdrawn : drawn with
        | none =>
            obtain ⟨-, -, hsession⟩ := h.closed hdrawn hcarries.2
            exact ⟨fun _ => .inl nofun, fun _ _ => hsession.trans hcarries.1.symm⟩
        | some session =>
            obtain ⟨-, -, -, hclosed⟩ := h.renewed session hdrawn
            simp only [Option.some.injEq, forall_eq']
            cases hopen : s.portOpen with
            | true =>
                refine ⟨fun _ => .inr rfl, fun _ hpending => ?_⟩
                rw [h.ok.closeClosed hpending] at hopen
                cases hopen
            | false =>
                obtain ⟨hpending, hsession⟩ := hclosed hopen
                rw [hpending, hsession]
                simp
    | ACK =>
        exact ⟨fun _ => .inr trivial, fun _ => discharges_ack hactive hgeneration hopcode⟩
    | DATA =>
        simp only [hopcode] at hcarries ⊢
        obtain ⟨hsession, old, hold, hsequence, hdata⟩ := hcarries
        rw [discharges_data_iff hactive hgeneration hopcode]
        rcases h.window with hnil | ⟨old', slot, hold', hslot, hdata', hnone, hsome⟩
        · refine ⟨fun _ => .inr (.inl hnil), fun _ i slot hget => ?_⟩
          rw [hnil] at hget
          cases hget
        · obtain rfl : old = old' := by
            rw [hold] at hold'
            exact head_eq_of_cons_eq hold'
          rw [hslot]
          have honly : ∀ (i : Nat) (w : TxSlot), [slot][i]? = some w → i = 0 ∧ w = slot := by
            intro i w hget
            cases i with
            | zero => exact ⟨rfl, (Option.some.inj hget).symm⟩
            | succ i => cases hget
          cases hdrawn : drawn with
          | none =>
              refine ⟨fun _ => .inl nofun, fun _ i w hget _ => ?_⟩
              obtain ⟨rfl, rfl⟩ := honly i w hget
              exact ⟨(h.kept hdrawn).trans hsession.symm, (hnone hdrawn).trans hsequence.symm, hdata'.trans hdata.symm⟩
          | some session =>
              obtain ⟨hlocal, -⟩ := h.renewed session hdrawn
              obtain ⟨hone, hunsent⟩ := hsome (by simp [hdrawn])
              simp only [Option.some.injEq, forall_eq', cons_ne_nil, false_or]
              constructor
              · intro hall
                by_cases hseq : action.sequence = 1
                · refine .inl (hlocal.symm.trans (hall 0 slot rfl ?_).1)
                  rw [hseq, ← hone]
                  simp only [markSent, ne_eq, not_true_eq_false, if_false, getElem?_cons_zero, Option.some.injEq]
                  intro heq
                  have hsent := congrArg TxSlot.sent heq
                  rw [hunsent] at hsent
                  cases hsent
                · exact .inr hseq
              · rintro hcond i w hget hne
                obtain ⟨rfl, rfl⟩ := honly i w hget
                by_cases hseq : action.sequence = 1
                · refine ⟨hlocal.trans (hcond.resolve_right (not_not.mpr hseq)), hone.trans hseq.symm,
                    hdata'.trans hdata.symm⟩
                · rw [markSent_singleton_of_ne nowMs (hone.trans_ne (Ne.symm hseq))] at hne
                  exact absurd rfl hne
  · exact ⟨fun _ => .inl herror, fun _ => discharges_of_error hactive hgeneration herror⟩

theorem operations_identity (s : Stream) (ops : List Operation) :
    (operations s ops).active = s.active ∧ (operations s ops).generation = s.generation := by
  induction ops using List.reverseRecOn with
  | nil => exact ⟨rfl, rfl⟩
  | append_singleton ops op ih =>
      obtain ⟨hactive, hgeneration⟩ := operate_identity (operations s ops) op
      rw [operations_snoc]
      exact ⟨hactive.trans ih.1, hgeneration.trans ih.2⟩

/-- Whatever other tasks do between the preparation of an action and its completion, the
completion discharges only what was sent exactly when it is undisturbed. -/
theorem completion_discharges_iff (generation peerId : UInt32) (config : Config) (dataMtu : Nat)
    (events : List TaskEvent) (nowMs : UInt32) (action : Action) (ops : List Operation) (error : EspErr)
    (hprepare : (streamPrepareAction
      (Task.run (create generation peerId config dataMtu) events).stream nowMs).2 = some action) :
    let first := (streamPrepareAction
      (Task.run (create generation peerId config dataMtu) events).stream nowMs).1
    Discharges (operations first ops) action error nowMs ↔
      Undisturbed (operations first ops) (lastDrawn first ops) action error nowMs := by
  intro first
  have hlive := task_live generation peerId config dataMtu events
  have hfirst : first.Live := hlive.prepare nowMs
  obtain ⟨hcarries, hgeneration⟩ := prepare_carries hlive.toOk hprepare
  obtain ⟨hactive, hsame⟩ := operations_identity first ops
  exact discharges_iff_of_since hcarries (since_operations hfirst.toOk ops)
    (hactive.trans hfirst.active) (hsame.trans hgeneration.symm)

def taskStream (events : List TaskEvent) : Stream :=
  (Task.run (create 1 1 configDefault 226) events).stream

/-- An OPEN from the peer of `taskStream`, drawing `random` where it draws. -/
def peerOpen (session random : UInt32) : Operation :=
  .ingest (actionMessage 1 0 (newAction (taskStream []) .OPEN session)) 900 random

theorem completion_discharges_iff_sample : (streamPrepareAction (taskStream [.operation (.portOpen 11)]) 1000).2 =
        some (newAction (taskStream [.operation (.portOpen 11)]) .OPEN 11) ∧
      (Discharges (operations (streamPrepareAction (taskStream [.operation (.portOpen 11)]) 1000).1 [])
        (newAction (taskStream [.operation (.portOpen 11)]) .OPEN 11) .ok 1000 ↔
      Undisturbed (operations (streamPrepareAction (taskStream [.operation (.portOpen 11)]) 1000).1 [])
        none (newAction (taskStream [.operation (.portOpen 11)]) .OPEN 11) .ok 1000) :=
  ⟨by decide, completion_discharges_iff 1 1 configDefault 226 [.operation (.portOpen 11)] 1000
    _ [] .ok (by decide)⟩

def reclosed : Stream :=
  operations (streamPrepareAction (taskStream [.operation (.portOpen 11), .operation .portClose]) 1000).1
    [.portOpen 22, .portClose]

def reopened : Stream :=
  operations (streamPrepareAction (taskStream [.operation (.portOpen 11)]) 1000).1 [.portClose, .portOpen 22]

/-- The events up to a first DATA frame: the port is open, the peer known, a byte written
and the OPEN sent. -/
def firstData : List TaskEvent :=
  [.operation (.portOpen 11), .operation (peerOpen 5 0), .operation (.portWrite 65), .prepare 1000,
    .complete .ok]

def renewed : Stream := operations (streamPrepareAction (taskStream firstData) 1001).1 [peerOpen 6 22]

/-- The completions of a CLOSE, of an OPEN and of a DATA frame discharge what was not sent. -/
theorem completion_discharges_unsent :
    ((streamPrepareAction (taskStream [.operation (.portOpen 11), .operation .portClose]) 1000).2 =
        some (newAction (taskStream []) .CLOSE 11) ∧
      ¬ Discharges reclosed (newAction (taskStream []) .CLOSE 11) .ok 1000) ∧
    ((streamPrepareAction (taskStream [.operation (.portOpen 11)]) 1000).2 =
        some (newAction (taskStream []) .OPEN 11) ∧
      ¬ Discharges reopened (newAction (taskStream []) .OPEN 11) .ok 1000) ∧
    ((streamPrepareAction (taskStream firstData) 1001).2 =
        some { newAction (taskStream []) .DATA 11 with sequence := 1, data := [65] } ∧
      ¬ Discharges renewed { newAction (taskStream []) .DATA 11 with sequence := 1, data := [65] }
        .ok 1001) := by
  refine ⟨⟨by decide, fun h => ?_⟩, ⟨by decide, fun h => ?_⟩,
    ⟨by decide, fun h => ?_⟩⟩
  · exact absurd (h.close (by decide) (by decide)).2 (by decide)
  · exact absurd (h.nextOpen (by decide)).2 (by decide)
  · have hslot : renewed.txWindow[0]? = some ⟨1, [65], false, false, 0⟩ := by decide
    exact absurd (h.window 0 _ hslot (by decide)).2.1 (by decide)

end SolarOs.LinkStream
