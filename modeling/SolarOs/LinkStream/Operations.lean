import Mathlib.Data.List.Basic
import SolarOs.LinkStream.Model

/-! What the operations of a Link stream do, one case at a time. -/
namespace SolarOs.LinkStream
open WrapClock

variable {stream : Stream} {nowMs : UInt32}

theorem streamNewSession_ne_zero (random : UInt32) : streamNewSession random ≠ 0 := by
  unfold streamNewSession
  split
  · assumption
  · decide

section
variable (stream : Stream)

/-- The stream a successful `stream_port_open` leaves. -/
def opened (random : UInt32) : Stream :=
  setLastError (streamResetLocal { stream with
    rxQueue := []
    txQueue := []
    portOpen := true
    remoteSession := 0
    hadRemoteSession := false
    remoteLastSeenMs := 0
    expectedRxSequence := 1
    receivedAny := false
    acknowledgementPending := false
    acknowledgementDueMs := 0
    closePending := false } false random) .ok

theorem streamPortOpen_eq (random : UInt32) : streamPortOpen stream random =
      if stream.active && !stream.portOpen then (opened stream random, .ok)
      else (stream, .invalidState) := by
  unfold streamPortOpen opened
  cases hactive : stream.active <;> cases hopen : stream.portOpen <;> simp [setLastError]

def filled : Stream := fillWindow (windowSize - stream.txWindow.length) stream

def unsent : Stream :=
  { stream with txWindow := stream.txWindow.map fun slot => { slot with sent := false } }

/-- What selecting a slot can do: nothing, find an unsent slot, or restart the window. -/
inductive Selects (stream : Stream) (nowMs : UInt32) : Stream × Option TxSlot → Prop
  | none : Selects stream nowMs (stream, none)
  | first {slot} : slot ∈ stream.txWindow → slot.sent = false → Selects stream nowMs (stream, some slot)
  | again {oldest rest} : stream.txWindow = oldest :: rest →
      streamRetryDelayMs stream oldest ≤ nowMs - oldest.lastSendMs →
      Selects stream nowMs (unsent stream, some { oldest with sent := false })

theorem selectSlot_spec (nowMs : UInt32) : Selects stream nowMs (selectSlot stream nowMs) := by
  unfold selectSlot
  split
  next slot hfind =>
    have hsent := List.find?_some hfind
    exact .first (List.mem_of_find?_eq_some hfind) (by simpa using hsent)
  next =>
    split
    · exact .none
    next oldest rest hwindow =>
      split
      next hdue => exact .again hwindow hdue
      next => exact .none

def dataAction (slot : TxSlot) : Action :=
  { newAction stream .DATA stream.localSession with sequence := slot.sequence, data := slot.data }

/-- What preparing an action can do, `t` being the stream after the timeout check. -/
inductive Prepares (t : Stream) (nowMs : UInt32) : Stream × Option Action → Prop
  | nothing : Prepares t nowMs (t, none)
  | close : t.closePending = true → Prepares t nowMs (t, some (newAction t .CLOSE t.closeSession))
  | reopen : t.closePending = false → t.portOpen = true → reached nowMs t.nextOpenMs = true →
      Prepares t nowMs (t, some (newAction t .OPEN t.localSession))
  | quiet : t.portOpen = true → streamConnected t nowMs = true → Prepares t nowMs (filled t, none)
  | acknowledge : t.portOpen = true → streamConnected t nowMs = true →
      (filled t).acknowledgementPending = true →
      Prepares t nowMs (filled t, some (newAction (filled t) .ACK (filled t).localSession))
  | data {u slot} : t.portOpen = true → streamConnected t nowMs = true →
      Selects (filled t) nowMs (u, some slot) → Prepares t nowMs (u, some (dataAction u slot))

theorem prepareData_spec {t : Stream} (hopen : t.portOpen = true)
    (hconnected : streamConnected t nowMs = true) : Prepares t nowMs (prepareData t nowMs) := by
  have hselect := selectSlot_spec (filled t) nowMs
  unfold prepareData
  simp only
  split
  next u slot hresult =>
    rw [filled, hresult] at hselect
    exact .data hopen hconnected hselect
  next u hresult =>
    rw [filled, hresult] at hselect
    cases hselect
    split
    next hdue =>
      rw [Bool.and_eq_true] at hdue
      exact .acknowledge hopen hconnected hdue.1
    next => exact .quiet hopen hconnected

theorem streamPrepareAction_spec (nowMs : UInt32) :
    Prepares (checkPeerTimeout stream nowMs) nowMs (streamPrepareAction stream nowMs) := by
  unfold streamPrepareAction
  simp only
  split
  next hclose => exact .close hclose
  next hclose =>
    split
    · exact .nothing
    next hopen =>
      have hopen' : (checkPeerTimeout stream nowMs).portOpen = true := by simpa using hopen
      split
      next hdue => exact .reopen (by simpa using hclose) hopen' hdue
      next =>
        split
        · exact .nothing
        next hconnected => exact prepareData_spec hopen' (by simpa using hconnected)

theorem acknowledgedCount_eq {window : List TxSlot} {sequence : UInt16} {k : Nat}
    (h : acknowledgedCount window sequence = k + 1) : ∃ slot, window[k]? = some slot ∧ slot.sequence = sequence := by
  unfold acknowledgedCount at h
  split at h
  next i hfind =>
    obtain rfl : i = k := Nat.succ.inj h
    obtain ⟨hlt, hslot, -⟩ := List.findIdx?_eq_some_iff_getElem.mp hfind
    exact ⟨window[i], List.getElem?_eq_getElem hlt, by simpa using hslot⟩
  next => cases h

theorem streamApplyAcknowledgement_spec (session : UInt32) (sequence : UInt16) :
    streamApplyAcknowledgement stream session sequence = stream ∨
      ∃ gone kept last counters, session = stream.localSession ∧ stream.txWindow = gone ++ kept ∧
        gone.getLast? = some last ∧ last.sequence = sequence ∧
        streamApplyAcknowledgement stream session sequence = { stream with
          txWindow := kept
          counters
          history := { stream.history with
            released := stream.history.released ++
              gone.map fun slot => ⟨stream.record slot, session⟩ } } := by
  unfold streamApplyAcknowledgement
  split
  next => exact .inl rfl
  next hcond =>
    simp only [not_or, Decidable.not_not] at hcond
    cases hcount : acknowledgedCount stream.txWindow sequence with
    | zero => exact .inl rfl
    | succ k =>
        obtain ⟨last, hlast, hsequence⟩ := acknowledgedCount_eq hcount
        refine .inr ⟨stream.txWindow.take (k + 1), stream.txWindow.drop (k + 1), last, _, hcond.1,
          (List.take_append_drop _ _).symm, ?_, hsequence, rfl⟩
        rw [List.take_add_one, hlast]
        simp

def adopted (session nowMs random : UInt32) : Stream :=
  { ingestOpen (setLastError stream .ok) session random with remoteLastSeenMs := nowMs }

def heard (nowMs : UInt32) : Stream :=
  { setLastError stream .ok with remoteLastSeenMs := nowMs }

/-- What ingesting a decoded frame can do. -/
inductive Ingests (stream : Stream) (d : Decoded) (nowMs random : UInt32) : Stream → Prop
  | closed : stream.portOpen = false → Ingests stream d nowMs random stream
  | reopen : stream.portOpen = true → d.opcode = .OPEN → Ingests stream d nowMs random
      (streamApplyAcknowledgement (adopted stream d.session nowMs random) d.acknowledgementSession
        d.acknowledgementSequence)
  | stale : stream.portOpen = true → d.opcode ≠ .OPEN → d.session ≠ stream.remoteSession →
      Ingests stream d nowMs random
        (setLastError (countDropped (setLastError stream .ok)) .invalidState)
  | followed : stream.portOpen = true → d.opcode ≠ .OPEN → d.session = stream.remoteSession →
      Ingests stream d nowMs random
        (ingestSwitch (streamApplyAcknowledgement (heard stream nowMs) d.acknowledgementSession
          d.acknowledgementSequence) d nowMs).1

theorem ingestDecoded_spec (d : Decoded) (nowMs random : UInt32) :
    Ingests stream d nowMs random (ingestDecoded stream d nowMs random).1 := by
  unfold ingestDecoded
  cases hopen : stream.portOpen with
  | false => exact .closed hopen
  | true =>
      simp only [Bool.not_true, Bool.false_eq_true, if_false]
      by_cases hopcode : d.opcode = .OPEN
      · simp only [hopcode, ne_eq, not_true_eq_false, false_and, if_false, if_true, ingestSwitch]
        exact .reopen hopen hopcode
      · simp only [hopcode, ne_eq, not_false_eq_true, true_and, if_false]
        split
        next hsession => exact .stale hopen hopcode hsession
        next hsession => exact .followed hopen hopcode (not_not.mp hsession)

end

end SolarOs.LinkStream
