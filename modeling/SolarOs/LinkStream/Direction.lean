import SolarOs.Library.StopAndWait.Delivery
import SolarOs.LinkStream.Operations

/-! One direction of two Link streams is a stop-and-wait direction: what each
operation of a stream is there, for the sending and for the receiving side. -/
namespace SolarOs.LinkStream
open StopAndWait (Step Steps)

/-- The numbers 1 to 65535 in turn. -/
def sequenceNumbering : StopAndWait.Numbering UInt16 where
  number k := UInt16.ofNat (k % 65535 + 1)
  next := streamNextSequence
  previous := streamPreviousSequence
  next_number := by
    intro k
    have hk : k % 65535 < 65535 := Nat.mod_lt _ (by decide)
    unfold streamNextSequence
    rcases Nat.lt_or_ge (k % 65535) 65534 with hlt | hge
    · have hsucc : (k + 1) % 65535 = k % 65535 + 1 := by omega
      have hadd : UInt16.ofNat (k % 65535 + 1) + 1 = UInt16.ofNat (k % 65535 + 1 + 1) := by simp
      have hne : UInt16.ofNat (k % 65535 + 1 + 1) ≠ 0 := by
        intro h
        have := congrArg UInt16.toNat h
        simp at this
        omega
      rw [hsucc, hadd, if_pos hne]
    · have hlast : k % 65535 = 65534 := by omega
      have hzero : (k + 1) % 65535 = 0 := by omega
      rw [hlast, hzero]
      decide
  previous_number := by
    intro k
    have hk : k % 65535 < 65535 := Nat.mod_lt _ (by decide)
    unfold streamPreviousSequence
    rcases Nat.lt_or_ge (k % 65535) 65534 with hlt | hge
    · have hsucc : (k + 1) % 65535 = k % 65535 + 1 := by omega
      have hne : UInt16.ofNat (k % 65535 + 1 + 1) ≠ 1 := by
        intro h
        have := congrArg UInt16.toNat h
        simp at this
        omega
      rw [hsucc, if_neg hne]
      simp
    · have hlast : k % 65535 = 65534 := by omega
      have hzero : (k + 1) % 65535 = 0 := by omega
      rw [hlast, hzero]
      decide
  number_succ_ne := by
    intro k h
    have := congrArg UInt16.toNat h
    simp at this
    omega

@[simp] theorem sequenceNumbering_zero : sequenceNumbering.number 0 = 1 := rfl

abbrev Direction := StopAndWait.Direction UInt32 UInt16 (List UInt8)

def Action.slot? (action : Action) : Option SlotRecord :=
  if action.opcode = .DATA then some ⟨action.session, action.sequence, action.data⟩ else none

def Action.acknowledgement? (action : Action) : Option (StopAndWait.Acknowledgement UInt32 UInt16) :=
  if action.acknowledgementSession = 0 then none
  else some ⟨action.acknowledgementSession, action.acknowledgementSequence⟩

def Stream.owed (stream : Stream) : List (StopAndWait.Acknowledgement UInt32 UInt16) :=
  if stream.acknowledgementPending = true ∧ stream.acknowledgementSession ≠ 0 then
    [⟨stream.acknowledgementSession, stream.acknowledgementSequence⟩]
  else []

def Stream.remote? (stream : Stream) : Option UInt32 :=
  if stream.remoteSession = 0 then none else some stream.remoteSession

/-- The direction from a sender `s` to a receiver `r`, with the frames `flight` on
their way to the receiver and `back` on their way from it. -/
def direction (drawn : List UInt32) (s : Stream) (flight back : List Action) (r : Stream) : Direction where
  drawn
  sending := s.portOpen
  session := s.localSession
  next := s.nextTxSequence
  window := s.txWindow.map s.record
  numbered := s.history.numbered
  released := s.history.released.map Release.slot
  data := flight.filterMap Action.slot?
  acks := back.filterMap Action.acknowledgement? ++ r.owed
  remote := r.remote?
  expected := r.expectedRxSequence
  received := r.receivedAny
  appended := r.history.appended

structure SameSender (s t : Stream) : Prop where
  portOpen : t.portOpen = s.portOpen
  localSession : t.localSession = s.localSession
  nextTxSequence : t.nextTxSequence = s.nextTxSequence
  window : t.txWindow.map t.record = s.txWindow.map s.record
  numbered : t.history.numbered = s.history.numbered
  released : t.history.released = s.history.released

structure SameReceiver (r t : Stream) : Prop where
  remoteSession : t.remoteSession = r.remoteSession
  expected : t.expectedRxSequence = r.expectedRxSequence
  received : t.receivedAny = r.receivedAny
  appended : t.history.appended = r.history.appended
  owed : t.owed = r.owed

abbrev DirSteps (mayAdopt : Direction → UInt32 → Prop) := Steps sequenceNumbering mayAdopt

variable {drawn : List UInt32} {s t r u : Stream} {flight back : List Action}
  {mayAdopt : Direction → UInt32 → Prop}

theorem SameSender.refl (s : Stream) : SameSender s s := ⟨rfl, rfl, rfl, rfl, rfl, rfl⟩

theorem SameSender.trans (h : SameSender s t) (h' : SameSender t u) : SameSender s u :=
  ⟨h'.1.trans h.1, h'.2.trans h.2, h'.3.trans h.3, h'.4.trans h.4, h'.5.trans h.5, h'.6.trans h.6⟩

theorem SameReceiver.refl (r : Stream) : SameReceiver r r := ⟨rfl, rfl, rfl, rfl, rfl⟩

theorem SameReceiver.trans (h : SameReceiver r t) (h' : SameReceiver t u) : SameReceiver r u :=
  ⟨h'.1.trans h.1, h'.2.trans h.2, h'.3.trans h.3, h'.4.trans h.4, h'.5.trans h.5⟩

theorem SameSender.direction_eq (h : SameSender s t) :
    direction drawn t flight back r = direction drawn s flight back r := by
  simp only [direction, h.portOpen, h.localSession, h.nextTxSequence, h.window, h.numbered, h.released]

theorem SameReceiver.direction_eq (h : SameReceiver r t) :
    direction drawn s flight back t = direction drawn s flight back r := by
  simp only [direction, Stream.remote?, h.remoteSession, h.expected, h.received, h.appended, h.owed]

theorem SameSender.steps (h : SameSender s t) :
    DirSteps mayAdopt (direction drawn s flight back r) (direction drawn t flight back r) := by
  rw [h.direction_eq]

theorem SameReceiver.steps (h : SameReceiver r t) :
    DirSteps mayAdopt (direction drawn s flight back r) (direction drawn s flight back t) := by
  rw [h.direction_eq]

theorem sameSender_setLastError (s : Stream) (error : EspErr) : SameSender s (setLastError s error) :=
  ⟨rfl, rfl, rfl, rfl, rfl, rfl⟩

theorem sameSender_countDropped (s : Stream) : SameSender s (countDropped s) :=
  ⟨rfl, rfl, rfl, rfl, rfl, rfl⟩

theorem sameReceiver_setLastError (r : Stream) (error : EspErr) : SameReceiver r (setLastError r error) :=
  ⟨rfl, rfl, rfl, rfl, rfl⟩

theorem sameReceiver_countDropped (r : Stream) : SameReceiver r (countDropped r) :=
  ⟨rfl, rfl, rfl, rfl, rfl⟩

end SolarOs.LinkStream
