import SolarOs.Library.Machine
import SolarOs.LinkStream.Operations

/-! When a Link stream sends its OPEN frames: at once where one is asked for, and otherwise
an interval after the last one. -/
namespace SolarOs.LinkStream
open WrapClock Machine

/-- Whether ingesting a decoded frame asks for an immediate OPEN: a new session of the peer,
or its CLOSE. -/
def decodedAsks (stream : Stream) (d : Decoded) : Bool :=
  stream.portOpen &&
    if d.opcode = .OPEN then stream.remoteSession ≠ d.session
    else d.opcode = .CLOSE && stream.remoteSession = d.session

def ingestAsks (stream : Stream) (message : Link.Message) : Bool :=
  match streamDecode message with
  | .error _ => false
  | .ok d => findPeer stream message.source && decodedAsks stream d

def openDelay (stream : Stream) (nowMs : UInt32) : UInt32 :=
  if streamConnected stream nowMs then stream.config.openIntervalMs else stream.config.retryMs

section Fields
variable {stream : Stream} {nowMs random : UInt32}

section
variable (stream : Stream)

@[simp] theorem streamApplyAcknowledgement_nextOpenMs (session : UInt32) (sequence : UInt16) :
    (streamApplyAcknowledgement stream session sequence).nextOpenMs = stream.nextOpenMs := by
  rcases streamApplyAcknowledgement_spec stream session sequence with same | ⟨_, _, _, _, _, _, _, _, changed⟩
  · rw [same]
  · rw [changed]

@[simp] theorem scheduleAcknowledgement_nextOpenMs (session nowMs : UInt32) :
    (scheduleAcknowledgement stream session nowMs).nextOpenMs = stream.nextOpenMs := by
  unfold scheduleAcknowledgement
  split <;> rfl

theorem ingestData_nextOpenMs (d : Decoded) (nowMs : UInt32) :
    (ingestData stream d nowMs).1.nextOpenMs = stream.nextOpenMs := by
  unfold ingestData
  split
  · rfl
  · split
    · split
      · rfl
      · exact scheduleAcknowledgement_nextOpenMs _ _ _
    · split
      · exact scheduleAcknowledgement_nextOpenMs _ _ _
      · exact scheduleAcknowledgement_nextOpenMs _ _ _

theorem ingestOpen_nextOpenMs (session random : UInt32) : (ingestOpen stream session random).nextOpenMs =
      if stream.remoteSession ≠ session then 0 else stream.nextOpenMs := by
  unfold ingestOpen
  by_cases new : stream.remoteSession ≠ session
  · simp only [if_pos new]
    by_cases known : stream.remoteSession ≠ 0 ∨ stream.hadRemoteSession = true
    · rw [if_pos known]
      unfold noteRemoteSession
      split <;> rfl
    · rw [if_neg known]
      have first : (adoptSession stream session).hadRemoteSession = false :=
        Bool.eq_false_of_not_eq_true fun had => known (.inr had)
      unfold noteRemoteSession
      rw [first]
      rfl
  · rw [if_neg new, if_neg new]

theorem ingestDecoded_nextOpenMs (d : Decoded) (nowMs random : UInt32) :
    (ingestDecoded stream d nowMs random).1.nextOpenMs = if decodedAsks stream d then 0 else stream.nextOpenMs := by
  have ingests := ingestDecoded_spec stream d nowMs random
  generalize (ingestDecoded stream d nowMs random).1 = after at ingests
  unfold decodedAsks
  cases ingests with
  | closed shut =>
    rw [shut]
    rfl
  | reopen open_ opcode =>
    rw [streamApplyAcknowledgement_nextOpenMs, open_, opcode, if_pos rfl]
    unfold adopted
    simp [ingestOpen_nextOpenMs, setLastError]
  | stale open_ opcode other =>
    rw [open_, if_neg opcode]
    simp [Ne.symm other, setLastError, countDropped]
  | followed open_ opcode same =>
    rw [open_, if_neg opcode]
    have same' : (heard stream nowMs).nextOpenMs = stream.nextOpenMs := rfl
    unfold ingestSwitch
    cases kind : d.opcode with
    | OPEN => exact absurd kind opcode
    | DATA => simp [ingestData_nextOpenMs, same']
    | ACK => simp [same']
    | CLOSE => simp [ingestClose, same]

theorem ingest_nextOpenMs (message : Link.Message) (nowMs random : UInt32) :
    (ingest stream message nowMs random).1.nextOpenMs = if ingestAsks stream message then 0 else stream.nextOpenMs := by
  unfold ingest ingestAsks
  cases streamDecode message with
  | error failure =>
    simp only
    split <;> rfl
  | ok d =>
    simp only
    cases findPeer stream message.source with
    | false => rfl
    | true =>
      simp only [Bool.true_and, if_true]
      exact ingestDecoded_nextOpenMs stream d nowMs random

theorem fillWindow_nextOpenMs (free : Nat) (stream : Stream) : (fillWindow free stream).nextOpenMs = stream.nextOpenMs := by
  induction free generalizing stream with
  | zero => rfl
  | succ free ih =>
    rw [fillWindow]
    split
    · rfl
    · exact ih _

theorem checkPeerTimeout_nextOpenMs (nowMs : UInt32) :
    (checkPeerTimeout stream nowMs).nextOpenMs = if timedOut stream nowMs then 0 else stream.nextOpenMs := by
  unfold checkPeerTimeout
  split <;> rfl

theorem checkPeerTimeout_fields (nowMs : UInt32) : (checkPeerTimeout stream nowMs).portOpen = stream.portOpen ∧
      (checkPeerTimeout stream nowMs).closePending = stream.closePending ∧
      (checkPeerTimeout stream nowMs).localSession = stream.localSession := by
  unfold checkPeerTimeout
  split <;> exact ⟨rfl, rfl, rfl⟩

theorem streamPrepareAction_nextOpenMs (nowMs : UInt32) :
    (streamPrepareAction stream nowMs).1.nextOpenMs = if timedOut stream nowMs then 0 else stream.nextOpenMs := by
  have prepares := streamPrepareAction_spec stream nowMs
  rw [← checkPeerTimeout_nextOpenMs]
  generalize streamPrepareAction stream nowMs = out at prepares
  have filled : ∀ t : Stream, (filled t).nextOpenMs = t.nextOpenMs := fun t => fillWindow_nextOpenMs _ t
  cases prepares with
  | nothing => rfl
  | close => rfl
  | reopen => rfl
  | quiet => exact filled _
  | acknowledge => exact filled _
  | data _ _ selects =>
    cases selects with
    | first => exact filled _
    | again => exact filled _

end

theorem prepares_open_iff (open_ : stream.portOpen = true) (closed : stream.closePending = false) :
    (∃ action, (streamPrepareAction stream nowMs).2 = some action ∧ action.opcode = .OPEN ∧
        action.session = stream.localSession) ↔
      reached nowMs (if timedOut stream nowMs then 0 else stream.nextOpenMs) = true := by
  obtain ⟨openT, closedT, sessionT⟩ := checkPeerTimeout_fields stream nowMs
  rw [← checkPeerTimeout_nextOpenMs]
  unfold streamPrepareAction
  rw [closed] at closedT
  rw [open_] at openT
  generalize checkPeerTimeout stream nowMs = t at *
  simp only [closedT, openT, Bool.false_eq_true, Bool.not_true, if_false]
  by_cases due : reached nowMs t.nextOpenMs = true
  · rw [if_pos due]
    exact ⟨fun _ => due, fun _ => ⟨_, rfl, rfl, sessionT⟩⟩
  · rw [if_neg due]
    refine ⟨?_, fun no => absurd no due⟩
    rintro ⟨action, prepared, opcode, -⟩
    split at prepared
    · exact nomatch prepared
    · rename_i connected
      have data := prepareData_spec openT (Bool.eq_true_of_not_eq_false (by simpa using connected))
      generalize prepareData t nowMs = out at data prepared
      cases data with
      | nothing => exact nomatch prepared
      | close | acknowledge | data =>
        cases prepared
        exact nomatch opcode
      | reopen _ _ yes => exact absurd yes due
      | quiet => exact nomatch prepared

theorem reached_zero (nowMs : UInt32) : reached nowMs 0 = true ↔ nowMs.toNat < 2 ^ 31 := by
  unfold reached
  rw [decide_eq_true_eq, UInt32.sub_zero]

end Fields

/-- A stream with the call of `solar_os_link_stream_process` that is under way and when it
began, the time since the start, and two notes: whether an immediate OPEN was asked for
since the last call, and when the last OPEN was sent and the delay until the next one. -/
structure Clocked where
  stream : Stream
  underWay : Option (Action × Nat)
  time : Nat
  asked : Bool
  sent : Option (Nat × UInt32)
  deriving DecidableEq

/-- What happens to a stream. -/
inductive Happening where
  | wait (ms : Nat)
  | portOpen (random : UInt32)
  | portClose
  | portRead
  | portWrite (byte : UInt8)
  | ingest (message : Link.Message) (random : UInt32)
  | transportStopped
  | prepare
  | complete (error : EspErr)
  deriving DecidableEq

namespace Clocked
variable {w : Clocked}

section
variable (w : Clocked)

def nowMs : UInt32 := reading w.time

def asks : Happening → Bool
  | .portOpen _ => w.stream.active && !w.stream.portOpen
  | .ingest message _ => ingestAsks w.stream message
  | .transportStopped => w.stream.active
  | _ => false

/-- The stream and the call under way. -/
def apply : Happening → Clocked
  | .wait ms => { w with time := w.time + ms }
  | .portOpen random => { w with stream := (streamPortOpen w.stream random).1 }
  | .portClose => { w with stream := (streamPortClose w.stream).1 }
  | .portRead => { w with stream := (streamPortReadByte w.stream).1 }
  | .portWrite byte => { w with stream := (streamPortWriteByte w.stream byte).1 }
  | .ingest message random => { w with stream := (LinkStream.ingest w.stream message w.nowMs random).1 }
  | .transportStopped => { w with stream := LinkStream.transportStopped w.stream }
  | .prepare =>
    match w.underWay with
    | some _ => w
    | none =>
      let (stream, action) := streamPrepareAction w.stream w.nowMs
      { w with
        stream
        underWay := action.map fun action => (action, w.time)
        asked := false
        sent := if timedOut w.stream w.nowMs then none else w.sent }
  | .complete error =>
    match w.underWay with
    | none => w
    | some (action, time) =>
      let opens : Bool := w.stream.active && w.stream.generation = action.generation && error = .ok && action.opcode = .OPEN
      { w with
        stream := processComplete w.stream action error (reading time)
        underWay := none
        sent := if opens then some (time, openDelay w.stream (reading time)) else w.sent }

def step (e : Happening) : Clocked :=
  if w.asks e then { w.apply e with asked := true, sent := none } else w.apply e

def opening : Bool := w.underWay.any fun (action, _) => action.opcode = .OPEN

/-- No immediate OPEN is asked for while an earlier one is on its way, delays are at most
half of the clock's period, and a call does not come half a period too late. -/
def Careful : Happening → Prop
  | .complete _ => ∀ action time, w.underWay = some (action, time) → action.opcode = .OPEN →
      (openDelay w.stream (reading time)).toNat ≤ 2 ^ 31
  | .prepare => ∀ time delay, w.sent = some (time, delay) → w.time < time + delay.toNat + 2 ^ 31
  | e => w.asks e = true → w.opening = false

def start (stream : Stream) : Clocked := ⟨stream, none, 0, false, none⟩

structure Inv : Prop where
  asked : w.asked = true → w.stream.nextOpenMs = 0 ∧ w.opening = false
  sent : ∀ time delay, w.sent = some (time, delay) → time ≤ w.time ∧ delay.toNat ≤ 2 ^ 31 ∧
    w.stream.nextOpenMs = reading (time + delay.toNat)
  underWay : ∀ action time, w.underWay = some (action, time) → time ≤ w.time

end

theorem reading_delay (time : Nat) (delay : UInt32) : reading time + delay = reading (time + delay.toNat) := by
  rw [← reading_add]
  unfold reading
  rw [UInt32.ofNat_toNat]

variable (stream : Stream)

theorem completeAcknowledgement_nextOpenMs (action : Action) :
    (completeAcknowledgement stream action).nextOpenMs = stream.nextOpenMs := by
  unfold completeAcknowledgement
  split <;> rfl

theorem completeAcknowledgement_delay (action : Action) (error : EspErr) (nowMs : UInt32) :
    openDelay (completeAcknowledgement (setLastError stream error) action) nowMs = openDelay stream nowMs := by
  unfold completeAcknowledgement
  split <;> rfl

theorem processComplete_nextOpenMs (action : Action) (error : EspErr) (nowMs : UInt32) :
    (processComplete stream action error nowMs).nextOpenMs =
      if (stream.active && stream.generation = action.generation && error = .ok && action.opcode = .OPEN) = true then
        nowMs + openDelay stream nowMs
      else stream.nextOpenMs := by
  have delay := completeAcknowledgement_delay stream action error nowMs
  have same : (completeAcknowledgement (setLastError stream error) action).nextOpenMs = stream.nextOpenMs :=
    completeAcknowledgement_nextOpenMs _ _
  unfold processComplete
  by_cases mine : (stream.active && stream.generation = action.generation : Bool) = true
  · rw [if_pos mine, mine]
    by_cases ok : error = .ok
    · simp only [ok, if_true]
      rw [ok] at delay same
      unfold completeSwitch
      cases kind : action.opcode with
      | OPEN =>
        simp only [decide_true, Bool.and_self, if_true]
        exact congrArg (nowMs + ·) delay
      | DATA => exact same
      | ACK => exact same
      | CLOSE => exact same
    · simp [ok, setLastError]
  · rw [if_neg mine, Bool.eq_false_of_not_eq_true mine]
    rfl

theorem streamPortOpen_nextOpenMs (random : UInt32) : (streamPortOpen stream random).1.nextOpenMs =
      if (stream.active && !stream.portOpen) = true then 0 else stream.nextOpenMs := by
  rw [streamPortOpen_eq]
  split <;> rfl

theorem transportStopped_nextOpenMs :
    (LinkStream.transportStopped stream).nextOpenMs = if stream.active then 0 else stream.nextOpenMs := by
  unfold LinkStream.transportStopped
  cases stream.active <;> rfl

theorem port_nextOpenMs (byte : UInt8) : (streamPortClose stream).1.nextOpenMs = stream.nextOpenMs ∧
      (streamPortReadByte stream).1.nextOpenMs = stream.nextOpenMs ∧
      (streamPortWriteByte stream byte).1.nextOpenMs = stream.nextOpenMs := by
  refine ⟨?_, ?_, ?_⟩
  · unfold streamPortClose
    split <;> rfl
  · unfold streamPortReadByte
    split <;> rfl
  · unfold streamPortWriteByte
    split <;> rfl

theorem apply_nextOpenMs {e : Happening} (other : e ≠ .prepare) (other' : ∀ error, e ≠ .complete error) :
    (w.apply e).stream.nextOpenMs = if w.asks e then 0 else w.stream.nextOpenMs := by
  cases e with
  | wait ms => rfl
  | portOpen random => exact streamPortOpen_nextOpenMs w.stream random
  | portClose => exact (port_nextOpenMs w.stream 0).1
  | portRead => exact (port_nextOpenMs w.stream 0).2.1
  | portWrite byte => exact (port_nextOpenMs w.stream byte).2.2
  | ingest message random => exact ingest_nextOpenMs w.stream message w.nowMs random
  | transportStopped => exact transportStopped_nextOpenMs w.stream
  | prepare => exact absurd rfl other
  | complete error => exact absurd rfl (other' error)

theorem apply_rest {e : Happening} (other : e ≠ .prepare) (other' : ∀ error, e ≠ .complete error) :
    (w.apply e).underWay = w.underWay ∧ w.time ≤ (w.apply e).time ∧ (w.apply e).asked = w.asked ∧
      (w.apply e).sent = w.sent := by
  cases e with
  | wait ms => exact ⟨rfl, Nat.le_add_right _ _, rfl, rfl⟩
  | prepare => exact absurd rfl other
  | complete error => exact absurd rfl (other' error)
  | _ => exact ⟨rfl, le_rfl, rfl, rfl⟩

theorem Inv.other (h : w.Inv) {e : Happening} (other : e ≠ .prepare) (other' : ∀ error, e ≠ .complete error)
    (careful : w.asks e = true → w.opening = false) : (w.step e).Inv := by
  obtain ⟨underWay, later, asked, sent⟩ := apply_rest (w := w) other other'
  have opening : (w.apply e).opening = w.opening := by
    unfold Clocked.opening
    rw [underWay]
  have next := apply_nextOpenMs (w := w) other other'
  unfold step
  by_cases asks : w.asks e = true
  · rw [if_pos asks] at next ⊢
    refine ⟨fun _ => ⟨next, opening.trans (careful asks)⟩, nofun, fun action time there => ?_⟩
    rw [underWay] at there
    exact le_trans (h.underWay action time there) later
  · rw [if_neg asks] at next ⊢
    refine ⟨fun yes => ?_, fun time delay there => ?_, fun action time there => ?_⟩
    · rw [next, opening]
      exact h.asked (asked ▸ yes)
    · rw [next]
      rw [sent] at there
      obtain ⟨before, half, at_⟩ := h.sent time delay there
      exact ⟨le_trans before later, half, at_⟩
    · rw [underWay] at there
      exact le_trans (h.underWay action time there) later

theorem Inv.prepare (h : w.Inv) : (w.step .prepare).Inv := by
  have steps : w.step .prepare = w.apply .prepare := rfl
  rw [steps]
  unfold apply
  cases busy : w.underWay with
  | some call => exact h
  | none =>
    have next := streamPrepareAction_nextOpenMs w.stream w.nowMs
    refine ⟨nofun, fun time delay there => ?_, fun action time there => ?_⟩
    · simp only at there
      by_cases out : timedOut w.stream w.nowMs = true
      · rw [if_pos out] at there
        exact nomatch there
      · rw [if_neg out] at there next
        obtain ⟨before, half, at_⟩ := h.sent time delay there
        exact ⟨before, half, next.trans at_⟩
    · obtain ⟨prepared, -, same⟩ := Option.map_eq_some_iff.mp there
      exact le_of_eq (congrArg Prod.snd same).symm

theorem Inv.complete (h : w.Inv) (error : EspErr) (careful : w.Careful (.complete error)) : (w.step (.complete error)).Inv := by
  have steps : w.step (.complete error) = w.apply (.complete error) := rfl
  rw [steps]
  unfold apply
  cases call : w.underWay with
  | none => exact h
  | some call' =>
    obtain ⟨action, time⟩ := call'
    have next := processComplete_nextOpenMs w.stream action error (reading time)
    simp only
    by_cases opens : (w.stream.active && w.stream.generation = action.generation && error = .ok &&
        action.opcode = .OPEN : Bool) = true
    · rw [if_pos opens] at next ⊢
      have kind : action.opcode = .OPEN := by
        rw [Bool.and_eq_true] at opens
        exact of_decide_eq_true opens.2
      have opening : w.opening = true := by
        unfold Clocked.opening
        rw [call]
        simp [kind]
      refine ⟨fun yes => ?_, fun time' delay there => ?_, nofun⟩
      · exact nomatch (h.asked yes).2.symm.trans opening
      · cases there
        exact ⟨h.underWay action _ call, careful action _ call kind, next.trans (reading_delay _ _)⟩
    · rw [if_neg opens] at next ⊢
      refine ⟨fun yes => ⟨next.trans (h.asked yes).1, rfl⟩, fun time' delay there => ?_, nofun⟩
      obtain ⟨before, half, at_⟩ := h.sent time' delay there
      exact ⟨before, half, next.trans at_⟩

theorem Inv.step (h : w.Inv) (e : Happening) (careful : w.Careful e) : (w.step e).Inv := by
  cases e with
  | prepare => exact h.prepare
  | complete error => exact h.complete error careful
  | wait ms | portOpen random | portClose | portRead | portWrite byte | ingest message random
  | transportStopped => exact h.other nofun nofun careful

theorem start_inv : (start stream).Inv := ⟨nofun, nofun, nofun⟩

def Opens (w : Clocked) : Prop :=
  ∃ action, (streamPrepareAction w.stream w.nowMs).2 = some action ∧ action.opcode = .OPEN ∧
    action.session = w.stream.localSession

theorem Inv.opens (h : w.Inv) (careful : w.Careful .prepare) (open_ : w.stream.portOpen = true)
    (closed : w.stream.closePending = false) :
    (w.asked = true ∨ timedOut w.stream w.nowMs = true → (w.Opens ↔ w.nowMs.toNat < 2 ^ 31)) ∧
      ∀ time delay, timedOut w.stream w.nowMs = false → w.sent = some (time, delay) →
        (w.Opens ↔ time + delay.toNat ≤ w.time) := by
  have opens := @prepares_open_iff w.stream w.nowMs open_ closed
  constructor
  · intro asked
    have zero : (if timedOut w.stream w.nowMs then 0 else w.stream.nextOpenMs) = 0 := by
      rcases asked with asked | out
      · rw [(h.asked asked).1, ite_self]
      · rw [if_pos out]
    rw [zero, reached_zero] at opens
    exact opens
  · intro time delay stays sent
    obtain ⟨before, half, next⟩ := h.sent time delay sent
    have late := careful time delay sent
    rw [stays, if_neg Bool.false_ne_true, next] at opens
    refine opens.trans ⟨fun yes => ?_, fun past => ?_⟩
    · by_contra early
      rw [nowMs, reached_of_lt (Nat.lt_of_not_le early) (by omega)] at yes
      exact nomatch yes
    · exact reached_of_le past (by omega)

end Clocked

open Clocked

/-- In every run without a request during an OPEN on its way, an OPEN that was asked for is
prepared by the next call exactly in the first half of the clock's period, and otherwise
exactly when the delay after the last OPEN has passed. -/
theorem open_in_time_iff (stream : Stream) (events : List Happening)
    (careful : Machine.Admits step Careful (start stream) (events ++ [.prepare]))
    (open_ : (run step (start stream) events).stream.portOpen = true)
    (closed : (run step (start stream) events).stream.closePending = false) :
    ((run step (start stream) events).asked = true ∨
        timedOut (run step (start stream) events).stream (run step (start stream) events).nowMs = true →
      ((run step (start stream) events).Opens ↔
        (run step (start stream) events).nowMs.toNat < 2 ^ 31)) ∧ ∀ time delay,
      timedOut (run step (start stream) events).stream (run step (start stream) events).nowMs = false →
      (run step (start stream) events).sent = some (time, delay) →
      ((run step (start stream) events).Opens ↔
        time + delay.toNat ≤ (run step (start stream) events).time) := by
  obtain ⟨before, last, -⟩ := admits_append.mp careful
  have inv : Inv (run step (start stream) events) :=
    run_induct (P := Inv) (fun _ e inv careful => Inv.step inv e careful) (start_inv stream) before
  exact inv.opens last open_ closed

def openEvents : List Happening := [.wait 1000, .portOpen 7, .prepare, .complete .ok, .wait 16000]

theorem open_in_time_sample : (run step (start (create 1 2 configDefault 226)) openEvents).Opens ↔
      1000 + configDefault.retryMs.toNat ≤ (run step (start (create 1 2 configDefault 226)) openEvents).time :=
  (open_in_time_iff (create 1 2 configDefault 226) openEvents
    ⟨fun _ => rfl, fun _ => rfl, nofun, fun action time h opens => by cases h; decide, fun _ => rfl,
      fun time delay h => by cases h; decide, trivial⟩
    (by decide) (by decide)).2 1000 configDefault.retryMs (by decide) (by decide)

/-- After 2 ^ 31 milliseconds no OPEN is prepared for a port that was just opened. -/
theorem no_open_after_half :
    (run step (start (create 1 2 configDefault 226)) [.wait (2 ^ 31), .portOpen 7]).asked = true ∧
      (run step (start (create 1 2 configDefault 226)) [.wait (2 ^ 31), .portOpen 7]).stream.portOpen = true ∧
      ¬(run step (start (create 1 2 configDefault 226)) [.wait (2 ^ 31), .portOpen 7]).Opens := by
  refine ⟨by decide, by decide, ?_⟩
  rintro ⟨action, prepared, -⟩
  have none : (streamPrepareAction (run step (start (create 1 2 configDefault 226))
      [.wait (2 ^ 31), .portOpen 7]).stream (run step (start (create 1 2 configDefault 226))
      [.wait (2 ^ 31), .portOpen 7]).nowMs).2 = none := by decide
  exact nomatch none.symm.trans prepared

end SolarOs.LinkStream
