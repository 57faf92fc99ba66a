import SolarOs.Esp
import SolarOs.Library.Program

/-! Frames sent over ESP-NOW: the sends, the driver's callback, the results, the sleep and
the link job that waits for them. -/
namespace SolarOs.EspNow
open Program

def txQueueDepth : Nat := 2
def frameMtu : Nat := 250
def broadcast : UInt32 := 0xFFFFFFFF
def linkSendTimeoutMs : UInt32 := 3000

/-- A frame that the driver has accepted; it has an outcome once the callback has reported
it or the driver has been stopped. -/
structure Send where
  frame : Nat
  outcome : Option Bool
  deriving DecidableEq

/-- What `solar_os_link_decode` makes of a frame: an error, or the destination. -/
abbrev Decoded := Except { error : EspErr // error ≠ .ok } UInt32

structure LinkFrame where
  id : Nat
  length : Nat
  decoded : Decoded

structure Pending where
  send : Bool
  reported : Bool
  sinceMs : UInt32
  frame : Nat

structure World where
  running : Bool
  suspended : Bool
  sendInflight : Bool
  callbacksActive : Bool
  driverUp : Bool
  txQueue : List Bool
  /-- The frames that the driver has accepted since the start. -/
  sends : List Send
  /-- The results that were taken since the start. -/
  results : List Bool
  /-- A send has begun whose result has not been taken. -/
  unanswered : Bool
  /-- The link job is in a round of its loop. -/
  inRound : Bool
  pending : Pending
  /-- What the link job has noted of every frame it has taken. -/
  notes : List (List EspErr)

structure Env where
  nowMs : UInt32
  known : Bool
  error : EspErr
  frame : Option (Nat × Decoded)

/-- The critical sections, the driver's functions and the link job's steps. -/
inductive Op : Type → Type
  | findPeer : Op Bool
  | beginSend : Op Bool
  | espNowSend (frame : Nat) : Op EspErr
  | failSend : Op Unit
  | readQueue : Op Bool
  | receive : Op (Option Bool)
  | clearInflight : Op Unit
  | report (send : Nat) (success : Bool) : Op Bool
  | overflow : Op Unit
  | suspend : Op (Option Bool)
  | silence (seen : Bool) : Op Unit
  | deinit : Op EspErr
  | pushFailed : Op Unit
  | readSuspended : Op Bool
  | reapplyProtocol : Op EspErr
  | initDriver : Op EspErr
  | registerPeers : Op EspErr
  | activate : Op Unit
  | abort : Op Unit
  | finishResume (error : EspErr) : Op Unit
  | beginRound : Op UInt32
  | endRound : Op Unit
  | pending : Op Pending
  | setPending (pending : Pending) : Op Unit
  | takeTx : Op (Option LinkFrame)
  | note (frame : Nat) (result : EspErr) : Op Unit

def giveUp (s : Send) : Send := { s with outcome := some (s.outcome.getD false) }

def World.awaits (w : World) (send : Nat) : Prop :=
  ∃ s, w.sends[send]? = some s ∧ s.outcome = none

instance (w : World) (send : Nat) : Decidable (w.awaits send) :=
  match h : w.sends[send]? with
  | none => .isFalse fun ⟨_, hs, _⟩ => by rw [h] at hs; cases hs
  | some s =>
    decidable_of_iff (s.outcome = none)
      ⟨fun hs => ⟨s, h, hs⟩, fun ⟨t, ht, hs⟩ => by rw [h] at ht; cases ht; exact hs⟩

/-- `espnow_send_callback` up to the queue: whether there was no room. -/
def World.report (w : World) (send : Nat) (success : Bool) : World × Bool :=
  let w := { w with sends := w.sends.modify send fun s => { s with outcome := some success } }
  if w.callbacksActive then
    if w.txQueue.length < txQueueDepth then ({ w with txQueue := w.txQueue ++ [success] }, false)
    else (w, true)
  else (w, false)

def act {α : Type} : Op α → World → Env → World × α
  | .findPeer, w, e => (w, e.known)
  | .beginSend, w, _ =>
    if !w.running || w.suspended || w.sendInflight then (w, false)
    else ({ w with sendInflight := true, unanswered := true }, true)
  | .espNowSend frame, w, e =>
    if w.driverUp then
      if e.error = .ok then ({ w with sends := w.sends ++ [⟨frame, none⟩] }, .ok) else (w, e.error)
    else (w, if e.error = .ok then .fail else e.error)
  | .failSend, w, _ => ({ w with sendInflight := false, unanswered := false }, ())
  | .readQueue, w, _ => (w, w.running)
  | .receive, w, _ =>
    match w.txQueue with
    | [] => (w, none)
    | success :: rest =>
      ({ w with txQueue := rest, results := w.results ++ [success] }, some success)
  | .clearInflight, w, _ => ({ w with sendInflight := false, unanswered := false }, ())
  | .report send success, w, _ => w.report send success
  | .overflow, w, _ => ({ w with sendInflight := false }, ())
  | .suspend, w, _ =>
    if !w.running || w.suspended then (w, none)
    else ({ w with suspended := true, sendInflight := false }, some w.sendInflight)
  | .silence _, w, _ => ({ w with callbacksActive := false, sends := w.sends.map giveUp }, ())
  | .deinit, w, e => ({ w with driverUp := false, sends := w.sends.map giveUp }, e.error)
  | .pushFailed, w, _ =>
    (if w.txQueue.length < txQueueDepth then { w with txQueue := w.txQueue ++ [false] } else w, ())
  | .readSuspended, w, _ => (w, w.running && w.suspended)
  | .reapplyProtocol, w, e => (w, e.error)
  | .initDriver, w, e => (if e.error = .ok then { w with driverUp := true } else w, e.error)
  | .registerPeers, w, e => (w, e.error)
  | .activate, w, _ => ({ w with callbacksActive := true }, ())
  | .abort, w, _ =>
    ({ w with callbacksActive := false, driverUp := false, sends := w.sends.map giveUp }, ())
  | .finishResume error, w, _ => (if error = .ok then { w with suspended := false } else w, ())
  | .beginRound, w, e => ({ w with inRound := true }, e.nowMs)
  | .endRound, w, _ => ({ w with inRound := false }, ())
  | .pending, w, _ => (w, w.pending)
  | .setPending pending, w, _ => ({ w with pending }, ())
  | .takeTx, w, e =>
    match e.frame with
    | none => (w, none)
    | some (length, decoded) =>
      ({ w with notes := w.notes ++ [[]] }, some ⟨w.notes.length, length, decoded⟩)
  | .note frame result, w, _ => ({ w with notes := w.notes.modify frame (· ++ [result]) }, ())

def enabled {α : Type} : Op α → World → Prop
  | .report send _, w => w.awaits send
  | .beginRound, w => w.inRound = false
  | _, _ => True

instance {α : Type} (op : Op α) (w : World) : Decidable (enabled op w) := by
  cases op <;> unfold enabled <;> infer_instance

def send (destination : UInt32) (length frame : Nat) : Program Op EspErr := do
  if length = 0 ∨ length > frameMtu ∨ destination = 0 then return .invalidArg
  else
    let known ← if destination = broadcast then pure true else invoke .findPeer
    if known then
      let begun ← invoke .beginSend
      if begun then
        let error ← invoke (.espNowSend frame)
        if error ≠ .ok then
          invoke .failSend
          return error
        else return .ok
      else return .invalidState
    else return .notFound

def takeSendResult : Program Op (Except EspErr Bool) := do
  let running ← invoke .readQueue
  if running then
    let event ← invoke .receive
    match event with
    | none => return .error .timeout
    | some success =>
      invoke .clearInflight
      return .ok success
  else return .error .invalidState

/-- The driver's callback for one send, `espnow_send_callback`. -/
def sendCallback (send : Nat) (success : Bool) : Program Op Unit := do
  let full ← invoke (.report send success)
  if full then invoke .overflow else return ()

/-- `solar_os_espnow_prepare_sleep`; the driver is stopped by switching its callbacks off
and then shutting it down. -/
def prepareSleep : Program Op EspErr := do
  let inflight ← invoke .suspend
  match inflight with
  | none => return .ok
  | some seen =>
    invoke (.silence seen)
    let error ← invoke .deinit
    if seen then invoke .pushFailed else pure ()
    return error

def driverStart : Program Op EspErr := do
  let error ← invoke .initDriver
  if error ≠ .ok then return error
  else
    let error ← invoke .registerPeers
    if error ≠ .ok then
      invoke .abort
      return error
    else
      invoke .activate
      return .ok

def resume : Program Op EspErr := do
  let suspended ← invoke .readSuspended
  if suspended then
    let protocol ← invoke .reapplyProtocol
    let error ← if protocol = .ok then driverStart else pure protocol
    invoke (.finishResume error)
    return error
  else return .ok

def processPendingSend (nowMs : UInt32) : Program Op Unit := do
  let p ← invoke .pending
  if p.send then
    let take ← takeSendResult
    match take with
    | .ok success =>
      if !p.reported then invoke (.note p.frame (if success then .ok else .fail)) else pure ()
      invoke (.setPending { p with send := false, reported := false })
    | .error error =>
      if error ≠ .timeout then
        if !p.reported then invoke (.note p.frame error) else pure ()
        invoke (.setPending { p with send := false, reported := false })
      else if !p.reported ∧ nowMs - p.sinceMs ≥ linkSendTimeoutMs then
        invoke (.note p.frame .timeout)
        invoke (.setPending { p with reported := true })
      else return ()
  else return ()

def startNextSend (nowMs : UInt32) : Program Op Unit := do
  let p ← invoke .pending
  if p.send then return ()
  else
    let taken ← invoke .takeTx
    match taken with
    | none => return ()
    | some frame =>
      let error ← match frame.decoded with
        | .ok destination => send destination frame.length frame.id
        | .error error => pure error.val
      if error ≠ .ok then invoke (.note frame.id error)
      else invoke (.setPending ⟨true, false, nowMs, frame.id⟩)

/-- The sending part of one round of `espnow_link_task`. -/
def round : Program Op Unit := do
  let nowMs ← invoke .beginRound
  processPendingSend nowMs
  startNextSend nowMs
  invoke .endRound

inductive Call where
  | send (destination : UInt32) (length frame : Nat)
  | takeSendResult
  | callback (send : Nat) (success : Bool)
  | prepareSleep
  | resume

def body : Call → Program Op Unit
  | .send destination length frame => do
    let _ ← send destination length frame
    return ()
  | .takeSendResult => do
    let _ ← takeSendResult
    return ()
  | .callback send success => sendCallback send success
  | .prepareSleep => do
    let _ ← prepareSleep
    return ()
  | .resume => do
    let _ ← resume
    return ()

inductive LinkCall where
  | round
  | callback (send : Nat) (success : Bool)
  | prepareSleep
  | resume

def linkBody : LinkCall → Program Op Unit
  | .round => round
  | .callback send success => body (.callback send success)
  | .prepareSleep => body .prepareSleep
  | .resume => body .resume

abbrev Calls := Pool Op World Unit

/-- The service after its start. -/
def started : Calls where
  state :=
    { running := true
      suspended := false
      sendInflight := false
      callbacksActive := true
      driverUp := true
      txQueue := []
      sends := []
      results := []
      unanswered := false
      inRound := false
      pending := ⟨false, false, 0, 0⟩
      notes := [] }
  threads := []

end SolarOs.EspNow
