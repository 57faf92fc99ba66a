import Mathlib.Data.List.Basic
import SolarOs.Esp
import SolarOs.Library.CString
import SolarOs.Library.Wrapping
import Mathlib.Logic.Function.Basic

/-! What a consumer of key events may see of one key: whole strokes, and perhaps the
beginning of another one. -/
namespace SolarOs.Input

inductive KeyAction where
  | press
  | release
  | again
  deriving DecidableEq, Repr

/-- One after another, a key goes down, perhaps repeats, and comes up. -/
inductive Strokes : List KeyAction → Prop where
  | nil : Strokes []
  | stroke (repeats : Nat) {rest : List KeyAction} (h : Strokes rest) :
      Strokes (.press :: (List.replicate repeats .again ++ .release :: rest))

def follow : Bool → KeyAction → Option Bool
  | false, .press => some true
  | true, .again => some true
  | true, .release => some false
  | _, _ => none

def position : Bool → List KeyAction → Option Bool
  | down, [] => some down
  | down, action :: actions => (follow down action).bind fun down => position down actions

theorem position_append (down : Bool) (first second : List KeyAction) :
    position down (first ++ second) = (position down first).bind fun down => position down second := by
  induction first generalizing down with
  | nil => rfl
  | cons action first ih =>
    show (follow down action).bind _ = ((follow down action).bind _).bind _
    cases follow down action with
    | none => rfl
    | some down => exact ih down

theorem position_completes (actions : List KeyAction) :
    (∀ down, position false actions = some down → ∃ full, Strokes full ∧ actions <+: full) ∧
      ∀ down, position true actions = some down →
        ∃ repeats full, Strokes full ∧ actions <+: List.replicate repeats .again ++ .release :: full := by
  induction actions with
  | nil => exact ⟨fun _ _ => ⟨[], .nil, List.nil_prefix⟩, fun _ _ => ⟨0, [], .nil, List.nil_prefix⟩⟩
  | cons action actions ih =>
    refine ⟨fun down h => ?_, fun down h => ?_⟩
    · cases action with
      | press =>
        obtain ⟨repeats, full, strokes, continues⟩ := ih.2 down h
        exact ⟨_, .stroke repeats strokes, List.cons_prefix_cons.mpr ⟨rfl, continues⟩⟩
      | release => cases h
      | again => cases h
    · cases action with
      | press => cases h
      | release =>
        obtain ⟨full, strokes, continues⟩ := ih.1 down h
        exact ⟨0, full, strokes, List.cons_prefix_cons.mpr ⟨rfl, continues⟩⟩
      | again =>
        obtain ⟨repeats, full, strokes, continues⟩ := ih.2 down h
        exact ⟨repeats + 1, full, strokes, List.cons_prefix_cons.mpr ⟨rfl, continues⟩⟩

theorem position_last {actions : List KeyAction} {down : Bool} (h : position false actions = some down) :
    down = true ↔ ∃ action, actions.getLast? = some action ∧ action ≠ .release := by
  cases hlast : actions.getLast? with
  | none =>
    rw [List.getLast?_eq_none_iff.mp hlast] at h
    cases h
    simp
  | some action =>
    obtain ⟨before, rfl⟩ := List.getLast?_eq_some_iff.mp hlast
    rw [position_append] at h
    obtain ⟨was, -, last⟩ := Option.bind_eq_some_iff.mp h
    have alone : follow was action = some down := by
      have one : (follow was action).bind some = some down := last
      rwa [Option.bind_fun_some] at one
    have fits : down = true ↔ action ≠ .release := by
      cases was <;> cases action <;> cases alone <;> decide
    rw [fits]
    simp

/-! The key side of the input service: its sources, the keys that are held down, the
repeat generator and the queue of key events. -/

def sourceMax : Nat := 8
def sourceNameMax : Nat := 16
def sourceClassCount : Nat := 7
def queueMax : Nat := 64
def maxPressedKeys : Nat := 24
def physicalNone : Nat := 0
def capKeyEvents : Nat := 0x01
def capPointerAbsolute : Nat := 0x02
def capPointerRelative : Nat := 0x04
def capAxisEvents : Nat := 0x20
def modLeftAlt : Nat := 0x04
def modRightAlt : Nat := 0x40
def modAlt : Nat := modLeftAlt ||| modRightAlt
def keyEnter : Nat := 0x0A
def keyTab : Nat := 0x09
def keyReturn : Nat := 0x0D
def keyAppExit : Nat := 0x92
def keyAltPrefix : Nat := 0x93
def keyAudioMuteToggle : Nat := 0xAD

structure KeyEvent where
  source : Nat
  physicalKey : Nat
  usage : Nat
  key : Nat
  modifiers : Nat
  action : KeyAction
  deriving DecidableEq, Repr

structure Source where
  sourceClass : Nat
  capabilities : Nat
  ready : Bool
  name : CString
  deriving DecidableEq

/-- `input_repeat_state_t` while it is active. -/
structure Repeating where
  source : Nat
  physicalKey : Nat
  nextMs : UInt32
  deriving DecidableEq

/-- The static variables of the service that key events depend on. Source `n` is in place
`n - 1`; whether the queues of pointer and axis events exist is kept as two flags. -/
structure State where
  sources : Nat → Option Source
  pressed : List (Option KeyEvent)
  queue : List KeyEvent
  repeating : Option Repeating
  repeatRateCps : Nat
  repeatDelayMs : Nat
  pointerQueue : Bool
  axisQueue : Bool

def start (repeatRateCps repeatDelayMs : Nat) : State where
  sources _ := none
  pressed := List.replicate maxPressedKeys none
  queue := []
  repeating := none
  repeatRateCps := repeatRateCps
  repeatDelayMs := repeatDelayMs
  pointerQueue := false
  axisQueue := false

variable (s : State)

/-- `input_source_valid_locked`. -/
def sourceValid (source : Nat) : Bool :=
  0 < source && source ≤ sourceMax && (s.sources (source - 1)).isSome

def keySource (source : Nat) : Bool :=
  sourceValid s source &&
    (s.sources (source - 1)).any fun slot => slot.capabilities &&& capKeyEvents ≠ 0

def KeyEvent.isFor (event : KeyEvent) (source physicalKey : Nat) : Bool :=
  event.source = source && event.physicalKey = physicalKey

/-- `input_find_pressed_locked`. -/
def findPressed (source physicalKey : Nat) : Option Nat :=
  s.pressed.findIdx? fun slot => slot.any fun event => event.isFor source physicalKey

/-- `input_alloc_pressed_locked`. -/
def allocPressed : Option Nat := s.pressed.findIdx? (·.isNone)

/-- `input_queue_push_locked`. -/
def queuePush (event : KeyEvent) : State × Bool :=
  if queueMax ≤ s.queue.length then (s, false)
  else ({ s with queue := s.queue ++ [event] }, true)

def keyRepeatable (key : Nat) : Bool :=
  key ≠ 0 && key ≠ keyEnter && key ≠ keyTab && key ≠ keyAppExit && key ≠ keyAudioMuteToggle &&
    key ≠ keyAltPrefix

def repeatIntervalMs (rateCps : Nat) : Nat := if rateCps = 0 then 0 else (1000 + rateCps - 1) / rateCps

variable (now : UInt32)

/-- `input_repeat_start_locked`. -/
def repeatStart (event : KeyEvent) : State :=
  if keyRepeatable event.key = false then
    if event.key ≠ 0 then { s with repeating := none } else s
  else if s.repeatRateCps = 0 then s
  else
    { s with
      repeating := some
        { source := event.source
          physicalKey := event.physicalKey
          nextMs := now + UInt32.ofNat s.repeatDelayMs } }

/-- `input_repeat_stop_locked`. -/
def repeatStop (source physicalKey : Nat) : State :=
  match s.repeating with
  | some active =>
    if active.source = source ∧ active.physicalKey = physicalKey then { s with repeating := none } else s
  | none => s

/-- `input_queue_repeat_if_due_locked`. -/
def queueRepeatIfDue : State :=
  match s.repeating with
  | none => s
  | some active =>
    if s.repeatRateCps = 0 ∨ WrapClock.reached now active.nextMs = false then s
    else
      match (findPressed s active.source active.physicalKey).bind fun i => s.pressed.getD i none with
      | none => { s with repeating := none }
      | some event =>
        let (pushed, done) := queuePush s { event with action := .again }
        if done then
          { pushed with
            repeating := some
              { active with nextMs := now + UInt32.ofNat (repeatIntervalMs s.repeatRateCps) } }
        else s

variable (name : CString)

section
variable (sourceClass capabilities : Nat)

def openArgsValid : Bool :=
  name.bytes ≠ [] && name.strlen < sourceNameMax && sourceClass < sourceClassCount && capabilities ≠ 0

/-- `input_source_open_locked`; the number of the source. -/
def sourceOpenLocked (ready : Bool) :
    State × Except EspErr Nat :=
  match (List.range sourceMax).find? fun i => (s.sources i).any fun slot => slot.name = name with
  | some i =>
    match s.sources i with
    | some slot =>
      if slot.sourceClass ≠ sourceClass ∨ slot.capabilities ≠ capabilities then (s, .error .invalidState)
      else ({ s with sources := Function.update s.sources i (some { slot with ready }) }, .ok (i + 1))
    | none => (s, .error .noMem)
  | none =>
    match (List.range sourceMax).find? fun i => (s.sources i).isNone with
    | some i =>
      ({ s with sources := Function.update s.sources i (some { sourceClass, capabilities, ready, name }) },
        .ok (i + 1))
    | none => (s, .error .noMem)

/-- `solar_os_input_source_open_typed`; `memory` tells whether the queues that are missing can
be allocated. -/
def sourceOpenTyped (ready memory : Bool) :
    State × Except EspErr Nat :=
  if openArgsValid name sourceClass capabilities then
    let needsPointerQueue : Bool := capabilities &&& (capPointerAbsolute ||| capPointerRelative) ≠ 0
    let needsAxisQueue : Bool := capabilities &&& capAxisEvents ≠ 0
    if ((!needsPointerQueue || s.pointerQueue) && (!needsAxisQueue || s.axisQueue)) || memory then
      match sourceOpenLocked s name sourceClass capabilities ready with
      | (opened, .ok source) =>
        ({ opened with
          pointerQueue := opened.pointerQueue || needsPointerQueue
          axisQueue := opened.axisQueue || needsAxisQueue }, .ok source)
      | refused => refused
    else (s, .error .noMem)
  else (s, .error .invalidArg)

end

def sourceOpen : State × Except EspErr Nat :=
  sourceOpenTyped s name 0 capKeyEvents true true

/-- One slot of the loop in `solar_os_input_source_release_all`. -/
def releaseSlot (source : Nat) (i : Nat) : State :=
  match s.pressed.getD i none with
  | some event =>
    if event.source = source then
      { (queuePush s { event with action := .release }).1 with pressed := s.pressed.set i none }
    else s
  | none => s

def sourceReleaseAll (source : Nat) : State :=
  if sourceValid s source then
    let released := (List.range maxPressedKeys).foldl (fun s i => releaseSlot s source i) s
    { released with repeating := released.repeating.filter fun active => active.source ≠ source }
  else s

def sourceClose (source : Nat) : State :=
  if sourceValid s source then
    let sources := Function.update s.sources (source - 1) none
    let others (capabilities : Nat) : Bool := (List.range sourceMax).any fun i =>
      (sources i).any fun slot => slot.capabilities &&& capabilities ≠ 0
    let had (capabilities : Nat) : Bool :=
      (s.sources (source - 1)).any fun slot => slot.capabilities &&& capabilities ≠ 0
    { s with
      sources
      queue := s.queue.filter fun event => event.source ≠ source
      pressed := s.pressed.map fun slot => slot.filter fun event => event.source ≠ source
      repeating := s.repeating.filter fun active => active.source ≠ source
      pointerQueue := s.pointerQueue && (!had (capPointerAbsolute ||| capPointerRelative) ||
        others (capPointerAbsolute ||| capPointerRelative))
      axisQueue := s.axisQueue && (!had capAxisEvents || others capAxisEvents) }
  else s

def writeKey (source physicalKey usage key modifiers : Nat) (action : KeyAction) :
    State × EspErr :=
  if physicalKey = physicalNone then (s, .invalidArg)
  else if keySource s source = false then (s, .invalidState)
  else
    match action with
    | .press =>
      match findPressed s source physicalKey with
      | some _ => (s, .ok)
      | none =>
        match allocPressed s with
        | none => (s, .noMem)
        | some i =>
          let event : KeyEvent := { source, physicalKey, usage, key, modifiers, action := .press }
          let (pushed, done) := queuePush { s with pressed := s.pressed.set i (some event) } event
          (repeatStart pushed now event, if done then .ok else .noMem)
    | .release =>
      match findPressed s source physicalKey with
      | none => (s, .ok)
      | some i =>
        match s.pressed.getD i none with
        | none => (s, .ok)
        | some event =>
          let freed := repeatStop { s with pressed := s.pressed.set i none } source physicalKey
          let (pushed, done) := queuePush freed { event with action := .release, modifiers }
          (pushed, if done then .ok else .noMem)
    | .again =>
      match (findPressed s source physicalKey).bind fun i => s.pressed.getD i none with
      | none => (s, .notFound)
      | some event =>
        let (pushed, done) := queuePush s { event with action := .again, modifiers }
        (pushed, if done then .ok else .noMem)

def writeChar (source key : Nat) : State × EspErr :=
  if keySource s source = false then (s, .invalidState)
  else if queueMax - 2 < s.queue.length then (s, .noMem)
  else
    let press : KeyEvent :=
      { source, physicalKey := physicalNone, usage := 0, key, modifiers := 0, action := .press }
    ((queuePush (queuePush s press).1 { press with action := .release }).1, .ok)

/-- `solar_os_input_read_events` with room for `eventCount` events. -/
def readEvents (eventCount : Nat) : State × List KeyEvent :=
  if eventCount = 0 then (s, [])
  else
    let s := queueRepeatIfDue s now
    ({ s with queue := s.queue.drop eventCount }, s.queue.take eventCount)

/-- What an event puts into a buffer of characters. -/
def eventChars (event : KeyEvent) : List Nat :=
  let emitsChar := (event.action = .press || event.action = .again) && event.key ≠ 0
  let tuiFullscreenAltgr :=
    event.modifiers &&& modRightAlt ≠ 0 && (event.key = keyEnter || event.key = keyReturn)
  let emitsAltPrefix := (event.modifiers &&& modAlt ≠ 0 && event.key = keyTab) ||
    (event.modifiers &&& modLeftAlt ≠ 0 && event.key ≠ keyAppExit) || tuiFullscreenAltgr
  if emitsChar then if emitsAltPrefix then [keyAltPrefix, event.key] else [event.key] else []

/-- The loop of `input_read_chars_for_source` with `room` characters left: the events that
are retained, and the characters. -/
def takeChars (selected : KeyEvent → Bool) : Nat → List KeyEvent → List KeyEvent × List Nat
  | _, [] => ([], [])
  | room, event :: events =>
    if !selected event || room < (eventChars event).length then
      let (retained, chars) := takeChars selected room events
      (event :: retained, chars)
    else
      let (retained, chars) := takeChars selected (room - (eventChars event).length) events
      (retained, eventChars event ++ chars)

/-- `input_read_chars_for_source`; no source means any source. -/
def readCharsForSource (source : Option Nat) (bufferLen : Nat) : State × List Nat :=
  if bufferLen = 0 then (s, [])
  else
    let s := queueRepeatIfDue s now
    let (retained, chars) := takeChars (fun event => source.all fun source => event.source = source)
      bufferLen s.queue
    ({ s with queue := retained }, chars)

end SolarOs.Input
