import Mathlib.Logic.Function.Basic
import SolarOs.Library.Machine
import SolarOs.LinkStream.Model
import SolarOs.LinkStream.Operations

/-! Two Link streams that are each other's peer, and the frames between them. A
channel loses frames and repeats the oldest one, and never reorders. -/
namespace SolarOs.LinkStream

inductive Side where
  | a
  | b
  deriving DecidableEq, Repr

def Side.other : Side → Side
  | .a => .b
  | .b => .a

@[simp] theorem Side.other_other (x : Side) : x.other.other = x := by cases x <;> rfl

@[simp] theorem Side.other_ne (x : Side) : x.other ≠ x := by cases x <;> decide

@[simp] theorem Side.ne_other (x : Side) : x ≠ x.other := by cases x <;> decide

theorem Side.eq_or_other (x z : Side) : x = z ∨ x = z.other := by
  cases x <;> cases z <;> simp [Side.other]

instance {p : Side → Prop} [DecidablePred p] : Decidable (∀ x, p x) :=
  decidable_of_iff (p .a ∧ p .b)
    ⟨fun h x => match x with
      | .a => h.1
      | .b => h.2, fun h => ⟨h .a, h .b⟩⟩

/-- Where the call of `solar_os_link_stream_process` that is under way stands. -/
inductive Phase where
  | idle
  | prepared (action : Action) (nowMs : UInt32)
  | sent (action : Action) (nowMs : UInt32) (error : EspErr)
  deriving DecidableEq, Repr

/-- A stream, its processing job, and the frames it sent, oldest first. -/
structure Endpoint where
  stream : Stream
  phase : Phase
  pipe : List Action
  deriving DecidableEq, Repr

structure System where
  endpoint : Side → Endpoint
  drawn : List UInt32

/-- What happens on one side. `deliver` is `solar_os_link_stream_ingest`, on the other
side, of the oldest frame of a pipe, which stays there to be delivered again. -/
inductive Event where
  | portOpen (x : Side) (random : UInt32)
  | portClose (x : Side)
  | portRead (x : Side)
  | portWrite (x : Side) (byte : UInt8)
  | prepare (x : Side) (nowMs : UInt32)
  | send (x : Side) (error : EspErr)
  | complete (x : Side)
  | deliver (x : Side) (linkSequence : UInt16) (nowMs random : UInt32)
  | discard (x : Side)
  | transportStopped (x : Side)
  deriving DecidableEq, Repr

namespace System

section
variable (σ : System)

def stream (x : Side) : Stream := (σ.endpoint x).stream

def setEndpoint (x : Side) (e : Endpoint) : System :=
  { σ with endpoint := Function.update σ.endpoint x e }

def setStream (x : Side) (stream : Stream) : System :=
  σ.setEndpoint x { σ.endpoint x with stream }

/-- The frame at the head of a pipe, as the message the other side's link reads.
The link of a side is the one its peer is configured for. -/
def headMessage? (x : Side) (linkSequence : UInt16) : Option Link.Message :=
  (σ.endpoint x).pipe.head?.map (actionMessage (σ.stream x.other).peerId linkSequence)

/-- The session number an event draws. -/
def draws : Event → Option UInt32
  | .portOpen x random =>
    if (σ.stream x).active && !(σ.stream x).portOpen then some (streamNewSession random) else none
  | .deliver x linkSequence _ random =>
    match σ.headMessage? x linkSequence with
    | some message =>
      if ingestDraws (σ.stream x.other) message then some (streamNewSession random) else none
    | none => none
  | _ => none

def adoption : Event → Option (Side × UInt32)
  | .deliver x linkSequence _ _ =>
    (σ.headMessage? x linkSequence).bind fun message =>
      (ingestAdopts (σ.stream x.other) message).map fun session => (x.other, session)
  | _ => none

/-- The change an event makes to the endpoints. -/
def apply : Event → System
  | .portOpen x random => σ.setStream x (streamPortOpen (σ.stream x) random).1
  | .portClose x => σ.setStream x (streamPortClose (σ.stream x)).1
  | .portRead x => σ.setStream x (streamPortReadByte (σ.stream x)).1
  | .portWrite x byte => σ.setStream x (streamPortWriteByte (σ.stream x) byte).1
  | .prepare x nowMs =>
    match (σ.endpoint x).phase with
    | .idle =>
      match streamPrepareAction (σ.stream x) nowMs with
      | (stream, some action) =>
        σ.setEndpoint x { σ.endpoint x with stream, phase := .prepared action nowMs }
      | (stream, none) => σ.setStream x stream
    | _ => σ
  | .send x error =>
    match (σ.endpoint x).phase with
    | .prepared action nowMs =>
      σ.setEndpoint x { σ.endpoint x with
        phase := .sent action nowMs error
        pipe := if error = .ok then (σ.endpoint x).pipe ++ [action] else (σ.endpoint x).pipe }
    | _ => σ
  | .complete x =>
    match (σ.endpoint x).phase with
    | .sent action nowMs error =>
      σ.setEndpoint x { σ.endpoint x with
        stream := processComplete (σ.stream x) action error nowMs
        phase := .idle }
    | _ => σ
  | .deliver x linkSequence nowMs random =>
    match σ.headMessage? x linkSequence with
    | some message => σ.setStream x.other (ingest (σ.stream x.other) message nowMs random).1
    | none => σ
  | .discard x => σ.setEndpoint x { σ.endpoint x with pipe := (σ.endpoint x).pipe.tail }
  | .transportStopped x => σ.setStream x (transportStopped (σ.stream x))

def step (e : Event) : System :=
  { σ.apply e with drawn := (σ.draws e).toList ++ σ.drawn }

def Fresh (e : Event) : Prop := ∀ s, σ.draws e = some s → s ∉ σ.drawn

end

instance (σ : System) (e : Event) : Decidable (σ.Fresh e) :=
  match h : σ.draws e with
  | none => .isTrue fun s hs => by rw [h] at hs; cases hs
  | some s => decidable_of_iff (s ∉ σ.drawn)
      ⟨fun hs s' hs' => by rw [h] at hs'; exact Option.some.inj hs' ▸ hs, fun hf => hf s h⟩

abbrev run (σ : System) (events : List Event) : System := Machine.run step σ events

structure Setup where
  generation : Side → UInt32
  peerId : Side → UInt32
  config : Side → Config
  dataMtu : Side → Nat

def start (setup : Setup) : System where
  endpoint := fun x => {
    stream := create (setup.generation x) (setup.peerId x) (setup.config x) (setup.dataMtu x)
    phase := .idle
    pipe := [] }
  drawn := []

def Admissible (setup : Setup) (events : List Event) : Prop :=
  Machine.Admits step Fresh (start setup) events

instance (setup : Setup) (events : List Event) : Decidable (Admissible setup events) :=
  inferInstanceAs (Decidable (Machine.Admits step Fresh (start setup) events))

def Reachable (setup : Setup) (σ : System) : Prop :=
  ∃ events, Admissible setup events ∧ run (start setup) events = σ

/-- Two default streams configured for each other. -/
def pairSetup : Setup where
  generation := fun _ => 1
  peerId := fun
    | .a => 2
    | .b => 1
  config := fun _ => configDefault
  dataMtu := fun _ => 226

/-- A whole call of `solar_os_link_stream_process` whose frame the link takes. -/
def process (x : Side) (nowMs : UInt32) : List Event := [.prepare x nowMs, .send x .ok, .complete x]

/-- A call of `solar_os_link_stream_process` whose frame is ingested a moment later. -/
def relay (x : Side) (nowMs random : UInt32) : List Event :=
  process x nowMs ++ [.deliver x 0 (nowMs + 1) random, .discard x]

def firstByte : List Event :=
  [.portOpen .a 11, .portOpen .b 22, .portWrite .a 65] ++ relay .a 1000 0 ++ relay .b 1002 0 ++
    relay .a 1004 0 ++ relay .a 1006 0

end System

def Phase.unsent : Phase → List Action
  | .prepared action _ => [action]
  | _ => []

def Endpoint.inFlight (e : Endpoint) : List Action := e.pipe ++ e.phase.unsent

namespace System
variable {σ : System} {x z : Side}

section
variable (σ : System)

def inFlight (x : Side) : List Action := (σ.endpoint x).inFlight

def put (z : Side) (e : Endpoint) (drawn : List UInt32) : System :=
  { σ.setEndpoint z e with drawn }

@[simp] theorem put_drawn (z : Side) (e : Endpoint) (drawn : List UInt32) :
    (σ.put z e drawn).drawn = drawn := rfl

@[simp] theorem endpoint_put_self (z : Side) (e : Endpoint) (drawn : List UInt32) :
    (σ.put z e drawn).endpoint z = e := by
  simp [put, setEndpoint]

variable (e : Endpoint)

variable (drawn : List UInt32)

theorem endpoint_put_of_ne (h : x ≠ z) : (σ.put z e drawn).endpoint x = σ.endpoint x := by
  simp [put, setEndpoint, h]

@[simp] theorem stream_put_self (z : Side) (e : Endpoint) (drawn : List UInt32) :
    (σ.put z e drawn).stream z = e.stream := by
  simp [stream]

theorem stream_put_of_ne (h : x ≠ z) : (σ.put z e drawn).stream x = σ.stream x := by
  simp [stream, endpoint_put_of_ne σ e drawn h]

@[simp] theorem inFlight_put_self (z : Side) (e : Endpoint) (drawn : List UInt32) :
    (σ.put z e drawn).inFlight z = e.inFlight := by
  simp [inFlight]

theorem inFlight_put_of_ne (h : x ≠ z) : (σ.put z e drawn).inFlight x = σ.inFlight x := by
  simp [inFlight, endpoint_put_of_ne σ e drawn h]

/-- An endpoint whose stream changed, its processing and its pipe as they were. -/
abbrev withStream (z : Side) (stream : Stream) : Endpoint :=
  { σ.endpoint z with stream }

/-- An endpoint that has just prepared an action, or none. -/
def preparing (nowMs : UInt32) : Endpoint :=
  { e with
    stream := (streamPrepareAction e.stream nowMs).1
    phase :=
      match (streamPrepareAction e.stream nowMs).2 with
      | some action => .prepared action nowMs
      | none => .idle }

def sending (action : Action) (nowMs : UInt32) (error : EspErr) : Endpoint :=
  { e with
    phase := .sent action nowMs error
    pipe := if error = .ok then e.pipe ++ [action] else e.pipe }

def completing (action : Action) (nowMs : UInt32) (error : EspErr) : Endpoint :=
  { e with stream := processComplete e.stream action error nowMs, phase := .idle }

def discarding : Endpoint := { e with pipe := e.pipe.tail }

/-- The message a frame of side `z` is on the other side's link. -/
def messageFrom (z : Side) (linkSequence : UInt16) (frame : Action) : Link.Message :=
  actionMessage (σ.stream z.other).peerId linkSequence frame

end

/-- What an event can do. -/
inductive Moves (σ : System) : Event → System → Prop
  | blocked {e} : Moves σ e σ
  | portOpen z random : Moves σ (.portOpen z random)
      (σ.put z (σ.withStream z (streamPortOpen (σ.stream z) random).1)
        ((if (σ.stream z).active && !(σ.stream z).portOpen then [streamNewSession random] else []) ++
          σ.drawn))
  | portClose z : Moves σ (.portClose z)
      (σ.put z (σ.withStream z (streamPortClose (σ.stream z)).1) σ.drawn)
  | portRead z : Moves σ (.portRead z)
      (σ.put z (σ.withStream z (streamPortReadByte (σ.stream z)).1) σ.drawn)
  | portWrite z byte : Moves σ (.portWrite z byte)
      (σ.put z (σ.withStream z (streamPortWriteByte (σ.stream z) byte).1) σ.drawn)
  | prepare z nowMs : (σ.endpoint z).phase = .idle → Moves σ (.prepare z nowMs)
      (σ.put z (preparing (σ.endpoint z) nowMs) σ.drawn)
  | send z action nowMs error : (σ.endpoint z).phase = .prepared action nowMs →
      Moves σ (.send z error) (σ.put z (sending (σ.endpoint z) action nowMs error) σ.drawn)
  | complete z action nowMs error : (σ.endpoint z).phase = .sent action nowMs error →
      Moves σ (.complete z) (σ.put z (completing (σ.endpoint z) action nowMs error) σ.drawn)
  | deliver z linkSequence nowMs random {frame rest} : (σ.endpoint z).pipe = frame :: rest →
      Moves σ (.deliver z linkSequence nowMs random)
        (σ.put z.other
          (σ.withStream z.other
            (ingest (σ.stream z.other) (σ.messageFrom z linkSequence frame) nowMs random).1)
          ((if ingestDraws (σ.stream z.other) (σ.messageFrom z linkSequence frame) then
            [streamNewSession random] else []) ++ σ.drawn))
  | discard z : Moves σ (.discard z) (σ.put z (discarding (σ.endpoint z)) σ.drawn)
  | transportStopped z : Moves σ (.transportStopped z)
      (σ.put z (σ.withStream z (SolarOs.LinkStream.transportStopped (σ.stream z))) σ.drawn)

variable {rest : List Action}

theorem headMessage?_of_pipe (linkSequence : UInt16) {frame : Action} (h : (σ.endpoint z).pipe = frame :: rest) :
    σ.headMessage? z linkSequence = some (σ.messageFrom z linkSequence frame) := by
  simp [headMessage?, h, messageFrom]

theorem Fresh.deliver {linkSequence : UInt16} {nowMs random : UInt32} {frame : Action}
    (h : σ.Fresh (.deliver z linkSequence nowMs random)) (hpipe : (σ.endpoint z).pipe = frame :: rest)
    (hdraws : ingestDraws (σ.stream z.other) (σ.messageFrom z linkSequence frame) = true) :
    streamNewSession random ∉ σ.drawn := by
  refine h _ ?_
  simp only [draws, headMessage?_of_pipe linkSequence hpipe]
  exact if_pos hdraws

theorem step_moves (σ : System) (e : Event) : Moves σ e (σ.step e) := by
  cases e with
  | portOpen z random =>
      have hdraws : (σ.draws (.portOpen z random)).toList =
          if (σ.stream z).active && !(σ.stream z).portOpen then [streamNewSession random] else [] := by
        simp only [draws]
        split <;> rfl
      rw [step, hdraws]
      exact .portOpen z random
  | portClose z => exact .portClose z
  | portRead z => exact .portRead z
  | portWrite z byte => exact .portWrite z byte
  | prepare z nowMs =>
      cases hphase : (σ.endpoint z).phase with
      | idle =>
          have heq : σ.step (.prepare z nowMs) = σ.put z (preparing (σ.endpoint z) nowMs) σ.drawn := by
            simp only [step, apply, hphase, draws, Option.toList_none, List.nil_append, preparing, stream]
            cases hresult : streamPrepareAction (σ.endpoint z).stream nowMs with
            | mk stream action =>
                cases action with
                | some action => rfl
                | none =>
                    simp only [put, setStream]
                    rw [← hphase]
          rw [heq]
          exact .prepare z nowMs hphase
      | prepared action now | sent action now error =>
          have heq : σ.step (.prepare z nowMs) = σ := by simp [step, apply, hphase, draws]
          rw [heq]
          exact .blocked
  | send z error =>
      cases hphase : (σ.endpoint z).phase with
      | prepared action nowMs =>
          have heq : σ.step (.send z error) =
              σ.put z (sending (σ.endpoint z) action nowMs error) σ.drawn := by
            simp [step, apply, hphase, draws, put, sending]
          rw [heq]
          exact .send z action nowMs error hphase
      | idle | sent action now error' =>
          have heq : σ.step (.send z error) = σ := by simp [step, apply, hphase, draws]
          rw [heq]
          exact .blocked
  | complete z =>
      cases hphase : (σ.endpoint z).phase with
      | sent action nowMs error =>
          have heq : σ.step (.complete z) =
              σ.put z (completing (σ.endpoint z) action nowMs error) σ.drawn := by
            simp [step, apply, hphase, draws, put, completing, stream]
          rw [heq]
          exact .complete z action nowMs error hphase
      | idle | prepared action now =>
          have heq : σ.step (.complete z) = σ := by simp [step, apply, hphase, draws]
          rw [heq]
          exact .blocked
  | deliver z linkSequence nowMs random =>
      cases hpipe : (σ.endpoint z).pipe with
      | nil =>
          have heq : σ.step (.deliver z linkSequence nowMs random) = σ := by
            simp [step, apply, headMessage?, hpipe, draws]
          rw [heq]
          exact .blocked
      | cons frame rest =>
          have hhead := headMessage?_of_pipe linkSequence hpipe
          have hdraws : (σ.draws (.deliver z linkSequence nowMs random)).toList =
              if ingestDraws (σ.stream z.other) (σ.messageFrom z linkSequence frame) then
                [streamNewSession random] else [] := by
            simp only [draws, hhead]
            split <;> rfl
          have heq : σ.apply (.deliver z linkSequence nowMs random) = σ.setStream z.other
              (ingest (σ.stream z.other) (σ.messageFrom z linkSequence frame) nowMs random).1 := by
            simp only [apply, hhead]
          rw [step, hdraws, heq]
          exact .deliver z linkSequence nowMs random hpipe
  | discard z => exact .discard z
  | transportStopped z => exact .transportStopped z

theorem inFlight_preparing {e : Endpoint} (h : e.phase = .idle) (nowMs : UInt32) :
    (preparing e nowMs).inFlight = e.inFlight ++ (streamPrepareAction e.stream nowMs).2.toList := by
  simp only [Endpoint.inFlight, preparing, h, Phase.unsent, List.append_nil]
  cases (streamPrepareAction e.stream nowMs).2 <;> rfl

theorem inFlight_sending_sublist {e : Endpoint} {action : Action} {nowMs : UInt32} (error : EspErr)
    (h : e.phase = .prepared action nowMs) : (sending e action nowMs error).inFlight.Sublist e.inFlight := by
  simp only [Endpoint.inFlight, sending, h, Phase.unsent, List.append_nil]
  split
  · exact List.Sublist.refl _
  · exact List.sublist_append_left ..

theorem inFlight_completing {e : Endpoint} {action : Action} {nowMs : UInt32} {error : EspErr}
    (h : e.phase = .sent action nowMs error) : (completing e action nowMs error).inFlight = e.inFlight := by
  simp [Endpoint.inFlight, completing, h, Phase.unsent]

theorem inFlight_discarding_sublist (e : Endpoint) : (discarding e).inFlight.Sublist e.inFlight :=
  (List.tail_sublist e.pipe).append (.refl _)

theorem inFlight_of_pipe {frame : Action} (h : (σ.endpoint z).pipe = frame :: rest) :
    σ.inFlight z = frame :: (rest ++ (σ.endpoint z).phase.unsent) := by
  simp [inFlight, Endpoint.inFlight, h]

end System
end SolarOs.LinkStream
