import Mathlib.Data.List.Basic
import Mathlib.Data.List.Infix
import Mathlib.Logic.Function.Basic
import Mathlib.Logic.Relation

/-! One direction of a stop-and-wait protocol over a channel that loses and repeats
frames but keeps their order, with a sender that may restart its numbering under a
fresh session and a receiver that may forget the session it follows. -/
namespace StopAndWait

/-- Cyclic sequence numbers: `number k` is what the `k`-th slot of a session gets. -/
structure Numbering (Sequence : Type*) where
  number : Nat → Sequence
  next : Sequence → Sequence
  previous : Sequence → Sequence
  next_number : ∀ k, next (number k) = number (k + 1)
  previous_number : ∀ k, previous (number (k + 1)) = number k
  number_succ_ne : ∀ k, number (k + 1) ≠ number k

structure Slot (Session Sequence Payload : Type*) where
  session : Session
  sequence : Sequence
  payload : Payload
  deriving DecidableEq, Repr

structure Acknowledgement (Session Sequence : Type*) where
  session : Session
  sequence : Sequence
  deriving DecidableEq, Repr

/-- A sender, a receiver and what travels between them, oldest first. -/
structure Direction (Session Sequence Payload : Type*) where
  drawn : List Session
  sending : Bool
  session : Session
  next : Sequence
  window : List (Slot Session Sequence Payload)
  numbered : List (Slot Session Sequence Payload)
  released : List (Slot Session Sequence Payload)
  data : List (Slot Session Sequence Payload)
  acks : List (Acknowledgement Session Sequence)
  remote : Option Session
  expected : Sequence
  received : Bool
  appended : List (Slot Session Sequence Payload)

variable {Session Sequence Payload : Type*}

/-- What can happen in a direction. `mayAdopt` says when the receiver may start to
follow a session. -/
inductive Step (n : Numbering Sequence)
    (mayAdopt : Direction Session Sequence Payload → Session → Prop) :
    Direction Session Sequence Payload → Direction Session Sequence Payload → Prop
  /-- Frames and acknowledgements are lost. -/
  | lose {d data acks} : data.Sublist d.data → acks.Sublist d.acks →
      Step n mayAdopt d { d with data, acks }
  /-- Someone else draws a session number. -/
  | draw {d} (s : Session) : Step n mayAdopt d { d with drawn := s :: d.drawn }
  | close {d} : Step n mayAdopt d { d with sending := false, window := [] }
  | renew {d s} : s ∉ d.drawn → Step n mayAdopt d
      { d with drawn := s :: d.drawn, sending := true, session := s, next := n.number 0, window := [] }
  | number {d} (payload : Payload) : d.sending = true → d.window = [] → Step n mayAdopt d
      { d with
        next := n.next d.next
        window := [⟨d.session, d.next, payload⟩]
        numbered := d.numbered ++ [⟨d.session, d.next, payload⟩] }
  | transmit {d slot} : slot ∈ d.window → Step n mayAdopt d { d with data := d.data ++ [slot] }
  | release {d a rest gone last kept} : d.sending = true → d.acks = a :: rest →
      a.session = d.session → d.window = gone ++ kept → gone.getLast? = some last →
      last.sequence = a.sequence →
      Step n mayAdopt d { d with window := kept, released := d.released ++ gone }
  | adopt {d s} : mayAdopt d s → Step n mayAdopt d
      { d with remote := some s, expected := n.number 0, received := false }
  | forget {d} (expected : Sequence) (received : Bool) :
      Step n mayAdopt d { d with remote := none, expected, received }
  | accept {d slot rest} : d.data = slot :: rest → d.remote = some slot.session →
      slot.sequence = d.expected → Step n mayAdopt d
      { d with
        expected := n.next d.expected
        received := true
        appended := d.appended ++ [slot] }
  | request {d s} : s ∈ d.drawn → d.remote = some s → (d.expected = n.number 0 → d.received = true) →
      Step n mayAdopt d { d with acks := d.acks ++ [⟨s, n.previous d.expected⟩] }
  /-- The newest acknowledgement is sent once more. -/
  | repeatAck {d l a} : d.acks = l ++ [a] → Step n mayAdopt d { d with acks := l ++ [a, a] }

theorem Step.to_eq {n : Numbering Sequence} {mayAdopt : Direction Session Sequence Payload → Session → Prop}
    {d e f : Direction Session Sequence Payload} (h : Step n mayAdopt d e) (hf : f = e) : Step n mayAdopt d f :=
  hf ▸ h

/-- Several steps in a row. -/
abbrev Steps (n : Numbering Sequence)
    (mayAdopt : Direction Session Sequence Payload → Session → Prop) :=
  Relation.ReflTransGen (Step n mayAdopt)

variable [DecidableEq Session]

def inSession (slots : List (Slot Session Sequence Payload)) (s : Session) :
    List (Slot Session Sequence Payload) :=
  slots.filter fun slot => slot.session = s

section inSession
variable {slots : List (Slot Session Sequence Payload)} {slot : Slot Session Sequence Payload}
  {s : Session}

@[simp] theorem inSession_nil : inSession ([] : List (Slot Session Sequence Payload)) s = [] := rfl

theorem inSession_append (other : List (Slot Session Sequence Payload)) :
    inSession (slots ++ other) s = inSession slots s ++ inSession other s :=
  List.filter_append ..

theorem mem_inSession : slot ∈ inSession slots s ↔ slot ∈ slots ∧ slot.session = s := by
  simp [inSession]

theorem inSession_of_none (h : ∀ slot ∈ slots, slot.session ≠ s) : inSession slots s = [] := by
  simpa [inSession] using h

theorem inSession_snoc_self (h : slot.session = s) : inSession (slots ++ [slot]) s = inSession slots s ++ [slot] := by
  simp [inSession, h]

theorem inSession_snoc_ne (h : slot.session ≠ s) : inSession (slots ++ [slot]) s = inSession slots s := by
  simp [inSession, h]

end inSession

/-- What holds of a direction. `progress s` counts the slots of session `s` the
receiver has passed. -/
structure Inv (n : Numbering Sequence) (d : Direction Session Sequence Payload)
    (progress : Session → Nat) : Prop where
  numberedDrawn : ∀ slot ∈ d.numbered, slot.session ∈ d.drawn
  acksDrawn : ∀ a ∈ d.acks, a.session ∈ d.drawn
  sessionDrawn : d.sending = true → d.session ∈ d.drawn
  numberedSequence : ∀ s i slot, (inSession d.numbered s)[i]? = some slot →
    slot.sequence = n.number i
  nextSequence : d.sending = true → d.next = n.number (inSession d.numbered d.session).length
  windowShort : d.window.length ≤ 1
  windowSending : d.window ≠ [] → d.sending = true
  numberedWindow : d.sending = true →
    inSession d.numbered d.session = inSession d.released d.session ++ d.window
  progressLe : ∀ s, progress s ≤ (inSession d.numbered s).length
  progressGe : ∀ s, (inSession d.numbered s).length ≤ progress s + 1
  idle : d.sending = true → d.window = [] →
    progress d.session = (inSession d.numbered d.session).length
  passed : ∀ s, ((inSession d.numbered s).take (progress s)).Sublist (inSession d.appended s)
  releasedPrefix : ∀ s, inSession d.released s <+: inSession d.numbered s
  releasedLe : ∀ s, (inSession d.released s).length ≤ progress s
  data : ∀ slot ∈ d.data, ∃ i, (inSession d.numbered slot.session)[i]? = some slot ∧
    (inSession d.numbered slot.session).length ≤ i + 2 ∧ progress slot.session ≤ i + 1
  dataSorted : d.data.Pairwise fun f g => f.session = g.session →
    f.sequence = n.number ((inSession d.numbered f.session).length - 1) →
    g.sequence = n.number ((inSession d.numbered f.session).length - 1)
  fresh : ∀ s, d.remote = some s → d.received = false → d.expected = n.number 0
  following : ∀ s, d.remote = some s → d.received = true →
    d.expected = n.number (progress s) ∧ 1 ≤ progress s
  acks : d.sending = true → ∀ a ∈ d.acks, a.session = d.session → ∃ k,
    a.sequence = n.number k ∧ k + 1 ≤ progress d.session ∧
    (inSession d.numbered d.session).length ≤ k + 2 ∧
    (d.window = [] → k + 1 = (inSession d.numbered d.session).length)
  acksSorted : d.sending = true → d.acks.Pairwise fun a b =>
    a.session = d.session → b.session = d.session →
    a.sequence = n.number ((inSession d.numbered d.session).length - 1) →
    b.sequence = n.number ((inSession d.numbered d.session).length - 1)

end StopAndWait
