import SolarOs.Input.Model
import SolarOs.Library.Machine

/-! Where each key is, for the one who types and for the one who reads: the pressed table
against the events that were handed out and those that wait. -/
namespace SolarOs.Input
open List

/-- The service, and the key events of each source that were handed out since it was
opened. -/
structure World where
  state : State
  delivered : Nat → List KeyEvent

inductive Call where
  | sourceOpen (name : CString) (sourceClass capabilities : Nat) (ready memory : Bool)
  | writeKey (now : UInt32) (source physicalKey usage key modifiers : Nat) (action : KeyAction)
  | writeChar (source key : Nat)
  | sourceReleaseAll (source : Nat)
  | sourceClose (source : Nat)
  | readEvents (now : UInt32) (eventCount : Nat)
  | readChars (now : UInt32) (source : Option Nat) (bufferLen : Nat)

def opened (s : State) (delivered : Nat → List KeyEvent) : State × Except EspErr Nat → World
  | (s', .ok source) =>
    { state := s', delivered := if sourceValid s source then delivered else Function.update delivered source [] }
  | (s', .error _) => { state := s', delivered := delivered }

def step (w : World) : Call → World
  | .sourceOpen name sourceClass capabilities ready memory =>
    opened w.state w.delivered (sourceOpenTyped w.state name sourceClass capabilities ready memory)
  | .writeKey now source physicalKey usage key modifiers action =>
    { w with state := (writeKey w.state now source physicalKey usage key modifiers action).1 }
  | .writeChar source key => { w with state := (writeChar w.state source key).1 }
  | .sourceReleaseAll source => { w with state := sourceReleaseAll w.state source }
  | .sourceClose source => { w with state := sourceClose w.state source }
  | .readEvents now eventCount =>
    { state := (readEvents w.state now eventCount).1
      delivered := fun source => w.delivered source ++
        (readEvents w.state now eventCount).2.filter fun event => event.source = source }
  | .readChars now source bufferLen =>
    { w with state := (readCharsForSource w.state now source bufferLen).1 }

def track (events : List KeyEvent) (source physicalKey : Nat) : List KeyAction :=
  (events.filter fun event => event.isFor source physicalKey).map (·.action)

def Held (s : State) (source physicalKey : Nat) : Prop :=
  ∃ event, some event ∈ s.pressed ∧ event.isFor source physicalKey = true

def World.seen (w : World) (source physicalKey : Nat) : List KeyAction :=
  track (w.delivered source) source physicalKey

def World.whole (w : World) (source physicalKey : Nat) : List KeyAction :=
  w.seen source physicalKey ++ track w.state.queue source physicalKey

structure Balanced (w : World) : Prop where
  queued : ∀ event ∈ w.state.queue, sourceValid w.state event.source = true
  pressed : ∀ event, some event ∈ w.state.pressed → sourceValid w.state event.source = true ∧
    event.physicalKey ≠ physicalNone
  distinct : ∀ (i j : Nat) (event event' : KeyEvent), w.state.pressed[i]? = some (some event) →
    w.state.pressed[j]? = some (some event') → event'.isFor event.source event.physicalKey = true → i = j
  positions : ∀ source physicalKey, sourceValid w.state source = true →
    ∃ down, position false (w.whole source physicalKey) = some down ∧
      (down = true ↔ Held w.state source physicalKey)

variable {s : State} {source physicalKey : Nat}

variable {event : KeyEvent}

theorem isFor_iff :
    event.isFor source physicalKey = true ↔ event.source = source ∧ event.physicalKey = physicalKey := by
  simp [KeyEvent.isFor]

theorem track_append (first second : List KeyEvent) :
    track (first ++ second) source physicalKey = track first source physicalKey ++
      track second source physicalKey := by
  simp [track]

variable {i : Nat}

theorem findPressed_some (h : findPressed s source physicalKey = some i) :
    ∃ event, s.pressed[i]? = some (some event) ∧ event.isFor source physicalKey = true := by
  obtain ⟨inside, hit, -⟩ := findIdx?_eq_some_iff_getElem.mp h
  cases hslot : s.pressed[i] with
  | none =>
    rw [hslot] at hit
    cases hit
  | some event =>
    rw [hslot] at hit
    exact ⟨event, by rw [getElem?_eq_getElem inside, hslot], hit⟩

theorem findPressed_none (h : findPressed s source physicalKey = none) : ¬Held s source physicalKey := by
  rintro ⟨event, mem, isFor⟩
  have no := findIdx?_eq_none_iff.mp h _ mem
  rw [Option.any_some, isFor] at no
  cases no

theorem allocPressed_some (h : allocPressed s = some i) : s.pressed[i]? = some none := by
  obtain ⟨inside, free, -⟩ := findIdx?_eq_some_iff_getElem.mp h
  rw [getElem?_eq_getElem inside, Option.isNone_iff_eq_none.mp free]

theorem held_iff {s : State} : Held s source physicalKey ↔
    ∃ (i : Nat) (event : KeyEvent), s.pressed[i]? = some (some event) ∧ event.isFor source physicalKey = true := by
  constructor
  · rintro ⟨event, mem, isFor⟩
    obtain ⟨i, hi⟩ := mem_iff_getElem?.mp mem
    exact ⟨i, event, hi, isFor⟩
  · rintro ⟨i, event, hi, isFor⟩
    exact ⟨event, mem_iff_getElem?.mpr ⟨i, hi⟩, isFor⟩

/-- The parts of the invariant that speak of the pressed table alone. -/
structure Tidy (s : State) : Prop where
  pressed : ∀ event, some event ∈ s.pressed → sourceValid s event.source = true ∧
    event.physicalKey ≠ physicalNone
  distinct : ∀ (i j : Nat) (event event' : KeyEvent), s.pressed[i]? = some (some event) →
    s.pressed[j]? = some (some event') → event'.isFor event.source event.physicalKey = true → i = j

theorem Balanced.tidy {w : World} (h : Balanced w) : Tidy w.state := ⟨h.pressed, h.distinct⟩

theorem getElem?_set_some {slots : List (Option KeyEvent)} {i j : Nat} {slot : Option KeyEvent}
    (h : (slots.set i slot)[j]? = some (some event)) :
    i = j ∧ slot = some event ∨ i ≠ j ∧ slots[j]? = some (some event) := by
  rw [getElem?_set] at h
  by_cases same : i = j
  · rw [if_pos same] at h
    split at h
    · exact .inl ⟨same, Option.some.inj h⟩
    · cases h
  · rw [if_neg same] at h
    exact .inr ⟨same, h⟩

theorem held_set (free : s.pressed[i]? = some none) (event : KeyEvent) :
    Held { s with pressed := s.pressed.set i (some event) } source physicalKey ↔
      event.isFor source physicalKey = true ∨ Held s source physicalKey := by
  have inside : i < s.pressed.length := (List.getElem?_eq_some_iff.mp free).1
  rw [held_iff, held_iff]
  constructor
  · rintro ⟨j, event', hj, isFor⟩
    rcases getElem?_set_some hj with ⟨-, here⟩ | ⟨-, there⟩
    · cases here
      exact .inl isFor
    · exact .inr ⟨j, event', there, isFor⟩
  · rintro (isFor | ⟨j, event', hj, isFor⟩)
    · exact ⟨i, event, getElem?_set_self inside, isFor⟩
    · have other : i ≠ j := by
        rintro rfl
        cases free.symm.trans hj
      exact ⟨j, event', (getElem?_set_ne other).trans hj, isFor⟩

theorem held_clear (tidy : Tidy s) (here : s.pressed[i]? = some (some event)) :
    Held { s with pressed := s.pressed.set i none } source physicalKey ↔
      Held s source physicalKey ∧ event.isFor source physicalKey = false := by
  rw [held_iff, held_iff]
  constructor
  · rintro ⟨j, event', hj, isFor⟩
    rcases getElem?_set_some hj with ⟨-, no⟩ | ⟨other, there⟩
    · cases no
    · refine ⟨⟨j, event', there, isFor⟩, ?_⟩
      rw [← Bool.not_eq_true]
      intro same
      rw [isFor_iff] at isFor same
      exact other (tidy.distinct i j event event' here there
        (isFor_iff.mpr ⟨isFor.1.trans same.1.symm, isFor.2.trans same.2.symm⟩))
  · rintro ⟨⟨j, event', hj, isFor⟩, differs⟩
    have other : i ≠ j := by
      rintro rfl
      cases here.symm.trans hj
      rw [differs] at isFor
      cases isFor
    exact ⟨j, event', (getElem?_set_ne other).trans hj, isFor⟩

theorem Tidy.set (tidy : Tidy s) (valid : sourceValid s event.source = true)
    (named : event.physicalKey ≠ physicalNone) (up : ¬Held s event.source event.physicalKey) :
    Tidy { s with pressed := s.pressed.set i (some event) } where
  pressed event' mem := by
    rcases mem_or_eq_of_mem_set mem with old | new
    · exact tidy.pressed event' old
    · cases new
      exact ⟨valid, named⟩
  distinct j k first second hj hk same := by
    rcases getElem?_set_some hj with ⟨rfl, here⟩ | ⟨-, there⟩
    · cases here
      rcases getElem?_set_some hk with ⟨rfl, -⟩ | ⟨-, there⟩
      · rfl
      · exact absurd (held_iff.mpr ⟨k, second, there, same⟩) up
    · rcases getElem?_set_some hk with ⟨rfl, here⟩ | ⟨-, there'⟩
      · cases here
        rw [isFor_iff] at same
        exact absurd (held_iff.mpr ⟨j, first, there, isFor_iff.mpr ⟨same.1.symm, same.2.symm⟩⟩) up
      · exact tidy.distinct j k first second there there' same

theorem Tidy.clear (tidy : Tidy s) (i : Nat) : Tidy { s with pressed := s.pressed.set i none } where
  pressed event' mem := by
    rcases mem_or_eq_of_mem_set mem with old | new
    · exact tidy.pressed event' old
    · cases new
  distinct j k first second hj hk same := by
    rcases getElem?_set_some hj with ⟨-, no⟩ | ⟨-, there⟩
    · cases no
    · rcases getElem?_set_some hk with ⟨-, no⟩ | ⟨-, there'⟩
      · cases no
      · exact tidy.distinct j k first second there there' same

theorem Balanced.extend {w : World} (h : Balanced w) (source physicalKey : Nat) {s' : State}
    {events : List KeyEvent} (sources : s'.sources = w.state.sources) (queue : s'.queue = w.state.queue ++ events)
    (valid : sourceValid w.state source = true)
    (about : ∀ event ∈ events, event.isFor source physicalKey = true) (tidy : Tidy s')
    (fits : ∀ down, (down = true ↔ Held w.state source physicalKey) →
      ∃ down', position down (events.map (·.action)) = some down' ∧
        (down' = true ↔ Held s' source physicalKey))
    (others : ∀ source' physicalKey', ¬(source' = source ∧ physicalKey' = physicalKey) →
      (Held s' source' physicalKey' ↔ Held w.state source' physicalKey')) : Balanced { w with state := s' } := by
  have same : ∀ source, sourceValid s' source = sourceValid w.state source := by
    intro source
    rw [sourceValid, sourceValid, sources]
  refine ⟨?_, tidy.pressed, tidy.distinct, ?_⟩
  · intro event mem
    rw [same]
    rcases mem_append.mp (queue ▸ mem) with old | new
    · exact h.queued event old
    · rw [(isFor_iff.mp (about event new)).1]
      exact valid
  · intro source' physicalKey' valid'
    rw [show sourceValid s' source' = _ from same source'] at valid'
    obtain ⟨down, reached, held⟩ := h.positions source' physicalKey' valid'
    have whole : ({ w with state := s' } : World).whole source' physicalKey' =
        w.whole source' physicalKey' ++ track events source' physicalKey' := by
      show w.seen source' physicalKey' ++ track s'.queue source' physicalKey' = _
      rw [queue, track_append, ← append_assoc]
      rfl
    rw [whole, position_append, reached, Option.bind_some]
    by_cases here : source' = source ∧ physicalKey' = physicalKey
    · obtain ⟨rfl, rfl⟩ := here
      have all : track events source' physicalKey' = events.map (·.action) := by
        rw [track, filter_eq_self.mpr about]
      rw [all]
      exact fits down held
    · have none : track events source' physicalKey' = [] := by
        rw [track, filter_eq_nil_iff.mpr, map_nil]
        intro event mem isFor
        have one := isFor_iff.mp (about event mem)
        have two := isFor_iff.mp isFor
        exact here ⟨two.1.symm.trans one.1, two.2.symm.trans one.2⟩
      rw [none]
      exact ⟨down, rfl, held.trans (others source' physicalKey' here).symm⟩

end SolarOs.Input
