import SolarOs.Input.Runs
import SolarOs.Library.Machine

/-! The characters of a source come in the order of its events, unless a short event is taken past a
longer one that no longer fits the buffer. -/
namespace SolarOs.Input
open List

/-- The state, the events that have entered the queue from its first content on, and the events that
have been read as characters. -/
structure Log where
  state : State
  entered : List KeyEvent
  taken : List KeyEvent

def Log.start (s : State) : Log := ⟨s, s.queue, []⟩

/-- The loop of `takeChars` with the events instead of their characters. -/
def takeEvents (selected : KeyEvent → Bool) : Nat → List KeyEvent → List KeyEvent × List KeyEvent
  | _, [] => ([], [])
  | room, event :: events =>
    if !selected event || room < (eventChars event).length then
      (event :: (takeEvents selected room events).1, (takeEvents selected room events).2)
    else
      ((takeEvents selected (room - (eventChars event).length) events).1,
        event :: (takeEvents selected (room - (eventChars event).length) events).2)

def ofSource (source : Option Nat) (event : KeyEvent) : Bool := source.all fun source => event.source = source

inductive TypingCall where
  | readChars (now : UInt32) (bufferLen : Nat)
  | readSourceChars (now : UInt32) (source bufferLen : Nat)
  | writeKey (now : UInt32) (source physicalKey usage key modifiers : Nat) (action : KeyAction)
  | writeChar (source key : Nat)
  | releaseAll (source : Nat)

def Log.grow (l : Log) (s : State) : Log := ⟨s, l.entered ++ s.queue.drop l.state.queue.length, l.taken⟩

def Log.read (l : Log) (now : UInt32) (source : Option Nat) (bufferLen : Nat) : Log :=
  if bufferLen = 0 then l
  else
    let grown := l.grow (queueRepeatIfDue l.state now)
    ⟨(readCharsForSource l.state now source bufferLen).1, grown.entered,
      l.taken ++ (takeEvents (ofSource source) bufferLen grown.state.queue).2⟩

def Log.step (l : Log) : TypingCall → Log
  | .readChars now bufferLen => l.read now none bufferLen
  | .readSourceChars now source bufferLen => l.read now (some source) bufferLen
  | .writeKey now source physicalKey usage key modifiers action =>
    l.grow (writeKey l.state now source physicalKey usage key modifiers action).1
  | .writeChar source key => l.grow (writeChar l.state source key).1
  | .releaseAll source => l.grow (sourceReleaseAll l.state source)

def rendering (source : Nat) (events : List KeyEvent) : List Nat :=
  (events.filter fun event => event.source = source).flatMap eventChars

/-- What has been read of a source is a beginning of its rendering, and all of it once the queue is
empty. -/
def Log.Ordered (l : Log) : Prop :=
  ∀ source, rendering source l.taken <+: rendering source l.entered ∧
    (l.state.queue = [] → rendering source l.taken = rendering source l.entered)

/-- No event with characters fits behind one of the same source that does not; the sources in
`passed` have such an event already. -/
def NoneOvertakes (selected : KeyEvent → Bool) : List Nat → Nat → List KeyEvent → Prop
  | _, _, [] => True
  | passed, room, event :: events =>
    if !selected event then NoneOvertakes selected passed room events
    else if room < (eventChars event).length then NoneOvertakes selected (event.source :: passed) room events
    else (event.source ∈ passed → eventChars event = []) ∧
      NoneOvertakes selected passed (room - (eventChars event).length) events

instance (selected : KeyEvent → Bool) : ∀ passed room events, Decidable (NoneOvertakes selected passed room events)
  | _, _, [] => .isTrue trivial
  | passed, room, event :: events =>
    have := instDecidableNoneOvertakes selected passed room events
    have := instDecidableNoneOvertakes selected (event.source :: passed) room events
    have := instDecidableNoneOvertakes selected passed (room - (eventChars event).length) events
    inferInstanceAs (Decidable (ite _ _ _))

def Patient (l : Log) : TypingCall → Prop
  | .readChars now bufferLen =>
    NoneOvertakes (ofSource none) [] bufferLen (queueRepeatIfDue l.state now).queue
  | .readSourceChars now source bufferLen =>
    NoneOvertakes (ofSource (some source)) [] bufferLen (queueRepeatIfDue l.state now).queue
  | _ => True

variable {selected : KeyEvent → Bool} {room : Nat} {events : List KeyEvent} {source : Nat}

theorem rendering_append (first second : List KeyEvent) :
    rendering source (first ++ second) = rendering source first ++ rendering source second := by
  unfold rendering
  rw [filter_append, flatMap_append]

theorem rendering_cons (event : KeyEvent) (events : List KeyEvent) : rendering source (event :: events) =
      (if event.source = source then eventChars event else []) ++ rendering source events := by
  rw [← singleton_append, rendering_append]
  congr 1
  unfold rendering
  rw [filter_singleton]
  by_cases mine : event.source = source
  · simp [mine]
  · simp [mine]

theorem takeChars_eq (selected : KeyEvent → Bool) (room : Nat) (events : List KeyEvent) :
    takeChars selected room events =
      ((takeEvents selected room events).1, (takeEvents selected room events).2.flatMap eventChars) := by
  induction events generalizing room with
  | nil => rfl
  | cons event events ih =>
    rw [takeChars, takeEvents, ih, ih]
    split
    · rfl
    · rfl

theorem takeEvents_selected : ∀ event ∈ (takeEvents selected room events).2, selected event = true := by
  induction events generalizing room with
  | nil => exact nofun
  | cons event events ih =>
    rw [takeEvents]
    split
    · exact ih
    · rename_i fits
      intro e there
      rcases mem_cons.mp there with rfl | there
      · by_contra other
        exact fits (by simp [other])
      · exact ih e there

theorem takeEvents_others : (takeEvents selected room events).1.filter (fun event => !selected event) =
    events.filter fun event => !selected event := by
  induction events generalizing room with
  | nil => rfl
  | cons event events ih =>
    rw [takeEvents]
    split
    · rw [filter_cons, filter_cons, ih]
    · rename_i fits
      have mine : selected event = true := by
        by_contra other
        exact fits (by simp [other])
      rw [filter_cons_of_neg (by simp [mine]), ih]

/-- While none overtakes, what is taken of a source comes before what is kept of it, and nothing is
taken of a source that has been passed. -/
theorem takeEvents_rendering {passed : List Nat} (patient : NoneOvertakes selected passed room events)
    (whole : ∀ e e' : KeyEvent, e.source = e'.source → selected e = selected e') :
    (source ∈ passed → rendering source (takeEvents selected room events).2 = []) ∧
      rendering source events =
        rendering source (takeEvents selected room events).2 ++ rendering source (takeEvents selected room events).1 := by
  induction events generalizing passed room with
  | nil => exact ⟨fun _ => rfl, rfl⟩
  | cons event events ih =>
    rw [NoneOvertakes] at patient
    rw [takeEvents]
    by_cases mine : selected event = true
    · rw [if_neg (by simp [mine])] at patient
      by_cases long : room < (eventChars event).length
      · rw [if_pos long] at patient
        rw [if_pos (by simp [long])]
        obtain ⟨none, parts⟩ := ih patient
        refine ⟨fun there => none (mem_cons_of_mem _ there), ?_⟩
        rw [rendering_cons, rendering_cons, parts]
        by_cases same : event.source = source
        · rw [none (same ▸ mem_cons_self), nil_append, nil_append]
        · rw [if_neg same, nil_append, nil_append]
      · rw [if_neg long] at patient
        rw [if_neg (by simp [mine, long])]
        obtain ⟨none, parts⟩ := ih patient.2
        refine ⟨fun there => ?_, ?_⟩
        · rw [rendering_cons, none there, append_nil]
          split
          · rename_i same
            exact patient.1 (same ▸ there)
          · rfl
        · rw [rendering_cons, rendering_cons, parts, append_assoc]
    · rw [if_pos (by simp [mine])] at patient
      rw [if_pos (by simp [mine])]
      obtain ⟨none, parts⟩ := ih patient
      refine ⟨none, ?_⟩
      rw [rendering_cons, rendering_cons, parts]
      by_cases same : event.source = source
      · -- nothing of a source that is not selected is taken
        have untouched : rendering source (takeEvents selected room events).2 = [] := by
          unfold rendering
          rw [filter_eq_nil_iff.mpr fun e there is => ?_, flatMap_nil]
          have taken := takeEvents_selected e there
          rw [whole e event ((of_decide_eq_true is).trans same.symm)] at taken
          exact mine taken
        rw [untouched, nil_append, nil_append]
      · rw [if_neg same, nil_append, nil_append]

variable {s : State}

theorem queuePush_grows (event : KeyEvent) : s.queue <+: (queuePush s event).1.queue := by
  unfold queuePush
  split
  · exact prefix_rfl
  · exact prefix_append _ _

theorem queueRepeatIfDue_grows (now : UInt32) : s.queue <+: (queueRepeatIfDue s now).queue := by
  unfold queueRepeatIfDue
  split
  · exact prefix_rfl
  · split
    · exact prefix_rfl
    · split
      · exact prefix_rfl
      · dsimp only
        split
        · exact queuePush_grows _
        · exact prefix_rfl

theorem writeKey_grows (now : UInt32) (source physicalKey usage key modifiers : Nat) (action : KeyAction) :
    s.queue <+: (writeKey s now source physicalKey usage key modifiers action).1.queue := by
  unfold writeKey
  split
  · exact prefix_rfl
  split
  · exact prefix_rfl
  cases action with
  | press =>
    dsimp only
    split
    · exact prefix_rfl
    split
    · exact prefix_rfl
    rw [(repeatStart_keeps now _).2.1]
    refine List.IsPrefix.trans ?_ (queuePush_grows _)
    exact prefix_rfl
  | release =>
    dsimp only
    split
    · exact prefix_rfl
    split
    · exact prefix_rfl
    refine List.IsPrefix.trans ?_ (queuePush_grows _)
    simp only [(repeatStop_keeps source physicalKey).2.1, prefix_rfl]
  | again =>
    dsimp only
    split
    · exact prefix_rfl
    · exact queuePush_grows _

theorem writeChar_grows (source key : Nat) : s.queue <+: (writeChar s source key).1.queue := by
  unfold writeChar
  split
  · exact prefix_rfl
  split
  · exact prefix_rfl
  · exact (queuePush_grows _).trans (queuePush_grows _)

theorem releaseSlot_grows (source i : Nat) : s.queue <+: (releaseSlot s source i).queue := by
  unfold releaseSlot
  split
  · split
    · exact queuePush_grows _
    · exact prefix_rfl
  · exact prefix_rfl

theorem sourceReleaseAll_grows (source : Nat) : s.queue <+: (sourceReleaseAll s source).queue := by
  have slots : ∀ (l : List Nat) (s : State), s.queue <+: (l.foldl (fun s i => releaseSlot s source i) s).queue := by
    intro l
    induction l with
    | nil => exact fun s => prefix_rfl
    | cons i l ih => exact fun s => (releaseSlot_grows source i).trans (ih _)
  unfold sourceReleaseAll
  split
  · have all := slots (List.range maxPressedKeys) s
    generalize List.range maxPressedKeys = l at all ⊢
    exact all
  · exact prefix_rfl

def Log.Kept (l : Log) : Prop :=
  ∀ source, rendering source l.entered = rendering source l.taken ++ rendering source l.state.queue

variable {l : Log}

theorem Log.Kept.ordered (h : l.Kept) : l.Ordered := by
  intro source
  rw [h source]
  refine ⟨prefix_append _ _, fun empty => ?_⟩
  rw [empty]
  exact (append_nil _).symm

theorem Log.Kept.grow (h : l.Kept) {s : State} (grows : l.state.queue <+: s.queue) : (l.grow s).Kept := by
  intro source
  obtain ⟨more, whole⟩ := grows
  show rendering source (l.entered ++ s.queue.drop l.state.queue.length) = rendering source l.taken ++ rendering source s.queue
  rw [← whole, drop_left, rendering_append, rendering_append, h source, append_assoc]

theorem ofSource_whole (source : Option Nat) (e e' : KeyEvent) (same : e.source = e'.source) :
    ofSource source e = ofSource source e' := by
  unfold ofSource
  rw [same]

theorem Log.Kept.read (h : l.Kept) {now : UInt32} {source : Option Nat} {bufferLen : Nat}
    (patient : NoneOvertakes (ofSource source) [] bufferLen (queueRepeatIfDue l.state now).queue) :
    (l.read now source bufferLen).Kept := by
  unfold Log.read
  split
  · exact h
  · rename_i some
    intro other
    have grown := h.grow (queueRepeatIfDue_grows now) other
    have state : (readCharsForSource l.state now source bufferLen).1.queue =
        (takeEvents (ofSource source) bufferLen (queueRepeatIfDue l.state now).queue).1 := by
      unfold readCharsForSource
      rw [if_neg some]
      exact congrArg Prod.fst (takeChars_eq (ofSource source) bufferLen _)
    show rendering other (l.grow (queueRepeatIfDue l.state now)).entered = rendering other (l.taken ++
      (takeEvents (ofSource source) bufferLen (queueRepeatIfDue l.state now).queue).2) ++ _
    rw [state, rendering_append, append_assoc, ← (takeEvents_rendering patient (ofSource_whole source)).2]
    exact grown

theorem Log.step_kept (l : Log) (c : TypingCall) (h : l.Kept) (patient : Patient l c) : (l.step c).Kept := by
  cases c with
  | readChars now bufferLen => exact h.read patient
  | readSourceChars now source bufferLen => exact h.read patient
  | writeKey now source physicalKey usage key modifiers action => exact h.grow (writeKey_grows _ _ _ _ _ _ _)
  | writeChar source key => exact h.grow (writeChar_grows _ _)
  | releaseAll source => exact h.grow (sourceReleaseAll_grows _)

/-- While no event overtakes another one of its source, the characters of every source come in
order; a read of one source leaves the events of the others as they are. -/
theorem typing_ordered (s : State) (calls : List TypingCall)
    (patient : Machine.Admits Log.step Patient (Log.start s) calls) :
    (Machine.run Log.step (Log.start s) calls).Ordered ∧
      ∀ (s : State) (now : UInt32) (source bufferLen : Nat), bufferLen ≠ 0 →
        (readCharsForSource s now (some source) bufferLen).1.queue.filter (fun event => !ofSource (some source) event) =
          (queueRepeatIfDue s now).queue.filter fun event => !ofSource (some source) event := by
  refine ⟨?_, fun s now source bufferLen some => ?_⟩
  · exact (Machine.run_induct Log.step_kept (fun source => rfl) patient).ordered
  · unfold readCharsForSource
    rw [if_neg some]
    have kept := congrArg Prod.fst (takeChars_eq (ofSource (.some source)) bufferLen (queueRepeatIfDue s now).queue)
    exact (congrArg (List.filter _) kept).trans takeEvents_others

def letter (key modifiers : Nat) : KeyEvent := ⟨1, 4, 4, key, modifiers, .press⟩

/-- `a`, Alt-`b` and `c` wait. -/
def typedState : State := { start 0 0 with queue := [letter 0x61 0, letter 0x62 modLeftAlt, letter 0x63 0] }

theorem typing_ordered_wide : (Machine.run Log.step (Log.start typedState) [.readChars 0 3]).Ordered :=
  (typing_ordered typedState [.readChars 0 3]
    ⟨show NoneOvertakes _ _ _ _ by decide, trivial⟩).1

/-- With room for two characters `c` comes before Alt-`b`. -/
theorem letter_overtakes : ¬∀ (s : State) (calls : List TypingCall),
    (Machine.run Log.step (Log.start s) calls).Ordered := by
  intro claim
  have wrong := (claim typedState [.readChars 0 2] 1).1
  exact absurd wrong (by decide)

end SolarOs.Input
