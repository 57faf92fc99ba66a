import SolarOs.Input.Balance

/-! Runs of the input service: as long as the queue has room for the changes of the keys,
the one who reads sees whole strokes. -/
namespace SolarOs.Input
open Function List Bool

variable {w : World} {s : State}

theorem queuePush_room (h : s.queue.length < queueMax) (event : KeyEvent) :
    queuePush s event = ({ s with queue := s.queue ++ [event] }, true) := if_neg (Nat.not_le_of_lt h)

theorem queuePush_full (h : queueMax ≤ s.queue.length) (event : KeyEvent) : queuePush s event = (s, false) := if_pos h

variable {s' : State} {event : KeyEvent} {source : Nat}

theorem Balanced.congr (h : Balanced w) (sources : s'.sources = w.state.sources) (queue : s'.queue = w.state.queue)
    (pressed : s'.pressed = w.state.pressed) : Balanced { w with state := s' } := by
  have same : ∀ source, sourceValid s' source = sourceValid w.state source := by
    intro source
    rw [sourceValid, sourceValid, sources]
  refine ⟨?_, ?_, ?_, ?_⟩
  · intro event mem
    rw [same]
    exact h.queued event (queue ▸ mem)
  · intro event mem
    rw [same]
    exact h.pressed event (pressed ▸ mem)
  · intro i j event event' hi hj
    exact h.distinct i j event event' (pressed ▸ hi) (pressed ▸ hj)
  · intro source physicalKey valid
    rw [show sourceValid s' source = _ from same source] at valid
    have held : Held s' source physicalKey ↔ Held w.state source physicalKey := by rw [Held, Held, pressed]
    show ∃ down, position false (w.seen source physicalKey ++ track s'.queue source physicalKey) = some down ∧
      (down = true ↔ Held s' source physicalKey)
    rw [queue, held]
    exact h.positions source physicalKey valid

theorem Tidy.congr (h : Tidy s) (sources : s'.sources = s.sources) (pressed : s'.pressed = s.pressed) : Tidy s' where
  pressed event mem := by
    rw [sourceValid, sources]
    exact h.pressed event (pressed ▸ mem)
  distinct i j event event' hi hj := h.distinct i j event event' (pressed ▸ hi) (pressed ▸ hj)

theorem Balanced.again (h : Balanced w) (mem : some event ∈ w.state.pressed) (repeated : KeyEvent)
    (source : repeated.source = event.source) (physicalKey : repeated.physicalKey = event.physicalKey)
    (action : repeated.action = .again) (sources : s'.sources = w.state.sources)
    (queue : s'.queue = w.state.queue ++ [repeated]) (pressed : s'.pressed = w.state.pressed) :
    Balanced { w with state := s' } := by
  have held : ∀ source physicalKey, Held s' source physicalKey ↔ Held w.state source physicalKey := by
    intro source physicalKey
    rw [Held, Held, pressed]
  refine h.extend event.source event.physicalKey sources queue (h.pressed event mem).1 ?_
    (h.tidy.congr sources pressed) ?_ ?_
  · intro event' hevent'
    rw [mem_singleton.mp hevent']
    exact isFor_iff.mpr ⟨source, physicalKey⟩
  · intro down hdown
    have isDown := hdown.mpr ⟨event, mem, isFor_iff.mpr ⟨rfl, rfl⟩⟩
    refine ⟨true, ?_, ?_⟩
    · rw [isDown, map_singleton, action]
      rfl
    · rw [held, ← hdown, isDown]
  · intro source' physicalKey' _
    exact held source' physicalKey'

theorem found_mem {source physicalKey : Nat}
    (h : ((findPressed s source physicalKey).bind fun i => s.pressed.getD i none) = some event) :
    some event ∈ s.pressed ∧ event.isFor source physicalKey = true := by
  obtain ⟨i, hi, hevent⟩ := Option.bind_eq_some_iff.mp h
  obtain ⟨event', there, isFor⟩ := findPressed_some hi
  have same : event = event' := by
    rw [getD_eq_getElem?_getD, there, Option.getD_some] at hevent
    exact (Option.some.inj hevent).symm
  rw [same]
  exact ⟨mem_of_getElem? there, isFor⟩

theorem Balanced.repeatIfDue (h : Balanced w) (now : UInt32) :
    Balanced { w with state := queueRepeatIfDue w.state now } := by
  unfold queueRepeatIfDue
  cases w.state.repeating with
  | none => exact h.congr rfl rfl rfl
  | some active =>
    dsimp only
    split
    · exact h.congr rfl rfl rfl
    · split
      · exact h.congr rfl rfl rfl
      · rename_i event found
        obtain ⟨mem, -⟩ := found_mem found
        by_cases room : w.state.queue.length < queueMax
        · rw [queuePush_room room, if_pos rfl]
          exact h.again mem { event with action := .again } rfl rfl rfl rfl rfl rfl
        · rw [queuePush_full (Nat.le_of_not_lt room)]
          exact h.congr rfl rfl rfl

def Moves (s : State) (source physicalKey : Nat) : KeyAction → Prop
  | .press => findPressed s source physicalKey = none ∧ allocPressed s ≠ none
  | .release => findPressed s source physicalKey ≠ none
  | .again => False

def heldKeys (s : State) (source : Nat) : Nat :=
  s.pressed.countP fun slot => slot.any fun event => event.source = source

def Even (w : World) (now : UInt32) (source : Option Nat) (bufferLen : Nat) : Prop :=
  ∀ source' physicalKey down, position false (w.seen source' physicalKey) = some down →
    position down (track (readCharsForSource w.state now source bufferLen).1.queue source' physicalKey) =
      position down (track (queueRepeatIfDue w.state now).queue source' physicalKey)

/-- There is room for what the call has to tell, and nothing is told to somebody else. -/
def Careful (w : World) : Call → Prop
  | .writeKey _ source physicalKey _ _ _ action =>
    physicalKey ≠ physicalNone → keySource w.state source = true → Moves w.state source physicalKey action →
      w.state.queue.length < queueMax
  | .sourceReleaseAll source =>
    sourceValid w.state source = true → w.state.queue.length + heldKeys w.state source ≤ queueMax
  | .readChars now source bufferLen => bufferLen ≠ 0 → Even w now source bufferLen
  | _ => True

theorem keySource_valid (h : keySource s source = true) : sourceValid s source = true :=
  (and_eq_true_iff.mp h).1

theorem repeatStart_keeps (now : UInt32) (event : KeyEvent) :
    (repeatStart s now event).sources = s.sources ∧ (repeatStart s now event).queue = s.queue ∧
      (repeatStart s now event).pressed = s.pressed := by
  unfold repeatStart
  split
  · split
    · exact ⟨rfl, rfl, rfl⟩
    · exact ⟨rfl, rfl, rfl⟩
  · split
    · exact ⟨rfl, rfl, rfl⟩
    · exact ⟨rfl, rfl, rfl⟩

theorem repeatStop_keeps (source physicalKey : Nat) : (repeatStop s source physicalKey).sources = s.sources ∧
      (repeatStop s source physicalKey).queue = s.queue ∧
      (repeatStop s source physicalKey).pressed = s.pressed := by
  unfold repeatStop
  split
  · split
    · exact ⟨rfl, rfl, rfl⟩
    · exact ⟨rfl, rfl, rfl⟩
  · exact ⟨rfl, rfl, rfl⟩

section
variable (h : Balanced w)
include h

theorem Balanced.press {i : Nat} (action : event.action = .press)
    (valid : sourceValid w.state event.source = true) (named : event.physicalKey ≠ physicalNone)
    (up : findPressed w.state event.source event.physicalKey = none) (free : allocPressed w.state = some i)
    (sources : s'.sources = w.state.sources) (queue : s'.queue = w.state.queue ++ [event])
    (pressed : s'.pressed = w.state.pressed.set i (some event)) : Balanced { w with state := s' } := by
  have notHeld := findPressed_none up
  have after : ∀ source physicalKey, Held s' source physicalKey ↔
      event.isFor source physicalKey = true ∨ Held w.state source physicalKey := by
    intro source physicalKey
    rw [Held, pressed]
    exact held_set (allocPressed_some free) event
  refine h.extend event.source event.physicalKey sources queue valid ?_
    ((h.tidy.set valid named notHeld).congr sources pressed) ?_ ?_
  · intro event' hevent'
    rw [mem_singleton.mp hevent']
    exact isFor_iff.mpr ⟨rfl, rfl⟩
  · intro down hdown
    have isUp : down = false := by
      rw [← not_eq_true, hdown]
      exact notHeld
    refine ⟨true, ?_, ?_⟩
    · rw [isUp, map_singleton, action]
      rfl
    · rw [after]
      exact iff_of_true rfl (.inl (isFor_iff.mpr ⟨rfl, rfl⟩))
  · intro source' physicalKey' other
    rw [after]
    refine or_iff_right fun isFor => other ?_
    exact ⟨(isFor_iff.mp isFor).1.symm, (isFor_iff.mp isFor).2.symm⟩

theorem Balanced.release {i : Nat} (here : w.state.pressed[i]? = some (some event))
    (released : KeyEvent) (source : released.source = event.source)
    (physicalKey : released.physicalKey = event.physicalKey) (action : released.action = .release)
    (sources : s'.sources = w.state.sources) (queue : s'.queue = w.state.queue ++ [released])
    (pressed : s'.pressed = w.state.pressed.set i none) : Balanced { w with state := s' } := by
  have mem := mem_of_getElem? here
  have held : Held w.state event.source event.physicalKey := ⟨event, mem, isFor_iff.mpr ⟨rfl, rfl⟩⟩
  have after : ∀ source physicalKey, Held s' source physicalKey ↔
      Held w.state source physicalKey ∧ event.isFor source physicalKey = false := by
    intro source physicalKey
    rw [Held, pressed]
    exact held_clear h.tidy here
  refine h.extend event.source event.physicalKey sources queue (h.pressed event mem).1 ?_
    ((h.tidy.clear i).congr sources pressed) ?_ ?_
  · intro event' hevent'
    rw [mem_singleton.mp hevent']
    exact isFor_iff.mpr ⟨source, physicalKey⟩
  · intro down hdown
    refine ⟨false, ?_, ?_⟩
    · rw [hdown.mpr held, map_singleton, action]
      rfl
    · rw [after, show event.isFor event.source event.physicalKey = true from isFor_iff.mpr ⟨rfl, rfl⟩]
      simp
  · intro source' physicalKey' other
    rw [after]
    refine and_iff_left ?_
    rw [← not_eq_true, isFor_iff]
    exact fun same => other ⟨same.1.symm, same.2.symm⟩

theorem Balanced.writeKey (now : UInt32) (source physicalKey usage key modifiers : Nat) (action : KeyAction)
    (careful : Careful w (.writeKey now source physicalKey usage key modifiers action)) : Balanced { w with
        state := (Input.writeKey w.state now source physicalKey usage key modifiers action).1 } ∧
      ((Input.writeKey w.state now source physicalKey usage key modifiers action).2 = .noMem →
        (Input.writeKey w.state now source physicalKey usage key modifiers action).1 = w.state) := by
  unfold Input.writeKey
  by_cases unnamed : physicalKey = physicalNone
  · rw [if_pos unnamed]
    exact ⟨h, fun _ => rfl⟩
  rw [if_neg unnamed]
  cases capable : keySource w.state source with
  | false => exact ⟨h, fun _ => rfl⟩
  | true =>
    rw [if_neg (by decide)]
    have valid := keySource_valid capable
    have room := careful unnamed capable
    cases action with
    | press =>
      cases up : findPressed w.state source physicalKey with
      | some _ => exact ⟨h, fun _ => rfl⟩
      | none =>
        cases free : allocPressed w.state with
        | none => exact ⟨h, fun _ => rfl⟩
        | some i =>
          have space := room ⟨up, by rw [free]; exact nofun⟩
          dsimp only
          rw [queuePush_room]
          · exact ⟨h.press rfl valid unnamed up free (repeatStart_keeps _ _).1 (repeatStart_keeps _ _).2.1
              (repeatStart_keeps _ _).2.2, nofun⟩
          · exact space
    | release =>
      cases down : findPressed w.state source physicalKey with
      | none => exact ⟨h, fun _ => rfl⟩
      | some i =>
        obtain ⟨event, here, -⟩ := findPressed_some down
        have space := room (by rw [Moves, down]; exact nofun)
        have slot : w.state.pressed.getD i none = some event := by
          rw [getD_eq_getElem?_getD, here, Option.getD_some]
        dsimp only
        rw [slot]
        dsimp only
        rw [queuePush_room]
        · refine ⟨h.release here { event with action := .release, modifiers } rfl rfl rfl
            (repeatStop_keeps _ _).1 ?_ (repeatStop_keeps _ _).2.2, nofun⟩
          exact congrArg (· ++ [_]) (repeatStop_keeps _ _).2.1
        · rw [(repeatStop_keeps _ _).2.1]
          exact space
    | again =>
      cases down : (findPressed w.state source physicalKey).bind fun i => w.state.pressed.getD i none with
      | none => exact ⟨h, fun _ => rfl⟩
      | some event =>
        obtain ⟨mem, -⟩ := found_mem down
        dsimp only
        by_cases space : w.state.queue.length < queueMax
        · rw [queuePush_room space]
          exact ⟨h.again mem { event with action := .again, modifiers } rfl rfl rfl rfl rfl rfl, nofun⟩
        · rw [queuePush_full (Nat.le_of_not_lt space)]
          exact ⟨h, fun _ => rfl⟩

theorem Balanced.writeChar (source key : Nat) :
    Balanced { w with state := (Input.writeChar w.state source key).1 } := by
  unfold Input.writeChar
  cases capable : keySource w.state source with
  | false => exact h
  | true =>
    rw [if_neg (by decide)]
    split
    · exact h
    · rename_i fits
      let tap : KeyEvent :=
        { source, physicalKey := physicalNone, usage := 0, key, modifiers := 0, action := .press }
      have first : w.state.queue.length < queueMax := by
        unfold queueMax at fits ⊢
        omega
      have up : ¬Held w.state source physicalNone := by
        rintro ⟨event, mem, isFor⟩
        exact (h.pressed event mem).2 (isFor_iff.mp isFor).2
      dsimp only
      rw [queuePush_room first, queuePush_room]
      · have both : w.state.queue ++ [tap] ++ [{ tap with action := .release }] =
            w.state.queue ++ [tap, { tap with action := .release }] := append_assoc _ _ _
        refine h.extend source physicalNone rfl both (keySource_valid capable) ?_ (h.tidy.congr rfl rfl) ?_
          fun _ _ _ => Iff.rfl
        · intro event mem
          rcases mem_cons.mp mem with rfl | rest
          · exact isFor_iff.mpr ⟨rfl, rfl⟩
          · rw [mem_singleton.mp rest]
            exact isFor_iff.mpr ⟨rfl, rfl⟩
        · intro down hdown
          have isUp : down = false := by
            rw [← not_eq_true, hdown]
            exact up
          exact ⟨false, by rw [isUp]; rfl, isUp ▸ hdown⟩
      · rw [length_append, length_singleton]
        unfold queueMax at fits ⊢
        omega

theorem Balanced.releaseSlot (room : w.state.queue.length + heldKeys w.state source ≤ queueMax)
    (i : Nat) : Balanced { w with state := Input.releaseSlot w.state source i } ∧
      (Input.releaseSlot w.state source i).queue.length + heldKeys (Input.releaseSlot w.state source i) source ≤
        queueMax := by
  unfold Input.releaseSlot
  cases hslot : w.state.pressed.getD i none with
  | none => exact ⟨h, room⟩
  | some event =>
    dsimp only
    by_cases owned : event.source = source
    · have here : w.state.pressed[i]? = some (some event) := by
        rw [getD_eq_getElem?_getD] at hslot
        cases hget : w.state.pressed[i]? with
        | none =>
          rw [hget] at hslot
          cases hslot
        | some slot =>
          rw [hget, Option.getD_some] at hslot
          rw [hslot]
      obtain ⟨inside, hget⟩ := List.getElem?_eq_some_iff.mp here
      have one : 0 < heldKeys w.state source := by
        rw [heldKeys, countP_pos_iff]
        exact ⟨some event, mem_of_getElem? here, by simp [owned]⟩
      have fewer : (w.state.pressed.set i none).countP (fun slot => slot.any fun event => event.source = source) =
          heldKeys w.state source - 1 := by
        rw [countP_set inside, hget]
        simp [owned, heldKeys]
      rw [if_pos owned, queuePush_room (by omega)]
      refine ⟨h.release here { event with action := .release } rfl rfl rfl rfl rfl rfl, ?_⟩
      show (w.state.queue ++ [_]).length + (w.state.pressed.set i none).countP _ ≤ queueMax
      rw [fewer, length_append, length_singleton]
      omega
    · rw [if_neg owned]
      exact ⟨h, room⟩

theorem Balanced.releaseSlots (room : w.state.queue.length + heldKeys w.state source ≤ queueMax) (slots : List Nat) :
    Balanced { w with state := slots.foldl (fun s i => Input.releaseSlot s source i) w.state } := by
  induction slots generalizing w with
  | nil => exact h
  | cons i slots ih =>
    obtain ⟨balanced, room'⟩ := h.releaseSlot room i
    exact ih balanced room'

theorem Balanced.sourceReleaseAll (source : Nat) (careful : Careful w (.sourceReleaseAll source)) :
    Balanced { w with state := Input.sourceReleaseAll w.state source } := by
  unfold Input.sourceReleaseAll
  split
  · rename_i valid
    have released := h.releaseSlots (careful valid) (List.range maxPressedKeys)
    generalize (List.range maxPressedKeys).foldl (fun s i => Input.releaseSlot s source i) w.state = s
      at released ⊢
    exact released.congr rfl rfl rfl
  · exact h

end

theorem sourceValid_close (valid : sourceValid s source = true)
    (sources : s'.sources = update s.sources (source - 1) none) (other : Nat) :
    sourceValid s' other = true ↔ sourceValid s other = true ∧ other ≠ source := by
  unfold sourceValid at valid ⊢
  simp only [and_eq_true, decide_eq_true_eq] at valid ⊢
  rw [sources]
  by_cases same : other = source
  · subst same
    simp
  · by_cases positive : 0 < other
    · have place : other - 1 ≠ source - 1 := by omega
      rw [update_of_ne place]
      simp [same]
    · simp [positive]

theorem getElem?_map_filter {slots : List (Option KeyEvent)} {kept : KeyEvent → Bool} {i : Nat} :
    (slots.map fun slot => slot.filter kept)[i]? = some (some event) ↔
      slots[i]? = some (some event) ∧ kept event = true := by
  rw [getElem?_map]
  cases slots[i]? with
  | none => simp
  | some slot =>
    cases slot with
    | none => simp
    | some other =>
      by_cases keep : kept other = true
      · simp only [Option.map_some, Option.filter_some, keep, if_true, Option.some.injEq]
        constructor
        · rintro rfl
          exact ⟨rfl, keep⟩
        · exact fun both => both.1
      · simp only [Option.map_some, Option.filter_some, keep, Option.some.injEq]
        constructor
        · intro no
          cases no
        · rintro ⟨rfl, yes⟩
          exact absurd yes keep

theorem Balanced.close (h : Balanced w) (valid : sourceValid w.state source = true)
    (sources : s'.sources = update w.state.sources (source - 1) none)
    (queue : s'.queue = w.state.queue.filter fun event => event.source ≠ source)
    (pressed : s'.pressed = w.state.pressed.map fun slot => slot.filter fun event => event.source ≠ source) :
    Balanced { w with state := s' } := by
  have others := sourceValid_close valid sources
  have slot : ∀ (i : Nat) (event : KeyEvent), s'.pressed[i]? = some (some event) ↔
      w.state.pressed[i]? = some (some event) ∧ event.source ≠ source := by
    intro i event
    rw [pressed, getElem?_map_filter, decide_eq_true_eq]
  refine ⟨?_, ?_, ?_, ?_⟩
  · intro event mem
    rw [show ({ w with state := s' } : World).state.queue = _ from queue] at mem
    obtain ⟨old, other⟩ := mem_filter.mp mem
    exact (others event.source).mpr ⟨h.queued event old, of_decide_eq_true other⟩
  · intro event mem
    obtain ⟨i, hi⟩ := mem_iff_getElem?.mp mem
    obtain ⟨old, other⟩ := (slot i event).mp hi
    have before := h.pressed event (mem_of_getElem? old)
    exact ⟨(others event.source).mpr ⟨before.1, other⟩, before.2⟩
  · intro i j event event' hi hj
    exact h.distinct i j event event' ((slot i event).mp hi).1 ((slot j event').mp hj).1
  · intro source' physicalKey valid'
    obtain ⟨before, other⟩ := (others source').mp valid'
    have tracks : track s'.queue source' physicalKey = track w.state.queue source' physicalKey := by
      rw [queue, track, track, filter_filter]
      congr 1
      apply filter_congr
      intro event _
      cases isFor : event.isFor source' physicalKey with
      | false => rfl
      | true =>
        rw [(isFor_iff.mp isFor).1]
        simpa using other
    have held : Held s' source' physicalKey ↔ Held w.state source' physicalKey := by
      rw [held_iff, held_iff]
      constructor
      · rintro ⟨i, event, hi, isFor⟩
        exact ⟨i, event, ((slot i event).mp hi).1, isFor⟩
      · rintro ⟨i, event, hi, isFor⟩
        exact ⟨i, event, (slot i event).mpr ⟨hi, (isFor_iff.mp isFor).1 ▸ other⟩, isFor⟩
    show ∃ down, position false (w.seen source' physicalKey ++ track s'.queue source' physicalKey) = some down ∧
      (down = true ↔ Held s' source' physicalKey)
    rw [tracks, held]
    exact h.positions source' physicalKey before

theorem Balanced.sourceClose (h : Balanced w) (source : Nat) :
    Balanced { w with state := Input.sourceClose w.state source } := by
  unfold Input.sourceClose
  split
  · rename_i valid
    exact h.close valid rfl rfl rfl
  · exact h

theorem sourceOpenTyped_cases (name : CString) (sourceClass capabilities : Nat) (ready memory : Bool) :
    (∃ err, sourceOpenTyped s name sourceClass capabilities ready memory = (s, .error err)) ∨
      ∃ s' i slot, sourceOpenTyped s name sourceClass capabilities ready memory = (s', .ok (i + 1)) ∧
        i < sourceMax ∧ s'.sources = update s.sources i (some slot) ∧ s'.queue = s.queue ∧
          s'.pressed = s.pressed := by
  have locked : (∃ err, sourceOpenLocked s name sourceClass capabilities ready = (s, .error err)) ∨
      ∃ s' i slot, sourceOpenLocked s name sourceClass capabilities ready = (s', .ok (i + 1)) ∧
        i < sourceMax ∧ s'.sources = update s.sources i (some slot) ∧ s'.queue = s.queue ∧
          s'.pressed = s.pressed := by
    unfold sourceOpenLocked
    split
    · rename_i i found
      have inside := mem_range.mp (mem_of_find?_eq_some found)
      split
      · split
        · exact .inl ⟨_, rfl⟩
        · exact .inr ⟨_, i, _, rfl, inside, rfl, rfl, rfl⟩
      · exact .inl ⟨_, rfl⟩
    · split
      · rename_i i found
        have inside := mem_range.mp (mem_of_find?_eq_some found)
        exact .inr ⟨_, i, _, rfl, inside, rfl, rfl, rfl⟩
      · exact .inl ⟨_, rfl⟩
  unfold sourceOpenTyped
  split
  · dsimp only
    split
    · rcases locked with ⟨err, refused⟩ | ⟨s', i, slot, result, inside, sources, queue, pressed⟩
      · rw [refused]
        exact .inl ⟨err, rfl⟩
      · rw [result]
        exact .inr ⟨_, i, slot, rfl, inside, sources, queue, pressed⟩
    · exact .inl ⟨_, rfl⟩
  · exact .inl ⟨_, rfl⟩

theorem Balanced.sourceOpen (h : Balanced w) (name : CString) (sourceClass capabilities : Nat)
    (ready memory : Bool) : Balanced (step w (.sourceOpen name sourceClass capabilities ready memory)) := by
  show Balanced (opened w.state w.delivered (sourceOpenTyped w.state name sourceClass capabilities ready memory))
  rcases sourceOpenTyped_cases name sourceClass capabilities ready memory (s := w.state) with
    ⟨err, refused⟩ | ⟨s', i, slot, result, inside, sources, queue, pressed⟩
  · rw [refused]
    exact h
  · rw [result]
    have valid : ∀ source, sourceValid s' source = true ↔ sourceValid w.state source = true ∨ source = i + 1 := by
      intro source
      unfold sourceValid
      simp only [and_eq_true, decide_eq_true_eq]
      rw [sources]
      by_cases here : source = i + 1
      · subst here
        simp [Nat.succ_le_of_lt inside]
      · by_cases positive : 0 < source
        · have place : source - 1 ≠ i := by omega
          rw [update_of_ne place]
          simp [here]
        · simp [positive, here]
    have held : ∀ source physicalKey, Held s' source physicalKey ↔ Held w.state source physicalKey := by
      intro source physicalKey
      rw [Held, Held, pressed]
    refine ⟨?_, ?_, ?_, ?_⟩
    · intro event mem
      exact (valid event.source).mpr (.inl (h.queued event (queue ▸ mem)))
    · intro event mem
      have before := h.pressed event (pressed ▸ mem)
      exact ⟨(valid event.source).mpr (.inl before.1), before.2⟩
    · intro j k event event' hj hk
      exact h.distinct j k event event' (pressed ▸ hj) (pressed ▸ hk)
    · intro source physicalKey valid'
      show ∃ down, position false (track ((if sourceValid w.state (i + 1) = true then w.delivered
          else update w.delivered (i + 1) []) source) source physicalKey ++
            track s'.queue source physicalKey) = some down ∧ (down = true ↔ Held s' source physicalKey)
      rw [queue, held]
      by_cases before : sourceValid w.state source = true
      · have past : (if sourceValid w.state (i + 1) = true then w.delivered
            else update w.delivered (i + 1) []) source = w.delivered source := by
          split
          · rfl
          · rename_i fresh
            have other : source ≠ i + 1 := by
              rintro rfl
              exact fresh before
            exact update_of_ne other _ _
        rw [past]
        exact h.positions source physicalKey before
      · have here : source = i + 1 := ((valid source).mp valid').resolve_left before
        have past : (if sourceValid w.state (i + 1) = true then w.delivered
            else update w.delivered (i + 1) []) source = [] := by
          rw [if_neg (here ▸ before), here]
          exact update_self _ _ _
        have waits : track w.state.queue source physicalKey = [] := by
          rw [track, filter_eq_nil_iff.mpr, map_nil]
          intro event mem isFor
          exact before ((isFor_iff.mp isFor).1 ▸ h.queued event mem)
        have up : ¬Held w.state source physicalKey := by
          rintro ⟨event, mem, isFor⟩
          exact before ((isFor_iff.mp isFor).1 ▸ (h.pressed event mem).1)
        rw [past, waits]
        exact ⟨false, rfl, iff_of_false false_ne_true up⟩

theorem track_own (events : List KeyEvent) (source physicalKey : Nat) :
    track (events.filter fun event => event.source = source) source physicalKey =
      track events source physicalKey := by
  rw [track, track, filter_filter]
  congr 1
  apply filter_congr
  intro event _
  cases isFor : event.isFor source physicalKey with
  | false => rfl
  | true =>
    rw [(isFor_iff.mp isFor).1]
    simp

theorem Balanced.readEvents (h : Balanced w) (now : UInt32) (eventCount : Nat) :
    Balanced (step w (.readEvents now eventCount)) := by
  by_cases none : eventCount = 0
  · have nothing : step w (.readEvents now eventCount) = w := by
      simp [step, Input.readEvents, none]
    rw [nothing]
    exact h
  · have due := h.repeatIfDue now
    have reads : Input.readEvents w.state now eventCount =
        ({ queueRepeatIfDue w.state now with queue := (queueRepeatIfDue w.state now).queue.drop eventCount },
          (queueRepeatIfDue w.state now).queue.take eventCount) := if_neg none
    refine ⟨?_, ?_, ?_, ?_⟩
    · intro event mem
      simp only [step, reads] at mem ⊢
      exact due.queued event (mem_of_mem_drop mem)
    · intro event mem
      simp only [step, reads] at mem ⊢
      exact due.pressed event mem
    · intro i j event event' hi hj
      simp only [step, reads] at hi hj
      exact due.distinct i j event event' hi hj
    · intro source physicalKey valid
      simp only [step, reads] at valid ⊢
      have positions := due.positions source physicalKey valid
      have whole : ({ w with state := queueRepeatIfDue w.state now } : World).whole source physicalKey =
          track (w.delivered source ++ ((queueRepeatIfDue w.state now).queue.take eventCount).filter
              fun event => event.source = source) source physicalKey ++
            track ((queueRepeatIfDue w.state now).queue.drop eventCount) source physicalKey := by
        show track (w.delivered source) source physicalKey ++
          track (queueRepeatIfDue w.state now).queue source physicalKey = _
        have parts : track (queueRepeatIfDue w.state now).queue source physicalKey =
            track ((queueRepeatIfDue w.state now).queue.take eventCount) source physicalKey ++
              track ((queueRepeatIfDue w.state now).queue.drop eventCount) source physicalKey := by
          rw [← track_append, take_append_drop]
        rw [track_append, track_own, append_assoc, ← parts]
      rw [whole] at positions
      exact positions

theorem takeChars_sublist (selected : KeyEvent → Bool) (room : Nat) (events : List KeyEvent) :
    (takeChars selected room events).1.Sublist events := by
  induction events generalizing room with
  | nil => exact List.Sublist.refl _
  | cons event events ih =>
    rw [takeChars]
    split
    · exact (ih room).cons_cons event
    · exact (ih _).cons event

theorem Balanced.readChars (h : Balanced w) (now : UInt32) (source : Option Nat) (bufferLen : Nat)
    (careful : Careful w (.readChars now source bufferLen)) :
    Balanced { w with state := (readCharsForSource w.state now source bufferLen).1 } := by
  by_cases none : bufferLen = 0
  · have nothing : readCharsForSource w.state now source bufferLen = (w.state, []) := if_pos none
    rw [nothing]
    exact h
  · have due := h.repeatIfDue now
    have even := careful none
    have sources : (readCharsForSource w.state now source bufferLen).1.sources =
        (queueRepeatIfDue w.state now).sources := by rw [readCharsForSource, if_neg none]
    have pressed : (readCharsForSource w.state now source bufferLen).1.pressed =
        (queueRepeatIfDue w.state now).pressed := by rw [readCharsForSource, if_neg none]
    have queue : (readCharsForSource w.state now source bufferLen).1.queue.Sublist
        (queueRepeatIfDue w.state now).queue := by
      rw [readCharsForSource, if_neg none]
      exact takeChars_sublist _ _ _
    have valid : ∀ source', sourceValid (readCharsForSource w.state now source bufferLen).1 source' =
        sourceValid (queueRepeatIfDue w.state now) source' := by
      intro source'
      rw [sourceValid, sourceValid, sources]
    refine ⟨?_, ?_, ?_, ?_⟩
    · intro event mem
      rw [valid]
      exact due.queued event (queue.subset mem)
    · intro event mem
      rw [valid]
      exact due.pressed event (pressed ▸ mem)
    · intro i j event event' hi hj
      exact due.distinct i j event event' (pressed ▸ hi) (pressed ▸ hj)
    · intro source' physicalKey valid'
      rw [valid] at valid'
      obtain ⟨down, reached, held⟩ := due.positions source' physicalKey valid'
      have held' : Held (readCharsForSource w.state now source bufferLen).1 source' physicalKey ↔
          Held (queueRepeatIfDue w.state now) source' physicalKey := by rw [Held, Held, pressed]
      refine ⟨down, ?_, held.trans held'.symm⟩
      rw [World.whole, position_append] at reached ⊢
      obtain ⟨was, before, after⟩ := Option.bind_eq_some_iff.mp reached
      rw [show ({ w with state := (readCharsForSource w.state now source bufferLen).1 } : World).seen source'
        physicalKey = w.seen source' physicalKey from rfl, show position false (w.seen source' physicalKey) = _
        from before, Option.bind_some, even source' physicalKey was before]
      exact after

theorem step_balanced (w : World) (c : Call) (h : Balanced w) (careful : Careful w c) : Balanced (step w c) := by
  cases c with
  | sourceOpen name sourceClass capabilities ready memory =>
    exact h.sourceOpen name sourceClass capabilities ready memory
  | writeKey now source physicalKey usage key modifiers action =>
    exact (h.writeKey now source physicalKey usage key modifiers action careful).1
  | writeChar source key => exact h.writeChar source key
  | sourceReleaseAll source => exact h.sourceReleaseAll source careful
  | sourceClose source => exact h.sourceClose source
  | readEvents now eventCount => exact h.readEvents now eventCount
  | readChars now source bufferLen => exact h.readChars now source bufferLen careful

variable (repeatRateCps repeatDelayMs : Nat)

def boot : World where
  state := start repeatRateCps repeatDelayMs
  delivered _ := []

theorem boot_balanced : Balanced (boot repeatRateCps repeatDelayMs) := by
  have up : ∀ event, some event ∉ (start repeatRateCps repeatDelayMs).pressed := by
    intro event mem
    cases eq_of_mem_replicate mem
  refine ⟨nofun, fun event mem => absurd mem (up event), ?_, ?_⟩
  · intro i j event event' hi
    exact absurd (mem_of_getElem? hi) (up event)
  · intro source physicalKey valid
    refine ⟨false, rfl, iff_of_false false_ne_true ?_⟩
    rintro ⟨event, mem, -⟩
    exact up event mem

/-- In every run whose calls find room for the changes of the keys, what is handed out of a
key is the beginning of whole strokes, an empty queue means that everybody knows which keys
are held, and a call that reports a lack of memory has changed nothing. -/
theorem keys_balance (calls : List Call)
    (careful : Machine.Admits step Careful (boot repeatRateCps repeatDelayMs) calls) :
    let w := Machine.run step (boot repeatRateCps repeatDelayMs) calls
    (∀ source physicalKey, sourceValid w.state source = true →
      ∃ full, Strokes full ∧ w.seen source physicalKey <+: full) ∧
    (w.state.queue = [] → ∀ source physicalKey, sourceValid w.state source = true →
      ((∃ action, (w.seen source physicalKey).getLast? = some action ∧ action ≠ .release) ↔
        Held w.state source physicalKey)) ∧
    ∀ now source physicalKey usage key modifiers action,
      Careful w (.writeKey now source physicalKey usage key modifiers action) →
      (writeKey w.state now source physicalKey usage key modifiers action).2 = .noMem →
      (writeKey w.state now source physicalKey usage key modifiers action).1 = w.state := by
  intro w
  have h : Balanced w := Machine.run_induct step_balanced (boot_balanced repeatRateCps repeatDelayMs) careful
  refine ⟨?_, ?_, ?_⟩
  · intro source physicalKey valid
    obtain ⟨down, reached, -⟩ := h.positions source physicalKey valid
    obtain ⟨full, strokes, continues⟩ := (position_completes _).1 down reached
    exact ⟨full, strokes, (prefix_append _ _).trans continues⟩
  · intro empty source physicalKey valid
    obtain ⟨down, reached, held⟩ := h.positions source physicalKey valid
    rw [World.whole, empty, track, filter_nil, map_nil, append_nil] at reached
    rw [← held, position_last reached]
  · intro now source physicalKey usage key modifiers action fits
    exact (h.writeKey now source physicalKey usage key modifiers action fits).2

def keyboard : Call := .sourceOpen ⟨[0x6B], by decide⟩ 1 capKeyEvents true true

theorem keys_balance_stroke :
    let calls : List Call := [keyboard, .writeKey 0 1 4 4 0x61 0 .press, .readEvents 1 8,
      .writeKey 2 1 4 4 0x61 0 .release, .readEvents 3 8]
    let w := Machine.run step (boot 15 450) calls
    w.state.queue = [] → ∀ source physicalKey, sourceValid w.state source = true →
      ((∃ action, (w.seen source physicalKey).getLast? = some action ∧ action ≠ .release) ↔
        Held w.state source physicalKey) := by
  intro calls
  have careful : Machine.Admits step Careful (boot 15 450) calls := by
    refine ⟨trivial, fun _ _ _ => ?_, trivial, fun _ _ _ => ?_, trivial, trivial⟩
    · decide
    · decide
  exact (keys_balance 15 450 calls careful).2.1

/-- A full queue swallows the release of a key: the call reports a lack of memory and yet
lets the key go, and the one who reads is left with a key that never comes up. -/
theorem release_lost :
    let before := Machine.run step (boot 15 450)
      ([keyboard, .writeKey 0 1 4 4 0x61 0 .press, .readEvents 1 8] ++ List.replicate 32 (.writeChar 1 0x62))
    let after := Machine.run step before [.writeKey 2 1 4 4 0x61 0 .release, .readEvents 3 64]
    (writeKey before.state 2 1 4 4 0x61 0 .release).2 = .noMem ∧
      before.state.pressed ≠ (writeKey before.state 2 1 4 4 0x61 0 .release).1.pressed ∧
      after.state.queue = [] ∧ after.seen 1 4 = [.press] ∧ ¬Held after.state 1 4 := by
  refine ⟨by decide +kernel, by decide +kernel, by decide +kernel, by decide +kernel, ?_⟩
  exact findPressed_none (by decide +kernel)

end SolarOs.Input
