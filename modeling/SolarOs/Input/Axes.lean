import Mathlib.Data.BitVec
import SolarOs.Input.Runs
import SolarOs.Library.Machine

/-! Axis events of one source and axis are merged while they wait, and no motion is lost: neither
by merging nor when other sources are closed. -/
namespace SolarOs.Input
open Function List Machine Bool

def axisQueueMax : Nat := 32
def axisCount : Nat := 6

structure AxisEvent where
  source : Nat
  axis : Nat
  value : Int16
  delta : Int32
  deriving DecidableEq

def AxisEvent.key (e : AxisEvent) : Nat × Nat := (e.source, e.axis)

/-- The loop of `input_axis_queue_push_locked`: a waiting event of the same source and axis takes
the new one in. -/
def axisMerge (event : AxisEvent) : List AxisEvent → Option (List AxisEvent)
  | [] => none
  | queued :: queue =>
    if queued.key = event.key then
      some ({ queued with value := event.value, delta := queued.delta + event.delta } :: queue)
    else (axisMerge event queue).map (queued :: ·)

/-- `input_axis_queue_push_locked`. -/
def axisQueuePush (queue : List AxisEvent) (event : AxisEvent) : Option (List AxisEvent) :=
  match axisMerge event queue with
  | some merged => some merged
  | none => if axisQueueMax ≤ queue.length then none else some (queue ++ [event])

/-- The loop of `solar_os_input_source_close`: each of the first events is taken out and, if it is of
another source, pushed again. -/
def axisRotate (source : Nat) : Nat → List AxisEvent → List AxisEvent
  | 0, queue => queue
  | _ + 1, [] => []
  | count + 1, event :: queue =>
    if event.source ≠ source then axisRotate source count ((axisQueuePush queue event).getD queue)
    else axisRotate source count queue

/-- The service with its axis queue, and what has been accepted and read of the sources since they
were opened. -/
structure Axes where
  state : State
  queue : List AxisEvent
  accepted : List AxisEvent
  read : List AxisEvent

def Axes.start (s : State) : Axes := ⟨s, [], [], []⟩

def axisSource (s : State) (source : Nat) : Bool :=
  sourceValid s source && (s.sources (source - 1)).any fun slot => slot.capabilities &&& capAxisEvents ≠ 0

def Axes.writeAxis (a : Axes) (source : Nat) (event : AxisEvent) : Axes × EspErr :=
  if axisCount ≤ event.axis then (a, .invalidArg)
  else if axisSource a.state source = false ∨ a.state.axisQueue = false then (a, .invalidState)
  else
    match axisQueuePush a.queue { event with source } with
    | none => (a, .noMem)
    | some queue => ({ a with queue, accepted := a.accepted ++ [{ event with source }] }, .ok)

def Axes.readAxisEvents (a : Axes) (eventCount : Nat) : Axes × List AxisEvent :=
  if a.state.axisQueue then
    ({ a with queue := a.queue.drop eventCount, read := a.read ++ a.queue.take eventCount }, a.queue.take eventCount)
  else (a, [])

def Axes.close (a : Axes) (source : Nat) : Axes :=
  if sourceValid a.state source then
    let state := sourceClose a.state source
    let queue := axisRotate source a.queue.length a.queue
    { state
      queue := if state.axisQueue then queue else []
      accepted := a.accepted.filter fun e => e.source ≠ source
      read := a.read.filter fun e => e.source ≠ source }
  else a

inductive AxisTurn where
  | write (source : Nat) (event : AxisEvent)
  | read (eventCount : Nat)
  | close (source : Nat)

def Axes.step (a : Axes) : AxisTurn → Axes
  | .write source event => (a.writeAxis source event).1
  | .read eventCount => (a.readAxisEvents eventCount).1
  | .close source => a.close source

def eventsOf (k : Nat × Nat) (events : List AxisEvent) : List AxisEvent := events.filter fun e => e.key = k

variable {M : Type*} [AddCommMonoid M]

/-- The motion of one source and axis, in the numbers `measure` counts with. -/
def motion (measure : Int32 → M) (k : Nat × Nat) (events : List AxisEvent) : M :=
  ((eventsOf k events).map fun e => measure e.delta).sum

def Axes.Conserves (measure : Int32 → M) (a : Axes) : Prop :=
  ∀ k, motion measure k a.read + motion measure k a.queue = motion measure k a.accepted

/-- One event of each source and axis waits, and the last value that was read or waits is the last
that was accepted. -/
structure Axes.Tidy (a : Axes) : Prop where
  single : (a.queue.map AxisEvent.key).Nodup
  last : ∀ k, (eventsOf k (a.read ++ a.queue)).getLast?.map (·.value) = (eventsOf k a.accepted).getLast?.map (·.value)

/-- Where an accepted event is merged, `measure` counts the sum. -/
def Counts (measure : Int32 → M) (a : Axes) : AxisTurn → Prop
  | .write source event => ∀ queued ∈ a.queue, queued.key = (source, event.axis) →
    measure (queued.delta + event.delta) = measure queued.delta + measure event.delta
  | _ => True

def Fits (a : Axes) : AxisTurn → Prop
  | .write source event => ∀ queued ∈ a.queue, queued.key = (source, event.axis) →
    -2 ^ 31 ≤ queued.delta.toInt + event.delta.toInt ∧ queued.delta.toInt + event.delta.toInt < 2 ^ 31
  | _ => True

variable {measure : Int32 → M} {k : Nat × Nat} {queue merged : List AxisEvent} {event : AxisEvent}

theorem eventsOf_append (first second : List AxisEvent) :
    eventsOf k (first ++ second) = eventsOf k first ++ eventsOf k second := filter_append ..

theorem motion_append (first second : List AxisEvent) :
    motion measure k (first ++ second) = motion measure k first + motion measure k second := by
  unfold motion
  rw [eventsOf_append, map_append, sum_append]

theorem eventsOf_cons (event : AxisEvent) (queue : List AxisEvent) :
    eventsOf k (event :: queue) = if event.key = k then event :: eventsOf k queue else eventsOf k queue := by
  unfold eventsOf
  rw [filter_cons]
  simp only [decide_eq_true_eq]

/-- How a queue takes an event in: it keeps its sources and axes, except that a new one comes last,
and of the event's own, one event becomes or takes in the new one. -/
structure Takes (queue merged : List AxisEvent) (event : AxisEvent) : Prop where
  others : ∀ k, k ≠ event.key → eventsOf k merged = eventsOf k queue
  own : event.key ∉ queue.map AxisEvent.key ∧ merged = queue ++ [event] ∨
    merged.map AxisEvent.key = queue.map AxisEvent.key ∧ ∃ queued ∈ queue, queued.key = event.key ∧
      ∃ before, eventsOf event.key queue = queued :: before ∧ eventsOf event.key merged =
        { queued with value := event.value, delta := queued.delta + event.delta } :: before

theorem axisMerge_none (h : axisMerge event queue = none) : event.key ∉ queue.map AxisEvent.key := by
  induction queue with
  | nil => exact not_mem_nil
  | cons queued queue ih =>
    unfold axisMerge at h
    split at h
    · cases h
    · rename_i other
      intro there
      rcases mem_cons.mp there with same | there
      · exact other same.symm
      · exact ih (Option.map_eq_none_iff.mp h) there

theorem axisMerge_some (h : axisMerge event queue = some merged) : Takes queue merged event := by
  induction queue generalizing merged with
  | nil => cases h
  | cons queued queue ih =>
    unfold axisMerge at h
    split at h
    · rename_i same
      cases h
      refine ⟨fun k other => ?_, .inr ⟨rfl, queued, mem_cons_self, same, eventsOf event.key queue, ?_, ?_⟩⟩
      · have apart : queued.key ≠ k := fun is => other (is.symm.trans same)
        rw [eventsOf_cons, eventsOf_cons, if_neg apart]
        exact if_neg apart
      · rw [eventsOf_cons, if_pos same]
      · rw [eventsOf_cons]
        exact if_pos same
    · rename_i other
      obtain ⟨rest, found, rfl⟩ := Option.map_eq_some_iff.mp h
      obtain ⟨others, own⟩ := ih found
      refine ⟨fun k apart => ?_, ?_⟩
      · rw [eventsOf_cons, eventsOf_cons, others k apart]
      · rcases own with ⟨missing, rfl⟩ | ⟨keys, q, there, same, before, old, new⟩
        · refine .inl ⟨fun there => ?_, rfl⟩
          rcases mem_cons.mp there with same | there
          · exact other same.symm
          · exact missing there
        · refine .inr ⟨congrArg (_ :: ·) keys, q, mem_cons_of_mem _ there, same, before, ?_, ?_⟩
          · rw [eventsOf_cons, if_neg other, old]
          · rw [eventsOf_cons, if_neg other, new]

theorem axisQueuePush_some (h : axisQueuePush queue event = some merged) : Takes queue merged event := by
  unfold axisQueuePush at h
  split at h
  · rename_i found
    cases h
    exact axisMerge_some found
  · rename_i missing
    split at h
    · cases h
    · cases h
      have new := axisMerge_none missing
      refine ⟨fun k other => ?_, .inl ⟨new, rfl⟩⟩
      rw [eventsOf_append, eventsOf_cons, if_neg (Ne.symm other)]
      exact append_nil _

theorem Takes.nodup (h : Takes queue merged event) (single : (queue.map AxisEvent.key).Nodup) :
    (merged.map AxisEvent.key).Nodup := by
  rcases h.own with ⟨new, rfl⟩ | ⟨keys, -⟩
  · rw [map_append]
    exact List.Nodup.append single (nodup_singleton _) (disjoint_singleton.mpr new)
  · rwa [keys]

theorem Takes.motion (h : Takes queue merged event) (counts : ∀ queued ∈ queue, queued.key = event.key →
      measure (queued.delta + event.delta) = measure queued.delta + measure event.delta) (k : Nat × Nat) :
    Input.motion measure k merged = Input.motion measure k queue + Input.motion measure k [event] := by
  by_cases same : k = event.key
  · subst same
    have alone : eventsOf event.key [event] = [event] := by rw [eventsOf_cons, if_pos rfl]; rfl
    rcases h.own with ⟨new, rfl⟩ | ⟨-, queued, there, mine, before, old, new⟩
    · exact motion_append queue [event]
    · unfold Input.motion
      rw [new, old, alone, map_cons, map_cons, sum_cons, sum_cons, map_singleton,
        sum_singleton, counts queued there mine, add_right_comm]
  · have nothing : eventsOf k [event] = [] := by rw [eventsOf_cons, if_neg (Ne.symm same)]; rfl
    unfold Input.motion
    rw [h.others k same, nothing, map_nil, sum_nil, add_zero]

theorem getLast_of_single (single : (queue.map AxisEvent.key).Nodup) {first : AxisEvent} {before : List AxisEvent}
    (is : eventsOf k queue = first :: before) : before = [] := by
  have one : (eventsOf k queue).map AxisEvent.key = List.replicate (eventsOf k queue).length k := by
    refine eq_replicate_iff.mpr ⟨length_map _, fun x there => ?_⟩
    obtain ⟨e, inside, rfl⟩ := mem_map.mp there
    exact of_decide_eq_true (mem_filter.mp inside).2
  have distinct : ((eventsOf k queue).map AxisEvent.key).Nodup := single.sublist ((filter_sublist).map AxisEvent.key)
  rw [one, nodup_replicate, is, length_cons] at distinct
  exact length_eq_zero_iff.mp (by omega)

theorem Takes.last (h : Takes queue merged event) (single : (queue.map AxisEvent.key).Nodup) (read : List AxisEvent)
    (k : Nat × Nat) : (eventsOf k (read ++ merged)).getLast?.map (·.value) =
      (eventsOf k (read ++ queue ++ [event])).getLast?.map (·.value) := by
  rw [append_assoc, eventsOf_append, eventsOf_append, eventsOf_append]
  by_cases same : k = event.key
  · subst same
    have alone : eventsOf event.key [event] = [event] := by rw [eventsOf_cons, if_pos rfl]; rfl
    rcases h.own with ⟨new, rfl⟩ | ⟨-, queued, there, mine, before, old, new⟩
    · rw [eventsOf_append]
    · rw [new, alone, getLast_of_single single old, ← append_assoc, getLast?_concat, getLast?_concat]
      rfl
  · rw [h.others k same, eventsOf_cons, if_neg (Ne.symm same)]
    exact congrArg _ (congrArg _ (congrArg _ (append_nil _).symm))

theorem axisMerge_new (new : event.key ∉ queue.map AxisEvent.key) : axisMerge event queue = none := by
  induction queue with
  | nil => rfl
  | cons queued queue ih =>
    have other : queued.key ≠ event.key := fun same => new (same ▸ mem_cons_self)
    unfold axisMerge
    rw [if_neg other, ih fun there => new (mem_cons_of_mem _ there)]
    rfl

theorem axisRotate_eq (source : Nat) (first back : List AxisEvent)
    (single : ((first ++ back).map AxisEvent.key).Nodup) (fits : (first ++ back).length ≤ axisQueueMax) :
    axisRotate source first.length (first ++ back) = back ++ first.filter fun e => e.source ≠ source := by
  induction first generalizing back with
  | nil => exact (append_nil back).symm
  | cons event first ih =>
    rw [cons_append, map_cons, nodup_cons] at single
    rw [cons_append, length_cons] at fits
    rw [length_cons, cons_append, axisRotate]
    by_cases other : event.source ≠ source
    · have pushed : axisQueuePush (first ++ back) event = some (first ++ (back ++ [event])) := by
        unfold axisQueuePush
        rw [axisMerge_new single.1]
        rw [if_neg (by omega), append_assoc]
      have turned : (first ++ (back ++ [event])).Perm (event :: (first ++ back)) := by
        rw [← append_assoc]
        exact perm_append_singleton event (first ++ back)
      rw [if_pos other, pushed, Option.getD_some, ih _ ((turned.map _).nodup_iff.mpr (nodup_cons.mpr single))
        (turned.length_eq ▸ fits), filter_cons_of_pos (by simpa using other), append_assoc]
      rfl
    · rw [if_neg other, ih back single.2 (by omega), filter_cons_of_neg (by simpa using other)]

theorem axisRotate_all (source : Nat) (single : (queue.map AxisEvent.key).Nodup) (fits : queue.length ≤ axisQueueMax) :
    axisRotate source queue.length queue = queue.filter fun e => e.source ≠ source := by
  have all := axisRotate_eq source queue [] (by rwa [append_nil]) (by rwa [append_nil])
  rwa [append_nil, nil_append] at all

theorem eventsOf_filter (source : Nat) (events : List AxisEvent) (k : Nat × Nat) :
    eventsOf k (events.filter fun e => e.source ≠ source) = if k.1 = source then [] else eventsOf k events := by
  unfold eventsOf
  rw [filter_filter]
  split
  · rename_i same
    refine filter_eq_nil_iff.mpr fun e _ both => ?_
    simp only [and_eq_true, decide_eq_true_eq] at both
    exact both.2 (same ▸ congrArg Prod.fst both.1)
  · rename_i other
    refine filter_congr fun e _ => ?_
    by_cases mine : e.key = k
    · have apart : e.source ≠ source := fun is => other (by rw [← mine]; exact is)
      simp [mine, apart]
    · simp [mine]

/-- The waiting events fit the queue and are of sources that are open. -/
structure Axes.Sound (a : Axes) : Prop where
  tidy : a.Tidy
  fits : a.queue.length ≤ axisQueueMax
  sources : ∀ e ∈ a.queue, axisSource a.state e.source
  waits : a.queue ≠ [] → a.state.axisQueue = true

variable {a : Axes}

theorem axisQueue_stays {s : State} {source other : Nat} (valid : sourceValid s source = true)
    (axes : axisSource s other = true) (apart : other ≠ source) :
    axisSource (sourceClose s source) other = true ∧ (sourceClose s source).axisQueue = s.axisQueue := by
  have place : other - 1 ≠ source - 1 := by
    unfold axisSource sourceValid at axes
    unfold sourceValid at valid
    simp only [and_eq_true, decide_eq_true_eq] at axes valid
    omega
  have sources : (sourceClose s source).sources = update s.sources (source - 1) none := by
    unfold sourceClose
    rw [if_pos valid]
  unfold axisSource at axes ⊢
  rw [and_eq_true] at axes
  refine ⟨?_, ?_⟩
  · rw [(sourceValid_close valid sources other).mpr ⟨axes.1, apart⟩, sources, update_of_ne place]
    exact axes.2
  · have still : ((List.range sourceMax).any fun i => (update s.sources (source - 1) none i).any fun slot =>
        slot.capabilities &&& capAxisEvents ≠ 0) = true := by
      refine any_eq_true.mpr ⟨other - 1, mem_range.mpr ?_, ?_⟩
      · have bounds := axes.1
        unfold sourceValid at bounds
        simp only [and_eq_true, decide_eq_true_eq] at bounds
        omega
      · rw [update_of_ne place]
        exact axes.2
    unfold sourceClose
    rw [if_pos valid]
    dsimp only
    rw [still, Bool.or_true, Bool.and_true]

theorem close_queue (h : a.Sound) {source : Nat} (valid : sourceValid a.state source = true) :
    (a.close source).queue = a.queue.filter fun e => e.source ≠ source := by
  unfold Axes.close
  rw [if_pos valid]
  dsimp only
  rw [axisRotate_all source h.tidy.single h.fits]
  split
  · rfl
  · rename_i freed
    cases left : a.queue.filter fun e => e.source ≠ source with
    | nil => rfl
    | cons e rest =>
      have there : e ∈ a.queue.filter fun e => e.source ≠ source := left ▸ mem_cons_self
      obtain ⟨there, apart⟩ := mem_filter.mp there
      have stays := (axisQueue_stays valid (h.sources e there) (of_decide_eq_true apart)).2
      rw [stays, h.waits (ne_nil_of_mem there)] at freed
      exact absurd rfl freed

theorem step_sound (a : Axes) (turn : AxisTurn) (h : a.Sound) : (a.step turn).Sound := by
  cases turn with
  | write source event =>
    show (a.writeAxis source event).1.Sound
    unfold Axes.writeAxis
    split
    · exact h
    split
    · exact h
    rename_i open_
    obtain ⟨valid, there⟩ := not_or.mp open_
    split
    · exact h
    · rename_i queue pushed
      have takes := axisQueuePush_some pushed
      have room : queue.length ≤ axisQueueMax := by
        rcases takes.own with ⟨new, rfl⟩ | ⟨keys, -⟩
        · unfold axisQueuePush at pushed
          rw [axisMerge_new new] at pushed
          dsimp only at pushed
          split at pushed
          · cases pushed
          · rw [length_append]
            exact Nat.not_le.mp ‹_›
        · rw [← length_map (f := AxisEvent.key), keys, length_map]
          exact h.fits
      have from_ : ∀ e ∈ queue, e.source = source ∨ ∃ e' ∈ a.queue, e'.source = e.source := by
        intro e inside
        have key : e.key ∈ queue.map AxisEvent.key := mem_map_of_mem inside
        rcases takes.own with ⟨-, rfl⟩ | ⟨keys, -⟩
        · rcases mem_append.mp inside with old | new
          · exact .inr ⟨e, old, rfl⟩
          · exact .inl (mem_singleton.mp new ▸ rfl)
        · rw [keys] at key
          obtain ⟨e', old, same⟩ := mem_map.mp key
          exact .inr ⟨e', old, congrArg Prod.fst same⟩
      refine ⟨⟨takes.nodup h.tidy.single, fun k => ?_⟩, room, fun e inside => ?_, fun _ => ?_⟩
      · rw [takes.last h.tidy.single]
        have last := h.tidy.last k
        rw [eventsOf_append (a.read ++ a.queue), eventsOf_append a.accepted]
        cases eventsOf k [{ event with source }] with
        | nil => rw [append_nil, append_nil, last]
        | cons e rest => rw [getLast?_append_of_ne_nil _ (cons_ne_nil e rest),
            getLast?_append_of_ne_nil _ (cons_ne_nil e rest)]
      · rcases from_ e inside with same | ⟨e', old, same⟩
        · rw [same]
          exact eq_true_of_not_eq_false valid
        · exact same ▸ h.sources e' old
      · exact eq_true_of_not_eq_false there
  | read eventCount =>
    show (a.readAxisEvents eventCount).1.Sound
    unfold Axes.readAxisEvents
    split
    · refine ⟨⟨h.tidy.single.sublist ((drop_sublist _ _).map _), fun k => ?_⟩, ?_, fun e there => ?_, fun _ => ‹_›⟩
      · rw [append_assoc, take_append_drop]
        exact h.tidy.last k
      · exact (drop_sublist _ _).length_le.trans h.fits
      · exact h.sources e (mem_of_mem_drop there)
    · exact h
  | close source =>
    show (a.close source).Sound
    by_cases valid : sourceValid a.state source = true
    · have queue := close_queue h valid
      have rest : (a.close source).read = a.read.filter (fun e => e.source ≠ source) ∧
          (a.close source).accepted = a.accepted.filter (fun e => e.source ≠ source) ∧
          (a.close source).state = sourceClose a.state source := by
        unfold Axes.close
        rw [if_pos valid]
        exact ⟨rfl, rfl, rfl⟩
      have kept : ∀ e ∈ (a.close source).queue, e ∈ a.queue ∧ e.source ≠ source := by
        intro e there
        rw [queue] at there
        exact ⟨(mem_filter.mp there).1, of_decide_eq_true (mem_filter.mp there).2⟩
      refine ⟨⟨?_, fun k => ?_⟩, ?_, fun e there => ?_, fun some => ?_⟩
      · rw [queue]
        exact h.tidy.single.sublist (filter_sublist.map _)
      · rw [queue, rest.1, rest.2.1, ← filter_append, eventsOf_filter, eventsOf_filter]
        split
        · rfl
        · exact h.tidy.last k
      · rw [queue]
        exact (length_filter_le _ _).trans h.fits
      · obtain ⟨there, apart⟩ := kept e there
        rw [rest.2.2]
        exact (axisQueue_stays valid (h.sources e there) apart).1
      · obtain ⟨e, there⟩ := exists_mem_of_ne_nil _ some
        obtain ⟨there, apart⟩ := kept e there
        rw [rest.2.2, (axisQueue_stays valid (h.sources e there) apart).2]
        exact h.waits (ne_nil_of_mem there)
    · unfold Axes.close
      rwa [if_neg valid]

theorem step_conserves (a : Axes) (turn : AxisTurn) (h : a.Sound ∧ a.Conserves measure) (counts : Counts measure a turn) :
    (a.step turn).Sound ∧ (a.step turn).Conserves measure := by
  refine ⟨step_sound a turn h.1, ?_⟩
  cases turn with
  | write source event =>
    show (a.writeAxis source event).1.Conserves measure
    unfold Axes.writeAxis
    split
    · exact h.2
    split
    · exact h.2
    split
    · exact h.2
    · rename_i queue pushed
      intro k
      have takes := (axisQueuePush_some pushed).motion counts k
      rw [takes, motion_append, ← h.2 k, add_assoc]
  | read eventCount =>
    show (a.readAxisEvents eventCount).1.Conserves measure
    unfold Axes.readAxisEvents
    split
    · intro k
      rw [motion_append, add_assoc, ← motion_append (a.queue.take _), take_append_drop]
      exact h.2 k
    · exact h.2
  | close source =>
    show (a.close source).Conserves measure
    by_cases valid : sourceValid a.state source = true
    · intro k
      have queue := close_queue h.1 valid
      have whole := h.2 k
      unfold motion at whole ⊢
      rw [queue]
      unfold Axes.close
      rw [if_pos valid]
      rw [eventsOf_filter, eventsOf_filter, eventsOf_filter]
      split
      · exact add_zero _
      · exact whole
    · unfold Axes.close
      rw [if_neg valid]
      exact h.2

theorem start_sound (s : State) : (Axes.start s).Sound :=
  ⟨⟨nodup_nil, fun _ => rfl⟩, Nat.zero_le _, nofun, fun some => absurd rfl some⟩

/-- At every time, what was accepted of a source and axis was read or waits: counted by the words of
the field always, and as numbers while the field holds every merged motion. One event of a source and
axis waits, and the last value is that of the last accepted write. -/
theorem axes_conserve (s : State) (turns : List AxisTurn) : (run Axes.step (Axes.start s) turns).Tidy ∧
      (run Axes.step (Axes.start s) turns).Conserves Int32.toBitVec ∧
        (Machine.Admits Axes.step Fits (Axes.start s) turns →
          (run Axes.step (Axes.start s) turns).Conserves Int32.toInt) := by
  refine ⟨(run_always step_sound (start_sound s) turns).tidy, ?_, fun fits => ?_⟩
  · have words := run_always (fun a turn h => step_conserves a turn h ?_)
      (⟨start_sound s, fun k => add_zero _⟩ : _ ∧ (Axes.start s).Conserves Int32.toBitVec) turns
    · exact words.2
    · cases turn with
      | write source event => exact fun _ _ _ => Int32.toBitVec_add
      | read eventCount => trivial
      | close source => trivial
  · have numbers := run_induct (fun a turn h fits => step_conserves a turn h ?_)
      (⟨start_sound s, fun k => add_zero _⟩ : _ ∧ (Axes.start s).Conserves Int32.toInt) fits
    · exact numbers.2
    · cases turn with
      | write source event =>
        intro queued there same
        obtain ⟨low, high⟩ := fits queued there same
        rw [Int32.toInt_add]
        exact Int.bmod_eq_of_le (by omega) (by omega)
      | read eventCount => trivial
      | close source => trivial

def axisState : State :=
  { start 0 0 with
    sources := update (fun _ => none) 0 (some ⟨0, capAxisEvents, true, .empty⟩)
    axisQueue := true }

def farTurns : List AxisTurn :=
  [.write 1 ⟨1, 0, 0, 2147483647⟩, .write 1 ⟨1, 0, 0, 1⟩, .read 1, .write 1 ⟨1, 0, 0, -1⟩]

/-- The field holds the sum of the accepted motions, and the read ones and the waiting one have another. -/
theorem far_motion_lost : ¬∀ (s : State) (turns : List AxisTurn) (k : Nat × Nat),
    let a := run Axes.step (Axes.start s) turns
    (-2 ^ 31 ≤ motion Int32.toInt k a.accepted ∧ motion Int32.toInt k a.accepted < 2 ^ 31) →
      motion Int32.toInt k a.read + motion Int32.toInt k a.queue = motion Int32.toInt k a.accepted := by
  intro claim
  exact absurd (claim axisState farTurns (1, 0)) (by decide)

end SolarOs.Input
