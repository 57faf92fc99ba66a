import SolarOs.Schedule.NextWake

/-! Wake times over whole runs: what each step does to the entries, and that every entry of
the calendar is looked up by the next poll that knows the time. -/
namespace SolarOs.Schedule
open Program Storage List Machine

structure Device where
  disk : Files
  schedule : State

/-- Whether `trigger_locked` returns true. -/
def triggered (clock : Clock) (s : State) (e : Entry) : Bool :=
  e.action = .alarm ||
    !(s.scriptTask || s.pendingScript.strlen ≠ 0 || !s.scriptRunner ||
      !clock.created { e with runCount := e.runCount + 1 })

/-- `solar_os_schedule_run`. -/
def runNow (clock : Clock) (s : State) (name : CString) : State × EspErr :=
  match s.table.entryIndex name with
  | none => (s, .notFound)
  | some index =>
    let ran := s.table.entries[index]?
    let after := { (ran.map fun e => (trigger clock s e).1).getD s with
      table := s.table.replace (s.table.entries.modify index fun e => (trigger clock s e).2)
        (Harmless.modify (fun e => (trigger clock s e).2) (harmless_trigger clock s) _ _) }
    (after, if (ran.map (triggered clock s)).getD false then .ok else .invalidState)

/-- What happens to the schedule: its calls, and the end of a script. -/
inductive Step where
  | call (clock : Clock) (c : Call) (env : Nat → Env StoreFile)
  | run (clock : Clock) (name : CString)
  | setScriptRunner (present : Bool)
  | scriptEnds
  | stopAlarm

def takeStep (d : Device) : Step → Device
  | .call clock c env =>
    let final := finish act (perform clock d.schedule c) d.disk env
    ⟨final.1, final.2.1⟩
  | .run clock name => { d with schedule := (runNow clock d.schedule name).1 }
  | .setScriptRunner present => { d with schedule := { d.schedule with scriptRunner := present } }
  | .scriptEnds =>
    { d with schedule := { d.schedule with pendingScript := .empty, scriptTask := false } }
  | .stopAlarm => { d with schedule := { d.schedule with alarm := none } }

def start (clock : Clock) (disk : Files) (env : Nat → Env StoreFile) : Device :=
  let final := finish act (init clock) disk env
  ⟨final.1, final.2⟩

def Clock.Finds (clock : Clock) : Prop :=
  ∀ e : Entry, e.kind = .daily ∨ e.kind = .weekly → clock.localNext e ≠ 0

variable {clock : Clock} {s s' : State} {e e' : Entry}

def Plan.Leaves (s s' : State) : Plan → Prop
  | .refused _ => s' = s
  | .keep after => s' = after
  | .save after otherwise => s' = after ∨ s' = otherwise

/-- Where an entry comes from that was not there before the call. -/
def Brought (clock : Clock) (s : State) (e' : Entry) : Call → Prop
  | .addRelative .. | .addInterval .. => e'.timed
  | .addAt .. => e'.persistent = true ∧ e'.nextUtcSeconds ≠ 0
  | .addDaily .. | .addWeekly .. => e'.persistent = true
  | .remove _ => False
  | .setEnabled name enabled =>
    ∃ e ∈ s.table.entries, e.name = name ∧ e' = enableEntry clock enabled e
  | .poll => ∃ before, ∃ e ∈ s.table.entries, e' = (pollEntry clock before e).2.1

theorem mem_modify {f : Entry → Entry} {entries : List Entry} {index : Nat}
    (he : e' ∈ entries.modify index f) : e' ∈ entries ∨ ∃ e, entries[index]? = some e ∧ e' = f e := by
  induction entries generalizing index with
  | nil =>
    rw [modify_nil] at he
    cases he
  | cons e entries ih =>
    cases index with
    | zero =>
      rcases mem_cons.mp he with rfl | later
      · exact .inr ⟨e, rfl, rfl⟩
      · exact .inl (mem_cons_of_mem e later)
    | succ index =>
      rcases mem_cons.mp he with rfl | later
      · exact .inl mem_cons_self
      · rcases ih later with old | ⟨other, here, same⟩
        · exact .inl (mem_cons_of_mem e old)
        · exact .inr ⟨other, here, same⟩

section
variable (clock : Clock)

theorem trigger_fixed (s : State) (e : Entry) :
    (trigger clock s e).2.kind = e.kind ∧ (trigger clock s e).2.enabled = e.enabled ∧
      (trigger clock s e).2.nextUtcSeconds = e.nextUtcSeconds := by
  unfold trigger
  dsimp only
  split
  · exact ⟨rfl, rfl, rfl⟩
  · split <;> exact ⟨rfl, rfl, rfl⟩

theorem dueEntry_fixed (e : Entry) : (dueEntry clock e).1.kind = e.kind ∧ (dueEntry clock e).1.enabled = e.enabled := by
  unfold dueEntry
  dsimp only
  split
  · generalize (if e.nextUptimeMs = 0 then _ else _) = next
    split <;> exact ⟨rfl, rfl⟩
  · split
    · exact ⟨rfl, rfl⟩
    · split <;> exact ⟨rfl, rfl⟩

theorem rearm_kind (e : Entry) : (rearm clock e).1.kind = e.kind := by
  unfold rearm
  split
  · rfl
  · split
    · split <;> rfl
    · rfl

theorem pollEntry_kind (s : State) (e : Entry) : (pollEntry clock s e).2.1.kind = e.kind := by
  unfold pollEntry
  dsimp only
  split
  · split
    · exact (rearm_kind clock _).trans ((trigger_fixed clock s _).1.trans (dueEntry_fixed clock e).1)
    · exact (dueEntry_fixed clock e).1
  · rfl

end

def Entry.rooted (e : Entry) : Prop := e.timed ∨ e.persistent = true

theorem Entry.rooted.congr {e e' : Entry} (h : e.rooted) (kind : e'.kind = e.kind)
    (persistent : e'.persistent = e.persistent) : e'.rooted := by
  unfold Entry.rooted Entry.timed at *
  rw [kind, persistent]
  exact h

theorem Brought.rooted {c : Call} (h : Brought clock s e' c) (old : ∀ e ∈ s.table.entries, e.rooted) : e'.rooted := by
  cases c with
  | addRelative name seconds action value persistent => exact .inl h
  | addInterval name seconds action value => exact .inl h
  | addAt name atUtc action value => exact .inr h.1
  | addDaily name hour minute second action value => exact .inr h
  | addWeekly name weekdays hour minute second action value => exact .inr h
  | remove name => exact h.elim
  | setEnabled name enabled =>
    obtain ⟨e, he, -, rfl⟩ := h
    exact (old e he).congr rfl rfl
  | poll =>
    obtain ⟨before, e, he, rfl⟩ := h
    exact (old e he).congr (pollEntry_kind clock before e) (harmless_pollEntry clock before e).persistent

end SolarOs.Schedule
