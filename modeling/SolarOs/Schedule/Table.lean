import SolarOs.Esp
import SolarOs.Library.CString
import Mathlib.Data.List.Forall2
import Mathlib.Data.List.Nodup

/-! The schedule table of `solar_os_schedule.c`, and what the calls that may save it do to
it in memory. -/
namespace SolarOs.Schedule
open List

def maxEntries : Nat := 16
def nameMax : Nat := 24
def valueMax : Nat := 128

inductive Kind where
  | onceRelative | onceCalendar | interval | daily | weekly
  | unknown (value : Nat)
  deriving DecidableEq

inductive Action where
  | alarm | script
  | unknown (value : Nat)
  deriving DecidableEq

structure Entry where
  name : CString
  kind : Kind
  action : Action
  value : CString := .empty
  enabled : Bool
  persistent : Bool
  intervalSeconds : Nat := 0
  atUtcSeconds : Nat := 0
  hour : Nat := 0
  minute : Nat := 0
  second : Nat := 0
  weekdays : UInt8 := 0
  nextUtcSeconds : Nat := 0
  nextUptimeMs : Nat := 0
  runCount : UInt32 := 0
  skippedCount : UInt32 := 0
  deriving DecidableEq

def Entry.setting (e : Entry) : Entry :=
  { e with nextUtcSeconds := 0, nextUptimeMs := 0, runCount := 0, skippedCount := 0 }

/-- Letters, digits, `-` and `_`. -/
def nameByte (b : UInt8) : Bool :=
  (97 ≤ b && b ≤ 122) || (65 ≤ b && b ≤ 90) || (48 ≤ b && b ≤ 57) || b = 45 || b = 95

def nameValid (name : CString) : Bool :=
  name.strlen ≠ 0 && name.strnlen nameMax < nameMax && name.bytes.all nameByte

/-- `value` may be `NULL`. -/
def actionValid (action : Action) (value : Option CString) : Bool :=
  match action with
  | .alarm =>
    match value with
    | none => true
    | some value => value.strlen = 0
  | .script =>
    match value with
    | none => false
    | some value => value.bytes.head? = some 47 && value.strnlen valueMax < valueMax
  | .unknown _ => false

/-- What an entry of each kind has to tell. -/
def timingValid (e : Entry) : Bool :=
  match e.kind with
  | .onceRelative | .interval => e.intervalSeconds ≠ 0
  | .onceCalendar => e.atUtcSeconds ≠ 0
  | .daily => e.hour ≤ 23 && e.minute ≤ 59 && e.second ≤ 59
  | .weekly => e.hour ≤ 23 && e.minute ≤ 59 && e.second ≤ 59 && e.weekdays ≠ 0 && e.weekdays &&& 0x80 = 0
  | .unknown _ => false

def storedEntryValid (e : Entry) : Bool :=
  e.persistent && nameValid e.name && actionValid e.action (some e.value) && timingValid e

structure Harmless (e e' : Entry) : Prop where
  name : e'.name = e.name
  persistent : e'.persistent = e.persistent
  valid : storedEntryValid e' = storedEntryValid e

namespace Harmless

theorem refl (e : Entry) : Harmless e e := ⟨rfl, rfl, rfl⟩

theorem names {entries entries' : List Entry} (h : List.Forall₂ Harmless entries entries') :
    entries.map (·.name) = entries'.map (·.name) := by
  induction h with
  | nil => rfl
  | cons here _ ih => rw [map_cons, map_cons, ih, here.name]

theorem origin {entries entries' : List Entry} (h : List.Forall₂ Harmless entries entries') {e' : Entry}
    (he' : e' ∈ entries') : ∃ e ∈ entries, Harmless e e' := by
  induction h with
  | nil => cases he'
  | cons here _ ih =>
    rcases mem_cons.mp he' with rfl | later
    · exact ⟨_, mem_cons_self, here⟩
    · obtain ⟨e, he, same⟩ := ih later
      exact ⟨e, mem_cons_of_mem _ he, same⟩

theorem all_refl (entries : List Entry) : List.Forall₂ Harmless entries entries :=
  forall₂_same.mpr fun e _ => refl e

theorem modify (f : Entry → Entry) (harmless : ∀ e, Harmless e (f e)) (entries : List Entry) (index : Nat) :
    List.Forall₂ Harmless entries (entries.modify index f) := by
  induction entries generalizing index with
  | nil =>
    rw [modify_nil]
    exact .nil
  | cons e entries ih =>
    cases index with
    | zero => exact .cons (harmless e) (all_refl entries)
    | succ index => exact .cons (refl e) (ih index)

end Harmless

/-- The table: not too many entries, no two of one name, and the persistent ones can be
stored. -/
structure Table where
  entries : List Entry
  count_le : entries.length ≤ maxEntries
  distinct : (entries.map (·.name)).Nodup
  valid : ∀ e ∈ entries, e.persistent = true → storedEntryValid e = true

def Table.empty : Table where
  entries := []
  count_le := Nat.zero_le _
  distinct := nodup_nil
  valid := nofun

namespace Table

variable (t : Table)

def entryIndex (name : CString) : Option Nat := t.entries.findIdx? fun e => e.name = name

/-- An entry is put at the end. -/
def append (e : Entry) (room : t.entries.length < maxEntries) (new : t.entryIndex e.name = none)
    (storable : e.persistent = true → storedEntryValid e = true) : Table where
  entries := t.entries ++ [e]
  count_le := by
    rw [length_append, length_singleton]
    exact room
  distinct := by
    have absent : e.name ∉ t.entries.map (·.name) := by
      intro there
      obtain ⟨other, hother, same⟩ := mem_map.mp there
      have differs := findIdx?_eq_none_iff.mp new other hother
      simp [same] at differs
    rw [map_append]
    exact nodup_append.mpr ⟨t.distinct, nodup_singleton _, by
      intro a ha b hb same
      cases mem_singleton.mp hb
      rw [same] at ha
      exact absent ha⟩
  valid := by
    intro other hother
    rcases mem_append.mp hother with old | new
    · exact t.valid other old
    · cases mem_singleton.mp new
      exact storable

/-- The entries after it move up. -/
def erase (index : Nat) : Table where
  entries := t.entries.eraseIdx index
  count_le := Nat.le_trans (length_eraseIdx_le t.entries index) t.count_le
  distinct := by
    have sub := (eraseIdx_sublist t.entries index).map (·.name)
    exact t.distinct.sublist sub
  valid := fun e he => t.valid e (mem_of_mem_eraseIdx he)

/-- The entries are changed, each in its place. -/
def replace (entries : List Entry) (harmless : List.Forall₂ Harmless t.entries entries) : Table where
  entries := entries
  count_le := by
    rw [← harmless.length_eq]
    exact t.count_le
  distinct := by
    rw [← Harmless.names harmless]
    exact t.distinct
  valid := by
    intro e he
    obtain ⟨old, hold, same⟩ := Harmless.origin harmless he
    rw [same.persistent, same.valid]
    exact t.valid old hold

def kept : List Entry := (t.entries.filter (·.persistent)).map Entry.setting

end Table

def fillAction (value : Option CString) : CString :=
  match value with
  | none => .empty
  | some value => value.strlcpy valueMax

theorem fillAction_valid {action : Action} {value : Option CString} (h : actionValid action value = true) :
    actionValid action (some (fillAction value)) = true := by
  cases value with
  | none =>
    cases action with
    | alarm => rfl
    | script => cases h
    | unknown _ => cases h
  | some value =>
    have short : value.strlen < valueMax := by
      cases action with
      | alarm =>
        have empty : value.strlen = 0 := by simpa [actionValid] using h
        rw [empty]
        decide
      | script =>
        have : min value.strlen valueMax < valueMax := by
          exact of_decide_eq_true (Bool.and_eq_true_iff.mp h).2
        omega
      | unknown _ => cases h
    rwa [fillAction, CString.strlcpy_of_lt short]

/-- An entry that a call hands to `add_entry`: it is storable if it is persistent. -/
abbrev NewEntry := { e : Entry // e.persistent = true → storedEntryValid e = true }

/-- The entry with its name and its action, both checked before. -/
def newEntry (name : CString) (action : Action) (value : Option CString) (hname : nameValid name = true)
    (haction : actionValid action value = true) (timing : Entry) (htiming : timingValid timing = true) :
    NewEntry :=
  ⟨{ timing with name := name.strlcpy nameMax, action, value := fillAction value }, by
    intro persistent
    have short : name.strlen < nameMax := by
      have : min name.strlen nameMax < nameMax := by
        simp only [nameValid, Bool.and_eq_true, decide_eq_true_eq] at hname
        exact hname.1.2
      omega
    have timed : timingValid { timing with
        name := name.strlcpy nameMax, action, value := fillAction value } = true := htiming
    rw [storedEntryValid, timed, CString.strlcpy_of_lt short, hname, fillAction_valid haction]
    simpa using persistent⟩

theorem Harmless.of_fields {e e' : Entry} (name : e'.name = e.name) (persistent : e'.persistent = e.persistent)
    (action : e'.action = e.action) (value : e'.value = e.value) (timing : timingValid e' = timingValid e) :
    Harmless e e' where
  name := name
  persistent := persistent
  valid := by rw [storedEntryValid, name, persistent, action, value, timing, storedEntryValid]

structure State where
  storePath : Bool
  table : Table
  scriptRunner : Bool
  scriptTask : Bool
  pendingScript : CString
  alarm : Option CString

def initial : State where
  storePath := false
  table := .empty
  scriptRunner := false
  scriptTask := false
  pendingScript := .empty
  alarm := none

/-- What the clocks say during a call, where the calendar entries are due next, and whether
the task for a script can be created. -/
structure Clock where
  uptimeMs : Nat
  utcEpochMs : Option Nat
  localNext : Entry → Nat
  created : Entry → Bool

/-- The calls that may save the table. `addAt` comes with what `local_seconds` makes of its
date, if it is one. -/
inductive Call where
  | addRelative (name : CString) (seconds : Nat) (action : Action) (value : Option CString) (persistent : Bool)
  | addInterval (name : CString) (seconds : Nat) (action : Action) (value : Option CString)
  | addAt (name : CString) (atUtc : Option Nat) (action : Action) (value : Option CString)
  | addDaily (name : CString) (hour minute second : Nat) (action : Action) (value : Option CString)
  | addWeekly (name : CString) (weekdays : UInt8) (hour minute second : Nat) (action : Action)
    (value : Option CString)
  | remove (name : CString)
  | setEnabled (name : CString) (enabled : Bool)
  | poll

/-- What a call does in memory: nothing, a change that is not stored, or one that is saved,
with the state that is left if it cannot be. -/
inductive Plan where
  | refused (error : EspErr)
  | keep (s : State)
  | save (after otherwise : State)

variable (clock : Clock) (s : State)

def addEntry (new : Option NewEntry) : Plan :=
  match new with
  | none => .refused .invalidArg
  | some ⟨e, storable⟩ =>
    if absent : s.table.entryIndex e.name = none then
      if room : s.table.entries.length < maxEntries then
        let after := { s with table := s.table.append e room absent storable }
        if e.persistent then .save after s else .keep after
      else .refused .noMem
    else .refused .invalidState

section
variable (name : CString)

def addRelative (seconds : Nat) (action : Action) (value : Option CString)
    (persistent : Bool) : Plan :=
  addEntry s <|
    if h : seconds ≠ 0 ∧ nameValid name = true ∧ actionValid action value = true then
      some (newEntry name action value h.2.1 h.2.2
        { name, action, kind := .onceRelative, enabled := true, persistent, intervalSeconds := seconds,
          nextUptimeMs := clock.uptimeMs + seconds * 1000 } (by simp [timingValid, h.1]))
    else none

def addInterval (seconds : Nat) (action : Action) (value : Option CString) : Plan :=
  addEntry s <|
    if h : seconds ≠ 0 ∧ nameValid name = true ∧ actionValid action value = true then
      some (newEntry name action value h.2.1 h.2.2
        { name, action, kind := .interval, enabled := true, persistent := true, intervalSeconds := seconds,
          nextUptimeMs := clock.uptimeMs + seconds * 1000 } (by simp [timingValid, h.1]))
    else none

def addAt (atUtc : Option Nat) (action : Action) (value : Option CString) : Plan :=
  addEntry s <|
    match atUtc, clock.utcEpochMs with
    | some atUtc, some nowMs =>
      if h : (nameValid name = true ∧ actionValid action value = true) ∧ nowMs / 1000 < atUtc then
        some (newEntry name action value h.1.1 h.1.2
          { name, action, kind := .onceCalendar, enabled := true, persistent := true, atUtcSeconds := atUtc,
            nextUtcSeconds := atUtc }
          (by simpa [timingValid] using Nat.ne_of_gt (Nat.zero_lt_of_lt h.2)))
      else none
    | _, _ => none

def addDaily (hour minute second : Nat) (action : Action) (value : Option CString) : Plan :=
  addEntry s <|
    if h : (nameValid name = true ∧ actionValid action value = true) ∧
        hour ≤ 23 ∧ minute ≤ 59 ∧ second ≤ 59 then
      some (newEntry name action value h.1.1 h.1.2
        { name, action, kind := .daily, enabled := true, persistent := true, hour, minute, second }
        (by simp [timingValid, h.2]))
    else none

def addWeekly (weekdays : UInt8) (hour minute second : Nat) (action : Action)
    (value : Option CString) : Plan :=
  addEntry s <|
    if h : (nameValid name = true ∧ actionValid action value = true) ∧
        (hour ≤ 23 ∧ minute ≤ 59 ∧ second ≤ 59) ∧ weekdays ≠ 0 ∧ weekdays &&& 0x80 = 0 then
      some (newEntry name action value h.1.1 h.1.2
        { name, action, kind := .weekly, enabled := true, persistent := true, hour, minute, second, weekdays }
        (by simp [timingValid, h.2]))
    else none

def remove : Plan :=
  match s.table.entryIndex name with
  | none => .refused .notFound
  | some index =>
    let after := { s with table := s.table.erase index }
    if (s.table.entries[index]?.map (·.persistent)).getD false then .save after s else .keep after

/-- What `solar_os_schedule_set_enabled` makes of its entry. -/
def enableEntry (enabled : Bool) (e : Entry) : Entry :=
  { e with
    enabled
    nextUtcSeconds := 0
    nextUptimeMs :=
      if enabled = true ∧ (e.kind = .interval ∨ e.kind = .onceRelative) then
        clock.uptimeMs + e.intervalSeconds * 1000
      else e.nextUptimeMs }

def setEnabled (enabled : Bool) : Plan :=
  match s.table.entryIndex name with
  | none => .refused .notFound
  | some index =>
    let after := { s with
      table := s.table.replace (s.table.entries.modify index (enableEntry clock enabled))
        (Harmless.modify (enableEntry clock enabled) (fun _ => .of_fields rfl rfl rfl rfl rfl) _ _) }
    if (s.table.entries[index]?.map (·.persistent)).getD false then .save after s else .keep after

end

variable (e : Entry)

/-- `trigger_locked`: an alarm sounds, or the task for a script is started unless one is
there already. -/
def trigger : State × Entry :=
  let e := { e with runCount := e.runCount + 1 }
  if e.action = .alarm then
    ({ s with alarm := some e.name }, e)
  else if s.scriptTask || s.pendingScript.strlen ≠ 0 || !s.scriptRunner || !clock.created e then
    (s, { e with skippedCount := e.skippedCount + 1 })
  else
    ({ s with pendingScript := e.value.strlcpy valueMax, scriptTask := true }, e)

def advance (step now next : Nat) : Nat :=
  if step = 0 then next
  else if next + step ≤ now then advance step now (next + step)
  else next + step
termination_by now + 1 - next

/-- `compute_calendar_next_locked`. -/
def computeCalendarNext : Entry :=
  { e with nextUtcSeconds := if e.kind = .onceCalendar then e.atUtcSeconds else clock.localNext e }

/-- Whether an entry is due, after its next time has been worked out. -/
def dueEntry : Entry × Bool :=
  if e.kind = .onceRelative ∨ e.kind = .interval then
    let next := if e.nextUptimeMs = 0 then clock.uptimeMs + e.intervalSeconds * 1000 else e.nextUptimeMs
    if next ≤ clock.uptimeMs then
      ({ e with
        nextUptimeMs :=
          if e.kind = .interval then advance (e.intervalSeconds * 1000) clock.uptimeMs next else next }, true)
    else ({ e with nextUptimeMs := next }, false)
  else
    match clock.utcEpochMs with
    | none => (e, false)
    | some epochMs =>
      let e := if e.nextUtcSeconds = 0 then computeCalendarNext clock e else e
      (e, e.nextUtcSeconds ≠ 0 && e.nextUtcSeconds ≤ epochMs / 1000)

def rearm : Entry × Bool :=
  if e.kind = .onceRelative ∨ e.kind = .onceCalendar then ({ e with enabled := false }, e.persistent)
  else if e.kind = .daily ∨ e.kind = .weekly then
    let e := { e with nextUtcSeconds := 0 }
    (if clock.utcEpochMs.isSome then computeCalendarNext clock e else e, false)
  else (e, false)

/-- One pass of the loop of `solar_os_schedule_poll`. -/
def pollEntry : State × Entry × Bool :=
  if e.enabled then
    let (e, due) := dueEntry clock e
    if due then
      let (s, e) := trigger clock s e
      (s, rearm clock e)
    else (s, e, false)
  else (s, e, false)

def pollEntries : State → List Entry → State × List Entry × Bool
  | s, [] => (s, [], false)
  | s, e :: entries =>
    let (s, e, changed) := pollEntry clock s e
    let (s, entries, later) := pollEntries s entries
    (s, e :: entries, changed || later)

theorem Harmless.trans {e e' e'' : Entry} (h : Harmless e e') (h' : Harmless e' e'') : Harmless e e'' where
  name := h'.name.trans h.name
  persistent := h'.persistent.trans h.persistent
  valid := h'.valid.trans h.valid

theorem harmless_computeCalendarNext : Harmless e (computeCalendarNext clock e) :=
  .of_fields rfl rfl rfl rfl rfl

theorem harmless_trigger : Harmless e (trigger clock s e).2 := by
  unfold trigger
  dsimp only
  split
  · exact .of_fields rfl rfl rfl rfl rfl
  · split
    · exact .of_fields rfl rfl rfl rfl rfl
    · exact .of_fields rfl rfl rfl rfl rfl

theorem harmless_dueEntry : Harmless e (dueEntry clock e).1 := by
  unfold dueEntry
  dsimp only
  split
  · generalize (if e.nextUptimeMs = 0 then _ else _) = next
    split
    · exact .of_fields rfl rfl rfl rfl rfl
    · exact .of_fields rfl rfl rfl rfl rfl
  · split
    · exact .refl e
    · split
      · exact harmless_computeCalendarNext clock e
      · exact .refl e

theorem harmless_rearm : Harmless e (rearm clock e).1 := by
  unfold rearm
  split
  · exact .of_fields rfl rfl rfl rfl rfl
  · split
    · split
      · exact .of_fields rfl rfl rfl rfl rfl
      · exact .of_fields rfl rfl rfl rfl rfl
    · exact .refl e

theorem harmless_pollEntry : Harmless e (pollEntry clock s e).2.1 := by
  unfold pollEntry
  dsimp only
  split
  · split
    · exact ((harmless_dueEntry clock e).trans (harmless_trigger clock s _)).trans (harmless_rearm clock _)
    · exact harmless_dueEntry clock e
  · exact .refl e

theorem harmless_pollEntries (s : State) (entries : List Entry) :
    List.Forall₂ Harmless entries (pollEntries clock s entries).2.1 := by
  induction entries generalizing s with
  | nil => exact .nil
  | cons e entries ih => exact .cons (harmless_pollEntry clock s e) (ih _)

/-- `solar_os_schedule_poll`, as far as the table goes. -/
def poll : Plan :=
  let polled := pollEntries clock s s.table.entries
  let after := { polled.1 with
    table := s.table.replace polled.2.1 (harmless_pollEntries clock s s.table.entries) }
  if polled.2.2 then .save after after else .keep after

def plan : Call → Plan
  | .addRelative name seconds action value persistent => addRelative clock s name seconds action value persistent
  | .addInterval name seconds action value => addInterval clock s name seconds action value
  | .addAt name atUtc action value => addAt clock s name atUtc action value
  | .addDaily name hour minute second action value => addDaily s name hour minute second action value
  | .addWeekly name weekdays hour minute second action value =>
    addWeekly s name weekdays hour minute second action value
  | .remove name => remove s name
  | .setEnabled name enabled => setEnabled clock s name enabled
  | .poll => poll clock s

end SolarOs.Schedule
