import SolarOs.Schedule.Table
import SolarOs.Storage.Replace

/-! The store file of the schedule: the programs that save the table and load it, and the
calls that save. -/
namespace SolarOs.Schedule
open Program Storage List

def storeMagic : UInt32 := 0x53434844
def storeVersion : UInt16 := 1

/-- `schedule_store_t`; `entries` is its whole array. -/
structure Store where
  magic : UInt32
  version : UInt16
  count : Nat
  entries : List Entry
  deriving DecidableEq

/-- A file that holds one store and nothing else, or any other. -/
inductive StoreFile where
  | whole (store : Store)
  | other
  deriving DecidableEq

/-- The loop of `store_valid`, over entries that follow `earlier`. -/
def entriesValid (earlier : List Entry) : List Entry → Bool
  | [] => true
  | e :: entries =>
    storedEntryValid e && earlier.all (fun other => e.name ≠ other.name) &&
      entriesValid (earlier ++ [e]) entries

def storeValid (store : Store) : Bool :=
  store.magic = storeMagic && store.version = storeVersion && store.count ≤ maxEntries &&
    entriesValid [] (store.entries.take store.count)

/-- What `calloc` makes of an entry. -/
def blankEntry : Entry where
  name := .empty
  kind := .onceRelative
  action := .alarm
  enabled := false
  persistent := false

def stored (t : Table) : List Entry :=
  (t.entries.filter (·.persistent)).map fun e => { e with nextUtcSeconds := 0, nextUptimeMs := 0 }

/-- The store that `save_locked` fills. -/
def makeStore (t : Table) : Store where
  magic := storeMagic
  version := storeVersion
  count := (stored t).length
  entries := stored t ++ List.replicate (maxEntries - (stored t).length) blankEntry

theorem entriesValid_iff {earlier entries : List Entry} : entriesValid earlier entries = true ↔
      (∀ e ∈ entries, storedEntryValid e = true) ∧ (entries.map (·.name)).Nodup ∧
        ∀ e ∈ entries, ∀ other ∈ earlier, e.name ≠ other.name := by
  induction entries generalizing earlier with
  | nil => simp [entriesValid]
  | cons e entries ih =>
    have apart : (∀ f ∈ entries, ∀ other ∈ earlier ++ [e], f.name ≠ other.name) ↔
        e.name ∉ entries.map (·.name) ∧ ∀ f ∈ entries, ∀ other ∈ earlier, f.name ≠ other.name := by
      constructor
      · intro h
        refine ⟨?_, fun f hf other hother => h f hf other (mem_append_left _ hother)⟩
        intro there
        obtain ⟨f, hf, same⟩ := mem_map.mp there
        exact h f hf e (mem_append_right _ (mem_singleton_self e)) same
      · rintro ⟨absent, h⟩ f hf other hother same
        rcases mem_append.mp hother with old | new
        · exact h f hf other old same
        · cases mem_singleton.mp new
          exact absent (mem_map.mpr ⟨f, hf, same⟩)
    simp only [entriesValid, Bool.and_eq_true, ih, apart, all_eq_true, decide_eq_true_eq, forall_mem_cons,
      map_cons, nodup_cons]
    tauto

theorem storeValid_iff {store : Store} : storeValid store = true ↔
      store.magic = storeMagic ∧ store.version = storeVersion ∧ store.count ≤ maxEntries ∧
        (∀ e ∈ store.entries.take store.count, storedEntryValid e = true) ∧
          ((store.entries.take store.count).map (·.name)).Nodup := by
  simp only [storeValid, Bool.and_eq_true, decide_eq_true_eq, entriesValid_iff]
  constructor
  · rintro ⟨⟨⟨magic, version⟩, count⟩, valid, distinct, -⟩
    exact ⟨magic, version, count, valid, distinct⟩
  · rintro ⟨magic, version, count, valid, distinct⟩
    exact ⟨⟨⟨magic, version⟩, count⟩, valid, distinct, fun _ _ _ other => absurd other not_mem_nil⟩

/-- The store is written to the staged file. -/
def writeStaged (t : Table) : Prog StoreFile Bool := do
  if ← invoke (.create .staged .other) then
    let synced ← (do
      if ← invoke (.write .staged (.whole (makeStore t))) then
        invoke .sync
      else
        return false)
    let closed ← invoke .close
    return synced && closed
  else
    return false

/-- `save_locked`; the paths beside the store fit their buffers. -/
def saveLocked (s : State) : Prog StoreFile EspErr := do
  if s.storePath = false then
    return .invalidState
  else if (← invoke .alloc) = false then
    return .noMem
  else
    let written ← writeStaged s.table
    let err ← (do
      if written then
        replaceFile
      else
        return .fail)
    if err ≠ .ok then
      let _ ← invoke (.remove .staged)
    return err

/-- The entries of a valid store make a table. -/
def Table.ofStore (store : Store) (valid : storeValid store = true) : Table where
  entries := store.entries.take store.count
  count_le := by
    rw [length_take]
    exact Nat.le_trans (Nat.min_le_left ..) (storeValid_iff.mp valid).2.2.1
  distinct := (storeValid_iff.mp valid).2.2.2.2
  valid := fun e he _ => (storeValid_iff.mp valid).2.2.2.1 e he

def loadEntries (s : State) : Prog StoreFile State := do
  if s.storePath = false then
    return s
  else if (← invoke (.openRead .active)) = false then
    return s
  else if (← invoke .alloc) = false then
    let _ ← invoke .close
    return s
  else
    let contents ← invoke (.read .active)
    let _ ← invoke .close
    match contents with
    | some (.whole store) =>
      if valid : storeValid store = true then
        return { s with table := .ofStore store valid }
      else
        return s
    | _ => return s

variable (clock : Clock)

def startInterval (e : Entry) : Entry :=
  if e.kind = .interval then { e with nextUptimeMs := clock.uptimeMs + e.intervalSeconds * 1000 } else e

theorem harmless_startInterval (e : Entry) : Harmless e (startInterval clock e) := by
  unfold startInterval
  split
  · exact .of_fields rfl rfl rfl rfl rfl
  · exact .refl e

theorem harmless_startIntervals (entries : List Entry) :
    List.Forall₂ Harmless entries (entries.map (startInterval clock)) :=
  forall₂_map_right_iff.mpr (forall₂_same.mpr fun e _ => harmless_startInterval clock e)

def init : Prog StoreFile State := do
  let s ← (do
    if ← invoke .preparePath then
      loadEntries { initial with storePath := true }
    else
      return initial)
  return { s with
    table := s.table.replace (s.table.entries.map (startInterval clock))
      (harmless_startIntervals clock s.table.entries) }

/-- A call, with the schedule locked. -/
def perform (s : State) (c : Call) : Prog StoreFile (State × EspErr) := do
  match plan clock s c with
  | .refused error => return (s, error)
  | .keep after => return (after, .ok)
  | .save after otherwise =>
    let err ← saveLocked after
    return (if err = .ok then after else otherwise, err)

end SolarOs.Schedule
