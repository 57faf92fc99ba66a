import SolarOs.Contacts.Durable
import SolarOs.Contacts.Refusal
import SolarOs.Library.Rights

/-! The calls of the contacts taking turns, power losses and starts: what the file keeps of
the records that were promised. -/
namespace SolarOs.Contacts
open Program

variable {crc32 : StoreData → Nat} {w : World}

/-- How far the holder of the file lock has come. -/
inductive Stage where
  | entered
  | taken (snapshot : Snapshot)
  | opened (snapshot : Snapshot)
  | buffered (snapshot : Snapshot)
  | written (snapshot : Snapshot)
  | headerBuffered (snapshot : Snapshot)
  | headed (snapshot : Snapshot)
  | failed
  | saved

/-- The calls that have changed the tables and have not yet come to store them, and the
stage of the holder of the file lock. -/
abbrev Rights := Nat × Multiset Stage

def atStage (stage : Stage) : Rights := (0, {stage})

variable (crc32) in
/-- What the operations take and give. -/
inductive Deals : {β : Type} → Op β → Deal Rights β → Prop
  | apply (c : Call) :
    Deals (.apply c) ⟨0, fun error => if error = .ok then (1, 0) else 0, fun _ => True⟩
  | takeIo (owed : Nat) : Deals .takeIo ⟨(owed, 0), fun _ => atStage .entered, fun _ => True⟩
  | giveIo (error : EspErr) (stage : Stage) (saved : error = .ok → stage = .saved) :
    Deals (.giveIo error) ⟨atStage stage, fun _ => 0, fun _ => True⟩
  | hasPath : Deals .hasPath ⟨0, fun _ => 0, fun _ => True⟩
  | preparePath : Deals .preparePath ⟨0, fun _ => 0, fun _ => True⟩
  | snapshot (stage : Stage) :
    Deals .snapshot ⟨atStage stage, fun snapshot => atStage (.taken snapshot), fun _ => True⟩
  | openUpdate (snapshot : Snapshot) :
    Deals .openUpdate
      ⟨atStage (.taken snapshot), fun ok => atStage (if ok then .opened snapshot else .taken snapshot),
        fun _ => True⟩
  | openTruncate (snapshot : Snapshot) :
    Deals .openTruncate
      ⟨atStage (.taken snapshot), fun ok => atStage (if ok then .opened snapshot else .failed), fun _ => True⟩
  | writeData (snapshot : Snapshot) :
    Deals (.writeData snapshot.dataSlot snapshot.data)
      ⟨atStage (.opened snapshot), fun ok => atStage (if ok then .buffered snapshot else .failed), fun _ => True⟩
  | syncData (snapshot : Snapshot) :
    Deals (.syncFile (.data snapshot.dataSlot))
      ⟨atStage (.buffered snapshot), fun ok => atStage (if ok then .written snapshot else .failed), fun _ => True⟩
  | writeHeader (snapshot : Snapshot) :
    Deals (.writeHeader (Fin.ofNat 2 snapshot.diskGeneration) (snapshot.header crc32))
      ⟨atStage (.written snapshot), fun ok => atStage (if ok then .headerBuffered snapshot else .failed),
        fun _ => True⟩
  | syncHeader (snapshot : Snapshot) :
    Deals (.syncFile (.header (Fin.ofNat 2 snapshot.diskGeneration)))
      ⟨atStage (.headerBuffered snapshot), fun ok => atStage (if ok then .headed snapshot else .failed),
        fun _ => True⟩
  | close : Deals .close ⟨0, fun _ => 0, fun _ => True⟩
  | finishOk (snapshot : Snapshot) :
    Deals (.finish .ok snapshot) ⟨atStage (.headed snapshot), fun _ => atStage .saved, fun _ => True⟩
  | finishError (error : EspErr) (snapshot : Snapshot) (stage : Stage) (failed : error ≠ .ok)
    (later : stage ≠ .entered) :
    Deals (.finish error snapshot) ⟨atStage stage, fun _ => atStage .failed, fun _ => True⟩

def Made (d : StoreData) : Prop :=
  ∃ s, Consistent s ∧ Storable s ∧ Numbered s ∧ d = runtimeToDisk s

theorem Made.valid {d : StoreData} (h : Made d) : storeDataValid d = true := by
  obtain ⟨s, consistent, storable, -, rfl⟩ := h
  exact storeDataValid_runtimeToDisk storable consistent

structure Current (w : World) (g : Nat) (σ : Fin 2) (snapshot : Snapshot) : Prop where
  known : w.knowsFile = true
  generation : snapshot.diskGeneration = g + 1
  slot : snapshot.dataSlot = σ + 1
  last : w.snapshots.getLast? = some snapshot.data
  bounded : g + 1 ≤ w.snapshots.length

section
-- `σ + 1` is taken among the two slots, so there must be one
local instance twoSlots : NeZero 2 := ⟨two_ne_zero⟩

variable (crc32) in
/-- What the lock's holder has achieved at its stage. -/
def Reached (w : World) (g : Nat) (σ : Fin 2) (base : Option Nat) : Stage → Prop
  | .entered | .failed => True
  | .taken snapshot => Current w g σ snapshot
  | .opened snapshot => Current w g σ snapshot ∧ ∃ disk, w.file = some disk
  | .buffered snapshot => Current w g σ snapshot ∧
    ∃ disk, w.file = some disk ∧ (disk.data (σ + 1)).sync = [some snapshot.data]
  | .written snapshot => Current w g σ snapshot ∧
    ∃ disk, w.file = some disk ∧ disk.data (σ + 1) = [some snapshot.data]
  | .headerBuffered snapshot => Current w g σ snapshot ∧
    ∃ disk, w.file = some disk ∧ disk.data (σ + 1) = [some snapshot.data] ∧
      (disk.headers (σ + 1)).sync = [some (snapshot.header crc32)]
  | .headed snapshot => Current w g σ snapshot ∧
    ∃ disk, w.file = some disk ∧ disk.data (σ + 1) = [some snapshot.data] ∧
      disk.headers (σ + 1) = [some (snapshot.header crc32)]
  | .saved => base = some (w.snapshots.length - 1)

end

variable (crc32) in
structure Filed (w : World) (g : Nat) (σ : Fin 2) (base : Option Nat) : Prop where
  known : w.knowsFile = true → g = w.diskGeneration ∧ σ = w.diskSlot
  bounded : g ≤ w.snapshots.length
  parity : Fin.ofNat 2 g = σ
  file : ∀ disk, w.file = some disk → disk.Holds crc32 w.snapshots g σ base
  nothing : w.file = none → base = none
  promised : ∀ k, w.promised = some k → ∃ b, base = some b ∧ k ≤ b

structure Sound (w : World) : Prop where
  consistent : Consistent w.tables
  storable : Storable w.tables
  numbered : Numbered w.tables
  made : ∀ d ∈ w.snapshots, Made d
  few : w.snapshots.length < 2147483648

def Locked (w : World) (stages : Multiset Stage) (reached : Stage → Prop) : Prop :=
  if w.ioHeld then ∃ stage, stages = {stage} ∧ reached stage else stages = 0

def UpToDate (w : World) : Prop :=
  ∃ s, w.snapshots.getLast? = some (runtimeToDisk s) ∧ s.contacts = w.tables.contacts ∧
    s.endpoints = w.tables.endpoints

variable (crc32) in
structure Inv (w : World) (total : Rights) : Prop where
  sound : Sound w
  filed : ∃ g σ base, Filed crc32 w g σ base ∧ Locked w total.2 (Reached crc32 w g σ base) ∧
    (w.ioHeld = false → w.lastPersist = some .ok → base = some (w.snapshots.length - 1))
  fresh : total.1 = 0 → .entered ∉ total.2 → (w.ioHeld = false → w.lastPersist = some .ok) → UpToDate w

/-- No file that holds a promised record is cut to nothing, and records are made only once
the start has read the file; there are not too many of them. -/
def Careful {α : Type} : Op α → World → Env → Prop
  | .openTruncate, w, e => e.done = true → w.file.isSome → w.promised = none
  | .snapshot, w, _ => w.knowsFile = true ∧ w.snapshots.length + 1 < 2147483648
  | _, _, _ => True

variable {rest : Rights} {base : Option Nat} {σ : Fin 2} {g : Nat}

variable {stage : Stage}

theorem Inv.holder (h : Inv crc32 w (rest + atStage stage)) :
    w.ioHeld = true ∧ rest.2 = 0 ∧ ∃ g σ base, Filed crc32 w g σ base ∧ Reached crc32 w g σ base stage := by
  obtain ⟨g, σ, base, filed, locked, -⟩ := h.filed
  unfold Locked at locked
  cases held : w.ioHeld with
  | false =>
    rw [held] at locked
    exact absurd (show rest.2 + {stage} = 0 from locked) add_singleton_ne_zero
  | true =>
    rw [held] at locked
    obtain ⟨other, same, reached⟩ := locked
    obtain ⟨empty, rfl⟩ := alone_of_add (show rest.2 + {stage} = {other} from same)
    exact ⟨rfl, empty, g, σ, base, filed, reached⟩

theorem Inv.goOn {stage next : Stage} (h : Inv crc32 w (rest + atStage stage)) {w' : World}
    (tables : w'.tables = w.tables) (snapshots : w'.snapshots = w.snapshots) (held : w'.ioHeld = w.ioHeld)
    (later : stage ≠ .entered) (filed : Filed crc32 w' g σ base) (reached : Reached crc32 w' g σ base next) :
    Inv crc32 w' (rest + atStage next) := by
  obtain ⟨holds, alone, -⟩ := h.holder
  refine ⟨?_, ⟨g, σ, base, filed, ?_, fun free => ?_⟩, fun owed _ _ => ?_⟩
  · obtain ⟨consistent, storable, numbered, made, few⟩ := h.sound
    exact ⟨tables ▸ consistent, tables ▸ storable, tables ▸ numbered, snapshots ▸ made, snapshots ▸ few⟩
  · unfold Locked
    rw [held, holds]
    exact ⟨next, by show rest.2 + {next} = _; rw [alone, zero_add], reached⟩
  · rw [held, holds] at free
    cases free
  · have old := h.fresh owed
      (by show Stage.entered ∉ rest.2 + {stage}; rw [alone, zero_add]; simpa using Ne.symm later)
      fun free => by rw [holds] at free; cases free
    obtain ⟨s, last, contacts, endpoints⟩ := old
    exact ⟨s, by rw [snapshots, last], by rw [tables, contacts], by rw [tables, endpoints]⟩

theorem Filed.onDisk (h : Filed crc32 w g σ base) {f : Disk → Disk}
    (keeps : ∀ disk, w.file = some disk → (f disk).Holds crc32 w.snapshots g σ base) :
    Filed crc32 (w.onDisk f) g σ base := by
  refine ⟨h.known, h.bounded, h.parity, ?_, ?_, h.promised⟩
  · intro disk file
    obtain ⟨old, was, made⟩ := Option.map_eq_some_iff.mp file
    exact made ▸ keeps old was
  · intro none
    exact h.nothing (Option.map_eq_none_iff.mp none)

theorem World.onDisk_file {disk : Disk} (file : w.file = some disk) (f : Disk → Disk) :
    (w.onDisk f).file = some (f disk) := congrArg (Option.map f) file

variable {snapshot : Snapshot}

theorem Current.congr (h : Current w g σ snapshot) {w' : World}
    (knows : w'.knowsFile = w.knowsFile) (snapshots : w'.snapshots = w.snapshots) : Current w' g σ snapshot :=
  ⟨knows ▸ h.known, h.generation, h.slot, snapshots ▸ h.last, snapshots ▸ h.bounded⟩

theorem Reached.congr (h : Reached crc32 w g σ base stage) {w' : World}
    (knows : w'.knowsFile = w.knowsFile) (snapshots : w'.snapshots = w.snapshots) (file : w'.file = w.file) :
    Reached crc32 w' g σ base stage := by
  cases stage with
  | entered => trivial
  | taken snapshot => exact Current.congr h knows snapshots
  | opened snapshot | buffered snapshot | written snapshot | headerBuffered snapshot | headed snapshot =>
    exact ⟨h.1.congr knows snapshots, file ▸ h.2⟩
  | failed => trivial
  | saved =>
    show base = _
    rw [snapshots]
    exact h

theorem Locked.congr {stages : Multiset Stage} (h : Locked w stages (Reached crc32 w g σ base)) {w' : World}
    (held : w'.ioHeld = w.ioHeld) (knows : w'.knowsFile = w.knowsFile) (snapshots : w'.snapshots = w.snapshots)
    (file : w'.file = w.file) : Locked w' stages (Reached crc32 w' g σ base) := by
  unfold Locked at h ⊢
  rw [held]
  split
  · rename_i holds
    rw [if_pos holds] at h
    obtain ⟨stage, alone, reached⟩ := h
    exact ⟨stage, alone, reached.congr knows snapshots file⟩
  · rename_i free
    rwa [if_neg free] at h

theorem Current.headerSlot (h : Current w g σ snapshot) (filed : Filed crc32 w g σ base) :
    Fin.ofNat 2 snapshot.diskGeneration = σ + 1 := by
  have := filed.parity
  rw [h.generation, ← this]
  ext
  simp [Fin.ofNat, Fin.val_add]

theorem Filed.grow (h : Filed crc32 w g σ base) (d : StoreData) :
    Filed crc32 { w with snapshots := w.snapshots ++ [d] } g σ base :=
  ⟨h.known, h.bounded.trans (by simp), h.parity, fun disk file => (h.file disk file).grow d, h.nothing,
    h.promised⟩

theorem takeSnapshot_inv (h : Inv crc32 w (rest + atStage stage)) (known : w.knowsFile = true)
    (few : w.snapshots.length + 1 < 2147483648) :
    Inv crc32 w.takeSnapshot.1 (rest + atStage (.taken w.takeSnapshot.2)) := by
  obtain ⟨holds, alone, g, σ, base, filed, -⟩ := h.holder
  obtain ⟨consistent, storable, numbered, made, -⟩ := h.sound
  refine ⟨⟨consistent, storable, numbered, ?_, by simpa [World.takeSnapshot] using few⟩,
    ⟨g, σ, base, filed.grow _, ?_, fun free => ?_⟩, fun _ _ _ => ?_⟩
  · intro d hd
    rcases List.mem_append.mp hd with old | new
    · exact made d old
    · exact ⟨w.tables, consistent, storable, numbered, List.mem_singleton.mp new⟩
  · unfold Locked
    rw [show w.takeSnapshot.1.ioHeld = true from holds]
    refine ⟨_, by show rest.2 + {_} = _; rw [alone, zero_add], ?_⟩
    obtain ⟨generation, slot⟩ := filed.known known
    have bounded := filed.bounded
    refine ⟨known, ?_, ?_, List.getLast?_concat, by simp [World.takeSnapshot]; omega⟩
    · show nextGeneration w.diskGeneration = g + 1
      rw [← generation, nextGeneration, Nat.mod_eq_of_lt (by omega), if_pos (Nat.succ_ne_zero g)]
    · show w.diskSlot + 1 = σ + 1
      rw [slot]
  · rw [show w.takeSnapshot.1.ioHeld = true from holds] at free
    cases free
  · exact ⟨w.tables, List.getLast?_concat, rfl, rfl⟩

theorem apply_inv (h : Inv crc32 w rest) (c : Call) (now : Nat) : Inv crc32 { w with tables := call w.tables c now }
      (rest + if callResult w.tables c now = .ok then (1, 0) else 0) := by
  obtain ⟨consistent, storable, numbered, made, few⟩ := h.sound
  refine ⟨⟨consistent.call c now, storable.call c now, numbered.call c now, made, few⟩, ?_, ?_⟩
  · obtain ⟨g, σ, base, filed, locked, promise⟩ := h.filed
    refine ⟨g, σ, base,
      ⟨filed.known, filed.bounded, filed.parity, filed.file, filed.nothing, filed.promised⟩, ?_, promise⟩
    have same : (rest + if callResult w.tables c now = EspErr.ok then ((1, 0) : Rights) else 0).2 = rest.2 := by
      split
      · exact add_zero rest.2
      · exact add_zero rest.2
    rw [same]
    exact locked.congr rfl rfl rfl rfl
  · by_cases ok : callResult w.tables c now = .ok
    · intro owed
      rw [if_pos ok] at owed
      exact absurd (show rest.1 + 1 = 0 from owed) (Nat.succ_ne_zero _)
    · rw [if_neg ok, add_zero, consistent.call_refused storable numbered c now ok]
      exact h.fresh

theorem takeIo_inv {owed : Nat} (h : Inv crc32 w (rest + (owed, 0))) (free : w.ioHeld = false) :
    Inv crc32 { w with ioHeld := true } (rest + atStage .entered) := by
  obtain ⟨consistent, storable, numbered, made, few⟩ := h.sound
  obtain ⟨g, σ, base, filed, locked, -⟩ := h.filed
  refine ⟨⟨consistent, storable, numbered, made, few⟩, ⟨g, σ, base,
    ⟨filed.known, filed.bounded, filed.parity, filed.file, filed.nothing, filed.promised⟩, ?_, nofun⟩,
    fun _ outside => ?_⟩
  · unfold Locked at locked
    rw [free] at locked
    have none : rest.2 = 0 := (add_zero rest.2).symm.trans (show rest.2 + 0 = 0 from locked)
    exact ⟨.entered, by show rest.2 + {Stage.entered} = _; rw [none, zero_add], trivial⟩
  · exact absurd (show Stage.entered ∈ rest.2 + {Stage.entered} by simp) outside

theorem giveIo_inv (h : Inv crc32 w (rest + atStage stage)) {error : EspErr}
    (saved : error = .ok → stage = .saved) (e : Env) : Inv crc32 (act (.giveIo error) w e).1 (rest + 0) := by
  obtain ⟨holds, alone, g, σ, base, filed, reached⟩ := h.holder
  obtain ⟨consistent, storable, numbered, made, few⟩ := h.sound
  refine ⟨⟨consistent, storable, numbered, made, few⟩, ⟨g, σ, base,
    ⟨filed.known, filed.bounded, filed.parity, filed.file, filed.nothing, ?_⟩, ?_, ?_⟩, ?_⟩
  · intro k promised
    simp only [act] at promised
    split at promised
    · rename_i ok
      cases promised
      rw [saved ok] at reached
      exact ⟨_, reached, le_rfl⟩
    · exact filed.promised k promised
  · show rest.2 + 0 = 0
    rw [alone, zero_add]
  · intro _ ok
    cases Option.some.inj ok
    rw [saved rfl] at reached
    exact reached
  · intro owed _ ok
    cases Option.some.inj (ok rfl)
    have := saved rfl
    subst this
    exact h.fresh owed (by show Stage.entered ∉ rest.2 + {Stage.saved}; rw [alone]; simp)
      fun free => by rw [holds] at free; cases free

theorem Filed.truncate (h : Filed crc32 w g σ base) (careful : w.file.isSome → w.promised = none) :
    Filed crc32 { w with file := some .blank } g σ none := by
  refine ⟨h.known, h.bounded, h.parity, ?_, fun _ => rfl, ?_⟩
  · intro disk file
    cases file
    exact Disk.blank_holds crc32 w.snapshots g σ
  · intro k promised
    cases there : w.file with
    | none =>
      obtain ⟨b, hb, -⟩ := h.promised k promised
      rw [h.nothing there] at hb
      cases hb
    | some disk =>
      rw [show w.promised = some k from promised] at careful
      cases careful (by rw [there]; rfl)

theorem Filed.advance (h : Filed crc32 w g σ base) (current : Current w g σ snapshot)
    {disk : Disk} (file : w.file = some disk) (written : disk.data (σ + 1) = [some snapshot.data])
    (headed : disk.headers (σ + 1) = [some (snapshot.header crc32)]) :
    Filed crc32 { w with diskGeneration := snapshot.diskGeneration, diskSlot := snapshot.dataSlot }
      (g + 1) (σ + 1) (some (w.snapshots.length - 1)) := by
  refine ⟨fun _ => ⟨current.generation.symm, current.slot.symm⟩, current.bounded, ?_, ?_, ?_, ?_⟩
  · rw [← current.generation]
    exact current.headerSlot h
  · intro disk' file'
    have same : w.file = some disk' := file'
    rw [file] at same
    cases same
    exact (h.file disk file).advance current.last written headed current.generation rfl
  · intro missing
    rw [show w.file = none from missing] at file
    cases file
  · intro k promised
    obtain ⟨b, hb, le⟩ := h.promised k promised
    exact ⟨_, rfl, le.trans (base_le_last (h.file disk file) hb)⟩

theorem operations_honour : Pool.Honours (Deals crc32) act enabled Careful (Inv crc32) := by
  intro β op w e deal rest hdeal hinv can careful
  refine ⟨by cases hdeal <;> trivial, ?_⟩
  cases hdeal with
  | apply c =>
    rw [show rest + Deal.takes _ = rest from add_zero rest] at hinv
    exact apply_inv hinv c e.now
  | takeIo owed => exact takeIo_inv hinv can
  | giveIo error stage saved => exact giveIo_inv hinv saved e
  | hasPath => exact hinv
  | preparePath =>
    obtain ⟨⟨consistent, storable, numbered, made, few⟩, ⟨g, σ, base, filed, locked, last⟩, fresh⟩ := hinv
    exact ⟨⟨consistent, storable, numbered, made, few⟩, ⟨g, σ, base,
      ⟨filed.known, filed.bounded, filed.parity, filed.file, filed.nothing, filed.promised⟩,
      locked.congr rfl rfl rfl rfl, last⟩, fresh⟩
  | snapshot stage => exact takeSnapshot_inv hinv careful.1 careful.2
  | openUpdate snapshot =>
    obtain ⟨holds, -, g, σ, base, filed, reached⟩ := hinv.holder
    refine hinv.goOn rfl rfl rfl (by simp) filed ?_
    cases done : (act .openUpdate w e).2 with
    | false => exact reached
    | true =>
      have both : (e.done && w.file.isSome) = true := done
      rw [Bool.and_eq_true] at both
      exact ⟨reached, Option.isSome_iff_exists.mp both.2⟩
  | openTruncate snapshot =>
    obtain ⟨holds, -, g, σ, base, filed, reached⟩ := hinv.holder
    cases done : e.done with
    | false =>
      simp only [act, done]
      exact hinv.goOn rfl rfl rfl (by simp) filed trivial
    | true =>
      simp only [act, done, if_true]
      refine hinv.goOn rfl rfl rfl (by simp) (filed.truncate (careful done)) ?_
      exact ⟨Current.congr reached rfl rfl, _, rfl⟩
  | writeData snapshot =>
    obtain ⟨holds, -, g, σ, base, filed, current, disk, file⟩ := hinv.holder
    refine hinv.goOn rfl rfl rfl (by simp)
      (filed.onDisk fun disk there => current.slot ▸ (filed.file disk there).writeData current.last) ?_
    cases done : e.done with
    | false => simp [act, done, Reached]
    | true =>
      simp only [act, done, if_true]
      refine ⟨current.congr rfl rfl, _, World.onDisk_file file _, ?_⟩
      rw [current.slot]
      simp [Disk.writeData, Cell.write, Cell.sync]
  | syncData snapshot =>
    obtain ⟨holds, -, g, σ, base, filed, current, disk, file, buffered⟩ := hinv.holder
    cases done : e.done with
    | false =>
      simp only [act, done]
      exact hinv.goOn rfl rfl rfl (by simp) filed trivial
    | true =>
      simp only [act, done, if_true]
      refine hinv.goOn rfl rfl rfl (by simp) (filed.onDisk fun disk there => (filed.file disk there).sync _)
        ⟨current.congr rfl rfl, _, World.onDisk_file file _, ?_⟩
      simp only [Disk.sync, current.slot, Function.update_self]
      exact buffered
  | writeHeader snapshot =>
    obtain ⟨holds, -, g, σ, base, filed, current, disk, file, written⟩ := hinv.holder
    have slot := current.headerSlot filed
    rw [slot]
    refine hinv.goOn rfl rfl rfl (by simp) (filed.onDisk fun disk' there => ?_) ?_
    · rw [file] at there
      cases there
      refine (filed.file disk file).writeHeader current.last written current.slot ?_ ?_ ?_
      · exact slot
      · exact current.generation.trans_ne (Nat.succ_ne_zero g)
      · exact current.generation.trans_le current.bounded
    · cases done : e.done with
      | false => simp [act, done, Reached]
      | true =>
        simp only [act, done, if_true]
        refine ⟨current.congr rfl rfl, _, World.onDisk_file file _, written, ?_⟩
        simp [Disk.writeHeader, Cell.write, Cell.sync]
  | syncHeader snapshot =>
    obtain ⟨holds, -, g, σ, base, filed, current, disk, file, written, buffered⟩ := hinv.holder
    rw [current.headerSlot filed]
    cases done : e.done with
    | false =>
      simp only [act, done]
      exact hinv.goOn rfl rfl rfl (by simp) filed trivial
    | true =>
      simp only [act, done, if_true]
      refine hinv.goOn rfl rfl rfl (by simp) (filed.onDisk fun disk there => (filed.file disk there).sync _)
        ⟨current.congr rfl rfl, _, World.onDisk_file file _, written, ?_⟩
      simp only [Disk.sync, Function.update_self]
      exact buffered
  | close => exact hinv
  | finishOk snapshot =>
    obtain ⟨holds, -, g, σ, base, filed, current, disk, file, written, headed⟩ := hinv.holder
    exact hinv.goOn rfl rfl rfl (by simp) (filed.advance current file written headed) rfl
  | finishError error snapshot stage failed later =>
    obtain ⟨holds, -, g, σ, base, filed, reached⟩ := hinv.holder
    simp only [act, World.finish, if_neg failed]
    exact hinv.goOn rfl rfl rfl later filed trivial

end SolarOs.Contacts
