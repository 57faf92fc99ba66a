import SolarOs.Contacts.Persistence

/-! Runs of calls, power losses and starts: whether a record that was promised can be
restored. -/
namespace SolarOs.Contacts
open Program Option Machine

variable {crc32 : StoreData → Nat} {w : World}

def Leads (next : Stage) (error : EspErr) (held : Rights) : Prop :=
  ∃ stage, stage ≠ .entered ∧ (error = .ok → stage = next) ∧ held = atStage stage

section
variable (snapshot : Snapshot)

theorem writeRecord_entitled : Entitled (Deals crc32) (Leads (.written snapshot)) (writeRecord snapshot)
      (atStage (.opened snapshot)) := by
  refine Entitled.alone (Deals.writeData snapshot) fun buffered _ => ?_
  cases buffered with
  | false => exact ⟨.failed, nofun, nofun, rfl⟩
  | true =>
    refine Entitled.alone (Deals.syncData snapshot) fun written _ => ?_
    cases written with
    | false => exact ⟨.failed, nofun, nofun, rfl⟩
    | true => exact ⟨.written snapshot, nofun, fun _ => rfl, rfl⟩

theorem writeHeader_entitled : Entitled (Deals crc32) (Leads (.headed snapshot)) (writeHeader crc32 snapshot)
      (atStage (.written snapshot)) := by
  refine Entitled.alone (Deals.writeHeader snapshot) fun buffered _ => ?_
  cases buffered with
  | false => exact ⟨.failed, nofun, nofun, rfl⟩
  | true =>
    refine Entitled.alone (Deals.syncHeader snapshot) fun headed _ => ?_
    cases headed with
    | false => exact ⟨.failed, nofun, nofun, rfl⟩
    | true => exact ⟨.headed snapshot, nofun, fun _ => rfl, rfl⟩

theorem writeOpened_entitled : Entitled (Deals crc32) (Leads (.headed snapshot)) (writeOpened crc32 snapshot)
      (atStage (.opened snapshot)) := by
  refine (writeRecord_entitled snapshot).bind fun written held hwritten => ?_
  have closing : ∀ error held, Leads (.headed snapshot) error held →
      Entitled (Deals crc32) (Leads (.headed snapshot))
        (do
          let closed ← invoke .close
          return if closed then error else .fail) held := by
    intro error held herror
    refine Entitled.freely Deals.close fun closed _ => ?_
    obtain ⟨stage, later, ok, rfl⟩ := herror
    cases closed with
    | false => exact ⟨stage, later, nofun, rfl⟩
    | true => exact ⟨stage, later, ok, rfl⟩
  obtain ⟨stage, later, ok, rfl⟩ := hwritten
  by_cases wrote : written = .ok
  · simp only [if_pos wrote, ok wrote]
    exact (writeHeader_entitled snapshot).bind closing
  · simp only [if_neg wrote]
    exact closing written _ ⟨stage, later, fun ok => absurd ok wrote, rfl⟩

theorem writeSnapshot_entitled : Entitled (Deals crc32) (Leads (.headed snapshot)) (writeSnapshot crc32 snapshot)
      (atStage (.taken snapshot)) := by
  refine Entitled.alone (Deals.openUpdate snapshot) fun updated _ => ?_
  cases updated with
  | true => exact writeOpened_entitled snapshot
  | false =>
    refine Entitled.alone (Deals.openTruncate snapshot) fun truncated _ => ?_
    cases truncated with
    | true => exact writeOpened_entitled snapshot
    | false => exact ⟨.failed, nofun, nofun, rfl⟩

end

def Persisted (error : EspErr) (held : Rights) : Prop :=
  ∃ stage, (error = .ok → stage = .saved) ∧ held = atStage stage

theorem persistAttempt_entitled (stage : Stage) :
    Entitled (Deals crc32) (fun result held => Persisted result.1 held) (persistAttempt crc32)
      (atStage stage) := by
  refine Entitled.alone (Deals.snapshot stage) fun snapshot _ => ?_
  refine (writeSnapshot_entitled snapshot).bind fun error held herror => ?_
  obtain ⟨last, later, ok, rfl⟩ := herror
  by_cases wrote : error = .ok
  · rw [ok wrote, wrote]
    refine Entitled.alone (Deals.finishOk snapshot) fun current _ => ?_
    exact ⟨.saved, fun _ => rfl, rfl⟩
  · refine Entitled.alone (Deals.finishError error snapshot last wrote later) fun current _ => ?_
    exact ⟨.failed, fun ok => absurd ok wrote, rfl⟩

theorem persistAttempts_entitled (attempts : Nat) {error : EspErr} {held : Rights} (h : Persisted error held) :
    Entitled (Deals crc32) Persisted (persistAttempts crc32 attempts error) held := by
  induction attempts generalizing error held with
  | zero => exact h
  | succ attempts ih =>
    obtain ⟨stage, -, rfl⟩ := h
    refine Entitled.freely Deals.hasPath fun known _ => ?_
    have attempt : ∀ path : EspErr, Entitled (Deals crc32) Persisted
        (if path ≠ .ok then pure path
        else do
          let result ← persistAttempt crc32
          if result.2 then persistAttempts crc32 attempts result.1 else return result.1) (atStage stage) := by
      intro path
      split
      · rename_i missing
        exact ⟨stage, fun ok => absurd ok missing, rfl⟩
      · refine (persistAttempt_entitled stage).bind fun result held hresult => ?_
        obtain ⟨error, again⟩ := result
        cases again with
        | true => exact ih hresult
        | false => exact hresult
    cases known with
    | true => exact attempt .ok
    | false => exact Entitled.freely Deals.preparePath fun path _ => attempt path

theorem persistCurrent_entitled (owed : Nat) :
    Entitled (Deals crc32) (fun _ held => held = 0) (persistCurrent crc32) (owed, 0) := by
  refine Entitled.alone (Deals.takeIo owed) fun _ _ => ?_
  refine (persistAttempts_entitled 3 (show Persisted .fail (atStage .entered) from ⟨_, nofun, rfl⟩)).bind
    fun error held persisted => ?_
  obtain ⟨stage, saved, rfl⟩ := persisted
  refine Entitled.alone (Deals.giveIo error stage saved) fun _ _ => ?_
  exact rfl

theorem body_entitled (c : Call) : Entitled (Deals crc32) (fun _ held => held = 0) (body crc32 c) 0 := by
  refine Entitled.alone (Deals.apply c) fun error _ => ?_
  by_cases ok : error = .ok
  · subst ok
    exact (persistCurrent_entitled 1).bind fun _ held none => none
  · show Entitled _ _ (if error = .ok then _ else _) (if error = .ok then _ else _)
    rw [if_neg ok, if_neg ok]
    exact rfl

/-- A power loss leaves one of the contents the file may have; a file of which nothing was
ever synchronised may be gone. -/
def Boot.Finds (b : Boot) : Option Disk → Prop
  | some disk => disk.Leaves (b.image.getD ⟨fun _ => none, fun _ => none⟩)
  | none => b.image = none

variable (crc32) in
def Backed : Calls → Prop :=
  Pool.Backed (Deals crc32) (fun (_ : EspErr) (held : Rights) => held = 0) (Inv crc32)

theorem restore_nothing : restore crc32 ⟨fun _ => none, fun _ => none⟩ = none := rfl

/-- What holds of the file and the records when the power is lost. -/
structure Stopped (crc32 : StoreData → Nat) (w : World) (g : Nat) (σ : Fin 2) (base : Option Nat) : Prop where
  made : ∀ d ∈ w.snapshots, Made d
  few : w.snapshots.length < 2147483648
  filed : Filed crc32 w g σ base

variable {base : Option Nat}

theorem Stopped.restored {g : Nat} {σ : Fin 2} (h : Stopped crc32 w g σ base)
    {b : Boot} (finds : b.Finds w.file) {header : Header} {data : StoreData}
    (found : b.restored crc32 = some (header, data)) : Backed crc32 (init crc32 b w) := by
  have image : ∃ im, b.image = some im ∧ restore crc32 im = some (header, data) := by
    unfold Boot.restored at found
    split at found
    · exact bind_eq_some_iff.mp found
    · cases found
  obtain ⟨im, there, read⟩ := image
  cases file : w.file with
  | none =>
    rw [file] at finds
    rw [show b.image = none from finds] at there
    cases there
  | some disk =>
    rw [file] at finds
    have leaves : disk.Leaves im := by
      have := finds
      simpa only [Boot.Finds, there, getD_some] using this
    have holds := h.filed.file disk file
    have valid : ∀ d ∈ w.snapshots, storeDataValid d = true := fun d hd => (h.made d hd).valid
    obtain ⟨k, record, later, settled⟩ := holds.restored valid h.few leaves read
    obtain ⟨s, consistent, storable, numbered, rfl⟩ := h.made data (List.mem_of_getElem? record)
    obtain ⟨hheader, -, -⟩ := (restore_some (holds.image_placed valid leaves) h.few read).1
    obtain ⟨-, parity, -, bounded⟩ := (holds.image_placed valid leaves).header _ _ hheader
    refine ⟨0, ?_, ?_⟩
    · simp only [init, found]
      rfl
    · simp only [init, found, diskToRuntime_runtimeToDisk storable consistent]
      refine ⟨⟨consistent, storable, numbered, h.made, h.few⟩,
        ⟨header.generation, header.dataSlot, some k, ⟨fun _ => ⟨rfl, rfl⟩, bounded, parity, ?_, ?_, ?_⟩,
          rfl, nofun⟩, fun _ _ promise => nomatch promise rfl⟩
      · intro disk' file'
        rw [there] at file'
        cases file'
        exact settled
      · intro missing
        rw [there] at missing
        cases missing
      · intro k' promised
        obtain ⟨b', hb, le⟩ := h.filed.promised k' promised
        exact ⟨k, rfl, le.trans (later b' hb)⟩

theorem Stopped.refiled {g : Nat} {σ : Fin 2} (h : Stopped crc32 w g σ base)
    {b : Boot} (finds : b.Finds w.file) (w' : World) (file : w'.file = b.image.map Image.settled)
    (knows : w'.knowsFile = !b.holds crc32) (generation : w'.diskGeneration = 0) (slot : w'.diskSlot = 0)
    (snapshots : w'.snapshots = w.snapshots) (promised : w'.promised = w.promised) :
    ∃ g σ base, Filed crc32 w' g σ base := by
  have valid : ∀ d ∈ w.snapshots, storeDataValid d = true := fun d hd => (h.made d hd).valid
  have unpromised : base = none → ∀ k, w'.promised = some k → ∃ b, (none : Option Nat) = some b ∧ k ≤ b := by
    intro none k some
    rw [promised] at some
    obtain ⟨b, hb, -⟩ := h.filed.promised k some
    rw [none] at hb
    cases hb
  cases there : b.image with
  | none =>
    have none : base = none := by
      cases before : w.file with
      | none => exact h.filed.nothing before
      | some disk =>
        rw [before] at finds
        simp only [Boot.Finds, there, getD_none] at finds
        exact ((h.filed.file disk before).unrestored valid h.few finds restore_nothing).1
    refine ⟨0, 0, Option.none, fun _ => ⟨generation.symm, slot.symm⟩, Nat.zero_le _, rfl, ?_, fun _ => rfl,
      unpromised none⟩
    intro disk file'
    rw [file, there] at file'
    cases file'
  | some im =>
    cases before : w.file with
    | none =>
      rw [before] at finds
      rw [show b.image = Option.none from finds] at there
      cases there
    | some disk =>
      rw [before] at finds
      simp only [Boot.Finds, there, getD_some] at finds
      have holds := h.filed.file disk before
      have settled : w'.file = some im.settled := by rw [file, there]; rfl
      cases read : restore crc32 im with
      | none =>
        obtain ⟨none, anew⟩ := holds.unrestored valid h.few finds read
        refine ⟨0, 0, Option.none, fun _ => ⟨generation.symm, slot.symm⟩, Nat.zero_le _, rfl, ?_,
          fun _ => rfl, unpromised none⟩
        intro disk' file'
        rw [settled] at file'
        cases file'
        rw [snapshots]
        exact anew
      | some found =>
        have unknown : w'.knowsFile = false := by
          rw [knows, Boot.holds, there, bind_some, read]
          rfl
        refine ⟨g, σ, base, fun known => ?_, snapshots ▸ h.filed.bounded, h.filed.parity, ?_, ?_, ?_⟩
        · rw [unknown] at known
          cases known
        · intro disk' file'
          rw [settled] at file'
          cases file'
          rw [snapshots]
          exact holds.settle finds
        · intro missing
          rw [settled] at missing
          cases missing
        · rw [promised]
          exact h.filed.promised

theorem Stopped.unrestored {g : Nat} {σ : Fin 2} (h : Stopped crc32 w g σ base)
    {b : Boot} (finds : b.Finds w.file) (nothing : b.restored crc32 = none) : Backed crc32 (init crc32 b w) := by
  have inv : Inv crc32 (init crc32 b w).state 0 := by
    obtain ⟨g', σ', base', filed⟩ := h.refiled finds (init crc32 b w).state
      (by simp only [init, nothing]) (by simp only [init, nothing, isSome_none, Bool.false_or])
      (by simp only [init, nothing]) (by simp only [init, nothing]) (by simp only [init, nothing])
      (by simp only [init, nothing])
    simp only [init, nothing] at filed ⊢
    exact ⟨⟨initial_consistent, initial_storable, initial_numbered, h.made, h.few⟩,
      ⟨g', σ', base', filed, rfl, nofun⟩, fun _ _ promise => nomatch promise rfl⟩
  refine ⟨0, ?_, inv⟩
  simp only [init, nothing]
  split
  · exact ⟨0, 0, rfl, persistCurrent_entitled 0, rfl⟩
  · exact rfl

def Possible (pool : Calls) : Moment → Prop
  | .turn t => Pool.Allowed enabled Careful pool t
  | .reboot b => b.Finds pool.state.file

theorem pass_backed (pool : Calls) (m : Moment) (h : Backed crc32 pool) (possible : Possible pool m) :
    Backed crc32 (pass crc32 pool m) := by
  cases m with
  | turn t => exact Pool.turn_backed operations_honour body_entitled pool t h possible
  | reboot b =>
    obtain ⟨total, share, inv⟩ := h
    obtain ⟨g, σ, base, filed, -⟩ := inv.filed
    have stopped : Stopped crc32 pool.state g σ base := ⟨inv.sound.made, inv.sound.few, filed⟩
    cases found : b.restored crc32 with
    | some r => exact stopped.restored possible found
    | none => exact stopped.unrestored possible found

def steps (thread count : Nat) : List Moment :=
  List.replicate count (.turn (.step thread ⟨0, true, .ok⟩))

def firstStart : List Moment := .reboot ⟨true, true, none⟩ :: steps 0 12

def cutShort : List Moment :=
  firstStart ++ .turn (.start (.upsertDiscovered ⟨2, .bytes [1], none, 0, 0, .null 0⟩)) :: steps 1 4 ++
    [.turn (.step 1 ⟨0, false, .ok⟩), .turn (.step 1 ⟨0, true, .ok⟩)]

/-- The record that was promised last, or a later one, is restored whatever a power loss
leaves. -/
def Kept (crc32 : StoreData → Nat) (w : World) : Prop :=
  ∀ k, w.promised = some k → ∃ disk, w.file = some disk ∧ ∀ image, disk.Leaves image →
    ∃ header data later, restore crc32 image = some (header, data) ∧ k ≤ later ∧
      w.snapshots[later]? = some data

def Stored (crc32 : StoreData → Nat) (w : World) : Prop :=
  ∃ disk, w.file = some disk ∧ ∀ image, disk.Leaves image →
    ∃ header data, restore crc32 image = some (header, data) ∧
      (diskToRuntime data).contacts = w.tables.contacts ∧
        (diskToRuntime data).endpoints = w.tables.endpoints

theorem Inv.kept {total : Rights} (h : Inv crc32 w total) : Kept crc32 w := by
  intro k promised
  obtain ⟨g, σ, base, filed, -⟩ := h.filed
  obtain ⟨b, hb, le⟩ := filed.promised k promised
  cases file : w.file with
  | none =>
    rw [filed.nothing file] at hb
    cases hb
  | some disk =>
    have holds := filed.file disk file
    have valid : ∀ d ∈ w.snapshots, storeDataValid d = true := fun d hd => (h.sound.made d hd).valid
    refine ⟨disk, rfl, fun image leaves => ?_⟩
    obtain ⟨header, data, read⟩ := holds.restorable valid h.sound.few leaves hb
    obtain ⟨later, record, least, -⟩ := holds.restored valid h.sound.few leaves read
    exact ⟨header, data, later, read, le.trans (least b hb), record⟩

theorem Inv.stored (h : Inv crc32 w 0) (ok : w.lastPersist = some .ok) : Stored crc32 w := by
  obtain ⟨g, σ, base, filed, locked, last⟩ := h.filed
  have free : w.ioHeld = false := by
    cases held : w.ioHeld with
    | false => rfl
    | true =>
      unfold Locked at locked
      rw [held] at locked
      obtain ⟨stage, same, -⟩ := locked
      have := congrArg Multiset.card (show (0 : Multiset Stage) = {stage} from same)
      simp at this
  have hb := last free ok
  obtain ⟨s, record, contacts, endpoints⟩ := h.fresh rfl (Multiset.notMem_zero _) fun _ => ok
  cases file : w.file with
  | none =>
    rw [filed.nothing file] at hb
    cases hb
  | some disk =>
    have holds := filed.file disk file
    have valid : ∀ d ∈ w.snapshots, storeDataValid d = true := fun d hd => (h.sound.made d hd).valid
    refine ⟨disk, file, fun image leaves => ?_⟩
    obtain ⟨header, data, read⟩ := holds.restorable valid h.sound.few leaves hb
    obtain ⟨later, there, least, -⟩ := holds.restored valid h.sound.few leaves read
    have bound := (List.getElem?_eq_some_iff.mp there).1
    have newest : later = w.snapshots.length - 1 := by
      have := least _ hb
      omega
    rw [newest, last_record record] at there
    cases there
    have restored := diskToRuntime_runtimeToDisk h.sound.storable h.sound.consistent
    refine ⟨header, _, read, ?_, ?_⟩
    · rw [← congrArg State.contacts restored]
      simp only [diskToRuntime, runtimeToDisk, contacts]
    · rw [← congrArg State.endpoints restored]
      simp only [diskToRuntime, runtimeToDisk, endpoints]

theorem unused_backed : Backed crc32 unused := by
  refine ⟨0, rfl, ⟨initial_consistent, initial_storable, initial_numbered, by simp [unused], by decide⟩,
    ⟨0, 0, none, ⟨nofun, Nat.zero_le _, rfl, nofun, fun _ => rfl, nofun⟩, rfl, nofun⟩,
    fun _ _ promise => nomatch promise rfl⟩

/-- In every run that never cuts a promised file to nothing and writes only to a file that
its start could read, a promised record or a later one is restored, and when all calls have
returned and the last persist has succeeded, so is what the tables hold. -/
theorem promises_kept (crc32 : StoreData → Nat) (moments : List Moment)
    (h : Machine.Admits (pass crc32) Possible unused moments) :
    Kept crc32 (run (pass crc32) unused moments).state ∧
      ((run (pass crc32) unused moments).quiet = true →
        (run (pass crc32) unused moments).state.lastPersist = some .ok →
          Stored crc32 (run (pass crc32) unused moments).state) := by
  obtain ⟨total, share, inv⟩ := run_induct pass_backed unused_backed h
  refine ⟨inv.kept, fun quiet ok => ?_⟩
  rw [share.quiet quiet] at inv
  exact inv.stored ok

theorem promises_kept_first : Kept (fun _ => 0) (run (pass fun _ => 0) unused firstStart).state ∧
      ((run (pass fun _ => 0) unused firstStart).quiet = true →
        (run (pass fun _ => 0) unused firstStart).state.lastPersist = some .ok →
          Stored (fun _ => 0) (run (pass fun _ => 0) unused firstStart).state) := by
  refine promises_kept (fun _ => 0) firstStart ⟨rfl, ?_⟩
  -- the start takes the lock, makes a record and writes it to a new file
  refine ⟨fun _ => trivial, fun _ => trivial, fun _ => ⟨rfl, by decide⟩, fun _ => trivial,
    fun _ _ _ => rfl, ?_⟩
  exact ⟨fun _ => trivial, fun _ => trivial, fun _ => trivial, fun _ => trivial, fun _ => trivial,
    fun _ => trivial, fun _ => trivial, trivial⟩

theorem promise_cut : ¬Kept (fun _ => 0) (run (pass fun _ => 0) unused cutShort).state := by
  intro kept
  have promised : (run (pass fun _ => 0) unused cutShort).state.promised = some 0 := by
    rfl
  have blank : (run (pass fun _ => 0) unused cutShort).state.file = some .blank := by
    rfl
  obtain ⟨disk, file, restored⟩ := kept 0 promised
  rw [blank] at file
  cases file
  obtain ⟨header, data, later, read, -⟩ := restored ⟨fun _ => none, fun _ => none⟩ (by simp [Disk.Leaves, Disk.blank])
  cases read

end SolarOs.Contacts
