import SolarOs.Inbox.Undisturbed

/-! The store file that stands for a state, and what loading it gives back. -/
namespace SolarOs.Inbox
open Program Function List

def age (first second : Nat) : Nat := (first + 2 ^ 32 - second) % 2 ^ 32

structure Older (s : State) (header : Header) : Prop where
  word : header.generation < 2 ^ 32
  recent : age s.generation header.generation = 1 ∨
    s.generation = 1 ∧ 1 ≤ age s.generation header.generation ∧ age s.generation header.generation ≤ 3
  shorter : header.count < s.ring.count ∨ s.ring.count = capacity

/-- The store file holds the state: one copy of the header is current, the other one is
as current or older, and the records of all entries are there. -/
structure Stored (s : State) (file : StoreFile) : Prop where
  large : recordsOffset ≤ file.size
  small : file.size ≤ storeMaxBytes
  current : file.headers (s.generation % 2) = some (makeHeader s s.generation)
  other : ∀ header, file.headers ((s.generation + 1) % 2) = some header →
    header = makeHeader s s.generation ∨ Older s header
  records : ∀ i < s.ring.count, file.records (s.ring.index i) = some (s.ring.entry i)

/-- Counters that a header can carry, and entries that a record can carry. -/
structure Regular (s : State) : Prop where
  persistent : s.persistent = true
  generation : 0 < s.generation
  generation_lt : s.generation < 2 ^ 32
  nextId : 0 < s.nextId
  nextId_lt : s.nextId < 2 ^ 32
  ids : ∀ slot ∈ s.ring.toList, slot.entry.id ≠ 0

variable {s : State} {file : StoreFile} {disk : Disk}

theorem makeHeader_valid (h : Regular s) (generation : Nat) : headerValid (makeHeader s generation) = true := by
  simp [headerValid, makeHeader, s.ring.head_lt, s.ring.count_le, ne_of_gt h.nextId]

def currentHeader (h : Regular s) : ValidHeader :=
  ⟨makeHeader s s.generation, makeHeader_valid h s.generation⟩

theorem checked_some {header : Header} (valid : headerValid header = true) :
    checked (some header) = some ⟨header, valid⟩ := by
  rw [checked, Option.bind_some, dif_pos valid]

theorem checked_eq_some {copy : Option Header} {header : ValidHeader} (h : checked copy = some header) :
    copy = some header.val := by
  obtain ⟨header', hcopy, hvalid⟩ := Option.bind_eq_some_iff.mp h
  split at hvalid
  · cases hvalid
    exact hcopy
  · cases hvalid

theorem generationNewer_self (generation : Nat) : generationNewer generation generation = false := by
  simp [generationNewer]

theorem generationNewer_iff (first second : Nat) :
    generationNewer first second = true ↔ 0 < age first second ∧ age first second < 2 ^ 31 := by
  simp [generationNewer, age]

theorem Older.compared {header : Header} (h : Older s header) : generationNewer s.generation header.generation = true ∧
      generationNewer header.generation s.generation = false := by
  have near : 1 ≤ age s.generation header.generation ∧ age s.generation header.generation ≤ 3 := by
    rcases h.recent with one | ⟨-, low, high⟩
    · omega
    · exact ⟨low, high⟩
  refine ⟨(generationNewer_iff _ _).mpr ⟨by omega, by omega⟩, ?_⟩
  rw [← Bool.not_eq_true, generationNewer_iff]
  unfold age at near ⊢
  omega

theorem Stored.newest (h : Stored s file) (regular : Regular s) :
    newestHeader (file.headers 0) (file.headers 1) = some (currentHeader regular) := by
  have valid : checked (some (makeHeader s s.generation)) = some (currentHeader regular) :=
    checked_some (makeHeader_valid regular s.generation)
  have hcurrent := h.current
  have hother := h.other
  rcases Nat.mod_two_eq_zero_or_one s.generation with even | odd
  · have next : (s.generation + 1) % 2 = 1 := by omega
    rw [even] at hcurrent
    rw [next] at hother
    rw [newestHeader, hcurrent, valid]
    cases hsecond : checked (file.headers 1) with
    | none => rfl
    | some second =>
      have older : generationNewer second.val.generation s.generation = false := by
        rcases hother second.val (checked_eq_some hsecond) with same | older
        · rw [same]
          exact generationNewer_self s.generation
        · exact older.compared.2
      show (if generationNewer second.val.generation s.generation = true then _ else _) = _
      rw [older]
      rfl
  · have next : (s.generation + 1) % 2 = 0 := by omega
    rw [odd] at hcurrent
    rw [next] at hother
    rw [newestHeader, hcurrent, valid]
    cases hfirst : checked (file.headers 0) with
    | none => rfl
    | some first =>
      show (if generationNewer s.generation first.val.generation = true then _ else _) = _
      rcases hother first.val (checked_eq_some hfirst) with same | older
      · have same : first = currentHeader regular := Subtype.ext same
        rw [same]
        split <;> rfl
      · rw [older.compared.1]
        rfl

def StoreFile.slot (file : StoreFile) (place : Nat) : Slot := (file.records place).getD .blank

def fill (file : StoreFile) (places : List Nat) (slots : Nat → Slot) : Nat → Slot :=
  places.foldl (fun slots place => update slots place (file.slot place)) slots

theorem fill_mem {places : List Nat} {place : Nat} (h : place ∈ places) (slots : Nat → Slot) :
    fill file places slots place = file.slot place := by
  have stays : ∀ (places : List Nat) (slots : Nat → Slot), slots place = file.slot place →
      fill file places slots place = file.slot place := by
    intro places
    induction places with
    | nil => exact fun _ same => same
    | cons other places ih =>
      intro slots same
      apply ih
      by_cases here : place = other
      · rw [here]
        exact update_self _ _ _
      · exact (update_of_ne here _ _).trans same
  induction places generalizing slots with
  | nil => cases h
  | cons other places ih =>
    rcases mem_cons.mp h with rfl | rest
    · exact stays places _ (update_self _ _ _)
    · exact ih rest _

theorem run_readRecords (hstore : disk .store = some file) (places : List Nat)
    (readable : ∀ place ∈ places, ∃ slot, file.records place = some slot ∧ slot.entry.id ≠ 0)
    (slots : Nat → Slot) (unread : Nat) : run (readRecords places slots unread) disk =
      (disk, some (fill file places slots,
        unread + places.countP fun place => (file.slot place).entry.unread)) := by
  induction places generalizing slots unread with
  | nil => rfl
  | cons place places ih =>
    obtain ⟨slot, hslot, named⟩ := readable place mem_cons_self
    have rest := ih fun other hother => readable other (mem_cons_of_mem place hother)
    have held : file.slot place = slot := by rw [StoreFile.slot, hslot, Option.getD_some]
    have read : reply (.readRecord place) disk calm = some slot := by simp [reply, hstore, hslot, calm]
    have valid : recordValid slot = true := by simpa [recordValid] using named
    unfold readRecords
    rw [run_bind, run_invoke, read]
    show run (if recordValid slot = true then _ else _) disk = _
    rw [if_pos valid, rest, countP_cons, held]
    have filled : fill file places (update slots place slot) = fill file (place :: places) slots := by
      rw [← held]
      rfl
    rw [filled]
    cases hunread : slot.entry.unread with
    | false => simp
    | true =>
      simp only [if_true]
      rw [add_assoc, add_comm 1]

/-- A state that loading gives back: the same entries and the same counters. -/
structure SameInbox (s s' : State) : Prop where
  entries : s'.ring.toList = s.ring.toList
  head : s'.ring.head = s.ring.head
  unread : s'.unread = s.ring.toList.countP fun slot => slot.entry.unread
  nextId : s'.nextId = s.nextId
  dropped : s'.dropped = s.dropped
  generation : s'.generation = s.generation
  persistent : s'.persistent = true

theorem coveredPlaces_eq (generation : Nat) :
    coveredPlaces (makeHeader s generation) = (List.range s.ring.count).map s.ring.index := rfl

theorem Stored.slot_index (h : Stored s file) {i : Nat} (hi : i < s.ring.count) :
    file.slot (s.ring.index i) = s.ring.entry i := by
  rw [StoreFile.slot, h.records i hi, Option.getD_some]

def StoreFile.Sized (file : StoreFile) : Prop := recordsOffset ≤ file.size ∧ file.size ≤ storeMaxBytes

theorem run_storeLoad_missing (missing : disk .store = none) (start : State) :
    run (storeLoad start) disk = run (storeReset start) disk := by
  have stat : reply (.stat .store) disk calm = .missing := by simp [reply, missing]
  unfold storeLoad
  rw [run_bind, run_invoke]
  show run (do
    let stat ← invoke (.stat .store)
    _) disk = _
  rw [run_bind, run_invoke, stat]
  rfl

theorem run_storeLoad_unsized (hstore : disk .store = some file) (unsized : ¬file.Sized) (start : State) :
    run (storeLoad start) disk = run (storeReset start) disk := by
  have stat : reply (.stat .store) disk calm = .found file.size := by simp [reply, hstore, calm]
  have refused : file.size < recordsOffset ∨ storeMaxBytes < file.size := by
    unfold StoreFile.Sized at unsized
    omega
  unfold storeLoad
  rw [run_bind, run_invoke]
  show run (do
    let stat ← invoke (.stat .store)
    _) disk = _
  rw [run_bind, run_invoke, stat]
  show run (if file.size < recordsOffset ∨ storeMaxBytes < file.size then _ else _) disk = _
  rw [if_pos refused]

theorem run_storeLoad (hstore : disk .store = some file) (sized : file.Sized) (start : State) :
    run (storeLoad start) disk =
      match newestHeader (file.headers 0) (file.headers 1) with
      | none => run (storeReset start) disk
      | some header => run (loadFrom start header) disk := by
  have stat : reply (.stat .store) disk calm = .found file.size := by simp [reply, hstore, calm]
  have accepted : ¬(file.size < recordsOffset ∨ storeMaxBytes < file.size) := by
    unfold StoreFile.Sized at sized
    omega
  have headers : reply .readHeaders disk calm = (file.headers 0, file.headers 1) := by
    simp [reply, hstore, calm, sized.1]
  unfold storeLoad
  rw [run_bind, run_invoke]
  show run (do
    let stat ← invoke (.stat .store)
    _) disk = _
  rw [run_bind, run_invoke, stat]
  show run (if file.size < recordsOffset ∨ storeMaxBytes < file.size then _ else _) disk = _
  rw [if_neg accepted, run_bind, run_invoke, reply_openStore hstore]
  show run (do
    let headers ← invoke .readHeaders
    _) disk = _
  rw [run_bind, run_invoke, headers]
  show run (match newestHeader (file.headers 0) (file.headers 1) with
    | none => _
    | some header => _) disk = _
  cases newestHeader (file.headers 0) (file.headers 1) with
  | none => rfl
  | some header => rfl

theorem Stored.load (h : Stored s file) (regular : Regular s) (hstore : disk .store = some file)
    (start : State) : ∃ s', run (storeLoad start) disk = (disk, (s', .ok)) ∧ SameInbox s s' := by
  have readable : ∀ place ∈ coveredPlaces (currentHeader regular).val,
      ∃ slot, file.records place = some slot ∧ slot.entry.id ≠ 0 := by
    intro place hplace
    obtain ⟨i, hi, rfl⟩ := mem_map.mp hplace
    have inside := mem_range.mp hi
    exact ⟨s.ring.entry i, h.records i inside, regular.ids _ (s.ring.entry_mem inside)⟩
  have records := run_readRecords hstore (coveredPlaces (currentHeader regular).val) readable (fun _ => .blank) 0
  have loads : run (storeLoad start) disk = run (loadFrom start (currentHeader regular)) disk := by
    rw [run_storeLoad hstore ⟨h.large, h.small⟩, h.newest regular]
  unfold loadFrom at loads
  rw [run_bind, records] at loads
  refine ⟨_, loads, ?_⟩
  have entry : ∀ i < s.ring.count, fill file (coveredPlaces (currentHeader regular).val)
      (fun _ => .blank) (s.ring.index i) = s.ring.entry i := by
    intro i hi
    have covered : s.ring.index i ∈ coveredPlaces (currentHeader regular).val := mem_map_of_mem (mem_range.mpr hi)
    rw [fill_mem covered, h.slot_index hi]
  refine ⟨?_, rfl, ?_, rfl, rfl, rfl, rfl⟩
  · apply map_congr_left
    intro i hi
    exact entry i (mem_range.mp hi)
  · show 0 + ((List.range s.ring.count).map s.ring.index).countP _ = ((List.range s.ring.count).map _).countP _
    rw [zero_add, countP_map, countP_map]
    apply countP_congr
    intro i hi
    rw [Function.comp_apply, Function.comp_apply, h.slot_index (mem_range.mp hi)]

end SolarOs.Inbox
