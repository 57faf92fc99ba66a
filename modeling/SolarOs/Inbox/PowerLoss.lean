import SolarOs.Inbox.Runs

/-! What starting the inbox makes of any disk. -/
namespace SolarOs.Inbox
open Program Function List

variable {s : State} {disk : Disk} {file : StoreFile}

def reload (disk : Disk) : State := (run init disk).2

def Readable (file : StoreFile) (place : Nat) : Prop :=
  ∃ slot, file.records place = some slot ∧ slot.entry.id ≠ 0

theorem run_readRecords_none (hstore : disk .store = some file) {places : List Nat} {place : Nat}
    (hplace : place ∈ places) (unreadable : ¬Readable file place) (slots : Nat → Slot) (unread : Nat) :
    run (readRecords places slots unread) disk = (disk, none) := by
  induction places generalizing slots unread with
  | nil => cases hplace
  | cons first places ih =>
    have read : reply (.readRecord first) disk calm = file.records first := by
      simp [reply, hstore, calm]
    unfold readRecords
    rw [run_bind, run_invoke, read]
    cases hfirst : file.records first with
    | none => rfl
    | some slot =>
      show run (if recordValid slot = true then _ else _) disk = _
      by_cases valid : recordValid slot = true
      · have named : slot.entry.id ≠ 0 := by simpa [recordValid] using valid
        rw [if_pos valid]
        rcases mem_cons.mp hplace with rfl | rest
        · exact absurd ⟨slot, hfirst, named⟩ unreadable
        · exact ih rest _ _
      · rw [if_neg valid]
        rfl

def Fresh (s : State) : Prop := s.ring.toList = []

/-- The inbox that a header and the records it covers describe. -/
structure Described (file : StoreFile) (header : ValidHeader) (s : State) : Prop where
  counted : newestHeader (file.headers 0) (file.headers 1) = some header
  readable : ∀ place ∈ coveredPlaces header.val, Readable file place
  entries : s.ring.toList = (coveredPlaces header.val).map file.slot
  nextId : s.nextId = header.val.nextId

theorem run_loadFrom_readable (start : State) (hstore : disk .store = some file) {header : ValidHeader}
    (counted : newestHeader (file.headers 0) (file.headers 1) = some header)
    (readable : ∀ place ∈ coveredPlaces header.val, Readable file place) :
    Described file header (run (loadFrom start header) disk).2.1 := by
  unfold loadFrom
  rw [run_bind, run_readRecords hstore _ readable]
  refine ⟨counted, readable, ?_, rfl⟩
  show (List.range header.val.count).map _ = ((List.range header.val.count).map _).map file.slot
  rw [map_map]
  apply map_congr_left
  intro i hi
  exact fill_mem (mem_map_of_mem hi) _

theorem run_loadFrom (start : State) (hstore : disk .store = some file) {header : ValidHeader}
    (counted : newestHeader (file.headers 0) (file.headers 1) = some header) :
    Fresh (run (loadFrom start header) disk).2.1 ∨
      Described file header (run (loadFrom start header) disk).2.1 := by
  by_cases readable : ∀ place ∈ coveredPlaces header.val, Readable file place
  · exact .inr (run_loadFrom_readable start hstore counted readable)
  · push Not at readable
    obtain ⟨place, hplace, unreadable⟩ := readable
    unfold loadFrom
    rw [run_bind, run_readRecords_none hstore hplace unreadable]
    show Fresh (run (storeReset (emptied start)) disk).2.1 ∨ _
    rw [run_storeReset]
    exact .inl rfl

theorem reload_cases (disk : Disk) :
    Fresh (reload disk) ∨ ∃ file header, disk .store = some file ∧ Described file header (reload disk) := by
  have fresh : Fresh (run (storeReset initial) disk).2.1 := by
    rw [run_storeReset]
    rfl
  have starts : reload disk = (run (storeLoad initial) disk).2.1 := by
    rw [reload, init, run_bind]
    rfl
  rw [starts]
  cases hstore : disk .store with
  | none =>
    rw [run_storeLoad_missing hstore]
    exact .inl fresh
  | some file =>
    by_cases sized : file.Sized
    · rw [run_storeLoad hstore sized]
      cases counted : newestHeader (file.headers 0) (file.headers 1) with
      | none => exact .inl fresh
      | some header =>
        rcases run_loadFrom initial hstore counted with empty | described
        · exact .inl empty
        · exact .inr ⟨file, header, rfl, described⟩
    · rw [run_storeLoad_unsized hstore sized]
      exact .inl fresh

end SolarOs.Inbox

namespace SolarOs.Inbox
open Program Function List

def interrupted (landed : Landed) : Env where
  done := false
  landed := landed
  prepared := .fail

def Interrupted (e : Env) : Prop := ∃ landed, e = interrupted landed

/-- The disk after power was lost within the operation that `n` others came before. -/
def lose {α : Type} (landed : Landed) (n : Nat) (p : Prog α) (disk : Disk) : Disk :=
  cut act calm (interrupted landed) p n disk

/-- Wherever power is lost, what is on the disk is `good`. -/
def Holds {α : Type} (good : Disk → Prop) (p : Prog α) (disk : Disk) : Prop :=
  Throughout act calm Interrupted good p disk

/-- Whatever is left of an operation is `good`. -/
def Within {α : Type} (good : Disk → Prop) (op : Op α) (disk : Disk) : Prop :=
  ∀ landed, good (effect op disk landed)

variable {α β : Type} {good : Disk → Prop} {disk : Disk} {s : State} {file : StoreFile}

theorem holds_iff (p : Prog α) (disk : Disk) : (∀ landed n, good (lose landed n p disk)) ↔ Holds good p disk := by
  rw [Holds, ← everyCut_iff ⟨interrupted .old, .old, rfl⟩]
  constructor
  · rintro h _ ⟨landed, rfl⟩ n
    exact h landed n
  · intro h landed n
    exact h _ ⟨landed, rfl⟩ n

theorem holds_call (op : Op α) (next : α → Prog β) : Holds good (.call op next) disk ↔
      Within good op disk ∧ Holds good (next (reply op disk calm)) (effect op disk .new) := by
  apply and_congr _ Iff.rfl
  constructor
  · intro h landed
    exact h _ ⟨landed, rfl⟩
  · rintro h _ ⟨landed, rfl⟩
    exact h landed

theorem holds_invoke (op : Op α) (f : α → Prog β) : Holds good (invoke op >>= f) disk ↔
      Within good op disk ∧ Holds good (f (reply op disk calm)) (effect op disk .new) := holds_call op f

theorem holds_skip {p : Prog α} {f : α → Prog β} {disk' : Disk} {result : α} (hp : Holds good p disk)
    (leaves : run p disk = (disk', result)) : Holds good (p >>= f) disk ↔ Holds good (f result) disk' := by
  have next : Holds good (f result) disk' ↔ Holds good (f (run p disk).2) (run p disk).1 := by rw [leaves]
  rw [next]
  exact ⟨Throughout.after, Throughout.bind hp⟩

theorem holds_bind_pure {p : Prog α} {f : α → Prog β} (quiet : ∃ result, f (run p disk).2 = pure result) :
    Holds good (p >>= f) disk ↔ Holds good p disk := throughout_bind_pure quiet

theorem within_quiet {op : Op α} (quiet : ∀ landed, effect op disk landed = disk) :
    Within good op disk ↔ good disk := by
  constructor
  · intro h
    have here := h .old
    rwa [quiet] at here
  · intro h landed
    rwa [quiet]

theorem holds_last {op : Op α} {next : α → Prog β}
    (rest : Holds good (next (reply op disk calm)) (effect op disk .new) ↔ good (effect op disk .new)) :
    Holds good (.call op next) disk ↔ Within good op disk :=
  (holds_call op next).trans ((and_congr Iff.rfl rest).trans (and_iff_left_of_imp fun h => h .new))

theorem holds_quiet {op : Op α} {next : α → Prog β} (quiet : ∀ landed, effect op disk landed = disk)
    (rest : Holds good (next (reply op disk calm)) (effect op disk .new) ↔ good disk) :
    Holds good (.call op next) disk ↔ good disk := by
  rw [holds_call, rest, within_quiet quiet, and_self_iff]

theorem holds_storeWrite_record (persistent : s.persistent = true) {index : Nat} (inside : index < capacity)
    (hfile : disk .store = some file) : Holds good (storeWrite s index false) disk ↔
      good disk ∧ ∀ landed, good (update disk .store
        (some (file.putRecord index landed (s.ring.slots index)))) := by
  unfold storeWrite
  rw [if_neg (usable persistent inside), holds_invoke, reply_openStore hfile, within_quiet fun _ => rfl]
  apply and_congr Iff.rfl
  refine (holds_last ?_).trans (forall_congr' fun landed => ?_)
  · exact holds_quiet (fun _ => rfl) (holds_quiet (fun _ => rfl) Iff.rfl)
  · rw [← effect_writeRecord hfile]
    exact Iff.rfl

theorem holds_storeWrite_header (persistent : s.persistent = true) {index : Nat} (inside : index < capacity)
    (hfile : disk .store = some file) : Holds good (storeWrite s index true) disk ↔
      good disk ∧
        (∀ landed, good (update disk .store
          (some (file.putRecord index landed (s.ring.slots index))))) ∧
        ∀ landed, good (update disk .store
          (some ((file.putRecord index .new (s.ring.slots index)).putHeader
            (successor s.generation % storeHeaderCopies) landed (makeHeader s (successor s.generation))))) := by
  have recorded : update disk .store (some (file.putRecord index .new (s.ring.slots index))) .store =
      some (file.putRecord index .new (s.ring.slots index)) := update_self _ _ _
  unfold storeWrite
  rw [if_neg (usable persistent inside), holds_invoke, reply_openStore hfile, within_quiet fun _ => rfl]
  apply and_congr Iff.rfl
  have record : Within good (.writeRecord .store index (s.ring.slots index)) disk ↔
      ∀ landed, good (update disk .store
        (some (file.putRecord index landed (s.ring.slots index)))) := by
    refine forall_congr' fun landed => ?_
    rw [effect_writeRecord hfile]
  have header : Within good (.writeHeader .store (successor s.generation % storeHeaderCopies)
      (makeHeader s (successor s.generation)))
        (update disk .store (some (file.putRecord index .new (s.ring.slots index)))) ↔
      ∀ landed, good (update disk .store
        (some ((file.putRecord index .new (s.ring.slots index)).putHeader
          (successor s.generation % storeHeaderCopies) landed (makeHeader s (successor s.generation))))) := by
    refine forall_congr' fun landed => ?_
    rw [effect_writeHeader recorded, update_idem]
  refine (holds_call _ _).trans ?_
  rw [← record, ← header]
  refine and_congr_right fun within => (holds_call _ _).trans ?_
  have synced := within .new
  refine (and_iff_right fun _ => synced).trans ?_
  rw [← effect_writeRecord hfile]
  exact holds_last (holds_quiet (fun _ => rfl) (holds_quiet (fun _ => rfl) Iff.rfl))

theorem writeHeader_elsewhere (disk : Disk) (copy : Nat) (header : Header) (landed : Landed) :
    effect (.writeHeader .temporary copy header) disk landed .store = disk .store := by
  simp [effect]

theorem writeRecord_elsewhere (disk : Disk) (index : Nat) (slot : Slot) (landed : Landed) :
    effect (.writeRecord .temporary index slot) disk landed .store = disk .store := by
  simp [effect]

theorem create_elsewhere (disk : Disk) (landed : Landed) :
    effect (.create .temporary) disk landed .store = disk .store := by
  cases landed <;> simp [effect, Landed.switch]

theorem remove_elsewhere (disk : Disk) (landed : Landed) :
    effect (.remove .backup) disk landed .store = disk .store := by
  cases landed <;> simp [effect, Landed.switch]

theorem holds_writeHeaders (header : Header) (copies : List Nat) (all : ∀ d : Disk, d .store = disk .store → good d) :
    Holds good (writeHeaders .temporary header copies) disk := by
  induction copies generalizing disk with
  | nil => exact all disk rfl
  | cons copy copies ih =>
    refine (holds_call _ _).mpr ⟨fun landed => all _ (writeHeader_elsewhere _ _ _ _), ih fun d hd => ?_⟩
    exact all d (hd.trans (writeHeader_elsewhere _ _ _ _))

theorem holds_writeRecords (s : State) (entries : List Nat) (all : ∀ d : Disk, d .store = disk .store → good d) :
    Holds good (writeRecords s .temporary entries) disk := by
  induction entries generalizing disk with
  | nil => exact all disk rfl
  | cons i entries ih =>
    refine (holds_call _ _).mpr ⟨fun landed => all _ (writeRecord_elsewhere _ _ _ _), ih fun d hd => ?_⟩
    exact all d (hd.trans (writeRecord_elsewhere _ _ _ _))

def gap (disk : Disk) : Disk := effect (.rename .store .backup) disk .new

theorem gap_store (disk : Disk) : gap disk .store = none := by simp [gap, effect, Landed.switch]

theorem gap_temporary (disk : Disk) : gap disk .temporary = disk .temporary := by
  simp [gap, effect, Landed.switch]

/-- The steps that put the temporary file in the place of the store, once there is no old
backup. -/
def exchange : Prog EspErr := do
  if ← invoke (.rename .store .backup) then
    if ← invoke (.rename .temporary .store) then
      let _ ← invoke (.remove .backup)
      return .ok
    else
      let _ ← invoke (.rename .backup .store)
      return .fail
  else
    return .fail

theorem holds_exchange {staged : StoreFile} (htemporary : disk .temporary = some staged)
    (hold : good disk) (hgap : good (gap disk)) (hnew : ∀ d : Disk, d .store = some staged → good d) :
    Holds good exchange disk := by
  have put : effect (.rename .temporary .store) (gap disk) .new .store = some staged := by
    simp [effect, Landed.switch, gap_temporary, htemporary]
  refine (holds_call _ _).mpr ⟨?_, (holds_call _ _).mpr ⟨?_, (holds_call _ _).mpr ⟨?_, ?_⟩⟩⟩
  · intro landed
    cases landed with
    | old => exact hold
    | torn => exact hold
    | new => exact hgap
  · intro landed
    cases landed with
    | old => exact hgap
    | torn => exact hgap
    | new => exact hnew _ put
  · intro landed
    exact hnew _ ((remove_elsewhere _ landed).trans put)
  · exact hnew _ ((remove_elsewhere _ .new).trans put)

theorem exchange_gap (h : Holds good exchange disk) : good (gap disk) := ((holds_call _ _).mp h).1 .new

theorem holds_replaceFile {staged : StoreFile} (hstore : disk .store = some file)
    (htemporary : disk .temporary = some staged) : Holds good replaceFile disk ↔
      good disk ∧ match disk .backup with
        | none => Holds good exchange disk
        | some _ => Holds good (.call (.remove .backup) fun _ => exchange) disk := by
  unfold replaceFile
  rw [holds_invoke, stat_some htemporary, within_quiet fun _ => rfl]
  refine and_congr_right fun here => ?_
  show Holds good (.call (.stat .store) _) disk ↔ _
  rw [holds_call, stat_some hstore, within_quiet fun _ => rfl, and_iff_right here]
  cases hbackup : disk .backup with
  | none =>
    show Holds good (.call (.stat .backup) _) disk ↔ _
    rw [holds_call, stat_none hbackup, within_quiet fun _ => rfl, and_iff_right here]
    exact Iff.rfl
  | some old =>
    show Holds good (.call (.stat .backup) _) disk ↔ _
    rw [holds_call, stat_some hbackup, within_quiet fun _ => rfl, and_iff_right here]
    exact Iff.rfl

theorem replaceFile_gap {staged : StoreFile} (hstore : disk .store = some file)
    (htemporary : disk .temporary = some staged) (h : Holds good replaceFile disk) :
    ∃ d : Disk, d .store = none ∧ good d := by
  have rest := ((holds_replaceFile hstore htemporary).mp h).2
  cases hbackup : disk .backup with
  | none =>
    rw [hbackup] at rest
    exact ⟨_, gap_store _, exchange_gap rest⟩
  | some old =>
    rw [hbackup] at rest
    exact ⟨_, gap_store _, exchange_gap ((holds_call _ _).mp rest).2⟩

theorem replaceFile_holds {staged : StoreFile} (hstore : disk .store = some file)
    (htemporary : disk .temporary = some staged) (hold : ∀ d : Disk, d .store = some file → good d)
    (hgap : ∀ d : Disk, d .store = none → good d) (hnew : ∀ d : Disk, d .store = some staged → good d) :
    Holds good replaceFile disk := by
  refine (holds_replaceFile hstore htemporary).mpr ⟨hold _ hstore, ?_⟩
  cases hbackup : disk .backup with
  | none => exact holds_exchange htemporary (hold _ hstore) (hgap _ (gap_store _)) hnew
  | some old =>
    have store : ∀ landed, effect (.remove .backup) disk landed .store = some file :=
      fun landed => (remove_elsewhere disk landed).trans hstore
    have temporary : effect (.remove .backup) disk .new .temporary = some staged := by
      simp [effect, Landed.switch, htemporary]
    exact (holds_call _ _).mpr ⟨fun landed => hold _ (store landed),
      holds_exchange temporary (hold _ (store .new)) (hgap _ (gap_store _)) hnew⟩

def staged (s : State) (disk : Disk) : Disk := update disk .temporary (some (rewrittenFile s))

theorem holds_storeRewrite (hfile : disk .store = some file) (hold : ∀ d : Disk, d .store = some file → good d) :
    Holds good (storeRewrite s) disk ↔ Holds good replaceFile (staged s disk) := by
  obtain ⟨headers, records⟩ := run_staging s disk
  have file' : staged s disk .temporary = some (rewrittenFile s) := update_self _ _ _
  have active : staged s disk .store = some file := by
    rw [staged, update_of_ne (by decide), hfile]
  have replaced := run_replaceFile active file'
  have store : ∀ staged, update disk Path.temporary staged .store = some file := by
    intro staged
    rw [update_of_ne (by decide), hfile]
  unfold storeRewrite
  refine (holds_call _ _).trans ((and_iff_right fun _ => hold _ hfile).trans ?_)
  refine (holds_call _ _).trans ((and_iff_right fun landed => hold _ ?_).trans ?_)
  · exact (create_elsewhere _ landed).trans hfile
  have within : ∀ staged (d : Disk), d .store = update disk .temporary staged .store → good d :=
    fun staged d hd => hold d (hd.trans (store staged))
  refine (holds_skip (holds_writeHeaders _ _ (within _)) headers).trans ?_
  refine (holds_skip (holds_writeRecords s _ (within _)) records).trans ?_
  refine (holds_call _ _).trans ((and_iff_right fun _ => hold _ active).trans ?_)
  refine (holds_call _ _).trans ((and_iff_right fun _ => hold _ active).trans ?_)
  show Holds good (do
    let err ← replaceFile
    _) (staged s disk) ↔ _
  refine holds_bind_pure ?_
  rw [replaced]
  exact ⟨_, rfl⟩

end SolarOs.Inbox

namespace SolarOs.Inbox
open Program Function List

/-- The entries have ids of their own, and the next id is not among them. -/
structure Distinct (s : State) : Prop where
  nodup : (s.ring.toList.map (·.entry.id)).Nodup
  fresh : s.nextId ∉ s.ring.toList.map (·.entry.id)

structure Recovers (before after : State) (disk : Disk) : Prop where
  entries : (reload disk).ring.toList = before.ring.toList ∨ (reload disk).ring.toList = after.ring.toList
  distinct : Distinct (reload disk)

structure Saved (s : State) (disk : Disk) (file : StoreFile) : Prop where
  regular : Regular s
  here : disk .store = some file
  stored : Stored s file

structure Shows (s : State) (file : StoreFile) : Prop where
  sized : file.Sized
  counted : ∃ valid, newestHeader (file.headers 0) (file.headers 1) =
    some ⟨makeHeader s s.generation, valid⟩
  records : ∀ i < s.ring.count, file.records (s.ring.index i) = some (s.ring.entry i)
  ids : ∀ slot ∈ s.ring.toList, slot.entry.id ≠ 0

variable {s after : State} {disk : Disk} {file : StoreFile}

theorem Saved.shows (h : Saved s disk file) : Shows s file where
  sized := ⟨h.stored.large, h.stored.small⟩
  counted := ⟨makeHeader_valid h.regular _, h.stored.newest h.regular⟩
  records := h.stored.records
  ids := h.regular.ids

theorem reload_described (hstore : disk .store = some file) (sized : file.Sized) {header : ValidHeader}
    (counted : newestHeader (file.headers 0) (file.headers 1) = some header)
    (readable : ∀ place ∈ coveredPlaces header.val, Readable file place) : Described file header (reload disk) := by
  have starts : reload disk = (run (loadFrom initial header) disk).2.1 := by
    rw [reload, init, run_bind, run_storeLoad hstore sized, counted]
    rfl
  rw [starts]
  exact run_loadFrom_readable initial hstore counted readable

theorem Shows.reload (h : Shows s file) (hstore : disk .store = some file) :
    (reload disk).ring.toList = s.ring.toList ∧ (reload disk).nextId = s.nextId := by
  obtain ⟨valid, counted⟩ := h.counted
  have readable : ∀ place ∈ coveredPlaces (makeHeader s s.generation), Readable file place := by
    intro place hplace
    obtain ⟨i, hi, rfl⟩ := mem_map.mp hplace
    have inside := mem_range.mp hi
    exact ⟨s.ring.entry i, h.records i inside, h.ids _ (s.ring.entry_mem inside)⟩
  have described := reload_described hstore h.sized counted readable
  refine ⟨described.entries.trans ?_, described.nextId⟩
  rw [coveredPlaces_eq, map_map]
  apply map_congr_left
  intro i hi
  rw [Function.comp_apply, StoreFile.slot, h.records i (mem_range.mp hi), Option.getD_some]

theorem reload_unreadable (hstore : disk .store = some file) {header : ValidHeader}
    (counted : newestHeader (file.headers 0) (file.headers 1) = some header) {place : Nat}
    (covered : place ∈ coveredPlaces header.val) (unreadable : ¬Readable file place) : Fresh (reload disk) := by
  rcases reload_cases disk with fresh | ⟨file', header', hstore', described⟩
  · exact fresh
  · cases hstore.symm.trans hstore'
    cases counted.symm.trans described.counted
    exact absurd (described.readable place covered) unreadable

theorem reload_missing (missing : disk .store = none) : Fresh (reload disk) := by
  rcases reload_cases disk with fresh | ⟨file', header', hstore', -⟩
  · exact fresh
  · cases missing.symm.trans hstore'

theorem Fresh.distinct (h : Fresh s) : Distinct s := by
  have none : s.ring.toList.map (·.entry.id) = [] := by rw [show s.ring.toList = [] from h, map_nil]
  exact ⟨none ▸ nodup_nil, none ▸ not_mem_nil⟩

theorem Distinct.congr {s' : State} (h : Distinct s) (entries : s'.ring.toList = s.ring.toList)
    (nextId : s'.nextId = s.nextId) : Distinct s' :=
  ⟨entries ▸ h.nodup, entries ▸ nextId ▸ h.fresh⟩

theorem Shows.recovers_before (h : Shows s file) (distinct : Distinct s) (hstore : disk .store = some file) :
    Recovers s after disk :=
  ⟨.inl (h.reload hstore).1, distinct.congr (h.reload hstore).1 (h.reload hstore).2⟩

theorem Shows.recovers_after (h : Shows after file) (distinct : Distinct after)
    (hstore : disk .store = some file) : Recovers s after disk :=
  ⟨.inr (h.reload hstore).1, distinct.congr (h.reload hstore).1 (h.reload hstore).2⟩

theorem Fresh.recovers_before (h : Fresh (reload disk)) (empty : Fresh s) : Recovers s after disk :=
  ⟨.inl (h.trans empty.symm), h.distinct⟩

theorem Fresh.recovers_after (h : Fresh (reload disk)) (empty : Fresh after) : Recovers s after disk :=
  ⟨.inr (h.trans empty.symm), h.distinct⟩

theorem Recovers.lost (h : Recovers s after disk) (fresh : Fresh (reload disk)) : Fresh s ∨ Fresh after := by
  rcases h.entries with same | same
  · exact .inl (same.symm.trans fresh)
  · exact .inr (same.symm.trans fresh)

theorem fresh_iff : Fresh s ↔ s.ring.count = 0 := by
  rw [← SlotRing.length_toList, length_eq_zero_iff]
  exact Iff.rfl

theorem putHeader_old (file : StoreFile) (copy : Nat) (header : Header) :
    file.putHeader copy .old header = file := by simp [StoreFile.putHeader, Landed.leave]

theorem putRecord_old (file : StoreFile) (index : Nat) (slot : Slot) :
    file.putRecord index .old slot = file := by simp [StoreFile.putRecord, Landed.leave]

theorem effect_old {α : Type} (op : Op α) (disk : Disk) : effect op disk .old = disk := by
  have write : ∀ (path : Path) (f : StoreFile → StoreFile), (∀ file, f file = file) →
      update disk path ((disk path).map f) = disk := by
    intro path f same
    have stays : (disk path).map f = disk path := by
      cases disk path with
      | none => rfl
      | some file => rw [Option.map_some, same]
    rw [stays, update_eq_self]
  cases op with
  | writeHeader path copy header =>
    exact write _ _ fun file => putHeader_old file copy header
  | writeRecord path index slot =>
    exact write _ _ fun file => putRecord_old file index slot
  | _ => rfl

theorem holds_start {α : Type} {good : Disk → Prop} {p : Prog α} (h : Holds good p disk) : good disk := by
  cases p with
  | done result => exact h
  | call op next =>
    have before := ((holds_call op next).mp h).1 .old
    rwa [effect_old] at before

theorem holds_finish {α : Type} {good : Disk → Prop} {p : Prog α} (h : Holds good p disk) : good (run p disk).1 := by
  induction p generalizing disk with
  | done result => exact h
  | call op next ih => exact ih _ ((holds_call op next).mp h).2

end SolarOs.Inbox
