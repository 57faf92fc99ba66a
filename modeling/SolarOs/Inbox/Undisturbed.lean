import SolarOs.Inbox.Store

/-! The programs of the store when every file operation succeeds: what they return and
what they leave on the disk. -/
namespace SolarOs.Inbox
open Program Function

structure Calm (e : Env) : Prop where
  done : e.done = true
  prepared : e.prepared = .ok

def calm : Env where
  done := true
  landed := .new
  prepared := .ok

def run {α : Type} (p : Prog α) (disk : Disk) : Disk × α := finish act p disk fun _ => calm

theorem act_calm {α : Type} (op : Op α) (disk : Disk) {e : Env} (h : Calm e) : act op disk e = act op disk calm := by
  have same : reply op disk e = reply op disk calm := by
    cases op <;> simp [reply, h.done, h.prepared, calm]
  simp [act, h.done, same, calm]

theorem finish_calm {α : Type} (p : Prog α) (disk : Disk) {env : Nat → Env} (h : ∀ n, Calm (env n)) :
    finish act p disk env = run p disk :=
  finish_congr p disk fun n _ op d => act_calm op d (h n)

variable {α β : Type} {disk : Disk}

@[simp] theorem run_pure (result : α) (disk : Disk) : run (pure result) disk = (disk, result) := rfl

@[simp] theorem run_bind (p : Prog α) (f : α → Prog β) (disk : Disk) :
    run (p >>= f) disk = run (f (run p disk).2) (run p disk).1 := finish_bind_const p f disk calm

@[simp] theorem run_invoke (op : Op α) (disk : Disk) :
    run (invoke op) disk = (effect op disk .new, reply op disk calm) := rfl

variable {file : StoreFile}

variable {path : Path}

theorem effect_writeHeader (h : disk path = some file) (copy : Nat) (header : Header)
    (landed : Landed) : effect (.writeHeader path copy header) disk landed =
      update disk path (some (file.putHeader copy landed header)) := by
  show update disk path ((disk path).map _) = _
  rw [h]
  rfl

theorem effect_writeRecord (h : disk path = some file) (index : Nat) (slot : Slot) (landed : Landed) :
    effect (.writeRecord path index slot) disk landed =
      update disk path (some (file.putRecord index landed slot)) := by
  show update disk path ((disk path).map _) = _
  rw [h]
  rfl

theorem reply_openStore (h : disk .store = some file) : reply .openStore disk calm = true := by
  simp [reply, h, calm]

def StoreFile.putHeaders (file : StoreFile) (header : Header) (copies : List Nat) : StoreFile :=
  copies.foldl (fun file copy => file.putHeader copy .new header) file

theorem run_writes {program : List Nat → Prog Bool} {put : StoreFile → Nat → StoreFile} (h : disk path = some file)
    (none : ∀ disk, run (program []) disk = (disk, true)) (some_ : ∀ {disk file} x xs, disk path = some file →
      run (program (x :: xs)) disk = run (program xs) (update disk path (some (put file x)))) (xs : List Nat) :
    run (program xs) disk = (update disk path (some (xs.foldl put file)), true) := by
  induction xs generalizing disk file with
  | nil => rw [none, List.foldl_nil, ← h, update_eq_self]
  | cons x xs ih => rw [some_ x xs h, ih (update_self ..), update_idem, List.foldl_cons]

theorem run_writeHeaders (path : Path) (header : Header) (copies : List Nat) (h : disk path = some file) :
    run (writeHeaders path header copies) disk = (update disk path (some (file.putHeaders header copies)), true) := by
  refine run_writes h (fun _ => rfl) (fun copy copies h => ?_) copies
  rw [← effect_writeHeader h]
  rfl

def StoreFile.putRecords (file : StoreFile) (s : State) (entries : List Nat) : StoreFile :=
  entries.foldl (fun file i => file.putRecord (s.ring.index i) .new (s.ring.entry i)) file

theorem run_writeRecords (s : State) (path : Path) (entries : List Nat) (h : disk path = some file) :
    run (writeRecords s path entries) disk = (update disk path (some (file.putRecords s entries)), true) := by
  refine run_writes h (fun _ => rfl) (fun i entries h => ?_) entries
  rw [← effect_writeRecord h]
  rfl

variable {s : State}

def resetFile (s : State) : StoreFile :=
  StoreFile.empty.putHeaders (makeHeader s (successor s.generation)) (List.range storeHeaderCopies)

theorem run_storeReset (s : State) (disk : Disk) : run (storeReset s) disk = (update disk .store (some (resetFile s)),
      ({ s with generation := successor s.generation, persistent := true, storageError := .ok }, .ok)) := by
  have created : update disk Path.store (some StoreFile.empty) .store = some StoreFile.empty := update_self _ _ _
  have headers := run_writeHeaders .store (makeHeader s (successor s.generation)) (List.range storeHeaderCopies) created
  rw [update_idem] at headers
  unfold storeReset
  rw [run_bind, run_invoke]
  show run (do
    let ok ← writeHeaders .store (makeHeader s (successor s.generation)) (List.range storeHeaderCopies)
    _) (update disk .store (some .empty)) = _
  rw [run_bind, headers]
  rfl

theorem usable (persistent : s.persistent = true) {index : Nat} (inside : index < capacity) :
    ¬(s.persistent = false ∨ capacity ≤ index) := by
  rintro (no | no)
  · rw [persistent] at no
    cases no
  · exact absurd inside (Nat.not_lt_of_le no)

theorem run_storeWrite_record (persistent : s.persistent = true) {index : Nat} (inside : index < capacity)
    (h : disk .store = some file) : run (storeWrite s index false) disk =
      (update disk .store (some (file.putRecord index .new (s.ring.slots index))),
        ({ s with storageError := .ok }, .ok)) := by
  unfold storeWrite
  rw [if_neg (usable persistent inside), run_bind, run_invoke, reply_openStore h]
  show (effect (.writeRecord .store index (s.ring.slots index)) disk .new, _) = _
  rw [effect_writeRecord h]
  rfl

theorem run_storeWrite_header (persistent : s.persistent = true) {index : Nat} (inside : index < capacity)
    (h : disk .store = some file) : run (storeWrite s index true) disk =
      (update disk .store (some ((file.putRecord index .new (s.ring.slots index)).putHeader
          (successor s.generation % storeHeaderCopies) .new (makeHeader s (successor s.generation)))),
        ({ s with generation := successor s.generation, storageError := .ok }, .ok)) := by
  have recorded : update disk .store (some (file.putRecord index .new (s.ring.slots index))) .store =
      some (file.putRecord index .new (s.ring.slots index)) := update_self _ _ _
  unfold storeWrite
  rw [if_neg (usable persistent inside), run_bind, run_invoke, reply_openStore h]
  show (effect (.writeHeader .store (successor s.generation % storeHeaderCopies)
      (makeHeader s (successor s.generation)))
      (effect (.writeRecord .store index (s.ring.slots index)) disk .new) .new, _) = _
  rw [effect_writeRecord h, effect_writeHeader recorded, update_idem]
  rfl

def rewrittenFile (s : State) : StoreFile :=
  (resetFile s).putRecords s (List.range s.ring.count)

theorem stat_some (h : disk path = some file) : reply (.stat path) disk calm = .found file.size := by
  simp [reply, h, calm]

theorem stat_none (h : disk path = none) : reply (.stat path) disk calm = .missing := by
  simp [reply, h]

/-- The headers and then the records of the temporary file. -/
theorem run_staging (s : State) (disk : Disk) :
    run (writeHeaders .temporary (makeHeader s (successor s.generation)) (List.range storeHeaderCopies))
      (update disk .temporary (some .empty)) =
        (update disk .temporary (some (resetFile s)), true) ∧
    run (writeRecords s .temporary (List.range s.ring.count)) (update disk .temporary (some (resetFile s))) =
      (update disk .temporary (some (rewrittenFile s)), true) := by
  have headers := run_writeHeaders .temporary (makeHeader s (successor s.generation)) (List.range storeHeaderCopies)
    (update_self Path.temporary (some StoreFile.empty) disk)
  have records := run_writeRecords s .temporary (List.range s.ring.count)
    (update_self Path.temporary (some (resetFile s)) disk)
  rw [update_idem] at headers records
  exact ⟨headers, records⟩

theorem run_replaceFile {file staged : StoreFile} (hstore : disk .store = some file)
    (htemporary : disk .temporary = some staged) :
    run replaceFile disk = (fun path => if path = .store then some staged else none, .ok) := by
  unfold replaceFile
  rw [run_bind, run_invoke, stat_some htemporary]
  show run (do
    let active ← invoke (.stat .store)
    _) disk = _
  rw [run_bind, run_invoke, stat_some hstore]
  show run (do
    let stale ← invoke (.stat .backup)
    _) disk = _
  rw [run_bind, run_invoke]
  cases hbackup : disk .backup with
  | none =>
    rw [stat_none hbackup]
    refine Prod.ext ?_ rfl
    funext path
    cases path <;> simp [effect, Landed.switch, htemporary, reply, calm, update]
  | some old =>
    rw [stat_some hbackup]
    refine Prod.ext ?_ rfl
    funext path
    cases path <;> simp [effect, Landed.switch, htemporary, reply, calm, update]

theorem run_storeRewrite (h : disk .store = some file) : run (storeRewrite s) disk =
      (fun path => if path = .store then some (rewrittenFile s) else none,
        ({ s with generation := successor s.generation, persistent := true, storageError := .ok }, .ok)) := by
  obtain ⟨headers, records⟩ := run_staging s disk
  have staged : update disk Path.temporary (some (rewrittenFile s)) .temporary =
      some (rewrittenFile s) := update_self _ _ _
  have active : update disk Path.temporary (some (rewrittenFile s)) .store = some file := by
    rw [update_of_ne (by decide), h]
  have replaced := run_replaceFile active staged
  unfold storeRewrite
  show run (do
    let headers ← writeHeaders .temporary (makeHeader s (successor s.generation)) (List.range storeHeaderCopies)
    _) (update disk .temporary (some .empty)) = _
  rw [run_bind, headers]
  show run (do
    let records ← writeRecords s .temporary (List.range s.ring.count)
    _) (update disk .temporary (some (resetFile s))) = _
  rw [run_bind, records]
  show run (do
    let err ← replaceFile
    _) (update disk .temporary (some (rewrittenFile s))) = _
  rw [run_bind, replaced]
  rfl

end SolarOs.Inbox
