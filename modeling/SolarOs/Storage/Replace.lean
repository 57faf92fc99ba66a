import SolarOs.Esp
import SolarOs.Library.Program
import Mathlib.Logic.Function.Basic

/-! Replacing a file that is in use, as `solar_os_storage_replace_file` does it: the three
paths it works on, their contents, and what a file operation may leave. -/
namespace SolarOs.Storage
open Program Function

inductive Path where
  | active | staged | backup
  deriving DecidableEq

/-- What is under each path, if anything. -/
abbrev Disk (File : Type) := Path → Option File

/-- How far an operation came: not at all, into the middle of a file, or to its end. -/
inductive Landed (File : Type) where
  | old
  | torn (rest : File)
  | new

/-- Whether an operation reports success, and what it leaves if it does not. -/
structure Env (File : Type) where
  done : Bool
  landed : Landed File

def calm {File : Type} : Env File := ⟨true, .new⟩

instance {File : Type} : Nonempty (Env File) := ⟨calm⟩

/-- The file operations and the allocation that can fail. -/
inductive Op (File : Type) : Type → Type
  | preparePath : Op File Bool
  | alloc : Op File Bool
  | stat (path : Path) : Op File Bool
  | create (path : Path) (empty : File) : Op File Bool
  | write (path : Path) (file : File) : Op File Bool
  | sync : Op File Bool
  | close : Op File Bool
  | remove (path : Path) : Op File Bool
  | rename (source target : Path) : Op File Bool
  | openRead (path : Path) : Op File Bool
  | read (path : Path) : Op File (Option File)

variable {File : Type}

abbrev Prog (File α : Type) := Program (Op File) α

def Landed.put (landed : Landed File) (disk : Disk File) (path : Path) (file : File) : Disk File :=
  match landed with
  | .old => disk
  | .torn rest => update disk path (some rest)
  | .new => update disk path (some file)

def Landed.switch (landed : Landed File) (disk disk' : Disk File) : Disk File :=
  match landed with
  | .new => disk'
  | _ => disk

def moved (disk : Disk File) (source target : Path) : Disk File :=
  update (update disk target (disk source)) source none

def possible {α : Type} (op : Op File α) (disk : Disk File) : Bool :=
  match op with
  | .stat path | .write path _ | .remove path | .rename path _ | .openRead path => (disk path).isSome
  | _ => true

/-- What an operation leaves on the disk when it gets as far as `landed`. -/
def effect {α : Type} (op : Op File α) (disk : Disk File) (landed : Landed File) : Disk File :=
  match op with
  | .create path file | .write path file => landed.put disk path file
  | .remove path => landed.switch disk (update disk path none)
  | .rename source target => landed.switch disk (moved disk source target)
  | _ => disk

def reply {α : Type} (op : Op File α) (disk : Disk File) (done : Bool) : α :=
  match op with
  | .read path => if done then disk path else none
  | .preparePath | .alloc | .stat _ | .create _ _ | .write _ _ | .sync | .close
  | .remove _ | .rename _ _ | .openRead _ => done

def act {α : Type} (op : Op File α) (disk : Disk File) (e : Env File) : Disk File × α :=
  if possible op disk then
    (effect op disk (if e.done then .new else e.landed), reply op disk e.done)
  else (disk, reply op disk false)

def clearBackup : Prog File Bool := do
  if ← invoke (.stat .backup) then
    invoke (.remove .backup)
  else
    return true

def setAside (hadActive : Bool) : Prog File Bool := do
  if hadActive then
    invoke (.rename .active .backup)
  else
    return true

/-- The staged file is put in place, and if that fails the old one is put back. -/
def putInPlace (hadActive : Bool) : Prog File EspErr := do
  if (← invoke (.rename .staged .active)) = false then
    if hadActive then
      let _ ← invoke (.rename .backup .active)
    return .fail
  else
    if hadActive then
      let _ ← invoke (.remove .backup)
    return .ok

def replaceFile : Prog File EspErr := do
  if (← invoke (.stat .staged)) = false then
    return .notFound
  else
    let hadActive ← invoke (.stat .active)
    if (← clearBackup) = false then
      return .fail
    else if (← setAside hadActive) = false then
      return .fail
    else
      putInPlace hadActive

end SolarOs.Storage

namespace SolarOs.Storage
open Program Function

variable {File α : Type} {disk : Disk File} {old : Option File} {new : File}

@[simp] theorem act_stat (path : Path) (disk : Disk File) (e : Env File) :
    act (.stat path) disk e = (disk, (disk path).isSome && e.done) := by
  cases here : (disk path).isSome <;> simp [act, possible, reply, effect, here]

section
variable (disk : Disk File)

@[simp] theorem act_alloc (e : Env File) : act .alloc disk e = (disk, e.done) := rfl

@[simp] theorem act_sync (e : Env File) : act .sync disk e = (disk, e.done) := rfl

@[simp] theorem act_close (e : Env File) : act .close disk e = (disk, e.done) := rfl

theorem Landed.put_other (landed : Landed File) (disk : Disk File) {path other : Path} (file : File)
    (apart : other ≠ path) : landed.put disk path file other = disk other := by
  cases landed with
  | old => rfl
  | torn rest | new => exact update_of_ne apart ..

variable (path other : Path)

theorem act_create_other (file : File) (disk : Disk File) (e : Env File)
    (apart : other ≠ path) : (act (.create path file) disk e).1 other = disk other :=
  Landed.put_other _ disk file apart

theorem act_write_other (file : File) (disk : Disk File) (e : Env File)
    (apart : other ≠ path) : (act (.write path file) disk e).1 other = disk other := by
  rw [act]
  split
  · exact Landed.put_other _ disk file apart
  · rfl

theorem act_write_done {path : Path} (file : File) (disk : Disk File) (e : Env File)
    (done : (act (.write path file) disk e).2 = true) : (act (.write path file) disk e).1 path = some file := by
  rw [act] at done ⊢
  split at done
  · have success : e.done = true := done
    rw [if_pos ‹_›, success]
    exact update_self ..
  · cases done

theorem act_remove_other (disk : Disk File) (e : Env File) (apart : other ≠ path) :
    (act (.remove path) disk e).1 other = disk other := by
  rw [act]
  split
  · cases (if e.done then Landed.new else e.landed) with
    | new => exact update_of_ne apart ..
    | old => rfl
    | torn rest => rfl
  · rfl

theorem act_rename (source target : Path) (disk : Disk File) (e : Env File) :
    ((act (.rename source target) disk e).1 = disk ∧ (act (.rename source target) disk e).2 = false) ∨
      (act (.rename source target) disk e).1 = moved disk source target := by
  rw [act]
  split
  · cases success : e.done with
    | true => exact .inr rfl
    | false =>
      cases e.landed with
      | new => exact .inr rfl
      | old => exact .inl ⟨rfl, rfl⟩
      | torn rest => exact .inl ⟨rfl, rfl⟩
  · exact .inl ⟨rfl, rfl⟩

theorem moved_source (source target : Path) : moved disk source target source = none :=
  update_self ..

theorem moved_target {source target : Path} (apart : target ≠ source) :
    moved disk source target target = disk source := by
  rw [moved, update_of_ne apart, update_self]

theorem moved_other {source target other : Path} (hsource : other ≠ source)
    (htarget : other ≠ target) : moved disk source target other = disk other := by
  rw [moved, update_of_ne hsource, update_of_ne htarget]

end

def Around (old : Option File) (new : File) (disk : Disk File) : Prop :=
  disk .active = old ∨ disk .active = none ∨ disk .active = some new

/-- What `replaceFile` ends with. -/
def Replaced (new : File) (error : EspErr) (disk : Disk File) : Prop :=
  error = .ok → disk .active = some new

theorem Around.congr {disk' : Disk File} (h : Around old new disk) (same : disk' .active = disk .active) :
    Around old new disk' := by rwa [Around, same]

section Steps

variable {β : Type} {good : Disk File → Prop} {post : β → Disk File → Prop}

theorem passes_call {op : Op File α} {f : α → Prog File β} (here : good disk)
    (next : ∀ e, Passes act good post (f (act op disk e).2) (act op disk e).1) :
    Passes act good post (invoke op >>= f) disk := ⟨here, next⟩

theorem passes_quiet {op : Op File α} {f : α → Prog File β} (here : good disk)
    (quiet : ∀ e, (act op disk e).1 = disk) (next : ∀ e, Passes act good post (f (act op disk e).2) disk) :
    Passes act good post (invoke op >>= f) disk := by
  refine passes_call here fun e => ?_
  rw [quiet]
  exact next e

end Steps

theorem passes_last {good : Disk File → Prop} {post : EspErr → Disk File → Prop} {wanted : Prop}
    [Decidable wanted] {op : Op File α} {error : EspErr} (here : good disk ∧ post error disk)
    (after : wanted → ∀ e, good (act op disk e).1 ∧ post error (act op disk e).1) :
    Passes act good post (if wanted then (do
      let _ ← invoke op
      return error) else return error) disk := by
  split
  · rename_i wants
    exact ⟨here.1, fun e => after wants e⟩
  · exact here

/-- What has to be allowed on the way: the old file in place, the new one, and the old one aside. -/
structure Allows (old : Option File) (new : File) (good : Disk File → Prop) : Prop where
  same : ∀ d : Disk File, d .active = old → good d
  placed : ∀ d : Disk File, d .active = some new → good d
  aside : ∀ d : Disk File, d .active = none → d .backup = old → good d

theorem around_allows : Allows old new (Around old new) :=
  ⟨fun _ => .inl, fun _ => .inr ∘ .inr, fun _ gone _ => .inr (.inl gone)⟩

section Allowed

variable {good : Disk File → Prop} (allows : Allows old new good)

include allows

theorem passes_putInPlace {hadActive : Bool} (staged : disk .staged = some new) (here : good disk)
    (aside : hadActive = true → disk .backup = old) : Passes act good (Replaced new) (putInPlace hadActive) disk := by
  have putBack : ∀ d : Disk File, good d → (hadActive = true → d .backup = old) →
      ∀ e, hadActive = true → good (act (.rename .backup .active) d e).1 := by
    intro d here aside e had
    rcases act_rename .backup .active d e with ⟨stays, -⟩ | moves
    · rwa [stays]
    · rw [moves]
      exact allows.same _ ((moved_target d (by decide)).trans (aside had))
  refine passes_call here fun e => ?_
  rcases act_rename .staged .active disk e with ⟨stays, failed⟩ | moves
  · rw [if_pos failed, stays]
    exact passes_last ⟨here, nofun⟩ fun had e => ⟨putBack disk here aside e had, nofun⟩
  · rw [moves]
    have placed : moved disk .staged .active .active = some new := (moved_target disk (by decide)).trans staged
    have kept : moved disk .staged .active .backup = disk .backup := moved_other disk (by decide) (by decide)
    have here' := allows.placed _ placed
    split
    · exact passes_last ⟨here', nofun⟩ fun had e =>
        ⟨putBack _ here' (fun had => kept.trans (aside had)) e had, nofun⟩
    · refine passes_last ⟨here', fun _ => placed⟩ fun had e => ?_
      have stays := (act_remove_other .backup .active (moved disk .staged .active) e (by decide)).trans placed
      exact ⟨allows.placed _ stays, fun _ => stays⟩

theorem passes_clear (staged : disk .staged = some new) (here : disk .active = old) : Passes act good
      (fun (_ : Bool) (d : Disk File) => d .staged = some new ∧ d .active = old) clearBackup disk := by
  have here' := allows.same _ here
  refine passes_quiet here' (fun e => by rw [act_stat]) fun e => ?_
  split
  · refine ⟨here', fun e => ?_⟩
    have other := (act_remove_other .backup .active disk e (by decide)).trans here
    exact ⟨allows.same _ other, (act_remove_other .backup .staged disk e (by decide)).trans staged, other⟩
  · exact ⟨here', staged, here⟩

theorem passes_setAside {hadActive : Bool} (staged : disk .staged = some new) (here : disk .active = old) :
    Passes act good (fun done (d : Disk File) => good d ∧ (done = true → d .staged = some new ∧
      (hadActive = true → d .backup = old))) (setAside hadActive) disk := by
  have here' := allows.same _ here
  cases hadActive with
  | false => exact ⟨here', here', fun _ => ⟨staged, nofun⟩⟩
  | true =>
    refine ⟨here', fun e => ?_⟩
    rcases act_rename .active .backup disk e with ⟨stays, failed⟩ | moves
    · rw [stays, failed]
      exact ⟨here', here', nofun⟩
    · have kept : moved disk .active .backup .backup = old := (moved_target disk (by decide)).trans here
      have gone := allows.aside _ (moved_source disk ..) kept
      beta_reduce
      rw [moves]
      exact ⟨gone, gone, fun _ => ⟨(moved_other disk (by decide) (by decide)).trans staged, fun _ => kept⟩⟩

theorem passes_replaceFile (staged : disk .staged = some new) (here : disk .active = old) :
    Passes act good (Replaced new) replaceFile disk := by
  have start := allows.same _ here
  refine passes_quiet start (fun e => by rw [act_stat]) fun e => ?_
  split
  · exact ⟨start, nofun⟩
  refine passes_quiet start (fun e => by rw [act_stat]) fun e => ?_
  refine Passes.bind ((passes_clear allows staged here).imp ?_)
  intro cleared disk ⟨staged, here⟩
  split
  · exact ⟨allows.same _ here, nofun⟩
  refine Passes.bind ((passes_setAside allows staged here).imp ?_)
  intro setAside disk ⟨good, ready⟩
  split
  · exact ⟨good, nofun⟩
  · rename_i done
    obtain ⟨staged, aside⟩ := ready (by simpa using done)
    exact passes_putInPlace allows staged good aside

end Allowed

def Recoverable (start disk : Disk File) : Prop :=
  disk .active = start .active ∨ (start .staged).isSome = true ∧ disk .active = start .staged ∨
    disk .active = none ∧ disk .backup = start .active

/-- Wherever power goes and whatever fails, the file is the old one or the new one, or it is missing and
the backup is the old one; when the call succeeds it is the new one. -/
theorem replaceFile_recoverable (disk : Disk File) (env : Nat → Env File) :
    (∀ n, Recoverable disk (stop act replaceFile env n disk)) ∧
      ((finish act replaceFile disk env).2 = .ok →
        (disk .staged).isSome = true ∧ (finish act replaceFile disk env).1 .active = disk .staged) := by
  have passes : Passes act (Recoverable disk) (fun error d => error = .ok →
      (disk .staged).isSome = true ∧ d .active = disk .staged) replaceFile disk := by
    cases staged : disk .staged with
    | none =>
      refine passes_quiet (.inl rfl) (fun e => by rw [act_stat]) fun e => ?_
      rw [act_stat, staged]
      exact ⟨.inl rfl, nofun⟩
    | some new =>
      have allows : Allows (disk .active) new (Recoverable disk) :=
        ⟨fun _ => .inl, fun _ placed => .inr (.inl (by simp [staged, placed])), fun _ gone kept => .inr (.inr ⟨gone, kept⟩)⟩
      exact (passes_replaceFile allows staged rfl).imp fun _ _ replaced ok => ⟨rfl, replaced ok⟩
  exact ⟨stop_iff.mpr (passes.imp fun _ _ _ => trivial) env, (passes.result env).2⟩

theorem calm_stat {path : Path} {file : File} (here : disk path = some file) :
    act (.stat path) disk calm = (disk, true) := by
  rw [act_stat, here]
  rfl

theorem calm_rename {source target : Path} {file : File} (here : disk source = some file) :
    act (.rename source target) disk calm = (moved disk source target, true) := by
  rw [act, if_pos (show possible (.rename source target) disk = true by rw [possible, here]; rfl)]
  rfl

theorem passes_next {β : Type} {good : Disk File → Prop} {post : β → Disk File → Prop} {op : Op File α}
    {f : α → Prog File β} {result : Disk File × α} (h : Passes act good post (invoke op >>= f) disk)
    (calmly : act op disk calm = result) : Passes act good post (f result.2) result.1 := by
  rw [← calmly]
  exact h.2 calm

theorem finish_clearBackup (disk : Disk File) : ∃ disk', finish act clearBackup disk (fun _ => calm) = (disk', true) ∧
      disk' .staged = disk .staged ∧ disk' .active = disk .active := by
  rw [clearBackup, finish_invoke_bind]
  cases here : disk .backup with
  | none =>
    rw [act_stat, here]
    exact ⟨disk, rfl, rfl, rfl⟩
  | some file =>
    rw [calm_stat here]
    refine ⟨update disk .backup none, ?_, update_of_ne (by decide) ..,
      update_of_ne (by decide) ..⟩
    show act (.remove .backup) disk calm = _
    rw [act, if_pos (show possible (.remove .backup) disk = true by rw [possible, here]; rfl)]
    rfl

theorem finish_setAside {hadActive : Bool} (there : hadActive = (disk .active).isSome) :
    ∃ disk', finish act (setAside hadActive) disk (fun _ => calm) = (disk', true) ∧
      disk' .staged = disk .staged ∧ disk' .active = none := by
  cases here : disk .active with
  | none =>
    rw [here] at there
    rw [there]
    exact ⟨disk, rfl, rfl, here⟩
  | some file =>
    rw [here] at there
    rw [there]
    refine ⟨moved disk .active .backup, calm_rename here, ?_, moved_source disk ..⟩
    exact moved_other disk (by decide) (by decide)

theorem finish_replaceFile (staged : disk .staged = some new) :
    (finish act replaceFile disk fun _ => calm).2 = .ok := by
  obtain ⟨d, cleared, staged', active'⟩ := finish_clearBackup disk
  have there : ((disk .active).isSome && (calm : Env File).done) = (d .active).isSome := by
    rw [active', calm, Bool.and_true]
  obtain ⟨d', aside, staged'', -⟩ := finish_setAside there
  have here := staged''.trans (staged'.trans staged)
  rw [replaceFile, finish_invoke_bind, calm_stat staged, if_neg (Bool.false_ne_true ∘ Eq.symm), finish_invoke_bind,
    act_stat, finish_bind_const, cleared, if_neg (Bool.false_ne_true ∘ Eq.symm), finish_bind_const, aside,
    if_neg (Bool.false_ne_true ∘ Eq.symm), putInPlace, finish_invoke_bind, calm_rename here,
    if_neg (Bool.false_ne_true ∘ Eq.symm)]
  split
  · rfl
  · rfl

theorem replaceFile_gap {good : Disk File → Prop} {post : EspErr → Disk File → Prop} {file : File}
    (h : Passes act good post replaceFile disk) (staged : disk .staged = some new)
    (here : disk .active = some file) : ∃ d, good d ∧ d .active = none := by
  have h := passes_next h (calm_stat staged)
  rw [if_neg (Bool.false_ne_true ∘ Eq.symm)] at h
  have h := (passes_next h (calm_stat here)).after fun _ => calm
  obtain ⟨d, cleared, -, active⟩ := finish_clearBackup disk
  rw [cleared, if_neg (Bool.false_ne_true ∘ Eq.symm)] at h
  have h := h.after fun _ => calm
  have aside : finish act (setAside true) d (fun _ => calm) = (moved d .active .backup, true) :=
    calm_rename (active.trans here)
  rw [aside] at h
  exact ⟨moved d .active .backup, h.start, moved_source d ..⟩

end SolarOs.Storage
