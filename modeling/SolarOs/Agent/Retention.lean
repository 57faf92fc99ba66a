import SolarOs.Agent.Records
import SolarOs.Storage.Replace

/-! What a commit keeps of an agent conversation beside the new turn. -/
namespace SolarOs.Agent
open ByteOrder Function Option

section
variable (mounted : Bool)

def fileLimit : Nat := if mounted then 48 * 1024 else 10 * 1024

def boundedLength (text : List UInt8) : Nat := min text.length (messageLimit mounted)

/-- The records that `conversation_write_record` adds. -/
def newTurn (user assistant tool : List UInt8) (now : Nat) : List Record :=
  let bounded := fun text : List UInt8 => text.take (boundedLength mounted text)
  writeRecord roleUser (bounded user) now ::
    ((if 0 < boundedLength mounted tool then [writeRecord roleTool (bounded tool) now] else []) ++
      [writeRecord roleAssistant (bounded assistant) now])

/-- The counts in the header of the new file, and what follows the header. -/
structure Stored where
  turnCount : Nat
  recordCount : Nat
  storedBytes : Nat
  body : List UInt8

/-- `conversation_commit_unlocked`, where every operation on the files succeeds; there is no source for a new
conversation. -/
def commit (source : Option (List UInt8)) (user assistant tool : List UInt8) (now : Nat) : Option Stored :=
  if boundedLength mounted user = 0 ∨ boundedLength mounted assistant = 0 then none
  else
    let newCount := if 0 < boundedLength mounted tool then 3 else 2
    let newBytes := newCount * recordSize + boundedLength mounted user + boundedLength mounted assistant +
      boundedLength mounted tool
    let kept := keepTurns recordMax (fileLimit mounted) Meta.totalSize (fun m => role m.head = roleUser)
      (headerSize + newBytes) newCount (source.elim [] storedRecords)
    some {
      turnCount := (kept.countP fun m => role m.head = roleUser) + 1
      recordCount := kept.length + newCount
      storedBytes := headerSize + (kept.map Meta.totalSize).sum + newBytes
      body := kept.flatMap (fun m => ((source.getD []).drop m.offset).take m.totalSize) ++
        (newTurn mounted user assistant tool now).flatMap Record.bytes }

/-- A commit has kept the longest part that there is room for, and its counts are right. -/
structure Retained (rs turn : List Record) (stored : Stored) (kept : List Record) : Prop where
  longest : Longest (fun s => Fits recordMax (fileLimit mounted) (fun r : Record => recordSize + textLen r.head)
    (headerSize + (turn.flatMap Record.bytes).length) turn.length s ∧ Begins (fun r => role r.head = roleUser) s) rs kept
  body : stored.body = (kept ++ turn).flatMap Record.bytes
  records : stored.recordCount = (kept ++ turn).length
  turns : stored.turnCount = (kept ++ turn).countP fun r => role r.head = roleUser
  bytes : stored.storedBytes = headerSize + stored.body.length
  bounded : stored.storedBytes ≤ fileLimit mounted

end

variable {mounted : Bool} {user assistant tool : List UInt8} {now : Nat}

theorem writeRecord_bytes (role : Nat) (text : List UInt8) (now : Nat) :
    (writeRecord role (text.take (boundedLength mounted text)) now).bytes.length =
      recordSize + boundedLength mounted text := by
  have length : (text.take (boundedLength mounted text)).length = boundedLength mounted text :=
    List.length_take_of_le (Nat.min_le_left ..)
  rw [Record.bytes, List.length_append]
  exact congrArg (recordSize + ·) length

theorem newTurn_length : (newTurn mounted user assistant tool now).length = if 0 < boundedLength mounted tool then 3 else 2 := by
  unfold newTurn
  split <;> rfl

theorem newTurn_bytes : ((newTurn mounted user assistant tool now).flatMap Record.bytes).length =
    (if 0 < boundedLength mounted tool then 3 else 2) * recordSize + boundedLength mounted user +
      boundedLength mounted assistant + boundedLength mounted tool := by
  unfold newTurn
  split
  · simp only [List.cons_append, List.nil_append, List.flatMap_cons, List.flatMap_nil, List.length_append, List.length_nil,
      writeRecord_bytes]
    omega
  · simp only [List.nil_append, List.flatMap_cons, List.flatMap_nil, List.length_append, List.length_nil, writeRecord_bytes]
    omega

theorem newTurn_turns : ((newTurn mounted user assistant tool now).countP fun r => role r.head = roleUser) = 1 := by
  unfold newTurn
  split <;> rfl

/-- Beside a new turn that there is room for, a commit keeps the longest end of the conversation that there is room
for, and its counts are right; and the history is the longest end within its limits. -/
theorem commit_retains {stored : Stored} (source : Option (List UInt8))
    (committed : commit mounted source user assistant tool now = some stored) :
    ∃ rs, source.elim (rs = []) (fun file => Leading file (min recordMax (recordCount file)) headerSize rs) ∧
      ((∃ kept, Retained mounted rs (newTurn mounted user assistant tool now) stored kept) ∧
        (∀ file, ∃ kept, history file = some (kept.map Record.message) ∧
          Longest (fun s => Fits historyMessageMax historyBytesMax (fun r : Record => textLen r.head + 1) 0 0 s ∧
            Begins (fun r => role r.head = roleUser) s) ((storedRecords file).map (Meta.record file)) kept) ↔
        headerSize + ((newTurn mounted user assistant tool now).flatMap Record.bytes).length ≤ fileLimit mounted) := by
  have placed : ∀ m ∈ source.elim [] storedRecords, m.Placed (source.getD []) := by
    cases source with
    | none => nofun
    | some file => exact readRecords_leading _ _ |>.2
  refine ⟨(source.elim [] storedRecords).map (Meta.record (source.getD [])), ?_, ?_⟩
  · cases source with
    | none => rfl
    | some file => exact readRecords_leading _ _ |>.1
  rw [and_iff_left history_longest]
  unfold commit at committed
  split at committed
  · cases committed
  dsimp only at committed
  rw [← @newTurn_bytes mounted user assistant tool now, ← @newTurn_length mounted user assistant tool now] at committed
  generalize source.elim [] storedRecords = metas at *
  have turns := @newTurn_turns mounted user assistant tool now
  have most : (newTurn mounted user assistant tool now).length ≤ recordMax := by
    rw [newTurn_length]
    split <;> decide
  generalize newTurn mounted user assistant tool now = turn at *
  have kept := @keepTurns_longest Record recordMax (fileLimit mounted) (fun r => recordSize + textLen r.head)
    (fun r => role r.head = roleUser) (headerSize + (turn.flatMap Record.bytes).length) turn.length
    (metas.map (Meta.record (source.getD [])))
  have part := (@keepTurns_part Meta recordMax (fileLimit mounted) Meta.totalSize (fun m => role m.head = roleUser)
    (headerSize + (turn.flatMap Record.bytes).length) turn.length metas).subset
  rw [keepTurns_map] at kept
  change _ → Longest _ _ ((keepTurns recordMax (fileLimit mounted) Meta.totalSize (fun m => role m.head = roleUser)
    (headerSize + (turn.flatMap Record.bytes).length) turn.length metas).map (Meta.record (source.getD []))) at kept
  generalize keepTurns recordMax (fileLimit mounted) Meta.totalSize (fun m => role m.head = roleUser)
    (headerSize + (turn.flatMap Record.bytes).length) turn.length metas = keep at *
  cases committed
  have copied : (keep.flatMap fun m => ((source.getD []).drop m.offset).take m.totalSize) =
      (keep.map (Meta.record (source.getD []))).flatMap Record.bytes := by
    rw [List.flatMap_map]
    exact List.flatMap_congr fun m there => (placed m (part there)).there
  have size : (keep.map Meta.totalSize).sum = ((keep.map (Meta.record (source.getD []))).flatMap Record.bytes).length := by
    rw [List.flatMap_map, List.length_flatMap]
    exact congrArg List.sum (List.map_congr_left fun m there => (placed m (part there)).size)
  constructor
  · rintro ⟨_, retained⟩
    have bounded := retained.bounded
    dsimp only at bounded
    omega
  · intro room
    have longest := kept ⟨most, room⟩
    have fits := longest.2.1.1.2
    rw [List.map_map] at fits
    have fits : headerSize + (turn.flatMap Record.bytes).length + (keep.map Meta.totalSize).sum ≤ fileLimit mounted := fits
    refine ⟨_, longest, ?_, ?_, ?_, ?_, ?_⟩
    · rw [copied, List.flatMap_append]
    · rw [List.length_append, List.length_map]
    · rw [List.countP_append, turns, List.countP_map]
      rfl
    · dsimp only
      rw [copied, size, List.length_append, Nat.add_assoc]
    · dsimp only
      omega

/-- A first turn of one character each. -/
theorem commit_retains_short : ∃ rs, rs = [] ∧ ∃ kept, Retained false rs (newTurn false [0x61] [0x62] [] 0)
      ⟨1, 2, 394, (newTurn false [0x61] [0x62] [] 0).flatMap Record.bytes⟩ kept := by
  obtain ⟨rs, none, retains⟩ := @commit_retains false [0x61] [0x62] [] 0
    ⟨1, 2, 394, (newTurn false [0x61] [0x62] [] 0).flatMap Record.bytes⟩ none rfl
  refine ⟨rs, none, (retains.mpr ?_).1⟩
  rw [newTurn_bytes]
  decide

/-- Three texts of the longest length do not fit the file. -/
theorem commit_overflows : ¬∀ (mounted : Bool) (source : Option (List UInt8)) (user assistant tool : List UInt8) (now : Nat)
    (stored : Stored), commit mounted source user assistant tool now = some stored → stored.storedBytes ≤ fileLimit mounted := by
  intro claim
  obtain ⟨text, length⟩ : ∃ text : List UInt8, text.length = flashMessageMax :=
    ⟨List.replicate flashMessageMax 0x61, List.length_replicate⟩
  have bounded : boundedLength false text = flashMessageMax := by rw [boundedLength, length]; rfl
  have large := fun stored => claim false none text text text 0 stored
  unfold commit at large
  rw [bounded] at large
  have bound : headerSize + 0 + (3 * recordSize + flashMessageMax + flashMessageMax + flashMessageMax) ≤ 10 * 1024 :=
    large _ rfl
  exact absurd bound (by decide)

section Files
open Program
open Storage (Path Disk moved)

structure Written where
  data : List UInt8
  synced : Bool

/-- What an operation meets: whether it works, and what a write leaves that does not. -/
structure Event where
  works : Bool
  torn : List UInt8

instance : Nonempty Event := ⟨⟨true, []⟩⟩

/-- `noEntry` is an error with `ENOENT`. -/
inductive Renamed where
  | ok | noEntry | failed
  deriving DecidableEq

/-- Only the staged file is written to, and all that is written to it counts as one write. -/
inductive FileOp : Type → Type
  | openWrite : FileOp Bool
  | write (data : List UInt8) : FileOp Bool
  | sync : FileOp Bool
  | close : FileOp Bool
  | remove (path : Path) : FileOp Unit
  | rename (source target : Path) : FileOp Renamed

def perform {α : Type} (op : FileOp α) (disk : Disk Written) (e : Event) : Disk Written × α :=
  match op with
  | .openWrite => (if e.works then update disk .staged (some ⟨[], false⟩) else disk, e.works)
  | .write data =>
    let write := fun file : Written => ⟨if e.works then file.data ++ data else e.torn, false⟩
    (update disk .staged ((disk .staged).map write), e.works)
  | .sync =>
    (if e.works then update disk .staged ((disk .staged).map fun file => ⟨file.data, true⟩) else disk, e.works)
  | .close => (disk, e.works)
  | .remove path => (if e.works then update disk path none else disk, ())
  | .rename source target =>
    if (disk source).isNone then (disk, .noEntry)
    else if e.works then (moved disk source target, .ok)
    else (disk, .failed)

/-- The new file is written under the temporary name. -/
def stage (content : List UInt8) : Program FileOp Bool := do
  if (← invoke .openWrite) = false then
    return false
  else
    let written ← invoke (.write content)
    let synced ← if written then invoke .sync else pure false
    let closed ← invoke .close
    if synced && closed then
      return true
    else
      invoke (.remove .staged)
      return false

/-- What is there becomes the backup; whether there is one then. -/
def keepOriginal : Program FileOp (Option Bool) := do
  match ← invoke (.rename .active .backup) with
  | .ok => return some true
  | .noEntry => return some false
  | .failed =>
    invoke (.remove .staged)
    return none

def setAside (fromBackup : Bool) : Program FileOp (Option Bool) := do
  if fromBackup then
    invoke (.remove .active)
    return some true
  else
    invoke (.remove .backup)
    keepOriginal

def putInPlace (hadOriginal : Bool) : Program FileOp Bool := do
  if (← invoke (.rename .staged .active)) = .ok then
    if hadOriginal then
      invoke (.remove .backup)
    return true
  else
    if hadOriginal then
      let _ ← invoke (.rename .backup .active)
    invoke (.remove .staged)
    return false

def replaceFiles (fromBackup : Bool) (content : List UInt8) : Program FileOp Bool := do
  if (← stage content) = false then
    return false
  else
    let aside ← setAside fromBackup
    aside.elim (return false) putInPlace

/-- What a commit is given; the texts of the header and its padding are any bytes. -/
structure Turn where
  mounted : Bool
  fresh : Bool
  id : List UInt8
  user : List UInt8
  assistant : List UInt8
  tool : List UInt8
  created : Nat
  now : Nat
  texts : Vector UInt8 280
  padding : Vector UInt8 4

namespace Turn
variable (t : Turn)

/-- `agent_conversation_header_t` before its checksum. -/
def fields (source : Option (List UInt8)) (stored : Stored) : List UInt8 :=
  littleEndian 4 conversationMagic ++ littleEndian 2 1 ++ littleEndian 2 headerSize ++
    source.elim (littleEndian 8 t.created) (fun file => (file.drop 8).take 8) ++ littleEndian 8 t.now ++
    littleEndian 2 stored.turnCount ++ littleEndian 2 stored.recordCount ++ littleEndian 4 stored.storedBytes ++
    (source.elim (t.id ++ List.replicate (idMax - t.id.length) 0) (fun file => (file.drop 32).take idMax) ++ t.texts.toList)

/-- What an opening of the conversation reads. -/
def opens (disk : Disk (List UInt8)) : Option (List UInt8) := openRead t.id (disk .active) (disk .backup)

variable (seen : Disk (List UInt8))

def source : Option (List UInt8) := if t.fresh then none else t.opens seen

/-- The file that the commit writes, from what it has read. -/
def newFile : Option (List UInt8) :=
  if idValid t.id = false ∨ (t.fresh = false ∧ t.source seen = none) then none
  else (commit t.mounted (t.source seen) t.user t.assistant t.tool t.now).map fun stored =>
    t.fields (t.source seen) stored ++
      (littleEndian 4 (headerCrc (t.fields (t.source seen) stored)).toNat ++ (t.padding.toList ++ stored.body))

/-- `conversation_commit_unlocked`, for an id that is the one given or that of the slot; whether it returns `ESP_OK`. -/
def program : Program FileOp Bool :=
  (t.newFile seen).elim (pure false) (replaceFiles (!t.fresh && !(seen .active).any (headerValid t.id)))

end Turn

def onMedium (disk : Disk (List UInt8)) : Disk Written := fun path => (disk path).map (⟨·, true⟩)

/-- What may be left after a power loss: anything in a file that is not synced. -/
def Remains (disk : Disk Written) (left : Disk (List UInt8)) : Prop :=
  ∀ path, left path = (disk path).map Written.data ∨
    ∃ file, disk path = some file ∧ file.synced = false ∧ (left path).isSome = true

/-- Wherever a commit is stopped, and whatever fails, an opening reads what was there or what is new, and what was there
when the commit reports an error. A file that could not be read is the only failure then. -/
structure CrashSafe (t : Turn) (disk : Disk (List UInt8)) : Prop where
  stopped : ∀ env n left, Remains (stop perform (t.program disk) env n (onMedium disk)) left →
    t.opens left = t.opens disk ∨ ∃ file, t.newFile disk = some file ∧ t.opens left = some file
  ended : ∀ (missed : Option Path) (env : Nat → Event), (missed.isSome = true → ∀ n, (env n).works = true) →
    ∀ seen, seen = missed.elim disk (fun path => update disk path none) →
      ∀ left, Remains (finish perform (t.program seen) (onMedium disk) env).1 left →
        t.opens left = if (finish perform (t.program seen) (onMedium disk) env).2 then t.newFile seen else t.opens disk

theorem keepTurns_few {α : Type} {slots limit used count : Nat} {cost : α → Nat} {user : α → Bool} (entries : List α)
    (room : count ≤ slots) : (keepTurns slots limit cost user used count entries).length + count ≤ slots := by
  have latest : ∀ newest : List α, (keepLatest slots limit cost used count newest).length + count ≤ slots := by
    intro newest
    induction newest generalizing used count with
    | nil => rwa [keepLatest, List.length_nil, Nat.zero_add]
    | cons x newest ih =>
      unfold keepLatest
      split
      · rwa [List.length_nil, Nat.zero_add]
      · have more := @ih (used + cost x) (count + 1) (by omega)
        rw [List.length_append, List.length_singleton]
        omega
  exact (Nat.add_le_add_right (List.dropWhile_suffix _).length_le _).trans (latest _)

theorem commit_few {mounted : Bool} {source : Option (List UInt8)} {user assistant tool : List UInt8} {now : Nat} {stored : Stored}
    (committed : commit mounted source user assistant tool now = some stored) : stored.recordCount ≤ recordMax := by
  unfold commit at committed
  split at committed
  · cases committed
  · cases committed
    refine keepTurns_few _ ?_
    split <;> decide

theorem opened_valid {id file : List UInt8} {active backup : Option (List UInt8)} (opened : openRead id active backup = some file) :
    headerValid id file = true := by
  rcases or_eq_some_iff.mp opened with there | ⟨-, there⟩
  · exact (filter_eq_some_iff.mp there).2
  · exact (filter_eq_some_iff.mp there).2

namespace Turn
variable {t : Turn}

theorem fields_valid {source : Option (List UInt8)} {stored : Stored} (valid : idValid t.id = true)
    (read : ∀ file, source = some file → headerValid t.id file = true) (few : stored.recordCount ≤ recordMax) :
    (t.fields source stored).length = 336 ∧ field (t.fields source stored) 0 4 = conversationMagic ∧
      field (t.fields source stored) 4 2 = 1 ∧ field (t.fields source stored) 6 2 = headerSize ∧
      recordCount (t.fields source stored) = stored.recordCount ∧ headerId (t.fields source stored) = t.id := by
  have short : t.id.length < idMax ∧ ∀ ch ∈ t.id, ch ≠ 0 := by
    simp only [idValid, Bool.and_eq_true, decide_eq_true_eq, List.all_eq_true] at valid
    refine ⟨valid.1.2, fun ch there zero => ?_⟩
    have bad := valid.2 ch there
    rw [zero] at bad
    exact absurd bad (by decide)
  have fine : ∀ file, source = some file → headerSize ≤ file.length ∧ headerId file = t.id := by
    intro file same
    have fine := read file same
    simp only [headerValid, Bool.and_eq_true, decide_eq_true_eq] at fine
    tauto
  obtain ⟨created, made, eight⟩ : ∃ created : List UInt8,
      source.elim (littleEndian 8 t.created) (fun file => (file.drop 8).take 8) = created ∧ created.length = 8 := by
    refine ⟨_, rfl, ?_⟩
    cases source with
    | none => rfl
    | some file =>
      have long := (fine file rfl).1
      unfold headerSize at long
      exact List.length_take_of_le (by rw [List.length_drop]; omega)
  obtain ⟨named, name, full, same⟩ : ∃ named : List UInt8,
      source.elim (t.id ++ List.replicate (idMax - t.id.length) 0) (fun file => (file.drop 32).take idMax) = named ∧
        named.length = idMax ∧ named.takeWhile (· ≠ 0) = t.id := by
    refine ⟨_, rfl, ?_⟩
    cases source with
    | none =>
      refine ⟨?_, ?_⟩
      · have less := short.1
        rw [elim_none, List.length_append, List.length_replicate]
        omega
      · rw [elim_none, List.takeWhile_append_of_pos fun ch there => decide_eq_true (short.2 ch there),
          List.takeWhile_replicate, if_neg (by decide), List.append_nil]
    | some file =>
      obtain ⟨long, same⟩ := fine file rfl
      unfold headerSize at long
      exact ⟨List.length_take_of_le (by rw [List.length_drop]; unfold idMax; omega), same⟩
  unfold fields
  rw [made, name]
  have lengths : ∀ count value, (littleEndian count value).length = count := by
    intro count value
    rw [littleEndian, List.length_map, List.length_range]
  refine ⟨?_, field_eq rfl (by decide), field_eq rfl (by decide), field_eq rfl (by decide), ?_, ?_⟩
  · simp only [List.length_append, lengths, eight, full, Vector.length_toList]
    rfl
  · unfold recordMax at few
    refine @field_eq _ 26 2 stored.recordCount ?_ (by omega)
    rw [List.append_assoc, List.append_assoc, List.drop_left' (by simp only [List.length_append, lengths, eight]),
      List.take_left' (lengths ..)]
  · unfold headerId
    rw [List.drop_left' (by simp only [List.length_append, lengths, eight]), List.take_left' full, same]

theorem newFile_valid {seen : Disk (List UInt8)} {file : List UInt8} (new : t.newFile seen = some file) :
    headerValid t.id file = true := by
  unfold newFile at new
  split at new
  · cases new
  · rename_i proceeds
    rw [not_or, Bool.not_eq_false] at proceeds
    obtain ⟨stored, committed, rfl⟩ := map_eq_some_iff.mp new
    have few := commit_few committed
    obtain ⟨length, magic, version, size, count, name⟩ := fields_valid proceeds.1 (fun file (read : t.source seen = some file) => by
      unfold source at read
      split at read
      · cases read
      · exact opened_valid read) few
    refine headerValid_append length ?_ magic version size (count ▸ few) proceeds.1 name
    rw [List.length_append, Vector.length_toList]
    exact Nat.le_add_right ..

end Turn

/-- What is under the two names that a reader looks at. -/
def Shows (active backup : Option (List UInt8)) (disk : Disk Written) : Prop :=
  disk .active = active.map (⟨·, true⟩) ∧ disk .backup = backup.map (⟨·, true⟩)

/-- What an opening reads then. -/
def Shown (id : List UInt8) (read : Option (List UInt8)) (disk : Disk Written) : Prop :=
  ∃ active backup, Shows active backup disk ∧ openRead id active backup = read

/-- The old file is read, or the new one. -/
def Either (id : List UInt8) (old : Option (List UInt8)) (new : List UInt8) (disk : Disk Written) : Prop :=
  Shown id old disk ∨ Shown id (some new) disk

section Steps
variable {id new : List UInt8} {old active backup read : Option (List UInt8)} {disk : Disk Written}

theorem Remains.synced {left : Disk (List UInt8)} (remains : Remains disk left) {path : Path} {file : Option (List UInt8)}
    (there : disk path = file.map (⟨·, true⟩)) : left path = file := by
  rcases remains path with exact_ | ⟨torn, found, loose, -⟩
  · rw [exact_, there, map_map]
    exact map_id' ..
  · rw [there] at found
    obtain ⟨data, -, rfl⟩ := map_eq_some_iff.mp found
    cases loose

theorem Shown.opens {left : Disk (List UInt8)} (shown : Shown id read disk) (remains : Remains disk left) :
    openRead id (left .active) (left .backup) = read := by
  obtain ⟨active, backup, ⟨front, back⟩, same⟩ := shown
  rw [remains.synced front, remains.synced back, same]

theorem Shows.staged (shows_ : Shows active backup disk) (file : Option Written) :
    Shows active backup (update disk .staged file) := by
  refine ⟨?_, ?_⟩
  · rw [update_of_ne (by decide), shows_.1]
  · rw [update_of_ne (by decide), shows_.2]

theorem Shows.removeStaged (shows_ : Shows active backup disk) (e : Event) :
    Shows active backup (perform (.remove .staged) disk e).1 := by
  unfold perform
  dsimp only
  split
  · exact shows_.staged none
  · exact shows_

theorem passes_discard {post : Bool → Disk Written → Prop} {good : Disk Written → Prop}
    (here : good disk) (after : ∀ e, good (perform (.remove .staged) disk e).1 ∧ post false (perform (.remove .staged) disk e).1) :
    Passes perform good post (do
      invoke (.remove .staged)
      return false) disk := ⟨here, after⟩

theorem passes_stage (shows_ : Shows active backup disk) : Passes perform (Shows active backup)
      (fun staged disk => Shows active backup disk ∧ (staged = true → disk .staged = some ⟨new, true⟩)) (stage new) disk := by
  have closing : ∀ {disk : Disk Written} (synced : Bool), Shows active backup disk →
      (synced = true → disk .staged = some ⟨new, true⟩) →
      Passes perform (Shows active backup)
        (fun staged disk => Shows active backup disk ∧ (staged = true → disk .staged = some ⟨new, true⟩))
        (do
          let closed ← invoke .close
          if synced && closed then
            return true
          else
            invoke (.remove .staged)
            return false) disk := by
    intro disk synced shows_ content
    refine Passes.invoke_bind shows_ fun e => ?_
    split
    · rename_i both
      exact ⟨shows_, shows_, fun _ => content (Bool.and_elim_left both)⟩
    · exact passes_discard shows_ fun e => ⟨shows_.removeStaged e, shows_.removeStaged e, nofun⟩
  refine Passes.invoke_bind shows_ fun e => ?_
  cases opened : e.works with
  | false =>
    simp only [perform, opened]
    exact ⟨shows_, shows_, nofun⟩
  | true =>
    simp only [perform, opened]
    refine Passes.invoke_bind (shows_.staged _) fun e => ?_
    cases written : e.works with
    | false =>
      simp only [perform, written]
      exact closing false ((shows_.staged _).staged _) nofun
    | true =>
      simp only [perform, written]
      refine Passes.invoke_bind ((shows_.staged _).staged _) fun e => ?_
      cases synced : e.works with
      | false =>
        simp only [perform, synced]
        exact closing false ((shows_.staged _).staged _) nofun
      | true =>
        simp only [perform, synced]
        refine closing true (((shows_.staged _).staged _).staged _) fun _ => ?_
        simp

theorem perform_rename (source target : Path) (e : Event) :
    (disk source = none ∧ perform (.rename source target) disk e = (disk, .noEntry)) ∨
      perform (.rename source target) disk e = (moved disk source target, .ok) ∨
      (e.works = false ∧ perform (.rename source target) disk e = (disk, .failed)) := by
  unfold perform
  dsimp only
  split
  · rename_i none
    exact .inl ⟨isNone_iff_eq_none.mp none, rfl⟩
  · split
    · exact .inr (.inl rfl)
    · exact .inr (.inr ⟨Bool.eq_false_iff.mpr ‹_›, rfl⟩)

theorem perform_remove (path : Path) (e : Event) :
    perform (.remove path) disk e = (update disk path none, ()) ∨ perform (.remove path) disk e = (disk, ()) := by
  unfold perform
  dsimp only
  split
  · exact .inl rfl
  · exact .inr rfl

section
variable (shows_ : Shows active backup disk)
include shows_

theorem Shows.removeActive : Shows none backup (update disk .active none) := by
  refine ⟨update_self .., ?_⟩
  rw [update_of_ne (by decide), shows_.2]

theorem Shows.removeBackup : Shows active none (update disk .backup none) := by
  refine ⟨?_, update_self ..⟩
  rw [update_of_ne (by decide), shows_.1]

theorem Shows.restore : Shows backup none (moved disk .backup .active) :=
  ⟨(Storage.moved_target disk (by decide)).trans shows_.2, Storage.moved_source ..⟩

theorem Shows.setAside : Shows none active (moved disk .active .backup) :=
  ⟨Storage.moved_source .., (Storage.moved_target disk (by decide)).trans shows_.1⟩

theorem Shows.place (staged : disk .staged = some ⟨new, true⟩) : Shows (some new) backup (moved disk .staged .active) :=
  ⟨(Storage.moved_target disk (by decide)).trans staged, (Storage.moved_other disk (by decide) (by decide)).trans shows_.2⟩

end

theorem openRead_new (valid : headerValid id new = true) : openRead id (some new) backup = some new := by
  rw [openRead, filter_some_pos valid, some_or]

theorem passes_putInPlace {hadOriginal : Bool} (shows_ : Shows active backup disk) (valid : headerValid id new = true)
    (staged : disk .staged = some ⟨new, true⟩) (before : openRead id active backup = old)
    (again : hadOriginal = true → openRead id backup none = old) :
    Passes perform (Either id old new) (fun done disk => Shown id (if done then some new else old) disk)
      (putInPlace hadOriginal) disk := by
  have here : Shown id old disk := ⟨_, _, shows_, before⟩
  have discard : ∀ {disk : Disk Written}, Shown id old disk →
      Passes perform (Either id old new) (fun done disk => Shown id (if done then some new else old) disk) (do
        invoke (.remove .staged)
        return false) disk := by
    rintro disk ⟨active, backup, shows_, before⟩
    refine passes_discard (.inl ⟨_, _, shows_, before⟩) fun e => ?_
    exact ⟨.inl ⟨_, _, shows_.removeStaged e, before⟩, _, _, shows_.removeStaged e, before⟩
  have undo : ∀ reply, reply ≠ Renamed.ok → Passes perform (Either id old new)
      (fun done disk => Shown id (if done then some new else old) disk) (if reply = .ok then (do
        if hadOriginal then
          invoke (.remove .backup)
        return true) else (do
        if hadOriginal then
          let _ ← invoke (.rename .backup .active)
        invoke (.remove .staged)
        return false)) disk := by
    intro reply bad
    rw [if_neg bad]
    cases hadOriginal with
    | false => exact discard here
    | true =>
      refine Passes.invoke_bind (.inl here) fun e => discard ?_
      rcases @perform_rename disk .backup .active e with ⟨-, same⟩ | same | ⟨-, same⟩
      · rw [same]
        exact here
      · rw [same]
        exact ⟨_, _, shows_.restore, again rfl⟩
      · rw [same]
        exact here
  refine Passes.invoke_bind (.inl here) fun e => ?_
  rcases @perform_rename disk .staged .active e with ⟨-, same⟩ | same | ⟨-, same⟩
  · rw [same]
    exact undo _ nofun
  · rw [same]
    have there := shows_.place staged
    have placed : Shown id (some new) (moved disk .staged .active) := ⟨_, _, there, openRead_new valid⟩
    rw [if_pos rfl]
    cases hadOriginal with
    | false => exact ⟨.inr placed, placed⟩
    | true =>
      refine Passes.invoke_bind (.inr placed) fun e => ?_
      rcases @perform_remove (moved disk .staged .active) .backup e with same | same
      · rw [same]
        have done : Shown id (some new) (update (moved disk .staged .active) .backup none) :=
          ⟨_, _, there.removeBackup, openRead_new valid⟩
        exact ⟨.inr done, done⟩
      · rw [same]
        exact ⟨.inr placed, placed⟩
  · rw [same]
    exact undo _ nofun

theorem openRead_alone (id : List UInt8) (file : Option (List UInt8)) : openRead id none file = openRead id file none :=
  (or_none (o := file.filter (headerValid id))).symm

theorem passes_replaceFiles {fromBackup : Bool} (shows_ : Shows active backup disk) (valid : headerValid id new = true)
    (before : openRead id active backup = old) (kept : openRead id (if fromBackup then backup else active) none = old) :
    Passes perform (Either id old new) (fun done disk => Shown id (if done then some new else old) disk)
      (replaceFiles fromBackup new) disk := by
  have here : ∀ {disk : Disk Written}, Shows active backup disk → Either id old new disk := fun shows_ => .inl ⟨_, _, shows_, before⟩
  refine Passes.bind (((passes_stage shows_).widen fun _ => here).imp ?_)
  rintro done disk ⟨shows_, staged⟩
  cases done with
  | false => exact ⟨here shows_, _, _, shows_, before⟩
  | true =>
    have staged := staged rfl
    rw [if_neg (Bool.false_ne_true ∘ Eq.symm)]
    cases fromBackup with
    | true =>
      refine Passes.invoke_bind (here shows_) fun e => ?_
      rcases @perform_remove disk .active e with same | same
      · rw [same]
        have there : update disk .active none .staged = some ⟨new, true⟩ := by
          rw [update_of_ne (by decide), staged]
        exact passes_putInPlace shows_.removeActive valid there ((openRead_alone ..).trans kept) fun _ => kept
      · rw [same]
        exact passes_putInPlace shows_ valid staged before fun _ => kept
    | false =>
      have aside : ∀ {backup : Option (List UInt8)} {disk : Disk Written}, Shows active backup disk →
          disk .staged = some ⟨new, true⟩ → openRead id active backup = old →
          Passes perform (Either id old new) (fun done disk => Shown id (if done then some new else old) disk)
            (keepOriginal >>= fun aside => aside.elim (return false) putInPlace) disk := by
        intro backup disk shows_ staged before
        refine Passes.invoke_bind (.inl ⟨_, _, shows_, before⟩) fun e => ?_
        rcases @perform_rename disk .active .backup e with ⟨-, same⟩ | same | ⟨-, same⟩
        · rw [same]
          exact passes_putInPlace shows_ valid staged before nofun
        · rw [same]
          have there : moved disk .active .backup .staged = some ⟨new, true⟩ := by
            rw [Storage.moved_other disk (by decide) (by decide), staged]
          exact passes_putInPlace shows_.setAside valid there ((openRead_alone ..).trans kept) fun _ => kept
        · rw [same]
          exact ⟨.inl ⟨_, _, shows_, before⟩, fun e => ⟨.inl ⟨_, _, shows_.removeStaged e, before⟩,
            _, _, shows_.removeStaged e, before⟩⟩
      refine Passes.invoke_bind (here shows_) fun e => ?_
      rcases @perform_remove disk .backup e with same | same
      · rw [same]
        have there : update disk .backup none .staged = some ⟨new, true⟩ := by
          rw [update_of_ne (by decide), staged]
        exact aside shows_.removeBackup there kept
      · rw [same]
        exact aside shows_ staged before

/-- A run ends with the new file in place. -/
def Placed (new : List UInt8) (run : Disk Written × Bool) : Prop := run.1 .active = some ⟨new, true⟩ ∧ run.2 = true

theorem finish_call {α β : Type} {P : Disk Written × β → Prop} {op : FileOp α} {f : α → Program FileOp β} {env : Nat → Event}
    {reply : Disk Written × α} (same : perform op disk (env 0) = reply)
    (next : P (finish perform (f reply.2) reply.1 fun n => env (n + 1))) : P (finish perform (invoke op >>= f) disk env) := by
  rwa [finish_invoke_bind, same]

theorem finish_putInPlace (hadOriginal : Bool) {env : Nat → Event} (works : (env 0).works = true)
    (staged : disk .staged = some ⟨new, true⟩) : Placed new (finish perform (putInPlace hadOriginal) disk env) := by
  have renamed : perform (.rename .staged .active) disk (env 0) = (moved disk .staged .active, .ok) := by
    rw [perform, staged, works]
    rfl
  have there : moved disk .staged .active .active = some ⟨new, true⟩ :=
    (@Storage.moved_target _ disk .staged .active (by decide)).trans staged
  refine finish_call renamed ?_
  cases hadOriginal with
  | false => exact ⟨there, rfl⟩
  | true =>
    refine finish_call rfl ⟨?_, rfl⟩
    rcases @perform_remove (moved disk .staged .active) .backup (env 1) with same | same
    · rw [same]
      exact there
    · rw [same]
      exact there

theorem finish_works (fromBackup : Bool) {env : Nat → Event} (works : ∀ n, (env n).works = true) :
    Placed new (finish perform (replaceFiles fromBackup new) disk env) := by
  obtain ⟨torn, rfl⟩ : ∃ torn : Nat → List UInt8, env = fun n => ⟨true, torn n⟩ :=
    ⟨fun n => (env n).torn, funext fun n => by rw [← works n]⟩
  cases fromBackup with
  | true => exact ⟨rfl, rfl⟩
  | false =>
    obtain ⟨d, staged, same⟩ : ∃ d : Disk Written, d .staged = some ⟨new, true⟩ ∧
        finish perform (replaceFiles false new) disk (fun n => ⟨true, torn n⟩) = finish perform
          (keepOriginal >>= fun aside => aside.elim (return false) putInPlace) d fun n => ⟨true, torn (n + 5)⟩ := ⟨_, rfl, rfl⟩
    rw [same]
    refine finish_call rfl ?_
    rcases @perform_rename d .active .backup ⟨true, torn 5⟩ with ⟨-, same⟩ | same | ⟨fails, -⟩
    · rw [same]
      exact finish_putInPlace _ rfl staged
    · rw [same]
      have there : moved d .active .backup .staged = some ⟨new, true⟩ := by
        rw [Storage.moved_other d (by decide) (by decide), staged]
      exact finish_putInPlace _ rfl there
    · cases fails

end Steps

theorem openRead_none {id : List UInt8} {file backup : Option (List UInt8)} : openRead id file backup = none ↔
    file.any (headerValid id) = false ∧ backup.any (headerValid id) = false := by
  rw [openRead, or_eq_none_iff]
  cases file <;> cases backup <;> simp

theorem boundedLength_zero {mounted : Bool} {text : List UInt8} : boundedLength mounted text = 0 ↔ text = [] := by
  have limit : 0 < messageLimit mounted := by cases mounted <;> decide
  rw [boundedLength, ← List.length_eq_zero_iff]
  omega

theorem Turn.newFile_some {t : Turn} {seen : Disk (List UInt8)} (sourced : t.fresh = false → t.source seen ≠ none) :
    (∃ file, t.newFile seen = some file) ↔ idValid t.id = true ∧ t.user ≠ [] ∧ t.assistant ≠ [] := by
  unfold newFile commit
  split
  · rename_i refused
    refine iff_of_false nofun fun fine => ?_
    rcases refused with bad | ⟨old, bad⟩
    · exact Bool.false_ne_true (bad.symm.trans fine.1)
    · exact sourced old bad
  · rename_i fine
    rw [not_or, Bool.not_eq_false] at fine
    rw [and_iff_right fine.1]
    split
    · rename_i empty
      rw [boundedLength_zero, boundedLength_zero] at empty
      refine iff_of_false nofun fun full => ?_
      exact empty.elim full.1 full.2
    · rename_i full
      rw [not_or, boundedLength_zero, boundedLength_zero] at full
      exact iff_of_true ⟨_, rfl⟩ full

theorem Turn.program_none {t : Turn} {seen : Disk (List UInt8)} (refused : t.newFile seen = none) :
    t.program seen = pure false := by
  rw [program, refused]
  rfl

theorem Turn.program_some {t : Turn} {seen : Disk (List UInt8)} {content : List UInt8} (new : t.newFile seen = some content) :
    t.program seen = replaceFiles (!t.fresh && !(seen .active).any (headerValid t.id)) content := by
  rw [program, new]
  rfl

theorem openRead_readable {id : List UInt8} {file backup : Option (List UInt8)} : openRead id file backup =
    openRead id (if file.any (headerValid id) = true then file else backup) none := by
  cases file with
  | none => rw [any_none, if_neg Bool.false_ne_true, openRead_alone]
  | some file =>
    rw [any_some]
    split
    · rw [openRead, openRead, filter_some_pos ‹_›, some_or, some_or]
    · rw [openRead, filter_some_neg (Bool.eq_false_iff.mpr ‹_›), none_or, openRead, filter_none, or_none]

/-- A commit is safe unless it starts a new conversation in a slot whose conversation is in the backup alone. -/
theorem commit_crashSafe (t : Turn) (disk : Disk (List UInt8)) : CrashSafe t disk ↔
    (t.fresh = true → idValid t.id = true → t.user ≠ [] → t.assistant ≠ [] →
      (disk .active).any (headerValid t.id) = false → (disk .backup).any (headerValid t.id) = false) := by
  have shows_ : Shows (disk .active) (disk .backup) (onMedium disk) := ⟨rfl, rfl⟩
  have here : Shown t.id (t.opens disk) (onMedium disk) := ⟨_, _, shows_, rfl⟩
  constructor
  · intro safe fresh valid user assistant unread
    obtain ⟨content, new⟩ := (@Turn.newFile_some t disk fun old => absurd (fresh.symm.trans old) nofun).mpr ⟨valid, user, assistant⟩
    have program := Turn.program_some new
    rw [fresh, Bool.not_true, Bool.false_and] at program
    -- the backup is removed before the file is put in place
    have stopped := safe.stopped (fun _ => ⟨true, []⟩) 5 _ fun path => .inl rfl
    rw [program] at stopped
    have lost : t.opens (fun path => (stop perform (replaceFiles false content) (fun _ => ⟨true, []⟩) 5 (onMedium disk) path).map
        Written.data) = none := by
      refine openRead_none.mpr ⟨?_, rfl⟩
      change (((disk .active).map (⟨·, true⟩)).map Written.data).any (headerValid t.id) = false
      rw [map_map]
      exact (congrArg _ (map_id' ..)).trans unread
    rw [lost] at stopped
    rcases stopped with none | ⟨file, -, same⟩
    · exact (openRead_none.mp none.symm).2
    · cases same
  · intro cond
    have passes : ∀ content, t.newFile disk = some content → Passes perform (Either t.id (t.opens disk) content)
        (fun done disk' => Shown t.id (if done then some content else t.opens disk) disk') (t.program disk) (onMedium disk) := by
      intro content new
      rw [Turn.program_some new]
      refine passes_replaceFiles shows_ (Turn.newFile_valid new) rfl ?_
      rw [Turn.opens, @openRead_readable _ (disk .active)]
      cases readable : (disk .active).any (headerValid t.id) with
      | true => rw [Bool.not_true, Bool.and_false, if_neg Bool.false_ne_true, if_pos rfl]
      | false =>
        rw [if_neg (@Bool.false_ne_true)]
        cases fresh : t.fresh with
        | false => rfl
        | true =>
          obtain ⟨valid, user, assistant⟩ := (Turn.newFile_some fun old => absurd (fresh.symm.trans old) nofun).mp ⟨_, new⟩
          exact (openRead_none.mpr ⟨readable, rfl⟩).trans
            (openRead_none.mpr ⟨cond fresh valid user assistant readable, rfl⟩).symm
    constructor
    · intro env n left remains
      cases new : t.newFile disk with
      | none =>
        rw [Turn.program_none new] at remains
        exact .inl (here.opens remains)
      | some content =>
        rcases stop_iff.mpr ((passes content new).imp fun _ _ _ => trivial) env n with old | new
        · exact .inl (old.opens remains)
        · exact .inr ⟨content, rfl, new.opens remains⟩
    · rintro missed env works seen rfl left remains
      cases missed with
      | none =>
        cases new : t.newFile disk with
        | none =>
          rw [elim_none, Turn.program_none new] at remains ⊢
          exact here.opens remains
        | some content =>
          have shown := ((passes content new).result env).2.opens remains
          rw [elim_none, new]
          exact shown
      | some path =>
        rw [elim_some] at remains ⊢
        generalize update disk path none = seen at *
        cases new : t.newFile seen with
        | none =>
          rw [Turn.program_none new] at remains ⊢
          exact here.opens remains
        | some content =>
          rw [Turn.program_some new] at remains ⊢
          obtain ⟨placed, done⟩ := @finish_works content (onMedium disk) _ env (works rfl)
          have there : left .active = some content := remains.synced placed
          rw [if_pos done, Turn.opens, there]
          exact openRead_new (Turn.newFile_valid new)

/-- The directories that commits and deletions lead to; both may be stopped. -/
inductive Reached : Disk (List UInt8) → Prop
  | empty : Reached fun _ => none
  | commit {disk left : Disk (List UInt8)} (reached : Reached disk) (t : Turn) (env : Nat → Event) (n : Nat)
      (remains : Remains (stop perform (t.program disk) env n (onMedium disk)) left) : Reached left
  | delete {disk : Disk (List UInt8)} (reached : Reached disk) (n : Nat) :
      Reached fun path => if path ∈ [Path.active, .staged, .backup].take n then none else disk path

/-- A commit that is stopped leaves the conversation in the backup, and its slot goes to a new one. -/
theorem slot_lost : ¬∀ (t : Turn) (disk : Disk (List UInt8)), Reached disk → CrashSafe t disk := by
  intro claim
  obtain ⟨t, fresh, proceeds⟩ : ∃ t : Turn, t.fresh = true ∧ idValid t.id = true ∧ t.user ≠ [] ∧ t.assistant ≠ [] :=
    ⟨⟨false, true, [0x31], [0x61], [0x62], [], 0, 0, .replicate 280 0, .replicate 4 0⟩, rfl, rfl, nofun, nofun⟩
  obtain ⟨first, new⟩ := (@Turn.newFile_some t (fun _ => none) fun old => absurd (fresh.symm.trans old) nofun).mpr proceeds
  have begun := Turn.program_some new
  rw [fresh, Bool.not_true, Bool.false_and] at begun
  have valid := Turn.newFile_valid new
  have reached : Reached fun | .active => some first | _ => none := by
    refine Reached.empty.commit t (fun _ => ⟨true, []⟩) 8 fun path => .inl ?_
    rw [begun]
    cases path <;> rfl
  obtain ⟨t', again⟩ : ∃ t', t' = { t with fresh := false } := ⟨_, rfl⟩
  have source : t'.source (fun | .active => some first | _ => none) = some first := by
    rw [again]
    exact openRead_new valid
  obtain ⟨next, new'⟩ := (Turn.newFile_some fun _ none => nomatch source.symm.trans none).mpr (again ▸ proceeds)
  have begun := Turn.program_some new'
  rw [again, any_some, valid, Bool.not_true, Bool.and_false, ← again] at begun
  have reached : Reached fun | .active => none | .staged => some next | .backup => some first := by
    refine reached.commit t' (fun _ => ⟨true, []⟩) 6 fun path => .inl ?_
    rw [begun]
    cases path <;> rfl
  have lost := (commit_crashSafe t _).mp (claim t _ reached) fresh proceeds.1 proceeds.2.1 proceeds.2.2 rfl
  exact Bool.false_ne_true (lost.symm.trans valid)

end Files

end SolarOs.Agent
