import SolarOs.Ramfs.Runs

/-! Calls on files against lists of bytes: what a file holds is a list of bytes, and every call
does to it and answers what its list of bytes says. -/
namespace SolarOs.Ramfs
open ByteMemory FileBytes Function Machine

/-- What a call returns, with every `errno` as a failure. -/
inductive Reply where
  | failed
  | fd (fd : Fin maxOpenFiles)
  | bytes (bytes : List UInt8)
  | count (n : Nat)
  | offset (n : Nat)
  | done
  deriving DecidableEq

def Reply.of {α : Type} (answer : α → Reply) : Except Errno α → Reply
  | .error _ => .failed
  | .ok a => answer a

def FsCall.onFiles : FsCall → Bool
  | .unlink _ | .mkdir _ | .rmdir _ | .rename _ _ => false
  | _ => true

def FsCall.mayFail : FsCall → Bool
  | .read _ _ | .close _ => false
  | _ => true

/-- Files as lists of bytes, and for each descriptor a file with an offset. -/
structure ByteFiles where
  bytes : Place → List UInt8
  fds : Fin maxOpenFiles → Option RamfsFile

namespace ByteFiles
variable (r : ByteFiles)

def empty : ByteFiles := ⟨fun _ => [], fun _ => none⟩

/-- What is done with an open descriptor; with any other a call fails. -/
def withFd (fd : Int) (act : Fin maxOpenFiles → RamfsFile → ByteFiles × Reply) : ByteFiles × Reply :=
  if fd < 0 then (r, .failed)
  else if h : fd.toNat < maxOpenFiles then
    match r.fds ⟨fd.toNat, h⟩ with
    | none => (r, .failed)
    | some file => act ⟨fd.toNat, h⟩ file
  else (r, .failed)

def setFd (slot : Fin maxOpenFiles) (file : Option RamfsFile) : ByteFiles :=
  { r with fds := update r.fds slot file }

variable (place : Place)

def setBytes (bytes : List UInt8) : ByteFiles :=
  { r with bytes := update r.bytes place bytes }

/-- With `O_APPEND` a file is written at its end. -/
def writePoint (file : RamfsFile) : Nat :=
  if file.flags &&& O_APPEND ≠ 0 then (r.bytes file.node).length else file.offset

/-- What a call does and answers; `place` is the file that its path names. -/
def step : FsCall → ByteFiles × Reply
  | .open_ _ flags =>
    let r := if truncates flags then r.setBytes place [] else r
    match (List.finRange maxOpenFiles).find? fun fd => (r.fds fd).isNone with
    | none => (r, .failed)
    | some slot =>
      let offset := if flags &&& O_APPEND ≠ 0 then (r.bytes place).length else 0
      (r.setFd slot (some ⟨place, offset, flags⟩), .fd slot)
  | .close fd => r.withFd fd fun slot _ => (r.setFd slot none, .done)
  | .read fd size => r.withFd fd fun slot file =>
    if file.flags &&& O_ACCMODE = O_WRONLY then (r, .failed)
    else
      let bytes := readAt (r.bytes file.node) file.offset size
      (r.setFd slot (some { file with offset := file.offset + bytes.length }), .bytes bytes)
  | .write fd data => r.withFd fd fun slot file =>
    let r' := r.setBytes file.node (writeAt (r.bytes file.node) (r.writePoint file) data)
    (r'.setFd slot (some { file with offset := r.writePoint file + data.length }), .count data.length)
  | .lseek fd offset mode => r.withFd fd fun slot file =>
    let base : Int := match mode with
      | .cur => file.offset
      | .end_ => (r.bytes file.node).length
      | _ => 0
    (r.setFd slot (some { file with offset := (base + offset).toNat }), .offset (base + offset).toNat)
  | .truncate _ length => (r.setBytes place (resized (r.bytes place) length.toNat), .done)
  | .ftruncate fd length => r.withFd fd fun slot file =>
    let r' := r.setBytes file.node (resized (r.bytes file.node) length.toNat)
    (r'.setFd slot (some { file with offset := min file.offset length.toNat }), .done)
  | _ => (r, .failed)

/-- What a call leaves that fails: the bytes of every file, and every descriptor but one that was to
write at the end. -/
def refuse : FsCall → ByteFiles
  | .write fd _ => (r.withFd fd fun slot file =>
    if file.flags &&& O_ACCMODE = O_RDONLY then (r, .failed)
    else (r.setFd slot (some { file with offset := r.writePoint file }), .failed)).1
  | _ => r

def next (call : FsCall) (reply : Reply) : ByteFiles :=
  if reply = .failed then r.refuse call else (r.step place call).1

def Answers (call : FsCall) (reply : Reply) : Prop :=
  reply = (r.step place call).2 ∨ reply = .failed ∧ call.mayFail = true

instance (place : Place) (call : FsCall) (reply : Reply) : Decidable (r.Answers place call reply) :=
  inferInstanceAs (Decidable (_ ∨ _))

def Unused : Prop := r.bytes place = [] ∧ ∀ slot file, r.fds slot = some file → file.node ≠ place

end ByteFiles

namespace Mount
variable {m n : Mount} {place : Place} {path : List UInt8} {flags : Nat}

def reply (m : Mount) : FsCall → Reply
  | .open_ path flags => .of .fd (m.vfsOpen path flags).2
  | .close fd => .of (fun _ => .done) (m.vfsClose fd).2
  | .read fd size => .of .bytes (m.vfsRead fd size).2
  | .write fd bytes => .of .count (m.vfsWrite fd bytes).2
  | .lseek fd offset mode => .of .offset (m.vfsLseek fd offset mode).2
  | .truncate path length => .of (fun _ => .done) (m.vfsTruncate path length).2
  | .ftruncate fd length => .of (fun _ => .done) (m.vfsFtruncate fd length).2
  | _ => .failed

/-- The file that the path of a call names; where it names none, the one the new descriptor is for. -/
def target (m : Mount) : FsCall → Place
  | .open_ path flags =>
    match m.findNode path, m.vfsOpen path flags with
    | .ok place, _ => place
    | .error _, (m', .ok fd) => ((m'.files fd).map RamfsFile.node).getD .root
    | .error _, (_, .error _) => .root
  | .truncate path _ => (m.findNode path).toOption.getD .root
  | _ => .root

def MakesFile (m : Mount) : FsCall → Prop
  | .open_ path flags => (∃ errno, m.findNode path = .error errno) ∧ ∃ fd, (m.vfsOpen path flags).2 = .ok fd
  | _ => False

def byteFiles (m : Mount) : ByteFiles := ⟨m.contents, m.files⟩

def Covered (m : Mount) (call : FsCall) : Prop :=
  call.onFiles = true ∧ ∀ path flags, call = .open_ path flags → m.Clears path flags → m.freeFd.isSome

theorem withFd_ok {fd : Int} {slot : Fin maxOpenFiles} {file : RamfsFile} (h : m.getFile fd = .ok (slot, file))
    (act : Fin maxOpenFiles → RamfsFile → ByteFiles × Reply) : m.byteFiles.withFd fd act = act slot file := by
  unfold getFile at h
  unfold ByteFiles.withFd
  split at h
  · rename_i inside
    rw [if_neg (not_lt.mpr inside.1), dif_pos inside.2]
    split at h
    · exact nomatch h
    · rename_i there
      cases h
      simp only [byteFiles, there]
  · exact nomatch h

theorem withFd_error {fd : Int} {errno : Errno} (h : m.getFile fd = .error errno)
    (act : Fin maxOpenFiles → RamfsFile → ByteFiles × Reply) : m.byteFiles.withFd fd act = (m.byteFiles, .failed) := by
  unfold getFile at h
  unfold ByteFiles.withFd
  split at h
  · rename_i inside
    rw [if_neg (not_lt.mpr inside.1), dif_pos inside.2]
    split at h
    · rename_i none
      simp only [byteFiles, none]
    · exact nomatch h
  · rename_i outside
    split
    · rfl
    · rename_i notNeg
      exact dif_neg fun inside => outside ⟨not_lt.mp notNeg, inside⟩

/-- What a call does and answers is what the lists of bytes say. -/
structure Matches (m : Mount) (call : FsCall) : Prop where
  answers : m.byteFiles.Answers (m.target call) call (m.reply call)
  next : (m.after call).byteFiles = m.byteFiles.next (m.target call) call (m.reply call)

theorem byteFiles_setFile (m : Mount) (slot : Fin maxOpenFiles) (file : Option RamfsFile) :
    (m.setFile slot file).byteFiles = m.byteFiles.setFd slot file := rfl

theorem Refilled.byteFiles {bytes : List UInt8} (h : Refilled m n place bytes) :
    n.byteFiles = m.byteFiles.setBytes place bytes := by
  unfold Mount.byteFiles ByteFiles.setBytes
  rw [h.files]
  congr 1
  funext p
  by_cases own : p = place
  · rw [own, h.contents, update_self]
  · rw [h.others p own, update_of_ne own]

variable {call : FsCall}

theorem matches_failed (replies : m.reply call = .failed) (left : (m.after call).byteFiles = m.byteFiles.refuse call)
    (may : call.mayFail = true ∨ (m.byteFiles.step (m.target call) call).2 = .failed) : Matches m call where
  answers := may.elim (fun may => .inr ⟨replies, may⟩) fun fails => .inl (replies.trans fails.symm)
  next := by rw [left, ByteFiles.next, if_pos replies]

theorem matches_step {r : ByteFiles} {reply : Reply} (replies : m.reply call = reply)
    (does : (m.after call).byteFiles = r) (works : reply ≠ .failed)
    (stepped : m.byteFiles.step (m.target call) call = (r, reply)) : Matches m call where
  answers := .inl (by rw [replies, stepped])
  next := by rw [does, ByteFiles.next, if_neg (by rwa [replies]), stepped]

theorem matches_close (m : Mount) (fd : Int) : Matches m (.close fd) := by
  cases found : m.getFile fd with
  | error errno =>
    have closes : m.vfsClose fd = (m, .error errno) := by
      unfold vfsClose
      rw [found]
    apply matches_failed
    · rw [reply, closes, Reply.of]
    · rw [after, closes]
      rfl
    · exact .inr (congrArg Prod.snd (withFd_error found _))
  | ok open_ =>
    obtain ⟨slot, file⟩ := open_
    have closes : m.vfsClose fd = (m.setFile slot none, .ok ()) := by
      unfold vfsClose
      rw [found]
    apply matches_step
    · rw [reply, closes, Reply.of]
    · rw [after, closes, byteFiles_setFile]
    · exact nofun
    · simp only [ByteFiles.step, withFd_ok found]

theorem matches_read (m : Mount) (fd : Int) (size : Nat) : Matches m (.read fd size) := by
  cases found : m.getFile fd with
  | error errno =>
    have reads : m.vfsRead fd size = (m, .error errno) := by
      unfold vfsRead
      rw [found]
    apply matches_failed
    · rw [reply, reads, Reply.of]
    · rw [after, reads]
      rfl
    · exact .inr (congrArg Prod.snd (withFd_error found _))
  | ok open_ =>
    obtain ⟨slot, file⟩ := open_
    by_cases writeOnly : file.flags &&& O_ACCMODE = O_WRONLY
    · have reads : m.vfsRead fd size = (m, .error .EBADF) := by
        unfold vfsRead
        rw [found]
        exact if_pos writeOnly
      apply matches_failed
      · rw [reply, reads, Reply.of]
      · rw [after, reads]
        rfl
      · simp only [ByteFiles.step, withFd_ok found, if_pos writeOnly, or_true]
    · have reads := vfsRead_ok found writeOnly size
      apply matches_step
      · rw [reply, reads, Reply.of]
      · rw [after, reads, byteFiles_setFile]
      · exact nofun
      · simp only [ByteFiles.step, withFd_ok found, if_neg writeOnly]
        rfl

theorem Sound.matches_write (h : m.Sound) (fd : Int) (bytes : List UInt8) : Matches m (.write fd bytes) := by
  have point : ∀ file : RamfsFile, (m.atEnd file).offset = m.byteFiles.writePoint file := by
    intro file
    unfold atEnd ByteFiles.writePoint
    split
    · exact (length_contents m file.node).symm
    · rfl
  have writes := h.vfsWrite fd bytes
  generalize out : m.vfsWrite fd bytes = result at writes
  cases writes with
  | @refused errno closed =>
    apply matches_failed
    · rw [reply, out, Reply.of]
    · rw [after, out, ByteFiles.refuse]
      cases found : m.getFile fd with
      | error errno => rw [withFd_error found]
      | ok open_ =>
        obtain ⟨slot, file⟩ := open_
        rw [withFd_ok found, if_pos (closed slot file found)]
    · exact .inl rfl
  | @failed slot file errno found writable =>
    apply matches_failed
    · rw [reply, out, Reply.of]
    · rw [after, out, ByteFiles.refuse, withFd_ok found, if_neg writable, atEnd_eq, point]
      rfl
    · exact .inl rfl
  | @wrote slot file n found writable refilled =>
    apply matches_step
    · rw [reply, out, Reply.of]
    · rw [after, out, byteFiles_setFile, refilled.byteFiles, byteFiles_setFile]
    · exact nofun
    · simp only [ByteFiles.step, withFd_ok found, ByteFiles.setFd, ByteFiles.setBytes, update_idem, point]
      rfl

theorem matches_lseek (m : Mount) (fd offset : Int) (mode : Whence) : Matches m (.lseek fd offset mode) := by
  have seeks := m.vfsLseek_cases fd offset mode
  generalize out : m.vfsLseek fd offset mode = result at seeks
  cases seeks with
  | refused =>
    apply matches_failed
    · rw [reply, out, Reply.of]
    · rw [after, out]
      rfl
    · exact .inl rfl
  | @sought slot file next found lands =>
    apply matches_step
    · rw [reply, out, Reply.of]
    · rw [after, out, byteFiles_setFile]
    · exact nofun
    · have length : (m.byteFiles.bytes file.node).length = (m.contents file.node).length := rfl
      rcases lands with ⟨rfl, lands⟩ | ⟨rfl, lands⟩ | ⟨rfl, lands⟩
      all_goals
        simp only [ByteFiles.step, withFd_ok found, length, Int.zero_add, ← lands, Int.toNat_natCast]

theorem Sound.matches_truncate (h : m.Sound) (path : List UInt8) (length : Int) : Matches m (.truncate path length) := by
  have truncates := h.vfsTruncate path length
  generalize out : m.vfsTruncate path length = result at truncates
  cases truncates with
  | refused =>
    apply matches_failed
    · rw [reply, out, Reply.of]
    · rw [after, out]
      rfl
    · exact .inl rfl
  | @cut place node n positive found there plain refilled =>
    have target : m.target (.truncate path length) = place := by
      rw [Mount.target, found]
      rfl
    apply matches_step
    · rw [reply, out, Reply.of]
    · rw [after, out, refilled.byteFiles]
    · exact nofun
    · rw [target]
      rfl

theorem Sound.matches_ftruncate (h : m.Sound) (fd length : Int) : Matches m (.ftruncate fd length) := by
  have cuts := h.vfsFtruncate fd length
  generalize out : m.vfsFtruncate fd length = result at cuts
  cases cuts with
  | refused =>
    apply matches_failed
    · rw [reply, out, Reply.of]
    · rw [after, out]
      rfl
    · exact .inl rfl
  | @cut slot file n positive found refilled =>
    apply matches_step
    · rw [reply, out, Reply.of]
    · rw [after, out, byteFiles_setFile, refilled.byteFiles]
    · exact nofun
    · simp only [ByteFiles.step, withFd_ok found]
      rfl

theorem contents_absent (absent : m.nodes place = none) : m.contents place = [] := by
  apply List.length_eq_zero_iff.mp
  rw [length_contents, node_of_none absent]
  rfl

theorem Prepared.byteFiles (h : Prepared m place flags n) :
    n.byteFiles = if truncates flags then m.byteFiles.setBytes place [] else m.byteFiles := by
  cases h with
  | kept keeps => rw [keeps, if_neg Bool.false_ne_true]
  | cleared truncs refilled => rw [if_pos truncs, refilled.byteFiles]

theorem Prepared.matches_fd (prepared : Prepared m place flags n) {fd : Fin maxOpenFiles} (free : n.freeFd = some fd)
    (path : List UInt8) : m.byteFiles.step place (.open_ path flags) =
      ((n.setFile fd (some ⟨place, if flags &&& O_APPEND ≠ 0 then (n.node place).size else 0, flags⟩)).byteFiles,
        .fd fd) := by
  have finds : ((List.finRange maxOpenFiles).find? fun fd => (n.byteFiles.fds fd).isNone) = some fd := free
  simp only [ByteFiles.step]
  rw [← prepared.byteFiles]
  simp only [finds]
  rw [byteFiles_setFile, ← length_contents]
  rfl

theorem Sound.matches_open (h : m.Sound) (path : List UInt8) (flags : Nat)
    (covered : m.Clears path flags → m.freeFd.isSome) : Matches m (.open_ path flags) := by
  have opens := h.vfsOpen path flags
  generalize out : m.vfsOpen path flags = result at opens
  have failed : ∀ {m' errno}, result = (m', .error errno) → m'.byteFiles = m.byteFiles → Matches m (.open_ path flags) := by
    intro m' errno fails same
    subst fails
    apply matches_failed
    · rw [reply, out, Reply.of]
    · rw [after, out, same]
      rfl
    · exact .inl rfl
  cases opens with
  | refused _ _ unchanged _ _ =>
    apply failed rfl
    unfold byteFiles
    rw [unchanged.contents, unchanged.files]
  | @found place node n finds there plain notExcl prepared =>
    rcases n.allocateFd_cases place flags with ⟨none, fails⟩ | ⟨fd, free, -, gives⟩
    · apply failed fails
      rw [freeFd_congr prepared.files] at none
      cases prepared with
      | kept => rfl
      | cleared truncs refilled =>
        have empty : node.size = 0 := by
          by_contra some
          have clears : m.Clears path flags := by
            refine ⟨place, finds, notExcl, ?_, truncs, ?_⟩
            · rw [node_of_some there, plain]
            · rw [node_of_some there]
              exact Nat.pos_of_ne_zero some
          have free := covered clears
          rw [none] at free
          exact nomatch free
        have unchanged := refilled.unchanged h there empty
        unfold byteFiles
        rw [unchanged.contents, unchanged.files]
    · have target : m.target (.open_ path flags) = place := by
        rw [Mount.target, finds]
      apply matches_step
      · rw [reply, out, gives, Reply.of]
      · rw [after, out, gives]
      · exact nofun
      · rw [target]
        exact prepared.matches_fd free path
  | @made parent dir leaf ptr g n creates _ _ _ _ fresh soundG tree files others none prepared =>
    have same : g.byteFiles = m.byteFiles := by
      unfold byteFiles
      rw [files]
      congr 1
      funext p
      by_cases new : p = .block ptr
      · rw [new, none]
        refine (List.length_eq_zero_iff.mp ?_).symm
        rw [length_contents, node_of_none fresh]
        rfl
      · exact others p new
    rcases n.allocateFd_cases (.block ptr) flags with ⟨none', fails⟩ | ⟨fd, free, -, gives⟩
    · apply failed fails
      cases prepared with
      | kept => exact same
      | cleared truncs refilled =>
        rw [refilled.byteFiles, ByteFiles.setBytes, same]
        congr 1
        rw [← contents_absent fresh]
        exact update_eq_self _ _
    · have target : m.target (.open_ path flags) = .block ptr := by
        obtain ⟨errno, misses⟩ := creates.1
        rw [Mount.target, misses, out, gives]
        simp only [setFile_files, update_self]
        rfl
      apply matches_step
      · rw [reply, out, gives, Reply.of]
      · rw [after, out, gives]
      · exact nofun
      · rw [target, ← same]
        exact prepared.matches_fd free path

theorem Sound.made_unused (h : m.Sound) (makes : m.MakesFile call) : m.byteFiles.Unused (m.target call) := by
  cases call with
  | open_ path flags =>
    obtain ⟨⟨errno, misses⟩, fd, opened⟩ := makes
    have opens := h.vfsOpen path flags
    generalize out : m.vfsOpen path flags = result at opens opened
    cases opens with
    | refused => exact nomatch opened
    | found finds => exact nomatch misses.symm.trans finds
    | @made parent dir leaf ptr g n creates _ _ _ _ fresh _ _ _ _ _ prepared =>
      rcases n.allocateFd_cases (.block ptr) flags with ⟨none', fails⟩ | ⟨fd, free, -, gives⟩
      · rw [fails] at opened
        exact nomatch opened
      · have target : m.target (.open_ path flags) = .block ptr := by
          rw [Mount.target, misses, out, gives]
          simp only [setFile_files, update_self]
          rfl
        rw [target]
        refine ⟨contents_absent fresh, fun slot file there own => ?_⟩
        obtain ⟨node, sits, -⟩ := h.files slot file there
        rw [own, fresh] at sits
        exact nomatch sits
  | _ => exact makes.elim

theorem Sound.matches_call (h : m.Sound) (covered : m.Covered call) : Matches m call := by
  cases call with
  | open_ path flags => exact h.matches_open path flags (covered.2 path flags rfl)
  | close fd => exact m.matches_close fd
  | read fd size => exact m.matches_read fd size
  | write fd bytes => exact h.matches_write fd bytes
  | lseek fd offset mode => exact m.matches_lseek fd offset mode
  | truncate path length => exact h.matches_truncate path length
  | ftruncate fd length => exact h.matches_ftruncate fd length
  | unlink | mkdir | rmdir | rename => exact nomatch covered.1

end Mount

/-- The mount and the lists of bytes after a call; the lists of bytes are told only which file a path
names and what the call returned. -/
def ByteFiles.along (p : Mount × ByteFiles) (call : FsCall) : Mount × ByteFiles :=
  (p.1.after call, p.2.next (p.1.target call) call (p.1.reply call))

/-- The contents of the files are the lists of bytes, the call answers as they say, and a file that
it makes was not used before. -/
structure ByteFiles.Follows (p : Mount × ByteFiles) (call : FsCall) : Prop where
  files : p.1.byteFiles = p.2
  answers : p.2.Answers (p.1.target call) call (p.1.reply call)
  unused : p.1.MakesFile call → p.2.Unused (p.1.target call)
  left : (p.1.after call).byteFiles = (ByteFiles.along p call).2

theorem ByteFiles.admits_along {m : Mount} {r : ByteFiles} {calls : List FsCall}
    (covered : Machine.Admits Mount.after Mount.Covered m calls) :
    Machine.Admits ByteFiles.along (fun p call => p.1.Covered call) (m, r) calls := by
  induction calls generalizing m r with
  | nil => trivial
  | cons call calls ih => exact ⟨covered.1, ih covered.2⟩

theorem byteFiles_fresh (heap : Heap) : (Mount.fresh heap).byteFiles = .empty := by
  unfold Mount.byteFiles ByteFiles.empty
  congr 1
  funext place
  by_cases top : place = .root
  · rw [top]
    rfl
  · exact Mount.contents_absent (if_neg top)

/-- In every run of covered calls each call follows the lists of bytes. -/
theorem files_follow (memory : Memory) (arena quota : Nat) (m : Mount) (mounted : mount memory arena quota = .ok m)
    (space : arena + quota ≤ 2 ^ 32) (calls : List FsCall) (covered : Machine.Admits Mount.after Mount.Covered m calls)
    (n : Nat) (call : FsCall) (next : calls[n]? = some call) :
    ByteFiles.Follows (run ByteFiles.along (m, .empty) (calls.take n)) call := by
  obtain ⟨heap, -, rfl⟩ := mount_fresh mounted
  obtain ⟨inside, here⟩ := List.getElem?_eq_some_iff.mp next
  have admits := ByteFiles.admits_along (r := .empty) covered
  rw [← List.take_append_drop n calls, List.drop_eq_getElem_cons inside, here] at admits
  obtain ⟨before, now⟩ := admits_append.mp admits
  let Inv (p : Mount × ByteFiles) : Prop := p.1.Sound ∧ p.1.byteFiles = p.2
  have keep : ∀ p call, Inv p → p.1.Covered call → Inv (ByteFiles.along p call) := by
    rintro ⟨m, r⟩ call ⟨sound, same⟩ covered
    obtain rfl : m.byteFiles = r := same
    exact ⟨(sound.call call).1, (sound.matches_call covered).next⟩
  have start : Inv (Mount.fresh heap, .empty) := ⟨mount_sound mounted space, byteFiles_fresh heap⟩
  obtain ⟨sound, same⟩ : Inv _ := run_induct keep start before
  generalize run ByteFiles.along (Mount.fresh heap, .empty) (calls.take n) = p at now sound same
  obtain ⟨m, r⟩ := p
  obtain rfl : m.byteFiles = r := same
  have matched := sound.matches_call now.1
  exact ⟨rfl, matched.answers, sound.made_unused, matched.next⟩

/-- `/a` opened, written and read. -/
def noteCalls : List FsCall :=
  [.open_ slashA (O_CREAT ||| 2), .write 0 [104, 105], .lseek 0 0 .set, .read 0 8]

theorem files_follow_note :
    ByteFiles.Follows (run ByteFiles.along (Mount.fresh Session.sampleHeap, .empty) (noteCalls.take 3))
      (.read 0 8) := by
  apply files_follow ⟨fun _ => 0⟩ 4096 1024 (Mount.fresh Session.sampleHeap) rfl (by decide) noteCalls
  · refine ⟨⟨rfl, ?_⟩, ⟨rfl, nofun⟩, ⟨rfl, nofun⟩, ⟨rfl, nofun⟩, trivial⟩
    rintro path flags same ⟨place, -, -, -, truncs, -⟩
    cases same
    exact absurd truncs (by decide)
  · rfl

/-- With no descriptor left, the call that should clear `/a` fails, and `/a` is empty. -/
def clearedCalls : List FsCall :=
  List.replicate maxOpenFiles (.open_ slashA (O_CREAT ||| 2)) ++
    [.write 0 [120], .open_ slashA (O_TRUNC ||| O_WRONLY), .lseek 0 0 .set, .read 0 1]

theorem failed_open_clears : ¬∀ (n : Nat) (call : FsCall), clearedCalls[n]? = some call →
      ByteFiles.Follows (run ByteFiles.along (Mount.fresh Session.sampleHeap, .empty) (clearedCalls.take n))
        call := by
  intro all
  have answers := (all 19 (.read 0 1) rfl).answers
  exact absurd answers (by decide +kernel)

end SolarOs.Ramfs
