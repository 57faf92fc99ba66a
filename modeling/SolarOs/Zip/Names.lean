import SolarOs.Library.Program
import SolarOs.Storage.Paths

/-! The names of the entries of ZIP archives: what is extracted stays inside its directory. -/
namespace SolarOs.Zip
open Program SegmentPath StoragePath List

/-- `ZIP_NAME_MAX`, that is `SOLAR_OS_STORAGE_PATH_MAX`. -/
def zipNameMax : Nat := 160

/-- The characters `\` and `:`. -/
def backslash : UInt8 := 92

def colon : UInt8 := 58

/-- The loop of `zip_name_is_safe` from a segment on. -/
def segmentsAreSafe (segment : List UInt8) : Bool :=
  if _more : segment = [] then true
  else
    let first := segment.takeWhile (· ≠ slash)
    let after := segment.dropWhile (· ≠ slash)
    if first = [] then after ≠ [] ∧ after.tail = []
    else if first = [dot] ∨ first = [dot, dot] ∨ backslash ∈ first ∨ colon ∈ first then false
    else if after = [] then true
    else segmentsAreSafe after.tail
termination_by segment.length
decreasing_by
  have := (dropWhile_suffix (l := segment) (fun c => decide (c ≠ slash))).length_le
  have := length_pos_iff.mpr _more
  rw [length_tail]
  omega

def zipNameIsSafe (name : CString) : Bool :=
  if name.bytes = [] ∨ name.bytes.head? = some slash ∨ name.bytes.head? = some backslash then false
  else segmentsAreSafe name.bytes

/-- What `"%s%s"` or `"%s/%s"` prints. -/
def printed (dir name : CString) : CString where
  bytes := if dir.bytes.getLast? = some slash then dir.bytes ++ name.bytes else dir.bytes ++ slash :: name.bytes
  noNul := by
    have here := dir.noNul
    have there := name.noNul
    split <;> intro b inside
    · exact (mem_append.mp inside).elim (here b) (there b)
    · rcases mem_append.mp inside with before | after
      · exact here b before
      · rcases mem_cons.mp after with rfl | later
        · decide
        · exact there b later

def zipJoinPath (outLen : Nat) (dir name : CString) : Option CString :=
  if (printed dir name).strlen < outLen then some (printed dir name) else none

/-- `zip_join_archive_name`, the same again. -/
def zipJoinArchiveName (outLen : Nat) (dir name : CString) : Option CString := zipJoinPath outLen dir name

inductive Mkdir where
  | made
  | present
  | failed
  deriving DecidableEq

/-- What the extraction of an entry does to files: directories that are made, files that are
opened for writing or removed, and what is read from the archive. -/
inductive FileOp : Type → Type
  | mkdir (path : List UInt8) : FileOp Mkdir
  | create (path : CString) : FileOp Bool
  | remove (path : CString) : FileOp Unit
  | skipLocalHeader : FileOp EspErr
  | copyOut : FileOp (EspErr × Nat × Nat)
  | closeOutput : FileOp Bool

abbrev Files (α : Type) := Program FileOp α

def withoutSlashes (mountLen : Nat) (work : List UInt8) : Nat → Nat
  | 0 => 0
  | len + 1 =>
    if len + 1 > mountLen ∧ work[len]? = some slash then withoutSlashes mountLen work len else len + 1

/-- The loop of `zip_mkdir_p`, and the call after it. -/
def mkdirLoop (mountLen : Nat) (front : List UInt8) : List UInt8 → Files EspErr
  | [] =>
    if front.length > mountLen then do
      let reply ← invoke (.mkdir front)
      return if reply = .failed then .fail else .ok
    else return .ok
  | c :: rest =>
    if c = slash ∧ front.length > mountLen then do
      let reply ← invoke (.mkdir front)
      if reply = .failed then return .fail else mkdirLoop mountLen (front ++ [c]) rest
    else mkdirLoop mountLen (front ++ [c]) rest

def zipMkdirP (s : Mounts) (path : CString) : Files EspErr :=
  if path.bytes = [] then return .invalidArg
  else if path.strlen ≥ zipNameMax then return .invalidSize
  else
    match s.pathMountPoint path mountPointMax with
    | .error _ => return .invalidSize
    | .ok mount =>
      let work := path.bytes.take (withoutSlashes mount.strlen path.bytes path.strlen)
      mkdirLoop mount.strlen (work.take mount.strlen) (work.drop mount.strlen)

def zipMkdirParent (s : Mounts) (path : CString) : Files EspErr :=
  if path.strlen ≥ zipNameMax then return .invalidSize
  else
    match lastSep slash path.bytes with
    | none => return .ok
    | some slashAt =>
      match s.pathMountPoint path mountPointMax with
      | .error _ => return .invalidArg
      | .ok mount =>
        if slashAt ≤ mount.strlen then return .ok else zipMkdirP s (path.strlcpy (slashAt + 1))

structure ReaderEntry where
  name : CString
  crc32 : Nat
  compressedSize : Nat
  uncompressedSize : Nat
  localOffset : Nat
  flags : Nat
  method : Nat
  directory : Bool
  deriving DecidableEq

def zipExtractEntry (s : Mounts) (entry : ReaderEntry) (destDir : CString) : Files EspErr :=
  match zipJoinPath zipNameMax destDir entry.name with
  | none => return .invalidSize
  | some outPath =>
    if entry.directory then zipMkdirP s outPath
    else do
      let ret ← zipMkdirParent s outPath
      if ret ≠ .ok then return ret
      else
        let ret ← invoke .skipLocalHeader
        if ret ≠ .ok then return ret
        else
          let output ← invoke (.create outPath)
          if output = false then return .fail
          else
            let (ret, crc32, bytesWritten) ← invoke .copyOut
            let closed ← invoke .closeOutput
            let ret := if closed = false ∧ ret = .ok then .fail else ret
            if ret ≠ .ok then
              invoke (.remove outPath)
              return ret
            else if crc32 ≠ entry.crc32 ∨ bytesWritten ≠ entry.uncompressedSize then
              invoke (.remove outPath)
              return .invalidCrc
            else return .ok

/-- `zip_read_le16` and `zip_read_le32`. -/
def zipReadLe16 (data : List UInt8) (i : Nat) : Nat := (data.getD i 0).toNat + 256 * (data.getD (i + 1) 0).toNat

def zipReadLe32 (data : List UInt8) (i : Nat) : Nat := zipReadLe16 data i + 65536 * zipReadLe16 data (i + 2)

/-- `ZIP_CENTRAL_HEADER_LEN` and `ZIP_CENTRAL_DIRECTORY_SIGNATURE`. -/
def zipCentralHeaderLen : Nat := 46

def zipCentralDirectorySignature : Nat := 0x02014b50

/-- `zip_reader_read_central_entry`: the entry, and what follows it in the file. Whether the
file can be moved behind the extra fields is said by `seeks`. -/
def zipReaderReadCentralEntry (file : List UInt8) (seeks : Bool) : Except EspErr (ReaderEntry × List UInt8) :=
  let header := file.take zipCentralHeaderLen
  let nameLen := zipReadLe16 header 28
  let extraLen := zipReadLe16 header 30
  let commentLen := zipReadLe16 header 32
  let name := (file.drop zipCentralHeaderLen).take nameLen
  let entry : ReaderEntry := {
    name := .ofBytes name
    crc32 := zipReadLe32 header 16
    compressedSize := zipReadLe32 header 20
    uncompressedSize := zipReadLe32 header 24
    localOffset := zipReadLe32 header 42
    flags := zipReadLe16 header 8
    method := zipReadLe16 header 10
    directory := name.getLast? = some slash }
  if header.length ≠ zipCentralHeaderLen then .error .fail
  else if zipReadLe32 header 0 ≠ zipCentralDirectorySignature then .error .invalidResponse
  else if nameLen = 0 ∨ nameLen ≥ zipNameMax then .error .invalidSize
  else if name.length ≠ nameLen then .error .fail
  else if seeks = false then .error .fail
  else if zipNameIsSafe entry.name = false then .error .invalidArg
  else if entry.flags % 2 ≠ 0 ∨ entry.method ≠ 0 ∧ entry.method ≠ 8 then .error .notSupported
  else .ok (entry, file.drop (zipCentralHeaderLen + nameLen + extraLen + commentLen))

mutual

/-- What there is at a path: `stat` fails, or there is a file (whether it opens, and what
becomes of its entry), or a directory (what becomes of its entry, and what is read from it
if it opens). -/
inductive Source where
  | missing
  | file (opens : Bool) (result : EspErr)
  | directory (result : EspErr) (opens : Bool) (entries : Entries)

inductive Entries where
  | none
  | some (name : CString) (source : Source) (rest : Entries)

end

def directoryName (name : CString) : CString :=
  if name.bytes.getLast? = some slash then name else printed name .empty

mutual

/-- `zip_add_path`, with the names that are in the archive before and after. -/
def zipAddPath (archivePath : CString) : Source → CString → CString → List CString → EspErr × List CString
  | source, sourcePath, archiveName, names =>
    if zipNameIsSafe archiveName = false then (.invalidArg, names)
    else
      match source with
      | .missing => (.fail, names)
      | .file opens result =>
        -- `zip_add_file_entry`
        if sourcePath = archivePath then (.ok, names)
        else if opens = false ∨ archiveName.strlen ≥ zipNameMax then (.fail, names)
        else (result, names ++ [archiveName])
      | .directory result opens entries =>
        -- `zip_add_directory_entry`
        if archiveName.strlen + 1 ≥ zipNameMax then (.invalidSize, names)
        else
          let names := names ++ [directoryName archiveName]
          if result ≠ .ok then (result, names)
          else if opens = false then (.fail, names)
          else zipAddEntries archivePath entries sourcePath archiveName names

/-- The loop of `zip_add_path`. -/
def zipAddEntries (archivePath : CString) : Entries → CString → CString → List CString → EspErr × List CString
  | .none, _, _, names => (.ok, names)
  | .some name source rest, sourcePath, archiveName, names =>
    if name.bytes = [dot] ∨ name.bytes = [dot, dot] then zipAddEntries archivePath rest sourcePath archiveName names
    else
      match zipJoinPath zipNameMax sourcePath name, zipJoinArchiveName zipNameMax archiveName name with
      | some childPath, some childName =>
        let child := zipAddPath archivePath source childPath childName names
        if child.1 ≠ .ok then child else zipAddEntries archivePath rest sourcePath archiveName child.2
      | _, _ => (.invalidSize, names)

end

variable {s : Mounts} {dest name out : CString} {path work rest : List UInt8}

/-- A path below the directory, whatever directory both are taken from: what the dots in it
lead to is that of the directory with further segments. -/
def Inside (dest path : List UInt8) : Prop :=
  ∀ place, ∃ below, below ≠ [] ∧
    resolve dot place (parts slash path) = resolve dot place (parts slash dest) ++ below

def Above (path work : List UInt8) : Prop :=
  ∃ rest, path = work ++ rest ∧ (rest = [] ∨ ∃ after, rest = slash :: after)

/-- Files are opened and removed below the directory only; directories are made there or on the
way to it, where they exist. -/
def Within (dest : CString) : {β : Type} → FileOp β → Prop
  | _, .mkdir path => Inside dest.bytes path ∨ Above dest.bytes path
  | _, .create path => Inside dest.bytes path.bytes
  | _, .remove path => Inside dest.bytes path.bytes
  | _, _ => True

def StaysInside (s : Mounts) (name : CString) : Prop :=
  ∀ (dest : CString) (entry : ReaderEntry), entry.name = name →
    (∀ out, zipJoinPath zipNameMax dest name = some out → Inside dest.bytes out.bytes) ∧
      Only (Within dest) (zipExtractEntry s entry dest)

/-- A name begins with a segment, and all of its segments name something. -/
structure Named (name : List UInt8) : Prop where
  begins : name ≠ [] ∧ name.head? ≠ some slash
  plain : ∀ segment ∈ parts slash name, Plain slash dot segment

theorem segmentsAreSafe_plain (segment : List UInt8) (h : segmentsAreSafe segment) :
    ∀ s ∈ parts slash segment, Plain slash dot s := by
  induction segment using segmentsAreSafe.induct with
  | case1 => exact nofun
  | case2 segment more first empty =>
    rw [segmentsAreSafe, dif_neg more] at h
    simp only [show segment.takeWhile (· ≠ slash) = [] from empty, if_true, decide_eq_true_eq] at h
    rw [parts_takeWhile, show segment.takeWhile (· ≠ slash) = [] from empty]
    rcases dropWhile_cases slash segment with none | ⟨rest, next⟩
    · exact absurd none h.1
    · have last : rest = [] := by
        have tail := h.2
        rwa [next] at tail
      rw [next, last]
      exact nofun
  | case3 segment more first named bad =>
    rw [segmentsAreSafe, dif_neg more] at h
    simp only [if_neg (show ¬ segment.takeWhile (· ≠ slash) = [] from named)] at h
    rw [if_pos bad] at h
    cases h
  | case4 segment more first after named good last =>
    rw [parts_takeWhile, show segment.dropWhile (· ≠ slash) = [] from last,
      parts_of_not_mem named (not_mem_takeWhile segment)]
    intro s there
    rw [mem_singleton.mp there]
    exact ⟨named, not_mem_takeWhile segment, fun one => good (.inl one), fun two => good (.inr (.inl two))⟩
  | case5 segment more first after named good next ih =>
    rw [segmentsAreSafe, dif_neg more] at h
    simp only [if_neg (show ¬ segment.takeWhile (· ≠ slash) = [] from named)] at h
    rw [if_neg good, if_neg next] at h
    obtain ⟨rest, after'⟩ := (dropWhile_cases slash segment).resolve_left next
    have tail : after.tail = rest := congrArg List.tail after'
    rw [parts_takeWhile, after', parts_sep, ← tail, parts_of_not_mem named (not_mem_takeWhile segment)]
    intro s there
    rcases mem_cons.mp there with rfl | later
    · exact ⟨named, not_mem_takeWhile segment, fun one => good (.inl one), fun two => good (.inr (.inl two))⟩
    · exact ih h s later

theorem zipNameIsSafe_named (h : zipNameIsSafe name) : Named name.bytes := by
  unfold zipNameIsSafe at h
  split_ifs at h with bad
  rw [not_or, not_or] at bad
  exact ⟨⟨bad.1, bad.2.1⟩, segmentsAreSafe_plain _ h⟩

theorem Named.parts_ne {name : List UInt8} (h : Named name) : parts slash name ≠ [] := by
  obtain ⟨c, rest, rfl⟩ := exists_cons_of_ne_nil h.begins.1
  have other : c ≠ slash := fun same => h.begins.2 (congrArg some same)
  have first : (c :: rest).takeWhile (· ≠ slash) ≠ [] := by
    rw [takeWhile_cons_of_pos (by simpa using other)]
    exact cons_ne_nil _ _
  rw [parts_takeWhile, parts_of_not_mem first (not_mem_takeWhile _)]
  exact cons_ne_nil _ _

theorem Named.above (h : Named (work ++ rest)) (some : work ≠ [])
    (ends : rest = [] ∨ ∃ after, rest = slash :: after) : Named work := by
  constructor
  · obtain ⟨c, work, rfl⟩ := exists_cons_of_ne_nil some
    exact ⟨cons_ne_nil _ _, h.begins.2⟩
  · intro segment there
    refine h.plain segment ?_
    rcases ends with rfl | ⟨after, rfl⟩
    · rwa [append_nil]
    · rw [parts_append_sep]
      exact mem_append_left _ there

def stemOf (dest : CString) : List UInt8 :=
  if dest.bytes.getLast? = some slash then dest.bytes.dropLast else dest.bytes

theorem dest_eq (dest : CString) : dest.bytes = stemOf dest ∨ dest.bytes = stemOf dest ++ [slash] := by
  unfold stemOf
  split_ifs with ends
  · obtain ⟨front, whole⟩ := getLast?_eq_some_iff.mp ends
    rw [whole, dropLast_concat]
    exact .inr rfl
  · exact .inl rfl

theorem printed_eq (dest name : CString) : (printed dest name).bytes = stemOf dest ++ slash :: name.bytes := by
  unfold printed stemOf
  split_ifs with ends
  · obtain ⟨front, whole⟩ := getLast?_eq_some_iff.mp ends
    simp only [whole, dropLast_concat, append_assoc, singleton_append]
  · rfl

theorem parts_stemOf (dest : CString) : parts slash (stemOf dest) = parts slash dest.bytes := by
  rcases dest_eq dest with same | more
  · rw [← same]
  · rw [more, parts_append_sep, parts_nil, append_nil]

theorem Named.inside {name : List UInt8} (h : Named name) (dest : CString) :
    Inside dest.bytes (stemOf dest ++ slash :: name) := by
  intro place
  refine ⟨parts slash name, h.parts_ne, ?_⟩
  rw [parts_append_sep, resolve_append, resolve_plain h.plain, parts_stemOf]

theorem above_printed (named : Named name.bytes) (h : Above (printed dest name).bytes work) :
    Inside dest.bytes work ∨ Above dest.bytes work := by
  obtain ⟨rest, whole, ends⟩ := h
  rw [printed_eq] at whole
  rcases append_eq_append_iff.mp whole with ⟨more, long, left⟩ | ⟨more, long, left⟩
  · cases more with
    | nil =>
      rw [append_nil] at long
      rw [long]
      exact .inr ((dest_eq dest).elim (fun same => ⟨[], by rw [append_nil]; exact same, .inl rfl⟩)
        fun same => ⟨[slash], same, .inr ⟨[], rfl⟩⟩)
    | cons c more =>
      obtain ⟨rfl, same⟩ := List.cons.inj left
      change name.bytes = more ++ rest at same
      by_cases none : more = []
      · rw [none, nil_append] at same
        rcases ends with rfl | ⟨after, rfl⟩
        · exact absurd same named.begins.1
        · exact absurd (congrArg List.head? same) named.begins.2
      · rw [same] at named
        rw [long]
        exact .inl ((named.above none ends).inside dest)
  · right
    have inside : ∃ more', dest.bytes = stemOf dest ++ more' ∧ (more' = [] ∨ more' = [slash]) :=
      (dest_eq dest).elim (fun same => ⟨[], by rw [append_nil]; exact same, .inl rfl⟩)
        fun same => ⟨[slash], same, .inr rfl⟩
    obtain ⟨more', dest', short⟩ := inside
    refine ⟨more ++ more', by rw [dest', long, append_assoc], ?_⟩
    cases more with
    | nil => exact short.imp_right fun one => ⟨[], one⟩
    | cons c more =>
      rw [left] at ends
      rcases ends with none | ⟨after, next⟩
      · cases none
      · obtain ⟨rfl, -⟩ := List.cons.inj next
        exact .inr ⟨more ++ more', rfl⟩

theorem Above.trans {path middle work : List UInt8} (h : Above path middle) (h' : Above middle work) :
    Above path work := by
  obtain ⟨rest, whole, ends⟩ := h
  obtain ⟨rest', whole', ends'⟩ := h'
  refine ⟨rest' ++ rest, by rw [whole, whole', append_assoc], ?_⟩
  rcases ends' with rfl | ⟨after, rfl⟩
  · exact ends
  · exact .inr ⟨after ++ rest, rfl⟩

theorem above_take {path : List UInt8} {len : Nat} (next : path[len]? = some slash) : Above path (path.take len) := by
  obtain ⟨there, same⟩ := List.getElem?_eq_some_iff.mp next
  exact ⟨path.drop len, (take_append_drop _ _).symm, .inr ⟨_, by rw [drop_eq_getElem_cons there, same]⟩⟩

theorem above_withoutSlashes (mountLen : Nat) {path : List UInt8} {len : Nat} (h : Above path (path.take len)) :
    Above path (path.take (withoutSlashes mountLen path len)) := by
  induction len with
  | zero => exact h
  | succ len ih =>
    unfold withoutSlashes
    split_ifs with trailing
    · exact ih (above_take trailing.2)
    · exact h

theorem mkdirLoop_only (mountLen : Nat) (front rest : List UInt8)
    (way : ∀ work, Above (front ++ rest) work → Inside dest.bytes work ∨ Above dest.bytes work) :
    Only (Within dest) (mkdirLoop mountLen front rest) := by
  induction rest generalizing front with
  | nil =>
    unfold mkdirLoop
    split_ifs
    · exact ⟨way front ⟨[], rfl, .inl rfl⟩, fun _ => trivial⟩
    · trivial
  | cons c rest ih =>
    have later := ih (front ++ [c]) (by rwa [append_assoc, singleton_append])
    unfold mkdirLoop
    split_ifs with part
    · refine ⟨way front ⟨c :: rest, rfl, .inr ⟨rest, by rw [part.1]⟩⟩, fun reply => ?_⟩
      cases reply with
      | made => exact later
      | present => exact later
      | failed => trivial
    · exact later

theorem zipMkdirP_only {path : CString}
    (way : ∀ work, Above path.bytes work → Inside dest.bytes work ∨ Above dest.bytes work) :
    Only (Within dest) (zipMkdirP s path) := by
  unfold zipMkdirP
  split_ifs
  · trivial
  · trivial
  · cases s.pathMountPoint path mountPointMax with
    | error fault => trivial
    | ok mount =>
      refine mkdirLoop_only mount.strlen _ _ fun work above => way work (Above.trans ?_ above)
      rw [take_append_drop]
      exact above_withoutSlashes _ ⟨[], by rw [CString.strlen, take_length, append_nil], .inl rfl⟩

theorem zipMkdirParent_only {path : CString}
    (way : ∀ work, Above path.bytes work → Inside dest.bytes work ∨ Above dest.bytes work) :
    Only (Within dest) (zipMkdirParent s path) := by
  unfold zipMkdirParent
  split_ifs
  · trivial
  · cases found : lastSep slash path.bytes with
    | none => trivial
    | some slashAt =>
      cases s.pathMountPoint path mountPointMax with
      | error fault => trivial
      | ok mount =>
        simp only
        split_ifs
        · trivial
        · obtain ⟨after, next⟩ := eq_of_lastSep found
          have parent : Above path.bytes (path.strlcpy (slashAt + 1)).bytes :=
            ⟨_, (take_append_drop slashAt path.bytes).symm, .inr ⟨after, next⟩⟩
          exact zipMkdirP_only fun work above => way work (parent.trans above)

theorem Named.staysInside (named : Named name.bytes) : StaysInside s name := by
  rintro dest entry rfl
  have below (out : CString) (joined : zipJoinPath zipNameMax dest entry.name = some out) :
      out = printed dest entry.name := by
    unfold zipJoinPath at joined
    split_ifs at joined
    exact (Option.some.inj joined).symm
  have inside : Inside dest.bytes (printed dest entry.name).bytes := by
    rw [printed_eq]
    exact named.inside dest
  refine ⟨fun out joined => by rw [below out joined]; exact inside, ?_⟩
  unfold zipExtractEntry
  cases joined : zipJoinPath zipNameMax dest entry.name with
  | none => trivial
  | some outPath =>
    rw [below outPath joined]
    have way (work : List UInt8) (h : Above (printed dest entry.name).bytes work) :
        Inside dest.bytes work ∨ Above dest.bytes work := above_printed named h
    simp only
    split_ifs
    · exact zipMkdirP_only way
    · refine (zipMkdirParent_only way).bind fun ret => ?_
      split_ifs
      · trivial
      · refine .invoke_bind trivial fun ret => ?_
        split_ifs
        · trivial
        · refine .invoke_bind inside fun output => ?_
          split_ifs
          · trivial
          · refine .invoke_bind trivial fun copied => .invoke_bind trivial fun closed => ?_
            generalize (if closed = false ∧ copied.1 = .ok then EspErr.fail else copied.1) = ret
            split_ifs
            · exact .invoke_bind inside fun _ => trivial
            · exact .invoke_bind inside fun _ => trivial
            · trivial

theorem Named.directoryName (h : Named name.bytes) : Named (directoryName name).bytes := by
  unfold Zip.directoryName
  split_ifs with ends
  · exact h
  · have bytes : (printed name .empty).bytes = name.bytes ++ [slash] := if_neg ends
    rw [bytes]
    obtain ⟨c, rest, same⟩ := exists_cons_of_ne_nil h.begins.1
    constructor
    · rw [same]
      exact ⟨cons_ne_nil _ _, by simpa [same] using h.begins.2⟩
    · rw [parts_append_sep, parts_nil, append_nil]
      exact h.plain

theorem forall_mem_concat {names : List CString} {P : CString → Prop} (all : ∀ n ∈ names, P n) (h : P name) :
    ∀ n ∈ names ++ [name], P n := by
  intro n there
  rcases mem_append.mp there with before | last
  · exact all n before
  · rw [mem_singleton.mp last]
    exact h

theorem zipAddPath_named (archivePath : CString) (source : Source) :
    ∀ sourcePath archiveName names, (∀ n ∈ names, Named n.bytes) →
      ∀ n ∈ (zipAddPath archivePath source sourcePath archiveName names).2, Named n.bytes := by
  refine @Source.rec
    (fun source => ∀ sourcePath archiveName names, (∀ n ∈ names, Named n.bytes) →
      ∀ n ∈ (zipAddPath archivePath source sourcePath archiveName names).2, Named n.bytes)
    (fun entries => ∀ sourcePath archiveName names, (∀ n ∈ names, Named n.bytes) →
      ∀ n ∈ (zipAddEntries archivePath entries sourcePath archiveName names).2, Named n.bytes)
    ?missing ?file ?directory ?none ?some source
  case missing =>
    intro sourcePath archiveName names all
    unfold zipAddPath
    split_ifs <;> exact all
  case file =>
    intro opens result sourcePath archiveName names all
    unfold zipAddPath
    by_cases bad : zipNameIsSafe archiveName = false
    · rw [if_pos bad]
      exact all
    · rw [if_neg bad]
      have named := zipNameIsSafe_named (by simpa using bad)
      simp only
      split_ifs
      · exact all
      · exact all
      · exact forall_mem_concat all named
  case directory =>
    intro result opens entries ih sourcePath archiveName names all
    unfold zipAddPath
    by_cases bad : zipNameIsSafe archiveName = false
    · rw [if_pos bad]
      exact all
    · rw [if_neg bad]
      have named := zipNameIsSafe_named (by simpa using bad)
      have more := forall_mem_concat all named.directoryName
      simp only
      split_ifs
      · exact all
      · exact more
      · exact more
      · exact ih sourcePath archiveName _ more
  case none =>
    intro sourcePath archiveName names all
    exact all
  case some =>
    intro name source rest source_ih rest_ih sourcePath archiveName names all
    unfold zipAddEntries
    split_ifs
    · exact rest_ih sourcePath archiveName names all
    · split
      · rename_i childPath childName _ _
        have child := source_ih childPath childName names all
        simp only
        split_ifs
        · exact child
        · exact rest_ih sourcePath archiveName _ child
      · exact all

/-- Whatever an archive holds, an entry that is accepted is extracted below the directory it is to
go to, and so is every entry of an archive that is created here. -/
theorem entries_stay_inside (s : Mounts) :
    (∀ file seeks entry rest, zipReaderReadCentralEntry file seeks = .ok (entry, rest) →
      StaysInside s entry.name) ∧ ∀ archivePath source sourcePath archiveName,
      ∀ name ∈ (zipAddPath archivePath source sourcePath archiveName []).2, StaysInside s name := by
  constructor
  · intro file seeks entry rest h
    unfold zipReaderReadCentralEntry at h
    simp only at h
    split_ifs at h with a b c d e bad
    cases h
    exact (zipNameIsSafe_named (by simpa using bad)).staysInside
  · intro archivePath source sourcePath archiveName name there
    exact (zipAddPath_named archivePath source sourcePath archiveName [] nofun name there).staysInside

/-- A central header with the name `a/b`. -/
def sampleHeader : List UInt8 :=
  [0x50, 0x4b, 0x01, 0x02, 20, 0, 20, 0, 0, 0, 0, 0, 0, 0, 0, 0, 1, 2, 3, 4, 5, 0, 0, 0, 5, 0, 0, 0, 3, 0, 0, 0, 0, 0,
    0, 0, 0, 0, 0, 0, 0, 0, 7, 0, 0, 0, 97, 47, 98]

/-- The entry of the header, and the one of a file `b` in a directory `a`. -/
theorem entries_stay_inside_sample :
    StaysInside ramOnCard (CString.ofBytes [97, 47, 98]) ∧ StaysInside ramOnCard ⟨[97, 47, 98], by decide⟩ :=
  ⟨(entries_stay_inside ramOnCard).1 sampleHeader true ⟨_, 0x04030201, 5, 5, 7, 0, 0, false⟩ [] (by decide +kernel),
    (entries_stay_inside ramOnCard).2 ⟨[47, 122], by decide⟩
      (.directory .ok true (.some ⟨[98], by decide⟩ (.file true .ok) .none)) ⟨[47, 97], by decide⟩
      ⟨[97], by decide⟩ _ (by decide +kernel)⟩

end SolarOs.Zip
