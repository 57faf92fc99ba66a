import SolarOs.Esp
import SolarOs.Library.ByteOrder
import SolarOs.Library.CString
import SolarOs.Library.Program
import Mathlib.Logic.Function.Basic

/-! Saving the NVS partition to a file and writing it back, whatever the files and the flash
do on the way. -/
namespace SolarOs.Nvs
open Program ByteOrder Function List Option

def formatVersion : UInt32 := 1
def ioBufferSize : Nat := 1024
def headerSize : Nat := 44
def pathMax : Nat := 160
def nvsBackupMagic : List UInt8 := [0x53, 0x4f, 0x4c, 0x4e, 0x56, 0x53, 0x31, 0]

/-- The label that the partition is found by: `nvs`. -/
def partitionLabel : List UInt8 := [0x6e, 0x76, 0x73]

structure Header where
  magic : List UInt8
  formatVersion : UInt32
  headerSize : UInt32
  partitionAddress : UInt32
  partitionSize : UInt32
  payloadCrc32 : UInt32
  partitionLabel : List UInt8

def Header.bytes (h : Header) : List UInt8 :=
  h.magic ++ littleEndian32 h.formatVersion ++ littleEndian32 h.headerSize ++ littleEndian32 h.partitionAddress ++
    littleEndian32 h.partitionSize ++ littleEndian32 h.payloadCrc32 ++ h.partitionLabel

def readU32 (bytes : List UInt8) (offset : Nat) : UInt32 :=
  fromLittleEndian32 (bytes.getD offset 0) (bytes.getD (offset + 1) 0) (bytes.getD (offset + 2) 0)
    (bytes.getD (offset + 3) 0)

def Header.ofBytes (bytes : List UInt8) : Header where
  magic := bytes.take 8
  formatVersion := readU32 bytes 8
  headerSize := readU32 bytes 12
  partitionAddress := readU32 bytes 16
  partitionSize := readU32 bytes 20
  payloadCrc32 := readU32 bytes 24
  partitionLabel := (bytes.drop 28).take 16

def crc32Bit (crc : UInt32) : UInt32 := if crc &&& 1 ≠ 0 then (crc >>> 1) ^^^ 0xedb88320 else crc >>> 1

def crc32Update (crc : UInt32) (data : List UInt8) : UInt32 :=
  data.foldl (fun crc byte => crc32Bit^[8] (crc ^^^ byte.toUInt32)) crc

structure Result where
  partitionSize : Nat
  fileSize : Nat
  crc32 : UInt32
  rebootRequired : Bool

def Result.zero : Result := ⟨0, 0, 0, false⟩

structure Partition where
  address : UInt32
  data : List UInt8

structure Stream where
  path : List UInt8
  offset : Nat

structure World where
  partition : Option Partition
  initialised : Bool
  busy : Bool
  files : List UInt8 → Option (List UInt8)
  stream : Option Stream

/-- Whether an operation succeeds, and what it returns and leaves if it does not. -/
structure Env where
  done : Bool
  error : EspErr
  torn : List UInt8

inductive Op : Type → Type
  | begin : Op Bool
  | release : Op Unit
  | find : Op (Option (UInt32 × Nat))
  | openRead (path : List UInt8) : Op Bool
  | openWrite (path : List UInt8) : Op Bool
  | seekEnd : Op Bool
  | seek (offset : Nat) : Op Bool
  | tell : Op (Option Nat)
  | read (count : Nat) : Op (Option (List UInt8))
  | write (bytes : List UInt8) : Op Bool
  | flush : Op Bool
  | sync : Op Bool
  | close : Op Bool
  | stat (path : List UInt8) : Op Bool
  | remove (path : List UInt8) : Op Bool
  | rename (source target : List UInt8) : Op Bool
  | nvsDeinit : Op EspErr
  | nvsInit : Op EspErr
  | eraseRange : Op EspErr
  | partitionWrite (offset : Nat) (bytes : List UInt8) : Op EspErr
  | partitionRead (offset count : Nat) : Op (Except EspErr (List UInt8))

abbrev Prog (α : Type) := Program Op α

def Env.failure (e : Env) : EspErr := if e.error = .ok then .fail else e.error

def World.ahead (w : World) : List UInt8 :=
  match w.stream with
  | some stream => ((w.files stream.path).getD []).drop stream.offset
  | none => []

def overwrite (old : List UInt8) (offset : Nat) (bytes : List UInt8) : List UInt8 :=
  old.take offset ++ bytes ++ old.drop (offset + bytes.length)

def program (old : List UInt8) (offset : Nat) (bytes : List UInt8) : List UInt8 :=
  overwrite old offset (List.zipWith (· &&& ·) (old.drop offset) bytes)

def Partition.torn (p : Partition) (torn : List UInt8) : Partition :=
  { p with data := (torn ++ p.data).take p.data.length }

/-- What an operation does and returns. `nvs_flash_deinit` fails when the storage is not
initialised, and `nvs_flash_init` answers ESP_ERR_INVALID_STATE only when it is. -/
def act {α : Type} : Op α → World → Env → World × α
  | .begin, w, _ => ({ w with busy := true }, !w.busy)
  | .release, w, _ => ({ w with busy := false }, ())
  | .find, w, _ => (w, w.partition.map fun p => (p.address, p.data.length))
  | .openRead path, w, e =>
    if e.done ∧ (w.files path).isSome then ({ w with stream := some ⟨path, 0⟩ }, true) else (w, false)
  | .openWrite path, w, e =>
    if e.done then ({ w with files := update w.files path (some []), stream := some ⟨path, 0⟩ }, true)
    else (w, false)
  | .seekEnd, w, e =>
    if e.done then
      ({ w with stream := w.stream.map fun s => { s with offset := ((w.files s.path).getD []).length } }, true)
    else (w, false)
  | .seek offset, w, e => if e.done then ({ w with stream := w.stream.map fun s => { s with offset } }, true) else (w, false)
  | .tell, w, e => (w, if e.done then w.stream.map Stream.offset else none)
  | .read count, w, e =>
    if e.done ∧ count ≤ w.ahead.length then
      ({ w with stream := w.stream.map fun s => { s with offset := s.offset + count } }, some (w.ahead.take count))
    else (w, none)
  | .write bytes, w, e =>
    match w.stream with
    | none => (w, false)
    | some s =>
      if e.done then
        ({ w with
            files := update w.files s.path (some (overwrite ((w.files s.path).getD []) s.offset bytes))
            stream := some { s with offset := s.offset + bytes.length } }, true)
      else ({ w with files := update w.files s.path (some e.torn) }, false)
  | .flush, w, e => (w, e.done)
  | .sync, w, e => (w, e.done)
  | .close, w, e => ({ w with stream := none }, e.done)
  | .stat path, w, e => (w, e.done && (w.files path).isSome)
  | .remove path, w, e => if e.done then ({ w with files := update w.files path none }, true) else (w, false)
  | .rename source target, w, e =>
    if e.done ∧ (w.files source).isSome then
      ({ w with files := update (update w.files target (w.files source)) source none }, true)
    else (w, false)
  | .nvsDeinit, w, e => if e.done ∧ w.initialised then ({ w with initialised := false }, .ok) else (w, e.failure)
  | .nvsInit, w, e =>
    if e.done then ({ w with initialised := true }, .ok)
    else if w.initialised then (w, .invalidState)
    else (w, if e.failure = .invalidState then .fail else e.failure)
  | .eraseRange, w, e =>
    if e.done then
      ({ w with partition := w.partition.map fun p => { p with data := List.replicate p.data.length 0xff } }, .ok)
    else ({ w with partition := w.partition.map (·.torn e.torn) }, e.failure)
  | .partitionWrite offset bytes, w, e =>
    if e.done then
      ({ w with partition := w.partition.map fun p => { p with data := program p.data offset bytes } }, .ok)
    else ({ w with partition := w.partition.map (·.torn e.torn) }, e.failure)
  | .partitionRead offset count, w, e =>
    (w, if e.done then .ok (((w.partition.map Partition.data).getD [] |>.drop offset).take count) else .error e.failure)

def reinitialize : Prog EspErr := do
  let error ← invoke .nvsInit
  return if error = .invalidState then .ok else error

/-- `nvs_backup_path_with_suffix` into a buffer for a path and eight bytes more. -/
def pathWithSuffix (path suffix : List UInt8) : Option (List UInt8) :=
  if (path ++ suffix).length < pathMax + 8 then some (path ++ suffix) else none

def bakSuffix : List UInt8 := [0x2e, 0x62, 0x61, 0x6b]
def tmpSuffix : List UInt8 := [0x2e, 0x74, 0x6d, 0x70]

def replaceFile (path temporary : List UInt8) : Prog EspErr :=
  match pathWithSuffix path bakSuffix with
  | none => return .invalidSize
  | some backup => do
    let existed ← invoke (.stat path)
    let _ ← invoke (.remove backup)
    let aside ← if existed then invoke (.rename path backup) else pure true
    if aside = false then return .fail
    else
      if (← invoke (.rename temporary path)) = false then
        if existed then
          let _ ← invoke (.rename backup path)
        return .fail
      else
        let _ ← invoke (.remove backup)
        return .ok

/-- The loop of `nvs_backup_write_snapshot` over the partition. -/
def copyPartition (size offset : Nat) (crc : UInt32) : Prog (Except EspErr UInt32) :=
  if offset < size then
    let count := min (size - offset) ioBufferSize
    invoke (.partitionRead offset count) >>= fun
      | .error error => pure (.error error)
      | .ok buffer => invoke (.write buffer) >>= fun written =>
        if written = false then pure (.error .fail)
        else copyPartition size (offset + count) (crc32Update crc buffer)
  else pure (.ok crc)
termination_by size - offset
decreasing_by unfold ioBufferSize; omega

section
variable (address : UInt32)

variable (size : Nat)

def headerOf (crc : UInt32) : Header where
  magic := nvsBackupMagic
  formatVersion := formatVersion
  headerSize := 44
  partitionAddress := address
  partitionSize := UInt32.ofNat size
  payloadCrc32 := crc
  partitionLabel := partitionLabel ++ List.replicate 13 0

/-- What `nvs_backup_write_snapshot` writes into the open file; the checksum of it. -/
def writeImage : Prog (Except EspErr UInt32) := do
  if (← invoke (.write (headerOf address size 0).bytes)) = false then return .error .fail
  else
    match ← copyPartition size 0 0xffffffff with
    | .error error => return .error error
    | .ok crc =>
      if (← invoke (.seek 0)) = false then return .error .fail
      else if (← invoke (.write (headerOf address size (~~~crc)).bytes)) = false then return .error .fail
      else if (← invoke .flush) = false then return .error .fail
      else if (← invoke .sync) = false then return .error .fail
      else return .ok (~~~crc)

def writeTemporary (temporary : List UInt8) (address : UInt32) (size : Nat) : Prog (Except EspErr UInt32) := do
  if (← invoke (.openWrite temporary)) = false then return .error .fail
  else
    let written ← writeImage address size
    let closed ← invoke .close
    return if closed = false ∧ written.isOk then .error .fail else written

def writeSnapshot (path : List UInt8) (address : UInt32) (size : Nat) : Prog (EspErr × Result) :=
  match pathWithSuffix path tmpSuffix with
  | none => return (.invalidSize, .zero)
  | some temporary => do
    let _ ← invoke (.remove temporary)
    let error ← invoke .nvsDeinit
    if error ≠ .ok then return (error, .zero)
    else
      let written ← writeTemporary temporary address size
      let initError ← reinitialize
      if initError ≠ .ok then
        let _ ← invoke (.remove temporary)
        return (initError, { Result.zero with rebootRequired := true })
      else
        match written with
        | .error error =>
          let _ ← invoke (.remove temporary)
          return (error, .zero)
        | .ok crc =>
          let error ← replaceFile path temporary
          if error = .ok then return (.ok, ⟨size, headerSize + size, crc, false⟩)
          else
            let _ ← invoke (.remove temporary)
            return (error, .zero)

def validateHeader (h : Header) (address : UInt32) (size fileSize : Nat) : EspErr :=
  if h.magic ≠ nvsBackupMagic ∨ h.formatVersion ≠ formatVersion ∨ h.headerSize ≠ 44 ∨ 0 ∉ h.partitionLabel ∨
      h.partitionLabel.takeWhile (· ≠ 0) ≠ partitionLabel then .invalidResponse
  else if h.partitionAddress ≠ address ∨ h.partitionSize.toNat ≠ size ∨ fileSize ≠ headerSize + size then .invalidSize
  else .ok

def fileSize : Prog (Option Nat) := do
  if (← invoke .seekEnd) = false then return none
  else
    match ← invoke .tell with
    | none => return none
    | some length => if (← invoke (.seek 0)) = false then return none else return some length

def validatePayload (expected : UInt32) (remaining : Nat) (crc : UInt32) : Prog EspErr :=
  if 0 < remaining then
    let count := min remaining ioBufferSize
    invoke (.read count) >>= fun
      | none => pure .fail
      | some buffer => validatePayload expected (remaining - count) (crc32Update crc buffer)
  else pure (if ~~~crc = expected then .ok else .invalidCrc)
termination_by remaining
decreasing_by unfold ioBufferSize; omega

/-- The loop of `solar_os_nvs_backup_restore` that writes the partition. -/
def writePartition (size offset : Nat) (crc : UInt32) : Prog (Except EspErr UInt32) :=
  if offset < size then
    let count := min (size - offset) ioBufferSize
    invoke (.read count) >>= fun
      | none => pure (.error .fail)
      | some buffer => invoke (.partitionWrite offset buffer) >>= fun error =>
        if error ≠ .ok then pure (.error error) else writePartition size (offset + count) (crc32Update crc buffer)
  else pure (.ok crc)
termination_by size - offset
decreasing_by unfold ioBufferSize; omega

/-- The loop of `solar_os_nvs_backup_restore` that reads the partition back. -/
def verifyPartition (size offset : Nat) (crc : UInt32) : Prog (Except EspErr UInt32) :=
  if offset < size then
    let count := min (size - offset) ioBufferSize
    invoke (.partitionRead offset count) >>= fun
      | .error error => pure (.error error)
      | .ok buffer => verifyPartition size (offset + count) (crc32Update crc buffer)
  else pure (.ok crc)
termination_by size - offset
decreasing_by unfold ioBufferSize; omega

/-- The part of `solar_os_nvs_backup_restore` that checks the open file. -/
def validateFile : Prog (Except EspErr (Header × Nat)) := do
  match ← fileSize with
  | none => return .error .fail
  | some fileSize =>
    match ← invoke (.read headerSize) with
    | none => return .error .fail
    | some bytes =>
      let header := Header.ofBytes bytes
      let error := validateHeader header address size fileSize
      if error ≠ .ok then return .error error
      else
        let error ← validatePayload header.payloadCrc32 header.partitionSize.toNat 0xffffffff
        if error ≠ .ok then return .error error
        else if (← invoke (.seek headerSize)) = false then return .error .fail
        else return .ok (header, fileSize)

/-- The part of `solar_os_nvs_backup_restore` that erases, writes and verifies the partition. -/
def rewritePartition (expected : UInt32) : Prog EspErr := do
  let error ← invoke .eraseRange
  if error ≠ .ok then return error
  else
    match ← writePartition size 0 0xffffffff with
    | .error error => return error
    | .ok crc =>
      if ~~~crc ≠ expected then return .invalidCrc
      else
        match ← verifyPartition size 0 0xffffffff with
        | .error error => return error
        | .ok crc => return if ~~~crc ≠ expected then .invalidCrc else .ok

/-- What `solar_os_nvs_backup_restore` does with the open file. -/
def restoreOpen : Prog (EspErr × Result) := do
  match ← validateFile address size with
  | .error error => return (error, .zero)
  | .ok (header, fileSize) =>
    let error ← invoke .nvsDeinit
    if error ≠ .ok then return (error, .zero)
    else
      let error ← rewritePartition size header.payloadCrc32
      if error ≠ .ok then return (error, { Result.zero with rebootRequired := true })
      else return (.ok, ⟨size, fileSize, header.payloadCrc32, true⟩)

end

/-- What both calls do first and last; what they return when the result is not touched is `none`. -/
def guarded (path : Option CString) (given : Bool) (body : List UInt8 → UInt32 → Nat → Prog (EspErr × Result)) :
    Prog (EspErr × Option Result) :=
  match path with
  | none => return (.invalidArg, none)
  | some path => do
    if path.bytes = [] ∨ given = false then return (.invalidArg, none)
    else if (← invoke .begin) = false then return (.invalidState, some .zero)
    else
      let (error, result) ← (invoke .find >>= fun
        | none => pure (.notFound, .zero)
        | some (address, size) => body path.bytes address size)
      invoke .release
      return (error, some result)

/-- `solar_os_nvs_backup_create`; `given` says that there is a place for the result. -/
def create (path : Option CString) (given : Bool) : Prog (EspErr × Option Result) := guarded path given writeSnapshot

def restore (path : Option CString) (given : Bool) : Prog (EspErr × Option Result) :=
  guarded path given fun path address size => do
    if (← invoke (.openRead path)) = false then return (.notFound, .zero)
    else
      let done ← restoreOpen address size
      let _ ← invoke .close
      return done

def image (p : Partition) : List UInt8 :=
  (headerOf p.address p.data.length (~~~crc32Update 0xffffffff p.data)).bytes ++ p.data

def Valid (content : List UInt8) (p : Partition) : Prop :=
  validateHeader (.ofBytes (content.take headerSize)) p.address p.data.length content.length = .ok ∧
    ~~~crc32Update 0xffffffff (content.drop headerSize) = (Header.ofBytes (content.take headerSize)).payloadCrc32

variable {w : World} {p : Partition} {path content temporary : List UInt8} {good : World → Prop} {crc expected : UInt32}
  {size offset : Nat}

theorem crc32Update_append (crc : UInt32) (first second : List UInt8) :
    crc32Update crc (first ++ second) = crc32Update (crc32Update crc first) second := foldl_append

@[simp] theorem headerOf_length (address : UInt32) (size : Nat) (crc : UInt32) :
    (headerOf address size crc).bytes.length = 44 := rfl

theorem image_payload (p : Partition) : (image p).drop headerSize = p.data := drop_left' rfl

theorem validateHeader_ok {h : Header} {address : UInt32} {fileSize : Nat}
    (ok : validateHeader h address size fileSize = .ok) : h.partitionSize.toNat = size ∧ fileSize = headerSize + size := by
  unfold validateHeader at ok
  split at ok
  · cases ok
  · split at ok
    · cases ok
    · rename_i fits
      rw [not_or, not_or, not_not, not_not, not_not] at fits
      exact fits.2

theorem take_chunk {count : Nat} (small : count ≤ size) (l : List UInt8) :
    l.take count ++ (l.drop count).take (size - count) = l.take size := by
  rw [← take_add, Nat.add_sub_cancel' small]

theorem ahead_eq (stream : w.stream = some ⟨path, offset⟩) (file : w.files path = some content) :
    w.ahead = content.drop offset := by
  rw [World.ahead, stream]
  dsimp only
  rw [file, getD_some]

theorem act_read (stream : w.stream = some ⟨path, offset⟩) (file : w.files path = some content) (count : Nat) (e : Env) :
    act (.read count) w e = (w, none) ∨ count ≤ (content.drop offset).length ∧
      act (.read count) w e = ({ w with stream := some ⟨path, offset + count⟩ }, some ((content.drop offset).take count)) := by
  rw [← ahead_eq stream file]
  unfold act
  dsimp only
  split
  · rename_i enough
    refine .inr ⟨enough.2, ?_⟩
    rw [stream]
    rfl
  · exact .inl rfl

theorem failure_ne (e : Env) : e.failure ≠ .ok := by
  unfold Env.failure
  split
  · exact EspErr.noConfusion
  · assumption

theorem act_partitionWrite (offset : Nat) (bytes : List UInt8) (w : World) (e : Env) :
    act (.partitionWrite offset bytes) w e =
        ({ w with partition := w.partition.map fun p => { p with data := program p.data offset bytes } }, .ok) ∨
      act (.partitionWrite offset bytes) w e = ({ w with partition := w.partition.map (·.torn e.torn) }, e.failure) := by
  unfold act
  dsimp only
  split
  · exact .inl rfl
  · exact .inr rfl

theorem act_eraseRange (w : World) (e : Env) : act .eraseRange w e =
        ({ w with partition := w.partition.map fun p => { p with data := List.replicate p.data.length 0xff } }, .ok) ∨
      act .eraseRange w e = ({ w with partition := w.partition.map (·.torn e.torn) }, e.failure) := by
  unfold act
  dsimp only
  split
  · exact .inl rfl
  · exact .inr rfl

theorem act_partitionRead (offset count : Nat) (w : World) (e : Env) :
    act (.partitionRead offset count) w e = (w, .ok (((w.partition.map Partition.data).getD [] |>.drop offset).take count)) ∨
      act (.partitionRead offset count) w e = (w, .error e.failure) := by
  unfold act
  dsimp only
  split
  · exact .inl rfl
  · exact .inr rfl

theorem validatePayload_passes (remaining : Nat) (still : ∀ stream, good { w with stream }) (stream : w.stream = some ⟨path, offset⟩)
    (file : w.files path = some content) (crc : UInt32) :
    Passes act good (fun r s => (∃ offset, s = { w with stream := some ⟨path, offset⟩ }) ∧
      (r = .ok → ~~~crc32Update crc ((content.drop offset).take remaining) = expected))
      (validatePayload expected remaining crc) w := by
  induction remaining using Nat.strong_induction_on generalizing w offset crc with
  | _ remaining ih =>
    have here : w = { w with stream := some ⟨path, offset⟩ } := by rw [← stream]
    rw [validatePayload]
    split
    · refine .invoke_bind (still w.stream) fun e => ?_
      rcases act_read stream file (min remaining ioBufferSize) e with same | ⟨-, read⟩
      · rw [same]
        exact ⟨still w.stream, ⟨offset, here⟩, fun is => EspErr.noConfusion is⟩
      · rw [read]
        have less : remaining - min remaining ioBufferSize < remaining := by unfold ioBufferSize; omega
        have later := @ih _ less { w with stream := some ⟨path, offset + min remaining ioBufferSize⟩ } _ still rfl file
          (crc32Update crc ((content.drop offset).take (min remaining ioBufferSize)))
        refine Passes.imp later ?_
        · rintro r s ⟨⟨offset', same⟩, checked⟩
          refine ⟨⟨offset', same⟩, fun is => ?_⟩
          have whole := take_chunk (Nat.min_le_left remaining ioBufferSize) (content.drop offset)
          rw [← whole, crc32Update_append, drop_drop]
          exact checked is
    · rename_i none
      rw [Nat.eq_zero_of_not_pos none]
      refine ⟨still w.stream, ⟨offset, here⟩, fun is => ?_⟩
      split at is
      · assumption
      · cases is

def Checked (w : World) (path content : List UInt8) (p : Partition) (r : Except EspErr (Header × Nat)) (s : World) : Prop :=
  (∃ stream, s = { w with stream }) ∧ r ≠ .error .ok ∧ ∀ header length, r = .ok (header, length) →
    Valid content p ∧ header = .ofBytes (content.take headerSize) ∧ length = content.length ∧ s.stream = some ⟨path, headerSize⟩

theorem Checked.failed (w : World) (path content : List UInt8) (p : Partition) (stream : Option Stream) {error : EspErr}
    (bad : error ≠ .ok) : Checked w path content p (.error error) { w with stream } :=
  ⟨⟨stream, rfl⟩, fun is => bad (Except.error.inj is), nofun⟩

theorem fileSize_passes (still : ∀ stream, good { w with stream }) (stream : w.stream = some ⟨path, offset⟩)
    (file : w.files path = some content) :
    Passes act good (fun r s => (∃ stream, s = { w with stream }) ∧ ∀ length, r = some length →
      length = content.length ∧ s.stream = some ⟨path, 0⟩) fileSize w := by
  have failed : ∀ stream, good { w with stream } ∧ (∃ stream', ({ w with stream } : World) = { w with stream := stream' }) ∧
      ∀ length, none = some length → length = content.length ∧ stream = some ⟨path, 0⟩ :=
    fun stream => ⟨still stream, ⟨stream, rfl⟩, nofun⟩
  refine .invoke_bind (still w.stream) fun e => ?_
  dsimp only [act]
  rw [stream]
  split
  · refine .invoke_bind (still _) fun e => ?_
    dsimp only [act]
    cases e.done with
    | false => exact failed _
    | true =>
      refine .invoke_bind (still _) fun e => ?_
      dsimp only [act]
      cases e.done with
      | false => exact failed _
      | true =>
        refine ⟨still _, ⟨_, rfl⟩, fun length is => ?_⟩
        cases is
        rw [map_some, file]
        exact ⟨rfl, rfl⟩
  · exact failed w.stream

theorem validateFile_passes (p : Partition) (still : ∀ stream, good { w with stream }) (stream : w.stream = some ⟨path, 0⟩)
    (file : w.files path = some content) :
    Passes act good (Checked w path content p) (validateFile p.address p.data.length) w := by
  have failed : ∀ {error : EspErr} (stream : Option Stream), error ≠ .ok →
      Passes act good (Checked w path content p) (.done (.error error)) { w with stream } :=
    fun stream bad => ⟨still stream, .failed w path content p stream bad⟩
  refine Passes.bind (Passes.imp (fileSize_passes still stream file) ?_)
  rintro r s ⟨⟨stream', rfl⟩, found⟩
  cases r with
  | none => exact failed stream' EspErr.noConfusion
  | some length =>
    obtain ⟨rfl, start⟩ := found length rfl
    obtain rfl : stream' = some ⟨path, 0⟩ := start
    refine .invoke_bind (still _) fun e => ?_
    rcases @act_read { w with stream := some ⟨path, 0⟩ } _ _ 0 rfl file headerSize e with same | ⟨-, read⟩
    · rw [same]
      exact failed _ EspErr.noConfusion
    · rw [read, drop_zero]
      dsimp only
      split
      · exact failed _ ‹_›
      · rename_i valid
        rw [not_not] at valid
        obtain ⟨fits, whole⟩ := validateHeader_ok valid
        refine Passes.bind (Passes.imp (@validatePayload_passes { w with stream := some ⟨path, headerSize⟩ } path content good
          (Header.ofBytes (content.take headerSize)).payloadCrc32 headerSize _ still rfl file 0xffffffff) ?_)
        rintro error s ⟨⟨offset, rfl⟩, checked⟩
        split
        · exact failed _ ‹_›
        · rename_i passed
          rw [not_not] at passed
          refine .invoke_bind (still _) fun e => ?_
          dsimp only [act]
          cases e.done with
          | false => exact failed _ EspErr.noConfusion
          | true =>
            refine ⟨still _, ⟨_, rfl⟩, nofun, fun header length is => ?_⟩
            cases is
            have payload := checked passed
            rw [fits, take_of_length_le (by rw [length_drop]; omega)] at payload
            exact ⟨⟨valid, payload⟩, rfl, rfl, rfl⟩

def partly (payload : List UInt8) (offset : Nat) : List UInt8 :=
  payload.take offset ++ List.replicate (payload.length - offset) 0xff

theorem zipWith_erased {n : Nat} {bytes : List UInt8} (room : bytes.length ≤ n) :
    List.zipWith (· &&& ·) (List.replicate n (0xff : UInt8)) bytes = bytes := by
  induction bytes generalizing n with
  | nil => exact zipWith_nil_right
  | cons byte bytes ih =>
    obtain ⟨n, rfl⟩ : ∃ m, n = m + 1 := ⟨n - 1, by rw [length_cons] at room; omega⟩
    have kept : (0xff : UInt8) &&& byte = byte := UInt8.neg_one_and
    rw [replicate_succ, zipWith_cons_cons, ih (Nat.le_of_succ_le_succ room), kept]

variable {payload : List UInt8}

theorem program_partly {offset count : Nat} (fits : offset + count ≤ payload.length) :
    program (partly payload offset) offset ((payload.drop offset).take count) = partly payload (offset + count) := by
  have before : (payload.take offset).length = offset := by rw [length_take]; omega
  have size : ((payload.drop offset).take count).length = count := by rw [length_take, length_drop]; omega
  have start : (partly payload offset).take offset = payload.take offset := by
    unfold partly
    rw [take_left' before]
  have erased : (partly payload offset).drop offset = List.replicate (payload.length - offset) 0xff := by
    unfold partly
    rw [drop_left' before]
  have rest : (partly payload offset).drop (offset + count) = List.replicate (payload.length - (offset + count)) 0xff := by
    rw [← drop_drop, erased, drop_replicate, Nat.sub_sub]
  unfold program overwrite
  rw [erased, zipWith_erased (by omega), size, start, rest, ← take_add]
  rfl

theorem partly_whole (payload : List UInt8) : partly payload payload.length = payload := by
  rw [partly, take_length, Nat.sub_self, replicate_zero, append_nil]

theorem writePartition_passes (fits : offset ≤ payload.length) (crc : UInt32)
    (still : ∀ partition stream, good { w with partition, stream }) (stream : w.stream = some ⟨path, headerSize + offset⟩)
    (file : w.files path = some content) (rest : content.drop headerSize = payload)
    (flash : w.partition = some { p with data := partly payload offset }) :
    Passes act good (fun r s => (∃ partition stream, s = { w with partition, stream }) ∧ r ≠ .error .ok ∧
      ∀ crc, r = .ok crc → s.partition = some { p with data := payload })
      (writePartition payload.length offset crc) w := by
  induction left : payload.length - offset using Nat.strong_induction_on generalizing w offset crc with
  | _ left' ih =>
    rw [writePartition]
    split
    · refine .invoke_bind (still _ _) fun e => ?_
      rcases act_read stream file (min (payload.length - offset) ioBufferSize) e with same | ⟨-, read⟩
      · rw [same]
        exact ⟨still _ _, ⟨_, _, rfl⟩, nofun, nofun⟩
      · rw [read]
        refine .invoke_bind (still _ _) fun e => ?_
        have chunk : (content.drop (headerSize + offset)).take (min (payload.length - offset) ioBufferSize) =
            (payload.drop offset).take (min (payload.length - offset) ioBufferSize) := by
          rw [← rest, drop_drop]
        have wide : 0 < ioBufferSize := by decide
        rcases act_partitionWrite offset ((content.drop (headerSize + offset)).take (min (payload.length - offset) ioBufferSize))
          { w with stream := some ⟨path, headerSize + offset + min (payload.length - offset) ioBufferSize⟩ } e with wrote | failed
        case inr =>
          rw [failed]
          rw [if_pos (failure_ne e)]
          refine ⟨still _ _, ⟨_, _, rfl⟩, fun is => failure_ne e ?_, nofun⟩
          exact Except.error.inj is
        case inl =>
          rw [wrote]
          rw [if_neg (not_not.mpr rfl), flash, map_some]
          rw [chunk, program_partly (by omega)]
          have later := @ih (payload.length - (offset + min (payload.length - offset) ioBufferSize)) (by omega)
            { w with
              partition := some { p with data := partly payload (offset + min (payload.length - offset) ioBufferSize) }
              stream := some ⟨path, headerSize + offset + min (payload.length - offset) ioBufferSize⟩ }
            (offset + min (payload.length - offset) ioBufferSize) (by omega)
            (crc32Update crc ((payload.drop offset).take (min (payload.length - offset) ioBufferSize))) still
            (by rw [add_assoc]) file rfl rfl
          exact later
    · obtain rfl : offset = payload.length := by omega
      refine ⟨still _ _, ⟨_, _, rfl⟩, nofun, fun _ _ => ?_⟩
      rw [flash, partly_whole]

theorem verifyPartition_passes (size offset : Nat) (crc : UInt32) (here : good w) :
    Passes act good (fun r s => s = w ∧ r ≠ .error .ok) (verifyPartition size offset crc) w := by
  induction left : size - offset using Nat.strong_induction_on generalizing offset crc with
  | _ left' ih =>
    rw [verifyPartition]
    split
    · have wide : 0 < ioBufferSize := by decide
      refine .invoke_bind here fun e => ?_
      rcases act_partitionRead offset (min (size - offset) ioBufferSize) w e with read | failed
      · rw [read]
        exact ih _ (by omega) _ _ rfl
      · rw [failed]
        exact ⟨here, rfl, fun is => failure_ne e (Except.error.inj is)⟩
    · exact ⟨here, rfl, nofun⟩

theorem rewritePartition_passes (expected : UInt32)
    (still : ∀ partition stream, good { w with partition, stream }) (stream : w.stream = some ⟨path, headerSize⟩)
    (file : w.files path = some content) (rest : content.drop headerSize = payload) (flash : w.partition = some p)
    (size : p.data.length = payload.length) :
    Passes act good (fun r s => (∃ partition stream, s = { w with partition, stream }) ∧
      (r = .ok → s.partition = some { p with data := payload }))
      (rewritePartition payload.length expected) w := by
  have failed : ∀ (error : EspErr) (partition : Option Partition) (stream : Option Stream), error ≠ .ok →
      Passes act good (fun r s => (∃ partition stream, s = { w with partition, stream }) ∧
        (r = .ok → s.partition = some { p with data := payload })) (.done error) { w with partition, stream } :=
    fun error partition stream bad => ⟨still _ _, ⟨_, _, rfl⟩, fun is => absurd is bad⟩
  refine .invoke_bind (still _ _) fun e => ?_
  rcases act_eraseRange w e with erased | broken
  case inr =>
    rw [broken]
    rw [if_pos (failure_ne e)]
    exact failed _ _ w.stream (failure_ne e)
  case inl =>
    rw [erased]
    rw [if_neg (not_not.mpr rfl), flash, map_some, size]
    refine Passes.bind (Passes.imp (@writePartition_passes
      { w with partition := some { p with data := List.replicate payload.length 0xff } } p path content good 0 payload
      (Nat.zero_le _) 0xffffffff still stream file rest rfl) ?_)
    rintro r s ⟨⟨partition, stream', rfl⟩, honest, wrote⟩
    cases r with
    | error error => exact failed error partition stream' fun is => honest (congrArg Except.error is)
    | ok crc =>
      dsimp only
      split
      · exact failed _ _ _ EspErr.noConfusion
      · refine Passes.bind (Passes.imp (verifyPartition_passes _ _ _ (still _ _)) ?_)
        rintro r s ⟨rfl, honest⟩
        cases r with
        | error error => exact failed error partition stream' fun is => honest (congrArg Except.error is)
        | ok crc => exact ⟨still _ _, ⟨_, _, rfl⟩, fun _ => wrote _ rfl⟩

/-- Success means that it is done, and the caller is told of an NVS that was taken down. -/
structure Outcome (w : World) (done : World → Prop) (r : EspErr × Result) (s : World) : Prop where
  written : r.1 = .ok → done s
  told : w.initialised = true → s.initialised = false → r.2.rebootRequired = true

structure Reported (w : World) (path : Option CString) (done : List UInt8 → Partition → World → Prop)
    (r : EspErr × Option Result) (s : World) : Prop where
  written : r.1 = .ok → ∃ file p, path = some file ∧ w.partition = some p ∧ done file.bytes p s
  released : w.busy = false → s.busy = false
  told : w.initialised = true → s.initialised = false → ∃ result, r.2 = some result ∧ result.rebootRequired = true

theorem Reported.refused {path : Option CString} {done : List UInt8 → Partition → World → Prop} {error : EspErr}
    (bad : error ≠ .ok) (result : Option Result) : Reported w path done (error, result) w := by
  refine ⟨fun is => absurd is bad, id, fun up down => ?_⟩
  rw [up] at down
  cases down

theorem guarded_passes {path : Option CString} {given : Bool} {body : List UInt8 → UInt32 → Nat → Prog (EspErr × Result)}
    {done : List UInt8 → Partition → World → Prop} (here : good w) (free : ∀ s busy, good s → good { s with busy })
    (also : ∀ file p s busy, done file p s → done file p { s with busy })
    (passes : ∀ file p, path = some file → w.partition = some p →
      Passes act good (Outcome w (done file.bytes p)) (body file.bytes p.address p.data.length) { w with busy := true }) :
    Passes act good (Reported w path done) (guarded path given body) w := by
  unfold guarded
  cases path with
  | none => exact ⟨here, .refused EspErr.noConfusion _⟩
  | some file =>
    dsimp only
    split
    · exact ⟨here, .refused EspErr.noConfusion _⟩
    · refine .invoke_bind here fun e => ?_
      dsimp only [act]
      cases busy : w.busy with
      | true =>
        have same : ({ w with busy := true } : World) = w := by rw [← busy]
        rw [same]
        exact ⟨here, .refused EspErr.noConfusion _⟩
      | false =>
        have finished : ∀ (r : EspErr × Result) (s : World), good s →
            (r.1 = .ok → ∃ p, w.partition = some p ∧ done file.bytes p s) →
            (w.initialised = true → s.initialised = false → r.2.rebootRequired = true) →
            Passes act good (Reported w (some file) done) (do invoke .release; return (r.1, some r.2)) s := by
          intro r s fine written told
          refine .invoke_bind fine fun e => ⟨free s false fine, fun is => ?_, fun _ => rfl, fun up down => ⟨r.2, rfl, told up down⟩⟩
          obtain ⟨p, flash, did⟩ := written is
          exact ⟨file, p, rfl, flash, also file.bytes p s false did⟩
        refine Passes.bind (.invoke_bind (free w true here) fun e => ?_)
        split
        · refine ⟨free w true here, finished (.notFound, .zero) { w with busy := true } (free w true here) (fun is => ?_) ?_⟩
          · cases is
          · intro up down
            exact nomatch up.symm.trans down
        · rename_i address size found
          obtain ⟨p, flash, pair⟩ := map_eq_some_iff.mp found
          cases pair
          refine Passes.imp (Passes.ends (passes file p rfl flash)) ?_
          rintro r s ⟨fine, outcome⟩
          exact finished r s fine (fun is => ⟨p, flash, outcome.written is⟩) outcome.told

def Careful (w : World) (path : Option CString) (s : World) : Prop :=
  s.partition = w.partition ∨ ∃ file p content, path = some file ∧ w.partition = some p ∧
    w.files file.bytes = some content ∧ Valid content p

def Restored (w : World) (path : List UInt8) (p : Partition) (s : World) : Prop :=
  ∃ content, w.files path = some content ∧ Valid content p ∧ s.partition = some { p with data := content.drop headerSize }

theorem restoreOpen_passes (still : ∀ stream, good { w with stream })
    (valid : Valid content p → ∀ partition stream, good { w with partition, initialised := false, stream })
    (stream : w.stream = some ⟨path, 0⟩) (file : w.files path = some content) (flash : w.partition = some p) :
    Passes act good (Outcome w (Restored w path p)) (restoreOpen p.address p.data.length) w := by
  have failed : ∀ (error : EspErr) (stream : Option Stream), error ≠ .ok →
      Passes act good (Outcome w (Restored w path p)) (.done (error, .zero)) { w with stream } := by
    intro error stream bad
    refine ⟨still stream, fun is => absurd is bad, fun up down => ?_⟩
    exact nomatch up.symm.trans down
  refine Passes.bind (Passes.imp (validateFile_passes p still stream file) ?_)
  rintro r s ⟨⟨stream', rfl⟩, honest, checked⟩
  cases r with
  | error error => exact failed error stream' fun is => honest (congrArg Except.error is)
  | ok found =>
    obtain ⟨header, length⟩ := found
    obtain ⟨fine, rfl, rfl, start⟩ := checked header length rfl
    refine .invoke_bind (still _) fun e => ?_
    dsimp only [act]
    split
    · rw [if_neg (not_not.mpr rfl)]
      have size : p.data.length = (content.drop headerSize).length := by
        rw [length_drop, (validateHeader_ok fine.1).2, Nat.add_sub_cancel_left]
      rw [size]
      refine Passes.bind (Passes.imp (@rewritePartition_passes { w with initialised := false, stream := stream' } p path content
        good (content.drop headerSize) (Header.ofBytes (content.take headerSize)).payloadCrc32 (valid fine) start file rfl flash
        size) ?_)
      rintro r s ⟨⟨partition, stream'', rfl⟩, wrote⟩
      split
      · rename_i bad
        exact ⟨valid fine _ _, fun is => absurd is bad, fun _ _ => rfl⟩
      · rename_i ok
        rw [not_not] at ok
        exact ⟨valid fine _ _, fun _ => ⟨content, file, fine, wrote ok⟩, fun _ _ => rfl⟩
    · rw [if_pos (failure_ne e)]
      exact failed _ _ (failure_ne e)

theorem restore_passes (w : World) (path : Option CString) (given : Bool) :
    Passes act (Careful w path) (Reported w path (Restored w)) (restore path given) w := by
  refine guarded_passes (.inl rfl) (fun s busy careful => careful) (fun file p s busy did => did) ?_
  intro file p is flash
  have still : ∀ s : World, s.partition = w.partition → Careful w path s := fun s same => .inl same
  refine .invoke_bind (still _ rfl) fun e => ?_
  dsimp only [act]
  split
  · rename_i opened
    obtain ⟨content, there⟩ := isSome_iff_exists.mp opened.2
    refine Passes.bind (Passes.imp (Passes.ends (@restoreOpen_passes { w with busy := true, stream := some ⟨file.bytes, 0⟩ } p
      file.bytes content (Careful w path) (fun stream => still _ rfl) ?_ rfl there flash)) ?_)
    · intro valid partition stream
      exact .inr ⟨file, p, content, is, flash, there, valid⟩
    · rintro r s ⟨careful, written, told⟩
      exact .invoke_bind careful fun e => ⟨careful, written, told⟩
  · refine ⟨still _ rfl, nofun, fun up down => ?_⟩
    exact nomatch up.symm.trans down

theorem overwrite_end (old bytes : List UInt8) : overwrite old old.length bytes = old ++ bytes := by
  rw [overwrite, take_length, drop_of_length_le (Nat.le_add_right _ _), append_nil]

theorem overwrite_start {old rest bytes : List UInt8} (same : bytes.length = old.length) :
    overwrite (old ++ rest) 0 bytes = bytes ++ rest := by
  rw [overwrite, take_zero, nil_append, zero_add, drop_left' same.symm]

theorem act_write (stream : w.stream = some ⟨path, offset⟩) (file : w.files path = some content) (bytes : List UInt8) (e : Env) :
    (∃ files, act (.write bytes) w e = ({ w with files }, false)) ∨
      act (.write bytes) w e = ({ w with
        files := update w.files path (some (overwrite content offset bytes))
        stream := some ⟨path, offset + bytes.length⟩ }, true) := by
  unfold act
  dsimp only
  split
  · rename_i none
    rw [stream] at none
    cases none
  · rename_i open_
    rw [stream] at open_
    cases open_
    split
    · rw [file]
      exact .inr rfl
    · exact .inl ⟨_, rfl⟩

abbrev NotFailed (w : World) (wrote : UInt32 → World → Prop) (r : Except EspErr UInt32) (s : World) : Prop :=
  (∃ files stream, s = { w with files, stream }) ∧ r ≠ .error .ok ∧ ∀ crc, r = .ok crc → wrote crc s

theorem NotFailed.failed (w : World) {wrote : UInt32 → World → Prop} {error : EspErr} (bad : error ≠ .ok)
    (files : List UInt8 → Option (List UInt8)) (stream : Option Stream) :
    NotFailed w wrote (.error error) { w with files, stream } :=
  ⟨⟨files, stream, rfl⟩, fun is => bad (Except.error.inj is), nofun⟩

variable {always : World → Prop}

theorem copyPartition_passes (header : List UInt8) (fits : offset ≤ p.data.length) (size : header.length = headerSize)
    (crc : UInt32) (so_far : crc = crc32Update 0xffffffff (p.data.take offset)) (flash : w.partition = some p)
    (stream : w.stream = some ⟨temporary, headerSize + offset⟩)
    (file : w.files temporary = some (header ++ p.data.take offset)) :
    Passes act (fun _ => True) (NotFailed w fun crc s => crc = crc32Update 0xffffffff p.data ∧
      s.files temporary = some (header ++ p.data) ∧ s.stream = some ⟨temporary, headerSize + p.data.length⟩)
      (copyPartition p.data.length offset crc) w := by
  induction left : p.data.length - offset using Nat.strong_induction_on generalizing w offset crc with
  | _ left' ih =>
    have wide : 0 < ioBufferSize := by decide
    rw [copyPartition]
    split
    · refine .invoke_bind trivial fun e => ?_
      rcases act_partitionRead offset (min (p.data.length - offset) ioBufferSize) w e with read | failed
      case inr =>
        rw [failed]
        exact ⟨trivial, .failed w (failure_ne e) w.files w.stream⟩
      rw [read, flash, map_some, getD_some]
      generalize chunk : (p.data.drop offset).take (min (p.data.length - offset) ioBufferSize) = buffer
      have length : buffer.length = min (p.data.length - offset) ioBufferSize := by
        rw [← chunk, length_take, length_drop, Nat.min_eq_left (Nat.min_le_left _ _)]
      have next : p.data.take offset ++ buffer = p.data.take (offset + min (p.data.length - offset) ioBufferSize) := by
        rw [← chunk, take_add]
      have place : (header ++ p.data.take offset).length = headerSize + offset := by
        rw [length_append, size, length_take, Nat.min_eq_left fits]
      refine .invoke_bind trivial fun e => ?_
      rcases act_write stream file buffer e with ⟨files, torn⟩ | wrote
      · rw [torn]
        exact ⟨trivial, .failed w EspErr.noConfusion files w.stream⟩
      · rw [wrote, ← place, overwrite_end, append_assoc, next, place, length]
        refine Passes.imp (@ih (p.data.length - (offset + min (p.data.length - offset) ioBufferSize)) (by omega)
          { w with
            files := update w.files temporary
              (some (header ++ p.data.take (offset + min (p.data.length - offset) ioBufferSize)))
            stream := some ⟨temporary, headerSize + offset + min (p.data.length - offset) ioBufferSize⟩ }
          (offset + min (p.data.length - offset) ioBufferSize) (by omega) (crc32Update crc buffer) ?_ flash ?_ ?_ rfl) ?_
        · rw [so_far, ← crc32Update_append, next]
        · rw [add_assoc]
        · exact update_self ..
        · rintro r s ⟨⟨files, stream', same⟩, rest⟩
          exact ⟨⟨files, stream', same⟩, rest⟩
    · obtain rfl : offset = p.data.length := by omega
      refine ⟨trivial, ⟨w.files, w.stream, rfl⟩, nofun, fun crc is => ?_⟩
      cases is
      rw [take_length] at so_far file
      exact ⟨so_far, file, stream⟩

theorem writeImage_passes (flash : w.partition = some p) (stream : w.stream = some ⟨temporary, 0⟩)
    (file : w.files temporary = some []) :
    Passes act (fun _ => True) (NotFailed w fun crc s => crc = ~~~crc32Update 0xffffffff p.data ∧
      s.files temporary = some (image p)) (writeImage p.address p.data.length) w := by
  have failed : ∀ {error : EspErr} (files : List UInt8 → Option (List UInt8)) (stream : Option Stream), error ≠ .ok →
      Passes act (fun _ => True) (NotFailed w fun crc s => crc = ~~~crc32Update 0xffffffff p.data ∧
        s.files temporary = some (image p)) (.done (.error error)) { w with files, stream } :=
    fun files stream bad => ⟨trivial, .failed w bad files stream⟩
  refine .invoke_bind trivial fun e => ?_
  rcases act_write stream file (headerOf p.address p.data.length 0).bytes e with ⟨files, torn⟩ | wrote
  · rw [torn]
    exact failed files w.stream EspErr.noConfusion
  have fresh : overwrite [] 0 (headerOf p.address p.data.length 0).bytes = (headerOf p.address p.data.length 0).bytes :=
    overwrite_end [] _
  rw [wrote, fresh]
  refine Passes.bind (Passes.imp (@copyPartition_passes
    { w with
      files := update w.files temporary (some (headerOf p.address p.data.length 0).bytes)
      stream := some ⟨temporary, headerSize⟩ } p temporary 0 (headerOf p.address p.data.length 0).bytes (Nat.zero_le _) rfl
    0xffffffff rfl flash rfl ?_) ?_)
  · rw [take_zero, append_nil]
    exact update_self ..
  rintro r s ⟨⟨files, stream', rfl⟩, honest, copied⟩
  cases r with
  | error error => exact failed files stream' fun is => honest (congrArg Except.error is)
  | ok crc =>
    obtain ⟨rfl, there, place⟩ := copied crc rfl
    obtain rfl : stream' = _ := place
    refine .invoke_bind trivial fun e => ?_
    dsimp only [act]
    cases e.done with
    | false => exact failed files _ EspErr.noConfusion
    | true =>
      rw [if_pos rfl, map_some]
      refine .invoke_bind trivial fun e => ?_
      rcases @act_write { w with files, stream := some ⟨temporary, 0⟩ } _ _ 0 rfl there
        (headerOf p.address p.data.length (~~~crc32Update 0xffffffff p.data)).bytes e with ⟨files', torn⟩ | wrote
      · rw [torn]
        exact failed files' _ EspErr.noConfusion
      · have whole : overwrite ((headerOf p.address p.data.length 0).bytes ++ p.data) 0
            (headerOf p.address p.data.length (~~~crc32Update 0xffffffff p.data)).bytes = image p :=
          overwrite_start ((headerOf_length _ _ _).trans (headerOf_length _ _ _).symm)
        rw [wrote, whole]
        refine .invoke_bind trivial fun e => ?_
        dsimp only [act]
        cases e.done with
        | false => exact failed _ _ EspErr.noConfusion
        | true =>
          refine .invoke_bind trivial fun e => ?_
          dsimp only [act]
          cases e.done with
          | false => exact failed _ _ EspErr.noConfusion
          | true =>
            refine ⟨trivial, ⟨_, _, rfl⟩, nofun, fun crc is => ?_⟩
            cases is
            exact ⟨rfl, update_self ..⟩

theorem act_remove_other (path : List UInt8) (w : World) (e : Env) :
    ∃ files reply, act (.remove path) w e = ({ w with files }, reply) ∧ ∀ other, other ≠ path → files other = w.files other := by
  dsimp only [act]
  split
  · exact ⟨_, _, rfl, fun other apart => update_of_ne apart ..⟩
  · exact ⟨w.files, _, rfl, fun _ _ => rfl⟩

theorem act_rename (source target : List UInt8) (w : World) (e : Env) :
    act (.rename source target) w e = (w, false) ∨ act (.rename source target) w e =
      ({ w with files := update (update w.files target (w.files source)) source none }, true) := by
  dsimp only [act]
  split
  · exact .inr rfl
  · exact .inl rfl

theorem pathWithSuffix_some {suffix longer : List UInt8} (is : pathWithSuffix path suffix = some longer) :
    longer = path ++ suffix := by
  unfold pathWithSuffix at is
  split at is
  · exact (Option.some.inj is).symm
  · cases is

theorem replaceFile_passes (is : pathWithSuffix path tmpSuffix = some temporary) (there : w.files temporary = some content) :
    Passes act (fun _ => True) (fun r s => (∃ files, s = { w with files }) ∧ (r = .ok → s.files path = some content))
      (replaceFile path temporary) w := by
  have fromHere : ∀ {error : EspErr} (files : List UInt8 → Option (List UInt8)), error ≠ .ok →
      Passes act (fun _ => True) (fun r s => (∃ files, s = { w with files }) ∧ (r = .ok → s.files path = some content))
        (.done error) { w with files } := fun files bad => ⟨trivial, ⟨files, rfl⟩, fun is => absurd is bad⟩
  have longer := pathWithSuffix_some is
  have apart : temporary ≠ path := by
    intro same
    have lengths := congrArg List.length (longer.symm.trans same)
    rw [length_append] at lengths
    have four : tmpSuffix.length = 4 := rfl
    omega
  unfold replaceFile
  split
  · exact fromHere w.files EspErr.noConfusion
  · rename_i backup named
    have backupIs := pathWithSuffix_some named
    have apartBackup : backup ≠ path ∧ temporary ≠ backup := by
      constructor
      · intro same
        have lengths := congrArg List.length (backupIs.symm.trans same)
        rw [length_append] at lengths
        have four : bakSuffix.length = 4 := rfl
        omega
      · intro same
        have suffixes := append_cancel_left (longer.symm.trans (same.trans backupIs))
        cases suffixes
    refine .invoke_bind trivial fun e => .invoke_bind trivial fun e' => ?_
    generalize (act (.stat path) w e).2 = existed
    have same : (act (.stat path) w e).1 = w := rfl
    rw [same]
    obtain ⟨files, reply, removed, others⟩ := act_remove_other backup w e'
    rw [removed]
    have kept : files temporary = some content := (others temporary apartBackup.2).trans there
    -- from here on the temporary file is put in place
    have place : ∀ files : List UInt8 → Option (List UInt8), files temporary = some content →
        Passes act (fun _ => True) (fun r s => (∃ files, s = { w with files }) ∧ (r = .ok → s.files path = some content))
          (do
            if (← invoke (.rename temporary path)) = false then
              if existed then
                let _ ← invoke (.rename backup path)
              return .fail
            else
              let _ ← invoke (.remove backup)
              return .ok : Prog EspErr) { w with files } := by
      intro files kept
      refine .invoke_bind trivial fun e => ?_
      rcases act_rename temporary path { w with files } e with failed | moved
      · rw [failed]
        cases existed with
        | false => exact fromHere files EspErr.noConfusion
        | true =>
          refine .invoke_bind trivial fun e => ?_
          rcases act_rename backup path { w with files } e with failed | moved
          · rw [failed]
            exact fromHere files EspErr.noConfusion
          · rw [moved]
            exact fromHere _ EspErr.noConfusion
      · rw [moved]
        refine .invoke_bind trivial fun e => ?_
        obtain ⟨files', reply, removed, others⟩ := act_remove_other backup
          { w with files := update (update files path (files temporary)) temporary none } e
        rw [removed]
        refine ⟨trivial, ⟨files', rfl⟩, fun _ => ?_⟩
        refine (others path apartBackup.1.symm).trans ?_
        dsimp only
        rw [update_of_ne apart.symm, update_self, kept]
    cases existed with
    | false => exact place files kept
    | true =>
      refine .invoke_bind trivial fun e => ?_
      rcases act_rename path backup { w with files } e with failed | moved
      · rw [failed]
        exact fromHere files EspErr.noConfusion
      · rw [moved]
        refine place _ ?_
        rw [update_of_ne apart, update_of_ne apartBackup.2]
        exact kept

def Saved (w : World) (path : List UInt8) (p : Partition) (s : World) : Prop :=
  s.files path = some (image p) ∧ s.partition = w.partition

theorem writeTemporary_passes (flash : w.partition = some p) :
    Passes act (fun _ => True) (NotFailed w fun crc s => crc = ~~~crc32Update 0xffffffff p.data ∧
      s.files temporary = some (image p)) (writeTemporary temporary p.address p.data.length) w := by
  refine .invoke_bind trivial fun e => ?_
  dsimp only [act]
  cases e.done with
  | false => exact ⟨trivial, .failed w EspErr.noConfusion w.files w.stream⟩
  | true =>
    rw [if_pos rfl]
    refine Passes.bind (Passes.imp (@writeImage_passes
      { w with files := update w.files temporary (some []), stream := some ⟨temporary, 0⟩ } p temporary flash rfl
      (update_self ..)) ?_)
    rintro r s ⟨⟨files, stream, rfl⟩, honest, wrote⟩
    refine .invoke_bind trivial fun e => ?_
    refine ⟨trivial, ?_⟩
    split
    · exact .failed w EspErr.noConfusion files none
    · exact ⟨⟨files, none, rfl⟩, honest, wrote⟩

theorem reinitialize_passes (w : World) :
    Passes act (fun _ => True) (fun r s => (∃ initialised, s = { w with initialised }) ∧ (r = .ok → s.initialised = true))
      reinitialize w := by
  refine .invoke_bind trivial fun e => ?_
  dsimp only [act]
  split
  · exact ⟨trivial, ⟨true, rfl⟩, fun _ => rfl⟩
  · split
    · rename_i up
      exact ⟨trivial, ⟨w.initialised, rfl⟩, fun _ => up⟩
    · refine ⟨trivial, ⟨w.initialised, rfl⟩, fun is => ?_⟩
      have bad := failure_ne e
      by_cases invalid : e.failure = .invalidState
      · simp [invalid] at is
      · simp [invalid, bad] at is

theorem writeSnapshot_passes (flash : w.partition = some p) :
    Passes act (fun _ => True) (Outcome w (Saved w path p)) (writeSnapshot path p.address p.data.length) w := by
  -- what is left of the files does not matter when the call fails and the NVS is up again
  have removing : ∀ (r : EspErr × Result) (s : World), r.1 ≠ .ok →
      (w.initialised = true → s.initialised = false → r.2.rebootRequired = true) →
      Passes act (fun _ => True) (Outcome w (Saved w path p)) (do
        let _ ← invoke (.remove (path ++ tmpSuffix))
        return r) s := by
    intro r s bad told
    refine .invoke_bind trivial fun e => ?_
    obtain ⟨files, reply, removed, -⟩ := act_remove_other (path ++ tmpSuffix) s e
    rw [removed]
    exact ⟨trivial, fun is => absurd is bad, told⟩
  unfold writeSnapshot
  split
  · refine ⟨trivial, nofun, fun up down => ?_⟩
    exact nomatch up.symm.trans down
  · rename_i temporary named
    obtain rfl := pathWithSuffix_some named
    refine .invoke_bind trivial fun e => .invoke_bind trivial fun e' => ?_
    obtain ⟨files, reply, removed, -⟩ := act_remove_other (path ++ tmpSuffix) w e
    rw [removed]
    dsimp only [act]
    split
    case isFalse =>
      rw [if_pos (failure_ne e')]
      refine ⟨trivial, fun is => absurd is (failure_ne e'), fun up down => ?_⟩
      exact nomatch up.symm.trans down
    rw [if_neg (not_not.mpr rfl)]
    refine Passes.bind (Passes.imp (@writeTemporary_passes { w with files, initialised := false } p (path ++ tmpSuffix) flash) ?_)
    rintro r s ⟨⟨files', stream, rfl⟩, honest, wrote⟩
    refine Passes.bind (Passes.imp (reinitialize_passes _) ?_)
    rintro error s ⟨⟨initialised, rfl⟩, up⟩
    split
    · rename_i bad
      exact removing _ _ bad fun _ _ => rfl
    · rename_i ok
      rw [not_not] at ok
      obtain rfl : initialised = true := up ok
      have still : ∀ {x : EspErr × Result}, w.initialised = true → true = false → x.2.rebootRequired = true :=
        fun _ down => Bool.noConfusion down
      cases r with
      | error error => exact removing _ _ (fun is => honest (congrArg Except.error is)) still
      | ok crc =>
        obtain ⟨rfl, there⟩ := wrote crc rfl
        refine Passes.bind (Passes.imp (replaceFile_passes named there) ?_)
        rintro error s ⟨⟨files'', rfl⟩, placed⟩
        split
        · rename_i ok
          exact ⟨trivial, fun _ => ⟨placed ok, rfl⟩, still⟩
        · rename_i bad
          exact removing _ _ bad still

theorem create_passes (w : World) (path : Option CString) (given : Bool) :
    Passes act (fun _ => True) (Reported w path (Saved w)) (create path given) w := by
  refine guarded_passes trivial (fun _ _ _ => trivial) (fun file p s busy did => did) ?_
  intro file p _ flash
  refine Passes.imp (@writeSnapshot_passes { w with busy := true } p file.bytes flash) ?_
  rintro r s ⟨written, told⟩
  exact ⟨written, told⟩

/-- A restore changes the partition only for a valid file; when it succeeds the partition holds
the payload of the file, which is what was saved if a create wrote it; and both calls let the next
one in and tell of an NVS that they took down. -/
theorem backup_safe (w : World) (path : Option CString) (given : Bool) (env : Nat → Env) :
    (∀ n, Careful w path (stop act (restore path given) env n w)) ∧
      Reported w path (fun file p s => Restored w file p s ∧ ∀ saved, w.files file = some (image saved) →
        s.partition = some { p with data := saved.data })
        (finish act (restore path given) w env).2 (finish act (restore path given) w env).1 ∧
      Reported w path (Saved w) (finish act (create path given) w env).2 (finish act (create path given) w env).1 := by
  have passes := restore_passes w path given
  obtain ⟨-, written, released, told⟩ := passes.result env
  refine ⟨fun n => ?_, ⟨fun is => ?_, released, told⟩, ((create_passes w path given).result env).2⟩
  · have : Nonempty Env := ⟨env 0⟩
    exact stop_iff.mpr (Passes.imp passes fun _ _ _ => trivial) env n
  · obtain ⟨file, p, named, flash, content, there, valid, holds⟩ := written is
    refine ⟨file, p, named, flash, ⟨content, there, valid, holds⟩, fun saved same => ?_⟩
    obtain rfl : content = image saved := Option.some.inj (there.symm.trans same)
    rw [holds, image_payload]

def restored : World where
  partition := some ⟨0, []⟩
  initialised := false
  busy := false
  files := fun _ => none
  stream := none

theorem second_restore : ¬∀ (w : World) (path : CString) (env : Nat → Env),
    (finish act (restore (some path) true) w env).1.initialised = false →
      (finish act (restore (some path) true) w env).1.busy = false ∧
        ∃ result, (finish act (restore (some path) true) w env).2.2 = some result ∧ result.rebootRequired = true := by
  intro claimed
  obtain ⟨-, result, is, told⟩ := claimed restored (.ofBytes [0x61]) (fun _ => ⟨true, .ok, []⟩) rfl
  have zero : result = .zero := (Option.some.inj is).symm
  rw [zero] at told
  cases told

end SolarOs.Nvs
