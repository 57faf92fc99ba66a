import Mathlib.Data.List.Infix
import SolarOs.Esp
import SolarOs.Library.ByteOrder

/-! The records of an agent conversation: how a file is read, and what is shown or sent of it. -/
namespace SolarOs.Agent
open ByteOrder List

def conversationMagic : Nat := 0x56434f53
def recordMagic : Nat := 0x52434f53
def recordMax : Nat := 64
def headerSize : Nat := 344
def recordSize : Nat := 24
def idMax : Nat := 24
def flashMessageMax : Nat := 4096
def sdMessageMax : Nat := 16384
def historyBytesMax : Nat := 8192
def historyMessageMax : Nat := 24
def roleUser : Nat := 0
def roleAssistant : Nat := 1
def roleTool : Nat := 2

/-- A field of so many bytes at an offset. -/
def field (bytes : List UInt8) (offset count : Nat) : Nat := fromLittleEndian ((bytes.drop offset).take count)

def crc32Bit (crc : UInt32) : UInt32 := if crc &&& 1 ≠ 0 then (crc >>> 1) ^^^ 0xedb88320 else crc >>> 1

def crc32Update (crc : UInt32) (data : List UInt8) : UInt32 :=
  data.foldl (fun crc byte => crc32Bit^[8] (crc ^^^ byte.toUInt32)) crc

/-- `conversation_header_crc`, of the bytes before the checksum. -/
def headerCrc (header : List UInt8) : UInt32 := ~~~crc32Update 0xffffffff (header.take 336)

/-- `agent_conversation_record_t` and the text after it. -/
structure Record where
  head : List UInt8
  text : List UInt8
  deriving DecidableEq

def Record.bytes (r : Record) : List UInt8 := r.head ++ r.text

def role (head : List UInt8) : Nat := field head 4 1

def textLen (head : List UInt8) : Nat := field head 6 2

def Record.crc (r : Record) : UInt32 := ~~~crc32Update (crc32Update 0xffffffff (r.head.take 16)) r.text

def idValid (id : List UInt8) : Bool :=
  !id.isEmpty && id.length < idMax &&
    id.all fun ch => (0x61 ≤ ch && ch ≤ 0x7a) || (0x30 ≤ ch && ch ≤ 0x39) || ch = 0x2d

section
variable (file : List UInt8)

def recordCount : Nat := field file 26 2

/-- The string in the header. -/
def headerId : List UInt8 := ((file.drop 32).take idMax).takeWhile (· ≠ 0)

/-- `conversation_read_header`, and whether the header is that of the conversation. -/
def headerValid (id file : List UInt8) : Bool :=
  headerSize ≤ file.length && field file 0 4 = conversationMagic && field file 4 2 = 1 && field file 6 2 = headerSize &&
    recordCount file ≤ recordMax && idValid (headerId file) && field file 336 4 = (headerCrc file).toNat && headerId file = id

/-- `conversation_open_read`: the file, or else the backup. -/
def openRead (id : List UInt8) (file backup : Option (List UInt8)) : Option (List UInt8) :=
  (file.filter (headerValid id)).or (backup.filter (headerValid id))

structure Meta where
  offset : Nat
  head : List UInt8

def Meta.totalSize (m : Meta) : Nat := recordSize + textLen m.head

/-- The record that `conversation_read_records` reads at an offset. -/
def readRecord (offset : Nat) : Option Record :=
  let head := (file.drop offset).take recordSize
  let r : Record := ⟨head, (file.drop (offset + recordSize)).take (textLen head)⟩
  if head.length < recordSize ∨ field head 0 4 ≠ recordMagic ∨ roleTool < role head ∨ textLen head = 0 ∨
      sdMessageMax < textLen head ∨ r.text.length < textLen head ∨ field head 16 4 ≠ r.crc.toNat then none
  else some r

/-- The loop of `conversation_read_records`. -/
def readRecords (file : List UInt8) : Nat → Nat → List Meta
  | 0, _ => []
  | room + 1, offset =>
    match readRecord file offset with
    | none => []
    | some r =>
      ⟨offset, r.head⟩ :: readRecords file room (offset + (recordSize + textLen r.head))

def storedRecords : List Meta := readRecords file (min recordMax (recordCount file)) headerSize

def messageLimit (mounted : Bool) : Nat := if mounted then sdMessageMax else flashMessageMax

structure Message where
  role : Nat
  text : List UInt8
  deriving DecidableEq

def Record.message (r : Record) : Message := ⟨Agent.role r.head, r.text⟩

/-- The record at the place of the file that was noted. -/
def Meta.record (m : Meta) : Record :=
  ⟨m.head, (file.drop (m.offset + recordSize)).take (textLen m.head)⟩

end

/-- What the visitor is given, from a buffer of so many bytes; nothing when a text does not fit it. -/
def visitRecords (file : List UInt8) (size : Nat) : List Meta → Option (List Message)
  | [] => some []
  | m :: metas =>
    if size < textLen m.head + 1 then none
    else (visitRecords file size metas).map ((m.record file).message :: ·)

def visit (id : List UInt8) (file backup : Option (List UInt8)) (mounted : Bool) :
    Except EspErr (Option (List Message)) :=
  if idValid id = false then .error .invalidArg
  else match openRead id file backup with
    | none => .error .notFound
    | some file => .ok (visitRecords file (messageLimit mounted + 1) (storedRecords file))

section
variable {α : Type} (slots limit : Nat) (cost : α → Nat) (user : α → Bool)

/-- The newest entries first: as many as there is room for, from so many bytes and entries on. -/
def keepLatest : Nat → Nat → List α → List α
  | _, _, [] => []
  | used, count, x :: older =>
    if slots < count + 1 ∨ limit < used + cost x then [] else keepLatest (used + cost x) (count + 1) older ++ [x]

/-- The entries that are kept, from a turn of the user on. -/
def keepTurns (used count : Nat) (entries : List α) : List α :=
  (keepLatest slots limit cost used count entries.reverse).dropWhile fun x => !user x

/-- They fit with what there is already. -/
def Fits (used count : Nat) (entries : List α) : Prop :=
  count + entries.length ≤ slots ∧ used + (entries.map cost).sum ≤ limit

/-- The longest end of a list that has a property. -/
def Longest (good : List α → Prop) (entries kept : List α) : Prop :=
  kept <:+ entries ∧ good kept ∧ ∀ s, s <:+ entries → good s → s <:+ kept

/-- No entry, or one of the user first. -/
def Begins (entries : List α) : Prop := entries.head?.all user = true

variable {slots limit cost user} {used count : Nat} {entries : List α}

theorem Fits.suffix {s : List α} (h : Fits slots limit cost used count entries) (part : s <:+ entries) :
    Fits slots limit cost used count s := by
  obtain ⟨front, rfl⟩ := part
  unfold Fits at h ⊢
  rw [length_append, map_append, sum_append] at h
  omega

theorem keepLatest_longest (newest : List α) : keepLatest slots limit cost used count newest <:+ newest.reverse ∧
      (Fits slots limit cost used count [] →
        Fits slots limit cost used count (keepLatest slots limit cost used count newest)) ∧
      ∀ s, s <:+ newest.reverse → Fits slots limit cost used count s → s <:+ keepLatest slots limit cost used count newest := by
  induction newest generalizing used count with
  | nil => exact ⟨suffix_rfl, id, fun s part _ => part⟩
  | cons x newest ih =>
    unfold keepLatest
    rw [reverse_cons]
    split
    · rename_i full
      refine ⟨nil_suffix, id, fun s part fits => ?_⟩
      rcases suffix_concat_iff.mp part with rfl | ⟨t, rfl, -⟩
      · exact nil_suffix
      · unfold Fits at fits
        simp only [length_append, length_singleton, map_append, map_cons, map_nil, sum_append,
          sum_cons, sum_nil] at fits
        omega
    · rename_i room
      obtain ⟨part, fit, all⟩ := @ih (used + cost x) (count + 1)
      have more : ∀ t : List α, Fits slots limit cost (used + cost x) (count + 1) t ↔ Fits slots limit cost used count (t ++ [x]) := by
        intro t
        unfold Fits
        simp only [length_append, length_singleton, map_append, map_cons, map_nil, sum_append, sum_cons, sum_nil]
        omega
      refine ⟨suffix_concat_iff.mpr (.inr ⟨_, rfl, part⟩), fun _ => (more _).mp (fit ?_), fun s whole fits => ?_⟩
      · unfold Fits
        rw [length_nil, map_nil, sum_nil]
        omega
      · rcases suffix_concat_iff.mp whole with rfl | ⟨t, rfl, inner⟩
        · exact nil_suffix
        · exact suffix_concat_iff.mpr (.inr ⟨_, rfl, all t inner ((more t).mpr fits)⟩)

theorem dropWhile_longest (entries : List α) : Longest (Begins user) entries (entries.dropWhile fun x => !user x) := by
  induction entries with
  | nil => exact ⟨suffix_rfl, rfl, fun s part _ => part⟩
  | cons x entries ih =>
    obtain ⟨part, begins, all⟩ := ih
    rw [dropWhile_cons]
    by_cases mine : user x = true
    · rw [if_neg (by simp [mine])]
      exact ⟨suffix_rfl, mine, fun s part _ => part⟩
    · rw [if_pos (by simp [mine])]
      refine ⟨part.trans (suffix_cons x entries), begins, fun s whole first => ?_⟩
      rcases suffix_cons_iff.mp whole with rfl | inner
      · exact absurd first mine
      · exact all s inner first

theorem keepTurns_part (entries : List α) : keepTurns slots limit cost user used count entries <:+ entries := by
  obtain ⟨part, -⟩ := @keepLatest_longest α slots limit cost used count entries.reverse
  rw [reverse_reverse] at part
  exact (dropWhile_suffix _).trans part

/-- What is kept is the longest end that fits and begins with the user, if anything fits. -/
theorem keepTurns_longest (entries : List α) (some : Fits slots limit cost used count []) :
    Longest (fun s => Fits slots limit cost used count s ∧ Begins user s) entries
      (keepTurns slots limit cost user used count entries) := by
  obtain ⟨part, fit, all⟩ := @keepLatest_longest α slots limit cost used count entries.reverse
  obtain ⟨inner, begins, most⟩ := @dropWhile_longest α user (keepLatest slots limit cost used count entries.reverse)
  rw [reverse_reverse] at part all
  exact ⟨inner.trans part, ⟨(fit some).suffix inner, begins⟩, fun s whole good => most s (all s whole good.1) good.2⟩

theorem keepTurns_map {β : Type} (f : β → α) (entries : List β) :
    keepTurns slots limit cost user used count (entries.map f) =
      (keepTurns slots limit (cost ∘ f) (user ∘ f) used count entries).map f := by
  have latest : ∀ (newest : List β) (used count : Nat), keepLatest slots limit cost used count (newest.map f) =
      (keepLatest slots limit (cost ∘ f) used count newest).map f := by
    intro newest
    induction newest with
    | nil => exact fun _ _ => rfl
    | cons x newest ih =>
      intro used count
      rw [map_cons, keepLatest, keepLatest, ih]
      split
      · rw [if_pos ‹_›]
        rfl
      · rw [if_neg ‹_›, map_append]
        rfl
  unfold keepTurns
  rw [← map_reverse, latest, dropWhile_map]
  rfl

end

/-- The loop of `solar_os_agent_conversation_load_history` that reads the texts into a buffer of so many bytes. -/
def copyHistory (file : List UInt8) (size : Nat) : Nat → Nat → List Meta → Option (List Message)
  | _, _, [] => some []
  | used, count, m :: metas =>
    if historyMessageMax ≤ count then some []
    else if size < used + (textLen m.head + 1) then none
    else (copyHistory file size (used + (textLen m.head + 1)) (count + 1) metas).map ((m.record file).message :: ·)

/-- What is sent of the open file. -/
def history (file : List UInt8) : Option (List Message) :=
  let kept := keepTurns historyMessageMax historyBytesMax (fun m : Meta => textLen m.head + 1)
    (fun m => role m.head = roleUser) 0 0 (storedRecords file)
  copyHistory file (kept.map fun m => textLen m.head + 1).sum 0 0 kept

/-- `solar_os_agent_conversation_load_history`, messages included. -/
def loadHistory (id : List UInt8) (file backup : Option (List UInt8)) : Except EspErr (Option (List Message)) :=
  if idValid id = false then .error .invalidArg
  else match openRead id file backup with
    | none => .error .notFound
    | some file => .ok (history file)

def writeRecord (role : Nat) (text : List UInt8) (timestamp : Nat) : Record :=
  let fields := littleEndian 4 recordMagic ++ littleEndian 1 role ++ [0] ++ littleEndian 2 text.length ++
    littleEndian 8 timestamp
  ⟨fields ++ littleEndian 4 (~~~crc32Update (crc32Update 0xffffffff fields) text).toNat ++ List.replicate 4 0, text⟩

structure Record.Valid (r : Record) : Prop where
  head : r.head.length = recordSize
  magic : field r.head 0 4 = recordMagic
  known : Agent.role r.head ≤ roleTool
  full : r.text ≠ []
  short : r.text.length ≤ sdMessageMax
  length : textLen r.head = r.text.length
  crc : field r.head 16 4 = r.crc.toNat

variable {file : List UInt8} {room offset size : Nat} {r : Record} {metas : List Meta}

theorem readRecord_iff : readRecord file offset = some r ↔ r.Valid ∧ r.bytes <+: file.drop offset := by
  unfold readRecord
  dsimp only
  constructor
  · intro read
    split at read
    · cases read
    · rename_i fine
      cases read
      simp only [not_or, not_lt, not_not] at fine
      obtain ⟨head, magic, known, full, short, long, crc⟩ := fine
      have exact_ : ((file.drop (offset + recordSize)).take (textLen ((file.drop offset).take recordSize))).length =
          textLen ((file.drop offset).take recordSize) := le_antisymm (length_take_le ..) long
      refine ⟨⟨le_antisymm (length_take_le ..) head, magic, known, fun none => ?_, ?_, exact_.symm, crc⟩, ?_⟩
      · exact full (exact_.symm.trans (congrArg List.length none))
      · rw [exact_]
        exact short
      · unfold Record.bytes
        rw [← drop_drop, ← take_add]
        exact take_prefix ..
  · rintro ⟨valid, tail, there⟩
    unfold Record.bytes at there
    rw [append_assoc] at there
    have head : (file.drop offset).take recordSize = r.head := by
      rw [← there, take_left' valid.head]
    have text : (file.drop (offset + recordSize)).take (textLen r.head) = r.text := by
      rw [← drop_drop, ← there, drop_left' valid.head, take_left' valid.length.symm]
    have full : r.text.length ≠ 0 := fun none => valid.full (length_eq_zero_iff.mp none)
    rw [head, text, if_neg]
    simp only [not_or, not_lt, not_not]
    exact ⟨valid.head.ge, valid.magic, valid.known, valid.length ▸ full, valid.length ▸ valid.short, valid.length.le, valid.crc⟩

/-- The records from an offset on: all that are valid and follow each other, but no more than there is room for. -/
structure Leading (file : List UInt8) (room offset : Nat) (rs : List Record) : Prop where
  valid : ∀ r ∈ rs, r.Valid
  there : rs.flatMap Record.bytes <+: file.drop offset
  few : rs.length ≤ room
  stops : rs.length < room → ∀ r : Record, r.Valid → ¬r.bytes <+: file.drop (offset + (rs.flatMap Record.bytes).length)

structure Meta.Placed (file : List UInt8) (m : Meta) : Prop where
  valid : (m.record file).Valid
  there : (file.drop m.offset).take m.totalSize = (m.record file).bytes
  size : m.totalSize = (m.record file).bytes.length

theorem readRecords_leading (room offset : Nat) :
    Leading file room offset ((readRecords file room offset).map (Meta.record file)) ∧
      ∀ m ∈ readRecords file room offset, m.Placed file := by
  induction room generalizing offset with
  | zero => exact ⟨⟨nofun, nil_prefix, le_rfl, nofun⟩, nofun⟩
  | succ room ih =>
    unfold readRecords
    cases read : readRecord file offset with
    | none =>
      refine ⟨⟨nofun, nil_prefix, Nat.zero_le _, fun _ r valid there => ?_⟩, nofun⟩
      have found : readRecord file offset = some r := readRecord_iff.mpr ⟨valid, there⟩
      rw [read] at found
      cases found
    | some r =>
      obtain ⟨valid, there⟩ := readRecord_iff.mp read
      obtain ⟨tail, split⟩ := there
      have length : r.bytes.length = recordSize + textLen r.head := by
        rw [Record.bytes, length_append, valid.head, valid.length]
      have after : file.drop (offset + (recordSize + textLen r.head)) = tail := by
        rw [← drop_drop, ← length, ← split, drop_left]
      have same : Meta.record file ⟨offset, r.head⟩ = r := by
        unfold Meta.record
        rw [← drop_drop, ← split, Record.bytes, append_assoc, drop_left' valid.head, take_left' valid.length.symm]
      obtain ⟨leading, placed⟩ := ih (offset + (recordSize + textLen r.head))
      dsimp only
      rw [map_cons, same]
      refine ⟨⟨forall_mem_cons.mpr ⟨valid, leading.valid⟩, ?_, Nat.succ_le_succ leading.few, fun more r' valid' => ?_⟩,
        forall_mem_cons.mpr ⟨⟨?_, ?_, ?_⟩, placed⟩⟩
      · rw [flatMap_cons, ← split, prefix_append_right_inj, ← after]
        exact leading.there
      · have stops := leading.stops (Nat.lt_of_succ_lt_succ more) r' valid'
        rw [flatMap_cons, length_append, length, ← add_assoc]
        exact stops
      · rw [same]
        exact valid
      · rw [same, Meta.totalSize, ← length, ← split, take_left]
      · rw [same, Meta.totalSize, length]

theorem visitRecords_iff : visitRecords file size metas = some (metas.map fun m => (m.record file).message) ↔
    ∀ m ∈ metas, textLen m.head + 1 ≤ size := by
  induction metas with
  | nil => exact iff_of_true rfl nofun
  | cons m metas ih =>
    unfold visitRecords
    rw [forall_mem_cons, ← ih]
    split
    · rename_i long
      exact iff_of_false nofun fun fits => not_lt.mpr fits.1 long
    · rename_i short
      rw [Option.map_eq_some_iff]
      constructor
      · rintro ⟨rest, read, same⟩
        exact ⟨not_lt.mp short, read.trans (congrArg some (List.cons.inj same).2)⟩
      · rintro ⟨-, read⟩
        exact ⟨_, read, rfl⟩

theorem copyHistory_all {used count : Nat} (room : used + (metas.map fun m => textLen m.head + 1).sum ≤ size)
    (few : count + metas.length ≤ historyMessageMax) :
    copyHistory file size used count metas = some (metas.map fun m => (m.record file).message) := by
  induction metas generalizing used count with
  | nil => rfl
  | cons m metas ih =>
    rw [map_cons, sum_cons] at room
    rw [length_cons] at few
    unfold copyHistory
    rw [if_neg (by omega), if_neg (by omega), ih (by omega) (by omega)]
    rfl

/-- The history is the longest end of the records that begins with the user and is within both limits. -/
theorem history_longest (file : List UInt8) : ∃ kept, history file = some (kept.map Record.message) ∧
      Longest (fun s => Fits historyMessageMax historyBytesMax (fun r : Record => textLen r.head + 1) 0 0 s ∧
        Begins (fun r => role r.head = roleUser) s) ((storedRecords file).map (Meta.record file)) kept := by
  have longest := @keepTurns_longest Record historyMessageMax historyBytesMax (fun r => textLen r.head + 1)
    (fun r => role r.head = roleUser) 0 0 ((storedRecords file).map (Meta.record file)) ⟨by decide, by decide⟩
  refine ⟨_, ?_, longest⟩
  have fits := longest.2.1.1
  rw [keepTurns_map] at fits ⊢
  unfold Fits at fits
  rw [zero_add, length_map] at fits
  unfold history
  dsimp only
  rw [map_map]
  exact copyHistory_all (le_of_eq (zero_add _)) (by rw [zero_add]; exact fits.1)

/-- What is read of a conversation fits its buffers, and a visitor is given every leading record, just when
storage is mounted from the card or no record is longer than the limit of the flash. -/
theorem visit_iff (id : List UInt8) (file backup : Option (List UInt8)) (mounted : Bool) :
    (∃ error, visit id file backup mounted = .error error ∧ loadHistory id file backup = .error error) ∨
      ∃ content rs, openRead id file backup = some content ∧
        Leading content (min recordMax (recordCount content)) headerSize rs ∧
          (visit id file backup mounted = .ok (some (rs.map Record.message)) ∧
            (∃ kept, kept <:+ rs ∧ loadHistory id file backup = .ok (some (kept.map Record.message))) ↔
              mounted = true ∨ ∀ r ∈ rs, r.text.length ≤ flashMessageMax) := by
  unfold visit loadHistory
  split
  · exact .inl ⟨_, rfl, rfl⟩
  cases opened : openRead id file backup with
  | none => exact .inl ⟨_, rfl, rfl⟩
  | some content =>
    obtain ⟨leading, placed⟩ := @readRecords_leading content (min recordMax (recordCount content)) headerSize
    obtain ⟨kept, sent, part, -⟩ := history_longest content
    refine .inr ⟨content, _, rfl, leading, ?_⟩
    have read := @visitRecords_iff content (messageLimit mounted + 1) (storedRecords content)
    dsimp only
    rw [Except.ok.injEq, and_iff_left ⟨kept, part, by rw [sent]⟩, map_map]
    refine read.trans ?_
    rw [forall_mem_map]
    constructor
    · intro fits
      cases mounted with
      | true => exact .inl rfl
      | false =>
        refine .inr fun m there => ?_
        rw [← (placed m there).valid.length]
        exact Nat.le_of_succ_le_succ (fits m there)
    · rintro (rfl | short) m there
      · have bound := (placed m there).valid.short
        rw [← (placed m there).valid.length] at bound
        exact Nat.succ_le_succ bound
      · have bound := short m there
        rw [← (placed m there).valid.length] at bound
        cases mounted with
        | false => exact Nat.succ_le_succ bound
        | true => exact Nat.succ_le_succ (bound.trans (by decide))

theorem field_eq {bytes : List UInt8} {offset count value : Nat} (there : (bytes.drop offset).take count = littleEndian count value)
    (small : value < 256 ^ count) : field bytes offset count = value := by
  rw [field, there, fromLittleEndian_write, Nat.mod_eq_of_lt small]

theorem writeRecord_valid {role : Nat} {text : List UInt8} (known : role ≤ roleTool) (full : text ≠ [])
    (short : text.length ≤ sdMessageMax) (timestamp : Nat) : (writeRecord role text timestamp).Valid where
  head := rfl
  magic := field_eq rfl (by decide)
  known := (@field_eq _ _ _ role rfl (by unfold roleTool at known; omega)).trans_le known
  full := full
  short := short
  length := @field_eq _ _ _ text.length rfl (by unfold sdMessageMax at short; omega)
  crc := field_eq rfl (UInt32.toNat_lt _)

section Header
variable {fields rest id : List UInt8}

theorem field_append {offset count : Nat} (within : offset + count ≤ fields.length) :
    field (fields ++ rest) offset count = field fields offset count := by
  unfold field
  rw [drop_append_of_le_length (by omega), take_append_of_le_length (by rw [length_drop]; omega)]

theorem headerValid_append (length : fields.length = 336) (more : 4 ≤ rest.length) (magic : field fields 0 4 = conversationMagic)
    (version : field fields 4 2 = 1) (size : field fields 6 2 = headerSize) (few : recordCount fields ≤ recordMax)
    (valid : idValid id = true) (name : headerId fields = id) :
    headerValid id (fields ++ (littleEndian 4 (headerCrc fields).toNat ++ rest)) = true := by
  generalize bytes : fields ++ (littleEndian 4 (headerCrc fields).toNat ++ rest) = file
  have within : ∀ offset count, offset + count ≤ 336 → field file offset count = field fields offset count := by
    intro offset count fits
    rw [← bytes]
    exact field_append (length ▸ fits)
  have long : headerSize ≤ file.length := by
    rw [← bytes, length_append, length_append, length, littleEndian, length_map, length_range]
    unfold headerSize
    omega
  have named : headerId file = id := by
    rw [← name, ← bytes]
    unfold headerId
    rw [drop_append_of_le_length (by omega), take_append_of_le_length (by rw [length_drop, length]; decide)]
  have crc : field file 336 4 = (headerCrc file).toNat := by
    have same : headerCrc file = headerCrc fields := by
      rw [headerCrc, headerCrc, ← bytes, take_left' length, take_of_length_le (le_of_eq length)]
    rw [same]
    exact field_eq (by rw [← bytes, drop_left' length]; rfl) (UInt32.toNat_lt _)
  simp only [headerValid, recordCount, long, named, valid, crc, within 0 4 (by decide), within 4 2 (by decide),
    within 6 2 (by decide), within 26 2 (by decide), magic, version, size, decide_true, Bool.and_true]
  exact decide_eq_true few

end Header

def oneFields : List UInt8 :=
  littleEndian 4 conversationMagic ++ littleEndian 2 1 ++ littleEndian 2 headerSize ++ List.replicate 18 0 ++
    [1, 0, 0, 0, 0, 0, 0x31] ++ List.replicate 303 0

/-- A file of the conversation "1" with one record of the user. -/
def oneRecord (text : List UInt8) : List UInt8 :=
  oneFields ++ (littleEndian 4 (headerCrc oneFields).toNat ++ (List.replicate 4 0 ++ (writeRecord roleUser text 0).bytes))

theorem oneRecord_open (text : List UInt8) : openRead [0x31] (some (oneRecord text)) none = some (oneRecord text) := by
  have length : oneFields.length = 336 := by
    unfold oneFields littleEndian
    simp only [length_append, length_replicate, length_map, length_range, length_cons, length_nil]
  have valid : headerValid [0x31] (oneRecord text) = true := by
    refine headerValid_append length ?_ (field_eq rfl (by decide)) (field_eq rfl (by decide)) (field_eq rfl (by decide))
      (by decide) rfl rfl
    rw [length_append, length_replicate]
    exact Nat.le_add_right ..
  simp [openRead, valid]

theorem oneRecord_stored {text : List UInt8} (full : text ≠ []) (short : text.length ≤ sdMessageMax) :
    storedRecords (oneRecord text) = [⟨headerSize, (writeRecord roleUser text 0).head⟩] := by
  have first : readRecord (oneRecord text) headerSize = some (writeRecord roleUser text 0) :=
    readRecord_iff.mpr ⟨writeRecord_valid (by decide) full short 0, prefix_rfl⟩
  have one : storedRecords (oneRecord text) = readRecords (oneRecord text) 1 headerSize := rfl
  rw [one, readRecords, first]
  rfl

/-- The text of a record from the card does not fit the buffer. -/
theorem visit_overrun : ¬∀ (id : List UInt8) (file backup : Option (List UInt8)) (mounted : Bool) (content : List UInt8)
    (rs : List Record), idValid id = true → openRead id file backup = some content →
      Leading content (min recordMax (recordCount content)) headerSize rs →
        visit id file backup mounted = .ok (some (rs.map Record.message)) := by
  intro claim
  obtain ⟨text, length⟩ : ∃ text : List UInt8, text.length = flashMessageMax + 1 :=
    ⟨List.replicate (flashMessageMax + 1) 0x61, length_replicate⟩
  have full : text ≠ [] := fun none => by rw [none] at length; cases length
  have short : text.length ≤ sdMessageMax := by rw [length]; decide
  have read := claim [0x31] (some (oneRecord text)) none false (oneRecord text) _ rfl (oneRecord_open text)
    (readRecords_leading _ _).1
  unfold visit at read
  rw [if_neg (by decide), oneRecord_open, map_map] at read
  have fits := visitRecords_iff.mp (Except.ok.inj read) _ (by rw [oneRecord_stored full short]; exact mem_singleton_self _)
  rw [(@writeRecord_valid roleUser text (by decide) full short 0).length] at fits
  have bound : text.length + 1 ≤ flashMessageMax + 1 := fits
  omega

end SolarOs.Agent
