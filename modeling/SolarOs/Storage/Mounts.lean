import SolarOs.Esp
import SolarOs.Library.CString

/-! The mount a path belongs to: RAM filesystems, the volumes of the SD card, the flash. -/
namespace SolarOs.StoragePath
open List

/-- The character `/`. -/
def slash : UInt8 := 47

def ramfsMountPointMax : Nat := 16

def mountPointMax : Nat := 32

/-- A mount point in a buffer of `size` bytes. -/
structure MountPoint (size : Nat) where
  path : CString
  fits : path.strlen < size

structure Block where
  mounted : Bool
  mountPoint : MountPoint mountPointMax

structure Removable where
  available : Bool
  isMounted : Bool
  blocks : List Block

/-- The mounts: the slots of the RAM filesystems, the card when the build has one
(`SOLAR_OS_STORAGE_HAS_REMOVABLE`), and the flash with the mount point it has when it is
mounted. -/
structure Mounts where
  ramfs : List (Option (MountPoint ramfsMountPointMax))
  removable : Option Removable
  boardHasSd : Bool
  flash : Option (MountPoint mountPointMax)
  flashSizeBytes : Nat

/-- `"/"`. -/
def rootMountPoint : MountPoint mountPointMax where
  path := ⟨[slash], by decide⟩
  fits := by decide

/-- `SD_CARD_MOUNT_POINT`, `"/sdcard"`. -/
def sdMountPoint : MountPoint mountPointMax where
  path := ⟨[47, 115, 100, 99, 97, 114, 100], by decide⟩
  fits := by decide

/-- `FLASH_STORAGE_MOUNT_POINT`, `"/flash"`. -/
def flashMountPoint : MountPoint mountPointMax where
  path := ⟨[47, 102, 108, 97, 115, 104], by decide⟩
  fits := by decide

def pathIsOnMount (path mountPoint : CString) : Bool :=
  if mountPoint.bytes = [] then false
  else if mountPoint.bytes = [slash] then path.bytes.head? = some slash
  else
    let len := mountPoint.strlen
    path.bytes.take len = mountPoint.bytes ∧
      (path.bytes.drop len = [] ∨ (path.bytes.drop len).head? = some slash)

/-- `ramfs_path_is_on_mount`, the same again. -/
def ramfsPathIsOnMount (path mountPoint : CString) : Bool := pathIsOnMount path mountPoint

/-- A longer mount of a RAM filesystem replaces the best one so far. -/
def ramfsKeepLonger (path : CString) (best slot : Option (MountPoint ramfsMountPointMax)) :
    Option (MountPoint ramfsMountPointMax) :=
  match slot with
  | none => best
  | some mount =>
    if mount.path.strlen > best.elim 0 (·.path.strlen) ∧ ramfsPathIsOnMount path mount.path then some mount
    else best

def ramfsFindPathMount (slots : List (Option (MountPoint ramfsMountPointMax))) (path : CString) :
    Option (MountPoint ramfsMountPointMax) :=
  slots.foldl (ramfsKeepLonger path) none

def ramfsPathMountPoint (slots : List (Option (MountPoint ramfsMountPointMax))) (path : CString)
    (mountPointLen : Nat) : Except EspErr CString :=
  if mountPointLen = 0 then .error .invalidArg
  else
    match ramfsFindPathMount slots path with
    | none => .error .notFound
    | some mount => if mount.path.strlen ≥ mountPointLen then .error .invalidSize else .ok mount.path

def Removable.sdIsMounted (card : Removable) : Bool := card.available && card.isMounted

section
variable (s : Mounts)

def Mounts.flashDefaultMountPoint : MountPoint mountPointMax :=
  if s.boardHasSd then flashMountPoint else rootMountPoint

def Mounts.flashPrefixIsReserved : Bool := s.flashDefaultMountPoint.path ≠ rootMountPoint.path

/-- `solar_os_storage_get_block` for all indices: the blocks of the card and that of the flash. -/
def Mounts.blocks (card : Removable) : List Block :=
  card.blocks ++
    if s.flashSizeBytes > 0 then
      [⟨s.flash.isSome, s.flash.getD ⟨.empty, by decide⟩⟩]
    else []

def keepLonger (path best mountPoint : CString) : CString :=
  if mountPoint.strlen > best.strlen ∧ pathIsOnMount path mountPoint then mountPoint else best

def Mounts.bestRamfs (path : CString) : Except EspErr CString :=
  match ramfsPathMountPoint s.ramfs path ramfsMountPointMax with
  | .ok mount => if mount.strlen ≥ mountPointMax then .error .invalidSize else .ok mount
  | .error _ => .ok .empty

def bestDefault (card : Removable) (path best : CString) : CString :=
  if card.sdIsMounted ∧ pathIsOnMount path sdMountPoint.path then sdMountPoint.path else best

variable (path best : CString)

def bestBlock (blocks : List Block) : CString :=
  blocks.foldl (fun best block =>
    if block.mounted = false ∨ block.mountPoint.path.bytes = [] then best
    else keepLonger path best block.mountPoint.path) best

/-- What is built with `SOLAR_OS_STORAGE_HAS_REMOVABLE`. -/
def Mounts.bestCard : CString :=
  match s.removable with
  | none => best
  | some card => bestBlock path (bestDefault card path best) (s.blocks card)

def Mounts.bestFlash : CString :=
  match s.flash with
  | some mount => keepLonger path best mount.path
  | none => if s.flashPrefixIsReserved then keepLonger path best s.flashDefaultMountPoint.path else best

def Mounts.pathMountPoint (path : CString) (mountPointLen : Nat) : Except EspErr CString :=
  if path.bytes = [] ∨ mountPointLen = 0 then .error .invalidArg
  else do
    let best ← s.bestRamfs path
    let best := s.bestFlash path (s.bestCard path best)
    if best.bytes = [] then .error .notFound
    else if best.strlen ≥ mountPointLen then .error .invalidSize
    else .ok best

end

variable {s : Mounts} {path m best : CString} {P Q : CString → Prop}

/-- A mount point covers a path that it equals or that goes on with a slash after it, and the
root covers all. -/
def Covers (m path : CString) : Prop :=
  m.bytes = [slash] ∨ m = path ∨ m.bytes ++ [slash] <+: path.bytes

section
variable (s : Mounts)

section
variable (m : CString)

def Mounts.OnRamfs : Prop := ∃ mount, some mount ∈ s.ramfs ∧ mount.path = m

def Mounts.OnDefault : Prop :=
  ∃ card, s.removable = some card ∧ card.sdIsMounted ∧ m = sdMountPoint.path

def Mounts.OnPartition : Prop :=
  ∃ card, s.removable = some card ∧ ∃ block ∈ card.blocks, block.mounted ∧ block.mountPoint.path = m

def Mounts.OnFlash : Prop :=
  match s.flash with
  | some mount => mount.path = m
  | none => s.flashPrefixIsReserved ∧ s.flashDefaultMountPoint.path = m

def Mounts.Elsewhere : Prop := s.OnDefault m ∨ s.OnPartition m ∨ s.OnFlash m

def Mounts.Active : Prop := s.OnRamfs m ∨ s.Elsewhere m

end

def Candidate (path m : CString) : Prop := m.bytes ≠ [] ∧ Covers m path

structure Longest (path m : CString) : Prop where
  active : s.Active m
  candidate : Candidate path m
  longest : ∀ other, s.Active other → Candidate path other → other.strlen ≤ m.strlen

/-- The longest active mount point that covers the path is returned if the buffer is large
enough for it, and `ESP_ERR_NOT_FOUND` just when there is none. -/
def FindsLongest (path : CString) : Prop :=
  ∀ size, 0 < size →
    (∀ m, Longest s path m →
      s.pathMountPoint path size = if m.strlen < size then .ok m else .error .invalidSize) ∧
    (s.pathMountPoint path size = .error .notFound ↔ ¬ ∃ m, s.Active m ∧ Candidate path m)

def UnderDefault (path : CString) : Prop := ∃ m, s.OnDefault m ∧ Candidate path m

/-- A RAM filesystem is mounted below the default volume, and on the path nothing else is
mounted as deep. -/
def Hidden (path : CString) : Prop :=
  UnderDefault s path ∧
    ∃ m, s.OnRamfs m ∧ Candidate path m ∧
      ∀ other, s.Elsewhere other → Candidate path other → other.strlen < m.strlen

structure Best (P : CString → Prop) (path best : CString) : Prop where
  found : best.bytes ≠ [] → P best ∧ pathIsOnMount path best
  longest : ∀ m, P m → pathIsOnMount path m → m.strlen ≤ best.strlen

section
variable (absolute : path.bytes.head? = some slash)
include absolute

theorem pathIsOnMount_iff : pathIsOnMount path m ↔ Candidate path m := by
  unfold pathIsOnMount Candidate Covers
  split_ifs with none root
  · exact iff_of_false id fun h => h.1 none
  · exact iff_of_true (by simpa using absolute) ⟨none, .inl root⟩
  · simp only [Bool.decide_and, Bool.and_eq_true, decide_eq_true_eq, root, false_or]
    constructor
    · rintro ⟨front, ends⟩
      have whole := take_append_drop m.strlen path.bytes
      rw [front] at whole
      refine ⟨none, ends.imp (fun last => CString.ext_bytes ?_) fun more => ?_⟩
      · rw [← whole, last, append_nil]
      · obtain ⟨rest, next⟩ := head?_eq_some_iff.mp more
        refine ⟨rest, ?_⟩
        rw [append_assoc, singleton_append, ← next, whole]
    · rintro ⟨-, rfl | ⟨rest, whole⟩⟩
      · exact ⟨take_length, .inl drop_length⟩
      · rw [← whole, append_assoc, CString.strlen, take_left, drop_left]
        exact ⟨rfl, .inr rfl⟩

theorem Candidate.front (h : Candidate path m) : m.bytes <+: path.bytes := by
  rcases h.2 with root | rfl | more
  · obtain ⟨rest, whole⟩ := head?_eq_some_iff.mp absolute
    rw [root, whole]
    exact prefix_append [slash] rest
  · exact prefix_rfl
  · exact (prefix_append _ _).trans more

theorem Candidate.unique (h : Candidate path m)
    {other : CString} (h' : Candidate path other) (same : m.strlen = other.strlen) : m = other := by
  apply CString.ext_bytes
  exact (prefix_of_prefix_length_le (h.front absolute) (h'.front absolute) (le_of_eq same)).eq_of_length same

end

theorem nonempty_of_on (h : pathIsOnMount path m) : m.bytes ≠ [] := by
  intro none
  unfold pathIsOnMount at h
  rw [if_pos none] at h
  cases h

theorem Best.congr (same : ∀ m, P m ↔ Q m) (h : Best P path best) : Best Q path best where
  found some := ⟨(same _).mp (h.found some).1, (h.found some).2⟩
  longest m active := h.longest m ((same m).mpr active)

theorem Best.none : Best (fun _ => False) path .empty where
  found some := absurd rfl some
  longest _ active := active.elim

theorem strlen_pos (h : m.bytes ≠ []) : 0 < m.strlen := length_pos_iff.mpr h

theorem Best.keepLonger (h : Best P path best) (x : CString) :
    Best (fun m => P m ∨ m = x) path (keepLonger path best x) := by
  unfold StoragePath.keepLonger
  split_ifs with better
  · constructor
    · exact fun _ => ⟨.inr rfl, better.2⟩
    · rintro m (active | rfl) covers
      · exact le_trans (h.longest m active covers) (le_of_lt better.1)
      · exact le_rfl
  · constructor
    · exact fun some => ⟨.inl (h.found some).1, (h.found some).2⟩
    · rintro m (active | rfl) covers
      · exact h.longest m active covers
      · exact not_lt.mp fun longer => better ⟨longer, covers⟩

theorem Best.blocks (h : Best P path best) (blocks : List Block) :
    Best (fun m => P m ∨ ∃ block ∈ blocks, block.mounted ∧ block.mountPoint.path = m) path
      (bestBlock path best blocks) := by
  induction blocks generalizing best P with
  | nil => exact h.congr fun m => by simp
  | cons block blocks ih =>
    unfold bestBlock
    rw [foldl_cons]
    split_ifs with skip
    · refine ⟨fun some => ?_, fun m active covers => ?_⟩
      · obtain ⟨active, covers⟩ := (ih h).found some
        exact ⟨active.imp_right fun ⟨other, there, rest⟩ => ⟨other, mem_cons_of_mem _ there, rest⟩, covers⟩
      · refine (ih h).longest m ?_ covers
        refine active.imp_right fun ⟨other, there, mounted, same⟩ => ?_
        rcases mem_cons.mp there with rfl | later
        · rcases skip with unmounted | empty
          · rw [unmounted] at mounted
            cases mounted
          · rw [same] at empty
            exact absurd empty (nonempty_of_on covers)
        · exact ⟨other, later, mounted, same⟩
    · rw [not_or] at skip
      refine (ih (h.keepLonger block.mountPoint.path)).congr fun m => ?_
      have mounted : block.mounted = true := by simpa using skip.1
      simp only [mem_cons, exists_eq_or_imp, mounted, true_and, or_assoc, @eq_comm _ m]

theorem ramfsFindPathMount_best (slots : List (Option (MountPoint ramfsMountPointMax))) (start : Option (MountPoint ramfsMountPointMax))
    (h : Best P path (start.elim .empty (·.path))) :
    Best (fun m => P m ∨ ∃ mount, some mount ∈ slots ∧ mount.path = m) path
      ((slots.foldl (ramfsKeepLonger path) start).elim .empty (·.path)) := by
  induction slots generalizing start P with
  | nil => exact h.congr fun m => by simp
  | cons slot slots ih =>
    rw [foldl_cons]
    cases slot with
    | none => exact (ih start h).congr fun m => by simp
    | some mount =>
      have kept : (ramfsKeepLonger path start (some mount)).elim .empty (·.path) =
          keepLonger path (start.elim .empty (·.path)) mount.path := by
        cases start <;> exact apply_ite (Option.elim · CString.empty MountPoint.path) _ _ _
      have next := h.keepLonger mount.path
      rw [← kept] at next
      refine (ih _ next).congr fun m => ?_
      simp only [mem_cons, Option.some.injEq, or_assoc, or_and_right, exists_or, exists_eq_left, @eq_comm _ m]

def Mounts.bestMount (path : CString) : CString :=
  s.bestFlash path (s.bestCard path ((ramfsFindPathMount s.ramfs path).elim .empty (·.path)))

theorem bestRamfs_eq (path : CString) :
    s.bestRamfs path = .ok ((ramfsFindPathMount s.ramfs path).elim .empty (·.path)) := by
  unfold Mounts.bestRamfs ramfsPathMountPoint
  rw [if_neg (by decide)]
  cases ramfsFindPathMount s.ramfs path with
  | none => rfl
  | some mount =>
    have fits : ¬ mount.path.strlen ≥ ramfsMountPointMax := not_le.mpr mount.fits
    have fits' : ¬ mount.path.strlen ≥ mountPointMax := fun long => fits (le_trans (by decide) long)
    simp only [if_neg fits, if_neg fits', Option.elim_some]

end

theorem pathMountPoint_eq (some : path.bytes ≠ []) {size : Nat} (room : 0 < size) : s.pathMountPoint path size =
      if (s.bestMount path).bytes = [] then .error .notFound
      else if (s.bestMount path).strlen < size then .ok (s.bestMount path)
      else .error .invalidSize := by
  unfold Mounts.pathMountPoint
  rw [if_neg (fun bad => bad.elim some (ne_of_gt room)), bestRamfs_eq]
  have copied : (if size ≤ (s.bestMount path).strlen then .error .invalidSize else .ok (s.bestMount path)) =
      if (s.bestMount path).strlen < size then Except.ok (s.bestMount path) else .error EspErr.invalidSize := by
    simp only [← not_lt, ite_not]
  rw [← copied]
  rfl

theorem bestFlash_best (h : Best P path best) : Best (fun m => P m ∨ s.OnFlash m) path (s.bestFlash path best) := by
  unfold Mounts.bestFlash Mounts.OnFlash
  cases s.flash with
  | some mount => exact (h.keepLonger mount.path).congr fun m => or_congr Iff.rfl eq_comm
  | none =>
    simp only
    split_ifs with reserved
    · exact (h.keepLonger _).congr fun m => by simp only [reserved, true_and, @eq_comm _ m]
    · exact h.congr fun m => by simp only [reserved, Bool.false_eq_true, false_and, or_false]

theorem onBlocks_iff {card : Removable} (has : s.removable = some card) (m : CString) :
    ((∃ block ∈ s.blocks card, block.mounted ∧ block.mountPoint.path = m) ∨ s.OnFlash m) ↔
      s.OnPartition m ∨ s.OnFlash m := by
  unfold Mounts.OnPartition Mounts.OnFlash Mounts.blocks
  simp only [has, Option.some.injEq, exists_eq_left']
  constructor
  · rintro (⟨block, there, mounted, same⟩ | flash)
    · rcases mem_append.mp there with card | flash
      · exact .inl ⟨block, card, mounted, same⟩
      · right
        split_ifs at flash
        · rw [mem_singleton.mp flash] at mounted same
          cases onFlash : s.flash with
          | none =>
            rw [onFlash] at mounted
            cases mounted
          | some mount =>
            rw [onFlash] at same
            exact same
        · cases flash
    · exact .inr flash
  · rintro (⟨block, there, rest⟩ | flash)
    · exact .inl ⟨block, mem_append_left _ there, rest⟩
    · exact .inr flash

theorem ramfs_best (s : Mounts) (path : CString) :
    Best s.OnRamfs path ((ramfsFindPathMount s.ramfs path).elim .empty (·.path)) :=
  (ramfsFindPathMount_best s.ramfs none Best.none).congr fun _ => iff_of_eq (false_or _)

def Mounts.Seen (s : Mounts) (path m : CString) : Prop :=
  (s.OnRamfs m ∧ ¬ ∃ m, s.OnDefault m ∧ pathIsOnMount path m) ∨ s.Elsewhere m

theorem bestMount_best (s : Mounts) (path : CString) : Best (s.Seen path) path (s.bestMount path) := by
  have ramfs := ramfs_best s path
  unfold Mounts.bestMount Mounts.bestCard
  cases has : s.removable with
  | none =>
    have noDefault : ∀ m, ¬ s.OnDefault m := fun m ⟨card, same, _⟩ => by rw [has] at same; cases same
    have noPartition : ∀ m, ¬ s.OnPartition m := fun m ⟨card, same, _⟩ => by rw [has] at same; cases same
    refine (bestFlash_best ramfs).congr fun m => ?_
    simp only [Mounts.Seen, Mounts.Elsewhere, noDefault, noPartition, false_and, exists_false,
      not_false_iff, and_true, false_or]
  | some card =>
    have default (m : CString) : s.OnDefault m ↔ card.sdIsMounted ∧ m = sdMountPoint.path := by
      simp only [Mounts.OnDefault, has, Option.some.injEq, exists_eq_left']
    simp only [bestDefault]
    split_ifs with onSd
    · have alone : Best (fun m => m = sdMountPoint.path) path sdMountPoint.path :=
        ⟨fun _ => ⟨rfl, onSd.2⟩, fun m same _ => le_of_eq (by rw [same])⟩
      refine (bestFlash_best (alone.blocks (s.blocks card))).congr fun m => ?_
      have under : ∃ m, s.OnDefault m ∧ pathIsOnMount path m := ⟨_, (default _).mpr ⟨onSd.1, rfl⟩, onSd.2⟩
      rw [or_assoc, onBlocks_iff has, ← and_iff_right (b := m = _) onSd.1, ← default, Mounts.Seen,
        not_iff_false_intro under, and_false, false_or, Mounts.Elsewhere]
    · have uncovered : ¬ ∃ m, s.OnDefault m ∧ pathIsOnMount path m := by
        rintro ⟨m, there, covers⟩
        obtain ⟨mounted, rfl⟩ := (default m).mp there
        exact onSd ⟨mounted, covers⟩
      have all := bestFlash_best (s := s) (ramfs.blocks (s.blocks card))
      refine ⟨fun some => ?_, fun m active covers => ?_⟩
      · obtain ⟨active, covers⟩ := all.found some
        refine ⟨?_, covers⟩
        rw [or_assoc, onBlocks_iff has] at active
        exact active.imp (fun ramfs => ⟨ramfs, uncovered⟩) Or.inr
      · refine all.longest m ?_ covers
        rw [or_assoc, onBlocks_iff has]
        rcases active with ramfs | default | other
        · exact .inl ramfs.1
        · exact absurd ⟨m, default, covers⟩ uncovered
        · exact .inr other

theorem Best.findsLongest (absolute : path.bytes.head? = some slash) (h : Best s.Active path (s.bestMount path)) :
    FindsLongest s path := by
  have some : path.bytes ≠ [] := ne_nil_of_mem (mem_of_mem_head? absolute)
  intro size room
  rw [pathMountPoint_eq some room]
  constructor
  · intro m longest
    have reached := h.longest m longest.active ((pathIsOnMount_iff absolute).mpr longest.candidate)
    have found : (s.bestMount path).bytes ≠ [] :=
      length_pos_iff.mp (lt_of_lt_of_le (strlen_pos longest.candidate.1) reached)
    obtain ⟨active, covers⟩ := h.found found
    have candidate := (pathIsOnMount_iff absolute).mp covers
    have same : m = s.bestMount path := longest.candidate.unique absolute candidate
      (le_antisymm reached (longest.longest _ active candidate))
    rw [if_neg found, same]
  · split_ifs with none fits
    · refine iff_of_true rfl ?_
      rintro ⟨m, active, candidate⟩
      have reached := h.longest m active ((pathIsOnMount_iff absolute).mpr candidate)
      unfold CString.strlen at reached
      rw [none] at reached
      exact candidate.1 (length_eq_zero_iff.mp (Nat.le_zero.mp reached))
    all_goals
      obtain ⟨active, covers⟩ := h.found none
      refine iff_of_false (by simp) ?_
      exact fun nothing => nothing ⟨_, active, (pathIsOnMount_iff absolute).mp covers⟩

/-- The lookup finds the longest mount point unless it is that of a RAM filesystem below the
default volume of the card. -/
theorem findsLongest_iff (s : Mounts) (path : CString) (absolute : path.bytes.head? = some slash) :
    FindsLongest s path ↔ ¬ Hidden s path := by
  have best := bestMount_best s path
  have some : path.bytes ≠ [] := ne_nil_of_mem (mem_of_mem_head? absolute)
  have on {m : CString} : pathIsOnMount path m ↔ Candidate path m := pathIsOnMount_iff absolute
  have under : (∃ m, s.OnDefault m ∧ pathIsOnMount path m) ↔ UnderDefault s path :=
    exists_congr fun m => and_congr_right' on
  constructor
  · rintro finds ⟨covered, m, onRamfs, candidate, deepest⟩
    have ramfs := ramfs_best s path
    generalize (ramfsFindPathMount s.ramfs path).elim .empty (·.path) = deep at ramfs
    have reached := ramfs.longest m onRamfs (on.mpr candidate)
    have found := length_pos_iff.mp (lt_of_lt_of_le (strlen_pos candidate.1) reached)
    obtain ⟨there, covers⟩ := ramfs.found found
    have longest : Longest s path deep := by
      refine ⟨.inl there, on.mp covers, fun other active candidate => ?_⟩
      rcases active with onRamfs | elsewhere
      · exact ramfs.longest other onRamfs (on.mpr candidate)
      · exact le_trans (le_of_lt (deepest other elsewhere candidate)) reached
    have returned := (finds (deep.strlen + 1) (Nat.succ_pos _)).1 deep longest
    rw [if_pos (Nat.lt_succ_self _), pathMountPoint_eq some (Nat.succ_pos _)] at returned
    split_ifs at returned with none fits
    cases returned
    obtain ⟨ramfs | elsewhere, covers⟩ := best.found none
    · exact ramfs.2 (under.mpr covered)
    · exact absurd (deepest _ elsewhere (on.mp covers)) (not_lt.mpr reached)
  · intro clear
    refine Best.findsLongest absolute ⟨fun some => ?_, fun m active covers => ?_⟩
    · obtain ⟨active, covers⟩ := best.found some
      exact ⟨active.imp_left And.left, covers⟩
    · rcases active with onRamfs | elsewhere
      · by_cases covered : UnderDefault s path
        · by_contra longer
          refine clear ⟨covered, m, onRamfs, on.mp covers, fun other elsewhere candidate => ?_⟩
          exact lt_of_le_of_lt (best.longest other (.inr elsewhere) (on.mpr candidate)) (not_le.mp longer)
        · exact best.longest m (.inl ⟨onRamfs, fun there => covered (under.mp there)⟩) covers
      · exact best.longest m (.inr elsewhere) covers

/-- A card at `/sdcard`, a RAM filesystem at `/sdcard/r`. -/
def ramOnCard : Mounts where
  ramfs := [some ⟨⟨[47, 115, 100, 99, 97, 114, 100, 47, 114], by decide⟩, by decide⟩, none, none, none]
  removable := some ⟨true, true, [⟨true, sdMountPoint⟩]⟩
  boardHasSd := true
  flash := none
  flashSizeBytes := 4096

/-- `/sdcard/r/f`. -/
def fileInRam : CString := ⟨[47, 115, 100, 99, 97, 114, 100, 47, 114, 47, 102], by decide⟩

/-- `/flash/f`. -/
def fileInFlash : CString := ⟨[47, 102, 108, 97, 115, 104, 47, 102], by decide⟩

theorem findsLongest_iff_flash : FindsLongest ramOnCard fileInFlash ↔ ¬ Hidden ramOnCard fileInFlash :=
  findsLongest_iff ramOnCard fileInFlash (by decide)

/-- The file in the RAM filesystem is taken for one on the card. -/
theorem ramOnCard_hidden : ¬ ∀ s path, path.bytes.head? = some slash → FindsLongest s path := by
  intro claim
  have hidden : Hidden ramOnCard fileInRam := by
    refine ⟨⟨sdMountPoint.path, ⟨_, rfl, rfl, rfl⟩, by decide, .inr (.inr (by decide))⟩,
      ⟨[47, 115, 100, 99, 97, 114, 100, 47, 114], by decide⟩, ⟨_, mem_cons_self, rfl⟩,
      ⟨by decide, .inr (.inr (by decide))⟩, ?_⟩
    rintro other (⟨card, same, -, rfl⟩ | ⟨card, same, block, there, -, rfl⟩ | ⟨-, rfl⟩) -
    · decide
    · cases same
      rw [mem_singleton.mp there]
      decide
    · decide
  exact (findsLongest_iff ramOnCard fileInRam (by decide)).mp (claim _ _ (by decide)) hidden

end SolarOs.StoragePath
