import SolarOs.Ramfs.OpenAtomic

/-! The calls on open files, each as what it does to the bytes of one file and to one
descriptor. -/
namespace SolarOs.Ramfs
open ByteMemory FileBytes

namespace Mount
variable {m n : Mount} {place : Place} {path : List UInt8} {node : Node} {fd : Int} {slot : Fin maxOpenFiles}
  {file : RamfsFile}

theorem getFile_ok (h : m.getFile fd = .ok (slot, file)) : m.files slot = some file := by
  unfold getFile at h
  split at h
  · split at h
    · exact nomatch h
    · rename_i some
      cases h
      exact some
  · exact nomatch h

theorem Sound.moveFd (h : m.Sound) (there : m.files slot = some file) (offset : Nat) :
    (m.setFile slot (some { file with offset })).Sound := by
  apply h.setFile
  rintro opened ⟨⟩
  exact h.files slot file there

theorem atEnd_eq (m : Mount) (file : RamfsFile) : m.atEnd file = { file with offset := (m.atEnd file).offset } := by
  unfold atEnd
  split <;> rfl

inductive Reads (m : Mount) (fd : Int) (size : Nat) : Mount × Except Errno (List UInt8) → Prop
  | refused {errno : Errno} : Reads m fd size (m, .error errno)
  | read {slot : Fin maxOpenFiles} {file : RamfsFile} : m.getFile fd = .ok (slot, file) →
      file.flags &&& O_ACCMODE ≠ O_WRONLY →
      Reads m fd size (m.setFile slot (some { file with
          offset := file.offset + (readAt (m.contents file.node) file.offset size).length }),
        .ok (readAt (m.contents file.node) file.offset size))

theorem vfsRead_ok (found : m.getFile fd = .ok (slot, file)) (readable : file.flags &&& O_ACCMODE ≠ O_WRONLY)
    (size : Nat) : m.vfsRead fd size =
      (m.setFile slot (some { file with
          offset := file.offset + (readAt (m.contents file.node) file.offset size).length }),
        .ok (readAt (m.contents file.node) file.offset size)) := by
  unfold vfsRead
  rw [found]
  simp only
  rw [if_neg readable]
  by_cases past : (m.node file.node).size ≤ file.offset
  · have none : readAt (m.contents file.node) file.offset size = [] := by
      unfold readAt
      rw [List.drop_eq_nil_of_le (by rw [length_contents]; exact past), List.take_nil]
    have same : m.setFile slot (some { file with offset := file.offset + 0 }) = m := by
      unfold setFile
      simp only [add_zero]
      rw [← getFile_ok found, Function.update_eq_self]
    rw [if_pos past, none, List.length_nil, same]
  · have bytes : load m.heap.memory ((m.node file.node).data + file.offset) (min size ((m.node file.node).size - file.offset)) =
        readAt (m.contents file.node) file.offset size := load_readAt _ _ (Nat.le_of_not_le past)
    have length : (readAt (m.contents file.node) file.offset size).length =
        min size ((m.node file.node).size - file.offset) := by
      rw [← bytes, load_length]
    rw [if_neg past, length, ← bytes]

theorem vfsRead_cases (m : Mount) (fd : Int) (size : Nat) : Reads m fd size (m.vfsRead fd size) := by
  cases found : m.getFile fd with
  | error errno =>
    unfold vfsRead
    rw [found]
    exact .refused
  | ok open_ =>
    obtain ⟨slot, file⟩ := open_
    by_cases writeOnly : file.flags &&& O_ACCMODE = O_WRONLY
    · unfold vfsRead
      rw [found]
      simp only
      rw [if_pos writeOnly]
      exact .refused
    · rw [vfsRead_ok found writeOnly size]
      exact .read found writeOnly

theorem Refilled.trans {m' m'' : Mount} {bytes bytes' : List UInt8} (h : Refilled m m' place bytes)
    (h' : Refilled m' m'' place bytes') : Refilled m m'' place bytes' :=
  ⟨h'.sound, h.same.trans h'.same, fun p other => (h'.nodes p other).trans (h.nodes p other), h'.files.trans h.files,
    h'.contents, fun p other => (h'.others p other).trans (h.others p other)⟩

theorem putBytes_eq (there : m.nodes file.node = some node) {bytes : List UInt8}
    (fits : file.offset + bytes.length ≤ node.size) : m.putBytes slot file bytes =
      ({ m with heap := { m.heap with memory := store m.heap.memory (node.data + file.offset) bytes } } : Mount).setFile
        slot (some { file with offset := file.offset + bytes.length }) := by
  have same : { node with size := max node.size (file.offset + bytes.length) } = node :=
    congrArg (fun size => { node with size }) (Nat.max_eq_left fits)
  unfold putBytes
  simp only [node_of_some there]
  rw [same]
  unfold setNode setFile
  simp only [Mount.mk.injEq, true_and, and_true]
  rw [← there, Function.update_eq_self]

theorem writeAt_resized {old bytes : List UInt8} {offset : Nat} (grows : old.length < offset + bytes.length) :
    writeAt (resized old (offset + bytes.length)) offset bytes = writeAt old offset bytes := by
  unfold writeAt
  rw [if_neg (by rw [length_resized]; exact lt_irrefl _), if_pos grows]

/-- What a write call can do. -/
inductive Writes (m : Mount) (fd : Int) (bytes : List UInt8) : Mount × Except Errno Nat → Prop
  | refused {errno : Errno} : (∀ slot file, m.getFile fd = .ok (slot, file) → file.flags &&& O_ACCMODE = O_RDONLY) →
      Writes m fd bytes (m, .error errno)
  | failed {slot : Fin maxOpenFiles} {file : RamfsFile} {errno : Errno} : m.getFile fd = .ok (slot, file) →
      file.flags &&& O_ACCMODE ≠ O_RDONLY →
      Writes m fd bytes (m.setFile slot (some (m.atEnd file)), .error errno)
  | wrote {slot : Fin maxOpenFiles} {file : RamfsFile} {n : Mount} : m.getFile fd = .ok (slot, file) →
      file.flags &&& O_ACCMODE ≠ O_RDONLY →
      Refilled (m.setFile slot (some (m.atEnd file))) n file.node
        (writeAt (m.contents file.node) (m.atEnd file).offset bytes) →
      Writes m fd bytes (n.setFile slot (some { file with offset := (m.atEnd file).offset + bytes.length }), .ok bytes.length)

theorem Sound.vfsWrite (h : m.Sound) (fd : Int) (bytes : List UInt8) : Writes m fd bytes (m.vfsWrite fd bytes) := by
  unfold Mount.vfsWrite
  cases found : m.getFile fd with
  | error errno => exact .refused fun _ _ opened => nomatch found.symm.trans opened
  | ok open_ =>
    obtain ⟨slot, file⟩ := open_
    simp only
    by_cases readOnly : file.flags &&& O_ACCMODE = O_RDONLY
    · rw [if_pos readOnly]
      refine .refused fun _ _ opened => ?_
      cases found.symm.trans opened
      exact readOnly
    · rw [if_neg readOnly]
      by_cases big : sizeMax - (m.atEnd file).offset < bytes.length
      · rw [if_pos big]
        exact .failed found readOnly
      · rw [if_neg big]
        have opened := getFile_ok found
        obtain ⟨node, there, plain⟩ := h.files slot file opened
        have same : (m.atEnd file).node = file.node := by rw [atEnd_eq]
        generalize moved : m.setFile slot (some (m.atEnd file)) = m₁
        have sound : m₁.Sound := by
          rw [← moved, atEnd_eq]
          exact h.moveFd opened _
        have sits : m₁.nodes file.node = some node := moved ▸ there
        have contents : m₁.contents = m.contents := moved ▸ rfl
        have length : (m.contents file.node).length = node.capacity := by
          rw [length_contents, node_of_some there, (h.sized _ _ there).full]
        rw [same, node_of_some sits]
        -- what is stored once there is room
        have stores : ∀ {n : Mount} {node' : Node}, n.Sound → n.nodes file.node = some node' → node'.isDir = false →
            (m.atEnd file).offset + bytes.length ≤ node'.size → ∃ n',
              n.putBytes slot (m.atEnd file) bytes =
                n'.setFile slot (some { file with offset := (m.atEnd file).offset + bytes.length }) ∧
              Refilled n n' file.node (writeAt (n.contents file.node) (m.atEnd file).offset bytes) := by
          intro n node' sound' sits' plain' fits
          refine ⟨_, ?_, sound'.storeBytes sits' plain' fits⟩
          rw [← same] at sits'
          rw [putBytes_eq sits' fits, same]
          rw [atEnd_eq]
        by_cases grows : node.capacity < (m.atEnd file).offset + bytes.length
        · rw [if_pos grows]
          rcases sound.resizeNode sits ((m.atEnd file).offset + bytes.length) with ⟨errno, fails⟩ | ⟨n, gives, -, refilled⟩
          · rw [fails, ← moved]
            exact .failed found readOnly
          · obtain ⟨node', sits', bare⟩ := refilled.same.new sits
            have size : node'.size = (m.atEnd file).offset + bytes.length := by
              rw [← node_of_some sits', ← length_contents, refilled.contents, length_resized]
            obtain ⟨n', puts, stored⟩ := stores refilled.sound sits' ((congrArg Node.isDir bare).trans plain)
              (le_of_eq size.symm)
            rw [gives]
            simp only [puts]
            rw [refilled.contents, contents, writeAt_resized (length ▸ grows)] at stored
            refine .wrote found readOnly ?_
            rw [moved]
            exact refilled.trans stored
        · rw [if_neg grows]
          obtain ⟨n', puts, stored⟩ := stores sound sits plain (by rw [(h.sized _ _ there).full]; omega)
          rw [puts]
          refine .wrote found readOnly ?_
          rw [moved, ← contents]
          exact stored

inductive Seeks (m : Mount) (fd offset : Int) (mode : Whence) : Mount × Except Errno Nat → Prop
  | refused {errno : Errno} : Seeks m fd offset mode (m, .error errno)
  | sought {slot : Fin maxOpenFiles} {file : RamfsFile} {next : Nat} : m.getFile fd = .ok (slot, file) →
      (mode = .set ∧ (next : Int) = offset ∨ mode = .cur ∧ (next : Int) = file.offset + offset ∨
        mode = .end_ ∧ (next : Int) = (m.contents file.node).length + offset) →
      Seeks m fd offset mode (m.setFile slot (some { file with offset := next }), .ok next)

theorem vfsLseek_cases (m : Mount) (fd offset : Int) (mode : Whence) :
    Seeks m fd offset mode (m.vfsLseek fd offset mode) := by
  unfold vfsLseek
  cases found : m.getFile fd with
  | error errno => exact .refused
  | ok open_ =>
    obtain ⟨slot, file⟩ := open_
    cases mode with
    | set =>
      simp only
      split
      · exact .refused
      · exact .sought found (.inl ⟨rfl, by omega⟩)
    | cur =>
      simp only
      split
      · exact .refused
      · exact .sought found (.inr (.inl ⟨rfl, by omega⟩))
    | end_ =>
      simp only
      split
      · exact .refused
      · exact .sought found (.inr (.inr ⟨rfl, by rw [length_contents]; omega⟩))
    | other => exact .refused

/-- What a call can do that sets the length of the file at a path. -/
inductive Truncates (m : Mount) (path : List UInt8) (length : Int) : Mount × Except Errno Unit → Prop
  | refused {errno : Errno} : Truncates m path length (m, .error errno)
  | cut {place : Place} {node : Node} {n : Mount} : 0 ≤ length → m.findNode path = .ok place → m.nodes place = some node →
      node.isDir = false → Refilled m n place (resized (m.contents place) length.toNat) →
      Truncates m path length (n, .ok ())

theorem Sound.vfsTruncate (h : m.Sound) (path : List UInt8) (length : Int) :
    Truncates m path length (m.vfsTruncate path length) := by
  unfold Mount.vfsTruncate
  by_cases negative : length < 0
  · rw [if_pos negative]
    exact .refused
  · rw [if_neg negative]
    cases found : m.findNode path with
    | error errno => exact .refused
    | ok place =>
      obtain ⟨node, there⟩ := Option.isSome_iff_exists.mp (h.findNode_live found)
      rcases h.resizeNode there length.toNat with ⟨errno, fails⟩ | ⟨n, gives, plain, refilled⟩
      · simp only [fails]
        exact .refused
      · simp only [gives]
        exact .cut (Int.not_lt.mp negative) found there plain refilled

inductive Cuts (m : Mount) (fd length : Int) : Mount × Except Errno Unit → Prop
  | refused {errno : Errno} : Cuts m fd length (m, .error errno)
  | cut {slot : Fin maxOpenFiles} {file : RamfsFile} {n : Mount} : 0 ≤ length → m.getFile fd = .ok (slot, file) →
      Refilled m n file.node (resized (m.contents file.node) length.toNat) →
      Cuts m fd length (n.setFile slot (some { file with offset := min file.offset length.toNat }), .ok ())

theorem Sound.vfsFtruncate (h : m.Sound) (fd length : Int) : Cuts m fd length (m.vfsFtruncate fd length) := by
  unfold Mount.vfsFtruncate
  by_cases negative : length < 0
  · rw [if_pos negative]
    exact .refused
  · rw [if_neg negative]
    cases found : m.getFile fd with
    | error errno => exact .refused
    | ok open_ =>
      obtain ⟨slot, file⟩ := open_
      obtain ⟨node, there, -⟩ := h.files slot file (getFile_ok found)
      rcases h.resizeNode there length.toNat with ⟨errno, fails⟩ | ⟨n, gives, -, refilled⟩
      · simp only [fails]
        exact .refused
      · have cut := Cuts.cut (Int.not_lt.mp negative) found refilled
        simp only [gives]
        by_cases behind : length.toNat < file.offset
        · rw [if_pos behind]
          rwa [Nat.min_eq_right (le_of_lt behind)] at cut
        · rw [if_neg behind]
          have same : n.setFile slot (some { file with offset := file.offset }) = n := by
            unfold Mount.setFile
            rw [← getFile_ok found, ← refilled.files, Function.update_eq_self]
          rwa [Nat.min_eq_left (not_lt.mp behind), same] at cut

theorem vfsClose_cases (m : Mount) (fd : Int) : (∃ errno, m.vfsClose fd = (m, .error errno)) ∨
    ∃ slot file, m.getFile fd = .ok (slot, file) ∧ m.vfsClose fd = (m.setFile slot none, .ok ()) := by
  unfold vfsClose
  cases found : m.getFile fd with
  | error errno => exact .inl ⟨errno, rfl⟩
  | ok open_ => exact .inr ⟨open_.1, open_.2, rfl, rfl⟩

end Mount
end SolarOs.Ramfs
