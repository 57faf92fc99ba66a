import SolarOs.Library.Machine
import SolarOs.Ramfs.FileCalls

/-! Runs of calls on a mount: what one call can do to the tree, and that every mount that
is reached is sound. -/
namespace SolarOs.Ramfs
open ByteMemory FileBytes List Option

/-- A call of the filesystem. -/
inductive FsCall where
  | open_ (path : List UInt8) (flags : Nat)
  | close (fd : Int)
  | read (fd : Int) (size : Nat)
  | write (fd : Int) (bytes : List UInt8)
  | lseek (fd offset : Int) (mode : Whence)
  | truncate (path : List UInt8) (length : Int)
  | ftruncate (fd length : Int)
  | unlink (path : List UInt8)
  | mkdir (path : List UInt8)
  | rmdir (path : List UInt8)
  | rename (src dst : List UInt8)
  deriving DecidableEq

namespace Mount
variable {m n : Mount} {place parent : Place} {path : List UInt8} {flags : Nat} {node : Node}

/-- The mount after a call. -/
def after (m : Mount) : FsCall → Mount
  | .open_ path flags => (m.vfsOpen path flags).1
  | .close fd => (m.vfsClose fd).1
  | .read fd size => (m.vfsRead fd size).1
  | .write fd bytes => (m.vfsWrite fd bytes).1
  | .lseek fd offset mode => (m.vfsLseek fd offset mode).1
  | .truncate path length => (m.vfsTruncate path length).1
  | .ftruncate fd length => (m.vfsFtruncate fd length).1
  | .unlink path => (m.vfsUnlink path).1
  | .mkdir path => (m.vfsMkdir path).1
  | .rmdir path => (m.vfsRmdir path).1
  | .rename src dst => (m.vfsRename src dst).1

def Removes (m : Mount) : FsCall → Place → Prop
  | .unlink path, place => m.findNode path = .ok place ∧ (m.node place).isDir = false ∧ m.nodeIsOpen place = false
  | .rmdir path, place => m.findNode path = .ok place ∧ place ≠ .root ∧ (m.node place).isDir = true ∧
      (m.node place).children = none
  | _, _ => False

def Renames (m : Mount) : FsCall → Place → Place → Prop
  | .rename src dst, place, parent => m.findNode src = .ok place ∧ place ≠ .root ∧
      ∃ leaf newName, m.resolveParent dst = .ok (parent, leaf) ∧ m.findChild parent leaf = none ∧
        (alloc m.heap (leaf.bytes.length + 1)).2 = .ok newName
  | _, _, _ => False

def MovesInside (m : Mount) (call : FsCall) : Prop :=
  ∃ place parent, m.Renames call place parent ∧ m.tree.Inside place parent

/-- What a call can do to the tree. -/
inductive Changes (m : Mount) : FsCall → Mount → Prop
  | same {call : FsCall} {n : Mount} : n.tree = m.tree → Changes m call n
  | made {call : FsCall} {parent : Place} {dir : Node} {leaf : Name} {ptr : Nat} {isDir : Bool} {n : Mount} :
      m.nodes parent = some dir → dir.isDir = true → m.findChild parent leaf = none → m.nodes (.block ptr) = none →
      n.tree = m.tree.insert (.block ptr) parent leaf isDir → Changes m call n
  | removed {call : FsCall} {place q : Place} {node : Node} {n : Mount} :
      m.Removes call place → m.nodes place = some node → place ≠ .root → m.childrenOf place = [] →
      node.parent = some q → n.tree = m.tree.remove place q node.isDir → Changes m call n
  | moved {call : FsCall} {place q parent : Place} {node dir : Node} {leaf : Name} {n : Mount} :
      m.Renames call place parent → m.nodes place = some node → place ≠ .root → node.parent = some q →
      m.nodes parent = some dir → dir.isDir = true → m.findChild parent leaf = none →
      n.tree = m.tree.move place q parent leaf node.isDir → Changes m call n

theorem Prepared.sound (h : m.Sound) (prepared : Prepared m place flags n) : n.Sound := by
  cases prepared with
  | kept => exact h
  | cleared _ refilled => exact refilled.sound

theorem Sound.allocateFd (h : m.Sound) (there : m.nodes place = some node) (plain : node.isDir = false) (flags : Nat) :
    (m.allocateFd place flags).1.Sound ∧ (m.allocateFd place flags).1.tree = m.tree := by
  rcases m.allocateFd_cases place flags with ⟨-, fails⟩ | ⟨fd, -, -, gives⟩
  · rw [fails]
    exact ⟨h, rfl⟩
  · rw [gives]
    refine ⟨h.setFile fd ?_, rfl⟩
    rintro opened ⟨⟩
    exact ⟨node, there, plain⟩

theorem Sound.open_changes (h : m.Sound) (path : List UInt8) (flags : Nat) :
    (m.vfsOpen path flags).1.Sound ∧ Changes m (.open_ path flags) (m.vfsOpen path flags).1 := by
  have opens := h.vfsOpen path flags
  generalize m.vfsOpen path flags = out at opens
  cases opens with
  | refused sound same _ _ _ => exact ⟨sound, .same same.tree⟩
  | @found place node n _ there plain _ prepared =>
    obtain ⟨node', sits, bare⟩ := prepared.same.new there
    have plain' : node'.bare.isDir = false := (congrArg Node.isDir bare).trans plain
    obtain ⟨sound, tree⟩ := (prepared.sound h).allocateFd sits plain' flags
    exact ⟨sound, .same (tree.trans prepared.same.tree)⟩
  | @made parent dir leaf ptr g n _ _ there isParent free fresh soundG inserted _ _ _ prepared =>
    have tree := prepared.same.tree.trans inserted
    have entry := congrArg (fun tree => tree.entry (.block ptr)) tree
    obtain ⟨new, sits, record⟩ := map_eq_some_iff.mp (entry.trans NamedTree.insert_entry_self)
    obtain ⟨sound, same⟩ := (prepared.sound soundG).allocateFd sits (congrArg TreeEntry.isDir record) flags
    exact ⟨sound, .made there isParent free fresh (same.trans tree)⟩

theorem Sound.mkdir_changes (h : m.Sound) (path : List UInt8) :
    (m.vfsMkdir path).1.Sound ∧ Changes m (.mkdir path) (m.vfsMkdir path).1 := by
  have makes := h.createNode path true
  unfold Mount.vfsMkdir
  generalize m.createNode path true = out at makes
  cases makes with
  | refused sound same _ => exact ⟨sound, .same same.tree⟩
  | made _ there isParent free _ fresh sound inserted _ _ _ => exact ⟨sound, .made there isParent free fresh inserted⟩

theorem nodeIsOpen_false (closed : ¬m.nodeIsOpen place) : ∀ fd file, m.files fd = some file → file.node ≠ place := by
  intro fd file open_ same
  apply closed
  exact decide_eq_true ⟨fd, file, open_, same⟩

theorem Sound.unlink_changes (h : m.Sound) (path : List UInt8) :
    (m.vfsUnlink path).1.Sound ∧ Changes m (.unlink path) (m.vfsUnlink path).1 := by
  unfold Mount.vfsUnlink
  cases found : m.findNode path with
  | error errno => exact ⟨h, .same rfl⟩
  | ok place =>
    obtain ⟨node, there⟩ := isSome_iff_exists.mp (h.findNode_live found)
    simp only
    by_cases isDir : (m.node place).isDir = true
    · rw [if_pos isDir]
      exact ⟨h, .same rfl⟩
    · rw [if_neg isDir]
      by_cases open_ : m.nodeIsOpen place = true
      · rw [if_pos open_]
        exact ⟨h, .same rfl⟩
      · rw [if_neg open_]
        have plain : node.isDir = false := by
          rw [node_of_some there] at isDir
          exact Bool.eq_false_of_not_eq_true isDir
        have inner := h.not_dir_root there plain
        have none : m.childrenOf place = [] := h.linked.file place node there plain
        obtain ⟨q, up, sound, tree, -⟩ := h.removeNode there inner none (nodeIsOpen_false open_)
        have removes : m.Removes (.unlink path) place :=
          ⟨found, Bool.eq_false_of_not_eq_true isDir, Bool.eq_false_of_not_eq_true open_⟩
        exact ⟨sound, .removed removes there inner none up tree⟩

theorem childrenOf_of_none (there : m.nodes place = some node) (none : node.children = none) :
    m.childrenOf place = [] := by
  unfold childrenOf
  rw [node_of_some there, none]
  cases m.heap.arenaBytes <;> rfl

section
variable (h : m.Sound)
include h

theorem Sound.rmdir_changes (path : List UInt8) :
    (m.vfsRmdir path).1.Sound ∧ Changes m (.rmdir path) (m.vfsRmdir path).1 := by
  unfold Mount.vfsRmdir
  cases found : m.findNode path with
  | error errno => exact ⟨h, .same rfl⟩
  | ok place =>
    obtain ⟨node, there⟩ := isSome_iff_exists.mp (h.findNode_live found)
    simp only
    by_cases top : place = .root
    · rw [if_pos top]
      exact ⟨h, .same rfl⟩
    · rw [if_neg top]
      by_cases plain : (m.node place).isDir = false
      · rw [if_pos plain]
        exact ⟨h, .same rfl⟩
      · rw [if_neg plain]
        by_cases full : (m.node place).children.isSome = true
        · rw [if_pos full]
          exact ⟨h, .same rfl⟩
        · rw [if_neg full]
          have removes : m.Removes (.rmdir path) place :=
            ⟨found, top, Bool.eq_true_of_not_eq_false plain, not_isSome_iff_eq_none.mp full⟩
          rw [node_of_some there] at plain full
          have none := childrenOf_of_none there (not_isSome_iff_eq_none.mp full)
          -- an open file is no directory
          have closed : ∀ fd file, m.files fd = some file → file.node ≠ place := by
            rintro fd file open_ rfl
            obtain ⟨node', there', plain'⟩ := h.files fd file open_
            rw [there] at there'
            cases there'
            exact plain plain'
          obtain ⟨q, up, sound, tree, -⟩ := h.removeNode there top none closed
          exact ⟨sound, .removed removes there top none up tree⟩

theorem Sound.rename_cases (src dst : List UInt8) : (m.vfsRename src dst).1.Sound ∧
      ((∀ place parent, ¬m.Renames (.rename src dst) place parent) ∧ (m.vfsRename src dst).1.tree = m.tree ∨
        ∃ place parent node dir leaf q, m.Renames (.rename src dst) place parent ∧ m.nodes place = some node ∧
          node.parent = some q ∧ m.nodes parent = some dir ∧ dir.isDir = true ∧ m.findChild parent leaf = none ∧
          (m.vfsRename src dst).1.tree = m.tree.move place q parent leaf node.isDir) := by
  unfold Mount.vfsRename
  cases found : m.findNode src with
  | error errno => exact ⟨h, .inl ⟨fun _ _ renames => (nomatch found.symm.trans renames.1), rfl⟩⟩
  | ok place =>
    obtain ⟨node, there⟩ := isSome_iff_exists.mp (h.findNode_live found)
    have own : ∀ {place' parent'}, m.Renames (.rename src dst) place' parent' → place' = place :=
      fun renames => Except.ok.inj (renames.1.symm.trans found)
    simp only
    by_cases top : place = .root
    · rw [if_pos top]
      exact ⟨h, .inl ⟨fun _ _ renames => renames.2.1 ((own renames).trans top), rfl⟩⟩
    · rw [if_neg top]
      cases resolved : m.resolveParent dst with
      | error errno =>
        refine ⟨h, .inl ⟨?_, rfl⟩⟩
        rintro place' parent' ⟨-, -, leaf, newName, leads, -⟩
        exact nomatch resolved.symm.trans leads
      | ok leads =>
        obtain ⟨parent, leaf⟩ := leads
        obtain ⟨dir, dirThere, isParent⟩ := h.resolveParent_live resolved
        simp only
        by_cases exists_ : (m.findChild parent leaf).isSome = true
        · rw [if_pos exists_]
          refine ⟨h, .inl ⟨?_, rfl⟩⟩
          rintro place' parent' ⟨-, -, leaf', newName, leads, free, -⟩
          cases resolved.symm.trans leads
          rw [free] at exists_
          exact nomatch exists_
        · rw [if_neg exists_]
          have free : m.findChild parent leaf = none := not_isSome_iff_eq_none.mp exists_
          rcases h.houses.alloc (leaf.bytes.length + 1) with ⟨errno, none⟩ | ⟨memory, copy, some, houses, -⟩
          · rw [none]
            refine ⟨h, .inl ⟨?_, rfl⟩⟩
            rintro place' parent' ⟨-, -, leaf', newName, leads, -, allocates⟩
            cases resolved.symm.trans leads
            rw [none] at allocates
            exact nomatch allocates
          · rw [some]
            obtain ⟨sound, tree⟩ := h.rehouse houses.drop
            obtain ⟨q, up, moved, moves, -⟩ :=
              @Sound.moveNode { m with heap := m.heap.withMemory memory } place parent node dir leaf copy
                sound there top dirThere isParent houses
            rw [tree] at moves
            have renames : m.Renames (.rename src dst) place parent :=
              ⟨found, top, leaf, copy, resolved, free, by rw [some]⟩
            exact ⟨moved, .inr ⟨place, parent, node, dir, leaf, q, renames, there, up, dirThere, isParent, free, moves⟩⟩

theorem Sound.rename_changes (src dst : List UInt8) :
    (m.vfsRename src dst).1.Sound ∧ Changes m (.rename src dst) (m.vfsRename src dst).1 := by
  obtain ⟨sound, ⟨-, same⟩ | ⟨place, parent, node, dir, leaf, q, renames, there, up, dirThere, isParent, free, moves⟩⟩ :=
    h.rename_cases src dst
  · exact ⟨sound, .same same⟩
  · exact ⟨sound, .moved renames there renames.2.1 up dirThere isParent free moves⟩

theorem Sound.write_tree (fd : Int) (bytes : List UInt8) :
    (m.vfsWrite fd bytes).1.Sound ∧ (m.vfsWrite fd bytes).1.tree = m.tree := by
  have writes := h.vfsWrite fd bytes
  generalize m.vfsWrite fd bytes = out at writes
  cases writes with
  | refused => exact ⟨h, rfl⟩
  | failed found =>
    rw [atEnd_eq]
    exact ⟨h.moveFd (getFile_ok found) _, rfl⟩
  | @wrote slot file n found _ refilled =>
    have open_ : n.files slot = some { file with offset := (m.atEnd file).offset } := by
      rw [refilled.files, setFile_files, Function.update_self, atEnd_eq]
    exact ⟨refilled.sound.moveFd open_ _, refilled.same.tree⟩

theorem Sound.read_tree (fd : Int) (size : Nat) :
    (m.vfsRead fd size).1.Sound ∧ (m.vfsRead fd size).1.tree = m.tree := by
  have reads := m.vfsRead_cases fd size
  generalize m.vfsRead fd size = out at reads
  cases reads with
  | refused => exact ⟨h, rfl⟩
  | read found _ => exact ⟨h.moveFd (getFile_ok found) _, rfl⟩

theorem Sound.lseek_tree (fd offset : Int) (mode : Whence) :
    (m.vfsLseek fd offset mode).1.Sound ∧ (m.vfsLseek fd offset mode).1.tree = m.tree := by
  have seeks := m.vfsLseek_cases fd offset mode
  generalize m.vfsLseek fd offset mode = out at seeks
  cases seeks with
  | refused => exact ⟨h, rfl⟩
  | sought found _ => exact ⟨h.moveFd (getFile_ok found) _, rfl⟩

theorem Sound.close_tree (fd : Int) : (m.vfsClose fd).1.Sound ∧ (m.vfsClose fd).1.tree = m.tree := by
  rcases m.vfsClose_cases fd with ⟨errno, fails⟩ | ⟨slot, file, -, closes⟩
  · rw [fails]
    exact ⟨h, rfl⟩
  · rw [closes]
    exact ⟨h.setFile slot nofun, rfl⟩

theorem Sound.truncate_tree (path : List UInt8) (length : Int) :
    (m.vfsTruncate path length).1.Sound ∧ (m.vfsTruncate path length).1.tree = m.tree := by
  have truncs := h.vfsTruncate path length
  generalize m.vfsTruncate path length = out at truncs
  cases truncs with
  | refused => exact ⟨h, rfl⟩
  | cut _ _ _ _ refilled => exact ⟨refilled.sound, refilled.same.tree⟩

theorem Sound.ftruncate_tree (fd length : Int) :
    (m.vfsFtruncate fd length).1.Sound ∧ (m.vfsFtruncate fd length).1.tree = m.tree := by
  have cuts := h.vfsFtruncate fd length
  generalize m.vfsFtruncate fd length = out at cuts
  cases cuts with
  | refused => exact ⟨h, rfl⟩
  | @cut slot file n _ found refilled =>
    have open_ : n.files slot = some file := refilled.files ▸ getFile_ok found
    exact ⟨refilled.sound.moveFd open_ _, refilled.same.tree⟩

theorem Sound.call (call : FsCall) : (m.after call).Sound ∧ Changes m call (m.after call) := by
  cases call with
  | open_ path flags => exact h.open_changes path flags
  | close fd => exact (h.close_tree fd).imp_right .same
  | read fd size => exact (h.read_tree fd size).imp_right .same
  | write fd bytes => exact (h.write_tree fd bytes).imp_right .same
  | lseek fd offset mode => exact (h.lseek_tree fd offset mode).imp_right .same
  | truncate path length => exact (h.truncate_tree path length).imp_right .same
  | ftruncate fd length => exact (h.ftruncate_tree fd length).imp_right .same
  | unlink path => exact h.unlink_changes path
  | mkdir path => exact h.mkdir_changes path
  | rmdir path => exact h.rmdir_changes path
  | rename src dst => exact h.rename_changes src dst

end

theorem findChild_free {leaf : Name} (free : m.findChild parent leaf = none) :
    ∀ c ∈ m.tree.children parent, ∀ e, m.tree.entry c = some e → e.name ≠ leaf := by
  intro c inside e there same
  obtain ⟨node, sits, rfl⟩ := map_eq_some_iff.mp there
  rw [findChild_eq] at free
  have other := find?_eq_none.mp free c inside
  rw [node_of_some sits] at other
  exact other (decide_eq_true (congrArg Name.bytes same))

theorem Changes.kept (h : m.Sound) {call : FsCall} (changes : Changes m call n) (distinct : m.tree.Distinct)
    (counted : m.tree.Counted) : n.tree.Distinct ∧ n.tree.Counted := by
  have consistent := h.consistent
  cases changes with
  | same tree => exact tree ▸ ⟨distinct, counted⟩
  | made there isParent free fresh tree =>
    have absent : m.tree.entry (.block _) = none := map_eq_none_iff.mpr fresh
    have live := congrArg Option.isSome (tree_entry there)
    rw [tree]
    exact ⟨distinct.insert consistent absent (childrenOf_none fresh) live (findChild_free free), counted.insert absent⟩
  | removed removes there inner none up tree =>
    rw [tree]
    exact ⟨distinct.remove consistent (tree_entry there) up, counted.remove (tree_entry there)⟩
  | moved renames there inner up dirThere isParent free tree =>
    have live := congrArg Option.isSome (tree_entry dirThere)
    rw [tree]
    exact ⟨distinct.move consistent (tree_entry there) up live (findChild_free free), counted.move (tree_entry there)⟩

theorem Sound.rooted_iff (h : m.Sound) (call : FsCall) (rooted : m.tree.Rooted .root) :
    (m.after call).tree.Rooted .root ↔ ¬m.MovesInside call := by
  have consistent := h.consistent
  constructor
  · rintro stays ⟨place, parent, renames, inside⟩
    cases call with
    | rename src dst =>
      obtain ⟨-, ⟨none, -⟩ | ⟨place', parent', node, dir, leaf, q, renames', -, -, -, -, -, moves⟩⟩ :=
        h.rename_cases src dst
      · exact none place parent renames
      · cases renames.1.symm.trans renames'.1
        obtain ⟨-, inner, leaf, newName, leads, -⟩ := renames
        obtain ⟨-, -, leaf', newName', leads', -⟩ := renames'
        cases leads.symm.trans leads'
        have moved : (m.after (.rename src dst)).tree = _ := moves
        rw [moved] at stays
        exact NamedTree.not_rooted_move consistent inner inside stays
    | _ => exact renames
  · intro apart
    cases (h.call call).2 with
    | same tree => exact tree ▸ rooted
    | made there isParent free fresh tree =>
      rw [tree]
      exact rooted.insert (map_eq_none_iff.mpr fresh) (congrArg Option.isSome (tree_entry there))
    | removed removes there inner none up tree =>
      rw [tree]
      exact rooted.remove consistent none
    | moved renames there inner up dirThere isParent free tree =>
      rw [tree]
      exact rooted.move (congrArg Option.isSome (tree_entry dirThere))
        (fun inside => apart ⟨_, _, renames, inside⟩) (congrArg Option.isSome (tree_entry there))

theorem fresh_sound {heap : Heap} (h : heap.Holds []) : (Mount.fresh heap).Sound := by
  let root : Node := { Node.zero with isDir := true }
  have only : ∀ place node, (Mount.fresh heap).nodes place = some node → place = .root ∧ node = root := by
    intro place node there
    by_cases top : place = .root
    · exact ⟨top, Option.some.inj (there.symm.trans (if_pos top))⟩
    · exact nomatch (if_neg top).symm.trans there
  have empty : ∀ place, (Mount.fresh heap).childrenOf place = [] := by
    intro place
    cases there : (Mount.fresh heap).nodes place with
    | none => exact childrenOf_none there
    | some node =>
      obtain ⟨-, rfl⟩ := only place node there
      exact childrenOf_of_none there rfl
  have houses : Houses heap (Mount.fresh heap).nodes [] := by
    refine ⟨⟨[], h, nofun, fun place node there block no => ?_⟩, nodup_nil,
      fun place node there => ?_, nofun,
      fun place place' node node' there there' other => ?_⟩
    · obtain ⟨rfl, -⟩ := only place node there
      exact absurd no not_mem_nil
    · obtain ⟨rfl, -⟩ := only place node there
      exact nodup_nil
    · exact absurd ((only _ _ there).1.trans (only _ _ there').1.symm) other
  refine ⟨houses, fun place node there => ?_, ?_, nofun⟩
  · obtain ⟨-, rfl⟩ := only place node there
    exact ⟨rfl, ⟨fun _ => rfl, fun _ => rfl⟩, fun _ => rfl⟩
  · constructor
    · exact ⟨root, rfl, rfl, rfl⟩
    · intro place node there
      obtain ⟨-, rfl⟩ := only place node there
      rw [empty]
      exact rfl
    · exact fun place _ _ _ => empty place
    · intro place _ c inside
      rw [empty] at inside
      exact absurd inside not_mem_nil
    · exact fun place node there inner => absurd (only place node there).1 inner

theorem fresh_wellFormed (heap : Heap) :
    (Mount.fresh heap).tree.Rooted .root ∧ (Mount.fresh heap).tree.Distinct ∧ (Mount.fresh heap).tree.Counted := by
  have only : ∀ p, ((Mount.fresh heap).tree.entry p).isSome ↔ p = .root := by
    intro p
    by_cases top : p = .root
    · subst top
      exact iff_of_true rfl rfl
    · have none : (Mount.fresh heap).nodes p = none := if_neg top
      simp [tree, none, top]
  refine ⟨fun p here => (only p).mp here ▸ .root, ?_, {.root}, fun p => ?_, ?_, ?_⟩
  · intro p here c inside
    rw [(only p).mp here] at inside
    have empty : (Mount.fresh heap).childrenOf .root = [] := childrenOf_of_none rfl rfl
    exact absurd (empty ▸ inside : c ∈ []) not_mem_nil
  · rw [Finset.mem_singleton, only]
  · rfl
  · rfl

theorem Sound.run (h : m.Sound) (calls : List FsCall) : (Machine.run Mount.after m calls).Sound :=
  Machine.run_always (fun _ call sound => (sound.call call).1) h calls

end Mount

theorem mount_fresh {memory : Memory} {arena quota : Nat} {m : Mount} (mounted : mount memory arena quota = .ok m) :
    ∃ heap, mountHeap memory arena quota = .ok heap ∧ m = .fresh heap := by
  unfold mount at mounted
  cases made : mountHeap memory arena quota with
  | error err =>
    rw [made] at mounted
    exact nomatch mounted
  | ok heap =>
    rw [made] at mounted
    cases mounted
    exact ⟨heap, rfl, rfl⟩

theorem mount_sound {memory : Memory} {arena quota : Nat} {m : Mount} (mounted : mount memory arena quota = .ok m)
    (space : arena + quota ≤ 2 ^ 32) : m.Sound := by
  obtain ⟨heap, made, rfl⟩ := mount_fresh mounted
  exact Mount.fresh_sound (mountHeap_spec made space)

/-- In a run from a mount the nodes stay a well-formed tree if and only if no call moves a
directory inside itself. -/
theorem tree_kept_iff (memory : Memory) (arena quota : Nat) (m : Mount) (mounted : mount memory arena quota = .ok m)
    (space : arena + quota ≤ 2 ^ 32) (calls : List FsCall) :
    Machine.Admits Mount.after (fun m call => ¬m.MovesInside call) m calls ↔
      ∀ n, (Machine.run Mount.after m (calls.take n)).tree.WellFormed .root := by
  have sound := mount_sound mounted space
  obtain ⟨heap, -, rfl⟩ := mount_fresh mounted
  obtain ⟨rooted, distinct, counted⟩ := Mount.fresh_wellFormed heap
  let Inv (m : Mount) : Prop := m.Sound ∧ m.tree.Distinct ∧ m.tree.Counted
  have keep : ∀ m call, Inv m → Inv (m.after call) := fun m call ⟨sound, distinct, counted⟩ =>
    ⟨(sound.call call).1, (sound.call call).2.kept sound distinct counted⟩
  have start : Inv (Mount.fresh heap) := ⟨sound, distinct, counted⟩
  rw [Machine.admits_iff_always Inv (fun m => m.tree.Rooted .root) keep
    (fun m call inv rooted => inv.1.rooted_iff call rooted) start rooted]
  constructor
  · intro always n
    obtain ⟨sound, distinct, counted⟩ := Machine.run_always keep start (calls.take n)
    exact ⟨sound.consistent, always n, distinct, counted⟩
  · exact fun always n => (always n).rooted

def slashA : List UInt8 := [slash, 97]

theorem tree_kept_made :
    Machine.Admits Mount.after (fun m call => ¬m.MovesInside call) (Mount.fresh Session.sampleHeap) [.mkdir slashA] ↔
      ∀ n, (Machine.run Mount.after (Mount.fresh Session.sampleHeap) ([.mkdir slashA].take n)).tree.WellFormed .root :=
  tree_kept_iff ⟨fun _ => 0⟩ 4096 1024 (Mount.fresh Session.sampleHeap) rfl (by decide) [.mkdir slashA]

/-- `/a` renamed to `/a/b` is its own parent. -/
theorem moved_inside : ¬(Machine.run Mount.after (Mount.fresh Session.sampleHeap)
      [.mkdir slashA, .rename slashA (slashA ++ [slash, 98])]).tree.WellFormed .root := by
  intro formed
  have own : ((Machine.run Mount.after (Mount.fresh Session.sampleHeap)
      [.mkdir slashA, .rename slashA (slashA ++ [slash, 98])]).nodes (.block 4112)).map Node.parent =
      some (some (.block 4112)) := by decide +kernel
  obtain ⟨node, there, up⟩ := map_eq_some_iff.mp own
  have entry := Mount.tree_entry there
  have way := formed.rooted _ (congrArg Option.isSome entry)
  exact NamedTree.not_under_self entry up (by decide) way

/-- In every mount that is reached, an open call that fails changes nothing if and only if a
descriptor is free, or the call neither makes a file nor clears one. -/
theorem open_atomic_iff (memory : Memory) (arena quota : Nat) (m : Mount) (mounted : mount memory arena quota = .ok m)
    (space : arena + quota ≤ 2 ^ 32) (calls : List FsCall) (path : List UInt8) (flags : Nat) :
    ((∃ errno, ((Machine.run Mount.after m calls).vfsOpen path flags).2 = .error errno) →
        (Machine.run Mount.after m calls).Unchanged ((Machine.run Mount.after m calls).vfsOpen path flags).1) ↔
      (Machine.run Mount.after m calls).freeFd.isSome ∨
        ¬(Machine.run Mount.after m calls).Creates path flags ∧ ¬(Machine.run Mount.after m calls).Clears path flags :=
  ((mount_sound mounted space).run calls).open_atomic path flags

/-- Sixteen descriptors for `/a`. -/
def openCalls : List FsCall := List.replicate maxOpenFiles (.open_ [slash, 97] (O_CREAT ||| O_WRONLY))

theorem open_atomic_sample :
    ((∃ errno, ((Machine.run Mount.after (Mount.fresh Session.sampleHeap) openCalls).vfsOpen [slash, 97] O_WRONLY).2 =
        .error errno) →
      (Machine.run Mount.after (Mount.fresh Session.sampleHeap) openCalls).Unchanged
        ((Machine.run Mount.after (Mount.fresh Session.sampleHeap) openCalls).vfsOpen [slash, 97] O_WRONLY).1) ↔
    (Machine.run Mount.after (Mount.fresh Session.sampleHeap) openCalls).freeFd.isSome ∨
      ¬(Machine.run Mount.after (Mount.fresh Session.sampleHeap) openCalls).Creates [slash, 97] O_WRONLY ∧
        ¬(Machine.run Mount.after (Mount.fresh Session.sampleHeap) openCalls).Clears [slash, 97] O_WRONLY :=
  open_atomic_iff ⟨fun _ => 0⟩ 4096 1024 (Mount.fresh Session.sampleHeap) rfl (by decide) openCalls [slash, 97] O_WRONLY

/-- With no descriptor left, the call that should make `/b` fails, and the file is there. -/
theorem failed_open_makes_file :
    ((Machine.run Mount.after (Mount.fresh Session.sampleHeap) openCalls).vfsOpen [slash, 98] O_CREAT).2 = .error .EMFILE ∧
      (Machine.run Mount.after (Mount.fresh Session.sampleHeap) openCalls).fileCount = 1 ∧
      ((Machine.run Mount.after (Mount.fresh Session.sampleHeap) openCalls).vfsOpen [slash, 98] O_CREAT).1.fileCount = 2 ∧
      ¬∀ path flags, (∃ errno, ((Machine.run Mount.after (Mount.fresh Session.sampleHeap) openCalls).vfsOpen path flags).2 =
          .error errno) →
        (Machine.run Mount.after (Mount.fresh Session.sampleHeap) openCalls).Unchanged
          ((Machine.run Mount.after (Mount.fresh Session.sampleHeap) openCalls).vfsOpen path flags).1 := by
  have fails : ((Machine.run Mount.after (Mount.fresh Session.sampleHeap) openCalls).vfsOpen [slash, 98] O_CREAT).2 =
      .error .EMFILE := by decide +kernel
  have before : (Machine.run Mount.after (Mount.fresh Session.sampleHeap) openCalls).fileCount = 1 := by decide +kernel
  have behind : ((Machine.run Mount.after (Mount.fresh Session.sampleHeap) openCalls).vfsOpen [slash, 98] O_CREAT).1.fileCount =
      2 := by decide +kernel
  refine ⟨fails, before, behind, fun atomic => ?_⟩
  have same := (atomic [slash, 98] O_CREAT ⟨_, fails⟩).fileCount
  rw [before, behind] at same
  exact absurd same (by decide)

end SolarOs.Ramfs
