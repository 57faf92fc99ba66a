import SolarOs.Ramfs.FileData

/-! An open call that fails leaves the filesystem as it was, unless the descriptors have
run out after it made a file or cleared one. -/
namespace SolarOs.Ramfs
open ByteMemory FileBytes Option

namespace Mount
variable {m m' : Mount} {place : Place} {path : List UInt8} {flags : Nat} {node : Node}

/-- The tree, the counts, the contents and the descriptors are the same. -/
structure Unchanged (m m' : Mount) : Prop where
  nodes : m'.nodes = m.nodes
  fileCount : m'.fileCount = m.fileCount
  dirCount : m'.dirCount = m.dirCount
  contents : m'.contents = m.contents
  files : m'.files = m.files

def Creates (m : Mount) (path : List UInt8) (flags : Nat) : Prop :=
  (∃ errno, m.findNode path = .error errno) ∧ flags &&& O_CREAT ≠ 0 ∧
    ∃ parent leaf place, m.resolveParent path = .ok (parent, leaf) ∧ m.findChild parent leaf = none ∧
      (m.allocNode parent leaf false).2 = .ok place

def Clears (m : Mount) (path : List UInt8) (flags : Nat) : Prop :=
  ∃ place, m.findNode path = .ok place ∧ ¬(flags &&& O_CREAT ≠ 0 ∧ flags &&& O_EXCL ≠ 0) ∧
    (m.node place).isDir = false ∧ truncates flags = true ∧ 0 < (m.node place).size

theorem unchanged_refl (m : Mount) : Unchanged m m := ⟨rfl, rfl, rfl, rfl, rfl⟩

theorem Sound.unchanged (h : m.Sound) {heap : Heap} (same : SameData m.heap heap m.nodes) :
    Unchanged m { m with heap } := by
  refine ⟨rfl, rfl, rfl, funext fun place => ?_, rfl⟩
  exact h.contents_eq ⟨rfl, rfl⟩ fun node there inner some i room => same place node there inner some i room

theorem allocateFd_cases (m : Mount) (place : Place) (flags : Nat) :
    m.freeFd = none ∧ m.allocateFd place flags = (m, .error .EMFILE) ∨
      ∃ fd, m.freeFd = some fd ∧ m.files fd = none ∧ m.allocateFd place flags =
        (m.setFile fd (some ⟨place, if flags &&& O_APPEND ≠ 0 then (m.node place).size else 0, flags⟩), .ok fd) := by
  unfold allocateFd
  cases free : m.freeFd with
  | none => exact .inl ⟨rfl, rfl⟩
  | some fd =>
    have unused := List.find?_some free
    exact .inr ⟨fd, rfl, isNone_iff_eq_none.mp unused, rfl⟩

theorem freeFd_congr (same : m'.files = m.files) : m'.freeFd = m.freeFd := by
  unfold freeFd
  rw [same]

inductive Prepared (m : Mount) (place : Place) (flags : Nat) : Mount → Prop
  | kept : truncates flags = false → Prepared m place flags m
  | cleared {n : Mount} : truncates flags = true → Refilled m n place [] → Prepared m place flags n

theorem Sound.openNode (h : m.Sound) (there : m.nodes place = some node) (flags : Nat) :
    node.isDir = true ∧ m.openNode place flags = (m, .error .EISDIR) ∨
      node.isDir = false ∧ ∃ m', Prepared m place flags m' ∧ m.openNode place flags = m'.allocateFd place flags := by
  unfold Mount.openNode
  rw [node_of_some there]
  by_cases isDir : node.isDir = true
  · exact .inl ⟨isDir, if_pos isDir⟩
  · have plain : node.isDir = false := Bool.eq_false_of_not_eq_true isDir
    refine .inr ⟨plain, ?_⟩
    rw [if_neg isDir]
    by_cases truncs : truncates flags = true
    · rw [if_pos truncs]
      rcases h.resizeNode there 0 with ⟨errno, fails⟩ | ⟨m', clears, -, refilled⟩
      · unfold Mount.resizeNode at fails
        rw [node_of_some there] at fails
        simp only [if_neg isDir, if_true] at fails
        exact nomatch congrArg Prod.snd fails
      · rw [clears]
        have none : resized (m.contents place) 0 = [] := List.length_eq_zero_iff.mp (length_resized _ _)
        rw [none] at refilled
        exact ⟨m', .cleared truncs refilled, rfl⟩
    · rw [if_neg truncs]
      exact ⟨m, .kept (Bool.eq_false_of_not_eq_true truncs), rfl⟩

theorem Prepared.files {n : Mount} (h : Prepared m place flags n) : n.files = m.files := by
  cases h with
  | kept => rfl
  | cleared _ refilled => exact refilled.files

theorem Prepared.same {n : Mount} (h : Prepared m place flags n) : SameTree m n := by
  cases h with
  | kept => exact SameTree.refl m
  | cleared _ refilled => exact refilled.same

theorem Refilled.unchanged {n : Mount} (h : m.Sound) (there : m.nodes place = some node) (empty : node.size = 0)
    (refilled : Refilled m n place []) : Unchanged m n := by
  have nodes : n.nodes = m.nodes := by
    funext p
    by_cases self : p = place
    · subst self
      obtain ⟨node', sits, bare⟩ := refilled.same.new there
      have size : node'.size = 0 := by
        have length := length_contents n p
        rw [refilled.contents, node_of_some sits] at length
        exact length.symm
      have old := h.sized p node there
      have new := refilled.sound.sized p node' sits
      have capacity : node.capacity = 0 := old.full ▸ empty
      have capacity' : node'.capacity = 0 := new.full ▸ size
      have data := old.empty.mpr capacity
      have data' := new.empty.mpr capacity'
      rw [there, sits]
      cases node
      cases node'
      simp only [Node.bare, Node.mk.injEq] at bare data data' capacity capacity' size empty ⊢
      simp [bare, data, data', capacity, capacity', size, empty]
    · exact refilled.nodes p self
  refine ⟨nodes, refilled.same.fileCount, refilled.same.dirCount, funext fun p => ?_, refilled.files⟩
  by_cases self : p = place
  · rw [self, refilled.contents]
    refine (List.length_eq_zero_iff.mp ?_).symm
    rw [length_contents, node_of_some there, empty]
  · exact refilled.others p self

/-- What an open call can do. -/
inductive Opens (m : Mount) (path : List UInt8) (flags : Nat) : Mount × Except Errno (Fin maxOpenFiles) → Prop
  | refused {n : Mount} {errno : Errno} : n.Sound → SameTree m n → Unchanged m n →
      ¬m.Creates path flags → ¬m.Clears path flags → Opens m path flags (n, .error errno)
  | found {place : Place} {node : Node} {n : Mount} : m.findNode path = .ok place → m.nodes place = some node →
      node.isDir = false → ¬(flags &&& O_CREAT ≠ 0 ∧ flags &&& O_EXCL ≠ 0) → Prepared m place flags n →
      Opens m path flags (n.allocateFd place flags)
  | made {parent : Place} {dir : Node} {leaf : Name} {ptr : Nat} {g n : Mount} : m.Creates path flags →
      m.resolveParent path = .ok (parent, leaf) → m.nodes parent = some dir → dir.isDir = true →
      m.findChild parent leaf = none → m.nodes (.block ptr) = none → g.Sound →
      g.tree = m.tree.insert (.block ptr) parent leaf false → g.files = m.files →
      (∀ p, p ≠ .block ptr → g.contents p = m.contents p) → g.contents (.block ptr) = [] →
      Prepared g (.block ptr) flags n → Opens m path flags (n.allocateFd (.block ptr) flags)

theorem linkFirst_data {p place parent : Place} (other : p ≠ place) :
    ((m.linkFirst place parent node).node p).data = (m.node p).data ∧
      ((m.linkFirst place parent node).node p).size = (m.node p).size := by
  unfold Mount.node
  rw [linkFirst_nodes]
  by_cases own : p = parent
  · subst own
    rw [if_pos rfl, if_neg other]
    exact ⟨rfl, rfl⟩
  · rw [if_neg own, if_neg other]
    exact ⟨rfl, rfl⟩

theorem insertNode_data {p parent : Place} {ptr copy : Nat} {name : Name} {isDir : Bool} (other : p ≠ .block ptr) :
    ((m.insertNode ptr copy parent name isDir).node p).data = (m.node p).data ∧
      ((m.insertNode ptr copy parent name isDir).node p).size = (m.node p).size := by
  have linked := @linkFirst_data m { Node.zero with name, namePtr := copy, isDir } p (.block ptr) parent other
  unfold Mount.insertNode
  cases isDir <;> exact linked

theorem linkFirst_size (place parent : Place) : ((m.linkFirst place parent node).node place).size = node.size := by
  unfold Mount.node
  rw [linkFirst_nodes]
  by_cases own : place = parent
  · rw [if_pos own, if_pos own.symm]
    rfl
  · rw [if_neg own, if_pos rfl]
    rfl

theorem insertNode_size (parent : Place) (ptr copy : Nat) (name : Name) (isDir : Bool) :
    ((m.insertNode ptr copy parent name isDir).node (.block ptr)).size = 0 := by
  have linked := @linkFirst_size m { Node.zero with name, namePtr := copy, isDir } (.block ptr) parent
  unfold Mount.insertNode
  cases isDir <;> exact linked

/-- What making a node for a path can do. -/
inductive Makes (m : Mount) (path : List UInt8) (isDir : Bool) : Mount × Except Errno Place → Prop
  | refused {n : Mount} {errno : Errno} : n.Sound → SameTree m n → Unchanged m n →
      Makes m path isDir (n, .error errno)
  | made {parent : Place} {dir : Node} {leaf : Name} {ptr : Nat} {g : Mount} :
      m.resolveParent path = .ok (parent, leaf) → m.nodes parent = some dir → dir.isDir = true →
      m.findChild parent leaf = none → (m.allocNode parent leaf isDir).2 = .ok (.block ptr) →
      m.nodes (.block ptr) = none → g.Sound →
      g.tree = m.tree.insert (.block ptr) parent leaf isDir → g.files = m.files →
      (∀ p, p ≠ .block ptr → g.contents p = m.contents p) → g.contents (.block ptr) = [] →
      Makes m path isDir (g, .ok (.block ptr))

theorem Sound.createNode (h : m.Sound) (path : List UInt8) (isDir : Bool) :
    Makes m path isDir (m.createNode path isDir) := by
  unfold Mount.createNode
  cases resolved : m.resolveParent path with
  | error errno => exact .refused h (SameTree.refl m) (unchanged_refl m)
  | ok found =>
    obtain ⟨parent, leaf⟩ := found
    obtain ⟨dir, there, isParent⟩ := h.resolveParent_live resolved
    simp only
    by_cases exists_ : (m.findChild parent leaf).isSome = true
    · rw [if_pos exists_]
      exact .refused h (SameTree.refl m) (unchanged_refl m)
    · rw [if_neg exists_]
      have free : m.findChild parent leaf = none := not_isSome_iff_eq_none.mp exists_
      rcases h.allocNode_cases parent leaf isDir with ⟨errno, memory, fails, houses, same⟩ |
        ⟨memory, ptr, copy, gives, houses, same⟩
      · rw [fails]
        exact .refused (h.rehouse houses).1 ⟨fun _ => rfl, rfl, rfl, rfl⟩ (h.unchanged same)
      · obtain ⟨sound, tree⟩ := h.rehouse (houses.drop.drop)
        have fresh : m.nodes (.block ptr) = none := houses.fresh (List.mem_cons_of_mem _ List.mem_cons_self)
        obtain ⟨grown, inserted⟩ := @Sound.insertNode { m with heap := m.heap.withMemory memory }
          parent dir leaf isDir ptr copy sound there isParent houses
        rw [gives]
        refine .made resolved there isParent free (by rw [gives]) fresh grown (inserted.trans ?_) ?_ ?_ ?_
        · rw [tree]
        · unfold Mount.insertNode
          cases isDir <;> rfl
        · intro p other
          have heap : ({ m with heap := m.heap.withMemory memory }.insertNode ptr copy parent leaf isDir).heap =
              m.heap.withMemory memory := by
            unfold Mount.insertNode
            cases isDir <;> rfl
          refine h.contents_eq (insertNode_data other) fun node sits inner some i room => ?_
          rw [heap]
          exact same p node sits inner some i room
        · unfold contents
          rw [insertNode_size]
          rfl

theorem Sound.vfsOpen (h : m.Sound) (path : List UInt8) (flags : Nat) : Opens m path flags (m.vfsOpen path flags) := by
  unfold Mount.vfsOpen
  cases found : m.findNode path with
  | error errno =>
    have notClears : ¬m.Clears path flags := fun ⟨place, finds, _⟩ => nomatch found.symm.trans finds
    simp only
    by_cases creat : flags &&& O_CREAT = 0
    · rw [if_pos creat]
      exact .refused h (SameTree.refl m) (unchanged_refl m) (fun creates => creates.2.1 creat) notClears
    · rw [if_neg creat]
      have makes := h.createNode path false
      have creates : m.Creates path flags → ∃ place, (m.createNode path false).2 = .ok place := by
        rintro ⟨-, -, parent, leaf, place, resolved, free, gives⟩
        refine ⟨place, ?_⟩
        unfold Mount.createNode
        simp only [resolved, free, isSome_none, Bool.false_eq_true, if_false]
        exact gives
      generalize outcome : m.createNode path false = out at makes
      cases makes with
      | @refused n errno sound same unchanged =>
        refine .refused sound same unchanged (fun some => ?_) notClears
        obtain ⟨place, gives⟩ := creates some
        rw [outcome] at gives
        exact nomatch gives
      | @made parent dir leaf ptr g resolved there isParent free gives fresh sound tree files others none =>
        have entry := congrArg (fun tree => tree.entry (.block ptr)) tree
        obtain ⟨new, sits, record⟩ := map_eq_some_iff.mp (entry.trans NamedTree.insert_entry_self)
        have plain : new.isDir = false := congrArg TreeEntry.isDir record
        rcases sound.openNode sits flags with ⟨isDir, -⟩ | ⟨-, n, prepared, opens⟩
        · exact nomatch plain.symm.trans isDir
        · simp only [opens]
          exact .made ⟨⟨errno, found⟩, creat, parent, leaf, _, resolved, free, gives⟩ resolved there isParent free fresh
            sound tree files others none prepared
  | ok place =>
    obtain ⟨node, there⟩ := isSome_iff_exists.mp (h.findNode_live found)
    have notCreates : ¬m.Creates path flags := fun ⟨⟨errno, fails⟩, _⟩ => nomatch found.symm.trans fails
    simp only
    by_cases excl : flags &&& O_CREAT ≠ 0 ∧ flags &&& O_EXCL ≠ 0
    · rw [if_pos excl]
      refine .refused h (SameTree.refl m) (unchanged_refl m) notCreates ?_
      rintro ⟨place', finds, notExcl, -⟩
      exact notExcl excl
    · rw [if_neg excl]
      rcases h.openNode there flags with ⟨isDir, refuses⟩ | ⟨plain, n, prepared, opens⟩
      · rw [refuses]
        refine .refused h (SameTree.refl m) (unchanged_refl m) notCreates ?_
        rintro ⟨place', finds, -, plain, -⟩
        rw [found] at finds
        cases finds
        rw [node_of_some there, isDir] at plain
        exact nomatch plain
      · rw [opens]
        exact .found found there plain excl prepared

/-- A call that fails changes nothing, if and only if there is a free descriptor, or it
neither makes a file nor clears one. -/
theorem Sound.open_atomic (sound : m.Sound) (path : List UInt8) (flags : Nat) :
    ((∃ errno, (m.vfsOpen path flags).2 = .error errno) → Unchanged m (m.vfsOpen path flags).1) ↔
      m.freeFd.isSome ∨ ¬m.Creates path flags ∧ ¬m.Clears path flags := by
  have opens := sound.vfsOpen path flags
  generalize m.vfsOpen path flags = out at opens
  cases opens with
  | refused _ _ unchanged notCreates notClears => exact ⟨fun _ => .inr ⟨notCreates, notClears⟩, fun _ _ => unchanged⟩
  | @found place node n finds there plain notExcl prepared =>
    have notCreates : ¬m.Creates path flags := fun ⟨⟨errno, fails⟩, _⟩ => nomatch finds.symm.trans fails
    rcases n.allocateFd_cases place flags with ⟨none, fails⟩ | ⟨fd, some, -, gives⟩
    · rw [freeFd_congr prepared.files] at none
      rw [fails, none]
      cases prepared with
      | kept keeps =>
        refine ⟨fun _ => .inr ⟨notCreates, ?_⟩, fun _ _ => unchanged_refl m⟩
        rintro ⟨place', -, -, -, truncs, -⟩
        exact nomatch keeps.symm.trans truncs
      | cleared truncs refilled =>
        constructor
        · intro atomic
          refine .inr ⟨notCreates, ?_⟩
          rintro ⟨place', finds', -, -, -, some⟩
          rw [finds] at finds'
          cases finds'
          have same := congrFun (atomic ⟨_, rfl⟩).contents place
          rw [refilled.contents] at same
          rw [← length_contents, ← same] at some
          exact nomatch some
        · rintro (no | ⟨-, notClears⟩) _
          · exact nomatch no
          · refine refilled.unchanged sound there ?_
            by_contra some
            refine notClears ⟨place, finds, notExcl, ?_, truncs, ?_⟩
            · rw [node_of_some there, plain]
            · rw [node_of_some there]
              exact Nat.pos_of_ne_zero some
    · rw [gives, ← freeFd_congr prepared.files, some]
      exact ⟨fun _ => .inl rfl, fun _ ⟨errno, fails⟩ => nomatch fails⟩
  | @made parent dir leaf ptr g n creates _ _ _ _ fresh soundG tree files others none prepared =>
    have same : n.files = m.files := prepared.files.trans files
    rcases n.allocateFd_cases (.block ptr) flags with ⟨none, fails⟩ | ⟨fd, some, -, gives⟩
    · rw [freeFd_congr same] at none
      rw [fails, none]
      constructor
      · intro atomic
        -- one more file than before
        have count : g.fileCount = m.fileCount + 1 := congrArg NamedTree.fileCount tree
        have unchanged := (atomic ⟨_, rfl⟩).fileCount
        rw [prepared.same.fileCount, count] at unchanged
        omega
      · rintro (no | ⟨notCreates, -⟩)
        · exact nomatch no
        · exact absurd creates notCreates
    · rw [gives, ← freeFd_congr same, some]
      exact ⟨fun _ => .inl rfl, fun _ ⟨errno, fails⟩ => nomatch fails⟩

end Mount
end SolarOs.Ramfs
