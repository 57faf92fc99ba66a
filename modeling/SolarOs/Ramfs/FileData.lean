import SolarOs.Library.Memory
import SolarOs.Ramfs.TreeChanges

/-! What the calls on open files do to the bytes of the files: each resize and each write
is the one of a list of bytes, and touches no other file. -/
namespace SolarOs.Ramfs
open ByteMemory FileBytes Function List

variable {heap : Heap} {nodes : Place → Option Node} {spare : List (Nat × Nat)} {p size : Nat}

theorem Houses.write (h : Houses heap nodes ((p, size) :: spare)) {memory : Memory}
    (outside : ∀ i, i < p ∨ p + size ≤ i → memory i = heap.memory i) :
    Houses (heap.withMemory memory) nodes ((p, size) :: spare) ∧ SameData heap (heap.withMemory memory) nodes := by
  obtain ⟨n, ps, holds, fits, kept, housed⟩ := h.withdraw
  have wider : ∀ i, i < p ∨ p + n ≤ i → memory i = heap.memory i := fun i out => outside i (by omega)
  obtain ⟨holds', rest⟩ := holds.write mem_cons_self wider
  have fresh : p ∉ ps.map Prod.fst := by
    have distinct := holds.nodup
    rw [map_cons, nodup_cons] at distinct
    exact distinct.1
  refine ⟨h.drop.deposit holds' fits kept housed, sameData_of_keeps housed fun q k there i inner => ?_⟩
  refine rest q k (mem_cons_of_mem _ there) ?_ i inner
  rintro rfl
  exact fresh (mem_map.mpr ⟨_, there, rfl⟩)

theorem Houses.regrow {data capacity newSize : Nat} (empty : data = 0 → capacity = 0)
    (h : Houses heap nodes ((if data = 0 then [] else [(data, capacity)]) ++ spare)) (positive : 0 < newSize) :
    (∃ errno, Ramfs.realloc heap data capacity newSize = (heap, .error errno)) ∨
      ∃ memory q, Ramfs.realloc heap data capacity newSize = (heap.withMemory memory, .ok q) ∧
        Houses (heap.withMemory memory) nodes ((q, newSize) :: spare) ∧ SameData heap (heap.withMemory memory) nodes ∧
        ∀ i < min capacity newSize, memory (q + i) = heap.memory (data + i) := by
  by_cases zero : data = 0
  · rw [if_pos zero] at h
    have allocates : Ramfs.realloc heap data capacity newSize = Ramfs.alloc heap newSize := by
      rw [Ramfs.realloc, if_neg (Nat.ne_of_gt positive), if_pos zero]
    rw [allocates]
    rcases h.alloc newSize with ⟨errno, none⟩ | ⟨memory, q, some, housed, same⟩
    · exact .inl ⟨errno, none⟩
    · refine .inr ⟨memory, q, some, housed, same, fun i inner => ?_⟩
      rw [empty zero, Nat.zero_min] at inner
      exact absurd inner (Nat.not_lt_zero i)
  · rw [if_neg zero] at h
    exact h.realloc positive

namespace Mount
variable {m m' : Mount} {place : Place} {node : Node} {n : Nat}

def contents (m : Mount) (place : Place) : List UInt8 := load m.heap.memory (m.node place).data (m.node place).size

theorem length_contents (m : Mount) (place : Place) : (m.contents place).length = (m.node place).size :=
  load_length _ _ _

theorem Sound.contents_eq (h : m.Sound) {place : Place}
    (same : (m'.node place).data = (m.node place).data ∧ (m'.node place).size = (m.node place).size)
    (data : ∀ node, m.nodes place = some node → place ≠ .root → node.data ≠ 0 →
      ∀ i < node.capacity, m'.heap.memory (node.data + i) = m.heap.memory (node.data + i)) :
    m'.contents place = m.contents place := by
  unfold contents
  rw [same.1, same.2]
  cases there : m.nodes place with
  | none =>
    rw [node_of_none there]
    rfl
  | some node =>
    rw [node_of_some there]
    apply load_congr
    intro i inner
    have sized := h.sized place node there
    have room : i < node.capacity := sized.full ▸ inner
    have some : node.data ≠ 0 := fun zero => by
      rw [sized.empty.mp zero] at room
      exact Nat.not_lt_zero i room
    refine data node there ?_ some i room
    rintro rfl
    obtain ⟨root, sits, dir, -⟩ := h.linked.root
    rw [sits] at there
    cases there
    exact some (sized.dir dir)

theorem node_congr (same : m'.nodes place = m.nodes place) : m'.node place = m.node place := by
  unfold node
  rw [same]

structure Refilled (m m' : Mount) (place : Place) (bytes : List UInt8) : Prop where
  sound : m'.Sound
  same : SameTree m m'
  nodes : ∀ p, p ≠ place → m'.nodes p = m.nodes p
  files : m'.files = m.files
  contents : m'.contents place = bytes
  others : ∀ p, p ≠ place → m'.contents p = m.contents p

theorem Sound.refilled (h : m.Sound) (there : m.nodes place = some node) (plain : node.isDir = false) {memory : Memory}
    {data capacity : Nat} (empty : data = 0 ↔ capacity = 0)
    (houses : Houses (m.heap.withMemory memory) (update m.nodes place none)
      ((if data = 0 then [] else [(data, capacity)]) ++ { node with data := 0 }.blocks place))
    (same : SameData m.heap (m.heap.withMemory memory) (update m.nodes place none)) :
    Refilled m ({ m with heap := m.heap.withMemory memory }.setNode place { node with data, capacity, size := capacity })
      place (load memory data capacity) := by
  obtain ⟨ptr, rfl⟩ : ∃ ptr, place = .block ptr := by
    cases place with
    | root => exact absurd rfl (h.not_dir_root there plain)
    | block ptr => exact ⟨ptr, rfl⟩
  let new : Node := { node with data, capacity, size := capacity }
  have housed : Houses (m.heap.withMemory memory) (update m.nodes (.block ptr) (some new)) [] := by
    have perm : ((if data = 0 then [] else [(data, capacity)]) ++ { node with data := 0 }.blocks (.block ptr)).Perm
        (new.blocks (.block ptr) ++ []) := by
      rw [append_nil]
      exact perm_append_comm
    have installed := (houses.perm perm).install (update_self _ _ _)
    rwa [update_idem] at installed
  have sits : ({ m with heap := m.heap.withMemory memory }.setNode (.block ptr) new).nodes (.block ptr) = some new :=
    update_self _ _ _
  have bare : SameTree m ({ m with heap := m.heap.withMemory memory }.setNode (.block ptr) new) := by
    refine ⟨fun p => ?_, rfl, rfl, rfl⟩
    by_cases self : p = .block ptr
    · rw [self, sits, there]
      rfl
    · exact congrArg (Option.map Node.bare) (update_of_ne self _ _)
  refine ⟨h.sameTree bare housed ?_ h.files, bare, fun p other => update_of_ne other _ _, rfl, ?_, ?_⟩
  · intro p node' here
    by_cases self : p = .block ptr
    · rw [self, sits] at here
      cases here
      exact ⟨rfl, empty, fun dir => nomatch plain.symm.trans dir⟩
    · exact h.sized p node' ((update_of_ne self _ _).symm.trans here)
  · unfold contents
    rw [node_of_some sits]
    rfl
  · intro p other
    have record : ({ m with heap := m.heap.withMemory memory }.setNode (.block ptr) new).node p = m.node p :=
      node_congr (update_of_ne other _ _)
    refine h.contents_eq (by rw [record]; exact ⟨rfl, rfl⟩) fun node' here inner some i room => ?_
    exact same p node' ((update_of_ne other _ _).trans here) inner some i room

theorem Sound.unfill (h : m.Sound) (there : m.nodes place = some node) (plain : node.isDir = false) :
    Houses m.heap (update m.nodes place none)
      ((if node.data = 0 then [] else [(node.data, node.capacity)]) ++ { node with data := 0 }.blocks place) := by
  obtain ⟨ptr, rfl⟩ : ∃ ptr, place = .block ptr := by
    cases place with
    | root => exact absurd rfl (h.not_dir_root there plain)
    | block ptr => exact ⟨ptr, rfl⟩
  have split : node.blocks (.block ptr) = { node with data := 0 }.blocks (.block ptr) ++
      (if node.data = 0 then [] else [(node.data, node.capacity)]) := rfl
  apply (h.houses.uninstall there).perm
  rw [append_nil, split]
  exact perm_append_comm

/-- A resize fails and changes nothing, or gives a file of that length with the old bytes
and then zeroes. -/
theorem Sound.resizeNode (h : m.Sound) (there : m.nodes place = some node) (n : Nat) :
    (∃ errno, m.resizeNode place n = (m, .error errno)) ∨
      ∃ m', m.resizeNode place n = (m', .ok ()) ∧ node.isDir = false ∧
        Refilled m m' place (resized (m.contents place) n) := by
  unfold Mount.resizeNode
  rw [node_of_some there]
  by_cases isDir : node.isDir = true
  · simp only [if_pos isDir]
    exact .inl ⟨_, rfl⟩
  · have plain : node.isDir = false := Bool.eq_false_of_not_eq_true isDir
    have sized := h.sized place node there
    have old : m.contents place = load m.heap.memory node.data node.capacity := by
      unfold contents
      rw [node_of_some there, sized.full]
    rw [old]
    simp only [if_neg isDir]
    by_cases zero : n = 0
    · rw [if_pos zero, zero]
      refine .inr ⟨_, rfl, plain, ?_⟩
      have none : resized (load m.heap.memory node.data node.capacity) 0 = [] :=
        length_eq_zero_iff.mp (length_resized _ _)
      rw [none]
      have housed := h.unfill there plain
      by_cases empty : node.data = 0
      · rw [if_pos empty] at housed
        rw [empty, free_zero]
        exact h.refilled there plain ⟨fun _ => rfl, fun _ => rfl⟩ housed (SameData.refl _ _)
      · rw [if_neg empty] at housed
        obtain ⟨memory, frees, rest, same⟩ := housed.free
        rw [frees]
        exact h.refilled there plain ⟨fun _ => rfl, fun _ => rfl⟩ rest same
    · rw [if_neg zero]
      have positive : 0 < n := Nat.pos_of_ne_zero zero
      rcases (h.unfill there plain).regrow sized.empty.mp positive with ⟨errno, none⟩ |
        ⟨memory, q, some, housed, same, kept⟩
      · rw [none]
        exact .inl ⟨errno, rfl⟩
      · rw [some]
        refine .inr ⟨_, rfl, plain, ?_⟩
        have nonzero : q ≠ 0 := housed.ptr_ne_zero mem_cons_self
        -- the bytes behind the old ones are cleared
        obtain ⟨memory', cleared, housed', same', bytes⟩ : ∃ memory',
            (if node.capacity < n then
              { m.heap.withMemory memory with memory := fill memory (q + node.capacity) 0 (n - node.capacity) }
            else m.heap.withMemory memory) = m.heap.withMemory memory' ∧
            Houses (m.heap.withMemory memory') (update m.nodes place Option.none)
              ((q, n) :: { node with data := 0 }.blocks place) ∧
            SameData m.heap (m.heap.withMemory memory') (update m.nodes place Option.none) ∧
            ∀ i < n, memory' (q + i) = if i < node.capacity then m.heap.memory (node.data + i) else 0 := by
          by_cases grows : node.capacity < n
          · have outside : ∀ i, i < q ∨ q + n ≤ i →
                fill memory (q + node.capacity) 0 (n - node.capacity) i = memory i :=
              fun i out => fill_outside _ _ _ (by omega)
            obtain ⟨housed', same'⟩ := housed.write outside
            refine ⟨_, if_pos grows, housed', same.trans same', fun i inner => ?_⟩
            by_cases before : i < node.capacity
            · rw [if_pos before, fill_outside _ _ _ (by omega), kept i (by omega)]
            · rw [if_neg before, show q + i = q + node.capacity + (i - node.capacity) by omega, fill_inside _ _ _ (by omega)]
          · refine ⟨memory, if_neg grows, housed, same, fun i inner => ?_⟩
            rw [if_pos (by omega), kept i (by omega)]
        rw [← load_resized bytes]
        simp only [cleared]
        exact h.refilled there plain ⟨fun no => absurd no nonzero, fun no => absurd no zero⟩
          (by rw [if_neg nonzero]; exact housed') same'

theorem Sound.storeBytes (h : m.Sound) (there : m.nodes place = some node) (plain : node.isDir = false) {offset : Nat}
    {bytes : List UInt8} (fits : offset + bytes.length ≤ node.size) :
    Refilled m { m with heap := { m.heap with memory := store m.heap.memory (node.data + offset) bytes } } place
      (writeAt (m.contents place) offset bytes) := by
  have sized := h.sized place node there
  have written : writeAt (m.contents place) offset bytes =
      load (store m.heap.memory (node.data + offset) bytes) node.data node.capacity := by
    unfold writeAt contents
    rw [node_of_some there, load_length, if_neg (by omega), ← sized.full, load_store_within _ _ fits]
  have housed := h.unfill there plain
  have stored : Houses (m.heap.withMemory (store m.heap.memory (node.data + offset) bytes))
        (update m.nodes place none)
        ((if node.data = 0 then [] else [(node.data, node.capacity)]) ++ { node with data := 0 }.blocks place) ∧
      SameData m.heap (m.heap.withMemory (store m.heap.memory (node.data + offset) bytes))
        (update m.nodes place none) := by
    by_cases empty : node.data = 0
    · have none : bytes = [] := by
        rw [sized.full, sized.empty.mp empty] at fits
        exact length_eq_zero_iff.mp (by omega)
      have unchanged : store m.heap.memory (node.data + offset) [] = m.heap.memory := by
        cases memory : m.heap.memory with
        | mk byte =>
          unfold store
          simp
      rw [none, unchanged]
      exact ⟨housed, SameData.refl _ _⟩
    · rw [if_neg empty] at housed ⊢
      exact housed.write fun i out => store_outside _ _ (by rw [← sized.full] at out; omega)
  rw [written]
  have result := h.refilled there plain sized.empty stored.1 stored.2
  have record : ({ m with heap := m.heap.withMemory (store m.heap.memory (node.data + offset) bytes) } : Mount).setNode
      place { node with size := node.capacity } =
      { m with heap := { m.heap with memory := store m.heap.memory (node.data + offset) bytes } } := by
    have same : { node with size := node.capacity } = node := congrArg (fun size => { node with size }) sized.full.symm
    rw [same]
    unfold setNode
    simp only [Mount.mk.injEq, true_and, and_true]
    rw [← there, update_eq_self]
  rw [← record]
  exact result

theorem setFile_files (m : Mount) (fd : Fin maxOpenFiles) (file : Option RamfsFile) :
    (m.setFile fd file).files = update m.files fd file := rfl

theorem Sound.setFile (h : m.Sound) (fd : Fin maxOpenFiles) {file : Option RamfsFile}
    (there : ∀ opened, file = some opened → ∃ node, m.nodes opened.node = some node ∧ node.isDir = false) :
    (m.setFile fd file).Sound := by
  have same : SameTree m (m.setFile fd file) := ⟨fun _ => rfl, rfl, rfl, rfl⟩
  refine h.sameTree same h.houses h.sized fun fd' file' here => ?_
  by_cases mine : fd' = fd
  · subst mine
    rw [setFile_files, update_self] at here
    exact there file' here
  · rw [setFile_files, update_of_ne mine] at here
    exact h.files fd' file' here

end Mount
end SolarOs.Ramfs
