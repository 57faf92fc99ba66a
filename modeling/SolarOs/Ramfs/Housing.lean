import SolarOs.Ramfs.Allocation
import SolarOs.Ramfs.Calls

/-! Whose blocks the payloads of the arena are: each node has its record, its name and its
data in blocks of its own, and the bytes of a file lie in one of them. -/
namespace SolarOs.Ramfs
open ByteMemory Function List

variable {heap : Heap} {nodes nodes' : Place → Option Node} {node : Node} {place : Place}
  {spare spare' : List (Nat × Nat)} {ps : List (Nat × Nat)} {p size : Nat}

def Node.blocks (node : Node) : Place → List (Nat × Nat)
  | .root => []
  | .block ptr => (ptr, nodeBytes) :: (node.namePtr, node.name.bytes.length + 1) ::
      if node.data = 0 then [] else [(node.data, node.capacity)]

def Covers (ps : List (Nat × Nat)) (block : Nat × Nat) : Prop := ∃ n, (block.1, n) ∈ ps ∧ block.2 ≤ n

/-- The nodes' blocks and some spare ones are payloads in use, and no two of them are the same. -/
structure Houses (heap : Heap) (nodes : Place → Option Node) (spare : List (Nat × Nat)) : Prop where
  covered : ∃ ps, heap.Holds ps ∧ (∀ block ∈ spare, Covers ps block) ∧
    ∀ place node, nodes place = some node → ∀ block ∈ node.blocks place, Covers ps block
  spares : (spare.map Prod.fst).Nodup
  parts : ∀ place node, nodes place = some node → ((node.blocks place).map Prod.fst).Nodup
  apart : ∀ place node, nodes place = some node → ∀ block ∈ node.blocks place, ∀ other ∈ spare, block.1 ≠ other.1
  others : ∀ place place' node node', nodes place = some node → nodes place' = some node' → place ≠ place' →
    ∀ block ∈ node.blocks place, ∀ block' ∈ node'.blocks place', block.1 ≠ block'.1

def SameData (heap heap' : Heap) (nodes : Place → Option Node) : Prop :=
  ∀ place node, nodes place = some node → place ≠ .root → node.data ≠ 0 →
    ∀ i < node.capacity, heap'.memory (node.data + i) = heap.memory (node.data + i)

theorem SameData.refl (heap : Heap) (nodes : Place → Option Node) : SameData heap heap nodes :=
  fun _ _ _ _ _ _ _ => rfl

theorem SameData.trans {heap' heap'' : Heap} (h : SameData heap heap' nodes) (h' : SameData heap' heap'' nodes) :
    SameData heap heap'' nodes :=
  fun place node there inside some i inner =>
    (h' place node there inside some i inner).trans (h place node there inside some i inner)

theorem Covers.mono {block : Nat × Nat} {qs : List (Nat × Nat)} (h : Covers ps block) (sub : ps ⊆ qs) :
    Covers qs block := by
  obtain ⟨n, there, fits⟩ := h
  exact ⟨n, sub there, fits⟩

theorem mem_blocks_data (inside : place ≠ .root) (some : node.data ≠ 0) :
    (node.data, node.capacity) ∈ node.blocks place := by
  cases place with
  | root => exact absurd rfl inside
  | block ptr => simp [Node.blocks, some]

theorem Houses.perm (h : Houses heap nodes spare) (perm : spare.Perm spare') : Houses heap nodes spare' := by
  obtain ⟨ps, holds, kept, housed⟩ := h.covered
  refine ⟨⟨ps, holds, fun block there => kept block (perm.mem_iff.mpr there), housed⟩, ?_, h.parts, ?_, h.others⟩
  · exact (perm.map _).nodup_iff.mp h.spares
  · exact fun place node there block mine other spared => h.apart place node there block mine other (perm.mem_iff.mpr spared)

theorem Houses.congr (h : Houses heap nodes spare) (same : ∀ place node', nodes' place = some node' →
      ∃ node, nodes place = some node ∧ node'.blocks place = node.blocks place) : Houses heap nodes' spare := by
  obtain ⟨ps, holds, kept, housed⟩ := h.covered
  refine ⟨⟨ps, holds, kept, fun place node' there => ?_⟩, h.spares, fun place node' there => ?_,
    fun place node' there => ?_, fun place place' node₁ node₂ there there' other => ?_⟩
  · obtain ⟨node, here, blocks⟩ := same place node' there
    rw [blocks]
    exact housed place node here
  · obtain ⟨node, here, blocks⟩ := same place node' there
    rw [blocks]
    exact h.parts place node here
  · obtain ⟨node, here, blocks⟩ := same place node' there
    rw [blocks]
    exact h.apart place node here
  · obtain ⟨node, here, blocks⟩ := same place node₁ there
    obtain ⟨node', here', blocks'⟩ := same place' node₂ there'
    rw [blocks, blocks']
    exact h.others place place' node node' here here' other

theorem Houses.install (h : Houses heap nodes (node.blocks place ++ spare)) (fresh : nodes place = none) :
    Houses heap (update nodes place (some node)) spare := by
  obtain ⟨ps, holds, kept, housed⟩ := h.covered
  have spares := h.spares
  rw [map_append, nodup_append] at spares
  have look : ∀ place' node', update nodes place (some node) place' = some node' →
      place' = place ∧ node' = node ∨ place' ≠ place ∧ nodes place' = some node' := by
    intro place' node' there
    by_cases here : place' = place
    · subst here
      rw [update_self] at there
      exact .inl ⟨rfl, (Option.some.inj there).symm⟩
    · rw [update_of_ne here] at there
      exact .inr ⟨here, there⟩
  refine ⟨⟨ps, holds, fun block there => kept block (mem_append_right _ there), ?_⟩, spares.2.1, ?_, ?_, ?_⟩
  · intro place' node' there
    rcases look place' node' there with ⟨rfl, rfl⟩ | ⟨-, old⟩
    · exact fun block mine => kept block (mem_append_left _ mine)
    · exact housed place' node' old
  · intro place' node' there
    rcases look place' node' there with ⟨rfl, rfl⟩ | ⟨-, old⟩
    · exact spares.1
    · exact h.parts place' node' old
  · intro place' node' there block mine other spared
    rcases look place' node' there with ⟨rfl, rfl⟩ | ⟨-, old⟩
    · exact spares.2.2 _ (mem_map_of_mem mine) _ (mem_map_of_mem spared)
    · exact h.apart place' node' old block mine other (mem_append_right _ spared)
  · intro place₁ place₂ node₁ node₂ there there' other block mine block' mine'
    rcases look place₁ node₁ there with ⟨rfl, rfl⟩ | ⟨-, old⟩ <;>
      rcases look place₂ node₂ there' with ⟨rfl, rfl⟩ | ⟨-, old'⟩
    · exact absurd rfl other
    · exact (h.apart place₂ node₂ old' block' mine' block (mem_append_left _ mine)).symm
    · exact h.apart place₁ node₁ old block mine block' (mem_append_left _ mine')
    · exact h.others place₁ place₂ node₁ node₂ old old' other block mine block' mine'

theorem Houses.uninstall (h : Houses heap nodes spare) (there : nodes place = some node) :
    Houses heap (update nodes place none) (node.blocks place ++ spare) := by
  obtain ⟨ps, holds, kept, housed⟩ := h.covered
  have look : ∀ place' node', update nodes place none place' = some node' →
      place' ≠ place ∧ nodes place' = some node' := by
    intro place' node' here
    by_cases same : place' = place
    · subst same
      rw [update_self] at here
      exact nomatch here
    · rw [update_of_ne same] at here
      exact ⟨same, here⟩
  refine ⟨⟨ps, holds, ?_, fun place' node' here => housed place' node' (look place' node' here).2⟩, ?_,
    fun place' node' here => h.parts place' node' (look place' node' here).2, ?_, ?_⟩
  · intro block mine
    rcases mem_append.mp mine with mine | spared
    · exact housed place node there block mine
    · exact kept block spared
  · rw [map_append, nodup_append]
    refine ⟨h.parts place node there, h.spares, ?_⟩
    intro ptr ptrMine ptr' ptrSpared
    obtain ⟨block, mine, rfl⟩ := mem_map.mp ptrMine
    obtain ⟨other, spared, rfl⟩ := mem_map.mp ptrSpared
    exact h.apart place node there block mine other spared
  · intro place' node' here block theirs other mine
    obtain ⟨elsewhere, old⟩ := look place' node' here
    rcases mem_append.mp mine with mine | spared
    · exact h.others place' place node' node old there elsewhere block theirs other mine
    · exact h.apart place' node' old block theirs other spared
  · intro place₁ place₂ node₁ node₂ here here'
    exact h.others place₁ place₂ node₁ node₂ (look place₁ node₁ here).2 (look place₂ node₂ here').2

theorem Houses.withdraw (h : Houses heap nodes ((p, size) :: spare)) :
    ∃ n ps, heap.Holds ((p, n) :: ps) ∧ size ≤ n ∧ (∀ block ∈ spare, Covers ps block) ∧
      ∀ place node, nodes place = some node → ∀ block ∈ node.blocks place, Covers ps block := by
  obtain ⟨ps, holds, kept, housed⟩ := h.covered
  obtain ⟨n, held, fits⟩ := kept (p, size) mem_cons_self
  obtain ⟨first, last, rfl⟩ := append_of_mem held
  have still : ∀ block, block.1 ≠ p → Covers (first ++ (p, n) :: last) block → Covers (first ++ last) block := by
    rintro block other ⟨k, there, fits⟩
    refine ⟨k, ?_, fits⟩
    simp only [mem_append, mem_cons, Prod.mk.injEq] at there ⊢
    rcases there with there | ⟨same, -⟩ | there
    · exact .inl there
    · exact absurd same other
    · exact .inr there
  have spares := h.spares
  rw [map_cons, nodup_cons] at spares
  refine ⟨n, first ++ last, holds.perm perm_middle, fits, ?_, ?_⟩
  · intro block spared
    refine still block ?_ (kept block (mem_cons_of_mem _ spared))
    exact fun same => spares.1 (mem_map.mpr ⟨block, spared, same⟩)
  · exact fun place node there block mine =>
      still block (h.apart place node there block mine (p, size) mem_cons_self) (housed place node there block mine)

theorem Houses.drop (h : Houses heap nodes ((p, size) :: spare)) : Houses heap nodes spare := by
  obtain ⟨ps, holds, kept, housed⟩ := h.covered
  have spares := h.spares
  rw [map_cons, nodup_cons] at spares
  exact ⟨⟨ps, holds, fun block spared => kept block (mem_cons_of_mem _ spared), housed⟩, spares.2, h.parts,
    fun place node there block mine other spared => h.apart place node there block mine other (mem_cons_of_mem _ spared),
    h.others⟩

theorem sameData_of_keeps {memory : Memory}
    (housed : ∀ place node, nodes place = some node → ∀ block ∈ node.blocks place, Covers ps block)
    (keeps : Keeps heap.memory memory ps) : SameData heap (heap.withMemory memory) nodes := by
  intro place node there inside some i inner
  obtain ⟨k, held, room⟩ := housed place node there _ (mem_blocks_data inside some)
  exact keeps _ _ held i (Nat.lt_of_lt_of_le inner room)

theorem Houses.free (h : Houses heap nodes ((p, size) :: spare)) :
    ∃ memory, Ramfs.free heap p = heap.withMemory memory ∧ Houses (heap.withMemory memory) nodes spare ∧
      SameData heap (heap.withMemory memory) nodes := by
  obtain ⟨n, ps, holds, -, kept, housed⟩ := h.withdraw
  obtain ⟨memory, frees, rest, keeps⟩ := free_spec holds
  have fewer := h.drop
  exact ⟨memory, frees, ⟨⟨ps, rest, kept, housed⟩, fewer.spares, fewer.parts, fewer.apart, fewer.others⟩,
    sameData_of_keeps housed keeps⟩

theorem Houses.deposit {memory : Memory} {n : Nat} (h : Houses heap nodes spare)
    (holds : (heap.withMemory memory).Holds ((p, n) :: ps)) (fits : size ≤ n) (kept : ∀ block ∈ spare, Covers ps block)
    (housed : ∀ place node, nodes place = some node → ∀ block ∈ node.blocks place, Covers ps block) :
    Houses (heap.withMemory memory) nodes ((p, size) :: spare) := by
  have fresh : ∀ block, Covers ps block → block.1 ≠ p := by
    rintro block ⟨k, there, -⟩ rfl
    have distinct := holds.nodup
    rw [map_cons, nodup_cons] at distinct
    exact distinct.1 (mem_map.mpr ⟨_, there, rfl⟩)
  refine ⟨⟨(p, n) :: ps, holds, ?_, ?_⟩, ?_, h.parts, ?_, h.others⟩
  · intro block there
    rcases mem_cons.mp there with rfl | spared
    · exact ⟨n, mem_cons_self, fits⟩
    · exact (kept block spared).mono (subset_cons_self _ _)
  · exact fun place node there block mine => (housed place node there block mine).mono (subset_cons_self _ _)
  · rw [map_cons, nodup_cons]
    refine ⟨fun again => ?_, h.spares⟩
    obtain ⟨block, spared, same⟩ := mem_map.mp again
    exact fresh block (kept block spared) same
  · intro place node there block mine other spared
    rcases mem_cons.mp spared with rfl | spared
    · exact fresh block (housed place node there block mine)
    · exact h.apart place node there block mine other spared

theorem Houses.alloc (h : Houses heap nodes spare) (size : Nat) :
    (∃ errno, Ramfs.alloc heap size = (heap, .error errno)) ∨
      ∃ memory p, Ramfs.alloc heap size = (heap.withMemory memory, .ok p) ∧
        Houses (heap.withMemory memory) nodes ((p, size) :: spare) ∧ SameData heap (heap.withMemory memory) nodes := by
  obtain ⟨ps, holds, kept, housed⟩ := h.covered
  have spec := alloc_spec holds size
  generalize result : Ramfs.alloc heap size = out at spec
  cases spec with
  | fails errno => exact .inl ⟨errno, rfl⟩
  | @gives memory p n _ fits holds' keeps =>
    exact .inr ⟨memory, p, rfl, h.deposit holds' fits kept housed, sameData_of_keeps housed keeps⟩

theorem Houses.realloc (h : Houses heap nodes ((p, size) :: spare)) {newSize : Nat} (positive : 0 < newSize) :
    (∃ errno, Ramfs.realloc heap p size newSize = (heap, .error errno)) ∨
      ∃ memory q, Ramfs.realloc heap p size newSize = (heap.withMemory memory, .ok q) ∧
        Houses (heap.withMemory memory) nodes ((q, newSize) :: spare) ∧ SameData heap (heap.withMemory memory) nodes ∧
        ∀ i < min size newSize, memory (q + i) = heap.memory (p + i) := by
  obtain ⟨n, ps, holds, room, kept, housed⟩ := h.withdraw
  have spec := realloc_spec holds size positive
  generalize result : Ramfs.realloc heap p size newSize = out at spec
  cases spec with
  | fails errno => exact .inl ⟨errno, rfl⟩
  | @gives memory q k fits holds' keeps moved =>
    refine .inr ⟨memory, q, rfl, h.drop.deposit holds' fits kept housed, sameData_of_keeps housed keeps, ?_⟩
    intro i inner
    exact moved i (by omega)

theorem free_zero (heap : Heap) : Ramfs.free heap 0 = heap := rfl

theorem Houses.freeBlocks {ptr : Nat} (h : Houses heap nodes (node.blocks (.block ptr) ++ spare)) :
    ∃ memory, Ramfs.free (Ramfs.free (Ramfs.free heap node.data) node.namePtr) ptr = heap.withMemory memory ∧
      Houses (heap.withMemory memory) nodes spare := by
  have last : ∀ {memory : Memory}, Houses (heap.withMemory memory) nodes
      ((ptr, nodeBytes) :: (node.namePtr, node.name.bytes.length + 1) :: spare) →
      ∃ memory', Ramfs.free (Ramfs.free (heap.withMemory memory) node.namePtr) ptr = heap.withMemory memory' ∧
        Houses (heap.withMemory memory') nodes spare := by
    intro memory housed
    obtain ⟨memory₁, frees, housed₁, -⟩ := (housed.perm (List.Perm.swap _ _ _)).free
    obtain ⟨memory₂, frees', housed₂, -⟩ := housed₁.free
    exact ⟨memory₂, by rw [frees, frees'], housed₂⟩
  unfold Node.blocks at h
  by_cases zero : node.data = 0
  · rw [if_pos zero] at h
    rw [zero, free_zero]
    exact last h
  · rw [if_neg zero] at h
    have perm : ((ptr, nodeBytes) :: (node.namePtr, node.name.bytes.length + 1) :: [(node.data, node.capacity)] ++ spare).Perm
        ((node.data, node.capacity) :: (ptr, nodeBytes) :: (node.namePtr, node.name.bytes.length + 1) :: spare) :=
      @perm_middle _ _ [(ptr, nodeBytes), (node.namePtr, node.name.bytes.length + 1)] spare
    obtain ⟨memory, frees, housed, -⟩ := (h.perm perm).free
    rw [frees]
    exact last housed

theorem Houses.ptr_ne_zero (h : Houses heap nodes spare) {block : Nat × Nat} (mine : block ∈ spare) : block.1 ≠ 0 := by
  obtain ⟨ps, holds, kept, -⟩ := h.covered
  obtain ⟨n, there, -⟩ := kept block mine
  have bounds := holds.bounds there
  unfold blockHeaderBytes at bounds
  omega

end SolarOs.Ramfs
