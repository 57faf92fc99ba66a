import SolarOs.Library.NamedTree
import SolarOs.Ramfs.Housing
import SolarOs.Ramfs.Linked
import SolarOs.Ramfs.Resolution

/-! What holds of every mount: its nodes have blocks of their own, the sibling chains are
the children of a tree, and the open files are files of it. -/
namespace SolarOs.Ramfs
open ByteMemory LinkedList List Option

/-- The sizes of a node's data agree, and directories have none. -/
structure Node.Sized (node : Node) : Prop where
  full : node.size = node.capacity
  empty : node.data = 0 ↔ node.capacity = 0
  dir : node.isDir = true → node.data = 0

def Place.address : Place → Nat
  | .root => 0
  | .block ptr => ptr

namespace Mount
variable {m m' : Mount} {kids : Place → List Place} {place parent q : Place} {node : Node} {name : Name}
  {path : List UInt8}

def tree (m : Mount) : NamedTree Place Name where
  entry := fun place => (m.nodes place).map fun node => ⟨node.name, node.isDir, node.parent⟩
  children := m.childrenOf
  fileCount := m.fileCount
  dirCount := m.dirCount

structure Sound (m : Mount) : Prop where
  houses : Houses m.heap m.nodes []
  sized : ∀ place node, m.nodes place = some node → node.Sized
  linked : m.Linked m.childrenOf none
  files : ∀ fd file, m.files fd = some file → ∃ node, m.nodes file.node = some node ∧ node.isDir = false

theorem length_kids (houses : Houses m.heap m.nodes []) (h : m.Linked kids none) (live : (m.nodes place).isSome) :
    (kids place).length ≤ m.heap.arenaBytes := by
  obtain ⟨ps, holds, -, housed⟩ := houses.covered
  have block : ∀ c ∈ kids place, ∃ ptr, c = .block ptr ∧ ptr ∈ ps.map Prod.fst := by
    intro c inside
    obtain ⟨-, node, there, up⟩ := h.child place live c inside
    cases c with
    | root =>
      obtain ⟨root, sits, -, top⟩ := h.root
      rw [sits] at there
      cases there
      exact nomatch top.symm.trans up
    | block ptr =>
      obtain ⟨n, held, -⟩ := housed _ node there (ptr, nodeBytes) mem_cons_self
      exact ⟨ptr, rfl, mem_map.mpr ⟨_, held, rfl⟩⟩
  have distinct : ((kids place).map Place.address).Nodup := by
    refine (h.nodup live).map_on fun c inside c' inside' same => ?_
    obtain ⟨ptr, rfl, -⟩ := block c inside
    obtain ⟨ptr', rfl, -⟩ := block c' inside'
    exact congrArg Place.block same
  have sub : (kids place).map Place.address ⊆ ps.map Prod.fst := by
    intro a inside
    obtain ⟨c, among, rfl⟩ := mem_map.mp inside
    obtain ⟨ptr, rfl, held⟩ := block c among
    exact held
  have le := (subperm_of_subset distinct sub).length_le
  rw [length_map, length_map] at le
  exact le.trans holds.length_le

theorem kids_eq (houses : Houses m.heap m.nodes []) (h : m.Linked kids none) (live : (m.nodes place).isSome) :
    m.childrenOf place = kids place := by
  obtain ⟨node, there⟩ := isSome_iff_exists.mp live
  unfold childrenOf
  rw [node_of_some there]
  exact (h.chain place node there).toList (length_kids houses h live)

theorem childrenOf_none (dead : m.nodes place = none) : m.childrenOf place = [] := by
  unfold childrenOf
  rw [node_of_none dead]
  cases m.heap.arenaBytes <;> rfl

theorem childrenOf_eq (houses : Houses m.heap m.nodes []) (h : m.Linked kids none)
    (dead : ∀ p, m.nodes p = none → kids p = []) : m.childrenOf = kids := by
  funext p
  cases there : m.nodes p with
  | none => rw [childrenOf_none there, dead p there]
  | some node => exact kids_eq houses h (isSome_iff_exists.mpr ⟨node, there⟩)

theorem tree_entry (there : m.nodes place = some node) :
    m.tree.entry place = some ⟨node.name, node.isDir, node.parent⟩ := by
  simp only [tree, there, map_some]

theorem Sound.consistent (h : m.Sound) : m.tree.Consistent .root := by
  have entries : ∀ p e, m.tree.entry p = some e →
      ∃ node, m.nodes p = some node ∧ e = ⟨node.name, node.isDir, node.parent⟩ := by
    intro p e there
    obtain ⟨node, sits, rfl⟩ := map_eq_some_iff.mp there
    exact ⟨node, sits, rfl⟩
  have live : ∀ p, (m.tree.entry p).isSome = (m.nodes p).isSome := fun p => isSome_map
  constructor
  · obtain ⟨root, there, dir, top⟩ := h.linked.root
    exact ⟨_, tree_entry there, dir, top⟩
  · intro p here c inside
    obtain ⟨-, node, there, up⟩ := h.linked.child p (live p ▸ here) c inside
    exact ⟨_, tree_entry there, up⟩
  · intro p e there other
    obtain ⟨node, sits, rfl⟩ := entries p e there
    obtain ⟨q, up, here, inside⟩ := h.linked.parent p node sits other nofun
    exact ⟨q, up, (live q).trans here, inside⟩
  · intro p
    cases there : m.nodes p with
    | none =>
      have none : m.tree.children p = [] := childrenOf_none there
      rw [none]
      exact nodup_nil
    | some node => exact h.linked.nodup (isSome_iff_exists.mpr ⟨node, there⟩)
  · intro p e there plain
    obtain ⟨node, sits, rfl⟩ := entries p e there
    exact h.linked.file p node sits plain

theorem Sound.root_live (h : m.Sound) : (m.nodes .root).isSome := by
  obtain ⟨root, there, -⟩ := h.linked.root
  exact isSome_iff_exists.mpr ⟨root, there⟩

theorem Sound.child_live (h : m.Sound) {c : Place} (inside : c ∈ m.childrenOf place) : (m.nodes c).isSome := by
  cases there : m.nodes place with
  | none =>
    rw [childrenOf_none there] at inside
    exact absurd inside not_mem_nil
  | some node =>
    obtain ⟨-, child, sits, -⟩ := h.linked.child place (isSome_iff_exists.mpr ⟨node, there⟩) c inside
    exact isSome_iff_exists.mpr ⟨child, sits⟩

theorem Sound.parent_live (h : m.Sound) (live : (m.nodes place).isSome) :
    (m.nodes ((m.node place).parent.getD place)).isSome := by
  obtain ⟨node, there⟩ := isSome_iff_exists.mp live
  rw [node_of_some there]
  by_cases top : place = .root
  · obtain ⟨root, sits, -, up⟩ := h.linked.root
    rw [top] at there
    rw [sits] at there
    cases there
    rw [up, top]
    exact h.root_live
  · obtain ⟨q, up, here, -⟩ := h.linked.parent place node there top nofun
    rw [up]
    exact here

theorem childNamed_mem {segment : List UInt8} {c : Place} (found : m.childNamed place segment = some c) :
    c ∈ m.childrenOf place := mem_of_find?_eq_some found

theorem Sound.walk_live (h : m.Sound) {segments : List (List UInt8)} {stop : Place} (live : (m.nodes place).isSome)
    (leads : m.walk place segments = some stop) : (m.nodes stop).isSome := by
  induction segments generalizing place with
  | nil =>
    cases leads
    exact live
  | cons segment segments ih =>
    rw [walk] at leads
    split at leads
    · exact ih live leads
    · split at leads
      · exact ih (h.parent_live live) leads
      · split at leads
        · cases leads
        · split at leads
          · cases leads
          · rename_i child found
            exact ih (h.child_live (childNamed_mem found)) leads

theorem Sound.findNode_live (h : m.Sound) (found : m.findNode path = .ok place) : (m.nodes place).isSome :=
  h.walk_live h.root_live (findNode_eq_ok.mp found).2

theorem Sound.resolveFrom_live (h : m.Sound) {last leaf : Name} {cursor : List UInt8} (live : (m.nodes place).isSome)
    (leads : m.resolveFrom place last cursor = .ok (parent, leaf)) : (m.nodes parent).isSome := by
  induction length : cursor.length using Nat.strongRecOn generalizing place last cursor with
  | _ length ih =>
    subst length
    rw [resolveFrom] at leads
    split at leads
    · cases leads
      exact live
    · rename_i segment rest next
      have less := nextSegment_shorter next
      split at leads
      · exact ih _ less live leads rfl
      · split at leads
        · exact ih _ less (h.parent_live live) leads rfl
        · split at leads
          · cases leads
            exact live
          · split at leads
            · cases leads
            · rename_i child found
              rw [findChild_eq] at found
              split at leads
              · cases leads
              · exact ih _ less (h.child_live (childNamed_mem found)) leads rfl

theorem Sound.resolveParent_live (h : m.Sound) {leaf : Name} (leads : m.resolveParent path = .ok (parent, leaf)) :
    ∃ node, m.nodes parent = some node ∧ node.isDir = true := by
  unfold resolveParent at leads
  split at leads
  · exact nomatch leads
  · rename_i place last found
    split at leads
    · exact nomatch leads
    · split at leads
      · exact nomatch leads
      · rename_i notFile
        cases leads
        obtain ⟨node, there⟩ := isSome_iff_exists.mp (h.resolveFrom_live h.root_live found)
        rw [node_of_some there, Bool.not_eq_false] at notFile
        exact ⟨node, there, notFile⟩

theorem Sound.not_dir_root (h : m.Sound) (there : m.nodes place = some node) (plain : node.isDir = false) :
    place ≠ .root := by
  rintro rfl
  obtain ⟨root, sits, dir, -⟩ := h.linked.root
  rw [sits] at there
  cases there
  exact nomatch dir.symm.trans plain

end Mount

def Node.bare (node : Node) : Node := { node with data := 0, size := 0, capacity := 0 }

namespace Mount
variable {m m' : Mount} {place : Place} {node : Node}

structure SameTree (m m' : Mount) : Prop where
  bare : ∀ p, (m'.nodes p).map Node.bare = (m.nodes p).map Node.bare
  fileCount : m'.fileCount = m.fileCount
  dirCount : m'.dirCount = m.dirCount
  arenaBytes : m'.heap.arenaBytes = m.heap.arenaBytes

theorem SameTree.refl (m : Mount) : SameTree m m := ⟨fun _ => rfl, rfl, rfl, rfl⟩

theorem SameTree.trans {m'' : Mount} (h : SameTree m m') (h' : SameTree m' m'') : SameTree m m'' :=
  ⟨fun p => (h'.bare p).trans (h.bare p), h'.fileCount.trans h.fileCount, h'.dirCount.trans h.dirCount,
    h'.arenaBytes.trans h.arenaBytes⟩

theorem SameTree.new (h : SameTree m m') (there : m.nodes place = some node) :
    ∃ node', m'.nodes place = some node' ∧ node'.bare = node.bare := by
  have eq := h.bare place
  rw [there, map_some] at eq
  exact map_eq_some_iff.mp eq

theorem SameTree.links (h : SameTree m m') (p : Place) : (m'.nodes p).map Node.links = (m.nodes p).map Node.links := by
  have eq := congrArg (Option.map Node.links) (h.bare p)
  rwa [Option.map_map, Option.map_map] at eq

theorem SameTree.tree (h : SameTree m m') : m'.tree = m.tree := by
  have entry : m'.tree.entry = m.tree.entry := by
    funext p
    have eq := congrArg (Option.map fun node : Node => TreeEntry.mk node.name node.isDir node.parent) (h.bare p)
    rwa [Option.map_map, Option.map_map] at eq
  have node : ∀ p, (m'.node p).links = (m.node p).links := by
    intro p
    have eq := h.links p
    cases there : m.nodes p with
    | none =>
      rw [there, map_none, map_eq_none_iff] at eq
      rw [node_of_none there, node_of_none eq]
    | some node =>
      rw [there, map_some] at eq
      obtain ⟨node', sits, links⟩ := map_eq_some_iff.mp eq
      rw [node_of_some there, node_of_some sits, links]
  have next : m'.next = m.next := by
    funext p
    exact congrArg (·.2.2.2) (node p)
  have children : m'.childrenOf = m.childrenOf := by
    funext p
    unfold childrenOf
    rw [next, h.arenaBytes, show (m'.node p).children = (m.node p).children from congrArg (·.2.2.1) (node p)]
  unfold Mount.tree at entry ⊢
  rw [children, h.fileCount, h.dirCount]
  simpa using entry

theorem Sound.sameTree (h : m.Sound) (same : SameTree m m') (houses : Houses m'.heap m'.nodes [])
    (sized : ∀ place node, m'.nodes place = some node → node.Sized)
    (files : ∀ fd file, m'.files fd = some file → ∃ node, m.nodes file.node = some node ∧ node.isDir = false) :
    m'.Sound := by
  have children : m'.childrenOf = m.childrenOf := congrArg NamedTree.children same.tree
  refine ⟨houses, sized, ?_, fun fd file there => ?_⟩
  · rw [children]
    exact h.linked.congr same.links
  · obtain ⟨node, sits, plain⟩ := files fd file there
    obtain ⟨node', sits', bare⟩ := same.new sits
    have type : node'.bare.isDir = node.bare.isDir := congrArg Node.isDir bare
    exact ⟨node', sits', type.trans plain⟩

end Mount
end SolarOs.Ramfs
