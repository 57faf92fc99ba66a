import SolarOs.Ramfs.Sound

/-! Making, removing and moving a node change the tree as they should. -/
namespace SolarOs.Ramfs
open ByteMemory LinkedList Function List Option

theorem Houses.fresh {heap : Heap} {nodes : Place → Option Node} {spare : List (Nat × Nat)} {block : Nat × Nat}
    (h : Houses heap nodes spare) (mine : block ∈ spare) : nodes (.block block.1) = none := by
  cases there : nodes (.block block.1) with
  | none => rfl
  | some node => exact absurd rfl (h.apart _ node there (block.1, nodeBytes) mem_cons_self block mine)

namespace Mount
variable {m m' : Mount} {kids : Place → List Place} {place parent q : Place} {node dir : Node} {name : Name}
  {isDir : Bool} {ptr copy : Nat} {xs ys : List Place}

theorem Linked.off_fresh (h : m.Linked kids none) (fresh : m.nodes place = none) : m.Linked kids (some place) := by
  refine ⟨h.root, h.chain, h.file, fun p live c inside => ?_, fun p node there inner _ => h.parent p node there inner nofun⟩
  obtain ⟨-, child, there, up⟩ := h.child p live c inside
  refine ⟨?_, child, there, up⟩
  rintro ⟨⟩
  exact nomatch fresh.symm.trans there

theorem sound_of (houses : Houses m.heap m.nodes []) (sized : ∀ place node, m.nodes place = some node → node.Sized)
    (linked : m.Linked kids none) (dead : ∀ p, m.nodes p = none → kids p = [])
    (files : ∀ fd file, m.files fd = some file → ∃ node, m.nodes file.node = some node ∧ node.isDir = false) :
    m.Sound ∧ m.childrenOf = kids := by
  have children := childrenOf_eq houses linked dead
  exact ⟨⟨houses, sized, children ▸ linked, files⟩, children⟩

theorem Sound.rehouse (h : m.Sound) {memory : Memory} (houses : Houses (m.heap.withMemory memory) m.nodes []) :
    ({ m with heap := m.heap.withMemory memory } : Mount).Sound ∧
      ({ m with heap := m.heap.withMemory memory } : Mount).tree = m.tree := by
  have same : SameTree m { m with heap := m.heap.withMemory memory } := ⟨fun _ => rfl, rfl, rfl, rfl⟩
  exact ⟨h.sameTree same houses h.sized h.files, same.tree⟩

theorem linkFirst_some (there : m.nodes parent = some dir) {p : Place} {node' : Node}
    (sits : (m.linkFirst place parent node).nodes p = some node') :
    (p = place ∧ ∃ children, node' = { node with parent := some parent, next := dir.children, children }) ∨
      p ≠ place ∧ ∃ old, m.nodes p = some old ∧ ∃ children, node' = { old with children } := by
  rw [linkFirst_nodes] at sits
  by_cases self : p = place
  · subst self
    refine .inl ⟨rfl, ?_⟩
    by_cases own : p = parent
    · rw [if_pos own, if_pos own.symm, node_of_some there] at sits
      cases sits
      exact ⟨_, rfl⟩
    · rw [if_neg own, if_pos rfl, node_of_some there] at sits
      cases sits
      exact ⟨_, rfl⟩
  · refine .inr ⟨self, ?_⟩
    by_cases own : p = parent
    · subst own
      rw [if_pos rfl, if_neg self, node_of_some there] at sits
      cases sits
      exact ⟨dir, there, _, rfl⟩
    · rw [if_neg own, if_neg self] at sits
      exact ⟨node', sits, node'.children, rfl⟩

theorem linkFirst_entry (there : m.nodes parent = some dir) (p : Place) :
    ((m.linkFirst place parent node).nodes p).map (fun node => TreeEntry.mk node.name node.isDir node.parent) =
      update (fun p => (m.nodes p).map fun node => TreeEntry.mk node.name node.isDir node.parent) place
        (some ⟨node.name, node.isDir, some parent⟩) p := by
  rw [linkFirst_nodes]
  by_cases self : p = place
  · subst self
    rw [update_self]
    by_cases own : p = parent
    · rw [if_pos own, if_pos own.symm]
      rfl
    · rw [if_neg own, if_pos rfl]
      rfl
  · rw [update_of_ne self]
    by_cases own : p = parent
    · subst own
      rw [if_pos rfl, if_neg self, node_of_some there, there]
      rfl
    · rw [if_neg own, if_neg self]

theorem linkFirst_none {p : Place} (gone : (m.linkFirst place parent node).nodes p = none) :
    p ≠ place ∧ p ≠ parent ∧ m.nodes p = none := by
  rw [linkFirst_nodes] at gone
  split at gone
  · exact nomatch gone
  · rename_i own
    split at gone
    · exact nomatch gone
    · rename_i self
      exact ⟨self, own, gone⟩

theorem Linked.sound_linkFirst (linked : m.Linked kids (some place)) (inner : place ≠ .root)
    (there : m.nodes parent = some dir) (isParent : dir.isDir = true) (own : parent = place → node.isDir = true)
    (chain : Chain m.next node.children (kids place)) (file : node.isDir = false → kids place = [])
    (child : ∀ c ∈ kids place, c ≠ place ∧ ∃ child, m.nodes c = some child ∧ child.parent = some place)
    (houses : Houses m.heap (update m.nodes place (some node)) [])
    (sized : ∀ p old, m.nodes p = some old → old.Sized) (new : node.Sized)
    (dead : ∀ p, p ≠ place → m.nodes p = none → kids p = [])
    (files : ∀ fd file, m.files fd = some file → file.node = place ∧ node.isDir = false ∨
      file.node ≠ place ∧ ∃ old, m.nodes file.node = some old ∧ old.isDir = false) :
    (m.linkFirst place parent node).Sound ∧
      (m.linkFirst place parent node).childrenOf = update kids parent (place :: kids parent) := by
  have line : (m.linkFirst place parent node).Linked (update kids parent (place :: kids parent)) none :=
    linked.linkFirst inner there isParent own chain file child
  apply sound_of
  · apply houses.congr
    intro p node' sits
    rcases linkFirst_some there sits with ⟨rfl, children, rfl⟩ | ⟨self, old, here, children, rfl⟩
    · exact ⟨node, update_self _ _ _, by cases p <;> rfl⟩
    · exact ⟨old, (update_of_ne self _ _).trans here, by cases p <;> rfl⟩
  · intro p node' sits
    rcases linkFirst_some there sits with ⟨rfl, children, rfl⟩ | ⟨-, old, here, children, rfl⟩
    · exact ⟨new.full, new.empty, new.dir⟩
    · have size := sized p old here
      exact ⟨size.full, size.empty, size.dir⟩
  · exact line
  · intro p gone
    obtain ⟨self, notParent, none⟩ := linkFirst_none gone
    rw [update_of_ne notParent]
    exact dead p self none
  · intro fd file open_
    have entry : ∃ e, ((m.linkFirst place parent node).nodes file.node).map
        (fun node => TreeEntry.mk node.name node.isDir node.parent) = some e ∧ e.isDir = false := by
      rw [linkFirst_entry there]
      rcases files fd file open_ with ⟨same, plain⟩ | ⟨other, old, here, plain⟩
      · rw [same, update_self]
        exact ⟨_, rfl, plain⟩
      · rw [update_of_ne other, here]
        exact ⟨_, rfl, plain⟩
    obtain ⟨e, some, plain⟩ := entry
    obtain ⟨node', sits, rfl⟩ := map_eq_some_iff.mp some
    exact ⟨node', sits, plain⟩

theorem Sound.insertNode (h : m.Sound) (there : m.nodes parent = some dir) (isParent : dir.isDir = true)
    (houses : Houses m.heap m.nodes [(copy, name.bytes.length + 1), (ptr, nodeBytes)]) :
    (m.insertNode ptr copy parent name isDir).Sound ∧
      (m.insertNode ptr copy parent name isDir).tree = m.tree.insert (.block ptr) parent name isDir := by
  have fresh : m.nodes (.block ptr) = none := houses.fresh (mem_cons_of_mem _ mem_cons_self)
  have other : parent ≠ .block ptr := by
    rintro rfl
    exact nomatch fresh.symm.trans there
  have none : m.childrenOf (.block ptr) = [] := childrenOf_none fresh
  let new : Node := { Node.zero with name, namePtr := copy, isDir }
  have mine : Houses m.heap m.nodes (new.blocks (.block ptr) ++ []) := houses.perm (List.Perm.swap _ _ _)
  obtain ⟨sound, children⟩ := (h.linked.off_fresh fresh).sound_linkFirst nofun there isParent
    (fun same => absurd same other) (show Chain m.next new.children _ by rw [none]; rfl) (fun _ => none)
    (by rw [none]; exact nofun) (mine.install fresh) h.sized
    ⟨rfl, ⟨fun _ => rfl, fun _ => rfl⟩, fun _ => rfl⟩ (fun p _ gone => childrenOf_none gone) fun fd file open_ => by
      obtain ⟨old, sits, plain⟩ := h.files fd file open_
      refine .inr ⟨fun same => ?_, old, sits, plain⟩
      rw [same, fresh] at sits
      exact nomatch sits
  have entry := funext (@linkFirst_entry m (.block ptr) parent new dir there)
  unfold Mount.insertNode
  cases isDir
  · exact ⟨⟨sound.houses, sound.sized, sound.linked.congr fun _ => rfl, sound.files⟩, congrArg₂ (NamedTree.mk · · _ _) entry children⟩
  · exact ⟨⟨sound.houses, sound.sized, sound.linked.congr fun _ => rfl, sound.files⟩, congrArg₂ (NamedTree.mk · · _ _) entry children⟩

theorem Sound.allocNode_cases (h : m.Sound) (parent : Place) (name : Name) (isDir : Bool) :
    (∃ errno memory, m.allocNode parent name isDir = ({ m with heap := m.heap.withMemory memory }, .error errno) ∧
      Houses (m.heap.withMemory memory) m.nodes [] ∧ SameData m.heap (m.heap.withMemory memory) m.nodes) ∨
    ∃ memory ptr copy, m.allocNode parent name isDir =
        ({ m with heap := m.heap.withMemory memory }.insertNode ptr copy parent name isDir, .ok (.block ptr)) ∧
      Houses (m.heap.withMemory memory) m.nodes [(copy, name.bytes.length + 1), (ptr, nodeBytes)] ∧
      SameData m.heap (m.heap.withMemory memory) m.nodes := by
  unfold allocNode
  rcases h.houses.alloc nodeBytes with ⟨errno, none⟩ | ⟨memory, ptr, some, housed, same⟩
  · rw [none]
    exact .inl ⟨errno, m.heap.memory, rfl, h.houses, SameData.refl _ _⟩
  · rw [some]
    rcases housed.alloc (name.bytes.length + 1) with ⟨errno, none⟩ | ⟨memory', copy, some', housed', same'⟩
    · obtain ⟨memory', frees, back, same'⟩ := housed.free
      simp only [none, frees]
      exact .inl ⟨errno, memory', rfl, back, same.trans same'⟩
    · simp only [some']
      exact .inr ⟨memory', ptr, copy, rfl, housed', same.trans same'⟩

section Removing

theorem without_houses {spare : List (Nat × Nat)} {heap : Heap} (h : Houses heap m.nodes spare) :
    Houses heap (m.without q place xs).nodes spare := by
  apply h.congr
  intro p node' sits
  obtain ⟨node, there, rfl⟩ := without_some sits
  exact ⟨node, there, by cases p <;> rfl⟩

theorem without_entry (p : Place) :
    ((m.without q place xs).nodes p).map (fun node => TreeEntry.mk node.name node.isDir node.parent) =
      (m.nodes p).map fun node => TreeEntry.mk node.name node.isDir node.parent := by
  cases there : m.nodes p with
  | none => simp [without, there]
  | some node =>
    rw [without_of_some there]
    rfl

theorem without_sized (h : m.Sound) (p : Place) (node' : Node) (sits : (m.without q place xs).nodes p = some node') :
    node'.Sized := by
  obtain ⟨node, there, rfl⟩ := without_some sits
  have size := h.sized p node there
  exact ⟨size.full, size.empty, size.dir⟩

theorem Sound.unlinkNode (h : m.Sound) (there : m.nodes place = some node) (inner : place ≠ .root) :
    ∃ q xs, node.parent = some q ∧ (m.nodes q).isSome ∧ m.unlinkNode place = m.without q place xs ∧
      (m.without q place xs).Linked (update m.childrenOf q ((m.childrenOf q).erase place)) (some place) ∧
      place ∈ m.childrenOf q := by
  obtain ⟨q, up, live, inside⟩ := h.linked.parent place node there inner nofun
  obtain ⟨xs, ys, split⟩ := append_of_mem inside
  have absent : place ∉ xs := by
    have distinct := h.linked.nodup live
    rw [split, nodup_middle, nodup_cons] at distinct
    exact fun first => distinct.1 (mem_append_left _ first)
  have erased : (m.childrenOf q).erase place = xs ++ ys := by
    rw [split, erase_append_right _ absent, erase_cons_head]
  have enough : xs.length < m.heap.arenaBytes := by
    have le := length_kids h.houses h.linked live
    rw [split, length_append, length_cons] at le
    omega
  refine ⟨q, xs, up, live, h.linked.unlinkNode_eq there up live split enough, ?_, inside⟩
  rw [erased]
  exact h.linked.without live split

theorem freeNode_block (sits : m.nodes (.block ptr) = some node) : m.freeNode (.block ptr) =
    { heap := free (free (free m.heap node.data) node.namePtr) ptr
      nodes := update m.nodes (.block ptr) none
      fileCount := if node.isDir then m.fileCount else m.fileCount - 1
      dirCount := if node.isDir then m.dirCount - 1 else m.dirCount
      files := m.files } := by
  rw [freeNode, node_of_some sits]
  cases node.isDir <;> rfl

theorem Sound.removeNode (h : m.Sound) (there : m.nodes place = some node) (inner : place ≠ .root)
    (none : m.childrenOf place = []) (closed : ∀ fd file, m.files fd = some file → file.node ≠ place) :
    ∃ q, node.parent = some q ∧ (m.removeNode place).Sound ∧ (m.removeNode place).tree = m.tree.remove place q node.isDir ∧
      (m.removeNode place).files = m.files := by
  obtain ⟨q, xs, up, live, unlinked, linked, inside⟩ := h.unlinkNode there inner
  have other : place ≠ q := by
    rintro rfl
    rw [none] at inside
    exact not_mem_nil inside
  refine ⟨q, up, ?_⟩
  have sits : (m.without q place xs).nodes place = some (m.unlinked q place xs place node) := without_of_some there
  have noChildren : ((m.without q place xs).node place).children = Option.none := by
    have chain := linked.chain place _ sits
    rw [update_of_ne other, none] at chain
    rw [node_of_some sits]
    exact chain
  have removed : m.removeNode place = (m.without q place xs).freeNode place := by
    unfold Mount.removeNode
    rw [unlinked, freeTree, noChildren]
    cases m.heap.arenaBytes <;> rfl
  obtain ⟨ptr, rfl⟩ : ∃ ptr, place = .block ptr := by
    cases place with
    | root => exact absurd rfl inner
    | block ptr => exact ⟨ptr, rfl⟩
  obtain ⟨memory, frees, houses⟩ := ((without_houses h.houses).uninstall sits).freeBlocks
  have result : m.removeNode (.block ptr) =
      { heap := m.heap.withMemory memory
        nodes := update (m.without q (.block ptr) xs).nodes (.block ptr) Option.none
        fileCount := if node.isDir then m.fileCount else m.fileCount - 1
        dirCount := if node.isDir then m.dirCount - 1 else m.dirCount
        files := m.files } := by
    rw [removed, freeNode_block sits, ← frees]
    rfl
  have nodes : (m.removeNode (.block ptr)).nodes =
      update (m.without q (.block ptr) xs).nodes (.block ptr) Option.none := by rw [result]
  have files : (m.removeNode (.block ptr)).files = m.files := by rw [result]
  have kept : ∀ {p node'}, (m.removeNode (.block ptr)).nodes p = some node' →
      p ≠ .block ptr ∧ (m.without q (.block ptr) xs).nodes p = some node' := by
    intro p node' here
    rw [nodes] at here
    by_cases self : p = .block ptr
    · rw [self, update_self] at here
      exact nomatch here
    · rw [update_of_ne self] at here
      exact ⟨self, here⟩
  have line : (m.removeNode (.block ptr)).Linked
      (update m.childrenOf q ((m.childrenOf q).erase (.block ptr))) Option.none :=
    linked.erase inner (by rw [update_of_ne other, none]) nodes
  obtain ⟨sound, children⟩ := sound_of (m := m.removeNode (.block ptr)) (by rw [result]; exact houses)
    (fun p node' here => without_sized h p node' (kept here).2) line
    (fun p gone => by
      rw [nodes] at gone
      by_cases self : p = .block ptr
      · rw [self, update_of_ne other, none]
      · rw [update_of_ne self] at gone
        have dead : m.nodes p = Option.none := map_eq_none_iff.mp gone
        have notParent : p ≠ q := by
          rintro rfl
          rw [dead] at live
          exact nomatch live
        rw [update_of_ne notParent, childrenOf_none dead])
    (fun fd file open_ => by
      rw [files] at open_
      obtain ⟨old, here, plain⟩ := h.files fd file open_
      refine ⟨m.unlinked q (.block ptr) xs file.node old, ?_, plain⟩
      rw [nodes, update_of_ne (closed fd file open_)]
      exact without_of_some here)
  refine ⟨sound, NamedTree.ext ?_ children ?_ ?_, files⟩
  · funext p
    unfold Mount.tree NamedTree.remove
    rw [nodes]
    by_cases self : p = .block ptr
    · rw [self]
      simp only [update_self, map_none]
    · simp only [update_of_ne self]
      exact without_entry p
  · rw [result]
    rfl
  · rw [result]
    rfl

theorem Sound.moveNode (h : m.Sound) (there : m.nodes place = some node) (inner : place ≠ .root)
    (dirThere : m.nodes parent = some dir) (isParent : dir.isDir = true)
    (houses : Houses m.heap m.nodes [(copy, name.bytes.length + 1)]) :
    ∃ q, node.parent = some q ∧ (m.moveNode place parent name copy).Sound ∧
      (m.moveNode place parent name copy).tree = m.tree.move place q parent name node.isDir ∧
      (m.moveNode place parent name copy).files = m.files := by
  obtain ⟨q, xs, up, live, unlinked, linked, -⟩ := h.unlinkNode there inner
  refine ⟨q, up, ?_⟩
  obtain ⟨ptr, rfl⟩ : ∃ ptr, place = .block ptr := by
    cases place with
    | root => exact absurd rfl inner
    | block ptr => exact ⟨ptr, rfl⟩
  generalize base : m.unlinked q (.block ptr) xs (.block ptr) node = old at *
  have sits : (m.without q (.block ptr) xs).nodes (.block ptr) = some old := by
    rw [← base]
    exact without_of_some there
  have sized : old.Sized := without_sized h _ old sits
  have fields : old.namePtr = node.namePtr ∧ old.isDir = node.isDir := by
    rw [← base]
    exact ⟨rfl, rfl⟩
  -- the block of the old name is freed, the others and that of the new name are the record's
  have perm : (old.blocks (.block ptr) ++ [(copy, name.bytes.length + 1)]).Perm
      ((old.namePtr, old.name.bytes.length + 1) ::
        ((ptr, nodeBytes) :: (if old.data = 0 then [] else [(old.data, old.capacity)]) ++ [(copy, name.bytes.length + 1)])) :=
    List.Perm.swap _ _ _
  obtain ⟨memory, frees, housed, -⟩ := (((without_houses houses).uninstall sits).perm perm).free
  let new : Node := { old with name, namePtr := copy }
  let g : Mount := { m.without q (.block ptr) xs with heap := m.heap.withMemory memory }
  have result : m.moveNode (.block ptr) parent name copy = g.linkFirst (.block ptr) parent new := by
    have sits' : g.nodes (.block ptr) = some old := sits
    unfold Mount.moveNode
    rw [node_of_some there, ← fields.1, unlinked]
    simp only
    rw [show free (m.without q (.block ptr) xs).heap old.namePtr = m.heap.withMemory memory from frees]
    exact congrArg (fun node => g.linkFirst (.block ptr) parent { node with name, namePtr := copy }) (node_of_some sits')
  have housed' : Houses g.heap (update g.nodes (.block ptr) (some new)) [] := by
    have perm' : ((ptr, nodeBytes) :: (if old.data = 0 then [] else [(old.data, old.capacity)]) ++
        [(copy, name.bytes.length + 1)]).Perm (new.blocks (.block ptr) ++ []) := by
      rw [append_nil, cons_append]
      exact (perm_append_singleton _ _).cons _
    have installed := (housed.perm perm').install (update_self _ _ _)
    rwa [update_idem] at installed
  have dirThere' : g.nodes parent = some (m.unlinked q (.block ptr) xs parent dir) := without_of_some dirThere
  have line : g.Linked (update m.childrenOf q ((m.childrenOf q).erase (.block ptr))) (some (.block ptr)) :=
    linked.congr fun _ => rfl
  have notSelf : ∀ c ∈ update m.childrenOf q ((m.childrenOf q).erase (.block ptr)) (.block ptr),
      c ≠ .block ptr ∧ ∃ child, g.nodes c = some child ∧ child.parent = some (.block ptr) := by
    intro c inside
    obtain ⟨other, child⟩ := line.child (.block ptr) (isSome_iff_exists.mpr ⟨old, sits⟩) c inside
    exact ⟨fun same => other (congrArg some same), child⟩
  have chain : Chain g.next new.children _ := line.chain _ old sits
  obtain ⟨sound, children⟩ := line.sound_linkFirst inner dirThere' isParent
    (fun same => by
      rw [same, there] at dirThere
      cases dirThere
      exact fields.2.trans isParent)
    chain (line.file _ old sits) notSelf housed'
    (fun p node' here => without_sized h p node' here) ⟨sized.full, sized.empty, sized.dir⟩
    (fun p self gone => by
      have dead : m.nodes p = none := map_eq_none_iff.mp gone
      have notParent : p ≠ q := by
        rintro rfl
        rw [dead] at live
        exact nomatch live
      rw [update_of_ne notParent, childrenOf_none dead])
    (fun fd file open_ => by
      obtain ⟨opened, here, plain⟩ := h.files fd file open_
      by_cases self : file.node = .block ptr
      · rw [self, there] at here
        cases here
        exact .inl ⟨self, fields.2.trans plain⟩
      · exact .inr ⟨self, _, without_of_some here, plain⟩)
  rw [result]
  refine ⟨sound, NamedTree.ext ?_ children rfl rfl, rfl⟩
  funext p
  refine (linkFirst_entry dirThere' p).trans ?_
  have entry : (fun p => (g.nodes p).map fun node => TreeEntry.mk node.name node.isDir node.parent) = m.tree.entry :=
    funext without_entry
  rw [entry]
  unfold NamedTree.move
  rw [← fields.2]

end Removing

end Mount
end SolarOs.Ramfs
